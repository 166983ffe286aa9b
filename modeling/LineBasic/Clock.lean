-- The time of day and the date, read off a count of nanoseconds. The clock is
-- a value: whoever runs a program says what time it is.

namespace LineBasic

/-- `instant` counts from the first of January 1970, UTC; `offset` is how many
seconds local time is ahead of it. -/
structure Clock where
  instant : Nat := 0
  offset : Int := 0
deriving DecidableEq, Inhabited

namespace Clock

/-- A sequence of times from its member `n` on. -/
def later (times : Nat → Clock) (n : Nat) : Nat → Clock := fun i => times (n + i)

def perSecond : Nat := 1000000000

def perDay : Nat := 86400

/-- Seconds of local time. -/
def localSeconds (c : Clock) : Int := (c.instant / perSecond : Nat) + c.offset

def secondOfDay (c : Clock) : Nat := (c.localSeconds.emod perDay).toNat

def day (c : Clock) : Int := c.localSeconds.ediv perDay

/-- Nanoseconds since the last full second. -/
def fraction (c : Clock) : Nat := c.instant % perSecond

/-- Seconds since midnight. -/
def timer (c : Clock) : Float :=
  Float.ofNat c.secondOfDay + Float.ofNat c.fraction / Float.ofNat perSecond

/-- A number with zeros in front of it. -/
def padded (places n : Nat) : String :=
  let digits := toString n
  String.ofList (List.replicate (places - digits.length) '0') ++ digits

/-- Hours, minutes and seconds. -/
def time (c : Clock) : String :=
  let s := c.secondOfDay
  padded 2 (s / 3600) ++ ":" ++ padded 2 (s / 60 % 60) ++ ":" ++ padded 2 (s % 60)

/-- Year, month and day of a day number. Years are counted from March, so that
a leap day comes last; four hundred of them have 146097 days. -/
def civil (day : Int) : Int × Nat × Nat :=
  let shifted := day + 719468
  let era := shifted.ediv 146097
  let dayOfEra := (shifted.emod 146097).toNat
  let yearOfEra := (dayOfEra - dayOfEra / 1460 + dayOfEra / 36524 - dayOfEra / 146096) / 365
  let dayOfYear := dayOfEra - (365 * yearOfEra + yearOfEra / 4 - yearOfEra / 100)
  let march := (5 * dayOfYear + 2) / 153
  let dayOfMonth := dayOfYear - (153 * march + 2) / 5 + 1
  let month := if march < 10 then march + 3 else march - 9
  (yearOfEra + era * 400 + (if month ≤ 2 then 1 else 0), month, dayOfMonth)

def date (c : Clock) : String :=
  let (year, month, dayOfMonth) := civil c.day
  padded 4 year.toNat ++ "-" ++ padded 2 month ++ "-" ++ padded 2 dayOfMonth

/-- A seed that differs from moment to moment. -/
def seed (c : Clock) : UInt64 :=
  ((c.instant / perSecond).toUInt64 <<< 32) ^^^ c.fraction.toUInt64

end Clock

end LineBasic
