-- A table holds at most one value for each key, in the order of its keys.
-- So a look-up sees the last value that was put under a key, and a listing
-- of the table never depends on the history of its insertions.

namespace LineBasic

/-- Entries sorted by key. -/
structure Table (κ α : Type) where
  entries : List (κ × α) := []
deriving DecidableEq, Inhabited

namespace Table

variable {κ α β : Type}

/-! ## Look-up -/

/-- The value of the first entry for a key. -/
def find [DecidableEq κ] (key : κ) : List (κ × α) → Option α
  | [] => none
  | (k, a) :: rest => if k = key then some a else find key rest

def get? [DecidableEq κ] (t : Table κ α) (key : κ) : Option α := find key t.entries

def contains [DecidableEq κ] (t : Table κ α) (key : κ) : Bool := (t.get? key).isSome

def size (t : Table κ α) : Nat := t.entries.length

def isEmpty (t : Table κ α) : Bool := t.entries.isEmpty

def keys (t : Table κ α) : List κ := t.entries.map (·.1)

/-! ## Changes -/

/-- Puts a value under a key, in the place that the order of the keys gives it. -/
def place [DecidableEq κ] [LT κ] [DecidableLT κ] (key : κ) (a : α) :
    List (κ × α) → List (κ × α)
  | [] => [(key, a)]
  | (k, b) :: rest =>
    if k = key then (key, a) :: rest
    else if key < k then (key, a) :: (k, b) :: rest
    else (k, b) :: place key a rest

def insert [DecidableEq κ] [LT κ] [DecidableLT κ] (t : Table κ α) (key : κ) (a : α) : Table κ α :=
  ⟨place key a t.entries⟩

/-- Puts a value under a key that has none, and keeps the value of a key that has one. -/
def insertNew [DecidableEq κ] [LT κ] [DecidableLT κ] (t : Table κ α) (key : κ) (a : α) :
    Table κ α :=
  if t.contains key then t else t.insert key a

def erase [DecidableEq κ] (t : Table κ α) (key : κ) : Table κ α :=
  ⟨t.entries.filter fun e => e.1 ≠ key⟩

/-- Changes every value and no key. -/
def mapValues (t : Table κ α) (f : α → β) : Table κ β :=
  ⟨t.entries.map fun e => (e.1, f e.2)⟩

/-- Later pairs win over earlier ones with the same key. -/
def ofList [DecidableEq κ] [LT κ] [DecidableLT κ] (pairs : List (κ × α)) : Table κ α :=
  pairs.foldl (fun t p => t.insert p.1 p.2) {}

/-! ## The laws of look-up -/

@[simp] theorem get?_empty [DecidableEq κ] (key : κ) : ({} : Table κ α).get? key = none := rfl

theorem find_place_self [DecidableEq κ] [LT κ] [DecidableLT κ] (key : κ) (a : α)
    (l : List (κ × α)) : find key (place key a l) = some a := by
  induction l with
  | nil => simp [place, find]
  | cons e rest ih =>
    obtain ⟨k, b⟩ := e
    by_cases hk : k = key
    · simp [place, find, hk]
    · by_cases hl : key < k <;> simp [place, find, hk, hl, ih]

theorem find_place_ne [DecidableEq κ] [LT κ] [DecidableLT κ] {key other : κ} (h : key ≠ other)
    (a : α) (l : List (κ × α)) : find other (place key a l) = find other l := by
  induction l with
  | nil => simp [place, find, h]
  | cons e rest ih =>
    obtain ⟨k, b⟩ := e
    by_cases hk : k = key
    · simp [place, find, hk, h]
    · by_cases hl : key < k <;> simp [place, find, hk, hl, h, ih]

@[simp] theorem get?_insert_self [DecidableEq κ] [LT κ] [DecidableLT κ] (t : Table κ α) (key : κ)
    (a : α) : (t.insert key a).get? key = some a := find_place_self key a t.entries

theorem get?_insert_ne [DecidableEq κ] [LT κ] [DecidableLT κ] (t : Table κ α) {key other : κ}
    (h : key ≠ other) (a : α) : (t.insert key a).get? other = t.get? other :=
  find_place_ne h a t.entries

/-- What is found after an insertion is the new value, or it was there under another key. -/
theorem get?_insert_eq_some [DecidableEq κ] [LT κ] [DecidableLT κ] {t : Table κ α} {key other : κ}
    {a b : α} : (t.insert key a).get? other = some b ↔
      key = other ∧ a = b ∨ key ≠ other ∧ t.get? other = some b := by
  by_cases h : key = other
  · simp [h]
  · simp [h, get?_insert_ne t h]

theorem find_filter_self [DecidableEq κ] (key : κ) (l : List (κ × α)) :
    find key (l.filter fun e => e.1 ≠ key) = none := by
  induction l with
  | nil => rfl
  | cons e rest ih =>
    obtain ⟨k, b⟩ := e
    by_cases hk : k = key
    · simpa [hk] using ih
    · simpa [find, hk] using ih

theorem find_filter_ne [DecidableEq κ] {key other : κ} (h : key ≠ other) (l : List (κ × α)) :
    find other (l.filter fun e => e.1 ≠ key) = find other l := by
  induction l with
  | nil => rfl
  | cons e rest ih =>
    obtain ⟨k, b⟩ := e
    by_cases hk : k = key
    · simpa [find, hk, h] using ih
    · by_cases ho : k = other
      · simp [find, ho, h.symm]
      · simpa [find, hk, ho] using ih

@[simp] theorem get?_erase_self [DecidableEq κ] (t : Table κ α) (key : κ) :
    (t.erase key).get? key = none := find_filter_self key t.entries

theorem filter_of_find_eq_none [DecidableEq κ] {key : κ} {l : List (κ × α)} (h : find key l = none) :
    l.filter (fun e => e.1 ≠ key) = l := by
  rw [List.filter_eq_self]
  intro e he
  induction l with
  | nil => cases he
  | cons first rest ih =>
    obtain ⟨k, b⟩ := first
    by_cases hk : k = key
    · simp [find, hk] at h
    · rcases List.mem_cons.1 he with rfl | he
      · simpa using hk
      · exact ih (by simpa [find, hk] using h) he

/-- Nothing is erased under a key that has no value. -/
theorem erase_of_get?_eq_none [DecidableEq κ] {t : Table κ α} {key : κ} (h : t.get? key = none) :
    t.erase key = t := by
  unfold erase
  rw [filter_of_find_eq_none h]

theorem get?_erase_ne [DecidableEq κ] (t : Table κ α) {key other : κ} (h : key ≠ other) :
    (t.erase key).get? other = t.get? other := find_filter_ne h t.entries

/-- What is found after a removal was there under another key. -/
theorem get?_erase_eq_some [DecidableEq κ] {t : Table κ α} {key other : κ} {b : α} :
    (t.erase key).get? other = some b ↔ key ≠ other ∧ t.get? other = some b := by
  by_cases h : key = other
  · simp [h]
  · simp [h, get?_erase_ne t h]

theorem place_place [DecidableEq κ] [LT κ] [DecidableLT κ] (key : κ) (a b : α)
    (l : List (κ × α)) : place key b (place key a l) = place key b l := by
  induction l with
  | nil => simp [place]
  | cons e rest ih =>
    obtain ⟨k, c⟩ := e
    by_cases hk : k = key
    · simp [place, hk]
    · by_cases hl : key < k <;> simp [place, hk, hl, ih]

/-- A second value under a key replaces the first. -/
theorem insert_insert [DecidableEq κ] [LT κ] [DecidableLT κ] (t : Table κ α) (key : κ) (a b : α) :
    (t.insert key a).insert key b = t.insert key b :=
  congrArg Table.mk (place_place key a b t.entries)

section Orders

variable [DecidableEq κ] [LT κ] [DecidableLT κ] [@Std.Asymm κ (· < ·)]
  [@Trans κ κ κ (· < ·) (· < ·) (· < ·)]

theorem place_comm_of_lt {key other : κ} (h : key < other) (a b : α) (l : List (κ × α)) :
    place key a (place other b l) = place other b (place key a l) := by
  have hback : ¬ other < key := Std.Asymm.asymm key other h
  have hne : key ≠ other := fun heq => hback (heq ▸ h)
  induction l with
  | nil => simp [place, h, hback, hne, hne.symm]
  | cons e rest ih =>
    obtain ⟨k, c⟩ := e
    by_cases hkey : k = key
    · subst hkey
      simp [place, hback, hne]
    · by_cases hother : k = other
      · subst hother
        simp [place, h, hback, hne, hne.symm]
      · by_cases hk : key < k
        · by_cases ho : other < k <;> simp [place, hkey, hother, hk, ho, h, hback, hne, hne.symm]
        · have ho : ¬ other < k := fun ho => hk (Trans.trans h ho)
          simp [place, hkey, hother, hk, ho, ih]

/-- Values under two keys may be put there in either order. -/
theorem insert_comm [@Std.Trichotomous κ (· < ·)] (t : Table κ α) {key other : κ}
    (h : key ≠ other) (a b : α) :
    (t.insert key a).insert other b = (t.insert other b).insert key a := by
  refine congrArg Table.mk ?_
  by_cases hlt : key < other
  · exact (place_comm_of_lt hlt a b t.entries).symm
  · by_cases hgt : other < key
    · exact place_comm_of_lt hgt b a t.entries
    · exact absurd (Std.Trichotomous.trichotomous key other hlt hgt) h

end Orders

theorem find_map (f : α → β) [DecidableEq κ] (key : κ) (l : List (κ × α)) :
    find key (l.map fun e => (e.1, f e.2)) = (find key l).map f := by
  induction l with
  | nil => rfl
  | cons e rest ih =>
    obtain ⟨k, b⟩ := e
    by_cases hk : k = key <;> simp [find, hk, ih]

@[simp] theorem get?_mapValues [DecidableEq κ] (t : Table κ α) (f : α → β) (key : κ) :
    (t.mapValues f).get? key = (t.get? key).map f := find_map f key t.entries

end Table

end LineBasic
