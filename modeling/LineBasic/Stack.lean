-- A stack with a limit. Its entries are listed from the bottom to the top, so
-- an entry keeps its place for as long as it stays on the stack.
import LineBasic.Error

namespace LineBasic

/-- `note` is the message of the error that a push past the limit raises. -/
structure Stack (α : Type) where
  note : String
  limit : Nat
  items : List α := []
deriving DecidableEq, Inhabited

/-- The last place at which a test holds. -/
def lastPlace? {α : Type} (test : α → Bool) : List α → Option Nat
  | [] => none
  | a :: rest =>
    match lastPlace? test rest with
    | some i => some (i + 1)
    | none => if test a then some 0 else none

namespace Stack

variable {α : Type}

def size (s : Stack α) : Nat := s.items.length

def isEmpty (s : Stack α) : Bool := s.items.isEmpty

def top? (s : Stack α) : Option α := s.items.getLast?

def get? (s : Stack α) (i : Nat) : Option α := s.items[i]?

/-- A push that fails leaves nothing behind. -/
def push (s : Stack α) (a : α) : Except Error (Stack α) :=
  if s.items.length < s.limit then .ok { s with items := s.items ++ [a] }
  else .error (Error.overfull s.note)

def pop (s : Stack α) : Stack α := { s with items := s.items.dropLast }

/-- Keeps the lowest `n` entries. -/
def truncate (s : Stack α) (n : Nat) : Stack α := { s with items := s.items.take n }

def erase (s : Stack α) (i : Nat) : Stack α := { s with items := s.items.eraseIdx i }

def modify (s : Stack α) (i : Nat) (f : α → α) : Stack α := { s with items := s.items.modify i f }

def clear (s : Stack α) : Stack α := { s with items := [] }

/-- Place of the topmost entry that passes a test. -/
def lastPlace? (s : Stack α) (test : α → Bool) : Option Nat := LineBasic.lastPlace? test s.items

def render (s : Stack α) (entry : α → String) : String :=
  "[" ++ ", ".intercalate (s.items.map entry) ++ "]"

end Stack

end LineBasic
