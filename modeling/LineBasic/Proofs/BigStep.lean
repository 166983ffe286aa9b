-- The meaning of a well-nested program, told by its tree: what a branch, a case
-- and a loop do as a whole, without lines to jump to and without frames. Loops
-- may go on forever, so a run is told up to a number of passes.
import LineBasic.Proofs.Nesting
import LineBasic.Session.Execute

namespace LineBasic

/-! ## Worlds -/

/-- All that a program can see and change, but not where it is. -/
structure World where
  vars : Variables
  trail : Trail
  keyboard : Keyboard
  host : Host
  wakeAt : Option Nat

namespace World

variable {α : Type}

/-- The world as the state of a program at a line and in some blocks. -/
def state (w : World) (line : Nat) (fs : Frames) : State :=
  { memory := { «variables» := w.vars, trail := w.trail, line, keyboard := w.keyboard }
    frames := fs
    host := w.host }

def after (w : World) (s : State) : World :=
  { vars := s.memory.variables
    trail := s.memory.trail
    keyboard := s.memory.keyboard
    host := s.host
    wakeAt := w.wakeAt }

/-- Does in the world what asks for nothing else. What a failure has done up to
then stays done. -/
def does (w : World) (x : Run α) : Except Error α × World :=
  match x {} (w.state 0 Frames.empty) with
  | .ok a s => (.ok a, w.after s)
  | .error e s => (.error e, w.after s)

/-- A statement may ask for a rest. -/
def resting (w : World) : Flow → World
  | .rest delay => { w with wakeAt := some (w.host.clock.instant + delay) }
  | _ => w

end World

/-! ## Endings -/

/-- How a run ends. -/
inductive Ending where
  | done (w : World)
  | failed (e : Error) (w : World)
  /-- Some loop has more passes than are allowed. -/
  | endless

/-- First one run, then another in the world that it left. -/
def Ending.andThen : Ending → (World → Ending) → Ending
  | .done w, next => next w
  | .failed e w, _ => .failed e w
  | .endless, _ => .endless

/-- Does something on behalf of a line and goes on with the result. -/
def World.doing {α : Type} (line : Nat) (x : Run α) (next : α → World → Ending) (w : World) :
    Ending :=
  match w.does x with
  | (.ok a, w) => next a w
  | (.error e, w) => .failed (e.inLine line) w

/-! ## Loops -/

/-- Up to `n` passes through a body. After each pass the line `last` tells
whether there is another one, and what it starts from. -/
def passes {α : Type} (body : World → Ending) (last : Nat) (again : α → Run (Bool × α)) :
    (n : Nat) → α → World → Ending
  | 0, _, _ => .endless
  | n + 1, a, w =>
    (body w).andThen <| World.doing last (again a) fun r w =>
      if r.1 then passes body last again n r.2 w else .done w

/-- A loop with a test before its first pass and a test after each. -/
def testedLoop (n place last : Nat) (first again : Run Bool) (body : World → Ending) :
    World → Ending :=
  World.doing place first fun more w =>
    if more then passes body last (fun _ => do return (← again, ())) n () w else .done w

namespace Run

def untilTest (e : Expression) : Run Bool := do return !(← condition e)

/-- A DO loop goes around if the test at its end holds and then the one at its head. -/
def bothHold (tail head : Condition) : Run Bool := do
  if ← test tail then test head else return false

/-- The start of a FOR loop. There is none if the counter starts out of range. -/
def forEntry (name : Name) (start limit : Expression) (step : Option Expression) :
    Run (Option ForLoop) := do
  let start ← number (← value start)
  let limit ← number (← value limit)
  let step ← match step with
    | some e => do number (← value e)
    | none => pure (.integer 1)
  if start.within limit step then
    store name (.ofNumber start)
    let assigned := (← memory).variables.peek name
    return some { name, start, limit, step, counter := start, assigned }
  else return none

/-- The end of a pass of a FOR loop. A variable that still holds what the loop stored there
leaves the count where it is; whatever else the body put there is what the loop counts on
from. The step is added and the sum is stored. There is another pass if the step moved the
count, or is zero, and the sum is not past the limit. -/
def counting (loop : ForLoop) : Run (Bool × ForLoop) := do
  let v ← observe (Eval.get loop.name)
  let count ← require (if v.same loop.assigned then some loop.counter else v.number?)
    (Error.forNeedsNumbers v.kind)
  let next ← number (← ofExcept (Value.sum (.ofNumber count) (.ofNumber loop.step)))
  store loop.name (.ofNumber next)
  let assigned := (← memory).variables.peek loop.name
  return ((loop.step.isZero || !next.same count) && next.within loop.limit loop.step,
    { loop with counter := next, assigned })

end Run

theorem Value.number?_ofNumber (n : Number) : (Value.ofNumber n).number? = some n := by
  cases n <;> rfl

theorem Value.sum_ofNumber (m n : Number) :
    (Value.ofNumber m).sum (.ofNumber n) = .ok (.ofNumber (m.add n)) := by
  cases m <;> cases n <;> rfl

/-- NEXT ends a pass as the loop asks for. -/
theorem Run.counting_eq (loop : ForLoop) : counting loop = (do
    let count ← counterAfter loop (← observe (Eval.get loop.name))
    let next := count.add loop.step
    store loop.name (.ofNumber next)
    let assigned := (← memory).variables.peek loop.name
    return (!stalled count next loop.step && next.within loop.limit loop.step,
      { loop with counter := next, assigned })) := by
  unfold counting
  refine bind_congr fun v => ?_
  have hcount : require (if v.same loop.assigned then some loop.counter else v.number?)
      (Error.forNeedsNumbers v.kind) = counterAfter loop v := by
    unfold counterAfter
    split <;> rfl
  rw [hcount]
  refine bind_congr fun count => ?_
  have hnext : (do number (← ofExcept (Value.sum (.ofNumber count) (.ofNumber loop.step)))) =
      (pure (count.add loop.step) : Run Number) := by
    rw [Value.sum_ofNumber]
    change require (Value.ofNumber _).number? _ = _
    rw [Value.number?_ofNumber]
    rfl
  rw [← bind_assoc, hnext, pure_bind]
  simp only [stalled, Bool.not_and, Bool.not_not, Bool.or_comm]

/-! ## Blocks -/

/-- The test at the end of a DO loop. -/
def Statement.loopTest : Statement → Condition
  | .loop c => c
  | _ => .always

def Parts.closing : Parts → Statement
  | .last _ closing => closing
  | .clause _ _ rest => rest.closing

/-- A block that starts at `place` and ends at `last`: `head` runs its first body,
`branch` the rest of an IF that was not taken, and `cases` the CASEs for a value. -/
def runBlock (n place last : Nat) (first closing : Statement) (head branch : World → Ending)
    (cases : Value → World → Ending) : World → Ending :=
  match first with
  | .if e => World.doing place (Run.condition e) fun taken w => if taken then head w else branch w
  | .unless e =>
    World.doing place (Run.condition e) fun taken w => if taken then branch w else head w
  | .while e => testedLoop n place last (Run.condition e) (Run.condition e) head
  | .until e => testedLoop n place last (Run.untilTest e) (Run.untilTest e) head
  | .do c => testedLoop n place last (Run.test c) (Run.bothHold closing.loopTest c) head
  | .for name start limit step =>
    World.doing place (Run.forEntry name start limit step) fun loop w =>
      match loop with
      | some loop => passes head last Run.counting n loop w
      | none => .done w
  | .select e => World.doing place (Run.value e) cases
  | _ => .done

mutual

/-- Runs a body that starts at `place`, with up to `n` passes through every loop. -/
def Body.run (n : Nat) : (place : Nat) → Body → World → Ending
  | _, .nil => .done
  | place, .line st rest =>
    World.doing place (Run.execute st) fun flow w => rest.run n (place + 1) (w.resting flow)
  | place, .block first parts rest => fun w =>
    (runBlock n place (place + parts.size) first parts.closing (parts.head n (place + 1))
      (parts.branch n (place + 1)) (fun v => parts.cases n v (place + 1)) w).andThen
      (rest.run n (place + parts.size + 1))

/-- The body up to the first clause. -/
def Parts.head (n : Nat) : (place : Nat) → Parts → World → Ending
  | place, .last body _ => body.run n place
  | place, .clause body _ _ => body.run n place

/-- The first clause whose condition holds, if any. An ELSE always does. -/
def Parts.branch (n : Nat) : (place : Nat) → Parts → World → Ending
  | _, .last _ _ => .done
  | place, .clause body dividing rest =>
    match dividing with
    | .elseIf e => World.doing (place + body.size) (Run.condition e) fun taken w =>
      if taken then rest.head n (place + body.size + 1) w
      else rest.branch n (place + body.size + 1) w
    | _ => rest.head n (place + body.size + 1)

/-- The first CASE that matches a value, if any. -/
def Parts.cases (n : Nat) (v : Value) : (place : Nat) → Parts → World → Ending
  | _, .last _ _ => .done
  | place, .clause body dividing rest =>
    match dividing with
    | .case tests => World.doing (place + body.size) (Run.anyMatches v tests) fun matched w =>
      if matched then rest.head n (place + body.size + 1) w
      else rest.cases n v (place + body.size + 1) w
    | _ => .done

end

/-! ## More passes -/

/-- The one ending is the other, or was cut short. -/
def Ending.UpTo (r r' : Ending) : Prop := r = .endless ∨ r = r'

namespace Ending.UpTo

variable {α : Type} {r r' : Ending}

theorem refl (r : Ending) : r.UpTo r := Or.inr rfl

theorem andThen {f g : World → Ending} (h : r.UpTo r') (hf : ∀ w, (f w).UpTo (g w)) :
    (r.andThen f).UpTo (r'.andThen g) := by
  rcases h with rfl | rfl
  · exact Or.inl rfl
  · cases r with
    | done w => exact hf w
    | failed e w => exact refl _
    | endless => exact refl _

theorem doing {f g : α → World → Ending} (line : Nat) (x : Run α) (w : World)
    (hf : ∀ a w, (f a w).UpTo (g a w)) : (w.doing line x f).UpTo (w.doing line x g) := by
  unfold World.doing
  generalize w.does x = r
  obtain ⟨e | a, v⟩ := r
  · exact refl _
  · exact hf a v

theorem ite {f g f' g' : Ending} (c : Bool) (hf : f.UpTo f') (hg : g.UpTo g') :
    Ending.UpTo (if c then f else g) (if c then f' else g') := by
  cases c with
  | true => exact hf
  | false => exact hg

theorem passes {f g : World → Ending} {last : Nat} {again : α → Run (Bool × α)} {m n : Nat}
    (hmn : m ≤ n) (hf : ∀ w, (f w).UpTo (g w)) (a : α) (w : World) :
    (passes f last again m a w).UpTo (LineBasic.passes g last again n a w) := by
  induction m generalizing n a w with
  | zero => exact Or.inl rfl
  | succ m ih =>
    obtain ⟨n, rfl⟩ : ∃ k, n = k + 1 := ⟨n - 1, by omega⟩
    rw [LineBasic.passes, LineBasic.passes]
    refine (hf w).andThen fun v => doing last (again a) v fun r v => ?_
    exact ite r.1 (ih (Nat.le_of_succ_le_succ hmn) r.2 v) (refl _)

theorem testedLoop {f g : World → Ending} {m n : Nat} (hmn : m ≤ n) (place last : Nat)
    (first again : Run Bool) (hf : ∀ w, (f w).UpTo (g w)) (w : World) :
    (testedLoop m place last first again f w).UpTo
      (LineBasic.testedLoop n place last first again g w) :=
  doing place first w fun more v => ite more (passes hmn hf () v) (refl _)

theorem runBlock {head branch head' branch' : World → Ending}
    {cases cases' : Value → World → Ending} {m n : Nat} (hmn : m ≤ n) (place last : Nat)
    (first closing : Statement) (hh : ∀ w, (head w).UpTo (head' w))
    (hb : ∀ w, (branch w).UpTo (branch' w)) (hc : ∀ v w, (cases v w).UpTo (cases' v w))
    (w : World) :
    (runBlock m place last first closing head branch cases w).UpTo
      (LineBasic.runBlock n place last first closing head' branch' cases' w) := by
  unfold LineBasic.runBlock
  split
  · exact doing place _ w fun taken v => ite taken (hh v) (hb v)
  · exact doing place _ w fun taken v => ite taken (hb v) (hh v)
  · exact testedLoop hmn place last _ _ hh w
  · exact testedLoop hmn place last _ _ hh w
  · exact testedLoop hmn place last _ _ hh w
  · refine doing place _ w fun loop v => ?_
    cases loop with
    | some loop => exact passes hmn hh loop v
    | none => exact refl _
  · exact doing place _ w hc
  · exact refl _

end Ending.UpTo

section More

variable {m n : Nat}

mutual

/-- More passes than a run needs change nothing. -/
theorem Body.run_more (hmn : m ≤ n) : (b : Body) → (place : Nat) → (w : World) →
    (b.run m place w).UpTo (b.run n place w)
  | .nil, place, w => by
    rw [Body.run, Body.run]
    exact .refl _
  | .line st rest, place, w => by
    rw [Body.run, Body.run]
    exact .doing place _ w fun flow v => rest.run_more hmn (place + 1) (v.resting flow)
  | .block first parts rest, place, w => by
    rw [Body.run, Body.run]
    refine .andThen (.runBlock hmn _ _ first parts.closing (parts.head_more hmn (place + 1))
      (parts.branch_more hmn (place + 1)) (fun v => parts.cases_more hmn v (place + 1)) w) ?_
    exact rest.run_more hmn (place + parts.size + 1)

theorem Parts.head_more (hmn : m ≤ n) (place : Nat) : (parts : Parts) → (w : World) →
    (parts.head m place w).UpTo (parts.head n place w)
  | .last body _, w => by
    rw [Parts.head, Parts.head]
    exact body.run_more hmn place w
  | .clause body _ _, w => by
    rw [Parts.head, Parts.head]
    exact body.run_more hmn place w

theorem Parts.branch_more (hmn : m ≤ n) (place : Nat) : (parts : Parts) → (w : World) →
    (parts.branch m place w).UpTo (parts.branch n place w)
  | .last _ _, w => by
    rw [Parts.branch, Parts.branch]
    exact .refl _
  | .clause body dividing rest, w => by
    unfold Parts.branch
    split
    · exact .doing _ _ w fun taken v => .ite taken (rest.head_more hmn _ v)
        (rest.branch_more hmn _ v)
    · exact rest.head_more hmn _ w

theorem Parts.cases_more (hmn : m ≤ n) (v : Value) (place : Nat) : (parts : Parts) →
    (w : World) → (parts.cases m v place w).UpTo (parts.cases n v place w)
  | .last _ _, w => by
    rw [Parts.cases, Parts.cases]
    exact .refl _
  | .clause body dividing rest, w => by
    unfold Parts.cases
    split
    · exact .doing _ _ w fun matched u => .ite matched (rest.head_more hmn _ u)
        (rest.cases_more hmn v _ u)
    · exact .refl _

end

end More

/-! ## Programs that have a meaning here -/

/-- The first line of a block that chooses or repeats. -/
def Statement.structures : Statement → Bool
  | .if _ | .unless _ | .while _ | .until _ | .do _ | .for .. | .select _ => true
  | _ => false

mutual

/-- Made of plain statements that are no jumps and of blocks that choose or repeat. -/
def Body.structured : Body → Bool
  | .nil => true
  | .line st rest => st.isSteady && rest.structured
  | .block first parts rest => first.structures && parts.structured && rest.structured

def Parts.structured : Parts → Bool
  | .last body _ => body.structured
  | .clause body _ rest => body.structured && rest.structured

end

mutual

/-- The most blocks that are open at once. -/
def Body.height : Body → Nat
  | .nil => 0
  | .line _ rest => rest.height
  | .block _ parts rest => max (parts.height + 1) rest.height

def Parts.height : Parts → Nat
  | .last body _ => body.height
  | .clause body _ rest => max body.height rest.height

end

end LineBasic
