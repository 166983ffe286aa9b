-- The names that arrays are stored under. A suffix that shows the rank is put behind the name,
-- and whatever brackets and commas the name has itself, the last opening bracket is the one of
-- the suffix. So name, rank and sigil are read off the stored name again, capitals or not, and
-- names of different ranks have different keys. They can lead to one cell only through an alias
-- that joins two ranks, which a call makes if it passes a reference to a parameter of another
-- rank.
import LineBasic.Proofs.Types

namespace LineBasic

namespace Name

variable {m n : Name} {r r' : Nat}

/-! ## The last bracket -/

theorem cutAtLastBracket_eq_none {cs : List Char} (h : '[' ∉ cs) : cutAtLastBracket cs = none := by
  induction cs with
  | nil => rfl
  | cons c cs ih =>
    obtain ⟨hc, hcs⟩ := List.ne_and_not_mem_of_not_mem_cons h
    rw [cutAtLastBracket, ih hcs]
    exact if_neg hc.symm

/-- What stands before the last bracket may have brackets of its own. -/
theorem cutAtLastBracket_append {before after : List Char} (h : '[' ∉ after) :
    cutAtLastBracket (before ++ '[' :: after) = some (before, after) := by
  induction before with
  | nil =>
    rw [List.nil_append, cutAtLastBracket, cutAtLastBracket_eq_none h]
    rfl
  | cons c cs ih => rw [List.cons_append, cutAtLastBracket, ih]

/-! ## What is read off the name of an array -/

theorem cut_ofArray (h : n.isArray = false) (r : Nat) :
    cutAtLastBracket (n.ofArray r).chars =
      some (n.chars, List.replicate (r - 1) ',' ++ [']']) := by
  rw [ofArray, if_neg (by simp [h])]
  exact cutAtLastBracket_append (by simp [List.mem_replicate])

theorem base_ofArray (h : n.isArray = false) (r : Nat) : (n.ofArray r).base = n := by
  rw [base, if_pos (n.isArray_ofArray r), cut_ofArray h]

theorem rank_ofArray (h : n.isArray = false) (hr : 1 ≤ r) : (n.ofArray r).rank = r := by
  rw [rank, if_pos (n.isArray_ofArray r), cut_ofArray h]
  simp only [List.count_append, List.count_replicate_self]
  change r - 1 + 0 + 1 = r
  omega

theorem rank_of_scalar (h : n.isArray = false) : n.rank = 0 := by
  rw [rank, if_neg (by simp [h])]

theorem base_of_scalar (h : n.isArray = false) : n.base = n := by
  rw [base, if_neg (by simp [h])]

theorem sigil_ofArray (h : n.isArray = false) (r : Nat) : (n.ofArray r).sigil = n.sigil := by
  rw [sigil, sigil, base_ofArray h, base_of_scalar h]

/-- The name and the rank make the name of an array. -/
theorem ofArray_inj (hm : m.isArray = false) (hn : n.isArray = false) (hr : 1 ≤ r) (hr' : 1 ≤ r')
    (h : m.ofArray r = n.ofArray r') : m = n ∧ r = r' := by
  constructor
  · rw [← base_ofArray hm r, h, base_ofArray hn]
  · rw [← rank_ofArray hm hr, h, rank_ofArray hn hr']

/-! ## Keys -/

theorem count_comma_map (cs : List Char) : (cs.map Char.toUpper).count ',' = cs.count ',' := by
  induction cs with
  | nil => rfl
  | cons c cs ih =>
    have hc : c.toUpper = ',' ↔ c = ',' := toUpper_eq_iff rfl
    simp [List.count_cons, ih, hc]

/-- Capitals leave the rank. -/
@[simp] theorem rank_key (n : Name) : n.key.rank = n.rank := by
  unfold rank
  rw [isArray_key]
  split
  · have hcut := cutAtLastBracket_map n.chars
    simp only [key] at hcut ⊢
    rw [hcut]
    cases cutAtLastBracket n.chars with
    | none => rfl
    | some cut => simp [count_comma_map]
  · rfl

/-- Names of different ranks are never looked up under one key. -/
theorem key_ne_of_rank_ne (h : m.rank ≠ n.rank) : m.key ≠ n.key := by
  intro hkey
  rw [← rank_key m, hkey, rank_key] at h
  exact h rfl

end Name

/-! ## Cells -/

namespace Variables

variable {vars : Variables} {m n : Name}

/-- Every alias has the rank of its target. -/
def RanksAgree (vars : Variables) : Prop :=
  ∀ scope ∈ vars.scopes.items, ∀ key target,
    scope.aliases.get? key = some target → key.rank = target.rank

/-- A name leads to a cell of its own rank. -/
theorem RanksAgree.rank_cell (h : vars.RanksAgree) (name : Name) (here : Bool) :
    (vars.cell name here).key.rank = name.rank := by
  unfold cell
  rw [locate_keeps Name.rank Name.rank_key h, Name.rank_key]

theorem RanksAgree.cell_ne (h : vars.RanksAgree) (hrank : m.rank ≠ n.rank) (here here' : Bool) :
    vars.cell m here ≠ vars.cell n here' := by
  intro hcell
  have hkey : (vars.cell m here).key.rank = (vars.cell n here').key.rank := by rw [hcell]
  rw [h.rank_cell, h.rank_cell] at hkey
  exact hrank hkey

/-- A variable keeps its value when one of another rank is assigned. -/
theorem RanksAgree.peek_put (h : vars.RanksAgree) (hrank : m.rank ≠ n.rank) (v : Value) :
    (vars.put m v (vars.hasLocal m)).peek n = vars.peek n := by
  unfold peek lookup put
  rw [cell_hasLocal, cell_store, fetch_store_ne _ (h.cell_ne hrank.symm false false)]

/-- Aliases of one rank stay so whatever a program does to its variables, if the references
that it passes are of the rank of their parameters. -/
theorem RanksAgree.alters {vars' : Variables} {aliases : List (Name × Name)} (h : vars.RanksAgree)
    (ha : ∀ a ∈ aliases, a.1.rank = a.2.rank) (hx : Alters aliases vars vars') :
    vars'.RanksAgree := by
  refine hx.forall_aliases (G := fun t => ∀ key target, t.get? key = some target →
    key.rank = target.rank) (fun key target hget => ?_) h
  obtain ⟨before, spelled, after, rfl, rfl, _⟩ := get?_aliasTable.1 hget
  rw [Name.rank_key]
  exact ha (spelled, target) (by simp)

end Variables

/-! ## Runs -/

/-- Every CALL of a program that passes a plain variable by reference passes it to a parameter
of the variable's rank. -/
def Program.lendsInRank (p : Program) : Bool :=
  p.lines.all fun l => (p.lends l.statement).all fun a => a.1.rank = a.2.rank

namespace Session

theorem ranksAgree_step {s : Session} (hp : s.program.lendsInRank = true)
    (h : s.memory.variables.RanksAgree) : s.step.2.memory.variables.RanksAgree := by
  rcases s.alters_step with heq | ⟨st, hst, hx⟩
  · rw [heq]
    exact h
  · refine h.alters (fun a ha => ?_) hx
    exact of_decide_eq_true (Program.forall_lends hp hst a ha)

/-- In a program that passes references to parameters of their rank, no alias joins two ranks. -/
theorem ranksAgree_of_reachable {p : Program} {s : Session} (hp : p.lendsInRank = true)
    (h : Reachable p s) : s.memory.variables.RanksAgree := by
  have hempty : ({} : Variables).RanksAgree := fun _ hmem => (List.not_mem_nil hmem).elim
  refine (h.induct (P := fun s => s.program = p ∧ s.memory.variables.RanksAgree)
    (fun _ _ => ⟨rfl, hempty⟩) ?_ (fun _ hs => ⟨hs.1, hempty⟩) (fun _ hs => hs)
    fun _ _ _ _ hs => hs).2
  rintro s ⟨rfl, hs⟩
  exact ⟨s.program_step, ranksAgree_step hp hs⟩

end Session

/-- A name that is no array name can be read off each of its array names, with the rank and the
sigil, and its key makes the keys of these. Two such names never make one array name, unless
they and their ranks are the same, and no array name has the key of a name that is none. So of
two names that differ in rank, as a scalar and arrays of different ranks do, neither is found
under the key of the other. While no alias joins two ranks, neither leads to the cell of the
other, and neither changes when the other is assigned. No alias ever does in a program that
passes references to parameters of their rank. -/
theorem array_names_never_collide :
    (∀ (n : Name) (r : Nat), n.isArray = false → 1 ≤ r →
      (n.ofArray r).isArray = true ∧ (n.ofArray r).base = n ∧ (n.ofArray r).rank = r ∧
      (n.ofArray r).sigil = n.sigil ∧ (n.ofArray r).key = n.key.ofArray r ∧
      (∀ (m : Name) (r' : Nat), m.isArray = false → 1 ≤ r' →
        m.ofArray r' = n.ofArray r → m = n ∧ r' = r) ∧
      (∀ m : Name, m.isArray = false → m.rank = 0 ∧ (n.ofArray r).key ≠ m.key)) ∧
    (∀ m n : Name, m.rank ≠ n.rank →
      m.key ≠ n.key ∧
      (∀ (t : Table Name Value) (v : Value), (t.insert m.key v).get? n.key = t.get? n.key) ∧
      ∀ vars : Variables, vars.RanksAgree →
        (∀ here here' : Bool, vars.cell m here ≠ vars.cell n here') ∧
        ∀ v : Value, (vars.put m v (vars.hasLocal m)).peek n = vars.peek n) ∧
    ∀ (p : Program) (s : Session), p.lendsInRank = true → Session.Reachable p s →
      s.memory.variables.RanksAgree := by
  refine ⟨fun n r hn hr => ?_, fun m n hrank => ?_, fun p s => Session.ranksAgree_of_reachable⟩
  · refine ⟨n.isArray_ofArray r, Name.base_ofArray hn r, Name.rank_ofArray hn hr,
      Name.sigil_ofArray hn r, n.key_ofArray r, fun m r' hm hr' => Name.ofArray_inj hm hn hr' hr,
      fun m hm => ?_⟩
    have hrank := Name.rank_of_scalar hm
    refine ⟨hrank, Name.key_ne_of_rank_ne ?_⟩
    rw [Name.rank_ofArray hn hr, hrank]
    omega
  · have hkey := Name.key_ne_of_rank_ne hrank
    exact ⟨hkey, fun t v => t.get?_insert_ne hkey v,
      fun vars h => ⟨h.cell_ne hrank, h.peek_put hrank⟩⟩

/-- A name with a bracket, a comma and a letter past ASCII, in a call with an alias. -/
theorem a_name_with_brackets_never_collides :
    let n := Name.ofString "é[,x%"
    let m := Name.ofString "é[,X%"
    let p := Program.ofStatements [.call (.ofString "F") [.variable (.ofString "y%")], .stop,
      .sub (.ofString "F") [⟨m, true⟩], .assign (.variable m) (.integer 5), .endSub]
    let s := (Session.start p 7 {}).step.2
    n.isArray = false ∧ m.isArray = false ∧ n.ofArray 3 = Name.ofString "é[,x%[,,]" ∧
      (n.ofArray 3).base = n ∧ (n.ofArray 3).rank = 3 ∧ (n.ofArray 3).key ≠ m.key ∧
      p.lendsInRank = true ∧
      s.memory.variables.cell m true ≠ s.memory.variables.cell (n.ofArray 3) true := by
  intro n m p s
  have hn : n.isArray = false := by decide
  have hm : m.isArray = false := by decide
  have hp : p.lendsInRank = true := by decide +kernel
  have hvars := array_names_never_collide.2.2 p s hp (.step (.start 7 {}))
  obtain ⟨-, hbase, hrank, -, -, -, hscalar⟩ := array_names_never_collide.1 n 3 hn (by decide)
  obtain ⟨hzero, hkey⟩ := hscalar m hm
  have hranks : m.rank ≠ (n.ofArray 3).rank := by
    rw [hzero, hrank]
    decide
  obtain ⟨-, -, hcells⟩ := array_names_never_collide.2.1 m (n.ofArray 3) hranks
  exact ⟨hn, hm, by decide, hbase, hrank, hkey, hp, (hcells _ hvars).1 true true⟩

/-- A call that passes one array for a scalar and for an array of one spelling makes both lead
to one cell. After a store under the scalar no array is left there. -/
theorem a_call_joins_a_scalar_and_an_array :
    let x := Name.ofString "x%"
    let y := Name.ofString "y%[]"
    let p := Program.ofStatements [.call (.ofString "F") [.variable y, .variable y], .stop,
      .sub (.ofString "F") [⟨x, true⟩, ⟨x.ofArray 1, true⟩], .assign (.variable x) (.integer 5),
      .endSub]
    let s := (Session.start p 7 {}).step.2
    Session.Reachable p s ∧ x.isArray = false ∧
      s.memory.variables.cell x false = s.memory.variables.cell (x.ofArray 1) false ∧
      (s.step.2.memory.variables.peek (x.ofArray 1)).kind = .integer :=
  ⟨.step (.start 7 {}), by decide, by decide +kernel, by decide +kernel⟩

end LineBasic
