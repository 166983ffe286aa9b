-- A comment never changes a program. A line that is put into a program takes the
-- level of what stands around it, so it is deeper than every block that is open
-- there, and no search for the lines of a block stops at it. The program with the
-- comment then runs beside the program without it and makes one more step each
-- time it comes to the comment.
import LineBasic.Proofs.Convoy
import LineBasic.Proofs.LabelIndex
import LineBasic.Proofs.LetterCase
import LineBasic.Proofs.Nesting

namespace LineBasic

/-! ## Levels -/

namespace Role

/-- The indent of a line whose surroundings stand at a level. -/
def indent (level : Nat) : Role → Nat
  | .plain | .opener => level
  | .clause | .closer => level - 1

/-- The level of what follows a line. -/
def after (level : Nat) : Role → Nat
  | .plain | .clause => level
  | .opener => level + 1
  | .closer => level - 1

end Role

/-- The level of what follows some statements. -/
def levelAfter (level : Nat) (statements : List Statement) : Nat :=
  statements.foldl (fun level st => st.role.after level) level

theorem layoutFrom_cons (level : Nat) (st : Statement) (rest : List Statement) :
    layoutFrom level (st :: rest) =
      ⟨st.role.indent level, st⟩ :: layoutFrom (st.role.after level) rest := by
  rw [layoutFrom]
  cases st.role <;> rfl

theorem layoutFrom_append (level : Nat) (xs ys : List Statement) :
    layoutFrom level (xs ++ ys) = layoutFrom level xs ++ layoutFrom (levelAfter level xs) ys := by
  induction xs generalizing level with
  | nil => rfl
  | cons st rest ih => rw [List.cons_append, layoutFrom_cons, layoutFrom_cons, ih]; rfl

theorem length_layoutFrom (level : Nat) (xs : List Statement) :
    (layoutFrom level xs).length = xs.length := by
  rw [← List.length_map (f := Line.statement), statements_layoutFrom]

/-! ## Searches past a line that is put in -/

/-- Lines before `cut` stay where they are, and the others move down by one. -/
def shift (cut line : Nat) : Nat := if line < cut then line else line + 1

theorem shift_lt {cut a b : Nat} : shift cut a < shift cut b ↔ a < b := by
  unfold shift
  split <;> split <;> omega

namespace Program

variable {wanted : Statement → Bool} {indent : Nat}

/-- A deeper line is gone over, whatever it holds. -/
theorem look_deeper {l : Line} (h : indent < l.indent) : look indent wanted l = .onward := by
  unfold look
  rw [if_neg (by omega), if_neg (by omega)]

/-- A line that is gone over is deeper, or it is a clause. -/
theorem deeper_or_clause {l : Line} (h : look indent wanted l = .onward) :
    indent < l.indent ∨ l.indent = indent ∧ l.statement.role = .clause := by
  unfold look at h
  split at h
  · cases h
  · split at h
    · rename_i heq
      split at h
      · cases h
      · split at h
        · rename_i hrole
          exact Or.inr ⟨heq, hrole⟩
        · cases h
    · exact Or.inl (by omega)

/-- What follows a line that is gone over is still deeper. -/
theorem deeper_after {level : Nat} {st : Statement} (hlevel : indent < level)
    (h : look indent wanted ⟨st.role.indent level, st⟩ = .onward) :
    indent < st.role.after level := by
  rcases deeper_or_clause h with hd | ⟨_, hrole⟩
  · cases hrole : st.role with
    | plain => rw [hrole] at hd; exact hd
    | opener => exact Nat.lt_succ_of_lt hlevel
    | clause => exact hlevel
    | closer => rw [hrole] at hd; exact hd
  · dsimp only at hrole
    rw [hrole]
    exact hlevel

/-- What stands before a line that is gone over is deeper if what follows it is. -/
theorem deeper_before {level : Nat} {st : Statement}
    (h : look indent wanted ⟨st.role.indent level, st⟩ = .onward)
    (hafter : indent < st.role.after level) : indent < level := by
  cases hrole : st.role with
  | plain => rw [hrole] at hafter; exact hafter
  | clause => rw [hrole] at hafter; exact hafter
  | closer =>
    rw [hrole] at hafter
    exact Nat.lt_of_lt_of_le hafter (Nat.sub_le level 1)
  | opener =>
    rcases deeper_or_clause h with hd | ⟨_, hclause⟩
    · rw [hrole] at hd
      exact hd
    · rw [hrole] at hclause
      cases hclause

/-! ### Down -/

theorem searchDown_succ {cut place : Nat} (h : cut ≤ place) (lines : List Line) :
    searchDown indent wanted (place + 1) lines =
      (searchDown indent wanted place lines).map (shift cut) := by
  induction lines generalizing place with
  | nil => rfl
  | cons l rest ih =>
    rw [searchDown, searchDown]
    split
    · simp [shift, Nat.not_lt.2 h]
    · exact ih (Nat.le_succ_of_le h)
    · rfl

/-- A search that starts shallower than what follows goes over a line that is put in
at the level of its surroundings. -/
theorem searchDown_insert {level : Nat} (hlevel : indent < level) (place : Nat)
    (xs : List Statement) (extra : Statement) (rest : List Line) :
    searchDown indent wanted place
        (layoutFrom level xs ++ ⟨levelAfter level xs, extra⟩ :: rest) =
      (searchDown indent wanted place (layoutFrom level xs ++ rest)).map
        (shift (place + xs.length)) := by
  induction xs generalizing level place with
  | nil =>
    rw [layoutFrom, List.nil_append, List.nil_append, searchDown]
    have hlook : look indent wanted ⟨levelAfter level [], extra⟩ = .onward := look_deeper hlevel
    rw [hlook]
    exact searchDown_succ (Nat.le_refl place) rest
  | cons st xs ih =>
    rw [layoutFrom_cons, List.cons_append, List.cons_append, searchDown, searchDown]
    split
    · simp [shift]
    · rename_i hlook
      rw [List.length_cons, Nat.add_comm xs.length, ← Nat.add_assoc]
      exact ih (deeper_after hlevel hlook) (place + 1)
    · rfl

/-! ### Up -/

/-- A search from below goes over a line that is put in, if it goes over it whenever
it comes to it. -/
theorem searchUp_insert (extra : Line) (below above : List Line)
    (h : (∀ l ∈ below, look indent wanted l = .onward) → look indent wanted extra = .onward) :
    searchUp indent wanted (below ++ extra :: above) =
      (searchUp indent wanted (below ++ above)).map (shift above.length) := by
  induction below with
  | nil =>
    rw [List.nil_append, List.nil_append, searchUp, h (by simp)]
    dsimp only
    cases hs : searchUp indent wanted above with
    | none => rfl
    | some i =>
      have hi := searchUp_lt hs
      simp [shift, hi]
  | cons l rest ih =>
    rw [List.cons_append, List.cons_append, searchUp, searchUp]
    split
    · simp only [Option.map_some, List.length_append, List.length_cons, shift]
      rw [if_neg (by omega)]
      simp [Nat.add_assoc]
    · rename_i hlook
      refine ih fun hrest => h fun k hk => ?_
      rcases List.mem_cons.1 hk with rfl | hk
      · exact hlook
      · exact hrest k hk
    · rfl

/-- If all lines are gone over and what follows them is deeper, so is what stands
before them. -/
theorem deeper_above {level : Nat} {xs : List Statement}
    (h : ∀ l ∈ layoutFrom level xs, look indent wanted l = .onward)
    (hafter : indent < levelAfter level xs) : indent < level := by
  induction xs generalizing level with
  | nil => exact hafter
  | cons st rest ih =>
    rw [layoutFrom_cons] at h
    obtain ⟨hfirst, hrest⟩ := List.forall_mem_cons.1 h
    exact deeper_before hfirst (ih hrest hafter)

/-- A line after which the outermost level is reached stands there itself. It opens
no block, and a search goes over it only if it is a clause. -/
theorem look_outermost (hw : Statement.PicksOpeners wanted) {level : Nat} {st : Statement}
    (h : st.role.after level = 0) :
    look 0 wanted ⟨st.role.indent level, st⟩ = .onward ∧ st.role = .clause ∨
      look 0 wanted ⟨st.role.indent level, st⟩ = .stop := by
  have hzero : st.role.indent level = 0 ∧ st.role ≠ .opener := by
    cases hrole : st.role with
    | opener => rw [hrole] at h; cases h
    | plain | closer => rw [hrole] at h; exact ⟨h, by simp⟩
    | clause => rw [hrole] at h; exact ⟨by rw [Role.indent, show level = 0 from h], by simp⟩
  have hnot : wanted st = false := by
    cases hst : wanted st with
    | false => rfl
    | true => exact absurd (hw st hst) hzero.2
  rw [hzero.1]
  by_cases hclause : st.role = .clause
  · exact Or.inl ⟨by simp [look, Line.role, hnot, hclause], hclause⟩
  · exact Or.inr (by simp [look, Line.role, hnot, hclause])

/-- From the outermost level no opening line can be found above. -/
theorem searchUp_outermost (hw : Statement.PicksOpeners wanted) (level : Nat) (xs : List Statement)
    (h : levelAfter level xs = 0) : searchUp 0 wanted (layoutFrom level xs).reverse = none := by
  induction hn : xs.length generalizing xs with
  | zero =>
    cases List.length_eq_zero_iff.1 hn
    rfl
  | succ n ih =>
    rcases List.eq_nil_or_concat xs with rfl | ⟨ys, st, rfl⟩
    · rfl
    rw [List.concat_eq_append] at h hn ⊢
    rw [levelAfter, List.foldl_append] at h
    change st.role.after (levelAfter level ys) = 0 at h
    rw [layoutFrom_append, layoutFrom_cons, layoutFrom, List.reverse_append, List.reverse_singleton,
      List.singleton_append, searchUp]
    rcases look_outermost hw h with ⟨hlook, hrole⟩ | hlook
    · rw [hlook]
      rw [hrole] at h
      exact ih ys h (by simpa using hn)
    · rw [hlook]

end Program

/-! ## A program with a comment -/

namespace Program

variable {before after : List Statement} {text : String}

theorem lines_ofStatements (xs : List Statement) : (ofStatements xs).lines = layoutFrom 0 xs := rfl

/-- The lines of a program around one of its statements. -/
theorem lines_split (xs : List Statement) (st : Statement) (ys : List Statement) :
    (ofStatements (xs ++ st :: ys)).lines =
      layoutFrom 0 xs ++ ⟨st.role.indent (levelAfter 0 xs), st⟩ ::
        layoutFrom (st.role.after (levelAfter 0 xs)) ys := by
  rw [lines_ofStatements, layoutFrom_append, layoutFrom_cons]

theorem lines_remarked : (ofStatements (before ++ .remark text :: after)).lines =
    layoutFrom 0 before ++
      ⟨levelAfter 0 before, .remark text⟩ :: layoutFrom (levelAfter 0 before) after :=
  lines_split before (.remark text) after

/-- What is at a line stays there or moves down by one. -/
theorem getElem?_insert {α : Type} (xs ys : List α) (a : α) (i : Nat) :
    (xs ++ a :: ys)[shift xs.length i]? = (xs ++ ys)[i]? := by
  unfold shift
  by_cases hi : i < xs.length
  · rw [if_pos hi, List.getElem?_append_left hi, List.getElem?_append_left hi]
  · rw [if_neg hi, List.getElem?_append_right (by omega), List.getElem?_append_right (by omega),
      show i + 1 - xs.length = (i - xs.length) + 1 by omega, List.getElem?_cons_succ]

/-- The first line that passes a test is the same, if the line that is put in fails it. -/
theorem findIdx?_insert {test : Line → Bool} {l : Line} (hl : test l = false) (xs ys : List Line) :
    (xs ++ l :: ys).findIdx? test = ((xs ++ ys).findIdx? test).map (shift xs.length) := by
  rw [List.findIdx?_append, List.findIdx?_append, List.findIdx?_cons, hl]
  cases hx : xs.findIdx? test with
  | some i =>
    have hi : i < xs.length := (List.findIdx?_eq_some_iff_getElem.1 hx).1
    simp [shift, hi]
  | none =>
    cases ys.findIdx? test with
    | some i => simp [shift, Nat.add_right_comm]
    | none => rfl

theorem statement?_remarked (l : Nat) :
    (ofStatements (before ++ .remark text :: after)).statement? (shift before.length l) =
      (ofStatements (before ++ after)).statement? l := by
  rw [statement?_ofStatements, statement?_ofStatements, getElem?_insert]

theorem labelPlace?_remarked (name : Name) :
    (ofStatements (before ++ .remark text :: after)).labelPlace? name =
      ((ofStatements (before ++ after)).labelPlace? name).map (shift before.length) := by
  have hindex : ∀ xs, (ofStatements xs).labelPlace? name =
      (ofStatements xs).lines.findIdx? (·.carries name) :=
    fun xs => indexed_reindexed { lines := layout xs } name
  rw [hindex, hindex, lines_remarked, lines_ofStatements, layoutFrom_append,
    findIdx?_insert (by rfl), length_layoutFrom]

theorem subPlace?_remarked (name : Name) :
    (ofStatements (before ++ .remark text :: after)).subPlace? name =
      ((ofStatements (before ++ after)).subPlace? name).map (shift before.length) := by
  unfold subPlace?
  rw [lines_remarked, lines_ofStatements, layoutFrom_append, findIdx?_insert (by rfl),
    length_layoutFrom]

theorem closer_split (xs : List Statement) (st : Statement) (ys : List Statement)
    (wanted : Statement → Bool) :
    (ofStatements (xs ++ st :: ys)).closer xs.length wanted =
      searchDown (st.role.indent (levelAfter 0 xs)) wanted (xs.length + 1)
        (layoutFrom (st.role.after (levelAfter 0 xs)) ys) := by
  unfold closer
  rw [lines_split, ← length_layoutFrom 0 xs, List.getElem?_append_right (Nat.le_refl _),
    Nat.sub_self, List.getElem?_cons_zero, List.drop_length_add_append]
  rfl

theorem opener_split (xs : List Statement) (st : Statement) (ys : List Statement)
    (wanted : Statement → Bool) :
    (ofStatements (xs ++ st :: ys)).opener xs.length wanted =
      searchUp (st.role.indent (levelAfter 0 xs)) wanted (layoutFrom 0 xs).reverse := by
  unfold opener
  rw [lines_split, ← length_layoutFrom 0 xs, List.getElem?_append_right (Nat.le_refl _),
    Nat.sub_self, List.getElem?_cons_zero, List.take_left]

/-- The levels on both sides of a comment are the same. -/
theorem levelAfter_remarked (xs ys : List Statement) (level : Nat) :
    levelAfter level (xs ++ .remark text :: ys) = levelAfter level (xs ++ ys) := by
  simp only [levelAfter, List.foldl_append, List.foldl_cons]
  rfl

/-- A line stands above the comment or below it. -/
theorem above_or_below {xs ys : List Statement} {st : Statement}
    (h : before ++ after = xs ++ st :: ys) :
    (∃ mid, before = xs ++ st :: mid ∧ ys = mid ++ after) ∨
      ∃ mid, xs = before ++ mid ∧ after = mid ++ st :: ys := by
  rcases List.append_eq_append_iff.1 h with ⟨mid, hxs, hafter⟩ | ⟨mid, hbefore, hys⟩
  · exact Or.inr ⟨mid, hxs, hafter⟩
  · cases mid with
    | nil =>
      rw [List.append_nil] at hbefore
      exact Or.inr ⟨[], by simp [hbefore], hys.symm⟩
    | cons a mid =>
      obtain ⟨rfl, rfl⟩ := List.cons.inj hys
      exact Or.inl ⟨mid, hbefore, rfl⟩

/-- A search for the rest of a block goes over the comment, if what follows the line
where it starts is deeper than that line. -/
theorem closer_remarked {st : Statement} {xs ys : List Statement}
    (hsplit : before ++ after = xs ++ st :: ys)
    (hdeep : st.role.indent (levelAfter 0 xs) < st.role.after (levelAfter 0 xs))
    (wanted : Statement → Bool) :
    (ofStatements (before ++ .remark text :: after)).closer (shift before.length xs.length) wanted =
      ((ofStatements (before ++ after)).closer xs.length wanted).map (shift before.length) := by
  rw [hsplit, closer_split]
  rcases above_or_below hsplit with ⟨mid, rfl, rfl⟩ | ⟨mid, rfl, rfl⟩
  · -- The comment lies ahead of the search.
    have hshift : shift (xs ++ st :: mid).length xs.length = xs.length := by simp [shift]
    have hlength : (xs ++ st :: mid).length = xs.length + 1 + mid.length := by
      simp only [List.length_append, List.length_cons]
      omega
    rw [hshift, List.append_assoc, List.cons_append, closer_split, layoutFrom_append,
      layoutFrom_cons, layoutFrom_append, hlength]
    exact searchDown_insert hdeep (xs.length + 1) mid (.remark text) _
  · -- The comment is above, so the search sees the same lines one place further down.
    have hshift : shift before.length (before ++ mid).length =
        (before ++ .remark text :: mid).length := by
      simp [shift, Nat.add_assoc]
    have hlength :
        (before ++ Statement.remark text :: mid).length = (before ++ mid).length + 1 := by
      simp [Nat.add_assoc]
    have htext : before ++ Statement.remark text :: (mid ++ st :: ys) =
        (before ++ .remark text :: mid) ++ st :: ys := by simp
    rw [hshift, htext, closer_split, levelAfter_remarked, hlength]
    exact searchDown_succ (by simp [Nat.add_assoc]) _

/-- A search for the line that opened a block goes over the comment. -/
theorem opener_remarked {st : Statement} {xs ys : List Statement}
    (hsplit : before ++ after = xs ++ st :: ys) (hrole : st.role = .clause ∨ st.role = .closer)
    {wanted : Statement → Bool} (hw : Statement.PicksOpeners wanted) :
    (ofStatements (before ++ .remark text :: after)).opener (shift before.length xs.length) wanted =
      ((ofStatements (before ++ after)).opener xs.length wanted).map (shift before.length) := by
  have hindent : ∀ level, st.role.indent level = level - 1 := fun level => by
    rcases hrole with h | h <;> rw [h] <;> rfl
  rw [hsplit, opener_split, hindent]
  rcases above_or_below hsplit with ⟨mid, rfl, rfl⟩ | ⟨mid, rfl, rfl⟩
  · have hshift : shift (xs ++ st :: mid).length xs.length = xs.length := by simp [shift]
    rw [hshift, List.append_assoc, List.cons_append, opener_split, hindent]
    cases hs : searchUp (levelAfter 0 xs - 1) wanted (layoutFrom 0 xs).reverse with
    | none => rfl
    | some i =>
      have hi := searchUp_lt hs
      rw [List.length_reverse, length_layoutFrom] at hi
      have hlt : i < (xs ++ st :: mid).length := by
        rw [List.length_append]
        omega
      rw [Option.map_some, shift, if_pos hlt]
  · have hshift : shift before.length (before ++ mid).length =
        (before ++ .remark text :: mid).length := by
      simp [shift, Nat.add_assoc]
    have htext : before ++ Statement.remark text :: (mid ++ st :: ys) =
        (before ++ .remark text :: mid) ++ st :: ys := by simp
    rw [hshift, htext, opener_split, hindent, levelAfter_remarked]
    by_cases hzero : levelAfter 0 (before ++ mid) = 0
    · -- Outside of all blocks the comment may stop the search, but there is nothing to find.
      rw [hzero, searchUp_outermost hw 0 _ hzero,
        searchUp_outermost hw 0 _ ((levelAfter_remarked _ _ _).trans hzero)]
      rfl
    · have hlevel : levelAfter 0 (before ++ mid) = levelAfter (levelAfter 0 before) mid := by
        simp only [levelAfter, List.foldl_append]
      have hdeep : levelAfter 0 (before ++ mid) - 1 < levelAfter (levelAfter 0 before) mid := by
        omega
      rw [layoutFrom_append, layoutFrom_append, layoutFrom_cons, List.reverse_append,
        List.reverse_append, List.reverse_cons, List.append_assoc, List.singleton_append]
      have hlength : before.length = (layoutFrom 0 before).reverse.length := by
        rw [List.length_reverse, length_layoutFrom]
      rw [hlength]
      exact searchUp_insert _ _ _ fun hall => look_deeper (deeper_above
        (fun l hl => hall l (List.mem_reverse.2 hl)) hdeep)

/-- A clause whose opening line can be found stands in a block. -/
theorem deep_of_opener {st : Statement} {xs ys : List Statement} (hrole : st.role = .clause)
    {wanted : Statement → Bool} (hw : Statement.PicksOpeners wanted) {first : Nat}
    (h : (ofStatements (xs ++ st :: ys)).opener xs.length wanted = some first) :
    st.role.indent (levelAfter 0 xs) < st.role.after (levelAfter 0 xs) := by
  rw [opener_split, hrole] at h
  rw [hrole]
  by_cases hzero : levelAfter 0 xs = 0
  · rw [hzero, Role.indent, searchUp_outermost hw 0 xs hzero] at h
    cases h
  · dsimp only [Role.indent, Role.after]
    omega

/-- The lines before and after a line of a program. -/
theorem split_of_statement? {xs : List Statement} {l : Nat} {st : Statement}
    (h : (ofStatements xs).statement? l = some st) :
    ∃ ys zs, xs = ys ++ st :: zs ∧ ys.length = l := by
  rw [statement?_ofStatements] at h
  obtain ⟨hl, rfl⟩ := List.getElem?_eq_some_iff.1 h
  refine ⟨xs.take l, xs.drop (l + 1), ?_, List.length_take_of_le (Nat.le_of_lt hl)⟩
  rw [List.getElem_cons_drop, List.take_append_drop]

/-- The lines of a program in the program with a comment. Clocks are of no account to a
program that does not read the time. -/
def commented (before after : List Statement) (text : String) (clock : Clock)
    (htime : (ofStatements (before ++ after)).readsClock = false) : Relocation where
  old := ofStatements (before ++ after)
  new := ofStatements (before ++ .remark text :: after)
  place := shift before.length
  timed := false
  clock := fun _ => clock
  place_lt := shift_lt
  statement? := statement?_remarked
  label := labelPlace?_remarked
  sub := subPlace?_remarked
  closer {l st} hst hrole wanted := by
    obtain ⟨xs, ys, hsplit, rfl⟩ := split_of_statement? hst
    exact closer_remarked hsplit (by rw [hrole]; exact Nat.lt_succ_self _) wanted
  opener {l st} hst hrole wanted hw := by
    obtain ⟨xs, ys, hsplit, rfl⟩ := split_of_statement? hst
    exact opener_remarked hsplit hrole hw
  clause {l st first wanted} hst hrole hw h other := by
    obtain ⟨xs, ys, hsplit, rfl⟩ := split_of_statement? hst
    rw [hsplit] at h
    exact closer_remarked hsplit (deep_of_opener hrole hw h) other
  clock_eq := by simp
  timely hst hreads := htime ▸ readsClock_of_statement? hst hreads

end Program

/-! ## Runs -/

theorem shift_ne (cut line : Nat) : shift cut line ≠ cut := by
  unfold shift
  split <;> omega

/-- A jump comes to the same line, or it comes to the comment before that line. -/
theorem lands_shift {cut a b : Nat} (h : Lands (shift cut) a b) :
    b = shift cut a ∨ a = cut ∧ b = cut := by
  rcases h with h | ⟨k, rfl, rfl⟩
  · exact Or.inl h
  · unfold shift
    split <;> split <;> omega

namespace Outcome

variable {place : Nat → Nat} {outcome outcome' : Outcome}

theorem moved_eq_onward : outcome.moved place = .onward ↔ outcome = .onward := by
  cases outcome <;> simp [moved]

/-- No two outcomes become one if no two lines do. -/
theorem moved_inj (hplace : ∀ a b, place a = place b → a = b)
    (h : outcome.moved place = outcome'.moved place) : outcome = outcome' := by
  cases outcome with
  | onward => exact (moved_eq_onward.1 h.symm).symm
  | ended => cases outcome' <;> first | rfl | cases h
  | failed e =>
    cases outcome' with
    | onward | ended => cases h
    | failed e' =>
      obtain ⟨code, line, message⟩ := e
      obtain ⟨code', line', message'⟩ := e'
      simp only [moved, Error.moved, failed.injEq, Error.mk.injEq, Option.map_inj_right hplace] at h
      obtain ⟨rfl, rfl, rfl⟩ := h
      rfl

end Outcome

namespace Session

variable {cut : Nat} {s t : Session} {r r' : Outcome × Session}

/-- Two runs with a comment at line `cut` of the second came to the same, and the second
is at the same line or has yet to go over the comment before it. -/
structure Accompanies (cut : Nat) (r r' : Outcome × Session) : Prop where
  outcome : r'.1 = r.1.moved (shift cut)
  beside : r.2.Beside (shift cut) r'.2
  line : r'.2.line = shift cut r.2.line ∨ r.1 = .onward ∧ r.2.line = cut ∧ r'.2.line = cut

theorem Abreast.accompanies (h : Abreast (shift cut) r r') : Accompanies cut r r' := by
  refine ⟨h.outcome, h.beside, ?_⟩
  rcases h.line with hline | ⟨honward, hlands⟩
  · exact Or.inl hline
  · rcases lands_shift hlands with hline | hcut
    · exact Or.inl hline
    · exact Or.inr ⟨honward, hcut⟩

/-- What the outside tells both sessions leaves them side by side. -/
theorem Beside.given {place : Nat → Nat} (h : s.Beside place t) (clock clock' : Clock)
    (keyboard : Keyboard) : (s.given clock keyboard).Beside place (t.given clock' keyboard) :=
  { h with keyboard := rfl }

/-- A comment is gone over and nothing else happens. -/
theorem step_remark {text : String} (hrun : t.stopped = false)
    (hst : t.program.statement? t.line = some (.remark text)) :
    t.step = (.onward, t.goTo (t.line + 1)) := by
  unfold Session.step
  rw [hrun, hst]
  rfl

/-- The number of steps that a program with a comment at line `cut` makes while the
program without it makes `n`: one more for each time that it comes to the comment. -/
def pace (cut : Nat) (run : Nat → Outcome × Session) : Nat → Nat
  | 0 => 0
  | n + 1 => pace cut run n + if (run (pace cut run n)).2.line = cut then 2 else 1

variable {run : Nat → Outcome × Session}

theorem pace_of_remark {n : Nat} (h : (run (pace cut run n)).2.line = cut) :
    pace cut run (n + 1) = pace cut run n + 2 := by rw [pace, if_pos h]

theorem pace_of_other {n : Nat} (h : (run (pace cut run n)).2.line ≠ cut) :
    pace cut run (n + 1) = pace cut run n + 1 := by rw [pace, if_neg h]

theorem pace_lt {m n : Nat} (h : m < n) : pace cut run m < pace cut run n := by
  have hsucc : ∀ k, pace cut run k < pace cut run (k + 1) := fun k => by
    rw [pace]
    split <;> omega
  induction n with
  | zero => cases h
  | succ n ih =>
    rcases Nat.lt_succ_iff_lt_or_eq.1 h with hlt | rfl
    · exact Nat.lt_trans (ih hlt) (hsucc n)
    · exact hsucc m

/-- Every step of the longer run has its place beside the shorter one, or it is the step
over the comment. -/
theorem eq_pace_or (cut : Nat) (run : Nat → Outcome × Session) (k : Nat) :
    ∃ n, k = pace cut run n ∨
      k = pace cut run n + 1 ∧ (run (pace cut run n)).2.line = cut := by
  induction k with
  | zero => exact ⟨0, Or.inl rfl⟩
  | succ k ih =>
    obtain ⟨n, rfl | ⟨rfl, hline⟩⟩ := ih
    · by_cases hline : (run (pace cut run n)).2.line = cut
      · exact ⟨n, Or.inr ⟨rfl, hline⟩⟩
      · exact ⟨n + 1, Or.inl (pace_of_other hline).symm⟩
    · exact ⟨n + 1, Or.inl (pace_of_remark hline).symm⟩

/-- A run goes on up to a step that comes to `outcome`. -/
def ComesTo (run : Nat → Outcome × Session) (outcome : Outcome) : Prop :=
  ∃ n, (∀ m < n, (run m).1 = .onward) ∧ (run n).1 = outcome

/-- A session that went on runs. -/
theorem running_of_course {times : Nat → Clock} {keys : Nat → Keyboard} (hs : s.stopped = false)
    {n : Nat} (h : (s.course times keys n).1 = .onward) :
    (s.course times keys n).2.stopped = false := by
  cases n with
  | zero => exact hs
  | succ n => exact (stopped_step _).2 h

section Commented

variable {before after : List Statement} {text : String} {times times' : Nat → Clock}
  {keyboard : Keyboard}

/-- Sessions at the same line make a step together. -/
theorem Beside.step_commented (htime : (Program.ofStatements (before ++ after)).readsClock = false)
    (h : s.Beside (shift before.length) t)
    (hs : s.program = Program.ofStatements (before ++ after))
    (ht : t.program = Program.ofStatements (before ++ .remark text :: after))
    (hline : t.line = shift before.length s.line) : Accompanies before.length s.step t.step :=
  (Beside.step (m := Program.commented before after text t.host.clock htime) h hs ht hline
    rfl).accompanies

theorem statement?_comment :
    (Program.ofStatements (before ++ .remark text :: after)).statement? before.length =
      some (.remark text) := by
  rw [Program.statement?_ofStatements, List.getElem?_append_right (Nat.le_refl _), Nat.sub_self]
  rfl

/-- At the comment, a run goes over it and nothing else happens. -/
theorem course_remark {keys : Nat → Keyboard}
    (ht : t.program = Program.ofStatements (before ++ .remark text :: after)) {k : Nat}
    (hrun : (t.course times keys k).2.stopped = false)
    (hline : (t.course times keys k).2.line = before.length) :
    t.course times keys (k + 1) =
      (.onward, ((t.course times keys k).2.given (times k) (keys k)).goTo (before.length + 1)) := by
  have hst : (t.course times keys k).2.program.statement? (t.course times keys k).2.line =
      some (.remark text) := by rw [program_course, ht, hline, statement?_comment]
  have hstep := step_remark (t := (t.course times keys k).2.given (times k) (keys k)) hrun hst
  rw [course, hstep]
  exact congrArg (fun line => (Outcome.onward, Session.goTo _ (line + 1))) hline

/-- The run with the comment keeps beside the other at its pace. -/
theorem Accompanies.course (htime : (Program.ofStatements (before ++ after)).readsClock = false)
    (h : Accompanies before.length (.onward, s) (.onward, t)) (hrun : s.stopped = false)
    (hs : s.program = Program.ofStatements (before ++ after))
    (ht : t.program = Program.ofStatements (before ++ .remark text :: after)) (n : Nat) :
    Accompanies before.length (s.course times (fun _ => keyboard) n)
      (t.course times' (fun _ => keyboard)
        (pace before.length (t.course times' fun _ => keyboard) n)) := by
  induction n with
  | zero => exact h
  | succ n ih =>
    have hold := (program_course times (fun _ => keyboard) s n).trans hs
    have hnew := fun k => (program_course times' (fun _ => keyboard) t k).trans ht
    -- Both are at the same line, or the comment has to be gone over first.
    rcases ih.line with hsame | ⟨honward, hcut, hcut'⟩
    · rw [pace_of_other fun hcut => shift_ne before.length _ (hsame.symm.trans hcut)]
      exact (ih.beside.given _ _ keyboard).step_commented htime hold (hnew _) hsame
    · have hruns := ih.beside.stopped.trans (running_of_course hrun honward)
      have hremark := course_remark ht hruns hcut'
      rw [pace_of_remark hcut']
      refine Beside.step_commented htime ?_ hold (hnew _) ?_
      · rw [hremark]
        exact { ih.beside with keyboard := rfl }
      · rw [hremark]
        have hbelow : shift before.length before.length = before.length + 1 :=
          if_neg (Nat.lt_irrefl _)
        exact hbelow.symm.trans (congrArg (shift before.length) hcut.symm)

end Commented

section Together

variable {run run' : Nat → Outcome × Session}
  (h : ∀ n, Accompanies cut (run n) (run' (pace cut run' n)))
  (hremark : ∀ n, (run' (pace cut run' n)).2.line = cut → (run' (pace cut run' n + 1)).1 = .onward)

include h

theorem onward_pace (n : Nat) : (run' (pace cut run' n)).1 = .onward ↔ (run n).1 = .onward := by
  rw [(h n).outcome, Outcome.moved_eq_onward]

include hremark

/-- The longer run goes on as long as the other does. -/
theorem onward_before_pace {n : Nat} (hn : ∀ m < n, (run m).1 = .onward) :
    ∀ k < pace cut run' n, (run' k).1 = .onward := by
  intro k hk
  obtain ⟨m, rfl | ⟨rfl, hline⟩⟩ := eq_pace_or cut run' k
  · refine (onward_pace h m).2 (hn m ?_)
    rcases Nat.lt_or_ge m n with hlt | hge
    · exact hlt
    · rcases Nat.eq_or_lt_of_le hge with rfl | hlt
      · exact absurd hk (Nat.lt_irrefl _)
      · exact absurd hk (Nat.lt_asymm (pace_lt hlt))
  · exact hremark m hline

/-- Both runs go on for ever, or neither does. -/
theorem diverge_together : (∀ n, (run n).1 = .onward) ↔ ∀ k, (run' k).1 = .onward := by
  constructor
  · intro hall k
    obtain ⟨n, rfl | ⟨rfl, hline⟩⟩ := eq_pace_or cut run' k
    · exact (onward_pace h n).2 (hall n)
    · exact hremark n hline
  · exact fun hall n => (onward_pace h n).1 (hall _)

/-- Both runs come to the same end. -/
theorem come_together (outcome : Outcome) :
    ComesTo run outcome ↔ ComesTo run' (outcome.moved (shift cut)) := by
  have hinj : ∀ a b, shift cut a = shift cut b → a = b := fun a b hab => by
    have hlt : shift cut a < shift cut b ↔ a < b := shift_lt
    have hgt : shift cut b < shift cut a ↔ b < a := shift_lt
    omega
  constructor
  · rintro ⟨n, hn, rfl⟩
    exact ⟨pace cut run' n, onward_before_pace h hremark hn, (h n).outcome⟩
  · rintro ⟨k, hk, hend⟩
    obtain ⟨n, rfl | ⟨rfl, hline⟩⟩ := eq_pace_or cut run' k
    · refine ⟨n, fun m hm => (onward_pace h m).1 (hk _ (pace_lt hm)), ?_⟩
      exact Outcome.moved_inj hinj ((h n).outcome.symm.trans hend)
    · -- Before the step over the comment both runs went on as well.
      rw [hremark n hline] at hend
      have hbefore := fun m hm => (onward_pace h m).1 (hk _ (Nat.lt_succ_of_lt (pace_lt hm)))
      have hlast := (onward_pace h n).1 (hk _ (Nat.lt_succ_self _))
      exact ⟨n, hbefore, hlast.trans (Outcome.moved_eq_onward.1 hend.symm).symm⟩

end Together

/-- A comment never changes a program. Let a comment be put in anywhere among the
statements of a program that does not read the time. Both programs run side by side:
the longer one goes over the comment each time it comes to it, and for the rest they
come to the same step by step, with the same variables, blocks, output and files and
with lines below the comment moved down by one. They go on for ever together and end or
fail together, with the same error. -/
theorem a_comment_never_changes_a_program (before after : List Statement) (text : String)
    (htime : (Program.ofStatements (before ++ after)).readsClock = false)
    (times times' : Nat → Clock) (keyboard : Keyboard) (seed : UInt64) (host : Host) :
    let cut := before.length
    let run := (start (.ofStatements (before ++ after)) seed host).course times fun _ => keyboard
    let run' := (start (.ofStatements (before ++ .remark text :: after)) seed host).course times'
      fun _ => keyboard
    (∀ n, Accompanies cut (run n) (run' (pace cut run' n))) ∧
      (∀ k, (∃ n, k = pace cut run' n) ∨
        ∃ n, k = pace cut run' n + 1 ∧ (run' (pace cut run' n)).2.line = cut ∧
          run' k = (.onward, ((run' (pace cut run' n)).2.given (times' (pace cut run' n))
            keyboard).goTo (cut + 1))) ∧
      ((∀ n, (run n).1 = .onward) ↔ ∀ k, (run' k).1 = .onward) ∧
      ∀ outcome, ComesTo run outcome ↔ ComesTo run' (outcome.moved (shift cut)) := by
  intro cut run run'
  have hstart : Beside (shift cut) (start (.ofStatements (before ++ after)) seed host)
      (start (.ofStatements (before ++ .remark text :: after)) seed host) :=
    ⟨rfl, rfl, rfl, rfl, rfl, rfl, rfl, rfl, rfl, rfl, nofun⟩
  have hline : 0 = shift cut 0 ∨ Outcome.onward = .onward ∧ 0 = cut ∧ 0 = cut := by
    unfold shift
    split
    · exact Or.inl rfl
    · exact Or.inr ⟨rfl, by omega, by omega⟩
  have hbeside : ∀ n, Accompanies cut (run n) (run' (pace cut run' n)) :=
    Accompanies.course htime ⟨rfl, hstart, hline⟩ rfl rfl rfl
  have hremark : ∀ n, (run' (pace cut run' n)).2.line = cut → run' (pace cut run' n + 1) =
      (.onward, ((run' (pace cut run' n)).2.given (times' (pace cut run' n)) keyboard).goTo
        (cut + 1)) := by
    intro n hcut
    refine course_remark rfl ?_ hcut
    have hruns : (run n).1 = .onward := by
      rcases (hbeside n).line with hsame | ⟨honward, _⟩
      · exact absurd (hsame.symm.trans hcut) (shift_ne cut _)
      · exact honward
    exact (hbeside n).beside.stopped.trans (running_of_course rfl hruns)
  have honward := fun n hcut => congrArg Prod.fst (hremark n hcut)
  refine ⟨hbeside, fun k => ?_, diverge_together hbeside honward, come_together hbeside honward⟩
  obtain ⟨n, rfl | ⟨rfl, hcut⟩⟩ := eq_pace_or cut run' k
  · exact Or.inl ⟨n, rfl⟩
  · exact Or.inr ⟨n, rfl, hcut, hremark n hcut⟩

/-- A loop with a comment in it, and an error after the loop. -/
theorem a_comment_never_changes_a_loop :
    let before : List Statement := [.for ⟨['i', '%']⟩ (.integer 1) (.integer 2) none]
    let after : List Statement := [.next none, .assign (.variable ⟨['x', '%']⟩)
      (.member (.variable ⟨['p']⟩) ⟨['F', 'o', 'o']⟩)]
    let run := (start (.ofStatements (before ++ after)) 7 {}).course (fun _ => {}) fun _ => {}
    let run' := (start (.ofStatements (before ++ .remark "twice" :: after)) 7 {}).course
      (fun n => { instant := n }) fun _ => {}
    (Program.ofStatements (before ++ after)).readsClock = false ∧
      ComesTo run (.failed ⟨.illegalFunctionCall, some 2, "No member Foo"⟩) ∧
      ComesTo run' (.failed ⟨.illegalFunctionCall, some 3, "No member Foo"⟩) := by
  intro before after run run'
  have htime : (Program.ofStatements (before ++ after)).readsClock = false := rfl
  have hrun : ComesTo run (.failed ⟨.illegalFunctionCall, some 2, "No member Foo"⟩) :=
    ⟨4, by decide +kernel, by decide +kernel⟩
  have hboth := a_comment_never_changes_a_program before after "twice" htime (fun _ => {})
    (fun n => { instant := n }) {} 7 {}
  exact ⟨htime, hrun, (hboth.2.2.2 _).1 hrun⟩

end Session

end LineBasic
