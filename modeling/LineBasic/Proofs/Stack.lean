-- The laws of stacks and of frames: where the topmost entry of a kind is, what
-- stays of a stack that is cut, and what entering and leaving a block does.
import LineBasic.Session.Frame

namespace LineBasic

/-! ## The last place -/

section LastPlace

variable {α : Type} {test : α → Bool}

theorem lastPlace?_eq_none {l : List α} : lastPlace? test l = none ↔ ∀ a ∈ l, test a = false := by
  induction l with
  | nil => simp [lastPlace?]
  | cons a rest ih =>
    rw [lastPlace?]
    cases h : lastPlace? test rest with
    | some i =>
      rw [h] at ih
      simp only [reduceCtorEq, false_iff] at ih ⊢
      intro hall
      exact ih fun b hb => hall b (List.mem_cons_of_mem a hb)
    | none =>
      have hr := ih.1 h
      cases ht : test a with
      | true => simp [ht]
      | false => simpa [ht] using hr

/-- The last place at which a test holds: it holds there and nowhere above. -/
theorem lastPlace?_eq_some {l : List α} {i : Nat} (h : lastPlace? test l = some i) :
    ∃ a, l[i]? = some a ∧ test a = true ∧ ∀ b ∈ l.drop (i + 1), test b = false := by
  induction l generalizing i with
  | nil => cases h
  | cons a rest ih =>
    rw [lastPlace?] at h
    cases hr : lastPlace? test rest with
    | some j =>
      rw [hr] at h
      cases h
      obtain ⟨b, hb, ht, habove⟩ := ih hr
      exact ⟨b, hb, ht, habove⟩
    | none =>
      rw [hr] at h
      dsimp only at h
      split at h
      · rename_i ht
        cases h
        exact ⟨a, rfl, ht, lastPlace?_eq_none.1 hr⟩
      · cases h

theorem lastPlace?_append_right {l m : List α} {i : Nat} (h : lastPlace? test m = some i) :
    lastPlace? test (l ++ m) = some (l.length + i) := by
  induction l with
  | nil => simpa using h
  | cons a rest ih =>
    rw [List.cons_append, lastPlace?, ih, List.length_cons]
    exact congrArg some (by omega)

theorem lastPlace?_singleton {a : α} (h : test a = true) : lastPlace? test [a] = some 0 := by
  simp [lastPlace?, h]

end LastPlace

namespace Stack

variable {α : Type} (s : Stack α)

theorem lastPlace?_lt {test : α → Bool} {i : Nat} (h : s.lastPlace? test = some i) :
    i < s.items.length := by
  obtain ⟨a, ha, _⟩ := lastPlace?_eq_some h
  exact (List.getElem?_eq_some_iff.1 ha).1

@[simp] theorem truncate_items (n : Nat) : (s.truncate n).items = s.items.take n := rfl

@[simp] theorem truncate_limit (n : Nat) : (s.truncate n).limit = s.limit := rfl

@[simp] theorem erase_items (i : Nat) : (s.erase i).items = s.items.eraseIdx i := rfl

@[simp] theorem erase_limit (i : Nat) : (s.erase i).limit = s.limit := rfl

@[simp] theorem modify_items (i : Nat) (f : α → α) : (s.modify i f).items = s.items.modify i f := rfl

@[simp] theorem modify_limit (i : Nat) (f : α → α) : (s.modify i f).limit = s.limit := rfl

theorem truncate_all {n : Nat} (h : s.items.length ≤ n) : s.truncate n = s := by
  simp only [truncate, List.take_of_length_le h]

theorem get?_truncate {i n : Nat} (h : i < n) : (s.truncate n).get? i = s.get? i :=
  List.getElem?_take_of_lt h

variable {s} in
/-- What is left of a stack that is cut was there at the same place. -/
theorem get?_of_truncate {i n : Nat} {a : α} (h : (s.truncate n).get? i = some a) :
    i < n ∧ s.get? i = some a := by
  unfold get? at *
  rw [truncate_items, List.getElem?_take] at h
  split at h
  · exact ⟨by assumption, h⟩
  · cases h

variable {s} in
theorem exists_of_mem_truncate {n : Nat} {a : α} (h : a ∈ (s.truncate n).items) :
    ∃ i, i < n ∧ s.get? i = some a := by
  obtain ⟨i, hi⟩ := List.mem_iff_getElem?.1 h
  exact ⟨i, get?_of_truncate hi⟩

theorem eq_of_items {s t : Stack α} (hn : s.note = t.note) (hl : s.limit = t.limit)
    (hi : s.items = t.items) : s = t := by
  cases s
  cases t
  cases hn
  cases hl
  cases hi
  rfl

/-- A push that succeeds puts its entry on top. -/
theorem push_eq_ok {a : α} {t : Stack α} (h : s.push a = .ok t) :
    s.items.length < s.limit ∧ t = { s with items := s.items ++ [a] } := by
  unfold push at h
  split at h
  · rename_i hl
    cases h
    exact ⟨hl, rfl⟩
  · cases h

/-- A push fails only for want of room. -/
theorem push_eq_error {a : α} {e : Error} (h : s.push a = .error e) :
    e = Error.overfull s.note := by
  unfold push at h
  split at h
  · cases h
  · cases h
    rfl

theorem push_of_lt {a : α} (h : s.items.length < s.limit) :
    s.push a = .ok { s with items := s.items ++ [a] } := by
  unfold push
  rw [if_pos h]

end Stack

namespace Frames

variable (fs : Frames)

/-- The frame that `place?` finds. -/
theorem place?_eq_some {line depth i : Nat} (h : fs.place? line depth = some i) :
    ∃ f, fs.get? i = some f ∧ f.first = line ∧ f.depth = depth ∧
      ∀ g ∈ fs.items.drop (i + 1), ¬ (g.first = line ∧ g.depth = depth) := by
  obtain ⟨f, hf, ht, habove⟩ := lastPlace?_eq_some h
  simp only [Frame.isAt, Bool.and_eq_true, decide_eq_true_eq] at ht
  refine ⟨f, hf, ht.1, ht.2, fun g hg hat => ?_⟩
  have := habove g hg
  simp [Frame.isAt, hat] at this

theorem place?_eq_none {line depth : Nat} (h : fs.place? line depth = none) :
    ∀ g ∈ fs.items, ¬ (g.first = line ∧ g.depth = depth) := by
  intro g hg hat
  have := lastPlace?_eq_none.1 h g hg
  simp [Frame.isAt, hat] at this

theorem place?_of_top {outer : List Frame} {f : Frame} {line depth : Nat}
    (hi : fs.items = outer ++ [f]) (hl : f.first = line) (hd : f.depth = depth) :
    fs.place? line depth = some outer.length := by
  unfold place? Stack.lastPlace?
  rw [hi, lastPlace?_append_right (lastPlace?_singleton (by simp [Frame.isAt, hl, hd]))]
  rfl

theorem leave_of_none {line depth : Nat} (h : fs.place? line depth = none) :
    fs.leave line depth = fs := by
  unfold leave
  rw [h]

theorem leave_of_some {line depth i : Nat} (h : fs.place? line depth = some i) :
    fs.leave line depth = fs.truncate i := by
  unfold leave
  rw [h]

/-- Leaving a block cuts the stack. -/
theorem leave_eq_truncate (line depth : Nat) :
    ∃ n, n ≤ fs.items.length ∧ fs.leave line depth = fs.truncate n := by
  cases h : fs.place? line depth with
  | none => exact ⟨_, Nat.le_refl _, by rw [leave_of_none fs h, fs.truncate_all (Nat.le_refl _)]⟩
  | some i => exact ⟨i, Nat.le_of_lt (fs.lastPlace?_lt h), leave_of_some fs h⟩

/-- After a block is left none of its frames is there. -/
theorem not_at_of_mem_leave {line depth : Nat}
    (hu : fs.items.Pairwise fun f g => ¬ (f.first = g.first ∧ f.depth = g.depth)) :
    ∀ g ∈ (fs.leave line depth).items, ¬ (g.first = line ∧ g.depth = depth) := by
  intro g hg hat
  cases h : fs.place? line depth with
  | none =>
    rw [leave_of_none fs h] at hg
    exact place?_eq_none fs h g hg hat
  | some i =>
    rw [leave_of_some fs h, Stack.truncate_items] at hg
    obtain ⟨f, hf, hl, hd, _⟩ := place?_eq_some fs h
    obtain ⟨j, hj, hgj⟩ := List.mem_iff_getElem.1 hg
    rw [List.length_take] at hj
    rw [List.getElem_take] at hgj
    obtain ⟨hi, hfi⟩ := List.getElem?_eq_some_iff.1 hf
    have := List.pairwise_iff_getElem.1 hu j i (by omega) hi (by omega)
    rw [hgj, hfi] at this
    exact this ⟨hat.1.trans hl.symm, hat.2.trans hd.symm⟩

/-- What stays when all above a frame is dropped and its state is changed. -/
theorem truncate_modify_items {i : Nat} {f : Frame} (h : fs.get? i = some f) (g : Frame → Frame) :
    ((fs.truncate (i + 1)).modify i g).items = fs.items.take i ++ [g f] := by
  obtain ⟨hi, hf⟩ := List.getElem?_eq_some_iff.1 h
  have hlen : i < (fs.items.take (i + 1)).length := by
    rw [List.length_take]
    omega
  rw [Stack.modify_items, Stack.truncate_items, List.modify_eq_take_cons_drop hlen,
    List.take_take, List.getElem_take, hf, List.drop_take_self, Nat.min_eq_left (Nat.le_succ i)]

/-- A block that is left with its frame on top leaves what is below. -/
theorem leave_top {line depth i : Nat} (h : fs.place? line depth = some i) (state : FrameState) :
    Frames.leave ((fs.truncate (i + 1)).modify i fun f => { f with state }) line depth =
      fs.truncate i := by
  obtain ⟨f, hf, hl, hd, _⟩ := place?_eq_some fs h
  have hi : i < fs.items.length := fs.lastPlace?_lt h
  have hlen : (fs.items.take i).length = i := by
    rw [List.length_take]
    omega
  have hitems := truncate_modify_items fs hf fun f => { f with state }
  have hp : Frames.place? ((fs.truncate (i + 1)).modify i fun f => { f with state }) line depth =
      some i := by
    rw [place?_of_top _ hitems hl hd, hlen]
  rw [leave_of_some _ hp]
  refine Stack.eq_of_items rfl rfl ?_
  rw [Stack.truncate_items, hitems, Stack.truncate_items, List.take_left' hlen]

/-- Giving a frame the state it has changes nothing. -/
theorem modify_state_self {i : Nat} {f : Frame} (h : fs.get? i = some f) :
    fs.modify i (fun g => { g with state := f.state }) = fs := by
  unfold Stack.modify
  have hi : fs.items[i]? = some f := h
  have : fs.items.modify i (fun g => { g with state := f.state }) = fs.items := by
    apply List.ext_getElem?
    intro j
    rw [List.getElem?_modify]
    by_cases hj : i = j
    · subst hj
      simp [hi]
    · cases fs.items[j]? <;> simp [hj]
  rw [this]

section Places

variable {fs} {i : Nat} {f : Frame}

theorem get?_of_leave {line depth : Nat}
    (h : (fs.leave line depth).get? i = some f) : fs.get? i = some f := by
  obtain ⟨n, _, hn⟩ := fs.leave_eq_truncate line depth
  rw [hn] at h
  exact (Stack.get?_of_truncate h).2

theorem get?_of_unwind {depth : Nat}
    (h : (fs.unwind depth).get? i = some f) : fs.get? i = some f := by
  unfold unwind at h
  split at h <;> exact (Stack.get?_of_truncate h).2

/-- A frame after a block was entered was there before, or is that of the block. -/
theorem get?_of_enter {gs : Frames} {g : Frame} (h : fs.enter g = .ok gs)
    (hf : gs.get? i = some f) : fs.get? i = some f ∨ f = g := by
  obtain ⟨_, rfl⟩ := Stack.push_eq_ok _ h
  unfold Stack.get? at hf
  dsimp only at hf
  rcases Nat.lt_or_ge i (fs.leave g.first g.depth).items.length with hlt | hge
  · rw [List.getElem?_append_left hlt] at hf
    exact Or.inl (get?_of_leave hf)
  · rw [List.getElem?_append_right hge] at hf
    obtain ⟨hi, rfl⟩ := List.getElem?_eq_some_iff.1 hf
    exact Or.inr (List.getElem_singleton hi)

/-- A frame after another state was given to one was there before, or is that one. -/
theorem get?_of_modify {j : Nat} {state : FrameState}
    (h : (fs.modify j fun g => { g with state }).get? i = some f) :
    fs.get? i = some f ∨ i = j ∧ ∃ g, fs.get? i = some g ∧ f = { g with state } := by
  unfold Stack.get? at *
  rw [Stack.modify_items, List.getElem?_modify] at h
  by_cases hj : j = i
  · obtain ⟨g, hg, rfl⟩ := Option.map_eq_some_iff.1 h
    rw [if_pos hj]
    exact Or.inr ⟨hj.symm, g, hg, rfl⟩
  · exact Or.inl (by simpa [hj] using h)

end Places

end Frames

end LineBasic
