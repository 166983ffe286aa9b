-- How a segment is traced. The loop of a walk has no counter and ends only on the
-- target itself. It gets there because the error tells how far the pixel is off the
-- line, and no step takes it further off than half a pixel. So the axis with more to
-- cover moves on every step, and the other one arrives with it.
import LineBasic.Screen.Segment
import Mathlib.Data.List.Chain

namespace LineBasic

/-! ## One axis -/

namespace Axial

/-- The number `i` places on from `p` in the direction of `q`. -/
def toward (p q : Int) (i : Nat) : Int := p + i * (q - p).sign

variable {p q : Int} {i i' : Nat}

@[simp] theorem toward_zero (p q : Int) : toward p q 0 = p := by
  simp [toward]

theorem toward_succ (p q : Int) (i : Nat) : toward p q (i + 1) = toward p q i + (q - p).sign := by
  unfold toward
  rw [Int.natCast_succ, Int.add_mul, Int.one_mul, Int.add_assoc]

/-- The direction is one of three, and without a distance there is none. -/
theorem toward_cases (h : i ≤ (q - p).natAbs) :
    (p < q ∧ toward p q i = p + i) ∨ (q < p ∧ toward p q i = p - i) ∨
      (q = p ∧ i = 0 ∧ toward p q i = p) := by
  unfold toward
  rcases Int.lt_trichotomy p q with hlt | heq | hgt
  · rw [Int.sign_eq_one_of_pos (by omega)]
    omega
  · subst heq
    rw [Int.sub_self] at h
    have hi : i = 0 := by simpa using h
    simp [hi]
  · rw [Int.sign_eq_neg_one_of_neg (by omega)]
    omega

theorem natAbs_toward_sub (h : i ≤ (q - p).natAbs) : (toward p q i - p).natAbs = i := by
  have := toward_cases h
  omega

theorem natAbs_sub_toward (h : i ≤ (q - p).natAbs) :
    (q - toward p q i).natAbs = (q - p).natAbs - i := by
  have := toward_cases h
  omega

theorem toward_eq_iff (h : i ≤ (q - p).natAbs) : toward p q i = q ↔ i = (q - p).natAbs := by
  have := toward_cases h
  omega

theorem toward_between (h : i ≤ (q - p).natAbs) :
    min p q ≤ toward p q i ∧ toward p q i ≤ max p q := by
  have := toward_cases h
  omega

theorem natAbs_toward_sub_toward (hle : i ≤ i') (h : i' ≤ (q - p).natAbs) :
    (toward p q i' - toward p q i).natAbs = i' - i := by
  have hfar := toward_cases h
  have hnear := toward_cases (Nat.le_trans hle h)
  omega

end Axial

namespace Segment

open Axial

/-! ## The loop -/

/-- The pixels that a walk plots by going on until it is on its target, with no bound
on its steps. -/
inductive Walk.Plots : Walk → List Point → Prop
  | stop {w : Walk} : w.here = w.target → w.Plots [w.here]
  | next {w : Walk} {ps : List Point} :
      w.here ≠ w.target → w.step.Plots ps → w.Plots (w.here :: ps)

theorem Walk.Plots.unique {w : Walk} {ps qs : List Point} (h : w.Plots ps) (h' : w.Plots qs) :
    qs = ps := by
  induction h generalizing qs with
  | stop hend =>
    cases h' with
    | stop _ => rfl
    | next hgo _ => exact absurd hend hgo
  | next hgo _ ih =>
    cases h' with
    | stop hend => exact absurd hend hgo
    | next _ hrest => rw [ih hrest]

/-! ## What is asked of the pixels -/

variable {a b p q : Point} {ps : List Point} {n : Nat}

/-- How far a segment goes along x. -/
def spanX (a b : Point) : Nat := (b.x - a.x).natAbs

/-- How far a segment goes along y. -/
def spanY (a b : Point) : Nat := (b.y - a.y).natAbs

/-- A pixel in the box of a segment, at most half a pixel off the line along the shorter
axis. -/
structure Near (a b p : Point) : Prop where
  off : 2 * ((spanY a b * (p.x - a.x).natAbs : Int) - spanX a b * (p.y - a.y).natAbs).natAbs ≤
    max (spanX a b) (spanY a b)
  inX : min a.x b.x ≤ p.x ∧ p.x ≤ max a.x b.x
  inY : min a.y b.y ≤ p.y ∧ p.y ≤ max a.y b.y

/-- From one pixel to the next of a segment: one on along the longer axis, along both if
they are equal, and on no axis away from the end. -/
structure Advances (a b p q : Point) : Prop where
  stepX : (q.x - p.x).natAbs ≤ 1
  stepY : (q.y - p.y).natAbs ≤ 1
  longX : spanY a b ≤ spanX a b → (q.x - p.x).natAbs = 1
  longY : spanX a b ≤ spanY a b → (q.y - p.y).natAbs = 1
  closerX : (b.x - q.x).natAbs ≤ (b.x - p.x).natAbs
  closerY : (b.y - q.y).natAbs ≤ (b.y - p.y).natAbs

/-- The pixels lead from `p` to the end of the segment in `n` steps. -/
structure Leads (a b p : Point) (n : Nat) (ps : List Point) : Prop where
  length : ps.length = n + 1
  first : ps.head? = some p
  last : ps.getLast? = some b
  chain : ps.IsChain (Advances a b)
  near : ∀ q ∈ ps, Near a b q

theorem leads_stop (h : Near a b b) : Leads a b b 0 [b] where
  length := rfl
  first := rfl
  last := rfl
  chain := List.isChain_singleton b
  near := by simpa using h

theorem leads_step (hp : Near a b p) (hpq : Advances a b p q) (h : Leads a b q n ps) :
    Leads a b p (n + 1) (p :: ps) where
  length := by rw [List.length_cons, h.length]
  first := rfl
  last := by simp [List.getLast?_cons, h.last]
  chain := by
    rw [List.isChain_cons]
    constructor
    · intro r hr
      rw [h.first, Option.mem_some_iff] at hr
      rwa [← hr]
    · exact h.chain
  near := List.forall_mem_cons.2 ⟨hp, h.near⟩

/-! ## Where a walk is -/

variable {i j k : Nat}

/-- The pixel `i` places across and `j` down from the start of a segment. -/
def pixelAt (a b : Point) (i j : Nat) : Point := ⟨toward a.x b.x i, toward a.y b.y j⟩

/-- How far a pixel is off the line, in units in which the longer span is one pixel. -/
def offset (a b : Point) (i j : Nat) : Int := spanY a b * i - spanX a b * j

/-- One place across takes the pixel off to one side of the line. -/
theorem offset_across (a b : Point) (i j : Nat) :
    offset a b (i + 1) j = offset a b i j + spanY a b := by
  unfold offset
  rw [Int.natCast_succ, Int.mul_add, Int.mul_one]
  omega

/-- One place down takes it off to the other side. -/
theorem offset_down (a b : Point) (i j : Nat) :
    offset a b i (j + 1) = offset a b i j - spanX a b := by
  unfold offset
  rw [Int.natCast_succ, Int.mul_add, Int.mul_one]
  omega

/-- The error lets x move. -/
def GoesAcross (a b : Point) (i j : Nat) : Prop :=
  2 * offset a b i j ≤ 2 * spanX a b - spanY a b

/-- The error lets y move. -/
def GoesDown (a b : Point) (i j : Nat) : Prop :=
  spanX a b - 2 * spanY a b ≤ 2 * offset a b i j

instance (a b : Point) (i j : Nat) : Decidable (GoesAcross a b i j) := by
  unfold GoesAcross
  infer_instance

instance (a b : Point) (i j : Nat) : Decidable (GoesDown a b i j) := by
  unfold GoesDown
  infer_instance

def nextX (a b : Point) (i j : Nat) : Nat := if GoesAcross a b i j then i + 1 else i

def nextY (a b : Point) (i j : Nat) : Nat := if GoesDown a b i j then j + 1 else j

theorem offset_next (a b : Point) (i j : Nat) :
    offset a b (nextX a b i j) (nextY a b i j) =
      offset a b i j + (if GoesAcross a b i j then (spanY a b : Int) else 0) -
        (if GoesDown a b i j then (spanX a b : Int) else 0) := by
  unfold nextX nextY
  split <;> split <;> simp [offset_across, offset_down]
  omega

/-! ## One step -/

/-- A walk that went `i` places across and `j` down. -/
def Walk.went (a b : Point) (i j : Nat) : Walk :=
  { Walk.start a b with
    here := pixelAt a b i j
    error := spanX a b - spanY a b - offset a b i j }

theorem Walk.start_eq_went (a b : Point) : Walk.start a b = Walk.went a b 0 0 := by
  simp [Walk.start, Walk.went, pixelAt, offset, spanX, spanY, Int.sub_eq_add_neg]

@[simp] theorem Walk.went_dx : (Walk.went a b i j).dx = spanX a b := rfl

@[simp] theorem Walk.went_dy : (Walk.went a b i j).dy = -(spanY a b : Int) := rfl

@[simp] theorem Walk.went_here : (Walk.went a b i j).here = pixelAt a b i j := rfl

@[simp] theorem Walk.went_target : (Walk.went a b i j).target = b := rfl

@[simp] theorem Walk.went_error :
    (Walk.went a b i j).error = spanX a b - spanY a b - offset a b i j := rfl

theorem Walk.across_iff :
    (Walk.went a b i j).dy ≤ 2 * (Walk.went a b i j).error ↔ GoesAcross a b i j := by
  unfold GoesAcross
  rw [went_dy, went_error]
  omega

theorem Walk.down_iff :
    2 * (Walk.went a b i j).error ≤ (Walk.went a b i j).dx ↔ GoesDown a b i j := by
  unfold GoesDown
  rw [went_dx, went_error]
  omega

theorem pixelAt_next (a b : Point) (i j : Nat) :
    pixelAt a b (nextX a b i j) (nextY a b i j) =
      ⟨if GoesAcross a b i j then toward a.x b.x i + (b.x - a.x).sign else toward a.x b.x i,
        if GoesDown a b i j then toward a.y b.y j + (b.y - a.y).sign else toward a.y b.y j⟩ := by
  unfold pixelAt nextX nextY
  split <;> split <;> simp [toward_succ]

theorem Walk.step_went (a b : Point) (i j : Nat) :
    (Walk.went a b i j).step = Walk.went a b (nextX a b i j) (nextY a b i j) := by
  unfold Walk.step
  simp only [across_iff, down_iff]
  unfold Walk.went
  rw [offset_next, pixelAt_next]
  simp only [Walk.start, pixelAt, Walk.mk.injEq, true_and]
  unfold spanX spanY
  split <;> split <;> omega

/-! ## The invariant -/

/-- The walk is where it has to be after `k` steps. The longer axis moved on each of them,
and the pixel is at most half a pixel off the line. -/
structure Reached (a b : Point) (k i j : Nat) : Prop where
  steps : k ≤ max (spanX a b) (spanY a b)
  longX : spanY a b ≤ spanX a b → i = k
  longY : spanX a b ≤ spanY a b → j = k
  off : 2 * (offset a b i j).natAbs ≤ max (spanX a b) (spanY a b)

theorem reached_start (a b : Point) : Reached a b 0 0 0 where
  steps := Nat.zero_le _
  longX _ := rfl
  longY _ := rfl
  off := by simp [offset]

/-- One step: the longer axis always moves, and the other one moves when the pixel would
else be more than half a pixel off. -/
theorem Reached.step (h : Reached a b k i j) (hk : k < max (spanX a b) (spanY a b)) :
    Reached a b (k + 1) (nextX a b i j) (nextY a b i j) := by
  obtain ⟨-, hlongX, hlongY, hoff⟩ := h
  -- Half a pixel is the longer span halved, so the longer axis never waits.
  constructor
  · omega
  · intro hle
    have hgo : GoesAcross a b i j := by
      unfold GoesAcross
      omega
    rw [nextX, if_pos hgo, hlongX hle]
  · intro hle
    have hgo : GoesDown a b i j := by
      unfold GoesDown
      omega
    rw [nextY, if_pos hgo, hlongY hle]
  · rw [offset_next]
    split <;> split <;>
    · unfold GoesAcross GoesDown at *
      omega

/-! ## The shorter axis arrives -/

/-- Half a pixel off the line is not enough to pass the end on the shorter axis. -/
theorem shorter_le {m M s : Nat} (hm : m < M) (hk : k ≤ M) (hoff : 2 * (M * s) ≤ 2 * (m * k) + M) :
    s ≤ m := by
  by_contra hpast
  have hs : M * (m + 1) ≤ M * s := Nat.mul_le_mul_left M (by omega)
  have hmk : m * k ≤ m * M := Nat.mul_le_mul_left m hk
  rw [Nat.mul_succ, Nat.mul_comm M m] at hs
  omega

/-- When the longer axis has come to its end, neither is it enough to fall short of it. -/
theorem le_shorter {m M s : Nat} (hm : m < M) (hoff : 2 * (m * M) ≤ 2 * (M * s) + M) : m ≤ s := by
  by_contra hshort
  have hs : M * (s + 1) ≤ M * m := Nat.mul_le_mul_left M (by omega)
  rw [Nat.mul_succ, Nat.mul_comm M m] at hs
  omega

theorem Reached.off_le (h : Reached a b k i j) :
    2 * (spanY a b * i) ≤ 2 * (spanX a b * j) + max (spanX a b) (spanY a b) ∧
      2 * (spanX a b * j) ≤ 2 * (spanY a b * i) + max (spanX a b) (spanY a b) := by
  have hoff := h.off
  unfold offset at hoff
  omega

theorem Reached.across_le (h : Reached a b k i j) : i ≤ spanX a b := by
  obtain ⟨hright, -⟩ := h.off_le
  have hk := h.steps
  by_cases hle : spanY a b ≤ spanX a b
  · rw [h.longX hle]
    omega
  · rw [h.longY (by omega), Nat.max_eq_right (by omega)] at hright
    exact shorter_le (by omega) (by omega) hright

theorem Reached.across_eq (h : Reached a b k i j) (hend : k = max (spanX a b) (spanY a b)) :
    i = spanX a b := by
  obtain ⟨-, hleft⟩ := h.off_le
  have hle := h.across_le
  by_cases hlong : spanY a b ≤ spanX a b
  · rw [h.longX hlong]
    omega
  · rw [h.longY (by omega), hend, Nat.max_eq_right (by omega)] at hleft
    have hge := le_shorter (by omega) hleft
    omega

/-- The plane with its axes exchanged. -/
def flip (p : Point) : Point := ⟨p.y, p.x⟩

theorem Reached.flip (h : Reached a b k i j) : Reached (flip a) (flip b) k j i where
  steps := Nat.max_comm _ _ ▸ h.steps
  longX := h.longY
  longY := h.longX
  off := by
    have hoff := h.off
    unfold offset at *
    change 2 * ((spanX a b * j : Int) - spanY a b * i).natAbs ≤ max (spanY a b) (spanX a b)
    omega

theorem Reached.down_le (h : Reached a b k i j) : j ≤ spanY a b :=
  h.flip.across_le

theorem Reached.down_eq (h : Reached a b k i j) (hend : k = max (spanX a b) (spanY a b)) :
    j = spanY a b :=
  h.flip.across_eq (hend.trans (Nat.max_comm _ _))

/-- Both axes come to their ends on the last step, and not before. -/
theorem Reached.at_end_iff (h : Reached a b k i j) :
    pixelAt a b i j = b ↔ k = max (spanX a b) (spanY a b) := by
  have hpixel : pixelAt a b i j = b ↔ i = spanX a b ∧ j = spanY a b := by
    unfold pixelAt spanX spanY
    rw [← toward_eq_iff h.across_le, ← toward_eq_iff h.down_le]
    cases b
    rw [Point.mk.injEq]
  rw [hpixel]
  constructor
  · rintro ⟨hi, hj⟩
    by_cases hlong : spanY a b ≤ spanX a b
    · rw [← h.longX hlong]
      omega
    · rw [← h.longY (by omega)]
      omega
  · exact fun hend => ⟨h.across_eq hend, h.down_eq hend⟩

theorem Reached.near (h : Reached a b k i j) : Near a b (pixelAt a b i j) where
  off := by
    unfold pixelAt
    rw [natAbs_toward_sub h.across_le, natAbs_toward_sub h.down_le]
    exact h.off
  inX := toward_between h.across_le
  inY := toward_between h.down_le

theorem le_nextX (a b : Point) (i j : Nat) : i ≤ nextX a b i j ∧ nextX a b i j ≤ i + 1 := by
  unfold nextX
  split <;> omega

theorem le_nextY (a b : Point) (i j : Nat) : j ≤ nextY a b i j ∧ nextY a b i j ≤ j + 1 := by
  unfold nextY
  split <;> omega

theorem Reached.advances (h : Reached a b k i j) (hk : k < max (spanX a b) (spanY a b)) :
    Advances a b (pixelAt a b i j) (pixelAt a b (nextX a b i j) (nextY a b i j)) := by
  have hnext := h.step hk
  have hx := le_nextX a b i j
  have hy := le_nextY a b i j
  unfold pixelAt
  constructor <;> dsimp only
  · rw [natAbs_toward_sub_toward hx.1 hnext.across_le]
    omega
  · rw [natAbs_toward_sub_toward hy.1 hnext.down_le]
    omega
  · intro hlong
    rw [natAbs_toward_sub_toward hx.1 hnext.across_le, hnext.longX hlong, h.longX hlong]
    omega
  · intro hlong
    rw [natAbs_toward_sub_toward hy.1 hnext.down_le, hnext.longY hlong, h.longY hlong]
    omega
  · rw [natAbs_sub_toward hnext.across_le, natAbs_sub_toward h.across_le]
    omega
  · rw [natAbs_sub_toward hnext.down_le, natAbs_sub_toward h.down_le]
    omega

/-! ## The whole walk -/

theorem Reached.lt_of_ne (h : Reached a b k i j) (hgo : pixelAt a b i j ≠ b) :
    k < max (spanX a b) (spanY a b) :=
  Nat.lt_of_le_of_ne h.steps fun hend => hgo (h.at_end_iff.2 hend)

/-- The loop ends: with as many turns as there are steps to the end, a walk plots the
same pixels as without a bound. -/
theorem Reached.plots (h : Reached a b k i j) {turns : Nat}
    (hturns : max (spanX a b) (spanY a b) ≤ k + turns) :
    (Walk.went a b i j).Plots ((Walk.went a b i j).points turns) := by
  induction turns generalizing k i j with
  | zero => exact .stop (h.at_end_iff.2 (Nat.le_antisymm h.steps hturns))
  | succ turns ih =>
    unfold Walk.points
    split
    · exact .stop (by assumption)
    · have hgo : pixelAt a b i j ≠ b := by assumption
      refine .next hgo ?_
      rw [Walk.step_went]
      exact ih (h.step (h.lt_of_ne hgo)) (by omega)

/-- What the loop plots leads to the end, one pixel after the other. -/
theorem Reached.leads (h : Reached a b k i j) (hps : (Walk.went a b i j).Plots ps) :
    Leads a b (pixelAt a b i j) (max (spanX a b) (spanY a b) - k) ps := by
  generalize hw : Walk.went a b i j = w at hps
  induction hps generalizing k i j with
  | stop hend =>
    subst hw
    have hk := h.at_end_iff.1 hend
    have hnear := h.near
    rw [Walk.went_here] at *
    rw [Walk.went_target] at hend
    rw [hend] at *
    rw [hk, Nat.sub_self]
    exact leads_stop hnear
  | next hgo hrest ih =>
    subst hw
    have hk := h.lt_of_ne hgo
    have hleads := leads_step h.near (h.advances hk) (ih (h.step hk) (Walk.step_went a b i j).symm)
    rwa [show max (spanX a b) (spanY a b) - (k + 1) + 1 = max (spanX a b) (spanY a b) - k by omega]
      at hleads

theorem trace_plots (a b : Point) : (Walk.start a b).Plots (trace a b) := by
  unfold trace
  rw [Walk.start_eq_went]
  exact (reached_start a b).plots (by unfold spanX spanY; omega)

theorem trace_leads (a b : Point) :
    Leads a b a (max (spanX a b) (spanY a b)) (trace a b) := by
  have hplots := trace_plots a b
  rw [Walk.start_eq_went] at hplots
  have hleads := (reached_start a b).leads hplots
  simpa [pixelAt] using hleads

/-- How much of the longer axis is left from a pixel. -/
def left (a b p : Point) : Nat :=
  if spanY a b ≤ spanX a b then (b.x - p.x).natAbs else (b.y - p.y).natAbs

theorem Advances.left_lt (h : Advances a b p q) : left a b q < left a b p := by
  obtain ⟨-, -, hlongX, hlongY, hcloserX, hcloserY⟩ := h
  unfold left
  split
  · have hmove := hlongX (by assumption)
    omega
  · have hmove := hlongY (by omega)
    omega

/-- No pixel is plotted twice. -/
theorem Leads.nodup (h : Leads a b p n ps) : ps.Nodup := by
  have hless : ps.Pairwise fun p q => left a b q < left a b p :=
    have : IsTrans Point fun p q => left a b q < left a b p := ⟨fun _ _ _ h h' => h'.trans h⟩
    (h.chain.imp fun _ _ => Advances.left_lt).pairwise
  exact hless.imp fun hlt heq => absurd hlt (by rw [heq]; exact Nat.lt_irrefl _)

/-- From any point to any other the loop ends, and it plots one pixel more than the longer
axis has steps, all different, from the one point to the other. A line gives the pixels
from one end of what is visible of it to the other end. -/
theorem a_line_is_traced_to_its_end :
    (∀ a b : Point,
      (∀ ps, (Walk.start a b).Plots ps ↔ ps = trace a b) ∧
      Leads a b a (max (b.x - a.x).natAbs (b.y - a.y).natAbs) (trace a b) ∧
      (trace a b).Nodup) ∧
    ∀ x1 y1 x2 y2 : Int64,
      (clip x1 y1 x2 y2 = none ∧ points x1 y1 x2 y2 = []) ∨
        ∃ a b, clip x1 y1 x2 y2 = some (a, b) ∧ points x1 y1 x2 y2 = trace a b := by
  refine ⟨fun a b => ⟨fun ps => ?_, trace_leads a b, (trace_leads a b).nodup⟩, fun x1 y1 x2 y2 => ?_⟩
  · constructor
    · exact (trace_plots a b).unique
    · rintro rfl
      exact trace_plots a b
  · unfold points
    cases clip x1 y1 x2 y2 with
    | none => exact .inl ⟨rfl, rfl⟩
    | some ends => exact .inr ⟨ends.1, ends.2, rfl, rfl⟩

example : trace ⟨5, 2⟩ ⟨0, 0⟩ = [⟨5, 2⟩, ⟨4, 2⟩, ⟨3, 1⟩, ⟨2, 1⟩, ⟨1, 0⟩, ⟨0, 0⟩] := by decide

end Segment

end LineBasic
