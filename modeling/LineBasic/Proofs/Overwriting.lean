-- The bytes of a file after a write. A write replaces the bytes from a position on, and it
-- reaches a position past the end over zeros. Two writes in a row come to one write, a
-- write at the end only adds, and what was written is there to be read back.
import LineBasic.Files

namespace LineBasic.Files

variable {old data a b : ByteArray} {position : Nat}

/-! ## Byte by byte -/

theorem getElem?_append (a b : ByteArray) (i : Nat) :
    (a ++ b)[i]? = if i < a.size then a[i]? else b[i - a.size]? := by
  change (a ++ b).data[i]? = if i < a.data.size then a.data[i]? else b.data[i - a.data.size]?
  rw [ByteArray.data_append, Array.getElem?_append]

theorem getElem?_extract (a : ByteArray) (start stop i : Nat) :
    (a.extract start stop)[i]? = if i < min stop a.size - start then a[start + i]? else none := by
  change (a.extract start stop).data[i]? = if i < min stop a.data.size - start then _ else none
  rw [ByteArray.data_extract, Array.getElem?_extract]
  rfl

theorem eq_of_getElem? (h : ∀ i : Nat, a[i]? = b[i]?) : a = b := by
  apply ByteArray.ext
  apply Array.ext_getElem?
  intro i
  exact h i

theorem getElem?_eq_none {i : Nat} (h : a.size ≤ i) : a[i]? = none :=
  Array.getElem?_eq_none h

/-- The zeros between the end of a file and a position past it. -/
def gap (size position : Nat) : ByteArray := ⟨Array.replicate (position - size) 0⟩

theorem size_gap (size position : Nat) : (gap size position).size = position - size :=
  Array.size_replicate

theorem getElem?_gap {size i : Nat} (h : i < position - size) : (gap size position)[i]? = some 0 := by
  change (Array.replicate (position - size) 0)[i]? = some 0
  rw [Array.getElem?_replicate, if_pos h]

theorem overwrite_eq (old : ByteArray) (position : Nat) (data : ByteArray) :
    overwrite old position data =
      old.extract 0 position ++ gap old.size position ++ data ++
        old.extract (position + data.size) old.size := rfl

theorem size_overwrite :
    (overwrite old position data).size = max old.size (position + data.size) := by
  simp only [overwrite_eq, ByteArray.size_append, ByteArray.size_extract, size_gap]
  omega

/-- Before the position stand the old bytes, and zeros where there were none. From the
position on stand the new bytes, and after them what was there. -/
theorem getElem?_overwrite (i : Nat) :
    (overwrite old position data)[i]? =
      if i < position then if i < old.size then old[i]? else some 0
      else if i < position + data.size then data[i - position]?
      else old[i]? := by
  have hfront : (old.extract 0 position ++ gap old.size position).size = position := by
    simp only [ByteArray.size_append, ByteArray.size_extract, size_gap]
    omega
  simp only [overwrite_eq, getElem?_append, ByteArray.size_append, hfront]
  by_cases hi : i < position
  · by_cases hold : i < old.size
    · have hkept : i < (old.extract 0 position).size := by
        rw [ByteArray.size_extract]
        omega
      rw [if_pos (by omega), if_pos hi, if_pos hkept, getElem?_extract, if_pos (by omega)]
      simp [hi, hold]
    · have hgap : i - (old.extract 0 position).size < position - old.size := by
        rw [ByteArray.size_extract]
        omega
      rw [if_pos (by omega), if_pos hi, if_neg (by rw [ByteArray.size_extract]; omega),
        getElem?_gap hgap]
      simp [hi, hold]
  · by_cases hd : i < position + data.size
    · simp [hi, hd]
    · rw [if_neg (by omega), if_neg hi, if_neg hd, getElem?_extract]
      have hback : position + data.size + (i - (position + data.size)) = i := by omega
      by_cases hold : i < old.size
      · rw [if_pos (by omega), hback]
      · rw [if_neg (by omega), getElem?_eq_none (by omega)]

/-! ## Writes in a row -/

/-- A write that goes on where the last one stopped makes one write with it. -/
theorem overwrite_overwrite :
    overwrite (overwrite old position a) (position + a.size) b = overwrite old position (a ++ b) := by
  apply eq_of_getElem?
  intro i
  simp only [getElem?_overwrite, getElem?_append, size_overwrite, ByteArray.size_append]
  by_cases hi : i < position
  · rw [if_pos (by omega), if_pos (by omega), if_pos hi, if_pos hi]
  · by_cases ha : i < position + a.size
    · rw [if_pos ha, if_pos (by omega), if_neg hi, if_pos ha, if_neg hi, if_pos (by omega),
        if_pos (by omega)]
    · rw [if_neg ha, if_neg hi, if_neg hi, if_neg ha, if_neg (by omega : ¬ i - position < a.size),
        Nat.sub_sub, Nat.add_assoc]

/-- What was written stands where it was written. -/
theorem extract_overwrite :
    (overwrite old position data).extract position (position + data.size) = data := by
  apply eq_of_getElem?
  intro i
  rw [getElem?_extract, size_overwrite, getElem?_overwrite]
  by_cases hi : i < data.size
  · rw [if_pos (by omega), if_neg (by omega), if_pos (by omega), Nat.add_sub_cancel_left]
  · rw [if_neg (by omega), getElem?_eq_none (by omega)]

/-- A write that does not start before the end keeps all that is there. -/
theorem overwrite_past (h : old.size ≤ position) :
    overwrite old position data = old ++ gap old.size position ++ data := by
  have hfront : old.extract 0 position = old := by
    have hall : old.extract 0 (max position old.size) = old := ByteArray.extract_zero_max_size
    rwa [Nat.max_eq_left h] at hall
  have hback : old.extract (position + data.size) old.size = ByteArray.empty :=
    ByteArray.extract_eq_empty_iff.2 (by omega)
  rw [overwrite_eq, hfront, hback, ByteArray.append_empty]

/-- A write at the end only adds. -/
theorem overwrite_end : overwrite old old.size data = old ++ data := by
  have hgap : gap old.size old.size = ByteArray.empty :=
    ByteArray.size_eq_zero_iff.1 (by rw [size_gap, Nat.sub_self])
  rw [overwrite_past (Nat.le_refl _), hgap, ByteArray.append_empty]

/-- A write to an empty file is all there is in it. -/
theorem overwrite_empty (data : ByteArray) : overwrite ByteArray.empty 0 data = data := by
  rw [← ByteArray.size_empty, overwrite_end, ByteArray.empty_append]

/-! ## Ranges -/

/-- The bytes from `start` to `stop`, if this is a range of the bytes. -/
def slice? (bytes : ByteArray) (start stop : Nat) : Option ByteArray :=
  if start ≤ stop ∧ stop ≤ bytes.size then some (bytes.extract start stop) else none

/-- Other bytes copied over those from `start` on, if there are as many. -/
def copyOver? (bytes : ByteArray) (start : Nat) (other : ByteArray) : Option ByteArray :=
  if start + other.size ≤ bytes.size then
    some (bytes.extract 0 start ++ other ++ bytes.extract (start + other.size) bytes.size)
  else none

/-- A write in parts, each in its range: zeros up to the position, a copy over the bytes
that are there, and the rest after them. -/
def overwrite? (old : ByteArray) (position : Nat) (data : ByteArray) : Option ByteArray := do
  let padded := old ++ gap old.size position
  let overlap := min (padded.size - position) data.size
  let front ← slice? data 0 overlap
  let rest ← slice? data overlap data.size
  return (← copyOver? padded position front) ++ rest

/-- The bytes of a file with zeros up to a position: what is before the position. -/
theorem extract_padded_front :
    (old ++ gap old.size position).extract 0 position =
      old.extract 0 position ++ gap old.size position := by
  have hzeros : (gap old.size position).extract 0 (position - old.size) = gap old.size position := by
    rw [← size_gap old.size position, ByteArray.extract_zero_size]
  rw [ByteArray.extract_append, Nat.zero_sub, hzeros]

/-- What is after a place from the position on is what was there. -/
theorem extract_padded_back {start : Nat} (h : position ≤ start) :
    (old ++ gap old.size position).extract start (old ++ gap old.size position).size =
      old.extract start old.size := by
  apply eq_of_getElem?
  intro i
  simp only [getElem?_extract, getElem?_append, ByteArray.size_append, size_gap]
  by_cases hi : start + i < old.size
  · rw [if_pos (by omega), if_pos hi, if_pos (by omega)]
  · rw [if_neg (by omega), if_neg (by omega)]

/-- No part of a write goes out of its range, and together they come to the write. -/
theorem overwrite?_eq (old : ByteArray) (position : Nat) (data : ByteArray) :
    overwrite? old position data = some (overwrite old position data) := by
  have hpadded : (old ++ gap old.size position).size = max old.size position := by
    rw [ByteArray.size_append, size_gap]
    omega
  unfold overwrite?
  dsimp only
  generalize hover : min ((old ++ gap old.size position).size - position) data.size = overlap
  rw [hpadded] at hover
  have hsize : (data.extract 0 overlap).size = overlap := by
    rw [ByteArray.size_extract]
    omega
  have hfront : slice? data 0 overlap = some (data.extract 0 overlap) := if_pos (by omega)
  have hrest : slice? data overlap data.size = some (data.extract overlap data.size) :=
    if_pos (by omega)
  have hcopy : copyOver? (old ++ gap old.size position) position (data.extract 0 overlap) = _ :=
    if_pos (by omega)
  simp only [hfront, hrest, hcopy, hsize, Option.bind_eq_bind, Option.bind_some, Option.pure_def]
  rw [extract_padded_front, extract_padded_back (by omega), overwrite_eq]
  apply congrArg some
  by_cases hwhole : overlap = data.size
  · -- The data ends among the bytes that are there.
    rw [hwhole, ByteArray.extract_zero_size, ByteArray.extract_same, ByteArray.append_empty]
  · have hend : old.size ≤ position + overlap := by omega
    have hnone : old.extract (position + overlap) old.size = ByteArray.empty :=
      ByteArray.extract_eq_empty_iff.2 (by omega)
    have hnone' : old.extract (position + data.size) old.size = ByteArray.empty :=
      ByteArray.extract_eq_empty_iff.2 (by omega)
    have hdata : data.extract 0 overlap ++ data.extract overlap data.size = data := by
      rw [← ByteArray.extract_eq_extract_append_extract overlap (Nat.zero_le _) (by omega),
        ByteArray.extract_zero_size]
    rw [hnone, hnone', ByteArray.append_empty, ByteArray.append_empty, ByteArray.append_assoc, hdata]

end LineBasic.Files
