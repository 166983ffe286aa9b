-- What a handle reads and writes, byte by byte. A write changes the bytes from the position
-- on and no others, and moves the handle past them. Reading and writing in pieces comes to
-- the same as all at once, and what was written is read back.
import LineBasic.Proofs.Requests

namespace LineBasic.Files

variable {f g : Files} {h : Int64} {file : OpenFile}

/-! ## One after the other -/

theorem moveTo_moveTo (f : Files) (h : Int64) (file : OpenFile) (p q : Nat) :
    (f.moveTo h file p).moveTo h { file with position := p } q = f.moveTo h file q := by
  simp only [moveTo, Table.insert_insert]

theorem written_written (f : Files) (h : Int64) (file : OpenFile) (a b : ByteArray) :
    (f.written h file a).written h { file with position := file.position + a.size } b =
      f.written h file (a ++ b) := by
  have hbytes := f.bytesOf_written h file a
  unfold written at hbytes ⊢
  rw [hbytes, overwrite_overwrite, ByteArray.size_append, ← Nat.add_assoc]
  simp only [moveTo, withFile, Table.insert_insert]

/-- Two writes in a row succeed exactly if one of all the bytes does, and come to the same. -/
theorem write_write_iff (hopen : f.handles.get? h = some file) (a b : ByteArray) (l : Files) :
    (∃ g, f.write h a = .ok g ∧ g.write h b = .ok l) ↔ f.write h (a ++ b) = .ok l := by
  rw [write_eq_ok hopen, ByteArray.size_append]
  constructor
  · rintro ⟨g, ha, hb⟩
    obtain ⟨hmode, -, rfl⟩ := (write_eq_ok hopen _).1 ha
    obtain ⟨-, hroom, rfl⟩ := (write_eq_ok (get?_written f h file a) _).1 hb
    dsimp only at hroom
    exact ⟨hmode, by omega, written_written f h file a b⟩
  · rintro ⟨hmode, hroom, rfl⟩
    refine ⟨f.written h file a, (write_eq_ok hopen _).2 ⟨hmode, by omega, rfl⟩,
      (write_eq_ok (get?_written f h file a) _).2 ⟨hmode, ?_, (written_written f h file a b).symm⟩⟩
    dsimp only
    omega

/-! ## Reading -/

/-- A file that can be read gives some bytes, whatever the position. -/
theorem read_of_mode (hopen : f.handles.get? h = some file)
    (hmode : file.mode = .read ∨ file.mode = .readWrite) (count : Nat) :
    f.read h count =
      .ok ((f.bytesOf file.path).extract (f.readStart file) (f.readStop file count),
        f.moveTo h file (f.readStop file count)) := by
  rw [read_eq hopen, if_neg]
  rcases hmode with hmode | hmode <;> simp [hmode]

/-- Where a reading stops, the next one starts, and both stop where one of all would. -/
theorem readStart_moved (f : Files) (h : Int64) (file : OpenFile) (n : Nat) :
    (f.moveTo h file (f.readStop file n)).readStart { file with position := f.readStop file n } =
      f.readStop file n := by
  unfold readStart
  rw [bytesOf_moveTo]
  exact Nat.min_eq_left (Nat.min_le_right _ _)

theorem readStop_moved (f : Files) (h : Int64) (file : OpenFile) (n m : Nat) :
    (f.moveTo h file (f.readStop file n)).readStop { file with position := f.readStop file n } m =
      f.readStop file (n + m) := by
  change min (readStart _ _ + m) (f.bytesOf file.path).size = _
  rw [readStart_moved]
  unfold readStop
  omega

theorem read_read (hopen : f.handles.get? h = some file)
    (hmode : file.mode = .read ∨ file.mode = .readWrite) (n m : Nat) :
    ∃ x g y l, f.read h n = .ok (x, g) ∧ g.read h m = .ok (y, l) ∧
      f.read h (n + m) = .ok (x ++ y, l) := by
  refine ⟨_, _, _, _, read_of_mode hopen hmode n,
    read_of_mode (get?_moveTo_self f h file (f.readStop file n)) hmode m, ?_⟩
  have hle : f.readStart file ≤ f.readStop file n := by
    unfold readStop readStart
    omega
  have hle' : f.readStop file n ≤ f.readStop file (n + m) := by
    unfold readStop
    omega
  rw [read_of_mode hopen hmode, readStart_moved, readStop_moved, moveTo_moveTo, bytesOf_moveTo,
    ← ByteArray.extract_eq_extract_append_extract _ hle hle']

/-- Nothing is left exactly if no reading, however long, gives a byte. -/
theorem atEnd_iff (hopen : f.handles.get? h = some file)
    (hmode : file.mode = .read ∨ file.mode = .readWrite) :
    f.atEnd h = .ok true ↔ ∀ count, 1 ≤ count → ∃ g, f.read h count = .ok (ByteArray.empty, g) := by
  have hnone : ∀ count, (∃ g, f.read h count = .ok (ByteArray.empty, g)) ↔
      f.readStop file count ≤ f.readStart file := by
    intro count
    rw [read_of_mode hopen hmode]
    constructor
    · rintro ⟨g, hread⟩
      have hempty := congrArg Prod.fst (Except.ok.inj hread)
      have hle := ByteArray.extract_eq_empty_iff.1 hempty
      have hstop : f.readStop file count ≤ (f.bytesOf file.path).size := Nat.min_le_right _ _
      rwa [Nat.min_eq_left hstop] at hle
    · intro hle
      have hempty : (f.bytesOf file.path).extract (f.readStart file) (f.readStop file count) =
          ByteArray.empty :=
        ByteArray.extract_eq_empty_iff.2 (Nat.le_trans (Nat.min_le_left _ _) hle)
      exact ⟨_, by rw [hempty]⟩
  rw [atEnd_eq hopen]
  constructor
  · intro hend count _
    rw [hnone]
    have hle : (f.bytesOf file.path).size ≤ file.position := by simpa using hend
    unfold readStop readStart
    omega
  · intro hall
    have hle := (hnone 1).1 (hall 1 (Nat.le_refl 1))
    unfold readStop readStart at hle
    have hend : (f.bytesOf file.path).size ≤ file.position := by omega
    simpa using hend

/-! ## The laws -/

/-- Each byte after a write, told from the new bytes and the old. -/
theorem getElem?_written (f : Files) (h : Int64) (file : OpenFile) (data : ByteArray) (i : Nat) :
    ((f.written h file data).bytesOf file.path)[i]? =
      if file.position ≤ i ∧ i < file.position + data.size then data[i - file.position]?
      else if i < (f.bytesOf file.path).size then (f.bytesOf file.path)[i]?
      else if i < file.position then some 0
      else none := by
  rw [bytesOf_written, getElem?_overwrite]
  by_cases hi : i < file.position
  · rw [if_pos hi, if_neg (by omega : ¬ (file.position ≤ i ∧ i < file.position + data.size)), if_pos hi]
  · by_cases hd : i < file.position + data.size
    · rw [if_neg hi, if_pos hd, if_pos (by omega)]
    · rw [if_neg hi, if_neg hd, if_neg (by omega)]
      by_cases hold : i < (f.bytesOf file.path).size
      · rw [if_pos hold]
      · rw [if_neg hold, if_neg hi, getElem?_eq_none (by omega)]

/-- What was written is read back from where the writing started. -/
theorem seek_read_written (hopen : f.handles.get? h = some file) (hmode : file.mode = .readWrite)
    {d : ByteArray} (hw : f.write h d = .ok g) :
    ∃ k l, g.seek h file.position = .ok k ∧ k.read h d.size = .ok (d, l) := by
  obtain ⟨-, hroom, rfl⟩ := (write_eq_ok hopen _).1 hw
  have hseek := seek_eq (get?_written f h file d) file.position
  rw [if_neg (by omega)] at hseek
  generalize hk : (f.written h file d).moveTo h _ file.position = k at hseek
  have hback : k.handles.get? h = some file := by
    rw [← hk]
    exact get?_moveTo_self _ _ _ _
  have hbytes : k.bytesOf file.path = overwrite (f.bytesOf file.path) file.position d := by
    rw [← hk]
    exact bytesOf_written f h file d
  have hstart : k.readStart file = file.position := by
    rw [readStart, hbytes, size_overwrite]
    omega
  have hstop : k.readStop file d.size = file.position + d.size := by
    rw [readStop, hstart, hbytes, size_overwrite]
    omega
  refine ⟨k, k.moveTo h file (file.position + d.size), hseek, ?_⟩
  rw [read_of_mode hback (Or.inr hmode), hstart, hstop, hbytes, extract_overwrite]

/-- What can be said of a handle that is open, at its position. A write that succeeds puts
its bytes there, keeps all others, fills a gap with zeros, and moves on past them; it touches
no other file and no other handle. Writes in a row succeed exactly if one write of all the
bytes does, and come to the same. Where the file can be read, readings in a row give what one
gives, the end is where no reading gives a byte, and if it can be written too, going back
after a write gives what was written. -/
theorem reads_and_writes_keep_to_their_bytes (hopen : f.handles.get? h = some file) :
    let p := file.position
    let old := f.bytesOf file.path
    (∀ d g, f.write h d = .ok g →
      let new := g.bytesOf file.path
      new.size = max old.size (p + d.size) ∧
      (∀ i : Nat, new[i]? =
        if p ≤ i ∧ i < p + d.size then d[i - p]?
        else if i < old.size then old[i]?
        else if i < p then some 0
        else none) ∧
      g.handles.get? h = some { file with position := p + d.size } ∧
      (∀ other, other ≠ file.path → g.contents.get? other = f.contents.get? other) ∧
      ∀ k, k ≠ h → g.handles.get? k = f.handles.get? k) ∧
    (∀ a b l, (∃ g, f.write h a = .ok g ∧ g.write h b = .ok l) ↔ f.write h (a ++ b) = .ok l) ∧
    (file.mode = .read ∨ file.mode = .readWrite →
      (∀ n m, ∃ x g y l, f.read h n = .ok (x, g) ∧ g.read h m = .ok (y, l) ∧
        f.read h (n + m) = .ok (x ++ y, l)) ∧
      (f.atEnd h = .ok true ↔
        ∀ count, 1 ≤ count → ∃ g, f.read h count = .ok (ByteArray.empty, g))) ∧
    (file.mode = .readWrite → ∀ d g, f.write h d = .ok g →
      ∃ k l, g.seek h p = .ok k ∧ k.read h d.size = .ok (d, l)) := by
  intro p old
  refine ⟨fun d g hw => ?_, fun a b l => write_write_iff hopen a b l,
    fun hmode => ⟨fun n m => read_read hopen hmode n m, atEnd_iff hopen hmode⟩,
    fun hmode d g hw => ?_⟩
  · obtain ⟨-, -, rfl⟩ := (write_eq_ok hopen _).1 hw
    refine ⟨?_, getElem?_written f h file d, get?_written f h file d, ?_, ?_⟩
    · rw [bytesOf_written, size_overwrite]
    · intro other hother
      exact Table.get?_insert_ne _ hother.symm _
    · intro k hk
      exact get?_moveTo_ne hk.symm _
  · exact seek_read_written hopen hmode hw

/-- Four bytes of a file of two are skipped, and what is written after them is read back. -/
theorem a_write_past_the_end_is_read_back :
    let f := Files.after {} [.openAs "log" .readWrite, .write 1 "ab".toUTF8, .seek 1 4]
    let file : OpenFile := ⟨"log", .readWrite, 4⟩
    f.handles.get? 1 = some file ∧ ∃ g, f.write 1 "xy".toUTF8 = .ok g ∧
      (g.bytesOf "log").size = 6 ∧ (g.bytesOf "log")[1]? = some 98 ∧ (g.bytesOf "log")[3]? = some 0 ∧
      ∃ k l, g.seek 1 4 = .ok k ∧ k.read 1 2 = .ok ("xy".toUTF8, l) := by
  intro f file
  have hopen : f.handles.get? 1 = some file := rfl
  obtain ⟨hwrites, -, -, hback⟩ := reads_and_writes_keep_to_their_bytes hopen
  have hw : f.write 1 "xy".toUTF8 = .ok (f.written 1 file "xy".toUTF8) := rfl
  obtain ⟨hsize, hbytes, -⟩ := hwrites _ _ hw
  obtain ⟨k, l, hseek, hread⟩ := hback rfl _ _ hw
  have htwo : "xy".toUTF8.size = 2 := rfl
  rw [htwo] at hread
  exact ⟨hopen, _, hw, hsize.trans (by decide), (hbytes 1).trans (by decide),
    (hbytes 3).trans (by decide), k, l, hseek, hread⟩

end LineBasic.Files
