-- Handles and files stay consistent, whatever is asked of them. Handles are handed out in
-- increasing order and never twice, so a closed one is dead for good. An open handle belongs
-- to a file that is there, and no file and no position goes beyond the limit.
import Mathlib.Algebra.Group.Nat.Defs
import Mathlib.Algebra.Ring.Int.Defs
import LineBasic.Proofs.Requests

namespace LineBasic.Files

variable {f g : Files} {h k : Int64} {file : OpenFile} {path : String} {bytes : ByteArray}
  {mode : FileMode} {position : Nat} {r : Request}

/-! ## The invariant -/

structure Sound (f : Files) : Prop where
  counted : 0 ≤ f.lastHandle.toInt
  issued : ∀ h file, f.handles.get? h = some file → 1 ≤ h.toInt ∧ h.toInt ≤ f.lastHandle.toInt
  present : ∀ h file, f.handles.get? h = some file → f.contents.contains file.path = true
  sizes : ∀ path bytes, f.contents.get? path = some bytes → bytes.size ≤ maxFileSize
  positions : ∀ h file, f.handles.get? h = some file → file.position ≤ maxFileSize

/-- There are handles left to hand out. -/
def HasNext (f : Files) : Prop := f.lastHandle.toInt + 1 < 2 ^ 63

theorem toInt_next (h0 : 0 ≤ f.lastHandle.toInt) (hnext : f.HasNext) :
    (f.lastHandle + 1).toInt = f.lastHandle.toInt + 1 := by
  unfold HasNext at hnext
  rw [Int64.toInt_add, Int64.toInt_one]
  apply Int.bmod_eq_of_le <;> omega

theorem Sound.size_bytesOf (hs : f.Sound) (path : String) : (f.bytesOf path).size ≤ maxFileSize := by
  unfold bytesOf
  cases hget : f.contents.get? path with
  | none => exact Nat.zero_le _
  | some bytes => exact hs.sizes path bytes hget

theorem contains_withFile {other : String} (hc : f.contents.contains other = true) :
    (f.withFile path bytes).contents.contains other = true := by
  by_cases hp : path = other
  · simp [withFile, Table.contains, hp]
  · unfold Table.contains at hc ⊢
    rwa [withFile, Table.get?_insert_ne _ hp]

theorem contains_withFile_self (f : Files) (path : String) (bytes : ByteArray) :
    (f.withFile path bytes).contents.contains path = true := by
  simp [withFile, Table.contains]

/-! ## One change -/

theorem Sound.withFile (hs : f.Sound) (hsize : bytes.size ≤ maxFileSize) :
    (f.withFile path bytes).Sound where
  counted := hs.counted
  issued := hs.issued
  present h file hopen := contains_withFile (hs.present h file hopen)
  sizes other found hget := by
    rcases Table.get?_insert_eq_some.1 hget with ⟨-, rfl⟩ | ⟨-, hget⟩
    · exact hsize
    · exact hs.sizes other found hget
  positions := hs.positions

/-- Handles that were open before, for the same files and within the limit. -/
theorem Sound.of_handles (hs : f.Sound) {handles : Table Int64 OpenFile}
    (hall : ∀ k file, handles.get? k = some file →
      ∃ old, f.handles.get? k = some old ∧ file.path = old.path ∧ file.position ≤ maxFileSize) :
    Sound { f with handles } where
  counted := hs.counted
  issued k file hk := by
    obtain ⟨old, hold, -, -⟩ := hall k file hk
    exact hs.issued k old hold
  present k file hk := by
    obtain ⟨old, hold, hpath, -⟩ := hall k file hk
    rw [hpath]
    exact hs.present k old hold
  sizes := hs.sizes
  positions k file hk := by
    obtain ⟨-, -, -, hposition⟩ := hall k file hk
    exact hposition

theorem Sound.moveTo (hs : f.Sound) (hopen : f.handles.get? h = some file)
    (hp : position ≤ maxFileSize) : (f.moveTo h file position).Sound := by
  apply hs.of_handles
  intro k moved hk
  rcases Table.get?_insert_eq_some.1 hk with ⟨rfl, rfl⟩ | ⟨-, hk⟩
  · exact ⟨file, hopen, rfl, hp⟩
  · exact ⟨moved, hk, rfl, hs.positions k moved hk⟩

theorem Sound.erase (hs : f.Sound) (h : Int64) :
    Sound { f with handles := f.handles.erase h } := by
  apply hs.of_handles
  intro k found hk
  obtain ⟨-, hk⟩ := Table.get?_erase_eq_some.1 hk
  exact ⟨found, hk, rfl, hs.positions k found hk⟩

theorem Sound.issue (hs : f.Sound) (hnext : f.HasNext) (hthere : f.contents.contains path = true)
    (hp : position ≤ maxFileSize) : (f.issue path mode position).2.Sound := by
  have hlast := toInt_next hs.counted hnext
  have h0 := hs.counted
  refine ⟨?_, fun k found hk => ?_, fun k found hk => ?_, hs.sizes, fun k found hk => ?_⟩
  · change 0 ≤ (f.lastHandle + 1).toInt
    omega
  · change 1 ≤ k.toInt ∧ k.toInt ≤ (f.lastHandle + 1).toInt
    rcases Table.get?_insert_eq_some.1 hk with ⟨rfl, -⟩ | ⟨-, hk⟩
    · omega
    · have hissued := hs.issued k found hk
      omega
  · rcases Table.get?_insert_eq_some.1 hk with ⟨-, rfl⟩ | ⟨-, hk⟩
    · exact hthere
    · exact hs.present k found hk
  · rcases Table.get?_insert_eq_some.1 hk with ⟨-, rfl⟩ | ⟨-, hk⟩
    · exact hp
    · exact hs.positions k found hk

/-- A file is ready for its new handle. -/
theorem Sound.readied (hs : f.Sound) (hthere : mode = .read → f.contents.contains path = true) :
    (f.readied path mode).Sound ∧ (f.readied path mode).contents.contains path = true := by
  have hsize := hs.size_bytesOf path
  cases mode with
  | read => exact ⟨hs, hthere rfl⟩
  | write => exact ⟨hs.withFile (Nat.zero_le _), contains_withFile_self _ _ _⟩
  | append | readWrite => exact ⟨hs.withFile hsize, contains_withFile_self _ _ _⟩

theorem Sound.startOf_le (hs : f.Sound) (path : String) (mode : FileMode) :
    f.startOf path mode ≤ maxFileSize := by
  cases mode with
  | append => exact hs.size_bytesOf path
  | read | write | readWrite => exact Nat.zero_le _

@[simp] theorem lastHandle_readied (f : Files) (path : String) (mode : FileMode) :
    (f.readied path mode).lastHandle = f.lastHandle := by
  cases mode <;> rfl

@[simp] theorem handles_readied (f : Files) (path : String) (mode : FileMode) :
    (f.readied path mode).handles = f.handles := by
  cases mode <;> rfl

theorem Sound.changesTo (hs : f.Sound) (hc : f.ChangesTo r g)
    (hnext : r.isOpening = true → f.HasNext) : g.Sound := by
  cases hc with
  | opened path mode hthere =>
    obtain ⟨hready, hcontains⟩ := hs.readied hthere
    apply hready.issue _ hcontains (hs.startOf_le path mode)
    unfold HasNext
    rw [lastHandle_readied]
    exact hnext rfl
  | closed hopen => exact hs.erase _
  | read hopen count =>
    apply hs.moveTo hopen
    exact Nat.le_trans (Nat.min_le_right _ _) (hs.size_bytesOf _)
  | @written h file hopen data hmode hroom =>
    have hsize : (overwrite (f.bytesOf file.path) file.position data).size ≤ maxFileSize := by
      have hold := hs.size_bytesOf file.path
      rw [size_overwrite]
      omega
    exact (hs.withFile hsize).moveTo hopen hroom
  | sought hopen hroom => exact hs.moveTo hopen hroom
  | saved path hroom => exact hs.withFile hroom
  | told | tested | loaded | refused => exact hs

/-! ## The handles of a run -/

/-- The handles that some requests hand out, in order. -/
def handedOut (f : Files) : List Request → List Int64
  | [] => []
  | r :: rs =>
    match (f.serve r).1 with
    | .ok (.handle h) => h :: (f.serve r).2.handedOut rs
    | _ => (f.serve r).2.handedOut rs

/-- The number of requests for a handle. -/
def openings (rs : List Request) : Nat := rs.countP (·.isOpening)

theorem openings_cons (r : Request) (rs : List Request) :
    openings (r :: rs) = openings rs + if r.isOpening then 1 else 0 := List.countP_cons

/-- A request hands out the next handle or none. -/
inductive HandsOut (f : Files) (r : Request) : Prop where
  | next (hr : r.isOpening = true) (ha : (f.serve r).1 = .ok (.handle (f.lastHandle + 1)))
      (hlast : (f.serve r).2.lastHandle = f.lastHandle + 1)
  | none (ha : ∀ h, (f.serve r).1 ≠ .ok (.handle h))
      (hlast : (f.serve r).2.lastHandle = f.lastHandle)

theorem ChangesTo.lastHandle_eq (hc : f.ChangesTo r g) (hr : r.isOpening = false) :
    g.lastHandle = f.lastHandle := by
  cases hc with
  | opened => cases hr
  | closed | read | written | sought | saved | told | tested | loaded | refused => rfl

/-- Only an opening is answered by a handle. -/
theorem isOpening_of_handle (ha : f.grant r = .ok (.handle h, g)) : r.isOpening = true := by
  cases r with
  | openAs => rfl
  | close | read | write | seek | tell | atEnd | readAll | writeAll =>
    obtain ⟨_, _, ha⟩ := exists_of_bind_eq_ok ha
    cases ha

theorem serve_openAs (f : Files) (path : String) (mode : FileMode) :
    f.serve (.openAs path mode) =
      if mode = .read ∧ f.contents.contains path = false then (.error (Error.fileNotFound path), f)
      else (.ok (.handle (f.lastHandle + 1)),
        ((f.readied path mode).issue path mode (f.startOf path mode)).2) := by
  by_cases hmiss : mode = .read ∧ f.contents.contains path = false
  · have hg : f.grant (.openAs path mode) = .error (Error.fileNotFound path) := by
      simp only [grant, openAs_eq, if_pos hmiss]
      rfl
    rw [serve_of_error hg, if_pos hmiss]
  · have hg : f.grant (.openAs path mode) = .ok (.handle (f.lastHandle + 1),
        ((f.readied path mode).issue path mode (f.startOf path mode)).2) := by
      simp only [grant, openAs_eq, if_neg hmiss]
      rw [← lastHandle_readied f path mode]
      rfl
    rw [serve_of_ok hg, if_neg hmiss]

theorem serve_close (hopen : f.handles.get? h = some file) :
    f.serve (.close h) = (.ok .done, { f with handles := f.handles.erase h }) := by
  apply serve_of_ok
  simp only [grant, close_eq hopen]
  rfl

theorem handsOut (f : Files) (r : Request) : f.HandsOut r := by
  cases hr : r.isOpening with
  | false =>
    apply HandsOut.none
    · intro h ha
      rw [isOpening_of_handle (grant_of_serve ha)] at hr
      cases hr
    · exact (f.serve_changes r).lastHandle_eq hr
  | true =>
    cases r with
    | openAs path mode =>
      have hserve := f.serve_openAs path mode
      by_cases hmiss : mode = .read ∧ f.contents.contains path = false
      · rw [if_pos hmiss] at hserve
        exact .none (by simp [hserve]) (by rw [hserve])
      · rw [if_neg hmiss] at hserve
        exact .next hr (by rw [hserve]) (by rw [hserve]; exact congrArg (· + 1) (lastHandle_readied f path mode))
    | close | read | write | seek | tell | atEnd | readAll | writeAll => cases hr

/-- A handle that is open after a request was open before or is its answer. -/
theorem open_before (hk : (f.serve r).2.handles.get? k = some file) :
    (∃ old, f.handles.get? k = some old) ∨ (f.serve r).1 = .ok (.handle k) := by
  have hc := f.serve_changes r
  generalize hg : (f.serve r).2 = g at hc hk
  cases hc with
  | opened path mode hthere =>
    have hserve := f.serve_openAs path mode
    rw [if_neg (by simpa using hthere)] at hserve
    rw [issue, lastHandle_readied, handles_readied] at hk
    rcases Table.get?_insert_eq_some.1 hk with ⟨rfl, -⟩ | ⟨-, hk⟩
    · exact Or.inr (by rw [hserve])
    · exact Or.inl ⟨file, hk⟩
  | closed =>
    obtain ⟨-, hk⟩ := Table.get?_erase_eq_some.1 hk
    exact Or.inl ⟨file, hk⟩
  | @read h found hopen | @written h found hopen | @sought h found hopen =>
    rcases Table.get?_insert_eq_some.1 hk with ⟨rfl, -⟩ | ⟨-, hk⟩
    · exact Or.inl ⟨found, hopen⟩
    · exact Or.inl ⟨file, hk⟩
  | saved | told | tested | loaded | refused => exact Or.inl ⟨file, hk⟩

/-! ## Runs -/

/-- The files are sound and have handles for all openings to come. -/
structure Ready (f : Files) (rs : List Request) : Prop where
  sound : f.Sound
  room : f.lastHandle.toInt + openings rs < 2 ^ 63

theorem Ready.toInt_next {rs : List Request} (hf : f.Ready (r :: rs)) (hr : r.isOpening = true) :
    (f.lastHandle + 1).toInt = f.lastHandle.toInt + 1 := by
  apply Files.toInt_next hf.sound.counted
  have hroom := hf.room
  rw [openings_cons, if_pos hr] at hroom
  unfold HasNext
  omega

theorem Ready.serve {rs : List Request} (hf : f.Ready (r :: rs)) : (f.serve r).2.Ready rs := by
  have hroom := hf.room
  rw [openings_cons] at hroom
  constructor
  · apply hf.sound.changesTo (f.serve_changes r)
    intro hr
    rw [if_pos hr] at hroom
    unfold HasNext
    omega
  · cases f.handsOut r with
    | next hr ha hlast =>
      rw [hlast, hf.toInt_next hr]
      rw [if_pos hr] at hroom
      omega
    | none ha hlast =>
      rw [hlast]
      omega

theorem Ready.after {rs later : List Request} (hf : f.Ready (rs ++ later)) :
    (f.after rs).Ready later := by
  induction rs generalizing f with
  | nil => exact hf
  | cons r rs ih => exact ih hf.serve

/-- The handles of a run are larger than all handles before and than each other in turn. -/
theorem Ready.handedOut_increase {rs : List Request} (hf : f.Ready rs) :
    (f.handedOut rs).Pairwise (· < ·) ∧ ∀ h ∈ f.handedOut rs, f.lastHandle < h := by
  induction rs generalizing f with
  | nil => exact ⟨.nil, fun h hh => absurd hh List.not_mem_nil⟩
  | cons r rs ih =>
    obtain ⟨hsorted, hlarger⟩ := ih hf.serve
    rw [handedOut]
    cases f.handsOut r with
    | next hr ha hlast =>
      have hnext : f.lastHandle < f.lastHandle + 1 := by
        rw [Int64.lt_iff_toInt_lt, hf.toInt_next hr]
        omega
      rw [hlast] at hlarger
      rw [ha]
      refine ⟨List.pairwise_cons.2 ⟨hlarger, hsorted⟩, fun h hh => ?_⟩
      rcases List.mem_cons.1 hh with rfl | hh
      · exact hnext
      · exact Int64.lt_trans hnext (hlarger h hh)
    | none ha hlast =>
      rw [hlast] at hlarger
      split
      · rename_i h hh
        exact absurd hh (ha h)
      · exact ⟨hsorted, hlarger⟩

/-- A handle that is open after a run was open before or was handed out in it. -/
theorem open_before_run {rs : List Request} (hk : (f.after rs).handles.get? k = some file) :
    (∃ old, f.handles.get? k = some old) ∨ k ∈ f.handedOut rs := by
  induction rs generalizing f with
  | nil => exact Or.inl ⟨file, hk⟩
  | cons r rs ih =>
    rw [handedOut]
    rcases ih hk with ⟨old, hold⟩ | hmem
    · rcases open_before hold with hbefore | ha
      · exact Or.inl hbefore
      · right
        rw [ha]
        exact List.mem_cons_self
    · right
      split
      · exact List.mem_cons_of_mem _ hmem
      · exact hmem

/-- A handle that was handed out once and is not open any more stays dead. -/
theorem Ready.stays_dead {rs : List Request} (hf : f.Ready rs) (hk : f.handles.get? k = none)
    (hold : k ≤ f.lastHandle) : (f.after rs).handles.get? k = none := by
  cases hget : (f.after rs).handles.get? k with
  | none => rfl
  | some file =>
    exfalso
    rcases open_before_run hget with ⟨old, hopen⟩ | hmem
    · cases hk.symm.trans hopen
    · have hlarger := hf.handedOut_increase.2 k hmem
      rw [Int64.le_iff_toInt_le] at hold
      rw [Int64.lt_iff_toInt_lt] at hlarger
      omega

/-- Once closed, a handle is refused for good. -/
theorem Ready.refuses_closed {before later : List Request}
    (hf : f.Ready (before ++ .close h :: later))
    (hclose : ((f.after before).serve (.close h)).1 = .ok .done) (hr : r.handle? = some h) :
    ((f.after (before ++ .close h :: later)).serve r).1 = .error (Error.noOpenFile h.toInt) := by
  have hbefore : (f.after before).Ready (.close h :: later) := hf.after
  obtain ⟨file, hopen⟩ := exists_open_of_grant rfl (grant_of_serve hclose)
  have hclosed := serve_close hopen
  have hdead : ((f.after before).serve (.close h)).2.handles.get? h = none := by
    rw [hclosed]
    exact Table.get?_erase_self _ h
  have hold : h ≤ ((f.after before).serve (.close h)).2.lastHandle := by
    rw [hclosed, Int64.le_iff_toInt_le]
    exact (hbefore.sound.issued h file hopen).2
  have hnone := hbefore.serve.stays_dead hdead hold
  rw [← after_cons, ← after_append] at hnone
  rw [serve_of_error (grant_of_none hr hnone)]

/-- A request that is refused changes nothing. -/
theorem serve_of_refused {e : Error} (hr : (f.serve r).1 = .error e) : (f.serve r).2 = f := by
  cases hg : f.grant r with
  | ok granted =>
    rw [serve_of_ok hg] at hr
    cases hr
  | error e' => rw [serve_of_error hg]

/-! ## All together -/

/-- Files that are there from the start. -/
def preloaded (files : List (String × ByteArray)) : Files :=
  files.foldl (fun f p => f.withFile p.1 p.2) {}

theorem sound_empty : Sound {} where
  counted := Int.le_refl 0
  issued h file hopen := by cases hopen
  present h file hopen := by cases hopen
  sizes path bytes hget := by cases hget
  positions h file hopen := by cases hopen

theorem sound_preloaded {files : List (String × ByteArray)}
    (hfiles : ∀ p ∈ files, p.2.size ≤ maxFileSize) :
    (preloaded files).Sound ∧ (preloaded files).lastHandle = 0 ∧ (preloaded files).handles = {} := by
  have hfold : ∀ f : Files, f.Sound →
      (files.foldl (fun f p => f.withFile p.1 p.2) f).Sound ∧
      (files.foldl (fun f p => f.withFile p.1 p.2) f).lastHandle = f.lastHandle ∧
      (files.foldl (fun f p => f.withFile p.1 p.2) f).handles = f.handles := by
    induction files with
    | nil => exact fun f hf => ⟨hf, rfl, rfl⟩
    | cons p rest ih =>
      obtain ⟨hp, hrest⟩ := List.forall_mem_cons.1 hfiles
      exact fun f hf => ih hrest _ (hf.withFile hp)
  exact hfold {} sound_empty

/-- A reading takes a range of the bytes. -/
theorem slice?_of_read {count : Nat} (hopen : f.handles.get? h = some file)
    (hread : f.read h count = .ok (bytes, g)) :
    slice? (f.bytesOf file.path) (f.readStart file) (f.readStop file count) = some bytes := by
  rw [read_eq hopen] at hread
  by_cases hmode : file.mode = .write ∨ file.mode = .append
  · rw [if_pos hmode] at hread
    cases hread
  · rw [if_neg hmode] at hread
    cases hread
    apply if_pos
    unfold readStop readStart
    omega

/-- A write keeps to its ranges and to the limit. -/
theorem overwrite?_of_write {data : ByteArray} (hopen : f.handles.get? h = some file)
    (hwrite : f.write h data = .ok g) :
    file.position + data.size ≤ maxFileSize ∧
      overwrite? (f.bytesOf file.path) file.position data = some (g.bytesOf file.path) := by
  obtain ⟨-, hroom, rfl⟩ := (write_eq_ok hopen data).1 hwrite
  rw [overwrite?_eq, bytesOf_written]
  exact ⟨hroom, rfl⟩

/-- Start with any files within the limit, and ask for anything in any order, with fewer
openings than there are handles. Then the handles come in increasing order from 1 on, and a
closed one is refused for good. Every open handle was handed out and belongs to a file that
is there, and all sizes and positions keep to the limit. So what is read is a range of the
bytes, and no part of a write goes out of its range. A request that is refused changes
nothing. -/
theorem handles_and_files_stay_consistent {files : List (String × ByteArray)}
    (hfiles : ∀ p ∈ files, p.2.size ≤ maxFileSize) {rs : List Request}
    (hopenings : openings rs < 2 ^ 63) :
    let start := preloaded files
    let f := start.after rs
    ((start.handedOut rs).Pairwise (· < ·) ∧ ∀ h ∈ start.handedOut rs, 1 ≤ h) ∧
    (∀ before h later, rs = before ++ .close h :: later →
      ((start.after before).serve (.close h)).1 = .ok .done →
      ∀ r, r.handle? = some h → (f.serve r).1 = .error (Error.noOpenFile h.toInt)) ∧
    (∀ h file, f.handles.get? h = some file →
      h ∈ start.handedOut rs ∧ f.contents.contains file.path = true ∧
      file.position ≤ maxFileSize) ∧
    (∀ path bytes, f.contents.get? path = some bytes → bytes.size ≤ maxFileSize) ∧
    (∀ h file, f.handles.get? h = some file →
      (∀ count bytes g, f.read h count = .ok (bytes, g) →
        slice? (f.bytesOf file.path) (f.readStart file) (f.readStop file count) = some bytes) ∧
      ∀ data g, f.write h data = .ok g → file.position + data.size ≤ maxFileSize ∧
        overwrite? (f.bytesOf file.path) file.position data = some (g.bytesOf file.path)) ∧
    ∀ r e, (f.serve r).1 = .error e → (f.serve r).2 = f := by
  intro start f
  obtain ⟨hsound, hlast, hhandles⟩ := sound_preloaded hfiles
  have hstart : start.Ready rs := by
    refine ⟨hsound, ?_⟩
    rw [hlast]
    change (0 : Int) + openings rs < 2 ^ 63
    omega
  have hend : f.Ready [] := Ready.after (by rwa [List.append_nil])
  obtain ⟨hsorted, hlarger⟩ := hstart.handedOut_increase
  refine ⟨⟨hsorted, fun h hh => ?_⟩, fun before h later hrs hclose r hr => ?_,
    fun h file hopen => ⟨?_, hend.sound.present h file hopen, hend.sound.positions h file hopen⟩,
    hend.sound.sizes, fun h file hopen => ⟨fun count bytes g => slice?_of_read hopen,
      fun data g => overwrite?_of_write hopen⟩, fun r e => serve_of_refused⟩
  · have hpos := hlarger h hh
    rw [hlast, Int64.lt_iff_toInt_lt] at hpos
    rw [Int64.le_iff_toInt_le]
    exact hpos
  · subst hrs
    exact hstart.refuses_closed hclose hr
  · rcases open_before_run hopen with ⟨old, hold⟩ | hmem
    · rw [hhandles] at hold
      cases hold
    · exact hmem

/-- The first handle is closed. It stays dead, and the third opening does not bring it back. -/
theorem a_closed_handle_stays_dead :
    let files := [("log", "one".toUTF8)]
    let rs : List Request := [.openAs "log" .read, .close 1, .openAs "log" .append, .write 2 "two".toUTF8,
      .openAs "new" .readWrite]
    (∀ p ∈ files, p.2.size ≤ maxFileSize) ∧ openings rs < 2 ^ 63 ∧
      (preloaded files).handedOut rs = [1, 2, 3] ∧
      [(1 : Int64), 2, 3].Pairwise (· < ·) ∧
      ∀ r : Request, r.handle? = some 1 →
        (((preloaded files).after rs).serve r).1 = .error (Error.noOpenFile 1) := by
  intro files rs
  have hfiles : ∀ p ∈ files, p.2.size ≤ maxFileSize := by decide
  have hopenings : openings rs < 2 ^ 63 := by decide
  have hhanded : (preloaded files).handedOut rs = [1, 2, 3] := by rfl
  obtain ⟨⟨hsorted, -⟩, hdead, -⟩ := handles_and_files_stay_consistent hfiles hopenings
  refine ⟨hfiles, hopenings, hhanded, hhanded ▸ hsorted, ?_⟩
  exact hdead [.openAs "log" .read] 1 _ rfl rfl

end LineBasic.Files
