-- What can be asked of the files, and what each request comes to: exactly when it is
-- granted, what it answers, and what the files are then. A request works on the files in
-- place, and still one that is refused leaves them as they were. A run is a list of requests,
-- one after the other.
import LineBasic.Proofs.Overwriting
import LineBasic.Proofs.Storage

namespace LineBasic.Files

variable {f g : Files} {h : Int64} {file : OpenFile} {path : String} {bytes : ByteArray}

/-! ## Requests -/

inductive Request where
  | openAs (path : String) (mode : FileMode)
  | close (h : Int64)
  | read (h : Int64) (count : Nat)
  | write (h : Int64) (data : ByteArray)
  | seek (h : Int64) (position : Nat)
  | tell (h : Int64)
  | atEnd (h : Int64)
  | readAll (path : String)
  | writeAll (path : String) (data : ByteArray)

inductive Answer where
  | done
  | handle (h : Int64)
  | bytes (bytes : ByteArray)
  | place (position : Nat)
  | truth (b : Bool)

namespace Request

/-- The handle that a request is about. -/
def handle? : Request → Option Int64
  | .close h | .read h _ | .write h _ | .seek h _ | .tell h | .atEnd h => some h
  | .openAs _ _ | .readAll _ | .writeAll _ _ => none

def isOpening : Request → Bool
  | .openAs _ _ => true
  | _ => false

end Request

/-- What a request does to the files, and its answer. -/
def Request.action : Request → Action Files Answer
  | .openAs path mode => do return .handle (← opening path mode)
  | .close h => do
    closing h
    return .done
  | .read h count => do return .bytes (← reading h count)
  | .write h data => do
    writing h data
    return .done
  | .seek h position => do
    seeking h position
    return .done
  | .tell h => do return .place (← Action.ofExcept ((← getThe Files).tell h))
  | .atEnd h => do return .truth (← Action.ofExcept ((← getThe Files).atEnd h))
  | .readAll path => do return .bytes (← Action.ofExcept ((← getThe Files).readAll path))
  | .writeAll path data => do
    saving path data
    return .done

/-- The answer to a request and the files after it, whether it is granted or refused. -/
def serve (f : Files) (r : Request) : Except Error Answer × Files := r.action.result f

/-- The answer to a request that is granted, and the files after it. -/
def grant (f : Files) : Request → Except Error (Answer × Files)
  | .openAs path mode => do
    let (h, g) ← f.openAs path mode
    return (.handle h, g)
  | .close h => do return (.done, ← f.close h)
  | .read h count => do
    let (bytes, g) ← f.read h count
    return (.bytes bytes, g)
  | .write h data => do return (.done, ← f.write h data)
  | .seek h position => do return (.done, ← f.seek h position)
  | .tell h => do return (.place (← f.tell h), f)
  | .atEnd h => do return (.truth (← f.atEnd h), f)
  | .readAll path => do return (.bytes (← f.readAll path), f)
  | .writeAll path data => do return (.done, ← f.writeAll path data)

/-- The files after some requests. -/
def after (f : Files) (rs : List Request) : Files := rs.foldl (fun f r => (f.serve r).2) f

theorem after_cons (f : Files) (r : Request) (rs : List Request) :
    f.after (r :: rs) = (f.serve r).2.after rs := rfl

theorem after_append (f : Files) (rs later : List Request) :
    f.after (rs ++ later) = (f.after rs).after later := List.foldl_append

/-! ## Handles -/

theorem handle_of_open (hopen : f.handles.get? h = some file) : f.handle h = .ok file := by
  unfold handle
  rw [hopen]

theorem handle_of_none (hnone : f.handles.get? h = none) :
    f.handle h = .error (Error.noOpenFile h.toInt) := by
  unfold handle
  rw [hnone]

theorem get?_moveTo_self (f : Files) (h : Int64) (file : OpenFile) (position : Nat) :
    (f.moveTo h file position).handles.get? h = some { file with position } :=
  Table.get?_insert_self _ _ _

theorem get?_moveTo_ne {k : Int64} (hk : h ≠ k) (position : Nat) :
    (f.moveTo h file position).handles.get? k = f.handles.get? k := Table.get?_insert_ne _ hk _

/-! ## Refusals -/

theorem wholeAt_readying (path : String) (mode : FileMode) : (readying path mode).WholeAt f := by
  cases mode with
  | read =>
    refine Action.wholeAt_getThe ?_
    exact Action.wholeAt_ite (fun _ => Action.wholeAt_of_granted rfl) fun _ => Action.wholeAt_throw _
  | write | append | readWrite => exact Action.wholeAt_of_granted rfl

theorem wholeAt_opening (path : String) (mode : FileMode) : (opening path mode).WholeAt f :=
  (wholeAt_readying path mode).bind fun _ _ _ => ⟨_, rfl⟩

/-- A handle that is not there is not there to be taken away either. -/
theorem wholeAt_closing (h : Int64) : (closing h).WholeAt f := by
  refine Action.wholeAt_getThe ?_
  cases hfound : f.handles.get? h with
  | some file => exact Action.wholeAt_of_granted rfl
  | none =>
    refine Action.wholeAt_bind_modify ?_ (Action.wholeAt_throw _)
    rw [Table.erase_of_get?_eq_none hfound]

theorem wholeAt_reading (h : Int64) (count : Nat) : (reading h count).WholeAt f := by
  refine Action.wholeAt_getThe (Action.wholeAt_bind_ofExcept fun file hfile => ?_)
  refine Action.wholeAt_ite (fun _ => Action.wholeAt_throw _) fun _ => ?_
  exact (Action.wholeAt_of_granted (granted_moving f hfile _)).bind fun _ _ _ => ⟨_, rfl⟩

/-- Once the bytes are written, the handle is still there to be moved. -/
theorem wholeAt_writing (h : Int64) (data : ByteArray) : (writing h data).WholeAt f := by
  refine Action.wholeAt_getThe (Action.wholeAt_bind_ofExcept fun file hfile => ?_)
  refine Action.wholeAt_ite (fun _ => Action.wholeAt_throw _) fun _ => ?_
  refine Action.wholeAt_ite (fun _ => Action.wholeAt_throw _) fun _ => ?_
  refine (Action.wholeAt_of_granted (Action.granted_modify _ _)).bind fun _ g hg => ?_
  cases hg
  exact ⟨_, granted_moving (f.withFile _ _) hfile _⟩

theorem wholeAt_seeking (h : Int64) (position : Nat) : (seeking h position).WholeAt f := by
  refine Action.wholeAt_getThe (Action.wholeAt_bind_ofExcept fun file hfile => ?_)
  exact Action.wholeAt_ite (fun _ => Action.wholeAt_throw _) fun _ => Action.wholeAt_of_granted rfl

theorem wholeAt_saving (path : String) (data : ByteArray) : (saving path data).WholeAt f :=
  Action.wholeAt_ite (fun _ => Action.wholeAt_throw _) fun _ => Action.wholeAt_of_granted rfl

/-- No request changes the files before it is refused. -/
theorem Request.wholeAt_action (r : Request) (f : Files) : r.action.WholeAt f := by
  cases r with
  | openAs path mode => exact (wholeAt_opening path mode).bind fun _ _ _ => ⟨_, rfl⟩
  | close h => exact (wholeAt_closing h).bind fun _ _ _ => ⟨_, rfl⟩
  | read h count => exact (wholeAt_reading h count).bind fun _ _ _ => ⟨_, rfl⟩
  | write h data => exact (wholeAt_writing h data).bind fun _ _ _ => ⟨_, rfl⟩
  | seek h position => exact (wholeAt_seeking h position).bind fun _ _ _ => ⟨_, rfl⟩
  | writeAll path data => exact (wholeAt_saving path data).bind fun _ _ _ => ⟨_, rfl⟩
  | tell | atEnd | readAll =>
    exact Action.wholeAt_getThe (Action.wholeAt_bind_ofExcept fun _ _ =>
      Action.wholeAt_of_granted rfl)

/-- The requests that are granted are those that do not fail. -/
theorem granted_action (f : Files) (r : Request) : r.action.granted f = f.grant r := by
  cases r with
  | openAs | read =>
    simp only [Request.action, Action.granted_bind, Action.granted_pure]
    rfl
  | close | write | seek | writeAll =>
    simp only [Request.action, grant, close, write, seek, writeAll, Action.changed,
      Action.granted_bind, Action.granted_pure, bind_assoc, pure_bind]
  | tell | atEnd | readAll =>
    simp only [Request.action, grant, Action.granted_bind, Action.granted_getThe,
      Action.granted_ofExcept, Action.granted_pure, bind_map_left, pure_bind]

/-- A request that is refused leaves the files as they were. -/
theorem serve_of_error {r : Request} {e : Error} (hr : f.grant r = .error e) :
    f.serve r = (.error e, f) := by
  rw [serve, (r.wholeAt_action f).result_eq, granted_action, hr]

theorem serve_of_ok {r : Request} {a : Answer} (hr : f.grant r = .ok (a, g)) :
    f.serve r = (.ok a, g) := by
  rw [serve, (r.wholeAt_action f).result_eq, granted_action, hr]

theorem grant_of_serve {r : Request} {a : Answer} (hr : (f.serve r).1 = .ok a) :
    f.grant r = .ok (a, (f.serve r).2) := by
  cases hg : f.grant r with
  | ok granted =>
    rw [serve_of_ok hg] at hr ⊢
    cases hr
    rfl
  | error e =>
    rw [serve_of_error hg] at hr
    cases hr

/-- Every request about a handle that is not open is refused. -/
theorem grant_of_none {r : Request} (hr : r.handle? = some h) (hnone : f.handles.get? h = none) :
    f.grant r = .error (Error.noOpenFile h.toInt) := by
  have hh := handle_of_none hnone
  cases r with
  | openAs | readAll | writeAll => cases hr
  | close | read | write | seek | tell | atEnd =>
    cases hr
    simp only [grant, close_def, read_def, write_def, seek_def, Files.tell, Files.atEnd, hh]
    rfl

theorem exists_open_of_grant {r : Request} {x : Answer × Files} (hr : r.handle? = some h)
    (hg : f.grant r = .ok x) : ∃ file, f.handles.get? h = some file := by
  cases hopen : f.handles.get? h with
  | some file => exact ⟨file, rfl⟩
  | none => cases (grant_of_none hr hopen).symm.trans hg

/-! ## Bytes -/

@[simp] theorem bytesOf_withFile_self (f : Files) (path : String) (bytes : ByteArray) :
    (f.withFile path bytes).bytesOf path = bytes := by
  simp [withFile, bytesOf]

theorem bytesOf_withFile_ne {other : String} (hp : path ≠ other) :
    (f.withFile path bytes).bytesOf other = f.bytesOf other := by
  simp [withFile, bytesOf, Table.get?_insert_ne _ hp]

/-- A file that is stored as it was reads as before. -/
theorem bytesOf_touch (f : Files) (path other : String) :
    (f.withFile path (f.bytesOf path)).bytesOf other = f.bytesOf other := by
  by_cases hp : path = other
  · rw [hp, bytesOf_withFile_self]
  · exact bytesOf_withFile_ne hp

@[simp] theorem bytesOf_moveTo (f : Files) (h : Int64) (file : OpenFile) (position : Nat)
    (path : String) : (f.moveTo h file position).bytesOf path = f.bytesOf path := rfl

/-! ## What each request comes to -/

/-- The files in which a handle for a path is handed out. -/
def readied (f : Files) (path : String) : FileMode → Files
  | .read => f
  | .write => f.withFile path ByteArray.empty
  | .append | .readWrite => f.withFile path (f.bytesOf path)

/-- Where a new handle stands. -/
def startOf (f : Files) (path : String) : FileMode → Nat
  | .append => (f.bytesOf path).size
  | .read | .write | .readWrite => 0

/-- A file can be opened in every way but one: it has to be there to be read. -/
theorem openAs_eq (f : Files) (path : String) (mode : FileMode) :
    f.openAs path mode =
      if mode = .read ∧ f.contents.contains path = false then .error (Error.fileNotFound path)
      else .ok ((f.readied path mode).issue path mode (f.startOf path mode)) := by
  rw [openAs_def]
  cases mode with
  | read => cases hc : f.contents.contains path <;> simp [readied, startOf]
  | append => simp [readied, startOf]
  | write | readWrite => rfl

theorem close_eq (hopen : f.handles.get? h = some file) :
    f.close h = .ok { f with handles := f.handles.erase h } := by
  rw [close_def, handle_of_open hopen]
  rfl

/-- Where a reading starts. A position past the end counts as the end. -/
def readStart (f : Files) (file : OpenFile) : Nat :=
  min file.position (f.bytesOf file.path).size

def readStop (f : Files) (file : OpenFile) (count : Nat) : Nat :=
  min (f.readStart file + count) (f.bytesOf file.path).size

theorem read_eq (hopen : f.handles.get? h = some file) (count : Nat) :
    f.read h count =
      if file.mode = .write ∨ file.mode = .append then .error Error.notOpenForReading
      else .ok ((f.bytesOf file.path).extract (f.readStart file) (f.readStop file count),
        f.moveTo h file (f.readStop file count)) := by
  rw [read_def, handle_of_open hopen]
  rfl

/-- The files after a write through a handle. -/
def written (f : Files) (h : Int64) (file : OpenFile) (data : ByteArray) : Files :=
  (f.withFile file.path (overwrite (f.bytesOf file.path) file.position data)).moveTo h file
    (file.position + data.size)

theorem get?_written (f : Files) (h : Int64) (file : OpenFile) (data : ByteArray) :
    (f.written h file data).handles.get? h =
      some { file with position := file.position + data.size } :=
  get?_moveTo_self _ _ _ _

theorem bytesOf_written (f : Files) (h : Int64) (file : OpenFile) (data : ByteArray) :
    (f.written h file data).bytesOf file.path =
      overwrite (f.bytesOf file.path) file.position data := by
  rw [written, bytesOf_moveTo, bytesOf_withFile_self]

theorem write_eq (hopen : f.handles.get? h = some file) (data : ByteArray) :
    f.write h data =
      if file.mode = .read then .error Error.notOpenForWriting
      else if maxFileSize < file.position + data.size then .error Error.fileTooLarge
      else .ok (f.written h file data) := by
  rw [write_def, handle_of_open hopen]
  rfl

/-- When a write is granted, and what it comes to. -/
theorem write_eq_ok (hopen : f.handles.get? h = some file) (data : ByteArray) :
    f.write h data = .ok g ↔
      file.mode ≠ .read ∧ file.position + data.size ≤ maxFileSize ∧ g = f.written h file data := by
  rw [write_eq hopen]
  by_cases hmode : file.mode = .read
  · simp [hmode]
  · by_cases hroom : maxFileSize < file.position + data.size
    · rw [if_neg hmode, if_pos hroom]
      constructor
      · intro hw
        cases hw
      · intro hw
        omega
    · rw [if_neg hmode, if_neg hroom]
      constructor
      · intro hw
        cases hw
        exact ⟨hmode, by omega, rfl⟩
      · rintro ⟨-, -, rfl⟩
        rfl

theorem seek_eq (hopen : f.handles.get? h = some file) (position : Nat) :
    f.seek h position =
      if maxFileSize < position then .error Error.seekOutOfRange
      else .ok (f.moveTo h file position) := by
  rw [seek_def, handle_of_open hopen]
  rfl

theorem atEnd_eq (hopen : f.handles.get? h = some file) :
    f.atEnd h = .ok ((f.bytesOf file.path).size ≤ file.position) := by
  unfold Files.atEnd
  rw [handle_of_open hopen]
  rfl

/-! ## What a request does -/

/-- What a request does to the files. A file is opened, a handle is closed or moved, a file
is written, or nothing changes: the request only looks, or it is refused. -/
inductive ChangesTo (f : Files) : Request → Files → Prop where
  | opened (path : String) (mode : FileMode)
      (hthere : mode = .read → f.contents.contains path = true) :
      f.ChangesTo (.openAs path mode) ((f.readied path mode).issue path mode (f.startOf path mode)).2
  | closed {h : Int64} {file : OpenFile} (hopen : f.handles.get? h = some file) :
      f.ChangesTo (.close h) { f with handles := f.handles.erase h }
  | read {h : Int64} {file : OpenFile} (hopen : f.handles.get? h = some file) (count : Nat) :
      f.ChangesTo (.read h count) (f.moveTo h file (f.readStop file count))
  | written {h : Int64} {file : OpenFile} (hopen : f.handles.get? h = some file) {data : ByteArray}
      (hmode : file.mode ≠ .read) (hroom : file.position + data.size ≤ maxFileSize) :
      f.ChangesTo (.write h data) (f.written h file data)
  | sought {h : Int64} {file : OpenFile} (hopen : f.handles.get? h = some file) {position : Nat}
      (hroom : position ≤ maxFileSize) :
      f.ChangesTo (.seek h position) (f.moveTo h file position)
  | saved (path : String) {data : ByteArray} (hroom : data.size ≤ maxFileSize) :
      f.ChangesTo (.writeAll path data) (f.withFile path data)
  | told (h : Int64) : f.ChangesTo (.tell h) f
  | tested (h : Int64) : f.ChangesTo (.atEnd h) f
  | loaded (path : String) : f.ChangesTo (.readAll path) f
  | refused {r : Request} {e : Error} (hr : f.grant r = .error e) : f.ChangesTo r f

theorem ChangesTo.of_grant {r : Request} {a : Answer} (hr : f.grant r = .ok (a, g)) :
    f.ChangesTo r g := by
  cases r with
  | openAs path mode =>
    by_cases hmiss : mode = .read ∧ f.contents.contains path = false
    · simp only [grant, openAs_eq, if_pos hmiss] at hr
      cases hr
    · simp only [grant, openAs_eq, if_neg hmiss] at hr
      cases hr
      exact .opened path mode (by simpa using hmiss)
  | tell h =>
    obtain ⟨_, _, hr⟩ := exists_of_bind_eq_ok hr
    cases hr
    exact .told h
  | atEnd h =>
    obtain ⟨_, _, hr⟩ := exists_of_bind_eq_ok hr
    cases hr
    exact .tested h
  | readAll path =>
    obtain ⟨_, _, hr⟩ := exists_of_bind_eq_ok hr
    cases hr
    exact .loaded path
  | writeAll path data =>
    obtain ⟨_, hsave, hr⟩ := exists_of_bind_eq_ok hr
    cases hr
    rw [writeAll_def] at hsave
    split at hsave
    · cases hsave
    · cases hsave
      exact .saved path (by omega)
  | close h =>
    obtain ⟨file, hopen⟩ := exists_open_of_grant rfl hr
    simp only [grant, close_eq hopen] at hr
    cases hr
    exact .closed hopen
  | read h count =>
    obtain ⟨file, hopen⟩ := exists_open_of_grant rfl hr
    by_cases hmode : file.mode = .write ∨ file.mode = .append
    · simp only [grant, read_eq hopen, if_pos hmode] at hr
      cases hr
    · simp only [grant, read_eq hopen, if_neg hmode] at hr
      cases hr
      exact .read hopen count
  | write h data =>
    obtain ⟨file, hopen⟩ := exists_open_of_grant rfl hr
    by_cases hmode : file.mode = .read
    · simp only [grant, write_eq hopen, if_pos hmode] at hr
      cases hr
    · by_cases hroom : maxFileSize < file.position + data.size
      · simp only [grant, write_eq hopen, if_neg hmode, if_pos hroom] at hr
        cases hr
      · simp only [grant, write_eq hopen, if_neg hmode, if_neg hroom] at hr
        cases hr
        exact .written hopen hmode (by omega)
  | seek h position =>
    obtain ⟨file, hopen⟩ := exists_open_of_grant rfl hr
    by_cases hroom : maxFileSize < position
    · simp only [grant, seek_eq hopen, if_pos hroom] at hr
      cases hr
    · simp only [grant, seek_eq hopen, if_neg hroom] at hr
      cases hr
      exact .sought hopen (by omega)

theorem serve_changes (f : Files) (r : Request) : f.ChangesTo r (f.serve r).2 := by
  cases hr : f.grant r with
  | ok granted =>
    rw [serve_of_ok hr]
    exact .of_grant hr
  | error e =>
    rw [serve_of_error hr]
    exact .refused hr

end LineBasic.Files
