-- Files that live in memory. A handle is a number that was never used before;
-- it stands for a path, a mode and a position, and is dead once closed. The
-- requests work on the files in place, step by step.
import LineBasic.Action
import LineBasic.Table
import LineBasic.Statement

namespace LineBasic

/-- Most bytes in one file. -/
def maxFileSize : Nat := 16 * 1024 * 1024

structure OpenFile where
  path : String
  mode : FileMode
  position : Nat
deriving DecidableEq, Inhabited

structure Files where
  contents : Table String ByteArray := {}
  handles : Table Int64 OpenFile := {}
  lastHandle : Int64 := 0
deriving Inhabited

namespace Files

/-- Bytes from `position` on replaced by `data`. A position past the end is
reached over zeros. -/
def overwrite (old : ByteArray) (position : Nat) (data : ByteArray) : ByteArray :=
  let gap : ByteArray := ⟨Array.replicate (position - old.size) 0⟩
  old.extract 0 position ++ gap ++ data ++ old.extract (position + data.size) old.size

variable (f : Files)

def withFile (path : String) (bytes : ByteArray) : Files :=
  { f with contents := f.contents.insert path bytes }

/-- The bytes of a file; none of a file that is not there. -/
def bytesOf (path : String) : ByteArray := (f.contents.get? path).getD ByteArray.empty

def handle (h : Int64) : Except Error OpenFile :=
  match f.handles.get? h with
  | some file => .ok file
  | none => .error (Error.noOpenFile h.toInt)

def moveTo (h : Int64) (file : OpenFile) (position : Nat) : Files :=
  { f with handles := f.handles.insert h { file with position } }

/-! ## Handles -/

/-- Hands out the next handle. -/
def issue (path : String) (mode : FileMode) (position : Nat) : Int64 × Files :=
  let h := f.lastHandle + 1
  (h, { f with handles := f.handles.insert h { path, mode, position }, lastHandle := h })

/-- Gets a file ready for a new handle, and gives the place where that stands. Writing
starts with an empty file, and appending starts at the end. -/
def readying (path : String) : FileMode → Action Files Nat
  | .read => do
    if (← getThe Files).contents.contains path then return 0
    else throw (Error.fileNotFound path)
  | .write => do
    modify (·.withFile path ByteArray.empty)
    return 0
  | .append => do
    modify fun f => f.withFile path (f.bytesOf path)
    return ((← getThe Files).bytesOf path).size
  | .readWrite => do
    modify fun f => f.withFile path (f.bytesOf path)
    return 0

def opening (path : String) (mode : FileMode) : Action Files Int64 := do
  let position ← readying path mode
  modifyGet (·.issue path mode position)

/-- The handle is taken away first; then it shows whether there was one. -/
def closing (h : Int64) : Action Files Unit := do
  let found := (← getThe Files).handles.get? h
  modify fun f => { f with handles := f.handles.erase h }
  match found with
  | some _ => return ()
  | none => throw (Error.noOpenFile h.toInt)

/-- Moves a handle, if it is open. -/
def moving (h : Int64) (position : Nat) : Action Files Unit := do
  let file ← Action.ofExcept ((← getThe Files).handle h)
  modify (·.moveTo h file position)

/-- Up to `count` bytes from the position of a handle on. -/
def reading (h : Int64) (count : Nat) : Action Files ByteArray := do
  let f ← getThe Files
  let file ← Action.ofExcept (f.handle h)
  if file.mode = .write ∨ file.mode = .append then throw Error.notOpenForReading
  else
    let bytes := f.bytesOf file.path
    let start := min file.position bytes.size
    let stop := min (start + count) bytes.size
    moving h stop
    return bytes.extract start stop

def writing (h : Int64) (data : ByteArray) : Action Files Unit := do
  let file ← Action.ofExcept ((← getThe Files).handle h)
  if file.mode = .read then throw Error.notOpenForWriting
  else if maxFileSize < file.position + data.size then throw Error.fileTooLarge
  else
    modify fun f => f.withFile file.path (overwrite (f.bytesOf file.path) file.position data)
    moving h (file.position + data.size)

def seeking (h : Int64) (position : Nat) : Action Files Unit := do
  let file ← Action.ofExcept ((← getThe Files).handle h)
  if maxFileSize < position then throw Error.seekOutOfRange
  else modify (·.moveTo h file position)

def tell (h : Int64) : Except Error Nat := do
  return (← f.handle h).position

/-- Nothing is left to read. -/
def atEnd (h : Int64) : Except Error Bool := do
  let file ← f.handle h
  return (f.bytesOf file.path).size ≤ file.position

/-! ## Whole files -/

def readAll (path : String) : Except Error ByteArray :=
  match f.contents.get? path with
  | some bytes => .ok bytes
  | none => .error (Error.fileNotFound path)

def saving (path : String) (data : ByteArray) : Action Files Unit := do
  if maxFileSize < data.size then throw Error.fileTooLarge
  else modify (·.withFile path data)

/-! ## Requests that are granted -/

def openAs (path : String) (mode : FileMode) : Except Error (Int64 × Files) :=
  (opening path mode).granted f

def close (h : Int64) : Except Error Files := (closing h).changed f

def read (h : Int64) (count : Nat) : Except Error (ByteArray × Files) :=
  (reading h count).granted f

def write (h : Int64) (data : ByteArray) : Except Error Files := (writing h data).changed f

def seek (h : Int64) (position : Nat) : Except Error Files := (seeking h position).changed f

def writeAll (path : String) (data : ByteArray) : Except Error Files :=
  (saving path data).changed f

theorem openAs_def (path : String) (mode : FileMode) :
    f.openAs path mode = match mode with
      | .read =>
        if f.contents.contains path then .ok (f.issue path .read 0)
        else .error (Error.fileNotFound path)
      | .write => .ok ((f.withFile path ByteArray.empty).issue path .write 0)
      | .append =>
        let g := f.withFile path (f.bytesOf path)
        .ok (g.issue path .append (g.bytesOf path).size)
      | .readWrite => .ok ((f.withFile path (f.bytesOf path)).issue path .readWrite 0) := by
  cases mode with
  | read =>
    simp only [openAs, opening, readying, Action.granted_bind, Action.granted_getThe, pure_bind]
    cases f.contents.contains path <;> rfl
  | write | append | readWrite => rfl

theorem close_def (h : Int64) : f.close h = do
    let _ ← f.handle h
    return { f with handles := f.handles.erase h } := by
  simp only [close, closing, handle, Action.changed_bind, Action.granted_getThe,
    Action.granted_modify, pure_bind]
  cases f.handles.get? h <;> rfl

/-- A handle that was found is found again when it is moved. -/
theorem granted_moving {h : Int64} {file : OpenFile} (hfile : f.handle h = .ok file)
    (position : Nat) : (moving h position).granted f = pure ((), f.moveTo h file position) := by
  simp only [moving, Action.granted_bind, Action.granted_getThe, Action.granted_ofExcept, pure_bind,
    hfile]
  rfl

theorem read_def (h : Int64) (count : Nat) : f.read h count = do
    let file ← f.handle h
    if file.mode = .write ∨ file.mode = .append then .error Error.notOpenForReading
    else
      let bytes := f.bytesOf file.path
      let start := min file.position bytes.size
      let stop := min (start + count) bytes.size
      return (bytes.extract start stop, f.moveTo h file stop) := by
  simp only [read, reading, Action.granted_bind, Action.granted_getThe, Action.granted_ofExcept,
    Action.granted_ite, Action.granted_throw, Action.granted_pure, pure_bind, bind_map_left]
  cases hfile : f.handle h with
  | error e => rfl
  | ok file =>
    change (if _ then _ else _) = _
    rw [granted_moving f hfile]
    rfl

theorem write_def (h : Int64) (data : ByteArray) : f.write h data = do
    let file ← f.handle h
    if file.mode = .read then .error Error.notOpenForWriting
    else if maxFileSize < file.position + data.size then .error Error.fileTooLarge
    else
      let bytes := overwrite (f.bytesOf file.path) file.position data
      return (f.withFile file.path bytes).moveTo h file (file.position + data.size) := by
  simp only [write, writing, Action.changed_bind, Action.granted_getThe, Action.granted_ofExcept,
    Action.changed_ite, Action.changed_throw, Action.granted_modify, pure_bind, bind_map_left]
  cases hfile : f.handle h with
  | error e => rfl
  | ok file =>
    have hkept : ∀ bytes, (f.withFile file.path bytes).handle h = .ok file := fun _ => hfile
    change (if _ then _ else if _ then _ else Action.changed _ _) = _
    unfold Action.changed
    rw [granted_moving _ (hkept _)]
    rfl

theorem seek_def (h : Int64) (position : Nat) : f.seek h position = do
    let file ← f.handle h
    if maxFileSize < position then .error Error.seekOutOfRange
    else return f.moveTo h file position := by
  simp only [seek, seeking, Action.changed_bind, Action.granted_getThe, Action.granted_ofExcept,
    Action.changed_ite, Action.changed_throw, Action.changed_modify, pure_bind, bind_map_left]

theorem writeAll_def (path : String) (data : ByteArray) :
    f.writeAll path data =
      if maxFileSize < data.size then .error Error.fileTooLarge else .ok (f.withFile path data) := by
  simp only [writeAll, saving, Action.changed_ite, Action.changed_throw, Action.changed_modify]
  rfl

end Files

end LineBasic
