-- What comes back from a file. A value is written as bytes by what it is, and read again by
-- the name it goes to; text comes back as the same text, a list of bytes as the same list,
-- and bytes that are read into a list are written back as they were. Both directions have
-- two statements, one for whole files and one for handles, and they can be mixed.
import Mathlib.Data.Set.List
import LineBasic.Proofs.Counting
import LineBasic.Proofs.ReadWrite
import LineBasic.Proofs.Reading

namespace LineBasic

variable {name : Name} {path : String} {bytes : ByteArray} {v : Value}

/-! ## Text as bytes -/

theorem Text.decode_toUTF8 (str : String) : Text.decode str.toUTF8 = str := by
  have hread : String.fromUTF8? str.toUTF8 = some str := dif_pos str.isValidUTF8
  unfold Text.decode
  rw [hread]

theorem Run.bytesOfValue_string (str : String) :
    Run.bytesOfValue (.string str) = .ok str.toUTF8 := by
  simp only [Run.bytesOfValue, Value.render]

theorem Name.sigil_of_isText (h : name.isText = true) : name.sigil = .string := by
  simp only [Name.isText, Bool.and_eq_true, Bool.not_eq_true', decide_eq_true_eq] at h
  have hkind : Kind.ofName name = .string := (Kind.ofName_eq_string h.1).2 h.2
  unfold Kind.ofName at hkind
  cases hs : name.sigil <;> simp [hs, Kind.ofSigil] at hkind ⊢

/-- Text that was written fits a text variable as the same text. -/
theorem fitTo_valueOfBytes_text (h : name.isText = true) (str : String) :
    fitTo name (Run.valueOfBytes name str.toUTF8) = .ok (.string str) := by
  have hscalar : name.isArray = false := by
    simp only [Name.isText, Bool.and_eq_true, Bool.not_eq_true'] at h
    exact h.1
  have hvalue : Run.valueOfBytes name str.toUTF8 = .string str := by
    unfold Run.valueOfBytes
    rw [Name.sigil_of_isText h, hscalar, Text.decode_toUTF8]
    rfl
  rw [hvalue, fitTo_of_isText h]

/-! ## Lists of bytes -/

/-- The name of an array of INTEGERs. -/
def Name.isIntegerArray (n : Name) : Bool := n.isArray && Kind.ofName n = .integer

/-- A list of INTEGERs from 0 to 255. -/
structure Grid.IsByteList (a : Grid Value) : Prop where
  element : a.element = .integer
  axes : a.axes = []
  items : ∀ v ∈ a.items, ∃ n : Int64, v = .integer n ∧ 0 ≤ n.toInt ∧ n.toInt ≤ 255

theorem Integer.toInt_byte (b : UInt8) : b.toUInt64.toInt64.toInt = b.toNat := by
  have hlt : b.toNat < 256 := b.toNat_lt
  have hbits : b.toUInt64.toBitVec.toNat = b.toNat := by simp
  change b.toUInt64.toBitVec.toInt = b.toNat
  rw [BitVec.toInt_eq_toNat_of_lt (by omega), hbits]

theorem Run.byteOf_integer (b : UInt8) : Run.byteOf (.integer b.toUInt64.toInt64) = .ok b := by
  have hint := Integer.toInt_byte b
  have hlt : b.toNat < 256 := b.toNat_lt
  have hin : ¬ (b.toUInt64.toInt64 < 0 ∨ 255 < b.toUInt64.toInt64) := by
    rw [Int64.lt_iff_toInt_lt, Int64.lt_iff_toInt_lt, hint]
    rintro (hneg | hbig)
    · exact absurd hneg (by simp)
    · exact absurd hbig (by simp; omega)
  change (if _ then _ else Except.ok b.toUInt64.toInt64.toInt.toNat.toUInt8) = _
  rw [if_neg hin, hint]
  simp

/-- A list of bytes is written as these bytes. -/
theorem Run.bytesOfValue_ofBytes (bytes : ByteArray) :
    Run.bytesOfValue (.array (Grid.ofBytes bytes)) = .ok bytes := by
  have hone : Run.byteOf ∘ (fun b : UInt8 => Value.integer b.toUInt64.toInt64) =
      fun b => pure (f := Except Error) b :=
    funext Run.byteOf_integer
  have hall : (Grid.ofBytes bytes).items.toList.mapM Run.byteOf = .ok bytes.data.toList := by
    rw [Grid.ofBytes, Array.toList_map, List.mapM_map, hone, List.mapM_pure, List.map_id']
    rfl
  change (Grid.ofBytes bytes).items.toList.mapM Run.byteOf >>= _ = _
  rw [hall]
  rfl

/-- Bytes fit the name of an array of INTEGERs as the list of them. -/
theorem fitTo_valueOfBytes_array (h : name.isIntegerArray = true) (bytes : ByteArray) :
    fitTo name (Run.valueOfBytes name bytes) = .ok (.array (Grid.ofBytes bytes)) := by
  simp only [Name.isIntegerArray, Bool.and_eq_true, decide_eq_true_eq] at h
  have hvalue : Run.valueOfBytes name bytes = .array (Grid.ofBytes bytes) := by
    simp [Run.valueOfBytes, h.1]
  unfold fitTo
  rw [hvalue, h.1, h.2]
  rfl

/-- Every list of INTEGERs from 0 to 255 is a list of bytes. -/
theorem Grid.IsByteList.exists_ofBytes {a : Grid Value} (h : a.IsByteList) :
    ∃ bytes, a = Grid.ofBytes bytes ∧ bytes.size = a.size := by
  have hrange : ∀ v ∈ a.items.toList, v ∈ Set.range fun b : UInt8 => Value.integer b.toUInt64.toInt64 := by
    intro v hv
    obtain ⟨n, rfl, hlow, hhigh⟩ := h.items v (Array.mem_toList_iff.1 hv)
    have hlt : n.toInt.toNat < 256 := by omega
    refine ⟨n.toInt.toNat.toUInt8, congrArg Value.integer (Int64.toInt_inj.1 ?_)⟩
    rw [Integer.toInt_byte, Nat.toUInt8, UInt8.toNat_ofNat_of_lt' hlt, Int.toNat_of_nonneg hlow]
  obtain ⟨bs, hbs⟩ : a.items.toList ∈ Set.range (List.map _) := by
    rw [Set.range_list_map]
    exact hrange
  have hitems : a.items = bs.toArray.map fun b => .integer b.toUInt64.toInt64 := by
    apply Array.toList_inj.1
    rw [← hbs, Array.toList_map]
  refine ⟨⟨bs.toArray⟩, ?_, ?_⟩
  · obtain ⟨element, items, axes⟩ := a
    cases h.element
    cases h.axes
    cases hitems
    rfl
  · rw [Grid.size, hitems, Array.size_map]
    rfl

/-! ## Storing what was read -/

namespace State

/-- The state with other files. -/
def withFiles (s : State) (files : Files) : State := { s with host := { s.host with files } }

/-- The state after a value was stored under a name that it fits. -/
def stored (s : State) (name : Name) (v : Value) : State :=
  { s with memory := { s.memory.remember name with
      «variables» := s.memory.variables.put name v (s.memory.variables.hasLocal name) } }

theorem peek_stored (s : State) (name : Name) (v : Value) :
    (s.stored name v).memory.variables.peek name = v := Variables.peek_put _ _ _

end State

namespace Run

variable {α : Type} {p : Program} {s s₁ s₂ : State} {handle data amount : Expression}
  {h : Int64} {files : Files}

theorem ofExcept_of_ok {x : Except Error α} {a : α} (hx : x = .ok a) : ofExcept x p s = .ok a s := by
  rw [hx]
  rfl

theorem store_eq {w : Value} (hfit : fitTo name w = .ok v) :
    store name w p s = .ok () (s.stored name v) := by
  have hset : s.memory.set name w (s.memory.variables.hasLocal name) =
      .ok (s.stored name v).memory := by
    unfold Memory.set
    rw [hfit]
    rfl
  unfold store
  rw [bind_of_ok (rfl : memory p s = .ok s.memory s), bind_of_ok (ofExcept_of_ok hset)]
  rfl

/-! ## The four statements -/

theorem reads_ofExcept (x : Except Error α) : Reads (ofExcept x) := by
  intro p s
  rw [after_ofExcept]
  exact ⟨fun _ _ => ⟨s.memory.trail, rfl⟩, fun _ _ => ⟨s.memory.trail, rfl⟩⟩

/-- An operand that has to be of some type leaves only a trail behind. -/
theorem reads_operand (e : Expression) (as : Value → Except Error α) :
    Reads (do ofExcept (as (← value e))) :=
  reads_bind (reads_observe _) fun _ => reads_ofExcept _

/-- A variable stands for what it holds. -/
theorem value_variable (p : Program) (s : State) (name : Name) :
    value (.variable name) p s =
      .ok (s.memory.variables.peek name) (s.withTrail (s.memory.trail.remember name)) := rfl

theorem execute_saveFile {target : Expression} (hpath : text target p s = .ok path s₁)
    (hdata : value data p s₁ = .ok v s₂) (hbytes : bytesOfValue v = .ok bytes)
    (hsave : s₂.host.files.writeAll path bytes = .ok files) :
    execute (.saveFile target data) p s = .ok .next (s₂.withFiles files) := by
  change saveStatement target data p s = _
  unfold saveStatement
  rw [bind_of_ok hpath, bind_of_ok hdata, bind_of_ok (ofExcept_of_ok hbytes),
    bind_of_ok (onFiles_of_changed hsave)]
  rfl

theorem execute_writeBytes (hhandle : integer handle p s = .ok h s₁)
    (hdata : value data p s₁ = .ok v s₂) (hbytes : bytesOfValue v = .ok bytes)
    (hwrite : s₂.host.files.write h bytes = .ok files) :
    execute (.writeBytes handle data) p s = .ok .next (s₂.withFiles files) := by
  change writeStatement handle data p s = _
  unfold writeStatement
  rw [bind_of_ok hhandle, bind_of_ok hdata, bind_of_ok (ofExcept_of_ok hbytes),
    bind_of_ok (onFiles_of_changed hwrite)]
  rfl

theorem execute_loadFile {source : Expression} (hpath : text source p s = .ok path s₁)
    (hload : s₁.host.files.readAll path = .ok bytes)
    (hfit : fitTo name (valueOfBytes name bytes) = .ok v) :
    execute (.loadFile source (.variable name)) p s = .ok .next (s₁.stored name v) := by
  change loadStatement source (.variable name) p s = _
  unfold loadStatement
  rw [bind_of_ok hpath, bind_of_ok (rfl : host p s₁ = .ok s₁.host s₁),
    bind_of_ok (ofExcept_of_ok hload)]
  exact bind_of_ok (store_eq hfit)

theorem execute_readBytes {count : Nat} (hhandle : integer handle p s = .ok h s₁)
    (hcount : Run.count amount p s₁ = .ok count s₂)
    (hread : s₂.host.files.read h count = .ok (bytes, files))
    (hfit : fitTo name (valueOfBytes name bytes) = .ok v) :
    execute (.readBytes handle amount (.variable name)) p s =
      .ok .next ((s₂.withFiles files).stored name v) := by
  change readStatement handle amount (.variable name) p s = _
  unfold readStatement
  rw [bind_of_ok hhandle, bind_of_ok hcount, bind_of_ok (onFiles_of_granted hread)]
  exact bind_of_ok (store_eq hfit)

/-! ## Whole values -/

/-- A statement that writes a value as all there is in a file: one that saves the file, or
one that writes through a handle at the start of it while it is empty. -/
inductive Saves (p : Program) (s : State) (path : String) (v : Value) : Statement → Prop where
  | whole {target data : Expression} {s₁ s₂ : State} (hpath : text target p s = .ok path s₁)
      (hdata : value data p s₁ = .ok v s₂) : Saves p s path v (.saveFile target data)
  | through {handle data : Expression} {h : Int64} {mode : FileMode} {s₁ s₂ : State}
      (hhandle : integer handle p s = .ok h s₁) (hdata : value data p s₁ = .ok v s₂)
      (hopen : s.host.files.handles.get? h = some ⟨path, mode, 0⟩) (hmode : mode ≠ .read)
      (hfresh : s.host.files.bytesOf path = ByteArray.empty) :
      Saves p s path v (.writeBytes handle data)

/-- A statement that reads all of a file into a variable: one that loads the file, or one
that reads as many bytes as it has, or more, through a handle at the start of it. -/
inductive Loads (p : Program) (s : State) (path : String) (name : Name) : Statement → Prop where
  | whole {source : Expression} {s₁ : State} (hpath : text source p s = .ok path s₁) :
      Loads p s path name (.loadFile source (.variable name))
  | through {handle amount : Expression} {h : Int64} {mode : FileMode} {count : Nat} {s₁ s₂ : State}
      (hhandle : integer handle p s = .ok h s₁) (hcount : Run.count amount p s₁ = .ok count s₂)
      (hopen : s.host.files.handles.get? h = some ⟨path, mode, 0⟩)
      (hmode : mode = .read ∨ mode = .readWrite) (hall : (s.host.files.bytesOf path).size ≤ count) :
      Loads p s path name (.readBytes handle amount (.variable name))

/-- What is written to a file is all there is in it. -/
theorem Saves.leaves {st : Statement} (hsave : Saves p s path v st)
    (hbytes : bytesOfValue v = .ok bytes) (hroom : bytes.size ≤ maxFileSize) :
    ∃ t, execute st p s = .ok .next t ∧ t.host.files.contents.get? path = some bytes := by
  cases hsave with
  | @whole target data s₁ s₂ hpath hdata =>
    obtain ⟨_, rfl⟩ := (reads_operand target Value.toText).eq_withTrail hpath
    obtain ⟨_, rfl⟩ := (reads_observe (evaluate data)).eq_withTrail hdata
    have hgrant : s.host.files.writeAll path bytes = .ok (s.host.files.withFile path bytes) := by
      rw [Files.writeAll_def, if_neg (by omega)]
    exact ⟨_, execute_saveFile hpath hdata hbytes hgrant, Table.get?_insert_self _ _ _⟩
  | @through handle data h mode s₁ s₂ hhandle hdata hopen hmode hfresh =>
    obtain ⟨_, rfl⟩ := (reads_operand handle Value.toInteger).eq_withTrail hhandle
    obtain ⟨_, rfl⟩ := (reads_observe (evaluate data)).eq_withTrail hdata
    have hgrant := (Files.write_eq_ok hopen bytes).2 ⟨hmode, by dsimp only; omega, rfl⟩
    refine ⟨_, execute_writeBytes hhandle hdata hbytes hgrant, ?_⟩
    change (s.host.files.contents.insert path
      (Files.overwrite (s.host.files.bytesOf path) 0 bytes)).get? path = _
    rw [Table.get?_insert_self, hfresh, Files.overwrite_empty]

/-- What is read from a file, as it fits the variable, is what the variable holds. -/
theorem Loads.fills {st : Statement} (hload : Loads p s path name st)
    (hthere : s.host.files.contents.get? path = some bytes)
    (hfit : fitTo name (valueOfBytes name bytes) = .ok v) :
    ∃ t, execute st p s = .ok .next t ∧ t.memory.variables.peek name = v := by
  cases hload with
  | @whole source s₁ hpath =>
    obtain ⟨_, rfl⟩ := (reads_operand source Value.toText).eq_withTrail hpath
    have hgrant : s.host.files.readAll path = .ok bytes := by
      unfold Files.readAll
      rw [hthere]
    exact ⟨_, execute_loadFile hpath hgrant hfit, State.peek_stored _ _ _⟩
  | @through handle amount h mode count s₁ s₂ hhandle hcount hopen hmode hall =>
    obtain ⟨_, rfl⟩ := (reads_operand handle Value.toInteger).eq_withTrail hhandle
    obtain ⟨_, rfl⟩ := (reads_operand amount Value.toCount).eq_withTrail hcount
    have hbytes : s.host.files.bytesOf path = bytes := by
      unfold Files.bytesOf
      rw [hthere]
      rfl
    have hgrant := Files.read_of_mode hopen hmode count
    have hstart : s.host.files.readStart ⟨path, mode, 0⟩ = 0 := Nat.zero_min _
    have hstop : s.host.files.readStop ⟨path, mode, 0⟩ count = bytes.size := by
      rw [hbytes] at hall
      rw [Files.readStop, hstart, hbytes]
      omega
    rw [hstart, hstop, hbytes, ByteArray.extract_zero_size] at hgrant
    exact ⟨_, execute_readBytes hhandle hcount hgrant hfit, State.peek_stored _ _ _⟩

end Run

/-- A value that is written to a file comes back from it, in every variable of a name: to
write it succeeds, and to read the file succeeds as long as it has the same bytes, and leaves
the variable with that value. -/
def GivesBack (v : Value) (name : Name) : Prop :=
  ∀ p s path st, Run.Saves p s path v st → ∃ t, Run.execute st p s = .ok .next t ∧
    ∀ u later, u.host.files.contents.get? path = t.host.files.contents.get? path →
      Run.Loads p u path name later → ∃ w, Run.execute later p u = .ok .next w ∧
        w.memory.variables.peek name = v

/-- Bytes that are all there is in a file come back to it through a variable of a name: to
read them succeeds, and to write what the variable then holds succeeds, and leaves the file
with these bytes. -/
def ComesBack (bytes : ByteArray) (name : Name) : Prop :=
  ∀ p s path st, s.host.files.contents.get? path = some bytes → Run.Loads p s path name st →
    ∃ t, Run.execute st p s = .ok .next t ∧ ∀ u later,
      Run.Saves p u path (t.memory.variables.peek name) later →
        ∃ w, Run.execute later p u = .ok .next w ∧ w.host.files.contents.get? path = some bytes

/-- A value comes back if its bytes, as they are read under the name, are it again. -/
theorem givesBack_of_bytes (hbytes : Run.bytesOfValue v = .ok bytes)
    (hroom : bytes.size ≤ maxFileSize) (hfit : fitTo name (Run.valueOfBytes name bytes) = .ok v) :
    GivesBack v name := by
  intro p s path st hsave
  obtain ⟨t, hst, hleft⟩ := hsave.leaves hbytes hroom
  refine ⟨t, hst, fun u later hsame hload => ?_⟩
  exact hload.fills (hsame.trans hleft) hfit

/-- Text of a size that a file can have comes back to every text variable, a list of INTEGERs
from 0 to 255 to every array of INTEGERs, and bytes of whatever kind to their file. -/
theorem files_give_back_what_was_written :
    (∀ (str : String) (name : Name), str.toUTF8.size ≤ maxFileSize → name.isText = true →
      GivesBack (.string str) name) ∧
    (∀ (a : Grid Value) (name : Name), a.IsByteList → a.size ≤ maxItems →
      name.isIntegerArray = true → GivesBack (.array a) name) ∧
    ∀ (bytes : ByteArray) (name : Name), bytes.size ≤ maxItems → name.isIntegerArray = true →
      ComesBack bytes name := by
  have hmost : maxItems ≤ maxFileSize := by decide
  refine ⟨fun str name hsize hname => ?_, fun a name ha hsize hname => ?_,
    fun bytes name hsize hname => ?_⟩
  · exact givesBack_of_bytes (Run.bytesOfValue_string str) hsize (fitTo_valueOfBytes_text hname str)
  · obtain ⟨bytes, rfl, hcount⟩ := ha.exists_ofBytes
    exact givesBack_of_bytes (Run.bytesOfValue_ofBytes bytes) (by omega)
      (fitTo_valueOfBytes_array hname bytes)
  · intro p s path st hthere hload
    obtain ⟨t, hst, hpeek⟩ := hload.fills hthere (fitTo_valueOfBytes_array hname bytes)
    refine ⟨t, hst, fun u later hsave => ?_⟩
    rw [hpeek] at hsave
    exact hsave.leaves (Run.bytesOfValue_ofBytes bytes) (by omega)

/-- A text is saved and loaded, a list is written through one handle and read through another,
and bytes that spell no text are loaded and saved. -/
theorem a_text_a_list_and_broken_text_come_back :
    let p := Program.ofLines []
    let log := Expression.string "log"
    let text : Name := ⟨['t', '$']⟩
    let list : Name := ⟨['b', '%', '[', ']']⟩
    let two : Grid Value := { element := .integer, items := #[.integer 0, .integer 255] }
    let s : State := { memory := .ofSeed 7 }
    let opened := s.withFiles (Files.after {} [.openAs "log" .write, .openAs "log" .read])
    let written := opened.withFiles (opened.host.files.written 1 ⟨"log", .write, 0⟩ ⟨#[0, 255]⟩)
    let broken := s.withFiles { contents := Table.ofList [("log", ⟨#[0xFF, 0xC3]⟩)] }
    (∃ t w, Run.execute (.saveFile log (.string "né😀")) p s = .ok .next t ∧
      Run.execute (.loadFile log (.variable text)) p t = .ok .next w ∧
      w.memory.variables.peek text = .string "né😀") ∧
    (∃ w, Run.execute (.writeBytes (.integer 1) (.array [.integer 0, .integer 255])) p opened =
        .ok .next written ∧
      Run.execute (.readBytes (.integer 2) (.integer 9) (.variable list)) p written = .ok .next w ∧
      w.memory.variables.peek list = .array two) ∧
    ∃ t w, Run.execute (.loadFile log (.variable list)) p broken = .ok .next t ∧
      Run.execute (.saveFile log (.variable list)) p t = .ok .next w ∧
      w.host.files.contents.get? "log" = some ⟨#[0xFF, 0xC3]⟩ := by
  intro p log text list two s opened written broken
  obtain ⟨htexts, hlists, hbroken⟩ := files_give_back_what_was_written
  refine ⟨?_, ?_, ?_⟩
  · have hsaves : Run.Saves p s "log" (.string "né😀") (.saveFile log (.string "né😀")) :=
      .whole rfl rfl
    obtain ⟨t, hsave, hback⟩ := htexts "né😀" text (by decide) rfl p s "log" _ hsaves
    have hloads : Run.Loads p t "log" text (.loadFile log (.variable text)) := .whole rfl
    obtain ⟨w, hload, hpeek⟩ := hback t _ rfl hloads
    exact ⟨t, w, hsave, hload, hpeek⟩
  · have hlist : two.IsByteList := by
      refine ⟨rfl, rfl, fun v hv => ?_⟩
      rcases (by simpa [two] using hv : v = .integer 0 ∨ v = .integer 255) with rfl | rfl
      · exact ⟨0, rfl, by decide, by decide⟩
      · exact ⟨255, rfl, by decide, by decide⟩
    have hfresh : opened.host.files.handles.get? 1 = some ⟨"log", .write, 0⟩ := rfl
    have hsaves : Run.Saves p opened "log" (.array two)
        (.writeBytes (.integer 1) (.array [.integer 0, .integer 255])) :=
      .through rfl rfl hfresh (by decide) rfl
    obtain ⟨t, hwrite, hback⟩ := hlists two list hlist (by decide) rfl p opened "log" _ hsaves
    have hgone : Run.execute (.writeBytes (.integer 1) (.array [.integer 0, .integer 255])) p opened =
        .ok .next written := rfl
    cases hgone.symm.trans hwrite
    have hother : written.host.files.handles.get? 2 = some ⟨"log", .read, 0⟩ := rfl
    have hcount : Run.count (.integer 9) p written = .ok 9 written := rfl
    have hloads : Run.Loads p written "log" list (.readBytes (.integer 2) (.integer 9) (.variable list)) :=
      .through rfl hcount hother (Or.inl rfl) (by decide)
    obtain ⟨w, hread, hpeek⟩ := hback written _ rfl hloads
    exact ⟨w, hgone, hread, hpeek⟩
  · have hloads : Run.Loads p broken "log" list (.loadFile log (.variable list)) := .whole rfl
    obtain ⟨t, hload, hback⟩ := hbroken ⟨#[0xFF, 0xC3]⟩ list (by decide) rfl p broken "log" _ rfl hloads
    have hsaves : Run.Saves p t "log" (t.memory.variables.peek list) (.saveFile log (.variable list)) :=
      .whole rfl (Run.value_variable p t list)
    obtain ⟨w, hsave, hbytes⟩ := hback t _ hsaves
    exact ⟨t, w, hload, hsave, hbytes⟩

end LineBasic
