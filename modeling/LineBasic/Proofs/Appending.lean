-- Handles that append. Such a handle starts at the end of its file and then writes where it
-- stands, like every other. At the end a write only adds. A handle leaves the end when a
-- seek moves it or when another handle makes the file longer, and then it overwrites.
import LineBasic.Proofs.Handles

namespace LineBasic.Files

variable {f g : Files} {h : Int64} {file : OpenFile} {path : String} {r : Request}

/-! ## Files that are only appended to -/

/-- A handle for the path is opened to append, and the file is not replaced. -/
def Request.appendsTo (path : String) : Request → Bool
  | .openAs other mode => other ≠ path || mode = .append
  | .writeAll other _ => other ≠ path
  | _ => true

/-- No seek moves the handle, and no other handle writes. -/
def Request.sparesEnd (h : Int64) : Request → Bool
  | .seek k _ => k ≠ h
  | .write k _ => k = h
  | _ => true

/-- If the handle is open for the path, it stands at the end. -/
def AtEnd (f : Files) (h : Int64) (path : String) : Prop :=
  ∀ file, f.handles.get? h = some file → file.path = path → file.position = (f.bytesOf path).size

/-- What a request writes to a file, if it is granted. -/
def chunk? (f : Files) (path : String) : Request → Option ByteArray
  | .write h data =>
    match f.handles.get? h, f.write h data with
    | some file, .ok _ => if file.path = path then some data else none
    | _, _ => none
  | _ => none

/-- All that some requests write to a file, in order. -/
def chunks (f : Files) (path : String) : List Request → List ByteArray
  | [] => []
  | r :: rs => (f.chunk? path r).toList ++ (f.serve r).2.chunks path rs

/-! ## One request -/

theorem chunk?_written (hopen : f.handles.get? h = some file) {data : ByteArray}
    (hw : f.write h data = .ok g) :
    f.chunk? path (.write h data) = if file.path = path then some data else none := by
  simp only [chunk?, hopen, hw]

theorem chunk?_refused {e : Error} (hr : f.grant r = .error e) : f.chunk? path r = none := by
  cases r with
  | write h data =>
    cases hw : f.write h data with
    | ok g =>
      simp only [grant, hw] at hr
      cases hr
    | error e =>
      cases hopen : f.handles.get? h <;> simp [chunk?, hopen, hw]
  | openAs | close | read | seek | tell | atEnd | readAll | writeAll => rfl

/-- An opening to append keeps the bytes of the file, and of every other. -/
theorem bytesOf_opened {other : String} {mode : FileMode}
    (hr : (Request.openAs other mode).appendsTo path = true) (start : Nat) :
    ((f.readied other mode).issue other mode start).2.bytesOf path = f.bytesOf path := by
  change (f.readied other mode).bytesOf path = f.bytesOf path
  cases mode with
  | read => rfl
  | write =>
    have hne : other ≠ path := by simpa [Request.appendsTo] using hr
    exact bytesOf_withFile_ne hne
  | append | readWrite => exact bytesOf_touch f other path

/-- A file that is only appended to changes by what is written through its handles. -/
theorem bytesOf_serve (hr : r.appendsTo path = true) :
    (f.chunk? path r = none ∧ (f.serve r).2.bytesOf path = f.bytesOf path) ∨
    ∃ h file data, r = .write h data ∧ f.handles.get? h = some file ∧ file.path = path ∧
      f.chunk? path r = some data ∧ (f.serve r).2 = f.written h file data := by
  have hc := f.serve_changes r
  generalize (f.serve r).2 = g at hc ⊢
  cases hc with
  | opened other mode hthere =>
    exact Or.inl ⟨rfl, bytesOf_opened hr _⟩
  | @written h file hopen data hmode hroom =>
    have hw : f.write h data = .ok (f.written h file data) := by
      rw [write_eq hopen, if_neg hmode, if_neg (by omega)]
    rw [chunk?_written hopen hw]
    by_cases hp : file.path = path
    · exact Or.inr ⟨h, file, data, rfl, hopen, hp, if_pos hp, rfl⟩
    · exact Or.inl ⟨if_neg hp, bytesOf_withFile_ne hp⟩
  | saved other hroom =>
    have hne : other ≠ path := by simpa [Request.appendsTo] using hr
    exact Or.inl ⟨rfl, bytesOf_withFile_ne hne⟩
  | refused hr => exact Or.inl ⟨chunk?_refused hr, rfl⟩
  | closed | read | sought | told | tested | loaded => exact Or.inl ⟨rfl, rfl⟩

/-- A file can always be opened to append. -/
theorem serve_append (f : Files) (path : String) :
    f.serve (.openAs path .append) = (.ok (.handle (f.lastHandle + 1)),
      ((f.readied path .append).issue path .append (f.bytesOf path).size).2) := by
  rw [serve_openAs, if_neg (by simp)]
  rfl

/-- A handle that was opened to append stands at the end. -/
theorem atEnd_opened (f : Files) (path : String) :
    ((f.readied path .append).issue path .append (f.bytesOf path).size).2.AtEnd
      (f.lastHandle + 1) path := by
  intro file hopen hpath
  rw [issue, lastHandle_readied, Table.get?_insert_self] at hopen
  cases hopen
  rw [bytesOf_opened (by simp [Request.appendsTo])]

/-- A handle stays at the end as long as it is not moved and no other handle writes. -/
theorem AtEnd.serve (hend : f.AtEnd h path) (hr : r.appendsTo path = true)
    (hs : r.sparesEnd h = true) : (f.serve r).2.AtEnd h path := by
  have hc := f.serve_changes r
  generalize (f.serve r).2 = g at hc ⊢
  intro file hopen hpath
  cases hc with
  | opened other mode hthere =>
    rw [bytesOf_opened hr]
    rw [issue, lastHandle_readied, handles_readied] at hopen
    rcases Table.get?_insert_eq_some.1 hopen with ⟨-, rfl⟩ | ⟨-, hopen⟩
    · change other = path at hpath
      have hmode : mode = .append := by simpa [Request.appendsTo, hpath] using hr
      rw [hmode, hpath]
      rfl
    · exact hend file hopen hpath
  | closed =>
    obtain ⟨-, hopen⟩ := Table.get?_erase_eq_some.1 hopen
    exact hend file hopen hpath
  | @read k found hfound count =>
    rcases Table.get?_insert_eq_some.1 hopen with ⟨rfl, rfl⟩ | ⟨-, hopen⟩
    · have hstand := hend found hfound hpath
      change f.readStop found count = (f.bytesOf path).size
      rw [readStop, readStart, hstand, show found.path = path from hpath]
      omega
    · exact hend file hopen hpath
  | @written k found hfound data hmode hroom =>
    have hk : k = h := by simpa [Request.sparesEnd] using hs
    subst hk
    rw [get?_written] at hopen
    cases hopen
    have hstand := hend found hfound hpath
    subst hpath
    rw [bytesOf_written, size_overwrite]
    dsimp only at hstand ⊢
    omega
  | @sought k found hfound position hroom =>
    have hk : k ≠ h := by simpa [Request.sparesEnd] using hs
    rw [get?_moveTo_ne hk] at hopen
    exact hend file hopen hpath
  | saved other hroom =>
    have hne : other ≠ path := by simpa [Request.appendsTo] using hr
    rw [bytesOf_withFile_ne hne]
    exact hend file hopen hpath
  | told | tested | loaded | refused => exact hend file hopen hpath

/-! ## Runs -/

theorem AtEnd.after {rs : List Request} (hend : f.AtEnd h path)
    (hrs : ∀ r ∈ rs, r.appendsTo path = true) (hs : ∀ r ∈ rs, r.sparesEnd h = true) :
    (f.after rs).AtEnd h path := by
  induction rs generalizing f with
  | nil => exact hend
  | cons r rs ih =>
    obtain ⟨hr, hrest⟩ := List.forall_mem_cons.1 hrs
    obtain ⟨hsr, hsrest⟩ := List.forall_mem_cons.1 hs
    exact ih (hend.serve hr hsr) hrest hsrest

/-- If every write is made at the end, the file gets all that is written, in order. -/
theorem bytesOf_after {rs : List Request} (hrs : ∀ r ∈ rs, r.appendsTo path = true)
    (hends : ∀ before h data later, rs = before ++ .write h data :: later →
      (f.after before).AtEnd h path) :
    (f.after rs).bytesOf path = (f.chunks path rs).foldl (· ++ ·) (f.bytesOf path) := by
  induction rs generalizing f with
  | nil => rfl
  | cons r rs ih =>
    obtain ⟨hr, hrest⟩ := List.forall_mem_cons.1 hrs
    have hlater : ∀ before h data later, rs = before ++ .write h data :: later →
        ((f.serve r).2.after before).AtEnd h path := by
      intro before h data later hsplit
      exact hends (r :: before) h data later (congrArg (r :: ·) hsplit)
    rw [after_cons, ih hrest hlater, chunks, List.foldl_append]
    congr 1
    rcases bytesOf_serve hr with ⟨hnone, hsame⟩ | ⟨h, file, data, rfl, hopen, hpath, hsome, hafter⟩
    · rw [hnone, hsame]
      rfl
    · have hend := hends [] h data rs rfl file hopen hpath
      subst hpath
      rw [hsome, hafter, bytesOf_written]
      change file.position = (f.bytesOf file.path).size at hend
      rw [hend, overwrite_end]
      rfl

/-- What an interleaving of handles that append keeps of their file, at every write and as a
whole. No write makes the file shorter. A write that does not start before the end keeps all
that is there and adds to it. If every write is made at the end, the file is in the end what
it was, followed by all that was written. A handle is at the end when it is opened, and it
stays there, also when it writes, until a seek moves it or another handle writes. -/
theorem appending_at_the_end_never_overwrites (f : Files) {path : String} {rs : List Request}
    (hrs : ∀ r ∈ rs, r.appendsTo path = true) :
    (∀ before h data later, rs = before ++ .write h data :: later →
      let g := f.after before
      ∀ file g', g.handles.get? h = some file → file.path = path → g.write h data = .ok g' →
        (g.bytesOf path).size ≤ (g'.bytesOf path).size ∧
        ((g.bytesOf path).size ≤ file.position →
          ∃ more, g'.bytesOf path = g.bytesOf path ++ more)) ∧
    ((∀ before h data later, rs = before ++ .write h data :: later →
        (f.after before).AtEnd h path) →
      (f.after rs).bytesOf path = (f.chunks path rs).foldl (· ++ ·) (f.bytesOf path)) ∧
    ∀ before mid later, rs = before ++ .openAs path .append :: mid ++ later →
      ∃ h g, (f.after before).serve (.openAs path .append) = (.ok (.handle h), g) ∧
        ((∀ r ∈ mid, r.sparesEnd h = true) → (g.after mid).AtEnd h path) := by
  refine ⟨?_, bytesOf_after hrs, ?_⟩
  · intro before h data later _ g file g' hopen hpath hw
    obtain ⟨-, -, rfl⟩ := (write_eq_ok hopen data).1 hw
    subst hpath
    rw [bytesOf_written, size_overwrite]
    refine ⟨by omega, fun hpast => ?_⟩
    rw [overwrite_past hpast, ByteArray.append_assoc]
    exact ⟨_, rfl⟩
  · intro before mid later hsplit
    refine ⟨_, _, serve_append _ path, fun hmid => ?_⟩
    apply AtEnd.after (atEnd_opened _ path) _ hmid
    intro r hr
    apply hrs r
    rw [hsplit]
    simp [hr]

/-- The second handle is opened after the first has written, so nothing is lost. -/
theorem two_appenders_in_turn :
    let rs : List Request := [.openAs "log" .append, .write 1 "A".toUTF8, .openAs "log" .append,
      .write 2 "B".toUTF8]
    (∀ r ∈ rs, r.appendsTo "log" = true) ∧
      (∀ before h data later, rs = before ++ .write h data :: later →
        (Files.after {} before).AtEnd h "log") ∧
      (Files.after {} rs).bytesOf "log" = "AB".toUTF8 := by
  intro rs
  have hrs : ∀ r ∈ rs, r.appendsTo "log" = true := by simp [rs, Request.appendsTo]
  have hends : ∀ before h data later, rs = before ++ .write h data :: later →
      (Files.after {} before).AtEnd h "log" := by
    intro before h data later hsplit file hopen _
    match before with
    | [] | [_, _] | _ :: _ :: _ :: _ :: _ => simp [rs] at hsplit
    | [_] =>
      obtain ⟨rfl, ⟨rfl, -⟩, -⟩ := by simpa [rs] using hsplit
      cases hopen
      rfl
    | [_, _, _] =>
      obtain ⟨rfl, rfl, rfl, ⟨rfl, -⟩, -⟩ := by simpa [rs] using hsplit
      cases hopen
      rfl
  obtain ⟨-, hall, -⟩ := appending_at_the_end_never_overwrites {} hrs
  exact ⟨hrs, hends, hall hends⟩

/-- Two handles are opened at the same end. What the first one writes is lost. -/
theorem a_second_appender_overwrites :
    let rs : List Request := [.openAs "log" .append, .openAs "log" .append, .write 1 "A".toUTF8,
      .write 2 "B".toUTF8]
    (∀ r ∈ rs, r.appendsTo "log" = true) ∧
      Files.chunks {} "log" rs = ["A".toUTF8, "B".toUTF8] ∧
      (Files.after {} rs).bytesOf "log" = "B".toUTF8 ∧
      ¬ ∃ more, (Files.after {} rs).bytesOf "log" =
        (Files.after {} (rs.take 3)).bytesOf "log" ++ more := by
  intro rs
  refine ⟨by simp [rs, Request.appendsTo], rfl, rfl, ?_⟩
  rintro ⟨more, hmore⟩
  have hfirst := congrArg (fun bytes : ByteArray => bytes[0]?) hmore
  rw [getElem?_append] at hfirst
  cases hfirst

end LineBasic.Files
