import Mathlib.Data.List.Induction
import QuickFix.Project.Step
import QuickFix.Proofs.Fix.Replaying
import QuickFix.Proofs.Schedule.Worlds

/-!
# The files of a project

Files change in two ways only (`FileChange`): a new one is put behind all others, or one gets
another text. `touches_host` says which of them a call does, `Reaches.act` follows from it for actions
and `files_kept` for runs of the machine. A list of files that changes in this way is as good as a map
with a counter for the next id (`Register.Holds`), as long as 32 bits are enough for the counter.
-/

namespace QuickFix

open QuickFix.Fix

namespace Fix

/-- The file whose text a call is to change. -/
def Call.edited? : Call → Option FileId
  | .setVisibility c _ => some c.file
  | .addConstructor c => some c.file
  | .addImport id _ => some id
  | _ => none

end Fix

namespace Project

/-! ## Changes of files -/

/-- How files change. -/
inductive FileChange where
  /-- A new file comes behind all others. -/
  | put (f : File)
  /-- A file gets another text. -/
  | write (id : FileId) (t : Text)

/-- The files after a change. -/
def FileChange.perform (fs : List File) : FileChange → List File
  | .put f => fs ++ [f]
  | .write id t => fs.modify id.number fun f => { f with text := t }

/-- The files after some changes. -/
def filesAfter (fs : List File) (cs : List FileChange) : List File := cs.foldl FileChange.perform fs

section

variable {fs : List File} {f : File} {i : Nat}

theorem length_perform_le (fs : List File) (c : FileChange) :
    fs.length ≤ (c.perform fs).length := by
  cases c <;> simp [FileChange.perform]

theorem length_filesAfter_le (fs : List File) (cs : List FileChange) :
    fs.length ≤ (filesAfter fs cs).length := by
  induction cs generalizing fs with
  | nil => exact Nat.le_refl _
  | cons c cs ih => exact Nat.le_trans (length_perform_le fs c) (ih _)

theorem filesAfter_append (fs : List File) (cs ds : List FileChange) :
    filesAfter fs (cs ++ ds) = filesAfter (filesAfter fs cs) ds := List.foldl_append

/-- A change leaves a file where it is, and its text at most is another one. -/
theorem getElem?_perform (h : fs[i]? = some f) (c : FileChange) :
    ∃ t, (c.perform fs)[i]? = some { f with text := t } := by
  cases c with
  | put g =>
    have hlt : i < fs.length := (List.getElem?_eq_some_iff.1 h).1
    exact ⟨f.text, (List.getElem?_append_left hlt).trans h⟩
  | write id t =>
    by_cases hid : id.number = i
    · exact ⟨t, by simp [FileChange.perform, hid, h]⟩
    · exact ⟨f.text, by simp [FileChange.perform, hid, h]⟩

theorem getElem?_filesAfter (h : fs[i]? = some f) (cs : List FileChange) :
    ∃ t, (filesAfter fs cs)[i]? = some { f with text := t } := by
  induction cs generalizing fs f with
  | nil => exact ⟨f.text, h⟩
  | cons c cs ih =>
    obtain ⟨t, ht⟩ := getElem?_perform h c
    obtain ⟨u, hu⟩ := ih ht
    exact ⟨u, hu⟩

end

/-! ## Files in a map -/

/-- Files by the number of their id, with the id of the next one. -/
structure Register where
  next : UInt32
  entries : Std.TreeMap Nat File

namespace Register

/-- No files. -/
def empty : Register := ⟨0, ∅⟩

/-- A register after a change. -/
def perform (r : Register) : FileChange → Register
  | .put f => ⟨r.next + 1, r.entries.insert r.next.toNat f⟩
  | .write id t => { r with entries := r.entries.modify id.number fun f => { f with text := t } }

/-- A register after some changes. -/
def after (r : Register) (cs : List FileChange) : Register := cs.foldl perform r

/-- The register holds these files, and no others. -/
structure Holds (r : Register) (fs : List File) : Prop where
  next : r.next.toNat = fs.length
  entry (i : Nat) : r.entries[i]? = fs[i]?

variable {r : Register} {fs : List File}

/-- The ids that are in use are those below the next one. -/
theorem Holds.mem_iff (h : r.Holds fs) (i : Nat) : i ∈ r.entries ↔ i < r.next.toNat := by
  rw [Std.TreeMap.mem_iff_isSome_getElem?, h.entry, h.next, Option.isSome_iff_ne_none, ne_eq,
    List.getElem?_eq_none_iff, Nat.not_le]

theorem Holds.perform (h : r.Holds fs) (c : FileChange)
    (hlt : (c.perform fs).length < UInt32.size) : (r.perform c).Holds (c.perform fs) := by
  cases c with
  | put f =>
    have hlt : fs.length + 1 < UInt32.size := by
      simpa only [FileChange.perform, List.length_append, List.length_singleton] using hlt
    constructor
    · show (r.next + 1).toNat = _
      rw [UInt32.toNat_add, h.next]
      simpa [FileChange.perform] using hlt
    · intro i
      show (r.entries.insert r.next.toNat f)[i]? = (fs ++ [f])[i]?
      simp only [Std.TreeMap.getElem?_insert, h.next, h.entry, Nat.compare_eq_eq]
      by_cases hi : fs.length = i
      · simp [← hi]
      · rw [if_neg hi]
        -- Behind the new file there is nothing, and before it nothing changed.
        rcases Nat.lt_or_gt_of_ne hi with hi | hi
        · rw [List.getElem?_eq_none (by omega), List.getElem?_eq_none (by rwa [List.length_append])]
        · rw [List.getElem?_append_left hi]
  | write id t =>
    constructor
    · show r.next.toNat = (fs.modify id.number _).length
      rw [h.next, List.length_modify]
    · intro i
      show (r.entries.modify id.number _)[i]? = (fs.modify id.number _)[i]?
      simp only [Std.TreeMap.getElem?_modify, h.entry, List.getElem?_modify, Nat.compare_eq_eq]
      by_cases hi : id.number = i
      · simp [hi]
      · simp [hi]

/-- As long as the counter does not run over, a register holds the files that a list holds. -/
theorem Holds.after {cs : List FileChange} (h : r.Holds fs)
    (hlt : (filesAfter fs cs).length < UInt32.size) : (r.after cs).Holds (filesAfter fs cs) := by
  induction cs generalizing r fs with
  | nil => exact h
  | cons c cs ih =>
    exact ih (h.perform c (Nat.lt_of_le_of_lt (length_filesAfter_le _ cs) hlt)) hlt

theorem holds_empty : empty.Holds [] := ⟨rfl, fun _ => Std.TreeMap.getElem?_emptyc⟩

end Register

/-! ## Calls -/

section

variable {p : Project} {c : Call} {id : FileId}

theorem find?_eq_none {d : DirectoryId} {name : Text} (h : p.find? d name = none) {f : File}
    (hf : f ∈ p.files) : ¬ (f.directory = d ∧ f.name = name) := by
  rw [find?, Option.map_eq_none_iff, List.findIdx?_eq_none_iff] at h
  exact of_decide_eq_false (h f hf)

/-- What `createFile` answers and which files it makes: the file that it was told, if the directory
has no file with its name, or none. -/
inductive Makes (fs : List File) (d : DirectoryId) (f : NewFile) :
    Except HostError FileId → List File → Prop
  | made {g : File} (hdirectory : g.directory = d) (hname : g.name = f.fileName)
    (hfree : ∀ old ∈ fs, ¬ (old.directory = d ∧ old.name = f.fileName)) :
    Makes fs d f (.ok ⟨fs.length⟩) [g]
  | refused (e : HostError) : Makes fs d f (.error e) []

/-- What a call does to files. Only `createFile` makes files, behind all others; the other calls
change the text of the file that they name, if they name one. -/
inductive Touches (fs : List File) : Call → List File → Prop
  | nothing (c : Call) : Touches fs c fs
  | written {c : Call} {id : FileId} (h : c.edited? = some id) (t : Text) :
    Touches fs c (FileChange.perform fs (.write id t))
  | made {d : DirectoryId} {f : NewFile} {r : Except HostError FileId} {new : List File}
    (h : Makes fs d f r new) : Touches fs (.createFile d f) (fs ++ new)

/-- A file is made in a known directory, from a known template, under a name that is free there. -/
theorem of_checkNewFile {d : DirectoryId} {f : NewFile} {home : Directory} {template : Text}
    (h : p.checkNewFile d f = .ok (home, template)) : p.directory? d = some home ∧
      p.templates.lookup f.template = some template ∧ p.find? d f.fileName = none := by
  unfold checkNewFile at h
  split at h
  · cases h
  · cases h
  · cases h
  · cases h
  · rename_i hd ht hfree
    cases h
    exact ⟨hd, ht, hfree⟩

/-- A file may be made from a template; what was to fail has failed then. -/
theorem exists_createFile (p : Project) (d : DirectoryId) (f : NewFile) :
    ∃ new, (p.createFile d f).2.1 = { p with failCreation? := none, files := p.files ++ new } ∧
      Makes p.files d f (p.createFile d f).1 new := by
  cases hc : p.checkNewFile d f with
  | error e =>
    refine ⟨[], ?_⟩
    simp only [createFile, hc, List.append_nil, true_and]
    exact .refused e
  | ok made =>
    obtain ⟨dir, template⟩ := made
    refine ⟨[dir.file d f.fileName .source (renderTemplate template f)], ?_⟩
    simp only [createFile, hc, putFile, true_and]
    exact .made rfl rfl fun old hold => find?_eq_none (of_checkNewFile hc).2.2 hold

/-- An edit of a class changes the text of its file, if it goes well. -/
theorem exists_editClass (p : Project) (c : ClassInfo)
    (edit : Declaration → Text → Except StaleDeclaration (Option Edit)) :
    ∃ fs, (p.editClass c edit).2 = { p with overwrite? := none, files := fs } ∧
      (fs = p.files ∨ ∃ t, fs = FileChange.perform p.files (.write c.file t)) := by
  unfold editClass
  dsimp only
  split
  · exact ⟨p.files, rfl, .inl rfl⟩
  · split
    · exact ⟨p.files, rfl, .inl rfl⟩
    · exact ⟨_, rfl, .inr ⟨_, rfl⟩⟩

/-- An import changes the text of its file, if it goes well. -/
theorem exists_addImport (p : Project) (id : FileId) (q : QualifiedName) :
    ∃ fail? imports fs, (p.addImport id q).2 =
        { p with failImport? := fail?, imports := imports, files := fs } ∧
      (fs = p.files ∨ ∃ t, fs = FileChange.perform p.files (.write id t)) := by
  unfold addImport
  split
  · exact ⟨_, _, p.files, rfl, .inl rfl⟩
  · dsimp only
    split
    · exact ⟨_, _, p.files, rfl, .inl rfl⟩
    · split
      · exact ⟨_, _, p.files, rfl, .inl rfl⟩
      · exact ⟨_, _, _, rfl, .inr ⟨_, rfl⟩⟩

theorem exists_openEditor (p : Project) (path : Text) (offset : Nat) (focus : Bool) :
    ∃ fail? opens, (p.openEditor path offset focus).2 =
      { p with failOpen? := fail?, opens := opens } := by
  unfold openEditor
  split
  · exact ⟨_, _, rfl⟩
  · exact ⟨_, _, rfl⟩

theorem touches_createFile (p : Project) (d : DirectoryId) (f : NewFile) :
    Touches p.files (.createFile d f) (p.createFile d f).2.1.files := by
  obtain ⟨new, hq, hnew⟩ := exists_createFile p d f
  rw [hq]
  exact .made hnew

theorem touches_editClass (p : Project) {c : ClassInfo} {call : Call}
    (h : call.edited? = some c.file)
    (edit : Declaration → Text → Except StaleDeclaration (Option Edit)) :
    Touches p.files call (p.editClass c edit).2.files := by
  obtain ⟨fs, hq, hfs⟩ := exists_editClass p c edit
  rw [hq]
  rcases hfs with rfl | ⟨t, rfl⟩
  · exact .nothing _
  · exact .written h t

theorem touches_addImport (p : Project) (id : FileId) (q : QualifiedName) :
    Touches p.files (.addImport id q) (p.addImport id q).2.files := by
  obtain ⟨_, _, fs, hq, hfs⟩ := exists_addImport p id q
  rw [hq]
  rcases hfs with rfl | ⟨t, rfl⟩
  · exact .nothing _
  · exact .written rfl t

theorem touches_openEditor (p : Project) (path : Text) (offset : Nat) (focus : Bool) :
    Touches p.files (.openEditor path offset focus) (p.openEditor path offset focus).2.files := by
  obtain ⟨_, _, hq⟩ := exists_openEditor p path offset focus
  rw [hq]
  exact .nothing _

theorem touches_host (c : Call) (b : Bool) (p : Project) :
    Touches p.files c (host c b p).world.files := by
  let q := p.enter c b
  cases c with
  | createFile d f => exact touches_createFile q d f
  | setVisibility c v => exact touches_editClass q rfl fun d => d.visibilityEdit v
  | addConstructor c => exact touches_editClass q rfl Declaration.constructorEdit
  | addImport id name => exact touches_addImport q id name
  | openEditor path offset focus => exact touches_openEditor q path offset focus
  | moduleOf _ | askUser _ | classesOf _ | isAccessible _ _ | pathOf _ | showError _ =>
    exact .nothing _

section

variable {fs fs' : List File}

theorem Touches.eq_or (h : Touches fs c fs') :
    fs' = fs ∨ ∃ change : FileChange, fs' = change.perform fs := by
  cases h with
  | nothing => exact .inl rfl
  | written _ t => exact .inr ⟨_, rfl⟩
  | made h =>
    cases h with
    | made => exact .inr ⟨.put _, rfl⟩
    | refused => exact .inl (List.append_nil fs)

/-- A call changes the text of no file but of the one that it names, and nothing else of that. -/
theorem Touches.getElem? (h : Touches fs c fs') {f : File} (hf : fs[id.number]? = some f) :
    ∃ t, fs'[id.number]? = some { f with text := t } ∧ (c.edited? ≠ some id → t = f.text) := by
  have kept (h : fs'[id.number]? = some f) :
      ∃ t, fs'[id.number]? = some { f with text := t } ∧ (c.edited? ≠ some id → t = f.text) :=
    ⟨f.text, h, fun _ => rfl⟩
  cases h with
  | nothing => exact kept hf
  | @written _ id' h t =>
    by_cases hid : id'.number = id.number
    · have he : id' = id := congrArg FileId.mk hid
      exact ⟨t, by simp [FileChange.perform, hid, hf], fun hne => absurd (he ▸ h) hne⟩
    · exact kept (by simp [FileChange.perform, hid, hf])
  | made h =>
    have hlt : id.number < fs.length := (List.getElem?_eq_some_iff.1 hf).1
    exact kept ((List.getElem?_append_left hlt).trans hf)

theorem Touches.length (h : Touches fs c fs') :
    fs'.length = fs.length ∨ ∃ d f, c = .createFile d f := by
  cases h with
  | nothing => exact .inl rfl
  | written => exact .inl (List.length_modify ..)
  | made => exact .inr ⟨_, _, rfl⟩

end

/-- The project behind an override either answers a call or does not hear of it. -/
theorem world_before (o : Override) (c : Call) (b : Bool) (w : World) :
    (o.before host c b w).world.1 = w.1 ∨
      (o.before host c b w).world.1 = (host c b w.1).world := by
  cases c with
  | classesOf id =>
    simp only [Override.before, Override.classesOf]
    split
    · exact .inl rfl
    · exact .inr rfl
  | isAccessible _ _ | setVisibility _ _ | addConstructor _ =>
    simp only [Override.before]
    split
    · exact .inl rfl
    · exact .inr rfl
  | moduleOf _ | askUser _ | createFile _ _ | pathOf _ | addImport _ _ | openEditor _ _ _
  | showError _ => exact .inr rfl

/-- What calls of the kind `P` keep of a project, they keep behind an override too. -/
theorem keeps_of_replays {o : Override} {I : Project → Prop} {P : Observation → Prop} {w w' : World}
    {tr : List Observation} (hr : Replays (o.before host) w tr w') (htr : ∀ ob ∈ tr, P ob)
    (hP : ∀ c b reply p, P ⟨c, b, reply⟩ → I p → I (host c b p).world) (h : I w.1) : I w'.1 := by
  refine hr.keeps (I := fun w => I w.1) htr (fun c b w hc hw => ?_) h
  rcases world_before o c b w with he | he
  · rw [he]
    exact hw
  · rw [he]
    exact hP c b _ w.1 hc hw

theorem touches_before (o : Override) (c : Call) (b : Bool) (w : World) :
    Touches w.1.files c (o.before host c b w).world.1.files := by
  rcases world_before o c b w with h | h
  · rw [h]
    exact .nothing _
  · rw [h]
    exact touches_host c b w.1

end

/-! ## Actions and runs -/

/-- The files of the world come from `fs` by changes. -/
def Reaches (fs : List File) (w : World) : Prop := ∃ cs, w.1.files = filesAfter fs cs

section

variable {o : Override} {s : CreateSettings} {fs : List File} {w : World}

theorem Reaches.of_eq (h : Reaches fs w) {w' : World} (he : w'.1.files = w.1.files) :
    Reaches fs w' := by
  obtain ⟨cs, hcs⟩ := h
  exact ⟨cs, he.trans hcs⟩

theorem Reaches.perform (h : Reaches fs w) {w' : World} {c : FileChange}
    (he : w'.1.files = c.perform w.1.files) : Reaches fs w' := by
  obtain ⟨cs, hcs⟩ := h
  exact ⟨cs ++ [c], by rw [he, hcs, filesAfter_append]; rfl⟩

theorem Reaches.call (h : Reaches fs w) (c : Call) (b : Bool) :
    Reaches fs (o.before host c b w).world := by
  rcases (touches_before o c b w).eq_or with he | ⟨change, he⟩
  · exact h.of_eq he
  · exact h.perform he

theorem Reaches.offer (h : Reaches fs w) (fix : CreateClass) (id : FileId) (isOnlyOffered : Bool)
    (v : Schedule.View) : Reaches fs (offer (o.before host) s fix id isOnlyOffered v w).world := by
  unfold Project.offer
  split
  · exact h
  · split
    · exact h
    · exact invoke_keeps (fun c b _ hw => hw.call c b) fix s _ _ h

/-- Whatever is done on a project, its files go through changes. -/
theorem Reaches.act (h : Reaches fs w) (a : Action) (v : Schedule.View) :
    Reaches fs (act (o.before host) s a v w).world := by
  cases a with
  | addDirectory package isStored =>
    simp only [Project.act, addDirectory]
    cases packageOf package with
    | error m => exact h
    | ok package => exact h
  | addFile d name kind text =>
    simp only [Project.act, addFile]
    cases w.1.directory? d with
    | none => exact h
    | some dir => exact h.perform (c := .put _) rfl
  | sealPackage package =>
    simp only [Project.act, sealPackage]
    cases packageOf package with
    | error m => exact h
    | ok package => exact h
  | failNext fault e => cases fault <;> exact h
  | offer fix id isOnlyOffered => exact h.offer fix id isOnlyOffered v
  | call c => exact h.call c v.isWriting
  | setTemplate _ _ | overwriteAfterNextEdit _ | setDialog _ | textOf _ | findFile _ _
  | showHost => exact h

theorem Reaches.runs {m n : Machine} {hs : List (Schedule.Happening Action ErrorNotice)}
    (hr : Schedule.Machine.Runs (meaning (o.before host) s) m hs n) (h : Reaches fs m.world) :
    Reaches fs n.world :=
  hr.keeps (fun a v _ hw => hw.act a v)
    (fun e v _ hw => hw.call (o := o) (.showError e) v.isWriting) h

/-- What is kept of the files of a project from the point `m` of a run to the point `n`. -/
structure FilesKept (o : Override) (m n : Machine) : Prop where
  /-- The files come from no files by changes. A register that goes through the same changes holds
  them, as long as 32 bits are enough for their ids; the ids in use are those below the next one. -/
  numbered : ∃ cs ds, m.world.1.files = filesAfter [] cs ∧
    n.world.1.files = filesAfter [] (cs ++ ds) ∧
    (n.world.1.files.length < UInt32.size →
      (Register.empty.after (cs ++ ds)).Holds n.world.1.files ∧
      ∀ i, i ∈ (Register.empty.after (cs ++ ds)).entries ↔
        i < (Register.empty.after (cs ++ ds)).next.toNat)
  /-- A file is there for ever, with its name, directory, kind, path and module. -/
  lasting {id : FileId} {f : File} (hf : m.world.1.file? id = some f) :
    ∃ t, n.world.1.file? id = some { f with text := t }
  module {id : FileId} {f : File} (hf : m.world.1.file? id = some f) (b b' : Bool) :
    (o.before host (.moduleOf id) b n.world).reply =
      (o.before host (.moduleOf id) b' m.world).reply
  /-- A call changes the text of no file but of the one that it names. -/
  called (c : Call) (b : Bool) {id : FileId} {f : File} (hf : n.world.1.file? id = some f) :
    ∃ t, (o.before host c b n.world).world.1.file? id = some { f with text := t } ∧
      (c.edited? ≠ some id → t = f.text)
  /-- Only one call makes files. -/
  making (c : Call) (b : Bool) :
    (o.before host c b n.world).world.1.files.length = n.world.1.files.length ∨
      ∃ d f, c = .createFile d f
  /-- That makes a file only if the directory has no file with its name. -/
  created (d : DirectoryId) (f : NewFile) (b : Bool) :
    ∃ new, (o.before host (.createFile d f) b n.world).world.1.files = n.world.1.files ++ new ∧
      Makes n.world.1.files d f (o.before host (.createFile d f) b n.world).reply new

/-- **Files stay as they were made, and a call changes the text of the file that it names at
most.** -/
theorem files_kept {k : Nat} {prog : Schedule.Program Action} {m n : Machine}
    {h h' : List (Schedule.Happening Action ErrorNotice)}
    (hm : Schedule.Machine.Runs (meaning (o.before host) s)
      (Schedule.Machine.load (Project.empty, k) [] prog) h m)
    (hn : Schedule.Machine.Runs (meaning (o.before host) s) m h' n) : FilesKept o m n := by
  have hstart : Reaches [] (Project.empty, k) := ⟨[], rfl⟩
  obtain ⟨cs, hcs⟩ := Reaches.runs hm hstart
  obtain ⟨ds, hds⟩ := Reaches.runs hn ⟨[], rfl⟩
  have lasting {id : FileId} {f : File} (hf : m.world.1.file? id = some f) :
      ∃ t, n.world.1.file? id = some { f with text := t } := by
    unfold file?
    rw [hds]
    exact getElem?_filesAfter hf ds
  have hfiles : n.world.1.files = filesAfter [] (cs ++ ds) := by
    rw [hds, hcs, filesAfter_append]
  refine ⟨⟨cs, ds, hcs, hfiles, fun hlt => ?_⟩, lasting, fun hf b b' => ?_, fun c b id f hf => ?_,
    fun c b => (touches_before o c b n.world).length, fun d f b => ?_⟩
  · rw [hfiles] at hlt ⊢
    have hholds := Register.holds_empty.after hlt
    exact ⟨hholds, hholds.mem_iff⟩
  · obtain ⟨t, ht⟩ := lasting hf
    show n.world.1.module? _ = m.world.1.module? _
    rw [module?, module?, ht, hf]
    rfl
  · exact (touches_before o c b n.world).getElem? hf
  · obtain ⟨new, hq, hnew⟩ := exists_createFile (n.world.1.enter (.createFile d f) b) d f
    exact ⟨new, congrArg Project.files hq, hnew⟩

/-- A template is used twice for the same file, in a write action that ends by a panic. -/
theorem files_kept_of_panic :
    let new : NewFile := ⟨"A", "A.groovy", "GroovyClass.groovy", ⟨"a"⟩⟩
    let prog : Schedule.Program Action := [
      .act (.addDirectory "a" true), .act (.addFile ⟨0⟩ "B.groovy" .source "class B \x7b\x7d"),
      .write [.act (.call (.createFile ⟨0⟩ new)), .act (.call (.createFile ⟨0⟩ new)), .panic .other]]
    let M := meaning (Override.none.before host) .default
    ∃ m n h h', (Schedule.Machine.Runs M (Schedule.Machine.load (Project.empty, 0) [] prog) h m ∧
        Schedule.Machine.Runs M m h' n ∧
        m.world.1.files.map File.name = (["B.groovy"] : List Text) ∧
        n.world.1.files.map File.name = (["B.groovy", "A.groovy"] : List Text) ∧
        n.world.1.calls = 2 ∧ n.stack.length = 0) ∧
      FilesKept Override.none m n := by
  intro new prog M
  let start : Machine := Schedule.Machine.load (Project.empty, 0) [] prog
  obtain ⟨h, hm⟩ := Schedule.Machine.exists_runs_advance M 2 start
  obtain ⟨h', hn⟩ := Schedule.Machine.exists_runs_advance M 8 (start.advance M 2)
  exact ⟨start.advance M 2, (start.advance M 2).advance M 8, h, h',
    ⟨hm, hn, by decide +kernel, by decide +kernel, by decide +kernel, by decide +kernel⟩,
    files_kept hm hn⟩

end

end Project

end QuickFix
