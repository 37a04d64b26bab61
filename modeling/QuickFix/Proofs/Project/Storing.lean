import Mathlib.Data.List.Basic
import QuickFix.Proofs.Name
import QuickFix.Proofs.Project.Aborting

/-!
# Where new files are stored

A path is read as its components (`Path.components`): the root or the place where one is, then what
stands between its slashes, without what is empty and single dots. A name that is joined to the path of
a directory is stored directly in it exactly if it nests there (`Path.liesIn_joinPath_iff`). The dialog
may be confirmed with any name for the class, and the name of its file is joined to the path of the
directory as it is (`confirmed_of_course`), so `invoke_stores_iff` says which names keep the new file
in the directory that was chosen.
-/

namespace QuickFix

open QuickFix.Fix

/-! ## Paths by their components -/

namespace Path

open Text Project

/-- A step of a path. -/
inductive Component where
  | root
  /-- The place where one is; it counts at the start of a path only. -/
  | current
  | parent
  | normal (name : Text)
  deriving DecidableEq

/-- What stands between slashes as a component, if it is one. -/
def component? (piece : Text) : Option Component :=
  if piece = [] ∨ piece = ['.'] then none
  else if piece = ['.', '.'] then some .parent
  else some (.normal piece)

/-- Where a path starts from, if it says so. -/
def start (path : Text) : List Component :=
  if path.head? = some '/' then [.root]
  else if (path.splitOn '/').head? = some ['.'] then [.current]
  else []

/-- The components of a path behind its start. -/
def steps (path : Text) : List Component := (path.splitOn '/').filterMap component?

/-- The components of a path. -/
def components (path : Text) : List Component := start path ++ steps path

/-- The path is that of the directory with one name more. -/
def LiesIn (directory path : Text) : Prop :=
  ∃ name, components path = components directory ++ [.normal name]

/-- The path `part`, seen from `base`, is one name more. A path from the root is the same from
everywhere. -/
def Nests (base part : Text) : Prop :=
  if part.head? = some '/' then LiesIn base part
  else (∃ name, steps part = [.normal name]) ∧ (base = [] → start part = [])

section

variable {base part : Text}

theorem steps_append (a b : Text) : steps (a ++ '/' :: b) = steps a ++ steps b := by
  rw [steps, List.splitOn_append_cons_self, List.filterMap_append]
  rfl

theorem head?_splitOn_append (a b : Text) :
    ((a ++ '/' :: b).splitOn '/').head? = (a.splitOn '/').head? := by
  rw [List.splitOn_append_cons_self]
  exact List.head?_append_of_ne_nil _ (List.splitOn_ne_nil '/' a)

/-- What stands behind a slash says nothing about where a path starts from. -/
theorem start_append (a b : Text) : start (a ++ '/' :: b) = start (a ++ ['/']) := by
  have hhead (b : Text) : (a ++ '/' :: b).head? = a.head?.or (some '/') := List.head?_append
  simp only [start, head?_splitOn_append, hhead]

theorem start_append_slash (h : base ≠ []) : start (base ++ ['/']) = start base := by
  rw [start, start, head?_splitOn_append, List.head?_append_of_ne_nil base h]

theorem components_joinPath (hbase : base ≠ []) (hpart : part.head? ≠ some '/') :
    components (joinPath base part) = components base ++ steps part := by
  have hempty : base.isEmpty = false := List.isEmpty_eq_false_iff.2 hbase
  rw [joinPath, if_neg hpart, hempty, Bool.false_or]
  by_cases hslash : base.getLast? = some '/'
  · obtain ⟨front, rfl⟩ := List.getLast?_eq_some_iff.1 hslash
    have hsteps : steps (front ++ ['/']) = steps front := by
      rw [steps_append]
      exact List.append_nil _
    rw [if_pos (decide_eq_true hslash), List.append_assoc, List.singleton_append, components,
      components, start_append, steps_append, hsteps, List.append_assoc]
  · rw [if_neg (by simpa using hslash), List.append_assoc, List.singleton_append, components,
      components, start_append, start_append_slash hbase, steps_append, List.append_assoc]

/-- A path that is joined to one of a directory is stored directly there if it nests there, and only
then. -/
theorem liesIn_joinPath_iff : LiesIn base (joinPath base part) ↔ Nests base part := by
  unfold Nests
  by_cases hpart : part.head? = some '/'
  · rw [if_pos hpart, joinPath, if_pos hpart]
  · rw [if_neg hpart]
    by_cases hbase : base = []
    · subst hbase
      have hjoin : joinPath [] part = part := by simp [joinPath, hpart]
      have hstart : start part = [] ∨ start part = [.current] := by
        rw [start, if_neg hpart]
        split
        · exact .inr rfl
        · exact .inl rfl
      show (∃ name, components (joinPath [] part) = [.normal name]) ↔ _
      rw [hjoin, components]
      rcases hstart with hstart | hstart
      · simp [hstart]
      · simp [hstart]
    · simp only [LiesIn, components_joinPath hbase hpart, List.append_cancel_left_eq, hbase,
        false_implies, and_true]

/-- A name without slashes nests everywhere if it names anything. -/
theorem nests_of_not_mem (h : '/' ∉ part) (hpart : part ∉ [[], ['.'], ['.', '.']]) (base : Text) :
    Nests base part := by
  simp only [List.mem_cons, List.not_mem_nil, or_false, not_or] at hpart
  obtain ⟨hnil, hcurrent, hparent⟩ := hpart
  have hhead : part.head? ≠ some '/' := fun hh => h (List.mem_of_head? hh)
  rw [Nests, if_neg hhead]
  refine ⟨⟨part, ?_⟩, fun _ => ?_⟩
  · simp [steps, List.splitOn_eq_singleton h, component?, hnil, hcurrent, hparent]
  · simp [start, List.splitOn_eq_singleton h, hhead, hcurrent]

end

end Path

namespace Project

/-! ## Files as they were made -/

/-- Name of the class that the dialog is confirmed with, if it starts with `name`. -/
def DialogScript.className (name : Text) : DialogScript → Text
  | .confirm _ (some name') _ => name'
  | _ => name

/-- The file is as it was made in the directory `d` of the project `p`, but for its text. -/
structure Stored (p : Project) (d : DirectoryId) (name : Text) (g : File) : Prop where
  directory : g.directory = d
  named : g.name = name
  path : ∃ home, p.directory? d = some home ∧ g.path? = home.path?.map (joinPath · name)

section

variable {o : Override} {p : Project} {d : DirectoryId} {nf : NewFile} {g : File} {w w' : World}
  {tr : List Observation}

theorem answer_of_asked {id : FileId} {r : DialogRequest} {module? : Option ModuleId}
    {answer? : Option CreationRequest}
    (hr : Replays (o.before host) w
      (⟨.moduleOf id, false, module?⟩ :: ⟨.askUser r, false, answer?⟩ :: tr) w') :
    answer? = (w.1.askUser r).1 :=
  (replays_cons_iff.1 (replays_cons_iff.1 hr).2).1

/-- Calls leave a file where it is, and only its text may change. -/
theorem lasting_of_replays (hr : Replays (o.before host) w tr w') {id : FileId}
    (hg : w.1.file? id = some g) : ∃ t, w'.1.file? id = some { g with text := t } := by
  refine hr.keeps (I := fun w => ∃ t, w.1.file? id = some { g with text := t }) (P := fun _ => True)
    (fun _ _ => trivial) (fun c b w _ hw => ?_) ⟨g.text, hg⟩
  obtain ⟨t, ht⟩ := hw
  obtain ⟨u, hu, -⟩ := (touches_before o c b w).getElem? ht
  exact ⟨u, hu⟩

theorem stored_of_createFile {file : FileId} (h : (p.createFile d nf).1 = .ok file) :
    ∃ g, (p.createFile d nf).2.1.files = p.files ++ [g] ∧ Stored p d nf.fileName g := by
  cases hc : p.checkNewFile d nf with
  | error e =>
    simp only [createFile, hc] at h
    cases h
  | ok made =>
    obtain ⟨home, template⟩ := made
    refine ⟨home.file d nf.fileName .source (renderTemplate template nf), ?_, rfl, rfl, home, ?_,
      rfl⟩
    · simp only [createFile, hc, putFile]
    · exact (of_checkNewFile hc).1

theorem files_of_createFile {e : HostError} (h : (p.createFile d nf).1 = .error e) :
    (p.createFile d nf).2.1.files = p.files := by
  obtain ⟨new, hq, hnew⟩ := exists_createFile p d nf
  rw [h] at hnew
  cases hnew
  rw [hq]
  exact List.append_nil _

/-- The first call for a new class makes its file. If that fails, it is the last one too. -/
theorem exists_of_creation {policy : VisibilityPolicy} {root : Root} {request : CreationRequest}
    {r : Except Failure Created} (h : Creation policy root request d nf r tr) :
    (∃ file tr', tr = ⟨.createFile d nf, true, .ok file⟩ :: tr') ∨
      ∃ e f, tr = [⟨.createFile d nf, true, .error e⟩] ∧ r = .error f := by
  cases h with
  | unmade e => exact .inr ⟨e, _, rfl, rfl⟩
  | unread file e => exact .inl ⟨file, _, rfl⟩
  | classless file => exact .inl ⟨file, _, rfl⟩
  | edited file c cs htr => exact .inl ⟨file, _, rfl⟩

/-- Where the file was made, it is found behind the others as it was made, whatever is called then. -/
theorem stored_of_made {file : FileId}
    (hr : Replays (o.before host) w (⟨.createFile d nf, true, .ok file⟩ :: tr) w')
    (hg : w'.1.file? ⟨w.1.files.length⟩ = some g) : Stored w.1 d nf.fileName g := by
  obtain ⟨hreply, hr⟩ := replays_cons_iff.1 hr
  obtain ⟨made, hfiles, hmade⟩ :=
    stored_of_createFile (p := w.1.enter (.createFile d nf) true) hreply.symm
  have hnew : (o.before host (.createFile d nf) true w).world.1.file? ⟨w.1.files.length⟩ =
      some made := by
    show ((w.1.enter (.createFile d nf) true).createFile d nf).2.1.files[w.1.files.length]? = _
    rw [hfiles]
    exact List.getElem?_concat_length
  obtain ⟨t, ht⟩ := lasting_of_replays hr hnew
  obtain rfl : g = { made with text := t } := Option.some.inj (hg.symm.trans ht)
  exact ⟨hmade.directory, hmade.named, hmade.path⟩

/-- The file is as it was made in the directory that the dialog is confirmed with, and named for the
class that it is confirmed with. The dialog starts with `name`. -/
def Confirmed (p : Project) (s : CreateSettings) (name : Text) (g : File) : Prop :=
  p.script.directory? = some g.directory ∧
    Stored p g.directory (s.fileName (p.script.className name)) g

theorem confirmed_of_asked {fix : CreateClass} {s : CreateSettings} {root : Root} {id file : FileId}
    {module? : Option ModuleId} {request : CreationRequest} (hd : request.directory? = some d)
    (hr : Replays (o.before host) w
      (⟨.moduleOf id, false, module?⟩ :: ⟨.askUser (fix.dialog root module?), false, some request⟩ ::
        ⟨.createFile d (fix.newFile s request), true, .ok file⟩ :: tr) w')
    (hg : w'.1.file? ⟨w.1.files.length⟩ = some g) :
    Confirmed w.1 s fix.reference.name g := by
  obtain ⟨_, className?, _, hs, hrequest⟩ := askUser_eq_some (answer_of_asked hr).symm
  have hname : request.className = w.1.script.className fix.reference.name := by
    rw [hrequest, hs]
    cases className? <;> rfl
  obtain ⟨w₁, hw₁, hrest, hchosen⟩ := exists_of_asked hr
  have hfiles : w₁.1.files = w.1.files := by rw [hw₁]
  rw [← hfiles] at hg
  have hstored : Stored w₁.1 d (s.fileName request.className) g := stored_of_made hrest hg
  rw [hw₁, hname] at hstored
  rw [Confirmed, hchosen request rfl, hd, hstored.directory]
  exact ⟨rfl, hstored.directory, hstored.named, hstored.path⟩

/-- The file that an invocation adds, if any, is the one that the dialog was confirmed with. -/
theorem confirmed_of_course {fix : CreateClass} {s : CreateSettings} {place : Snapshot} {b : Bool}
    {r : Outcome} {notice? : Option ErrorNotice} {ws : List Log.Event}
    (hc : Course fix s place b r tr notice? ws) (hr : Replays (o.before host) w tr w')
    (hg : w'.1.file? ⟨w.1.files.length⟩ = some g) : Confirmed w.1 s fix.reference.name g := by
  have unadded (hw : w'.1.files = w.1.files) : Confirmed w.1 s fix.reference.name g := by
    rw [file?, hw, List.getElem?_eq_none (Nat.le_refl _)] at hg
    cases hg
  cases hc with
  | notApplicable => exact unadded (by rw [replays_nil_iff.1 hr])
  | asked hroot _ module? answer? h =>
    obtain ⟨w₁, hw₁, hrest, -⟩ := exists_of_asked hr
    have hfiles : w₁.1.files = w.1.files := by rw [hw₁]
    cases h with
    | refused | undirected _ | unnamed _ _ =>
      exact unadded (by rw [replays_nil_iff.1 hrest, hfiles])
    | failed hd _ _ htr =>
      rcases exists_of_creation htr with ⟨file, tr', rfl⟩ | ⟨e, f, rfl, -⟩
      · exact confirmed_of_asked hd hr hg
      · obtain ⟨hreply, hrest⟩ := replays_cons_iff.1 hrest
        refine unadded ?_
        rw [replays_nil_iff.1 hrest, ← hfiles]
        exact files_of_createFile (p := w₁.1.enter (.createFile _ _) true) hreply.symm
    | created hd _ _ htr _ =>
      rcases exists_of_creation htr with ⟨file, tr', rfl⟩ | ⟨e, f, -, hf⟩
      · exact confirmed_of_asked hd hr hg
      · cases hf

/-- **A new file is stored directly in the directory that was chosen if its name nests there**, and only
then. Its name is that of the class, which is the one that the dialog was confirmed with. -/
theorem invoke_stores_iff {fix : CreateClass} {s : CreateSettings} {place : Snapshot} {depth : Nat}
    {home : Directory} {base : Text}
    (hg : (fix.invoke (o.before host) s place ⟨w, depth, none, []⟩).2.world.1.file?
      ⟨w.1.files.length⟩ = some g)
    (hhome : w.1.directory? g.directory = some home) (hbase : home.path? = some base) :
    let name := s.fileName (w.1.script.className fix.reference.name)
    w.1.script.directory? = some g.directory ∧ g.name = name ∧ ∃ path, g.path? = some path ∧
      (Path.LiesIn base path ↔ Path.Nests base name) := by
  intro name
  obtain ⟨hr, ws, hc⟩ := exists_replayed (o.before host) fix s place w depth
  obtain ⟨hchosen, hstored⟩ := confirmed_of_course hc hr hg
  obtain ⟨home', hhome', hpath⟩ := hstored.path
  obtain rfl : home = home' := Option.some.inj (hhome.symm.trans hhome')
  rw [hbase] at hpath
  exact ⟨hchosen, hstored.named, _, hpath, Path.liesIn_joinPath_iff⟩

theorem invoke_stores_iff_plain :
    let home : Directory := ⟨⟨"a"⟩, some "/src/a", some mainModule⟩
    let main : File := home.file ⟨0⟩ "Main.groovy" .source "package a\n"
    let p : Project := { empty with
      files := [main]
      directories := [home]
      script := .confirm (some ⟨0⟩) (some "Bar") none }
    let fix : CreateClass := ⟨⟨"Foo", .plain, ⟨0⟩⟩, false⟩
    let run := fix.invoke (Override.none.before host) .default (main.snapshot ⟨0⟩)
      ⟨(p, 0), 0, none, []⟩
    ∃ g path, run.2.world.1.file? ⟨1⟩ = some g ∧ g.name = ("Bar.groovy" : Text) ∧
      g.path? = some path ∧ Path.LiesIn "/src/a" path := by
  intro home main p fix run
  let g : File := home.file ⟨0⟩ "Bar.groovy" .source "package a\n\nclass Bar \x7b\n\x7d\n"
  have hg : run.2.world.1.file? ⟨1⟩ = some g := by decide +kernel
  have hhome : p.directory? g.directory = some home := rfl
  obtain ⟨-, hname, path, hpath, hstored⟩ := invoke_stores_iff hg hhome rfl
  exact ⟨g, path, hg, hname, hpath, hstored.2 (Path.nests_of_not_mem (by decide) (by decide) _)⟩

/-- A name that starts with a slash leads out of the directory that was chosen. -/
theorem invoke_stores_outside :
    let home : Directory := ⟨⟨"a"⟩, some "/src/a", some mainModule⟩
    let main : File := home.file ⟨0⟩ "Main.groovy" .source "package a\n"
    let p : Project := { empty with
      files := [main]
      directories := [home]
      script := .confirm (some ⟨0⟩) (some "/etc/Foo") none }
    let fix : CreateClass := ⟨⟨"Foo", .plain, ⟨0⟩⟩, false⟩
    let run := fix.invoke (Override.none.before host) .default (main.snapshot ⟨0⟩)
      ⟨(p, 0), 0, none, []⟩
    ∃ g path, run.2.world.1.file? ⟨1⟩ = some g ∧ g.directory = ⟨0⟩ ∧ g.path? = some path ∧
      ¬Path.LiesIn "/src/a" path := by
  intro home main p fix run
  let g : File := home.file ⟨0⟩ "/etc/Foo.groovy" .source "package a\n\nclass /etc/Foo \x7b\n\x7d\n"
  refine ⟨g, "/etc/Foo.groovy", by decide +kernel, rfl, rfl, fun ⟨name, h⟩ => ?_⟩
  have hsecond : (Path.components "/etc/Foo.groovy")[1]? = (Path.components "/src/a")[1]? := by
    rw [h]
    rfl
  exact absurd hsecond (by decide +kernel)

end

end Project

end QuickFix
