import QuickFix.Proofs.Project.Reporting
import QuickFix.Proofs.Source.Importing

/-!
# Calls that fail

A call that is to change something and is answered with an error leaves what the project holds and has
recorded as it was (`Kept`). All checks come before the changes, but for one: an import is recorded
before its file is looked for. `strayImport?` is the import that is recorded for a file that there is
not, and `failed_keeps_iff` says that nothing else gets through.
-/

namespace QuickFix

open QuickFix.Fix

namespace Project

/-- The projects hold and have recorded the same. The number of calls, the violations, and what the
next call is to fail with or to be overwritten by may differ. -/
structure Kept (p q : Project) : Prop where
  files : q.files = p.files
  directories : q.directories = p.directories
  templates : q.templates = p.templates
  script : q.script = p.script
  sealedPackages : q.sealedPackages = p.sealedPackages
  dialogs : q.dialogs = p.dialogs
  imports : q.imports = p.imports
  opens : q.opens = p.opens
  errors : q.errors = p.errors

/-- The import that a call asks for in a file that there is not, unless the import is to fail
anyway. -/
def strayImport? (p : Project) : Call → Option (FileId × QualifiedName)
  | .addImport id name =>
    if p.failImport? = none ∧ p.file? id = none then some (id, name) else none
  | _ => none

variable {p : Project}

/-! ## The parts of a call -/

theorem kept_enter (p : Project) (c : Call) (b : Bool) : Kept p (p.enter c b) :=
  ⟨rfl, rfl, rfl, rfl, rfl, rfl, rfl, rfl, rfl⟩

theorem Kept.trans {q r : Project} (h : Kept p q) (h' : Kept q r) : Kept p r where
  files := h'.files.trans h.files
  directories := h'.directories.trans h.directories
  templates := h'.templates.trans h.templates
  script := h'.script.trans h.script
  sealedPackages := h'.sealedPackages.trans h.sealedPackages
  dialogs := h'.dialogs.trans h.dialogs
  imports := h'.imports.trans h.imports
  opens := h'.opens.trans h.opens
  errors := h'.errors.trans h.errors

/-- No file is made where one is refused. -/
theorem kept_createFile {d : DirectoryId} {f : NewFile} {e : HostError}
    (h : (p.createFile d f).1 = .error e) : Kept p (p.createFile d f).2.1 := by
  cases hc : p.checkNewFile d f with
  | error e' =>
    simp only [createFile, hc]
    exact ⟨rfl, rfl, rfl, rfl, rfl, rfl, rfl, rfl, rfl⟩
  | ok made => simp [createFile, hc] at h

/-- The file and the class are looked for, and the edit is tried, before a text changes. -/
theorem kept_editClass {c : ClassInfo} {e : HostError}
    {edit : Declaration → Text → Except StaleDeclaration (Option Edit)}
    (h : (p.editClass c edit).1 = .error e) : Kept p (p.editClass c edit).2 := by
  unfold editClass at h ⊢
  dsimp only at h ⊢
  split
  · exact ⟨rfl, rfl, rfl, rfl, rfl, rfl, rfl, rfl, rfl⟩
  · rename_i f hf
    split
    · exact ⟨rfl, rfl, rfl, rfl, rfl, rfl, rfl, rfl, rfl⟩
    · rename_i t ht
      simp [hf, ht] at h

/-- An import goes between two lines of a text, whatever it is. -/
theorem exists_edited_import (name : QualifiedName) (t : Text) :
    ∃ r, edited t (importEdit? name t) = .ok r := by
  cases he : importEdit? name t with
  | none => exact ⟨t, rfl⟩
  | some e =>
    obtain ⟨after, ht, -⟩ := Source.exists_after_importPlace t
    unfold importEdit? at he
    split at he
    · cases he
    · have hr := Edit.insert_apply (Source.importPlace t).before
        (Source.importText name (Source.importPlace t) t) after
      rw [← ht, Option.some.inj he] at hr
      exact ⟨_, edited_eq_ok hr⟩

/-- The import is recorded before the file is looked for. -/
theorem addImport_absent {id : FileId} (name : QualifiedName) (hfail : p.failImport? = none)
    (hf : p.file? id = none) :
    p.addImport id name =
      (.error (.unknownFile id), { p with imports := p.imports ++ [(id, name)] }) := by
  have hfile : ({ p with imports := p.imports ++ [(id, name)] } : Project).file? id = none := hf
  unfold addImport
  split
  · rename_i e he
    rw [hfail] at he
    cases he
  · simp only [hfile]

/-- An import that is to fail is not recorded; one into a file that there is not is. -/
theorem kept_addImport {id : FileId} {name : QualifiedName} {e : HostError}
    (h : (p.addImport id name).1 = .error e) :
    Kept { p with imports := p.imports ++ (p.strayImport? (.addImport id name)).toList }
      (p.addImport id name).2 := by
  cases hfail : p.failImport? with
  | some e' =>
    simp only [addImport, strayImport?, hfail, reduceCtorEq, false_and, if_false,
      Option.toList_none, List.append_nil]
    exact ⟨rfl, rfl, rfl, rfl, rfl, rfl, rfl, rfl, rfl⟩
  | none =>
    cases hf : p.file? id with
    | none =>
      rw [addImport_absent name hfail hf, strayImport?, if_pos ⟨hfail, hf⟩]
      exact ⟨rfl, rfl, rfl, rfl, rfl, rfl, rfl, rfl, rfl⟩
    | some f =>
      obtain ⟨r, hr⟩ := exists_edited_import name f.text
      rw [addImport_eq hfail hf hr] at h
      cases h

/-! ## All calls -/

/-- What a change that fails leaves: everything, and the stray import behind the others. -/
theorem kept_of_error {c : Call} {e : HostError} {isWriting : Bool} (hc : affinity c = .inside)
    (he : c.error? (host c isWriting p).reply = some e) :
    Kept { p with imports := p.imports ++ (p.strayImport? c).toList }
      (host c isWriting p).world := by
  have enter (c : Call) : Kept { p with imports := p.imports ++ [] } (p.enter c isWriting) := by
    rw [List.append_nil]
    exact kept_enter p c isWriting
  cases c with
  | createFile d f =>
    refine (enter _).trans (kept_createFile (e := e) ?_)
    show (host (.createFile d f) isWriting p).reply = _
    generalize (host (.createFile d f) isWriting p).reply = reply at he ⊢
    cases reply <;> simp_all [Call.error?]
  | setVisibility c v =>
    refine (enter _).trans (kept_editClass (e := e) ?_)
    show (host (.setVisibility c v) isWriting p).reply = _
    generalize (host (.setVisibility c v) isWriting p).reply = reply at he ⊢
    cases reply <;> simp_all [Call.error?]
  | addConstructor c =>
    refine (enter _).trans (kept_editClass (e := e) ?_)
    show (host (.addConstructor c) isWriting p).reply = _
    generalize (host (.addConstructor c) isWriting p).reply = reply at he ⊢
    cases reply <;> simp_all [Call.error?]
  | addImport id name =>
    refine (kept_enter _ (.addImport id name) isWriting).trans ?_
    refine kept_addImport (p := p.enter (.addImport id name) isWriting) (e := e) ?_
    show (host (.addImport id name) isWriting p).reply = _
    generalize (host (.addImport id name) isWriting p).reply = reply at he ⊢
    cases reply <;> simp_all [Call.error?]
  | moduleOf _ | askUser _ | classesOf _ | isAccessible _ _ | pathOf _ | openEditor _ _ _
  | showError _ => cases hc

/-- **A change that fails changes nothing**, of all that the project holds and has recorded, exactly if
it is no import into a file that there is not. Such an import is recorded. -/
theorem failed_keeps_iff {c : Call} {e : HostError} {isWriting : Bool} (hc : affinity c = .inside)
    (he : c.error? (host c isWriting p).reply = some e) :
    (Kept p (host c isWriting p).world ↔ p.strayImport? c = none) ∧
      Kept { p with imports := p.imports ++ (p.strayImport? c).toList }
        (host c isWriting p).world := by
  have h := kept_of_error hc he
  refine ⟨⟨fun hk => ?_, fun hn => ?_⟩, h⟩
  · have himports : p.imports = p.imports ++ (p.strayImport? c).toList :=
      hk.imports.symm.trans h.imports
    cases hs : p.strayImport? c with
    | none => rfl
    | some i => simp [hs] at himports
  · rwa [hn, Option.toList_none, List.append_nil] at h

/-- A class that its file does not hold keeps its file, though another writer waits for an edit. -/
theorem failed_keeps_iff_absent :
    let home : Directory := ⟨.default, none, some mainModule⟩
    let f : File := home.file ⟨0⟩ "A.groovy" .source "class A \x7b\x7d\n"
    let p : Project := { empty with
      files := [f], directories := [home], overwrite? := some "class B \x7b\x7d\n" }
    let c : Call := .setVisibility ⟨⟨0⟩, "B", .plain, none, none, ⟨0, 0⟩⟩ .priv
    affinity c = .inside ∧ c.error? (host c true p).reply =
      some (.incorrectOperation "class `B` not found") ∧ Kept p (host c true p).world := by
  intro home f p c
  have he : c.error? (host c true p).reply =
      some (.incorrectOperation "class `B` not found") := by decide +kernel
  exact ⟨rfl, he, (failed_keeps_iff rfl he).1.2 rfl⟩

/-- An import into a file that there is not fails, and is recorded all the same. -/
theorem failed_import_recorded :
    let r := host (.addImport ⟨0⟩ ⟨"a.B"⟩) true empty
    r.reply = .error (.unknownFile ⟨0⟩) ∧ r.world.imports = [(⟨0⟩, ⟨"a.B"⟩)] ∧
      ¬ Kept empty r.world :=
  ⟨rfl, rfl, fun h => nomatch h.imports⟩

end Project

end QuickFix
