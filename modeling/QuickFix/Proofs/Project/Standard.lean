import QuickFix.Proofs.Project.NewClass
import QuickFix.Proofs.Project.Reporting

/-!
# A class in a standard project

A project with its own templates, in which nothing is to fail and no other writer waits
(`IsStandard`), makes every class that it is asked for. The parts of the fix are run one after the
other: each yields its value, and the project works on with the files that the part leaves (`Works`).
The new file always has the text of a new class (`HasClass`), so that every part finds the class in it.

* `Yields`: a session that comes to one value from every world of some kind, with a rule for each way
  to put sessions together;
* `invoke_creates`: what the fix leaves, and what it reports.
-/

namespace QuickFix

open QuickFix.Fix

namespace Fix

variable {σ α β : Type} {H : Host σ}

/-- From every world with `P` the session comes to the value `a` and to a world with `Q`. -/
def Yields (P : σ → Prop) (p : Session σ α) (a : α) (Q : σ → Prop) : Prop :=
  ∀ s, P s.world → (p s).1 = a ∧ Q (p s).2.world

namespace Yields

variable {P Q R : σ → Prop} {p : Session σ α} {a : α} {b : β}

theorem pure (a : α) : Yields P (Pure.pure a : Session σ α) a P := fun _ h => ⟨rfl, h⟩

theorem call {c : Call} {reply : c.Reply}
    (h : ∀ isWriting w, P w → (H c isWriting w).reply = reply ∧ Q (H c isWriting w).world) :
    Yields P (Session.call H c) reply Q := fun _ hs => h _ _ hs

theorem write (h : Yields P p a Q) : Yields P (Session.write p) a Q := fun _ hs => h _ hs

theorem bind {f : α → Session σ β} (h : Yields P p a Q) (hf : Yields Q (f a) b R) :
    Yields P (p >>= f) b R := by
  intro s hs
  obtain ⟨ha, hq⟩ := h s hs
  rw [bind_apply, ha]
  exact hf _ hq

theorem bindRun {x : Attempt σ α} {f : α → Attempt σ β} {r : Except Failure β}
    (h : Yields P x.run (.ok a) Q) (hf : Yields Q (f a).run r R) : Yields P (x >>= f).run r R := by
  rw [ExceptT.run_bind]
  exact h.bind hf

theorem attempt {p : Session σ (Except HostError α)} (h : Yields P p (.ok a) Q) :
    Yields P (Fix.attempt p).run (.ok a) Q := h.bind (pure _)

theorem lift (h : Yields P p a Q) : Yields P (ExceptT.lift p : Attempt σ α).run (.ok a) Q :=
  fun s hs => ⟨congrArg Except.ok (h s hs).1, (h s hs).2⟩

theorem logged (e : Log.Event) : Yields P (Fix.logged e : Attempt σ Unit).run (.ok ()) P :=
  lift fun _ hs => ⟨rfl, hs⟩

end Yields

end Fix

namespace Project

/-! ## Standard projects -/

/-- The project makes files from its own templates, nothing is to fail in it, and no other writer
waits. -/
structure IsStandard (p : Project) : Prop where
  templates : ∀ k, p.templates.lookup (Templates.default.get k) =
    defaultTemplates.lookup (Templates.default.get k)
  failCreation? : p.failCreation? = none
  failImport? : p.failImport? = none
  failOpen? : p.failOpen? = none
  overwrite? : p.overwrite? = none

/-- The project `q` is `p` at work: it has the files `fs` and opened no editor so far. -/
structure Works (p : Project) (fs : List File) (q : Project) : Prop extends IsStandard q where
  files : q.files = fs
  directories : q.directories = p.directories
  script : q.script = p.script
  opens : q.opens = p.opens

/-- The file of a new class in the directory `d`, which is `home`. -/
def NewClass.file (c : NewClass) (d : DirectoryId) (home : Directory) : File :=
  home.file d (c.name ++ ".groovy") .source c.text

/-- A new class as a project knows it. -/
def NewClass.info (c : NewClass) (id : FileId) (span : Span) : ClassInfo :=
  ⟨id, c.name, c.kind, some (c.package.qualify c.name),
    some (if c.isPublic then .pub else .package), span⟩

/-- Must the class be imported to be used in the package `current`? -/
def NewClass.IsForeign (c : NewClass) (current : PackageName) : Prop :=
  c.package ≠ .default ∧ c.package ≠ current

instance (c : NewClass) (current : PackageName) : Decidable (c.IsForeign current) :=
  inferInstanceAs (Decidable (_ ∧ _))

/-- The text `t'` is `t` with the class imported into it, if it must be. -/
def NewClass.Imports (c : NewClass) (current : PackageName) (t t' : Text) : Prop :=
  if c.IsForeign current then edited t (importEdit? (c.package.qualify c.name) t) = .ok t' else t' = t

/-- What the fix reports about a new class that was asked for in the package `current`. -/
def NewClass.report (c : NewClass) (id : FileId) (span : Span) (current : PackageName) : Created where
  declared := c.info id span
  widened? := if c.package = current then none else some .pub
  constructorAdded := c.hasConstructor
  imported? := if c.IsForeign current then some (c.package.qualify c.name) else none

/-- How a file is shown. -/
def File.shown (g : File) (offset : Nat) : Navigation := g.path?.elim .skipped (.opened · offset)

/-- The editors that are opened for a file. -/
def File.opens (g : File) (offset : Nat) : List EditorOpen :=
  (g.path?.map fun path => ⟨path, offset, true⟩).toList

theorem Declares.classInfo_eq {c : NewClass} {d : Declaration} (hd : Declares c d) (id : FileId) :
    classInfo id c.package d = c.info id d.span := by
  rw [classInfo, hd.name, hd.kind, hd.visibility]
  rfl

variable {p q : Project} {fs : List File} {g : File} {c : NewClass} {dir : DirectoryId}
  {home : Directory} {d : Declaration}

theorem IsStandard.works (h : p.IsStandard) : Works p p.files p :=
  { h with files := rfl, directories := rfl, script := rfl, opens := rfl }

namespace Works

theorem enter (h : Works p fs q) (call : Call) (isWriting : Bool) :
    Works p fs (q.enter call isWriting) := { h with }

theorem file?_eq (h : Works p fs q) (id : FileId) : q.file? id = fs[id.number]? := by
  rw [file?, h.files]

theorem file?_new (h : Works p (p.files ++ [g]) q) : q.file? ⟨p.files.length⟩ = some g := by
  rw [h.file?_eq]
  exact List.getElem?_concat_length

theorem file?_old (h : Works p (p.files ++ [g]) q) {id : FileId} {f : File}
    (hf : p.file? id = some f) : q.file? id = some f := by
  rw [h.file?_eq, List.getElem?_append_left (List.getElem?_eq_some_iff.1 hf).1]
  exact hf

theorem setText (h : Works p fs q) (id : FileId) (t : Text) :
    Works p (fs.modify id.number fun f => { f with text := t }) (q.setText id t) := by
  obtain rfl := h.files
  exact { h with files := rfl }

/-! ## What the calls do -/

/-- A file is made in a directory that has none of its name. -/
theorem createFile (h : Works p p.files q) {nf : NewFile} {kind : ClassKind}
    (hdir : p.directory? dir = some home) (hnew : p.find? dir nf.fileName = none)
    (ht : nf.template = Templates.default.get kind) :
    (q.createFile dir nf).1 = .ok ⟨p.files.length⟩ ∧
      Works p (p.files ++
        [home.file dir nf.fileName .source (renderTemplate (defaultTemplate kind) nf)])
        (q.createFile dir nf).2.1 := by
  have hchecked : q.checkNewFile dir nf = .ok (home, defaultTemplate kind) := by
    have htemplate : q.templates.lookup nf.template = some (defaultTemplate kind) := by
      rw [ht, h.templates, lookup_defaultTemplates]
    have hdir : q.directory? dir = some home := by rw [← hdir, directory?, h.directories]; rfl
    have hnew : q.find? dir nf.fileName = none := by rw [← hnew, find?, h.files]; rfl
    unfold checkNewFile
    simp only [h.failCreation?, hdir, htemplate, hnew]
  unfold Project.createFile
  simp only [hchecked, putFile, h.files, true_and]
  exact { h with failCreation? := rfl, files := rfl }

/-- An edit of the only class of the new file. -/
theorem editClass (h : Works p (p.files ++ [g]) q) {info : ClassInfo}
    {edit : Declaration → Text → Except StaleDeclaration (Option Edit)} {e : Edit} {t : Text}
    (hid : info.file = ⟨p.files.length⟩) (hds : declarations g.text = [d])
    (hname : info.name = d.name) (he : edit d g.text = .ok (some e)) (ht : e.apply g.text = .ok t) :
    (q.editClass info edit).1 = .ok () ∧
      Works p (p.files ++ [{ g with text := t }]) (q.editClass info edit).2 := by
  have hfind : (declarations g.text).find? (fun d => d.name = info.name) = some d := by
    rw [hds]
    exact List.find?_cons_of_pos (decide_eq_true hname.symm)
  have hquiet : ({ q with overwrite? := none } : Project) = q := by rw [← h.overwrite?]
  have hfile : q.file? info.file = some g := by
    rw [hid]
    exact h.file?_new
  have hedited : editedClass info.name g.text (fun d => (edit d g.text).toOption.join) = .ok t := by
    unfold editedClass
    simp only [hfind, he]
    exact edited_eq_ok ht
  unfold Project.editClass
  simp only [hquiet, hfile, hedited, h.overwrite?, Option.getD_none, true_and]
  have hmodify : (p.files ++ [g]).modify p.files.length (fun f => { f with text := t }) =
      p.files ++ [{ g with text := t }] := List.modifyTailIdx_add _ 0 p.files [g]
  rw [hid, ← hmodify]
  exact h.setText ⟨p.files.length⟩ t

/-- An import that goes to a file. -/
theorem addImport (h : Works p fs q) {id : FileId} {f : File} {name : QualifiedName} {t : Text}
    (hf : q.file? id = some f) (ht : edited f.text (importEdit? name f.text) = .ok t) :
    (q.addImport id name).1 = .ok () ∧
      Works p (fs.set id.number { f with text := t }) (q.addImport id name).2 := by
  have hnoted : Works p fs { q with imports := q.imports ++ [(id, name)] } := { h with }
  have hset : fs.modify id.number (fun f => { f with text := t }) =
      fs.set id.number { f with text := t } := by
    rw [List.modify_eq_set_getElem?, ← h.file?_eq, hf]
    rfl
  rw [addImport_eq h.failImport? hf ht, ← hset]
  exact ⟨rfl, hnoted.setText id t⟩

end Works

/-! ## What the parts of the fix do -/

/-- The project `p` at work, with the new class `c`. -/
def HasClass (p : Project) (dir : DirectoryId) (home : Directory) (c : NewClass) :
    Project → Prop :=
  Works p (p.files ++ [c.file dir home])

theorem makeFile_yields {kind : ClassKind} {nf : NewFile}
    (hdir : p.directory? dir = some home) (hnew : p.find? dir nf.fileName = none)
    (hfile : nf.fileName = nf.className ++ ".groovy") (ht : nf.template = Templates.default.get kind)
    (hc : (NewClass.mk nf.package false kind nf.className false).IsNamed) :
    Yields (Works p p.files) (makeFile host dir nf).run (.ok ⟨p.files.length⟩)
      (HasClass p dir home ⟨nf.package, false, kind, nf.className, false⟩) := by
  have hcall : Yields (Works p p.files) (Session.call host (.createFile dir nf))
      (.ok ⟨p.files.length⟩)
      (HasClass p dir home ⟨nf.package, false, kind, nf.className, false⟩) := by
    have htext := NewClass.renderTemplate_default kind hc.package hc.name nf.fileName nf.template
    refine .call fun isWriting w h => ?_
    obtain ⟨hreply, hworks⟩ := (h.enter (.createFile dir nf) isWriting).createFile hdir hnew ht
    refine ⟨hreply, ?_⟩
    rw [HasClass, NewClass.file, ← htext, ← hfile]
    exact hworks
  exact hcall.bind (.pure _)

/-- The class is found in its file. -/
theorem classesOf_yields (hc : c.IsNamed) (hd : Found c d) :
    Yields (HasClass p dir home c) (attempt (Session.call host (.classesOf ⟨p.files.length⟩))).run
      (.ok [c.info ⟨p.files.length⟩ d.span]) (HasClass p dir home c) := by
  refine .attempt (.call fun isWriting w h => ⟨?_, h.enter _ _⟩)
  show w.classesOf ⟨p.files.length⟩ = _
  unfold classesOf
  rw [h.file?_new]
  show Except.ok ((declarations c.text).map (classInfo _ (statedPackage c.text))) = _
  rw [hd.declarations_eq, c.statedPackage_text hc, List.map_singleton, hd.classInfo_eq]

theorem firstClass_yields (hc : c.IsNamed) (hd : Found c d) :
    Yields (HasClass p dir home c) (firstClass host c.name ⟨p.files.length⟩).run
      (.ok (c.info ⟨p.files.length⟩ d.span)) (HasClass p dir home c) :=
  (classesOf_yields hc hd).bindRun (.pure _)

theorem reread_yields (hc : c.IsNamed) (hd : Found c d) {info : ClassInfo}
    (hname : info.name = c.name) :
    Yields (HasClass p dir home c) (reread host info ⟨p.files.length⟩).run
      (.ok (c.info ⟨p.files.length⟩ d.span)) (HasClass p dir home c) := by
  have hfind : [c.info ⟨p.files.length⟩ d.span].find? (fun d => d.name = info.name) =
      some (c.info ⟨p.files.length⟩ d.span) :=
    List.find?_cons_of_pos (decide_eq_true hname.symm)
  refine (classesOf_yields hc hd).bindRun ?_
  rw [hfind]
  exact .pure _

/-- Only a class of the same package can be used without a level. -/
theorem requiredVisibility?_yields {id : FileId} {f : File} (hpublic : c.isPublic = false)
    (hd : Found c d) (hf : p.file? id = some f) :
    Yields (HasClass p dir home c)
      (requiredVisibility? host .widest (c.info ⟨p.files.length⟩ d.span) id)
      (if c.package = f.package then none else some .pub) (HasClass p dir home c) := by
  have husable : Yields (HasClass p dir home c)
      (Session.call host (.isAccessible (c.info ⟨p.files.length⟩ d.span) id))
      (decide (c.package = f.package)) (HasClass p dir home c) := by
    refine .call fun isWriting w h => ⟨?_, h.enter _ _⟩
    have hlevel : d.visibility = .package := by
      rw [hd.visibility, hpublic]
      rfl
    have hiff : w.isAccessible (classInfo ⟨p.files.length⟩ c.package d) id = true ↔
        c.package = f.package := by
      rw [isAccessible_classInfo_iff hd.mem (h.file?_old hf) (new_ne hf), hlevel]
      simp
    rw [hd.classInfo_eq] at hiff
    exact Bool.eq_iff_iff.2 (hiff.trans decide_eq_true_iff.symm)
  have hvisibility : (c.info ⟨p.files.length⟩ d.span).visibility? = some .package := by
    rw [NewClass.info, hpublic]
    rfl
  rw [requiredVisibility?_eq hvisibility (by decide)]
  refine husable.bind ?_
  by_cases h : c.package = f.package
  · rw [if_pos h, decide_eq_true h]
    exact .pure _
  · rw [if_neg h, decide_eq_false h]
    exact .pure _

/-- A class without a level is opened up exactly for another package. -/
theorem widen_yields {id : FileId} {f : File} (hpublic : c.isPublic = false) (hd : Found c d)
    (hf : p.file? id = some f) :
    Yields (HasClass p dir home c) (widen host .widest (c.info ⟨p.files.length⟩ d.span) id).run
      (.ok (if c.package = f.package then none else some .pub))
      (HasClass p dir home { c with isPublic := c.package ≠ f.package }) := by
  refine (requiredVisibility?_yields hpublic hd hf).lift.bindRun ?_
  by_cases h : c.package = f.package
  · have hsame : { c with isPublic := decide (c.package ≠ f.package) } = c := by
      rw [decide_eq_false (not_not_intro h), ← hpublic]
    rw [if_pos h, hsame]
    exact .pure _
  · rw [if_neg h, decide_eq_true h]
    obtain ⟨e, he, ht⟩ := hd.visibilityEdit_pub hpublic
    have hcall : Yields (HasClass p dir home c)
        (Session.call host (.setVisibility (c.info ⟨p.files.length⟩ d.span) .pub)) (.ok ())
        (HasClass p dir home { c with isPublic := true }) :=
      .call fun isWriting w h =>
        Works.editClass (h.enter _ isWriting) rfl hd.declarations_eq hd.name.symm he ht
    exact hcall.attempt.bindRun (.pure _)

/-- A plain class gets the constructor that is wanted. -/
theorem giveConstructor_yields (hc : c.IsNamed) (hnone : c.hasConstructor = false)
    (hd : Found c d) {info : ClassInfo} (hid : info.file = ⟨p.files.length⟩)
    (hname : info.name = c.name) (hkind : info.kind = c.kind) (isWanted : Bool) :
    Yields (HasClass p dir home c) (giveConstructor host isWanted info).run
      (.ok (isWanted && c.kind = .plain))
      (HasClass p dir home { c with hasConstructor := isWanted && c.kind = .plain }) := by
  unfold giveConstructor
  rw [hkind]
  cases h : isWanted && decide (c.kind = .plain) with
  | false =>
    have hsame : { c with hasConstructor := false } = c := by rw [← hnone]
    rw [hsame]
    exact .pure _
  | true =>
    obtain ⟨e, he, ht⟩ := hd.constructorEdit_text hc hnone
    have hcall : Yields (HasClass p dir home c) (Session.call host (.addConstructor info)) (.ok ())
        (HasClass p dir home { c with hasConstructor := true }) :=
      .call fun isWriting w h =>
        Works.editClass (h.enter _ isWriting) hid hd.declarations_eq (hname.trans hd.name.symm) he ht
    exact hcall.attempt.bindRun (.pure _)

theorem needsImport_eq (hd : Found c d) (current : PackageName) :
    needsImport (c.package.qualify c.name) current = decide (c.IsForeign current) := by
  refine Bool.eq_iff_iff.2 (Iff.trans ?_ decide_eq_true_iff.symm)
  rw [← hd.name, needsImport_classInfo hd.mem, Bool.and_eq_true, Bool.not_eq_true',
    ← Bool.not_eq_true, PackageName.isDefault_iff, decide_eq_true_iff]
  rfl

/-- A class that needs an import gets it. -/
theorem giveImport_yields {id : FileId} {f : File} (hc : c.IsNamed) (hd : Found c d)
    (hf : p.file? id = some f) :
    ∃ t, c.Imports f.package f.text t ∧
      Yields (HasClass p dir home c) (giveImport host (c.info ⟨p.files.length⟩ d.span) id f.package)
        (if c.IsForeign f.package then some (c.package.qualify c.name) else none)
        (Works p (p.files.set id.number { f with text := t } ++ [c.file dir home])) := by
  have hlt : id.number < p.files.length := (List.getElem?_eq_some_iff.1 hf).1
  have hclass : (c.info ⟨p.files.length⟩ d.span).qualified? = some (c.package.qualify c.name) := rfl
  unfold giveImport NewClass.Imports
  rw [hclass, Option.filter_some, needsImport_eq hd]
  by_cases h : c.IsForeign f.package
  · have hdotted : Text.isDotted (c.package.qualify c.name).text = true := by
      refine QualifiedName.isDotted_qualify hc.name (Text.dot_not_mem_of_isIdentifier hc.name) ?_
      exact fun _ => hc.package.resolve_left h.1
    obtain ⟨t, ht, -⟩ := exists_edited_importEdit? hdotted f.text
    have hcall : Yields (HasClass p dir home c)
        (Session.call host (.addImport id (c.package.qualify c.name))) (.ok ())
        (Works p (p.files.set id.number { f with text := t } ++ [c.file dir home])) := by
      rw [← List.set_append_left _ _ hlt]
      exact .call fun isWriting w h => Works.addImport (h.enter _ isWriting) (h.file?_old hf) ht
    simp only [decide_eq_true h, if_pos h, if_true]
    exact ⟨t, ht, hcall.bind (.pure _)⟩
  · have hsame : p.files.set id.number f = p.files := by
      obtain ⟨_, rfl⟩ := List.getElem?_eq_some_iff.1 hf
      exact List.set_getElem_self hlt
    simp only [decide_eq_false h, if_neg h, Bool.false_eq_true, if_false]
    refine ⟨f.text, rfl, ?_⟩
    rw [hsame]
    exact .pure _

theorem openEditor_eq (h : q.failOpen? = none) (path : Text) (offset : Nat) (focus : Bool) :
    q.openEditor path offset focus =
      (.ok (), { q with opens := q.opens ++ [⟨path, offset, focus⟩] }) := by
  unfold openEditor
  split
  · rename_i e he
    rw [h] at he
    cases he
  · rfl

/-- A class is shown where it is, if its file is stored. -/
theorem navigate_yields {info : ClassInfo} (hg : fs[info.file.number]? = some g) :
    Yields (Works p fs) (navigate host info) (g.shown info.span.start) fun q =>
      q.files = fs ∧ q.opens = p.opens ++ g.opens info.span.start := by
  have hpath : Yields (Works p fs) (Session.call host (.pathOf info.file)) g.path? (Works p fs) := by
    refine .call fun isWriting w h => ⟨?_, h.enter _ _⟩
    have hfile : w.file? info.file = some g := (h.file?_eq _).trans hg
    show (w.file? info.file).bind File.path? = g.path?
    rw [hfile]
    rfl
  refine hpath.bind ?_
  unfold File.shown File.opens
  cases g.path? with
  | none => exact fun _ h => ⟨rfl, h.files, h.opens.trans (List.append_nil _).symm⟩
  | some path =>
    have hopen : Yields (Works p fs) (Session.call host (.openEditor path info.span.start true))
        (.ok ()) fun q => q.files = fs ∧ q.opens = p.opens ++ [⟨path, info.span.start, true⟩] := by
      refine .call fun isWriting w h => ?_
      have hentered := h.enter (.openEditor path info.span.start true) isWriting
      have hopened := openEditor_eq hentered.failOpen? path info.span.start true
      exact ⟨congrArg Prod.fst hopened, (congrArg (fun r => r.2.files) hopened).trans h.files,
        (congrArg (fun r => r.2.opens) hopened).trans (congrArg (· ++ _) h.opens)⟩
    exact hopen.bind (.pure _)

/-! ## The whole fix -/

/-- The new class as it is in the end. -/
def NewClass.finished (c : NewClass) (current : PackageName) (isWanted : Bool) : NewClass :=
  { c with isPublic := c.package ≠ current, hasConstructor := isWanted && c.kind = .plain }

theorem NewClass.IsNamed.finished (hc : c.IsNamed) (current : PackageName) (isWanted : Bool) :
    (c.finished current isWanted).IsNamed := ⟨hc.name, hc.package, hc.notStatic⟩

theorem editClass_yields (dir : DirectoryId) (home : Directory) {root : Root} {f : File}
    (hroot : root.package = f.package) (hf : p.file? root.file = some f) (hc : c.IsNamed)
    (hpublic : c.isPublic = false) (hnone : c.hasConstructor = false) (hd : Found c d)
    (isWanted : Bool) :
    ∃ (span : Span) (t : Text), span.start = Text.bytes c.lead ∧ c.Imports f.package f.text t ∧
      Yields (HasClass p dir home c)
        (Fix.editClass host .widest root isWanted ⟨p.files.length⟩
          (c.info ⟨p.files.length⟩ d.span)).run
        (.ok ((c.finished f.package isWanted).report ⟨p.files.length⟩ span f.package))
        (Works p (p.files.set root.file.number { f with text := t } ++
          [(c.finished f.package isWanted).file dir home])) := by
  let opened : NewClass := { c with isPublic := c.package ≠ f.package }
  have hopened : opened.IsNamed := ⟨hc.name, hc.package, hc.notStatic⟩
  have hfinished := hc.finished f.package isWanted
  obtain ⟨d₁, hd₁⟩ := opened.exists_found hopened
  obtain ⟨d₂, hd₂⟩ := (c.finished f.package isWanted).exists_found hfinished
  obtain ⟨t, ht, himport⟩ := giveImport_yields hfinished hd₂ hf
  refine ⟨d₂.span, t, hd₂.start, ht, ?_⟩
  rw [Fix.editClass, hroot]
  -- each part finds the text that the one before it left
  refine (widen_yields hpublic hd hf).bindRun ?_
  refine (giveConstructor_yields hopened hnone hd₁ rfl rfl rfl isWanted).bindRun ?_
  refine (reread_yields hfinished hd₂ rfl).bindRun ?_
  exact himport.lift.bindRun (.pure _)

theorem fileName_default (name : Text) :
    CreateSettings.default.fileName name = name ++ ".groovy" := by
  have hextension : CreateSettings.default.cleanExtension = "groovy" := by decide
  rw [CreateSettings.fileName, hextension, List.append_assoc]
  rfl

/-- The class that a request asks for, as the default template has it. -/
def templateClass (fix : CreateClass) (request : CreationRequest) : NewClass :=
  ⟨request.package, false, fix.reference.kind, request.className, false⟩

theorem create_yields {fix : CreateClass} {root : Root} {f : File} {request : CreationRequest}
    (hroot : root.package = f.package) (hf : p.file? root.file = some f)
    (hdir : p.directory? dir = some home) (hnew : p.find? dir (request.className ++ ".groovy") = none)
    (hc : (templateClass fix request).IsNamed) :
    let c := (templateClass fix request).finished f.package request.addConstructor
    ∃ (span : Span) (t : Text), span.start = Text.bytes c.lead ∧ c.Imports f.package f.text t ∧
      Yields (Works p p.files) (fix.create host .default root request dir).run
        (.ok (c.report ⟨p.files.length⟩ span f.package))
        (Works p (p.files.set root.file.number { f with text := t } ++ [c.file dir home])) := by
  intro c
  obtain ⟨d, hd⟩ := (templateClass fix request).exists_found hc
  obtain ⟨span, t, hspan, ht, hedit⟩ :=
    editClass_yields dir home hroot hf hc rfl rfl hd request.addConstructor
  refine ⟨span, t, hspan, ht, ?_⟩
  have hne : request.className ≠ [] := by
    intro h
    have hname : Text.isIdentifier request.className = true := hc.name
    rw [h] at hname
    cases hname
  rw [create_named hne]
  have hname := fileName_default request.className
  refine (makeFile_yields hdir (by rwa [← hname] at hnew) hname rfl hc).bindRun ?_
  refine (firstClass_yields hc hd).bindRun ?_
  exact (Yields.logged _).bindRun hedit

/-- The request that a script confirms. -/
def confirmed (fix : CreateClass) (module? : Option ModuleId) (dir : DirectoryId)
    (home : Directory) (name? : Option Text) (addConstructor? : Option Bool) : CreationRequest where
  directory? := some dir
  package := home.package
  className := name?.getD fix.reference.name
  module? := home.module?.or module?
  addConstructor := addConstructor?.getD fix.addConstructor

theorem askUser_yields {fix : CreateClass} {root : Root} {name? : Option Text}
    {addConstructor? : Option Bool} (module? : Option ModuleId)
    (hscript : p.script = .confirm (some dir) name? addConstructor?)
    (hdir : p.directory? dir = some home) :
    Yields (Works p p.files) (Session.call host (.askUser (fix.dialog root module?)))
      (some (confirmed fix module? dir home name? addConstructor?)) (Works p p.files) := by
  refine .call fun isWriting w h => ?_
  have h := h.enter (.askUser (fix.dialog root module?)) isWriting
  generalize hw : w.enter (.askUser (fix.dialog root module?)) isWriting = w' at h
  have hdir : w'.directory? dir = some home := by rw [← hdir, directory?, h.directories]; rfl
  have hanswer : (w'.askUser (fix.dialog root module?)).1 =
      some (confirmed fix module? dir home name? addConstructor?) := by
    unfold askUser
    simp only [h.script, hscript, Option.bind_some, hdir]
    rfl
  have hafter : Works p p.files (w'.askUser (fix.dialog root module?)).2 := { h with }
  rw [← hw] at hanswer hafter
  exact ⟨hanswer, hafter⟩

theorem runAt_yields {fix : CreateClass} {place : Snapshot} {root : Root} {f : File}
    {name? : Option Text} {addConstructor? : Option Bool} {request : CreationRequest}
    (hroot : root.package = f.package) (hf : p.file? root.file = some f)
    (hscript : p.script = .confirm (some dir) name? addConstructor?)
    (hdir : p.directory? dir = some home)
    (hrequest : request = confirmed fix (p.module? place.file) dir home name? addConstructor?)
    (hnew : p.find? dir (request.className ++ ".groovy") = none)
    (hc : (templateClass fix request).IsNamed) :
    let c := (templateClass fix request).finished f.package request.addConstructor
    let g := c.file dir home
    ∃ (span : Span) (t : Text), span.start = Text.bytes c.lead ∧ c.Imports f.package f.text t ∧
      Yields (Works p p.files) (fix.runAt host .default place root)
        (.created (c.report ⟨p.files.length⟩ span f.package) (g.shown span.start)) fun q =>
          q.files = p.files.set root.file.number { f with text := t } ++ [g] ∧
            q.opens = p.opens ++ g.opens span.start := by
  intro c g
  obtain ⟨span, t, hspan, ht, hcreate⟩ := create_yields hroot hf hdir hnew hc
  refine ⟨span, t, hspan, ht, ?_⟩
  have hmodule : Yields (Works p p.files) (Session.call host (.moduleOf place.file))
      (p.module? place.file) (Works p p.files) := by
    refine .call fun isWriting w h => ⟨?_, h.enter _ _⟩
    show w.module? place.file = _
    rw [module?, h.file?_eq]
    rfl
  have hshow : Yields (Works p (p.files.set root.file.number { f with text := t } ++ [g]))
      (navigate host (c.info ⟨p.files.length⟩ span)) (g.shown span.start) fun q =>
        q.files = p.files.set root.file.number { f with text := t } ++ [g] ∧
          q.opens = p.opens ++ g.opens span.start := by
    refine navigate_yields ?_
    have hlength : (p.files.set root.file.number { f with text := t }).length = p.files.length :=
      List.length_set ..
    show (_ ++ [g])[p.files.length]? = some g
    rw [← hlength]
    exact List.getElem?_concat_length
  subst hrequest
  refine hmodule.bind ((askUser_yields _ hscript hdir).bind ?_)
  exact hcreate.write.bind (hshow.bind (.pure _))

/-- **Creating a class in a standard project.** The fix makes the class that the user confirmed: in
a new file behind all others, which has the text of the class, public exactly if its package is
another one, and with a constructor if one is wanted and can be had. The file that the fix was called
for gets the import if the class needs one, and no other file changes. The class is reported, and
shown, where its declaration starts. -/
theorem invoke_creates {fix : CreateClass} {s : Situation Project} {f : File} {home : Directory}
    {t : Text} {name? : Option Text} {addConstructor? : Option Bool} (hwriting : s.isWriting = false)
    (hs : s.world.IsStandard) (hf : s.world.file? fix.reference.file = some f)
    (hkind : f.kind ≠ .plainText)
    (hscript : s.world.script = .confirm (some dir) name? addConstructor?)
    (hdir : s.world.directory? dir = some home) (hp : PackageName.parse? t = some home.package)
    (hstatic : home.package.segments.head? ≠ some "static")
    (hname : Text.isIdentifier (name?.getD fix.reference.name) = true)
    (hnew : s.world.find? dir (name?.getD fix.reference.name ++ ".groovy") = none) :
    let c : NewClass := {
      package := home.package
      isPublic := home.package ≠ f.package
      kind := fix.reference.kind
      name := name?.getD fix.reference.name
      hasConstructor := addConstructor?.getD fix.addConstructor && fix.reference.kind = .plain }
    let g := c.file dir home
    let run := fix.invoke host .default (f.snapshot fix.reference.file) s
    ∃ (span : Span) (text : Text), span.start = Text.bytes c.lead ∧ c.Imports f.package f.text text ∧
      run.1 = .created (c.report ⟨s.world.files.length⟩ span f.package) (g.shown span.start) ∧
      run.2.world.files =
        s.world.files.set fix.reference.file.number { f with text := text } ++ [g] ∧
      run.2.world.opens = s.world.opens ++ g.opens span.start := by
  intro c g run
  have hpackage : home.package = .default ∨ Text.isDotted home.package.text = true := by
    cases hdefault : home.package.isDefault with
    | true => exact .inl (PackageName.isDefault_iff.1 hdefault)
    | false => exact .inr (PackageName.isDotted_of_parse? hp hdefault)
  obtain ⟨root, hroot⟩ : ∃ root, (f.snapshot fix.reference.file).root? = some root := by
    unfold File.snapshot
    cases h : f.kind with
    | plainText => exact absurd h hkind
    | _ => exact ⟨_, rfl⟩
  obtain ⟨hfile, hcurrent⟩ := root_package_snapshot hroot
  have hplace : fix.root? (f.snapshot fix.reference.file) = some root := (if_pos rfl).trans hroot
  have hc : (NewClass.mk home.package false fix.reference.kind
      (name?.getD fix.reference.name) false).IsNamed := ⟨hname, hpackage, hstatic⟩
  rw [← hfile] at hf
  obtain ⟨span, text, hspan, ht, hrun⟩ := runAt_yields hcurrent hf hscript hdir rfl hnew hc
  obtain ⟨hresult, hfiles, hopens⟩ := hrun s hs.works
  refine ⟨span, text, hspan, ht, ?_⟩
  rw [show run = _ from invoke_of_not_isWriting hplace hwriting, ← hfile]
  exact ⟨hresult, hfiles, hopens⟩

/-- The names are words and signs that have a meaning of their own elsewhere. -/
theorem invoke_creates_keyword :
    let here : Directory := ⟨⟨"a"⟩, none, some mainModule⟩
    let f : File := here.file ⟨0⟩ "Main.groovy" .source "package a\nclass Main \x7b\x7d"
    let home : Directory := ⟨⟨"b.import"⟩, some "/src/b/import", some mainModule⟩
    let p : Project := { empty with
      files := [f]
      directories := [here, home]
      script := .confirm (some ⟨1⟩) (some "class$") none }
    let fix : CreateClass := ⟨⟨"Foo", .plain, ⟨0⟩⟩, true⟩
    let s : Situation Project := ⟨p, 0, none, []⟩
    let c : NewClass := ⟨⟨"b.import"⟩, true, .plain, "class$", true⟩
    let run := fix.invoke host .default (f.snapshot ⟨0⟩) s
    (s.isWriting = false ∧ p.IsStandard ∧ p.file? ⟨0⟩ = some f ∧ f.kind ≠ .plainText ∧
      p.script = .confirm (some ⟨1⟩) (some "class$") none ∧
      p.directory? ⟨1⟩ = some home ∧
      PackageName.parse? "b.import" = some ⟨"b.import"⟩ ∧
      (PackageName.segments ⟨"b.import"⟩).head? ≠ some "static" ∧ Text.isIdentifier "class$" = true ∧
      p.find? ⟨1⟩ "class$.groovy" = none) ∧
    c.text = "package b.import\n\n" ++
      "public class class$ \x7b\n    public class$() \x7b\n    \x7d\n\x7d\n" ∧
    ∃ (span : Span) (text : Text), span.start = 18 ∧ c.Imports ⟨"a"⟩ f.text text ∧
      run.1 = .created (c.report ⟨1⟩ span ⟨"a"⟩) (.opened "/src/b/import/class$.groovy" span.start) ∧
      run.2.world.files = [{ f with text := text }, c.file ⟨1⟩ home] ∧
      run.2.world.opens = [⟨"/src/b/import/class$.groovy", span.start, true⟩] := by
  intro here f home p fix s c run
  have hstandard : p.IsStandard := ⟨fun _ => rfl, rfl, rfl, rfl, rfl⟩
  have hparse : PackageName.parse? "b.import" = some ⟨"b.import"⟩ := by decide
  have hstatic : (PackageName.segments ⟨"b.import"⟩).head? ≠ some "static" := by decide
  have hname : Text.isIdentifier "class$" = true := by decide
  have hnew : p.find? ⟨1⟩ "class$.groovy" = none := by decide
  have hcurrent : f.package = ⟨"a"⟩ := by decide +kernel
  have hlead : Text.bytes c.lead = 18 := by decide
  have hclass : c =
      ⟨⟨"b.import"⟩, decide ((⟨"b.import"⟩ : PackageName) ≠ f.package), .plain, "class$", true⟩ := by
    have hopen : decide ((⟨"b.import"⟩ : PackageName) ≠ f.package) = true := by decide +kernel
    rw [hopen]
  refine ⟨⟨rfl, hstandard, rfl, by decide, rfl, rfl, hparse, hstatic, hname, hnew⟩,
    by decide, ?_⟩
  rw [← hlead, ← hcurrent, hclass]
  exact @invoke_creates ⟨1⟩ fix s f home "b.import"
    (some "class$") none rfl hstandard rfl (by decide) rfl rfl hparse hstatic hname hnew

end Project

end QuickFix
