import QuickFix.Proofs.Fix.Invoking
import QuickFix.Proofs.Project.Making

/-!
# What the fix reports

The report of a fix on a project in memory is put together before, between and after the edits of the
new file and of the file that the fix was called for in. `created_reported` says that it is right when
all is done: the class that it names is the first one of the new file, it can be used where it was
missing, the editor is opened where it stands, and its import is there if one is needed.
-/

namespace QuickFix

open QuickFix.Fix

namespace Project

variable {p : Project} {g f : File} {id : FileId} {s s' : Situation Project}

/-! ## The import -/

/-- The project `q` comes out of `p` with the file `g` behind all others and `f'` in place of the file
`f` with the id `id`. -/
structure Finished (p : Project) (g : File) (id : FileId) (f f' : File) (q : Project) : Prop where
  new : q.file? ⟨p.files.length⟩ = some g
  newKind : g.kind = .source
  origin : q.file? id = some f'
  kind : f'.kind = f.kind
  sealedPackages : q.sealedPackages = p.sealedPackages

theorem Made.finished {q : Project} (hm : Made p g q) (hf : p.file? id = some f) :
    Finished p g id f f q :=
  ⟨hm.file?_new, hm.kind, hm.file?_old hf, rfl, hm.sealedPackages⟩

theorem Made.finished_setText {q : Project} (hm : Made p g q) (hf : p.file? id = some f) (t : Text) :
    Finished p g id f { f with text := t } (q.setText id t) := by
  have hlt : id.number < p.files.length := (List.getElem?_eq_some_iff.1 hf).1
  refine ⟨?_, hm.kind, ?_, rfl, hm.sealedPackages⟩
  · rw [← hm.file?_new]
    exact List.getElem?_modify_ne _ _ (Nat.ne_of_lt hlt)
  · have hold : q.files[id.number]? = some f := hm.file?_old hf
    show (q.files.modify _ _)[id.number]? = _
    rw [List.getElem?_modify_eq, hold]
    rfl

/-- An import can be added to every text, and then no second one is needed. -/
theorem exists_edited_importEdit? {q : QualifiedName} (hq : Text.isDotted q.text = true) (t : Text) :
    ∃ r, edited t (importEdit? q t) = .ok r ∧ importEdit? q r = none := by
  cases he : importEdit? q t with
  | none => exact ⟨t, rfl, he⟩
  | some e =>
    obtain ⟨r, _, _, _, _, hr, -, hpaths⟩ := Source.exists_of_importEdit? hq he
    refine ⟨r, edited_eq_ok hr, Source.importEdit?_eq_none_of_mem ?_⟩
    rw [hpaths]
    exact List.mem_append_right _ List.mem_cons_self

theorem addImport_eq {w : Project} {q : QualifiedName} {t : Text} (hfail : w.failImport? = none)
    (hf : w.file? id = some f) (ht : edited f.text (importEdit? q f.text) = .ok t) :
    w.addImport id q =
      (.ok (), ({ w with imports := w.imports ++ [(id, q)] } : Project).setText id t) := by
  have hfile : ({ w with imports := w.imports ++ [(id, q)] } : Project).file? id = some f := hf
  unfold addImport
  split
  · rename_i e he
    rw [hfail] at he
    cases he
  · simp only [hfile, ht]

/-- An import goes to the file, unless the project is to fail, and then no second one is needed. -/
theorem exists_of_addImport {w : Project} {q : QualifiedName} (hm : Made p g w)
    (hf : p.file? id = some f) (hq : Text.isDotted q.text = true) :
    ∃ f', Finished p g id f f' (w.addImport id q).2 ∧ (p.failImport? = none →
      (w.addImport id q).1 = .ok () ∧ importEdit? q f'.text = none) := by
  cases hfail : p.failImport? with
  | some e =>
    have hw : w.addImport id q = (.error e, { w with failImport? := none }) := by
      simp only [addImport, hm.failImport?, hfail]
    rw [hw]
    exact ⟨f, ⟨hm.file?_new, hm.kind, hm.file?_old hf, rfl, hm.sealedPackages⟩, nofun⟩
  | none =>
    have hm' : Made p g { w with imports := w.imports ++ [(id, q)] } :=
      ⟨hm.files, hm.kind, hm.sealedPackages, hm.failImport?, hm.overwrite?⟩
    obtain ⟨r, hr, hnone⟩ := exists_edited_importEdit? hq f.text
    rw [addImport_eq (hm.failImport?.trans hfail) (hm.file?_old hf) hr]
    exact ⟨_, hm'.finished_setText hf r, fun _ => ⟨rfl, hnone⟩⟩

theorem exists_of_giveImport {c : ClassInfo} {q : QualifiedName} {current : PackageName}
    {imported? : Option QualifiedName} (hm : Made p g s.world) (hf : p.file? id = some f)
    (hc : c.qualified? = some q) (hq : Text.isDotted q.text = true)
    (h : giveImport host c id current s = (imported?, s')) :
    ∃ f', Finished p g id f f' s'.world ∧
      (needsImport q current = false → f' = f ∧ imported? = none) ∧
      (needsImport q current = true → p.failImport? = none →
        imported? = some q ∧ importEdit? q f'.text = none) := by
  unfold giveImport at h
  cases hneeds : needsImport q current with
  | false =>
    rw [hc, Option.filter_some, hneeds, if_neg Bool.false_ne_true] at h
    cases h
    exact ⟨f, hm.finished hf, fun _ => ⟨rfl, rfl⟩, nofun⟩
  | true =>
    rw [hc, Option.filter_some, hneeds, if_pos rfl] at h
    obtain ⟨f', hfinished, hadded⟩ :=
      exists_of_addImport (hm.enter (.addImport id q) s.isWriting) hf hq
    have hworld : (Session.call host (.addImport id q) s).2.world =
      ((s.world.enter (.addImport id q) s.isWriting).addImport id q).2 := rfl
    have hreply : (Session.call host (.addImport id q) s).1 =
      ((s.world.enter (.addImport id q) s.isWriting).addImport id q).1 := rfl
    rw [← hworld] at hfinished
    rw [← hreply] at hadded
    dsimp only at h
    rw [bind_apply] at h
    generalize Session.call host (.addImport id q) s = called at *
    obtain ⟨reply, s₁⟩ := called
    cases reply with
    | ok u =>
      cases h
      exact ⟨f', hfinished, nofun, fun _ hfail => ⟨rfl, (hadded hfail).2⟩⟩
    | error e =>
      cases h
      refine ⟨f', hfinished, nofun, fun _ hfail => ?_⟩
      cases (hadded hfail).1

/-! ## The report -/

theorem new_ne (hf : p.file? id = some f) : (⟨p.files.length⟩ : FileId) ≠ id := by
  rintro rfl
  exact Nat.lt_irrefl _ (List.getElem?_eq_some_iff.1 hf).1

/-- A class of another file can be used at a level: at all but the private one in its own package, and
as a public one unless its package is sealed. -/
theorem isAccessible_at_iff {q : Project} {file : FileId} {package : PackageName} {t : Text}
    {d : Declaration} (hd : d ∈ declarations t) (hf : q.file? id = some f) (hne : file ≠ id)
    (v : Visibility) :
    q.isAccessible { classInfo file package d with visibility? := some v } id = true ↔
      package = f.package ∧ v ≠ .priv ∨ v = .pub ∧ package ∉ q.sealedPackages := by
  have hpackage : some (classInfo file package d).package = some package :=
    congrArg some (package_classInfo hd)
  have hpackage : (classInfo file package d).qualified?.map (fun q => q.package?.getD .default) =
      some package := hpackage
  have hfile : (classInfo file package d).file ≠ id := hne
  unfold isAccessible
  simp only [hf, hpackage, Option.any_some, Option.some.injEq]
  by_cases hnear : package = f.package
  · subst hnear
    cases v <;> simp [hfile]
  · by_cases hsealed : package ∈ q.sealedPackages
    · simp [hnear, hsealed]
    · cases v <;> simp [hnear, hsealed, hfile]

theorem isAccessible_classInfo_iff {q : Project} {file : FileId} {package : PackageName} {t : Text}
    {d : Declaration} (hd : d ∈ declarations t) (hf : q.file? id = some f) (hne : file ≠ id) :
    q.isAccessible (classInfo file package d) id = true ↔
      package = f.package ∧ d.visibility ≠ .priv ∨
        d.visibility = .pub ∧ package ∉ q.sealedPackages :=
  isAccessible_at_iff hd hf hne d.visibility

/-- The report `c` is right in the project `q`: the class is the first one of the file that `p` lacks; it
can be used in the file `id`, unless its package is sealed and another one than the package `current`
that the file had, and than the one that the file has; and that file imports it if it must. -/
structure Reported (p : Project) (id : FileId) (current : PackageName) (q : Project) (c : Created) :
    Prop where
  declared : ∃ cs, q.classesOf ⟨p.files.length⟩ = .ok (c.declared :: cs)
  usable : q.isAccessible c.declared id = true ∨
    c.declared.package ∈ q.sealedPackages ∧ c.declared.package ≠ current ∧
      ∀ f, q.file? id = some f → c.declared.package ≠ f.package
  needless (h : c.declared.package = .default ∨ c.declared.package = current) : c.imported? = none
  imported (hd : c.declared.package ≠ .default) (hc : c.declared.package ≠ current)
    (hfail : p.failImport? = none) : ∃ name f, c.declared.qualified? = some name ∧
      c.imported? = some name ∧ q.file? id = some f ∧ importEdit? name f.text = none

theorem isAccessible_congr {q q' : Project} (hfiles : q'.files = q.files)
    (hsealed : q'.sealedPackages = q.sealedPackages) (c : ClassInfo) (id : FileId) :
    q'.isAccessible c id = q.isAccessible c id := by
  unfold isAccessible file?
  rw [hfiles, hsealed]

theorem classesOf_congr {q q' : Project} (hfiles : q'.files = q.files) (id : FileId) :
    q'.classesOf id = q.classesOf id := by
  unfold classesOf file?
  rw [hfiles]

theorem Reported.of_eq {q q' : Project} {current : PackageName} {c : Created}
    (h : Reported p id current q c) (hfiles : q'.files = q.files)
    (hsealed : q'.sealedPackages = q.sealedPackages) : Reported p id current q' c := by
  have hfile : q'.file? id = q.file? id := by rw [file?, file?, hfiles]
  constructor
  · rw [classesOf_congr hfiles]
    exact h.declared
  · rw [isAccessible_congr hfiles hsealed, hsealed, hfile]
    exact h.usable
  · exact h.needless
  · rw [hfile]
    exact h.imported

/-- The class can be used in a file of the package `current`, unless its package is sealed. -/
def Opened (package current : PackageName) (d : Declaration) : Prop :=
  d.visibility = .pub ∨ package = current ∧ d.visibility ≠ .priv

theorem Reported.of_finished {d : Declaration} {ds : List Declaration} {f' : File} {q : Project}
    {v? : Option Visibility} {isAdded : Bool} {imported? : Option QualifiedName}
    (hf : p.file? id = some f) (hfin : Finished p g id f f' q) (hds : declarations g.text = d :: ds)
    (hopen : Opened (statedPackage g.text) f.package d)
    (hneedless : needsImport ((statedPackage g.text).qualify d.name) f.package = false →
      f' = f ∧ imported? = none)
    (himported : needsImport ((statedPackage g.text).qualify d.name) f.package = true →
      p.failImport? = none → imported? = some ((statedPackage g.text).qualify d.name) ∧
        importEdit? ((statedPackage g.text).qualify d.name) f'.text = none) :
    Reported p id f.package q
      ⟨classInfo ⟨p.files.length⟩ (statedPackage g.text) d, v?, isAdded, imported?⟩ := by
  have hd : d ∈ declarations g.text := by
    rw [hds]
    exact List.mem_cons_self
  have hpackage : (classInfo ⟨p.files.length⟩ (statedPackage g.text) d).package =
    statedPackage g.text := package_classInfo hd
  rw [needsImport_classInfo hd] at hneedless himported
  refine ⟨⟨ds.map (classInfo ⟨p.files.length⟩ (statedPackage g.text)), ?_⟩, ?_, fun h => ?_,
    fun hdefault hcurrent hfail => ?_⟩
  · unfold classesOf
    rw [hfin.new]
    simp only [if_pos hfin.newKind, File.package, hds, List.map_cons]
  · rw [hpackage, isAccessible_classInfo_iff hd hfin.origin (new_ne hf)]
    by_cases hnear : statedPackage g.text = f.package
    · obtain rfl : f' = f := (hneedless (by simp [hnear])).1
      refine .inl (.inl ⟨hnear, ?_⟩)
      rcases hopen with hpub | ⟨-, hpriv⟩
      · rw [hpub]
        decide
      · exact hpriv
    · obtain hpub : d.visibility = .pub := hopen.resolve_right fun h => hnear h.1
      by_cases hsealed : statedPackage g.text ∈ q.sealedPackages
      · by_cases hnow : statedPackage g.text = f'.package
        · refine .inl (.inl ⟨hnow, ?_⟩)
          rw [hpub]
          decide
        · refine .inr ⟨hsealed, hnear, fun f'' hf'' => ?_⟩
          rw [hfin.origin] at hf''
          obtain rfl := Option.some.inj hf''
          exact hnow
      · exact .inl (.inr ⟨hpub, hsealed⟩)
  · rw [hpackage] at h
    refine (hneedless ?_).2
    rcases h with h | h
    · rw [h]
      rfl
    · simp [h]
  · rw [hpackage] at hdefault hcurrent
    have hdef : (statedPackage g.text).isDefault = false :=
      Bool.eq_false_iff.2 fun h => hdefault (PackageName.isDefault_iff.1 h)
    obtain ⟨hsome, hnone⟩ := himported (by simp [hdef, hcurrent]) hfail
    exact ⟨_, f', rfl, hsome, hfin.origin, hnone⟩

/-- Once its level is right, a class is given a constructor, read again and imported; what is reported
is the class at that level in its package. -/
theorem exists_of_editClass {policy : VisibilityPolicy} {root : Root} {isWanted : Bool}
    {made : ClassInfo} {c : Created} (hf : p.file? root.file = some f)
    (hroot : root.package = f.package)
    (h : (Fix.editClass host policy root isWanted ⟨p.files.length⟩ made).run s = (.ok c, s')) :
    ∃ s₁, (widen host policy made root.file).run s = (.ok c.widened?, s₁) ∧
      ∀ g d ds, First p g s₁.world made d ds →
        c.declared.package = statedPackage g.text ∧ c.declared.visibility? = some d.visibility ∧
          s'.world.sealedPackages = p.sealedPackages ∧ (Opened (statedPackage g.text) f.package d →
            Reported p root.file root.package s'.world c) := by
  unfold Fix.editClass at h
  obtain ⟨widened?, s₁, hwiden, h⟩ := exists_of_bind h
  obtain ⟨isAdded, s₂, hconstructor, h⟩ := exists_of_bind h
  obtain ⟨c', s₃, hreread, h⟩ := exists_of_bind h
  obtain ⟨imported?, s₄, himport, h⟩ := exists_of_bind h
  cases h
  have himport := lift_eq_ok himport
  refine ⟨s₁, hwiden, fun g d ds hfirst => ?_⟩
  obtain ⟨t, d', ds', hfirst', -, hvisibility, hpackage⟩ :=
    exists_of_giveConstructor hfirst hconstructor
  obtain ⟨hfirst'', rfl⟩ := exists_of_reread hfirst' hreread
  have hd' : d' ∈ declarations t := by
    rw [hfirst'.declarations_eq]
    exact List.mem_cons_self
  have hdotted : Text.isDotted ((statedPackage t).qualify d'.name).text = true :=
    QualifiedName.isDotted_qualify (Declaration.isIdentifier_name hd')
      (Text.dot_not_mem_of_isIdentifier (Declaration.isIdentifier_name hd')) isDotted_statedPackage
  rw [hroot] at himport ⊢
  obtain ⟨f', hfin, hneedless, himported⟩ :=
    exists_of_giveImport hfirst''.toMade hf rfl hdotted himport
  refine ⟨(package_classInfo hd').trans hpackage, congrArg some hvisibility, hfin.sealedPackages,
    fun hopen => ?_⟩
  refine Reported.of_finished hf hfin hfirst'.declarations_eq ?_ hneedless himported
  unfold Opened
  rw [hvisibility]
  show _ ∨ statedPackage t = _ ∧ _
  rw [hpackage]
  exact hopen

theorem reported_of_editClass {root : Root} {isWanted : Bool} {d : Declaration} {ds : List Declaration}
    {c : Created} (hf : p.file? root.file = some f) (hroot : root.package = f.package)
    (hm : Made p g s.world) (hds : declarations g.text = d :: ds) (hk : d.kind ≠ .annotationType)
    (h : (Fix.editClass host .widest root isWanted ⟨p.files.length⟩
      (classInfo ⟨p.files.length⟩ (statedPackage g.text) d)).run s = (.ok c, s')) :
    Reported p root.file root.package s'.world c := by
  have hd : d ∈ declarations g.text := by
    rw [hds]
    exact List.mem_cons_self
  have hfirst : First p g s.world (classInfo ⟨p.files.length⟩ (statedPackage g.text) d) d ds :=
    { hm with file := rfl, declarations_eq := hds, name := rfl }
  obtain ⟨s₁, hwiden, hreport⟩ := exists_of_editClass hf hroot h
  rcases exists_of_widen hfirst rfl hk hwiden with ⟨h₁, hpub | husable⟩ | ⟨t, d₁, ds₁, h₁, -, hpub⟩
  · exact (hreport g d ds h₁).2.2.2 (.inl hpub)
  · refine (hreport g d ds h₁).2.2.2 ?_
    rw [isAccessible_classInfo_iff hd (hm.file?_old hf) (new_ne hf)] at husable
    exact husable.elim .inr fun h => .inl h.1
  · exact (hreport _ d₁ ds₁ h₁).2.2.2 (.inl hpub)

/-- What is created is edited as the first class of the new file, which has the text of its
template. -/
theorem exists_of_create {fix : CreateClass} {settings : CreateSettings} {root : Root}
    {request : CreationRequest} {directory : DirectoryId} {c : Created}
    (ho : s.world.overwrite? = none)
    (h : (fix.create host settings root request directory).run s = (.ok c, s')) :
    ∃ template g d ds s₁,
      s.world.templates.lookup (fix.newFile settings request).template = some template ∧
      g.text = renderTemplate template (fix.newFile settings request) ∧ Made s.world g s₁.world ∧
      declarations g.text = d :: ds ∧
      (Fix.editClass host settings.policy root request.addConstructor ⟨s.world.files.length⟩
        (classInfo ⟨s.world.files.length⟩ (statedPackage g.text) d)).run s₁ = (.ok c, s') := by
  have hname : request.className ≠ [] := by
    intro hempty
    unfold CreateClass.create at h
    rw [hempty] at h
    cases h
  rw [create_named hname] at h
  obtain ⟨file, s₁, hmake, h⟩ := exists_of_bind h
  obtain ⟨c₁, s₂, hclass, h⟩ := exists_of_bind h
  obtain ⟨u, s₃, hlogged, h⟩ := exists_of_bind h
  obtain ⟨template, g, htemplate, rfl, htext, hm⟩ := exists_of_makeFile ho hmake
  obtain ⟨⟨cs, hcs⟩, call, b, hworld⟩ := exists_of_firstClass hclass
  rw [hm.classesOf_new] at hcs
  obtain ⟨d, ds, hds, rfl, -⟩ := List.map_eq_cons_iff.1 (Except.ok.inj hcs)
  have hm₃ : Made s.world g s₃.world := by
    have hlog : s₂.world = s₃.world := congrArg (fun r => r.2.world) (lift_eq_ok hlogged)
    rw [← hlog, hworld]
    exact hm.enter call b
  exact ⟨template, g, d, ds, s₃, htemplate, htext, hm₃, hds, h⟩

theorem reported_of_create {fix : CreateClass} {settings : CreateSettings} {root : Root}
    {request : CreationRequest} {directory : DirectoryId} {c : Created}
    (hf : s.world.file? root.file = some f) (hroot : root.package = f.package)
    (ho : s.world.overwrite? = none) (hpolicy : settings.policy = .widest)
    (hk : ∀ template, s.world.templates.lookup (fix.newFile settings request).template =
        some template →
      ∀ d ∈ (declarations (renderTemplate template (fix.newFile settings request))).head?,
        d.kind ≠ .annotationType)
    (h : (fix.create host settings root request directory).run s = (.ok c, s')) :
    Reported s.world root.file root.package s'.world c := by
  obtain ⟨template, g, d, ds, s₁, htemplate, htext, hm, hds, hedit⟩ := exists_of_create ho h
  have hkind : d.kind ≠ .annotationType := by
    refine hk template htemplate d ?_
    rw [← htext, hds]
    rfl
  rw [hpolicy] at hedit
  exact reported_of_editClass hf hroot hm hds hkind hedit

theorem openEditor_kept (p : Project) (path : Text) (offset : Nat) (focus : Bool) :
    (p.openEditor path offset focus).2.files = p.files ∧
      (p.openEditor path offset focus).2.sealedPackages = p.sealedPackages := by
  unfold openEditor
  cases p.failOpen? <;> exact ⟨rfl, rfl⟩

/-- Showing the class changes no file, and shows the place where the class is. -/
theorem exists_of_navigate {c : ClassInfo} {navigation : Navigation}
    (h : navigate host c s = (navigation, s')) :
    s'.world.files = s.world.files ∧ s'.world.sealedPackages = s.world.sealedPackages ∧
      ∀ path offset, navigation = .opened path offset → offset = c.span.start := by
  unfold navigate at h
  rw [bind_apply] at h
  have hreply : (Session.call host (.pathOf c.file) s).1 =
    (s.world.file? c.file).bind File.path? := rfl
  rw [hreply] at h
  generalize (s.world.file? c.file).bind File.path? = path? at h
  cases path? with
  | none =>
    cases h
    exact ⟨rfl, rfl, nofun⟩
  | some path =>
    dsimp only at h
    rw [bind_apply] at h
    have hkept : (Session.call host (.openEditor path c.span.start true)
          (Session.call host (.pathOf c.file) s).2).2.world.files = s.world.files ∧
        (Session.call host (.openEditor path c.span.start true)
          (Session.call host (.pathOf c.file) s).2).2.world.sealedPackages =
            s.world.sealedPackages := openEditor_kept _ path c.span.start true
    generalize Session.call host (.openEditor path c.span.start true)
      (Session.call host (.pathOf c.file) s).2 = called at h hkept
    obtain ⟨reply, s₁⟩ := called
    cases reply with
    | ok u =>
      cases h
      refine ⟨hkept.1, hkept.2, ?_⟩
      rintro _ _ ⟨⟩
      rfl
    | error e =>
      cases h
      exact ⟨hkept.1, hkept.2, nofun⟩

/-! ## The whole fix -/

theorem Reported.of_start {p' q : Project} {current : PackageName} {c : Created}
    (h : Reported p' id current q c) (hfiles : p'.files = p.files)
    (hfail : p'.failImport? = p.failImport?) : Reported p id current q c := by
  obtain ⟨hdeclared, husable, hneedless, himported⟩ := h
  rw [hfiles] at hdeclared
  rw [hfail] at himported
  exact ⟨hdeclared, husable, hneedless, himported⟩

/-- The text that the fix makes the new file with, if it comes to that. -/
def newText? (p : Project) (fix : CreateClass) (settings : CreateSettings) (place : Snapshot) :
    Option Text := do
  let root ← fix.root? place
  let request ← (p.askUser (fix.dialog root (p.module? place.file))).1
  let template ← p.templates.lookup (fix.newFile settings request).template
  return renderTemplate template (fix.newFile settings request)

theorem newText?_eq {fix : CreateClass} {settings : CreateSettings} {place : Snapshot} {root : Root}
    {request : CreationRequest} {template : Text} (hplace : fix.root? place = some root)
    (hrequest : (p.askUser (fix.dialog root (p.module? place.file))).1 =
      some request)
    (htemplate : p.templates.lookup (fix.newFile settings request).template = some template) :
    p.newText? fix settings place =
      some (renderTemplate template (fix.newFile settings request)) := by
  unfold newText?
  rw [hplace]
  show Option.bind (p.askUser _).1 _ = _
  rw [hrequest]
  show Option.bind (p.templates.lookup _) _ = _
  rw [htemplate]
  rfl

/-- The project `q` is `p` before anything is made in it. -/
structure Untouched (p q : Project) : Prop where
  files : q.files = p.files
  templates : q.templates = p.templates
  sealedPackages : q.sealedPackages = p.sealedPackages
  failImport? : q.failImport? = p.failImport?
  overwrite? : q.overwrite? = p.overwrite?

/-- What the fix reports is created in one write action, with the text of the new file, and then
shown. -/
theorem exists_of_runAt {fix : CreateClass} {settings : CreateSettings} {place : Snapshot}
    {root : Root} {c : Created} {navigation : Navigation} (hplace : fix.root? place = some root)
    (h : fix.runAt host settings place root s = (.created c navigation, s')) :
    ∃ request directory t t', Untouched s.world t.world ∧
      (∀ template, t.world.templates.lookup (fix.newFile settings request).template =
          some template → s.world.newText? fix settings place =
        some (renderTemplate template (fix.newFile settings request))) ∧
      (fix.create host settings root request directory).run t = (.ok c, t') ∧
      s'.world.files = t'.world.files ∧ s'.world.sealedPackages = t'.world.sealedPackages ∧
      ∀ path offset, navigation = .opened path offset → offset = c.declared.span.start := by
  unfold CreateClass.runAt at h
  rw [bind_apply, bind_apply] at h
  let module? := s.world.module? place.file
  let s₁ := (Session.call host (.moduleOf place.file) s).2
  let s₂ := (Session.call host (.askUser (fix.dialog root module?)) s₁).2
  have hmodule : (Session.call host (.moduleOf place.file) s).1 = module? := rfl
  rw [hmodule] at h
  have hanswer : (Session.call host (.askUser (fix.dialog root module?)) s₁).1 =
    (s.world.askUser (fix.dialog root module?)).1 := rfl
  rw [hanswer] at h
  cases hrequest : (s.world.askUser (fix.dialog root module?)).1 with
  | none =>
    rw [hrequest] at h
    cases h
  | some request =>
    rw [hrequest] at h
    dsimp only at h
    cases hdirectory : request.directory? with
    | none =>
      rw [hdirectory] at h
      cases h
    | some directory =>
      rw [hdirectory] at h
      dsimp only at h
      rw [bind_apply] at h
      generalize hwrite : Session.write (fix.create host settings root request directory) s₂ =
        written at h
      obtain ⟨r, s₃⟩ := written
      cases r with
      | error e => cases e <;> cases h
      | ok c' =>
        dsimp only at h
        rw [bind_apply] at h
        generalize hnavigate : navigate host c'.declared s₃ = shown at h
        obtain ⟨navigation', s₄⟩ := shown
        cases h
        obtain ⟨t, t', ht, hcreate, ht'⟩ := exists_of_write hwrite
        obtain ⟨hfiles, hsealed, hopened⟩ := exists_of_navigate hnavigate
        rw [← ht'] at hfiles hsealed
        have hstart : Untouched s.world t.world := by
          rw [ht]
          exact ⟨rfl, rfl, rfl, rfl, rfl⟩
        refine ⟨request, directory, t, t', hstart, fun template htemplate => ?_, hcreate, hfiles,
          hsealed, hopened⟩
        rw [hstart.templates] at htemplate
        exact newText?_eq hplace hrequest htemplate

theorem reported_of_runAt {fix : CreateClass} {settings : CreateSettings} {place : Snapshot}
    {root : Root} {c : Created} {navigation : Navigation} (hplace : fix.root? place = some root)
    (hf : s.world.file? root.file = some f) (hroot : root.package = f.package)
    (ho : s.world.overwrite? = none) (hpolicy : settings.policy = .widest)
    (hk : ∀ t, s.world.newText? fix settings place = some t →
      ∀ d ∈ (declarations t).head?, d.kind ≠ .annotationType)
    (h : fix.runAt host settings place root s = (.created c navigation, s')) :
    Reported s.world root.file root.package s'.world c ∧
      ∀ path offset, navigation = .opened path offset → offset = c.declared.span.start := by
  obtain ⟨request, directory, t, t', hstart, htext, hcreate, hfiles, hsealed, hopened⟩ :=
    exists_of_runAt hplace h
  have hfile : t.world.file? root.file = some f := by
    rw [file?, hstart.files]
    exact hf
  have hreported : Reported t.world root.file root.package t'.world c :=
    reported_of_create hfile hroot (hstart.overwrite?.trans ho) hpolicy
      (fun template htemplate => hk _ (htext template htemplate)) hcreate
  exact ⟨(hreported.of_eq hfiles hsealed).of_start hstart.files hstart.failImport?, hopened⟩

theorem root_package_snapshot {root : Root} (h : (f.snapshot id).root? = some root) :
    root.file = id ∧ root.package = f.package := by
  unfold File.snapshot at h
  unfold File.package
  cases hkind : f.kind with
  | plainText =>
    rw [hkind] at h
    cases h
  | _ =>
    rw [hkind] at h
    cases h
    exact ⟨rfl, rfl⟩

/-- Only a fix that is called for in a file with code, outside of a write action, creates
something. -/
theorem exists_of_invoke {fix : CreateClass} {settings : CreateSettings} {c : Created}
    {navigation : Navigation}
    (h : fix.invoke host settings (f.snapshot id) s = (.created c navigation, s')) :
    ∃ root, fix.root? (f.snapshot id) = some root ∧ root.file = id ∧ root.package = f.package ∧
      fix.runAt host settings (f.snapshot id) root s = (.created c navigation, s') := by
  cases hplace : fix.root? (f.snapshot id) with
  | none =>
    rw [invoke_of_root?_none hplace] at h
    cases h
  | some root =>
    cases hw : s.isWriting with
    | true =>
      rw [invoke_of_isWriting hplace hw] at h
      cases h
    | false =>
      rw [invoke_of_not_isWriting hplace hw] at h
      have hroot : (f.snapshot id).root? = some root := by
        unfold CreateClass.root? at hplace
        split at hplace
        · exact hplace
        · cases hplace
      obtain ⟨hfile, hpackage⟩ := root_package_snapshot hroot
      exact ⟨root, rfl, hfile, hpackage, h⟩

/-- **The report of a fix is right.** When a class has been created for the file `f`, whatever template
it was made from and whatever the user answered, then the report names the first class of the new file
as it stands in the end, that class can be used in `f` unless its package is sealed and another one,
an import is there exactly if it is needed, and an editor is opened where the class is. Annotation types
are left out: the word of a level may get lost before them. -/
theorem created_reported {fix : CreateClass} {settings : CreateSettings} {c : Created}
    {navigation : Navigation} (hf : s.world.file? id = some f) (ho : s.world.overwrite? = none)
    (hpolicy : settings.policy = .widest)
    (hk : ∀ t, s.world.newText? fix settings (f.snapshot id) = some t →
      ∀ d ∈ (declarations t).head?, d.kind ≠ .annotationType)
    (h : fix.invoke host settings (f.snapshot id) s = (.created c navigation, s')) :
    Reported s.world id f.package s'.world c ∧
      ∀ path offset, navigation = .opened path offset → offset = c.declared.span.start := by
  obtain ⟨root, hplace, rfl, hpackage, h⟩ := exists_of_invoke h
  rw [← hpackage]
  exact reported_of_runAt hplace hf hpackage ho hpolicy hk h

theorem created_reported_elsewhere :
    let here : Directory := ⟨⟨"a"⟩, none, some mainModule⟩
    let f : File := here.file ⟨0⟩ "Main.groovy" .source "package a\nclass Main \x7b\x7d\n"
    let p : Project := { empty with
      files := [f]
      directories := [here, ⟨⟨"b"⟩, some "/src/b", some mainModule⟩]
      script := .confirm (some ⟨1⟩) none none }
    let fix : CreateClass := ⟨⟨"Foo", .plain, ⟨0⟩⟩, true⟩
    let run := fix.invoke host .default (f.snapshot ⟨0⟩) ⟨p, 0, none, []⟩
    let c : Created := ⟨⟨⟨1⟩, "Foo", .plain, some ⟨"b.Foo"⟩, some .pub, ⟨11, 56⟩⟩, some .pub, true,
      some ⟨"b.Foo"⟩⟩
    (p.file? ⟨0⟩ = some f ∧ p.overwrite? = none ∧ CreateSettings.default.policy = .widest ∧
      (∀ t, p.newText? fix .default (f.snapshot ⟨0⟩) = some t →
        ∀ d ∈ (declarations t).head?, d.kind ≠ .annotationType) ∧
      run.1 = .created c (.opened "/src/b/Foo.groovy" 11)) ∧
    Reported p ⟨0⟩ f.package run.2.world c ∧
      ∀ path offset, Navigation.opened "/src/b/Foo.groovy" 11 = .opened path offset →
        offset = c.declared.span.start := by
  intro here f p fix run c
  have hrun : run.1 = .created c (.opened "/src/b/Foo.groovy" 11) := by decide +kernel
  have htext : p.newText? fix .default (f.snapshot ⟨0⟩) =
      some "package b\n\nclass Foo \x7b\n\x7d\n" := by decide +kernel
  have hkinds : ∀ d ∈ (declarations "package b\n\nclass Foo \x7b\n\x7d\n").head?,
      d.kind ≠ .annotationType := by decide +kernel
  have hk : ∀ t, p.newText? fix .default (f.snapshot ⟨0⟩) = some t →
      ∀ d ∈ (declarations t).head?, d.kind ≠ .annotationType := by
    intro t ht
    obtain rfl := Option.some.inj (htext.symm.trans ht)
    exact hkinds
  exact ⟨⟨rfl, rfl, rfl, hk, hrun⟩, created_reported rfl rfl rfl hk (Prod.ext hrun rfl)⟩

end Project

end QuickFix
