import QuickFix.Project.Serve
import QuickFix.Proofs.Fix.Creating
import QuickFix.Proofs.Project.Files
import QuickFix.Proofs.Source.ClassEdits
import QuickFix.Proofs.Source.ImportLines

/-!
# A project in which a class is made

While a fix works on a project in memory, the project has one file more than before (`Made`), and the
calls of the fix change the text of that file, and of the file that an import goes to. Each part of the
fix that ends well says what it leaves: `exists_of_makeFile` and `exists_of_firstClass` the new file and
its first class, `exists_of_widen` and `exists_of_giveConstructor` the text after an edit of the class,
and `exists_of_giveImport` the file with the import.
-/

namespace QuickFix

open QuickFix.Fix

namespace Fix

/-! ## Programs that end well -/

section

variable {σ α β : Type} {s s' : Situation σ}

theorem bind_apply (p : Session σ α) (f : α → Session σ β) (s : Situation σ) :
    (p >>= f) s = f (p s).1 (p s).2 := rfl

theorem exists_of_bind {x : Attempt σ α} {f : α → Attempt σ β} {b : β}
    (h : (x >>= f).run s = (.ok b, s')) :
    ∃ a s₁, x.run s = (.ok a, s₁) ∧ (f a).run s₁ = (.ok b, s') := by
  rw [ExceptT.run_bind, bind_apply] at h
  match hx : x.run s with
  | (.ok a, s₁) => exact ⟨a, s₁, rfl, by rwa [hx] at h⟩
  | (.error e, s₁) =>
    rw [hx] at h
    cases h

theorem attempt_eq_ok {p : Session σ (Except HostError α)} {a : α}
    (h : (attempt p).run s = (.ok a, s')) : p s = (.ok a, s') := by
  have h : ((p s).1.mapError Failure.host, (p s).2) = (.ok a, s') := h
  match hp : p s with
  | (.ok a', s₁) =>
    rw [hp] at h
    cases h
    rfl
  | (.error e, s₁) =>
    rw [hp] at h
    cases h

theorem lift_eq_ok {p : Session σ α} {a : α}
    (h : (ExceptT.lift p : Attempt σ α).run s = (.ok a, s')) : p s = (a, s') := by
  have h : (Except.ok (p s).1, (p s).2) = ((.ok a : Except Failure α), s') := h
  cases h
  rfl

theorem exists_of_write {p : Session σ α} {a : α} (h : Session.write p s = (a, s')) :
    ∃ t t', t.world = s.world ∧ p t = (a, t') ∧ t'.world = s'.world := by
  let t : Situation σ :=
    { s with depth := s.depth + 1, events := s.events ++ [Schedule.startedEvent (s.depth + 1)] }
  have h : ((p t).1, { (p t).2 with depth := (p t).2.depth - 1 }) = (a, s') := h
  cases h
  exact ⟨t, (p t).2, rfl, rfl, rfl⟩

end

/-- The package of a class. -/
def ClassInfo.package (c : ClassInfo) : PackageName :=
  (c.qualified?.bind QualifiedName.package?).getD .default

end Fix

namespace Project

/-! ## Classes of a file -/

section

variable {id : FileId} {package : PackageName} {t : Text} {d : Declaration}

theorem statedPackage_of_packageOf? {r : Text}
    (h : (packageOf? r).map (·.name) = (packageOf? t).map (·.name)) :
    statedPackage r = statedPackage t := by
  unfold statedPackage
  rw [h]

theorem isDotted_statedPackage (h : (statedPackage t).isDefault = false) :
    Text.isDotted (statedPackage t).text = true := by
  cases hp : packageOf? t with
  | none =>
    rw [statedPackage, hp] at h
    cases h
  | some p =>
    obtain ⟨as, w, ns, hts, -, -, hread⟩ := Source.exists_of_packageStatement? hp
    have hp' := hp
    rw [packageOf?, hts, hread] at hp'
    obtain ⟨name, _, _, -, hparse, -⟩ := Source.packageBehind?_eq_some_iff.1 hp'
    rw [statedPackage, hp] at h ⊢
    exact PackageName.isDotted_of_parse? hparse h

theorem package_classInfo (hd : d ∈ declarations t) : (classInfo id package d).package = package := by
  have hdot := Text.dot_not_mem_of_isIdentifier (Declaration.isIdentifier_name hd)
  show (QualifiedName.package? (package.qualify d.name)).getD .default = package
  rw [QualifiedName.package?_qualify hdot]
  cases hdef : package.isDefault with
  | true => exact (PackageName.isDefault_iff.1 hdef).symm
  | false => rfl

/-- An import is needed for classes of other packages than the default one and the current one. -/
theorem needsImport_classInfo (hd : d ∈ declarations t) (current : PackageName) :
    needsImport (package.qualify d.name) current = (!package.isDefault && package ≠ current) := by
  have hdot := Text.dot_not_mem_of_isIdentifier (Declaration.isIdentifier_name hd)
  unfold needsImport
  rw [QualifiedName.package?_qualify hdot]
  cases hdef : package.isDefault <;> simp

end

/-! ## The new file -/

/-- The project `q` is `p` with the source file `g` behind all others, and another writer waits for no
edit. -/
structure Made (p : Project) (g : File) (q : Project) : Prop where
  files : q.files = p.files ++ [g]
  kind : g.kind = .source
  sealedPackages : q.sealedPackages = p.sealedPackages
  failImport? : q.failImport? = p.failImport?
  overwrite? : q.overwrite? = none

namespace Made

variable {p q : Project} {g f : File} {id : FileId}

theorem enter (h : Made p g q) (c : Call) (b : Bool) : Made p g (q.enter c b) :=
  ⟨h.files, h.kind, h.sealedPackages, h.failImport?, h.overwrite?⟩

theorem file?_new (h : Made p g q) : q.file? ⟨p.files.length⟩ = some g := by
  rw [file?, h.files]
  exact List.getElem?_concat_length

theorem file?_old (h : Made p g q) (hf : p.file? id = some f) : q.file? id = some f := by
  have hlt : id.number < p.files.length := (List.getElem?_eq_some_iff.1 hf).1
  rw [file?, h.files, List.getElem?_append_left hlt]
  exact hf

theorem classesOf_new (h : Made p g q) : q.classesOf ⟨p.files.length⟩ =
    .ok ((declarations g.text).map (classInfo ⟨p.files.length⟩ (statedPackage g.text))) := by
  unfold classesOf
  rw [h.file?_new]
  simp only [if_pos h.kind, File.package]

end Made

/-- The class `c` is the first one of the file that the project `q` has more than `p`. -/
structure First (p : Project) (g : File) (q : Project) (c : ClassInfo) (d : Declaration)
    (ds : List Declaration) : Prop extends Made p g q where
  file : c.file = ⟨p.files.length⟩
  declarations_eq : declarations g.text = d :: ds
  name : d.name = c.name

namespace First

variable {p q q' : Project} {g g' : File} {c : ClassInfo} {d d' : Declaration}
  {ds ds' : List Declaration}

theorem of_made (h : First p g q c d ds) (h' : Made p g' q') (hds : declarations g'.text = d' :: ds')
    (hd : d'.name = d.name) : First p g' q' c d' ds' :=
  { h' with file := h.file, declarations_eq := hds, name := hd.trans h.name }

theorem of_world (h : First p g q c d ds) (hq : q' = q ∨ ∃ call b, q' = q.enter call b) :
    First p g q' c d ds := by
  rcases hq with rfl | ⟨call, b, rfl⟩
  · exact h
  · exact h.of_made (h.toMade.enter call b) h.declarations_eq rfl

/-- An edit of the class changes the text of its file. -/
theorem exists_of_editClass (h : First p g q c d ds)
    {edit : Declaration → Text → Except StaleDeclaration (Option Edit)}
    (he : q.editClass c edit = (.ok (), q')) :
    ∃ t, edited g.text (edit d g.text).toOption.join = .ok t ∧ Made p { g with text := t } q' := by
  have hfind : (declarations g.text).find? (fun d => d.name = c.name) = some d := by
    rw [h.declarations_eq]
    exact List.find?_cons_of_pos (decide_eq_true h.name)
  have hfile : ({ q with overwrite? := none } : Project).file? c.file = some g := by
    rw [h.file]
    exact h.file?_new
  unfold editClass at he
  simp only [hfile, editedClass, hfind] at he
  cases ht : edited g.text (edit d g.text).toOption.join with
  | error e =>
    rw [ht] at he
    cases he
  | ok t =>
    rw [ht] at he
    obtain ⟨-, rfl⟩ := Prod.mk.inj he
    refine ⟨t, rfl, ?_, h.kind, h.sealedPackages, h.failImport?, rfl⟩
    rw [h.overwrite?, setText, h.file]
    simp only [h.files, Option.getD_none]
    exact List.modifyTailIdx_add _ 0 p.files [g]

end First

/-! ## What the parts of the fix leave -/

section

variable {s s' : Situation Project} {p : Project} {g : File}

theorem exists_of_makeFile {d : DirectoryId} {nf : NewFile} {file : FileId}
    (ho : s.world.overwrite? = none) (h : (makeFile host d nf).run s = (.ok file, s')) :
    ∃ template g, s.world.templates.lookup nf.template = some template ∧
      file = ⟨s.world.files.length⟩ ∧ g.text = renderTemplate template nf ∧
      Made s.world g s'.world := by
  unfold makeFile at h
  rw [ExceptT.run_mk, bind_apply] at h
  let p := s.world.enter (.createFile d nf) s.isWriting
  have hreply : (Session.call host (.createFile d nf) s).1 = (p.createFile d nf).1 := rfl
  have hworld : (Session.call host (.createFile d nf) s).2.world = (p.createFile d nf).2.1 := rfl
  generalize Session.call host (.createFile d nf) s = called at *
  obtain ⟨reply, s₁⟩ := called
  dsimp only at hreply hworld
  cases hc : p.checkNewFile d nf with
  | error e =>
    have hr : reply = .error e := by
      rw [hreply]
      simp only [createFile, hc]
    rw [hr] at h
    cases e <;> cases h
  | ok made =>
    obtain ⟨dir, template⟩ := made
    have hr : reply = .ok ⟨p.files.length⟩ := by
      rw [hreply]
      simp only [createFile, hc, putFile]
    rw [hr] at h
    cases h
    refine ⟨template, dir.file d nf.fileName .source (renderTemplate template nf),
      (of_checkNewFile hc).2.1, rfl, rfl, ?_⟩
    show Made s.world _ s₁.world
    rw [hworld]
    simp only [createFile, hc, putFile]
    exact ⟨rfl, rfl, rfl, rfl, ho⟩

theorem exists_of_firstClass {name : Text} {file : FileId} {c : ClassInfo}
    (h : (firstClass host name file).run s = (.ok c, s')) :
    (∃ cs, s.world.classesOf file = .ok (c :: cs)) ∧
      ∃ call b, s'.world = s.world.enter call b := by
  unfold firstClass at h
  obtain ⟨cs, s₁, hcall, h⟩ := exists_of_bind h
  have hcall := attempt_eq_ok hcall
  have hcs : s.world.classesOf file = .ok cs := congrArg Prod.fst hcall
  have hworld : s.world.enter (.classesOf file) s.isWriting = s₁.world :=
    congrArg (fun r => r.2.world) hcall
  cases cs with
  | nil => cases h
  | cons c' cs =>
    cases h
    exact ⟨⟨cs, hcs⟩, _, _, hworld.symm⟩

theorem edited_eq_ok {t r : Text} {e : Edit} (h : e.apply t = .ok r) :
    edited t (some e) = .ok r := by
  show (e.apply t).mapError _ = _
  rw [h]
  rfl

theorem exists_of_requiredVisibility? {c : ClassInfo} {v : Visibility} {origin : FileId}
    {level? : Option Visibility} (hc : c.visibility? = some v)
    (h : requiredVisibility? host .widest c origin s = (level?, s')) :
    (s'.world = s.world ∨ ∃ call b, s'.world = s.world.enter call b) ∧
      (level? = none ∧ (v = .pub ∨ s.world.isAccessible c origin = true) ∨
        level? = some .pub ∧ v ≠ .pub) := by
  by_cases hv : v = .pub
  · rw [requiredVisibility?_of_fixed (.inr (hv ▸ hc))] at h
    cases h
    exact ⟨.inl rfl, .inl ⟨rfl, .inl hv⟩⟩
  · rw [requiredVisibility?_eq hc hv, bind_apply] at h
    have hreply : (Session.call host (.isAccessible c origin) s).1 =
        s.world.isAccessible c origin := rfl
    rw [hreply] at h
    cases ha : s.world.isAccessible c origin with
    | true =>
      rw [ha] at h
      cases h
      exact ⟨.inr ⟨.isAccessible c origin, s.isWriting, rfl⟩, .inl ⟨rfl, .inr rfl⟩⟩
    | false =>
      rw [ha] at h
      cases h
      exact ⟨.inr ⟨.isAccessible c origin, s.isWriting, rfl⟩, .inr ⟨rfl, hv⟩⟩

/-- An edit of the level that applies gives the class that level; its file has the same classes
otherwise. -/
theorem exists_of_setVisibility {c : ClassInfo} {d : Declaration} {ds : List Declaration}
    {v : Visibility} {e : Edit} {r : Text} {u : Unit} (hf : First p g s.world c d ds)
    (he : d.visibilityEdit v g.text = .ok (some e)) (hr : e.apply g.text = .ok r)
    (hout : (declarations r).map Declaration.outline =
      ((declarations g.text).map Declaration.outline).set 0 (d.name, d.kind, v))
    (h : (attempt (Session.call host (.setVisibility c v))).run s = (.ok u, s')) :
    ∃ d' ds', First p { g with text := r } s'.world c d' ds' ∧ d'.name = d.name ∧
      d'.visibility = v := by
  have hcall := attempt_eq_ok h
  have hreply : ((s.world.enter (.setVisibility c v) s.isWriting).editClass c
      fun d => d.visibilityEdit v).1 = .ok u := congrArg Prod.fst hcall
  have hworld : ((s.world.enter (.setVisibility c v) s.isWriting).editClass c
      fun d => d.visibilityEdit v).2 = s'.world := congrArg (fun r => r.2.world) hcall
  have hf₁ := hf.of_world (.inr ⟨.setVisibility c v, s.isWriting, rfl⟩)
  obtain ⟨t, ht, hmade⟩ := hf₁.exists_of_editClass (Prod.ext hreply hworld)
  rw [he] at ht
  obtain rfl : r = t := Except.ok.inj ((edited_eq_ok hr).symm.trans ht)
  rw [hf.declarations_eq, List.map_cons, List.set_cons_zero] at hout
  obtain ⟨d', ds', hds, hd', -⟩ := List.map_eq_cons_iff.1 hout
  have hname : d'.name = d.name := congrArg (fun o => o.1) hd'
  exact ⟨d', ds', hf₁.of_made hmade hds hname, hname, congrArg (fun o => o.2.2) hd'⟩

/-- A class that cannot be used is made public; its file has the same classes otherwise. -/
theorem exists_of_widen {c : ClassInfo} {d : Declaration} {ds : List Declaration}
    {origin : FileId} {v? : Option Visibility} (hf : First p g s.world c d ds)
    (hc : c.visibility? = some d.visibility) (hk : d.kind ≠ .annotationType)
    (h : (widen host .widest c origin).run s = (.ok v?, s')) :
    First p g s'.world c d ds ∧ (d.visibility = .pub ∨ s.world.isAccessible c origin = true) ∨
      ∃ t d' ds', First p { g with text := t } s'.world c d' ds' ∧ d'.name = d.name ∧
        d'.visibility = .pub := by
  unfold widen at h
  obtain ⟨level?, s₁, hlevel, h⟩ := exists_of_bind h
  obtain ⟨hworld, ⟨rfl, husable⟩ | ⟨rfl, hv⟩⟩ := exists_of_requiredVisibility? hc (lift_eq_ok hlevel)
  · cases h
    exact .inl ⟨hf.of_world hworld, husable⟩
  · obtain ⟨u, s₂, hcall, h⟩ := exists_of_bind h
    cases h
    obtain ⟨e, r, he, hr, hout⟩ := Declaration.exists_visibilityEdit
      (show (declarations g.text)[0]? = some d by rw [hf.declarations_eq]; rfl) hk
      (show Visibility.pub ≠ .package by decide) hv
    obtain ⟨d', ds', hf', hname, hpub⟩ :=
      exists_of_setVisibility (hf.of_world hworld) he hr hout hcall
    exact .inr ⟨r, d', ds', hf', hname, hpub⟩

/-- A class may be given a constructor; its file has the same classes and the same package. -/
theorem exists_of_giveConstructor {c : ClassInfo} {d : Declaration} {ds : List Declaration}
    {isWanted isAdded : Bool} (hf : First p g s.world c d ds)
    (h : (giveConstructor host isWanted c).run s = (.ok isAdded, s')) :
    ∃ t d' ds', First p { g with text := t } s'.world c d' ds' ∧ d'.name = d.name ∧
      d'.visibility = d.visibility ∧ statedPackage t = statedPackage g.text := by
  unfold giveConstructor at h
  split at h
  · obtain ⟨u, s₁, hcall, h⟩ := exists_of_bind h
    cases h
    have hcall := attempt_eq_ok hcall
    have hreply : ((s.world.enter (.addConstructor c) s.isWriting).editClass c
        Declaration.constructorEdit).1 = .ok u := congrArg Prod.fst hcall
    have hworld : ((s.world.enter (.addConstructor c) s.isWriting).editClass c
        Declaration.constructorEdit).2 = s'.world := congrArg (fun r => r.2.world) hcall
    have hf₁ := hf.of_world (.inr ⟨.addConstructor c, s.isWriting, rfl⟩)
    obtain ⟨t, ht, hmade⟩ := hf₁.exists_of_editClass (Prod.ext hreply hworld)
    cases hb : d.bodySpan? with
    | none =>
      have hnone : d.constructorEdit g.text = .ok none := by
        rw [Declaration.constructorEdit, hb]
      rw [hnone] at ht
      obtain rfl : g.text = t := Except.ok.inj ht
      exact ⟨g.text, d, ds, hf₁.of_made hmade hf.declarations_eq rfl, rfl, rfl, rfl⟩
    | some body =>
      have hd : d ∈ declarations g.text := by
        rw [hf.declarations_eq]
        exact List.mem_cons_self
      obtain ⟨e, r, he, hr, hout, hpackage⟩ := Declaration.exists_constructorEdit_of_mem hd hb
      rw [he] at ht
      obtain rfl : r = t := Except.ok.inj ((edited_eq_ok hr).symm.trans ht)
      rw [hf.declarations_eq, List.map_cons] at hout
      obtain ⟨d', ds', hds, hd', -⟩ := List.map_eq_cons_iff.1 hout
      have hname : d'.name = d.name := congrArg (fun o => o.1) hd'
      exact ⟨r, d', ds', hf₁.of_made hmade hds hname, hname, congrArg (fun o => o.2.2) hd',
        statedPackage_of_packageOf? hpackage⟩
  · cases h
    exact ⟨g.text, d, ds, hf, rfl, rfl, rfl⟩

/-- The class is read back as the first one of its file. -/
theorem exists_of_reread {c c' : ClassInfo} {d : Declaration} {ds : List Declaration}
    (hf : First p g s.world c d ds)
    (h : (reread host c ⟨p.files.length⟩).run s = (.ok c', s')) :
    First p g s'.world c d ds ∧
      c' = classInfo ⟨p.files.length⟩ (statedPackage g.text) d := by
  unfold reread at h
  obtain ⟨cs, s₁, hcall, h⟩ := exists_of_bind h
  have hcall := attempt_eq_ok hcall
  have hcs : s.world.classesOf ⟨p.files.length⟩ = .ok cs := congrArg Prod.fst hcall
  have hworld : s.world.enter (.classesOf ⟨p.files.length⟩) s.isWriting = s₁.world :=
    congrArg (fun r => r.2.world) hcall
  rw [hf.classesOf_new] at hcs
  obtain rfl := Except.ok.inj hcs
  have hfind : ((declarations g.text).map (classInfo ⟨p.files.length⟩ (statedPackage g.text))).find?
      (fun d => d.name = c.name) = some (classInfo ⟨p.files.length⟩ (statedPackage g.text) d) := by
    rw [hf.declarations_eq, List.map_cons, List.find?_cons_of_pos]
    exact decide_eq_true hf.name
  rw [hfind] at h
  cases h
  exact ⟨hf.of_world (.inr ⟨_, _, hworld.symm⟩), rfl⟩

end

end Project

end QuickFix
