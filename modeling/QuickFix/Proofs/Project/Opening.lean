import QuickFix.Proofs.Project.Reporting
import QuickFix.Proofs.Source.Releveling

/-!
# The least level that opens a class up

With the policy `minimal`, a class that cannot be used where it is missing gets the first of the wider
levels at which it can. `created_least` follows that from the questions that the fix asks about the
class, over the edit of the new file, to the class as it is read back in the end (`LeastOpened`). The
new file is to read as a compilation unit: there every level can be given, the package's too, and none
of these edits reaches the package statement.
-/

namespace QuickFix

open QuickFix.Fix

namespace Visibility

theorem wider_pairwise (u : Visibility) : u.wider.Pairwise fun v w => v.rank < w.rank := by
  unfold wider
  exact List.Pairwise.filter _ (by decide)

theorem mem_wider_iff {u v : Visibility} : v ∈ u.wider ↔ u.rank < v.rank := by
  have hall : v ∈ all := by cases v <;> decide
  rw [wider, List.mem_filter, decide_eq_true_iff]
  exact and_iff_right hall

theorem rank_lt_getD_wider {u : Visibility} (hu : u ≠ .pub) (p : Visibility → Bool) :
    u.rank < ((u.wider.find? p).getD .pub).rank := by
  cases hv : u.wider.find? p with
  | none => exact rank_lt_pub hu
  | some v => exact mem_wider_iff.1 (List.mem_of_find?_eq_some hv)

/-- The first wider level with some property is the least one. -/
theorem exists_find?_wider {u : Visibility} {p : Visibility → Bool} (hu : u ≠ .pub)
    (hp : p .pub = true) : ∃ v, u.wider.find? p = some v ∧ p v = true ∧ u.rank < v.rank ∧
      ∀ w, u.rank < w.rank → w.rank < v.rank → p w = false := by
  have hsome : (u.wider.find? p).isSome = true :=
    List.find?_isSome.2 ⟨.pub, mem_wider_iff.2 (rank_lt_pub hu), hp⟩
  obtain ⟨v, hv⟩ := Option.isSome_iff_exists.1 hsome
  obtain ⟨hpv, vs, ws, hsplit, hbefore⟩ := List.find?_eq_some_iff_append.1 hv
  refine ⟨v, hv, hpv, mem_wider_iff.1 (List.mem_of_find?_eq_some hv), fun w huw hwv => ?_⟩
  have hw : w ∈ vs ++ v :: ws := hsplit ▸ mem_wider_iff.2 huw
  have hsorted := wider_pairwise u
  rw [hsplit] at hsorted
  rcases List.mem_append.1 hw with hw | hw
  · simpa using hbefore w hw
  · rcases List.mem_cons.1 hw with rfl | hw
    · exact absurd hwv (Nat.lt_irrefl _)
    · have hvw := List.rel_of_pairwise_cons (List.pairwise_append.1 hsorted).2.1 hw
      exact absurd hwv (Nat.lt_asymm hvw)

end Visibility

namespace Project

variable {p : Project} {g f : File} {id : FileId} {s s' : Situation Project}

/-! ## The questions about the class -/

section

variable {c : ClassInfo} {d : Declaration} {ds : List Declaration} {origin : FileId}

theorem exists_of_firstAccessible? {vs : List Visibility} {level? : Option Visibility}
    (hf : First p g s.world c d ds) (h : firstAccessible? host c origin vs s = (level?, s')) :
    First p g s'.world c d ds ∧ level? =
      vs.find? fun v => s.world.isAccessible { c with visibility? := some v } origin := by
  induction vs generalizing s with
  | nil =>
    cases h
    exact ⟨hf, rfl⟩
  | cons v vs ih =>
    unfold firstAccessible? at h
    rw [bind_apply] at h
    have hreply : (Session.call host (.isAccessible { c with visibility? := some v } origin) s).1 =
      s.world.isAccessible { c with visibility? := some v } origin := rfl
    rw [hreply] at h
    have hasked := hf.of_world (.inr
      ⟨.isAccessible { c with visibility? := some v } origin, s.isWriting, rfl⟩)
    cases ha : s.world.isAccessible { c with visibility? := some v } origin with
    | true =>
      rw [ha] at h
      cases h
      exact ⟨hasked, by simp only [List.find?_cons, ha]⟩
    | false =>
      rw [ha] at h
      obtain ⟨hf', hlevel⟩ := ih (s := (Session.call host
        (.isAccessible { c with visibility? := some v } origin) s).2) hasked h
      exact ⟨hf', hlevel.trans (by simp only [List.find?_cons, ha]; rfl)⟩

/-- A class that cannot be used is to get the first of the wider levels at which it can. -/
theorem exists_of_requiredVisibility?_minimal {u : Visibility} {level? : Option Visibility}
    (hf : First p g s.world c d ds) (hc : c.visibility? = some u)
    (h : requiredVisibility? host .minimal c origin s = (level?, s')) :
    First p g s'.world c d ds ∧
      (level? = none ∧ (u = .pub ∨ s.world.isAccessible c origin = true) ∨
        u ≠ .pub ∧ s.world.isAccessible c origin = false ∧ level? = some ((u.wider.find? fun v =>
          s.world.isAccessible { c with visibility? := some v } origin).getD .pub)) := by
  by_cases hu : u = .pub
  · rw [requiredVisibility?_of_fixed (.inr (hu ▸ hc))] at h
    cases h
    exact ⟨hf, .inl ⟨rfl, .inl hu⟩⟩
  · rw [requiredVisibility?_eq hc hu, bind_apply] at h
    have hreply : (Session.call host (.isAccessible c origin) s).1 =
        s.world.isAccessible c origin := rfl
    rw [hreply] at h
    have hasked := hf.of_world (.inr ⟨.isAccessible c origin, s.isWriting, rfl⟩)
    cases ha : s.world.isAccessible c origin with
    | true =>
      rw [ha] at h
      cases h
      exact ⟨hasked, .inl ⟨rfl, .inr rfl⟩⟩
    | false =>
      rw [ha] at h
      have h : (firstAccessible? host c origin u.wider >>= fun level? =>
          pure (some (level?.getD .pub))) (Session.call host (.isAccessible c origin) s).2 =
        (level?, s') := h
      rw [bind_apply] at h
      generalize hfirst : firstAccessible? host c origin u.wider
        (Session.call host (.isAccessible c origin) s).2 = first at h
      obtain ⟨first?, s₁⟩ := first
      obtain ⟨hf', rfl⟩ := exists_of_firstAccessible? hasked hfirst
      cases h
      exact ⟨hf', .inr ⟨hu, rfl, rfl⟩⟩

/-- A class gets the level that it is to get, where every edit of its level applies and leaves its
package; its file has the same classes otherwise. -/
theorem exists_of_widen_minimal {v? : Option Visibility} (hf : First p g s.world c d ds)
    (hc : c.visibility? = some d.visibility)
    (hedit : ∀ v, d.visibility ≠ v → ∃ e r, d.visibilityEdit v g.text = .ok (some e) ∧
      e.apply g.text = .ok r ∧ (declarations r).map Declaration.outline =
        ((declarations g.text).map Declaration.outline).set 0 (d.name, d.kind, v) ∧
      (packageOf? r).map (·.name) = (packageOf? g.text).map (·.name))
    (h : (widen host .minimal c origin).run s = (.ok v?, s')) :
    v? = none ∧ First p g s'.world c d ds ∧
        (d.visibility = .pub ∨ s.world.isAccessible c origin = true) ∨
      ∃ v t d' ds', v? = some v ∧ First p { g with text := t } s'.world c d' ds' ∧
        d'.visibility = v ∧ statedPackage t = statedPackage g.text ∧ d.visibility ≠ .pub ∧
        s.world.isAccessible c origin = false ∧ v = (d.visibility.wider.find? fun v =>
          s.world.isAccessible { c with visibility? := some v } origin).getD .pub := by
  unfold widen at h
  obtain ⟨level?, s₁, hlevel, h⟩ := exists_of_bind h
  obtain ⟨hf₁, ⟨rfl, husable⟩ | ⟨hpub, hunusable, rfl⟩⟩ :=
    exists_of_requiredVisibility?_minimal hf hc (lift_eq_ok hlevel)
  · cases h
    exact .inl ⟨rfl, hf₁, husable⟩
  · obtain ⟨u, s₂, hcall, h⟩ := exists_of_bind h
    cases h
    generalize hv : (d.visibility.wider.find? fun v =>
      s.world.isAccessible { c with visibility? := some v } origin).getD .pub = v at hcall ⊢
    have hne : d.visibility ≠ v := by
      rintro rfl
      exact Nat.lt_irrefl _ (hv ▸ Visibility.rank_lt_getD_wider hpub _)
    obtain ⟨e, r, he, hr, hout, hpackage⟩ := hedit v hne
    obtain ⟨d', ds', hf', -, hlevel⟩ := exists_of_setVisibility hf₁ he hr hout hcall
    exact .inr ⟨v, r, d', ds', rfl, hf', hlevel, statedPackage_of_packageOf? hpackage, hpub,
      hunusable, rfl⟩

end

/-! ## The class in the end -/

/-- The report `c` opens the class that was made as `made` in the project `p` as little as the file `id`
needs: in the project `q` it can be used there, at the level that the report says it was given, if any;
and one was given only if it could not be used without it, nor at any level in between. -/
structure LeastOpened (p : Project) (id : FileId) (made : ClassInfo) (q : Project) (c : Created) :
    Prop where
  declared : ∃ cs, q.classesOf made.file = .ok (c.declared :: cs)
  usable : q.isAccessible c.declared id = true
  visibility : c.declared.visibility? = c.widened?.or made.visibility?
  kept_iff : c.widened? = none ↔ p.isAccessible made id = true
  least (v : Visibility) (hv : c.widened? = some v) : ∃ u, made.visibility? = some u ∧
    u.rank < v.rank ∧ ∀ w, u.rank < w.rank → w.rank < v.rank →
      p.isAccessible { made with visibility? := some w } id = false

theorem LeastOpened.of_eq {p' q q' : Project} {made : ClassInfo} {c : Created}
    (h : LeastOpened p id made q c) (hfiles : p'.files = p.files)
    (hsealed : p'.sealedPackages = p.sealedPackages) (hfiles' : q'.files = q.files)
    (hsealed' : q'.sealedPackages = q.sealedPackages) : LeastOpened p' id made q' c := by
  constructor
  · rw [classesOf_congr hfiles']
    exact h.declared
  · rw [isAccessible_congr hfiles' hsealed']
    exact h.usable
  · exact h.visibility
  · rw [isAccessible_congr hfiles hsealed]
    exact h.kept_iff
  · simp only [isAccessible_congr hfiles hsealed]
    exact h.least

theorem Made.isAccessible_eq {q : Project} (hm : Made p g q) (hf : p.file? id = some f)
    (c : ClassInfo) : q.isAccessible c id = p.isAccessible c id := by
  unfold isAccessible
  rw [hm.file?_old hf, hf, hm.sealedPackages]

/-- What the fix makes of the level of a class, whose package is not sealed: the class can be used, and
it has the level it had or the least wider one. -/
theorem exists_of_widen_least {d : Declaration} {ds : List Declaration} {v? : Option Visibility}
    (hf : p.file? id = some f) (hm : Made p g s.world) (hds : declarations g.text = d :: ds)
    (hedit : ∀ v, d.visibility ≠ v → ∃ e r, d.visibilityEdit v g.text = .ok (some e) ∧
      e.apply g.text = .ok r ∧ (declarations r).map Declaration.outline =
        ((declarations g.text).map Declaration.outline).set 0 (d.name, d.kind, v) ∧
      (packageOf? r).map (·.name) = (packageOf? g.text).map (·.name)) :
    let made := classInfo ⟨p.files.length⟩ (statedPackage g.text) d
    let usable (v : Visibility) := p.isAccessible { made with visibility? := some v } id
    (widen host .minimal made id).run s = (.ok v?, s') → ∃ g' d' ds',
      First p g' s'.world made d' ds' ∧ statedPackage g'.text = statedPackage g.text ∧
      d'.visibility = v?.getD d.visibility ∧ (statedPackage g.text ∉ p.sealedPackages →
        usable d'.visibility = true ∧ (v? = none ↔ usable d.visibility = true) ∧
        ∀ v, v? = some v → d.visibility.rank < v.rank ∧
          ∀ w, d.visibility.rank < w.rank → w.rank < v.rank → usable w = false) := by
  intro made usable h
  have hd : d ∈ declarations g.text := by
    rw [hds]
    exact List.mem_cons_self
  have hfirst : First p g s.world made d ds :=
    { hm with file := rfl, declarations_eq := hds, name := rfl }
  have hasked : ∀ v, s.world.isAccessible { made with visibility? := some v } id = usable v :=
    fun v => hm.isAccessible_eq hf _
  have hpublic : statedPackage g.text ∉ p.sealedPackages → usable .pub = true := fun hopen =>
    (isAccessible_at_iff hd hf (new_ne hf) .pub).2 (.inr ⟨rfl, hopen⟩)
  rcases exists_of_widen_minimal hfirst rfl hedit h with
    ⟨rfl, hfirst', hkept⟩ | ⟨v, t, d', ds', rfl, hfirst', rfl, hpackage, hne, hunusable, hleast⟩
  · refine ⟨g, d, ds, hfirst', rfl, rfl, fun hopen => ?_⟩
    have husable : usable d.visibility = true := by
      rcases hkept with hpub | hkept
      · rw [hpub]
        exact hpublic hopen
      · exact (hasked d.visibility).symm.trans hkept
    exact ⟨husable, iff_of_true rfl husable, nofun⟩
  · refine ⟨_, d', ds', hfirst', hpackage, rfl, fun hopen => ?_⟩
    obtain ⟨v, hv, husable, hlt, hbetween⟩ := Visibility.exists_find?_wider hne (hpublic hopen)
    have hlevel : d'.visibility = v := by
      rw [hleast]
      simp only [hasked, hv, Option.getD_some]
    have hnot : usable d.visibility = false := (hasked d.visibility).symm.trans hunusable
    rw [hlevel]
    refine ⟨husable, iff_of_false nofun (by simp [hnot]), fun w hw => ?_⟩
    obtain rfl := Option.some.inj hw
    exact ⟨hlt, hbetween⟩

theorem leastOpened_of_editClass {root : Root} {isWanted : Bool} {d : Declaration}
    {ds : List Declaration} {u : Source.CompilationUnit} {c : Created}
    (hf : p.file? root.file = some f) (hroot : root.package = f.package) (hm : Made p g s.world)
    (hds : declarations g.text = d :: ds) (hu : Source.tokens g.text = u.tokens)
    (hone : ∀ T ∈ u.types, T.HasOneLevel)
    (hhead : ∀ T ∈ u.types.head?, T.keyword.kind ≠ .annotationType)
    (hsealed : c.declared.package ∉ p.sealedPackages)
    (h : (Fix.editClass host .minimal root isWanted ⟨p.files.length⟩
      (classInfo ⟨p.files.length⟩ (statedPackage g.text) d)).run s = (.ok c, s')) :
    LeastOpened p root.file (classInfo ⟨p.files.length⟩ (statedPackage g.text) d) s'.world c := by
  have hget : (declarations g.text)[0]? = some d := by
    rw [hds]
    rfl
  have hk : d.kind ≠ .annotationType := by
    obtain ⟨ts, T, es, htypes, hlength, rfl⟩ := Source.exists_type hu hget
    obtain rfl := List.eq_nil_of_length_eq_zero hlength
    exact hhead T (by rw [htypes]; rfl)
  have hd : d ∈ declarations g.text := List.mem_of_getElem? hget
  obtain ⟨s₁, hwiden, hreport⟩ := exists_of_editClass hf hroot h
  obtain ⟨g', d', ds', hfirst, hsame, hlevel, hleast⟩ := exists_of_widen_least hf hm hds
    (fun v hne => Declaration.exists_visibilityEdit_of_unit hu hone hhead hget hk hne) hwiden
  obtain ⟨hpackage, hvisibility, hkept, hreported⟩ := hreport g' d' ds' hfirst
  rw [hpackage, hsame] at hsealed
  obtain ⟨husable, hiff, hleast⟩ := hleast hsealed
  have hopen : Opened (statedPackage g'.text) f.package d' := by
    rw [hsame]
    exact ((isAccessible_at_iff hd hf (new_ne hf) d'.visibility).1 husable).elim .inr fun h => .inl h.1
  have hreported := hreported hopen
  refine ⟨hreported.declared, ?_, ?_, hiff, fun v hv => ⟨_, rfl, hleast v hv⟩⟩
  · refine hreported.usable.resolve_right fun hno => hsealed ?_
    rw [← hsame, ← hpackage, ← hkept]
    exact hno.1
  · rw [hvisibility, hlevel]
    cases c.widened? <;> rfl

/-- **The minimal policy opens a class up as little as is needed.** When a class has been created for the
file `f`, from a template whose text reads as a compilation unit with at most one level for each of its
types, then the class can be used in `f` unless its package is sealed. It was given a level exactly if it
could not be used as it was made; then that is its level, the next wider one at which it can be used. -/
theorem created_least {fix : CreateClass} {settings : CreateSettings} {c : Created}
    {navigation : Navigation} {t : Text} {u : Source.CompilationUnit}
    (hf : s.world.file? id = some f) (ho : s.world.overwrite? = none)
    (hpolicy : settings.policy = .minimal)
    (ht : s.world.newText? fix settings (f.snapshot id) = some t) (hu : Source.tokens t = u.tokens)
    (hone : ∀ T ∈ u.types, T.HasOneLevel)
    (hhead : ∀ T ∈ u.types.head?, T.keyword.kind ≠ .annotationType)
    (h : fix.invoke host settings (f.snapshot id) s = (.created c navigation, s'))
    (hsealed : c.declared.package ∉ s.world.sealedPackages) :
    ∃ d ds, declarations t = d :: ds ∧
      LeastOpened s.world id (classInfo ⟨s.world.files.length⟩ (statedPackage t) d) s'.world c := by
  obtain ⟨root, hplace, rfl, hpackage, h⟩ := exists_of_invoke h
  obtain ⟨request, directory, s₁, s₂, hstart, htext, hcreate, hfiles, hsealed', -⟩ :=
    exists_of_runAt hplace h
  obtain ⟨template, g, d, ds, s₃, htemplate, hg, hm, hds, hedit⟩ :=
    exists_of_create (hstart.overwrite?.trans ho) hcreate
  obtain rfl : g.text = t := by
    rw [hg]
    exact Option.some.inj ((htext template htemplate).symm.trans ht)
  have hfile : s₁.world.file? root.file = some f := by
    rw [file?, hstart.files]
    exact hf
  rw [hpolicy] at hedit
  rw [← hstart.sealedPackages] at hsealed
  have hleast := leastOpened_of_editClass hfile hpackage hm hds hu hone hhead hsealed hedit
  refine ⟨d, ds, hds, ?_⟩
  rw [← hstart.files]
  exact hleast.of_eq hstart.files.symm hstart.sealedPackages.symm hfiles hsealed'

/-- A private class is opened up in its own package by taking its level away. -/
theorem created_least_same_package :
    let home : Directory := ⟨⟨"a"⟩, some "/a", some mainModule⟩
    let f : File := home.file ⟨0⟩ "Main.groovy" .source "package a\nclass Main \x7b\x7d\n"
    let text : Text := "package a\nfinal private class Foo \x7b\x7d"
    let p : Project := { empty with
      files := [f]
      directories := [home]
      templates := [(Templates.default.get .plain, text)]
      script := .confirm (some ⟨0⟩) none none }
    let fix : CreateClass := ⟨⟨"Foo", .plain, ⟨0⟩⟩, false⟩
    let settings : CreateSettings := { CreateSettings.default with policy := .minimal }
    let run := fix.invoke host settings (f.snapshot ⟨0⟩) ⟨p, 0, none, []⟩
    let c : Created := ⟨⟨⟨1⟩, "Foo", .plain, some ⟨"a.Foo"⟩, some .package, ⟨10, 28⟩⟩, some .package,
      false, none⟩
    ∃ u : Source.CompilationUnit, (p.file? ⟨0⟩ = some f ∧ p.overwrite? = none ∧
      settings.policy = .minimal ∧ p.newText? fix settings (f.snapshot ⟨0⟩) = some text ∧
      Source.tokens text = u.tokens ∧ (∀ T ∈ u.types, T.HasOneLevel) ∧
      (∀ T ∈ u.types.head?, T.keyword.kind ≠ .annotationType) ∧
      run.1 = .created c (.opened "/a/Foo.groovy" 10) ∧ c.declared.package ∉ p.sealedPackages) ∧
    ∃ d ds, declarations text = d :: ds ∧
      LeastOpened p ⟨0⟩ (classInfo ⟨1⟩ (statedPackage text) d) run.2.world c := by
  intro home f text p fix settings run c
  let u : Source.CompilationUnit :=
    { package? := some ⟨⟨⟨0⟩, none, ⟨⟨8, "a"⟩, []⟩, by decide, none, none⟩, rfl, rfl⟩
      imports := []
      types := [
        { attachments := [.modifier ⟨10, "final"⟩ (by decide), .modifier ⟨16, "private"⟩ (by decide)]
          keyword := .plain ⟨24⟩
          name := ⟨30, "Foo"⟩
          header := []
          plain := .nil
          ending := .body ⟨⟨34, "\x7b"⟩, [], .nil, ⟨35, "\x7d"⟩⟩ }] }
  have hrun : run.1 = .created c (.opened "/a/Foo.groovy" 10) := by decide +kernel
  have htext : p.newText? fix settings (f.snapshot ⟨0⟩) = some text := by decide +kernel
  have hu : Source.tokens text = u.tokens := by decide +kernel
  have hone : ∀ T ∈ u.types, T.HasOneLevel := by
    intro T hT
    obtain rfl := List.mem_singleton.1 hT
    exact Nat.le_refl 1
  have hhead : ∀ T ∈ u.types.head?, T.keyword.kind ≠ .annotationType := by
    intro T hT
    obtain rfl := Option.some.inj hT
    exact nofun
  exact ⟨u, ⟨rfl, rfl, rfl, htext, hu, hone, hhead, hrun, List.not_mem_nil⟩,
    created_least rfl rfl rfl htext hu hone hhead (Prod.ext hrun rfl) List.not_mem_nil⟩

end Project

end QuickFix
