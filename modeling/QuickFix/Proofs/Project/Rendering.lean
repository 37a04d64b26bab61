import QuickFix.Project.Template
import QuickFix.Proofs.Name.Segments
import QuickFix.Proofs.Text.Exchanging

/-!
# Templates filled at once

A template is given the name of the class first and the package after that, so that the package also goes
where the name, or the name with what stands around it, makes a place for it. `fillOnce` puts both in at
once and looks at nothing that a value brings in.

* `keptRows_eq`: of what comes out, package lines without a package are left out, each with a blank row
  right behind it, and all other rows are kept (`withoutStubs`);
* `template_induction`: a template from the left, place by place;
* `substitute_eq_fillOnce`, `renderTemplate_eq_iff`: the text is filled at once exactly if the name makes
  no place for the package, since each such place is an opening brace that goes.
-/

namespace QuickFix.Project

open Text (after? exchange occurrences replaceAll)

/-! ## Rows that are left out -/

/-- Is the row left out, with `before?` before it: a package line without a package, or the blank row
behind one? -/
def isLeftOut (before? : Option Text) (row : Text) : Bool :=
  isPackageStub row || (before?.any isPackageStub && (Text.trim row).isEmpty)

/-- The rows that are not left out. -/
def withoutStubs (rows : List Text) : List Text :=
  ((rows.zip (none :: rows.map some)).filter fun p => !isLeftOut p.2 p.1).map Prod.fst

theorem keptRows_any (before? : Option Text) (rows : List Text) :
    keptRows (before?.any isPackageStub) rows =
      ((rows.zip (before? :: rows.map some)).filter fun p => !isLeftOut p.2 p.1).map Prod.fst := by
  induction rows generalizing before? with
  | nil => rfl
  | cons row rows ih =>
    have ih := ih (some row)
    rw [Option.any_some] at ih
    rw [List.map_cons, List.zip_cons_cons, List.filter_cons, keptRows, isLeftOut]
    by_cases hstub : isPackageStub row = true
    · rw [hstub] at ih ⊢
      exact ih
    · rw [Bool.not_eq_true] at hstub
      rw [hstub] at ih ⊢
      by_cases hblank : (before?.any isPackageStub && (Text.trim row).isEmpty) = true
      · rw [hblank]
        exact ih
      · rw [Bool.not_eq_true] at hblank
        rw [hblank]
        exact congrArg (row :: ·) ih

theorem keptRows_eq (rows : List Text) : keptRows false rows = withoutStubs rows :=
  keptRows_any none rows

theorem filter_trim (t : Text) :
    (Text.trim t).filter (fun c => !Text.isBlank c) = t.filter fun c => !Text.isBlank c := by
  obtain ⟨a, b, ht, hblank⟩ := Text.isPadded_trim t
  have hnone : ∀ u : Text, (∀ c ∈ u, c ∈ a ++ b) → u.filter (fun c => !Text.isBlank c) = [] := by
    intro u hu
    refine List.filter_eq_nil_iff.2 fun c hc => ?_
    rw [hblank c (hu c hc)]
    decide
  conv => rhs; rw [ht]
  rw [List.filter_append, List.filter_append, hnone a fun c => List.mem_append_left b,
    hnone b fun c => List.mem_append_right a, List.nil_append, List.append_nil]

theorem filter_of_isPackageStub {row : Text} (h : isPackageStub row = true) :
    row.filter (fun c => !Text.isBlank c) = "package" ∨
      row.filter (fun c => !Text.isBlank c) = "package;" := by
  have hself : (("package" : Text).filter (fun c => !Text.isBlank c) = "package") ∧
      (("package;" : Text).filter (fun c => !Text.isBlank c) = "package;") := by decide
  rw [← filter_trim]
  simp only [isPackageStub, Bool.or_eq_true, decide_eq_true_eq] at h
  rcases h with h | h
  · exact .inl (by rw [h]; exact hself.1)
  · exact .inr (by rw [h]; exact hself.2)

/-- A row with a brace in it, such as the first one of a declaration, is kept. -/
theorem isPackageStub_of_brace {row : Text} (h : '\x7b' ∈ row) : isPackageStub row = false := by
  refine Bool.eq_false_iff.2 fun hstub => ?_
  have hmem : '\x7b' ∈ row.filter fun c => !Text.isBlank c :=
    List.mem_filter.2 ⟨h, by decide⟩
  have hnot : '\x7b' ∉ ("package" : Text) ∧ '\x7b' ∉ ("package;" : Text) := by decide
  rcases filter_of_isPackageStub hstub with hrow | hrow
  · exact hnot.1 (hrow ▸ hmem)
  · exact hnot.2 (hrow ▸ hmem)

theorem brace_not_mem_of_blank {row : Text} (h : (Text.trim row).isEmpty = true) : '\x7b' ∉ row := by
  intro hm
  have hmem : '\x7b' ∈ row.filter fun c => !Text.isBlank c :=
    List.mem_filter.2 ⟨hm, by decide⟩
  rw [← filter_trim, List.isEmpty_iff.1 h] at hmem
  cases hmem

/-- No brace is left out. -/
theorem count_brace_keptRows (afterStub : Bool) (rows : List Text) :
    (keptRows afterStub rows).flatten.count '\x7b' = rows.flatten.count '\x7b' := by
  induction rows generalizing afterStub with
  | nil => rfl
  | cons row rows ih =>
    have hskip : '\x7b' ∉ row → ∀ b, (keptRows b rows).flatten.count '\x7b' =
        (row :: rows).flatten.count '\x7b' := by
      intro hrow b
      rw [ih, List.flatten_cons, List.count_append, List.count_eq_zero.2 hrow, Nat.zero_add]
    rw [keptRows]
    split
    · rename_i hstub
      exact hskip (fun hm => by rw [isPackageStub_of_brace hm] at hstub; cases hstub) true
    · split
      · rename_i hblank
        exact hskip (brace_not_mem_of_blank (Bool.and_eq_true_iff.1 hblank).2) false
      · rw [List.flatten_cons, List.flatten_cons, List.count_append, List.count_append, ih]

/-! ## Templates, place by place -/

theorem placeholder_ne_nil (name : Text) : placeholder name ≠ [] := List.cons_ne_nil _ _

/-- Induction along a template: a place of a value, or another character, and the rest. -/
theorem template_induction {motive : Text → Prop} (nil : motive [])
    (name : ∀ r, motive r → motive (placeholder "NAME" ++ r))
    (package : ∀ r, motive r → motive (placeholder "PACKAGE_NAME" ++ r))
    (plain : ∀ c t, after? (placeholder "NAME") (c :: t) = none →
      after? (placeholder "PACKAGE_NAME") (c :: t) = none → motive t → motive (c :: t))
    (t : Text) : motive t := by
  have hlt : ∀ (key r : Text), r.length < (placeholder key ++ r).length := fun key r => by
    rw [List.length_append]
    exact Nat.lt_add_of_pos_left (List.length_pos_iff.2 (placeholder_ne_nil key))
  generalize hn : t.length = n
  induction n using Nat.strongRecOn generalizing t with
  | ind n ih =>
    cases t with
    | nil => exact nil
    | cons c t =>
      cases hname : after? (placeholder "NAME") (c :: t) with
      | some r =>
        rw [Text.after?_eq_some_iff.1 hname] at hn ⊢
        exact name r (ih _ (hn ▸ hlt _ r) r rfl)
      | none =>
        cases hpackage : after? (placeholder "PACKAGE_NAME") (c :: t) with
        | some r =>
          rw [Text.after?_eq_some_iff.1 hpackage] at hn ⊢
          exact package r (ih _ (hn ▸ hlt _ r) r rfl)
        | none => exact plain c t hname hpackage (ih _ (hn ▸ Nat.lt_succ_self _) t rfl)

/-- The value whose place a text starts with, and what follows the place. -/
def valueAt? (f : Fix.NewFile) (t : Text) : Option (Text × Text) :=
  ((after? (placeholder "NAME") t).map (f.className, ·)).or
    ((after? (placeholder "PACKAGE_NAME") t).map (f.package.text, ·))

/-- The template with both values put in at once. -/
def fillOnce (f : Fix.NewFile) (template : Text) : Text := exchange (valueAt? f) template

section

variable (f : Fix.NewFile)

theorem fillOnce_nil : fillOnce f [] = [] := by rw [fillOnce, exchange]

theorem fillOnce_name (r : Text) :
    fillOnce f (placeholder "NAME" ++ r) = f.className ++ fillOnce f r := by
  refine Text.exchange_append (placeholder_ne_nil _) ?_
  rw [valueAt?, Text.after?_eq_some_iff.2 rfl]
  rfl

theorem fillOnce_package (r : Text) :
    fillOnce f (placeholder "PACKAGE_NAME" ++ r) = f.package.text ++ fillOnce f r := by
  refine Text.exchange_append (placeholder_ne_nil _) ?_
  have hname : after? (placeholder "NAME") (placeholder "PACKAGE_NAME" ++ r) = none := rfl
  rw [valueAt?, hname, Text.after?_eq_some_iff.2 rfl]
  rfl

theorem fillOnce_plain {c : Char} {t : Text} (hname : after? (placeholder "NAME") (c :: t) = none)
    (hpackage : after? (placeholder "PACKAGE_NAME") (c :: t) = none) :
    fillOnce f (c :: t) = c :: fillOnce f t := by
  refine Text.exchange_of_none ?_
  rw [valueAt?, hname, hpackage]
  rfl

end

/-- The template with the name of the class put in. -/
def named (name template : Text) : Text := replaceAll (placeholder "NAME") name template

theorem substitute_eq (template : Text) (f : Fix.NewFile) : substitute template f =
    replaceAll (placeholder "PACKAGE_NAME") f.package.text (named f.className template) := rfl

/-- Number of the places for the package. -/
def packagePlaces (t : Text) : Nat := occurrences (placeholder "PACKAGE_NAME") t

section

variable (name : Text)

theorem named_nil : named name [] = [] := by rw [named, replaceAll]

theorem named_name (r : Text) : named name (placeholder "NAME" ++ r) = name ++ named name r :=
  Text.replaceAll_append_self (placeholder_ne_nil _) name r

theorem named_package (r : Text) : named name (placeholder "PACKAGE_NAME" ++ r) =
    placeholder "PACKAGE_NAME" ++ named name r := by
  refine Text.replaceAll_append name ?_
  show occurrences (placeholder "NAME") ('$' :: ("\x7bPACKAGE_NAME\x7d" ++ r)) = _
  rw [Text.occurrences_cons_of_none rfl]
  exact Text.occurrences_append_of_not_mem (by decide)

theorem named_plain {c : Char} {t : Text} (h : after? (placeholder "NAME") (c :: t) = none) :
    named name (c :: t) = c :: named name t := Text.replaceAll_of_none name h

end

theorem packagePlaces_nil : packagePlaces [] = 0 := rfl

theorem packagePlaces_name (r : Text) :
    packagePlaces (placeholder "NAME" ++ r) = packagePlaces r := by
  show occurrences (placeholder "PACKAGE_NAME") ('$' :: ("\x7bNAME\x7d" ++ r)) = _
  rw [Text.occurrences_cons_of_none rfl]
  exact Text.occurrences_append_of_not_mem (by decide)

theorem packagePlaces_package (r : Text) :
    packagePlaces (placeholder "PACKAGE_NAME" ++ r) = packagePlaces r + 1 :=
  Text.occurrences_append_self (d := '$') (p := "\x7bPACKAGE_NAME\x7d") (by decide)

theorem packagePlaces_plain {c : Char} {t : Text}
    (h : after? (placeholder "PACKAGE_NAME") (c :: t) = none) :
    packagePlaces (c :: t) = packagePlaces t := Text.occurrences_cons_of_none h

/-! ## Places that come in with the name -/

/-- The places for the package are left when the name is put in. -/
theorem packagePlaces_le (name t : Text) : packagePlaces t ≤ packagePlaces (named name t) := by
  induction t using template_induction with
  | nil => exact Nat.zero_le _
  | name r ih =>
    rw [packagePlaces_name, named_name]
    exact Nat.le_trans ih (Text.le_occurrences_append ..)
  | package r ih =>
    rw [packagePlaces_package, named_package, packagePlaces_package]
    exact Nat.succ_le_succ ih
  | plain c t hname hpackage ih =>
    rw [packagePlaces_plain hpackage, named_plain name hname]
    exact Nat.le_trans ih (Text.le_occurrences_append _ [c] _)

variable {f : Fix.NewFile} {template : Text}

/-- Filled at once, a template has the braces of the text with the name, but for those of its own places
for the package. -/
theorem count_brace_fillOnce (hp : '\x7b' ∉ f.package.text) (template : Text) :
    (fillOnce f template).count '\x7b' + packagePlaces template =
      (named f.className template).count '\x7b' := by
  induction template using template_induction with
  | nil => rw [fillOnce_nil, named_nil, packagePlaces_nil, List.count_nil]
  | name r ih =>
    rw [fillOnce_name, named_name, packagePlaces_name, List.count_append, List.count_append, ← ih,
      Nat.add_assoc]
  | package r ih =>
    have hplace : (placeholder "PACKAGE_NAME").count '\x7b' = 1 := by decide
    rw [fillOnce_package, named_package, packagePlaces_package, List.count_append, List.count_append,
      List.count_eq_zero.2 hp, hplace, ← ih]
    omega
  | plain c t hname hpackage ih =>
    rw [fillOnce_plain f hname hpackage, named_plain _ hname, packagePlaces_plain hpackage,
      List.count_cons, List.count_cons, ← ih]
    omega

/-- With the package put in too, it has those braces but for all places for the package. -/
theorem count_brace_substitute (hp : '\x7b' ∉ f.package.text) (template : Text) :
    (substitute template f).count '\x7b' + packagePlaces (named f.className template) =
      (named f.className template).count '\x7b' := by
  have hplace : (placeholder "PACKAGE_NAME").count '\x7b' = 1 := by decide
  have hcount := Text.count_replaceAll (d := '$') (p := "\x7bPACKAGE_NAME\x7d") '\x7b' f.package.text
    (by decide) (named f.className template)
  rw [List.count_eq_zero.2 hp, Nat.mul_zero, Nat.add_zero] at hcount
  rw [← hcount, substitute_eq, packagePlaces]
  show _ = _ + occurrences (placeholder "PACKAGE_NAME") _ * (placeholder "PACKAGE_NAME").count '\x7b'
  rw [hplace, Nat.mul_one]
  rfl

/-- If a text before the rest of a template brings in no place for the package, neither does the name in
the rest, and the text is left when the package is put in. -/
theorem replaceAll_package {name u r : Text} (h : packagePlaces (u ++ named name r) = packagePlaces r) :
    packagePlaces (named name r) = packagePlaces r ∧ ∀ package,
      replaceAll (placeholder "PACKAGE_NAME") package (u ++ named name r) =
        u ++ replaceAll (placeholder "PACKAGE_NAME") package (named name r) := by
  have hle := packagePlaces_le name r
  have hge : packagePlaces (named name r) ≤ packagePlaces (u ++ named name r) :=
    Text.le_occurrences_append ..
  have hr : packagePlaces (named name r) = packagePlaces r := by omega
  exact ⟨hr, fun package => Text.replaceAll_append package (h.trans hr.symm)⟩

/-- Where the name makes no place for the package, each value goes to its own places. -/
theorem substitute_eq_fillOnce (h : packagePlaces (named f.className template) = packagePlaces template) :
    substitute template f = fillOnce f template := by
  rw [substitute_eq]
  induction template using template_induction with
  | nil => rw [fillOnce_nil, named_nil, replaceAll]
  | name r ih =>
    rw [packagePlaces_name, named_name] at h
    obtain ⟨hr, hkeep⟩ := replaceAll_package h
    rw [named_name, fillOnce_name, hkeep, ih hr]
  | package r ih =>
    rw [packagePlaces_package, named_package, packagePlaces_package, Nat.add_right_cancel_iff] at h
    rw [named_package, fillOnce_package, Text.replaceAll_append_self (placeholder_ne_nil _), ih h]
  | plain c t hname hpackage ih =>
    rw [packagePlaces_plain hpackage, named_plain _ hname] at h
    obtain ⟨ht, hkeep⟩ := replaceAll_package (u := [c]) h
    rw [named_plain _ hname, fillOnce_plain f hname hpackage, ← ih ht]
    exact hkeep _

theorem renderTemplate_eq (template : Text) (f : Fix.NewFile) :
    renderTemplate template f = (withoutStubs (Text.rows (substitute template f))).flatten := by
  rw [renderTemplate, keptRows_eq]

theorem renderTemplate_eq_iff (hp : '\x7b' ∉ f.package.text) (template : Text) :
    renderTemplate template f = (withoutStubs (Text.rows (fillOnce f template))).flatten ↔
      packagePlaces (named f.className template) = packagePlaces template := by
  rw [renderTemplate_eq]
  constructor
  · intro h
    have hcount := congrArg (List.count '\x7b') h
    rw [← keptRows_eq, ← keptRows_eq, count_brace_keptRows, count_brace_keptRows, Text.flatten_rows,
      Text.flatten_rows] at hcount
    have hfill := count_brace_fillOnce hp template
    have hsubstitute := count_brace_substitute hp template
    omega
  · intro h
    rw [substitute_eq_fillOnce h]

theorem brace_not_mem_of_parse? {x : Text} {p : PackageName} (h : PackageName.parse? x = some p) :
    '\x7b' ∉ p.text := by
  intro hm
  rcases (PackageName.parse?_eq_some_iff.1 h).2 with rfl | hd
  · cases hm
  · rcases Text.isDotted_chars hd _ hm with hc | hc <;> exact absurd hc (by decide)

/-- **Templates are rendered** by putting the values in and leaving out each package line without a
package, with the blank row right behind it, and nothing else; the values go in at once, as they are,
exactly if the name of the class makes no place for the package. -/
theorem rendered_at_once_iff {x : Text} (hp : PackageName.parse? x = some f.package) (template : Text) :
    renderTemplate template f = (withoutStubs (Text.rows (substitute template f))).flatten ∧
    (renderTemplate template f = (withoutStubs (Text.rows (fillOnce f template))).flatten ↔
      packagePlaces (named f.className template) = packagePlaces template) :=
  ⟨renderTemplate_eq template f, renderTemplate_eq_iff (brace_not_mem_of_parse? hp) template⟩

/-- The default package, two blank rows, and a name that is the place of a name. -/
theorem rendered_at_once_iff_named :
    let f : Fix.NewFile := ⟨"$\x7bNAME\x7d", [], [], .default⟩
    let template : Text := "package $\x7bPACKAGE_NAME\x7d\r\n \n\nclass $\x7bNAME\x7d"
    PackageName.parse? " " = some f.package ∧
      packagePlaces (named f.className template) = packagePlaces template ∧
      renderTemplate template f = "\nclass $\x7bNAME\x7d" := by
  intro f template
  have hp : PackageName.parse? " " = some f.package := by decide
  have hplaces : packagePlaces (named f.className template) = packagePlaces template := by
    decide +kernel
  have hfill : fillOnce f template = "package \r\n \n\nclass $\x7bNAME\x7d" := by decide +kernel
  refine ⟨hp, hplaces, ((rendered_at_once_iff hp template).2.2 hplaces).trans ?_⟩
  rw [hfill]
  decide +kernel

/-- A name that is the place of the package is rendered as the package. -/
theorem rendered_package_as_name :
    let f : Fix.NewFile := ⟨"$\x7bPACKAGE_NAME\x7d", [], [], ⟨"a"⟩⟩
    let template : Text := "class $\x7bNAME\x7d \x7b\x7d\n"
    PackageName.parse? "a" = some f.package ∧ renderTemplate template f = "class a \x7b\x7d\n" ∧
      renderTemplate template f ≠ (withoutStubs (Text.rows (fillOnce f template))).flatten := by
  intro f template
  have hfill : fillOnce f template = "class $\x7bPACKAGE_NAME\x7d \x7b\x7d\n" := by decide +kernel
  have hsubstitute : substitute template f = "class a \x7b\x7d\n" := by decide +kernel
  have hrender : renderTemplate template f = "class a \x7b\x7d\n" := by
    rw [renderTemplate, hsubstitute]
    decide +kernel
  refine ⟨by decide, hrender, ?_⟩
  rw [hrender, hfill]
  decide +kernel

end QuickFix.Project
