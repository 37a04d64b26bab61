import QuickFix.Config.Settings
import QuickFix.Proofs.Name

/-!
# The level beside the environment

The filter in force is made of the directives of the level, with those of the environment behind them.
A directive gives way to a later one for the same target, span and field only (`ofDirectives_keeps`), so
the level keeps what the environment does not give again, as long as the environment can be read. If it
cannot be read, both are left out (`filter_of_malformed`). `filter_keeps_iff` says when the level is
kept. All of this holds for any reader of directives.
-/

namespace QuickFix

open QuickFix.Log

namespace Log

/-! ## Directives behind others -/

namespace Directive

/-- The directives are about the same target, span and field. The value of a field may be spelled in
several ways. -/
def SamePlace (d e : Directive) : Prop :=
  d.target? = e.target? ∧ d.span? = e.span? ∧ compareOption compareField d.field? e.field? = .eq

instance (d e : Directive) : Decidable (d.SamePlace e) :=
  inferInstanceAs (Decidable (_ ∧ _ ∧ _))

theorem eq_of_compareList {α : Type} {f : α → α → Ordering} (hf : ∀ a b, f a b = .eq → a = b) :
    ∀ {as bs : List α}, compareList f as bs = .eq → as = bs
  | [], [], _ => rfl
  | a :: as, b :: bs, h => by
    obtain ⟨ha, has⟩ := Ordering.then_eq_eq.1 h
    rw [hf a b ha, eq_of_compareList hf has]

theorem eq_of_compareText {a b : Text} (h : compareText a b = .eq) : a = b := by
  refine eq_of_compareList (fun c d hcd => ?_) h
  exact Char.toNat_inj.1 (Nat.compare_eq_eq.1 hcd)

theorem eq_of_compareOption {α : Type} {f : α → α → Ordering} (hf : ∀ a b, f a b = .eq → a = b)
    {a? b? : Option α} (h : compareOption f a? b? = .eq) : a? = b? := by
  cases a? with
  | none =>
    cases b? with
    | none => rfl
    | some b => cases h
  | some a =>
    cases b? with
    | none => cases h
    | some b => rw [hf a b h]

/-- Only directives about the same are as specific as each other. -/
theorem samePlace_of_compareSpecific {d e : Directive} (h : compareSpecific d e = .eq) :
    d.SamePlace e := by
  simp only [compareSpecific, Ordering.then_eq_eq] at h
  obtain ⟨-, -, -, htarget, hspan, hfield⟩ := h
  have htext : ∀ a b, compareText a b = .eq → a = b := fun _ _ => eq_of_compareText
  exact ⟨eq_of_compareOption htext htarget, eq_of_compareOption htext hspan, hfield⟩

theorem mem_insert {d x : Directive} {es : List Directive} (hx : x ∈ es) (h : ¬d.SamePlace x) :
    x ∈ d.insert es := by
  induction es with
  | nil => cases hx
  | cons e es ih =>
    rw [insert]
    cases hc : compareSpecific d e with
    | gt => exact List.mem_cons_of_mem d hx
    | eq =>
      rcases List.mem_cons.1 hx with rfl | hx
      · exact absurd (samePlace_of_compareSpecific hc) h
      · exact List.mem_cons_of_mem d hx
    | lt =>
      rcases List.mem_cons.1 hx with rfl | hx
      · exact List.mem_cons_self
      · exact List.mem_cons_of_mem e (ih hx)

theorem mem_foldl_insert {x : Directive} {ds es : List Directive} (hx : x ∈ es)
    (h : ∀ d ∈ ds, ¬d.SamePlace x) : x ∈ ds.foldl (fun es d => d.insert es) es := by
  induction ds generalizing es with
  | nil => exact hx
  | cons d ds ih =>
    obtain ⟨hd, hds⟩ := List.forall_mem_cons.1 h
    exact ih (mem_insert hx hd) hds

theorem mem_foldl_insert_append {p : Directive → Bool} {x : Directive} {ds es fs : List Directive}
    (hx : x ∈ (ds.filter p).foldl (fun es d => d.insert es) fs) (h : ∀ e ∈ es, ¬e.SamePlace x) :
    x ∈ ((ds ++ es).filter p).foldl (fun es d => d.insert es) fs := by
  rw [List.filter_append, List.foldl_append]
  exact mem_foldl_insert hx fun e he => h e (List.mem_filter.1 he).1

end Directive

namespace Filter

/-- The filter `g` has the directives of `f`, but for those about something that one of the directives
`given` is about too. -/
structure Keeps (f g : Filter) (given : List Directive) : Prop where
  fixed : ∀ d ∈ f.fixed, (∀ e ∈ given, ¬e.SamePlace d) → d ∈ g.fixed
  dynamic : ∀ d ∈ f.dynamic, (∀ e ∈ given, ¬e.SamePlace d) → d ∈ g.dynamic

theorem ofDirectives_keeps (ds es : List Directive) :
    (ofDirectives ds).Keeps (ofDirectives (ds ++ es)) es where
  fixed _ hd h := Directive.mem_foldl_insert_append hd h
  dynamic _ hd h := Directive.mem_foldl_insert_append hd h

/-! ## Reading -/

theorem parse_of_ok {t : Text} {read : Directive.Reader} {ds : List Directive}
    (h : directives t read = .ok ds) : parse t read = .ok (ofDirectives ds) := by
  rw [parse, h]
  rfl

theorem parse_of_error {t : Text} {read : Directive.Reader} {e : DirectiveError}
    (h : directives t read = .error e) : parse t read = .error e := by
  rw [parse, h]
  rfl

theorem directives_append (a b : Text) (read : Directive.Reader) :
    directives (a ++ ',' :: b) read =
      (directives a read).bind fun ds => (directives b read).map fun es => ds ++ es := by
  rw [directives, List.splitOn_append_cons_self, List.filter_append, List.mapM_append]
  rfl

end Filter

end Log

namespace LogSettings

/-! ## The filter in force -/

/-- The environment has nothing that is no directive; it need not have any. -/
def IsReadable (read : Directive.Reader) (environment? : Option Text) : Prop :=
  ∀ e ∈ environment?, ∃ ds, Filter.directives (Text.trim e) read = .ok ds

/-- The directives of the environment, none if it cannot be read. -/
def given (read : Directive.Reader) (environment? : Option Text) : List Directive :=
  match environment?.map fun e => Filter.directives (Text.trim e) read with
  | some (.ok ds) => ds
  | _ => []

/-- The filter that is in force where nothing can be read. -/
def fallback : Filter := .ofDirectives [⟨none, none, none, some .info⟩]

variable {read : Directive.Reader} {s : LogSettings} {environment? : Option Text}
  {ds : List Directive}

theorem exists_of_levelProblem? (h : s.levelProblem? read = none) :
    ∃ ds, Filter.directives s.directives read = .ok ds := by
  cases hd : Filter.directives s.directives read with
  | ok ds => exact ⟨ds, rfl⟩
  | error e =>
    rw [levelProblem?, Filter.parse_of_error hd] at h
    cases h

theorem toOption_parse_of_ok {t : Text} (h : Filter.directives t read = .ok ds) :
    (Filter.parse t read).toOption = some (.ofDirectives ds) := by
  rw [Filter.parse_of_ok h]
  rfl

theorem filter_of_blank (h : ∀ e ∈ environment?, Text.trim e = []) :
    s.filter environment? read = ((Filter.parse s.directives read).toOption).getD fallback := by
  cases environment? with
  | none => simp [LogSettings.filter, fallback]
  | some e => simp [LogSettings.filter, fallback, h e rfl, Option.filter]

/-- What the environment gives is first read behind the level, then alone. -/
theorem filter_of_ne {e : Text} (h : Text.trim e ≠ []) :
    s.filter (some e) read = ((Filter.parse (s.directives ++ ',' :: Text.trim e) read).toOption.or
      (Filter.parse (Text.trim e) read).toOption).getD fallback := by
  have hgiven : ((some e).map Text.trim).filter (fun e => !e.isEmpty) = some (Text.trim e) := by
    simp [Option.filter, h]
  have hboth : s.directives ++ "," ++ Text.trim e = s.directives ++ ',' :: Text.trim e := by simp
  rw [LogSettings.filter, hgiven]
  simp only [hboth, List.findSome?_cons, List.findSome?_nil]
  cases (Filter.parse (s.directives ++ ',' :: Text.trim e) read).toOption with
  | some f => rfl
  | none => cases (Filter.parse (Text.trim e) read).toOption <;> rfl

/-- The environment comes behind the level. -/
theorem filter_of_readable (hs : Filter.directives s.directives read = .ok ds)
    (he : IsReadable read environment?) :
    s.filter environment? read = .ofDirectives (ds ++ given read environment?) := by
  cases environment? with
  | none =>
    rw [filter_of_blank (by simp), toOption_parse_of_ok hs]
    simp [given]
  | some e =>
    obtain ⟨es, hes⟩ := he e rfl
    have hgiven : given read (some e) = es := by simp [given, hes]
    rw [hgiven]
    by_cases hblank : Text.trim e = []
    · obtain rfl : [] = es := by
        rw [hblank] at hes
        exact Except.ok.inj hes
      rw [filter_of_blank (by simpa using hblank), toOption_parse_of_ok hs, List.append_nil]
      rfl
    · have hboth : Filter.directives (s.directives ++ ',' :: Text.trim e) read = .ok (ds ++ es) := by
        rw [Filter.directives_append, hs, hes]
        rfl
      rw [filter_of_ne hblank, toOption_parse_of_ok hboth]
      rfl

/-- What cannot be read of the environment leaves out the level too. -/
theorem filter_of_malformed (he : ¬IsReadable read environment?) :
    s.filter environment? read = fallback ∧ given read environment? = [] := by
  obtain ⟨e, problem, rfl, halone⟩ :
      ∃ e p, environment? = some e ∧ Filter.directives (Text.trim e) read = .error p := by
    cases environment? with
    | none => exact absurd (fun e he => by cases he) he
    | some e =>
      cases h : Filter.directives (Text.trim e) read with
      | error p => exact ⟨e, p, rfl, h⟩
      | ok ds => exact absurd (fun _ hsome => Option.some.inj hsome ▸ ⟨ds, h⟩) he
  have hne : Text.trim e ≠ [] := by
    intro hnil
    rw [hnil] at halone
    cases halone
  obtain ⟨problem', hboth⟩ :
      ∃ p, Filter.directives (s.directives ++ ',' :: Text.trim e) read = .error p := by
    rw [Filter.directives_append, halone]
    cases Filter.directives s.directives read with
    | error p => exact ⟨p, rfl⟩
    | ok ds => exact ⟨problem, rfl⟩
  constructor
  · rw [filter_of_ne hne, Filter.parse_of_error halone, Filter.parse_of_error hboth]
    rfl
  · simp [given, halone]

/-- A level that can be read stays in force beside the environment, except for what the environment
gives again, exactly when the environment can be read or the level says no more than `info`. -/
theorem filter_keeps_iff (h : s.levelProblem? read = none) (environment? : Option Text) :
    ∃ f, Filter.parse s.directives read = .ok f ∧
      (f.Keeps (s.filter environment? read) (given read environment?) ↔ IsReadable read environment? ∨
        f.dynamic = [] ∧ ∀ d ∈ f.fixed, d = ⟨none, none, none, some .info⟩) := by
  obtain ⟨ds, hs⟩ := exists_of_levelProblem? h
  refine ⟨.ofDirectives ds, Filter.parse_of_ok hs, ?_⟩
  by_cases he : IsReadable read environment?
  · rw [filter_of_readable hs he]
    exact ⟨fun _ => .inl he, fun _ => Filter.ofDirectives_keeps ds _⟩
  · obtain ⟨hfilter, hgiven⟩ := filter_of_malformed (s := s) he
    rw [hfilter, hgiven]
    constructor
    · intro hkeeps
      refine .inr ⟨List.eq_nil_iff_forall_not_mem.2 fun d hd => ?_, fun d hd => ?_⟩
      · cases hkeeps.dynamic d hd (by simp)
      · exact List.mem_singleton.1 (hkeeps.fixed d hd (by simp))
    · rintro (hreadable | ⟨hdynamic, hfixed⟩)
      · exact absurd hreadable he
      · refine ⟨fun d hd _ => ?_, fun d hd _ => ?_⟩
        · exact List.mem_singleton.2 (hfixed d hd)
        · rw [hdynamic] at hd
          cases hd

theorem filter_keeps_iff_span :
    (⟨"debug,a[b]=warn", false, true, 2000⟩ : LogSettings).levelProblem? = none ∧
    ∃ f, Filter.parse "debug,a[b]=warn" = .ok f ∧
      f.Keeps (LogSettings.filter ⟨"debug,a[b]=warn", false, true, 2000⟩ (some "a[b]=info,c=off"))
        (given .lenient (some "a[b]=info,c=off")) := by
  have h : (⟨"debug,a[b]=warn", false, true, 2000⟩ : LogSettings).levelProblem? = none := by
    decide +kernel
  obtain ⟨f, hf, hkeeps⟩ := filter_keeps_iff h (some "a[b]=info,c=off")
  have hreadable : IsReadable .lenient (some "a[b]=info,c=off") :=
    fun e he => Option.some.inj he ▸ ⟨_, rfl⟩
  exact ⟨h, f, hf, hkeeps.2 (.inl hreadable)⟩

/-- A level of `debug` is lost if the environment has a directive with a bound that there is none of. -/
theorem filter_lost :
    ∃ f d, (⟨"debug", false, true, 2000⟩ : LogSettings).levelProblem? = none ∧
      Filter.parse "debug" = .ok f ∧ d ∈ f.fixed ∧
      (∀ e ∈ given .lenient (some "a=b"), ¬e.SamePlace d) ∧
      d ∉ (LogSettings.filter ⟨"debug", false, true, 2000⟩ (some "a=b")).fixed := by
  refine ⟨⟨[⟨none, none, none, some .debug⟩], []⟩, ⟨none, none, none, some .debug⟩, ?_⟩
  exact ⟨by decide +kernel, rfl, by decide, by decide +kernel, by decide +kernel⟩

end LogSettings

end QuickFix
