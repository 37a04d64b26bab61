import QuickFix.Fix.CodeAction
import QuickFix.Proofs.Text.Places

/-!
# Which actions are offered

The actions for a selection are those that its diagnostics ask for (`Asks`), in their order and one for
each name (`Offered`).

* `actionFor?_eq_some_iff`: which action a diagnostic gives;
* `distinctTitles_eq_of_offered`: leaving out titles that were there is leaving out names that were
  there, since a title has its name in it (`createText_eq`);
* `CommandArgs.ofJson_toJson`: the arguments of the command read back as they were;
* `offered_actions`: all of it, for the list of actions.
-/

namespace QuickFix.Fix

open Text

/-! ## What a diagnostic asks for -/

/-- Two stretches meet: one is empty and the other holds or touches it, or both hold a byte. -/
inductive Meet : Span → Span → Prop
  | point {n : Nat} {b : Span} : b.start ≤ n → n ≤ b.stop → Meet (.point n) b
  | around {n : Nat} {a : Span} : a.start ≤ n → n ≤ a.stop → Meet a (.point n)
  | byte {a b : Span} (n : Nat) :
    a.start ≤ n → n < a.stop → b.start ≤ n → n < b.stop → Meet a b

/-- A letter of ASCII or a low line. -/
def IsLetter (c : Char) : Prop := c = '_' ∨ 'A' ≤ c ∧ c ≤ 'Z' ∨ 'a' ≤ c ∧ c ≤ 'z'

/-- A name of such letters and of digits, of which none comes first. -/
def IsSimple (name : Text) : Prop :=
  ∃ c t, name = c :: t ∧ IsLetter c ∧ ∀ d ∈ t, IsLetter d ∨ '0' ≤ d ∧ d ≤ '9'

/-- The name that a diagnostic at a stretch of the source is about: the text of the stretch, or what
the message has between backquotes if the stretch is empty. -/
def IsNamed (source : Text) (span : Span) (d : Diagnostic) (name : Text) : Prop :=
  (span.start < span.stop ∧
    ∃ a b, source = a ++ (name ++ b) ∧ bytes a = span.start ∧ bytes (a ++ name) = span.stop) ∨
  (span.start = span.stop ∧ d.message = "unresolved type \x60" ++ name ++ "\x60")

/-- The diagnostic asks for the class `name` where the selection is. -/
structure Asks (source : Text) (selection : Span) (d : Diagnostic) (name : Text) : Prop where
  code : d.code? = some (.text "unresolved-type")
  place : ∃ span, Text.span? source d.range.start d.range.stop = some span ∧ Meet span selection ∧
    IsNamed source span d name
  simple : IsSimple name

/-- The action that the diagnostic gives for the name it asks for. -/
def actionAbout (uri : Uri) (d : Diagnostic) (name : Text) : CodeAction :=
  ⟨⟨uri, d.range, name, .plain, false⟩, d⟩

/-- The actions for diagnostics, in their order, behind others for the names `seen`: one for each name
that is asked for and not seen. -/
inductive Offered (source : Text) (uri : Uri) (selection : Span) :
    List Text → List Diagnostic → List CodeAction → Prop
  | nil (seen : List Text) : Offered source uri selection seen [] []
  | idle {seen : List Text} {d : Diagnostic} {ds : List Diagnostic} {as : List CodeAction} :
    (∀ name, ¬Asks source selection d name) → Offered source uri selection seen ds as →
    Offered source uri selection seen (d :: ds) as
  | again {seen : List Text} {d : Diagnostic} {ds : List Diagnostic} {as : List CodeAction}
      {name : Text} :
    Asks source selection d name → name ∈ seen → Offered source uri selection seen ds as →
    Offered source uri selection seen (d :: ds) as
  | first {seen : List Text} {d : Diagnostic} {ds : List Diagnostic} {as : List CodeAction}
      {name : Text} :
    Asks source selection d name → name ∉ seen →
    Offered source uri selection (name :: seen) ds as →
    Offered source uri selection seen (d :: ds) (actionAbout uri d name :: as)

theorem meets_iff {a b : Span} (ha : a.start ≤ a.stop) (hb : b.start ≤ b.stop) :
    meets a b = true ↔ Meet a b := by
  obtain ⟨i, j⟩ := a
  obtain ⟨m, n⟩ := b
  simp only [meets, Span.isEmpty, beq_iff_eq]
  constructor
  · intro h
    split at h
    · rename_i he
      subst he
      simp only [Bool.and_eq_true, decide_eq_true_eq] at h
      exact .point h.1 h.2
    · split at h
      · rename_i he
        subst he
        simp only [Bool.and_eq_true, decide_eq_true_eq] at h
        exact .around h.1 h.2
      · simp only [Bool.and_eq_true, decide_eq_true_eq] at h ha hb
        exact .byte (max i m) (by dsimp only; omega) (by dsimp only; omega) (by dsimp only; omega)
          (by dsimp only; omega)
  · rintro (⟨h₁, h₂⟩ | ⟨h₁, h₂⟩ | ⟨k, h₁, h₂, h₃, h₄⟩)
    · simp [h₁, h₂]
    · simp only [if_true]
      split
      · rename_i he
        subst he
        simp only at h₁ h₂
        simp; omega
      · simp [h₁, h₂]
    · simp only at h₁ h₂ h₃ h₄
      rw [if_neg (by omega), if_neg (by omega)]
      simp; omega

theorem isSimpleName_iff {name : Text} : isSimpleName name = true ↔ IsSimple name := by
  have hletter : ∀ c : Char, (c = '_' || c.isAlpha) = true ↔ IsLetter c := by
    intro c
    have halpha : c.isAlpha = (c.isUpper || c.isLower) := rfl
    have hupper : c.isUpper = decide ('A' ≤ c ∧ c ≤ 'Z') := rfl
    have hlower : c.isLower = (decide ('a' ≤ c) && decide (c ≤ 'z')) := rfl
    simp [IsLetter, halpha, hupper, hlower]
  have hmore : ∀ c : Char, (c = '_' || c.isAlphanum) = true ↔ IsLetter c ∨ '0' ≤ c ∧ c ≤ '9' := by
    intro c
    rw [Char.isAlphanum, ← Bool.or_assoc, Bool.or_eq_true, hletter]
    simp [Char.isDigit, Char.le_def]
  cases name with
  | nil =>
    constructor
    · intro h
      cases h
    · rintro ⟨c, t, h, -⟩
      cases h
  | cons c t =>
    simp only [isSimpleName, Bool.and_eq_true, hletter, List.all_eq_true, hmore]
    constructor
    · exact fun h => ⟨c, t, rfl, h⟩
    · rintro ⟨_, _, h, hc, ht⟩
      obtain ⟨rfl, rfl⟩ := List.cons.inj h
      exact ⟨hc, ht⟩

theorem nameInMessage?_eq_some_iff {d : Diagnostic} {name : Text} :
    d.nameInMessage? = some name ↔ d.message = "unresolved type \x60" ++ name ++ "\x60" := by
  have hopen : ("unresolved type " ++ ['\x60'] : Text) = "unresolved type \x60" := by decide
  rw [Diagnostic.nameInMessage?, hopen]
  constructor
  · intro h
    obtain ⟨rest, hrest, h⟩ := Option.bind_eq_some_iff.1 h
    split at h
    · rename_i hlast
      obtain ⟨x, rfl⟩ := List.getLast?_eq_some_iff.1 hlast
      rw [List.dropLast_concat] at h
      obtain rfl := Option.some.inj h
      rw [after?_eq_some_iff.1 hrest, List.append_assoc]
      rfl
    · cases h
  · intro h
    have hrest : after? "unresolved type \x60" d.message = some (name ++ ['\x60']) := by
      rw [after?_eq_some_iff, h, List.append_assoc]
      rfl
    rw [hrest]
    simp

/-- The text of a stretch between two positions. -/
theorem exists_of_span? {t : Text} {p q : Position} {s : Span} (h : span? t p q = some s) :
    s.start ≤ s.stop ∧
      ∃ a m b, t = a ++ (m ++ b) ∧ bytes a = s.start ∧ bytes (a ++ m) = s.stop := by
  obtain ⟨hstart, hstop, -⟩ := span?_eq_some_iff.1 h
  have hle : s.start ≤ s.stop := by
    simp only [span?, hstart, hstop, Option.bind_eq_bind, Option.bind_some] at h
    split at h
    · assumption
    · cases h
  obtain ⟨a, b, ht, ha, -⟩ := isPlace_of_offset? hstart
  obtain ⟨a', b', ht', ha', -⟩ := isPlace_of_offset? hstop
  obtain ⟨m, rfl, rfl⟩ := exists_of_bytes_le (ht.symm.trans ht') (by omega)
  exact ⟨hle, a, m, b', ht, ha, ha'⟩

theorem nameAt?_eq_some_iff {source name : Text} {p q : Position} {span : Span} {d : Diagnostic}
    (h : span? source p q = some span) :
    nameAt? source span d = some name ↔ IsNamed source span d name := by
  obtain ⟨hle, a, m, b, hs, ha, hm⟩ := exists_of_span? h
  have hslice : slice? span.start span.stop source = some m :=
    slice?_eq_some_iff.2 ⟨a, b, hs, ha, by rw [← hm, ← ha, bytes_append]⟩
  have hwidth : span.stop = span.start + bytes m := by rw [← hm, ← ha, bytes_append]
  rw [nameAt?, hslice, Option.getD_some]
  cases m with
  | nil =>
    rw [bytes_nil] at hwidth
    rw [nameInMessage?_eq_some_iff]
    constructor
    · exact fun hd => .inr ⟨hwidth.symm, hd⟩
    · rintro (⟨hlt, -⟩ | ⟨-, hd⟩)
      · omega
      · exact hd
  | cons c m =>
    have hpos : 0 < bytes (c :: m) := bytes_pos (List.cons_ne_nil c m)
    constructor
    · intro hname
      obtain rfl := Option.some.inj hname
      exact .inl ⟨by omega, a, b, hs, ha, hm⟩
    · rintro (⟨-, a', b', hs', ha', hm'⟩ | ⟨he, -⟩)
      · have hslice' : slice? span.start span.stop source = some name :=
          slice?_eq_some_iff.2 ⟨a', b', hs', ha', by rw [← hm', ← ha', bytes_append]⟩
        exact hslice.symm.trans hslice'
      · omega

/-- Which action a diagnostic gives. -/
theorem actionFor?_eq_some_iff {source : Text} {uri : Uri} {p q : Position} {selection : Span}
    (h : span? source p q = some selection) {d : Diagnostic} {a : CodeAction} :
    actionFor? source uri selection d = some a ↔
      ∃ name, Asks source selection d name ∧ a = actionAbout uri d name := by
  have hselection := (exists_of_span? h).1
  constructor
  · intro ha
    unfold actionFor? at ha
    split at ha
    · rename_i hcode
      obtain ⟨span, hspan, ha⟩ := Option.bind_eq_some_iff.1 ha
      by_cases hmeets : meets span selection = true
      · simp only [if_pos hmeets] at ha
        obtain ⟨name, hname, ha⟩ := Option.bind_eq_some_iff.1 ha
        obtain ⟨hsimple, ha⟩ := Option.ite_none_right_eq_some.1 ha
        have hmeet := (meets_iff (exists_of_span? hspan).1 hselection).1 hmeets
        have hnamed := (nameAt?_eq_some_iff hspan).1 hname
        have hcode : d.code? = some (.text Diagnostic.unresolvedType) := of_decide_eq_true hcode
        have hasks : Asks source selection d name :=
          ⟨hcode, ⟨span, hspan, hmeet, hnamed⟩, isSimpleName_iff.1 hsimple⟩
        exact ⟨name, hasks, (Option.some.inj ha).symm⟩
      · simp only [if_neg hmeets] at ha
        cases ha
    · cases ha
  · rintro ⟨name, ⟨hcode, ⟨span, hspan, hmeet, hname⟩, hsimple⟩, rfl⟩
    have hcode' : d.code? = some (.text Diagnostic.unresolvedType) := hcode
    have hcode : d.isUnresolvedType = true := decide_eq_true hcode'
    have hspan' : Range.span? d.range source = some span := hspan
    have hmeets := (meets_iff (exists_of_span? hspan).1 hselection).2 hmeet
    simp only [actionFor?, if_pos hcode, hspan', if_pos hmeets, (nameAt?_eq_some_iff hspan).2 hname,
      if_pos (isSimpleName_iff.2 hsimple), Option.bind_eq_bind, Option.bind_some, actionAbout,
      Option.pure_def]

/-! ## One action for each name -/

theorem createText_eq (name : Text) : createText name = "Create class '" ++ (name ++ "'") := by
  have hplace : around? (Message.place 0) Message.createClass.pattern =
      some (("Create class '" : Text), ("'" : Text)) := by decide
  have hrest : around? (Message.place 0) "'" = none := by decide
  have hnonempty : Message.place 0 ≠ [] := List.cons_ne_nil _ _
  show replaceAll (Message.place 0) name Message.createClass.pattern = _
  rw [replaceAll_of_around? name hnonempty hplace, replaceAll_eq_self name hrest]

theorem createText_injective {m n : Text} (h : createText m = createText n) : m = n := by
  rw [createText_eq, createText_eq] at h
  exact List.append_cancel_right (List.append_cancel_left h)

section

variable {source : Text} {uri : Uri} {selection : Span} {seen : List Text} {ds : List Diagnostic}
  {as : List CodeAction}

theorem exists_offered (source : Text) (uri : Uri) (selection : Span) (seen : List Text)
    (ds : List Diagnostic) : ∃ as, Offered source uri selection seen ds as := by
  induction ds generalizing seen with
  | nil => exact ⟨[], .nil seen⟩
  | cons d ds ih =>
    by_cases h : ∃ name, Asks source selection d name
    · obtain ⟨name, hname⟩ := h
      by_cases hseen : name ∈ seen
      · obtain ⟨as, has⟩ := ih seen
        exact ⟨as, .again hname hseen has⟩
      · obtain ⟨as, has⟩ := ih (name :: seen)
        exact ⟨_, .first hname hseen has⟩
    · obtain ⟨as, has⟩ := ih seen
      exact ⟨as, .idle (not_exists.1 h) has⟩

/-- Behind actions for the names seen, those that are left have new titles. -/
theorem distinctTitles_eq_of_offered {p q : Position} (hs : span? source p q = some selection)
    (h : Offered source uri selection seen ds as) {kept : List CodeAction}
    (hkept : ∀ name, name ∈ seen ↔ ∃ a ∈ kept, a.args.name = name) :
    (ds.filterMap (actionFor? source uri selection)).foldl
      (fun kept a => if kept.any fun b => b.title = a.title then kept else kept ++ [a]) kept =
        kept ++ as := by
  have hany : ∀ (kept : List CodeAction) (d : Diagnostic) (name : Text),
      (kept.any fun b => b.title = (actionAbout uri d name).title) = true ↔
        ∃ a ∈ kept, a.args.name = name := by
    intro kept d name
    simp only [List.any_eq_true, decide_eq_true_eq]
    constructor
    · exact fun ⟨b, hb, he⟩ => ⟨b, hb, createText_injective he⟩
    · exact fun ⟨b, hb, he⟩ => ⟨b, hb, congrArg createText he⟩
  induction h generalizing kept with
  | nil => exact (List.append_nil kept).symm
  | @idle seen d ds as hnone _ ih =>
    have hd : actionFor? source uri selection d = none := by
      refine Option.eq_none_iff_forall_ne_some.2 fun a ha => ?_
      obtain ⟨name, hname, -⟩ := (actionFor?_eq_some_iff hs).1 ha
      exact hnone name hname
    rw [List.filterMap_cons_none hd]
    exact ih hkept
  | @again seen d ds as name hname hseen _ ih =>
    have hd : actionFor? source uri selection d = some (actionAbout uri d name) :=
      (actionFor?_eq_some_iff hs).2 ⟨name, hname, rfl⟩
    rw [List.filterMap_cons_some hd, List.foldl_cons,
      if_pos ((hany kept d name).2 ((hkept name).1 hseen))]
    exact ih hkept
  | @first seen d ds as name hname hseen _ ih =>
    have hd : actionFor? source uri selection d = some (actionAbout uri d name) :=
      (actionFor?_eq_some_iff hs).2 ⟨name, hname, rfl⟩
    have hnew : ¬∃ a ∈ kept, a.args.name = name := fun h => hseen ((hkept name).2 h)
    rw [List.filterMap_cons_some hd, List.foldl_cons, if_neg ((hany kept d name).not.2 hnew), ih,
      List.append_assoc]
    · rfl
    · intro other
      rw [List.mem_cons, hkept]
      simp only [List.mem_append, List.mem_singleton, or_and_right, exists_or, exists_eq_left]
      rw [or_comm, eq_comm]
      rfl

theorem Offered.not_mem_seen (h : Offered source uri selection seen ds as) :
    ∀ a ∈ as, a.args.name ∉ seen := by
  induction h with
  | nil => exact fun _ ha => absurd ha List.not_mem_nil
  | idle _ _ ih | again _ _ _ ih => exact ih
  | first _ hseen _ ih =>
    exact List.forall_mem_cons.2 ⟨hseen, fun a ha hm => ih a ha (List.mem_cons_of_mem _ hm)⟩

theorem Offered.nodup_titles (h : Offered source uri selection seen ds as) :
    (as.map CodeAction.title).Nodup := by
  induction h with
  | nil => exact List.nodup_nil
  | idle _ _ ih | again _ _ _ ih => exact ih
  | first _ _ h ih =>
    refine List.nodup_cons.2 ⟨fun hm => ?_, ih⟩
    obtain ⟨a, ha, htitle⟩ := List.mem_map.1 hm
    exact h.not_mem_seen a ha (createText_injective htitle ▸ List.mem_cons_self)

/-- An action is about a diagnostic, for the name it asks for. -/
theorem Offered.exists_asks (h : Offered source uri selection seen ds as) {a : CodeAction}
    (ha : a ∈ as) : ∃ d ∈ ds, ∃ name, Asks source selection d name ∧ a = actionAbout uri d name := by
  induction h with
  | nil => cases ha
  | idle _ _ ih | again _ _ _ ih =>
    obtain ⟨d, hd, hname⟩ := ih ha
    exact ⟨d, List.mem_cons_of_mem _ hd, hname⟩
  | first hname _ _ ih =>
    rcases List.mem_cons.1 ha with rfl | ha
    · exact ⟨_, List.mem_cons_self, _, hname, rfl⟩
    · obtain ⟨d, hd, hname⟩ := ih ha
      exact ⟨d, List.mem_cons_of_mem _ hd, hname⟩

end

end QuickFix.Fix

namespace QuickFix

/-! ## The arguments of the command -/

/-- The line and the column of a position are words of 32 bits. -/
def Position.Fits (p : Position) : Prop := p.line < 4294967296 ∧ p.column < 4294967296

namespace Json

theorem asWord_nat {n : Nat} (h : n < 4294967296) : asWord (.nat n) = .ok n := by
  have hfits : fitsUnsigned32 (n : Int) = true := by
    simp only [fitsUnsigned32, Bool.and_eq_true, decide_eq_true_eq]
    omega
  simp only [nat, asWord, if_pos hfits, Int.toNat_natCast]

theorem asPosition_toJson {p : Position} (h : p.Fits) : asPosition p.toJson = .ok p := by
  refine asRecord_members _ [.nat p.line, .nat p.column] (by decide) rfl ?_
  simp only [List.zip_cons_cons, List.zip_nil_right, List.foldlM_cons, List.foldlM_nil, Field.required,
    asWord_nat h.1, asWord_nat h.2]
  rfl

theorem asRange_toJson {r : Range} (h : r.start.Fits ∧ r.stop.Fits) :
    asRange r.toJson = .ok r := by
  refine asRecord_members _ [r.start.toJson, r.stop.toJson] (by decide) rfl ?_
  simp only [List.zip_cons_cons, List.zip_nil_right, List.foldlM_cons, List.foldlM_nil, Field.required,
    asPosition_toJson h.1, asPosition_toJson h.2]
  rfl

theorem asClassKind_name (k : ClassKind) : asClassKind (.text k.name) = .ok k := by
  have helem : (ClassKind.all.map ClassKind.name).elem k.name = true := by cases k <;> decide
  have hfind : (ClassKind.all.find? fun l => l.name = k.name) = some k := by cases k <;> decide
  simp only [asClassKind, asChoice, helem, if_true]
  show Except.ok ((ClassKind.all.find? fun l => l.name = k.name).getD .plain) = _
  rw [hfind]
  rfl

end Json

namespace Fix
open Json

/-- The arguments of the command read back as they were. -/
theorem CommandArgs.ofJson_toJson {a : CommandArgs} {t : Text} (hu : Uri.parse t = .ok a.uri)
    (hr : a.range.start.Fits ∧ a.range.stop.Fits) : ofJson a.toJson = .ok a := by
  have huri : asUri (.text a.uri.text) = .ok a.uri := by
    have ht : a.uri = ⟨t⟩ := by
      unfold Uri.parse at hu
      cases hread : Uri.read t with
      | error e => rw [hread] at hu; cases hu
      | ok u => rw [hread] at hu; exact (Except.ok.inj hu).symm
    rw [ht] at hu ⊢
    show (Uri.parse t).mapError _ = _
    rw [hu]
    rfl
  refine asRecord_members _ [.text a.uri.text, a.range.toJson, .text a.name, .text a.kind.name,
    .bool a.addConstructor] (by decide) rfl ?_
  simp only [List.zip_cons_cons, List.zip_nil_right, List.foldlM_cons, List.foldlM_nil, Field.required,
    Field.optional, huri, asRange_toJson hr, asClassKind_name]
  rfl

/-- The argument of the command, in an action as data. -/
def CodeAction.argument? (a : CodeAction) : Option Json := do
  let command ← a.toJson.field? "command"
  let arguments ← command.field? "arguments"
  match arguments with
  | .list [argument] => some argument
  | _ => none

theorem CodeAction.argument?_eq (a : CodeAction) : a.argument? = some a.args.toJson := rfl

/-- **The actions that are offered** for a selection are none if it is no stretch of the source, and
else those that the diagnostics ask for, in their order and the first for each name. No two have the
same title, and the argument of an action's command reads back as arguments whose fix offers what the
title says. -/
theorem offered_actions (source t : Text) (uri : Uri) (selection : Range) (ds : List Diagnostic) :
    (∀ as, codeActions source uri selection ds = as ↔
      (Text.span? source selection.start selection.stop = none ∧ as = []) ∨
      ∃ span, Text.span? source selection.start selection.stop = some span ∧
        Offered source uri span [] ds as) ∧
    ((codeActions source uri selection ds).map CodeAction.title).Nodup ∧
    (Uri.parse t = .ok uri → (∀ d ∈ ds, d.range.start.Fits ∧ d.range.stop.Fits) →
      ∀ a ∈ codeActions source uri selection ds, ∃ argument args, a.argument? = some argument ∧
        CommandArgs.ofJson argument = .ok args ∧ ∀ file,
          (⟨args.reference file, args.addConstructor⟩ : CreateClass).text = a.title) := by
  cases hs : Text.span? source selection.start selection.stop with
  | none =>
    have hactions : codeActions source uri selection ds = [] := by
      simp only [codeActions, Range.span?, hs]
    rw [hactions]
    refine ⟨fun as => ⟨fun h => .inl ⟨rfl, h.symm⟩, ?_⟩, List.nodup_nil,
      fun _ _ a ha => absurd ha List.not_mem_nil⟩
    rintro (⟨-, h⟩ | ⟨span, h, -⟩)
    · exact h.symm
    · cases h
  | some span =>
    have hactions : ∀ as, Offered source uri span [] ds as →
        codeActions source uri selection ds = as := by
      intro as h
      simp only [codeActions, Range.span?, hs, distinctTitles]
      exact distinctTitles_eq_of_offered hs h fun name => ⟨nofun, fun ⟨a, ha, _⟩ => by cases ha⟩
    obtain ⟨as, has⟩ := exists_offered source uri span [] ds
    rw [hactions as has]
    refine ⟨fun bs => ⟨fun h => .inr ⟨span, rfl, h ▸ has⟩, ?_⟩, has.nodup_titles, ?_⟩
    · rintro (⟨h, -⟩ | ⟨span', h, hbs⟩)
      · cases h
      · obtain rfl := Option.some.inj h
        rw [← hactions bs hbs, hactions as has]
    · intro huri hds a ha
      obtain ⟨d, hd, name, -, rfl⟩ := has.exists_asks ha
      exact ⟨_, _, CodeAction.argument?_eq _, CommandArgs.ofJson_toJson huri (hds d hd), fun _ => rfl⟩

theorem offered_actions_twice :
    let source : Text := "𐐀 Foo\nFoo"
    let uri : Uri := ⟨"file:///a"⟩
    let selection : Range := ⟨⟨0, 2⟩, ⟨1, 3⟩⟩
    let unresolved (range : Range) (message : Text) : Diagnostic :=
      ⟨range, none, some (.text "unresolved-type"), none, none, message, none, none, none⟩
    let ds := [unresolved ⟨⟨0, 3⟩, ⟨0, 6⟩⟩ [], unresolved ⟨⟨1, 0⟩, ⟨1, 3⟩⟩ [],
      unresolved ⟨⟨1, 3⟩, ⟨1, 3⟩⟩ "unresolved type \x60_B1\x60", unresolved ⟨⟨0, 1⟩, ⟨0, 6⟩⟩ []]
    (Uri.parse "file:///a" = .ok uri ∧ ∀ d ∈ ds, d.range.start.Fits ∧ d.range.stop.Fits) ∧
    (codeActions source uri selection ds).map CodeAction.title =
      ["Create class 'Foo'", "Create class '_B1'"] ∧
    ∀ a ∈ codeActions source uri selection ds, ∃ argument args, a.argument? = some argument ∧
      CommandArgs.ofJson argument = .ok args ∧ ∀ file,
        (⟨args.reference file, args.addConstructor⟩ : CreateClass).text = a.title := by
  intro source uri selection unresolved ds
  have huri : Uri.parse "file:///a" = .ok uri := by decide
  have hds : ∀ d ∈ ds, d.range.start.Fits ∧ d.range.stop.Fits := by
    simp [ds, unresolved, Position.Fits]
  have htitles : (codeActions source uri selection ds).map CodeAction.title =
      ["Create class 'Foo'", "Create class '_B1'"] := by decide +kernel
  obtain ⟨-, -, hread⟩ := offered_actions source "file:///a" uri selection ds
  exact ⟨⟨huri, hds⟩, htitles, hread huri hds⟩

end Fix

end QuickFix
