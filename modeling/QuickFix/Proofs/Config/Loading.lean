import QuickFix.Proofs.Config.Reading
import QuickFix.Proofs.Toml.Keys

/-!
# What loaded settings say

Settings are ten leaves in three tables. A leaf of the loaded settings has the value that the document
gives, unchanged, or else its default.

* `loadSilently_eq`: the two ways of loading give the same settings;
* `ReadsAs.value_leaf`: each leaf is what the document says;
* `exists_readsAs`: the names that are reported are those that no table knows;
* `IsTyped.exists_ofEntries`: which documents are loaded at all.
-/

namespace QuickFix

namespace Toml

/-- The entries of the table called `k`; none if there is no such table. -/
def subtable (es : List (Text × Toml)) (k : Text) : List (Text × Toml) :=
  match es.lookup k with
  | some (.table es') => es'
  | _ => []

/-- The entries of the table that a path of names leads to; none if it leads to no table. -/
def entriesAt (es : List (Text × Toml)) (p : List Text) : List (Text × Toml) := p.foldl subtable es

theorem mem_of_lookup {β : Type} {es : List (Text × β)} {k : Text} {v : β}
    (h : es.lookup k = some v) : (k, v) ∈ es := by
  obtain ⟨a, b, hes, -⟩ := List.lookup_eq_some_iff.1 h
  rw [hes]
  simp

theorem IsKeyed.nodup {es : List (Text × Toml)} (h : (Toml.table es).IsKeyed) :
    (es.map Prod.fst).Nodup := by
  cases h with
  | table hnodup _ => exact hnodup

theorem IsKeyed.subtable {es : List (Text × Toml)} (h : (Toml.table es).IsKeyed) (k : Text) :
    (Toml.table (subtable es k)).IsKeyed := by
  cases h with
  | table _ hkeyed =>
    rw [Toml.subtable]
    split
    · rename_i es' hlookup
      exact hkeyed _ (mem_of_lookup hlookup)
    · exact .table List.nodup_nil fun _ h => absurd h List.not_mem_nil

theorem IsKeyed.entriesAt {es : List (Text × Toml)} (h : (Toml.table es).IsKeyed) (p : List Text) :
    (Toml.table (entriesAt es p)).IsKeyed := by
  induction p generalizing es with
  | nil => exact h
  | cons k p ih => exact ih (h.subtable k)

theorem subtable_eq {es es' : List (Text × Toml)} {k : Text} (h : es.lookup k = some (.table es')) :
    subtable es k = es' := by
  rw [subtable, h]

theorem subtable_eq_nil {es : List (Text × Toml)} {k : Text} (h : es.lookup k = none) :
    subtable es k = [] := by
  rw [subtable, h]

/-- An entry of a table without a key twice is the one that is looked up. -/
theorem lookup_eq_some_iff_mem {β : Type} {es : List (Text × β)} (hnodup : (es.map Prod.fst).Nodup)
    {k : Text} {v : β} : es.lookup k = some v ↔ (k, v) ∈ es := by
  induction es with
  | nil => simp
  | cons e es ih =>
    obtain ⟨k', v'⟩ := e
    obtain ⟨hnew, htail⟩ := List.nodup_cons.1 hnodup
    by_cases hk : k = k'
    · subst hk
      rw [List.lookup_cons_self, List.mem_cons, Prod.mk.injEq]
      have hnot : (k, v) ∉ es := fun hmem => hnew (List.mem_map.2 ⟨_, hmem, rfl⟩)
      simp [hnot, eq_comm]
    · rw [List.lookup_cons, beq_false_of_ne hk, List.mem_cons, Prod.mk.injEq]
      simp [hk, ih htail]

theorem asText_eq_ok_iff {v : Toml} {t : Text} : v.asText = .ok t ↔ v = .text t := by
  cases v <;> simp [asText]

theorem asBool_eq_ok_iff {v : Toml} {b : Bool} : v.asBool = .ok b ↔ v = .bool b := by
  cases v <;> simp [asBool]

theorem asCount_eq_ok_iff {v : Toml} {n : Nat} : v.asCount = .ok n ↔ v = .integer n := by
  cases v with
  | integer m =>
    rw [asCount]
    split
    · simp only [Except.ok.injEq, integer.injEq]
      omega
    · simp only [reduceCtorEq, integer.injEq, false_iff]
      omega
  | _ => simp [asCount]

theorem asPolicy_name (p : VisibilityPolicy) : asPolicy (.text p.name) = .ok p := by
  cases p <;> rfl

theorem eq_name_of_asPolicy {w : Text} {p : VisibilityPolicy} (h : asPolicy (.text w) = .ok p) :
    w = p.name := by
  simp only [asPolicy, asChoice] at h
  by_cases hw : (VisibilityPolicy.all.map VisibilityPolicy.name).elem w = true
  · rw [if_pos hw] at h
    obtain ⟨p', -, rfl⟩ := List.mem_map.1 (List.mem_of_elem_eq_true hw)
    cases p' <;> exact Except.ok.inj h ▸ rfl
  · rw [if_neg hw] at h
    cases h

end Toml

namespace Settings

/-! ## Tables and leaves -/

/-- A table of settings. -/
inductive Group where
  | root
  | createClass
  | templates
  | logging
  deriving DecidableEq, Repr

/-- The names that lead to a table. -/
def Group.path : Group → List Text
  | .root => []
  | .createClass => ["create_class"]
  | .templates => ["create_class", "templates"]
  | .logging => ["logging"]

/-- The tables that stand in others. -/
theorem Group.inner_cases {g g' : Group} {k : Text} (h : g'.path = g.path ++ [k]) :
    (g = .root ∧ g' = .createClass ∧ k = "create_class") ∨
    (g = .createClass ∧ g' = .templates ∧ k = "templates") ∨
    (g = .root ∧ g' = .logging ∧ k = "logging") := by
  cases g <;> cases g' <;> simp [path] at h <;> subst h <;> simp

/-- What each table has if the tables in it have it, all tables have. -/
theorem Group.inner_induction {motive : Group → Prop}
    (step : ∀ g, (∀ (g' : Group) (k : Text), g'.path = g.path ++ [k] → motive g') → motive g)
    (g : Group) : motive g := by
  have hlast : ∀ g : Group, g = .templates ∨ g = .logging → motive g := fun g hg =>
    step g fun g' k hpath => by
      rcases inner_cases hpath with ⟨rfl, -⟩ | ⟨rfl, -⟩ | ⟨rfl, -⟩ <;> simp at hg
  have hcreate : motive .createClass := step _ fun g' k hpath => by
    rcases inner_cases hpath with ⟨hg, -⟩ | ⟨-, rfl, -⟩ | ⟨hg, -⟩
    · cases hg
    · exact hlast _ (.inl rfl)
    · cases hg
  cases g with
  | root =>
    refine step _ fun g' k hpath => ?_
    rcases inner_cases hpath with ⟨-, rfl, -⟩ | ⟨hg, -⟩ | ⟨-, rfl, -⟩
    · exact hcreate
    · cases hg
    · exact hlast _ (.inr rfl)
  | createClass => exact hcreate
  | templates => exact hlast _ (.inl rfl)
  | logging => exact hlast _ (.inr rfl)

/-- A single setting. -/
inductive Leaf where
  | extension
  | template (kind : ClassKind)
  | policy
  | level
  | json
  | stderr
  | bufferLines
  deriving DecidableEq, Repr

namespace Leaf

/-- The table that it stands in. -/
def group : Leaf → Group
  | .extension | .policy => .createClass
  | .template _ => .templates
  | .level | .json | .stderr | .bufferLines => .logging

/-- Its name in that table. -/
def name : Leaf → Text
  | .extension => "file_extension"
  | .template k => k.name
  | .policy => "visibility"
  | .level => "level"
  | .json => "json"
  | .stderr => "stderr"
  | .bufferLines => "buffer_lines"

/-- Its value, as documents give it. -/
def value (s : Settings) : Leaf → Toml
  | .extension => .text s.createClass.extension
  | .template k => .text (s.createClass.templates.get k)
  | .policy => .text s.createClass.policy.name
  | .level => .text s.logging.level
  | .json => .bool s.logging.json
  | .stderr => .bool s.logging.stderr
  | .bufferLines => .integer s.logging.bufferLines

end Leaf

/-- The leaves say everything. -/
theorem eq_of_value {s s' : Settings} (h : ∀ l : Leaf, l.value s = l.value s') : s = s' := by
  have hpolicy : s.createClass.policy = s'.createClass.policy := by
    have := Toml.text.inj (h .policy)
    revert this
    cases s.createClass.policy <;> cases s'.createClass.policy <;> decide
  have htemplate (k : ClassKind) := Toml.text.inj (h (.template k))
  obtain ⟨⟨e, ⟨t₁, t₂, t₃, t₄⟩, p⟩, ⟨l, j, se, n⟩⟩ := s
  obtain ⟨⟨e', ⟨t₁', t₂', t₃', t₄'⟩, p'⟩, ⟨l', j', se', n'⟩⟩ := s'
  obtain rfl : e = e' := Toml.text.inj (h .extension)
  obtain rfl : l = l' := Toml.text.inj (h .level)
  obtain rfl : j = j' := Toml.bool.inj (h .json)
  obtain rfl : se = se' := Toml.bool.inj (h .stderr)
  obtain rfl : n = n' := Int.ofNat.inj (Toml.integer.inj (h .bufferLines))
  obtain rfl : t₁ = t₁' := htemplate .plain
  obtain rfl : t₂ = t₂' := htemplate .interface
  obtain rfl : t₃ = t₃' := htemplate .enum
  obtain rfl : t₄ = t₄' := htemplate .annotationType
  obtain rfl : p = p' := hpolicy
  rfl

/-! ## The two ways of loading -/

theorem agrees_templateFields : ∀ f ∈ templateFields, f.Agrees := by
  simp [templateFields, Field.agrees_leaf]

theorem agrees_createFields : ∀ f ∈ createFields, f.Agrees := by
  simp [createFields, Field.agrees_leaf, Field.agrees_record _ _ agrees_templateFields]

theorem agrees_logFields : ∀ f ∈ logFields, f.Agrees := by
  simp [logFields, Field.agrees_leaf]

theorem agrees_fields : ∀ f ∈ fields, f.Agrees := by
  simp [fields, Field.agrees_record _ _ agrees_createFields, Field.agrees_record _ _ agrees_logFields]

theorem loadSilently_eq (t : Text) (read : Log.Directive.Reader) :
    loadSilently t = (load t read).map Prod.fst := by
  rw [loadSilently, load]
  cases Toml.read? t with
  | none => rfl
  | some es =>
    simp only [putRecord_eq agrees_fields [], ofEntries]
    cases readRecord "NovaConfig" fields .default [] (.table es) <;> rfl

/-! ## Tables -/

/-- Is the key known in the table? -/
def Group.Knows (g : Group) (k : Text) : Prop :=
  (∃ g' : Group, g'.path = g.path ++ [k]) ∨ ∃ l : Leaf, l.group = g ∧ l.name = k

/-- What stands in a document under the name of a table is a table. -/
def IsTabular (es : List (Text × Toml)) : Prop :=
  ∀ (g g' : Group) (k : Text) (v : Toml), g'.path = g.path ++ [k] →
    (Toml.entriesAt es g.path).lookup k = some v → ∃ es', v = .table es'

section

variable {α γ : Type} {name : Text} {fields : List (Field α)} {start : α} {path : Path}
  {es : List (Text × Toml)} {r : Reading α} {n typeName : Text} {inner : List (Field γ)} {start' : γ}
  {set : α → γ → α}

/-- A record inside a record is read from the table that is given for it, or from an empty one. -/
theorem get_subtable (get : α → γ)
    (hfind : fields.find? (fun g => g.name = n) = some (.record n typeName inner start' set))
    (hget : ∀ a c, get (set a c) = c) (hspare : ∀ g ∈ fields, g.name ≠ n → g.Spares get)
    (hstart : get start = start') (hnodup : (es.map Prod.fst).Nodup)
    (htable : ∀ v, es.lookup n = some v → ∃ es', v = .table es')
    (h : readRecord name fields start path (.table es) = .ok r) :
    ∃ s, readRecord typeName inner start' (n :: path) (.table (Toml.subtable es n)) = .ok s ∧
      get r.value = s.value ∧
      ∀ q, (∃ v u, (n, v) ∈ es ∧
        (Field.record n typeName inner start' set).read (n :: path) v = .ok u ∧ q ∈ u.unknown) ↔
        q ∈ s.unknown := by
  simp only [← Toml.lookup_eq_some_iff_mem hnodup]
  rcases get_record hfind hget hspare hnodup h with ⟨hnone, hvalue⟩ | ⟨v, s, hsome, hs, hvalue⟩
  · rw [Toml.subtable_eq_nil hnone, hnone]
    exact ⟨⟨start', []⟩, rfl, hvalue.trans hstart, by simp⟩
  · obtain ⟨es', rfl⟩ := htable v hsome
    rw [Toml.subtable_eq hsome, hsome]
    refine ⟨s, hs, hvalue, fun q => ⟨?_, fun hq => ?_⟩⟩
    · rintro ⟨v, u, hv, hu, hq⟩
      obtain rfl := Option.some.inj hv
      obtain ⟨s', hs', rfl⟩ := Field.read_record_iff.1 hu
      exact Except.ok.inj (hs.symm.trans hs') ▸ hq
    · exact ⟨_, _, rfl, Field.read_record_iff.2 ⟨s, hs, rfl⟩, hq⟩

end

/-! ## Reports in order -/

theorem lt_of_lt_of_not_lt {a b c : Text} (hlt : a < b) (hle : ¬c < b) : a < c := by
  by_contra hac
  exact hle (List.lt_of_le_of_lt (List.not_lt.1 hac) hlt)

theorem lt_of_not_lt_of_ne {a b : Text} (hle : ¬b < a) (hne : a ≠ b) : a < b := by
  by_contra hlt
  exact hne (List.le_antisymm (List.not_lt.1 hle) (List.not_lt.1 hlt))

section

variable {α : Type} [BEq α]

theorem eraseRepsBy_loop (a : α) (as acc : List α) : List.eraseRepsBy.loop (· == ·) a as acc =
    acc.reverse ++ List.eraseRepsBy.loop (· == ·) a as [] := by
  induction as generalizing a acc with
  | nil => simp [List.eraseRepsBy.loop]
  | cons b as ih =>
    simp only [List.eraseRepsBy.loop]
    split
    · exact ih a acc
    · rw [ih b (a :: acc), ih b [a], List.reverse_cons, List.append_assoc]
      rfl

variable [LawfulBEq α]

theorem eraseReps_cons_self (a : α) (as : List α) :
    (a :: a :: as).eraseReps = (a :: as).eraseReps := by
  simp [List.eraseReps, List.eraseRepsBy, List.eraseRepsBy.loop]

theorem eraseReps_cons_of_ne {a b : α} (h : a ≠ b) (as : List α) :
    (a :: b :: as).eraseReps = a :: (b :: as).eraseReps := by
  simp only [List.eraseReps, List.eraseRepsBy, List.eraseRepsBy.loop, beq_false_of_ne h]
  exact eraseRepsBy_loop b as [a]

theorem mem_eraseReps {a : α} {as : List α} : a ∈ as.eraseReps ↔ a ∈ as := by
  induction as with
  | nil => rfl
  | cons b as ih =>
    cases as with
    | nil => rfl
    | cons c as =>
      by_cases h : b = c
      · subst h
        rw [eraseReps_cons_self, ih]
        simp
      · rw [eraseReps_cons_of_ne h, List.mem_cons, ih, List.mem_cons (l := c :: as)]

end

theorem pairwise_eraseReps {ts : List Text} (h : ts.Pairwise fun a b => ¬b < a) :
    ts.eraseReps.Pairwise (· < ·) := by
  induction ts with
  | nil => exact .nil
  | cons a ts ih =>
    obtain ⟨hle, hts⟩ := List.pairwise_cons.1 h
    cases ts with
    | nil => exact List.pairwise_singleton _ a
    | cons b ts =>
      by_cases hab : a = b
      · subst hab
        rw [eraseReps_cons_self]
        exact ih hts
      · rw [eraseReps_cons_of_ne hab, List.pairwise_cons]
        refine ⟨fun c hc => ?_, ih hts⟩
        rw [mem_eraseReps] at hc
        -- `a` is below `b`, and `b` is not above what follows.
        have hlt := lt_of_not_lt_of_ne (hle b List.mem_cons_self) hab
        rcases List.mem_cons.1 hc with rfl | hc
        · exact hlt
        · exact lt_of_lt_of_not_lt hlt ((List.pairwise_cons.1 hts).1 c hc)

theorem mem_sortOnce {ts : List Text} {t : Text} : t ∈ sortOnce ts ↔ t ∈ ts := by
  rw [sortOnce, mem_eraseReps, List.mem_mergeSort]

theorem pairwise_sortOnce (ts : List Text) : (sortOnce ts).Pairwise (· < ·) := by
  refine pairwise_eraseReps ((List.pairwise_mergeSort ?_ ?_ ts).imp fun h => by simpa using h)
  · simp only [Bool.not_eq_true', decide_eq_false_iff_not, List.not_lt]
    exact fun a b c hab hbc => List.le_trans hab hbc
  · simp only [Bool.or_eq_true, Bool.not_eq_true', decide_eq_false_iff_not, List.not_lt]
    exact fun a b => List.le_total a b

/-! ## Leaves of loaded settings -/

section

variable {es : List (Text × Toml)} {path : Path} {name : Text}

theorem value_templates {r : Reading Templates} (hnodup : (es.map Prod.fst).Nodup)
    (h : readRecord name templateFields .default path (.table es) = .ok r) (k : ClassKind) :
    .text (r.value.get k) = (es.lookup k.name).getD (.text (Templates.default.get k)) := by
  have hspare : ∀ g ∈ templateFields, g.name ≠ k.name → g.Spares (Templates.get · k) := by
    simp only [templateFields, List.forall_mem_cons]
    cases k <;>
      refine ⟨?_, ?_, ?_, ?_, fun _ hg => absurd hg List.not_mem_nil⟩ <;>
      first
        | exact fun hne => absurd rfl hne
        | exact fun _ => Field.spares_leaf fun _ _ => rfl
  cases k <;>
    exact show_leaf .text rfl (fun _ _ => rfl) hspare (fun _ _ _ => Toml.asText_eq_ok_iff.1) hnodup h

/-- The parts of the settings of the quick fix: each field spares the others. -/
theorem spares_createFields : ∀ g ∈ createFields,
    (g.name ≠ "file_extension" → g.Spares CreateSettings.extension) ∧
    (g.name ≠ "templates" → g.Spares CreateSettings.templates) ∧
    (g.name ≠ "visibility" → g.Spares CreateSettings.policy) := by
  simp only [createFields, List.forall_mem_cons]
  refine ⟨⟨?_, ?_, ?_⟩, ⟨?_, ?_, ?_⟩, ⟨?_, ?_, ?_⟩, fun _ hg => absurd hg List.not_mem_nil⟩ <;>
  first
    | exact fun hne => absurd rfl hne
    | exact fun _ => Field.spares_leaf fun _ _ => rfl
    | exact fun _ => Field.spares_record fun _ _ => rfl

/-- The parts of the settings of logging: each field spares the others. -/
theorem spares_logFields : ∀ g ∈ logFields,
    (g.name ≠ "level" → g.Spares LogSettings.level) ∧
    (g.name ≠ "json" → g.Spares LogSettings.json) ∧
    (g.name ≠ "stderr" → g.Spares LogSettings.stderr) ∧
    (g.name ≠ "buffer_lines" → g.Spares LogSettings.bufferLines) := by
  simp only [logFields, List.forall_mem_cons]
  refine ⟨⟨?_, ?_, ?_, ?_⟩, ⟨?_, ?_, ?_, ?_⟩, ⟨?_, ?_, ?_, ?_⟩, ⟨?_, ?_, ?_, ?_⟩,
    fun _ hg => absurd hg List.not_mem_nil⟩ <;>
  first
    | exact fun hne => absurd rfl hne
    | exact fun _ => Field.spares_leaf fun _ _ => rfl

theorem spares_fields : ∀ g ∈ fields,
    (g.name ≠ "create_class" → g.Spares Settings.createClass) ∧
    (g.name ≠ "logging" → g.Spares Settings.logging) := by
  simp only [fields, List.forall_mem_cons]
  refine ⟨⟨?_, ?_⟩, ⟨?_, ?_⟩, fun _ hg => absurd hg List.not_mem_nil⟩ <;>
  first
    | exact fun hne => absurd rfl hne
    | exact fun _ => Field.spares_record fun _ _ => rfl

theorem value_log {r : Reading LogSettings} (hnodup : (es.map Prod.fst).Nodup)
    (h : readRecord name logFields .default path (.table es) = .ok r) {l : Leaf}
    (hl : l.group = .logging) (c : CreateSettings) :
    l.value ⟨c, r.value⟩ = (es.lookup l.name).getD (l.value .default) := by
  cases l with
  | level =>
    exact show_leaf .text rfl (fun _ _ => rfl) (fun g hg => (spares_logFields g hg).1)
      (fun _ _ _ => Toml.asText_eq_ok_iff.1) hnodup h
  | json =>
    exact show_leaf .bool rfl (fun _ _ => rfl) (fun g hg => (spares_logFields g hg).2.1)
      (fun _ _ _ => Toml.asBool_eq_ok_iff.1) hnodup h
  | stderr =>
    exact show_leaf .bool rfl (fun _ _ => rfl) (fun g hg => (spares_logFields g hg).2.2.1)
      (fun _ _ _ => Toml.asBool_eq_ok_iff.1) hnodup h
  | bufferLines =>
    exact show_leaf (fun n : Nat => .integer n) rfl (fun _ _ => rfl)
      (fun g hg => (spares_logFields g hg).2.2.2) (fun _ _ _ => Toml.asCount_eq_ok_iff.1) hnodup h
  | _ => cases hl

theorem value_createClass {r : Reading CreateSettings} (hnodup : (es.map Prod.fst).Nodup)
    (h : readRecord name createFields .default path (.table es) = .ok r)
    (hpolicy : ∀ es', es.lookup Leaf.policy.name ≠ some (.table es')) {l : Leaf}
    (hl : l.group = .createClass) (c : LogSettings) :
    l.value ⟨r.value, c⟩ = (es.lookup l.name).getD (l.value .default) := by
  cases l with
  | extension =>
    exact show_leaf .text rfl (fun _ _ => rfl) (fun g hg => (spares_createFields g hg).1)
      (fun _ _ _ => Toml.asText_eq_ok_iff.1) hnodup h
  | policy =>
    refine show_leaf (fun p => .text p.name) rfl (fun _ _ => rfl)
      (fun g hg => (spares_createFields g hg).2.2) (fun v p hv hp => ?_) hnodup h
    cases v with
    | text w => rw [Toml.eq_name_of_asPolicy hp]
    | table es' => exact absurd hv (hpolicy es')
    | _ => cases hp
  | _ => cases hl

end

/-! ## Names that nothing knows -/

/-- The keys of a table of settings. -/
def Group.keys : Group → List Text
  | .root => ["create_class", "logging"]
  | .createClass => ["file_extension", "templates", "visibility"]
  | .templates => ["class", "interface", "enum", "annotation"]
  | .logging => ["level", "json", "stderr", "buffer_lines"]

theorem Group.knows_iff {g : Group} {k : Text} : g.Knows k ↔ k ∈ g.keys := by
  constructor
  · rintro (⟨g', hg⟩ | ⟨l, rfl, rfl⟩)
    · rcases Group.inner_cases hg with ⟨rfl, -, rfl⟩ | ⟨rfl, -, rfl⟩ | ⟨rfl, -, rfl⟩ <;> decide
    · cases l with
      | template kind => cases kind <;> decide
      | _ => decide
  · intro hk
    cases g with
    | root =>
      simp only [Group.keys, List.mem_cons, List.not_mem_nil, or_false] at hk
      rcases hk with rfl | rfl
      · exact .inl ⟨.createClass, rfl⟩
      · exact .inl ⟨.logging, rfl⟩
    | createClass =>
      simp only [Group.keys, List.mem_cons, List.not_mem_nil, or_false] at hk
      rcases hk with rfl | rfl | rfl
      · exact .inr ⟨.extension, rfl, rfl⟩
      · exact .inl ⟨.templates, rfl⟩
      · exact .inr ⟨.policy, rfl, rfl⟩
    | templates =>
      simp only [Group.keys, List.mem_cons, List.not_mem_nil, or_false] at hk
      rcases hk with rfl | rfl | rfl | rfl
      · exact .inr ⟨.template .plain, rfl, rfl⟩
      · exact .inr ⟨.template .interface, rfl, rfl⟩
      · exact .inr ⟨.template .enum, rfl, rfl⟩
      · exact .inr ⟨.template .annotationType, rfl, rfl⟩
    | logging =>
      simp only [Group.keys, List.mem_cons, List.not_mem_nil, or_false] at hk
      rcases hk with rfl | rfl | rfl | rfl
      · exact .inr ⟨.level, rfl, rfl⟩
      · exact .inr ⟨.json, rfl, rfl⟩
      · exact .inr ⟨.stderr, rfl, rfl⟩
      · exact .inr ⟨.bufferLines, rfl, rfl⟩

/-- Is it the path of a key of the document that its table does not know? -/
def Group.Reports (g : Group) (es : List (Text × Toml)) (q : Path) : Prop :=
  ∃ k ∈ (Toml.entriesAt es g.path).map Prod.fst, ¬g.Knows k ∧ q = k :: g.path.reverse

/-! ## Whole documents -/

/-- How the tables of a document were read. -/
structure ReadsAs (es : List (Text × Toml)) (r : Reading Settings) (c : Reading CreateSettings)
    (t : Reading Templates) (l : Reading LogSettings) : Prop where
  createClass : readRecord "CreateClassConfig" createFields .default Group.createClass.path.reverse
    (.table (Toml.entriesAt es Group.createClass.path)) = .ok c
  templates : readRecord "TemplatesConfig" templateFields .default Group.templates.path.reverse
    (.table (Toml.entriesAt es Group.templates.path)) = .ok t
  logging : readRecord "LoggingConfig" logFields .default Group.logging.path.reverse
    (.table (Toml.entriesAt es Group.logging.path)) = .ok l
  value : r.value = ⟨c.value, l.value⟩
  templates_eq : c.value.templates = t.value
  unknown : ∀ q, q ∈ r.unknown ↔ ∃ g : Group, g.Reports es q

/-- Is it among the names that nothing knows below the entry for the field? -/
def Field.ReportsBelow {α : Type} (f : Field α) (path : Path) (es : List (Text × Toml)) (q : Path) :
    Prop := ∃ v s, (f.name, v) ∈ es ∧ f.read (f.name :: path) v = .ok s ∧ q ∈ s.unknown

theorem Field.not_reportsBelow_leaf {α β : Type} {name : Text} {as : Toml → Except Mismatch β}
    {set : α → β → α} {path : Path} {es : List (Text × Toml)} {q : Path} :
    ¬(Field.leaf name as set).ReportsBelow path es q := by
  rintro ⟨v, s, -, h, hq⟩
  obtain ⟨b, -, rfl⟩ := Field.read_leaf_iff.1 h
  exact absurd hq List.not_mem_nil

theorem mem_unknown_fields {α : Type} {name : Text} {fields : List (Field α)} {start : α} {g : Group}
    {es : List (Text × Toml)} {r : Reading α} (hnames : fields.map Field.name = g.keys)
    (hfind : ∀ f ∈ fields, fields.find? (fun g => g.name = f.name) = some f)
    (h : readRecord name fields start g.path.reverse (.table (Toml.entriesAt es g.path)) = .ok r)
    (q : Path) : q ∈ r.unknown ↔ g.Reports es q ∨
      ∃ f ∈ fields, f.ReportsBelow g.path.reverse (Toml.entriesAt es g.path) q := by
  have hknows : ∀ k, (∀ f ∈ fields, f.name ≠ k) ↔ ¬g.Knows k := fun k => by
    rw [Group.knows_iff, ← hnames]
    simp
  simp only [mem_unknown_iff_or hfind h, Group.Reports, hknows]
  rfl

theorem exists_readsAs {es : List (Text × Toml)} {r : Reading Settings}
    (hkeyed : (Toml.table es).IsKeyed) (htabular : IsTabular es) (h : ofEntries es = .ok r) :
    ∃ c t l, ReadsAs es r c t l := by
  obtain ⟨c, hc, hcreate, hcu⟩ := get_subtable Settings.createClass rfl (fun _ _ => rfl)
    (fun g hg => (spares_fields g hg).1) rfl hkeyed.nodup
    (fun v => htabular .root .createClass _ v rfl) h
  obtain ⟨l, hl, hlogging, hlu⟩ := get_subtable Settings.logging rfl (fun _ _ => rfl)
    (fun g hg => (spares_fields g hg).2) rfl hkeyed.nodup
    (fun v => htabular .root .logging _ v rfl) h
  obtain ⟨t, ht, htemplates, htu⟩ := get_subtable CreateSettings.templates rfl
    (fun _ _ => rfl) (fun g hg => (spares_createFields g hg).2.1) rfl
    (hkeyed.entriesAt Group.createClass.path).nodup
    (fun v => htabular .createClass .templates _ v rfl) hc
  refine ⟨c, t, l, hc, ht, hl, by rw [← hcreate, ← hlogging], htemplates, fun q => ?_⟩
  have hroot := mem_unknown_fields (g := .root) rfl (by simp [fields, Field.record]) h q
  have hcreate' := mem_unknown_fields (g := .createClass) rfl
    (by simp [createFields, Field.record, Field.leaf]) hc q
  have htemplates' := mem_unknown_fields (g := .templates) rfl (by simp [templateFields, Field.leaf]) ht q
  have hlogging' := mem_unknown_fields (g := .logging) rfl (by simp [logFields, Field.leaf]) hl q
  simp only [fields, createFields, templateFields, logFields, List.exists_mem_cons_iff,
    Field.not_reportsBelow_leaf, List.not_mem_nil, false_and, exists_false, or_false, false_or]
    at hroot hcreate' htemplates' hlogging'
  -- A name is reported by the table it stands in, or from further below.
  constructor
  · intro hq
    rcases hroot.1 hq with hq | hq | hq
    · exact ⟨.root, hq⟩
    · rcases hcreate'.1 ((hcu q).1 hq) with hq | hq
      · exact ⟨.createClass, hq⟩
      · exact ⟨.templates, htemplates'.1 ((htu q).1 hq)⟩
    · exact ⟨.logging, hlogging'.1 ((hlu q).1 hq)⟩
  · rintro ⟨g, hq⟩
    refine hroot.2 ?_
    cases g with
    | root => exact .inl hq
    | createClass => exact .inr (.inl ((hcu q).2 (hcreate'.2 (.inl hq))))
    | templates =>
      exact .inr (.inl ((hcu q).2 (hcreate'.2 (.inr ((htu q).2 (htemplates'.2 hq))))))
    | logging => exact .inr (.inr ((hlu q).2 (hlogging'.2 hq)))

section

variable {es : List (Text × Toml)} (hkeyed : (Toml.table es).IsKeyed)

include hkeyed

theorem ReadsAs.value_leaf {r : Reading Settings} {c : Reading CreateSettings} {t : Reading Templates}
    {l : Reading LogSettings} (h : ReadsAs es r c t l)
    (hpolicy : ∀ es', (Toml.entriesAt es Leaf.policy.group.path).lookup Leaf.policy.name ≠
      some (.table es')) (leaf : Leaf) :
    leaf.value r.value =
      ((Toml.entriesAt es leaf.group.path).lookup leaf.name).getD (leaf.value .default) := by
  have hnodup (g : Group) := (hkeyed.entriesAt g.path).nodup
  rw [h.value]
  cases hgroup : leaf.group with
  | root => cases leaf <;> cases hgroup
  | createClass => exact value_createClass (hnodup _) h.createClass hpolicy hgroup l.value
  | logging => exact value_log (hnodup _) h.logging hgroup c.value
  | templates =>
    cases leaf with
    | template k =>
      rw [Leaf.value, h.templates_eq]
      exact value_templates (hnodup _) h.templates k
    | _ => cases hgroup

end

/-! ## Documents that are loaded -/

/-- Each entry for a leaf has a value that the leaf has in some settings. -/
def IsTyped (es : List (Text × Toml)) : Prop :=
  ∀ (l : Leaf) (v : Toml), (l.name, v) ∈ Toml.entriesAt es l.group.path → ∃ s, v = l.value s

theorem IsTabular.eq_table {es : List (Text × Toml)} (htabular : IsTabular es) (g g' : Group)
    {k : Text} {v : Toml} (hnodup : ((Toml.entriesAt es g.path).map Prod.fst).Nodup)
    (hpath : g'.path = g.path ++ [k]) (hv : (k, v) ∈ Toml.entriesAt es g.path) :
    v = .table (Toml.entriesAt es g'.path) := by
  rw [← Toml.lookup_eq_some_iff_mem hnodup] at hv
  obtain ⟨es', rfl⟩ := htabular g g' k v hpath hv
  rw [hpath, Toml.entriesAt, List.foldl_append]
  exact congrArg Toml.table (Toml.subtable_eq hv).symm

namespace IsTyped

variable {es : List (Text × Toml)} {name : Text} {path : Path} (h : IsTyped es)

include h

theorem exists_templates : ∃ r, readRecord name templateFields .default path
    (.table (Toml.entriesAt es Group.templates.path)) = .ok r := by
  have htext : ∀ (k : ClassKind) (v : Toml),
      (k.name, v) ∈ Toml.entriesAt es Group.templates.path → ∃ t, v.asText = .ok t := fun k v hv => by
    obtain ⟨s, rfl⟩ := h (.template k) v hv
    exact ⟨_, rfl⟩
  refine exists_readRecord_of_fields ?_
  simp only [templateFields, List.forall_mem_cons, Field.exists_read_leaf_iff]
  exact ⟨htext .plain, htext .interface, htext .enum, htext .annotationType,
    fun _ hf => absurd hf List.not_mem_nil⟩

theorem exists_logging : ∃ r, readRecord name logFields .default path
    (.table (Toml.entriesAt es Group.logging.path)) = .ok r := by
  refine exists_readRecord_of_fields ?_
  simp only [logFields, List.forall_mem_cons, Field.exists_read_leaf_iff]
  refine ⟨fun v hv => ?_, fun v hv => ?_, fun v hv => ?_, fun v hv => ?_,
    fun _ hf => absurd hf List.not_mem_nil⟩
  · obtain ⟨s, rfl⟩ := h .level v hv
    exact ⟨_, rfl⟩
  · obtain ⟨s, rfl⟩ := h .json v hv
    exact ⟨_, rfl⟩
  · obtain ⟨s, rfl⟩ := h .stderr v hv
    exact ⟨_, rfl⟩
  · obtain ⟨s, rfl⟩ := h .bufferLines v hv
    exact ⟨_, Toml.asCount_eq_ok_iff.2 rfl⟩

variable (hkeyed : (Toml.table es).IsKeyed) (htabular : IsTabular es)

include hkeyed htabular

theorem exists_createClass : ∃ r, readRecord name createFields .default path
    (.table (Toml.entriesAt es Group.createClass.path)) = .ok r := by
  refine exists_readRecord_of_fields ?_
  simp only [createFields, List.forall_mem_cons, Field.exists_read_leaf_iff, Field.exists_read_record_iff]
  refine ⟨fun v hv => ?_, fun v hv => ?_, fun v hv => ?_, fun _ hf => absurd hf List.not_mem_nil⟩
  · obtain ⟨s, rfl⟩ := h .extension v hv
    exact ⟨_, rfl⟩
  · obtain rfl := htabular.eq_table .createClass .templates (hkeyed.entriesAt _).nodup rfl hv
    exact h.exists_templates
  · obtain ⟨s, rfl⟩ := h .policy v hv
    exact ⟨_, Toml.asPolicy_name _⟩

theorem exists_ofEntries : ∃ r, ofEntries es = .ok r := by
  refine exists_readRecord_of_fields ?_
  simp only [fields, List.forall_mem_cons, Field.exists_read_record_iff]
  refine ⟨fun v hv => ?_, fun v hv => ?_, fun _ hf => absurd hf List.not_mem_nil⟩
  · obtain rfl := htabular.eq_table .root .createClass hkeyed.nodup rfl hv
    exact h.exists_createClass hkeyed htabular
  · obtain rfl := htabular.eq_table .root .logging hkeyed.nodup rfl hv
    exact h.exists_logging

end IsTyped

end Settings

end QuickFix
