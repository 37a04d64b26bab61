import QuickFix.Config.Schema
import QuickFix.Proofs.Config.Loading
import QuickFix.Proofs.Data.Validation
import QuickFix.Proofs.Toml.Writing

/-!
# What is loaded and what the schema allows

Settings documents are checked twice: when they are loaded, and by editors against the schema. Where
loading notices nothing, the schema allows the document just if tables are written as tables, the
policy as a word, and lines are kept at all (`isValid_iff_of_isEmpty`).
-/

namespace QuickFix

namespace Toml

mutual

/-- The value as JSON data. Dates and times are null: JSON has none. -/
def toJson : Toml → Json
  | .text t => .text t
  | .integer n => .integer n
  | .float x => .float x
  | .bool b => .bool b
  | .moment => .null
  | .list items => .list (toJsonItems items)
  | .table es => .object (toJsonEntries es)

/-- The items of an array as JSON data. -/
def toJsonItems : List Toml → List Json
  | [] => []
  | v :: vs => toJson v :: toJsonItems vs

/-- The entries of a table as JSON data. -/
def toJsonEntries : List (Text × Toml) → List (Text × Json)
  | [] => []
  | (k, v) :: es => (k, toJson v) :: toJsonEntries es

end

theorem toJsonEntries_eq (es : List (Text × Toml)) :
    toJsonEntries es = es.map fun e => (e.1, e.2.toJson) := by
  induction es with
  | nil => rfl
  | cons e es ih => rw [toJsonEntries, ih, List.map_cons]

end Toml

namespace Schema

/-- The members of a record, with a name of its own or not. -/
def recordMembers : Schema → List (Text × Option Text × Json × Schema)
  | .record ms => ms
  | .named _ _ body => recordMembers body
  | _ => []

end Schema

namespace Settings

/-! ## Schemas of tables and leaves -/

/-- The schema for a table of settings. -/
def Group.schema : Group → Schema
  | .root => Settings.schema
  | .createClass => createSchema
  | .templates => templatesSchema
  | .logging => logSchema

/-- The schema for a leaf. -/
def Leaf.schema : Leaf → Schema
  | .extension | .template _ | .level => .text
  | .policy => policySchema
  | .json | .stderr => .bool
  | .bufferLines => .count 1

/-- Does the schema of the table allow the entry? -/
def Group.Allows (g : Group) (e : Text × Toml) : Prop :=
  Schema.acceptsMember g.schema.recordMembers e.1 e.2.toJson = true

theorem Group.accepts_iff (g : Group) (v : Toml) : Schema.accepts g.schema v.toJson = true ↔
    ∃ es, v = .table es ∧ ∀ e ∈ es, g.Allows e := by
  have hrecord : Schema.accepts g.schema v.toJson =
      Schema.accepts (.record g.schema.recordMembers) v.toJson := by
    cases g <;> rfl
  rw [hrecord, Schema.accepts.eq_def]
  cases v <;> simp [Toml.toJson, Toml.toJsonEntries_eq, Group.Allows]

theorem Group.allows_table {g g' : Group} {k : Text} (hpath : g'.path = g.path ++ [k]) (v : Toml) :
    g.Allows (k, v) ↔ Schema.accepts g'.schema v.toJson = true := by
  rw [Group.Allows]
  rcases Group.inner_cases hpath with ⟨rfl, rfl, rfl⟩ | ⟨rfl, rfl, rfl⟩ | ⟨rfl, rfl, rfl⟩ <;> rfl

theorem Leaf.allows_iff (l : Leaf) (v : Toml) :
    l.group.Allows (l.name, v) ↔ Schema.accepts l.schema v.toJson = true := by
  rw [Group.Allows]
  cases l with
  | template k => cases k <;> rfl
  | _ => rfl

theorem exists_text_of_accepts {v : Toml} (h : Schema.accepts policySchema v.toJson = true) :
    ∃ w, v = .text w := by
  cases v with
  | text w => exact ⟨w, rfl⟩
  | _ => exact absurd h (by simp [policySchema, Schema.accepts, Toml.toJson, Json.isText, VisibilityPolicy.all])

theorem accepts_value (s : Settings) (l : Leaf) : Schema.accepts l.schema (l.value s).toJson = true ↔
    l = .bufferLines → s.logging.bufferLines ≠ 0 := by
  cases l with
  | bufferLines =>
    simp only [Leaf.schema, Leaf.value, Schema.accepts, Toml.toJson, Json.nat, Json.notBelow?,
      Option.getD_some, Bool.and_eq_true, decide_eq_true_eq, forall_const]
    have htype : (Json.integer s.logging.bufferLines).hasType "integer" = true := rfl
    rw [and_iff_right htype]
    omega
  | policy =>
    refine iff_of_true ?_ fun h => Leaf.noConfusion h
    rw [Leaf.value]
    cases s.createClass.policy <;> rfl
  | _ => simp [Leaf.schema, Leaf.value, Schema.accepts, Toml.toJson, Json.hasType, Json.types]

/-! ## Documents -/

section

variable {es : List (Text × Toml)}

/-- Where the schema allows what is in a table, it allows what is in a table in it. -/
theorem allows_subtable (g g' : Group) {k : Text} (hpath : g'.path = g.path ++ [k])
    (h : ∀ e ∈ Toml.entriesAt es g.path, g.Allows e) :
    ∀ e ∈ Toml.entriesAt es g'.path, g'.Allows e := by
  rw [hpath, Toml.entriesAt, List.foldl_append, List.foldl_cons, List.foldl_nil, ← Toml.entriesAt,
    Toml.subtable]
  split
  · rename_i es' hlookup
    have htable := (Group.allows_table hpath _).1 (h _ (Toml.mem_of_lookup hlookup))
    obtain ⟨es'', heq, hall⟩ := (g'.accepts_iff _).1 htable
    exact Toml.table.inj heq ▸ hall
  · exact fun _ he => absurd he List.not_mem_nil

theorem allows_of_accepts (h : Schema.accepts schema (Toml.table es).toJson = true) (g : Group) :
    ∀ e ∈ Toml.entriesAt es g.path, g.Allows e := by
  obtain ⟨es', heq, hroot⟩ := (Group.root.accepts_iff _).1 h
  obtain rfl := Toml.table.inj heq
  have hcreate := allows_subtable .root .createClass rfl hroot
  cases g with
  | root => exact hroot
  | createClass => exact hcreate
  | templates => exact allows_subtable .createClass .templates rfl hcreate
  | logging => exact allows_subtable .root .logging rfl hroot

/-- The policy is given as a word, if it is given. -/
def IsWorded (es : List (Text × Toml)) : Prop :=
  ∀ v, (Toml.entriesAt es Leaf.policy.group.path).lookup Leaf.policy.name = some v → ∃ w, v = .text w

theorem IsWorded.ne_table (h : IsWorded es) (es' : List (Text × Toml)) :
    (Toml.entriesAt es Leaf.policy.group.path).lookup Leaf.policy.name ≠ some (.table es') := by
  intro heq
  obtain ⟨w, hw⟩ := h _ heq
  cases hw

theorem isTabular_of_allows (h : ∀ g : Group, ∀ e ∈ Toml.entriesAt es g.path, g.Allows e) :
    IsTabular es := fun g g' k v hpath hv => by
  obtain ⟨es', rfl, -⟩ :=
    (g'.accepts_iff v).1 ((Group.allows_table hpath v).1 (h g _ (Toml.mem_of_lookup hv)))
  exact ⟨es', rfl⟩

theorem isWorded_of_allows (h : ∀ g : Group, ∀ e ∈ Toml.entriesAt es g.path, g.Allows e) :
    IsWorded es := fun v hv =>
  exists_text_of_accepts ((Leaf.policy.allows_iff v).1 (h _ _ (Toml.mem_of_lookup hv)))

/-- Where nothing is reported, each entry gives a table or the value of a leaf. -/
theorem ReadsAs.entry_cases {r : Reading Settings} {c : Reading CreateSettings} {t : Reading Templates}
    {l : Reading LogSettings} (h : ReadsAs es r c t l) (hkeyed : (Toml.table es).IsKeyed)
    (htabular : IsTabular es) (hworded : IsWorded es) (hunknown : r.unknown = []) {g : Group}
    {e : Text × Toml} (he : e ∈ Toml.entriesAt es g.path) :
    (∃ g' : Group, g'.path = g.path ++ [e.1] ∧ e.2 = .table (Toml.entriesAt es g'.path)) ∨
    ∃ leaf : Leaf, leaf.group = g ∧ leaf.name = e.1 ∧ e.2 = leaf.value r.value := by
  have hknows : g.Knows e.1 := by
    by_contra hnot
    have hmem := (h.unknown (e.1 :: g.path.reverse)).2
      ⟨g, e.1, List.mem_map_of_mem he, hnot, rfl⟩
    rw [hunknown] at hmem
    exact absurd hmem List.not_mem_nil
  obtain ⟨k, v⟩ := e
  rcases hknows with ⟨g', hpath⟩ | ⟨leaf, rfl, rfl⟩
  · exact .inl ⟨g', hpath, htabular.eq_table g g' (hkeyed.entriesAt _).nodup hpath he⟩
  · rw [← Toml.lookup_eq_some_iff_mem (hkeyed.entriesAt _).nodup] at he
    refine .inr ⟨leaf, rfl, rfl, ?_⟩
    rw [h.value_leaf hkeyed hworded.ne_table, he]
    rfl

theorem ReadsAs.accepts_group {r : Reading Settings} {c : Reading CreateSettings}
    {t : Reading Templates} {l : Reading LogSettings} (h : ReadsAs es r c t l)
    (hkeyed : (Toml.table es).IsKeyed) (htabular : IsTabular es) (hworded : IsWorded es)
    (hunknown : r.unknown = []) (hlines : r.value.logging.bufferLines ≠ 0) (g : Group)
    (hinner : ∀ (g' : Group) (k : Text), g'.path = g.path ++ [k] →
      Schema.accepts g'.schema (Toml.table (Toml.entriesAt es g'.path)).toJson = true) :
    Schema.accepts g.schema (Toml.table (Toml.entriesAt es g.path)).toJson = true := by
  refine (g.accepts_iff _).2 ⟨_, rfl, fun ⟨k, v⟩ he => ?_⟩
  rcases h.entry_cases hkeyed htabular hworded hunknown he with ⟨g', hpath, hv⟩ | ⟨leaf, rfl, hk, hv⟩
  · simp only at hpath hv
    rw [Group.allows_table hpath, hv]
    exact hinner g' k hpath
  · simp only at hk hv
    rw [← hk, Leaf.allows_iff, hv]
    exact (accepts_value r.value leaf).2 fun _ => hlines

end

theorem load_inv {read : Log.Directive.Reader} {t : Text} {s : Settings} {d : Diagnostics}
    (h : load t read = .ok (s, d)) (hd : d.isEmpty = true) :
    ∃ es r, Toml.read? t = some es ∧ ofEntries es = .ok r ∧ s = r.value ∧ r.unknown = [] := by
  rw [load] at h
  split at h
  · cases h
  · rename_i es hes
    split at h
    · cases h
    · rename_i r hr
      obtain ⟨rfl, rfl⟩ := Prod.mk.inj (Except.ok.inj h)
      refine ⟨es, r, hes, hr, rfl, List.eq_nil_iff_forall_not_mem.2 fun q hq => ?_⟩
      have hmem := mem_sortOnce.2 (List.mem_map_of_mem (f := showPath) hq)
      simp only [Diagnostics.isEmpty, Bool.and_eq_true, List.isEmpty_iff] at hd
      rw [hd.1] at hmem
      exact absurd hmem List.not_mem_nil

/-- Where loading notices nothing, however directives are read, the schema allows the document exactly
if its tables are written as tables, the policy as a word, and lines are kept. -/
theorem isValid_iff_of_isEmpty {read : Log.Directive.Reader} {t : Text} {s : Settings}
    {d : Diagnostics} (h : load t read = .ok (s, d)) (hd : d.isEmpty = true) :
    ∃ es, Toml.read? t = some es ∧
      (schemaJson.IsValid (Toml.table es).toJson ↔
        IsTabular es ∧ IsWorded es ∧ s.logging.bufferLines ≠ 0) := by
  obtain ⟨es, r, hes, hr, rfl, hunknown⟩ := load_inv h hd
  have hkeyed := Toml.IsKeyed.of_read? hes
  refine ⟨es, hes, ?_⟩
  rw [schemaJson, Schema.isValid_toJson_iff (by decide)]
  constructor
  · intro haccepts
    have hallows := allows_of_accepts haccepts
    have htabular := isTabular_of_allows hallows
    have hworded := isWorded_of_allows hallows
    obtain ⟨c, u, l, hreads⟩ := exists_readsAs hkeyed htabular hr
    refine ⟨htabular, hworded, ?_⟩
    have hvalue := hreads.value_leaf hkeyed hworded.ne_table .bufferLines
    cases hlookup : (Toml.entriesAt es Leaf.bufferLines.group.path).lookup Leaf.bufferLines.name with
    | none =>
      -- The default keeps lines.
      rw [hlookup] at hvalue
      intro hzero
      rw [Leaf.value, hzero] at hvalue
      cases hvalue
    | some v =>
      have hallowed := hallows _ _ (Toml.mem_of_lookup hlookup)
      rw [Leaf.allows_iff, show v = Leaf.bufferLines.value r.value by rw [hvalue, hlookup]; rfl] at hallowed
      exact (accepts_value r.value .bufferLines).1 hallowed rfl
  · rintro ⟨htabular, hworded, hlines⟩
    obtain ⟨c, u, l, hreads⟩ := exists_readsAs hkeyed htabular hr
    exact Group.inner_induction (hreads.accepts_group hkeyed htabular hworded hunknown hlines) .root

/-! ## A number of lines -/

/-- A document that gives the number of lines alone. -/
def keepingLines (n : Nat) : List (Text × Toml) :=
  [("logging", .table [("buffer_lines", .integer n)])]

/-- The default settings, with this number of lines. -/
def keeping (n : Nat) : Settings := ⟨.default, { LogSettings.default with bufferLines := n }⟩

theorem load_keepingLines {n : Nat} (hn : n ≤ 2 ^ 63 - 1) :
    Toml.read? (Toml.write (keepingLines n)) = some (keepingLines n) ∧
    load (Toml.write (keepingLines n)) = .ok (keeping n, ⟨[], []⟩) := by
  have hread : Toml.read? (Toml.write (keepingLines n)) = some (keepingLines n) := by
    have hlogging : Toml.IsBare "logging" := by decide
    have hlines : Toml.IsBare "buffer_lines" := by decide
    refine Toml.read?_write (List.nodup_singleton _) (List.forall_mem_singleton.2 hlogging)
      (List.forall_mem_singleton.2 ?_)
    exact .table (List.nodup_singleton _) (List.forall_mem_singleton.2 hlines)
      (List.forall_mem_singleton.2 (.natCast hn))
  have hentries : ofEntries (keepingLines n) = .ok ⟨keeping n, []⟩ := rfl
  have hproblems : (keeping n).problems = [] := rfl
  have hnone : sortOnce [] = [] :=
    List.eq_nil_iff_forall_not_mem.2 fun q hq => absurd (mem_sortOnce.1 hq) List.not_mem_nil
  refine ⟨hread, ?_⟩
  rw [load, hread]
  simp only [hentries, List.map_nil, hnone, hproblems]

theorem isValid_seven :
    load (Toml.write (keepingLines 7)) = .ok (keeping 7, ⟨[], []⟩) ∧
    (⟨[], []⟩ : Diagnostics).isEmpty = true ∧
    schemaJson.IsValid (Toml.table (keepingLines 7)).toJson := by
  obtain ⟨hread, hload⟩ := load_keepingLines (n := 7) (by decide)
  obtain ⟨es, hes, hiff⟩ := isValid_iff_of_isEmpty hload rfl
  obtain rfl : keepingLines 7 = es := Option.some.inj (hread.symm.trans hes)
  refine ⟨hload, rfl, hiff.2 ⟨fun g g' k v hpath hv => ?_, fun v hv => ?_, by decide⟩⟩
  · rcases Group.inner_cases hpath with ⟨rfl, -, rfl⟩ | ⟨rfl, -, rfl⟩ | ⟨rfl, -, rfl⟩ <;> cases hv
    exact ⟨_, rfl⟩
  · cases hv

/-- No lines at all are loaded without a notice, and the schema does not allow them. -/
theorem not_isValid_zero :
    ∃ s d es, load "logging = \x7bbuffer_lines = 0\x7d\n" = .ok (s, d) ∧ d.isEmpty = true ∧
      Toml.read? "logging = \x7bbuffer_lines = 0\x7d\n" = some es ∧
      ¬schemaJson.IsValid (Toml.table es).toJson := by
  obtain ⟨hread, hload⟩ := load_keepingLines (n := 0) (by decide)
  have htext : Toml.write (keepingLines 0) = "logging = \x7bbuffer_lines = 0\x7d\n" := by decide
  rw [htext] at hread hload
  refine ⟨_, _, _, hload, rfl, hread, ?_⟩
  rw [schemaJson, Schema.isValid_toJson_iff (by decide)]
  decide

end Settings

end QuickFix
