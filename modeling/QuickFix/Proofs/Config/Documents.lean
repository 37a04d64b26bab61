import Mathlib.Data.Finset.Basic
import QuickFix.Proofs.Config.Loading
import QuickFix.Proofs.Toml.Writing

/-!
# Documents that give some settings

A document gives some leaves of the settings and leaves out the others, in any order, and may have
keys that no table knows. It loads to the default settings with the given leaves in their place
(`load_gives`); the other keys are reported, in order, and change nothing.
-/

namespace QuickFix.Settings

/-! ## Paths -/

theorem showPath_bare {g : Group} {k : Text} (hk : Toml.IsBare k) :
    showPath (k :: g.path.reverse) = Text.join "." (g.path ++ [k]) := by
  rw [showPath, List.reverse_cons, List.reverse_reverse]
  cases g with
  | root =>
    obtain ⟨c, t, rfl, hc⟩ := hk.exists_cons
    have hdot : c ≠ '.' := by
      rintro rfl
      exact absurd hc (by decide)
    exact List.dropWhile_cons_of_neg (by simpa using hdot)
  | _ => exact List.dropWhile_cons_of_neg (by decide)

/-! ## Documents for some of the leaves -/

/-- The default settings, with the leaves in `S` taken from `c`. -/
def overlay (c : Settings) (S : Finset Leaf) : Settings :=
  let source (l : Leaf) : Settings := if l ∈ S then c else .default
  let template (k : ClassKind) : Text := (source (.template k)).createClass.templates.get k
  { createClass := {
      extension := (source .extension).createClass.extension
      templates := ⟨template .plain, template .interface, template .enum, template .annotationType⟩
      policy := (source .policy).createClass.policy }
    logging := {
      level := (source .level).logging.level
      json := (source .json).logging.json
      stderr := (source .stderr).logging.stderr
      bufferLines := (source .bufferLines).logging.bufferLines } }

theorem value_overlay (c : Settings) (S : Finset Leaf) (l : Leaf) :
    l.value (c.overlay S) = if l ∈ S then l.value c else l.value .default := by
  cases l with
  | template k => cases k <;> simp only [overlay, Leaf.value, Templates.get] <;> split <;> rfl
  | _ =>
    simp only [overlay, Leaf.value]
    split <;> rfl

/-- The document gives the leaves in `S` the values that they have in `c`, and no others. All other
keys in the tables of settings are bare. -/
structure Gives (c : Settings) (S : Finset Leaf) (es : List (Text × Toml)) : Prop where
  tabular : IsTabular es
  leaf : ∀ l : Leaf, (Toml.entriesAt es l.group.path).lookup l.name =
    if l ∈ S then some (l.value c) else none
  bare : ∀ g : Group, ∀ e ∈ Toml.entriesAt es g.path, ¬g.Knows e.1 → Toml.IsBare e.1

namespace Gives

variable {c : Settings} {S : Finset Leaf} {es : List (Text × Toml)} (h : Gives c S es)

include h

theorem exists_ofEntries (hkeyed : (Toml.table es).IsKeyed) : ∃ r, ofEntries es = .ok r := by
  have htyped : IsTyped es := fun l v hv => by
    rw [← Toml.lookup_eq_some_iff_mem (hkeyed.entriesAt _).nodup, h.leaf] at hv
    split at hv
    · exact ⟨c, (Option.some.inj hv).symm⟩
    · cases hv
  exact htyped.exists_ofEntries hkeyed h.tabular

theorem value_eq (hkeyed : (Toml.table es).IsKeyed) {r : Reading Settings}
    (hr : ofEntries es = .ok r) : r.value = c.overlay S := by
  obtain ⟨rc, rt, rl, hreads⟩ := exists_readsAs hkeyed h.tabular hr
  refine eq_of_value fun l => ?_
  have hpolicy : ∀ es', (Toml.entriesAt es Leaf.policy.group.path).lookup Leaf.policy.name ≠
      some (.table es') := by
    intro es' heq
    rw [h.leaf] at heq
    split at heq <;> cases heq
  rw [hreads.value_leaf hkeyed hpolicy, h.leaf, value_overlay]
  split <;> rfl

theorem mem_unknownKeys (hkeyed : (Toml.table es).IsKeyed) {r : Reading Settings}
    (hr : ofEntries es = .ok r) (q : Text) : q ∈ sortOnce (r.unknown.map showPath) ↔
      ∃ g : Group, ∃ k ∈ (Toml.entriesAt es g.path).map Prod.fst, ¬g.Knows k ∧
        q = Text.join "." (g.path ++ [k]) := by
  obtain ⟨rc, rt, rl, hreads⟩ := exists_readsAs hkeyed h.tabular hr
  have hshow : ∀ (g : Group), ∀ k ∈ (Toml.entriesAt es g.path).map Prod.fst, ¬g.Knows k →
      showPath (k :: g.path.reverse) = Text.join "." (g.path ++ [k]) := by
    intro g k hk hknows
    obtain ⟨e, he, rfl⟩ := List.mem_map.1 hk
    exact showPath_bare (h.bare g e he hknows)
  rw [mem_sortOnce, List.mem_map]
  constructor
  · rintro ⟨p, hp, rfl⟩
    obtain ⟨g, k, hk, hknows, rfl⟩ := (hreads.unknown p).1 hp
    exact ⟨g, k, hk, hknows, hshow g k hk hknows⟩
  · rintro ⟨g, k, hk, hknows, rfl⟩
    exact ⟨_, (hreads.unknown _).2 ⟨g, k, hk, hknows, rfl⟩, hshow g k hk hknows⟩

theorem load_eq (read : Log.Directive.Reader) {t : Text} (ht : Toml.read? t = some es) :
    loadSilently t = .ok (c.overlay S) ∧
    ∃ unknown, load t read = .ok (c.overlay S, ⟨unknown, (c.overlay S).problems read⟩) ∧
      unknown.Pairwise (· < ·) ∧
      ∀ q, q ∈ unknown ↔ ∃ g : Group, ∃ k ∈ (Toml.entriesAt es g.path).map Prod.fst, ¬g.Knows k ∧
        q = Text.join "." (g.path ++ [k]) := by
  have hkeyed := Toml.IsKeyed.of_read? ht
  obtain ⟨r, hr⟩ := h.exists_ofEntries hkeyed
  have hload : load t read =
      .ok (c.overlay S, ⟨sortOnce (r.unknown.map showPath), (c.overlay S).problems read⟩) := by
    rw [load, ht, ← h.value_eq hkeyed hr]
    simp only [hr]
  refine ⟨?_, _, hload, pairwise_sortOnce _, h.mem_unknownKeys hkeyed hr⟩
  rw [loadSilently_eq t read, hload]
  rfl

end Gives

/-! ## Such documents as texts -/

theorem Leaf.writable {c : Settings} (hlines : c.logging.bufferLines ≤ 2 ^ 63 - 1) (l : Leaf)
    (depth : Nat) : Toml.Writable depth (l.value c) := by
  cases l with
  | bufferLines => exact .natCast hlines
  | json => exact .bool _
  | stderr => exact .bool _
  | _ => exact .text _

theorem Group.Knows.isBare {g : Group} {k : Text} (h : g.Knows k) : Toml.IsBare k := by
  have hbare : ∀ (g : Group), ∀ k ∈ g.keys, Toml.IsBare k := by
    intro g
    cases g <;> decide
  exact hbare g k (Group.knows_iff.1 h)

namespace Gives

variable {c : Settings} {S : Finset Leaf} {es : List (Text × Toml)} (h : Gives c S es)
  (hlines : c.logging.bufferLines ≤ 2 ^ 63 - 1)
  (hnodup : ∀ g : Group, ((Toml.entriesAt es g.path).map Prod.fst).Nodup)
  (hextra : ∀ g : Group, ∀ e ∈ Toml.entriesAt es g.path, ¬g.Knows e.1 →
    Toml.Writable (Toml.depthLimit - 1 - g.path.length) e.2)

include h

theorem isBare (g : Group) : ∀ e ∈ Toml.entriesAt es g.path, Toml.IsBare e.1 := fun e he => by
  by_cases hknows : g.Knows e.1
  · exact hknows.isBare
  · exact h.bare g e he hknows

include hlines hnodup hextra

/-- The entries of a table can be written, by induction on the tables in it. -/
theorem writable (g : Group) : ∀ e ∈ Toml.entriesAt es g.path,
    Toml.Writable (Toml.depthLimit - 1 - g.path.length) e.2 := by
  induction g using Group.inner_induction with
  | step g ih =>
    rintro ⟨k, v⟩ he
    by_cases hknows : g.Knows k
    · rcases hknows with ⟨g', hpath⟩ | ⟨l, rfl, rfl⟩
      · have hdepth : Toml.depthLimit - 1 - g'.path.length + 1 =
            Toml.depthLimit - 1 - g.path.length := by
          rcases Group.inner_cases hpath with ⟨rfl, rfl, -⟩ | ⟨rfl, rfl, -⟩ | ⟨rfl, rfl, -⟩ <;> rfl
        rw [h.tabular.eq_table g g' (hnodup g) hpath he, ← hdepth]
        exact .table (hnodup g') (h.isBare g') (ih g' k hpath)
      · rw [← Toml.lookup_eq_some_iff_mem (hnodup _), h.leaf] at he
        split at he
        · exact Option.some.inj he ▸ l.writable hlines _
        · cases he
    · exact hextra g _ he hknows

theorem read?_write : Toml.read? (Toml.write es) = some es :=
  Toml.read?_write (hnodup .root) (h.isBare .root) (h.writable hlines hnodup hextra .root)

end Gives

/-- A document that gives the leaves in `S` their values from `c` loads to the default settings with
these leaves in their place, and reports the keys that no table knows, each once and in order, however
directives are read. Each such document can be written, as long as the values of those keys can. -/
theorem load_gives (read : Log.Directive.Reader) {c : Settings}
    (hlines : c.logging.bufferLines ≤ 2 ^ 63 - 1) {S : Finset Leaf} {es : List (Text × Toml)}
    (h : Gives c S es) :
    (∀ t, Toml.read? t = some es →
      loadSilently t = .ok (c.overlay S) ∧
      ∃ unknown, load t read = .ok (c.overlay S, ⟨unknown, (c.overlay S).problems read⟩) ∧
        unknown.Pairwise (· < ·) ∧
        ∀ q, q ∈ unknown ↔ ∃ g : Group, ∃ k ∈ (Toml.entriesAt es g.path).map Prod.fst, ¬g.Knows k ∧
          q = Text.join "." (g.path ++ [k])) ∧
    ((∀ g : Group, ((Toml.entriesAt es g.path).map Prod.fst).Nodup) →
      (∀ g : Group, ∀ e ∈ Toml.entriesAt es g.path, ¬g.Knows e.1 →
        Toml.Writable (Toml.depthLimit - 1 - g.path.length) e.2) →
      Toml.read? (Toml.write es) = some es) :=
  ⟨fun _ ht => h.load_eq read ht, fun hnodup hextra => h.read?_write hlines hnodup hextra⟩

/-- Settings of which all leaves differ from their defaults. -/
def changed : Settings where
  createClass := ⟨"java", ⟨"C.java", "I.java", "E.java", "A.java"⟩, .minimal⟩
  logging := ⟨"debug", true, false, 7⟩

/-- A document that gives three of these leaves, and a key that is not known in each table. -/
def scattered : List (Text × Toml) := [
  ("logging", .table [("x", .bool true), ("level", .text "debug")]),
  ("zeta", .list [.integer 1]),
  ("create_class", .table [
    ("visibility", .text "minimal"),
    ("templates", .table [("enum", .text "E.java"), ("record", .text "R.java")]),
    ("y", .integer (-3))])]

theorem writable_of_mem_scattered (g : Group) : ∀ e ∈ Toml.entriesAt scattered g.path, ¬g.Knows e.1 →
    Toml.Writable (Toml.depthLimit - 1 - g.path.length) e.2 := by
  intro e he hknows
  rw [Group.knows_iff] at hknows
  have hother : e ∈ (Toml.entriesAt scattered g.path).filter fun e => e.1 ∉ g.keys :=
    List.mem_filter.2 ⟨he, decide_eq_true hknows⟩
  cases g with
  | root =>
    obtain rfl : e = (("zeta" : Text), Toml.list [.integer 1]) := List.mem_singleton.1 hother
    exact .list (List.forall_mem_singleton.2 (.integer rfl))
  | createClass =>
    obtain rfl : e = (("y" : Text), Toml.integer (-3)) := List.mem_singleton.1 hother
    exact .integer rfl
  | templates =>
    obtain rfl : e = (("record" : Text), Toml.text "R.java") := List.mem_singleton.1 hother
    exact .text _
  | logging =>
    obtain rfl : e = (("x" : Text), Toml.bool true) := List.mem_singleton.1 hother
    exact .bool _

theorem load_gives_scattered :
    changed.logging.bufferLines ≤ 2 ^ 63 - 1 ∧
    Gives changed {.level, .policy, .template .enum} scattered ∧
    loadSilently (Toml.write scattered) =
      .ok (changed.overlay {.level, .policy, .template .enum}) ∧
    ∃ unknown, load (Toml.write scattered) =
        .ok (changed.overlay {.level, .policy, .template .enum},
          ⟨unknown, (changed.overlay {.level, .policy, .template .enum}).problems⟩) ∧
      Text.join "." ["create_class", "templates", "record"] ∈ unknown := by
  have hlines : changed.logging.bufferLines ≤ 2 ^ 63 - 1 := by decide
  have hbare : ∀ (g : Group), ∀ e ∈ Toml.entriesAt scattered g.path, Toml.IsBare e.1 := by
    intro g
    cases g <;> decide
  have hgives : Gives changed {.level, .policy, .template .enum} scattered := by
    refine ⟨fun g g' k v hpath hv => ?_, fun l => ?_, fun g e he _ => hbare g e he⟩
    · rcases Group.inner_cases hpath with ⟨rfl, -, rfl⟩ | ⟨rfl, -, rfl⟩ | ⟨rfl, -, rfl⟩ <;>
        exact ⟨_, (Option.some.inj hv).symm⟩
    · cases l with
      | template k => cases k <;> rfl
      | _ => rfl
  obtain ⟨hload, hread⟩ := load_gives .lenient hlines hgives
  have hread := hread (fun g => by cases g <;> decide) writable_of_mem_scattered
  obtain ⟨hsilent, unknown, hload, -, hmem⟩ := hload _ hread
  refine ⟨hlines, hgives, hsilent, unknown, hload, (hmem _).2 ⟨.templates, "record", ?_, ?_, rfl⟩⟩
  · decide
  · rw [Group.knows_iff]
    decide

end QuickFix.Settings
