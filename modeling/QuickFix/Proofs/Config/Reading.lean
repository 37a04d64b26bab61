import Mathlib.Data.List.Forall2
import QuickFix.Config.Load

/-!
# Records read from tables

What a table says about a record, one entry at a time, for any list of fields.

* `readRecord_table_iff`: a table is read if each of its entries is;
* `mem_unknown_iff_or`: the names nothing knows are those of its entries and those in its fields;
* `get_readRecord`: a part of the record that one field sets is what the entry of that field gives, in
  whatever order the entries stand, or what it was before if there is no such entry;
* `putRecord_eq`: passing over unknown names and reporting them give the same record.
-/

namespace QuickFix.Settings

/-! ## Lists of readings -/

section

variable {α β γ ε : Type}

theorem map_eq_ok_iff {x : Except ε α} {f : α → β} {b : β} :
    x.map f = .ok b ↔ ∃ a, x = .ok a ∧ f a = b := by
  cases x with
  | error e => exact ⟨nofun, fun ⟨_, h, _⟩ => nomatch h⟩
  | ok a => exact ⟨fun h => ⟨a, rfl, Except.ok.inj h⟩, fun ⟨_, h, hb⟩ => by cases h; exact congrArg _ hb⟩

theorem mapM_eq_ok_iff {f : α → Except ε β} {l : List α} {rs : List β} :
    l.mapM f = .ok rs ↔ List.Forall₂ (fun a r => f a = .ok r) l rs := by
  induction l generalizing rs with
  | nil =>
    rw [List.mapM_nil, List.forall₂_nil_left_iff]
    exact ⟨fun h => (Except.ok.inj h).symm, fun h => h ▸ rfl⟩
  | cons a l ih =>
    rw [List.mapM_cons, List.forall₂_cons_left_iff]
    constructor
    · intro h
      cases ha : f a with
      | error e => rw [ha] at h; cases h
      | ok r =>
        cases hl : l.mapM f with
        | error e => rw [ha, hl] at h; cases h
        | ok rs' =>
          rw [ha, hl] at h
          exact ⟨r, rs', rfl, ih.1 hl, (Except.ok.inj h).symm⟩
    · rintro ⟨r, rs', ha, hl, rfl⟩
      rw [ha, ih.2 hl]
      rfl

theorem exists_mapM {f : α → Except ε β} {l : List α} (h : ∀ a ∈ l, ∃ r, f a = .ok r) :
    ∃ rs, l.mapM f = .ok rs := by
  induction l with
  | nil => exact ⟨[], rfl⟩
  | cons a l ih =>
    obtain ⟨⟨r, ha⟩, hl⟩ := List.forall_mem_cons.1 h
    obtain ⟨rs, hrs⟩ := ih hl
    exact ⟨r :: rs, mapM_eq_ok_iff.2 (.cons ha (mapM_eq_ok_iff.1 hrs))⟩

theorem mapM_map {f : α → Except ε β} {g : α → Except ε γ} {h : β → γ} {l : List α}
    (hg : ∀ a ∈ l, g a = (f a).map h) : l.mapM g = (l.mapM f).map (List.map h) := by
  induction l with
  | nil => rfl
  | cons a l ih =>
    obtain ⟨ha, hl⟩ := List.forall_mem_cons.1 hg
    rw [List.mapM_cons, List.mapM_cons, ha, ih hl]
    cases f a with
    | error e => rfl
    | ok b => cases l.mapM f <;> rfl

end

/-! ## Fields -/

variable {α β : Type} {name : Text} {path : Path}

section

variable {s : Reading (α → α)} {v : Toml} {set : α → β → α}

theorem Field.read_leaf_iff {as : Toml → Except Mismatch β} :
    (Field.leaf name as set).read path v = .ok s ↔
      ∃ b, as v = .ok b ∧ ⟨fun a => set a b, []⟩ = s :=
  map_eq_ok_iff

theorem Field.read_record_iff {typeName : Text} {inner : List (Field β)} {start : β} :
    (Field.record name typeName inner start set).read path v = .ok s ↔
      ∃ r, readRecord typeName inner start path v = .ok r ∧ ⟨fun a => set a r.value, r.unknown⟩ = s :=
  map_eq_ok_iff

theorem Field.exists_read_leaf_iff {as : Toml → Except Mismatch β} :
    (∃ s, (Field.leaf name as set).read path v = .ok s) ↔ ∃ b, as v = .ok b := by
  simp only [Field.read_leaf_iff]
  exact ⟨fun ⟨_, b, hb, _⟩ => ⟨b, hb⟩, fun ⟨b, hb⟩ => ⟨_, b, hb, rfl⟩⟩

theorem Field.exists_read_record_iff {typeName : Text} {inner : List (Field β)} {start : β} :
    (∃ s, (Field.record name typeName inner start set).read path v = .ok s) ↔
      ∃ r, readRecord typeName inner start path v = .ok r := by
  simp only [Field.read_record_iff]
  exact ⟨fun ⟨_, r, hr, _⟩ => ⟨r, hr⟩, fun ⟨r, hr⟩ => ⟨_, r, hr, rfl⟩⟩

end

/-! ## Entries -/

variable {fields : List (Field α)} {start : α} {es : List (Text × Toml)} {r : Reading α}

theorem readEntry_unknown {e : Text × Toml} (h : ∀ f ∈ fields, f.name ≠ e.1) :
    readEntry fields path e = .ok ⟨id, [e.1 :: path]⟩ := by
  have hfind : fields.find? (fun f => f.name = e.1) = none :=
    List.find?_eq_none.2 fun f hf => by simpa using h f hf
  rw [readEntry, hfind]

theorem readEntry_field {f : Field α} (hfind : fields.find? (fun g => g.name = f.name) = some f)
    (v : Toml) : readEntry fields path (f.name, v) = f.read (f.name :: path) v := by
  rw [readEntry, hfind]

theorem readRecord_table_iff : readRecord name fields start path (.table es) = .ok r ↔
    ∃ rs, List.Forall₂ (fun e s => readEntry fields path e = .ok s) es rs ∧ gather start rs = r := by
  rw [readRecord, map_eq_ok_iff]
  exact exists_congr fun rs => and_congr_left fun _ => mapM_eq_ok_iff

theorem exists_readRecord (h : ∀ e ∈ es, ∃ s, readEntry fields path e = .ok s) :
    ∃ r, readRecord name fields start path (.table es) = .ok r := by
  obtain ⟨rs, hrs⟩ := exists_mapM h
  exact ⟨_, readRecord_table_iff.2 ⟨rs, mapM_eq_ok_iff.1 hrs, rfl⟩⟩

theorem exists_readRecord_of_fields
    (h : ∀ f ∈ fields, ∀ v, (f.name, v) ∈ es → ∃ s, f.read (f.name :: path) v = .ok s) :
    ∃ r, readRecord name fields start path (.table es) = .ok r := by
  refine exists_readRecord fun ⟨k, v⟩ he => ?_
  rw [readEntry]
  split
  · exact ⟨_, rfl⟩
  · rename_i f hf
    have hk : f.name = k := by simpa using List.find?_some hf
    subst hk
    exact h f (List.mem_of_find?_eq_some hf) v he

theorem mem_unknown_iff (h : readRecord name fields start path (.table es) = .ok r) {q : Path} :
    q ∈ r.unknown ↔ ∃ e ∈ es, ∃ s, readEntry fields path e = .ok s ∧ q ∈ s.unknown := by
  obtain ⟨rs, hrs, rfl⟩ := readRecord_table_iff.1 h
  clear h
  rw [gather]
  induction hrs with
  | nil => simp
  | @cons e s es rs hs _ ih =>
    simp only [List.flatMap_cons, List.mem_append, List.exists_mem_cons_iff]
    refine or_congr ⟨fun h => ⟨s, hs, h⟩, ?_⟩ ih
    rintro ⟨s', hs', h⟩
    rw [hs] at hs'
    exact Except.ok.inj hs' ▸ h

/-- The names that nothing knows are the names of entries without a field, and what fields report. -/
theorem mem_unknown_iff_or
    (hfind : ∀ f ∈ fields, fields.find? (fun g => g.name = f.name) = some f)
    (h : readRecord name fields start path (.table es) = .ok r) {q : Path} :
    q ∈ r.unknown ↔ (∃ k ∈ es.map Prod.fst, (∀ f ∈ fields, f.name ≠ k) ∧ q = k :: path) ∨
      ∃ f ∈ fields, ∃ v s, (f.name, v) ∈ es ∧ f.read (f.name :: path) v = .ok s ∧ q ∈ s.unknown := by
  rw [mem_unknown_iff h]
  constructor
  · rintro ⟨⟨k, v⟩, he, s, hs, hq⟩
    rw [readEntry] at hs
    split at hs
    · rename_i hnone
      obtain rfl := Except.ok.inj hs
      refine .inl ⟨k, List.mem_map_of_mem he, fun f hf hk => ?_, List.mem_singleton.1 hq⟩
      exact List.find?_eq_none.1 hnone f hf (decide_eq_true hk)
    · rename_i f hf
      have hk : f.name = k := by simpa using List.find?_some hf
      subst hk
      exact .inr ⟨f, List.mem_of_find?_eq_some hf, v, s, he, hs, hq⟩
  · rintro (⟨k, hk, hnone, rfl⟩ | ⟨f, hf, v, s, he, hs, hq⟩)
    · obtain ⟨e, he, rfl⟩ := List.mem_map.1 hk
      exact ⟨e, he, _, readEntry_unknown hnone, List.mem_singleton_self _⟩
    · exact ⟨_, he, s, (readEntry_field (hfind f hf) v).trans hs, hq⟩

/-! ## Parts of a record -/

/-- Whatever the field reads leaves `get` of the record as it was. -/
def Field.Spares (f : Field α) (get : α → β) : Prop :=
  ∀ path v s, f.read path v = .ok s → ∀ a, get (s.value a) = get a

section

variable {f : Field α} {get : α → β}
  (hfind : fields.find? (fun g => g.name = f.name) = some f)
  (hspare : ∀ g ∈ fields, g.name ≠ f.name → g.Spares get)

include hspare

theorem readEntry_spares {e : Text × Toml} {s : Reading (α → α)} (he : e.1 ≠ f.name)
    (h : readEntry fields path e = .ok s) (a : α) : get (s.value a) = get a := by
  rw [readEntry] at h
  split at h
  · obtain rfl := Except.ok.inj h
    rfl
  · rename_i g hg
    have hname : g.name = e.1 := by simpa using List.find?_some hg
    exact hspare g (List.mem_of_find?_eq_some hg) (hname ▸ he) _ _ s h a

theorem get_foldl_of_not_mem {rs : List (Reading (α → α))} (hnot : f.name ∉ es.map Prod.fst)
    (h : List.Forall₂ (fun e s => readEntry fields path e = .ok s) es rs) (a : α) :
    get (rs.foldl (fun a r => r.value a) a) = get a := by
  induction h generalizing a with
  | nil => rfl
  | cons hs _ ih =>
    rw [List.map_cons, List.mem_cons, not_or] at hnot
    rw [List.foldl_cons, ih hnot.2, readEntry_spares hspare (Ne.symm hnot.1) hs]

include hfind

theorem get_foldl {rs : List (Reading (α → α))} (hnodup : (es.map Prod.fst).Nodup)
    (h : List.Forall₂ (fun e s => readEntry fields path e = .ok s) es rs) (a : α) :
    (es.lookup f.name = none ∧ get (rs.foldl (fun a r => r.value a) a) = get a) ∨
    ∃ v s b, es.lookup f.name = some v ∧ f.read (f.name :: path) v = .ok s ∧
      get (rs.foldl (fun a r => r.value a) a) = get (s.value b) := by
  induction h generalizing a with
  | nil => exact .inl ⟨rfl, rfl⟩
  | @cons e s es rs hs hrs ih =>
    obtain ⟨hnew, htail⟩ := List.nodup_cons.1 hnodup
    obtain ⟨k, v⟩ := e
    by_cases hk : f.name = k
    · -- No later entry has this key, so none changes what this one gives.
      subst hk
      refine .inr ⟨v, s, a, List.lookup_cons_self, ?_, ?_⟩
      · rw [← readEntry_field hfind, hs]
      · rw [List.foldl_cons, get_foldl_of_not_mem hspare hnew hrs]
    · rw [List.lookup_cons, beq_false_of_ne hk, List.foldl_cons,
        ← readEntry_spares hspare (Ne.symm hk) hs a]
      exact ih htail (s.value a)

theorem get_readRecord (hnodup : (es.map Prod.fst).Nodup)
    (h : readRecord name fields start path (.table es) = .ok r) :
    (es.lookup f.name = none ∧ get r.value = get start) ∨
    ∃ v s b, es.lookup f.name = some v ∧ f.read (f.name :: path) v = .ok s ∧
      get r.value = get (s.value b) := by
  obtain ⟨rs, hrs, rfl⟩ := readRecord_table_iff.1 h
  exact get_foldl hfind hspare hnodup hrs start

end

theorem Field.spares_leaf {γ : Type} {as : Toml → Except Mismatch γ} {set : α → γ → α} {get : α → β}
    (hget : ∀ a c, get (set a c) = get a) : (Field.leaf name as set).Spares get :=
  fun path v s h a => by
    obtain ⟨c, -, rfl⟩ := Field.read_leaf_iff.1 h
    exact hget a c

theorem Field.spares_record {γ : Type} {typeName : Text} {inner : List (Field γ)} {start : γ}
    {set : α → γ → α} {get : α → β} (hget : ∀ a c, get (set a c) = get a) :
    (Field.record name typeName inner start set).Spares get :=
  fun path v s h a => by
    obtain ⟨r, -, rfl⟩ := Field.read_record_iff.1 h
    exact hget a r.value

/-- Where every value that is read for a field is `show` of it, so is the one in the record. -/
theorem show_leaf {γ : Type} {n : Text} {as : Toml → Except Mismatch γ} {set : α → γ → α}
    {get : α → γ} (toToml : γ → Toml)
    (hfind : fields.find? (fun g => g.name = n) = some (.leaf n as set))
    (hget : ∀ a c, get (set a c) = c) (hspare : ∀ g ∈ fields, g.name ≠ n → g.Spares get)
    (has : ∀ v c, es.lookup n = some v → as v = .ok c → v = toToml c)
    (hnodup : (es.map Prod.fst).Nodup)
    (h : readRecord name fields start path (.table es) = .ok r) :
    toToml (get r.value) = (es.lookup n).getD (toToml (get start)) := by
  rcases get_readRecord (f := .leaf n as set) hfind hspare hnodup h with
    ⟨hnone, hstart⟩ | ⟨v, s, a, hsome, hread, hvalue⟩
  · rw [show es.lookup n = none from hnone, hstart]
    rfl
  · replace hsome : es.lookup n = some v := hsome
    obtain ⟨c, hv, rfl⟩ := Field.read_leaf_iff.1 hread
    rw [hvalue, hget, hsome, has v c hsome hv]
    rfl

theorem get_record {γ : Type} {n typeName : Text} {inner : List (Field γ)} {start' : γ}
    {set : α → γ → α} {get : α → γ}
    (hfind : fields.find? (fun g => g.name = n) = some (.record n typeName inner start' set))
    (hget : ∀ a c, get (set a c) = c) (hspare : ∀ g ∈ fields, g.name ≠ n → g.Spares get)
    (hnodup : (es.map Prod.fst).Nodup)
    (h : readRecord name fields start path (.table es) = .ok r) :
    (es.lookup n = none ∧ get r.value = get start) ∨
    ∃ v s, es.lookup n = some v ∧ readRecord typeName inner start' (n :: path) v = .ok s ∧
      get r.value = s.value := by
  rcases get_readRecord (f := .record n typeName inner start' set) hfind hspare hnodup h with
    hnone | ⟨v, s, a, hsome, hread, hvalue⟩
  · exact .inl hnone
  · obtain ⟨c, hv, rfl⟩ := Field.read_record_iff.1 hread
    exact .inr ⟨v, c, hsome, hv, by rw [hvalue, hget]⟩

/-! ## The two ways of reading -/

/-- `put` reads what `read` does. -/
def Field.Agrees (f : Field α) : Prop := ∀ path v, f.put v = (f.read path v).map Reading.value

theorem Field.agrees_leaf (name : Text) (as : Toml → Except Mismatch β) (set : α → β → α) :
    (Field.leaf name as set).Agrees := fun path v => by
  simp only [Field.leaf]
  cases as v <;> rfl

theorem putRecord_eq (hfields : ∀ f ∈ fields, f.Agrees) (path : Path) (v : Toml) :
    putRecord name fields start v = (readRecord name fields start path v).map Reading.value := by
  cases v with
  | table es =>
    have hentry : ∀ e ∈ es, putEntry fields e = (readEntry fields path e).map Reading.value := by
      intro e _
      rw [putEntry, readEntry]
      split
      · rfl
      · rename_i f hf
        exact hfields f (List.mem_of_find?_eq_some hf) _ _
    simp only [putRecord, readRecord, mapM_map hentry]
    cases es.mapM (readEntry fields path) with
    | error m => rfl
    | ok rs => exact congrArg Except.ok List.foldl_map
  | list items =>
    have hput : (fields.zip items).mapM (fun x => x.1.put x.2) =
        (fields.zip items).zipIdx.mapM fun x => x.1.1.put x.1.2 := by
      conv_lhs => rw [← List.zipIdx_map_fst 0 (fields.zip items), List.mapM_map]
      rfl
    have hitem : ∀ x ∈ (fields.zip items).zipIdx, x.1.1.put x.1.2 =
        (x.1.1.read (Text.ofNat x.2 :: path) x.1.2).map Reading.value := by
      intro x hx
      exact hfields x.1.1 (List.of_mem_zip (List.fst_mem_of_mem_zipIdx hx)).1 _ _
    simp only [putRecord, readRecord, hput, mapM_map hitem]
    cases (fields.zip items).zipIdx.mapM fun x => x.1.1.read (Text.ofNat x.2 :: path) x.1.2 with
    | error m => rfl
    | ok rs => exact congrArg Except.ok List.foldl_map
  | moment => rfl
  | text _ => rfl
  | integer _ => rfl
  | float _ => rfl
  | bool _ => rfl

theorem Field.agrees_record {typeName : Text} {fields : List (Field β)} (start : β)
    (set : α → β → α) (hfields : ∀ f ∈ fields, f.Agrees) :
    (Field.record name typeName fields start set).Agrees := fun path v => by
  simp only [Field.record]
  rw [putRecord_eq hfields path v]
  cases readRecord typeName fields start path v <;> rfl

end QuickFix.Settings
