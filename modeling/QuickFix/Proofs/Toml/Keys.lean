import Mathlib.Data.List.Nodup
import QuickFix.Toml.Reader

/-!
# Keys of TOML tables

No table of a document has a key twice.

* `Draft.IsKeyed.descend`: what a statement adds to a document keeps the keys of each table apart, given
  that the change at the end of its path does;
* `ofStatements?_isKeyed`, `value?_isKeyed`: so do whole documents and values;
* `IsKeyed.of_read?`: and so does every text that is read.
-/

namespace QuickFix.Toml

/-- No table in the value has a key twice. -/
inductive IsKeyed : Toml → Prop
  | text (t : Text) : IsKeyed (.text t)
  | integer (n : Int) : IsKeyed (.integer n)
  | float (x : Double) : IsKeyed (.float x)
  | bool (b : Bool) : IsKeyed (.bool b)
  | moment : IsKeyed .moment
  | list {items : List Toml} : (∀ v ∈ items, IsKeyed v) → IsKeyed (.list items)
  | table {es : List (Text × Toml)} :
    (es.map Prod.fst).Nodup → (∀ e ∈ es, IsKeyed e.2) → IsKeyed (.table es)

/-! ## Drafts -/

namespace Draft

/-- No table in the part of a document has a key twice. -/
inductive IsKeyed : Draft → Prop
  | value {v : Toml} : v.IsKeyed → IsKeyed (.value v)
  | table {o : Origin} {es : Entries} :
    (es.map Prod.fst).Nodup → (∀ e ∈ es, IsKeyed e.2) → IsKeyed (.table o es)
  | tables {ts : List Entries} :
    (∀ es ∈ ts, (es.map Prod.fst).Nodup) → (∀ es ∈ ts, ∀ e ∈ es, IsKeyed e.2) → IsKeyed (.tables ts)

/-- The entries of a table without a key twice. -/
structure AreKeyed (es : Entries) : Prop where
  nodup : (es.map Prod.fst).Nodup
  keyed : ∀ e ∈ es, e.2.IsKeyed

namespace AreKeyed

variable {es : Entries} {key : Text} {d : Draft}

theorem nil : AreKeyed [] := ⟨List.nodup_nil, fun _ h => absurd h List.not_mem_nil⟩

theorem of_table {o : Origin} (h : (Draft.table o es).IsKeyed) : AreKeyed es := by
  cases h with
  | table hnodup hkeyed => exact ⟨hnodup, hkeyed⟩

theorem append (h : AreKeyed es) (hkey : es.lookup key = none) (hd : d.IsKeyed) :
    AreKeyed (es ++ [(key, d)]) where
  nodup := by
    rw [List.map_append, List.nodup_append]
    refine ⟨h.nodup, List.nodup_singleton _, fun k hk l hl => ?_⟩
    obtain ⟨e, he, rfl⟩ := List.mem_map.1 hk
    obtain rfl : l = key := by simpa using hl
    have := List.lookup_eq_none_iff.1 hkey e he
    exact fun heq => by simp [heq] at this
  keyed e he := by
    rcases List.mem_append.1 he with he | he
    · exact h.keyed e he
    · obtain rfl := List.mem_singleton.1 he
      exact hd

theorem lookup (h : AreKeyed es) (hd : es.lookup key = some d) : d.IsKeyed := by
  obtain ⟨e, he, hkey⟩ : ∃ e ∈ es, e.2 = d := by
    obtain ⟨a, b, hes, -⟩ := List.lookup_eq_some_iff.1 hd
    exact ⟨(key, d), by rw [hes]; simp, rfl⟩
  exact hkey ▸ h.keyed e he

theorem set (h : AreKeyed es) (hd : d.IsKeyed) : AreKeyed (Draft.set key d es) where
  nodup := by
    have hkeys : (Draft.set key d es).map Prod.fst = es.map Prod.fst := by
      rw [Draft.set, List.map_map]
      refine List.map_congr_left fun e _ => ?_
      by_cases he : e.1 = key
      · simp [he]
      · simp [he]
    rw [hkeys]
    exact h.nodup
  keyed e he := by
    obtain ⟨e', he', rfl⟩ := List.mem_map.1 he
    by_cases heq : e'.1 = key
    · rwa [if_pos heq]
    · rw [if_neg heq]
      exact h.keyed e' he'

theorem filter (h : AreKeyed es) (p : Text × Draft → Bool) : AreKeyed (es.filter p) where
  nodup := h.nodup.sublist (List.filter_sublist.map _)
  keyed e he := h.keyed e (List.mem_filter.1 he).1

theorem getLast {ts : List Entries} (h : (Draft.tables ts).IsKeyed) :
    AreKeyed (ts.getLast?.getD []) := by
  cases h with
  | tables hnodup hkeyed =>
    cases hlast : ts.getLast? with
    | none => exact nil
    | some es =>
      have hes := List.mem_of_getLast? hlast
      exact ⟨hnodup es hes, hkeyed es hes⟩

end AreKeyed

theorem IsKeyed.dropLast_append {ts : List Entries} {es : Entries} (h : (Draft.tables ts).IsKeyed)
    (hes : AreKeyed es) : (Draft.tables (ts.dropLast ++ [es])).IsKeyed := by
  cases h with
  | tables hnodup hkeyed =>
    have hmem : ∀ t ∈ ts.dropLast ++ [es], t ∈ ts ∨ t = es := fun t ht => by
      rcases List.mem_append.1 ht with ht | ht
      · exact .inl (List.dropLast_subset _ ht)
      · exact .inr (List.mem_singleton.1 ht)
    refine .tables (fun t ht => ?_) fun t ht => ?_
    · rcases hmem t ht with ht | rfl
      · exact hnodup t ht
      · exact hes.nodup
    · rcases hmem t ht with ht | rfl
      · exact hkeyed t ht
      · exact hes.keyed

/-- A change of entries that keeps keys apart. -/
def Keeps (f : Entries → Option Entries) : Prop :=
  ∀ es es', AreKeyed es → f es = some es' → AreKeyed es'

theorem Keeps.descend {f : Entries → Option Entries} (hf : Keeps f) (path : List Text) :
    Keeps (Draft.descend f path) := by
  induction path with
  | nil => exact hf
  | cons k ks ih =>
    intro es es' hes h
    rw [Draft.descend] at h
    split at h
    · rename_i hnone
      obtain ⟨t, ht, rfl⟩ := Option.map_eq_some_iff.1 h
      have hkeyed := ih _ _ .nil ht
      exact hes.append hnone (.table hkeyed.nodup hkeyed.keyed)
    · cases h
    · rename_i o t hsome
      obtain ⟨t', ht, rfl⟩ := Option.map_eq_some_iff.1 h
      have hkeyed := ih _ _ (.of_table (hes.lookup hsome)) ht
      exact hes.set (.table hkeyed.nodup hkeyed.keyed)
    · rename_i ts hsome
      obtain ⟨t', ht, rfl⟩ := Option.map_eq_some_iff.1 h
      have hts := hes.lookup hsome
      exact hes.set (hts.dropLast_append (ih _ _ (.getLast hts) ht))

theorem keeps_openTable (key : Text) : Keeps (openTable key) := by
  intro es es' hes h
  rw [openTable] at h
  split at h
  · rename_i hnone
    obtain rfl := Option.some.inj h
    exact hes.append hnone (.table List.nodup_nil fun _ h => absurd h List.not_mem_nil)
  · rename_i t hsome
    obtain rfl := Option.some.inj h
    have ht := AreKeyed.of_table (hes.lookup hsome)
    -- The table moves to the end, and is taken out first.
    refine (hes.filter _).append ?_ (.table ht.nodup ht.keyed)
    refine List.lookup_eq_none_iff.2 fun e he => ?_
    have hne : e.1 ≠ key := of_decide_eq_true (List.mem_filter.1 he).2
    simpa using hne.symm
  · cases h

theorem keeps_openElement (key : Text) : Keeps (openElement key) := by
  intro es es' hes h
  rw [openElement] at h
  split at h
  · rename_i hnone
    obtain rfl := Option.some.inj h
    exact hes.append hnone (.tables (by simp) (by simp))
  · rename_i ts hsome
    obtain rfl := Option.some.inj h
    refine hes.set ?_
    cases hes.lookup hsome with
    | tables hnodup hkeyed =>
      refine .tables (fun t ht => ?_) fun t ht => ?_
      · rcases List.mem_append.1 ht with ht | ht
        · exact hnodup t ht
        · rw [List.mem_singleton.1 ht]
          exact List.nodup_nil
      · rcases List.mem_append.1 ht with ht | ht
        · exact hkeyed t ht
        · rw [List.mem_singleton.1 ht]
          exact fun _ h => absurd h List.not_mem_nil
  · cases h

theorem keeps_addEntry {v : Toml} (hv : v.IsKeyed) (key : Text) (path : List Text) (reached : Bool) :
    Keeps (addEntry key v path reached) := by
  induction path generalizing reached with
  | nil =>
    intro es es' hes h
    rw [addEntry] at h
    split at h
    · rename_i hfree
      obtain rfl := Option.some.inj h
      exact hes.append (Option.isNone_iff_eq_none.1 hfree.2) (.value hv)
    · cases h
  | cons k ks ih =>
    intro es es' hes h
    rw [addEntry] at h
    split at h
    · rename_i hnone
      obtain ⟨t, ht, rfl⟩ := Option.map_eq_some_iff.1 h
      have hkeyed := ih _ _ _ .nil ht
      exact hes.append hnone (.table hkeyed.nodup hkeyed.keyed)
    · cases h
    · cases h
    · rename_i o t _ hsome
      obtain ⟨t', ht, rfl⟩ := Option.map_eq_some_iff.1 h
      have hkeyed := ih _ _ _ (.of_table (hes.lookup hsome)) ht
      exact hes.set (.table hkeyed.nodup hkeyed.keyed)
    · rename_i ts hsome
      obtain ⟨t', ht, rfl⟩ := Option.map_eq_some_iff.1 h
      have hts := hes.lookup hsome
      exact hes.set (hts.dropLast_append (ih _ _ _ (.getLast hts) ht))

/-! ## Closed drafts -/

theorem closeEntries_eq (es : Entries) : closeEntries es = es.map fun e => (e.1, e.2.close) := by
  induction es with
  | nil => rfl
  | cons e es ih => rw [closeEntries, ih]; rfl

theorem closeElements_eq (ts : List Entries) :
    closeElements ts = ts.map fun es => .table (closeEntries es) := by
  induction ts with
  | nil => rfl
  | cons es ts ih => rw [closeElements, ih]; rfl

theorem map_fst_closeEntries (es : Entries) : (closeEntries es).map Prod.fst = es.map Prod.fst := by
  rw [closeEntries_eq, List.map_map]
  rfl

theorem IsKeyed.close {d : Draft} (h : d.IsKeyed) : d.close.IsKeyed := by
  have hentries : ∀ es : Entries, (es.map Prod.fst).Nodup → (∀ e ∈ es, e.2.close.IsKeyed) →
      (Toml.table (closeEntries es)).IsKeyed := by
    intro es hnodup hclosed
    refine .table (by rwa [map_fst_closeEntries]) fun e he => ?_
    rw [closeEntries_eq] at he
    obtain ⟨e', he', rfl⟩ := List.mem_map.1 he
    exact hclosed e' he'
  induction h with
  | value hv => rwa [Draft.close]
  | table hnodup _ ih =>
    rw [Draft.close]
    exact hentries _ hnodup ih
  | tables hnodup _ ih =>
    rw [Draft.close, closeElements_eq]
    refine .list fun v hv => ?_
    obtain ⟨es, hes, rfl⟩ := List.mem_map.1 hv
    exact hentries es (hnodup es hes) (ih es hes)

theorem AreKeyed.close {es : Entries} (h : AreKeyed es) : (Toml.table (closeEntries es)).IsKeyed :=
  (IsKeyed.table (o := .header) h.nodup h.keyed).close

end Draft

/-! ## Documents -/

/-- The value that a statement gives, if it gives one, is without a key twice. -/
def Statement.IsKeyed : Statement → Prop
  | .entry _ _ v => v.IsKeyed
  | _ => True

theorem Progress.add_keeps {p p' : Progress} {s : Statement} (hs : s.IsKeyed)
    (hp : Draft.AreKeyed p.root) (h : p.add s = some p') : Draft.AreKeyed p'.root := by
  cases s with
  | header path key =>
    obtain ⟨es, hes, rfl⟩ := Option.map_eq_some_iff.1 h
    exact (Draft.keeps_openTable key).descend path _ _ hp hes
  | element path key =>
    obtain ⟨es, hes, rfl⟩ := Option.map_eq_some_iff.1 h
    exact (Draft.keeps_openElement key).descend path _ _ hp hes
  | entry path key v =>
    obtain ⟨es, hes, rfl⟩ := Option.map_eq_some_iff.1 h
    exact (Draft.keeps_addEntry hs key path true).descend p.opened _ _ hp hes

theorem foldlM_add_keeps {ss : List Statement} (hss : ∀ s ∈ ss, s.IsKeyed) {p p' : Progress}
    (hp : Draft.AreKeyed p.root) (h : ss.foldlM Progress.add p = some p') :
    Draft.AreKeyed p'.root := by
  induction ss generalizing p with
  | nil =>
    obtain rfl := Option.some.inj h
    exact hp
  | cons s ss ih =>
    obtain ⟨hs, hss⟩ := List.forall_mem_cons.1 hss
    rw [List.foldlM_cons] at h
    obtain ⟨q, hq, h⟩ := Option.bind_eq_some_iff.1 h
    exact ih hss (Progress.add_keeps hs hp hq) h

theorem ofStatements?_isKeyed {ss : List Statement} (hss : ∀ s ∈ ss, s.IsKeyed)
    {es : List (Text × Toml)} (h : ofStatements? ss = some es) : (Toml.table es).IsKeyed := by
  obtain ⟨p, hp, h⟩ := Option.bind_eq_some_iff.1 h
  obtain rfl := Option.some.inj h
  exact (foldlM_add_keeps hss .nil hp).close

theorem foldlM_addEntry_keeps {entries : List (List Text × Text × Toml)}
    (hentries : ∀ e ∈ entries, e.2.2.IsKeyed) {ds ds' : Draft.Entries} (hds : Draft.AreKeyed ds)
    (h : entries.foldlM (fun ds (path, key, v) => Draft.addEntry key v path true ds) ds = some ds') :
    Draft.AreKeyed ds' := by
  induction entries generalizing ds with
  | nil =>
    obtain rfl := Option.some.inj h
    exact hds
  | cons e entries ih =>
    obtain ⟨he, hentries⟩ := List.forall_mem_cons.1 hentries
    rw [List.foldlM_cons] at h
    obtain ⟨d, hd, h⟩ := Option.bind_eq_some_iff.1 h
    exact ih hentries (Draft.keeps_addEntry he e.2.1 e.1 true ds d hds hd) h

theorem inlineTable?_isKeyed {entries : List (List Text × Text × Toml)}
    (hentries : ∀ e ∈ entries, e.2.2.IsKeyed) {v : Toml} (h : inlineTable? entries = some v) :
    v.IsKeyed := by
  obtain ⟨ds, hds, h⟩ := Option.bind_eq_some_iff.1 h
  obtain rfl := Option.some.inj h
  exact (foldlM_addEntry_keeps hentries .nil hds).close

/-! ## Texts -/

section

variable {depth : Nat}

/-- The reader of values at this depth gives none with a key twice. -/
def ReadsKeyed (depth : Nat) : Prop :=
  ∀ t v r, value? depth t = some (v, r) → v.IsKeyed

theorem items?_isKeyed (hv : ReadsKeyed depth) {t : Text} {vs : List Toml} {r : Text}
    (h : items? depth t = some (vs, r)) : ∀ v ∈ vs, v.IsKeyed := by
  rw [items?] at h
  split at h
  · obtain ⟨rfl, -⟩ := Prod.mk.inj (Option.some.inj h)
    exact fun _ h => absurd h List.not_mem_nil
  · obtain ⟨⟨v, r'⟩, hvalue, h⟩ := Option.bind_eq_some_iff.1 h
    simp only at h
    split at h
    · obtain ⟨rfl, -⟩ := Prod.mk.inj (Option.some.inj h)
      exact List.forall_mem_singleton.2 (hv t v r' hvalue)
    · split at h
      · rename_i hlt
        obtain ⟨⟨vs', r''⟩, hitems, h⟩ := Option.bind_eq_some_iff.1 h
        obtain ⟨rfl, -⟩ := Prod.mk.inj (Option.some.inj h)
        exact List.forall_mem_cons.2 ⟨hv t v r' hvalue, items?_isKeyed hv hitems⟩
      · cases h
    · cases h
termination_by t.length

theorem entries?_isKeyed (hv : ReadsKeyed depth) {t : Text} {es : List (List Text × Text × Toml)}
    {r : Text} (h : entries? depth t = some (es, r)) : ∀ e ∈ es, e.2.2.IsKeyed := by
  rw [entries?] at h
  obtain ⟨⟨path, key, r₁⟩, -, h⟩ := Option.bind_eq_some_iff.1 h
  simp only at h
  split at h
  · obtain ⟨⟨v, r₂⟩, hvalue, h⟩ := Option.bind_eq_some_iff.1 h
    simp only at h
    split at h
    · obtain ⟨rfl, -⟩ := Prod.mk.inj (Option.some.inj h)
      exact List.forall_mem_singleton.2 (hv _ v r₂ hvalue)
    · split at h
      · rename_i hlt
        obtain ⟨⟨es', r₄⟩, hentries, h⟩ := Option.bind_eq_some_iff.1 h
        obtain ⟨rfl, -⟩ := Prod.mk.inj (Option.some.inj h)
        exact List.forall_mem_cons.2 ⟨hv _ v r₂ hvalue, entries?_isKeyed hv hentries⟩
      · cases h
    · cases h
  · cases h
termination_by t.length

end

theorem exists_of_within {n : Int} {v : Toml} (h : within n = some v) : ∃ m, v = .integer m := by
  rw [within] at h
  split at h
  · exact ⟨n, (Option.some.inj h).symm⟩
  · cases h

theorem exists_of_integer? {w : Text} {v : Toml} (h : integer? w = some v) :
    ∃ n, v = .integer n := by
  unfold integer? at h
  split at h
  all_goals
    obtain ⟨ds, -, h⟩ := Option.bind_eq_some_iff.1 h
    exact exists_of_within h

theorem exists_of_float? {w : Text} {v : Toml} (h : float? w = some v) : ∃ x, v = .float x := by
  unfold float? at h
  simp only at h
  split at h
  · exact ⟨_, (Option.some.inj h).symm⟩
  · split at h
    · exact ⟨_, (Option.some.inj h).symm⟩
    · obtain ⟨whole, -, h⟩ := Option.bind_eq_some_iff.1 h
      obtain ⟨⟨fraction, rest⟩, -, h⟩ := Option.bind_eq_some_iff.1 h
      obtain ⟨exponent, -, h⟩ := Option.bind_eq_some_iff.1 h
      split at h
      · cases h
      · exact ⟨_, (Option.some.inj h).symm⟩

theorem word?_isKeyed {w : Text} {v : Toml} (h : word? w = some v) : v.IsKeyed := by
  rw [word?] at h
  split at h
  · exact Option.some.inj h ▸ .bool true
  split at h
  · exact Option.some.inj h ▸ .bool false
  split at h
  · exact Option.some.inj h ▸ .moment
  rcases Option.or_eq_some_iff.1 h with h | ⟨-, h⟩
  · obtain ⟨x, rfl⟩ := exists_of_float? h
    exact .float x
  · obtain ⟨n, rfl⟩ := exists_of_integer? h
    exact .integer n

theorem value?_isKeyed (depth : Nat) : ReadsKeyed depth := by
  induction depth with
  | zero =>
    intro t v r h
    rw [value?.eq_def] at h
    split at h
    · cases h
    · split at h
      · obtain ⟨⟨s, r'⟩, -, h⟩ := Option.map_eq_some_iff.1 h
        obtain ⟨rfl, -⟩ := Prod.mk.inj h
        exact .text s
      · split at h
        · cases h
        · split at h
          · cases h
          · obtain ⟨w, hw, h⟩ := Option.map_eq_some_iff.1 h
            obtain ⟨rfl, -⟩ := Prod.mk.inj h
            exact word?_isKeyed hw
  | succ depth ih =>
    intro t v r h
    rw [value?.eq_def] at h
    split at h
    · cases h
    · split at h
      · obtain ⟨⟨s, r'⟩, -, h⟩ := Option.map_eq_some_iff.1 h
        obtain ⟨rfl, -⟩ := Prod.mk.inj h
        exact .text s
      · split at h
        · obtain ⟨⟨vs, r'⟩, hitems, h⟩ := Option.bind_eq_some_iff.1 h
          obtain ⟨rfl, -⟩ := Prod.mk.inj (Option.some.inj h)
          exact .list (items?_isKeyed ih hitems)
        · split at h
          · simp only at h
            split at h
            · obtain ⟨rfl, -⟩ := Prod.mk.inj (Option.some.inj h)
              exact .table List.nodup_nil fun _ h => absurd h List.not_mem_nil
            · obtain ⟨⟨es, r'⟩, hentries, h⟩ := Option.bind_eq_some_iff.1 h
              obtain ⟨w, hw, h⟩ := Option.bind_eq_some_iff.1 h
              obtain ⟨rfl, -⟩ := Prod.mk.inj (Option.some.inj h)
              exact inlineTable?_isKeyed (entries?_isKeyed ih hentries) hw
          · obtain ⟨w, hw, h⟩ := Option.map_eq_some_iff.1 h
            obtain ⟨rfl, -⟩ := Prod.mk.inj h
            exact word?_isKeyed hw

theorem statement?_isKeyed {t : Text} {s : Statement} {r : Text}
    (h : statement? t = some (s, r)) : s.IsKeyed := by
  unfold statement? at h
  split at h
  all_goals
    obtain ⟨⟨path, key, r₁⟩, -, h⟩ := Option.bind_eq_some_iff.1 h
    simp only at h
    split at h
  · obtain ⟨rfl, -⟩ := Prod.mk.inj (Option.some.inj h)
    trivial
  · cases h
  · obtain ⟨rfl, -⟩ := Prod.mk.inj (Option.some.inj h)
    trivial
  · cases h
  · obtain ⟨⟨v, r₂⟩, hvalue, h⟩ := Option.bind_eq_some_iff.1 h
    obtain ⟨rfl, -⟩ := Prod.mk.inj (Option.some.inj h)
    exact value?_isKeyed _ _ v r₂ hvalue
  · cases h

theorem statements?_isKeyed {t : Text} {ss : List Statement} (h : statements? t = some ss) :
    ∀ s ∈ ss, s.IsKeyed := by
  rw [statements?] at h
  split at h
  · obtain rfl := Option.some.inj h
    exact fun _ h => absurd h List.not_mem_nil
  · obtain ⟨⟨s, r⟩, hs, h⟩ := Option.bind_eq_some_iff.1 h
    obtain ⟨r', -, h⟩ := Option.bind_eq_some_iff.1 h
    split at h
    · rename_i hlt
      obtain ⟨ss', hss, h⟩ := Option.bind_eq_some_iff.1 h
      obtain rfl := Option.some.inj h
      exact List.forall_mem_cons.2 ⟨statement?_isKeyed hs, statements?_isKeyed hss⟩
    · cases h
termination_by t.length

theorem IsKeyed.of_read? {t : Text} {es : List (Text × Toml)} (h : read? t = some es) :
    (Toml.table es).IsKeyed := by
  obtain ⟨ss, hss, h⟩ := Option.bind_eq_some_iff.1 h
  exact ofStatements?_isKeyed (statements?_isKeyed hss) h

end QuickFix.Toml
