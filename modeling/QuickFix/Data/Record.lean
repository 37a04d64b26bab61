import QuickFix.Data.Decode

/-!
# Records in JSON

A record is an object with the fields as members, in any order and among others, or a list of the
fields in their order. Optional fields may be left out. The first member or item that cannot be read
is the error, and after these the first field that is missing.
-/

namespace QuickFix.Json

/-- A field of a record: how a value is put into the record. -/
structure Field (α : Type) where
  name : Text
  isOptional : Bool
  read : Json → α → Except Mismatch α

namespace Field

variable {α β : Type}

/-- A field that must be there. -/
def required (name : Text) (as : Json → Except Mismatch β) (set : α → β → α) : Field α :=
  ⟨name, false, fun j a => (as j).map (set a)⟩

/-- A field that may be left out. -/
def optional (name : Text) (as : Json → Except Mismatch β) (set : α → β → α) : Field α :=
  ⟨name, true, fun j a => (as j).map (set a)⟩

/-- A field that may be left out or null, which is the same. -/
def nullable (name : Text) (as : Json → Except Mismatch β) (set : α → Option β → α) : Field α :=
  ⟨name, true, fun
    | .null, a => .ok (set a none)
    | j, a => (as j).map fun b => set a (some b)⟩

end Field

/-- What a list of the fields of the record `name` is called. -/
def listName (name : Text) (count : Nat) : Text :=
  "struct " ++ name ++ " with " ++ Text.ofNat count ++ " elements"

/-- Read the record `name` over the values of `start`. -/
def asRecord {α : Type} (name : Text) (fields : List (Field α)) (start : α) (j : Json) :
    Except Mismatch α :=
  match j with
  | .object members => do
    let a ← members.foldlM (fun a (k, v) =>
      (fields.find? fun f => f.name = k).elim (.ok a) fun f => f.read v a) start
    match fields.find? fun f => !f.isOptional && (members.lookup f.name).isNone with
    | some f => throw (.missing f.name)
    | none => return a
  | .list items => do
    let a ← (fields.zip items).foldlM (fun a (f, v) => f.read v a) start
    match (fields.drop items.length).findIdx? fun f => !f.isOptional with
    | some i => throw (.length (items.length + i) (listName name fields.length))
    | none =>
      if fields.length < items.length then throw (.length items.length "fewer elements in array")
      else return a
  | j => .error (.type j.found ("struct " ++ name))

/-! ## Records as they are written -/

variable {α : Type} {fields : List (Field α)}

theorem find?_name (hnames : (fields.map Field.name).Nodup) {f : Field α} (hf : f ∈ fields) :
    (fields.find? fun g => g.name = f.name) = some f := by
  induction fields with
  | nil => cases hf
  | cons g fields ih =>
    obtain ⟨hg, hnames⟩ := List.nodup_cons.1 hnames
    rcases List.mem_cons.1 hf with rfl | hf
    · exact List.find?_cons_of_pos (decide_eq_true rfl)
    · have hne : g.name ≠ f.name := fun he => hg (he ▸ List.mem_map_of_mem hf)
      rw [List.find?_cons_of_neg (by simpa using hne), ih hnames hf]

/-- The fields as members, in their order, are read like a list of their values. -/
theorem asRecord_members (name : Text) {start a : α} (values : List Json)
    (hnames : (fields.map Field.name).Nodup) (hlength : values.length = fields.length)
    (hread : (fields.zip values).foldlM (fun a (f, v) => f.read v a) start = .ok a) :
    asRecord name fields start (.object ((fields.map Field.name).zip values)) = .ok a := by
  have hzip : (fields.map Field.name).zip values =
      (fields.zip values).map fun (f, v) => (f.name, v) := by
    rw [List.zip_map_left]
    rfl
  have hsub : ∀ (ps : List (Field α × Json)) (b : α), (∀ p ∈ ps, p.1 ∈ fields) →
      (ps.map fun (f, v) => (f.name, v)).foldlM (fun a (k, v) =>
        (fields.find? fun f => f.name = k).elim (.ok a) fun f => f.read v a) b =
      ps.foldlM (fun a (f, v) => f.read v a) b := by
    intro ps
    induction ps with
    | nil => exact fun b _ => rfl
    | cons p ps ih =>
      intro b hps
      obtain ⟨f, v⟩ := p
      obtain ⟨hf, hps⟩ := List.forall_mem_cons.1 hps
      simp only [List.map_cons, List.foldlM_cons, find?_name hnames hf, Option.elim_some]
      exact congrArg _ (funext fun c => ih c hps)
  have hnone : (fields.find? fun f => !f.isOptional &&
      (((fields.map Field.name).zip values).lookup f.name).isNone) = none := by
    refine List.find?_eq_none.2 fun f hf => ?_
    have hmem : f.name ∈ ((fields.map Field.name).zip values).map Prod.fst := by
      rw [List.map_fst_zip (by simp [hlength])]
      exact List.mem_map_of_mem hf
    obtain ⟨p, hp, hpf⟩ := List.mem_map.1 hmem
    cases hl : ((fields.map Field.name).zip values).lookup f.name with
    | none =>
      have := List.lookup_eq_none_iff.1 hl p hp
      simp [hpf] at this
    | some v => simp
  have hfold := hsub (fields.zip values) start fun p hp => (List.of_mem_zip hp).1
  rw [hread, ← hzip] at hfold
  simp only [asRecord, hfold, hnone]
  rfl

end QuickFix.Json
