import Mathlib.Algebra.Group.Int.Defs
import Mathlib.Algebra.Group.Nat.Defs
import Mathlib.Data.List.Count
import QuickFix.Data.Schema

/-!
# Values valid against a schema document

What a JSON document says as a schema (draft 7), for the keywords that documents of schemas use:
`Json.IsValid`. The document of a `Schema` says what the schema does (`isValid_toJson_iff`), where the
schemas with a name have different ones.
-/

namespace QuickFix

namespace Json

/-! ## Keywords -/

/-- Has the number no fraction? -/
def isWhole : Double → Bool
  | .finite _ mantissa exponent => 0 ≤ exponent || mantissa % 2 ^ exponent.natAbs = 0
  | _ => false

/-- Is the number at least `least`? -/
def atLeast (least : Int) : Double → Bool
  | .finite negative mantissa exponent =>
    let signed : Int := if negative then -mantissa else mantissa
    if 0 ≤ exponent then least ≤ signed * 2 ^ exponent.natAbs
    else least * 2 ^ exponent.natAbs ≤ signed
  | .infinite negative => !negative
  | .notANumber => false

/-- The types that a value has. -/
def types : Json → List Text
  | .null => ["null"]
  | .bool _ => ["boolean"]
  | .integer _ => ["integer", "number"]
  | .float x => if isWhole x then ["integer", "number"] else ["number"]
  | .text _ => ["string"]
  | .list _ => ["array"]
  | .object _ => ["object"]

/-- Has the value the type? -/
def hasType (v : Json) (type : Text) : Bool := v.types.elem type

/-- Is it this text? -/
def isText (w : Text) : Json → Bool
  | .text t => t = w
  | _ => false

/-- `type`: the value has the type. -/
def ofType? (v : Json) : Json → Option Bool
  | .text type => some (v.hasType type)
  | _ => none

/-- `enum`, of words: the value is one of them. -/
def oneOfWords? (v : Json) : Json → Option Bool
  | .list words =>
    let isWord? (word : Json) : Option Bool := match word with
      | .text w => some (v.isText w)
      | _ => none
    (words.mapM isWord?).map (·.any id)
  | _ => none

/-- `minimum`, a whole number: the value is not below it, if it is a number. -/
def notBelow? (v : Json) : Json → Option Bool
  | .integer least => match v with
    | .integer n => some (least ≤ n)
    | .float x => some (atLeast least x)
    | _ => some true
  | _ => none

section

variable (valid? : Json → Json → Option Bool) (v : Json)

/-- Are all members of an object as `member?` asks? -/
def members? (member? : Text × Json → Option Bool) : Option Bool :=
  match v with
  | .object members => (members.mapM member?).map (·.all id)
  | _ => some true

/-- `properties`: each member with a schema for its name is valid against it. -/
def properties? (properties : Json) : Option Bool :=
  members? v fun m => match properties.field? m.1 with
    | some schema => valid? schema m.2
    | none => some true

/-- `additionalProperties`: each member without a schema for its name is valid against this one. -/
def additional? (properties? : Option Json) (schema : Json) : Option Bool :=
  members? v fun m => match properties?.bind fun ps => ps.field? m.1 with
    | some _ => some true
    | none => valid? schema m.2

/-- `oneOf`: the value is valid against exactly one of the schemas. -/
def oneOf? : Json → Option Bool
  | .list schemas => (schemas.mapM fun s => valid? s v).map fun bs => bs.count true = 1
  | _ => none

/-- `allOf`: the value is valid against all of the schemas. -/
def allOf? : Json → Option Bool
  | .list schemas => (schemas.mapM fun s => valid? s v).map (·.all id)
  | _ => none

/-- Keywords that ask for nothing. -/
def annotations : List Text :=
  ["$schema", "title", "description", "default", "format", "definitions"]

/-- What one keyword among others says about a value; nothing about those that are not known here. -/
def keyword? (keywords : List (Text × Json)) (keyword : Text × Json) : Option Bool :=
  let (name, argument) := keyword
  if annotations.elem name then some true
  else if name = "type" then ofType? v argument
  else if name = "enum" then oneOfWords? v argument
  else if name = "minimum" then notBelow? v argument
  else if name = "properties" then properties? valid? v argument
  else if name = "additionalProperties" then
    additional? valid? v (field? (.object keywords) "properties") argument
  else if name = "oneOf" then oneOf? valid? v argument
  else if name = "allOf" then allOf? valid? v argument
  else none

end

/-- The schema of the document `root` that a reference leads to. -/
def resolve (root : Json) (target : Text) : Option Json :=
  match root.field? "definitions" with
  | some (.object named) => (named.find? fun d => "#/definitions/" ++ d.1 = target).map Prod.snd
  | _ => none

/-- Is the value valid against a schema within the document `root`? Nothing is said if references and
schemas within schemas go deeper than `fuel`. A reference stands alone. -/
def valid? (root : Json) : Nat → Json → Json → Option Bool
  | 0, _, _ => none
  | _ + 1, .bool b, _ => some b
  | fuel + 1, .object keywords, v =>
    match field? (.object keywords) "$ref" with
    | some (.text target) => (resolve root target).bind fun schema => valid? root fuel schema v
    | some _ => none
    | none => (keywords.mapM (keyword? (valid? root fuel) v keywords)).map (·.all id)
  | _ + 1, _, _ => none

/-- The value is valid against the document, as is decided with enough fuel. -/
def IsValid (root v : Json) : Prop := ∃ n, ∀ fuel ≥ n, valid? root fuel root v = some true

end Json

namespace Schema

/-! ## What schemas say -/

mutual

/-- Is the value what the schema asks for? -/
def accepts : Schema → Json → Bool
  | .text, v => v.hasType "string"
  | .bool, v => v.hasType "boolean"
  | .count least, v => v.hasType "integer" && (Json.notBelow? v (.nat least)).getD false
  | .choice words, v => (words.map fun w => v.isText w.1).count true = 1
  | .record ms, v => match v with
    | .object members => members.all fun m => acceptsMember ms m.1 m.2
    | _ => false
  | .named _ _ body, v => accepts body v

/-- Is there a member with this name, and is the value what it asks for? -/
def acceptsMember : List (Text × Option Text × Json × Schema) → Text → Json → Bool
  | [], _, _ => false
  | (name, _, _, schema) :: ms, k, v => if k = name then accepts schema v else acceptsMember ms k v

end

end Schema

/-! ## Documents of schemas -/

namespace Json

theorem mapM_eq_some_map {α β : Type} {f : α → Option β} {g : α → β} {l : List α}
    (h : ∀ a ∈ l, f a = some (g a)) : l.mapM f = some (l.map g) := by
  induction l with
  | nil => rfl
  | cons a l ih =>
    obtain ⟨ha, hl⟩ := List.forall_mem_cons.1 h
    rw [List.mapM_cons, ha, ih hl]
    rfl

/-- The keywords that ask for something. -/
def asserted (keywords : List (Text × Json)) : List (Text × Json) :=
  keywords.filter fun k => !annotations.elem k.1

theorem field?_asserted {keywords : List (Text × Json)} {name : Text}
    (hname : annotations.elem name = false) :
    field? (.object (asserted keywords)) name = field? (.object keywords) name := by
  rw [field?, field?, asserted]
  induction keywords with
  | nil => rfl
  | cons k ks ih =>
    obtain ⟨k, argument⟩ := k
    by_cases hk : name = k
    · subst hk
      rw [List.filter_cons_of_pos (by rw [hname]; rfl), List.lookup_cons_self, List.lookup_cons_self]
    · rw [List.lookup_cons, beq_false_of_ne hk, List.filter_cons]
      split
      · rw [List.lookup_cons, beq_false_of_ne hk]
        exact ih
      · exact ih

theorem mapM_asserted {f : Text × Json → Option Bool} {keywords : List (Text × Json)}
    (hf : ∀ k ∈ keywords, annotations.elem k.1 = true → f k = some true) :
    (keywords.mapM f).map (·.all id) = ((asserted keywords).mapM f).map (·.all id) := by
  induction keywords with
  | nil => rfl
  | cons k ks ih =>
    obtain ⟨hk, hks⟩ := List.forall_mem_cons.1 hf
    rw [List.mapM_cons, asserted, List.filter_cons]
    by_cases hmute : annotations.elem k.1 = true
    · rw [hk hmute, hmute, ← asserted]
      refine Eq.trans ?_ (ih hks)
      cases ks.mapM f <;> rfl
    · rw [Bool.not_eq_true] at hmute
      rw [hmute, ← asserted]
      refine Eq.trans ?_ (congrArg (Option.map (·.all id)) List.mapM_cons).symm
      cases f k with
      | none => rfl
      | some b =>
        have ih := ih hks
        revert ih
        cases ks.mapM f <;> cases (asserted ks).mapM f <;> intro ih <;>
          simp only [Option.map_some, Option.map_none, reduceCtorEq, Option.some.injEq] at ih
        · rfl
        · exact congrArg (fun x => some (b && x)) ih

section

variable (valid? : Json → Json → Option Bool) (v : Json) (keywords : List (Text × Json)) (argument : Json)

theorem keyword?_type : keyword? valid? v keywords ("type", argument) = ofType? v argument := rfl

theorem keyword?_enum : keyword? valid? v keywords ("enum", argument) = oneOfWords? v argument := rfl

theorem keyword?_minimum : keyword? valid? v keywords ("minimum", argument) = notBelow? v argument := rfl

theorem keyword?_properties :
    keyword? valid? v keywords ("properties", argument) = properties? valid? v argument := rfl

theorem keyword?_additional : keyword? valid? v keywords ("additionalProperties", argument) =
    additional? valid? v (field? (.object keywords) "properties") argument := rfl

theorem keyword?_oneOf : keyword? valid? v keywords ("oneOf", argument) = oneOf? valid? v argument := rfl

theorem keyword?_allOf : keyword? valid? v keywords ("allOf", argument) = allOf? valid? v argument := rfl

end

theorem valid?_keywords {root : Json} {fuel : Nat} {keywords : List (Text × Json)} {v : Json}
    (h : field? (.object keywords) "$ref" = none) :
    valid? root (fuel + 1) (.object keywords) v =
      (keywords.mapM (keyword? (valid? root fuel) v keywords)).map (·.all id) := by
  rw [valid?, h]

theorem valid?_reference (root : Json) (fuel : Nat) (target : Text) (v : Json) :
    valid? root (fuel + 1) (.object [("$ref", .text target)]) v =
      (resolve root target).bind fun schema => valid? root fuel schema v := rfl

/-- Keywords that ask for nothing can be left out. -/
theorem valid?_object (root : Json) (fuel : Nat) (keywords : List (Text × Json)) (v : Json) :
    valid? root (fuel + 1) (.object keywords) v =
      valid? root (fuel + 1) (.object (asserted keywords)) v := by
  have hkeyword : keyword? (valid? root fuel) v (asserted keywords) =
      keyword? (valid? root fuel) v keywords := by
    funext k
    rw [keyword?, keyword?, field?_asserted (by decide)]
  rw [valid?, valid?, field?_asserted (by decide), hkeyword]
  cases field? (.object keywords) "$ref" with
  | some target => cases target <;> rfl
  | none =>
    refine mapM_asserted fun k _ hk => ?_
    rw [keyword?]
    exact if_pos hk

end Json

namespace Schema

open Json

variable {root : Json}

theorem valid?_of_asserted {fuel : Nat} {keywords keywords' : List (Text × Json)} {v : Json}
    (h : asserted keywords = asserted keywords') :
    valid? root fuel (.object keywords) v = valid? root fuel (.object keywords') v := by
  cases fuel with
  | zero => rfl
  | succ fuel => rw [valid?_object, h, ← valid?_object]

theorem valid?_text (fuel : Nat) (v : Json) :
    valid? root (fuel + 1) (.object (members .text)) v = some (accepts .text v) := by
  rw [members, valid?_keywords rfl, List.mapM_cons, keyword?_type, accepts]
  exact congrArg some (Bool.and_true _)

theorem valid?_bool (fuel : Nat) (v : Json) :
    valid? root (fuel + 1) (.object (members .bool)) v = some (accepts .bool v) := by
  rw [members, valid?_keywords rfl, List.mapM_cons, keyword?_type, accepts]
  exact congrArg some (Bool.and_true _)

theorem valid?_count (fuel least : Nat) (v : Json) :
    valid? root (fuel + 1) (.object (members (.count least))) v = some (accepts (.count least) v) := by
  obtain ⟨b, hb⟩ : ∃ b, notBelow? v (.nat least) = some b := by cases v <;> exact ⟨_, rfl⟩
  rw [members, valid?_object]
  change valid? root (fuel + 1) (.object [("type", .text "integer"), ("minimum", .nat least)]) v = _
  rw [valid?_keywords rfl, List.mapM_cons, List.mapM_cons, keyword?_type, keyword?_minimum, hb, accepts,
    hb]
  exact congrArg some (congrArg _ (Bool.and_true _))

theorem valid?_word (fuel : Nat) (word : Text × Text) (v : Json) :
    valid? root (fuel + 1) (wordJson word) v = some (v.isText word.1) := by
  rw [wordJson, valid?_object]
  change valid? root (fuel + 1)
    (.object [("type", .text "string"), ("enum", .list [.text word.1])]) v = _
  rw [valid?_keywords rfl, List.mapM_cons, List.mapM_cons, keyword?_type, keyword?_enum]
  cases v with
  | text t => exact congrArg some ((Bool.and_true _).trans (Bool.or_false _))
  | float x =>
    change some (hasType (.float x) "string" && (false && true)) = some false
    rw [Bool.false_and, Bool.and_false]
  | _ => rfl

theorem valid?_choice (fuel : Nat) (words : List (Text × Text)) (v : Json) :
    valid? root (fuel + 2) (.object (members (.choice words))) v =
      some (accepts (.choice words) v) := by
  have hwords : (words.map wordJson).mapM (fun s => valid? root (fuel + 1) s v) =
      some (words.map fun w => v.isText w.1) := by
    rw [List.mapM_map]
    exact mapM_eq_some_map fun w _ => @valid?_word root fuel w v
  rw [members, valid?_keywords rfl, List.mapM_cons, keyword?_oneOf, oneOf?, hwords, accepts]
  exact congrArg some (Bool.and_true _)

theorem valid?_named {fuel : Nat} {name : Text} {purpose? : Option Text} {body : Schema} {v : Json}
    (hroot : resolve root ("#/definitions/" ++ name) =
      some (.object (described purpose? (members body))))
    (hbody : valid? root fuel (.object (members body)) v = some (accepts body v)) :
    valid? root (fuel + 2) (.object (members (.named name purpose? body))) v =
      some (accepts (.named name purpose? body) v) := by
  have hpurpose : asserted (described purpose? (members body)) = asserted (members body) := by
    cases purpose? <;> rfl
  rw [members, valid?_keywords rfl, List.mapM_cons, keyword?_allOf, allOf?, List.mapM_cons,
    valid?_reference, hroot, Option.bind_some, valid?_of_asserted hpurpose, hbody, accepts]
  exact congrArg some ((Bool.and_true _).trans (Bool.and_true _))

/-- What the schema for a name among the members of a record says, or that there is none. -/
def MemberMeans (root : Json) (fuel : Nat) (ms : List (Text × Option Text × Json × Schema)) (k : Text)
    (v : Json) : Prop :=
  match (properties ms).lookup k with
  | some schema => valid? root fuel schema v = some (acceptsMember ms k v)
  | none => acceptsMember ms k v = false

section

variable {fuel : Nat} {ms : List (Text × Option Text × Json × Schema)} (vs : List (Text × Json))

theorem properties?_record (hmember : ∀ k v, MemberMeans root fuel ms k v) :
    properties? (valid? root fuel) (.object vs) (.object (properties ms)) =
      some (vs.all fun m => !((properties ms).lookup m.1).isSome || acceptsMember ms m.1 m.2) := by
  rw [properties?, members?, mapM_eq_some_map (g := fun m : Text × Json =>
    !((properties ms).lookup m.1).isSome || acceptsMember ms m.1 m.2)]
  · simp
  · intro m _
    have hm := hmember m.1 m.2
    rw [MemberMeans] at hm
    rw [field?]
    cases hlookup : (properties ms).lookup m.1 with
    | some schema =>
      rw [hlookup] at hm
      exact hm
    | none => rfl

theorem additional?_record : additional? (valid? root (fuel + 1)) (.object vs)
    (some (.object (properties ms))) (.bool false) =
      some (vs.all fun m => ((properties ms).lookup m.1).isSome) := by
  rw [additional?, members?, mapM_eq_some_map (g := fun m : Text × Json =>
    ((properties ms).lookup m.1).isSome)]
  · simp
  · intro m _
    rw [Option.bind_some, field?]
    cases (properties ms).lookup m.1 <;> rfl

theorem all_acceptsMember (hmember : ∀ k v, MemberMeans root fuel ms k v) :
    ((vs.all fun m => !((properties ms).lookup m.1).isSome || acceptsMember ms m.1 m.2) &&
      vs.all fun m => ((properties ms).lookup m.1).isSome) =
    vs.all fun m => acceptsMember ms m.1 m.2 := by
  rw [Bool.eq_iff_iff, Bool.and_eq_true, List.all_eq_true, List.all_eq_true, List.all_eq_true,
    ← forall₂_and]
  refine forall₂_congr fun m _ => ?_
  have hm := hmember m.1 m.2
  rw [MemberMeans] at hm
  cases hlookup : (properties ms).lookup m.1 with
  | some schema => simp
  | none =>
    rw [hlookup] at hm
    simp [show acceptsMember ms m.1 m.2 = false from hm]

end

theorem valid?_record {fuel : Nat} {ms : List (Text × Option Text × Json × Schema)}
    (hmember : ∀ k v, MemberMeans root (fuel + 1) ms k v) (v : Json) :
    valid? root (fuel + 2) (.object (members (.record ms))) v = some (accepts (.record ms) v) := by
  rw [members, valid?_keywords rfl, List.mapM_cons, List.mapM_cons, List.mapM_cons, keyword?_type,
    keyword?_properties, keyword?_additional, accepts.eq_def]
  cases v with
  | object vs =>
    have hfield : field? (.object [("type", .text "object"), ("properties", .object (properties ms)),
        ("additionalProperties", .bool false)]) "properties" = some (.object (properties ms)) := rfl
    have htype : ofType? (.object vs) (.text "object") = some true := rfl
    simp only
    rw [hfield, htype, properties?_record vs hmember, additional?_record, ← all_acceptsMember vs hmember]
    exact congrArg (fun b => some (_ && b)) (Bool.and_true _)
  | float x =>
    have htype : ofType? (.float x) (.text "object") = some false := by
      rw [ofType?, hasType, types]
      split <;> rfl
    rw [htype]
    rfl
  | _ => rfl

/-- With enough fuel, the document of the schema says what the schema does. -/
def Means (root : Json) (s : Schema) : Prop :=
  ∃ n, ∀ fuel ≥ n, ∀ v, valid? root fuel (.object (members s)) v = some (accepts s v)

theorem Means.of_add (n : Nat) {s : Schema}
    (h : ∀ fuel v, valid? root (fuel + n) (.object (members s)) v = some (accepts s v)) :
    Means root s := by
  refine ⟨n, fun fuel hfuel v => ?_⟩
  obtain ⟨fuel, rfl⟩ := Nat.exists_eq_add_of_le' hfuel
  exact h fuel v

mutual

theorem means (s : Schema)
    (hroot : ∀ d ∈ definitions s, resolve root ("#/definitions/" ++ d.1) = some d.2) :
    Means root s := by
  cases s with
  | text => exact .of_add 1 valid?_text
  | bool => exact .of_add 1 valid?_bool
  | count least => exact .of_add 1 fun fuel => valid?_count fuel least
  | choice words => exact .of_add 2 fun fuel => valid?_choice fuel words
  | record ms =>
    obtain ⟨n, hn⟩ := memberMeans ms hroot
    refine ⟨n + 2, fun fuel hfuel v => ?_⟩
    obtain ⟨fuel, rfl⟩ : ∃ f, fuel = f + 2 := ⟨fuel - 2, by omega⟩
    exact valid?_record (hn _ (by omega)) v
  | named name purpose? body =>
    rw [definitions] at hroot
    obtain ⟨hname, hbody⟩ := List.forall_mem_cons.1 hroot
    obtain ⟨n, hn⟩ := means body hbody
    refine ⟨n + 2, fun fuel hfuel v => ?_⟩
    obtain ⟨fuel, rfl⟩ : ∃ f, fuel = f + 2 := ⟨fuel - 2, by omega⟩
    exact valid?_named hname (hn _ (by omega) v)

theorem memberMeans (ms : List (Text × Option Text × Json × Schema))
    (hroot : ∀ d ∈ definitionsOf ms, resolve root ("#/definitions/" ++ d.1) = some d.2) :
    ∃ n, ∀ fuel ≥ n, ∀ k v, MemberMeans root fuel ms k v := by
  cases ms with
  | nil => exact ⟨0, fun _ _ _ _ => rfl⟩
  | cons m ms =>
    obtain ⟨name, purpose?, default, schema⟩ := m
    rw [definitionsOf] at hroot
    obtain ⟨hschema, hms⟩ := List.forall_mem_append.1 hroot
    obtain ⟨n, hn⟩ := means schema hschema
    obtain ⟨n', hn'⟩ := memberMeans ms hms
    refine ⟨max n n', fun fuel hfuel k v => ?_⟩
    -- Default and purpose stand beside the keywords of the member, and ask for nothing.
    have hdescribed : asserted (described purpose? (("default", default) :: members schema)) =
        asserted (members schema) := by
      cases purpose? <;> rfl
    rw [MemberMeans, properties]
    by_cases hk : k = name
    · subst hk
      simp only [List.lookup_cons_self, acceptsMember, if_pos]
      rw [valid?_of_asserted hdescribed, hn fuel (by omega)]
    · simp only [List.lookup_cons, beq_false_of_ne hk, acceptsMember, if_neg hk]
      exact hn' fuel (by omega) k v

end

theorem asserted_document (url title named : Json) (s : Schema) :
    asserted (("$schema", url) :: ("title", title) ::
      (members s ++ [(("definitions" : Text), named)])) = asserted (members s) := by
  rw [asserted, List.filter_cons_of_neg (by simp only; decide),
    List.filter_cons_of_neg (by simp only; decide), List.filter_append]
  exact List.append_nil _

theorem field?_definitions (title : Text) (s : Schema) :
    (s.toJson title).field? "definitions" = some (.object (definitions s)) := by
  cases s <;> rfl

theorem find?_of_nodup {l : List (Text × Json)} (hnodup : (l.map Prod.fst).Nodup) {d : Text × Json}
    (hd : d ∈ l) {p : Text × Json → Bool} (hp : ∀ e, p e = true ↔ e.1 = d.1) : l.find? p = some d := by
  induction l with
  | nil => exact absurd hd List.not_mem_nil
  | cons e l ih =>
    obtain ⟨hnew, htail⟩ := List.nodup_cons.1 hnodup
    rcases List.mem_cons.1 hd with rfl | hd
    · exact List.find?_cons_of_pos ((hp d).2 rfl)
    · have hne : e.1 ≠ d.1 := fun heq => hnew (heq ▸ List.mem_map_of_mem hd)
      rw [List.find?_cons_of_neg (fun h => hne ((hp e).1 h)), ih htail hd]

theorem resolve_toJson {title : Text} {s : Schema} (hnodup : ((definitions s).map Prod.fst).Nodup)
    {d : Text × Json} (hd : d ∈ definitions s) :
    resolve (s.toJson title) ("#/definitions/" ++ d.1) = some d.2 := by
  rw [resolve, field?_definitions]
  simp only
  rw [find?_of_nodup hnodup hd fun e => by rw [decide_eq_true_eq]; exact List.append_right_inj _]
  rfl

theorem isValid_toJson_iff {title : Text} {s : Schema}
    (hnodup : ((definitions s).map Prod.fst).Nodup) {v : Json} :
    IsValid (s.toJson title) v ↔ accepts s v = true := by
  obtain ⟨n, hn⟩ := @means (s.toJson title) s fun d hd => resolve_toJson hnodup hd
  have hdocument : ∀ fuel ≥ n, valid? (s.toJson title) fuel (s.toJson title) v = some (accepts s v) :=
    fun fuel hfuel => (valid?_of_asserted (asserted_document _ _ _ s)).trans (hn fuel hfuel v)
  constructor
  · rintro ⟨n', hn'⟩
    have h := hdocument (max n n') (by omega)
    rw [hn' _ (by omega)] at h
    exact (Option.some.inj h).symm
  · intro h
    exact ⟨n, fun fuel hfuel => h ▸ hdocument fuel hfuel⟩

end Schema

end QuickFix
