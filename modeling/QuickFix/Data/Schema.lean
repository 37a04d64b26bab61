import QuickFix.Data.Json

/-!
# Schemas of JSON values

A schema says which values are valid. It is written as a JSON document itself, in which the schemas
that have a name of their own stand apart and are referred to.
-/

namespace QuickFix

/-- A schema of JSON values. -/
inductive Schema where
  | text
  | bool
  /-- A whole number that is not below `least`. -/
  | count (least : Nat)
  /-- One of some words, each with what it means. -/
  | choice (words : List (Text × Text))
  /-- An object with these members alone, all of which may be left out: the name of each, what it
  means if that is said, its default, and its schema. -/
  | record (members : List (Text × Option Text × Json × Schema))
  /-- A schema with a name of its own, and what it is for if that is said. -/
  | named (name : Text) (purpose? : Option Text) (body : Schema)

namespace Schema

/-- Members after one that says what something is for, if that is said. -/
def described (purpose? : Option Text) (members : List (Text × Json)) : List (Text × Json) :=
  match purpose? with
  | some t => ("description", .text t) :: members
  | none => members

/-- A word and what it means, as a schema of its own. -/
def wordJson (word : Text × Text) : Json :=
  .object (described (some word.2) [("type", .text "string"), ("enum", .list [.text word.1])])

mutual

/-- The members of a schema as a document. -/
def members : Schema → List (Text × Json)
  | .text => [("type", .text "string")]
  | .bool => [("type", .text "boolean")]
  | .count least => [("type", .text "integer"), ("format", .text "uint"), ("minimum", .nat least)]
  | .choice words => [("oneOf", .list (words.map wordJson))]
  | .record ms => [
    ("type", .text "object"),
    ("properties", .object (properties ms)),
    ("additionalProperties", .bool false)]
  | .named name _ _ =>
    [("allOf", .list [.object [("$ref", .text ("#/definitions/" ++ name))]])]

/-- The members of a record as documents. -/
def properties : List (Text × Option Text × Json × Schema) → List (Text × Json)
  | [] => []
  | (name, purpose?, default, schema) :: ms =>
    let stated : Text × Json := ("default", default)
    (name, .object (described purpose? (stated :: members schema))) :: properties ms

end

mutual

/-- The schemas with a name that occur in a schema, as documents. -/
def definitions : Schema → List (Text × Json)
  | .record ms => definitionsOf ms
  | .named name purpose? body =>
    (name, .object (described purpose? (members body))) :: definitions body
  | _ => []

/-- The schemas with a name that occur in the members of a record, as documents. -/
def definitionsOf : List (Text × Option Text × Json × Schema) → List (Text × Json)
  | [] => []
  | (_, _, _, schema) :: ms => definitions schema ++ definitionsOf ms

end

/-- A schema as a document with a title. -/
def toJson (title : Text) (s : Schema) : Json :=
  let header : List (Text × Json) :=
    [("$schema", .text "http://json-schema.org/draft-07/schema#"), ("title", .text title)]
  let named : Text × Json := ("definitions", .object (definitions s))
  .object (header ++ members s ++ [named])

end Schema

end QuickFix
