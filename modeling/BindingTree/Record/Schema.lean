import BindingTree.Record.Basic

/-! The JSON schema of API descriptions, made from the tables of keys and shapes that records are
read by. Properties stand in the order of their names. -/

namespace BindingTree.Record

open Json (object list)

/-- What may stand under a key, with the value that a missing key stands for. -/
def shapeSchema : Shape → Json
  | .flag => object [("type", .str "boolean"), ("default", .bool false)]
  | .text => object [("type", .str "string"), ("default", .str "")]
  | .optionalText => object [("type", list [.str "string", .str "null"])]
  | .number =>
    object [("type", list [.str "integer", .str "null"]), ("format", .str "uint32"),
      ("minimum", .nat 0)]
  | .visibility => object [("$ref", .str "#/$defs/ApiVisibility"), ("default", .str "")]
  | .choice first second =>
    object [("type", .str "string"), ("enum", list [.str first, .str second])]

/-- The definition that a tag's own keys stand under. -/
def definitionName : Tag → String
  | .ns => "ApiNamespace"
  | .cls => "ApiClass"
  | .iface | .enum => "ApiTypeInfo"
  | .field => "ApiField"
  | .ctor | .method => "ApiMethod"
  | .implements => "ApiImplements"
  | .typeParam => "ApiTypeParameter"
  | .constraint => "ApiGenericConstraint"
  | .param => "ApiMethodParameter"
  | .exception => "ApiException"
  | .unsupported => ""

/-- Members in the order of their keys. -/
def sorted (members : List (String × Json)) : List (String × Json) :=
  members.mergeSort fun a b => a.1 ≤ b.1

def description : Option String → List (String × Json)
  | some text => [("description", .str text)]
  | none => []

/-- The schema of an object whose keys may all be missing. -/
def objectSchema (about : Option String) (shapes : Shapes) : Json :=
  object (description about ++ [("type", .str "object"),
    ("properties", object (sorted (shapes.map fun s => (s.1, shapeSchema s.2))))])

/-- A record of one kind: its tag and, beside it, the keys that the kind owns. -/
def tagSchema (t : Tag) : Json :=
  let tag := object [("type", .str "string"), ("const", .str t.text)]
  object ([("type", .str "object"), ("properties", object [("kind", tag)])]
    ++ (if t = .unsupported then [] else [("$ref", .str ("#/$defs/" ++ definitionName t))])
    ++ [("required", list [.str "kind"])])

/-- The keys common to all records. -/
def commonProperties : List (String × Json) :=
  let texts := ["managed_name", "name_generic_aware", "jni_signature", "api_since", "api_until",
    "merge_source_file"]
  let reference (name : String) (other : Json) :=
    object [("$ref", .str ("#/$defs/" ++ name)), ("default", other)]
  texts.map (fun key => (key, shapeSchema .optionalText)) ++
    [("name", object [("type", .str "string")]),
      ("location", reference "SourceLocation" (Location.toJson {})),
      ("deprecation", reference "Deprecation" (Deprecation.toJson {})),
      ("other_attributes", object
        [("description",
            .str "Attributes the reader did not interpret, kept for round-tripping."),
          ("type", .str "object"), ("additionalProperties", object [("type", .str "string")])]),
      ("children", object
        [("type", .str "array"), ("items", object [("$ref", .str "#/$defs/ApiElement")])])]

def recordSchema : Json :=
  object
    [("description",
        .str "A single raw API element (namespace, type, member or member part)."),
      ("type", .str "object"), ("properties", object (sorted commonProperties)),
      ("oneOf", list ((Tag.known ++ [Tag.unsupported]).map tagSchema)),
      ("required", list [.str "name"])]

/-- The definitions by their names. -/
def definitions : List (String × Json) :=
  let about : Tag → Option String
    | .method => some "Shared by methods and constructors."
    | _ => none
  let visibility := object
    [("description",
        .str ("Member or type visibility. Read from and written as the textual form\n"
          ++ "(`\"protected internal\"`), see the [`FromStr`] impl.")),
      ("type", .str "string")]
  let kinds : List Tag := [.ns, .cls, .iface, .field, .method, .implements, .typeParam, .constraint,
    .param, .exception]
  sorted (kinds.map (fun t => (definitionName t, objectSchema (about t) t.shapes.flatten)) ++
    [("ApiElement", recordSchema), ("ApiVisibility", visibility),
      ("SourceLocation", objectSchema (some "Where an element was read from.") Location.shapes),
      ("Deprecation", objectSchema none Deprecation.shapes)])

/-- The version of the schema language. -/
def dialect : String := "https:" ++ "//json-schema.org/draft/2020-12/schema"

/-- The schema of a forest. -/
def schema : Json :=
  object [("$schema", .str dialect), ("title", .str "Array_of_ApiElement"), ("type", .str "array"),
    ("items", object [("$ref", .str "#/$defs/ApiElement")]), ("$defs", object definitions)]

end BindingTree.Record
