/-
  SchemaGuard — the dialects of JSON Schema and their meta-schemas.

  A document names its dialect by `$schema`; draft 7 is meant where it names none
  or an unknown one. `Draft.check` refuses a document that violates the meta-schema
  of a dialect, `checkSchema` one that violates that of its own; `schemaViolations`
  lists everything in a document that does, sorted by place.

  The meta-schema of draft 3 says nothing of `allOf`, `anyOf` and `oneOf`, which the
  dialect does not have, and wants a truth value as `required`. So a document that it
  admits may hold anything where schemas are combined, and compiling it, or running
  what it compiles to, may end with a fault.
-/
import SchemaGuard.MetaSchema.Host
import SchemaGuard.MetaSchema.Rule
import SchemaGuard.Value.Equality

namespace SchemaGuard

/-- The dialects with a meta-schema: drafts 3, 4, 6 and 7, and then 2019-09 and 2020-12,
    whose meta-schemas are made up of vocabularies. -/
inductive Draft where
  | three
  | four
  | six
  | seven
  /-- 2019-09 -/
  | nineteen
  /-- 2020-12 -/
  | twenty
deriving DecidableEq, Repr, Inhabited

namespace Draft

/-! ## Common parts -/

/-- A whole number that is not negative. -/
def count : Rule := .all [.type ["integer"], .minimum 0 false]

/-- A list of at least one schema. -/
def schemaList : Rule := .all [.type ["array"], .minItems 1, .items .schema]

/-- The names of the types. -/
def typeName : Rule :=
  .listed ["array", "boolean", "integer", "null", "number", "object", "string"]

/-- A type, or a list of different types. -/
def typeNames : Rule :=
  .someOf [typeName, .all [.type ["array"], .items typeName, .minItems 1, .uniqueItems]]

/-- A list of different texts. -/
def textList : Rule := .all [.type ["array"], .items (.type ["string"]), .uniqueItems]

/-- A list of at least one text, all of them different. -/
def filledTextList : Rule :=
  .all [.type ["array"], .items (.type ["string"]), .minItems 1, .uniqueItems]

/-- An object whose values follow a rule. -/
def mapOf (rule : Rule) : Rule := .all [.type ["object"], .values rule]

def text : Rule := .type ["string"]
def truth : Rule := .type ["boolean"]
def number : Rule := .type ["number"]
def list : Rule := .type ["array"]

/-! ## Draft 3 -/

/-- A type, or a list of different types; a schema is a type there. -/
def typesOrSchemas : Rule :=
  .all [.type ["string", "array"], .items (.typeIn [.named "string", .schema]), .uniqueItems]

/-- A schema, or a list of schemas. -/
def schemaOrSchemas : Rule := .all [.typeIn [.schema, .named "array"], .items .schema]

def draftThree : Rule :=
  .all [.type ["object"],
    .properties
      [("type", typesOrSchemas), ("properties", mapOf .schema), ("patternProperties", mapOf .schema),
       ("additionalProperties", .typeIn [.schema, .named "boolean"]), ("items", schemaOrSchemas),
       ("additionalItems", .typeIn [.schema, .named "boolean"]), ("required", truth),
       ("dependencies",
        mapOf (.all [.typeIn [.named "string", .named "array", .schema], .items text])),
       ("minimum", number), ("maximum", number), ("exclusiveMinimum", truth),
       ("exclusiveMaximum", truth), ("minItems", count), ("maxItems", count),
       ("uniqueItems", truth), ("pattern", text), ("minLength", count),
       ("maxLength", .type ["integer"]), ("enum", .all [.type ["array"], .minItems 1, .uniqueItems]),
       ("title", text), ("description", text), ("format", text),
       ("divisibleBy", .all [.type ["number"], .minimum 0 true]), ("disallow", typesOrSchemas),
       ("extends", schemaOrSchemas), ("id", text), ("$ref", text), ("$schema", text)],
    .companion "exclusiveMinimum" "minimum", .companion "exclusiveMaximum" "maximum"]

/-! ## Draft 4 -/

def draftFour : Rule :=
  .all [.type ["object"],
    .properties
      [("id", text), ("$schema", text), ("title", text), ("description", text),
       ("multipleOf", .all [.type ["number"], .minimum 0 true]),
       ("maximum", number), ("exclusiveMaximum", truth), ("minimum", number),
       ("exclusiveMinimum", truth), ("maxLength", count), ("minLength", count), ("pattern", text),
       ("additionalItems", .someOf [truth, .schema]), ("items", .someOf [.schema, schemaList]),
       ("maxItems", count), ("minItems", count), ("uniqueItems", truth),
       ("maxProperties", count), ("minProperties", count), ("required", filledTextList),
       ("additionalProperties", .someOf [truth, .schema]),
       ("definitions", mapOf .schema), ("properties", mapOf .schema),
       ("patternProperties", mapOf .schema),
       ("dependencies", mapOf (.someOf [.schema, filledTextList])),
       ("enum", .all [.type ["array"], .minItems 1, .uniqueItems]), ("type", typeNames),
       ("format", text), ("allOf", schemaList), ("anyOf", schemaList), ("oneOf", schemaList),
       ("not", .schema)],
    .companion "exclusiveMaximum" "maximum", .companion "exclusiveMinimum" "minimum"]

/-! ## Drafts 6 and 7 -/

/-- What drafts 6 and 7 demand of the keywords from `multipleOf` to `propertyNames`. -/
def sharedKeywords : List (String × Rule) :=
  [("multipleOf", .all [.type ["number"], .minimum 0 true]), ("maximum", number),
   ("exclusiveMaximum", number), ("minimum", number), ("exclusiveMinimum", number),
   ("maxLength", count), ("minLength", count), ("pattern", text), ("additionalItems", .schema),
   ("items", .someOf [.schema, schemaList]), ("maxItems", count), ("minItems", count),
   ("uniqueItems", truth), ("contains", .schema), ("maxProperties", count),
   ("minProperties", count), ("required", textList), ("additionalProperties", .schema),
   ("definitions", mapOf .schema), ("properties", mapOf .schema),
   ("patternProperties", mapOf .schema),
   ("dependencies", mapOf (.someOf [.schema, textList])), ("propertyNames", .schema)]

/-- What both demand of the keywords that combine schemas. -/
def combiningKeywords : List (String × Rule) :=
  [("allOf", schemaList), ("anyOf", schemaList), ("oneOf", schemaList), ("not", .schema)]

def draftSix : Rule :=
  .all [.type ["object", "boolean"],
    .properties
      ([("$id", text), ("$schema", text), ("$ref", text), ("title", text), ("description", text),
        ("examples", list)] ++ sharedKeywords ++
       [("enum", list), ("type", typeNames), ("format", text)] ++ combiningKeywords)]

def draftSeven : Rule :=
  .all [.type ["object", "boolean"],
    .properties
      ([("$id", text), ("$schema", text), ("$ref", text), ("$comment", text), ("title", text),
        ("description", text), ("readOnly", truth), ("examples", list)] ++ sharedKeywords ++
       [("enum", list), ("type", typeNames), ("format", text), ("contentMediaType", text),
        ("contentEncoding", text), ("if", .schema), ("then", .schema), ("else", .schema)] ++
       combiningKeywords)]

/-! ## Drafts 2019-09 and 2020-12 -/

/-- What a vocabulary demands: a document of the right type, and of its keywords. -/
def vocabulary (keywords : List (String × Rule)) : Rule :=
  .all [.type ["object", "boolean"], .properties keywords]

/-- What both drafts demand of the keywords that say what a document is. -/
def coreKeywords : List (String × Rule) :=
  [("$id", .all [text, .pattern "^[^#]*#?$"]), ("$schema", text), ("$ref", text),
   ("$vocabulary", .all [.type ["object"], .names text, .values truth]), ("$comment", text),
   ("$defs", mapOf .schema)]

/-- What both demand of the keywords that apply schemas. -/
def applicatorKeywords : List (String × Rule) :=
  [("contains", .schema), ("additionalProperties", .schema), ("properties", mapOf .schema),
   ("patternProperties", mapOf .schema), ("dependentSchemas", mapOf .schema),
   ("propertyNames", .schema), ("if", .schema), ("then", .schema), ("else", .schema)] ++
  combiningKeywords

/-- What both demand of the keywords for parts that no other keyword looks at. -/
def unevaluatedKeywords : List (String × Rule) :=
  [("unevaluatedItems", .schema), ("unevaluatedProperties", .schema)]

def validationVocabulary : Rule :=
  vocabulary
    [("type", typeNames), ("enum", list),
     ("multipleOf", .all [.type ["number"], .minimum 0 true]), ("maximum", number),
     ("exclusiveMaximum", number), ("minimum", number), ("exclusiveMinimum", number),
     ("maxLength", count), ("minLength", count), ("pattern", text), ("maxItems", count),
     ("minItems", count), ("uniqueItems", truth), ("maxContains", count), ("minContains", count),
     ("maxProperties", count), ("minProperties", count), ("required", textList),
     ("dependentRequired", mapOf textList)]

def metaDataVocabulary : Rule :=
  vocabulary
    [("title", text), ("description", text), ("deprecated", truth), ("readOnly", truth),
     ("writeOnly", truth), ("examples", list)]

def formatVocabulary : Rule := vocabulary [("format", text)]

def contentVocabulary : Rule :=
  vocabulary [("contentEncoding", text), ("contentMediaType", text), ("contentSchema", .schema)]

/-- What both demand of keywords of earlier drafts. -/
def earlierKeywords : List (String × Rule) :=
  [("definitions", mapOf .schema), ("dependencies", mapOf (.someOf [.schema, textList]))]

def draftNineteen : Rule :=
  .all [.all [
      vocabulary (coreKeywords ++
        [("$anchor", .all [text, .pattern "^[A-Za-z][-A-Za-z0-9.:_]*$"]), ("$recursiveRef", text),
         ("$recursiveAnchor", truth)]),
      vocabulary ([("additionalItems", .schema), ("items", .someOf [.schema, schemaList])] ++
        applicatorKeywords ++ unevaluatedKeywords),
      validationVocabulary, metaDataVocabulary, formatVocabulary, contentVocabulary],
    .type ["object", "boolean"], .properties earlierKeywords]

/-- A text that may name a place in a document of draft 2020-12. -/
def anchor : Rule := .all [.type ["string"], .pattern "^[A-Za-z_][-A-Za-z0-9._]*$"]

def draftTwenty : Rule :=
  .all [.all [
      vocabulary (coreKeywords ++
        [("$anchor", anchor), ("$dynamicRef", text), ("$dynamicAnchor", anchor)]),
      vocabulary ([("prefixItems", schemaList), ("items", .schema)] ++ applicatorKeywords),
      vocabulary unevaluatedKeywords, validationVocabulary, metaDataVocabulary, formatVocabulary,
      contentVocabulary],
    .type ["object", "boolean"],
    .properties (earlierKeywords ++ [("$recursiveAnchor", anchor), ("$recursiveRef", text)])]

/-! ## Dialects -/

/-- The meta-schema of a dialect. -/
def rule : Draft → Rule
  | three => draftThree
  | four => draftFour
  | six => draftSix
  | seven => draftSeven
  | nineteen => draftNineteen
  | twenty => draftTwenty

/-- Drafts 3 and 4 tell whole doubles from integers. -/
def types : Draft → TypeRules
  | three | four => ⟨false⟩
  | _ => ⟨true⟩

/-- The identifier of a dialect. -/
def uri : Draft → String
  | three => "http://json-schema.org/draft-03/schema"
  | four => "http://json-schema.org/draft-04/schema"
  | six => "http://json-schema.org/draft-06/schema"
  | seven => "http://json-schema.org/draft-07/schema"
  | nineteen => "https://json-schema.org/draft/2019-09/schema"
  | twenty => "https://json-schema.org/draft/2020-12/schema"

/-- The dialects that an identifier may name. -/
def all : List Draft := [three, four, six, seven, nineteen, twenty]

/-- An identifier in the form in which identifiers are compared: without leading
    blanks and controls, without tabs and line ends, with a lower-case scheme, and
    without an empty query or fragment. -/
def plainUri (identifier : List Char) : List Char :=
  let cleaned := Host.cleaned identifier
  let scheme := cleaned.takeWhile (· != ':')
  let lowered := scheme.map Char.toLower ++ cleaned.drop scheme.length
  let withoutEmpty (mark : Char) (cs : List Char) : List Char :=
    if cs.dropWhile (· != mark) == [mark] then cs.takeWhile (· != mark) else cs
  withoutEmpty '?' (withoutEmpty '#' lowered)

/-- The dialect with an identifier, none if no dialect has it. -/
def ofUri? (identifier : String) : Option Draft :=
  all.find? fun d => d.uri.toList == plainUri identifier.toList

/-- The dialect that the value of `$schema` names, draft 7 if it names none. Bytes are
    taken apart like the text that they are in ASCII, but name no dialect. -/
def ofIdentifier (v : Value) : Except Fault Draft :=
  match v with
  | .text s =>
    if Host.isMalformed s.toList then .error .dialectMalformed else .ok ((ofUri? s).getD .seven)
  | .list _ | .object _ => .error .dialectNotScalar
  | .scalar (.bytes data) =>
    if data.any (128 ≤ ·) || Host.isMalformed (data.map fun b => Char.ofNat b.toNat) then
      .error .dialectMalformed
    else .ok .seven
  | .tuple _ =>
    if v.settled?.isNone then .error .dialectNotScalar
    else if v.isVacant then .ok .seven
    else .error .dialectNotText
  | v => if v.isVacant then .ok .seven else .error .dialectNotText

/-- The dialect of a document. -/
def ofDocument (document : Value) : Except Fault Draft :=
  match document with
  | .object fields =>
    match Fields.named? fields "$schema" with
    | some v => ofIdentifier v
    | none => .ok .seven
  | _ => .ok .seven

/-- Everything in a document that violates the meta-schema, in the order of its rules. -/
def violations [CharacterNames] (draft : Draft) (document : Value) : List Violation :=
  draft.rule.violationsIn draft.types (document.depth + 1) document []

end Draft

/-! ## Schema documents -/

/-- Order of violations by the steps to their places, compared as texts. -/
def placeLe (a b : Violation) : Bool :=
  !List.lex (b.path.map Step.token) (a.path.map Step.token)

section
variable [CharacterNames]

/-- Everything in a document that violates the meta-schema of a dialect, sorted by
    place; violations at one place keep their order. -/
def Draft.sortedViolations (draft : Draft) (document : Value) : List Violation :=
  (draft.violations document).mergeSort placeLe

/-- Everything in a document that violates the meta-schema of its dialect, sorted by place. -/
def schemaViolations (document : Value) : Except Fault (List Violation) := do
  let draft ← Draft.ofDocument document
  return draft.sortedViolations document

end

/-- A document that is no schema of its dialect. -/
structure InvalidSchema where
  violations : List Violation
  pointer : String
deriving DecidableEq, Repr

/-- All violations with their places; those of the whole document have its pointer. -/
def InvalidSchema.message (e : InvalidSchema) : String :=
  let details := e.violations.map fun v =>
    (if v.place.isEmpty then e.pointer else v.place) ++ " " ++ v.message
  "Invalid JSON Schema at " ++ e.pointer ++ ": " ++ ", ".intercalate details

/-- Refuses a document that is no schema of a dialect. -/
def Draft.check [CharacterNames] (draft : Draft) (document : Value) (pointer : String) :
    Except InvalidSchema Unit :=
  let violations := draft.sortedViolations document
  if violations.isEmpty then .ok () else .error ⟨violations, pointer⟩

/-- Refuses a document that is no schema of its own dialect. -/
def checkSchema [CharacterNames] (document : Value) (pointer : String) :
    Except Fault (Except InvalidSchema Unit) := do
  let draft ← Draft.ofDocument document
  return draft.check document pointer

end SchemaGuard
