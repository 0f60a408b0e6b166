import ScriptTrace.Json.Printer

/-!
# Faults of a JSON document

What can be wrong with a document: its text is no JSON, or the value it spells has not the shape
that its reader asks for. A fault is a cause; `Fault.message` words it, and `Fault.category` tells
an unfinished text, a wrong text and a wrong shape apart.
-/

namespace ScriptTrace

namespace Json

/-- What is wrong with a text that is no JSON. -/
inductive TextFault where
  | unfinishedList
  | unfinishedObject
  | unfinishedString
  | unfinishedValue
  | missingColon
  | missingListComma
  | missingObjectComma
  | brokenWord
  | missingValue
  | unknownEscape
  | brokenNumber
  | numberTooLarge
  | controlCharacter
  | keyNoString
  | loneSurrogate
  | unpairedSurrogate
  | trailingComma
  | trailingCharacters
deriving DecidableEq

namespace TextFault

/-- The wording of a fault of the text. -/
def message : TextFault → String
  | unfinishedList => "EOF while parsing a list"
  | unfinishedObject => "EOF while parsing an object"
  | unfinishedString => "EOF while parsing a string"
  | unfinishedValue => "EOF while parsing a value"
  | missingColon => "expected `:`"
  | missingListComma => "expected `,` or `]`"
  | missingObjectComma => "expected `,` or `\x7d`"
  | brokenWord => "expected ident"
  | missingValue => "expected value"
  | unknownEscape => "invalid escape"
  | brokenNumber => "invalid number"
  | numberTooLarge => "number out of range"
  | controlCharacter =>
    "control character (\\u0000-\\u001F) found while parsing a string"
  | keyNoString => "key must be a string"
  | loneSurrogate => "lone leading surrogate in hex escape"
  | unpairedSurrogate => "unexpected end of hex escape"
  | trailingComma => "trailing comma"
  | trailingCharacters => "trailing characters"

/-- Whether the text stops before its value does. -/
def isUnfinished : TextFault → Bool
  | unfinishedList | unfinishedObject | unfinishedString | unfinishedValue => true
  | _ => false

end TextFault

/-- What a message says of a value that is not the one asked for. -/
inductive Shape where
  | null
  | bool (b : Bool)
  | number (n : JsonNumber)
  | string (s : String)
  | sequence
  | map

/-- The shape of a value. -/
def shape : Json → Shape
  | null => .null
  | bool b => .bool b
  | number n => .number n
  | string s => .string s
  | array _ => .sequence
  | object _ => .map

/-- The wording of a shape. -/
def Shape.message : Shape → String
  | null => "null"
  | bool b => "boolean `" ++ (if b then "true" else "false") ++ "`"
  | number (.real n finite) => "floating point `" ++ (JsonNumber.real n finite).write ++ "`"
  | number n => "integer `" ++ n.write ++ "`"
  | string s => "string " ++ Text.quoted s
  | sequence => "sequence"
  | map => "map"

/-- What is wrong with a document. -/
inductive Fault where
  /-- The text is no JSON. -/
  | text (fault : TextFault)
  /-- A value of another kind than the one asked for. -/
  | invalidType (found : Shape) (expected : String)
  /-- A value of the right kind that is not among those asked for. -/
  | invalidValue (found : Shape) (expected : String)
  /-- A list of the wrong length where the parts of a record are given by position. -/
  | invalidLength (length : Nat) (expected : String)
  /-- A record without a part that it needs. -/
  | missingField (name : String)
  /-- A record with two parts of one name. -/
  | duplicateField (name : String)
  /-- A name outside a closed list of names. -/
  | unknownVariant (name : String) (known : List String)
  /-- A tree node whose type tag is not a string. -/
  | nodeType (found : Json)

/-- The three categories of faults. -/
inductive Category where
  | unfinished
  | syntactic
  | shape

namespace Fault

/-- The category of a fault. -/
def category : Fault → Category
  | text fault => if fault.isUnfinished then .unfinished else .syntactic
  | _ => .shape

/-- The names that a message offers instead of an unknown one. -/
def alternatives (known : List String) : String :=
  let ticked := known.map fun name ↦ "`" ++ name ++ "`"
  match ticked with
  | [one] => one
  | [one, other] => one ++ " or " ++ other
  | many => "one of " ++ ", ".intercalate many

/-- The wording of a fault. -/
def message : Fault → String
  | text fault => fault.message
  | invalidType found expected => "invalid type: " ++ found.message ++ ", expected " ++ expected
  | invalidValue found expected => "invalid value: " ++ found.message ++ ", expected " ++ expected
  | invalidLength length expected =>
    "invalid length " ++ length.repr ++ ", expected " ++ expected
  | missingField name => "missing field `" ++ name ++ "`"
  | duplicateField name => "duplicate field `" ++ name ++ "`"
  | unknownVariant name known =>
    "unknown variant `" ++ name ++ "`, expected " ++ alternatives known
  | nodeType found => "node `type` must be a string, found " ++ found.compact

end Fault

/-- The outcome of asking a value for something. -/
abbrev Decoded (α : Type) := Except Fault α

/-- The record shape that a message names. -/
def structName (name : String) : String := "struct " ++ name

end Json

end ScriptTrace
