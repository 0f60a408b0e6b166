import ScriptTrace.Json.Fault

/-!
# Asking a JSON value for something

Decoders for simple values, for members of records and for names from a closed list. The member
and element combinators hand over the proof that what they look into got smaller, so that a
decoder of trees can recurse through them.

Decoders look members up by name and in the order of their names. So the order in which a record
has its members does not matter, nor what else is in it.
-/

namespace ScriptTrace

namespace Json

/-- A text. -/
def toText : Json → Decoded String
  | string s => return s
  | other => throw (.invalidType other.shape "a string")

/-- A truth value. -/
def toBool : Json → Decoded Bool
  | bool b => return b
  | other => throw (.invalidType other.shape "a boolean")

/-- An integer of 32 bits that is not negative. -/
def toUInt32 : Json → Decoded UInt32
  | number (.natural n) =>
    if n.toNat < UInt32.size then return n.toUInt32
    else throw (.invalidValue (.number (.natural n)) "u32")
  | number (.negative n) => throw (.invalidValue (.number (.negative n)) "u32")
  | other => throw (.invalidType other.shape "u32")

/-- One of a closed list of names, as a string or as the name of the only member of an object. -/
def toVariant {α : Type} (all : List α) (symbol : α → String) (j : Json) : Decoded α := do
  let (name, content) ←
    match j with
    | string name => pure (name, null)
    | object [(name, content)] => pure (name, content)
    | object _ => throw (.invalidValue .map "map with a single key")
    | other => throw (.invalidType other.shape "string or map")
  match all.find? (symbol · = name) with
  | none => throw (.unknownVariant name (all.map symbol))
  | some a =>
    match content with
    | null => return a
    | other => throw (.invalidType other.shape "unit")

/-- What may be left out or `null`. -/
def nullable {α : Type} (j : Json) (decode : (value : Json) → sizeOf value ≤ sizeOf j → Decoded α) :
    Decoded (Option α) :=
  match h : j with
  | null => return none
  | _ => some <$> decode j (h ▸ Nat.le_refl _)

/-- The member of a record with a name, if there is one. -/
def field {α : Type} (j : Json) (name : String)
    (decode : (value : Json) → sizeOf value < sizeOf j → Decoded α) : Decoded (Option α) :=
  match h : j.get? name with
  | none => return none
  | some value => some <$> decode value (sizeOf_lt_of_get? h)

/-- The member of a record with a name, if there is one and it is not `null`. -/
def optionalField {α : Type} (j : Json) (name : String)
    (decode : (value : Json) → sizeOf value < sizeOf j → Decoded α) : Decoded (Option α) :=
  Option.join <$> j.field name fun value h ↦
    value.nullable fun v h' ↦ decode v (Nat.lt_of_le_of_lt h' h)

/-- A part that a record needs. -/
def required {α : Type} (name : String) : Option α → Decoded α
  | some a => return a
  | none => throw (.missingField name)

theorem sizeOf_lt_of_mem_array {xs : List Json} {x : Json} (h : x ∈ xs) :
    sizeOf x < sizeOf (array xs) := by
  have := List.sizeOf_lt_of_mem h
  simp only [array.sizeOf_spec]
  omega

/-- The elements of a list. -/
def elements {α : Type} (j : Json)
    (decode : (value : Json) → sizeOf value < sizeOf j → Decoded α) : Decoded (List α) :=
  match _h : j with
  | array xs => xs.attach.mapM fun ⟨x, hx⟩ ↦ decode x (sizeOf_lt_of_mem_array hx)
  | other => throw (.invalidType other.shape "a sequence")

/-- The element of a list at a position, if the list is long enough. -/
def part {α : Type} (j : Json) (position : Nat)
    (decode : (value : Json) → sizeOf value < sizeOf j → Decoded α) : Decoded (Option α) :=
  match _h : j with
  | array xs =>
    match hx : xs[position]? with
    | none => return none
    | some x => some <$> decode x (sizeOf_lt_of_mem_array (List.mem_of_getElem? hx))
  | _ => return none

/-- A part that a record needs where its parts are given by position. -/
def requiredPart {α : Type} (name : String) (count position : Nat) : Option α → Decoded α
  | some a => return a
  | none =>
    throw (.invalidLength position (structName name ++ " with " ++ count.repr ++ " elements"))

/-- A list of parts is not longer than the record. -/
def noSurplus (count : Nat) : Json → Decoded Unit
  | array xs =>
    if count < xs.length then throw (.invalidLength xs.length "fewer elements in array")
    else return ()
  | _ => return ()

end Json

end ScriptTrace
