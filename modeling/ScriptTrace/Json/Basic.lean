import ScriptTrace.Named
import ScriptTrace.Number.Decimal

/-!
# JSON values

A JSON number is an integer of 64 bits or a finite double, and which of the two it is can be seen
in messages. The members of an object are a list in the order in which they are written. A reader
that sorts them, and keeps the last of several with one name, uses `Named.insert`; looking a name
up is `Json.get?`.
-/

namespace ScriptTrace

/-- A JSON number. -/
inductive JsonNumber where
  /-- An integer that is not negative. -/
  | natural (n : UInt64)
  /-- A negative integer. -/
  | negative (n : Int64)
  /-- Any other number. It is finite: the format has no spelling for the others. -/
  | real (n : Number) (finite : n.isFinite = true)

namespace JsonNumber

/-- The nearest double. -/
def toNumber : JsonNumber → Number
  | natural n => n.toFloat
  | negative n => .ofModel (.ofInt64 n)
  | real n _ => n

/-- Equality of numbers of one kind; an integer differs from a double of the same value. -/
def same : JsonNumber → JsonNumber → Bool
  | natural n, natural m => n == m
  | negative n, negative m => n == m
  | real n _, real m _ => n == m
  | _, _ => false

/-- Doubles are written with a point or an exponent: plainly from `0.00001` up to sixteen digits
before the point. -/
def layout : Decimal.Layout where
  isPlain lead := -5 ≤ lead && lead ≤ 15
  marksWhole := true
  tie := .even

/-- The text of a number. -/
def write : JsonNumber → String
  | natural n => n.toNat.repr
  | negative n => n.toInt.repr
  | real n _ => layout.write n

end JsonNumber

/-- A JSON value. -/
inductive Json where
  | null
  | bool (b : Bool)
  | number (n : JsonNumber)
  | string (s : String)
  | array (elements : List Json)
  | object (members : List (String × Json))
deriving Inhabited

namespace Json

/-- An integer that is not negative as JSON. -/
def ofNat (n : Nat) : Json := number (.natural n.toUInt64)

/-- An optional value as JSON: `null` where there is none. -/
def ofOption {α : Type} (encode : α → Json) : Option α → Json
  | none => null
  | some a => encode a

/-- The member of an object with a name; other values have no members. -/
def get? (j : Json) (name : String) : Option Json :=
  match j with
  | object members => members.lookup name
  | _ => none

theorem sizeOf_lt_of_lookup {members : List (String × Json)} {name : String} {value : Json}
    (h : members.lookup name = some value) : sizeOf value < sizeOf members := by
  have := List.sizeOf_lt_of_mem (Named.mem_of_lookup_eq_some h)
  simp only [Prod.mk.sizeOf_spec] at this
  omega

theorem sizeOf_lt_of_get? {j value : Json} {name : String} (h : j.get? name = some value) :
    sizeOf value < sizeOf j := by
  unfold get? at h
  split at h
  · have := sizeOf_lt_of_lookup h
    simp only [object.sizeOf_spec]
    omega
  · contradiction

mutual

/-- Equality of values, numbers compared as numbers of one kind. -/
def same : Json → Json → Bool
  | null, null => true
  | bool b, bool c => b == c
  | number n, number m => n.same m
  | string s, string t => s == t
  | array xs, array ys => sameElements xs ys
  | object xs, object ys => sameMembers xs ys
  | _, _ => false

def sameElements : List Json → List Json → Bool
  | [], [] => true
  | x :: xs, y :: ys => same x y && sameElements xs ys
  | _, _ => false

def sameMembers : List (String × Json) → List (String × Json) → Bool
  | [], [] => true
  | (name, x) :: xs, (name', y) :: ys => name == name' && same x y && sameMembers xs ys
  | _, _ => false

end

end Json

end ScriptTrace
