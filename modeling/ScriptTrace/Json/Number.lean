import ScriptTrace.Json.Basic

/-!
# The value of a number in a JSON text

An integer of 64 bits is exact. Every other number is approximated: its digits are gathered into a
significand of 64 bits as long as they fit, the rest only counts towards a power of ten, and the
significand as a double is multiplied or divided by that power. The result is not always the
nearest double; it is what these steps give.
-/

namespace ScriptTrace

namespace JsonNumber

/-- A number as it is spelled: a sign, digits, digits after a point, and a written exponent with
its sign. -/
structure Spelling where
  isNegative : Bool
  integer : List Nat
  fraction : Option (List Nat)
  exponent : Option (Bool × List Nat)

/-- Add digits to a significand up to the first that does not fit into 64 bits, and give back how
many were added and how many are left. -/
def gather (significand : Nat) : List Nat → Nat × Nat × Nat
  | [] => (significand, 0, 0)
  | d :: rest =>
    if significand * 10 + d < UInt64.size then
      let (s, used, left) := gather (significand * 10 + d) rest
      (s, used + 1, left)
    else
      (significand, 0, rest.length + 1)

/-- The value of digits in base ten. -/
def digitsValue (digits : List Nat) : Nat := digits.foldl (fun n d ↦ n * 10 + d) 0

/-- The double nearest to a power of ten. -/
def powerOfTen (exponent : Nat) : Number := .ofScientific 1 false exponent

/-- `f * 10 ^ exponent`, in steps that stay within the powers of ten that doubles have. There is
no value if the product is infinite. -/
def scale (f : Number) (exponent : Int) : Option Number :=
  if exponent.natAbs ≤ 308 then
    if 0 ≤ exponent then
      let product := f * powerOfTen exponent.natAbs
      if product.isInf then none else some product
    else
      some (f / powerOfTen exponent.natAbs)
  else if f == 0.0 then
    some f
  else if 0 ≤ exponent then
    none
  else
    scale (f / powerOfTen 308) (exponent + 308)
termination_by exponent.natAbs

/-- A sign put before a finite double. -/
def signed (isNegative : Bool) (f : Number) : Option JsonNumber :=
  let n := if isNegative then -f else f
  if finite : n.isFinite then some (real n finite) else none

/-- The value of a spelled number, unless it is too large for a double. -/
def ofSpelling (spelling : Spelling) : Option JsonNumber :=
  let (whole, _, surplus) := gather 0 spelling.integer
  match surplus, spelling.fraction, spelling.exponent with
  | 0, none, none =>
    if !spelling.isNegative then
      some (natural whole.toUInt64)
    else if 0 < whole && whole ≤ Nat.pow 2 63 then
      some (negative (.ofInt (-whole)))
    else
      signed true whole.toUInt64.toFloat
  | _, fraction, exponent =>
    let (significand, used, _) := gather whole (fraction.getD [])
    let start : Int := surplus - used
    match exponent with
    | none => (scale significand.toUInt64.toFloat start).bind (signed spelling.isNegative)
    | some (isDown, digits) =>
      let written := digitsValue digits
      if Nat.pow 2 31 ≤ written then
        if significand ≠ 0 && !isDown then none else signed spelling.isNegative 0.0
      else
        let total := if isDown then start - written else start + written
        (scale significand.toUInt64.toFloat total).bind (signed spelling.isNegative)

end JsonNumber

end ScriptTrace
