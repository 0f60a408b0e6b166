/-!
# Numbers and their exact values

The numbers of the traced language are IEEE 754 doubles. Arithmetic and comparison are those of
`Float`; this module adds what needs the exact value behind the bits: the integer that a number
denotes, and the truncated remainder.

The exact value is read through `Float.toModel` and its unpacked form, a sign with a natural
mantissa and an integer exponent, so that facts about slots and line numbers are facts about
naturals.
-/

namespace ScriptTrace

open Float.Model (UnpackedFloat)

/-- A number of the traced language. -/
abbrev Number := Float

namespace Number

/-- Not a number. -/
def nan : Number := .ofModel (.pack .notANumber)

/-- Positive infinity. -/
def infinity : Number := .ofModel (.pack (.infinity .positive))

/-- A power of a natural base. For a negative exponent it is 1: such a power counts on the other
side of a fraction. -/
def power (base : Nat) (exponent : Int) : Nat := Nat.pow base exponent.toNat

/-- The value `mantissa * 2 ^ exponent`, if it is whole. -/
def wholeScaled (mantissa : Nat) (exponent : Int) : Option Nat :=
  if 0 ≤ exponent then
    some (mantissa * power 2 exponent)
  else if mantissa % power 2 (-exponent) = 0 then
    some (mantissa / power 2 (-exponent))
  else
    none

/-- The integer that a number denotes, if it denotes one. Both zeros denote 0. -/
def toInt? (n : Number) : Option Int :=
  match n.toModel.unpack with
  | .zero _ => some 0
  | .finite sign mantissa exponent _ => (wholeScaled mantissa exponent).map fun k ↦ sign.apply k
  | .infinity _ | .notANumber => none

/-- The natural number that a number denotes, if it denotes one. Both zeros denote 0. -/
def toNat? (n : Number) : Option Nat :=
  match toInt? n with
  | some (.ofNat k) => some k
  | _ => none

/-- A length as a number. -/
def ofLength (length : Nat) : Number := length.toUInt64.toFloat

/-- A truth value as a number. -/
def ofBool (b : Bool) : Number := if b then 1.0 else 0.0

/-- The remainder of the truncated quotient, with the sign of the dividend. It is exact: both
operands are brought to the smaller exponent, and the remainder is below the divisor. -/
def remainder (a b : Number) : Number :=
  match a.toModel.unpack, b.toModel.unpack with
  | .finite sign m e _, .finite _ m' e' _ =>
    let low := min e e'
    let rest := m * power 2 (e - low) % (m' * power 2 (e' - low))
    .ofModel (.pack (UnpackedFloat.round .binary64 sign rest low))
  | .finite .., .infinity _ | .zero _, .infinity _ | .zero _, .finite .. => a
  | _, _ => nan

end Number

end ScriptTrace
