import ScriptTrace.Number.Exact

/-!
# Decimal text of numbers

A number is written with the fewest decimal digits that read back to it, and of those with the
digits nearest to it. The selection works on the exact value: a candidate lies on a grid of
powers of ten and has to fall into the interval of reals that round to the number. How the digits
are set out is a `Layout`, one record for each kind of output.
-/

namespace ScriptTrace

open Number (power)

namespace Decimal

/-- Which of two equally near candidates is taken. -/
inductive Tie where
  | even
  | up

/-- Decimal digits `d₀ d₁ d₂ …`, standing for `d₀.d₁d₂… * 10 ^ lead`. -/
structure Digits where
  chars : List Char
  lead : Int

/-- The digits of `n`, without zeros at the end, as a count of units of `10 ^ unit`. -/
def Digits.ofNat (n : Nat) (unit : Int) : Digits :=
  let chars := n.repr.toList
  ⟨(chars.reverse.dropWhile (· == '0')).reverse, chars.length - 1 + unit⟩

/-- The least `k` with `num / den < 10 ^ k`, for a positive quotient. -/
def magnitude (num den : Nat) : Int :=
  if den ≤ num then
    (num / den).repr.length
  else
    let k := (den / num).repr.length
    if den ≤ num * Nat.pow 10 (k - 1) then 2 - k else 1 - k

/-- A decimal on the grid of `10 ^ unit` that reads back to `mantissa * 2 ^ exponent`: the nearer
of the two neighbours of that value, if one of them rounds to it. The interval of values that
round to it is measured in quarters of the last binary place; its ends belong to it when the
mantissa is even, and below a power of two (`narrow`) it is half as wide. -/
def onGrid? (tie : Tie) (mantissa : Nat) (exponent : Int) (narrow : Bool) (unit : Int) :
    Option Nat :=
  let quarter := power 2 (exponent - 2) * power 10 (-unit)
  let step := power 2 (2 - exponent) * power 10 unit
  let value := 4 * mantissa * quarter
  let low := (4 * mantissa - if narrow then 1 else 2) * quarter
  let high := (4 * mantissa + 2) * quarter
  let fits (c : Nat) : Bool :=
    if mantissa % 2 = 0 then low ≤ c * step && c * step ≤ high
    else low < c * step && c * step < high
  let below := value / step
  match fits below, fits (below + 1) with
  | false, false => none
  | true, false => some below
  | false, true => some (below + 1)
  | true, true =>
    match compare (2 * value) ((2 * below + 1) * step) with
    | .lt => some below
    | .gt => some (below + 1)
    | .eq =>
      match tie with
      | .up => some (below + 1)
      | .even => if below % 2 = 0 then some below else some (below + 1)

/-- The digits of the positive double `mantissa * 2 ^ exponent`: from the coarsest of the grids of
one to seventeen digits that has a candidate, or those of the exact value if none has. -/
def shortest (tie : Tie) (mantissa : Nat) (exponent : Int) : Digits :=
  let narrow := mantissa == Nat.pow 2 52 && exponent > -1074
  let top := magnitude (mantissa * power 2 exponent) (power 2 (-exponent))
  let found? := (List.range 17).findSome? fun (i : Nat) ↦
    let unit := top - (i + 1)
    (onGrid? tie mantissa exponent narrow unit).map (Digits.ofNat · unit)
  found?.getD <|
    Digits.ofNat (mantissa * power 2 exponent * power 5 (-exponent)) (min exponent 0)

/-- How digits are set out. -/
structure Layout where
  /-- Exponents of the first digit that are written without an exponent part. -/
  isPlain : Int → Bool
  /-- Whether a whole number ends in a point and a zero. -/
  marksWhole : Bool
  /-- Which of two equally near candidates is taken. -/
  tie : Tie

namespace Layout

/-- Digits without an exponent part. -/
def plain (l : Layout) (d : Digits) : String :=
  let zeros (n : Int) : List Char := List.replicate n.toNat '0'
  let size : Int := d.chars.length
  .ofList <|
    if d.lead < 0 then
      '0' :: '.' :: zeros (-d.lead - 1) ++ d.chars
    else if d.lead + 1 < size then
      d.chars.take (d.lead + 1).toNat ++ '.' :: d.chars.drop (d.lead + 1).toNat
    else
      d.chars ++ zeros (d.lead + 1 - size) ++ (if l.marksWhole then ['.', '0'] else [])

/-- Digits with an exponent part, whose sign is always written. -/
def scientific (d : Digits) : String :=
  let mantissa := d.chars.take 1 ++ (if d.chars.length ≤ 1 then [] else '.' :: d.chars.drop 1)
  .ofList (mantissa ++ 'e' :: (if d.lead < 0 then '-' else '+') :: d.lead.natAbs.repr.toList)

/-- The text of a number. -/
def write (l : Layout) (n : Number) : String :=
  let signed (sign : Float.Model.UnpackedFloat.Sign) (text : String) : String :=
    match sign with
    | .positive => text
    | .negative => "-" ++ text
  match n.toModel.unpack with
  | .notANumber => "NaN"
  | .infinity sign => signed sign "Infinity"
  | .zero sign => signed sign (l.plain ⟨['0'], 0⟩)
  | .finite sign mantissa exponent _ =>
    let d := shortest l.tie mantissa exponent
    signed sign (if l.isPlain d.lead then l.plain d else scientific d)

end Layout

end Decimal

namespace Number

/-- Displayed numbers never have an exponent part, and a whole number has no point. -/
def displayLayout : Decimal.Layout where
  isPlain _ := true
  marksWhole := false
  tie := .up

/-- The text of a number as messages and displayed values show it. Both zeros are `0`. -/
def display (n : Number) : String :=
  if n == 0.0 then "0" else displayLayout.write n

end Number

end ScriptTrace
