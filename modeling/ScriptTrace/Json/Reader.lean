import ScriptTrace.Json.Fault
import ScriptTrace.Json.Number

/-!
# Reading JSON

A reader consumes characters from the front of a text. `Reader.value` reads one value; of several
members of one name the last counts, and members are sorted by name. `Reader.skipWithin` passes
over a value that nobody asked for: it checks brackets, words and the grammar of numbers and
strings, but neither the range of numbers nor the pairing of surrogates.

The mutual recursions count down from a bound on the number of calls that the rest of the text
allows, so running out of it never happens.
-/

namespace ScriptTrace

namespace Json

/-- A reader of characters from the front of a text. -/
abbrev Reader := StateT (List Char) (Except Fault)

namespace Reader

/-- Give up because of the text. -/
def fail {α : Type} (fault : TextFault) : Reader α := throw (.text fault)

/-- The blanks between tokens. -/
def isBlank (c : Char) : Bool := c == ' ' || c == '\n' || c == '\t' || c == '\r'

/-- The next character, which stays in the text. -/
def peek : Reader (Option Char) := do
  return (← get).head?

/-- The next character after blanks, which stays in the text. -/
def peekToken : Reader (Option Char) := do
  modify (·.dropWhile isBlank)
  peek

/-- Pass over one character. -/
def advance : Reader Unit := modify (·.drop 1)

/-- Take the next character, if there is one. -/
def next : Reader (Option Char) := do
  let c ← peek
  advance
  return c

/-- A bound on the number of nested calls that the rest of the text allows. -/
def bound : Reader Nat := do
  return 2 * (← get).length + 2

/-! ## Words and numbers -/

/-- The rest of `null`, `true` or `false`. -/
def word : List Char → Reader Unit
  | [] => pure ()
  | c :: rest => do
    match ← next with
    | none => fail .unfinishedValue
    | some d => if c = d then word rest else fail .brokenWord

/-- The digits at the front of the text. -/
def digits : Reader (List Nat) := do
  let text ← get
  set (text.dropWhile Char.isDigit)
  return (text.takeWhile Char.isDigit).map fun c ↦ c.toNat - '0'.toNat

/-- The digits before the point: a zero alone, or digits that do not start with zero. The end of
the text is a fault of its own. -/
def integerDigits (atEnd : TextFault) : Reader (List Nat) := do
  match ← peek with
  | none => fail atEnd
  | some '0' =>
    advance
    if ((← peek).any Char.isDigit) then fail .brokenNumber else return [0]
  | some c => if c.isDigit then digits else fail .brokenNumber

/-- At least one digit. -/
def someDigits (atEnd : TextFault) : Reader (List Nat) := do
  match ← peek with
  | none => fail atEnd
  | some c => if c.isDigit then digits else fail .brokenNumber

/-- The digits after a point, if there is a point. -/
def fractionDigits (atEnd : TextFault) : Reader (Option (List Nat)) := do
  match ← peek with
  | some '.' =>
    advance
    return some (← someDigits atEnd)
  | _ => return none

/-- The written exponent, if there is one, and whether it has a minus sign. -/
def exponentDigits (atEnd : TextFault) : Reader (Option (Bool × List Nat)) := do
  match ← peek with
  | some 'e' | some 'E' =>
    advance
    let isDown ← match ← peek with
      | some '+' => do advance; pure false
      | some '-' => do advance; pure true
      | _ => pure false
    return some (isDown, ← someDigits atEnd)
  | _ => return none

/-- A number as it is spelled. `atEnd` is the fault of a text that stops where a digit has to
follow. -/
def spelling (atEnd : TextFault) : Reader JsonNumber.Spelling := do
  let isNegative := (← peek) == some '-'
  if isNegative then advance
  let integer ← integerDigits atEnd
  let fraction ← fractionDigits atEnd
  let exponent ← exponentDigits atEnd
  return { isNegative, integer, fraction, exponent }

/-- A number. -/
def number : Reader JsonNumber := do
  match JsonNumber.ofSpelling (← spelling .unfinishedValue) with
  | some n => return n
  | none => fail .numberTooLarge

/-! ## Strings -/

/-- The value of a hexadecimal digit. -/
def hexDigit? (c : Char) : Option Nat :=
  if c.isDigit then some (c.toNat - '0'.toNat)
  else if 'a' ≤ c && c ≤ 'f' then some (c.toNat - 'a'.toNat + 10)
  else if 'A' ≤ c && c ≤ 'F' then some (c.toNat - 'A'.toNat + 10)
  else none

/-- The four hexadecimal digits of an escape. A text with fewer than four bytes left stops inside
the string. -/
def hexEscape : Reader Nat := do
  let text ← get
  let front := text.take 4
  match front.mapM hexDigit? with
  | some [a, b, c, d] =>
    set (text.drop 4)
    return ((a * 16 + b) * 16 + c) * 16 + d
  | _ =>
    if (String.ofList front).utf8ByteSize < 4 then fail .unfinishedString else fail .unknownEscape

/-- The rest of a character that is escaped by its 16-bit units. -/
def unitEscape : Reader Char := do
  let unit ← hexEscape
  if 0xDC00 ≤ unit && unit ≤ 0xDFFF then
    fail .loneSurrogate
  else if 0xD800 ≤ unit && unit ≤ 0xDBFF then
    match ← next with
    | none => fail .unfinishedString
    | some '\\' =>
      match ← next with
      | none => fail .unfinishedString
      | some 'u' =>
        let low ← hexEscape
        if 0xDC00 ≤ low && low ≤ 0xDFFF then
          return Char.ofNat ((unit - 0xD800) * 0x400 + (low - 0xDC00) + 0x10000)
        else
          fail .loneSurrogate
      | some _ => fail .unpairedSurrogate
    | some _ => fail .unpairedSurrogate
  else
    return Char.ofNat unit

/-- The character that a short escape stands for. -/
def shortEscape? (c : Char) : Option Char :=
  match c with
  | '"' => some '"'
  | '\\' => some '\\'
  | '/' => some '/'
  | 'b' => some '\x08'
  | 'f' => some '\x0c'
  | 'n' => some '\n'
  | 'r' => some '\r'
  | 't' => some '\t'
  | _ => none

/-- The rest of a string after its opening quote, with the characters read so far in reverse. An
escape is read by `escape`. The recursion counts along the text that was left at the start. -/
def stringRest (escape : Reader Char) : List Char → List Char → Reader String
  | [], _ => fail .unfinishedString
  | _ :: left, done => do
    match ← next with
    | none => fail .unfinishedString
    | some '"' => return .ofList done.reverse
    | some '\\' =>
      match ← peek with
      | none => fail .unfinishedString
      | some c =>
        advance
        match shortEscape? c with
        | some e => stringRest escape left (e :: done)
        | none =>
          if c = 'u' then stringRest escape left ((← escape) :: done)
          else fail .unknownEscape
    | some c =>
      if c.toNat < 0x20 then fail .controlCharacter
      else stringRest escape left (c :: done)

/-- The rest of a string after its opening quote. -/
def stringTail : Reader String := do
  stringRest unitEscape (← get) []

/-! ## Lists and objects -/

/-- Whether another element follows in a list, after the comma that separates it. -/
def moreElements (isFirst : Bool) : Reader Bool := do
  match ← peekToken with
  | none => fail .unfinishedList
  | some ']' => return false
  | some c =>
    if isFirst then
      return true
    else if c = ',' then
      advance
      match ← peekToken with
      | none => fail .unfinishedValue
      | some ']' => fail .trailingComma
      | some _ => return true
    else
      fail .missingListComma

/-- Whether another member follows in an object, after the comma that separates it. -/
def moreMembers (isFirst : Bool) : Reader Bool := do
  match ← peekToken with
  | none => fail .unfinishedObject
  | some '\x7d' => return false
  | some c =>
    if isFirst then
      if c = '"' then return true else fail .keyNoString
    else if c = ',' then
      advance
      match ← peekToken with
      | none => fail .unfinishedValue
      | some '"' => return true
      | some '\x7d' => fail .trailingComma
      | some _ => fail .keyNoString
    else
      fail .missingObjectComma

/-- The colon after a name. -/
def colon : Reader Unit := do
  match ← peekToken with
  | none => fail .unfinishedObject
  | some ':' => advance
  | some _ => fail .missingColon

/-- A value that is no list or object and starts with the given character. -/
def scalar (first : Char) : Reader Json := do
  match first with
  | 'n' => word "null".toList; return null
  | 't' => word "true".toList; return bool true
  | 'f' => word "false".toList; return bool false
  | '"' => advance; return string (← stringTail)
  | c => if c = '-' || c.isDigit then return .number (← number) else fail .missingValue

mutual

/-- A value, within a number of nested calls. -/
def valueWithin : Nat → Reader Json
  | 0 => fail .unfinishedValue
  | fuel + 1 => do
    match ← peekToken with
    | none => fail .unfinishedValue
    | some '[' => advance; elementsWithin fuel []
    | some '\x7b' => advance; membersWithin fuel []
    | some c => scalar c

/-- The rest of a list, with the elements read so far in reverse. -/
def elementsWithin : Nat → List Json → Reader Json
  | 0, _ => fail .unfinishedList
  | fuel + 1, done => do
    if ← moreElements done.isEmpty then
      let element ← valueWithin fuel
      elementsWithin fuel (element :: done)
    else
      advance
      return array done.reverse

/-- The rest of an object, with the members read so far sorted by name. -/
def membersWithin : Nat → List (String × Json) → Reader Json
  | 0, _ => fail .unfinishedObject
  | fuel + 1, done => do
    if ← moreMembers done.isEmpty then
      advance
      let name ← stringTail
      colon
      let value ← valueWithin fuel
      membersWithin fuel (Named.insert name value done)
    else
      advance
      return object done

end

/-- The value at the front of the text. -/
def value : Reader Json := do
  valueWithin (← bound)

/-! ## Passing over values -/

/-- Any escape of 16-bit units, paired or not. The character it gives is not used. -/
def anyEscape : Reader Char := do
  let _ ← hexEscape
  return ' '

/-- Pass over the rest of a string after its opening quote. -/
def skipString : Reader Unit := do
  let _ ← stringRest anyEscape (← get) []

/-- Pass over a value that is no list or object and starts with the given character. -/
def skipScalar (first : Char) : Reader Unit := do
  match first with
  | 'n' => word "null".toList
  | 't' => word "true".toList
  | 'f' => word "false".toList
  | '"' => advance; skipString
  | c =>
    if c = '-' || c.isDigit then
      let _ ← spelling .brokenNumber
    else
      fail .missingValue

mutual

/-- Pass over a value, within a number of nested calls. -/
def skipWithin : Nat → Reader Unit
  | 0 => fail .unfinishedValue
  | fuel + 1 => do
    match ← peekToken with
    | none => fail .unfinishedValue
    | some '[' => advance; skipElements fuel true
    | some '\x7b' => advance; skipMembers fuel true
    | some c => skipScalar c

/-- Pass over the rest of a list. -/
def skipElements : Nat → Bool → Reader Unit
  | 0, _ => fail .unfinishedList
  | fuel + 1, isFirst => do
    match ← peekToken with
    | none => fail .unfinishedList
    | some ']' => advance
    | some c =>
      if isFirst then
        skipWithin fuel
        skipElements fuel false
      else if c = ',' then
        advance
        skipWithin fuel
        skipElements fuel false
      else
        fail .missingListComma

/-- Pass over the rest of an object. -/
def skipMembers : Nat → Bool → Reader Unit
  | 0, _ => fail .unfinishedObject
  | fuel + 1, isFirst => do
    match ← peekToken with
    | none => fail .unfinishedObject
    | some '\x7d' => advance
    | some c =>
      if !isFirst && c ≠ ',' then
        fail .missingObjectComma
      else
        if !isFirst then advance
        match ← peekToken with
        | none => fail .unfinishedObject
        | some '"' =>
          advance
          skipString
          colon
          skipWithin fuel
          skipMembers fuel false
        | some _ => fail .keyNoString

end

/-! ## Records read from the text -/

/-- Refuse what the text has where something else is asked for. A scalar is read first, and a
fault in it counts. -/
def refuse {α : Type} (expected : String) : Reader α := do
  match ← peekToken with
  | none => fail .unfinishedValue
  | some '[' => throw (.invalidType .sequence expected)
  | some '\x7b' => throw (.invalidType .map expected)
  | some c => throw (.invalidType (← scalar c).shape expected)

/-- The closing bracket of a list whose elements are all read. -/
def endList : Reader Unit := do
  match ← peekToken with
  | none => fail .unfinishedList
  | some ']' => advance
  | some ',' =>
    advance
    if (← peekToken) == some ']' then fail .trailingComma else fail .trailingCharacters
  | some _ => fail .trailingCharacters

/-- Nothing but blanks is left. -/
def endText : Reader Unit := do
  if (← peekToken).isSome then fail .trailingCharacters

/-- Run a reader on a whole text. -/
def run {α : Type} (reader : Reader α) (text : String) : Decoded α := do
  let (a, _) ← StateT.run (do let a ← reader; endText; return a) text.toList
  return a

end Reader

end Json

end ScriptTrace
