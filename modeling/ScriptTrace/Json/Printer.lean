import ScriptTrace.Json.Basic
import ScriptTrace.Text.Quoted

/-!
# Writing JSON

One form without blanks, and one that puts every element and member on a line of its own, two
blanks deeper than the line that opens its list. Control characters are escaped in strings, all
others are written as they are.
-/

namespace ScriptTrace

namespace Json

/-- A character inside a JSON string. -/
def escapedChar (c : Char) : List Char :=
  match c with
  | '"' => ['\\', '"']
  | '\\' => ['\\', '\\']
  | '\x08' => ['\\', 'b']
  | '\x0c' => ['\\', 'f']
  | '\n' => ['\\', 'n']
  | '\r' => ['\\', 'r']
  | '\t' => ['\\', 't']
  | c =>
    if c.toNat < 0x20 then
      let digits := Text.hexadecimal c.toNat
      '\\' :: 'u' :: List.replicate (4 - digits.length) '0' ++ digits
    else
      [c]

/-- A string between quotes. -/
def writeString (s : String) : String :=
  .ofList ('"' :: s.toList.flatMap escapedChar ++ ['"'])

/-- An opening bracket, items and a closing bracket. With a depth every item starts a line. -/
def bracketed (opening closing : String) (depth : Option Nat) (items : List String) : String :=
  match depth, items with
  | _, [] => opening ++ closing
  | none, items => opening ++ ",".intercalate items ++ closing
  | some d, items =>
    let newline (n : Nat) : String := "\n" ++ .ofList (List.replicate (2 * n) ' ')
    opening ++ newline (d + 1) ++ ("," ++ newline (d + 1)).intercalate items ++ newline d ++ closing

mutual

/-- The text of a value. Without a depth it is compact; with one, a value that starts at that
depth is spread over lines. -/
def write (depth : Option Nat) : Json → String
  | null => "null"
  | bool true => "true"
  | bool false => "false"
  | number n => n.write
  | string s => writeString s
  | array elements => bracketed "[" "]" depth (writeElements (depth.map (· + 1)) elements)
  | object members => bracketed "\x7b" "\x7d" depth (writeMembers (depth.map (· + 1)) members)

def writeElements (depth : Option Nat) : List Json → List String
  | [] => []
  | x :: xs => write depth x :: writeElements depth xs

def writeMembers (depth : Option Nat) : List (String × Json) → List String
  | [] => []
  | (name, x) :: xs =>
    (writeString name ++ (if depth.isSome then ": " else ":") ++ write depth x) ::
      writeMembers depth xs

end

/-- The text of a value without blanks. -/
def compact (j : Json) : String := j.write none

/-- The text of a value over indented lines. -/
def pretty (j : Json) : String := j.write (some 0)

end Json

end ScriptTrace
