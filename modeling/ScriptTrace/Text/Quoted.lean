import ScriptTrace.Text.Visible

/-!
# Quoted text

How messages quote a string: between double quotes, with short escapes for the quote, the
backslash and four control characters, and the code point in hexadecimal for every other hidden
character. A single quote stays as it is.
-/

namespace ScriptTrace

namespace Text

/-- The digits of `n` in base 16, in lower case. -/
def hexadecimal (n : Nat) : List Char := Nat.toDigits 16 n

/-- A character inside quotes. -/
def quotedChar (c : Char) : List Char :=
  match c with
  | '"' => ['\\', '"']
  | '\\' => ['\\', '\\']
  | '\t' => ['\\', 't']
  | '\r' => ['\\', 'r']
  | '\n' => ['\\', 'n']
  | '\x00' => ['\\', '0']
  | c => if isVisible c then [c] else '\\' :: 'u' :: '\x7b' :: hexadecimal c.toNat ++ ['\x7d']

/-- A string between double quotes. -/
def quoted (s : String) : String :=
  .ofList ('"' :: s.toList.flatMap quotedChar ++ ['"'])

end Text

end ScriptTrace
