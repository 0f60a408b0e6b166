import ScriptTrace.Json.Reader
import ScriptTrace.Syntax.Decode

/-!
# Programs from JSON texts

A program and its own location are read straight from the text, in one pass: each statement is
decoded as soon as it is read, so a fault in its shape is found before a fault in the text after
it. Members may come in any order, but a known one only once; the values of others are skipped.
The program and its records may also be lists of their parts.
-/

namespace ScriptTrace

namespace Json.Reader

/-- Turn a value that was read into something else. -/
def lift {α : Type} (decoded : Decoded α) : Reader α := fun text ↦ return (← decoded, text)

/-- The members of an object up to its end, of which two are known by name. -/
def membersOfTwo {α β : Type} (nameA nameB : String) (readA : Reader α) (readB : Reader β) :
    Nat → Bool → Option α → Option β → Reader (Option α × Option β)
  | 0, _, _, _ => fail .unfinishedObject
  | fuel + 1, isFirst, a?, b? => do
    if ← moreMembers isFirst then
      advance
      let name ← stringTail
      if name = nameA then
        if a?.isSome then throw (.duplicateField nameA)
        colon
        let a ← readA
        membersOfTwo nameA nameB readA readB fuel false (some a) b?
      else if name = nameB then
        if b?.isSome then throw (.duplicateField nameB)
        colon
        let b ← readB
        membersOfTwo nameA nameB readA readB fuel false a? (some b)
      else
        colon
        skipWithin fuel
        membersOfTwo nameA nameB readA readB fuel false a? b?
    else
      advance
      return (a?, b?)

/-- A record of two parts, of which the first is needed; `build` decides about the second, and
is given the fault that stands for its absence. -/
def recordOfTwo {α β γ : Type} (name nameA nameB : String) (readA : Reader α) (readB : Reader β)
    (build : α → Option β → Fault → Decoded γ) : Reader γ := do
  let tooShort (length : Nat) : Fault :=
    .invalidLength length (structName name ++ " with 2 elements")
  match ← peekToken with
  | none => fail .unfinishedValue
  | some '[' =>
    advance
    if ← moreElements true then
      let a ← readA
      let b? ← do
        if ← moreElements false then pure (some (← readB)) else pure none
      let built ← lift (build a b? (tooShort 1))
      endList
      return built
    else
      throw (tooShort 0)
  | some '\x7b' =>
    advance
    let (a?, b?) ← membersOfTwo nameA nameB readA readB (← bound) true none none
    lift do build (← required nameA a?) b? (.missingField nameB)
  | some _ => refuse (structName name)

/-- An integer of 32 bits. -/
def uint32 : Reader UInt32 := do
  match ← peekToken with
  | none => fail .unfinishedValue
  | some c => if c = '-' || c.isDigit then lift (Json.number (← number)).toUInt32 else refuse "u32"

/-- A position. -/
def position : Reader Position :=
  recordOfTwo "Position" "line" "column" uint32 uint32 fun line column _ ↦
    return ⟨line, column.getD 0⟩

/-- A location. -/
def location : Reader Location :=
  recordOfTwo "SourceLocation" "start" "end" position position fun start stop absent ↦
    match stop with
    | some stop => return ⟨start, stop⟩
    | none => throw absent

/-- A location or `null`. -/
def optionalLocation : Reader (Option Location) := do
  match ← peekToken with
  | none => fail .unfinishedValue
  | some 'n' => word "null".toList; return none
  | some _ => return some (← location)

/-- A statement. -/
def stmt : Reader Stmt := do
  lift (Stmt.ofJson (← value))

/-- An expression. -/
def expr : Reader Expr := do
  lift (Expr.ofJson (← value))

/-- The rest of a list of statements, with the statements read so far in reverse. -/
def statementsWithin : Nat → List Stmt → Reader (List Stmt)
  | 0, _ => fail .unfinishedList
  | fuel + 1, done => do
    if ← moreElements done.isEmpty then
      let s ← lift (Stmt.ofJson (← valueWithin fuel))
      statementsWithin fuel (s :: done)
    else
      advance
      return done.reverse

/-- A list of statements. -/
def statements : Reader (List Stmt) := do
  match ← peekToken with
  | none => fail .unfinishedValue
  | some '[' => advance; statementsWithin (← bound) []
  | some _ => refuse "a sequence"

/-- A program. -/
def program : Reader Program :=
  recordOfTwo "Program" "body" "loc" statements optionalLocation fun body loc _ ↦
    return ⟨body, loc.join⟩

end Json.Reader

/-- The program that a text spells. -/
def Program.ofText (text : String) : Json.Decoded Program := Json.Reader.program.run text

/-- The statement that a text spells. -/
def Stmt.ofText (text : String) : Json.Decoded Stmt := Json.Reader.stmt.run text

/-- The expression that a text spells. -/
def Expr.ofText (text : String) : Json.Decoded Expr := Json.Reader.expr.run text

end ScriptTrace
