import Mathlib
import ScriptTrace.Proofs.ExactIntegers
import ScriptTrace.Syntax.SwapIdiom

/-!
# The bubble sort

The program that sorts an array of integers by exchanging neighbours, as a tree with the locations
of its source text:

    let arr = [5, 3, 4];
    for (let i = 0; i < arr.length - 1; i++) {
      for (let j = 0; j < arr.length - 1 - i; j++) {
        if (arr[j] > arr[j + 1]) {
          let temp = arr[j];
          arr[j] = arr[j + 1];
          arr[j + 1] = temp;
        }
      }
    }

Any integers of 32 bits can stand in the array literal. They have no locations of their own.
-/

namespace ScriptTrace

namespace BubbleSort

/-- The location from one line and column to another. -/
def span (line column line' column' : UInt32) : Option Location :=
  some ⟨⟨line, column⟩, ⟨line', column'⟩⟩

/-- The name `arr` in some columns of a line. -/
def arr (line column column' : UInt32) : Expr :=
  .identifier "arr" (span line column line column')

/-- A name of one letter in a column of a line. -/
def letter (name : String) (line column : UInt32) : Expr :=
  .identifier name (span line column line (column + 1))

/-- A digit in a column of a line. -/
def digit (n : Int) (line column : UInt32) : Expr :=
  .literal (.number (.ofInt n)) none (span line column line (column + 1))

/-- `arr.length - 1`, which starts in a column of a line. -/
def lastSlot (line column : UInt32) : Expr :=
  .binary .subtract
    (.property (arr line column (column + 3))
      (.identifier "length" (span line (column + 4) line (column + 10)))
      (span line column line (column + 10)))
    (digit 1 line (column + 13)) (span line column line (column + 14))

/-- `arr[j]`, which starts in a column of a line. -/
def current (line column : UInt32) : Expr :=
  .index (arr line column (column + 3)) (letter "j" line (column + 4))
    (span line column line (column + 6))

/-- `j + 1`, which starts in a column of a line. -/
def afterJ (line column : UInt32) : Expr :=
  .binary .add (letter "j" line column) (digit 1 line (column + 4))
    (span line column line (column + 5))

/-- `arr[j + 1]`, which starts in a column of a line. -/
def next (line column : UInt32) : Expr :=
  .index (arr line column (column + 3)) (afterJ line (column + 4))
    (span line column line (column + 10))

/-- `let name = 0` in the head of a loop. -/
def counter (name : String) (line column : UInt32) : ForInit :=
  .declaration ⟨.lexical, [⟨letter name line (column + 4), some (digit 0 line (column + 8)),
    span line (column + 4) line (column + 9)⟩], span line column line (column + 9)⟩

/-- `name++`. -/
def count (name : String) (line column : UInt32) : Expr :=
  .update .increment (letter name line column) false (span line column line (column + 3))

/-- `let temp = arr[j];` -/
def capture : Stmt :=
  .declaration ⟨.lexical,
    [⟨.identifier "temp" (span 5 10 5 14), some (current 5 17), span 5 10 5 23⟩], span 5 6 5 24⟩

/-- `arr[j] = arr[j + 1];` -/
def copy : Stmt :=
  .expression (.assign .assign (current 6 6) (next 6 15) (span 6 6 6 25)) (span 6 6 6 26)

/-- `arr[j + 1] = temp;` -/
def restore : Stmt :=
  .expression (.assign .assign (next 7 6) (.identifier "temp" (span 7 19 7 23))
    (span 7 6 7 23)) (span 7 6 7 24)

/-- The three statements that exchange `arr[j]` and `arr[j + 1]`. -/
def exchange : Stmt := .block [capture, copy, restore] (span 4 29 8 5)

/-- `arr[j] > arr[j + 1]` -/
def outOfOrder : Expr := .binary .greater (current 4 8) (next 4 17) (span 4 8 4 27)

/-- `if (arr[j] > arr[j + 1])` with the exchange. -/
def orderNeighbours : Stmt := .ifThen outOfOrder exchange none (span 4 4 8 5)

/-- `j < arr.length - 1 - i` -/
def passTest : Expr :=
  .binary .less (letter "j" 3 18)
    (.binary .subtract (lastSlot 3 22) (letter "i" 3 39) (span 3 22 3 40)) (span 3 18 3 40)

/-- The loop over `j`. -/
def passLoop : Stmt :=
  .forLoop (some (counter "j" 3 7)) (some passTest) (some (count "j" 3 42))
    (.block [orderNeighbours] (span 3 47 9 3)) (span 3 2 9 3)

/-- `i < arr.length - 1` -/
def sortTest : Expr := .binary .less (letter "i" 2 16) (lastSlot 2 20) (span 2 16 2 34)

/-- The loop over `i`. -/
def sortLoop : Stmt :=
  .forLoop (some (counter "i" 2 5)) (some sortTest) (some (count "i" 2 36))
    (.block [passLoop] (span 2 41 10 1)) (span 2 0 10 1)

/-- The array literal of integers. -/
def literal (values : List Int32) : Expr :=
  .array (values.map fun v ↦ some (.literal (.number (.ofInt v.toInt)) none none))
    (span 1 10 1 19)

/-- `let arr = values;` -/
def declareArray (values : List Int32) : Stmt :=
  .declaration ⟨.lexical, [⟨arr 1 4 7, some (literal values), span 1 4 1 19⟩], span 1 0 1 20⟩

/-- The exchange as the swap idiom that it is. -/
def plan : SwapPlan := ⟨"arr", letter "j" 6 10, afterJ 7 10, 1, some 6, some 7⟩

theorem ofIf?_exchange : SwapPlan.ofIf? outOfOrder exchange = some plan := by rfl

end BubbleSort

/-- The bubble sort of integers of 32 bits. -/
def Program.bubbleSort (values : List Int32) : Program :=
  ⟨[BubbleSort.declareArray values, BubbleSort.sortLoop], BubbleSort.span 1 0 11 0⟩

end ScriptTrace
