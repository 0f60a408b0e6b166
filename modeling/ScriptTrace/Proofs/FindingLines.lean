import Mathlib.Data.List.Basic
import ScriptTrace.Proofs.Children
import ScriptTrace.Proofs.Search

/-!
# Where a check reports what it finds

Every node of a tree is listed with all that it stands in, from the inside to the outside:
statements, expressions and the declaration in the head of a loop. The line of a node is its own
or that of the nearest of these that has one.

A check finds every construct that cannot be run once and in this order. But the line that it
carries along is only ever set by a statement. So it reports a construct without a line of its own
at the nearest *statement* that has one, and passes over the lines of the expressions and of the
declaration between the two.
-/

namespace ScriptTrace

/-- What a node of a tree stands in. The declaration in the head of a loop is no statement. -/
inductive Enclosure where
  | stmt (s : Stmt)
  | expr (e : Expr)
  | head (d : Declaration)

namespace Enclosure

/-- The line on which it starts. -/
def line : Enclosure → Option UInt32
  | stmt s => s.line
  | expr e => e.line
  | head d => d.line

/-- Whether it is a statement. -/
def isStmt : Enclosure → Bool
  | stmt _ => true
  | expr _ | head _ => false

/-- The line of the nearest statement that has one. -/
def statementLine (around : List Enclosure) : Option UInt32 :=
  (around.filter (·.isStmt)).findSome? (·.line)

theorem statementLine_head (d : Declaration) (around : List Enclosure) :
    statementLine (.head d :: around) = statementLine around := rfl

theorem statementLine_stmt (s : Stmt) (around : List Enclosure) :
    statementLine (.stmt s :: around) = (s.line <|> statementLine around) := by
  rw [statementLine, List.filter_cons_of_pos rfl, List.findSome?_cons]
  cases h : (stmt s).line <;> simp_all [line, statementLine]

/-- Where the nearest thing with a line is a statement, the line is that of the nearest
statement that has one. -/
theorem statementLine_eq {around : List Enclosure}
    (h : (around.find? (·.line.isSome)).all (·.isStmt)) :
    statementLine around = around.findSome? (·.line) := by
  induction around with
  | nil => rfl
  | cons c rest ih =>
    rw [List.find?_cons] at h
    rw [List.findSome?_cons]
    cases hline : c.line with
    | some line =>
      rw [hline] at h
      have hstmt : c.isStmt = true := h
      rw [statementLine, List.filter_cons_of_pos hstmt, List.findSome?_cons, hline]
    | none =>
      rw [hline] at h
      rw [← ih h, statementLine, statementLine, List.filter_cons]
      -- without a line, it makes no difference whether this is a statement
      split
      · rw [List.findSome?_cons, hline]
      · rfl

end Enclosure

/-- A node of a tree and what it stands in, from the inside to the outside. -/
structure Occurrence where
  node : Node
  around : List Enclosure

namespace Occurrence

/-- The line of a node, or else of the nearest thing around it that has one. -/
def line (o : Occurrence) : Option UInt32 := o.node.line <|> o.around.findSome? (·.line)

/-- The line of a node, or else of the nearest statement around it that has one. -/
def statementLine (o : Occurrence) : Option UInt32 :=
  o.node.line <|> Enclosure.statementLine o.around

/-- Whether a node has a line, or the nearest thing around it that has one is a statement. -/
def isAtStatement (o : Occurrence) : Bool :=
  o.node.line.isSome || (o.around.find? (·.line.isSome)).all (·.isStmt)

/-- The visit of a node. -/
def visit (o : Occurrence) : Visit := ⟨o.node, o.statementLine⟩

/-- What cannot be run at a node, to be reported at the line of the node. -/
def finding? (o : Occurrence) : Option Finding :=
  o.node.unsupported?.map fun construct ↦ ⟨o.line, construct⟩

theorem statementLine_eq {o : Occurrence} (h : o.isAtStatement) : o.statementLine = o.line := by
  rw [isAtStatement] at h
  rw [statementLine, line]
  cases hline : o.node.line with
  | some line => rfl
  | none =>
    rw [hline] at h
    exact Enclosure.statementLine_eq h

end Occurrence

/-! ## The nodes of a program with what they stand in -/

namespace Expr

mutual

/-- An expression and the expressions in it. -/
def occurrences (around : List Enclosure) (e : Expr) : List Occurrence :=
  ⟨.expr e, around⟩ :: match e with
    | literal .. | identifier .. | unsupported .. => []
    | binary _ left right _ =>
      left.occurrences (.expr e :: around) ++ right.occurrences (.expr e :: around)
    | logical _ left right _ =>
      left.occurrences (.expr e :: around) ++ right.occurrences (.expr e :: around)
    | unary _ operand _ => operand.occurrences (.expr e :: around)
    | update _ target _ _ => target.occurrences (.expr e :: around)
    | assign _ target value _ =>
      target.occurrences (.expr e :: around) ++ value.occurrences (.expr e :: around)
    | array elements _ => elementOccurrences (.expr e :: around) elements
    | index object i _ =>
      object.occurrences (.expr e :: around) ++ i.occurrences (.expr e :: around)
    | property object _ _ => object.occurrences (.expr e :: around)
    | call callee arguments _ =>
      callee.occurrences (.expr e :: around) ++ argumentOccurrences (.expr e :: around) arguments
    | conditional test consequent alternate _ =>
      test.occurrences (.expr e :: around) ++ consequent.occurrences (.expr e :: around) ++
        alternate.occurrences (.expr e :: around)

def elementOccurrences (around : List Enclosure) : List (Option Expr) → List Occurrence
  | [] => []
  | none :: rest => elementOccurrences around rest
  | some e :: rest => e.occurrences around ++ elementOccurrences around rest

def argumentOccurrences (around : List Enclosure) : List Expr → List Occurrence
  | [] => []
  | e :: rest => e.occurrences around ++ argumentOccurrences around rest

end

/-- The nodes of an expression that may be absent. -/
def optionalOccurrences (around : List Enclosure) : Option Expr → List Occurrence
  | none => []
  | some e => e.occurrences around

end Expr

/-- The nodes of a declaration: the target and the value of each declarator. -/
def Declaration.occurrences (around : List Enclosure) (d : Declaration) : List Occurrence :=
  d.declarators.flatMap fun declarator ↦ declarator.target.occurrences around ++
    Expr.optionalOccurrences around declarator.init

/-- The nodes in the head of a loop. -/
def ForInit.occurrences (around : List Enclosure) : Option ForInit → List Occurrence
  | none => []
  | some (declaration d) => d.occurrences (.head d :: around)
  | some (expression e) => e.occurrences around

namespace Stmt

mutual

/-- A statement and the nodes in it. -/
def occurrences (around : List Enclosure) (s : Stmt) : List Occurrence :=
  ⟨.stmt s, around⟩ :: match s with
    | declaration d => d.occurrences (.stmt s :: around)
    | forLoop init test update body _ =>
      ForInit.occurrences (.stmt s :: around) init ++
        Expr.optionalOccurrences (.stmt s :: around) test ++
        Expr.optionalOccurrences (.stmt s :: around) update ++
        body.occurrences (.stmt s :: around)
    | ifThen test consequent none _ =>
      test.occurrences (.stmt s :: around) ++ consequent.occurrences (.stmt s :: around)
    | ifThen test consequent (some alternate) _ =>
      test.occurrences (.stmt s :: around) ++ consequent.occurrences (.stmt s :: around) ++
        alternate.occurrences (.stmt s :: around)
    | block body _ => allOccurrences (.stmt s :: around) body
    | expression e _ => e.occurrences (.stmt s :: around)
    | empty _ | unsupported .. => []

/-- The nodes of statements. -/
def allOccurrences (around : List Enclosure) : List Stmt → List Occurrence
  | [] => []
  | s :: rest => s.occurrences around ++ allOccurrences around rest

end

end Stmt

/-- The nodes of a program in source order, a node before its parts. -/
def Program.occurrences (p : Program) : List Occurrence := Stmt.allOccurrences [] p.body

/-! ## The nodes are visited at the lines of statements -/

open Enclosure (statementLine statementLine_head statementLine_stmt)

/-- Whether the visits of nodes, in a statement that is reported at a line, are those of
expressions. -/
def Occurrence.VisitsOf (line : Option UInt32) (os : List Occurrence) (nodes : List Expr) : Prop :=
  os.map Occurrence.visit = nodes.map fun n ↦ ⟨.expr n, n.line <|> line⟩

variable {line : Option UInt32} {around : List Enclosure}

namespace Occurrence.VisitsOf

variable {os os' : List Occurrence} {nodes nodes' : List Expr}

theorem cons {e : Expr} (hline : Enclosure.statementLine around = line)
    (h : VisitsOf line os nodes) : VisitsOf line (⟨.expr e, around⟩ :: os) (e :: nodes) := by
  rw [VisitsOf, List.map_cons, List.map_cons, h, visit, Occurrence.statementLine, hline]
  rfl

theorem append (h : VisitsOf line os nodes) (h' : VisitsOf line os' nodes') :
    VisitsOf line (os ++ os') (nodes ++ nodes') := by
  rw [VisitsOf, List.map_append, List.map_append, h, h']

end Occurrence.VisitsOf

namespace Expr

open Occurrence (VisitsOf)

theorem visitsOf_elementOccurrences {elements : List (Option Expr)}
    (h : ∀ e, some e ∈ elements →
      VisitsOf line (e.occurrences around) (e.nodes fun _ ↦ false)) :
    VisitsOf line (elementOccurrences around elements)
      (elementNodes (fun _ ↦ false) elements) := by
  induction elements with
  | nil => rfl
  | cons element rest ih =>
    have hrest := ih fun e he ↦ h e (List.mem_cons_of_mem _ he)
    rcases element with _ | e
    · exact hrest
    · exact (h e List.mem_cons_self).append hrest

theorem visitsOf_argumentOccurrences {arguments : List Expr}
    (h : ∀ e ∈ arguments, VisitsOf line (e.occurrences around) (e.nodes fun _ ↦ false)) :
    VisitsOf line (argumentOccurrences around arguments)
      (argumentNodes (fun _ ↦ false) arguments) := by
  induction arguments with
  | nil => rfl
  | cons e rest ih =>
    exact (h e List.mem_cons_self).append (ih fun e he ↦ h e (List.mem_cons_of_mem _ he))

/-- An expression sets no line for what is in it. -/
theorem visitsOf_occurrences (hline : statementLine around = line) (e : Expr) :
    VisitsOf line (e.occurrences around) (e.nodes fun _ ↦ false) := by
  -- in an expression the nearest statements are the same, so `hline` holds inside of it as well
  induction e generalizing around with
  | literal | identifier | unsupported => exact .cons hline rfl
  | unary op operand loc hoperand => exact .cons hline (hoperand hline)
  | update op target isBefore loc htarget => exact .cons hline (htarget hline)
  | property object name loc hobject => exact .cons hline (hobject hline)
  | array elements loc helements =>
    exact .cons hline (visitsOf_elementOccurrences fun e he ↦ helements e he hline)
  | binary op left right loc hleft hright =>
    exact .cons hline (.append (hleft hline) (hright hline))
  | logical op left right loc hleft hright =>
    exact .cons hline (.append (hleft hline) (hright hline))
  | assign op target value loc htarget hvalue =>
    exact .cons hline (.append (htarget hline) (hvalue hline))
  | index object i loc hobject hi => exact .cons hline (.append (hobject hline) (hi hline))
  | call callee arguments loc hcallee harguments =>
    exact .cons hline (.append (hcallee hline)
      (visitsOf_argumentOccurrences fun e he ↦ harguments e he hline))
  | conditional test consequent alternate loc htest hconsequent halternate =>
    exact .cons hline (.append (.append (htest hline) (hconsequent hline)) (halternate hline))

theorem map_visit_optionalOccurrences (hline : statementLine around = line) (e : Option Expr) :
    (optionalOccurrences around e).map Occurrence.visit =
      optionalVisits (fun _ ↦ false) line e := by
  cases e with
  | none => rfl
  | some e => exact e.visitsOf_occurrences hline

end Expr

theorem Declaration.map_visit_occurrences (hline : statementLine around = line)
    (d : Declaration) :
    (d.occurrences around).map Occurrence.visit = d.visits (fun _ ↦ false) line := by
  rw [occurrences, visits, List.map_flatMap]
  refine congrArg (List.flatMap · d.declarators) (funext fun declarator ↦ ?_)
  rw [List.map_append, Expr.map_visit_optionalOccurrences hline]
  exact congrArg (· ++ _) (declarator.target.visitsOf_occurrences hline)

/-- The declaration in the head of a loop sets no line for what is in it. -/
theorem ForInit.map_visit_occurrences (hline : statementLine around = line)
    (init : Option ForInit) :
    (occurrences around init).map Occurrence.visit = visits (fun _ ↦ false) line init := by
  rcases init with _ | d | e
  · rfl
  · exact d.map_visit_occurrences ((statementLine_head d around).trans hline)
  · exact e.visitsOf_occurrences hline

namespace Stmt

theorem map_visit_allOccurrences {body : List Stmt}
    (h : ∀ s ∈ body,
      (s.occurrences around).map Occurrence.visit = s.visits (fun _ ↦ false) line) :
    (allOccurrences around body).map Occurrence.visit = allVisits (fun _ ↦ false) line body := by
  induction body with
  | nil => rfl
  | cons s rest ih =>
    rw [allOccurrences, allVisits, List.map_append, h s List.mem_cons_self,
      ih fun s' hs ↦ h s' (List.mem_cons_of_mem _ hs)]

theorem map_visit_cons {s : Stmt} {os : List Occurrence} {visits : List Visit}
    (h : os.map Occurrence.visit = visits) :
    ((⟨.stmt s, around⟩ : Occurrence) :: os).map Occurrence.visit =
      ⟨.stmt s, s.line <|> statementLine around⟩ :: visits := by
  rw [List.map_cons, h]
  rfl

/-- A statement with a line sets it for what is in it. -/
theorem map_visit_occurrences (hline : statementLine around = line) (s : Stmt) :
    (s.occurrences around).map Occurrence.visit = s.visits (fun _ ↦ false) line := by
  subst hline
  induction s generalizing around with
  | declaration d => exact map_visit_cons (d.map_visit_occurrences (statementLine_stmt _ around))
  | expression e loc => exact map_visit_cons (e.visitsOf_occurrences (statementLine_stmt _ around))
  | empty | unsupported => exact map_visit_cons rfl
  | block body loc hbody =>
    have hinside := statementLine_stmt (.block body loc) around
    exact map_visit_cons (map_visit_allOccurrences fun s hs ↦ (hbody s hs).trans (by rw [hinside]))
  | forLoop init test update body loc hbody =>
    have hinside := statementLine_stmt (.forLoop init test update body loc) around
    refine map_visit_cons ?_
    rw [if_neg Bool.false_ne_true, List.map_append, List.map_append, List.map_append,
      ForInit.map_visit_occurrences hinside, Expr.map_visit_optionalOccurrences hinside,
      Expr.map_visit_optionalOccurrences hinside, hbody, hinside]
  | ifThen test consequent alternate loc hconsequent halternate =>
    have hinside := statementLine_stmt (.ifThen test consequent alternate loc) around
    have htest := test.visitsOf_occurrences hinside
    cases alternate with
    | none =>
      refine map_visit_cons ?_
      rw [if_neg Bool.false_ne_true, List.map_append, hconsequent, hinside]
      exact congrArg (· ++ _) htest
    | some alternate =>
      refine map_visit_cons ?_
      rw [if_neg Bool.false_ne_true, List.map_append, List.map_append, hconsequent,
        halternate _ rfl, hinside]
      exact congrArg (· ++ _ ++ _) htest

end Stmt

namespace Program

theorem map_visit_occurrences (p : Program) : p.occurrences.map Occurrence.visit = p.visits :=
  Stmt.map_visit_allOccurrences fun s _ ↦ s.map_visit_occurrences rfl

/-- A check counts the statements of a program, and finds each construct that cannot be run once,
in source order, on its own line or that of the nearest statement around it that has one. If this
is the nearest line at all wherever something is found, then each is reported on the line of the
construct or of the nearest thing around it. -/
theorem check_occurrences (p : Program) :
    p.check.statements = p.occurrences.countP (·.node.isStmt) ∧
      p.check.findings = p.occurrences.filterMap (fun o ↦
        o.node.unsupported?.map fun construct ↦ ⟨o.statementLine, construct⟩) ∧
      ((∀ o ∈ p.occurrences, o.node.unsupported?.isSome → o.isAtStatement) →
        p.check.findings = p.occurrences.filterMap Occurrence.finding?) := by
  have hfindings : p.check.findings = p.occurrences.filterMap (fun o ↦
      o.node.unsupported?.map fun construct ↦ ⟨o.statementLine, construct⟩) := by
    rw [check_eq, ← map_visit_occurrences, List.filterMap_map]
    rfl
  refine ⟨?_, hfindings, fun h ↦ ?_⟩
  · rw [check_eq, ← map_visit_occurrences, List.countP_map]
    rfl
  · rw [hfindings]
    refine List.filterMap_congr fun o ho ↦ ?_
    rw [Occurrence.finding?]
    cases hfound : o.node.unsupported? with
    | none => rfl
    | some construct => rw [Occurrence.statementLine_eq (h o ho (hfound ▸ rfl))]

/-- A loop on line 1 with a declaration in its head on line 2, where nothing else has a line but a
function on line 3. -/
def mixedLoop : Program where
  body := [.forLoop
    (some (.declaration ⟨.lexical, [⟨.identifier "f" none,
      some (.unsupported "ArrowFunctionExpression" (some (.line 3))), none⟩], some (.line 2)⟩))
    (some (.logical .coalesce (.identifier "f" none) (.identifier "g" none) none)) none
    (.block [.unsupported "WhileStatement" none] none) (some (.line 1))]
  loc := none

/-- What cannot be run in the loop is found on line 3, in the loop and in its body. -/
theorem check_mixedLoop : mixedLoop.check.statements = 3 ∧
    (∀ o ∈ mixedLoop.occurrences, o.node.unsupported?.isSome → o.isAtStatement) ∧
    mixedLoop.check.findings =
      [⟨some 3, .expression "ArrowFunctionExpression"⟩, ⟨some 1, .operator "??"⟩,
        ⟨some 1, .statement "WhileStatement"⟩] := by
  obtain ⟨hstatements, -, hfindings⟩ := check_occurrences mixedLoop
  have hat : ∀ o ∈ mixedLoop.occurrences, o.node.unsupported?.isSome → o.isAtStatement := by
    decide
  exact ⟨hstatements, hat, hfindings hat⟩

/-- A power without a line, in a negation on line 2, in a statement on line 1. -/
def powerBelow : Program where
  body := [.expression (.unary .negate (.binary .power (.identifier "x" none)
    (.identifier "y" none) none) (some (.line 2))) (some (.line 1))]
  loc := none

/-- Not everything that is found is reported on the line of the nearest thing around it. -/
theorem not_check_findings_eq : ¬∀ p : Program,
    p.check.findings = p.occurrences.filterMap Occurrence.finding? := by
  intro h
  have hcheck : powerBelow.check.findings = [⟨some 1, .operator "**"⟩] := rfl
  have hnearest : powerBelow.occurrences.filterMap Occurrence.finding? =
      [⟨some 2, .operator "**"⟩] := rfl
  have heq := hcheck.symm.trans ((h powerBelow).trans hnearest)
  exact absurd heq (by decide)

end Program

end ScriptTrace
