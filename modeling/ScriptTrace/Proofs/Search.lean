import ScriptTrace.Check
import ScriptTrace.Proofs.Induction

/-!
# A search goes through the visits

A check carries one line through the tree, which every statement sets and puts back. The visits of
a program are listed with a line that is handed down. Both come to the same: a search of a part of
the tree finds what the visits of that part say, in their order, and leaves the line as it was.
-/

namespace ScriptTrace

/-- What is found at a visit. -/
def Visit.finding? (visit : Visit) : Option Finding :=
  visit.node.unsupported?.map fun construct ↦ ⟨visit.line, construct⟩

namespace Search

/-- A search that has found in addition what visits say. -/
def add (search : Search) (visits : List Visit) : Search where
  statements := search.statements + visits.countP (·.node.isStmt)
  findings := search.findings ++ (visits.filterMap Visit.finding?).toArray
  line := search.line

@[simp] theorem add_nil (search : Search) : search.add [] = search := by simp [add]

theorem add_append (search : Search) (visits visits' : List Visit) :
    search.add (visits ++ visits') = (search.add visits).add visits' := by
  simp [add, Nat.add_assoc]

theorem run_look (n : Node) (line : Option UInt32) (search : Search) :
    (look n line).run search = ((), { search with
      findings := search.findings ++ (Visit.finding? ⟨n, line⟩).toList.toArray }) := by
  rw [look, Visit.finding?]
  cases n.unsupported? with
  | none =>
    rw [Option.map_none, Option.toList_none, Array.append_empty]
    rfl
  | some construct =>
    rw [Option.map_some, Option.toList_some, ← Array.push_eq_append]
    rfl

/-- Whether a search, where the line is `line`, finds what visits say and keeps the line. -/
def Finds (line : Option UInt32) (m : StateM Search Unit) (visits : List Visit) : Prop :=
  ∀ search : Search, search.line = line → m.run search = ((), search.add visits)

namespace Finds

variable {line : Option UInt32} {m m' : StateM Search Unit} {visits visits' : List Visit}

theorem nothing : Finds line (pure ()) [] := by
  intro search _
  rw [add_nil]
  rfl

theorem andThen (h : Finds line m visits) (h' : Finds line m' visits') :
    Finds line (do m; m') (visits ++ visits') := by
  intro search hline
  rw [StateT.run_bind, h search hline, add_append]
  exact h' _ hline

theorem andThen_map {f : Expr → Visit} {nodes nodes' : List Expr}
    (h : Finds line m (nodes.map f)) (h' : Finds line m' (nodes'.map f)) :
    Finds line (do m; m') ((nodes ++ nodes').map f) := by
  rw [List.map_append]
  exact h.andThen h'

theorem option {α : Type} {f : α → StateM Search Unit} {g : Option α → List Visit}
    (hnone : g none = []) (h : ∀ a, Finds line (f a) (g (some a))) (o : Option α) :
    Finds line (o.forM f) (g o) := by
  cases o with
  | none =>
    rw [hnone]
    exact nothing
  | some a => exact h a

theorem list {α : Type} {f : α → StateM Search Unit} {g : α → List Visit}
    (h : ∀ a, Finds line (f a) (g a)) (l : List α) :
    Finds line (l.forM f) (l.flatMap g) := by
  induction l with
  | nil => exact nothing
  | cons a l ih => exact (h a).andThen ih

/-- An expression is found first, on its own line or on that of the search. -/
theorem expr {e : Expr} (h : Finds line m visits) :
    Finds line (Search.expr e m) (⟨.expr e, e.line <|> line⟩ :: visits) := by
  intro search hline
  subst hline
  calc (Search.expr e m).run search
      = m.run ((look (.expr e) (e.line <|> search.line)).run search).2 := rfl
    _ = ((), (search.add [⟨.expr e, e.line <|> search.line⟩]).add visits) := by
      rw [run_look]
      exact h _ rfl
    _ = _ := by rw [← add_append, List.singleton_append]

/-- A statement is found first, and what is in it is found where the line is that of the
statement. The line of the search stays what it is. -/
theorem stmt {s : Stmt} (h : Finds (s.line <|> line) m visits) :
    Finds line (Search.stmt s m) (⟨.stmt s, s.line <|> line⟩ :: visits) := by
  intro search hline
  subst hline
  -- what the search is while the parts are looked through
  let inside : Search := { search with line := s.line <|> search.line }
  have hinside : m.run (inside.add [⟨.stmt s, s.line <|> search.line⟩]) =
      ((), inside.add (⟨.stmt s, s.line <|> search.line⟩ :: visits)) := by
    rw [h _ rfl, ← add_append, List.singleton_append]
  have hlook : (look (.stmt s) (s.line <|> search.line)).run
      { inside with statements := search.statements + 1 } =
        ((), inside.add [⟨.stmt s, s.line <|> search.line⟩]) := by
    rw [run_look]
    rfl
  calc (Search.stmt s m).run search
      = ((), { (m.run ((look (.stmt s) (s.line <|> search.line)).run
          { inside with statements := search.statements + 1 }).2).2 with
            line := search.line }) := rfl
    _ = _ := by
      rw [hlook, hinside]
      rfl

end Finds

end Search

namespace Expr

theorem finds_searchElements {line : Option UInt32} {elements : List (Option Expr)}
    (h : ∀ e, some e ∈ elements → Search.Finds line e.search (e.visits (fun _ ↦ false) line)) :
    Search.Finds line (searchElements elements)
      ((elementNodes (fun _ ↦ false) elements).map fun n ↦ ⟨.expr n, n.line <|> line⟩) := by
  induction elements with
  | nil => exact .nothing
  | cons element rest ih =>
    have hrest := ih fun e he ↦ h e (List.mem_cons_of_mem _ he)
    rcases element with _ | e
    · exact hrest
    · exact (h e List.mem_cons_self).andThen_map hrest

theorem finds_searchArguments {line : Option UInt32} {arguments : List Expr}
    (h : ∀ e ∈ arguments, Search.Finds line e.search (e.visits (fun _ ↦ false) line)) :
    Search.Finds line (searchArguments arguments)
      ((argumentNodes (fun _ ↦ false) arguments).map fun n ↦ ⟨.expr n, n.line <|> line⟩) := by
  induction arguments with
  | nil => exact .nothing
  | cons e rest ih =>
    have hrest := ih fun e he ↦ h e (List.mem_cons_of_mem _ he)
    exact (h e List.mem_cons_self).andThen_map hrest

/-- A search of an expression finds what its visits say. -/
theorem finds_search (line : Option UInt32) (e : Expr) :
    Search.Finds line e.search (e.visits (fun _ ↦ false) line) := by
  induction e with
  | literal | identifier | unsupported => exact .expr .nothing
  | unary op operand loc hoperand => exact .expr hoperand
  | update op target isBefore loc htarget => exact .expr htarget
  | property object name loc hobject => exact .expr hobject
  | array elements loc helements => exact .expr (finds_searchElements helements)
  | binary op left right loc hleft hright => exact .expr (hleft.andThen_map hright)
  | logical op left right loc hleft hright => exact .expr (hleft.andThen_map hright)
  | assign op target value loc htarget hvalue => exact .expr (htarget.andThen_map hvalue)
  | index object i loc hobject hi => exact .expr (hobject.andThen_map hi)
  | call callee arguments loc hcallee harguments =>
    exact .expr (hcallee.andThen_map (finds_searchArguments harguments))
  | conditional test consequent alternate loc htest hconsequent halternate =>
    refine .expr ?_
    rw [if_neg Bool.false_ne_true, List.append_assoc]
    exact htest.andThen_map (hconsequent.andThen_map halternate)

theorem finds_search_option (line : Option UInt32) (e : Option Expr) :
    Search.Finds line (e.forM search) (optionalVisits (fun _ ↦ false) line e) :=
  Search.Finds.option rfl (finds_search line) e

end Expr

theorem Declaration.finds_search (line : Option UInt32) (d : Declaration) :
    Search.Finds line d.search (d.visits (fun _ ↦ false) line) :=
  Search.Finds.list (fun declarator ↦ (declarator.target.finds_search line).andThen
    (Expr.finds_search_option line declarator.init)) d.declarators

theorem ForInit.finds_search (line : Option UInt32) (init : Option ForInit) :
    Search.Finds line (init.forM search) (visits (fun _ ↦ false) line init) := by
  refine Search.Finds.option rfl (fun init ↦ ?_) init
  cases init with
  | declaration d => exact d.finds_search line
  | expression e => exact e.finds_search line

namespace Stmt

theorem finds_searchAll {line : Option UInt32} {body : List Stmt}
    (h : ∀ s ∈ body, Search.Finds line s.search (s.visits (fun _ ↦ false) line)) :
    Search.Finds line (searchAll body) (allVisits (fun _ ↦ false) line body) := by
  induction body with
  | nil => exact .nothing
  | cons s rest ih =>
    exact (h s List.mem_cons_self).andThen (ih fun s' hs ↦ h s' (List.mem_cons_of_mem _ hs))

/-- A search of a statement finds what its visits say. -/
theorem finds_search (line : Option UInt32) (s : Stmt) :
    Search.Finds line s.search (s.visits (fun _ ↦ false) line) := by
  induction s generalizing line with
  | declaration d => exact .stmt (d.finds_search _)
  | expression e loc => exact .stmt (e.finds_search _)
  | empty | unsupported => exact .stmt .nothing
  | block body loc hbody => exact .stmt (finds_searchAll fun s hs ↦ hbody s hs _)
  | forLoop init test update body loc hbody =>
    refine .stmt ?_
    -- the visits are grouped from the left, and the search goes on to the right
    rw [if_neg Bool.false_ne_true, List.append_assoc, List.append_assoc]
    exact (ForInit.finds_search _ init).andThen ((Expr.finds_search_option _ test).andThen
      ((Expr.finds_search_option _ update).andThen (hbody _)))
  | ifThen test consequent alternate loc hconsequent halternate =>
    cases alternate with
    | none => exact .stmt ((test.finds_search _).andThen (hconsequent _))
    | some alternate =>
      refine .stmt ?_
      rw [if_neg Bool.false_ne_true, List.append_assoc]
      exact (test.finds_search _).andThen ((hconsequent _).andThen (halternate _ rfl _))

end Stmt

namespace Program

/-- A check counts the statements that are visited and finds what the visits say. -/
theorem check_eq (p : Program) :
    p.check = ⟨p.visits.countP (·.node.isStmt), p.visits.filterMap Visit.finding?⟩ := by
  have hall : Search.Finds none (Stmt.searchAll p.body) p.visits :=
    Stmt.finds_searchAll fun s _ ↦ s.finds_search none
  rw [check, hall .start rfl]
  simp [Search.add, Search.start]

end Program

end ScriptTrace
