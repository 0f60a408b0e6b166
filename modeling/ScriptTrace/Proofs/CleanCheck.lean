import ScriptTrace.Proofs.FailurePlace
import ScriptTrace.Proofs.Search
import ScriptTrace.Proofs.Visits

/-!
# What a clean check promises

A check looks at all nodes of a program, and a run only goes to nodes of the program: whatever a
trail of a failure leads through, the check has seen. So after a check that finds nothing, a run
never fails because of an operator, and fails because of a node only where the node is a misfit, a
construct that the check does not look for.
-/

namespace ScriptTrace

/-- How a trail ends: at a node that fails by itself, or at the pattern of a declarator. -/
inductive Trail.Ends : List Stop → Cause → Prop
  | own {first : Stop} {rest : List Stop} {cause : Cause} (h : first.node.Raises cause) :
    Ends (first :: rest) cause
  | pattern {first second : Stop} {rest : List Stop} {d : Declaration} {declarator : Declarator}
    (hfirst : first.node = .expr declarator.target) (hsecond : second.node = .stmt (.declaration d))
    (hd : declarator ∈ d.declarators) (hname : declarator.target.name? = none) :
    Ends (first :: second :: rest) (.unsupportedNode declarator.target.nodeType)

namespace Trail

theorem Ends.append {trail : List Stop} {cause : Cause} (h : Ends trail cause)
    (later : List Stop) : Ends (trail ++ later) cause := by
  cases h with
  | own h => exact .own h
  | pattern hfirst hsecond hd hname => exact .pattern hfirst hsecond hd hname

theorem ends {n : Node} {trail : List Stop} {cause : Cause} (h : Trail n trail cause) :
    Ends trail cause := by
  induction h with
  | own h => exact .own h
  | pattern hd hname => exact .pattern rfl rfl hd hname
  | headPattern hn hd hname => exact .pattern rfl rfl hd hname
  | enter hc h ih => exact ih.append _
  | bypass hc hc' h ih => exact ih.append _
  | planned hplan hi htarget hwrite h ih => exact ih.append _

end Trail

namespace Program

theorem all_visits_of_findings {p : Program} (h : p.check.findings = []) :
    Visit.All (·.unsupported? = none) p.visits := by
  intro visit hvisit
  rw [check_eq] at h
  simpa [Visit.finding?] using List.filterMap_eq_nil_iff.mp h visit hvisit

/-- After a check that finds nothing, a run never fails because of an operator, and fails because
of a node only at a misfit. Nowhere on the way is there a node that the check would find. -/
theorem failed_of_clean {p : Program} (hcheck : p.check.findings = []) {config : Config}
    {environment : Environment} {heap : Heap} {f : Failure} {history : History}
    (hrun : p.runFrom config environment heap = .failed f history) :
    (∀ symbol, f.cause ≠ .unsupportedOperator symbol) ∧
      (∀ tag, f.cause = .unsupportedNode tag → ∃ s ∈ p.body, ∃ path, Node.Path (.stmt s) path ∧
        ∃ n ∈ path, ∃ nodeType, f.nodeType = some nodeType ∧ n.Misfit tag nodeType) ∧
      ∀ s ∈ p.body, ∀ path, Node.Path (.stmt s) path → ∀ n ∈ path, n.unsupported? = none := by
  have hclean : ∀ s ∈ p.body, ∀ path, Node.Path (.stmt s) path →
      ∀ n ∈ path, n.unsupported? = none := by
    intro s hs path hpath n hn
    have hall := everywhere_of_visits (all_visits_of_findings hcheck) s hs
    exact (Node.Everywhere.of_path hpath hall n hn).self fun _ ↦ rfl
  obtain ⟨s, hs, trail, cause, htrail, rfl⟩ := exists_isAt_of_failed hrun
  have htrailClean := hclean s hs _ htrail.path
  cases htrail.ends with
  | @own first rest cause hraises =>
    have hfirst : first.node.unsupported? = none := htrailClean _ List.mem_cons_self
    refine ⟨fun symbol hcause ↦ ?_, fun tag hcause ↦ ?_, hclean⟩
    · obtain rfl : cause = .unsupportedOperator symbol := hcause
      rw [Node.Raises, hfirst] at hraises
      cases hraises
    · obtain rfl : cause = .unsupportedNode tag := hcause
      rw [Node.Raises, hfirst] at hraises
      rcases hraises with h | h | hmisfit
      · cases h
      · cases h
      · exact ⟨s, hs, _, htrail.path, first.node, List.mem_cons_self, _, rfl, hmisfit⟩
  | @pattern first second rest d declarator hfirst hsecond hd hname =>
    refine ⟨fun symbol hcause ↦ Cause.noConfusion hcause, fun tag hcause ↦ ?_, hclean⟩
    obtain rfl : declarator.target.nodeType = tag := Cause.unsupportedNode.inj hcause
    have hmisfit : second.node.Misfit declarator.target.nodeType first.node.nodeType := by
      rw [hfirst, hsecond]
      exact .pattern hd hname
    exact ⟨s, hs, _, htrail.path, second.node, List.mem_cons_of_mem _ List.mem_cons_self, _, rfl,
      hmisfit⟩

/-- A statement that is just a text. -/
def textAlone : Program := ⟨[.expression (.literal (.string "a") none none) none], none⟩

/-- A text passes the check, and a run fails at it. -/
theorem misfit_textAlone : textAlone.check.findings = [] ∧
    ∃ s ∈ textAlone.body, ∃ path, Node.Path (.stmt s) path ∧
      ∃ n ∈ path, n.Misfit "Literal(string)" "Literal" := by
  have hrun : textAlone.runFrom .standard .empty .empty =
      .failed ⟨.unsupportedNode "Literal(string)", some "Literal", none⟩ (.empty .keepAll) := by
    rw [runFrom, exec, Stmt.execAll]
    rfl
  have hcheck : textAlone.check.findings = [] := rfl
  obtain ⟨-, hmisfit, -⟩ := failed_of_clean hcheck hrun
  obtain ⟨s, hs, path, hpath, n, hn, nodeType, htype, hmisfit⟩ := hmisfit _ rfl
  obtain rfl := Option.some.inj htype
  exact ⟨hcheck, s, hs, path, hpath, n, hn, hmisfit⟩

end Program

end ScriptTrace
