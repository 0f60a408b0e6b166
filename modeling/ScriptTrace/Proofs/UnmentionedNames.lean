import ScriptTrace.Proofs.Agreement
import ScriptTrace.Proofs.SwapDetection

/-!
# Names that a program does not mention

A program mentions the names of its identifiers and the texts by which its calls name an array. It
neither reads nor binds any other name: with one bound besides, a run goes the same way, and ends
with that name still bound to the same (`Program.exec_define`), also after a failure.
-/

namespace ScriptTrace

/-- It does not matter in which order two names are bound. -/
theorem Environment.define_comm (env : Environment) {name z : String} (hne : name ≠ z)
    (v w : Value) : (env.define z w).define name v = (env.define name v).define z w := by
  refine eq_of_get?_eq fun other ↦ ?_
  rw [get?_define, get?_define, get?_define, get?_define]
  by_cases hname : other = name
  · rw [if_pos hname, if_pos hname, if_neg fun hz ↦ hne (hname.symm.trans hz)]
  · rw [if_neg hname, if_neg hname]

/-- With a name bound besides, an environment is the same to all other names. -/
theorem Environment.alike_define (z : String) (v : Value) :
    Alike (· ≠ z) fun env env' ↦ env' = env.define z v where
  get? {name} hname {env _} h := by rw [h, get?_define, if_neg hname]
  define {name} hname w {env _} h := by rw [h, define_comm env hname]

/-- A state with a name bound besides. -/
def State.define (name : String) (v : Value) (s : State) : State :=
  { s with environment := s.environment.define name v }

namespace Program

/-- The texts by which calls of a program may name an array: the string literals that are a first
argument. -/
def calledTexts (p : Program) : List String :=
  p.visits.filterMap fun visit ↦
    match visit.node with
    | .expr (.call _ (.literal (.string text) _ _ :: _) _) => some text
    | _ => none

variable {p : Program} {z : String}

/-- All names that a program mentions are names of identifiers or texts of calls. -/
theorem mem_of_mentioned {visit : Visit} (hvisit : visit ∈ p.visits) {name : String}
    (hname : visit.node.mentioned? = some name) : name ∈ p.names ∨ name ∈ p.calledTexts := by
  rw [Node.mentioned?.eq_def] at hname
  split at hname
  · rename_i hnode
    refine .inl (List.mem_filterMap.mpr ⟨visit, hvisit, ?_⟩)
    rw [hnode]
    exact hname
  · rename_i hnode
    refine .inr (List.mem_filterMap.mpr ⟨visit, hvisit, ?_⟩)
    rw [hnode]
    exact hname
  · cases hname

theorem namesIn_of_unmentioned (hname : z ∉ p.names) (htext : z ∉ p.calledTexts) :
    ∀ s ∈ p.body, (Node.stmt s).NamesIn (· ≠ z) := by
  refine everywhere_of_visits fun visit hvisit name hmentioned ↦ ?_
  rintro rfl
  exact (mem_of_mentioned hvisit hmentioned).elim hname htext

/-- A run with a name bound besides that the program does not mention: it fails in the same way or
succeeds as well, and leaves what it leaves without the name, but for the name itself. -/
theorem exec_define (hname : z ∉ p.names) (htext : z ∉ p.calledTexts) (config : Config) (v : Value)
    (s : State) :
    (∃ failure s', p.exec config s = .error failure s' ∧
        p.exec config (s.define z v) = .error failure (s'.define z v)) ∨
      ∃ s', p.exec config s = .ok () s' ∧
        p.exec config (s.define z v) = .ok () (s'.define z v) := by
  have hagree : Eval.Agree (fun env env' ↦ env' = env.define z v) True (p.exec config)
      ((p.relocate .identity).exec config) :=
    p.agree_exec (Environment.alike_define z v) (.identity True) config
      (namesIn_of_unmentioned hname htext)
  rw [relocate_identity] at hagree
  obtain ⟨environment, heap, history⟩ := s
  obtain ⟨ending, ending', events, events', hrun, hrun', hending, hevents⟩ := hagree rfl heap
  obtain rfl := hevents.exact trivial
  have hplain := hrun history
  have hextended := hrun' history
  -- the environments that agreement relates differ by the binding of `z` alone
  cases hending with
  | ok a h heap =>
    obtain rfl := h
    exact .inr ⟨_, hplain, hextended⟩
  | error hsame hexact h heap =>
    obtain rfl := h
    obtain rfl := hexact trivial
    exact .inl ⟨_, _, hplain, hextended⟩

/-- **Names that a program does not mention are neither read nor bound.** With such a name bound
besides, a run fails in the same way and with the same history, or it ends with the same history and
the same variables, but for that name, which is still bound to the same. -/
theorem runFrom_define (hname : z ∉ p.names) (htext : z ∉ p.calledTexts) (config : Config)
    (environment : Environment) (heap : Heap) (v : Value) :
    let plain := p.runFrom config environment heap
    let extended := p.runFrom config (environment.define z v) heap
    (∃ failure history, plain = .failed failure history ∧ extended = .failed failure history) ∨
      ∃ s, p.exec config (.start config environment heap) = .ok () s ∧
        plain = .finished s.history (s.environment.snapshot s.heap) ∧
        extended = .finished s.history ((s.environment.define z v).snapshot s.heap) := by
  rcases exec_define hname htext config v (.start config environment heap) with
    ⟨failure, s, hplain, hextended⟩ | ⟨s, hplain, hextended⟩
  · exact .inl ⟨failure, s.history, runFrom_of_error hplain,
      runFrom_of_error (s := s.define z v) hextended⟩
  · exact .inr ⟨s, hplain, runFrom_of_ok hplain, runFrom_of_ok (s := s.define z v) hextended⟩

/-- The swap idiom on `a` mentions no `b`, so it does not matter that `b` is the same array. -/
theorem runFrom_sortTwo_define : ("b" ∉ sortTwo.names ∧ "b" ∉ sortTwo.calledTexts) ∧
    let plain := sortTwo.runFrom .standard twoAndOne.1 twoAndOne.2
    let extended := sortTwo.runFrom .standard (twoAndOne.1.define "b" (.array 0)) twoAndOne.2
    (∃ failure history, plain = .failed failure history ∧ extended = .failed failure history) ∨
      ∃ s, sortTwo.exec .standard (.start .standard twoAndOne.1 twoAndOne.2) = .ok () s ∧
        plain = .finished s.history (s.environment.snapshot s.heap) ∧
        extended = .finished s.history ((s.environment.define "b" (.array 0)).snapshot s.heap) := by
  have hname : "b" ∉ sortTwo.names := by decide +kernel
  have htext : "b" ∉ sortTwo.calledTexts := by decide +kernel
  exact ⟨⟨hname, htext⟩,
    runFrom_define hname htext .standard twoAndOne.1 twoAndOne.2 (.array 0)⟩

end Program

end ScriptTrace
