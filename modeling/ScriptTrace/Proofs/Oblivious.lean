import ScriptTrace.Proofs.Compositional

/-!
# Runs do not look at their history

A run only adds to its history and never reads it. So what a computation does to the variables and
the arrays, how it ends, and which events it emits depend on the variables and the arrays alone;
the history of its start only decides, together with the policy, which of the events are kept.

This is what lets two runs be compared event by event when their histories differ.
-/

namespace ScriptTrace

namespace History

/-- Add events one after the other. -/
def recordAll (h : History) (events : List Event) : History := events.foldl record h

@[simp] theorem recordAll_nil (h : History) : h.recordAll [] = h := rfl

@[simp] theorem recordAll_cons (h : History) (e : Event) (events : List Event) :
    h.recordAll (e :: events) = (h.record e).recordAll events := rfl

theorem recordAll_append (h : History) (events later : List Event) :
    h.recordAll (events ++ later) = (h.recordAll events).recordAll later :=
  List.foldl_append

/-- A history that keeps everything ends in all the events that it is given. -/
theorem toList_events_recordAll {h : History} (hpolicy : h.policy = .keepAll)
    (events : List Event) : (h.recordAll events).events.toList = h.events.toList ++ events := by
  induction events generalizing h with
  | nil => rw [recordAll_nil, List.append_nil]
  | cons e events ih =>
    have hkeeps : h.keeps e = true := by rw [keeps, hpolicy]
    rw [recordAll_cons, ih (by rw [policy_record, hpolicy]), toList_events_record, if_pos hkeeps,
      List.append_assoc, List.singleton_append]

end History

namespace Eval

/-- How a computation ends but for the history: a value or a failure, the variables and the
arrays. -/
abbrev Ending (α : Type) := EStateM.Result Failure (Environment × Heap) α

/-- An ending with the history of the run. -/
def Ending.withHistory {α : Type} (ending : Ending α) (history : History) :
    EStateM.Result Failure State α :=
  match ending with
  | .ok a (environment, heap) => .ok a ⟨environment, heap, history⟩
  | .error failure (environment, heap) => .error failure ⟨environment, heap, history⟩

/-- The ending of a computation, without its history. -/
def Ending.ofResult {α : Type} : EStateM.Result Failure State α → Ending α
  | .ok a s => .ok a (s.environment, s.heap)
  | .error failure s => .error failure (s.environment, s.heap)

theorem Ending.ofResult_withHistory {α : Type} (ending : Ending α) (history : History) :
    ofResult (ending.withHistory history) = ending := by
  cases ending <;> rfl

/-- How a run ends, from the ending of its program. -/
def Ending.result : Ending Unit → Except Failure (List (String × Snapshot))
  | .ok () (environment, heap) => .ok (environment.snapshot heap)
  | .error failure _ => .error failure

/-- A computation that emits certain events and ends in a certain way, whatever its history. -/
def Emits {α : Type} (m : Eval α) (environment : Environment) (heap : Heap) (ending : Ending α)
    (events : List Event) : Prop :=
  ∀ history, m ⟨environment, heap, history⟩ = ending.withHistory (history.recordAll events)

/-- A computation that does not look at the history. -/
def Oblivious {α : Type} (m : Eval α) : Prop :=
  ∀ environment heap, ∃ ending events, m.Emits environment heap ending events

namespace Emits

variable {α β : Type} {m : Eval α} {environment : Environment} {heap : Heap} {events : List Event}

/-- A computation has one ending. -/
theorem ending_unique {ending ending' : Ending α} {events' : List Event}
    (h : m.Emits environment heap ending events) (h' : m.Emits environment heap ending' events') :
    ending = ending' := by
  have heq := (h (.empty .keepAll)).symm.trans (h' (.empty .keepAll))
  rw [← Ending.ofResult_withHistory ending, heq, Ending.ofResult_withHistory]

theorem bind {k : α → Eval β} {a : α} {environment' : Environment} {heap' : Heap}
    {ending : Ending β} {later : List Event}
    (hm : m.Emits environment heap (.ok a (environment', heap')) events)
    (hk : (k a).Emits environment' heap' ending later) :
    (m >>= k).Emits environment heap ending (events ++ later) := by
  intro history
  show EStateM.bind m k _ = _
  rw [EStateM.bind, hm, History.recordAll_append]
  exact hk (history.recordAll events)

theorem bind_error {k : α → Eval β} {failure : Failure} {s : Environment × Heap}
    (hm : m.Emits environment heap (.error failure s) events) :
    (m >>= k).Emits environment heap (.error failure s) events := by
  intro history
  show EStateM.bind m k _ = _
  rw [EStateM.bind, hm]
  rfl

theorem atNode {a : α} {s : Environment × Heap} (nodeType : String) (line : Option UInt32)
    (hm : m.Emits environment heap (.ok a s) events) :
    (Eval.atNode nodeType line m).Emits environment heap (.ok a s) events := by
  intro history
  rw [Eval.atNode, hm]
  rfl

theorem atNode_error {failure : Failure} {s : Environment × Heap} (nodeType : String)
    (line : Option UInt32) (hm : m.Emits environment heap (.error failure s) events) :
    (Eval.atNode nodeType line m).Emits environment heap
      (.error (failure.atNode nodeType line) s) events := by
  intro history
  rw [Eval.atNode, hm]
  rfl

end Emits

theorem Oblivious.bind {α β : Type} {m : Eval α} {k : α → Eval β} (hm : Oblivious m)
    (hk : ∀ a, Oblivious (k a)) : Oblivious (m >>= k) := by
  intro environment heap
  obtain ⟨ending, events, hm⟩ := hm environment heap
  cases ending with
  | error failure s => exact ⟨_, _, hm.bind_error⟩
  | ok a s =>
    obtain ⟨ending, later, hk⟩ := hk a s.1 s.2
    exact ⟨_, _, hm.bind hk⟩

theorem Oblivious.atNode {α : Type} (nodeType : String) (line : Option UInt32) {m : Eval α}
    (hm : Oblivious m) : Oblivious (Eval.atNode nodeType line m) := by
  intro environment heap
  obtain ⟨ending, events, hm⟩ := hm environment heap
  cases ending with
  | error failure s => exact ⟨_, _, hm.atNode_error nodeType line⟩
  | ok a s => exact ⟨_, _, hm.atNode nodeType line⟩

/-- Recording is the only step that touches the history, and it only adds to it. -/
theorem compositional_oblivious : Compositional Oblivious where
  pure a environment heap := ⟨.ok a (environment, heap), [], fun _ ↦ rfl⟩
  plain {_ cause} _ environment heap :=
    ⟨.error (.ofCause cause) (environment, heap), [], fun _ ↦ rfl⟩
  fail cause environment heap := ⟨.error (.ofCause cause) (environment, heap), [], fun _ ↦ rfl⟩
  bind := Oblivious.bind
  atNode := Oblivious.atNode
  heap environment heap := ⟨.ok heap (environment, heap), [], fun _ ↦ rfl⟩
  lookup? name environment heap :=
    ⟨.ok (environment.get? name) (environment, heap), [], fun _ ↦ rfl⟩
  define name v environment heap := ⟨.ok () (environment.define name v, heap), [], fun _ ↦ rfl⟩
  write array slot v environment heap :=
    ⟨.ok () (environment, heap.write array slot v), [], fun _ ↦ rfl⟩
  allocate elements environment heap :=
    ⟨.ok heap.nextId (environment, heap.allocate elements), [], fun _ ↦ rfl⟩
  record line details environment heap :=
    ⟨.ok () (environment, heap), [⟨line, details⟩], fun _ ↦ rfl⟩

end Eval

namespace Program

/-- Programs emit the same events and end in the same way whatever is made of the events. -/
theorem oblivious_exec (config : Config) (p : Program) : Eval.Oblivious (p.exec config) :=
  Eval.compositional_oblivious.exec config p

/-- What a run leaves: its program adds the events to an empty history. -/
theorem runFrom_of_emits {config : Config} {p : Program} {environment : Environment} {heap : Heap}
    {ending : Eval.Ending Unit} {events : List Event}
    (h : (p.exec config).Emits environment heap ending events) :
    let outcome := p.runFrom config environment heap
    outcome.result = ending.result ∧
      outcome.events = ((History.empty config.policy).recordAll events).events.toList := by
  have hrun : p.exec config (.start config environment heap) = _ := h _
  rw [runFrom, hrun]
  cases ending with
  | ok a s => exact ⟨rfl, rfl⟩
  | error failure s => exact ⟨rfl, rfl⟩

end Program

end ScriptTrace
