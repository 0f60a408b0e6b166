import ScriptTrace.Eval.Run

/-!
# The state in which a computation ends

A computation leaves a state whether it succeeds or fails. `Eval.endState` is that state, so that
what holds of both ends can be said once. The equations here say how it is made up when computations
are joined: a failure of the first leaves the state in which it happened.
-/

namespace ScriptTrace

namespace Eval

variable {α β : Type} {m : Eval α} {s t : State}

/-- The state that a computation leaves, also when it fails. -/
def endState (m : Eval α) (s : State) : State :=
  match m s with
  | .ok _ t => t
  | .error _ t => t

theorem endState_of_ok {a : α} (h : m s = .ok a t) : m.endState s = t := by
  rw [endState, h]

theorem endState_of_error {failure : Failure} (h : m s = .error failure t) :
    m.endState s = t := by
  rw [endState, h]

@[simp] theorem endState_pure (a : α) (s : State) : (pure a : Eval α).endState s = s := rfl

@[simp] theorem endState_ofExcept (e : Except Cause α) (s : State) :
    (ofExcept e).endState s = s := by
  rcases e with cause | a
  · rfl
  · rfl

theorem bind_of_ok {k : α → Eval β} {a : α} (h : m s = .ok a t) : (m >>= k) s = k a t := by
  change EStateM.bind m k s = _
  rw [EStateM.bind, h]

theorem bind_of_error {k : α → Eval β} {failure : Failure} (h : m s = .error failure t) :
    (m >>= k) s = .error failure t := by
  change EStateM.bind m k s = _
  rw [EStateM.bind, h]

theorem endState_bind_of_ok {k : α → Eval β} {a : α} (h : m s = .ok a t) :
    (m >>= k).endState s = (k a).endState t := by
  rw [endState, endState, bind_of_ok h]

theorem endState_bind_of_error {k : α → Eval β} {failure : Failure}
    (h : m s = .error failure t) : (m >>= k).endState s = t :=
  endState_of_error (bind_of_error h)

theorem exists_of_bind_ok {k : α → Eval β} {b : β} (h : (m >>= k) s = .ok b t) :
    ∃ a u, m s = .ok a u ∧ k a u = .ok b t := by
  rcases hm : m s with ⟨a, u⟩ | ⟨failure, u⟩
  · rw [bind_of_ok hm] at h
    exact ⟨a, u, rfl, h⟩
  · rw [bind_of_error hm] at h
    cases h

theorem exists_of_ofExcept_bind_ok {e : Except Cause α} {k : α → Eval β} {b : β}
    (h : (ofExcept e >>= k) s = .ok b t) : ∃ a, e = .ok a ∧ k a s = .ok b t := by
  rcases e with cause | a
  · cases h
  · exact ⟨a, rfl, h⟩

/-- A computation succeeds if its parts do, one after the other. -/
theorem bind_eq_ok_iff {k : α → Eval β} {b : β} :
    (m >>= k) s = .ok b t ↔ ∃ a u, m s = .ok a u ∧ k a u = .ok b t := by
  constructor
  · exact exists_of_bind_ok
  · rintro ⟨a, u, hm, hk⟩
    rw [bind_of_ok hm, hk]

theorem bind_pure_eq_ok_iff {f : α → β} {b : β} :
    (m >>= fun a ↦ pure (f a)) s = .ok b t ↔ ∃ a, m s = .ok a t ∧ f a = b := by
  rw [bind_eq_ok_iff]
  constructor
  · rintro ⟨a, u, hm, hf⟩
    cases hf
    exact ⟨a, hm, rfl⟩
  · rintro ⟨a, hm, rfl⟩
    exact ⟨a, t, hm, rfl⟩

theorem exists_bind_pure_iff {f : α → β} :
    (∃ b, (m >>= fun a ↦ pure (f a)) s = .ok b t) ↔ ∃ a, m s = .ok a t := by
  simp only [bind_pure_eq_ok_iff]
  constructor
  · rintro ⟨-, a, hm, -⟩
    exact ⟨a, hm⟩
  · rintro ⟨a, hm⟩
    exact ⟨f a, a, hm, rfl⟩

/-- A last step that only makes a result leaves the state as it is. -/
theorem endState_bind_pure (m : Eval α) (f : α → β) (s : State) :
    (m >>= fun a ↦ pure (f a)).endState s = m.endState s := by
  rcases h : m s with ⟨a, t⟩ | ⟨failure, t⟩
  · rw [endState_bind_of_ok h, endState_of_ok h, endState_pure]
  · rw [endState_bind_of_error h, endState_of_error h]

/-- Naming a node changes failures, but not the state. -/
@[simp] theorem endState_atNode (nodeType : String) (line : Option UInt32) (m : Eval α)
    (s : State) : (atNode nodeType line m).endState s = m.endState s := by
  rw [endState, endState, atNode]
  rcases m s with ⟨a, t⟩ | ⟨failure, t⟩
  · rfl
  · rfl

theorem atNode_of_ok {nodeType : String} {line : Option UInt32} {a : α} (h : m s = .ok a t) :
    atNode nodeType line m s = .ok a t := by
  rw [atNode, h]

/-- Naming a node does not change successes. -/
theorem atNode_eq_ok_iff {nodeType : String} {line : Option UInt32} {a : α} :
    atNode nodeType line m s = .ok a t ↔ m s = .ok a t := by
  constructor
  · intro h
    rw [atNode] at h
    rcases hm : m s with ⟨b, u⟩ | ⟨failure, u⟩
    · rwa [hm] at h
    · rw [hm] at h
      cases h
  · exact atNode_of_ok

/-- Whether a computation succeeds with a result and in a state of a kind. -/
def succeedsIn (m : Eval α) (s : State) (p : α → State → Bool) : Bool :=
  match m s with
  | .ok a t => p a t
  | .error .. => false

theorem exists_of_succeedsIn {p : α → State → Bool} (h : m.succeedsIn s p = true) :
    ∃ a t, m s = .ok a t ∧ p a t = true := by
  rw [succeedsIn] at h
  rcases hm : m s with ⟨a, t⟩ | ⟨failure, t⟩
  · rw [hm] at h
    exact ⟨a, t, rfl, h⟩
  · rw [hm] at h
    cases h

end Eval

end ScriptTrace
