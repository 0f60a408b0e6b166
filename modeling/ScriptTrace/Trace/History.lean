import ScriptTrace.Trace.Event

/-!
# Histories

The events of a run in the order in which they happened. Events are only added. A history keeps
every event, or leaves out one that equals the last it kept.
-/

namespace ScriptTrace

/-- Which events a history keeps. -/
inductive Policy where
  | keepAll
  | skipRepeats
deriving DecidableEq

/-- The events of a run so far. -/
structure History where
  events : Array Event
  policy : Policy

namespace History

/-- A history without events. -/
def empty (policy : Policy) : History := ⟨#[], policy⟩

/-- Whether a history keeps an event. -/
def keeps (h : History) (e : Event) : Bool :=
  match h.policy with
  | .keepAll => true
  | .skipRepeats =>
    match h.events.back? with
    | some last => !last.same e
    | none => true

/-- Add an event, if the history keeps it. -/
def record (h : History) (e : Event) : History :=
  if h.keeps e then { h with events := h.events.push e } else h

@[simp] theorem policy_record (h : History) (e : Event) : (h.record e).policy = h.policy := by
  rw [record]
  split <;> rfl

/-- Recording adds at the end or not at all. -/
theorem toList_events_record (h : History) (e : Event) : (h.record e).events.toList =
    h.events.toList ++ if h.keeps e then [e] else [] := by
  rw [record]
  by_cases hkeeps : h.keeps e = true
  · rw [if_pos hkeeps, if_pos hkeeps, Array.toList_push]
  · rw [if_neg hkeeps, if_neg hkeeps, List.append_nil]

/-- A history as JSON. -/
def toJson (h : History) : Json := .array (h.events.toList.map Event.toJson)

end History

end ScriptTrace
