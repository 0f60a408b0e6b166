import ScriptTrace.Proofs.Evaluations
import ScriptTrace.Proofs.HeapNumbers
import ScriptTrace.Proofs.IdiomRun
import ScriptTrace.Proofs.Visits

/-!
# What a run keeps up

An `Upkeep` says what is to hold of the states of a run, what is to hold of the values in it, and
how the arrays of an earlier state are to be found in a later one, together with the proofs that the
single steps of a run keep this up. Assignments and steps come in two kinds, binding a name and
writing to a slot; an upkeep need not admit both. But it always allows a name to be bound if that is
recorded at once.

`Eval.Upholds` says of a computation, and of the state in which it starts, that it keeps this up to
its end, through all evaluations that it consists of. The lemmas here are about everything that does
not look into the tree.
-/

namespace ScriptTrace

/-! ## Effects -/

/-- What an assignment or a step changes. -/
inductive Effect where
  /-- What a name is bound to. -/
  | bind
  /-- What is in a slot of an array. -/
  | write
deriving DecidableEq

namespace Expr

/-- What an assignment or a step changes that has an expression as its target. -/
def targetEffect? : Expr → Option Effect
  | identifier .. => some .bind
  | index .. => some .write
  | _ => none

/-- What an expression changes itself, apart from the expressions in it. -/
def effect? : Expr → Option Effect
  | update _ target _ _ | assign _ target _ _ => target.targetEffect?
  | _ => none

/-- Whether an expression, or one in it, has an effect. -/
def does (effect : Effect) (e : Expr) : Bool :=
  (e.nodes fun _ ↦ false).any (·.effect? = some effect)

/-- Whether an expression in an expression has an effect. -/
def doesInside (effect : Effect) (e : Expr) : Bool := e.children.any (does effect)

theorem does_eq_or (effect : Effect) (e : Expr) :
    e.does effect = (decide (e.effect? = some effect) || e.doesInside effect) := by
  rw [does, nodes_eq_cons, List.any_cons, List.any_flatMap]
  rfl

theorem does_of_effect? {effect : Effect} {e : Expr} (h : e.effect? = some effect) :
    e.does effect = true := by
  rw [does_eq_or, decide_eq_true h, Bool.true_or]

theorem doesInside_of_mem_children {effect : Effect} {e c : Expr} (hc : c ∈ e.children)
    (h : c.does effect = true) : e.doesInside effect = true :=
  List.any_eq_true.mpr ⟨c, hc, h⟩

theorem does_of_doesInside {effect : Effect} {e : Expr} (h : e.doesInside effect = true) :
    e.does effect = true := by
  rw [does_eq_or, h, Bool.or_true]

theorem isStable_children {changed : List String} {e : Expr} (h : e.isStable changed = true) :
    e.effect? = none ∧ ∀ c ∈ e.children, c.isStable changed = true := by
  cases e with
  | literal | identifier => exact ⟨rfl, nofun⟩
  | binary | logical | unary | conditional => exact ⟨rfl, by simp_all [isStable, children]⟩
  | update | assign | array | index | property | call | unsupported => cases h

/-- Literals, names and operators have no effects. -/
theorem does_of_isStable {changed : List String} {e : Expr} (h : e.isStable changed = true)
    (effect : Effect) : e.does effect = false := by
  induction e using induction_of_children with
  | h e ih =>
    obtain ⟨heffect, hchildren⟩ := isStable_children h
    rw [does_eq_or, heffect, doesInside, List.any_eq_false.mpr]
    · rfl
    · intro c hc
      rw [ih c hc (hchildren c hc)]
      exact Bool.false_ne_true

end Expr

/-! ## Places and exchanges that can be used -/

namespace Place

/-- What a write to a place changes. -/
def effect : Place → Effect
  | named _ => .bind
  | slot .. => .write

/-- Whether a place is there: a slot has to be one of its array. -/
def Found (p : Place) (h : Heap) : Prop :=
  match p with
  | named _ => True
  | slot _ id i => i < h.length id

end Place

namespace Exchange

/-- Whether both slots of an exchange are there. -/
structure Found (x : Exchange) (h : Heap) : Prop where
  first : x.first < (h.elements x.array).size
  second : x.second < (h.elements x.array).size

/-- The arrays after an exchange. -/
def exchanged (x : Exchange) (h : Heap) : Heap :=
  (h.write x.array x.first (h.read x.array x.second)).write x.array x.second
    (h.read x.array x.first)

end Exchange

/-- The name that an event says is bound, and the copy of what it is bound to. -/
def Details.binding? : Details → Option (String × Snapshot)
  | declare name value | loopUpdate name value | assign name value => some (name, value)
  | _ => none

/-! ## Upkeeps -/

/-- A property of states, one of values and one of earlier and later arrays that the steps of a run
keep up, those of programs that only have effects which are admitted. -/
structure Upkeep where
  Valid : State → Prop
  Fits : Heap → Value → Prop
  Leads : Heap → Heap → Prop
  leads_refl (h : Heap) : Leads h h
  leads_trans {h₁ h₂ h₃ : Heap} (h : Leads h₁ h₂) (h' : Leads h₂ h₃) : Leads h₁ h₃
  fits_of_leads {h h' : Heap} {v : Value} (hv : Fits h v) (hleads : Leads h h') : Fits h' v
  fits_plain (h : Heap) {v : Value} (hv : ∀ id, v ≠ .array id) : Fits h v
  fits_get {s : State} {name : String} {v : Value} (hs : Valid s)
    (hv : s.environment.get? name = some v) : Fits s.heap v
  fits_read {s : State} (hs : Valid s) (id : ArrayId) (slot : Nat) :
    Fits s.heap (s.heap.read id slot)
  leads_allocate (h : Heap) (elements : Array Value) : Leads h (h.allocate elements)
  fits_allocate (h : Heap) (elements : Array Value) :
    Fits (h.allocate elements) (.array h.nextId)
  allocate {s : State} {elements : Array Value} (hs : Valid s)
    (helements : ∀ v ∈ elements, Fits s.heap v) :
    Valid { s with heap := s.heap.allocate elements }
  leads_exchange {x : Exchange} {h : Heap} (hx : x.Found h) : Leads h (x.exchanged h)
  exchange {x : Exchange} {s : State} (hs : Valid s) (hx : x.Found s.heap) :
    Valid { s with heap := x.exchanged s.heap }
  record {s : State} (hs : Valid s) (line : Option UInt32) {details : Details}
    (hdetails : details.binding? = none) :
    Valid { s with history := s.history.record ⟨line, details⟩ }
  /-- Binding a name and recording it. -/
  bindRecorded {s : State} {name : String} {v : Value} (hs : Valid s) (hv : Fits s.heap v)
    (line : Option UInt32) {details : Details}
    (hdetails : details.binding? = some (name, s.heap.snapshot v)) :
    Valid { s with
      environment := s.environment.define name v
      history := s.history.record ⟨line, details⟩ }

/-- Whether the steps that have an effect keep up what an upkeep asks for. -/
def Upkeep.Admits (U : Upkeep) : Effect → Prop
  | .bind => ∀ s name v, U.Valid s → U.Fits s.heap v →
    U.Valid { s with environment := s.environment.define name v }
  | .write => ∀ s id slot v, U.Valid s → U.Fits s.heap v → slot < s.heap.length id →
    U.Leads s.heap (s.heap.write id slot v) ∧ U.Valid { s with heap := s.heap.write id slot v }

namespace Eval

variable {α β : Type}

/-- Whether a computation keeps up what an upkeep asks for: from a state to the one that it leaves,
in its result, and through all evaluations that it consists of. Among these are the evaluations that
have made the new arrays. -/
structure Upholds (U : Upkeep) (s : State) (visits : List Evaluation) (Q : Heap → α → Prop)
    (m : Eval α) : Prop where
  valid : U.Valid (m.endState s)
  leads : U.Leads s.heap (m.endState s).heap
  result {a : α} {t : State} (h : m s = .ok a t) : Q t.heap a
  visited {v : Evaluation} (hv : v ∈ visits) : U.Leads s.heap v.start.heap ∧
    U.Leads v.start.heap v.stop.heap ∧ U.Leads v.stop.heap (m.endState s).heap
  created {id : ArrayId} (hold : s.heap.nextId ≤ id) (hnew : id < (m.endState s).heap.nextId) :
    ∃ v ∈ visits, v.Creates id

namespace Upholds

variable {U : Upkeep} {s : State} {visits : List Evaluation} {Q : Heap → α → Prop}
  {Q' : Heap → β → Prop} {m : Eval α} {k : α → Eval β}

/-! ## Joining computations -/

/-- Only what happens in the state counts. -/
theorem of_eq {m' : Eval α} (hm : m'.Upholds U s visits Q) (h : m s = m' s) :
    m.Upholds U s visits Q := by
  have hend : m.endState s = m'.endState s := by rw [endState, endState, h]
  refine ⟨?_, ?_, fun hok ↦ hm.result (h ▸ hok), fun hv ↦ ?_, fun hold hnew ↦ ?_⟩
  · exact hend ▸ hm.valid
  · exact hend ▸ hm.leads
  · exact hend ▸ hm.visited hv
  · exact hm.created hold (hend ▸ hnew)

/-- Nothing is to be kept up where nothing changes. -/
theorem still (hs : U.Valid s) (hstill : m.endState s = s)
    (hQ : ∀ a, m s = .ok a s → Q s.heap a) : m.Upholds U s [] Q := by
  refine ⟨by rwa [hstill], ?_, fun {a t} h ↦ ?_, nofun, fun hold hnew ↦ ?_⟩
  · rw [hstill]
    exact U.leads_refl _
  · obtain rfl : t = s := (endState_of_ok h).symm.trans hstill
    exact hQ a h
  · rw [hstill] at hnew
    exact absurd hold (Nat.not_le.mpr hnew)

theorem pure {a : α} (hs : U.Valid s) (ha : Q s.heap a) :
    (Pure.pure a : Eval α).Upholds U s [] Q :=
  still hs rfl fun _ h ↦ by cases h; exact ha

theorem fail {cause : Cause} (hs : U.Valid s) : (Eval.fail cause : Eval α).Upholds U s [] Q :=
  still hs rfl fun _ h ↦ nomatch h

theorem ofExcept {e : Except Cause α} (hs : U.Valid s) (h : ∀ a, e = .ok a → Q s.heap a) :
    (Eval.ofExcept e).Upholds U s [] Q := by
  rcases e with cause | a
  · exact fail hs
  · exact pure hs (h a rfl)

theorem mono {P : Heap → α → Prop} (hm : m.Upholds U s visits P) (h : ∀ h a, P h a → Q h a) :
    m.Upholds U s visits Q :=
  ⟨hm.valid, hm.leads, fun hok ↦ h _ _ (hm.result hok), hm.visited, hm.created⟩

theorem atNode (nodeType : String) (line : Option UInt32) (hm : m.Upholds U s visits Q) :
    (Eval.atNode nodeType line m).Upholds U s visits Q := by
  have hend := endState_atNode nodeType line m s
  refine ⟨hend ▸ hm.valid, hend ▸ hm.leads, fun {a t} h ↦ ?_, fun hv ↦ hend ▸ hm.visited hv,
    fun hold hnew ↦ hm.created hold (hend ▸ hnew)⟩
  rw [Eval.atNode] at h
  rcases hm' : m s with ⟨b, u⟩ | ⟨failure, u⟩
  · rw [hm'] at h
    cases h
    exact hm.result hm'
  · rw [hm'] at h
    cases h

/-- What a computation keeps up and what is then kept up from its end. -/
theorem bind {log : Log} {next : α → Log} (hm : m.Upholds U s (log s) Q)
    (hk : ∀ a t, m s = .ok a t → U.Valid t → U.Leads s.heap t.heap → Q t.heap a →
      (k a).Upholds U t (next a t) Q') :
    (m >>= k).Upholds U s (log.andThen m next s) Q' := by
  rcases h : m s with ⟨a, t⟩ | ⟨failure, t⟩
  · have hmid : m.endState s = t := endState_of_ok h
    have hend := endState_bind_of_ok (k := k) h
    have hvisits : log.andThen m next s = log s ++ next a t := by rw [Log.andThen, h]
    have hk := hk a t h (hmid ▸ hm.valid) (hmid ▸ hm.leads) (hm.result h)
    have hleads : U.Leads s.heap t.heap := hmid ▸ hm.leads
    rw [hvisits]
    refine ⟨hend ▸ hk.valid, ?_, fun hok ↦ ?_, fun {v} hv ↦ ?_, fun {id} hold hnew ↦ ?_⟩
    · rw [hend]
      exact U.leads_trans hleads hk.leads
    · rw [bind_of_ok h] at hok
      exact hk.result hok
    · rw [hend]
      rcases List.mem_append.mp hv with hv | hv
      · obtain ⟨hstart, hself, hstop⟩ := hm.visited hv
        rw [hmid] at hstop
        exact ⟨hstart, hself, U.leads_trans hstop hk.leads⟩
      · obtain ⟨hstart, hself, hstop⟩ := hk.visited hv
        exact ⟨U.leads_trans hleads hstart, hself, hstop⟩
    · rw [hend] at hnew
      -- an array is new either in the first part or in the second
      by_cases hfirst : id < t.heap.nextId
      · obtain ⟨v, hv, hcreates⟩ := hm.created hold (hmid ▸ hfirst)
        exact ⟨v, List.mem_append_left _ hv, hcreates⟩
      · obtain ⟨v, hv, hcreates⟩ := hk.created (Nat.le_of_not_lt hfirst) hnew
        exact ⟨v, List.mem_append_right _ hv, hcreates⟩
  · have hend : (m >>= k).endState s = m.endState s :=
      (endState_bind_of_error h).trans (endState_of_error h).symm
    have hvisits : log.andThen m next s = log s := by rw [Log.andThen, h, List.append_nil]
    rw [hvisits]
    refine ⟨hend ▸ hm.valid, hend ▸ hm.leads, fun hok ↦ ?_, fun hv ↦ hend ▸ hm.visited hv,
      fun hold hnew ↦ hm.created hold (hend ▸ hnew)⟩
    rw [bind_of_error h] at hok
    cases hok

/-- As `bind`, with a second part in which nothing is evaluated. -/
theorem bind_quiet (hm : m.Upholds U s visits Q)
    (hk : ∀ a t, m s = .ok a t → U.Valid t → U.Leads s.heap t.heap → Q t.heap a →
      (k a).Upholds U t [] Q') : (m >>= k).Upholds U s visits Q' := by
  have hvisits : Log.andThen (fun _ ↦ visits) m (fun _ _ ↦ []) s = visits := by
    rw [Log.andThen]
    rcases m s with ⟨a, t⟩ | ⟨failure, t⟩
    · exact List.append_nil _
    · exact List.append_nil _
  rw [← hvisits]
  exact bind hm hk

/-- An evaluation that leaves the same arrays can be counted in. -/
theorem cons {e : Expr} (hm : m.Upholds U s visits Q)
    (he : (e.eval.endState s).heap = (m.endState s).heap) :
    m.Upholds U s (⟨e, s⟩ :: visits) Q := by
  refine ⟨hm.valid, hm.leads, hm.result, fun {v} hv ↦ ?_, fun hold hnew ↦ ?_⟩
  · rcases List.mem_cons.mp hv with rfl | hv
    · rw [Evaluation.stop, he]
      exact ⟨U.leads_refl _, hm.leads, U.leads_refl _⟩
    · exact hm.visited hv
  · obtain ⟨v, hv, hcreates⟩ := hm.created hold hnew
    exact ⟨v, List.mem_cons_of_mem _ hv, hcreates⟩

end Upholds

end Eval

end ScriptTrace
