import Mathlib.Tactic.Ring
import ScriptTrace.Proofs.Oblivious

/-!
# Counting events

How many events a computation can emit at most, whatever it starts from. The counts of two
computations add up when they are joined; of two branches the greater one counts. A failure emits
nothing more, so the count of what comes before it still holds.

Only `Eval.record` emits an event. What that adds up to for exchanges, places, writes and loops is
stated here for any counts of the parts of the tree that they run.
-/

namespace ScriptTrace

namespace Eval

/-- Whether a computation emits at most `n` events. -/
def EmitsAtMost {α : Type} (n : Nat) (m : Eval α) : Prop :=
  ∀ environment heap, ∃ ending events, m.Emits environment heap ending events ∧ events.length ≤ n

namespace EmitsAtMost

variable {α β : Type} {n k : Nat} {m : Eval α}

theorem mono (hm : EmitsAtMost n m) (hle : n ≤ k) : EmitsAtMost k m := by
  intro environment heap
  obtain ⟨ending, events, hm, hlength⟩ := hm environment heap
  exact ⟨ending, events, hm, hlength.trans hle⟩

theorem bind {next : α → Eval β} (hm : EmitsAtMost n m) (hnext : ∀ a, EmitsAtMost k (next a)) :
    EmitsAtMost (n + k) (m >>= next) := by
  intro environment heap
  obtain ⟨ending, events, hm, hlength⟩ := hm environment heap
  cases ending with
  | error failure s => exact ⟨_, events, hm.bind_error, hlength.trans (Nat.le_add_right n k)⟩
  | ok a s =>
    obtain ⟨ending, later, hnext, hlater⟩ := hnext a s.1 s.2
    refine ⟨ending, events ++ later, hm.bind hnext, ?_⟩
    rw [List.length_append]
    exact Nat.add_le_add hlength hlater

/-- A first step that emits nothing does not count. -/
theorem silent_bind {next : α → Eval β} (hm : EmitsAtMost 0 m)
    (hnext : ∀ a, EmitsAtMost k (next a)) : EmitsAtMost k (m >>= next) :=
  (hm.bind hnext).mono (Nat.zero_add k).le

/-- Nor does a last one. -/
theorem bind_silent {next : α → Eval β} (hm : EmitsAtMost n m)
    (hnext : ∀ a, EmitsAtMost 0 (next a)) : EmitsAtMost n (m >>= next) :=
  hm.bind hnext

theorem atNode (nodeType : String) (line : Option UInt32) (hm : EmitsAtMost n m) :
    EmitsAtMost n (Eval.atNode nodeType line m) := by
  intro environment heap
  obtain ⟨ending, events, hm, hlength⟩ := hm environment heap
  cases ending with
  | ok a s => exact ⟨_, events, hm.atNode nodeType line, hlength⟩
  | error failure s => exact ⟨_, events, hm.atNode_error nodeType line, hlength⟩

/-! ## Steps -/

theorem of_silent (ending : Environment → Heap → Ending α)
    (hm : ∀ environment heap, m.Emits environment heap (ending environment heap) []) :
    EmitsAtMost n m :=
  fun environment heap ↦ ⟨_, [], hm environment heap, Nat.zero_le n⟩

theorem pure (a : α) : EmitsAtMost n (Pure.pure a : Eval α) :=
  of_silent (fun environment heap ↦ .ok a (environment, heap)) fun _ _ _ ↦ rfl

theorem fail (cause : Cause) : EmitsAtMost n (Eval.fail cause : Eval α) :=
  of_silent (fun environment heap ↦ .error (.ofCause cause) (environment, heap)) fun _ _ _ ↦ rfl

theorem heap : EmitsAtMost 0 Eval.heap :=
  of_silent (fun environment heap ↦ .ok heap (environment, heap)) fun _ _ _ ↦ rfl

theorem lookup? (name : String) : EmitsAtMost 0 (Eval.lookup? name) :=
  of_silent (fun environment heap ↦ .ok (environment.get? name) (environment, heap))
    fun _ _ _ ↦ rfl

theorem define (name : String) (v : Value) : EmitsAtMost 0 (Eval.define name v) :=
  of_silent (fun environment heap ↦ .ok () (environment.define name v, heap)) fun _ _ _ ↦ rfl

theorem write (array : ArrayId) (slot : Nat) (v : Value) :
    EmitsAtMost 0 (Eval.write array slot v) :=
  of_silent (fun environment heap ↦ .ok () (environment, heap.write array slot v))
    fun _ _ _ ↦ rfl

theorem allocate (elements : Array Value) : EmitsAtMost 0 (Eval.allocate elements) :=
  of_silent (fun environment heap ↦ .ok heap.nextId (environment, heap.allocate elements))
    fun _ _ _ ↦ rfl

theorem record (line : Option UInt32) (details : Details) :
    EmitsAtMost 1 (Eval.record line details) :=
  fun environment heap ↦
    ⟨.ok () (environment, heap), [⟨line, details⟩], fun _ ↦ rfl, Nat.le_refl 1⟩

theorem ofExcept (e : Except Cause α) : EmitsAtMost 0 (Eval.ofExcept e) := by
  cases e with
  | ok a => exact .pure a
  | error cause => exact .fail cause

/-! ## Exchanges -/

theorem resolve (name : String) (index1 index2 : Value) :
    EmitsAtMost 0 (Exchange.resolve name index1 index2) := by
  refine (lookup? name).silent_bind fun v ↦ ?_
  split
  · refine heap.silent_bind fun h ↦ ?_
    exact (ofExcept _).silent_bind fun first ↦ (ofExcept _).silent_bind fun second ↦ .pure _
  · exact .fail _

theorem recordHalf (x : Exchange) (line : Option UInt32) : EmitsAtMost 1 (x.recordHalf line) :=
  heap.silent_bind fun _ ↦ record line _

/-- An exchange has two halves. -/
theorem perform (x : Exchange) (line1 line2 : Option UInt32) :
    EmitsAtMost 2 (x.perform line1 line2) := by
  refine heap.silent_bind fun h ↦ ?_
  refine (write _ _ _).silent_bind fun _ ↦ ?_
  refine (recordHalf x line1).bind (k := 1) fun _ ↦ ?_
  refine (write _ _ _).silent_bind fun _ ↦ ?_
  split
  · exact recordHalf x line2
  · exact .pure ()

theorem swap (array : Option Expr) {arguments : Eval (List Value)}
    (harguments : EmitsAtMost n arguments) (line : Option UInt32) :
    EmitsAtMost (n + 2) (Eval.swap array arguments line) := by
  refine (ofExcept _).silent_bind fun name ↦ ?_
  refine harguments.bind fun values ↦ ?_
  refine (resolve name _ _).silent_bind fun x ↦ ?_
  refine heap.silent_bind fun h ↦ ?_
  exact (perform x _ _).bind_silent fun _ ↦ .pure _

theorem plannedSwap {plan : SwapPlan} (hfirst : EmitsAtMost n plan.first.eval)
    (hsecond : EmitsAtMost k plan.second.eval) :
    EmitsAtMost (n + (k + 2)) (Eval.plannedSwap plan) := by
  refine hfirst.bind fun index1 ↦ ?_
  refine hsecond.bind fun index2 ↦ ?_
  exact (resolve plan.array index1 index2).silent_bind fun x ↦ perform x _ _

/-! ## Values, places and writes -/

theorem identifierValue (name : String) : EmitsAtMost 0 (Expr.identifierValue name) := by
  refine (lookup? name).silent_bind fun v ↦ ?_
  cases v with
  | none => exact ofExcept _
  | some v => exact .pure v

private theorem arrayIn (object : Expr) (v : Value) : EmitsAtMost 0 (match v with
    | .array id => Pure.pure id
    | _ => Eval.fail (.undefinedArray object.describe) : Eval ArrayId) := by
  cases v with
  | array id => exact .pure id
  | number _ | boolean _ | undefined => exact .fail _

theorem arrayOf (object : Expr) {value : Eval Value} (hvalue : EmitsAtMost n value) :
    EmitsAtMost n (Eval.arrayOf object value) := by
  rw [Eval.arrayOf]
  cases object.name? with
  | none => exact hvalue.bind_silent (arrayIn object)
  | some name =>
    refine (lookup? name).silent_bind fun v ↦ ?_
    cases v with
    | none => exact (EmitsAtMost.fail _).bind_silent (arrayIn object)
    | some v => exact (EmitsAtMost.pure v).bind_silent (arrayIn object)

theorem element (object : Expr) {value index : Eval Value} (hvalue : EmitsAtMost n value)
    (hindex : EmitsAtMost k index) : EmitsAtMost (n + k) (Eval.element object value index) := by
  refine (arrayOf object hvalue).bind fun id ↦ ?_
  refine hindex.bind_silent fun i ↦ ?_
  refine heap.silent_bind fun h ↦ ?_
  exact (ofExcept _).silent_bind fun slot ↦ .pure _

theorem read (p : Place) : EmitsAtMost 0 p.read := by
  cases p with
  | named name =>
    refine (lookup? name).silent_bind fun v ↦ ?_
    cases v with
    | none => exact .fail _
    | some v => exact .pure v
  | slot label id i => exact heap.silent_bind fun _ ↦ .pure _

theorem writePlace (p : Place) (v : Value) : EmitsAtMost 0 (p.write v) := by
  cases p with
  | named name => exact (define name v).silent_bind fun _ ↦ .pure _
  | slot label id i => exact (write id i v).silent_bind fun _ ↦ .pure _

theorem assign (op : AssignOp) {value : Eval Value} {place : Eval Place}
    (hvalue : EmitsAtMost n value) (hplace : EmitsAtMost k place) :
    EmitsAtMost (n + k) (Eval.assign op value place) := by
  rw [Eval.assign]
  by_cases hsupported : op.isSupported = true
  · rw [if_pos hsupported]
    refine hvalue.bind fun v ↦ hplace.bind_silent fun p ↦ ?_
    cases op.binary? with
    | none => exact writePlace p v
    | some binary =>
      refine (read p).silent_bind fun old ↦ ?_
      refine heap.silent_bind fun h ↦ ?_
      exact (ofExcept _).silent_bind fun new ↦ writePlace p new
  · rw [if_neg hsupported]
    exact .fail _

theorem step (op : UpdateOp) (isBefore : Bool) {place : Eval Place}
    (hplace : EmitsAtMost n place) : EmitsAtMost n (Eval.step op isBefore place) := by
  refine hplace.bind_silent fun p ↦ ?_
  refine (read p).silent_bind fun old ↦ ?_
  refine heap.silent_bind fun h ↦ ?_
  exact (writePlace p _).silent_bind fun written ↦ .pure _

/-! ## Lists of expressions -/

variable {bound : Expr → Nat}

theorem evalElements {elements : List (Option Expr)}
    (h : ∀ e, some e ∈ elements → EmitsAtMost (bound e) e.eval) :
    EmitsAtMost ((elements.filterMap id).map bound).sum (Expr.evalElements elements) := by
  induction elements with
  | nil => exact .pure []
  | cons element rest ih =>
    have hrest := ih fun e he ↦ h e (List.mem_cons_of_mem _ he)
    cases element with
    | none => exact hrest.bind_silent fun _ ↦ .pure _
    | some e =>
      refine (h e List.mem_cons_self).bind fun v ↦ ?_
      exact hrest.bind_silent fun values ↦ .pure _

theorem evalAll {arguments : List Expr} (h : ∀ e ∈ arguments, EmitsAtMost (bound e) e.eval) :
    EmitsAtMost (arguments.map bound).sum (Expr.evalAll arguments) := by
  induction arguments with
  | nil => exact .pure []
  | cons e rest ih =>
    refine (h e List.mem_cons_self).bind fun v ↦ ?_
    exact (ih fun e he ↦ h e (List.mem_cons_of_mem _ he)).bind_silent fun values ↦ .pure _

/-- The first argument is not evaluated, but counting it is no harm. -/
theorem evalAfterFirst {arguments : List Expr}
    (h : ∀ e ∈ arguments, EmitsAtMost (bound e) e.eval) :
    EmitsAtMost (arguments.map bound).sum (Expr.evalAfterFirst arguments) := by
  cases arguments with
  | nil => exact .pure []
  | cons e rest =>
    exact (evalAll fun e he ↦ h e (List.mem_cons_of_mem _ he)).mono (Nat.le_add_left _ _)

/-! ## Loops -/

/-- With `left` rounds left the test runs once more than the body. -/
theorem iterate {test : Eval Bool} {body : Eval Unit} (htest : EmitsAtMost n test)
    (hbody : EmitsAtMost k body) (left ran : Nat) :
    EmitsAtMost ((left + 1) * n + left * k) (Eval.iterate test body left ran) := by
  induction left generalizing ran with
  | zero =>
    have hend : EmitsAtMost n (Eval.iterate test body 0 ran) := by
      refine htest.bind_silent fun proceed ↦ ?_
      split
      · exact .pure _
      · exact .pure _
    exact hend.mono (by omega)
  | succ left ih =>
    have hround : EmitsAtMost (n + (k + ((left + 1) * n + left * k)))
        (Eval.iterate test body (left + 1) ran) := by
      refine htest.bind fun proceed ↦ ?_
      split
      · exact hbody.bind fun _ ↦ ih (ran + 1)
      · exact .pure _
    refine hround.mono (Nat.le_of_eq ?_)
    ring

end EmitsAtMost

end Eval

/-! ## Histories -/

/-- A history grows at most by the events that are added to it. -/
theorem History.length_recordAll_le (h : History) (events : List Event) :
    (h.recordAll events).events.toList.length ≤ h.events.toList.length + events.length := by
  induction events generalizing h with
  | nil => rfl
  | cons e rest ih =>
    refine (ih (h.record e)).trans ?_
    rw [toList_events_record, List.length_append, List.length_cons]
    split
    · rw [List.length_singleton]
      omega
    · rw [List.length_nil]
      omega

end ScriptTrace
