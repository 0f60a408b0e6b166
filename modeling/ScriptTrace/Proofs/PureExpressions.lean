import ScriptTrace.Proofs.ClosedStates
import ScriptTrace.Proofs.ReplayedStates
import ScriptTrace.Proofs.RenamedArrays

/-!
# Pure expressions

An expression without assignments, steps and calls leaves everything as it is. It may make arrays,
but it changes none that is there.

Evaluated again, it makes its arrays again, under other identities. So the second evaluation is the
first with the new arrays renamed: it ends with the same failure, or with a value that has the same
copy. This is shown for any two states that only differ in the identities of their arrays
(`Eval.Equivariant`), and the state that the first evaluation leaves is such a one: all identities
that the first state does not know are moved up.
-/

namespace ScriptTrace

namespace Expr

/-- Whether an expression is an assignment, a step or a call. -/
def isActive : Expr → Bool
  | update .. | assign .. | call .. => true
  | _ => false

/-- Whether there is no assignment, no step and no call in an expression. -/
def IsPure (e : Expr) : Prop := ∀ n ∈ e.nodes fun _ ↦ false, n.isActive = false

instance : DecidablePred IsPure := fun e ↦
  inferInstanceAs (Decidable (∀ n ∈ e.nodes fun _ ↦ false, n.isActive = false))

theorem IsPure.child {e c : Expr} (he : e.IsPure) (hc : c ∈ e.children) : c.IsPure :=
  fun n hn ↦ he n (mem_nodes_of_mem_children hc hn)

theorem IsPure.isActive_eq {e : Expr} (he : e.IsPure) : e.isActive = false := by
  refine he e ?_
  rw [nodes_eq_cons]
  exact List.mem_cons_self

end Expr

/-! ## What is left as it is -/

/-- Whether everything in a state is still there in a later one: the variables, the history and all
arrays, with the same elements. There may be more arrays. -/
structure State.Kept (s t : State) : Prop where
  environment : t.environment = s.environment
  history : t.history = s.history
  heap : s.heap.Within Eq t.heap

namespace State.Kept

variable {s t u : State}

theorem refl (s : State) : s.Kept s := ⟨rfl, rfl, .refl (fun _ ↦ rfl) s.heap⟩

theorem trans (h : s.Kept t) (h' : t.Kept u) : s.Kept u :=
  ⟨h'.environment.trans h.environment, h'.history.trans h.history,
    Heap.Within.trans (fun _ _ _ hle hle' ↦ hle.trans hle') h.heap h'.heap⟩

end State.Kept

namespace Eval

/-- Whether a computation leaves everything as it is, also where it fails. -/
def Quiet {α : Type} (m : Eval α) : Prop := ∀ s : State, s.Kept (m.endState s)

namespace Quiet

variable {α β : Type} {m : Eval α}

theorem of_endState (h : ∀ s, m.endState s = s) : m.Quiet := by
  intro s
  rw [h s]
  exact .refl s

theorem pure (a : α) : (Pure.pure a : Eval α).Quiet := of_endState fun _ ↦ rfl

theorem fail (cause : Cause) : (Eval.fail cause : Eval α).Quiet := of_endState fun _ ↦ rfl

theorem ofExcept (e : Except Cause α) : (Eval.ofExcept e).Quiet :=
  of_endState (endState_ofExcept e)

theorem bind {k : α → Eval β} (hm : m.Quiet) (hk : ∀ a, (k a).Quiet) : (m >>= k).Quiet := by
  intro s
  have hfirst := hm s
  rcases h : m s with ⟨a, t⟩ | ⟨failure, t⟩
  · rw [endState_of_ok h] at hfirst
    rw [endState_bind_of_ok h]
    exact hfirst.trans (hk a t)
  · rw [endState_of_error h] at hfirst
    rwa [endState_bind_of_error h]

theorem atNode (nodeType : String) (line : Option UInt32) (hm : m.Quiet) :
    (Eval.atNode nodeType line m).Quiet := by
  intro s
  rw [endState_atNode]
  exact hm s

theorem heap_bind {k : Heap → Eval β} (hk : ∀ h, (k h).Quiet) : (Eval.heap >>= k).Quiet :=
  bind (of_endState fun _ ↦ rfl) hk

theorem lookup_bind (name : String) {k : Option Value → Eval β} (hk : ∀ v, (k v).Quiet) :
    (Eval.lookup? name >>= k).Quiet :=
  bind (of_endState fun _ ↦ rfl) hk

theorem allocate (elements : Array Value) : (Eval.allocate elements).Quiet := fun s ↦
  ⟨rfl, rfl, Heap.within_allocate (fun _ ↦ rfl) s.heap elements⟩

theorem identifierValue (name : String) : (Expr.identifierValue name).Quiet := by
  refine lookup_bind name fun v ↦ ?_
  cases v with
  | none => exact ofExcept _
  | some v => exact pure v

private theorem arrayIn (object : Expr) (v : Value) : (match v with
    | .array id => Pure.pure id
    | _ => Eval.fail (.undefinedArray object.describe) : Eval ArrayId).Quiet := by
  cases v with
  | array id => exact pure id
  | number | boolean | undefined => exact fail _

theorem arrayOf {object : Expr} {value : Eval Value} (hvalue : value.Quiet) :
    (Eval.arrayOf object value).Quiet := by
  rw [Eval.arrayOf]
  cases object.name? with
  | none => exact bind hvalue (arrayIn object)
  | some name =>
    refine lookup_bind name fun v ↦ ?_
    cases v with
    | none => exact bind (fail _) (arrayIn object)
    | some v => exact bind (pure v) (arrayIn object)

theorem element {object : Expr} {value index : Eval Value} (hvalue : value.Quiet)
    (hindex : index.Quiet) : (Eval.element object value index).Quiet := by
  refine bind (arrayOf hvalue) fun id ↦ bind hindex fun i ↦ heap_bind fun h ↦ ?_
  exact bind (ofExcept _) fun slot ↦ pure _

theorem evalElements {elements : List (Option Expr)}
    (h : ∀ e, some e ∈ elements → e.eval.Quiet) : (Expr.evalElements elements).Quiet := by
  induction elements with
  | nil => exact pure []
  | cons element rest ih =>
    have hrest := ih fun e he ↦ h e (List.mem_cons_of_mem _ he)
    cases element with
    | none => exact bind hrest fun _ ↦ pure _
    | some e => exact bind (h e List.mem_cons_self) fun v ↦ bind hrest fun values ↦ pure _

end Quiet

end Eval

namespace Expr

/-- A pure expression leaves everything as it is, as a value and as a target. -/
theorem IsPure.quiet {e : Expr} (he : e.IsPure) : e.eval.Quiet ∧ e.place.Quiet := by
  induction e using induction_of_children with
  | h e ih =>
    have hpart : ∀ c ∈ e.children, c.eval.Quiet := fun c hc ↦ (ih c hc (he.child hc)).1
    have hactive := he.isActive_eq
    cases e with
    | literal value regex loc => exact ⟨.atNode _ _ (.ofExcept _), .fail _⟩
    | identifier name loc => exact ⟨.atNode _ _ (.identifierValue name), .pure _⟩
    | binary op left right loc =>
      refine ⟨.atNode _ _ (.bind (hpart left List.mem_cons_self) fun a ↦ ?_), .fail _⟩
      refine .bind (hpart right (by simp [children])) fun b ↦ ?_
      exact .heap_bind fun h ↦ .ofExcept _
    | logical op left right loc =>
      refine ⟨.atNode _ _ ?_, .fail _⟩
      split
      · refine .bind (hpart left List.mem_cons_self) fun a ↦ ?_
        split
        · exact hpart right (by simp [children])
        · exact .pure a
      · exact .fail _
    | unary op operand loc =>
      refine ⟨.atNode _ _ (.bind (hpart operand List.mem_cons_self) fun a ↦ ?_), .fail _⟩
      exact .heap_bind fun h ↦ .ofExcept _
    | array elements loc =>
      have hvalues : (evalElements elements).Quiet :=
        .evalElements fun e he ↦ hpart e (by simpa [children] using he)
      refine ⟨.atNode _ _ (.bind hvalues fun values ↦ ?_), .fail _⟩
      exact .bind (.allocate _) fun id ↦ .pure _
    | index object i loc =>
      have helement : (Eval.element object object.eval i.eval).Quiet :=
        .element (hpart object List.mem_cons_self) (hpart i (by simp [children]))
      exact ⟨.atNode _ _ (.bind helement fun p ↦ .of_endState p.endState_read), helement⟩
    | property object name loc =>
      refine ⟨.atNode _ _ (.bind (hpart object List.mem_cons_self) fun v ↦ ?_), .fail _⟩
      exact .heap_bind fun h ↦ .ofExcept _
    | conditional test consequent alternate loc =>
      refine ⟨.atNode _ _ (.bind (hpart test List.mem_cons_self) fun a ↦ ?_), .fail _⟩
      split
      · exact hpart consequent (by simp [children])
      · exact hpart alternate (by simp [children])
    | unsupported nodeType loc => exact ⟨.atNode _ _ (.fail _), .fail _⟩
    | update | assign | call => cases hactive

end Expr

/-! ## States with renamed arrays -/

/-- Whether two states differ in nothing but the identities of their arrays. -/
structure State.Renamed (σ : ArrayId → ArrayId) (s s' : State) : Prop where
  get? (name : String) :
    s'.environment.get? name = (s.environment.get? name).map (Value.rename σ)
  heap : s.heap.Renamed σ s'.heap
  history : s'.history = s.history

/-- The place with its array, if it is a slot, under another identity. -/
def Place.rename (σ : ArrayId → ArrayId) : Place → Place
  | named name => named name
  | slot label id i => slot label (σ id) i

namespace Eval

/-- Whether two computations end alike but for the identities of arrays: with results that are
related, or with the same failure. -/
inductive EndsRenamed {α : Type} (σ : ArrayId → ArrayId) (A : α → α → Prop) :
    EStateM.Result Failure State α → EStateM.Result Failure State α → Prop
  | ok {a a' : α} {t t' : State} (ha : A a a') (ht : t.Renamed σ t') :
    EndsRenamed σ A (.ok a t) (.ok a' t')
  | error (failure : Failure) {t t' : State} (ht : t.Renamed σ t') :
    EndsRenamed σ A (.error failure t) (.error failure t')

/-- Whether two computations end alike from states that differ in the identities of their arrays. -/
def Equivariant {α : Type} (σ : ArrayId → ArrayId) (A : α → α → Prop) (m m' : Eval α) : Prop :=
  ∀ s s' : State, s.Renamed σ s' → EndsRenamed σ A (m s) (m' s')

namespace Equivariant

variable {σ : ArrayId → ArrayId} {α β : Type} {A : α → α → Prop} {B : β → β → Prop}
  {m m' : Eval α}

theorem pure {a a' : α} (ha : A a a') :
    Equivariant σ A (Pure.pure a : Eval α) (Pure.pure a') := fun _ _ hs ↦ .ok ha hs

theorem fail (cause : Cause) : Equivariant σ A (Eval.fail cause) (Eval.fail cause) :=
  fun _ _ hs ↦ .error _ hs

theorem ofExcept (σ : ArrayId → ArrayId) (f : α → α) (e : Except Cause α) :
    Equivariant σ (fun a a' ↦ a' = f a) (Eval.ofExcept e) (Eval.ofExcept (e.map f)) := by
  cases e with
  | ok a => exact pure rfl
  | error cause => exact fail cause

theorem bind {k k' : α → Eval β} (hm : Equivariant σ A m m')
    (hk : ∀ a a', A a a' → Equivariant σ B (k a) (k' a')) :
    Equivariant σ B (m >>= k) (m' >>= k') := by
  intro s s' hs
  have hfirst := hm s s' hs
  rcases h : m s with ⟨a, t⟩ | ⟨failure, t⟩
  · rw [h] at hfirst
    rcases h' : m' s' with ⟨a', t'⟩ | ⟨failure', t'⟩
    · rw [h'] at hfirst
      rw [bind_of_ok h, bind_of_ok h']
      cases hfirst with
      | ok ha ht => exact hk a a' ha t t' ht
    · rw [h'] at hfirst
      cases hfirst
  · rw [h] at hfirst
    rcases h' : m' s' with ⟨a', t'⟩ | ⟨failure', t'⟩
    · rw [h'] at hfirst
      cases hfirst
    · rw [h'] at hfirst
      rw [bind_of_error h, bind_of_error h']
      cases hfirst with
      | error _ ht => exact .error failure ht

theorem atNode (nodeType : String) (line : Option UInt32) (hm : Equivariant σ A m m') :
    Equivariant σ A (Eval.atNode nodeType line m) (Eval.atNode nodeType line m') := by
  intro s s' hs
  have hinner := hm s s' hs
  rw [Eval.atNode, Eval.atNode]
  generalize m s = r at hinner
  generalize m' s' = r' at hinner
  cases hinner with
  | ok ha ht => exact .ok ha ht
  | error failure ht => exact .error _ ht

theorem heap_bind {k k' : Heap → Eval β}
    (hk : ∀ h h', h.Renamed σ h' → Equivariant σ B (k h) (k' h')) :
    Equivariant σ B (Eval.heap >>= k) (Eval.heap >>= k') :=
  fun s s' hs ↦ hk s.heap s'.heap hs.heap s s' hs

theorem lookup_bind (name : String) {k k' : Option Value → Eval β}
    (hk : ∀ v, Equivariant σ B (k v) (k' (v.map (Value.rename σ)))) :
    Equivariant σ B (Eval.lookup? name >>= k) (Eval.lookup? name >>= k') := by
  intro s s' hs
  change EndsRenamed σ B (k (s.environment.get? name) s) (k' (s'.environment.get? name) s')
  rw [hs.get? name]
  exact hk _ s s' hs

theorem allocate (elements : Array Value) :
    Equivariant σ (fun id id' ↦ id' = σ id) (Eval.allocate elements)
      (Eval.allocate (elements.map (Value.rename σ))) := fun _ _ hs ↦
  .ok (hs.heap.next 0).symm ⟨hs.get?, hs.heap.allocate elements, hs.history⟩

theorem identifierValue (name : String) : Equivariant σ (fun v v' ↦ v' = v.rename σ)
    (Expr.identifierValue name) (Expr.identifierValue name) := by
  refine lookup_bind name fun v ↦ ?_
  cases v with
  | some v => exact pure rfl
  | none =>
    -- what a name stands for when it is not bound is no array
    have hplain : (Expr.unboundValue name).map (Value.rename σ) = Expr.unboundValue name := by
      rcases h : Expr.unboundValue name with cause | v
      · rfl
      · exact congrArg Except.ok (Value.rename_plain σ (Expr.unboundValue_ne_array h))
    have hvalue := ofExcept σ (Value.rename σ) (Expr.unboundValue name)
    rwa [hplain] at hvalue

private theorem arrayIn (object : Expr) (v v' : Value) : v' = v.rename σ →
    Equivariant σ (fun id id' ↦ id' = σ id)
      (match v with
        | .array id => Pure.pure id
        | _ => Eval.fail (.undefinedArray object.describe) : Eval ArrayId)
      (match v' with
        | .array id => Pure.pure id
        | _ => Eval.fail (.undefinedArray object.describe)) := by
  rintro rfl
  cases v with
  | array id => exact pure rfl
  | number | boolean | undefined => exact fail _

theorem arrayOf (object : Expr) {value value' : Eval Value}
    (hvalue : Equivariant σ (fun v v' ↦ v' = v.rename σ) value value') :
    Equivariant σ (fun id id' ↦ id' = σ id) (Eval.arrayOf object value)
      (Eval.arrayOf object value') := by
  rw [Eval.arrayOf, Eval.arrayOf]
  cases object.name? with
  | none => exact bind hvalue (arrayIn object)
  | some name =>
    refine lookup_bind name fun v ↦ ?_
    cases v with
    | none => exact bind (A := fun v v' ↦ v' = v.rename σ) (fail _) (arrayIn object)
    | some v => exact bind (pure rfl) (arrayIn object)

theorem element (object : Expr) {value value' index index' : Eval Value}
    (hvalue : Equivariant σ (fun v v' ↦ v' = v.rename σ) value value')
    (hindex : Equivariant σ (fun v v' ↦ v' = v.rename σ) index index') :
    Equivariant σ (fun p p' ↦ p' = p.rename σ) (Eval.element object value index)
      (Eval.element object value' index') := by
  refine bind (arrayOf object hvalue) fun id id' hid ↦ bind hindex fun i i' hi ↦ ?_
  refine heap_bind fun h h' hσ ↦ ?_
  subst hid
  subst hi
  rw [hσ.length, hσ.resolveIndex]
  cases h.resolveIndex i object.describe (h.length id) with
  | ok slot => exact pure rfl
  | error cause => exact fail cause

theorem read (p : Place) :
    Equivariant σ (fun v v' ↦ v' = v.rename σ) p.read (p.rename σ).read := by
  cases p with
  | named name =>
    refine lookup_bind name fun v ↦ ?_
    cases v with
    | none => exact fail _
    | some v => exact pure rfl
  | slot label id i => exact heap_bind fun h h' hσ ↦ pure (hσ.read id i)

theorem evalElements {elements : List (Option Expr)}
    (h : ∀ e, some e ∈ elements →
      Equivariant σ (fun v v' ↦ v' = v.rename σ) e.eval e.eval) :
    Equivariant σ (fun values values' ↦ values' = values.map (Value.rename σ))
      (Expr.evalElements elements) (Expr.evalElements elements) := by
  induction elements with
  | nil => exact pure rfl
  | cons element rest ih =>
    have hrest := ih fun e he ↦ h e (List.mem_cons_of_mem _ he)
    cases element with
    | none =>
      refine bind hrest fun values values' hvalues ↦ pure ?_
      rw [hvalues]
      rfl
    | some e =>
      refine bind (h e List.mem_cons_self) fun v v' hv ↦ ?_
      refine bind hrest fun values values' hvalues ↦ pure ?_
      rw [hv, hvalues]
      rfl

end Equivariant

end Eval

namespace Expr

variable {σ : ArrayId → ArrayId}

/-- Nothing but its length is a property of a value. -/
theorem propertyValue_of_ne {h : Heap} {object : Value} {name : Expr} {property : String}
    (hname : name.name? = some property) (hproperty : property ≠ "length") :
    propertyValue h object name = .error (.undefinedProperty property object.typeName) := by
  rw [propertyValue.eq_def, hname]
  split
  · contradiction
  · rename_i hlength
    exact absurd (Option.some.inj hlength) hproperty
  · rename_i hother _
    rw [Option.some.inj hother]

/-- What the property of a value is does not depend on the identity of an array. -/
theorem propertyValue_rename {h h' : Heap} (hσ : h.Renamed σ h') (object : Value) (name : Expr) :
    propertyValue h' (object.rename σ) name =
      (propertyValue h object name).map (Value.rename σ) := by
  rcases hname : name.name? with _ | property
  · rw [propertyValue.eq_def, propertyValue.eq_def, hname]
    rfl
  · by_cases hproperty : property = "length"
    · subst hproperty
      rw [propertyValue.eq_def, propertyValue.eq_def, hname]
      cases object with
      | array id =>
        simp only [Value.rename_array, hσ.length]
        rfl
      | number | boolean | undefined => rfl
    · rw [propertyValue_of_ne hname hproperty, propertyValue_of_ne hname hproperty,
        Value.typeName_rename]
      rfl

/-- The values of literals are no arrays. -/
theorem literalValue_rename (value : LiteralValue) (regex : Option Regex) :
    (literalValue value regex).map (Value.rename σ) = literalValue value regex := by
  rcases h : literalValue value regex with cause | v
  · rfl
  · exact congrArg Except.ok (Value.rename_plain σ (literalValue_ne_array h))

/-- A pure expression does the same from states that differ in the identities of their arrays. -/
theorem IsPure.equivariant {e : Expr} (he : e.IsPure) :
    Eval.Equivariant σ (fun v v' ↦ v' = v.rename σ) e.eval e.eval ∧
      Eval.Equivariant σ (fun p p' ↦ p' = p.rename σ) e.place e.place := by
  induction e using induction_of_children with
  | h e ih =>
    have hpart : ∀ c ∈ e.children, Eval.Equivariant σ (fun v v' ↦ v' = v.rename σ) c.eval c.eval :=
      fun c hc ↦ (ih c hc (he.child hc)).1
    have hactive := he.isActive_eq
    cases e with
    | literal value regex loc =>
      have hvalue := Eval.Equivariant.ofExcept σ (Value.rename σ) (literalValue value regex)
      rw [literalValue_rename] at hvalue
      exact ⟨.atNode _ _ hvalue, .fail _⟩
    | identifier name loc => exact ⟨.atNode _ _ (.identifierValue name), .pure rfl⟩
    | binary op left right loc =>
      refine ⟨.atNode _ _ (.bind (hpart left List.mem_cons_self) fun a a' ha ↦ ?_), .fail _⟩
      refine .bind (hpart right (by simp [children])) fun b b' hb ↦ .heap_bind fun h h' hσ ↦ ?_
      rw [ha, hb, hσ.binary]
      exact .ofExcept σ _ _
    | logical op left right loc =>
      refine ⟨.atNode _ _ ?_, .fail _⟩
      split
      · refine .bind (hpart left List.mem_cons_self) fun a a' ha ↦ ?_
        subst ha
        rw [Value.isTruthy_rename]
        split
        · exact hpart right (by simp [children])
        · exact .pure rfl
      · exact .fail _
    | unary op operand loc =>
      refine ⟨.atNode _ _ (.bind (hpart operand List.mem_cons_self) fun a a' ha ↦ ?_), .fail _⟩
      refine .heap_bind fun h h' hσ ↦ ?_
      rw [ha, hσ.unary]
      exact .ofExcept σ _ _
    | array elements loc =>
      have hvalues : Eval.Equivariant σ
          (fun values values' ↦ values' = values.map (Value.rename σ))
          (evalElements elements) (evalElements elements) :=
        .evalElements fun e he ↦ hpart e (by simpa [children] using he)
      refine ⟨.atNode _ _ (.bind hvalues fun values values' h ↦ ?_), .fail _⟩
      have harray : values'.toArray = values.toArray.map (Value.rename σ) := by
        rw [h, List.map_toArray]
      rw [harray]
      refine .bind (.allocate values.toArray) fun id id' hid ↦ .pure ?_
      rw [hid, Value.rename_array]
    | index object i loc =>
      have helement := Eval.Equivariant.element object (hpart object List.mem_cons_self)
        (hpart i (by simp [children]))
      refine ⟨.atNode _ _ (.bind helement fun p p' hp ↦ ?_), helement⟩
      rw [hp]
      exact .read p
    | property object name loc =>
      refine ⟨.atNode _ _ (.bind (hpart object List.mem_cons_self) fun v v' hv ↦ ?_), .fail _⟩
      refine .heap_bind fun h h' hσ ↦ ?_
      rw [hv, propertyValue_rename hσ]
      exact .ofExcept σ _ _
    | conditional test consequent alternate loc =>
      refine ⟨.atNode _ _ (.bind (hpart test List.mem_cons_self) fun a a' ha ↦ ?_), .fail _⟩
      subst ha
      rw [Value.isTruthy_rename]
      split
      · exact hpart consequent (by simp [children])
      · exact hpart alternate (by simp [children])
    | unsupported nodeType loc => exact ⟨.atNode _ _ (.fail _), .fail _⟩
    | update | assign | call => cases hactive

end Expr

/-! ## Later states -/

/-- Identities from `n` on, moved up by `k`. -/
def moveUp (n k id : Nat) : Nat := if id < n then id else id + k

theorem moveUp_of_lt {n id : Nat} (k : Nat) (hid : id < n) : moveUp n k id = id := if_pos hid

theorem moveUp_of_le {n id : Nat} (k : Nat) (hid : n ≤ id) : moveUp n k id = id + k :=
  if_neg (Nat.not_lt.mpr hid)

theorem injective_moveUp (n k : Nat) : Function.Injective (moveUp n k) := by
  intro (id : Nat) (id' : Nat) h
  rw [moveUp, moveUp] at h
  split at h <;> split at h <;> omega

namespace Heap

theorem elements_of_le {h : Heap} {id : ArrayId} (hid : h.nextId ≤ id) : h.elements id = #[] := by
  rw [elements, Array.getD_eq_getD_getElem?, Array.getElem?_eq_none hid, Option.getD_none]

/-- Identities that are known are not moved. -/
theorem Knows.rename_moveUp {h : Heap} {v : Value} (hv : h.Knows v) (k : Nat) :
    v.rename (moveUp h.nextId k) = v := by
  cases v with
  | array id => rw [Value.rename_array, moveUp_of_lt k (hv id rfl)]
  | number | boolean | undefined => rfl

end Heap

/-- A later state in which everything is still there is the earlier one, with the identities that
are not known there moved up. -/
theorem State.Kept.renamed {s t : State} (hs : s.Closed) (h : s.Kept t) :
    s.Renamed (moveUp s.heap.nextId (t.heap.nextId - s.heap.nextId)) t := by
  have hle := h.heap.nextId_le
  refine ⟨fun name ↦ ?_, ⟨injective_moveUp _ _, fun id ↦ ?_, fun k ↦ ?_⟩, h.history⟩
  · rw [h.environment]
    cases hv : s.environment.get? name with
    | none => rfl
    | some v => rw [Option.map_some, (hs.get? hv).rename_moveUp]
  · by_cases hid : id < s.heap.nextId
    · rw [moveUp_of_lt _ hid, ← h.heap.elements hid]
      have hknown : ∀ v ∈ s.heap.elements id, v.rename _ = v :=
        fun v hv ↦ (hs.elements hv).rename_moveUp (t.heap.nextId - s.heap.nextId)
      rw [Array.map_congr_left hknown, Array.map_id']
    · have hid := Nat.le_of_not_lt hid
      have hmoved : t.heap.nextId ≤ id + (t.heap.nextId - s.heap.nextId) := by
        have hsum := Nat.add_le_add_right hid (t.heap.nextId - s.heap.nextId)
        rwa [Nat.add_sub_cancel' hle] at hsum
      rw [moveUp_of_le _ hid, Heap.elements_of_le hid, Heap.elements_of_le hmoved, Array.map_empty]
  · rw [moveUp_of_le _ (Nat.le_add_right _ k), Nat.add_right_comm, Nat.add_sub_cancel' hle]

/-- Whether two evaluations end alike: with values of the same copies, or with the same failure. -/
def Eval.EndsAlike : EStateM.Result Failure State Value → EStateM.Result Failure State Value → Prop
  | .ok v t, .ok v' t' => t.heap.snapshot v = t'.heap.snapshot v'
  | .error failure _, .error failure' _ => failure = failure'
  | _, _ => False

theorem Eval.EndsRenamed.alike {σ : ArrayId → ArrayId}
    {r r' : EStateM.Result Failure State Value}
    (h : EndsRenamed σ (fun v v' ↦ v' = v.rename σ) r r') : EndsAlike r r' := by
  cases h with
  | ok hv ht =>
    rw [EndsAlike, hv]
    exact (ht.heap.snapshot _).symm
  | error failure ht => exact rfl

/-- **Pure expressions have no effect and can be repeated.** However the evaluation of an expression
without assignments, steps and calls ends, the variables, the history and all arrays are what they
were. If it is evaluated again in the state that is left, it ends with the same failure, or with a
value of the same copy. -/
theorem Expr.eval_again {e : Expr} (he : e.IsPure) :
    (∀ s : State, s.Kept (e.eval.endState s)) ∧
      ∀ s : State, s.Closed → Eval.EndsAlike (e.eval s) (e.eval (e.eval.endState s)) :=
  ⟨he.quiet.1, fun s hs ↦ (he.equivariant.1 s _ ((he.quiet.1 s).renamed hs)).alike⟩

theorem State.closed_selfContaining : selfContaining.Closed := by
  refine ⟨fun {name v} hv ↦ ?_, fun {id v} hv ↦ ?_⟩
  · rw [selfContaining, Environment.get?_define] at hv
    split at hv
    · obtain rfl := Option.some.inj hv
      intro id hid
      cases hid
      exact Nat.zero_lt_one
    · cases hv
  · obtain rfl : id = 0 := Nat.lt_one_iff.mp (Heap.lt_nextId_of_mem_elements hv)
    rcases List.mem_pair.mp (Array.mem_toList_iff.mpr hv) with rfl | rfl
    · intro id hid
      cases hid
      exact Nat.zero_lt_one
    · exact Heap.knows_plain _ fun _ ↦ Value.noConfusion

/-- `[a, []]` -/
def Expr.arrayOfTwo : Expr := .ofElements [.ofName "a", .ofElements []]

/-- The second array is not the first, but its copy is, although an array that contains itself is
in it. -/
theorem Expr.eval_again_arrayOfTwo : arrayOfTwo.IsPure ∧ State.selfContaining.Closed ∧
    ∃ v t v' t', arrayOfTwo.eval .selfContaining = .ok v t ∧ State.selfContaining.Kept t ∧
      arrayOfTwo.eval t = .ok v' t' ∧ v' ≠ v ∧ t.heap.snapshot v = t'.heap.snapshot v' := by
  have hpure : arrayOfTwo.IsPure := by decide +kernel
  obtain ⟨hkept, hagain⟩ := eval_again hpure
  have hkept := hkept .selfContaining
  have hagain := hagain _ State.closed_selfContaining
  have hfirst : arrayOfTwo.eval.succeedsIn .selfContaining
      (fun v t ↦ v == .array 2 && arrayOfTwo.eval.succeedsIn t fun v' _ ↦ v' == .array 4) =
        true := by
    decide +kernel
  obtain ⟨v, t, hfirst, hrest⟩ := Eval.exists_of_succeedsIn hfirst
  obtain ⟨hv, hrest⟩ := Bool.and_eq_true_iff.mp hrest
  obtain ⟨v', t', hsecond, hv'⟩ := Eval.exists_of_succeedsIn hrest
  rw [Eval.endState_of_ok hfirst] at hkept hagain
  rw [hfirst, hsecond] at hagain
  refine ⟨hpure, State.closed_selfContaining, v, t, v', t', hfirst, hkept, hsecond, ?_, hagain⟩
  rw [beq_iff_eq.mp hv, beq_iff_eq.mp hv']
  exact fun h ↦ Value.noConfusion h fun h ↦ absurd h (by decide)

end ScriptTrace
