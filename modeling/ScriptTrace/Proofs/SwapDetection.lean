import ScriptTrace.Proofs.IdiomRun
import ScriptTrace.Syntax.Build

/-!
# Swap detection changes only events

A run with swap detection and a run without it are compared step by step. They go through the same
variables and arrays, and end in the same way but for the place of a failure. Their events differ
where an idiom is run: the writes of the idiom are recorded as the halves of an exchange.

The comparison goes along a tagged run, which tells the writes of idioms from all other events.
`Eval.TransparentAt` relates the three, at given variables and arrays; it is kept by joining
computations, and holds of an idiom by what is known of its writes.
-/

namespace ScriptTrace

open Eval

namespace Eval

/-- Endings that differ at most in the place of a failure. -/
inductive Ending.Alike {α : Type} : Ending α → Ending α → Prop
  | ok (a : α) (s : Environment × Heap) : Alike (.ok a s) (.ok a s)
  | error {f f' : Failure} (s : Environment × Heap) (hcause : f.cause = f'.cause) :
    Alike (.error f s) (.error f' s)

theorem Ending.Alike.refl {α : Type} (ending : Ending α) : ending.Alike ending := by
  cases ending with
  | ok a s => exact .ok a s
  | error f s => exact .error s rfl

/-- Whether a computation without swap detection, one with it and a tagged one agree at given
variables and arrays. -/
def TransparentAt {α : Type} (environment : Environment) (heap : Heap) (off on : Eval α)
    (t : Tagged α) : Prop :=
  ∃ ending ending' tagged events, t (environment, heap) = (ending, tagged) ∧
    off.Emits environment heap ending (tagged.map Prod.fst) ∧
    on.Emits environment heap ending' events ∧
    ending.Alike ending' ∧ Event.Exchanged tagged events

namespace TransparentAt

variable {α β : Type} {environment : Environment} {heap : Heap} {off on : Eval α} {t : Tagged α}

/-- A computation that swap detection has no part in. -/
theorem of_oblivious {m : Eval α} (hm : Oblivious m) :
    TransparentAt environment heap m m (.of false m) := by
  obtain ⟨ending, events, hm⟩ := hm environment heap
  refine ⟨ending, ending, _, events, Tagged.of_emits false hm, ?_, hm, .refl ending,
    .of_untagged events⟩
  rw [List.map_map]
  exact (List.map_id events).symm ▸ hm

theorem pure (a : α) : TransparentAt environment heap (Pure.pure a) (Pure.pure a) (Pure.pure a) :=
  ⟨.ok a (environment, heap), .ok a (environment, heap), [], [], rfl, fun _ ↦ rfl, fun _ ↦ rfl,
    .ok a _, .nil⟩

/-- The computations may go on with what is known of how the first parts ended. -/
theorem bind {k k' : α → Eval β} {l : α → Tagged β}
    (h : TransparentAt environment heap off on t)
    (hk : ∀ a environment' heap' events,
      off.Emits environment heap (.ok a (environment', heap')) events →
      TransparentAt environment' heap' (k a) (k' a) (l a)) :
    TransparentAt environment heap (off >>= k) (on >>= k') (t >>= l) := by
  obtain ⟨ending, ending', tagged, events, ht, hoff, hon, halike, hexchanged⟩ := h
  cases halike with
  | error s hcause =>
    exact ⟨_, _, tagged, events, Tagged.bind_error l ht, hoff.bind_error, hon.bind_error,
      .error s hcause, hexchanged⟩
  | ok a s =>
    obtain ⟨ending, ending', later, events', hl, hoff', hon', halike, hexchanged'⟩ :=
      hk a s.1 s.2 _ hoff
    refine ⟨ending, ending', tagged ++ later, events ++ events', Tagged.bind_ok ht hl, ?_,
      hon.bind hon', halike, hexchanged.append hexchanged'⟩
    rw [List.map_append]
    exact hoff.bind hoff'

theorem atNode (nodeType : String) (line : Option UInt32)
    (h : TransparentAt environment heap off on t) :
    TransparentAt environment heap (Eval.atNode nodeType line off) (Eval.atNode nodeType line on)
      (Tagged.atNode nodeType line t) := by
  obtain ⟨ending, ending', tagged, events, ht, hoff, hon, halike, hexchanged⟩ := h
  cases halike with
  | error s hcause =>
    refine ⟨_, _, tagged, events, ?_, hoff.atNode_error nodeType line,
      hon.atNode_error nodeType line, .error s hcause, hexchanged⟩
    rw [Tagged.atNode, ht]
  | ok a s =>
    refine ⟨_, _, tagged, events, ?_, hoff.atNode nodeType line, hon.atNode nodeType line,
      .ok a s, hexchanged⟩
    rw [Tagged.atNode, ht]

end TransparentAt

/-! ## The writes of an idiom -/

/-- Where the writes of an idiom are ready, running them and running their exchange agree. -/
theorem TransparentAt.of_writes {plan : SwapPlan} {x : plan.Idiom} (hzero : x.NoNegativeZero)
    {environment : Environment} {heap : Heap} {id : ArrayId} {slot : Nat}
    (hready : x.Ready environment heap id slot) (config : Config) {off on : Eval Unit}
    {t : Tagged Unit} (h : ∀ heap', TransparentAt environment heap' off on t) :
    TransparentAt environment heap
      (do
        x.write.exec config
        x.next.exec config
        off)
      (do
        Eval.atNode x.write.nodeType x.write.line (plannedSwap plan)
        on)
      (do
        Tagged.of true (x.write.exec config)
        Tagged.of true (x.next.exec config)
        t) := by
  -- the second index is the first thing of the writes that can fail, in both runs
  cases hsecond : plan.second.shortSlot environment heap plan.array with
  | error cause =>
    obtain ⟨failure, hcause, hwrite⟩ :=
      SwapPlan.Idiom.write_computes_error hzero hsecond config
    obtain ⟨failure', hcause', hplanned⟩ :=
      (SwapPlan.Idiom.plannedSwap_computes_error hready hsecond).atNode x.write.nodeType
        x.write.line
    exact ⟨_, _, [], [], Tagged.bind_error _ (Tagged.of_emits true hwrite), hwrite.bind_error,
      hplanned.bind_error, .error _ (hcause.trans hcause'.symm), .nil⟩
  | ok found =>
    obtain ⟨id', slot'⟩ := found
    obtain rfl : id' = id := by
      have hid := (Expr.shortSlot_eq_ok hsecond).1
      rw [(Expr.shortSlot_eq_ok hready.first).1] at hid
      exact (Except.ok.inj hid).symm
    let heap1 := heap.write id' slot (heap.read id' slot')
    have hwrite := SwapPlan.Idiom.write_emits hzero hready hsecond config
    have hnext := SwapPlan.Idiom.next_emits hready hsecond config
    have hplanned := (SwapPlan.Idiom.plannedSwap_emits hready hsecond).atNode x.write.nodeType
      x.write.line
    obtain ⟨ending, ending', tagged, events, ht, hoff, hon, halike, hexchanged⟩ := h _
    have htagged : (do Tagged.of true (x.next.exec config); t) (environment, heap1) = _ :=
      Tagged.bind_ok (Tagged.of_emits true hnext) ht
    refine ⟨ending, ending', _, _, Tagged.bind_ok (Tagged.of_emits true hwrite) htagged, ?_,
      hplanned.bind hon, halike, ?_⟩
    · exact hwrite.bind (hnext.bind hoff)
    · exact Event.Exchanged.pair plan.firstLine plan.secondLine plan.array slot slot' _ _ _ _
        hexchanged

/-! ## Loops and bodies -/

/-- Agreement at all variables and arrays. -/
def Transparent {α : Type} (off on : Eval α) (t : Tagged α) : Prop :=
  ∀ environment heap, TransparentAt environment heap off on t

theorem Transparent.iterate {test : Eval Bool} {off on : Eval Unit} {t : Tagged Unit}
    (htest : Oblivious test) (hbody : Transparent off on t) (left ran : Nat) :
    Transparent (Eval.iterate test off left ran) (Eval.iterate test on left ran)
      (Tagged.iterate (.of false test) t left ran) := by
  induction left generalizing ran with
  | zero =>
    intro environment heap
    refine (TransparentAt.of_oblivious htest).bind fun proceed _ _ _ _ ↦ ?_
    cases proceed with
    | false => exact .pure _
    | true => exact .pure _
  | succ left ih =>
    intro environment heap
    refine (TransparentAt.of_oblivious htest).bind fun proceed _ _ _ _ ↦ ?_
    cases proceed with
    | false => exact .pure _
    | true => exact (hbody _ _).bind fun _ _ _ _ _ ↦ ih (ran + 1) _ _

theorem Transparent.asBodyOf (s : Stmt) {off on : Eval Unit} {t : Tagged Unit}
    (h : Transparent off on t) :
    Transparent (s.asBodyOf off) (s.asBodyOf on) (s.asTaggedBodyOf t) := by
  intro environment heap
  rw [Stmt.asBodyOf, Stmt.asBodyOf, Stmt.asTaggedBodyOf]
  split
  · exact h environment heap
  · exact (h environment heap).atNode s.nodeType s.line

end Eval

/-! ## Statements in order -/

namespace Stmt

/-- Whether a statement without a plan of its own runs alike with swap detection and without. -/
def IsTransparent (cap : Nat) (s : Stmt) : Prop :=
  Transparent (s.effect (.full cap false) none) (s.effect (.full cap true) none)
    (s.tagged cap none)

section Effects

variable {cap : Nat} {position : Nat} {s : Stmt} {rest : List Stmt}

/-- A statement that is no write of the plan. The statements after it may rely on how it ended. -/
private theorem transparent_cons {plan : Option SwapPlan} (hs : s.IsTransparent cap)
    (hposition : ∀ p, plan = some p → position ≠ p.position ∧ position ≠ p.position + 1)
    {environment : Environment} {heap : Heap}
    (hrest : ∀ environment' heap' events,
      (s.exec (.full cap false)).Emits environment heap (.ok () (environment', heap')) events →
      TransparentAt environment' heap' (effects (.full cap false) none (position + 1) rest)
        (effects (.full cap true) plan (position + 1) rest)
        (taggedAll cap plan (position + 1) rest)) :
    TransparentAt environment heap (effects (.full cap false) none position (s :: rest))
      (effects (.full cap true) plan position (s :: rest))
      (taggedAll cap plan position (s :: rest)) := by
  have htagged : taggedAll cap plan position (s :: rest) = (do
      Tagged.atNode s.nodeType s.line (tagged cap none s)
      taggedAll cap plan (position + 1) rest) := by
    have hwrite : SwapPlan.isWrite plan position = false := by
      cases plan with
      | none => rfl
      | some p => simpa [SwapPlan.isWrite] using hposition p rfl
    rw [taggedAll_cons, hwrite]
    rfl
  rw [effects_cons, effects_cons_of_ne _ hposition, htagged]
  exact ((hs environment heap).atNode s.nodeType s.line).bind fun _ ↦ hrest

/-- Statements without a plan, or past the writes of their plan. -/
theorem transparent_of_past {plan : Option SwapPlan} {body : List Stmt}
    (hbody : ∀ s ∈ body, s.IsTransparent cap)
    (hpast : ∀ p, plan = some p → p.position + 1 < position) :
    Transparent (effects (.full cap false) none position body)
      (effects (.full cap true) plan position body) (taggedAll cap plan position body) := by
  induction body generalizing position with
  | nil =>
    intro environment heap
    rw [effects_nil, effects_nil]
    exact .pure ()
  | cons s rest ih =>
    obtain ⟨hs, hrest⟩ := List.forall_mem_cons.mp hbody
    intro environment heap
    refine transparent_cons hs ?_ ?_
    · intro p hp
      have hlt := hpast p hp
      constructor <;> omega
    · intro environment' heap' events hrun
      refine ih hrest ?_ environment' heap'
      intro p hp
      have hlt := hpast p hp
      omega

/-- The writes of the plan, with the statements after them. -/
private theorem transparent_writes {plan : SwapPlan} {x : plan.Idiom} (hzero : x.NoNegativeZero)
    {environment : Environment} {heap : Heap} {id : ArrayId} {slot : Nat}
    (hready : x.Ready environment heap id slot) {after : List Stmt}
    (hafter : ∀ s ∈ after, s.IsTransparent cap) (hposition : plan.position = position) :
    let body := x.write :: x.next :: after
    TransparentAt environment heap (effects (.full cap false) none position body)
      (effects (.full cap true) (some plan) position body)
      (taggedAll cap (some plan) position body) := by
  intro body
  have htagged : taggedAll cap (some plan) position body = (do
      Tagged.of true (x.write.exec (.full cap false))
      Tagged.of true (x.next.exec (.full cap false))
      taggedAll cap (some plan) (position + 1 + 1) after) := by
    have hwrite : SwapPlan.isWrite (some plan) position = true := by
      simp [SwapPlan.isWrite, hposition]
    have hnext : SwapPlan.isWrite (some plan) (position + 1) = true := by
      simp [SwapPlan.isWrite, hposition]
    rw [taggedAll_cons, taggedAll_cons, hwrite, hnext]
    rfl
  rw [effects_writes _ hposition, htagged]
  refine TransparentAt.of_writes hzero hready (.full cap false) fun heap' ↦ ?_
  refine transparent_of_past hafter ?_ environment heap'
  rintro p ⟨⟩
  omega

theorem transparent_of_forall {body : List Stmt} (hbody : ∀ s ∈ body, s.IsTransparent cap) :
    Transparent (effects (.full cap false) none position body)
      (effects (.full cap true) none position body) (taggedAll cap none position body) := by
  refine transparent_of_past hbody ?_
  rintro p ⟨⟩

/-- Statements among which an idiom stands. -/
theorem transparent_of_idiom {plan : SwapPlan} {x : plan.Idiom} (hzero : x.NoNegativeZero)
    {before after : List Stmt}
    (hbody : ∀ s ∈ before ++ x.capture :: after, s.IsTransparent cap)
    (hposition : plan.position = position + before.length + 1) :
    let body := before ++ x.capture :: x.write :: x.next :: after
    Transparent (effects (.full cap false) none position body)
      (effects (.full cap true) (some plan) position body)
      (taggedAll cap (some plan) position body) := by
  induction before generalizing position with
  | nil =>
    obtain ⟨hcapture, hafter⟩ := List.forall_mem_cons.mp hbody
    have hposition : plan.position = position + 1 := hposition
    intro body environment heap
    refine transparent_cons hcapture ?_ ?_
    · rintro p ⟨⟩
      omega
    · -- the capture has ended, which is what makes the writes ready
      intro environment' heap' events hrun
      obtain ⟨id, slot, hready⟩ := SwapPlan.Idiom.ready_of_capture hzero hrun
      exact transparent_writes hzero hready hafter hposition
  | cons s before ih =>
    obtain ⟨hs, hbody⟩ := List.forall_mem_cons.mp hbody
    rw [List.length_cons] at hposition
    intro body environment heap
    refine transparent_cons hs ?_ ?_
    · rintro p ⟨⟩
      omega
    · intro environment' heap' events hrun
      exact ih hbody (by omega) environment' heap'

end Effects

/-! ## The tree -/

section Tree

variable {cap : Nat}

/-- A statement that swap detection has no part in. -/
private theorem isTransparent_of_leaf {s : Stmt}
    (hon : s.effect (.full cap true) none = s.effect (.full cap false) none)
    (htagged : s.tagged cap none = .of false (s.effect (.full cap false) none)) :
    s.IsTransparent cap := by
  rw [IsTransparent, hon, htagged]
  exact fun _ _ ↦ .of_oblivious (compositional_oblivious.localized.effect _ s)

/-- A consequent, whether there is a plan for it or not. -/
private theorem transparent_consequent (test : Expr) {consequent : Stmt}
    (hzero : (Node.stmt consequent).Everywhere (¬·.IsNegativeZero))
    (hs : ∀ s ∈ consequent :: consequent.asBody, s.IsTransparent cap) :
    Transparent (consequent.effect (.full cap false) none)
      (consequent.effect (.full cap true) (SwapPlan.ofIf? test consequent))
      (consequent.tagged cap (SwapPlan.ofIf? test consequent)) := by
  obtain ⟨hself, hbody⟩ := List.forall_mem_cons.mp hs
  cases hplan : SwapPlan.ofIf? test consequent with
  | none => exact hself
  | some plan =>
    obtain ⟨body, loc, rfl⟩ := SwapPlan.exists_block hplan
    obtain ⟨x, before, after, rfl, hposition⟩ := SwapPlan.exists_idiom hplan
    have hstatement : ∀ s ∈ before ++ x.capture :: x.write :: x.next :: after,
        (Node.stmt s).Everywhere (¬·.IsNegativeZero) :=
      fun s hs ↦ hzero.child (List.mem_map_of_mem hs)
    have hindices : x.NoNegativeZero := SwapPlan.Idiom.noNegativeZero
      (hstatement _ (by simp)) (hstatement _ (by simp)) (hstatement _ (by simp))
    refine transparent_of_idiom hindices (fun s hs ↦ hbody s ?_) ?_
    · simp only [asBody, List.mem_append, List.mem_cons] at hs ⊢
      rcases hs with hs | rfl | hs
      · exact .inl hs
      · exact .inr (.inl rfl)
      · exact .inr (.inr (.inr (.inr hs)))
    · rw [hposition, Nat.zero_add]

/-- Statements, and the statements that they stand for as a body. -/
private theorem isTransparent_and_body (s : Stmt)
    (hzero : (Node.stmt s).Everywhere (¬·.IsNegativeZero)) :
    ∀ s' ∈ s :: s.asBody, s'.IsTransparent cap := by
  have hself : ∀ {s : Stmt}, s.asBody = [s] → s.IsTransparent cap →
      ∀ s' ∈ s :: s.asBody, s'.IsTransparent cap := by
    intro s hbody h s' hs'
    obtain rfl : s' = s := by simpa [hbody] using hs'
    exact h
  -- the statements of a block are carried along for an `if` that has a plan for them
  induction s with
  | declaration d => exact hself rfl (isTransparent_of_leaf rfl rfl)
  | expression e loc => exact hself rfl (isTransparent_of_leaf rfl rfl)
  | empty loc => exact hself rfl (isTransparent_of_leaf rfl rfl)
  | unsupported nodeType loc => exact hself rfl (isTransparent_of_leaf rfl rfl)
  | forLoop init test update body loc ih =>
    have hO := compositional_oblivious
    have hbody : body.IsTransparent cap :=
      ih (hzero.child (by simp [Node.children])) body List.mem_cons_self
    refine hself rfl ?_
    rw [IsTransparent, effect_forLoop, effect_forLoop, tagged_forLoop]
    intro environment heap
    have hinit : Oblivious (ForInit.exec init) := hO.localized.forInit init test update body loc
    refine (TransparentAt.of_oblivious hinit).bind fun _ environment heap _ _ ↦ ?_
    have htest : Oblivious (Expr.holds test) := hO.holds fun e _ ↦ hO.eval e
    have hupdate : Oblivious (loopUpdate (loc.map (·.start.line)) update) :=
      hO.loopUpdate _ fun e _ ↦
        hO.localized.evalWrite (n := .stmt (.expression e none)) List.mem_cons_self
    have hround : Transparent
        (do
          body.asBodyOf (effect (.full cap false) none body)
          loopUpdate (loc.map (·.start.line)) update)
        (do
          body.asBodyOf (effect (.full cap true) none body)
          loopUpdate (loc.map (·.start.line)) update)
        (do
          body.asTaggedBodyOf (tagged cap none body)
          Tagged.of false (loopUpdate (loc.map (·.start.line)) update)) := by
      intro environment heap
      refine (hbody.asBodyOf body environment heap).bind fun _ _ _ _ _ ↦ ?_
      exact TransparentAt.of_oblivious hupdate
    refine (hround.iterate htest cap 0 environment heap).bind fun stopped _ _ _ _ ↦ ?_
    exact TransparentAt.of_oblivious (hO.record _ _)
  | ifThen test consequent alternate loc hconsequent halternate =>
    have hO := compositional_oblivious
    refine hself rfl ?_
    rw [IsTransparent, effect_ifThen, effect_ifThen, tagged_ifThen]
    intro environment heap
    refine (TransparentAt.of_oblivious (hO.eval test)).bind fun v environment heap _ _ ↦ ?_
    refine (TransparentAt.of_oblivious (hO.record _ _)).bind fun _ environment heap _ _ ↦ ?_
    cases v.isTruthy with
    | true =>
      have hzero' := hzero.child (c := .stmt consequent) (by simp [Node.children])
      have hbody := transparent_consequent test hzero' (hconsequent hzero')
      exact hbody.asBodyOf consequent environment heap
    | false =>
      cases alternate with
      | none => exact .pure ()
      | some s =>
        have hs : s.IsTransparent cap := halternate s rfl
          (hzero.child (by simp [Node.children])) s List.mem_cons_self
        exact hs.asBodyOf s environment heap
  | block body loc ih =>
    have hbody : ∀ s ∈ body, s.IsTransparent cap := fun s hs ↦
      ih s hs (hzero.child (List.mem_map_of_mem hs)) s List.mem_cons_self
    have hblock : (block body loc).IsTransparent cap := by
      rw [IsTransparent, effect_block, effect_block, tagged_block]
      exact transparent_of_forall hbody
    exact List.forall_mem_cons.mpr ⟨hblock, hbody⟩

/-- Statements without a negative zero in them. -/
theorem transparent_execAll (cap : Nat) {body : List Stmt}
    (hzero : ∀ s ∈ body, (Node.stmt s).Everywhere (¬·.IsNegativeZero)) :
    Transparent (execAll (.full cap false) body) (execAll (.full cap true) body)
      (taggedAll cap none 0 body) :=
  transparent_of_forall fun s hs ↦ isTransparent_and_body s (hzero s hs) s List.mem_cons_self

end Tree

end Stmt

/-! ## Programs -/

namespace Program

variable {p : Program}

/-- **Swap detection is transparent.** Without a negative zero among the literals, a run with swap
detection and a run without it end with the same variables, or fail with the same cause. The events
of the run without it are those of a tagged run, and with it the writes of idioms, which are tagged,
become exchanges. -/
theorem runFrom_swapDetection (hzero : Visit.All (¬·.IsNegativeZero) p.visits) (cap : Nat)
    (environment : Environment) (heap : Heap) :
    let on := p.runFrom (.full cap true) environment heap
    let off := p.runFrom (.full cap false) environment heap
    on.result.mapError Failure.cause = off.result.mapError Failure.cause ∧
      (p.taggedEvents cap environment heap).map Prod.fst = off.events ∧
      Event.Exchanged (p.taggedEvents cap environment heap) on.events := by
  intro on off
  obtain ⟨ending, ending', tagged, events, htagged, hoff, hon, halike, hexchanged⟩ :=
    Stmt.transparent_execAll cap (everywhere_of_visits hzero) environment heap
  obtain ⟨hresult, hevents⟩ := runFrom_of_emits (p := p) hoff
  obtain ⟨hresult', hevents'⟩ := runFrom_of_emits (p := p) hon
  rw [History.toList_events_recordAll rfl] at hevents hevents'
  rw [taggedEvents, htagged, hevents, hevents', hresult, hresult']
  refine ⟨?_, rfl, hexchanged⟩
  cases halike with
  | ok a s => rfl
  | error s hcause => exact congrArg Except.error hcause.symm

/-- The idiom on the first two elements of an array. -/
def sortTwo : Program :=
  let first := Expr.ofIndex (.ofName "a") (.ofNumber 0)
  let second := Expr.ofIndex (.ofName "a") (.ofNumber 1)
  .ofBody [.ofIf 1 (.ofBinary .greater first second)
    (.ofBlock [.letVar 2 "t" first, .ofExpr 3 (.ofAssign .assign first second),
      .ofExpr 4 (.ofAssign .assign second (.ofName "t"))]) none]

/-- The array of 2 and 1, as `a`. -/
def twoAndOne : Environment × Heap :=
  (Environment.empty.define "a" (.array 0), Heap.empty.allocate #[.number 2, .number 1])

/-- The last two events of the idiom, its writes, become an exchange. -/
theorem exchanged_sortTwo : Visit.All (¬·.IsNegativeZero) sortTwo.visits ∧
    let tagged := sortTwo.taggedEvents 0 twoAndOne.1 twoAndOne.2
    tagged.map Prod.snd = [false, false, true, true] ∧
      Event.Exchanged tagged (sortTwo.runFrom (.full 0 true) twoAndOne.1 twoAndOne.2).events := by
  have hzero : Visit.All (¬·.IsNegativeZero) sortTwo.visits := by decide +kernel
  obtain ⟨-, -, hexchanged⟩ := runFrom_swapDetection hzero 0 twoAndOne.1 twoAndOne.2
  exact ⟨hzero, by decide +kernel, hexchanged⟩

end Program

end ScriptTrace
