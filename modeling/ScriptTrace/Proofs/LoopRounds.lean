import ScriptTrace.Proofs.IterationCap
import ScriptTrace.Proofs.Writes

/-!
# The rounds of a loop

A loop that succeeds is its first part, some number of rounds, one more test and one event. A round
is a test that is true, the body and the update; `Stmt.Rounds` puts a number of them together. The
last test decides which event it is: if it is false, the loop has ended by itself, and if it is
true, all rounds that the cap allows have been run. `Stmt.exec_forLoop_eq_ok_iff` says that the loop
succeeds in exactly the states that can be reached in this way.

What the loop itself adds to the history is written out in the relations, with `State.emit`. So two
states are related only if no other event has been added, apart from those of the parts.

Rounds are counted in `Nat`. A counter of 32 bits counts the same, because it is compared with a cap
of 32 bits before it goes on (`Eval.iterate_eq_iterateCounting`).
-/

namespace ScriptTrace

/-! ## The parts of a round -/

namespace Expr

/-- The name that an expression binds itself, if it is an assignment to a name or a step of one. -/
def boundName? (e : Expr) : Option String := e.target?.bind name?

/-- What the test of a loop comes to. An absent one is true. -/
inductive Tested : Option Expr → Bool → State → State → Prop
  | absent (s : State) : Tested none true s s
  | value {e : Expr} {v : Value} {s t : State} (heval : e.eval s = .ok v t) :
    Tested (some e) v.isTruthy s t

/-- What the update of a loop does, where the loop is on a line. It is evaluated, and if it binds a
name, one event says so, with the value that the name is bound to then. -/
inductive Updated (line : Option UInt32) : Option Expr → State → State → Prop
  | absent (s : State) : Updated line none s s
  | silent {e : Expr} {v : Value} {s t : State} (heval : e.eval s = .ok v t)
    (hname : e.boundName? = none) : Updated line (some e) s t
  | recorded {e : Expr} {v new : Value} {name : String} {s t : State}
    (heval : e.eval s = .ok v t) (hname : e.boundName? = some name)
    (hnew : t.environment.get? name = some new) :
    Updated line (some e) s (t.emit ⟨e.line <|> line, .loopUpdate name (t.heap.snapshot new)⟩)

variable {s t : State}

theorem Tested.policy_eq {test : Option Expr} {result : Bool} (h : Tested test result s t) :
    t.history.policy = s.history.policy := by
  cases h with
  | absent => rfl
  | value heval => exact policy_of_eval heval

theorem Updated.policy_eq {line : Option UInt32} {update : Option Expr}
    (h : Updated line update s t) : t.history.policy = s.history.policy := by
  cases h with
  | absent => rfl
  | silent heval => exact policy_of_eval heval
  | recorded heval =>
    have hpolicy := policy_of_eval heval
    exact hpolicy

theorem holds_eq_ok_iff {test : Option Expr} {result : Bool} :
    holds test s = .ok result t ↔ Tested test result s t := by
  rcases test with _ | e
  · constructor
    · intro h
      cases h
      exact .absent s
    · rintro ⟨⟩
      rfl
  · rw [holds, Eval.bind_pure_eq_ok_iff]
    constructor
    · rintro ⟨v, heval, rfl⟩
      exact .value heval
    · rintro ⟨⟩
      rename_i v heval
      exact ⟨v, heval, rfl⟩

/-- What an expression writes goes to a variable if and only if it binds a name, and then to this
one. -/
theorem boundName?_of_evalWrite {e : Expr} {result : Option Written}
    (h : e.evalWrite s = .ok result t) : e.boundName? = result.bind (·.place.name?) := by
  rw [evalWrite_eq_ok_iff] at h
  rcases hm : e.toWrite? with _ | m
  · rw [hm] at h
    obtain ⟨rfl, -⟩ := h
    cases e with
    | assign | update => cases hm
    | literal | identifier | binary | logical | unary | array | index | property | call
    | conditional | unsupported => rfl
  · rw [hm] at h
    obtain ⟨w, u, hoperands, rfl, -⟩ := h
    obtain ⟨target, u', htarget, hplace⟩ := exists_place_of_toWrite? hm hoperands
    rw [boundName?, htarget, Option.bind_some, Option.bind_some, name?_of_place hplace]

/-- A name that an expression binds is bound to what it writes. -/
theorem get?_of_evalWrite {e : Expr} {name : String} {v : Value}
    (h : e.evalWrite s = .ok (some ⟨.named name, v⟩) t) :
    t.environment.get? name = some v := by
  rw [evalWrite_eq_ok_iff] at h
  rcases hm : e.toWrite? with _ | m
  · rw [hm] at h
    cases h.1
  · rw [hm] at h
    obtain ⟨w, u, -, hw, rfl⟩ := h
    cases hw
    exact Place.get?_written rfl v u

end Expr

theorem Eval.loopUpdate_eq_ok_iff {s t : State} (hpolicy : s.history.policy = .keepAll)
    (line : Option UInt32) {update : Option Expr} :
    loopUpdate line update s = .ok () t ↔ Expr.Updated line update s t := by
  rcases update with _ | e
  · constructor
    · intro h
      cases h
      exact .absent s
    · rintro ⟨⟩
      rfl
  · rw [loopUpdate, bind_eq_ok_iff]
    constructor
    · rintro ⟨result, u, hwrite, h⟩
      obtain ⟨v, heval⟩ := Expr.exists_evalWrite_iff.mp ⟨result, hwrite⟩
      have hu := (Expr.policy_of_evalWrite hwrite).trans hpolicy
      have hname := Expr.boundName?_of_evalWrite hwrite
      rcases result with _ | ⟨name | ⟨label, id, i⟩, new⟩
      · cases h
        exact .silent heval hname
      · have hrecord := record_eq_of_keepAll hu (e.line <|> line)
          (.loopUpdate name (u.heap.snapshot new))
        cases hrecord.symm.trans h
        exact .recorded heval hname (Expr.get?_of_evalWrite hwrite)
      · cases h
        exact .silent heval hname
    · intro h
      cases h with
      | silent heval hname =>
        obtain ⟨result, hwrite⟩ := Expr.exists_evalWrite_iff.mpr ⟨_, heval⟩
        refine ⟨result, t, hwrite, ?_⟩
        rw [Expr.boundName?_of_evalWrite hwrite] at hname
        rcases result with _ | ⟨name | ⟨label, id, i⟩, new⟩
        · rfl
        · cases hname
        · rfl
      | recorded heval hname hnew =>
        obtain ⟨result, hwrite⟩ := Expr.exists_evalWrite_iff.mpr ⟨_, heval⟩
        refine ⟨result, _, hwrite, ?_⟩
        have hu := (Expr.policy_of_evalWrite hwrite).trans hpolicy
        rw [Expr.boundName?_of_evalWrite hwrite] at hname
        rcases result with _ | ⟨name' | ⟨label, id, i⟩, new'⟩
        · cases hname
        · cases hname
          cases (Expr.get?_of_evalWrite hwrite).symm.trans hnew
          exact record_eq_of_keepAll hu _ _
        · cases hname

/-! ## Rounds -/

namespace Stmt

theorem execAll_singleton (config : Config) (s : Stmt) : execAll config [s] = s.exec config := by
  rw [execAll_cons, execAll, effects_nil]
  exact bind_pure _

/-- A statement as a body runs the statements that it stands for. -/
theorem execBody_eq (config : Config) (body : Stmt) :
    body.execBody config = execAll config body.asBody := by
  cases body with
  | block body loc => rfl
  | declaration | forLoop | ifThen | expression | empty | unsupported =>
    refine .trans ?_ (execAll_singleton config _).symm
    rfl

/-- Rounds of a loop, where it is on a line: how many, where they start and where they end. In every
round the test is true, the body runs once, and then the update. -/
inductive Rounds (config : Config) (test update : Option Expr) (line : Option UInt32)
    (body : Stmt) : Nat → State → State → Prop
  | none (s : State) : Rounds config test update line body 0 s s
  | next {n : Nat} {s s₁ s₂ s₃ t : State} (htest : Expr.Tested test true s s₁)
    (hbody : execAll config body.asBody s₁ = .ok () s₂)
    (hupdate : Expr.Updated line update s₂ s₃)
    (hrest : Rounds config test update line body n s₃ t) :
    Rounds config test update line body (n + 1) s t

section Rounds

variable {config : Config} {test update : Option Expr} {line : Option UInt32} {body : Stmt}
  {s t u : State}

/-- A body leaves the policy as it is. -/
theorem policy_of_execAll {statements : List Stmt} (h : execAll config statements s = .ok () t) :
    t.history.policy = s.history.policy :=
  (Eval.compositional_oblivious.exec config ⟨statements, none⟩).policy_of_ok h

theorem policy_of_round {s₁ s₂ s₃ : State} (htest : Expr.Tested test true s s₁)
    (hbody : execAll config body.asBody s₁ = .ok () s₂) (hupdate : Expr.Updated line update s₂ s₃) :
    s₃.history.policy = s.history.policy :=
  hupdate.policy_eq.trans ((policy_of_execAll hbody).trans htest.policy_eq)

theorem Rounds.policy_eq {n : Nat} (h : body.Rounds config test update line n s t) :
    t.history.policy = s.history.policy := by
  induction h with
  | none => rfl
  | next htest hbody hupdate _ ih => exact ih.trans (policy_of_round htest hbody hupdate)

private theorem round_eq_ok_iff (hpolicy : s.history.policy = .keepAll) :
    (do body.execBody config; Eval.loopUpdate line update) s = .ok () t ↔
      ∃ u, execAll config body.asBody s = .ok () u ∧ Expr.Updated line update u t := by
  have hupdate {u : State} (hrun : execAll config body.asBody s = .ok () u) :
      Eval.loopUpdate line update u = .ok () t ↔ Expr.Updated line update u t :=
    Eval.loopUpdate_eq_ok_iff ((policy_of_execAll hrun).trans hpolicy) line
  rw [execBody_eq, Eval.bind_eq_ok_iff]
  constructor
  · rintro ⟨⟨⟩, u, hrun, h⟩
    exact ⟨u, hrun, (hupdate hrun).mp h⟩
  · rintro ⟨u, hrun, h⟩
    exact ⟨(), u, hrun, (hupdate hrun).mpr h⟩

/-- What the rounds that are left come to. -/
theorem iterate_eq_ok_iff (hpolicy : s.history.policy = .keepAll) {left ran : Nat}
    {stopped : LoopEnd × Nat} :
    Eval.iterate (Expr.holds test) (do body.execBody config; Eval.loopUpdate line update)
        left ran s = .ok stopped u ↔
      ∃ n ≤ left, ∃ t proceed, body.Rounds config test update line n s t ∧
        Expr.Tested test proceed t u ∧ (proceed = true → n = left) ∧
        stopped = (if proceed then .iterationCap else .condition, ran + n) := by
  -- on the rounds that are left; the state in which they start changes with every round
  induction left generalizing ran s with
  | zero =>
    rw [Eval.iterate, Eval.bind_eq_ok_iff]
    simp only [Expr.holds_eq_ok_iff]
    constructor
    · rintro ⟨proceed, t, htest, h⟩
      refine ⟨0, Nat.le_refl 0, s, proceed, .none s, ?_⟩
      cases proceed <;> cases h <;> exact ⟨htest, fun _ ↦ rfl, rfl⟩
    · rintro ⟨n, hn, t, proceed, hrounds, htest, -, rfl⟩
      obtain rfl := Nat.le_zero.mp hn
      cases hrounds
      refine ⟨proceed, u, htest, ?_⟩
      cases proceed <;> rfl
  | succ left ih =>
    rw [Eval.iterate, Eval.bind_eq_ok_iff]
    simp only [Expr.holds_eq_ok_iff]
    constructor
    · rintro ⟨proceed, s₁, htest, h⟩
      cases proceed with
      | false =>
        cases h
        exact ⟨0, Nat.zero_le _, s, false, .none s, htest, Bool.noConfusion, rfl⟩
      | true =>
        have hs₁ := htest.policy_eq.trans hpolicy
        obtain ⟨⟨⟩, s₃, hround, h⟩ := Eval.bind_eq_ok_iff.mp h
        obtain ⟨s₂, hbody, hupdate⟩ := (round_eq_ok_iff hs₁).mp hround
        have hs₃ := (policy_of_round htest hbody hupdate).trans hpolicy
        obtain ⟨n, hn, t, proceed, hrounds, hlast, hcap, rfl⟩ := (ih hs₃).mp h
        refine ⟨n + 1, Nat.succ_le_succ hn, t, proceed, .next htest hbody hupdate hrounds, hlast,
          fun hproceed ↦ congrArg (· + 1) (hcap hproceed), ?_⟩
        rw [Nat.add_assoc, Nat.add_comm 1]
    · rintro ⟨n, hn, t, proceed, hrounds, hlast, hcap, rfl⟩
      cases hrounds with
      | none =>
        -- no round has been run though one could be, so the test is false
        have hproceed : proceed = false := by
          rw [← Bool.not_eq_true]
          exact fun h ↦ Nat.succ_ne_zero left (hcap h).symm
        subst hproceed
        exact ⟨false, u, hlast, rfl⟩
      | next htest hbody hupdate hrest =>
        rename_i n s₁ s₂ s₃
        have hs₁ := htest.policy_eq.trans hpolicy
        have hs₃ := (policy_of_round htest hbody hupdate).trans hpolicy
        refine ⟨true, s₁, htest, Eval.bind_eq_ok_iff.mpr ⟨(), s₃, ?_, ?_⟩⟩
        · exact (round_eq_ok_iff hs₁).mpr ⟨s₂, hbody, hupdate⟩
        · refine (ih hs₃).mpr ⟨n, Nat.le_of_succ_le_succ hn, t, proceed, hrest, hlast,
            fun hproceed ↦ Nat.succ.inj (hcap hproceed), ?_⟩
          rw [Nat.add_assoc, Nat.add_comm 1]

end Rounds

end Stmt

/-! ## Counting in 32 bits -/

namespace Eval

theorem toNat_succ_of_not_le {cap ran : UInt32} (h : ¬cap ≤ ran) :
    (ran + 1).toNat = ran.toNat + 1 := by
  rw [UInt32.le_iff_toNat_le] at h
  have hcap := cap.toNat_lt_size
  have hsucc : ran.toNat + 1 < UInt32.size := by omega
  rw [UInt32.toNat_add]
  exact Nat.mod_eq_of_lt hsucc

/-- Rounds as `Eval.iterate` runs them, counted by a counter of 32 bits from `ran` on. Where the
counter could not go on, it does `overflow` instead. -/
def iterateCounting (test : Eval Bool) (body update : Eval Unit)
    (overflow : Eval (LoopEnd × UInt32)) (cap ran : UInt32) : Eval (LoopEnd × UInt32) := do
  if ← test then
    if _ : cap ≤ ran then
      return (.iterationCap, ran)
    else
      body
      if UInt32.size ≤ ran.toNat + 1 then
        overflow
      else
        update
        iterateCounting test body update overflow cap (ran + 1)
  else
    return (.condition, ran)
termination_by cap.toNat - ran.toNat
decreasing_by
  have hran : ¬cap ≤ ran := ‹_›
  have hsucc := toNat_succ_of_not_le hran
  rw [UInt32.le_iff_toNat_le] at hran
  omega

/-- A counter that has not reached its cap can go on, so it counts rounds as they are. -/
theorem iterate_eq_iterateCounting (test : Eval Bool) (body update : Eval Unit)
    (overflow : Eval (LoopEnd × UInt32)) {cap ran : UInt32} {left : Nat}
    (hleft : ran.toNat + left = cap.toNat) :
    iterate test (do body; update) left ran.toNat =
      (fun stopped ↦ (stopped.1, stopped.2.toNat)) <$>
        iterateCounting test body update overflow cap ran := by
  induction left generalizing ran with
  | zero =>
    have hcap : cap ≤ ran := by
      rw [UInt32.le_iff_toNat_le]
      omega
    rw [iterate, iterateCounting.eq_def, map_bind]
    refine bind_congr fun proceed ↦ ?_
    cases proceed with
    | false => rfl
    | true =>
      rw [if_pos rfl, if_pos rfl, dif_pos hcap]
      rfl
  | succ left ih =>
    have hcap : ¬cap ≤ ran := by
      rw [UInt32.le_iff_toNat_le]
      omega
    have hsucc := toNat_succ_of_not_le hcap
    have hsize : ¬UInt32.size ≤ ran.toNat + 1 := by
      have := cap.toNat_lt_size
      omega
    rw [iterate, iterateCounting.eq_def, map_bind]
    refine bind_congr fun proceed ↦ ?_
    cases proceed with
    | false => rfl
    | true =>
      rw [if_pos rfl, if_pos rfl, dif_neg hcap, if_neg hsize, map_bind, bind_assoc]
      refine bind_congr fun _ ↦ ?_
      rw [map_bind]
      refine bind_congr fun _ ↦ ?_
      rw [← ih (by omega), hsucc]

end Eval

namespace Stmt

/-- **A loop runs as its events say.** Under the policy that keeps everything, a loop succeeds in a
state if and only if that state is reached by its first part, by at most as many rounds as the cap
allows, by one more test and by one event on its last line. The event has the number of rounds and
the reason: the last test was false, or it was true and the cap allows no more rounds. For every cap
of 32 bits, a counter of 32 bits counts the rounds without ever overflowing. -/
theorem exec_forLoop_eq_ok_iff (config : Config) (init : Option ForInit)
    (test update : Option Expr) (body : Stmt) (loc : Option Location) {s t : State}
    (hpolicy : s.history.policy = .keepAll) :
    ((forLoop init test update body loc).exec config s = .ok () t ↔
      ∃ n ≤ config.iterationCap, ∃ s₀ sₙ u proceed,
        ForInit.exec init s = .ok () s₀ ∧
        body.Rounds config test update (loc.map (·.start.line)) n s₀ sₙ ∧
        Expr.Tested test proceed sₙ u ∧ (proceed = true → n = config.iterationCap) ∧
        t = u.emit ⟨loc.map (·.stop.line),
          .loopEnd (if proceed then .iterationCap else .condition) n⟩) ∧
    ∀ (cap : UInt32) (overflow : Eval (LoopEnd × UInt32)), config.iterationCap = cap.toNat →
      (forLoop init test update body loc).exec config =
        Eval.atNode "ForStatement" (loc.map (·.start.line)) (do
          ForInit.exec init
          let (reason, ran) ←
            Eval.iterateCounting (Expr.holds test) (body.execBody config)
              (Eval.loopUpdate (loc.map (·.start.line)) update) overflow cap 0
          Eval.record (loc.map (·.stop.line)) (.loopEnd reason ran.toNat)) := by
  constructor
  · have hinit := Eval.compositional_oblivious.localized.forInit init test update body loc
    rw [exec, Eval.atNode_eq_ok_iff, effect_forLoop, Eval.bind_eq_ok_iff]
    constructor
    · rintro ⟨⟨⟩, s₀, hs₀, h⟩
      obtain ⟨stopped, u, hrun, hend⟩ := Eval.bind_eq_ok_iff.mp h
      have hkeep := (hinit.policy_of_ok hs₀).trans hpolicy
      obtain ⟨n, hn, sₙ, proceed, hrounds, htest, hcap, rfl⟩ := (iterate_eq_ok_iff hkeep).mp hrun
      have hu := (htest.policy_eq.trans hrounds.policy_eq).trans hkeep
      rw [Nat.zero_add] at hend
      cases (Eval.record_eq_of_keepAll hu _ _).symm.trans hend
      exact ⟨n, hn, s₀, sₙ, u, proceed, hs₀, hrounds, htest, hcap, rfl⟩
    · rintro ⟨n, hn, s₀, sₙ, u, proceed, hs₀, hrounds, htest, hcap, rfl⟩
      have hkeep := (hinit.policy_of_ok hs₀).trans hpolicy
      have hu := (htest.policy_eq.trans hrounds.policy_eq).trans hkeep
      refine ⟨(), s₀, hs₀, Eval.bind_eq_ok_iff.mpr
        ⟨(if proceed then .iterationCap else .condition, n), u, ?_, ?_⟩⟩
      · refine (iterate_eq_ok_iff hkeep).mpr ⟨n, hn, sₙ, proceed, hrounds, htest, hcap, ?_⟩
        rw [Nat.zero_add]
      · exact Eval.record_eq_of_keepAll hu _ _
  · intro cap overflow hcap
    have hleft : (0 : UInt32).toNat + cap.toNat = cap.toNat := Nat.zero_add cap.toNat
    have hcount := Eval.iterate_eq_iterateCounting (Expr.holds test) (body.execBody config)
      (Eval.loopUpdate (loc.map (·.start.line)) update) overflow hleft
    rw [exec, effect_forLoop, hcap]
    refine congrArg (Eval.atNode _ _) (bind_congr fun _ ↦ ?_)
    exact (congrArg (· >>= _) hcount).trans (bind_map_left _ _ _)

/-- The first part of a loop that counts: `let i = 0`. -/
def fromZero : Option ForInit := some (.declaration (.ofBindings 1 [("i", some (.ofNumber 0))]))

/-- The test of a loop that counts: `i < 2`. -/
def belowTwo : Option Expr := some (.ofBinary .less (.ofName "i") (.ofNumber 2))

/-- The update of a loop that counts: `i++`. -/
def upByOne : Option Expr := some (.stepAfter .increment (.ofName "i"))

/-- Where the cap is exactly as high as the loop counts, it is the test that ends the loop. -/
theorem exec_forLoop_countingToTwo :
    (State.start ⟨2, .keepAll, true⟩ .empty .empty).history.policy = .keepAll ∧
      ∃ s₀ s₂ u, ForInit.exec fromZero (.start ⟨2, .keepAll, true⟩ .empty .empty) = .ok () s₀ ∧
        (ofBlock []).Rounds ⟨2, .keepAll, true⟩ belowTwo upByOne (some 1) 2 s₀ s₂ ∧
        Expr.Tested belowTwo false s₂ u ∧
        (forLoop fromZero belowTwo upByOne (ofBlock []) (some (.lines 1 3))).exec
          ⟨2, .keepAll, true⟩ (.start ⟨2, .keepAll, true⟩ .empty .empty) =
            .ok () (u.emit ⟨some 3, .loopEnd .condition 2⟩) := by
  have hrun : ((forLoop fromZero belowTwo upByOne (ofBlock []) (some (.lines 1 3))).exec
      ⟨2, .keepAll, true⟩).succeedsIn (.start ⟨2, .keepAll, true⟩ .empty .empty)
        (fun _ t ↦ t.history.events.back?.any (·.same ⟨some 3, .loopEnd .condition 2⟩)) = true := by
    decide +kernel
  obtain ⟨⟨⟩, t, hrun, hlast⟩ := Eval.exists_of_succeedsIn hrun
  obtain ⟨n, -, s₀, sₙ, u, proceed, hs₀, hrounds, htest, -, rfl⟩ :=
    (exec_forLoop_eq_ok_iff _ _ _ _ _ _ rfl).1.mp hrun
  -- the event that the loop has recorded last tells the reason and the number of rounds
  rw [State.emit, Array.back?_push, Option.any_some, Event.same, Bool.and_eq_true] at hlast
  have hend := Details.eq_of_same_loopEnd hlast.2
  obtain ⟨hreason, rfl⟩ := Details.loopEnd.inj hend
  obtain rfl : proceed = false := by
    cases proceed with
    | false => rfl
    | true => cases hreason
  exact ⟨rfl, s₀, sₙ, u, hs₀, hrounds, htest, hrun⟩

end Stmt

end ScriptTrace
