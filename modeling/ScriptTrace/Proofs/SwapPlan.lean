import ScriptTrace.Syntax.SwapIdiom

/-!
# What a plan stands for

A plan comes from three neighbouring statements. `SwapPlan.Idiom` holds them with what the search
has checked of them, and `SwapPlan.exists_idiom` says where in the body they stand.
-/

namespace ScriptTrace

namespace Expr

theorem eq_identifier_of_name? {e : Expr} {name : String} (h : e.name? = some name) :
    ∃ loc, e = .identifier name loc := by
  cases e <;> simp only [name?, Option.some.injEq, reduceCtorEq] at h
  case identifier _ loc => exact ⟨loc, by rw [h]⟩

theorem eq_index_of_element? {e i : Expr} {name : String} (h : e.element? = some (name, i)) :
    ∃ nameLoc loc, e = .index (.identifier name nameLoc) i loc := by
  rw [element?.eq_def] at h
  split at h
  · simp only [Option.some.injEq, Prod.mk.injEq] at h
    obtain ⟨rfl, rfl⟩ := h
    exact ⟨_, _, rfl⟩
  · cases h

end Expr

namespace Stmt

theorem eq_of_elementWrite? {s : Stmt} {array : String} {i value : Expr}
    (h : s.elementWrite? array = some (i, value)) : ∃ nameLoc indexLoc assignLoc loc,
      s = .expression (.assign .assign (.index (.identifier array nameLoc) i indexLoc) value
        assignLoc) loc := by
  rw [elementWrite?.eq_def] at h
  split at h
  · split at h
    · rename_i htarget
      obtain ⟨nameLoc, indexLoc, rfl⟩ := Expr.eq_index_of_element? htarget
      split at h
      · rename_i hname
        simp only [Option.some.injEq, Prod.mk.injEq] at h
        obtain ⟨rfl, rfl⟩ := h
        exact ⟨nameLoc, indexLoc, _, _, by rw [hname]⟩
      · cases h
    · cases h
  · cases h

theorem eq_of_capture? {s : Stmt} {temp array : String} {i : Expr}
    (h : s.capture? temp = some (array, i)) : ∃ tempLoc nameLoc indexLoc,
      (∃ kind declaratorLoc loc, s = .declaration ⟨kind, [⟨.identifier temp tempLoc,
        some (.index (.identifier array nameLoc) i indexLoc), declaratorLoc⟩], loc⟩) ∨
      ∃ assignLoc loc, s = .expression (.assign .assign (.identifier temp tempLoc)
        (.index (.identifier array nameLoc) i indexLoc) assignLoc) loc := by
  rw [capture?.eq_def] at h
  split at h
  · split at h
    · rename_i htemp
      obtain ⟨tempLoc, rfl⟩ := Expr.eq_identifier_of_name? htemp
      obtain ⟨nameLoc, indexLoc, rfl⟩ := Expr.eq_index_of_element? h
      exact ⟨tempLoc, nameLoc, indexLoc, .inl ⟨_, _, _, rfl⟩⟩
    · cases h
  · split at h
    · rename_i htemp
      obtain ⟨tempLoc, rfl⟩ := Expr.eq_identifier_of_name? htemp
      obtain ⟨nameLoc, indexLoc, rfl⟩ := Expr.eq_index_of_element? h
      exact ⟨tempLoc, nameLoc, indexLoc, .inr ⟨_, _, rfl⟩⟩
    · cases h
  · cases h

end Stmt

namespace SwapPlan

/-- The three statements of a plan: `capture` stores the element at `origin`, `write` copies the
element at `copied` over it, and `next` puts what was stored at `plan.second`. -/
structure Idiom (plan : SwapPlan) where
  temp : String
  origin : Expr
  copied : Expr
  /-- The right side of the first write, an element of the array. -/
  value : Expr
  /-- The right side of the second write, the temporary. -/
  stored : Expr
  capture : Stmt
  write : Stmt
  next : Stmt
  capture_eq : capture.capture? temp = some (plan.array, origin)
  write_eq : write.elementWrite? plan.array = some (plan.first, value)
  value_eq : value.element? = some (plan.array, copied)
  next_eq : next.elementWrite? plan.array = some (plan.second, stored)
  stored_eq : stored.name? = some temp
  temp_ne : temp ≠ plan.array
  second_same : plan.second.same copied = true
  origin_same : origin.same plan.first = true
  first_stable : plan.first.isStable [plan.array, temp] = true
  second_stable : plan.second.isStable [plan.array, temp] = true
  firstLine_eq : plan.firstLine = write.line
  secondLine_eq : plan.secondLine = next.line

private theorem guard_bind_eq_some_iff {α : Type} {P : Prop} [Decidable P] {k : Unit → Option α}
    {a : α} : (guard P >>= k) = some a ↔ P ∧ k () = some a := by
  change ((if P then pure () else failure) >>= k) = some a ↔ _
  by_cases hP : P
  · rw [if_pos hP]
    exact (and_iff_right hP).symm
  · rw [if_neg hP]
    exact ⟨fun h ↦ (by cases h), fun h ↦ absurd h.1 hP⟩

/-- The search among three statements checks no more and no less than what an idiom holds, and that
the two indices are the compared ones. -/
theorem ofStatements?_eq_some_iff {array : String} {i j : Expr} {position : Nat}
    {capture write next : Stmt} {plan : SwapPlan} :
    ofStatements? array i j position capture write next = some plan ↔
      plan.array = array ∧ plan.position = position ∧
        ∃ x : plan.Idiom, x.capture = capture ∧ x.write = write ∧ x.next = next ∧
          (plan.first.same i && x.copied.same j ||
            plan.first.same j && x.copied.same i) = true := by
  constructor
  · intro h
    obtain ⟨⟨first, value⟩, hwrite, h⟩ := Option.bind_eq_some_iff.mp h
    obtain ⟨⟨second, stored⟩, hnext, h⟩ := Option.bind_eq_some_iff.mp h
    obtain ⟨⟨source, copied⟩, hvalue, h⟩ := Option.bind_eq_some_iff.mp h
    obtain ⟨temp, hstored, h⟩ := Option.bind_eq_some_iff.mp h
    obtain ⟨⟨captured, origin⟩, hcapture, h⟩ := Option.bind_eq_some_iff.mp h
    obtain ⟨⟨rfl, rfl, htemp⟩, h⟩ := guard_bind_eq_some_iff.mp h
    obtain ⟨hcompared, h⟩ := guard_bind_eq_some_iff.mp h
    obtain ⟨hsame, h⟩ := guard_bind_eq_some_iff.mp h
    obtain ⟨hstable, h⟩ := guard_bind_eq_some_iff.mp h
    rw [Bool.and_eq_true] at hsame hstable
    cases h
    exact ⟨rfl, rfl, ⟨temp, origin, copied, value, stored, capture, write, next, hcapture, hwrite,
      hvalue, hnext, hstored, htemp, hsame.1, hsame.2, hstable.1, hstable.2, rfl, rfl⟩, rfl, rfl,
      rfl, hcompared⟩
  · rintro ⟨rfl, rfl, x, rfl, rfl, rfl, hcompared⟩
    refine Option.bind_eq_some_iff.mpr ⟨_, x.write_eq, ?_⟩
    refine Option.bind_eq_some_iff.mpr ⟨_, x.next_eq, ?_⟩
    refine Option.bind_eq_some_iff.mpr ⟨_, x.value_eq, ?_⟩
    refine Option.bind_eq_some_iff.mpr ⟨_, x.stored_eq, ?_⟩
    refine Option.bind_eq_some_iff.mpr ⟨_, x.capture_eq, ?_⟩
    refine guard_bind_eq_some_iff.mpr ⟨⟨rfl, rfl, x.temp_ne⟩, ?_⟩
    refine guard_bind_eq_some_iff.mpr ⟨hcompared, ?_⟩
    refine guard_bind_eq_some_iff.mpr ⟨?_, guard_bind_eq_some_iff.mpr ⟨?_, ?_⟩⟩
    · exact Bool.and_eq_true_iff.mpr ⟨x.second_same, x.origin_same⟩
    · exact Bool.and_eq_true_iff.mpr ⟨x.first_stable, x.second_stable⟩
    · rw [← x.firstLine_eq, ← x.secondLine_eq]
      rfl

private theorem findIdx_append_cons {α : Type} {p : α → Bool} {before after : List α} {a : α}
    (hbefore : ∀ b ∈ before, p b = false) (ha : p a = true) :
    (before ++ a :: after).findIdx p = before.length := by
  rw [List.findIdx_append, List.findIdx_eq_length.mpr hbefore, if_neg (Nat.lt_irrefl _),
    List.findIdx_cons, ha]
  exact Nat.zero_add _

/-- The search in a body looks at the first write to an element and at its two neighbours. -/
theorem ofBody?_eq_some_iff {array : String} {i j : Expr} {body : List Stmt} {plan : SwapPlan} :
    ofBody? array i j body = some plan ↔ ∃ before capture write next after,
      body = before ++ capture :: write :: next :: after ∧
      (∀ s ∈ before ++ [capture], s.elementWrite? array = none) ∧
      ofStatements? array i j (before.length + 1) capture write next = some plan := by
  rw [ofBody?.eq_def]
  dsimp only
  constructor
  · intro h
    split at h
    · cases h
    · rename_i before hposition
      split at h
      · rename_i capture write next after hdrop
        have hlength : (body.take before).length = before := by
          have hle : body.findIdx (fun s ↦ (s.elementWrite? array).isSome) ≤ _ :=
            List.findIdx_le_length
          rw [List.length_take]
          omega
        have hbody : body = body.take before ++ capture :: write :: next :: after := by
          rw [← hdrop, List.take_append_drop]
        have htake : body.take (before + 1) = body.take before ++ [capture] := by
          rw [List.take_add, hdrop]
          rfl
        refine ⟨body.take before, capture, write, next, after, hbody, fun s hs ↦ ?_, ?_⟩
        · rw [← htake, List.mem_take_iff_getElem] at hs
          obtain ⟨k, hk, rfl⟩ := hs
          have hlt : k < body.findIdx fun s ↦ (s.elementWrite? array).isSome := by
            rw [hposition]
            exact (Nat.lt_min.mp hk).1
          have hearlier := List.not_of_lt_findIdx hlt
          exact Option.not_isSome_iff_eq_none.mp (Bool.eq_false_iff.mp hearlier)
        · rwa [hlength, ← Nat.succ_eq_add_one, ← hposition]
      · cases h
  · rintro ⟨before, capture, write, next, after, rfl, hearlier, h⟩
    let p : Stmt → Bool := fun s ↦ (s.elementWrite? array).isSome
    have hwrite : p write = true := by
      obtain ⟨rfl, -, x, -, rfl, -, -⟩ := ofStatements?_eq_some_iff.mp h
      exact Option.isSome_iff_exists.mpr ⟨_, x.write_eq⟩
    have hnone : ∀ s ∈ before ++ [capture], p s = false :=
      fun s hs ↦ Option.isSome_eq_false_iff.mpr (Option.isNone_iff_eq_none.mpr (hearlier s hs))
    have hposition : (before ++ capture :: write :: next :: after).findIdx p =
        before.length + 1 := by
      rw [List.append_cons, findIdx_append_cons hnone hwrite, List.length_append]
      rfl
    rw [hposition]
    dsimp only
    rw [List.drop_left]
    exact h

/-- The statements of a plan stand next to each other in the body, the first write at the position
of the plan. -/
theorem exists_idiom {test : Expr} {consequent : Stmt} {plan : SwapPlan}
    (h : ofIf? test consequent = some plan) : ∃ (x : plan.Idiom) (before after : List Stmt),
      consequent.asBody = before ++ x.capture :: x.write :: x.next :: after ∧
        plan.position = before.length + 1 := by
  obtain ⟨⟨array, i, j⟩, -, h⟩ := Option.bind_eq_some_iff.mp h
  obtain ⟨before, capture, write, next, after, hbody, -, h⟩ := ofBody?_eq_some_iff.mp h
  obtain ⟨-, hposition, x, rfl, rfl, rfl, -⟩ := ofStatements?_eq_some_iff.mp h
  exact ⟨x, before, after, hbody, hposition⟩

/-- Three statements only stand in a block. -/
theorem exists_block {test : Expr} {consequent : Stmt} {plan : SwapPlan}
    (h : ofIf? test consequent = some plan) : ∃ body loc, consequent = .block body loc := by
  obtain ⟨x, before, after, hbody, -⟩ := exists_idiom h
  have hlength := congrArg List.length hbody
  cases consequent with
  | block body loc => exact ⟨body, loc, rfl⟩
  | declaration | forLoop | ifThen | expression | empty | unsupported =>
    simp only [Stmt.asBody, List.length_append, List.length_cons, List.length_nil] at hlength
    omega

end SwapPlan

end ScriptTrace
