import Mathlib

/-!
# Bubble passes

A pass over a list compares neighbours from the front and exchanges those that are out of order. In
round `j` the element in slot `j` is the largest so far, so a pass of `m` rounds leaves the largest
of the first `m + 1` elements in slot `m`. From slot `m` on nothing has to move any more
(`Settled m`), and one pass of `m` rounds extends that by one slot to the front. After passes of
`n - 1` rounds, `n - 2` rounds and so on a list of `n` elements is in order.
-/

namespace ScriptTrace

namespace Bubble

variable {α : Type} [LinearOrder α]

/-- Exchange the elements in slot `j` and the next if they are out of order. -/
def compareSwap (xs : List α) (j : Nat) : List α :=
  if h : j + 1 < xs.length then
    if xs[j + 1] < xs[j] then (xs.set j xs[j + 1]).set (j + 1) xs[j] else xs
  else
    xs

/-- Some rounds of a pass, from slot `j` on. -/
def pass (xs : List α) (j : Nat) : Nat → List α
  | 0 => xs
  | rounds + 1 => pass (compareSwap xs j) (j + 1) rounds

/-- Passes of the given number of rounds, of one round less, and so on. -/
def passes (xs : List α) : Nat → List α
  | 0 => xs
  | rounds + 1 => passes (pass xs 0 (rounds + 1)) rounds

/-! ## Passes only exchange -/

theorem perm_compareSwap (xs : List α) (j : Nat) : (compareSwap xs j).Perm xs := by
  rw [compareSwap]
  split
  · split
    · exact List.set_set_perm _ _
    · exact .rfl
  · exact .rfl

theorem perm_pass (xs : List α) (j rounds : Nat) : (pass xs j rounds).Perm xs := by
  induction rounds generalizing xs j with
  | zero => exact .rfl
  | succ rounds ih => exact (ih _ _).trans (perm_compareSwap xs j)

theorem perm_passes (xs : List α) (rounds : Nat) : (passes xs rounds).Perm xs := by
  induction rounds generalizing xs with
  | zero => exact .rfl
  | succ rounds ih => exact (ih _).trans (perm_pass xs 0 _)

@[simp] theorem length_compareSwap (xs : List α) (j : Nat) :
    (compareSwap xs j).length = xs.length := (perm_compareSwap xs j).length_eq

@[simp] theorem length_pass (xs : List α) (j rounds : Nat) :
    (pass xs j rounds).length = xs.length := (perm_pass xs j rounds).length_eq

/-! ## What a round does -/

/-- The smaller of the two elements comes first; all others stay where they are. -/
theorem getElem?_compareSwap {xs : List α} {j : Nat} (hj : j + 1 < xs.length) (k : Nat) :
    (compareSwap xs j)[k]? =
      if k = j then some (min xs[j] xs[j + 1])
      else if k = j + 1 then some (max xs[j] xs[j + 1])
      else xs[k]? := by
  rw [compareSwap, dif_pos hj]
  by_cases hlt : xs[j + 1] < xs[j]
  · rw [if_pos hlt, min_eq_right hlt.le, max_eq_left hlt.le, List.getElem?_set, List.getElem?_set]
    grind
  · have hle : xs[j] ≤ xs[j + 1] := not_lt.mp hlt
    rw [if_neg hlt, min_eq_left hle, max_eq_right hle]
    grind

/-- From slot `m` on every element is at least as large as all before it. -/
def Settled (m : Nat) (xs : List α) : Prop :=
  ∀ p q a b, p < q → m ≤ q → xs[p]? = some a → xs[q]? = some b → a ≤ b

/-- No element before slot `j` is larger than the one in it. -/
def LargestAt (j : Nat) (xs : List α) : Prop :=
  ∀ p a b, p < j → xs[p]? = some a → xs[j]? = some b → a ≤ b

theorem largestAt_zero (xs : List α) : LargestAt 0 xs :=
  fun _ _ _ hp ↦ absurd hp (Nat.not_lt_zero _)

/-- A round carries the largest element on. -/
theorem LargestAt.compareSwap {xs : List α} {j : Nat} (h : LargestAt j xs)
    (hj : j + 1 < xs.length) : LargestAt (j + 1) (compareSwap xs j) := by
  intro p a b hp ha hb
  rw [getElem?_compareSwap hj, if_neg (Nat.succ_ne_self j), if_pos rfl, Option.some_inj] at hb
  rw [getElem?_compareSwap hj, if_neg hp.ne] at ha
  subst hb
  by_cases hpj : p = j
  · rw [if_pos hpj, Option.some_inj] at ha
    exact ha ▸ min_le_max
  · rw [if_neg hpj] at ha
    exact (h p a xs[j] (by omega) ha (List.getElem?_eq_getElem _)).trans (le_max_left _ _)

/-- A round does not reach the slots in which everything is settled. -/
theorem Settled.compareSwap {xs : List α} {j m : Nat} (h : Settled m xs) (hj : j + 1 < xs.length)
    (hm : j + 1 < m) : Settled m (compareSwap xs j) := by
  intro p q a b hpq hq ha hb
  rw [getElem?_compareSwap hj, if_neg (by omega), if_neg (by omega)] at hb
  have hfirst : xs[j] ≤ b := h j q _ b (by omega) hq (List.getElem?_eq_getElem _) hb
  have hsecond : xs[j + 1] ≤ b := h (j + 1) q _ b (by omega) hq (List.getElem?_eq_getElem _) hb
  rw [getElem?_compareSwap hj] at ha
  split at ha
  · obtain rfl := Option.some.inj ha
    exact (min_le_left _ _).trans hfirst
  · split at ha
    · obtain rfl := Option.some.inj ha
      exact max_le hfirst hsecond
    · exact h p q a b hpq hq ha hb

/-! ## What a pass does -/

theorem settled_pass {xs : List α} {j rounds : Nat} (hlargest : LargestAt j xs)
    (h : Settled (j + rounds + 1) xs) (hlength : j + rounds < xs.length) :
    LargestAt (j + rounds) (pass xs j rounds) ∧ Settled (j + rounds + 1) (pass xs j rounds) := by
  induction rounds generalizing xs j with
  | zero => exact ⟨hlargest, h⟩
  | succ rounds ih =>
    have hj : j + 1 < xs.length := by omega
    have hnext := ih (hlargest.compareSwap hj)
    rw [Nat.add_right_comm j 1 rounds, length_compareSwap] at hnext
    exact hnext (h.compareSwap hj (by omega)) hlength

/-- A pass settles one more slot. -/
theorem Settled.pass {xs : List α} {rounds : Nat} (h : Settled (rounds + 1) xs)
    (hlength : rounds < xs.length) : Settled rounds (pass xs 0 rounds) := by
  have hpass := settled_pass (largestAt_zero xs) (by rwa [Nat.zero_add]) (by rwa [Nat.zero_add])
  rw [Nat.zero_add] at hpass
  intro p q a b hpq hq ha hb
  rcases hq.eq_or_lt with rfl | hq
  · exact hpass.1 p a b hpq ha hb
  · exact hpass.2 p q a b hpq hq ha hb

theorem Settled.passes {xs : List α} {rounds : Nat} (h : Settled (rounds + 1) xs)
    (hlength : rounds < xs.length) : Settled 1 (passes xs rounds) := by
  induction rounds generalizing xs with
  | zero => exact h
  | succ rounds ih =>
    exact ih (h.pass hlength) (by rw [length_pass]; exact Nat.lt_of_succ_lt hlength)

/-- **Bubble passes sort.** -/
theorem pairwise_passes (xs : List α) : (passes xs (xs.length - 1)).Pairwise (· ≤ ·) := by
  rcases xs with _ | ⟨x, rest⟩
  · exact .nil
  · have hsettled : Settled (rest.length + 1) (x :: rest) := by
      intro p q a b _ hq _ hb
      rw [List.getElem?_eq_none hq] at hb
      cases hb
    have hsorted := hsettled.passes (Nat.lt_succ_self _)
    refine List.pairwise_iff_getElem.mpr fun p q hp hq hpq ↦ ?_
    exact hsorted p q _ _ hpq (by omega) (List.getElem?_eq_getElem hp) (List.getElem?_eq_getElem hq)

end Bubble

end ScriptTrace
