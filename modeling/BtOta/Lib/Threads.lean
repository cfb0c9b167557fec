/-
Threads by number: a list whose places are the threads of a program.

A thread that starts goes to the end of the list, and its place is its
number from then on. A thread that moves is written back at its place.
So what stands under a number behind a start or a move is what stood
there, unless the number is the new one or the one that moved, and an
invariant that speaks of each thread is kept by looking at that one.

# What is here

- `snoc`, `snoc_inv`: the threads behind a start.
- `moved`, `moved_of_ne`, `moved_inv`: the threads behind a move,
  `forall_moved`, `forall_of_moved` of all of them, and `countP_moved`,
  `countP_moved_of_eq` of a count.
- `snoc_eq`: a reading that takes the new thread for none is unchanged.
- `sum_moved`, `sum_range_moved`: what is summed up over the threads when
  one of them moves, and `sum_range_raised` when all may rise.
-/
import Mathlib.Algebra.BigOperators.Intervals
import Mathlib.Algebra.Order.BigOperators.Group.Finset
import Mathlib.Logic.Function.Basic

namespace Threads

variable {α β : Type*} {xs : List α} {x y : α} {m n : Nat}

theorem lt_of_any {p : α → Bool} (h : xs[n]?.any p = true) :
    n < xs.length := by
  by_contra hge
  rw [List.getElem?_eq_none (Nat.le_of_not_lt hge)] at h
  cases h

-- ===================================================================== starts

/-- A start leaves the others under their numbers, since it is at the
end. -/
theorem snoc (h : xs[n]? = some y) : (xs ++ [x])[n]? = some y :=
  (List.getElem?_append_left (List.getElem?_eq_some_iff.mp h).1).trans h

/-- A thread behind a start was there, or is the new one. -/
theorem snoc_inv (h : (xs ++ [x])[n]? = some y) :
    xs[n]? = some y ∨ (n = xs.length ∧ y = x) := by
  rcases Nat.lt_trichotomy n xs.length with hlt | heq | hgt
  · rw [List.getElem?_append_left hlt] at h
    exact Or.inl h
  · subst heq
    rw [List.getElem?_concat_length] at h
    exact Or.inr ⟨rfl, (Option.some.inj h).symm⟩
  · rw [List.getElem?_eq_none (by simp; omega)] at h
    cases h

/-- A reading that takes the new thread for none reads the same of every
number behind a start. -/
theorem snoc_eq (f : Option α → β) (hx : f (some x) = f none) (n : Nat) :
    f (xs ++ [x])[n]? = f xs[n]? := by
  rcases Nat.lt_trichotomy n xs.length with hlt | heq | hgt
  · rw [List.getElem?_append_left hlt]
  · subst heq
    rw [List.getElem?_concat_length, hx, List.getElem?_eq_none (Nat.le_refl _)]
  · rw [List.getElem?_eq_none (by simp; omega),
      List.getElem?_eq_none (Nat.le_of_lt hgt)]

-- ====================================================================== moves

/-- The thread that has moved is under its number. -/
theorem moved (h : xs[n]? = some y) : (xs.set n x)[n]? = some x :=
  List.getElem?_set_self (List.getElem?_eq_some_iff.mp h).1

/-- A move leaves the others alone. -/
theorem moved_of_ne (hne : m ≠ n) (h : xs[m]? = some y) :
    (xs.set n x)[m]? = some y :=
  (List.getElem?_set_ne (Ne.symm hne)).trans h

/-- A thread behind a move is the one that moved, or was there. -/
theorem moved_inv (h : (xs.set n x)[m]? = some y) :
    (m = n ∧ y = x) ∨ (m ≠ n ∧ xs[m]? = some y) := by
  by_cases heq : m = n
  · subst heq
    have hlt := (List.getElem?_eq_some_iff.mp h).1
    rw [List.length_set] at hlt
    rw [List.getElem?_set_self hlt] at h
    exact Or.inl ⟨rfl, (Option.some.inj h).symm⟩
  · rw [List.getElem?_set_ne (Ne.symm heq)] at h
    exact Or.inr ⟨heq, h⟩

/-- What holds of the thread that moved and of the others holds of all.
The number comes with it, for invariants that differ by thread. -/
theorem forall_moved {P : Nat → α → Prop} (hself : P n x)
    (hothers : ∀ m y, m ≠ n → xs[m]? = some y → P m y) :
    ∀ m y, (xs.set n x)[m]? = some y → P m y := by
  intro m y h
  rcases moved_inv h with ⟨rfl, rfl⟩ | ⟨hne, hold⟩
  · exact hself
  · exact hothers m y hne hold

/-- What holds of all behind a move held of all before, if it held of
the one that moved. -/
theorem forall_of_moved {P : Nat → α → Prop} (hn : xs[n]? = some y)
    (hy : P n y) (h : ∀ m z, (xs.set n x)[m]? = some z → P m z) :
    ∀ m z, xs[m]? = some z → P m z := by
  intro m z hm
  by_cases heq : m = n
  · subst heq
    rw [hn] at hm
    cases hm
    exact hy
  · exact h m z (moved_of_ne heq hm)

/-- A move changes a count by what it changes of the one that moved; said
with sums on both sides, since a count cannot go below zero. -/
theorem countP_moved (p : α → Bool) (h : xs[n]? = some y) :
    (xs.set n x).countP p + (if p y then 1 else 0)
      = xs.countP p + (if p x then 1 else 0) := by
  obtain ⟨hlt, rfl⟩ := List.getElem?_eq_some_iff.mp h
  have hle := List.boole_getElem_le_countP (p := p) hlt
  rw [List.countP_set hlt]
  omega

/-- And one that counts it as before, not at all. -/
theorem countP_moved_of_eq {p : α → Bool} (h : xs[n]? = some y)
    (hp : p x = p y) : (xs.set n x).countP p = xs.countP p := by
  have hcount := countP_moved (x := x) p h
  rw [hp] at hcount
  exact Nat.add_right_cancel hcount

-- ======================================================================= sums

/-- A move changes a sum by what it changes of the one that moved. -/
theorem sum_moved (f : α → Nat) (h : xs[n]? = some y) :
    ((xs.set n x).map f).sum + f y = (xs.map f).sum + f x := by
  induction xs generalizing n with
  | nil => cases h
  | cons z zs ih =>
      cases n with
      | zero =>
          cases h
          simp only [List.set_cons_zero, List.map_cons, List.sum_cons]
          omega
      | succ n =>
          have hrest := ih h
          simp only [List.set_cons_succ, List.map_cons, List.sum_cons]
          omega

/-- Where one number's share falls by `k` and none rises, so does the
sum: how a measure over threads pays for a step of one. -/
theorem sum_range_moved {f f' : Nat → Nat} {k : Nat} (hn : n < m)
    (hothers : ∀ i, i ≠ n → f' i ≤ f i) (hself : f' n + k ≤ f n) :
    ∑ i ∈ Finset.range m, f' i + k ≤ ∑ i ∈ Finset.range m, f i := by
  have hmem := Finset.mem_range.mpr hn
  have hrest : ∑ i ∈ (Finset.range m).erase n, f' i
      ≤ ∑ i ∈ (Finset.range m).erase n, f i :=
    Finset.sum_le_sum fun i hi => hothers i (Finset.ne_of_mem_erase hi)
  rw [← Finset.add_sum_erase _ f hmem, ← Finset.add_sum_erase _ f' hmem]
  omega

/-- Where none rises by more than `k`, it rises by `k` for each, by
induction on how many there are. -/
theorem sum_range_raised {f f' : Nat → Nat} {k : Nat}
    (h : ∀ i, f' i ≤ f i + k) :
    ∑ i ∈ Finset.range m, f' i ≤ ∑ i ∈ Finset.range m, f i + k * m := by
  induction m with
  | zero => exact Nat.le_refl _
  | succ m ih =>
      have hlast := h m
      rw [Finset.sum_range_succ, Finset.sum_range_succ, Nat.mul_succ]
      omega

end Threads
