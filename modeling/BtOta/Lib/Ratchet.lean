/-
A counter that follows a target, one tick at a time.

At tick `k` the counter goes up by one if the target `f k` has come up to
it, until it is at its cap. It never shows more than the target has
allowed (`reached_of_lt`), and where the target rises by at most one a
tick, or is ahead of the ticks themselves, the counter keeps up with the
target and with the ticks, whichever is behind (`keeps_up`). A target
that jumps ahead later is not caught up with at once.
-/
import Mathlib.Logic.Basic

namespace Ratchet

variable {f : Nat → Int} {cap k m : Nat}

/-- The counter behind `k` ticks. A tick raises it by one at most,
however far ahead the target is. -/
def value (f : Nat → Int) (cap : Nat) : Nat → Nat
  | 0 => 0
  | k + 1 =>
      if (value f cap k : Int) ≤ f k ∧ value f cap k < cap then
        value f cap k + 1
      else value f cap k

theorem value_le_succ (f : Nat → Int) (cap k : Nat) :
    value f cap k ≤ value f cap (k + 1) := by
  rw [value]
  split
  case isTrue => exact Nat.le_succ _
  case isFalse => exact Nat.le_refl _

theorem value_le_cap (f : Nat → Int) (cap k : Nat) :
    value f cap k ≤ cap := by
  induction k with
  | zero => exact Nat.zero_le _
  | succ k ih =>
      rw [value]
      split
      case isTrue h => exact h.2
      case isFalse => exact ih

/-- What the counter has passed the target had come up to, at the tick at
which it was passed. -/
theorem reached_of_lt (h : m < value f cap k) :
    ∃ j, j < k ∧ value f cap j = m ∧ (m : Int) ≤ f j := by
  induction k with
  | zero => exact absurd h (Nat.not_lt_zero m)
  | succ k ih =>
      by_cases hk : m < value f cap k
      · obtain ⟨j, hj, hm⟩ := ih hk
        exact ⟨j, Nat.lt_succ_of_lt hj, hm⟩
      · rw [value] at h
        split at h
        case isTrue hup =>
          have hm : m = value f cap k := by omega
          exact ⟨k, Nat.lt_succ_self k, hm.symm, hm ▸ hup.1⟩
        case isFalse => exact absurd h hk

/-- Where the target never gets away, the counter passes what both the
ticks and the target have come up to. The induction is on the ticks. -/
theorem keeps_up
    (hf : ∀ j, j < k → f (j + 1) ≤ f j + 1 ∨ (j : Int) ≤ f j)
    (hcap : m < cap) (hk : m ≤ k) (hm : (m : Int) ≤ f k) :
    m < value f cap (k + 1) := by
  induction k generalizing m with
  | zero =>
      obtain rfl : m = 0 := Nat.le_zero.mp hk
      have hup : (value f cap 0 : Int) ≤ f 0 ∧ value f cap 0 < cap :=
        ⟨hm, hcap⟩
      rw [value, if_pos hup]
      exact Nat.succ_pos _
  | succ k ih =>
      by_cases hlt : m < value f cap (k + 1)
      · exact Nat.lt_of_lt_of_le hlt (value_le_succ f cap (k + 1))
      · -- the counter is not past `m` yet, so it goes up
        have hup : (value f cap (k + 1) : Int) ≤ f (k + 1)
            ∧ value f cap (k + 1) < cap := by
          constructor <;> omega
        rw [value, if_pos hup]
        cases m with
        | zero => exact Nat.succ_pos _
        | succ m =>
            have hprev : (m : Int) ≤ f k := by
              rcases hf k (Nat.lt_succ_self k) with hstep | hahead
              · omega
              · omega
            have hbelow := ih (fun j hj => hf j (Nat.lt_succ_of_lt hj))
              (Nat.lt_of_succ_lt hcap) (Nat.le_of_succ_le_succ hk) hprev
            exact Nat.succ_lt_succ hbelow

end Ratchet
