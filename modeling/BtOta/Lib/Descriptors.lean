/-
A table of descriptors: which numbers are open, and what each stands
for.

A process names what it has open by numbers. A number is given out only
while it is free, and a close frees whatever number it is told, whether
or not the caller ever opened it. So what a number means depends on the
whole history of opens and closes, and a holder of a number is safe only
while nobody else closes it. The table is the state of that history:
`t n` is what number `n` stands for now, `none` if it is free.

# What is here

- `getOpened` and `getClosed`: what is open after an open or a close.
- `AllOpen.opened` and `AllOpen.closed`: what a holder holds stays, if a
  free number is given out or another number is closed.
- `ne_of_open`: two things held are held under two numbers.
- `Grown`: what a holder has opened on top of what was open before, and
  `Grown.closed`, by which its closes, the last opened first, lead back.
-/
import Mathlib.Logic.Function.Basic

namespace Descriptors

/-- What each number stands for, `none` if it is free. -/
abbrev Table (δ : Type*) := Nat → Option δ

variable {δ : Type*} {t : Table δ} {n m : Nat} {d e : δ}

namespace Table

/-- Nothing is open. -/
def empty : Table δ := fun _ => none

/-- The number `n` is given out. That it was free is for the caller to
say. -/
def opened (t : Table δ) (n : Nat) (d : δ) : Table δ :=
  Function.update t n (some d)

/-- The number `n` is freed, whatever it stood for. -/
def closed (t : Table δ) (n : Nat) : Table δ := Function.update t n none

end Table

@[simp] theorem opened_self : t.opened n d n = some d :=
  Function.update_self n _ t

theorem opened_of_ne (h : m ≠ n) : t.opened n d m = t m :=
  Function.update_of_ne h _ t

@[simp] theorem closed_self : t.closed n n = none :=
  Function.update_self n _ t

theorem closed_of_ne (h : m ≠ n) : t.closed n m = t m :=
  Function.update_of_ne h _ t

/-- What is open after an open is the new number or was open before,
under the number it has. -/
theorem getOpened (h : t.opened n d m = some e) :
    (m = n ∧ e = d) ∨ (m ≠ n ∧ t m = some e) := by
  by_cases hm : m = n
  · subst hm
    rw [opened_self] at h
    exact Or.inl ⟨rfl, (Option.some.inj h).symm⟩
  · exact Or.inr ⟨hm, (opened_of_ne hm).symm.trans h⟩

/-- What is open after a close was open, under another number. -/
theorem getClosed : t.closed n m = some e ↔ m ≠ n ∧ t m = some e := by
  by_cases hm : m = n
  · subst hm
    simp
  · rw [closed_of_ne hm]
    exact ⟨fun h => ⟨hm, h⟩, fun h => h.2⟩

-- ==================================================================== holders

/-- Everything on the list is open under its number: what a holder of
descriptors relies on. -/
def AllOpen (t : Table δ) (xs : List (Nat × δ)) : Prop :=
  ∀ x ∈ xs, t x.1 = some x.2

theorem allOpen_nil : AllOpen t [] := fun _ h => absurd h List.not_mem_nil

theorem allOpen_cons {xs : List (Nat × δ)} :
    AllOpen t ((n, d) :: xs) ↔ t n = some d ∧ AllOpen t xs :=
  List.forall_mem_cons

/-- Two things held are held under two numbers. -/
theorem ne_of_open (hn : t n = some d) (hm : t m = some e) (h : d ≠ e) :
    n ≠ m := by
  intro heq
  subst heq
  exact h (Option.some.inj (hn.symm.trans hm))

variable {xs : List (Nat × δ)}

/-- Giving out a free number leaves alone what is held. -/
theorem AllOpen.opened (h : AllOpen t xs) (hfree : t n = none) :
    AllOpen (t.opened n d) xs := by
  intro x hx
  have hne : x.1 ≠ n := by
    intro heq
    have hopen := h x hx
    rw [heq, hfree] at hopen
    cases hopen
  exact (opened_of_ne hne).trans (h x hx)

/-- So does closing a number that is not on the list. -/
theorem AllOpen.closed (h : AllOpen t xs) (hne : ∀ x ∈ xs, x.1 ≠ n) :
    AllOpen (t.closed n) xs :=
  fun x hx => (closed_of_ne (hne x hx)).trans (h x hx)

/-- So does closing a number that stands for something not on the
list. -/
theorem AllOpen.closed_of (h : AllOpen t xs) (hn : t n = some d)
    (hd : ∀ x ∈ xs, x.2 ≠ d) : AllOpen (t.closed n) xs :=
  h.closed fun x hx => ne_of_open (h x hx) hn (hd x hx)

-- ============================================================ on top of a table

/-- `t'` is `t` with the numbers on the list given out one after another,
each while it was free. The list is what stands to be taken back. -/
inductive Grown (t : Table δ) : List (Nat × δ) → Table δ → Prop
  | nil : Grown t [] t
  | snoc {xs : List (Nat × δ)} {t' : Table δ} {n : Nat} {d : δ}
      (h : Grown t xs t') (free : t' n = none) :
      Grown t (xs ++ [(n, d)]) (t'.opened n d)

/-- A number given out and freed again is as it was, so an open and its
close leave no trace. -/
theorem closed_opened (hfree : t n = none) : (t.opened n d).closed n = t := by
  unfold Table.closed Table.opened
  rw [Function.update_idem, ← hfree]
  exact Function.update_eq_self n t

variable {t' : Table δ}

/-- Nothing on top: the table itself. -/
theorem Grown.eq_of_nil (h : Grown t [] t') : t' = t := by
  generalize hys : ([] : List (Nat × δ)) = ys at h
  cases h with
  | nil => rfl
  | snoc => exact absurd hys.symm (by simp)

/-- Closing what was opened last takes it off the list, and what is left
is grown by the rest. -/
theorem Grown.closed (h : Grown t (xs ++ [(n, d)]) t') :
    Grown t xs (t'.closed n) := by
  generalize hys : xs ++ [(n, d)] = ys at h
  cases h with
  | nil => exact absurd hys (by simp)
  | @snoc xs' t'' m e hgrown hfree =>
      obtain ⟨hxs, hlast⟩ := List.append_inj' hys rfl
      cases hlast
      subst hxs
      rwa [closed_opened hfree]

end Descriptors
