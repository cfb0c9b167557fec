/-
Labelled transition systems given by a partial step function, with a
guard on the steps a run may take.

# Why a guard

A system's step function says what CAN happen; a property often holds
only of the runs whose steps all meet some condition on the state and
the action (an environment that behaves, a branch that is not taken).
`Step step ok` restricts the step function by such a guard and `Reach`
is its reflexive transitive closure, so "in every run whose steps all
meet the condition" is reachability under that guard. The guard that
allows everything is `free`.

# What is here

- `Reach.invariant`: what one step preserves, a whole run preserves.
- `Reach.mono`: a stricter guard reaches fewer states.
- `Reach.simulates`: a step-by-step simulation carries reachability.
- `Reach.turns`: the step at which a property comes to hold.
- `Run`, a run with its actions: `Run.invariant`, `Run.countP_le` and
  `Run.length_le`, by which a measure bounds a run, `Run.bounded`, by
  which a bound on the end is one on the way, and `Run.lockstep`, by
  which a second system takes the same actions.
- `run`: the executable spine, a list of actions played in order under
  the guard; what it computes is a run (`Run.of_run`), and the only one
  with these actions (`Run.run_eq`).
-/
import Mathlib.Logic.Relation

namespace Lts

variable {σ α τ β : Type*}

-- ============================================================ reachability

/-- The guard that allows every step. -/
def free (_ : σ) (_ : α) : Prop := True

/-- One step of the system that the guard allows, by whichever action. -/
def Step (step : σ → α → Option σ) (ok : σ → α → Prop) (s s' : σ) : Prop :=
  ∃ a, ok s a ∧ step s a = some s'

/-- Reachability by steps the guard allows. -/
def Reach (step : σ → α → Option σ) (ok : σ → α → Prop) : σ → σ → Prop :=
  Relation.ReflTransGen (Step step ok)

namespace Reach

variable {step : σ → α → Option σ} {ok ok' : σ → α → Prop} {s₀ s s' : σ}

theorem refl (s : σ) : Reach step ok s s := Relation.ReflTransGen.refl

theorem tail {a : α} (h : Reach step ok s₀ s) (hok : ok s a)
    (hs : step s a = some s') : Reach step ok s₀ s' :=
  Relation.ReflTransGen.tail h ⟨a, hok, hs⟩

theorem trans (h : Reach step ok s₀ s) (h' : Reach step ok s s') :
    Reach step ok s₀ s' :=
  Relation.ReflTransGen.trans h h'

/-- What holds initially and survives every allowed step holds in every
state reached. The induction on runs is done here, once. -/
theorem invariant {I : σ → Prop} (h : Reach step ok s₀ s) (h₀ : I s₀)
    (hstep : ∀ s a s', I s → ok s a → step s a = some s' → I s') : I s := by
  induction h with
  | refl => exact h₀
  | tail _ hst ih =>
      obtain ⟨a, hok, hs⟩ := hst
      exact hstep _ a _ ih hok hs

/-- An invariant may use a second one already established along the same
run, so the two need not be proved together. -/
theorem invariant₂ {I J : σ → Prop} (h : Reach step ok s₀ s)
    (hJ : ∀ s, Reach step ok s₀ s → J s) (h₀ : I s₀)
    (hstep : ∀ s a s', J s → I s → ok s a → step s a = some s' → I s') :
    I s := by
  induction h with
  | refl => exact h₀
  | tail hr hst ih =>
      obtain ⟨a, hok, hs⟩ := hst
      exact hstep _ a _ (hJ _ hr) ih hok hs

/-- A stricter guard reaches fewer states, so what is proved under a weak
one holds under a strong one. -/
theorem mono (h : Reach step ok s₀ s) (himp : ∀ s a, ok s a → ok' s a) :
    Reach step ok' s₀ s :=
  h.invariant (refl s₀) fun _ a _ hr hok hs => hr.tail (himp _ a hok) hs

/-- A simulation: every allowed step of one system is matched by zero or
more steps of the other, so a run of the first gives a run of the
second between related states. The match may rely on the second state
being reachable. -/
theorem simulates {step₂ : τ → β → Option τ} {ok₂ : τ → β → Prop}
    {R : σ → τ → Prop} {t₀ : τ} (h : Reach step ok s₀ s) (h₀ : R s₀ t₀)
    (hsim : ∀ s a s' t, Reach step₂ ok₂ t₀ t → R s t → ok s a →
      step s a = some s' → ∃ t', R s' t' ∧ Reach step₂ ok₂ t t') :
    ∃ t, R s t ∧ Reach step₂ ok₂ t₀ t := by
  refine h.invariant (I := fun s => ∃ t, R s t ∧ Reach step₂ ok₂ t₀ t)
    ⟨t₀, h₀, refl t₀⟩ ?_
  intro s a s' hex hok hs
  obtain ⟨t, hR, ht⟩ := hex
  obtain ⟨t', hR', ht'⟩ := hsim s a s' t ht hR hok hs
  exact ⟨t', hR', ht.trans ht'⟩

/-- What does not hold at first and holds in the end comes to hold at
some step on the way, which a property can then be asked about. -/
theorem turns {P : σ → Prop} (h : Reach step ok s₀ s) (h₀ : ¬ P s₀)
    (hs : P s) :
    ∃ s₁ a s₂, Reach step ok s₀ s₁ ∧ ¬ P s₁ ∧ ok s₁ a
      ∧ step s₁ a = some s₂ ∧ P s₂ ∧ Reach step ok s₂ s := by
  induction h with
  | refl => exact absurd hs h₀
  | @tail s₁ s₂ hr hst ih =>
      by_cases hP : P s₁
      · obtain ⟨t₁, a, t₂, ht₁, hn, hok, hstep, hp, ht₂⟩ := ih hP
        exact ⟨t₁, a, t₂, ht₁, hn, hok, hstep, hp,
          Relation.ReflTransGen.tail ht₂ hst⟩
      · obtain ⟨a, hok, hstep⟩ := hst
        exact ⟨s₁, a, s₂, hr, hP, hok, hstep, hs, refl s₂⟩

end Reach

-- ==================================================================== runs

/-- A guarded run with its actions, for properties that count them or
play them on another system. -/
inductive Run (step : σ → α → Option σ) (ok : σ → α → Prop) :
    σ → List α → σ → Prop
  | nil (s : σ) : Run step ok s [] s
  | cons {s s' s'' : σ} {a : α} {as : List α} :
      ok s a → step s a = some s' → Run step ok s' as s'' →
      Run step ok s (a :: as) s''

theorem Run.reach {step : σ → α → Option σ} {ok : σ → α → Prop} {s s' : σ}
    {as : List α} (h : Run step ok s as s') : Reach step ok s s' := by
  induction h with
  | nil s => exact Reach.refl s
  | cons hok hs _ ih => exact ((Reach.refl _).tail hok hs).trans ih

theorem Run.append {step : σ → α → Option σ} {ok : σ → α → Prop}
    {s s' s'' : σ} {as bs : List α} (h : Run step ok s as s')
    (h' : Run step ok s' bs s'') : Run step ok s (as ++ bs) s'' := by
  induction h with
  | nil s => exact h'
  | cons hok hs _ ih => exact .cons hok hs (ih h')

/-- A guard on the actions alone is one on their list, so it can be added
to a run afterwards. -/
theorem Run.restrict {step : σ → α → Option σ} {ok : σ → α → Prop}
    {s s' : σ} {as : List α} {P : α → Prop} (h : Run step ok s as s')
    (hP : ∀ a ∈ as, P a) : Run step (fun s a => ok s a ∧ P a) s as s' := by
  induction h with
  | nil s => exact .nil s
  | cons hok hs _ ih =>
      have hrest := ih fun a ha => hP a (List.mem_cons_of_mem _ ha)
      exact .cons ⟨hok, hP _ List.mem_cons_self⟩ hs hrest

/-- Where a quantity does not fall, what bounds it in the end bounds it
at every step on the way. -/
theorem Run.bounded {step : σ → α → Option σ} {ok : σ → α → Prop} {s s' : σ}
    {as : List α} {f : σ → Nat} (h : Run step ok s as s')
    (hf : ∀ s a s', step s a = some s' → f s ≤ f s') :
    f s ≤ f s'
      ∧ Run step (fun s a => ok s a ∧ f s ≤ f s') s as s' := by
  induction h with
  | nil s => exact ⟨Nat.le_refl _, .nil s⟩
  | cons hok hs _ ih =>
      have hle := Nat.le_trans (hf _ _ _ hs) ih.1
      exact ⟨hle, .cons ⟨hok, hle⟩ hs ih.2⟩

/-- An invariant of a run may speak of the actions taken so far; the step
is at the run's end. -/
theorem Run.invariant {step : σ → α → Option σ} {ok : σ → α → Prop}
    {s₀ s : σ} {as : List α} {I : List α → σ → Prop}
    (h : Run step ok s₀ as s) (h₀ : I [] s₀)
    (hstep : ∀ as s a s', I as s → ok s a → step s a = some s' →
      I (as ++ [a]) s') : I as s := by
  suffices hpre : ∀ pre, I pre s₀ → I (pre ++ as) s from hpre [] h₀
  clear h₀
  induction h with
  | nil s =>
      intro pre hi
      rwa [List.append_nil]
  | cons hok hs _ ih =>
      intro pre hi
      have hrest := ih _ (hstep pre _ _ _ hi hok hs)
      rwa [List.append_assoc] at hrest

/-- Two systems in lockstep: what keeps two states related under one
action keeps them related under a whole run, and the second takes the
actions the first does. -/
theorem Run.lockstep {step : σ → α → Option σ} {ok : σ → α → Prop}
    {step₂ : τ → α → Option τ} {ok₂ : τ → α → Prop} {R : σ → τ → Prop}
    {s s' : σ} {t : τ} {as : List α} (h : Run step ok s as s')
    (h₀ : R s t)
    (hsim : ∀ s a s' t, R s t → ok s a → step s a = some s' →
      ∃ t', R s' t' ∧ ok₂ t a ∧ step₂ t a = some t') :
    ∃ t', R s' t' ∧ Run step₂ ok₂ t as t' := by
  induction h generalizing t with
  | nil s => exact ⟨t, h₀, .nil t⟩
  | cons hok hs _ ih =>
      obtain ⟨t₁, hR, hok₂, hstep₂⟩ := hsim _ _ _ _ h₀ hok hs
      obtain ⟨t', hR', hrun⟩ := ih hR
      exact ⟨t', hR', .cons hok₂ hstep₂ hrun⟩

/-- Along a run whose reachable steps lower `μ` where `p` counts them
and raise it nowhere, the measure pays for every step counted. -/
theorem Run.countP_le {step : σ → α → Option σ} {ok : σ → α → Prop}
    {s₀ s s' : σ} {as : List α} (p : α → Bool) (μ : σ → Nat)
    (hμ : ∀ s a s', Reach step ok s₀ s → ok s a → step s a = some s' →
      μ s' + (if p a then 1 else 0) ≤ μ s)
    (hr : Reach step ok s₀ s) (h : Run step ok s as s') :
    as.countP p + μ s' ≤ μ s := by
  induction h with
  | nil s => simp
  | cons hok hs _ ih =>
      have hle := hμ _ _ _ hr hok hs
      have hrest := ih (hr.tail hok hs)
      rw [List.countP_cons]
      omega

/-- Along a run whose reachable steps all lower `μ`, the measure pays for
every step, so the run is no longer than `μ` was. -/
theorem Run.length_le {step : σ → α → Option σ} {ok : σ → α → Prop}
    {s₀ s s' : σ} {as : List α} (μ : σ → Nat)
    (hμ : ∀ s a s', Reach step ok s₀ s → ok s a → step s a = some s' →
      μ s' < μ s)
    (hr : Reach step ok s₀ s) (h : Run step ok s as s') :
    as.length + μ s' ≤ μ s := by
  have hcount := h.countP_le (fun _ => true) μ hμ hr
  rwa [List.countP_true] at hcount

-- ========================================================= executable spine

/-- Play a list of actions, failing on the first that is disabled or
that the guard does not allow. -/
def run (step : σ → α → Option σ) (ok : σ → α → Prop)
    [∀ s a, Decidable (ok s a)] (s : σ) : List α → Option σ
  | [] => some s
  | a :: as =>
      if ok s a then
        match step s a with
        | some s' => run step ok s' as
        | none => none
      else none

instance (s : σ) (a : α) : Decidable (free s a) :=
  inferInstanceAs (Decidable True)

section Spine

variable {step : σ → α → Option σ} {ok : σ → α → Prop}
  [∀ s a, Decidable (ok s a)]

/-- What plays to its end is a run. -/
theorem Run.of_run {s s' : σ} {as : List α}
    (h : run step ok s as = some s') : Run step ok s as s' := by
  induction as generalizing s with
  | nil =>
      cases h
      exact .nil _
  | cons a as ih =>
      rw [run] at h
      split at h
      case isFalse => cases h
      case isTrue hok =>
        cases hs : step s a with
        | none => simp [hs] at h
        | some s₁ =>
            rw [hs] at h
            exact .cons hok hs (ih h)

/-- And a run is what plays to its end. -/
theorem Run.run_eq {s s' : σ} {as : List α} (h : Run step ok s as s') :
    run step ok s as = some s' := by
  induction h with
  | nil s => rfl
  | cons hok hs _ ih =>
      rw [run, if_pos hok, hs]
      exact ih

/-- A list of actions that plays to its end, named by what it computes,
so that nothing has to be written out. -/
theorem Run.of_isSome {s : σ} {as : List α}
    (h : (run step ok s as).isSome = true) :
    Run step ok s as ((run step ok s as).getD s) := by
  obtain ⟨s', hs'⟩ := Option.isSome_iff_exists.mp h
  rw [hs']
  exact Run.of_run hs'

theorem Reach.of_isSome {s : σ} {as : List α}
    (h : (run step ok s as).isSome = true) :
    Reach step ok s ((run step ok s as).getD s) :=
  (Run.of_isSome h).reach

end Spine

end Lts
