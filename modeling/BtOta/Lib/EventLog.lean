/-
Properties of a growing log of events.

A run records what happened in a list, oldest event first. "Whenever
`e` happens, `P` held of what had happened before" is `Always P log`,
and "at some point `e` happened, with `P` of what had happened before"
is `Sometime P log`. A log grows at its end, so `Always` is kept one
event at a time (`always_snoc`), which is how a step of a system keeps
it, and `Sometime` is never lost (`Sometime.append`). Both are decidable
where `P` is.
-/
import Mathlib.Data.List.Induction
import Mathlib.Logic.Basic

namespace EventLog

variable {ε : Type*}

/-- Every event of the log stands in the relation `P` to the events
before it. -/
def Always (P : List ε → ε → Prop) (log : List ε) : Prop :=
  ∀ before e after, log = before ++ e :: after → P before e

theorem always_nil (P : List ε → ε → Prop) : Always P [] := by
  intro before e after h
  exact absurd h (by simp)

/-- A log with one more event keeps the property exactly if the new event
does. This is the step of every run. -/
theorem always_snoc {P : List ε → ε → Prop} {log : List ε} {e : ε} :
    Always P (log ++ [e]) ↔ Always P log ∧ P log e := by
  constructor
  · intro h
    refine ⟨fun before e' after hlog => ?_, h log e [] rfl⟩
    exact h before e' (after ++ [e]) (by simp [hlog])
  · intro h before e' after heq
    obtain ⟨hlog, he⟩ := h
    rcases List.eq_nil_or_concat after with rfl | ⟨init, last, rfl⟩
    · obtain ⟨rfl, h⟩ := List.append_inj' heq rfl
      cases h
      exact he
    · have heq' : log ++ [e] = (before ++ e' :: init) ++ [last] := by
        simpa using heq
      exact hlog before e' init (List.append_inj' heq' rfl).1

/-- Growing a log by a list of events: each is judged against what is
before it. -/
theorem always_append {P : List ε → ε → Prop} {log es : List ε} :
    Always P (log ++ es) ↔
      Always P log ∧ Always (fun before e => P (log ++ before) e) es := by
  induction es using List.reverseRecOn with
  | nil => simp [always_nil]
  | append_singleton es e ih =>
      rw [← List.append_assoc, always_snoc, ih, always_snoc, and_assoc]

/-- Where an event occurs only last, there is one place to find it. -/
theorem split_last {init before after : List ε} {e e' : ε}
    (h : init ++ [e] = before ++ e' :: after) (he : e' ∉ init) :
    init = before := by
  rcases List.eq_nil_or_concat after with rfl | ⟨mid, last, rfl⟩
  · exact (List.append_inj' h rfl).1
  · have h' : init ++ [e] = (before ++ e' :: mid) ++ [last] := by
      simpa using h
    have hinit := (List.append_inj' h' rfl).1
    exact absurd (by simp [hinit]) he

/-- Events that satisfy the property whatever came before them, so
nothing need be known of the log. -/
theorem Always.append_of {P : List ε → ε → Prop} {log es : List ε}
    (h : Always P log) (hes : ∀ e ∈ es, ∀ before, P before e) :
    Always P (log ++ es) := by
  refine always_append.mpr ⟨h, fun before e after heq => ?_⟩
  exact hes e (by simp [heq]) _

/-- A property of logs position by position, which is the form it can be
decided in. -/
theorem always_iff_take {P : List ε → ε → Prop} {log : List ε} :
    Always P log ↔
      ∀ i (hi : i < log.length), P (log.take i) (log.get ⟨i, hi⟩) := by
  constructor
  · intro h i hi
    apply h (log.take i) _ (log.drop (i + 1))
    rw [List.get_eq_getElem, ← List.drop_eq_getElem_cons hi,
      List.take_append_drop]
  · intro h before e after hlog
    subst hlog
    simpa using h before.length (by simp)

instance (P : List ε → ε → Prop) [∀ log e, Decidable (P log e)]
    (log : List ε) : Decidable (Always P log) :=
  decidable_of_iff _ always_iff_take.symm

-- ================================================================ sometime

/-- Some event of the log stands in the relation `P` to the events
before it. -/
def Sometime (P : List ε → ε → Prop) (log : List ε) : Prop :=
  ∃ before e after, log = before ++ e :: after ∧ P before e

/-- What has happened has happened, however the log grows: the witness
stays in its place. -/
theorem Sometime.append {P : List ε → ε → Prop} {log : List ε}
    (h : Sometime P log) (es : List ε) : Sometime P (log ++ es) := by
  obtain ⟨before, e, after, rfl, he⟩ := h
  exact ⟨before, e, after ++ es, by simp, he⟩

/-- Nothing has happened `P`-wise exactly if each event avoided it. -/
theorem not_sometime {P : List ε → ε → Prop} {log : List ε} :
    ¬ Sometime P log ↔ Always (fun before e => ¬ P before e) log := by
  constructor
  · intro h before e after hlog he
    exact h ⟨before, e, after, hlog, he⟩
  · intro h hsome
    obtain ⟨before, e, after, hlog, he⟩ := hsome
    exact h before e after hlog he

instance (P : List ε → ε → Prop) [∀ log e, Decidable (P log e)]
    (log : List ε) : Decidable (Sometime P log) :=
  decidable_of_iff (¬ Always (fun before e => ¬ P before e) log)
    (by rw [← not_sometime, not_not])

end EventLog
