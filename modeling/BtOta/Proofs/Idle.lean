/-
The wait loop while nothing arrives: as long as `OTAStage` stays
STAGE_RETRYING the sender polls and polls, and nothing but its
`wait_count` changes. `reach_polled` plays the loop to any count below
OTA_WAIT_TIME, so a run with a timeout can be written down without its
749 polls.
-/
import BtOta.Link

namespace BtOta.Link

/-- The joined system with its sender elsewhere in the wait loop. -/
def polled (l : Link) (pc : SPc) (waitCount : Nat) : Link :=
  { l with s := { l.s with snd := { l.s.snd with
      pc := pc, waitCount := waitCount } } }

variable {cs : CharSign} {l : Link}

theorem step_wait {n : Nat} (hn : n + 1 < otaWaitTime) :
    step cs (l.polled .wait n) (.send .tick)
      = some (l.polled .pollNext (n + 1)) := by
  simp [step, Session.step, otaUpdate, polled, hn, written,
    Session.spawn]

theorem step_pollNext {n : Nat} (hst : l.s.g.otaStage = .retrying) :
    step cs (l.polled .pollNext n) (.send .tick)
      = some (l.polled .pollErr n) := by
  simp [step, Session.step, otaUpdate, polled, hst, written, Session.spawn]

theorem step_pollErr {n : Nat} (hst : l.s.g.otaStage = .retrying) :
    step cs (l.polled .pollErr n) (.send .tick)
      = some (l.polled .pollComplete n) := by
  simp [step, Session.step, otaUpdate, polled, hst, written, Session.spawn]

theorem step_pollComplete {n : Nat} (hst : l.s.g.otaStage = .retrying) :
    step cs (l.polled .pollComplete n) (.send .tick)
      = some (l.polled .wait n) := by
  simp [step, Session.step, otaUpdate, polled, hst, written, Session.spawn]

/-- The sender polls on while nothing arrives, up to any count below
OTA_WAIT_TIME, if the guard lets it take each of these steps. -/
theorem reach_polled {ok : Link → LAct → Prop} {n : Nat}
    (hst : l.s.g.otaStage = .retrying) (hn : n < otaWaitTime)
    (hok : ∀ pc k, (pc = .wait → k < n) → ok (l.polled pc k) (.send .tick)) :
    Lts.Reach (step cs) ok (l.polled .wait 0) (l.polled .wait n) := by
  suffices h : ∀ k, k ≤ n →
      Lts.Reach (step cs) ok (l.polled .wait 0) (l.polled .wait k) from
    h n (Nat.le_refl n)
  intro k
  induction k with
  | zero => exact fun _ => Lts.Reach.refl _
  | succ k ih =>
      intro hk
      have h₁ := (ih (by omega)).tail (hok _ _ fun _ => hk)
        (step_wait (by omega))
      have h₂ := h₁.tail (hok _ _ (by simp)) (step_pollNext hst)
      have h₃ := h₂.tail (hok _ _ (by simp)) (step_pollErr hst)
      exact h₃.tail (hok _ _ (by simp)) (step_pollComplete hst)

end BtOta.Link
