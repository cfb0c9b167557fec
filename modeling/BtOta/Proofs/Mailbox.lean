/-
Whether an acknowledgement that has been recorded can be lost.

It can. `OTAStage` holds one value: a second response overwrites it
before the sender has polled (`lost_ack`), and a response recorded
behind the last poll of the wait is overwritten by the sender's own
STAGE_RETRYING, though the comment there says that no response came.

`seen` asks of hidRead's store that, with an acknowledgement of the
packet outstanding recorded by it or before it, it leave a stage in the
mailbox that a poll is still to come for. In every run whose stores all
meet it, the sender neither retries nor fails with such an
acknowledgement pending (`ack_kept`): the invariant is that the stage
in the mailbox is one the sender will see, and the sender's own moves
through the wait loop keep it.
-/
import BtOta.Proofs.Frame

namespace BtOta

open EventLog

/-- The sender has a poll ahead of it, in this wait, that sees this
acknowledgement in the mailbox. -/
def willSee (x : Stage) (snd : Sender) : Bool :=
  match snd.pc, x with
  | .wait, .nextCmd | .wait, .complete => snd.waitCount + 1 < otaWaitTime
  | .pollNext, .nextCmd | .pollNext, .complete => true
  | .pollErr, .complete | .pollComplete, .complete => true
  | .pollErr, .nextCmd | .pollComplete, .nextCmd =>
      snd.waitCount + 1 < otaWaitTime
  | _, _ => false

/-- The stage hidRead is about to store, where it stands before a store.
-/
def Session.storing (s : Session) : Option Stage :=
  match s.rdr with
  | some (.store x) => some x
  | _ => none

/-- Once hidRead's store has been made, an acknowledgement pending is
one that the sender will see. -/
def seen (s : Session) (a : Act) : Prop :=
  a = .read .tick → ∀ x ∈ s.storing,
    ackPending (s.trace ++ [.stored x s.g.rspCmd]) = true →
    willSee x s.snd = true

instance (s : Session) (a : Act) : Decidable (seen s a) :=
  inferInstanceAs (Decidable (_ → ∀ x ∈ s.storing, _ → _))

/-- The event loses an acknowledgement: the packet is retried, is
transmitted again, or the session fails. -/
def Event.discards : Event → Bool
  | .goto .retryCmd _ | .goto .otaFail _ | .tx _ _ => true
  | _ => false

/-- Nothing is retried, transmitted or failed with an acknowledgement of
it pending. This is what the sender's polling is for. -/
def AckKept (before : List Event) (e : Event) : Prop :=
  e.discards = true → ackPending before = false

instance (before : List Event) (e : Event) : Decidable (AckKept before e) :=
  inferInstanceAs (Decidable (_ → _))

/-- What a run under `seen` keeps: a pending acknowledgement is in the
mailbox, and the sender has a poll ahead that sees it. -/
structure MailboxInv (s : Session) : Prop where
  mail : ackPending s.trace = true → willSee s.g.otaStage s.snd = true
  log : Always AckKept s.trace

variable {cs : CharSign} {g g' : Shared} {l l' : Sender} {es : List Event}
  {i : SIn}

/-- Where a stage the sender will see finds it. -/
theorem willSee_inv {x : Stage} {snd : Sender} (h : willSee x snd = true) :
    (x = .nextCmd ∨ x = .complete)
      ∧ (snd.pc = .wait ∧ snd.waitCount + 1 < otaWaitTime
        ∨ snd.pc = .pollNext
        ∨ (snd.pc = .pollErr ∨ snd.pc = .pollComplete)
          ∧ (x = .complete ∨ snd.waitCount + 1 < otaWaitTime)) := by
  unfold willSee at h
  split at h <;> simp_all

/-- A stage the sender will see, one move later: it has been seen, or it
is still ahead, and nothing was lost in between. -/
theorem SStep.willSee (h : SStep cs g l i g' l' es)
    (hsee : BtOta.willSee g.otaStage l = true) :
    (∃ k, es = [.goto .nextCmd k] ∨ es = [.goto .otaSuccess k])
      ∨ es = [] ∧ BtOta.willSee g'.otaStage l' = true := by
  obtain ⟨hx, hpc⟩ := willSee_inv hsee
  cases h with
  | nextHit pc hst => exact Or.inl ⟨_, Or.inl rfl⟩
  | completeHit pc hst => exact Or.inl ⟨_, Or.inr rfl⟩
  | poll pc hlt =>
      refine Or.inr ⟨rfl, ?_⟩
      rcases hx with hx | hx <;> simp [BtOta.willSee, hx]
  | timeout pc hge =>
      rcases hpc with ⟨-, hlt⟩ | hpc | ⟨hpc | hpc, -⟩
      · omega
      all_goals exact nomatch pc.symm.trans hpc
  | nextMiss pc hst =>
      obtain hx := hx.resolve_left hst
      exact Or.inr ⟨rfl, by simp [BtOta.willSee, hx]⟩
  | errHit pc hst => simp [hst] at hx
  | errMiss pc hst =>
      refine Or.inr ⟨rfl, ?_⟩
      rcases hx with hx | hx <;> simp_all [BtOta.willSee]
  | completeMiss pc hst =>
      have hnext := hx.resolve_right hst
      refine Or.inr ⟨rfl, ?_⟩
      simp_all [BtOta.willSee]
  | init pc | openFail pc | opened pc | openOver pc | created pc | next pc
  | newStage pc | assemble pc | crash pc | retry pc | giveUp pc | wrote pc
  | writeFail pc | flag pc | verdict pc | stop pc | quitThread pc
  | quitServ pc => simp [pc] at hpc

/-- Only hidRead's store makes an acknowledgement pending, so a move of
the sender makes none. -/
theorem ackPending_mono {trace es : List Event}
    (hes : ∀ e ∈ es, e.fromReader = false)
    (h : ackPending trace = false) : ackPending (trace ++ es) = false := by
  induction es using List.reverseRecOn with
  | nil => simpa using h
  | append_singleton es e ih =>
      have hpre := ih fun e' he' => hes e' (List.mem_append_left _ he')
      have he := hes e (by simp)
      rw [← List.append_assoc, ackPending_snoc, hpre]
      cases e with
      | goto lb k => cases lb <;> rfl
      | stored x rsp => cases he
      | _ => rfl

/-- What hidRead does beside its store leaves the acknowledgements as
they are: a response read is not yet recorded. -/
theorem RStep.ackPending {pc pc' : RPc} {j : RIn}
    (h : RStep cs g pc j g' pc' es) (hpc : ∀ x, pc ≠ .store x)
    (trace : List Event) :
    BtOta.ackPending (trace ++ es) = BtOta.ackPending trace := by
  apply ackPending_append _
  intro e he o b
  cases h with
  | report hpc r hrid | stray hpc r hrid =>
      rcases List.mem_cons.mp he with rfl | he
      · rfl
      · rw [Shared.mem_verbose he]
        rfl
  | decide hpc hx =>
      obtain ⟨m, -, rfl⟩ := List.mem_map.mp he
      rfl
  | store hstore => exact absurd hstore (hpc _)
  | readFail | failLog | failStop =>
      rw [List.mem_singleton.mp he]
      rfl
  | enter | leave | ignore | failFlag => cases he

theorem MailboxInv.send {s : Session} (hi : MailboxInv s)
    (h : SStep cs s.g s.snd i g' l' es) :
    MailboxInv
      { g := g', snd := l', rdr := Session.spawn s.rdr i
        trace := s.trace ++ es } := by
  have hes : ∀ e ∈ es, e.fromReader = false := fun e he =>
    (h.event he).fromReader
  cases hp : ackPending s.trace with
  | false =>
      refine ⟨fun hp' => ?_, always_append.mpr ⟨hi.log, ?_⟩⟩
      · cases (ackPending_mono hes hp).symm.trans hp'
      · intro before e after heq _
        exact ackPending_mono (fun e' he' => hes e' (by simp [heq, he'])) hp
  | true =>
      -- the sender is on its way to the poll that sees it
      rcases h.willSee (hi.mail hp) with ⟨k, rfl | rfl⟩ | ⟨rfl, hsee⟩
      · refine ⟨fun hp' => ?_, always_snoc.mpr ⟨hi.log, nofun⟩⟩
        cases (ackPending_snoc _ _).symm.trans hp'
      · refine ⟨fun hp' => ?_, always_snoc.mpr ⟨hi.log, nofun⟩⟩
        cases (ackPending_snoc _ _).symm.trans hp'
      · exact ⟨fun _ => hsee, by simpa using hi.log⟩

theorem MailboxInv.read {s : Session} {j : RIn} {pc pc' : RPc}
    (hi : MailboxInv s) (hok : seen s (.read j)) (hrdr : s.rdr = some pc)
    (h : RStep cs s.g pc j g' pc' es) :
    MailboxInv { s with g := g', rdr := some pc', trace := s.trace ++ es } := by
  have hlog : Always AckKept (s.trace ++ es) := by
    apply hi.log.append_of
    intro e he before hdis
    have hsend := h.fromSender e he
    cases e with
    | goto lb k | tx k packet => cases hsend
    | _ => cases hdis
  refine ⟨fun hp => ?_, hlog⟩
  show willSee g'.otaStage s.snd = true
  by_cases hpc : ∃ x, pc = .store x
  · obtain ⟨x, rfl⟩ := hpc
    have hstore : s.storing = some x := by
      rw [Session.storing, hrdr]
    cases h with
    | store hpc =>
        cases hpc
        exact hok rfl x hstore hp
    | enter hpc | leave hpc | readFail hpc | report hpc | stray hpc
    | failFlag hpc | failLog hpc | failStop hpc => cases hpc
    | decide hpc hx | ignore hpc hx => exact nomatch hpc
  · have hpc' : ∀ x, pc ≠ .store x := fun x hx => hpc ⟨x, hx⟩
    rcases h.otaStage with ⟨x, hx, -⟩ | hsame
    · exact absurd hx (hpc' x)
    · rw [hsame]
      exact hi.mail ((h.ackPending hpc' _).symm.trans hp)

/-- In every run under `seen`, a pending acknowledgement of the packet
outstanding is followed by no retry of it and no failure: the sender
moves on, or finishes. -/
theorem ack_kept {cs : CharSign} {g₀ : Shared} {param2 : Option String}
    {stack : Nat → UInt8} {file : List UInt8} {s : Session}
    (h : Lts.Reach (Session.step cs) seen
      (Session.start g₀ param2 stack file) s) :
    Always AckKept s.trace := by
  have hinv : MailboxInv s := by
    refine h.invariant (I := MailboxInv) ?_ ?_
    · refine ⟨fun hp => ?_, (always_nil _).append_of ?_⟩
      · have hnone : ackPending ([] ++ (Session.start g₀ param2 stack
            file).trace) = false := by
          refine ackPending_mono (fun e he => ?_) rfl
          obtain ⟨m, rfl⟩ := Session.start_log g₀ param2 stack file he
          rfl
        cases hnone.symm.trans hp
      · intro e he before hdis
        obtain ⟨m, rfl⟩ := Session.start_log g₀ param2 stack file he
        cases hdis
    · intro s a s' hi hok hs
      cases Session.step_inv hs with
      | send hm => exact hi.send hm
      | read hrdr hm => exact hi.read hok hrdr hm
  exact hinv.log

-- ========================================================== two sessions

/-- The DATA record is sent and its answer recorded. -/
def ackRecorded : Session :=
  (Lts.run (Session.step .unsigned) seen dataImage.session
    (sendFirst ++ readOne [0xA1, 0x02, 0, 0x02, 1, 0, 0])).getD
    dataImage.session

/-- An acknowledgement is pending, and nothing has been discarded. -/
theorem ack_kept_recorded :
    ackPending ackRecorded.trace = true ∧ Always AckKept ackRecorded.trace :=
  ⟨by decide, ack_kept (Lts.Reach.of_isSome (by decide))⟩

/-- Behind the answer to the DATA record a response with another
sequence number arrives, before the sender polls; the sender polls and
retries. -/
def overwritten : List Act :=
  sendFirst ++ readOne [0xA1, 0x02, 0, 0x02, 1, 0, 0]
    ++ readOne [0xA1, 0x02, 0, 0x02, 9, 0, 0]
    ++ [.send .tick, .send .tick, .send .tick, .send .tick, .send (.wrote 8)]

/-- The recorded acknowledgement of the DATA record is overwritten by a
later response, and the record is transmitted again. -/
theorem lost_ack :
    ¬ ∀ (cs : CharSign) (g₀ : Shared) (param2 : Option String)
        (stack : Nat → UInt8) (img : Image) (s : Session),
      Lts.Reach (Session.step cs) Lts.free
        (Session.start g₀ param2 stack img.bytes) s →
      Always AckKept s.trace := by
  intro h
  have hend := h .unsigned _ _ _ dataImage _ (Lts.Reach.of_isSome
    (show (Lts.run (Session.step .unsigned) Lts.free dataImage.session
      overwritten).isSome = true by decide))
  exact absurd hend (by decide)

end BtOta
