/-
The sender goes at the pace of the acknowledgements recorded.

ota_update compares its cursor with nothing, so what keeps it from
running through the image is hidRead alone: each packet but the first is
begun on a STAGE_NEXT_CMD that hidRead has stored in this session, one
for each, and no packet is transmitted more than three times. That is so
for any file, any reports, any results of the calls and any
interleaving, and whatever an earlier session has left in `OTAStage`;
where nothing is recorded, at most three packets are written and the
session does not succeed.

`owed` is the account: the packets begun, the one the sender is about to
begin, and the STAGE_NEXT_CMD in the mailbox that it has still to act
on. No move of the sender raises it, and a move of hidRead raises it
only where it stores one more.
-/
import BtOta.Proofs.Chain
import BtOta.Proofs.Ending
import BtOta.Proofs.Flight
import BtOta.Proofs.Verdict

namespace BtOta

variable {cs : CharSign} {g g' : Shared} {l l' : Sender} {es : List Event}
  {i : SIn} {s : Session}

/-- hidRead stored STAGE_NEXT_CMD. -/
def Event.recordsNext : Event → Bool
  | .stored .nextCmd _ => true
  | _ => false

/-- The acknowledgements recorded so far that move the sender on. -/
def nexts (trace : List Event) : Nat := trace.countP Event.recordsNext

/-- Packets are begun one for each acknowledgement recorded, and written
at most three times each; a jump to FLAG_OTA_SUCCESS comes after a
STAGE_COMPLETE was recorded. -/
structure Paced (s : Session) : Prop where
  begun : ∀ t ∈ sentOf s.trace, t.1 ≤ nexts s.trace + 1
  written : (sentOf s.trace).length ≤ 3 * (nexts s.trace + 1)
  success : (∃ e ∈ s.trace, e.succeeds = true) → recorded s.trace = true

-- =============================================================== the account

/-- The packets begun, the one about to be, and the acknowledgement the
sender has still to act on: what hidRead has to have recorded. -/
def owed (g : Shared) (l : Sender) : Nat :=
  g.totalCmdNum + (if l.pc.between = true then 1 else 0)
    + (if l.pc.awaiting = true ∧ g.otaStage = .nextCmd then 1 else 0)

theorem total_le_owed (g : Shared) (l : Sender) :
    g.totalCmdNum ≤ owed g l := by
  unfold owed
  omega

/-- The sender never raises it: going on to a packet uses up the
acknowledgement in the mailbox. -/
theorem SStep.owed_le (h : SStep cs g l i g' l' es)
    (hopened : l.pc ≠ .init ∧ l.pc ≠ .load) : owed g' l' ≤ owed g l := by
  unfold owed
  cases h with
  | init pc => exact absurd pc hopened.1
  | openFail pc | opened pc | openOver pc => exact absurd pc hopened.2
  | assemble pc hasm =>
      rw [(assembled_of_some hasm).total, pc]
      simp [SPc.between, SPc.awaiting]
  | nextHit pc hst =>
      rw [pc, hst]
      simp [SPc.between, SPc.awaiting]
  | wrote pc res hres | poll pc hlt | nextMiss pc hst | errMiss pc hst
  | completeMiss pc hst =>
      rw [pc]
      simp [SPc.between, SPc.awaiting]
  | created pc | next pc | newStage pc | crash pc | retry pc | giveUp pc
  | writeFail pc | timeout pc | errHit pc | completeHit pc | flag pc
  | verdict pc | stop pc | quitThread pc | quitServ pc =>
      rw [pc]
      simp [SPc.between, SPc.awaiting]

/-- hidRead raises it by one, where it stores STAGE_NEXT_CMD. -/
theorem RStep.owed_le {pc pc' : RPc} {j : RIn}
    (h : RStep cs g pc j g' pc' es) (l : Sender) :
    owed g' l ≤ owed g l + nexts es := by
  have htotal := h.frame.1
  unfold owed
  rw [htotal]
  rcases h.otaStage with ⟨x, -, -, hx, hes⟩ | hsame
  · by_cases hnext : x = .nextCmd
    · have hone : nexts es = 1 := by
        rw [hes, hnext]
        rfl
      rw [hone]
      split <;> split <;> omega
    · have hno : ¬ (l.pc.awaiting = true ∧ g'.otaStage = .nextCmd) :=
        fun h => hnext (hx.symm.trans h.2)
      rw [if_neg hno]
      omega
  · rw [hsame]
    omega

theorem nexts_append (trace es : List Event) :
    nexts (trace ++ es) = nexts trace + nexts es := List.countP_append

/-- Only hidRead records, so a move of the sender adds no
acknowledgement. -/
theorem SStep.nexts_eq (h : SStep cs g l i g' l' es) : nexts es = 0 := by
  refine List.countP_eq_zero.mpr fun e he hrec => ?_
  have hev := (h.event he).fromReader
  cases e with
  | stored x rsp => cases hev
  | log | goto | timeout | tx | report => cases hrec

-- ============================================================ the invariant

/-- What every run of a call keeps: what is begun, written and announced
is covered by what has been recorded. -/
structure PaceInv (s : Session) : Prop where
  unsent : (s.snd.pc = .init ∨ s.snd.pc = .load) → sentOf s.trace = []
  load : s.snd.pc = .load → s.g.totalCmdNum = 0
  account : s.snd.pc ≠ .init → owed s.g s.snd ≤ nexts s.trace + 1
  tries : s.snd.pc ≠ .init →
    (sentOf s.trace).length + attempts s.snd ≤ 3 * s.g.totalCmdNum
  begun : ∀ t ∈ sentOf s.trace, t.1 ≤ nexts s.trace + 1
  mail : s.snd.pc.awaiting = true → s.g.otaStage = .complete →
    recorded s.trace = true
  success : (∃ e ∈ s.trace, e.succeeds = true) → recorded s.trace = true

/-- Before the file is open there is nothing to account for, whatever an
earlier session has left in the counters. -/
theorem SStep.preparing (h : SStep cs g l i g' l' es)
    (hpc : l.pc = .init ∨ l.pc = .load) :
    sentOf es = [] ∧ l'.pc ≠ .init ∧ attempts l' = 0
      ∧ l'.pc.awaiting = false
      ∧ (g'.totalCmdNum = 0 ∨ l.pc = .load ∧ g'.totalCmdNum = g.totalCmdNum)
      ∧ ∀ e ∈ es, e.succeeds = false := by
  cases h with
  | init pc =>
      refine ⟨sentOf_verbose _ _, nofun, rfl, rfl, Or.inl rfl, ?_⟩
      intro e he
      rw [Shared.mem_verbose he]
      rfl
  | openFail pc =>
      refine ⟨rfl, nofun, rfl, rfl, Or.inr ⟨pc, rfl⟩, ?_⟩
      intro e he
      rcases List.mem_cons.mp he with rfl | he
      · rfl
      · rw [List.mem_singleton.mp he]
        rfl
  | opened pc =>
      refine ⟨rfl, nofun, rfl, rfl, Or.inr ⟨pc, rfl⟩, ?_⟩
      intro e he
      rw [List.mem_singleton.mp he]
      rfl
  | openOver pc =>
      exact ⟨rfl, nofun, rfl, rfl, Or.inr ⟨pc, rfl⟩, nofun⟩
  | created pc | next pc | newStage pc | assemble pc | crash pc | retry pc
  | giveUp pc | wrote pc | writeFail pc | poll pc | timeout pc | nextHit pc
  | nextMiss pc | errHit pc | errMiss pc | completeHit pc
  | completeMiss pc | flag pc | verdict pc | stop pc | quitThread pc
  | quitServ pc =>
      rw [pc] at hpc
      rcases hpc with h | h <;> cases h

theorem PaceInv.prepare (hi : PaceInv s)
    (hpc : s.snd.pc = .init ∨ s.snd.pc = .load)
    (h : SStep cs s.g s.snd i g' l' es) :
    PaceInv
      { g := g', snd := l', rdr := Session.spawn s.rdr i
        trace := s.trace ++ es } := by
  obtain ⟨hsent, hne, hatt, hidle, htotal, hquiet⟩ := h.preparing hpc
  have hnone : sentOf (s.trace ++ es) = [] := by
    rw [sentOf_append, hi.unsent hpc, hsent]
    rfl
  have hzero : g'.totalCmdNum = 0 := by
    rcases htotal with hzero | ⟨hload, hsame⟩
    · exact hzero
    · exact hsame.trans (hi.load hload)
  have howed : owed g' l' ≤ 1 := by
    unfold owed
    rw [hzero, hidle]
    split <;> simp
  constructor
  case unsent => exact fun _ => hnone
  case load => exact fun _ => hzero
  case account => exact fun _ => Nat.le_trans howed (Nat.le_add_left 1 _)
  case tries =>
    intro _
    show (sentOf (s.trace ++ es)).length + attempts l' ≤ _
    rw [hnone, hatt]
    exact Nat.zero_le _
  case begun =>
    intro t ht
    rw [show sentOf _ = [] from hnone] at ht
    cases ht
  case mail =>
    intro ha
    cases hidle.symm.trans ha
  case success =>
    intro hex
    obtain ⟨e, he, hsucc⟩ := hex
    dsimp only
    rw [h.recorded]
    rcases List.mem_append.mp he with he | he
    · exact hi.success ⟨e, he, hsucc⟩
    · cases (hquiet e he).symm.trans hsucc

/-- A step's transmissions come out of the three that the packet they
are of has brought. -/
theorem SStep.attempts_spent (hopened : l.pc ≠ .init ∧ l.pc ≠ .load)
    (h : SStep cs g l i g' l' es) :
    (sentOf es).length + attempts l' + 3 * g.totalCmdNum
      ≤ attempts l + 3 * g'.totalCmdNum := by
  rcases h.tally hopened with
    ⟨hpc, -, -, htotal, -⟩ | ⟨hpc, hpc', -, htotal, hsent⟩ | hstill
  · have hle := h.attempts_le hopened (by rw [hpc]; nofun)
    omega
  · -- a new packet brings three more transmissions
    have hthree : attempts l' ≤ 3 := by
      unfold attempts
      rw [hpc']
      simp [SPc.holding]
    rw [hsent, htotal, List.length_nil]
    omega
  · by_cases hpc : l.pc = .assemble
    · cases h with
      | assemble pc hasm =>
          have hle := (assembled_of_some hasm).total
          have hsame := hstill.total
          omega
      | crash pc hasm =>
          have hzero : attempts { l with pc := .undefined } = 0 := rfl
          rw [hzero]
          show 0 + 0 + 3 * g.totalCmdNum ≤ _
          omega
      | init pc | openFail pc | opened pc | openOver pc | created pc
      | next pc | newStage pc | retry pc | giveUp pc | wrote pc
      | writeFail pc | poll pc | timeout pc | nextHit pc | nextMiss pc
      | errHit pc | errMiss pc | completeHit pc | completeMiss pc
      | flag pc | verdict pc | stop pc | quitThread pc | quitServ pc =>
          cases pc.symm.trans hpc
    · have hle := h.attempts_le hopened hpc
      rw [hstill.total]
      omega

theorem PaceInv.send (hi : PaceInv s)
    (hopened : s.snd.pc ≠ .init ∧ s.snd.pc ≠ .load)
    (h : SStep cs s.g s.snd i g' l' es) :
    PaceInv
      { g := g', snd := l', rdr := Session.spawn s.rdr i
        trace := s.trace ++ es } := by
  have hnexts : nexts (s.trace ++ es) = nexts s.trace := by
    rw [nexts_append, h.nexts_eq, Nat.add_zero]
  have hopened' : l'.pc ≠ .init ∧ l'.pc ≠ .load :=
    ⟨fun hpc => hopened.1 (h.opening (Or.inl hpc)),
      fun hpc => hopened.1 (h.opening (Or.inr hpc))⟩
  have haccount := hi.account hopened.1
  have htries := hi.tries hopened.1
  constructor
  case unsent =>
    intro hpc
    exact (hpc.elim hopened'.1 hopened'.2).elim
  case load => exact fun hpc => absurd hpc hopened'.2
  case account =>
    -- the sender cannot get ahead of the acknowledgements recorded so far
    intro _
    dsimp only
    rw [hnexts]
    exact Nat.le_trans (h.owed_le hopened) haccount
  case tries =>
    intro _
    dsimp only
    rw [sentOf_append, List.length_append]
    have hspent := h.attempts_spent hopened
    omega
  case begun =>
    -- what is sent now carries the current number, which is accounted for
    intro t ht
    dsimp only at ht ⊢
    rw [hnexts]
    rw [sentOf_append] at ht
    rcases List.mem_append.mp ht with ht | ht
    · exact hi.begun t ht
    · obtain ⟨-, rfl⟩ := (h.numbered hopened).2 t ht
      exact Nat.le_trans (total_le_owed _ _) haccount
  case mail =>
    -- a retry overwrites the mailbox, so STAGE_COMPLETE was there before it
    intro ha hst
    dsimp only
    rw [h.recorded]
    rcases (h.awaiting ha).2 with ⟨-, hret⟩ | ⟨hwait, hsame⟩
    · cases hst.symm.trans hret
    · exact hi.mail hwait (hsame.symm.trans hst)
  case success =>
    intro hex
    obtain ⟨e, he, hsucc⟩ := hex
    dsimp only
    rw [h.recorded]
    rcases List.mem_append.mp he with he | he
    · exact hi.success ⟨e, he, hsucc⟩
    · obtain ⟨hpc, hst⟩ := (h.event he).succeeds hsucc
      refine hi.mail ?_ hst
      rw [hpc]
      rfl

theorem PaceInv.read {pc pc' : RPc} {j : RIn} (hi : PaceInv s)
    (h : RStep cs s.g pc j g' pc' es) :
    PaceInv { s with g := g', rdr := some pc', trace := s.trace ++ es } := by
  have hsent : sentOf (s.trace ++ es) = sentOf s.trace := by
    rw [sentOf_append, h.sentOf, List.append_nil]
  have htotal := h.frame.1
  have hrecorded : recorded s.trace = true →
      recorded (s.trace ++ es) = true := by
    intro hrec
    rw [recorded_append, hrec, Bool.true_or]
  constructor
  case unsent => exact fun hpc => hsent.trans (hi.unsent hpc)
  case load => exact fun hpc => htotal.trans (hi.load hpc)
  case account =>
    -- a recorded STAGE_NEXT_CMD raises both sides by one
    intro hpc
    have haccount := hi.account hpc
    have hle := h.owed_le s.snd
    dsimp only
    rw [nexts_append]
    omega
  case tries =>
    intro hpc
    dsimp only
    rw [hsent, htotal]
    exact hi.tries hpc
  case begun =>
    intro t ht
    dsimp only at ht ⊢
    rw [hsent] at ht
    rw [nexts_append]
    exact Nat.le_trans (hi.begun t ht) (by omega)
  case mail =>
    -- the store is logged in the step that makes it
    intro ha hst
    rcases h.otaStage with ⟨x, -, -, hx, hes⟩ | hsame
    · have hcomplete : x = .complete := hx.symm.trans hst
      show recorded (s.trace ++ es) = true
      rw [hes, hcomplete, recorded_append]
      exact Bool.or_true _
    · exact hrecorded (hi.mail ha (hsame.symm.trans hst))
  case success =>
    intro hex
    obtain ⟨e, he, hsucc⟩ := hex
    rcases List.mem_append.mp he with he | he
    · exact hrecorded (hi.success ⟨e, he, hsucc⟩)
    · have hev := h.fromSender e he
      cases e with
      | goto lb k => cases hev
      | log | timeout | tx | report | stored => cases hsucc

theorem PaceInv.paced (hi : PaceInv s) : Paced s := by
  refine ⟨hi.begun, ?_, hi.success⟩
  by_cases hpc : s.snd.pc = .init
  · rw [hi.unsent (Or.inl hpc)]
    exact Nat.zero_le _
  · have haccount := hi.account hpc
    have htries := hi.tries hpc
    have htotal := total_le_owed s.g s.snd
    omega

/-- Every call is paced, from whatever it finds, against an arbitrary
reader and channel. -/
theorem paced_of_call {g₀ : Shared} {param2 : Option String}
    {stack : Nat → UInt8}
    (h : Lts.Reach (Session.step cs) Lts.free
      (Session.call g₀ param2 stack) s) : Paced s := by
  refine PaceInv.paced (h.invariant (I := PaceInv) ?_ ?_)
  · exact ⟨fun _ => rfl, nofun, absurd rfl, absurd rfl, nofun, nofun, by
      simp [Session.call]⟩
  · intro s a s' hi _ hs
    cases Session.step_inv hs with
    | send hm =>
        by_cases hpc : s.snd.pc = .init ∨ s.snd.pc = .load
        · exact hi.prepare hpc hm
        · exact hi.send (not_or.mp hpc) hm
    | read hrdr hm => exact hi.read hm

/-- In every run of a process whose sessions are joined, the process has
gone through a chain of sessions, as `reach_chain` says of it: its calls,
its readers and its record are theirs, in their order. In the record of
each the packets begun, the packets written and the success are paid for
by what the session's own reader has recorded there. -/
theorem paced_sessions {p : Proc}
    (h : Lts.Reach (Proc.step cs) Proc.joined Proc.loaded p) :
    ∃ ss, Chain cs ss p.g ∧ p.trace = (ss.map Session.trace).flatten
      ∧ (∃ snds, p.calls = ss.map Session.snd ++ snds ∧ Pending ss snds)
      ∧ p.rdrs = readersOf ss ∧ ∀ s ∈ ss, Paced s := by
  obtain ⟨ss, hgone⟩ := GoneThrough.of_reach h
  have hpaced : ∀ s ∈ ss, Paced s :=
    hgone.chain.forall fun _ _ _ _ hs => paced_of_call hs
  exact ⟨ss, hgone.chain, hgone.trace, hgone.calls, hgone.rdrs, hpaced⟩

/-- The process of two sessions in turn. -/
theorem paced_sessions_inTurn :
    (sentOf inTurn.trace).map Prod.fst = [1, 2, 1]
      ∧ ∃ ss, Chain .unsigned ss inTurn.g
        ∧ inTurn.trace = (ss.map Session.trace).flatten
        ∧ (∃ snds, inTurn.calls = ss.map Session.snd ++ snds
          ∧ Pending ss snds)
        ∧ inTurn.rdrs = readersOf ss ∧ ∀ s ∈ ss, Paced s :=
  ⟨by decide, paced_sessions (Lts.Reach.of_isSome (by decide))⟩

end BtOta
