/-
The transfer comes to its end.

Two facts close the argument that a well-behaved session ends at
FLAG_OTA_SUCCESS. As long as the sender has a packet to transmit or to
wait for, some step can be taken: its own, or, where the deadline holds
the sender back, one of hidRead or the device, because the packet is
still in flight (`TransferInv.canStep`). And no run goes on for ever:
every step lowers `remaining`, which prices the packets not begun, the
polls left in this wait, what is in flight and where hidRead stands.
-/
import BtOta.Proofs.Transfer

namespace BtOta

variable {cs : CharSign} {g' : Shared} {snd' : Sender} {es : List Event}
  {i : SIn} {img : Image} {l l' : Link}

-- ======================================================== a step to be taken

/-- Some step can be taken that keeps the run a well-behaved one. -/
def Link.CanStep (cs : CharSign) (l : Link) : Prop :=
  ∃ a l', wellBehaved lastLook l a ∧ Link.step cs l a = some l'

/-- An answer to a packet, with SUCCESS: what a device can always give.
-/
def answerTo (packet : List UInt8) : List UInt8 :=
  [0xA1, 0x02, 0, packet.getD 5 0, packet.getD 6 0, packet.getD 7 0, 0]

theorem isAnswer_answerTo (packet : List UInt8) :
    isAnswer packet (answerTo packet) = true := by
  simp [isAnswer, belongs, answerTo, Rsp.ofReport]

theorem Link.canStep_of_isSome {a : LAct} (hok : wellBehaved lastLook l a)
    (h : (Link.step cs l a).isSome = true) : l.CanStep cs := by
  obtain ⟨l', hs⟩ := Option.isSome_iff_exists.mp h
  exact ⟨a, l', hok, hs⟩

/-- The sender's own step, where nothing holds it back. -/
theorem Link.canStep_tick
    (hok : lastLook l.s.snd → l.s.g.otaStage ≠ .retrying)
    (h : (otaUpdate cs l.s.g l.s.snd .tick).isSome = true) :
    l.CanStep cs := by
  apply canStep_of_isSome (a := .send .tick) hok
  simpa [Link.step, Session.step] using h

/-- A packet in flight can be moved on by the reader or the device,
wherever on its way it is. -/
theorem Link.canStep_of_flight (hlisten : l.Listening)
    (hflight : l.flight ≠ []) : l.CanStep cs := by
  by_cases hbusy : l.s.rdr.any RPc.busy = true
  · obtain ⟨pc, hrdr, hpc⟩ := Option.any_eq_true _ _ |>.mp hbusy
    apply canStep_of_isSome (a := .tick) trivial
    cases pc with
    | decide =>
        simp only [Link.step, Session.step, hrdr, hidRead]
        split <;> rfl
    | store x => simp [Link.step, Session.step, hrdr, hidRead]
    | test | read | failFlag | failLog | failStop | ended => cases hpc
  · rcases hlisten with htest | hread | hb
    · apply canStep_of_isSome (a := .tick) trivial
      simp [Link.step, Session.step, htest, hidRead]
    · cases hdown : l.down with
      | cons t rest =>
          apply canStep_of_isSome (a := .deliver) trivial
          simp [Link.step, Session.step, hdown, hread, hidRead]
      | nil =>
          cases hup : l.up with
          | nil => simp [flight, hread, hdown, hup, RPc.busy] at hflight
          | cons t rest =>
              apply canStep_of_isSome (a := .answer (answerTo t.2)) rfl
              simp [Link.step, hup, isAnswer_answerTo]
    · exact absurd hb hbusy

/-- The session never gets stuck: the sender moves, or where the deadline
holds it back, what it waits for does. -/
theorem TransferInv.canStep (hi : TransferInv img l)
    (hlive : l.s.snd.pc.live = true) : l.CanStep cs := by
  have hfree : l.s.snd.pc ≠ .pollNext → l.s.snd.pc ≠ .pollComplete →
      ¬ lastLook l.s.snd := by
    intro hnext hcomplete hlast
    rcases hlast.2 with hpc | ⟨hpc, -⟩
    · exact hcomplete hpc
    · exact hnext hpc
  -- with the answer still to come, it is on its way
  have hcomes : l.s.snd.pc.polling = true → l.s.g.otaStage = .retrying →
      l.CanStep cs := by
    intro hpoll hst
    refine Link.canStep_of_flight
      (hi.reader hlive (SPc.live_of_polling hpoll).2) ?_
    rcases hi.await hpoll with ⟨hone, -⟩ | ⟨-, hack⟩
    · rw [hone]
      nofun
    · unfold ackOf at hack
      rw [hst] at hack
      split at hack <;> cases hack
  cases hpc : l.s.snd.pc with
  | create =>
      apply Link.canStep_of_isSome (a := .send (.created 0)) rfl
      simp [Link.step, Session.step, otaUpdate, hpc]
  | write =>
      refine Link.canStep_of_isSome (a := .send (.wrote 0))
        (Int.le_refl 0) ?_
      simp [Link.step, Session.step, otaUpdate, hpc, hidWrite]
  | next | newStage =>
      refine Link.canStep_tick (fun h => absurd h ?_)
        (by simp [otaUpdate, hpc])
      exact hfree (by simp [hpc]) (by simp [hpc])
  | assemble =>
      refine Link.canStep_tick (fun h => absurd h ?_) ?_
      · exact hfree (by simp [hpc]) (by simp [hpc])
      · simp only [otaUpdate, hpc]
        split <;> rfl
  | retry | wait | pollErr =>
      refine Link.canStep_tick (fun h => absurd h ?_) ?_
      · exact hfree (by simp [hpc]) (by simp [hpc])
      · simp only [otaUpdate, hpc]
        split <;> rfl
  | pollNext | pollComplete =>
      by_cases hst : l.s.g.otaStage = .retrying
      · exact hcomes (by rw [hpc]; rfl) hst
      · apply Link.canStep_tick (fun _ => hst)
        simp only [otaUpdate, hpc]
        split <;> rfl
  | init | load | flag v | verdict v | stop v | quitThread v | quitServ v
  | returned v | undefined =>
      rw [hpc] at hlive
      cases hlive

-- ============================================================== the measure

/-- Where the sender stands in its packet, and the polls left: every step
but a delivery comes out of this. -/
def SPc.rank (pc : SPc) (waitCount : Nat) : Nat :=
  match pc with
  | .retry => 3021
  | .write => 3020
  | .pollNext => 4 * (otaWaitTime - waitCount) + 13
  | .pollErr => 4 * (otaWaitTime - waitCount) + 12
  | .pollComplete => 4 * (otaWaitTime - waitCount) + 11
  | .wait => 4 * (otaWaitTime - waitCount) + 10
  | .create | .flag _ => 6
  | .verdict _ => 5
  | .stop _ => 4
  | .next | .quitThread _ => 3
  | .newStage | .quitServ _ => 2
  | .assemble | .returned _ => 1
  | .init | .load | .undefined => 0

/-- Where hidRead stands in its loop. -/
def RPc.rank : RPc → Nat
  | .decide => 4
  | .store _ | .failFlag => 3
  | .test | .failLog => 2
  | .read | .failStop => 1
  | .ended => 0

/-- What is left to be done: the records not begun, the sender's packet,
and what is under way for it. -/
def Link.remaining (img : Image) (l : Link) : Nat :=
  (img.recs.length - l.s.g.totalCmdNum) * 3021
    + l.s.snd.pc.rank l.s.snd.waitCount
    + 6 * l.up.length + 5 * l.down.length
    + (l.s.rdr.map RPc.rank).getD 0

/-- The sender's step lowers it. -/
theorem TransferInv.remaining_send (hf : FlightInv cs l)
    (hc : CursorInv img l.s) (hi : TransferInv img l)
    (hok : wellBehaved lastLook l (.send i))
    (h : SStep cs l.s.g l.s.snd i g' snd' es) :
    Link.remaining img
        { l with
          s := { g := g', snd := snd', rdr := Session.spawn l.s.rdr i
                 trace := l.s.trace ++ es }
          up := l.up ++ Link.written l.s i }
      < l.remaining img := by
  have hwindow := hi.window
  unfold Link.remaining
  dsimp only
  cases h with
  | init pc => exact absurd pc hf.opened.1
  | openFail pc | opened pc | openOver pc => exact absurd pc hf.opened.2
  | crash pc hasm =>
      have hsome : (BtOta.assemble cs l.s.g l.s.snd).isSome = true :=
        hi.assembles hc pc
      rw [hasm] at hsome
      cases hsome
  | giveUp pc hge =>
      -- five arms that a well behaved run never takes
      have hzero := hi.zero (Or.inr pc)
      omega
  | writeFail pc res hres =>
      have hres' : 0 ≤ res := hok
      omega
  | timeout pc hge =>
      have hlt := hwindow (by rw [pc]; rfl)
      rw [if_pos pc] at hlt
      omega
  | errHit pc hst =>
      have hown := (hi.answered (by rw [pc]; rfl) (by simp [hst])).2
      exact absurd (hown.symm.trans hst) (ackOf_ne_errRetry _)
  | created pc ret =>
      -- the reader comes with its own rank
      have hret : ret = 0 := hok
      subst hret
      rw [hf.created pc, pc]
      simp [SPc.rank, RPc.rank, Session.spawn, Link.written]
      omega
  | next pc | newStage pc | retry pc | nextHit pc | nextMiss pc | errMiss pc
  | completeHit pc | completeMiss pc | flag pc | verdict pc | stop pc
  | quitThread pc | quitServ pc =>
      simp [pc, SPc.rank, Session.spawn, Link.written]
  | poll pc hlt =>
      simp [pc, SPc.rank, Session.spawn, Link.written]
      omega
  | wrote pc res hres =>
      -- a packet buys its polls, its answer and the answer's way back
      rw [(hi.write pc).2, pc]
      simp [SPc.rank, Session.spawn, Link.written, otaWaitTime,
        Int.not_lt.mpr hres]
      omega
  | assemble pc hasm =>
      -- a record less pays for the packet made of it
      have ha := assembled_of_some hasm
      have hlt := hi.between (by rw [pc]; rfl)
      rw [ha.total, pc]
      simp [SPc.rank, Session.spawn, Link.written]
      omega

/-- So does every other step: a report that moves is nearer to its end.
-/
theorem TransferInv.remaining_step {a : LAct} (hf : FlightInv cs l)
    (hc : CursorInv img l.s) (hi : TransferInv img l)
    (hok : wellBehaved lastLook l a) (hs : Link.step cs l a = some l') :
    l'.remaining img < l.remaining img := by
  cases Link.step_inv hs with
  | send h => exact hi.remaining_send hf hc hok h
  | tick hrdr h =>
      have htotal := h.frame.1
      unfold Link.remaining
      dsimp only
      rw [htotal, hrdr]
      cases h with
      | enter hpc | leave hpc | decide hpc | ignore hpc | store hpc
      | failFlag hpc | failLog hpc | failStop hpc =>
          simp [hpc, RPc.rank]
  | deliver hdown hrdr h =>
      have htotal := h.frame.1
      unfold Link.remaining
      dsimp only
      rw [htotal, hrdr, hdown]
      cases h with
      | report hpc | stray hpc =>
          simp [hpc, RPc.rank]
          omega
  | readFail hrdr h => exact hok.elim
  | answer hup hans =>
      unfold Link.remaining
      dsimp only
      rw [hup]
      simp only [List.length_cons, List.length_append, List.length_nil]
      omega
  | lose hup => exact hok.elim
  | drop hn => exact hok.elim

-- ============================================================= the transfer

theorem TransferInv.transferred (hi : TransferInv img l) :
    Transferred img l := by
  refine ⟨?_, fun hlive => ?_⟩
  · rw [hi.sent]
    exact List.take_prefix _ _
  · obtain ⟨hsucc, hall⟩ := hi.ended hlive
    refine ⟨hsucc, ?_⟩
    have hidle : ¬ (l.s.snd.pc = .retry ∨ l.s.snd.pc = .write) := by
      rintro (h | h) <;> simp [h, SPc.succeeding] at hsucc
    rw [hi.sent, if_neg hidle, hall, ← Image.length_packets,
      List.take_length]

/-- What a run in which each answer is seen keeps, all together. -/
theorem transferInv_of_reach {g₀ : Shared} {param2 : Option String}
    {stack : Nat → UInt8}
    (h : Lts.Reach (Link.step cs) (wellBehaved lastLook)
      (Link.start g₀ param2 stack img.bytes) l) :
    FlightInv cs l ∧ CursorInv img l.s ∧ TransferInv img l := by
  refine h.invariant
    (I := fun l => FlightInv cs l ∧ CursorInv img l.s ∧ TransferInv img l)
    ⟨flightInv_start cs g₀ param2 stack img.bytes,
      cursorInv_start g₀ param2 stack img,
      transferInv_start g₀ param2 stack img⟩ ?_
  intro l a l' hinv hok hs
  obtain ⟨hf, hc, hi⟩ := hinv
  refine ⟨hf.step (lossless_of_wellBehaved hok) hs, ?_,
    hi.step hf hc hok hs⟩
  cases Link.step_inv hs with
  | send h => exact hc.send h _ _
  | tick hrdr h | deliver hdown hrdr h | readFail hrdr h =>
      exact hc.read h _ _
  | answer | lose | drop => exact hc

/-- In every run of a session that behaves, in which hidRead records
each answer before the last comparison that can see it, the image's
packets are written in order and each once; the run can be continued
until the sender is at FLAG_OTA_SUCCESS with all of them written, and it
is bounded. -/
theorem faithful_transfer {g₀ : Shared} {param2 : Option String}
    {stack : Nat → UInt8} {as : List LAct}
    (h : Lts.Run (Link.step cs) (wellBehaved lastLook)
      (Link.start g₀ param2 stack img.bytes) as l) :
    Transferred img l
      ∧ (l.s.snd.pc.live = true → l.CanStep cs)
      ∧ as.length ≤ img.recs.length * 3021 + 6 := by
  obtain ⟨-, -, hi⟩ := transferInv_of_reach h.reach
  refine ⟨hi.transferred, hi.canStep, ?_⟩
  have hbound := h.length_le (Link.remaining img) (fun l a l' hr hok hs => by
    obtain ⟨hf, hc, hi⟩ := transferInv_of_reach hr
    exact hi.remaining_step hf hc hok hs) (Lts.Reach.refl _)
  have hstart : (Link.start g₀ param2 stack img.bytes).remaining img
      = img.recs.length * 3021 + 6 := by
    simp [Link.remaining, Link.start, Session.start, Shared.initVars,
      SPc.rank]
  omega

/-- Such a run can be continued to its end, since it can be continued and
is bounded. -/
theorem exists_ended {g₀ : Shared} {param2 : Option String}
    {stack : Nat → UInt8}
    (h : Lts.Reach (Link.step cs) (wellBehaved lastLook)
      (Link.start g₀ param2 stack img.bytes) l) :
    ∃ l', Lts.Reach (Link.step cs) (wellBehaved lastLook)
        (Link.start g₀ param2 stack img.bytes) l'
      ∧ l'.s.snd.pc.live = false := by
  -- every step taken lowers what remains
  induction hn : l.remaining img using Nat.strongRecOn generalizing l with
  | ind n ih =>
      obtain ⟨hf, hc, hi⟩ := transferInv_of_reach h
      by_cases hlive : l.s.snd.pc.live = true
      · have hcan : l.CanStep cs := hi.canStep hlive
        obtain ⟨a, l', hok, hs⟩ := hcan
        have hlt := hi.remaining_step hf hc hok hs
        exact ih _ (hn ▸ hlt) (h.tail hok hs) rfl
      · exact ⟨l, h, by simpa using hlive⟩

/-- Every image has a session that writes its packets in order, each
once, and succeeds. -/
theorem exists_transfer (cs : CharSign) (g₀ : Shared)
    (param2 : Option String) (stack : Nat → UInt8) (img : Image) :
    ∃ s, Lts.Reach (Session.step cs) Lts.free
        (Session.start g₀ param2 stack img.bytes) s
      ∧ sentOf s.trace = img.packets
      ∧ s.snd.pc.succeeding = true := by
  obtain ⟨l, hr, hended⟩ := exists_ended
    (Lts.Reach.refl (Link.start g₀ param2 stack img.bytes))
  obtain ⟨-, -, hi⟩ := transferInv_of_reach hr
  obtain ⟨hsucc, hsent⟩ := hi.transferred.2 hended
  exact ⟨l.s, Link.reach_session hr, hsent, hsucc⟩

-- ========================================================== two sessions

/-- Both packets are answered in time. -/
def bothAnswered : List LAct :=
  Link.sendFirst ++ .answer dataAnswer :: Link.readAnswer ++ Link.sendNext
    ++ .answer finishAnswer :: Link.readAnswer
    ++ [.send .tick, .send .tick, .send .tick, .send .tick]

/-- Where that leaves the session. -/
def transferEnd : Link :=
  (Lts.run (Link.step .unsigned) (wellBehaved lastLook) dataImage.link
    bothAnswered).getD dataImage.link

/-- It has ended, with both packets written. -/
theorem faithful_transfer_answered :
    transferEnd.s.snd.pc = .flag .success
      ∧ Transferred dataImage transferEnd
      ∧ (transferEnd.s.snd.pc.live = true → transferEnd.CanStep .unsigned)
      ∧ bothAnswered.length ≤ dataImage.recs.length * 3021 + 6 :=
  ⟨by decide, faithful_transfer (Lts.Run.of_isSome (by decide))⟩

/-- The DATA record is sent, and nothing answers yet. -/
def dataWritten : Link :=
  (Lts.run (Link.step .unsigned) (wellBehaved lastTick) dataImage.link
    Link.sendFirst).getD dataImage.link

/-- Behind the last of 749 polls the device answers, and hidRead records
the answer before `wait_count` is increased once more. -/
def answeredLate : Link :=
  (Lts.run (Link.step .unsigned) (wellBehaved lastTick)
    (dataWritten.polled .wait 749)
    (.answer dataAnswer :: Link.readAnswer ++ Link.sendAgain)).getD
    (dataWritten.polled .wait 749)

/-- An answer recorded before `wait_count` reaches OTA_WAIT_TIME is lost
where no poll is left to see it, and the packet is written twice. -/
theorem unseen_answer :
    ¬ ∀ (cs : CharSign) (g₀ : Shared) (param2 : Option String)
        (stack : Nat → UInt8) (img : Image) (l : Link),
      Lts.Reach (Link.step cs) (wellBehaved lastTick)
        (Link.start g₀ param2 stack img.bytes) l →
      Transferred img l := by
  intro h
  have hsent : Lts.Reach (Link.step .unsigned) (wellBehaved lastTick)
      dataImage.link dataWritten := Lts.Reach.of_isSome (by decide)
  have hpolled : Lts.Reach (Link.step .unsigned) (wellBehaved lastTick)
      dataWritten (dataWritten.polled .wait 749) := by
    apply Link.reach_polled (l := dataWritten) (by rfl) (by decide)
    intro pc k hk htick
    obtain ⟨hpc, hlast⟩ := htick
    have hlt : k < 749 := hk hpc
    have hlast' : k + 1 = 750 := hlast
    omega
  have hlate : Lts.Reach (Link.step .unsigned) (wellBehaved lastTick)
      (dataWritten.polled .wait 749) answeredLate :=
    Lts.Reach.of_isSome (by decide)
  exact absurd
    (h .unsigned _ _ _ dataImage answeredLate
      ((hsent.trans hpolled).trans hlate)).1
    (by decide)

end BtOta
