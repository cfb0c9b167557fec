/-
A transfer over a channel that loses and a device that refuses.

ota_update transmits a packet up to three times. `recoverable` is the
environment this is enough for: of the transmissions of one packet the
first two may be lost on the way, lost on the way back, or refused by
the device; the third comes through, and what comes through at all is
recorded before the last poll that can see it. In every run of that
kind the image is transferred: each packet is written between one time
and three times, in order, the sender ends at FLAG_OTA_SUCCESS and
nowhere else, with all of them written; and it does get there, because
some step can always be taken until then and every run is bounded
(`recovers`).

The argument follows one transmission (`Life`): it is on its way to the
device, its answer is on its way back, hidRead has the answer, is about
to record what it decided, has recorded the acknowledgement, or the
transmission is lost. There is never a second one, because the sender
transmits again only what is lost or refused.
-/
import BtOta.Proofs.Progress

namespace BtOta

variable {cs : CharSign} {g' : Shared} {snd' : Sender} {es : List Event}
  {i : SIn} {img : Image} {l l' : Link}

-- ============================================================== the channel

/-- The reader is created, every write and read succeeds, a transmission
that is not the third may be lost or refused, and the sender takes its
last look only once nothing is on its way any more. -/
def recoverable (l : Link) : LAct → Prop
  | .send (.created ret) => ret = 0
  | .send (.wrote res) => 0 ≤ res
  | .send .tick =>
      lastLook l.s.snd → l.s.g.otaStage ≠ .retrying ∨ l.flight = []
  | .answer r => (Rsp.ofReport r).stat ≠ 2
      ∧ ((Rsp.ofReport r).stat ≠ 0 → l.s.snd.sendCount < 3)
  | .lose | .drop _ => l.s.snd.sendCount < 3
  | .readFail => False
  | _ => True

instance (l : Link) : ∀ a, Decidable (recoverable l a)
  | .send (.created _) => inferInstanceAs (Decidable (_ = _))
  | .send (.wrote _) => inferInstanceAs (Decidable (_ ≤ _))
  | .send .tick => inferInstanceAs (Decidable (_ → _ ∨ _))
  | .answer _ => inferInstanceAs (Decidable (_ ∧ (_ → _)))
  | .lose | .drop _ => inferInstanceAs (Decidable (_ < _))
  | .readFail => inferInstanceAs (Decidable False)
  | .send (.opened _) | .tick | .deliver => inferInstanceAs (Decidable True)

/-- A channel that loses nothing has nothing to recover from, so the runs
of `faithful_transfer` are among these. -/
theorem recoverable_of_wellBehaved {a : LAct}
    (h : wellBehaved lastLook l a) : recoverable l a := by
  cases a with
  | send i =>
      cases i with
      | tick => exact fun hlast => Or.inl (h hlast)
      | created ret | wrote res => exact h
      | opened file => trivial
  | answer r =>
      have hstat : (Rsp.ofReport r).stat = 0 := h
      refine ⟨?_, fun hne => absurd hstat hne⟩
      rw [hstat]
      decide
  | readFail | lose | drop n => exact h.elim
  | tick | deliver => trivial

/-- The packets written are the first of the image's, each between one
time and three times, and where the session has come to its end it is at
FLAG_OTA_SUCCESS with all of them. -/
def Delivered (img : Image) (l : Link) : Prop :=
  ∃ counts, StopWait.Shape img.packets 3 counts (sentOf l.s.trace)
    ∧ (l.s.snd.pc.live = false →
      l.s.snd.pc.succeeding = true ∧ counts.length = img.recs.length)

-- ========================================================= one transmission

/-- hidRead stands between two reports, with no response in its hand. -/
def Link.Idle (l : Link) : Prop :=
  l.s.rdr = some .test ∨ l.s.rdr = some .read

/-- An answer to the packet held that is none of NO_NEED_UPDATE, and
refuses it only while the sender has a transmission left. -/
structure Link.Fair (l : Link) (rsp : Rsp) : Prop where
  mine : belongs l.s.snd.packet rsp = true
  noNeed : rsp.stat ≠ 2
  spare : rsp.stat ≠ 0 → l.s.snd.sendCount < 3

/-- The transmission is lost or refused, and the sender has one left,
which it will come to when the wait is over. -/
structure Link.Lost (l : Link) : Prop where
  up : l.up = []
  down : l.down = []
  idle : l.Idle
  stage : l.s.g.otaStage = .retrying ∨ l.s.g.otaStage = .errRetry
  spare : l.s.snd.sendCount < 3

/-- The life of the transmission the sender waits for, from the channel
to the device, back, into the reader's hand and into the mailbox, or lost
on the way. -/
inductive Life (l : Link) : Prop
  | up (hup : l.up = [(l.s.g.totalCmdNum, l.s.snd.packet)])
      (hdown : l.down = []) (hidle : l.Idle)
      (hst : l.s.g.otaStage = .retrying)
  | down {t : Nat × List UInt8} (hup : l.up = []) (hdown : l.down = [t])
      (hidle : l.Idle) (hst : l.s.g.otaStage = .retrying)
      (hrid : (Rsp.ofReport t.2).rid = 0x02)
      (hfair : l.Fair (Rsp.ofReport t.2))
  | read (hup : l.up = []) (hdown : l.down = [])
      (hrdr : l.s.rdr = some .decide) (hst : l.s.g.otaStage = .retrying)
      (hfair : l.Fair l.s.g.rspCmd)
  | decided {x : Stage} (hup : l.up = []) (hdown : l.down = [])
      (hrdr : l.s.rdr = some (.store x)) (hst : l.s.g.otaStage = .retrying)
      (hx : x = ackOf l.s.snd.packet
        ∨ x = .errRetry ∧ l.s.snd.sendCount < 3)
  | acked (hup : l.up = []) (hdown : l.down = []) (hidle : l.Idle)
      (hst : l.s.g.otaStage = ackOf l.s.snd.packet)
  | lost (h : l.Lost)

/-- Where the sender is in its wait loop: what will be recorded is
recorded in time for the poll that looks for it. -/
def Link.InTime (l : Link) : Prop :=
  l.Lost
    ∨ l.s.snd.waitCount + (if l.s.snd.pc = .wait then 1 else 0) < otaWaitTime
      ∧ ((l.s.snd.pc = .pollErr ∨ l.s.snd.pc = .pollComplete) →
        ackOf l.s.snd.packet = .complete
          ∨ l.s.snd.waitCount + 1 < otaWaitTime)

/-- Where nothing is in flight, nothing is on the channel and hidRead
has no response at hand. -/
theorem Link.clear_inv (h : l.flight = []) :
    l.up = [] ∧ l.down = [] ∧ l.s.rdr.any RPc.busy = false := by
  simp only [flight, List.append_eq_nil_iff, List.map_eq_nil_iff] at h
  obtain ⟨⟨hbusy, hdown⟩, hup⟩ := h
  refine ⟨hup, hdown, ?_⟩
  split at hbusy
  case isTrue => cases hbusy
  case isFalse hno => simpa using hno

theorem Link.idle_of_clear (h : l.flight = []) (hlisten : l.Listening) :
    l.Idle := by
  rcases hlisten with htest | hread | hbusy
  · exact Or.inl htest
  · exact Or.inr hread
  · rw [(clear_inv h).2.2] at hbusy
    cases hbusy

theorem Link.flight_eq_nil (hup : l.up = []) (hdown : l.down = [])
    (hidle : l.Idle) : l.flight = [] := by
  rcases hidle with h | h <;> simp [flight, hup, hdown, h, RPc.busy]

theorem Link.Idle.listening (h : l.Idle) : l.Listening := by
  rcases h with h | h
  · exact Or.inl h
  · exact Or.inr (Or.inl h)

/-- hidRead is in its loop, whatever has become of the transmission. -/
theorem Life.listening (h : Life l) : l.Listening := by
  cases h with
  | up hup hdown hidle | down hup hdown hidle | acked hup hdown hidle =>
      exact hidle.listening
  | lost h => exact h.idle.listening
  | read hup hdown hrdr | decided hup hdown hrdr =>
      refine Or.inr (Or.inr ?_)
      rw [hrdr]
      rfl

/-- The mailbox says what has become of the transmission: refused, or
acknowledged with nothing left in flight. -/
theorem Life.of_stage (h : Life l) (hne : l.s.g.otaStage ≠ .retrying) :
    l.Lost ∧ l.s.g.otaStage = .errRetry
      ∨ l.flight = [] ∧ l.s.g.otaStage = ackOf l.s.snd.packet := by
  cases h with
  | acked hup hdown hidle hst =>
      exact Or.inr ⟨Link.flight_eq_nil hup hdown hidle, hst⟩
  | lost h => exact Or.inl ⟨h, h.stage.resolve_left hne⟩
  | up hup hdown hidle hst | down hup hdown hidle hst
  | read hup hdown hrdr hst | decided hup hdown hrdr hst =>
      exact absurd hst hne

/-- What is not acknowledged when nothing is on its way is lost. -/
theorem Life.overdue (h : Life l)
    (hseen : l.s.g.otaStage ≠ .retrying ∨ l.flight = [])
    (hno : l.s.g.otaStage ≠ ackOf l.s.snd.packet) : l.Lost := by
  rcases hseen with hne | hclear
  · rcases h.of_stage hne with ⟨hlost, -⟩ | ⟨-, hack⟩
    · exact hlost
    · exact absurd hack hno
  · obtain ⟨hup, hdown, hbusy⟩ := Link.clear_inv hclear
    cases h with
    | up hup' => cases hup.symm.trans hup'
    | down hup' hdown' => cases hdown.symm.trans hdown'
    | read hup' hdown' hrdr | decided hup' hdown' hrdr =>
        rw [hrdr] at hbusy
        cases hbusy
    | acked hup' hdown' hidle hst => exact absurd hst hno
    | lost h => exact h

/-- A poll changes nothing about the transmission, so its life goes on
where it is. -/
theorem Life.stay (h : Life l) (hup : l'.up = l.up)
    (hdown : l'.down = l.down) (hrdr : l'.s.rdr = l.s.rdr)
    (hg : l'.s.g = l.s.g) (hpacket : l'.s.snd.packet = l.s.snd.packet)
    (hcount : l'.s.snd.sendCount = l.s.snd.sendCount) :
    Life l' ∧ (l.Lost → l'.Lost) := by
  have hidle' : l.Idle → l'.Idle := by
    unfold Link.Idle
    rw [hrdr]
    exact id
  have hfair' : ∀ rsp, l.Fair rsp → l'.Fair rsp := by
    intro rsp hfair
    refine ⟨hpacket ▸ hfair.mine, hfair.noNeed, fun hne => ?_⟩
    rw [hcount]
    exact hfair.spare hne
  have hlost' : l.Lost → l'.Lost := fun hlost =>
    ⟨hup.trans hlost.up, hdown.trans hlost.down, hidle' hlost.idle,
      hg ▸ hlost.stage, hcount ▸ hlost.spare⟩
  refine ⟨?_, hlost'⟩
  cases h with
  | up hu hd hidle hst =>
      refine .up ?_ (hdown.trans hd) (hidle' hidle) (hg ▸ hst)
      rw [hup, hg, hpacket]
      exact hu
  | down hu hd hidle hst hrid hfair =>
      exact .down (hup.trans hu) (hdown.trans hd) (hidle' hidle) (hg ▸ hst)
        hrid (hfair' _ hfair)
  | read hu hd hr hst hfair =>
      exact .read (hup.trans hu) (hdown.trans hd) (hrdr.trans hr) (hg ▸ hst)
        (hg ▸ hfair' _ hfair)
  | decided hu hd hr hst hx =>
      refine .decided (hup.trans hu) (hdown.trans hd) (hrdr.trans hr)
        (hg ▸ hst) ?_
      rw [hpacket, hcount]
      exact hx
  | acked hu hd hidle hst =>
      refine .acked (hup.trans hu) (hdown.trans hd) (hidle' hidle) ?_
      rw [hg, hpacket]
      exact hst
  | lost h => exact .lost (hlost' h)

-- ============================================================ the invariant

/-- The first `m` packets have been written. -/
def Link.Sent (img : Image) (m : Nat) (l : Link) : Prop :=
  ∀ t ∈ img.packets.take m, t ∈ sentOf l.s.trace

/-- What the sender is doing, and what that says of the rest: between
packets, writing, polling, or at the end. -/
inductive Phase (img : Image) (l : Link) : Prop
  | between (hpc : l.s.snd.pc.between = true)
      (htotal : l.s.g.totalCmdNum < img.recs.length)
      (hzero : l.s.snd.pc.cleared = true → l.s.snd.sendCount = 0)
      (hclear : l.flight = []) (hflag : l.s.g.flagRead = true)
      (hlisten : l.s.snd.pc ≠ .create → l.Listening)
      (hsent : l.Sent img l.s.g.totalCmdNum)
  | writing (hpc : l.s.snd.pc = .retry ∨ l.s.snd.pc = .write)
      (htotal : l.s.g.totalCmdNum ≤ img.recs.length)
      (hspare : l.s.snd.pc = .retry → l.s.snd.sendCount < 3)
      (hwrite : l.s.snd.pc = .write →
        l.s.g.otaStage = .retrying ∧ l.s.snd.waitCount = 0)
      (hclear : l.flight = []) (hflag : l.s.g.flagRead = true)
      (hlisten : l.Listening)
      (hsent : l.Sent img (l.s.g.totalCmdNum - 1))
  | polling (hpc : l.s.snd.pc.polling = true)
      (htotal : l.s.g.totalCmdNum ≤ img.recs.length)
      (hlife : Life l) (htime : l.InTime) (hflag : l.s.g.flagRead = true)
      (hsent : l.Sent img l.s.g.totalCmdNum)
  | ended (hpc : l.s.snd.pc.succeeding = true)
      (htotal : l.s.g.totalCmdNum = img.recs.length)
      (hclear : l.flight = []) (hsent : l.Sent img l.s.g.totalCmdNum)

/-- What a recoverable run keeps: cursor and sequence number, a reader
where one is due, and the phase. -/
structure RecoveryInv (cs : CharSign) (img : Image) (l : Link) : Prop where
  cursor : CursorInv img l.s
  seq : SeqInv cs l.s.g l.s.snd
  created : l.s.snd.pc = .create → l.s.rdr = none
  phase : Phase img l

/-- The joined system behind a sender's move. -/
def Link.after (l : Link) (i : SIn) (g' : Shared) (snd' : Sender)
    (es : List Event) : Link :=
  { l with
    s := { g := g', snd := snd', rdr := Session.spawn l.s.rdr i
           trace := l.s.trace ++ es }
    up := l.up ++ Link.written l.s i }

theorem Link.Sent.append {m : Nat} (h : l.Sent img m) :
    (l.after i g' snd' es).Sent img m := by
  intro t ht
  show t ∈ sentOf (l.s.trace ++ es)
  rw [sentOf_append]
  exact List.mem_append_left _ (h t ht)

/-- A move that writes nothing leaves nothing in flight. -/
theorem RecoveryInv.still_clear (hi : RecoveryInv cs img l)
    (h : SStep cs l.s.g l.s.snd i g' snd' es) (hes : sentOf es = [])
    (hclear : l.flight = []) : (l.after i g' snd' es).flight = [] := by
  have hflight := Link.flight_send hi.created h (l.s.trace ++ es)
    (Link.written l.s i)
  rw [h.written hi.cursor.loaded.opened, hes, hclear] at hflight
  unfold Link.after
  rw [h.written hi.cursor.loaded.opened, hes]
  exact hflight

/-- Between two packets: nothing is in flight, and the next record is on
its way into `cmd_buf`. -/
theorem RecoveryInv.send_between (hi : RecoveryInv cs img l)
    (hok : recoverable l (.send i))
    (h : SStep cs l.s.g l.s.snd i g' snd' es)
    (hpc : l.s.snd.pc.between = true)
    (htotal : l.s.g.totalCmdNum < img.recs.length)
    (hzero : l.s.snd.pc.cleared = true → l.s.snd.sendCount = 0)
    (hclear : l.flight = []) (hflag : l.s.g.flagRead = true)
    (hlisten : l.s.snd.pc ≠ .create → l.Listening)
    (hsent : l.Sent img l.s.g.totalCmdNum) :
    Phase img (l.after i g' snd' es) := by
  cases h with
  | created pc ret =>
      have hret : ret = 0 := hok
      subst hret
      refine .between rfl htotal nofun ?_ hflag (fun _ => Or.inl rfl)
        hsent.append
      exact hi.still_clear (.created pc 0) rfl hclear
  | next pc =>
      refine .between rfl htotal (fun _ => rfl) ?_ hflag
        (fun _ => hlisten (by rw [pc]; nofun)) hsent.append
      exact hi.still_clear (.next pc) rfl hclear
  | newStage pc =>
      refine .between rfl htotal (fun _ => hzero (by rw [pc]; rfl)) ?_ hflag
        (fun _ => hlisten (by rw [pc]; nofun)) hsent.append
      exact hi.still_clear (.newStage pc) rfl hclear
  | assemble pc hasm =>
      -- from a cleared count to the first try
      have ha := assembled_of_some hasm
      refine .writing (Or.inl rfl) ?_ (fun _ => ?_) nofun ?_ ?_
        (hlisten (by rw [pc]; nofun)) ?_
      · exact Nat.le_trans (Nat.le_of_eq ha.total) htotal
      · have hcount := ha.sendCount.trans (hzero (by rw [pc]; rfl))
        exact Nat.lt_of_le_of_lt (Nat.le_of_eq hcount) (by decide)
      · exact hi.still_clear (.assemble pc hasm) (sentOf_quiet ha.quiet)
          hclear
      · exact ha.flagRead.trans hflag
      · rw [show (l.after _ g' _ es).s.g.totalCmdNum - 1
          = l.s.g.totalCmdNum from Nat.sub_eq_of_eq_add ha.total]
        exact hsent.append
  | crash pc hasm =>
      -- a record of the image always assembles
      have hsome := hi.cursor.assembles cs htotal
      rw [hasm] at hsome
      cases hsome
  | init pc | openFail pc | opened pc | openOver pc | retry pc | giveUp pc
  | wrote pc | writeFail pc | poll pc | timeout pc | nextHit pc
  | nextMiss pc | errHit pc | errMiss pc | completeHit pc
  | completeMiss pc | flag pc | verdict pc | stop pc | quitThread pc
  | quitServ pc =>
      rw [pc] at hpc
      cases hpc

/-- The packet is written, for the first time or again. -/
theorem RecoveryInv.send_writing (hi : RecoveryInv cs img l)
    (hok : recoverable l (.send i))
    (h : SStep cs l.s.g l.s.snd i g' snd' es)
    (hpc : l.s.snd.pc = .retry ∨ l.s.snd.pc = .write)
    (htotal : l.s.g.totalCmdNum ≤ img.recs.length)
    (hspare : l.s.snd.pc = .retry → l.s.snd.sendCount < 3)
    (hwrite : l.s.snd.pc = .write →
      l.s.g.otaStage = .retrying ∧ l.s.snd.waitCount = 0)
    (hclear : l.flight = []) (hflag : l.s.g.flagRead = true)
    (hlisten : l.Listening)
    (hsent : l.Sent img (l.s.g.totalCmdNum - 1)) :
    Phase img (l.after i g' snd' es) := by
  cases h with
  | retry pc hlt =>
      -- STAGE_RETRYING is stored and the wait count cleared, together
      refine .writing (Or.inr rfl) htotal nofun (fun _ => ⟨rfl, rfl⟩) ?_
        hflag hlisten hsent.append
      refine hi.still_clear (.retry pc hlt) ?_ hclear
      split <;> rfl
  | giveUp pc hge =>
      have := hspare pc
      omega
  | wrote pc res hres =>
      -- the packet's life begins: it is on its way up, and the window to
      -- answer it is open
      obtain ⟨hup, hdown, -⟩ := Link.clear_inv hclear
      have hidle := Link.idle_of_clear hclear hlisten
      obtain ⟨k, r, hk, hr, hp⟩ := hi.cursor.packet (by rw [pc]; rfl) htotal
      have hw : Link.written l.s (.wrote res)
          = [(l.s.g.totalCmdNum, l.s.snd.packet)] :=
        if_neg (Int.not_lt.mpr hres)
      refine .polling rfl htotal
        (.up ?_ hdown hidle (hwrite pc).1)
        (Or.inr ⟨?_, fun h => by rcases h with h | h <;> cases h⟩) hflag ?_
      · show l.up ++ Link.written l.s (.wrote res) = _
        rw [hup, hw]
        rfl
      · show l.s.snd.waitCount + 1 < otaWaitTime
        rw [(hwrite pc).2]
        decide
      · intro t ht
        rw [show (l.after _ l.s.g _ _).s.g.totalCmdNum = k + 1 from hk,
          List.take_add_one, Image.getElem?_packets hr] at ht
        show t ∈ sentOf (l.s.trace ++ _)
        rw [sentOf_append]
        rcases List.mem_append.mp ht with ht | ht
        · refine List.mem_append_left _ (hsent t ?_)
          rw [hk]
          exact ht
        · refine List.mem_append_right _ ?_
          rw [sentOf_append, sentOf_append, sentOf_verbose, sentOf_verbose,
            List.mem_singleton.mp ht, hk, hp]
          exact List.mem_singleton_self _
  | writeFail pc res hres =>
      have hres' : 0 ≤ res := hok
      omega
  | init pc | openFail pc | opened pc | openOver pc | created pc | next pc
  | newStage pc | assemble pc | crash pc | poll pc | timeout pc | nextHit pc
  | nextMiss pc | errHit pc | errMiss pc | completeHit pc
  | completeMiss pc | flag pc | verdict pc | stop pc | quitThread pc
  | quitServ pc => simp [pc] at hpc

/-- A poll that keeps the sender in its wait loop. -/
theorem RecoveryInv.poll (htotal : l.s.g.totalCmdNum ≤ img.recs.length)
    (hlife : Life l) (hflag : l.s.g.flagRead = true)
    (hsent : l.Sent img l.s.g.totalCmdNum) (hpc' : snd'.pc.polling = true)
    (hpacket : snd'.packet = l.s.snd.packet)
    (hcount : snd'.sendCount = l.s.snd.sendCount)
    (htime : l.Lost
      ∨ snd'.waitCount + (if snd'.pc = .wait then 1 else 0) < otaWaitTime
        ∧ ((snd'.pc = .pollErr ∨ snd'.pc = .pollComplete) →
          ackOf l.s.snd.packet = .complete
            ∨ snd'.waitCount + 1 < otaWaitTime)) :
    Phase img (l.after .tick l.s.g snd' []) := by
  have hstay : Life (l.after .tick l.s.g snd' [])
      ∧ (l.Lost → (l.after .tick l.s.g snd' []).Lost) := by
    apply hlife.stay
    case hup => exact List.append_nil _
    case hpacket => exact hpacket
    case hcount => exact hcount
    all_goals rfl
  refine .polling hpc' htotal hstay.1 ?_ hflag hsent.append
  rcases htime with hlost | ⟨hwindow, hmissed⟩
  · exact Or.inl (hstay.2 hlost)
  · refine Or.inr ⟨hwindow, ?_⟩
    show _ → ackOf snd'.packet = _ ∨ _
    rw [hpacket]
    exact hmissed

/-- A transmission that is lost is made again, by a timeout or by the
error that was recorded. -/
theorem RecoveryInv.again (hi : RecoveryInv cs img l)
    (h : SStep cs l.s.g l.s.snd .tick l.s.g snd' es)
    (hes : sentOf es = []) (hpc' : snd'.pc = .retry)
    (hcount : snd'.sendCount = l.s.snd.sendCount)
    (htotal : l.s.g.totalCmdNum ≤ img.recs.length) (hlost : l.Lost)
    (hflag : l.s.g.flagRead = true)
    (hsent : l.Sent img l.s.g.totalCmdNum) :
    Phase img (l.after .tick l.s.g snd' es) := by
  refine .writing (Or.inl hpc') htotal (fun _ => ?_) ?_ ?_ hflag
    hlost.idle.listening ?_
  · show snd'.sendCount < 3
    rw [hcount]
    exact hlost.spare
  · intro hwrite
    cases hpc'.symm.trans hwrite
  · exact hi.still_clear h hes
      (Link.flight_eq_nil hlost.up hlost.down hlost.idle)
  · intro t ht
    refine hsent.append t ?_
    exact (List.take_subset_take_left _ (Nat.sub_le _ 1)) ht

/-- One step of the wait loop, each outcome of which is one of the lemmas
before. -/
theorem RecoveryInv.send_polling (hi : RecoveryInv cs img l)
    (hok : recoverable l (.send i))
    (h : SStep cs l.s.g l.s.snd i g' snd' es)
    (hpc : l.s.snd.pc.polling = true)
    (htotal : l.s.g.totalCmdNum ≤ img.recs.length) (hlife : Life l)
    (htime : l.InTime) (hflag : l.s.g.flagRead = true)
    (hsent : l.Sent img l.s.g.totalCmdNum) :
    Phase img (l.after i g' snd' es) := by
  obtain ⟨k, r, hk, hr, hp⟩ :=
    hi.cursor.packet (SPc.holding_of_polling hpc) htotal
  have hack := ackOf_packet hr
  rw [← hp, ← hk] at hack
  cases h with
  | poll pc hlt =>
      refine RecoveryInv.poll htotal hlife hflag hsent rfl rfl rfl
        (Or.inr ⟨hlt, ?_⟩)
      simp
  | timeout pc hge =>
      rcases htime with hlost | ⟨hwindow, -⟩
      · exact hi.again (.timeout pc hge) rfl rfl rfl htotal hlost hflag
          hsent
      · rw [if_pos pc] at hwindow
        omega
  | nextHit pc hst =>
      rcases hlife.of_stage (by simp [hst]) with ⟨-, herr⟩ | ⟨hclear, hown⟩
      · cases hst.symm.trans herr
      · refine .between rfl ?_ nofun ?_ hflag
          (fun _ => hlife.listening) hsent.append
        · refine Nat.lt_of_le_of_ne htotal fun hlast => ?_
          rw [hack.mpr hlast] at hown
          cases hown.symm.trans hst
        · exact hi.still_clear (.nextHit pc hst) rfl hclear
  | nextMiss pc hst =>
      refine RecoveryInv.poll htotal hlife hflag hsent rfl rfl rfl ?_
      rcases htime with hlost | ⟨hwindow, -⟩
      · exact Or.inl hlost
      · rw [if_neg (by simp [pc])] at hwindow
        -- an acknowledgement that is none of FINISH has its last look here
        by_cases hfin : ackOf l.s.snd.packet = .complete
        · exact Or.inr ⟨hwindow, fun _ => Or.inl hfin⟩
        · by_cases hlast : l.s.snd.waitCount + 1 = otaWaitTime
          · refine Or.inl (hlife.overdue (hok ⟨hlast, Or.inr ⟨pc, hfin⟩⟩)
              fun hown => ?_)
            unfold ackOf at hfin hown
            split at hown
            case isTrue h => exact hfin (if_pos h)
            case isFalse => exact hst hown
          · have hlt : l.s.snd.waitCount + 0 < otaWaitTime := hwindow
            exact Or.inr ⟨hwindow, fun _ => Or.inr (by
              show l.s.snd.waitCount + 1 < otaWaitTime
              omega)⟩
  | errHit pc hst =>
      rcases hlife.of_stage (by simp [hst]) with ⟨hlost, -⟩ | ⟨-, hown⟩
      · exact hi.again (.errHit pc hst) rfl rfl rfl htotal hlost hflag hsent
      · exact absurd (hown.symm.trans hst) (ackOf_ne_errRetry _)
  | errMiss pc hst =>
      refine RecoveryInv.poll htotal hlife hflag hsent rfl rfl rfl ?_
      rcases htime with hlost | ⟨hwindow, hmissed⟩
      · exact Or.inl hlost
      · rw [if_neg (by simp [pc])] at hwindow
        exact Or.inr ⟨hwindow, fun _ => hmissed (Or.inl pc)⟩
  | completeHit pc hst =>
      rcases hlife.of_stage (by simp [hst]) with ⟨-, herr⟩ | ⟨hclear, hown⟩
      · cases hst.symm.trans herr
      · refine .ended rfl (hack.mp (hown.symm.trans hst)) ?_ hsent.append
        exact hi.still_clear (.completeHit pc hst) rfl hclear
  | completeMiss pc hst =>
      refine RecoveryInv.poll htotal hlife hflag hsent rfl rfl rfl ?_
      rcases htime with hlost | ⟨hwindow, hmissed⟩
      · exact Or.inl hlost
      · rw [if_neg (by simp [pc])] at hwindow
        by_cases hlast : l.s.snd.waitCount + 1 = otaWaitTime
        · refine Or.inl (hlife.overdue (hok ⟨hlast, Or.inl pc⟩)
            fun hown => ?_)
          rcases hmissed (Or.inr pc) with hfin | hlt
          · exact hst (hown.trans hfin)
          · omega
        · have hlt : l.s.snd.waitCount + 0 < otaWaitTime := hwindow
          refine Or.inr ⟨?_, by simp⟩
          show l.s.snd.waitCount + 1 < otaWaitTime
          omega
  | init pc | openFail pc | opened pc | openOver pc | created pc | next pc
  | newStage pc | assemble pc | crash pc | retry pc | giveUp pc | wrote pc
  | writeFail pc | flag pc | verdict pc | stop pc | quitThread pc
  | quitServ pc => simp [pc, SPc.polling] at hpc

/-- Behind FLAG_OTA_SUCCESS nothing is written any more, and nothing is
on its way. -/
theorem RecoveryInv.send_ended (hi : RecoveryInv cs img l)
    (h : SStep cs l.s.g l.s.snd i g' snd' es)
    (hpc : l.s.snd.pc.succeeding = true)
    (htotal : l.s.g.totalCmdNum = img.recs.length) (hclear : l.flight = [])
    (hsent : l.Sent img l.s.g.totalCmdNum) :
    Phase img (l.after i g' snd' es) := by
  have hclear' := hi.still_clear h
  cases h with
  | flag pc | verdict pc | stop pc | quitThread pc | quitServ pc =>
      rename_i v
      refine .ended ?_ htotal (hclear' rfl hclear) hsent.append
      cases v with
      | success => rfl
      | fail => simp [pc, SPc.succeeding] at hpc
  | init pc | openFail pc | opened pc | openOver pc | created pc | next pc
  | newStage pc | assemble pc | crash pc | retry pc | giveUp pc | wrote pc
  | writeFail pc | poll pc | timeout pc | nextHit pc | nextMiss pc
  | errHit pc | errMiss pc | completeHit pc | completeMiss pc =>
      simp [pc, SPc.succeeding] at hpc

theorem RecoveryInv.send (hi : RecoveryInv cs img l)
    (hok : recoverable l (.send i))
    (h : SStep cs l.s.g l.s.snd i g' snd' es) :
    RecoveryInv cs img (l.after i g' snd' es) := by
  refine ⟨hi.cursor.send h _ _, hi.seq.send h, ?_, ?_⟩
  · intro hpc
    cases h with
    | opened pc => exact absurd pc hi.cursor.loaded.opened.2
    | assemble | init | openFail | openOver | created | next | newStage
    | crash | retry | giveUp | wrote | writeFail | poll | timeout | nextHit
    | nextMiss | errHit | errMiss | completeHit | completeMiss | flag
    | verdict | stop | quitThread | quitServ => cases hpc
  · cases hi.phase with
    | between hpc htotal hzero hclear hflag hlisten hsent =>
        exact hi.send_between hok h hpc htotal hzero hclear hflag hlisten
          hsent
    | writing hpc htotal hspare hwrite hclear hflag hlisten hsent =>
        exact hi.send_writing hok h hpc htotal hspare hwrite hclear hflag
          hlisten hsent
    | polling hpc htotal hlife htime hflag hsent =>
        exact hi.send_polling hok h hpc htotal hlife htime hflag hsent
    | ended hpc htotal hclear hsent =>
        exact hi.send_ended h hpc htotal hclear hsent

end BtOta
