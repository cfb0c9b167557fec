/-
The whole transfer, with a device that behaves.

The reader is created, every write and read succeeds, and the device
answers each packet once with SUCCESS. What remains open is when hidRead
records an answer. `wait_count` reaches OTA_WAIT_TIME in a statement of
its own, behind the last comparison with `OTAStage`, so an answer
recorded between the two is in time and still lost: the packet is
transmitted again (`unseen_answer`).

An answer recorded before the last comparison that can see it is never
lost. In every run of that kind the packets written are the image's, in
order and each once; the sender ends at FLAG_OTA_SUCCESS and nowhere
else, with all of them written; and it does get there, because some
step can always be taken until then and every run is bounded
(`transferred`). The invariant follows one packet from its transmission
to its acknowledgement: while the sender waits, the packet is the only
one in flight, or its acknowledgement stands in the mailbox.

A device that behaves does not keep the verbose log from writing behind
its buffers (`dumps_never_fit`). Sessions with the verbose log on are
taken past that here, as if it did no harm.
-/
import BtOta.Lib.Threads
import BtOta.Proofs.Flight
import BtOta.Proofs.Idle

namespace BtOta

-- ============================================================== the last look

/-- `wait_count` reaches OTA_WAIT_TIME with the sender's next step: the
deadline as the code's comment has it. -/
def lastTick (snd : Sender) : Prop :=
  snd.pc = .wait ∧ snd.waitCount + 1 = otaWaitTime

/-- The sender's next step is the last comparison that can see the
acknowledgement of the packet held: the deadline that is enough. -/
def lastLook (snd : Sender) : Prop :=
  snd.waitCount + 1 = otaWaitTime
    ∧ (snd.pc = .pollComplete
      ∨ snd.pc = .pollNext ∧ ackOf snd.packet ≠ .complete)

instance (snd : Sender) : Decidable (lastTick snd) :=
  inferInstanceAs (Decidable (_ ∧ _))

instance (snd : Sender) : Decidable (lastLook snd) :=
  inferInstanceAs (Decidable (_ ∧ _))

/-- The environment behaves, and by the deadline hidRead has recorded an
answer. The deadline is a parameter, since which one it is decides the
matter. -/
def wellBehaved (deadline : Sender → Prop) (l : Link) : LAct → Prop
  | .send (.created ret) => ret = 0
  | .send (.wrote res) => 0 ≤ res
  | .send .tick => deadline l.s.snd → l.s.g.otaStage ≠ .retrying
  | .answer r => (Rsp.ofReport r).stat = 0
  | .readFail | .lose | .drop _ => False
  | _ => True

instance (deadline : Sender → Prop) [∀ snd, Decidable (deadline snd)]
    (l : Link) : ∀ a, Decidable (wellBehaved deadline l a)
  | .send (.created _) | .answer _ => inferInstanceAs (Decidable (_ = _))
  | .send (.wrote _) => inferInstanceAs (Decidable (_ ≤ _))
  | .send .tick => inferInstanceAs (Decidable (_ → _))
  | .readFail | .lose | .drop _ => inferInstanceAs (Decidable False)
  | .send (.opened _) | .tick | .deliver => inferInstanceAs (Decidable True)

theorem lossless_of_wellBehaved {deadline : Sender → Prop} {l : Link}
    {a : LAct} (h : wellBehaved deadline l a) : lossless l a := by
  cases a with
  | answer r => exact h
  | lose | drop n => exact h
  | send i | tick | deliver | readFail => trivial

/-- The packets written are the first of the image's, each once, and
where the session has come to its end it is at FLAG_OTA_SUCCESS with all
of them. -/
def Transferred (img : Image) (l : Link) : Prop :=
  sentOf l.s.trace <+: img.packets
    ∧ (l.s.snd.pc.live = false →
      l.s.snd.pc.succeeding = true ∧ sentOf l.s.trace = img.packets)

instance (img : Image) (l : Link) : Decidable (Transferred img l) :=
  inferInstanceAs (Decidable (_ ∧ (_ → _)))

-- ================================================================ the image

/-- The FINISH record is the last one. -/
theorem Image.finish_iff_last {img : Image} {k : Nat} {r : Record}
    (hr : img.recs[k]? = some r) :
    r.type = finishCmd ↔ k + 1 = img.recs.length := by
  obtain ⟨body, fin, hrecs, hfin, hbody⟩ := img.finishLast
  rw [hrecs] at hr ⊢
  rw [List.length_append, List.length_singleton]
  rcases Threads.snoc_inv hr with hold | ⟨rfl, rfl⟩
  · have hmem := List.mem_of_getElem? hold
    have hlt := (List.getElem?_eq_some_iff.mp hold).1
    constructor
    · exact fun htype => absurd htype (hbody r hmem)
    · omega
  · exact ⟨fun _ => rfl, fun _ => hfin⟩

/-- Byte 5 of a record's packet is its command. -/
theorem Record.getD_packet (r : Record) : r.packet.getD 5 0 = r.type := rfl

theorem ackOf_packet {img : Image} {k : Nat} {r : Record}
    (hr : img.recs[k]? = some r) :
    ackOf r.packet = .complete ↔ k + 1 = img.recs.length := by
  rw [← Image.finish_iff_last hr, ackOf, r.getD_packet]
  split
  case isTrue h => exact ⟨fun _ => h, fun _ => rfl⟩
  case isFalse h => exact ⟨nofun, fun h' => absurd h' h⟩

-- ============================================================ the invariant

/-- The sender is in its wait loop, so the packet held has been written.
-/
def SPc.polling : SPc → Bool
  | .wait | .pollNext | .pollErr | .pollComplete => true
  | _ => false

/-- The reader is where it can take what arrives: in its loop, and not on
its way out. -/
def Link.Listening (l : Link) : Prop :=
  l.s.rdr = some .test ∨ l.s.rdr = some .read ∨ l.s.rdr.any RPc.busy = true

/-- What a run keeps in which each answer is seen: at most one
transmission is under way, and what has been written is the image so far.
-/
structure TransferInv (img : Image) (l : Link) : Prop where
  total : l.s.g.totalCmdNum ≤ img.recs.length
  between : l.s.snd.pc.between = true →
    l.s.g.totalCmdNum < img.recs.length
  zero : (l.s.snd.pc.cleared = true ∨ l.s.snd.pc = .retry) →
    l.s.snd.sendCount = 0
  write : l.s.snd.pc = .write →
    l.s.g.otaStage = .retrying ∧ l.s.snd.waitCount = 0
  clear : l.s.snd.pc.polling = false → l.flight = []
  await : l.s.snd.pc.polling = true →
    (l.flight = [l.s.g.totalCmdNum] ∧ l.s.g.otaStage = .retrying)
      ∨ (l.flight = [] ∧ l.s.g.otaStage = ackOf l.s.snd.packet)
  window : l.s.snd.pc.polling = true →
    l.s.snd.waitCount + (if l.s.snd.pc = .wait then 1 else 0) < otaWaitTime
  missed : (l.s.snd.pc = .pollErr ∨ l.s.snd.pc = .pollComplete) →
    ackOf l.s.snd.packet = .complete ∨ l.s.snd.waitCount + 1 < otaWaitTime
  sent : sentOf l.s.trace = img.packets.take
    (if l.s.snd.pc = .retry ∨ l.s.snd.pc = .write
      then l.s.g.totalCmdNum - 1 else l.s.g.totalCmdNum)
  ended : l.s.snd.pc.live = false → l.s.snd.pc.succeeding = true
    ∧ l.s.g.totalCmdNum = img.recs.length
  flag : l.s.snd.pc.live = true → l.s.g.flagRead = true
  reader : l.s.snd.pc.live = true → l.s.snd.pc ≠ .create → l.Listening

variable {cs : CharSign} {g' : Shared} {snd' : Sender} {es : List Event}
  {i : SIn} {img : Image} {l l' : Link}

/-- The packet held is the image's. -/
theorem TransferInv.held (hc : CursorInv img l.s) (hi : TransferInv img l)
    (hhold : l.s.snd.pc.holding = true) :
    ∃ k r, l.s.g.totalCmdNum = k + 1 ∧ img.recs[k]? = some r
      ∧ l.s.snd.packet = r.packet :=
  hc.packet hhold hi.total

/-- The record at the cursor is assembled: an image's records stay inside
both buffers. -/
theorem CursorInv.assembles {s : Session} (hc : CursorInv img s)
    (cs : CharSign) (hlt : s.g.totalCmdNum < img.recs.length) :
    (assemble cs s.g s.snd).isSome = true := by
  obtain ⟨r, hr⟩ := Image.exists_rec hlt
  have hidx := hc.cursor (Nat.le_of_lt hlt)
  have hlen := (hc.loaded.record hidx hr).1
  have hle := Image.offset_add_le hr
  have hfits : img.bytes.length ≤ fwBufSize := img.fits
  have hlower := r.lower
  have hupper := r.upper
  refine assemble_isSome cs s.g ?_ ?_
  · rw [hidx, hlen]
    refine decide_eq_true ⟨by omega, by omega, ?_⟩
    show r.bytes.length + 1 + 1 < 1024
    omega
  · rw [hc.loaded.len]
    omega

theorem TransferInv.assembles (hc : CursorInv img l.s)
    (hi : TransferInv img l) (hpc : l.s.snd.pc = .assemble) :
    (assemble cs l.s.g l.s.snd).isSome = true :=
  hc.assembles cs (hi.between (by rw [hpc]; rfl))

-- ============================================================ the wait loop

theorem SPc.holding_of_polling {pc : SPc} (h : pc.polling = true) :
    pc.holding = true := by
  cases pc <;> first | rfl | cases h

theorem SPc.live_of_polling {pc : SPc} (h : pc.polling = true) :
    pc.live = true ∧ pc ≠ .create := by
  cases pc <;> first | (cases h; done) | exact ⟨rfl, nofun⟩

/-- What is polled for has been written. -/
theorem SPc.written_of_polling {pc : SPc} (h : pc.polling = true) :
    ¬ (pc = .retry ∨ pc = .write) := by
  intro hpc
  rcases hpc with rfl | rfl
  · cases h
  · cases h

/-- In the wait loop every packet begun has been written. -/
theorem TransferInv.sent_of_polling (hi : TransferInv img l)
    (hpoll : l.s.snd.pc.polling = true) :
    sentOf l.s.trace = img.packets.take l.s.g.totalCmdNum := by
  have hsent := hi.sent
  rwa [if_neg (SPc.written_of_polling hpoll)] at hsent

/-- What hidRead has recorded acknowledges the packet held, and nothing
is in flight any more. -/
theorem TransferInv.answered (hi : TransferInv img l)
    (hpoll : l.s.snd.pc.polling = true)
    (hseen : l.s.g.otaStage ≠ .retrying) :
    l.flight = [] ∧ l.s.g.otaStage = ackOf l.s.snd.packet :=
  (hi.await hpoll).resolve_left fun h => hseen h.2

/-- While a packet is awaited, its acknowledgement in the mailbox moves
the sender on: to the next packet, or behind the last one to the end. -/
theorem TransferInv.next_of_nextCmd (hc : CursorInv img l.s)
    (hi : TransferInv img l) (hpc : l.s.snd.pc = .pollNext)
    (hst : l.s.g.otaStage = .nextCmd) :
    l.flight = [] ∧ l.s.g.totalCmdNum < img.recs.length := by
  obtain ⟨hnil, hack⟩ := hi.answered (by rw [hpc]; rfl) (by simp [hst])
  obtain ⟨k, r, htotal, hr, hp⟩ := hi.held hc (by rw [hpc]; rfl)
  refine ⟨hnil, ?_⟩
  have hne : k + 1 ≠ img.recs.length := by
    intro hlast
    rw [hp, (ackOf_packet hr).mpr hlast] at hack
    cases hack.symm.trans hst
  have := hi.total
  omega

theorem TransferInv.end_of_complete (hc : CursorInv img l.s)
    (hi : TransferInv img l) (hpc : l.s.snd.pc = .pollComplete)
    (hst : l.s.g.otaStage = .complete) :
    l.flight = [] ∧ l.s.g.totalCmdNum = img.recs.length := by
  obtain ⟨hnil, hack⟩ := hi.answered (by rw [hpc]; rfl) (by simp [hst])
  obtain ⟨k, r, htotal, hr, hp⟩ := hi.held hc (by rw [hpc]; rfl)
  refine ⟨hnil, ?_⟩
  rw [htotal, ← ackOf_packet hr, ← hp, ← hack]
  exact hst

-- ======================================================= phase by phase

/-- Between two packets nothing is in flight. -/
theorem transferInv_between (hpc : l.s.snd.pc.between = true)
    (hlt : l.s.g.totalCmdNum < img.recs.length)
    (hzero : l.s.snd.pc.cleared = true → l.s.snd.sendCount = 0)
    (hflight : l.flight = [])
    (hsent : sentOf l.s.trace = img.packets.take l.s.g.totalCmdNum)
    (hflag : l.s.g.flagRead = true)
    (hreader : l.s.snd.pc ≠ .create → l.Listening) : TransferInv img l := by
  have hne : l.s.snd.pc ≠ .retry ∧ l.s.snd.pc ≠ .write
      ∧ l.s.snd.pc.polling = false ∧ l.s.snd.pc.live = true := by
    cases h : l.s.snd.pc <;> simp_all [SPc.between, SPc.polling, SPc.live]
  obtain ⟨hretry, hwrite, hpoll, hlive⟩ := hne
  refine
    { total := Nat.le_of_lt hlt, between := fun _ => hlt
      zero := fun h => hzero (h.resolve_right hretry)
      write := fun h => absurd h hwrite
      clear := fun _ => hflight
      await := fun h => absurd h (by simp [hpoll])
      window := fun h => absurd h (by simp [hpoll])
      missed := ?_, sent := ?_
      ended := fun h => absurd hlive (by simp [h])
      flag := fun _ => hflag, reader := fun _ => hreader }
  · intro h
    rcases h with h | h
    · rw [h] at hpc
      cases hpc
    · rw [h] at hpc
      cases hpc
  · rw [if_neg (not_or.mpr ⟨hretry, hwrite⟩)]
    exact hsent

/-- While a packet waits in `cmd_buf` to be written, nothing is in
flight, and it has not been written before. -/
theorem transferInv_writing (hpc : l.s.snd.pc = .retry ∨ l.s.snd.pc = .write)
    (htotal : l.s.g.totalCmdNum ≤ img.recs.length)
    (hzero : l.s.snd.pc = .retry → l.s.snd.sendCount = 0)
    (hwrite : l.s.snd.pc = .write →
      l.s.g.otaStage = .retrying ∧ l.s.snd.waitCount = 0)
    (hflight : l.flight = [])
    (hsent : sentOf l.s.trace = img.packets.take (l.s.g.totalCmdNum - 1))
    (hflag : l.s.g.flagRead = true) (hreader : l.Listening) :
    TransferInv img l := by
  have hother : l.s.snd.pc.between = false ∧ l.s.snd.pc.cleared = false
      ∧ l.s.snd.pc.polling = false ∧ l.s.snd.pc.live = true := by
    rcases hpc with hpc | hpc <;> rw [hpc] <;> exact ⟨rfl, rfl, rfl, rfl⟩
  obtain ⟨hbetween, hcleared, hpoll, hlive⟩ := hother
  refine
    { total := htotal, between := fun h => absurd h (by simp [hbetween])
      zero := fun h => hzero (h.resolve_left (by simp [hcleared]))
      write := hwrite, clear := fun _ => hflight
      await := fun h => absurd h (by simp [hpoll])
      window := fun h => absurd h (by simp [hpoll])
      missed := ?_, sent := by rw [if_pos hpc]; exact hsent
      ended := fun h => absurd hlive (by simp [h])
      flag := fun _ => hflag, reader := fun _ _ => hreader }
  intro h
  rcases h with h | h
  · rcases hpc with hpc | hpc <;> cases h.symm.trans hpc
  · rcases hpc with hpc | hpc <;> cases h.symm.trans hpc

/-- While the sender polls, the packet held is in flight, or has been
acknowledged. -/
theorem transferInv_polling (hpc : l.s.snd.pc.polling = true)
    (htotal : l.s.g.totalCmdNum ≤ img.recs.length)
    (hawait : (l.flight = [l.s.g.totalCmdNum] ∧ l.s.g.otaStage = .retrying)
      ∨ (l.flight = [] ∧ l.s.g.otaStage = ackOf l.s.snd.packet))
    (hwindow : l.s.snd.waitCount + (if l.s.snd.pc = .wait then 1 else 0)
      < otaWaitTime)
    (hmissed : (l.s.snd.pc = .pollErr ∨ l.s.snd.pc = .pollComplete) →
      ackOf l.s.snd.packet = .complete
        ∨ l.s.snd.waitCount + 1 < otaWaitTime)
    (hsent : sentOf l.s.trace = img.packets.take l.s.g.totalCmdNum)
    (hflag : l.s.g.flagRead = true) (hreader : l.Listening) :
    TransferInv img l := by
  have hne : l.s.snd.pc ≠ .retry ∧ l.s.snd.pc ≠ .write
      ∧ l.s.snd.pc.between = false ∧ l.s.snd.pc.cleared = false
      ∧ l.s.snd.pc.live = true := by
    cases h : l.s.snd.pc <;>
      simp_all [SPc.between, SPc.cleared, SPc.polling, SPc.live, SPc.awaiting]
  obtain ⟨hretry, hwrite, hbetween, hcleared, hlive⟩ := hne
  exact
    { total := htotal, between := fun h => absurd h (by simp [hbetween])
      zero := fun h => absurd h (by simp [hcleared, hretry])
      write := fun h => absurd h hwrite
      clear := fun h => absurd hpc (by simp [h])
      await := fun _ => hawait, window := fun _ => hwindow
      missed := hmissed
      sent := by rw [if_neg (not_or.mpr ⟨hretry, hwrite⟩)]; exact hsent
      ended := fun h => absurd hlive (by simp [h])
      flag := fun _ => hflag, reader := fun _ _ => hreader }

/-- At the end everything has been written and acknowledged. -/
theorem transferInv_ended (hpc : l.s.snd.pc.succeeding = true)
    (htotal : l.s.g.totalCmdNum = img.recs.length) (hflight : l.flight = [])
    (hsent : sentOf l.s.trace = img.packets.take l.s.g.totalCmdNum) :
    TransferInv img l := by
  have hne : l.s.snd.pc ≠ .retry ∧ l.s.snd.pc ≠ .write
      ∧ l.s.snd.pc.between = false ∧ l.s.snd.pc.cleared = false
      ∧ l.s.snd.pc.polling = false ∧ l.s.snd.pc.live = false := by
    cases h : l.s.snd.pc <;>
      simp_all [SPc.between, SPc.cleared, SPc.polling, SPc.live, SPc.awaiting,
        SPc.succeeding]
  obtain ⟨hretry, hwrite, hbetween, hcleared, hpoll, hlive⟩ := hne
  refine
    { total := Nat.le_of_eq htotal
      between := fun h => absurd h (by simp [hbetween])
      zero := fun h => absurd h (by simp [hcleared, hretry])
      write := fun h => absurd h hwrite
      clear := fun _ => hflight
      await := fun h => absurd h (by simp [hpoll])
      window := fun h => absurd h (by simp [hpoll])
      missed := ?_
      sent := by rw [if_neg (not_or.mpr ⟨hretry, hwrite⟩)]; exact hsent
      ended := fun _ => ⟨hpc, htotal⟩
      flag := fun h => absurd h (by simp [hlive])
      reader := fun h => absurd h (by simp [hlive]) }
  intro h
  rcases h with h | h
  · rw [h] at hpc
    cases hpc
  · rw [h] at hpc
    cases hpc

-- ============================================================= the sender

theorem SPc.live_of_between {pc : SPc} (h : pc.between = true) :
    pc.live = true := by
  rw [live, h]
  rfl

/-- A move from between two packets to between two packets. -/
theorem TransferInv.send_between (hf : FlightInv cs l)
    (hi : TransferInv img l) (hok : wellBehaved lastLook l (.send i))
    (h : SStep cs l.s.g l.s.snd i g' snd' es)
    (hpc : l.s.snd.pc.between = true) (hpc' : snd'.pc.between = true) :
    TransferInv img
      { l with
        s := { g := g', snd := snd', rdr := Session.spawn l.s.rdr i
               trace := l.s.trace ++ es }
        up := l.up ++ Link.written l.s i } := by
  have hflight := Link.flight_send hf.created h (l.s.trace ++ es)
    (Link.written l.s i)
  have hnil : l.flight = [] := hi.clear (by
    cases hpc₁ : l.s.snd.pc <;> simp_all [SPc.between, SPc.polling])
  have hsent := hi.sent
  rw [hnil] at hflight
  rw [h.written hf.opened] at hflight ⊢
  rw [if_neg (by rintro (h | h) <;> simp [h, SPc.between] at hpc)] at hsent
  have hlive := SPc.live_of_between hpc
  cases h with
  | created pc ret =>
      -- pthread_create succeeds in a well behaved run
      have hret : ret = 0 := hok
      subst hret
      refine transferInv_between rfl (hi.between hpc) nofun hflight ?_
        (hi.flag hlive) fun _ => Or.inl rfl
      rw [sentOf_append]
      exact (List.append_nil _).trans hsent
  | next pc =>
      -- send_count is cleared here, and stays so up to assemble
      refine transferInv_between rfl (hi.between hpc) (fun _ => rfl) hflight
        ?_ (hi.flag hlive) fun _ => hi.reader hlive (by rw [pc]; nofun)
      rw [sentOf_append]
      exact (List.append_nil _).trans hsent
  | newStage pc =>
      refine transferInv_between rfl (hi.between hpc) (fun _ => ?_) hflight
        ?_ (hi.flag hlive) fun _ => hi.reader hlive (by rw [pc]; nofun)
      · exact hi.zero (Or.inl (by rw [pc]; rfl))
      · rw [sentOf_append]
        exact (List.append_nil _).trans hsent
  | opened pc => exact absurd pc hf.opened.2
  | nextHit pc =>
      rw [pc] at hpc
      cases hpc
  | init | openFail | openOver | assemble | crash | retry | giveUp | wrote
  | writeFail | poll | timeout | nextMiss | errHit | errMiss | completeHit
  | completeMiss | flag | verdict | stop | quitThread | quitServ =>
      cases hpc'

/-- The next packet is built, cleared for its first transmission, and
written. -/
theorem TransferInv.send_writing (hf : FlightInv cs l)
    (hc : CursorInv img l.s) (hi : TransferInv img l)
    (h : SStep cs l.s.g l.s.snd i g' snd' es)
    (hpc : l.s.snd.pc = .assemble ∨ l.s.snd.pc = .retry
      ∨ l.s.snd.pc = .write) (hok : wellBehaved lastLook l (.send i)) :
    TransferInv img
      { l with
        s := { g := g', snd := snd', rdr := Session.spawn l.s.rdr i
               trace := l.s.trace ++ es }
        up := l.up ++ Link.written l.s i } := by
  have hflight := Link.flight_send hf.created h (l.s.trace ++ es)
    (Link.written l.s i)
  have hpcs : l.s.snd.pc.polling = false ∧ l.s.snd.pc.live = true
      ∧ l.s.snd.pc ≠ .create := by
    rcases hpc with hpc | hpc | hpc <;> rw [hpc] <;> exact ⟨rfl, rfl, nofun⟩
  obtain ⟨hpoll, hlive, hne⟩ := hpcs
  rw [hi.clear hpoll] at hflight
  rw [h.written hf.opened] at hflight ⊢
  have hlisten := hi.reader hlive hne
  have hsent := hi.sent
  cases h with
  | assemble pc hasm =>
      -- the next record of the image becomes the packet in hand
      have ha := assembled_of_some hasm
      have hlt := hi.between (by rw [pc]; rfl)
      rw [if_neg (by simp [pc])] at hsent
      refine transferInv_writing (Or.inl rfl) ?_ (fun _ => ?_) nofun ?_ ?_ ?_
        hlisten
      · rw [ha.total]
        exact hlt
      · exact ha.sendCount.trans (hi.zero (Or.inl (by rw [pc]; rfl)))
      · exact hflight.trans (by rw [sentOf_quiet ha.quiet]; rfl)
      · rw [sentOf_append, sentOf_quiet ha.quiet, List.append_nil, ha.total]
        exact hsent
      · rw [ha.flagRead]
        exact hi.flag hlive
  | crash pc hasm =>
      -- the records of an image stay inside both buffers
      have hsome : (BtOta.assemble cs l.s.g l.s.snd).isSome = true :=
        hi.assembles hc pc
      rw [hasm] at hsome
      cases hsome
  | retry pc hlt =>
      -- the first try, so the line about retrying is not printed
      have hzero := hi.zero (Or.inr pc)
      rw [if_pos (Or.inl pc)] at hsent
      have hes : (if l.s.snd.sendCount + 1 > 1
          then [.log (.retrying (l.s.snd.sendCount + 1))] else [])
          = ([] : List Event) := by
        rw [hzero]
        rfl
      rw [hes] at hflight ⊢
      refine transferInv_writing (Or.inr rfl) hi.total nofun
        (fun _ => ⟨rfl, rfl⟩) hflight ?_ (hi.flag hlive) hlisten
      rw [List.append_nil]
      exact hsent
  | giveUp pc hge =>
      -- it takes a fourth try
      have hzero := hi.zero (Or.inr pc)
      omega
  | wrote pc res hres =>
      -- the packet is out: it is all there is in flight, and the polls begin
      obtain ⟨k, r, htotal, hr, hp⟩ := hi.held hc (by rw [pc]; rfl)
      obtain ⟨hstage, hwait⟩ := hi.write pc
      rw [if_pos (Or.inr pc)] at hsent
      have hes : sentOf (l.s.g.verbose (.dump l.s.snd.packet)
          ++ [.tx l.s.g.totalCmdNum l.s.snd.packet]
          ++ l.s.g.verbose (.wrote res))
          = [(l.s.g.totalCmdNum, l.s.snd.packet)] := by
        rw [sentOf_append, sentOf_append, sentOf_verbose, sentOf_verbose]
        rfl
      have hflight' := hflight.trans (congrArg (List.map Prod.fst) hes)
      refine transferInv_polling rfl hi.total (Or.inl ⟨hflight', hstage⟩) ?_
        (by rintro (h | h) <;> cases h) ?_ (hi.flag hlive) hlisten
      · show l.s.snd.waitCount + 1 < otaWaitTime
        rw [hwait]
        decide
      · rw [sentOf_append, hes, hsent, htotal, hp, Nat.add_sub_cancel,
          List.take_add_one, Image.getElem?_packets hr]
        rfl
  | writeFail pc res hres =>
      -- the guard: write does not fail
      have hres' : 0 ≤ res := hok
      omega
  | init pc | openFail pc | opened pc | openOver pc | created pc | next pc
  | newStage pc | poll pc | timeout pc | nextHit pc | nextMiss pc
  | errHit pc | errMiss pc | completeHit pc | completeMiss pc | flag pc
  | verdict pc | stop pc | quitThread pc | quitServ pc =>
      simp [pc] at hpc

/-- A poll that moves the sender on inside the wait loop. -/
theorem TransferInv.stay (hf : FlightInv cs l) (hi : TransferInv img l)
    (h : SStep cs l.s.g l.s.snd .tick l.s.g snd' [])
    (hpoll : l.s.snd.pc.polling = true) (hpoll' : snd'.pc.polling = true)
    (hpacket : snd'.packet = l.s.snd.packet)
    (hwindow : snd'.waitCount + (if snd'.pc = .wait then 1 else 0)
      < otaWaitTime)
    (hmissed : (snd'.pc = .pollErr ∨ snd'.pc = .pollComplete) →
      ackOf l.s.snd.packet = .complete
        ∨ snd'.waitCount + 1 < otaWaitTime) :
    TransferInv img
      { l with
        s := { g := l.s.g, snd := snd', rdr := Session.spawn l.s.rdr .tick
               trace := l.s.trace ++ [] }
        up := l.up ++ sentOf [] } := by
  have hflight := Link.flight_send hf.created h (l.s.trace ++ []) (sentOf [])
  rw [show l.flight ++ (sentOf []).map Prod.fst = l.flight from
    List.append_nil _] at hflight
  obtain ⟨hlive, hne⟩ := SPc.live_of_polling hpoll
  refine transferInv_polling hpoll' hi.total ?_ hwindow ?_ ?_
    (hi.flag hlive) (hi.reader hlive hne)
  · rw [hflight, show Sender.packet _ = l.s.snd.packet from hpacket]
    exact hi.await hpoll
  · rw [show Sender.packet _ = l.s.snd.packet from hpacket]
    exact hmissed
  · rw [List.append_nil]
    exact hi.sent_of_polling hpoll

/-- One step of the wait loop: the acknowledgement is found, or it is
still under way. -/
theorem TransferInv.send_polling (hf : FlightInv cs l)
    (hc : CursorInv img l.s) (hi : TransferInv img l)
    (hok : wellBehaved lastLook l (.send i))
    (h : SStep cs l.s.g l.s.snd i g' snd' es)
    (hpoll : l.s.snd.pc.polling = true) :
    TransferInv img
      { l with
        s := { g := g', snd := snd', rdr := Session.spawn l.s.rdr i
               trace := l.s.trace ++ es }
        up := l.up ++ Link.written l.s i } := by
  have hflight := Link.flight_send hf.created h (l.s.trace ++ es)
    (Link.written l.s i)
  obtain ⟨hlive, hne⟩ := SPc.live_of_polling hpoll
  have hlisten := hi.reader hlive hne
  have hwindow := hi.window hpoll
  have hsent := hi.sent_of_polling hpoll
  rw [h.written hf.opened] at hflight ⊢
  cases h with
  | poll pc hlt =>
      refine hi.stay hf (.poll pc hlt) hpoll rfl rfl hlt fun h => ?_
      rcases h with h | h <;> cases h
  | timeout pc hge =>
      rw [if_pos pc] at hwindow
      omega
  | nextHit pc hst =>
      obtain ⟨hnil, hlt⟩ := hi.next_of_nextCmd hc pc hst
      refine transferInv_between rfl hlt (by intro h; cases h) ?_ ?_
        (hi.flag hlive) fun _ => hlisten
      · exact hflight.trans (by rw [hnil]; rfl)
      · rw [sentOf_append]
        exact (List.append_nil _).trans hsent
  | nextMiss pc hst =>
      rw [if_neg (by simp [pc])] at hwindow
      refine hi.stay hf (.nextMiss pc hst) hpoll rfl rfl hwindow fun _ => ?_
      -- an acknowledgement that is none of FINISH has its last look here
      by_cases hack : ackOf l.s.snd.packet = .complete
      · exact Or.inl hack
      · refine Or.inr (Nat.lt_of_le_of_ne hwindow fun hlast => ?_)
        have hown := (hi.answered hpoll (hok ⟨hlast, Or.inr ⟨pc, hack⟩⟩)).2
        unfold ackOf at hack hown
        split at hown
        case isTrue hfin => exact hack (if_pos hfin)
        case isFalse => exact hst hown
  | errHit pc hst =>
      have hown := (hi.answered hpoll (by simp [hst])).2
      exact absurd (hown.symm.trans hst) (ackOf_ne_errRetry _)
  | errMiss pc hst =>
      rw [if_neg (by simp [pc])] at hwindow
      exact hi.stay hf (.errMiss pc hst) hpoll rfl rfl hwindow
        fun _ => hi.missed (Or.inl pc)
  | completeHit pc hst =>
      obtain ⟨hnil, hlast⟩ := hi.end_of_complete hc pc hst
      refine transferInv_ended rfl hlast ?_ ?_
      · exact hflight.trans (by rw [hnil]; rfl)
      · rw [sentOf_append]
        exact (List.append_nil _).trans hsent
  | completeMiss pc hst =>
      rw [if_neg (by simp [pc])] at hwindow
      have hopen : l.s.snd.waitCount + 1 < otaWaitTime := by
        apply Nat.lt_of_le_of_ne hwindow
        intro hlast
        have hown := (hi.answered hpoll (hok ⟨hlast, Or.inl pc⟩)).2
        rcases hi.missed (Or.inr pc) with hack | hlt
        · exact hst (hown.trans hack)
        · omega
      refine hi.stay hf (.completeMiss pc hst) hpoll rfl rfl hopen
        fun h => ?_
      rcases h with h | h <;> cases h
  | init pc | openFail pc | opened pc | openOver pc | created pc | next pc
  | newStage pc | assemble pc | crash pc | retry pc | giveUp pc | wrote pc
  | writeFail pc | flag pc | verdict pc | stop pc | quitThread pc
  | quitServ pc => simp [pc, SPc.polling] at hpoll

/-- The end is announced, and nothing else happens: no packet is written
behind it. -/
theorem TransferInv.send_ended (hf : FlightInv cs l)
    (hi : TransferInv img l) (h : SStep cs l.s.g l.s.snd i g' snd' es)
    (hlive : l.s.snd.pc.live = false) :
    TransferInv img
      { l with
        s := { g := g', snd := snd', rdr := Session.spawn l.s.rdr i
               trace := l.s.trace ++ es }
        up := l.up ++ Link.written l.s i } := by
  have hflight := Link.flight_send hf.created h (l.s.trace ++ es)
    (Link.written l.s i)
  have hpcs : l.s.snd.pc.polling = false
      ∧ ¬ (l.s.snd.pc = .retry ∨ l.s.snd.pc = .write) := by
    cases hpc : l.s.snd.pc <;>
      simp_all [SPc.polling, SPc.live, SPc.awaiting]
  obtain ⟨hsucc, htotal⟩ := hi.ended hlive
  have hsent := hi.sent
  rw [if_neg hpcs.2] at hsent
  rw [hi.clear hpcs.1] at hflight
  rw [h.written hf.opened] at hflight ⊢
  cases h with
  | flag pc | verdict pc | stop pc | quitThread pc | quitServ pc =>
      rename_i v
      refine transferInv_ended ?_ htotal hflight ?_
      · cases v with
        | success => rfl
        | fail => simp [pc, SPc.succeeding] at hsucc
      · rw [sentOf_append]
        exact (List.append_nil _).trans hsent
  | init pc | openFail pc | opened pc | openOver pc | created pc | next pc
  | newStage pc | assemble pc | crash pc | retry pc | giveUp pc | wrote pc
  | writeFail pc | poll pc | timeout pc | nextHit pc | nextMiss pc
  | errHit pc | errMiss pc | completeHit pc | completeMiss pc =>
      simp [pc, SPc.succeeding] at hsucc

theorem TransferInv.send (hf : FlightInv cs l) (hc : CursorInv img l.s)
    (hi : TransferInv img l) (hok : wellBehaved lastLook l (.send i))
    (h : SStep cs l.s.g l.s.snd i g' snd' es) :
    TransferInv img
      { l with
        s := { g := g', snd := snd', rdr := Session.spawn l.s.rdr i
               trace := l.s.trace ++ es }
        up := l.up ++ Link.written l.s i } := by
  by_cases hlive : l.s.snd.pc.live = true
  · by_cases hpoll : l.s.snd.pc.polling = true
    · exact hi.send_polling hf hc hok h hpoll
    · by_cases hbetween : l.s.snd.pc.between = true
        ∧ snd'.pc.between = true
      · exact hi.send_between hf hok h hbetween.1 hbetween.2
      · refine hi.send_writing hf hc h ?_ hok
        cases h with
        | created pc | next pc | newStage pc =>
            exact absurd ⟨by rw [pc]; rfl, rfl⟩ hbetween
        | assemble pc | crash pc => exact Or.inl pc
        | retry pc | giveUp pc => exact Or.inr (Or.inl pc)
        | wrote pc | writeFail pc => exact Or.inr (Or.inr pc)
        | init pc | openFail pc | opened pc | openOver pc | flag pc
        | verdict pc | stop pc | quitThread pc | quitServ pc =>
            rw [pc] at hlive
            cases hlive
        | poll pc | timeout pc | nextHit pc | nextMiss pc | errHit pc
        | errMiss pc | completeHit pc | completeMiss pc =>
            rw [pc] at hpoll
            exact absurd rfl hpoll
  · exact hi.send_ended hf h (by simpa using hlive)

-- ======================================================= reader and device

/-- What leaves sender, mailbox and flight alone. -/
theorem TransferInv.still (hi : TransferInv img l)
    (hsnd : l'.s.snd = l.s.snd)
    (htotal : l'.s.g.totalCmdNum = l.s.g.totalCmdNum)
    (hstage : l'.s.g.otaStage = l.s.g.otaStage)
    (hsent : sentOf l'.s.trace = sentOf l.s.trace)
    (hflight : l'.flight = l.flight)
    (hlive : l.s.snd.pc.live = true → l'.s.g.flagRead = true
      ∧ (l.s.snd.pc ≠ .create → l'.Listening)) : TransferInv img l' where
  total := htotal ▸ hi.total
  between := by
    rw [hsnd, htotal]
    exact hi.between
  zero := hsnd ▸ hi.zero
  write := by
    rw [hsnd, hstage]
    exact hi.write
  clear := by
    rw [hsnd, hflight]
    exact hi.clear
  await := by
    rw [hsnd, hflight, hstage, htotal]
    exact hi.await
  window := hsnd ▸ hi.window
  missed := hsnd ▸ hi.missed
  sent := by
    rw [hsnd, hsent, htotal]
    exact hi.sent
  ended := by
    rw [hsnd, htotal]
    exact hi.ended
  flag := by
    rw [hsnd]
    exact fun h => (hlive h).1
  reader := by
    rw [hsnd]
    exact fun h => (hlive h).2

/-- hidRead has a response at hand only while the sender polls, and then
it is the answer to the packet held. -/
theorem TransferInv.own_answer {pc : RPc} (hi : TransferInv img l)
    (hrdr : l.s.rdr = some pc) (hbusy : pc.busy = true) :
    l.s.snd.pc.polling = true ∧ l.flight = [l.s.g.totalCmdNum]
      ∧ l.held = l.s.g.totalCmdNum := by
  have hmem := Link.held_mem_flight hrdr hbusy
  by_cases hpoll : l.s.snd.pc.polling = true
  · rcases hi.await hpoll with ⟨hone, -⟩ | ⟨hnil, -⟩
    · rw [hone] at hmem
      exact ⟨hpoll, hone, List.mem_singleton.mp hmem⟩
    · rw [hnil] at hmem
      cases hmem
  · rw [hi.clear (by simpa using hpoll)] at hmem
    cases hmem

/-- Answers to the image's packets are never ignored, since each has one
of the three commands. -/
theorem TransferInv.responds (hf : FlightInv cs l) (hc : CursorInv img l.s)
    (hi : TransferInv img l) (hrdr : l.s.rdr = some .decide) :
    respond cs l.s.g l.s.g.rspCmd ≠ none := by
  obtain ⟨hpoll, -, hheld⟩ := hi.own_answer hrdr rfl
  have hhold := SPc.holding_of_polling hpoll
  obtain ⟨k, r, -, -, hp⟩ := hi.held hc hhold
  obtain ⟨hcmd, -⟩ := belongs_iff.mp ((hf.decide hrdr).2 hhold hheld)
  rw [hp, r.getD_packet] at hcmd
  have hsome : (respond cs l.s.g l.s.g.rspCmd).isSome = true :=
    respond_isSome _ (by rw [hcmd]; exact r.hasType)
  intro hnone
  rw [hnone] at hsome
  cases hsome

theorem TransferInv.tick {pc pc' : RPc} (hf : FlightInv cs l)
    (hc : CursorInv img l.s) (hi : TransferInv img l)
    (hrdr : l.s.rdr = some pc) (h : RStep cs l.s.g pc .tick g' pc' es) :
    TransferInv img
      { l with s := { l.s with
          g := g', rdr := some pc', trace := l.s.trace ++ es } } := by
  have hsent : sentOf (l.s.trace ++ es) = sentOf l.s.trace := by
    rw [sentOf_append, h.sentOf, List.append_nil]
  have hflight := Link.flight_tick hrdr h
  -- a reader of a live session is in its loop
  have hlisten : l.s.snd.pc.live = true → pc = .test ∨ pc = .read
      ∨ pc.busy = true := by
    intro hlive
    have hne : l.s.snd.pc ≠ .create := fun hpc => by
      cases (hf.created hpc).symm.trans hrdr
    rcases hi.reader hlive hne with htest | hread | hbusy
    · exact Or.inl (Option.some.inj (hrdr.symm.trans htest))
    · exact Or.inr (Or.inl (Option.some.inj (hrdr.symm.trans hread)))
    · rw [hrdr] at hbusy
      exact Or.inr (Or.inr hbusy)
  cases h with
  | enter hpc hflag =>
      rcases hflight with ⟨-, hsame⟩ | ⟨hbusy, -⟩
      · exact hi.still rfl rfl rfl hsent hsame fun hlive =>
          ⟨hi.flag hlive, fun _ => Or.inr (Or.inl rfl)⟩
      · rw [hpc] at hbusy
        cases hbusy
  | leave hpc hflag =>
      -- flagRead is still set while the session lives
      rcases hflight with ⟨-, hsame⟩ | ⟨hbusy, -⟩
      · refine hi.still rfl rfl rfl hsent hsame fun hlive => ?_
        cases hflag.symm.trans (hi.flag hlive)
      · rw [hpc] at hbusy
        cases hbusy
  | failFlag hpc | failLog hpc | failStop hpc =>
      rcases hflight with ⟨-, hsame⟩ | ⟨hbusy, -⟩
      · refine hi.still rfl rfl rfl hsent hsame fun hlive => ?_
        have hpcs := hlisten hlive
        simp [hpc, RPc.busy] at hpcs
      · rw [hpc] at hbusy
        cases hbusy
  | decide hpc hx =>
      -- the report stays in flight, now as a decision
      rcases hflight with ⟨-, hsame⟩ | ⟨-, hhead⟩
      · exact hi.still rfl rfl rfl hsent hsame fun hlive =>
          ⟨hi.flag hlive, fun _ => Or.inr (Or.inr rfl)⟩
      · have hlen := congrArg List.length hhead
        simp [Link.flight, hrdr, hpc, RPc.busy] at hlen
  | ignore hpc hx =>
      exact absurd hx (hi.responds hf hc (hrdr.trans (congrArg some hpc)))
  | @store x hpc =>
      -- the answer in flight becomes the mailbox's: the one acknowledgement
      -- of the packet in hand
      subst hpc
      obtain ⟨hpoll, hone, hheld⟩ := hi.own_answer hrdr rfl
      obtain ⟨hlive, -⟩ := SPc.live_of_polling hpoll
      have hack : x = ackOf l.s.snd.packet :=
        hf.store x hrdr (SPc.holding_of_polling hpoll) hheld
      refine transferInv_polling hpoll hi.total (Or.inr ⟨?_, hack⟩)
        (hi.window hpoll) hi.missed
        (hsent.trans (hi.sent_of_polling hpoll)) (hi.flag hlive)
        (Or.inl rfl)
      rcases hflight with ⟨hbusy, -⟩ | ⟨-, hhead⟩
      · cases hbusy
      · rw [hone] at hhead
        exact (List.cons.inj hhead).2.symm

/-- One step of a run in which each answer is seen, whoever takes it. -/
theorem TransferInv.step {a : LAct} (hf : FlightInv cs l)
    (hc : CursorInv img l.s) (hi : TransferInv img l)
    (hok : wellBehaved lastLook l a) (hs : Link.step cs l a = some l') :
    TransferInv img l' := by
  cases Link.step_inv hs with
  | send h => exact hi.send hf hc hok h
  | tick hrdr h => exact hi.tick hf hc hrdr h
  | @deliver pc pc' g' es k r rest hdown hrdr h =>
      have hread : pc = .read := by
        cases h with
        | report hpc | stray hpc => exact hpc
      have hsent : sentOf (l.s.trace ++ es) = sentOf l.s.trace := by
        rw [sentOf_append, h.sentOf, List.append_nil]
      have hflight := Link.flight_deliver hdown
        (hrdr.trans (congrArg some hread))
        { l.s with g := g', rdr := some pc', trace := l.s.trace ++ es }
      cases h with
      | report =>
          exact hi.still rfl rfl rfl hsent (hflight.1 rfl) fun hlive =>
            ⟨hi.flag hlive, fun _ => Or.inr (Or.inr rfl)⟩
      | stray hpc report hrid =>
          refine absurd (hf.rid (k, r) ?_) hrid
          rw [hdown]
          exact List.mem_cons_self ..
  | readFail hrdr h => exact hok.elim
  | answer hup hans =>
      exact hi.still rfl rfl rfl rfl (Link.flight_answer hup) fun hlive =>
        ⟨hi.flag hlive, hi.reader hlive⟩
  | lose hup => exact hok.elim
  | drop hn => exact hok.elim

theorem transferInv_start (g₀ : Shared) (param2 : Option String)
    (stack : Nat → UInt8) (img : Image) :
    TransferInv img (Link.start g₀ param2 stack img.bytes) := by
  have hpos : 0 < img.recs.length := by
    obtain ⟨body, fin, hrecs, -⟩ := img.finishLast
    rw [hrecs]
    simp
  exact transferInv_between rfl hpos (fun _ => rfl) rfl
    (sentOf_quiet (Session.start_quiet g₀ param2 stack img.bytes)) rfl
    fun h => absurd rfl h

end BtOta
