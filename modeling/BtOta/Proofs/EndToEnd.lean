/-
What a success means for the device.

The host's two threads may take a late answer for an answer to the
packet outstanding, so that a packet is left without its own
acknowledgement (`skipped_unacked`). Nothing on the host notices. The
device can: it knows which records it has taken, and the FINISH record
is its occasion to say so.

`honest` is that device. It answers the FINISH record with SUCCESS only
once it has answered every other record of the image with SUCCESS, and
it never says NO_NEED_UPDATE; it may refuse or ignore whatever it
likes, and the channel may lose and hold back whatever it likes in
either direction. In every run against it a session that ends at
FLAG_OTA_SUCCESS has transmitted every record of the image, and every
one of them has been answered SUCCESS (`success_acked`). So the skips
cost a session its success, never the device a record.

The argument is about where STAGE_COMPLETE comes from. The sender looks
for it only in its wait, behind its own STAGE_RETRYING store, so it was
stored by this session's reader; the reader stores it on a report, and
the report is on the list of what the device has answered.
-/
import BtOta.Proofs.OwnAck
import BtOta.Proofs.Flight
import BtOta.Proofs.Verdict

namespace BtOta

variable {cs : CharSign} {g g' : Shared} {snd' : Sender} {es : List Event}
  {i : SIn} {img : Image} {s : Session}

-- ========================================================== what was written

/-- What has been written under a number of the image is the image's
packet of that number, so numbers stand for packets. -/
structure SentInv (img : Image) (s : Session) : Prop where
  cursor : CursorInv img s
  sent : ∀ t ∈ sentOf s.trace, t.1 ≤ img.recs.length → t ∈ img.packets

theorem SentInv.send (hi : SentInv img s)
    (h : SStep cs s.g s.snd i g' snd' es) (rdr : Option RPc) :
    SentInv img
      { g := g', snd := snd', rdr := rdr, trace := s.trace ++ es } := by
  refine ⟨hi.cursor.send h rdr (s.trace ++ es), ?_⟩
  intro t ht hle
  rw [sentOf_append] at ht
  rcases List.mem_append.mp ht with ht | ht
  · exact hi.sent t ht hle
  · obtain ⟨hhold, rfl⟩ := (h.numbered hi.cursor.loaded.opened).2 t ht
    obtain ⟨k, r, htotal, hr, hpacket⟩ := hi.cursor.packet hhold hle
    rw [htotal, hpacket]
    exact List.mem_of_getElem? (Image.getElem?_packets hr)

theorem SentInv.read {pc pc' : RPc} {j : RIn} (hi : SentInv img s)
    (h : RStep cs s.g pc j g' pc' es) :
    SentInv img
      { s with g := g', rdr := some pc', trace := s.trace ++ es } := by
  refine ⟨hi.cursor.read h (some pc') (s.trace ++ es), fun t ht => ?_⟩
  rw [sentOf_append, h.sentOf, List.append_nil] at ht
  exact hi.sent t ht

theorem sentInv_of_reach {g₀ : Shared} {param2 : Option String}
    {stack : Nat → UInt8}
    (h : Lts.Reach (Session.step cs) Lts.free
      (Session.start g₀ param2 stack img.bytes) s) : SentInv img s := by
  refine h.invariant (I := SentInv img) ?_ ?_
  · refine ⟨cursorInv_start g₀ param2 stack img, fun t ht => ?_⟩
    rw [sentOf_quiet (Session.start_quiet g₀ param2 stack img.bytes)] at ht
    cases ht
  · intro s a s' hi _ hs
    cases Session.step_inv hs with
    | send hm => exact hi.send hm _
    | read hrdr hm => exact hi.read hm

namespace Link

variable {l l' : Link}

-- ============================================================== the device

/-- Every record of the image has been answered SUCCESS, whether or not
the answer has arrived. -/
def allAcked (img : Image) (l : Link) : Prop :=
  ∀ t ∈ img.packets, l.acked t.1

/-- The device does not say NO_NEED_UPDATE, and it answers a FINISH
record with SUCCESS only where that leaves no record of the image
without such an answer. -/
def honest (img : Image) (l : Link) : LAct → Prop
  | .answer r =>
      (Rsp.ofReport r).stat ≠ 2
        ∧ ((Rsp.ofReport r).cmd = finishCmd → (Rsp.ofReport r).stat = 0 →
          ∀ t ∈ img.packets,
            l.acked t.1 ∨ l.up.head?.map Prod.fst = some t.1)
  | _ => True

instance (img : Image) (l : Link) : Decidable (l.allAcked img) :=
  inferInstanceAs (Decidable (∀ _ ∈ _, _))

instance (img : Image) (l : Link) : ∀ a, Decidable (honest img l a)
  | .answer _ => inferInstanceAs (Decidable (_ ∧ (_ → _ → ∀ _ ∈ _, _)))
  | .send _ | .tick | .deliver | .readFail | .lose | .drop _ =>
      inferInstanceAs (Decidable True)

theorem allAcked_mono (hsub : ∀ t ∈ l.answered, t ∈ l'.answered)
    (h : l.allAcked img) : l'.allAcked img :=
  fun t ht => acked_mono hsub (h t ht)

/-- Behind an honest answer to FINISH no record lacks its answer. -/
theorem allAcked_of_honest {k : Nat} {p r : List UInt8}
    {rest : List (Nat × List UInt8)} (hup : l.up = (k, p) :: rest)
    (hok : honest img l (.answer r))
    (hcmd : (Rsp.ofReport r).cmd = finishCmd)
    (hstat : (Rsp.ofReport r).stat = 0)
    (hans : l'.answered = l.answered ++ [(k, r)]) : l'.allAcked img := by
  intro t ht
  rcases hok.2 hcmd hstat t ht with hwas | hhead
  · refine acked_mono (fun u hu => ?_) hwas
    rw [hans]
    exact List.mem_append_left _ hu
  · rw [hup] at hhead
    have hk : k = t.1 := Option.some.inj hhead
    refine ⟨(k, r), ?_, hk, hstat⟩
    rw [hans]
    exact List.mem_append_right _ (List.mem_singleton_self _)

/-- Without NO_NEED_UPDATE only a FINISH response completes, and it says
SUCCESS; a DATA response only goes on to the next packet. -/
theorem finish_of_respond {rsp : Rsp} {ms : List Msg}
    (h : respond cs g rsp = some (.complete, ms)) (hstat : rsp.stat ≠ 2) :
    rsp.cmd = finishCmd ∧ rsp.stat = 0 := by
  rcases respond_inv h with ⟨-, hx⟩ | ⟨-, -, hx⟩ | ⟨-, -, hx⟩ | ⟨hc, hx⟩
  · rcases stageOf_eq_complete.mp hx.symm with ⟨-, hon⟩ | htwo
    · cases hon
    · exact absurd htwo hstat
  · rcases stageOf_eq_complete.mp hx.symm with ⟨-, hon⟩ | htwo
    · cases hon
    · exact absurd htwo hstat
  · cases hx
  · rcases stageOf_eq_complete.mp hx.symm with ⟨hzero, -⟩ | htwo
    · exact ⟨hc, hzero⟩
    · exact absurd htwo hstat

-- ============================================================ the invariant

/-- What a run against an honest device keeps: what is under way has been
written or given, and what would complete the session is backed by
answers to all records. -/
structure EndInv (img : Image) (l : Link) : Prop where
  up : ∀ t ∈ l.up, t ∈ sentOf l.s.trace
  written : ∀ t ∈ l.answered, ∃ p, (t.1, p) ∈ sentOf l.s.trace
  down : ∀ t ∈ l.down, t ∈ l.answered
  ledger : ∀ t ∈ l.answered, (Rsp.ofReport t.2).stat ≠ 2
    ∧ ((Rsp.ofReport t.2).cmd = finishCmd → (Rsp.ofReport t.2).stat = 0 →
      l.allAcked img)
  decide : l.s.rdr = some .decide →
    ∃ t ∈ l.answered, l.s.g.rspCmd = Rsp.ofReport t.2
  store : l.s.rdr = some (.store .complete) → l.allAcked img
  mail : l.s.snd.pc.awaiting = true → l.s.g.otaStage = .complete →
    l.allAcked img
  done : l.s.snd.pc.succeeding = true → l.allAcked img

/-- The sender's step: what it writes is on the log, and it takes
STAGE_COMPLETE from the mailbox alone. -/
theorem EndInv.send (hi : EndInv img l)
    (hopened : l.s.snd.pc ≠ .init ∧ l.s.snd.pc ≠ .load)
    (h : SStep cs l.s.g l.s.snd i g' snd' es) :
    EndInv img
      { l with
        s := { g := g', snd := snd', rdr := Session.spawn l.s.rdr i
               trace := l.s.trace ++ es }
        up := l.up ++ Link.written l.s i } := by
  have hlog : ∀ t ∈ sentOf l.s.trace, t ∈ sentOf (l.s.trace ++ es) := by
    intro t ht
    rw [sentOf_append]
    exact List.mem_append_left _ ht
  constructor
  case up =>
    intro t ht
    rw [show l.up ++ Link.written l.s i = l.up ++ sentOf es from
      congrArg _ (h.written hopened)] at ht
    rcases List.mem_append.mp ht with ht | ht
    · exact hlog t (hi.up t ht)
    · show t ∈ sentOf (l.s.trace ++ es)
      rw [sentOf_append]
      exact List.mem_append_right _ ht
  case written =>
    intro t ht
    obtain ⟨p, hp⟩ := hi.written t ht
    exact ⟨p, hlog _ hp⟩
  case down => exact hi.down
  case ledger => exact hi.ledger
  case decide =>
    -- a reader created just now has judged nothing
    intro hd
    show ∃ t ∈ l.answered, g'.rspCmd = _
    rw [h.rspCmd]
    exact hi.decide (Session.spawn_eq_some hd (by decide))
  case store =>
    exact fun hd => hi.store (Session.spawn_eq_some hd (by decide))
  case mail =>
    -- STAGE_RETRYING is the sender's own store, so STAGE_COMPLETE was there
    -- before
    intro ha hst
    rcases (h.awaiting ha).2 with ⟨-, hret⟩ | ⟨hwait, hsame⟩
    · cases hst.symm.trans hret
    · exact hi.mail hwait (hsame.symm.trans hst)
  case done =>
    -- the success is read off the mailbox
    intro hs
    rcases h.succeeding hs with hwas | ⟨hpc, hst⟩
    · exact hi.done hwas
    · refine hi.mail ?_ hst
      rw [hpc]
      rfl

/-- What hidRead does between its reads: the promise goes with the
response into its hand and on into the mailbox. -/
theorem EndInv.tick {pc pc' : RPc} (hi : EndInv img l)
    (hrdr : l.s.rdr = some pc) (h : RStep cs l.s.g pc .tick g' pc' es) :
    EndInv img
      { l with s := { l.s with
          g := g', rdr := some pc', trace := l.s.trace ++ es } } := by
  have hsent : sentOf (l.s.trace ++ es) = sentOf l.s.trace := by
    rw [sentOf_append, h.sentOf, List.append_nil]
  constructor
  case up =>
    show ∀ t ∈ l.up, t ∈ sentOf (l.s.trace ++ es)
    rw [hsent]
    exact hi.up
  case written =>
    show ∀ t ∈ l.answered, ∃ p, (t.1, p) ∈ sentOf (l.s.trace ++ es)
    rw [hsent]
    exact hi.written
  case down => exact hi.down
  case ledger => exact hi.ledger
  case decide =>
    intro hd
    cases h with
    | enter | leave | decide | ignore | store | failFlag | failLog
    | failStop => cases hd
  case store =>
    intro hd
    cases h with
    | decide hpc hx =>
        cases hd
        obtain ⟨t, ht, hrsp⟩ := hi.decide (hrdr.trans (congrArg some hpc))
        obtain ⟨hno, hfin⟩ := hi.ledger t ht
        rw [hrsp] at hx
        obtain ⟨hcmd, hzero⟩ := finish_of_respond hx hno
        exact hfin hcmd hzero
    | enter | leave | ignore | store | failFlag | failLog | failStop =>
        cases hd
  case mail =>
    intro ha hst
    rcases h.otaStage with ⟨x, hpc, -, hx, -⟩ | hsame
    · have hcomplete : x = .complete := hx.symm.trans hst
      rw [hpc, hcomplete] at hrdr
      exact hi.store hrdr
    · exact hi.mail ha (hsame.symm.trans hst)
  case done => exact hi.done

/-- A report read is one the device has given, so what was promised of
the answers given holds of it. -/
theorem EndInv.deliver {pc pc' : RPc} {k : Nat} {r : List UInt8}
    {rest : List (Nat × List UInt8)} (hi : EndInv img l)
    (hdown : l.down = (k, r) :: rest)
    (h : RStep cs l.s.g pc (.got (some r)) g' pc' es) :
    EndInv img
      { l with
        s := { l.s with g := g', rdr := some pc', trace := l.s.trace ++ es }
        down := rest
        held := k } := by
  have hsent : sentOf (l.s.trace ++ es) = sentOf l.s.trace := by
    rw [sentOf_append, h.sentOf, List.append_nil]
  have hall := hi.down
  rw [hdown] at hall
  have hrest := fun t ht => hall t (List.mem_cons_of_mem _ ht)
  have hstage : g'.otaStage = l.s.g.otaStage := by
    cases h with
    | report | stray => rfl
  constructor
  case up =>
    show ∀ t ∈ l.up, t ∈ sentOf (l.s.trace ++ es)
    rw [hsent]
    exact hi.up
  case written =>
    show ∀ t ∈ l.answered, ∃ p, (t.1, p) ∈ sentOf (l.s.trace ++ es)
    rw [hsent]
    exact hi.written
  case down => exact hrest
  case ledger => exact hi.ledger
  case decide =>
    intro _
    refine ⟨(k, r), hall _ (List.mem_cons_self ..), ?_⟩
    cases h with
    | report | stray => rfl
  case store =>
    intro hd
    cases h with
    | report | stray => cases hd
  case mail => exact fun ha hst => hi.mail ha (hstage.symm.trans hst)
  case done => exact hi.done

/-- The device's answer goes on the list, and an honest one settles what
a later success will mean. -/
theorem EndInv.answer {k : Nat} {p r : List UInt8}
    {rest : List (Nat × List UInt8)} (hi : EndInv img l)
    (hup : l.up = (k, p) :: rest) (hok : honest img l (.answer r)) :
    EndInv img
      { l with
        up := rest
        down := l.down ++ [(k, r)]
        answered := l.answered ++ [(k, r)] } := by
  have hsub : ∀ t ∈ l.answered, t ∈ l.answered ++ [(k, r)] :=
    fun t ht => List.mem_append_left _ ht
  have hall := hi.up
  rw [hup] at hall
  constructor
  case up => exact fun t ht => hall t (List.mem_cons_of_mem _ ht)
  case written =>
    intro t ht
    rcases List.mem_append.mp ht with ht | ht
    · exact hi.written t ht
    · rw [List.mem_singleton.mp ht]
      exact ⟨p, hall _ (List.mem_cons_self ..)⟩
  case down =>
    intro t ht
    rcases List.mem_append.mp ht with ht | ht
    · exact hsub t (hi.down t ht)
    · exact List.mem_append_right _ ht
  case ledger =>
    intro t ht
    rcases List.mem_append.mp ht with ht | ht
    · obtain ⟨hno, hfin⟩ := hi.ledger t ht
      exact ⟨hno, fun hcmd hzero => allAcked_mono hsub (hfin hcmd hzero)⟩
    · rw [List.mem_singleton.mp ht]
      refine ⟨hok.1, fun hcmd hzero => ?_⟩
      exact allAcked_of_honest hup hok hcmd hzero rfl
  case decide =>
    intro hd
    obtain ⟨t, ht, hrsp⟩ := hi.decide hd
    exact ⟨t, hsub t ht, hrsp⟩
  case store => exact fun hd => allAcked_mono hsub (hi.store hd)
  case mail => exact fun ha hst => allAcked_mono hsub (hi.mail ha hst)
  case done => exact fun hs => allAcked_mono hsub (hi.done hs)

/-- One step keeps the invariant, whoever takes it; what is lost is only
taken away. -/
theorem EndInv.step {a : LAct} (hi : EndInv img l)
    (hopened : l.s.snd.pc ≠ .init ∧ l.s.snd.pc ≠ .load)
    (hok : honest img l a) (hs : Link.step cs l a = some l') :
    EndInv img l' := by
  cases step_inv hs with
  | send h => exact hi.send hopened h
  | tick hrdr h => exact hi.tick hrdr h
  | deliver hdown hrdr h => exact hi.deliver hdown h
  | readFail hrdr h =>
      cases h with
      | readFail hpc =>
          have hsent : sentOf (l.s.trace ++ [.log .readError])
              = sentOf l.s.trace := by simp [sentOf, Event.sent?]
          refine ⟨?_, ?_, hi.down, hi.ledger, ?_, ?_, hi.mail, hi.done⟩
          · show ∀ t ∈ l.up, t ∈ sentOf (l.s.trace ++ [.log .readError])
            rw [hsent]
            exact hi.up
          · show ∀ t ∈ l.answered,
              ∃ p, (t.1, p) ∈ sentOf (l.s.trace ++ [.log .readError])
            rw [hsent]
            exact hi.written
          · intro hd
            cases hd
          · intro hst
            cases hst
  | answer hup hans => exact hi.answer hup hok
  | lose hup =>
      have hall := hi.up
      rw [hup] at hall
      exact ⟨fun t ht => hall t (List.mem_cons_of_mem _ ht), hi.written,
        hi.down, hi.ledger, hi.decide, hi.store, hi.mail, hi.done⟩
  | drop hn =>
      exact ⟨hi.up, hi.written,
        fun t ht => hi.down t (List.mem_of_mem_eraseIdx ht), hi.ledger,
        hi.decide, hi.store, hi.mail, hi.done⟩

theorem EndInv.of_reach {g₀ : Shared} {param2 : Option String}
    {stack : Nat → UInt8}
    (h : Lts.Reach (Link.step cs) (honest img)
      (start g₀ param2 stack img.bytes) l) :
    EndInv img l ∧ SentInv img l.s := by
  have hsession : ∀ l, Lts.Reach (Link.step cs) (honest img)
      (start g₀ param2 stack img.bytes) l → SentInv img l.s :=
    fun l hr => sentInv_of_reach (reach_session hr)
  refine ⟨h.invariant₂ (I := EndInv img) hsession ?_ ?_, hsession l h⟩
  · exact ⟨nofun, nofun, nofun, nofun, nofun, nofun, nofun, nofun⟩
  · intro l a l' hj hi hok hs
    exact hi.step hj.cursor.loaded.opened hok hs

/-- A packet of the image that has been answered has been written, since
the device answers what it has got. -/
theorem EndInv.sent (hi : EndInv img l) (hsent : SentInv img l.s)
    {t : Nat × List UInt8} (ht : t ∈ img.packets) (hack : l.acked t.1) :
    t ∈ sentOf l.s.trace := by
  obtain ⟨u, hu, hnum, -⟩ := hack
  -- the packet written under this number is the image's
  obtain ⟨p, hp⟩ := hi.written u hu
  rw [hnum] at hp
  obtain ⟨j, r, hk, hr, -⟩ := Image.mem_packets ht
  have hle : t.1 ≤ img.recs.length := by
    rw [hk]
    exact (List.getElem?_eq_some_iff.mp hr).1
  have hmem := hsent.sent _ hp hle
  rw [show t = (t.1, p) from Prod.ext rfl (Image.packet_unique ht hmem)]
  exact hp

/-- In every run against an honest device, whatever the channel loses or
holds back, a session that succeeds has transmitted every record of the
image, and the device has answered every one of them SUCCESS. -/
theorem success_acked {g₀ : Shared} {param2 : Option String}
    {stack : Nat → UInt8}
    (h : Lts.Reach (step cs) (honest img)
      (start g₀ param2 stack img.bytes) l)
    (hsucc : l.s.snd.pc.succeeding = true) :
    ∀ t ∈ img.packets, t ∈ sentOf l.s.trace ∧ l.acked t.1 := by
  obtain ⟨hinv, hsent⟩ := EndInv.of_reach h
  intro t ht
  have hack := hinv.done hsucc t ht
  exact ⟨hinv.sent hsent ht hack, hack⟩

-- ============================================================== one session

/-- The device refuses the DATA record once, and both records are
answered. -/
def refusedRun : List LAct :=
  sendFirst ++ .answer [0xA1, 0x02, 0, 0x02, 1, 0, 1] :: readAnswer
    ++ [.send .tick, .send .tick, .send .tick, .send .tick, .send (.wrote 8)]
    ++ .answer dataAnswer :: readAnswer ++ sendNext
    ++ .answer finishAnswer :: readAnswer
    ++ [.send .tick, .send .tick, .send .tick, .send .tick]

/-- Where that leaves the session. -/
def refusedEnd : Link :=
  (Lts.run (step .unsigned) (honest dataImage) dataImage.link
    refusedRun).getD dataImage.link

/-- It succeeds, with every record of the image on the device. -/
theorem success_acked_refused :
    refusedEnd.s.snd.pc.succeeding = true
      ∧ ∀ t ∈ dataImage.packets,
        t ∈ sentOf refusedEnd.s.trace ∧ refusedEnd.acked t.1 :=
  ⟨by decide, success_acked (Lts.Reach.of_isSome (by decide)) (by decide)⟩

end Link

end BtOta
