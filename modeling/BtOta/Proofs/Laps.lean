/-
The chain of records, and a session that goes along it.

# The chain

ota_update finds each record by adding the length field of the one
before to the place where that one begins: `cursor fw n` is the place of
record `n` in the buffer `fw`. Whatever the device answers, the record a
session builds next is the one its packet count says, and each one
built before could be built (`ChainInv`).

# A lap

A device that answers every packet at once with a START response and
SUCCESS leads the session from record to record, whatever the records
are, for as long as each can be built. `AtRecord` is the session about
to build record `n`, and `AtRecord.lap` the eleven steps to the next
one.
-/
import BtOta.Proofs.Sequence
import BtOta.Proofs.Shape

namespace BtOta

variable {cs : CharSign} {g g' : Shared} {l l' : Sender} {es : List Event}
  {i : SIn} {j : RIn} {pc pc' : RPc} {s s' : Session} {fw : Nat → UInt8}

-- ================================================================ the chain

/-- The length field of a record that begins at `idx`. -/
def lenAt (fw : Nat → UInt8) (idx : Nat) : Nat :=
  le16 (fw (idx + 1)) (fw (idx + 2))

/-- Where record `n` begins: at the sum of the length fields of the
records before it, whatever those say. -/
def cursor (fw : Nat → UInt8) : Nat → Nat
  | 0 => 0
  | n + 1 => cursor fw n + lenAt fw (cursor fw n)

/-- Record `n` lies inside the buffer, and inside `cmd_buf` with its
checksum. -/
def FitsAt (fw : Nat → UInt8) (n : Nat) : Prop :=
  cursor fw n + 2 < fwBufSize
    ∧ cursor fw n + lenAt fw (cursor fw n) ≤ fwBufSize
    ∧ lenAt fw (cursor fw n) + 1 + 1 < cmdBufSize

instance (fw : Nat → UInt8) (n : Nat) : Decidable (FitsAt fw n) :=
  inferInstanceAs (Decidable (_ ∧ _))

/-- Record `n` is a DATA record. -/
def IsData (fw : Nat → UInt8) (n : Nat) : Prop :=
  (recordAt fw (cursor fw n) (lenAt fw (cursor fw n))).getD 5 0 = dataCmd

/-- Record `n` can be built: it fits, and where it is a DATA record the
file is not empty. -/
structure Builds (fw : Nat → UInt8) (len n : Nat) : Prop where
  fits : FitsAt fw n
  divides : IsData fw n → len ≠ 0

/-- The session goes along the chain of `fw`: its cursor and its length
are those of the record that its packet count names. -/
structure ChainInv (cs : CharSign) (fw : Nat → UInt8) (len : Nat)
    (s : Session) : Prop where
  opened : s.snd.pc ≠ .init ∧ s.snd.pc ≠ .load
  buf : s.snd.fwDataBuf = fw
  fwLen : s.snd.fwDataLen = len
  seq : SeqInv cs s.g s.snd
  next : s.snd.nextIdx = cursor fw s.g.totalCmdNum
  built : ∀ m, m < s.g.totalCmdNum → Builds fw len m

/-- A record is assembled exactly if it can be built, so the chain alone
decides whether a session goes wrong. -/
theorem builds_iff {len n : Nat} (hbuf : s.snd.fwDataBuf = fw)
    (hlen : s.snd.fwDataLen = len) (hclear : s.snd.cmdBuf = fun _ => 0)
    (hnext : s.snd.nextIdx = cursor fw n) :
    (assemble cs s.g s.snd).isSome = true ↔ Builds fw len n := by
  have hnextLen : s.snd.nextLen = lenAt fw (cursor fw n) := by
    rw [← hnext, ← hbuf]
    rfl
  rw [assemble_isSome_iff, Sender.filled, hclear, fill_getD, hbuf, hlen,
    hnextLen, hnext]
  constructor
  · intro h
    exact ⟨of_decide_eq_true h.1, h.2⟩
  · intro h
    exact ⟨decide_eq_true h.fits, h.divides⟩

/-- Only an assembly counts a packet, so a count that changes tells that
one was built. -/
theorem SStep.assembles (h : SStep cs g l i g' l' es) (hpc : l.pc ≠ .init)
    (htotal : g'.totalCmdNum ≠ g.totalCmdNum) :
    (BtOta.assemble cs g l).isSome = true := by
  cases h with
  | init pc => exact absurd pc hpc
  | assemble pc hasm =>
      rw [hasm]
      rfl
  | _ => exact absurd rfl htotal

theorem ChainInv.step {a : Act} {len : Nat} (hi : ChainInv cs fw len s)
    (hs : Session.step cs s a = some s') : ChainInv cs fw len s' := by
  cases Session.step_inv hs with
  | send h =>
      have hopened : _ ∧ _ :=
        ⟨fun hpc => hi.opened.1 (h.opening (Or.inl hpc)),
          fun hpc => hi.opened.1 (h.opening (Or.inr hpc))⟩
      rcases h.carries hi.opened.2 with
        ⟨hpc, htick, l₁, hasm, rfl⟩ | ⟨htotal, hnext, hbuf, hlen, -⟩ | hpc
      · refine ⟨hopened, hasm.fwBuf.trans hi.buf, hasm.fwLen.trans hi.fwLen,
          hi.seq.send h, ?_, ?_⟩
        · dsimp only
          rw [hasm.total, cursor, ← hi.next, ← hi.buf]
          exact congrArg₂ (· + ·) hasm.idx hasm.len
        · intro m hm
          dsimp only at hm
          rw [hasm.total] at hm
          rcases Nat.lt_succ_iff_lt_or_eq.mp hm with hlt | rfl
          · exact hi.built m hlt
          · have hclear := (hi.seq.cleared (by rw [hpc]; rfl)).2
            have hsome := h.assembles hi.opened.1 (by rw [hasm.total]; simp)
            exact (builds_iff hi.buf hi.fwLen hclear hi.next).mp hsome
      · refine ⟨hopened, hbuf.trans hi.buf, hlen.trans hi.fwLen,
          hi.seq.send h, ?_, ?_⟩
        · dsimp only
          rw [hnext, htotal]
          exact hi.next
        · dsimp only
          rw [htotal]
          exact hi.built
      · exact absurd hpc hi.opened.1
  | read hrdr h =>
      refine ⟨hi.opened, hi.buf, hi.fwLen, hi.seq.read h, ?_, ?_⟩
      · dsimp only
        rw [h.frame.1]
        exact hi.next
      · dsimp only
        rw [h.frame.1]
        exact hi.built

/-- The length field of the record due, read where the chain says that
the record begins. -/
theorem ChainInv.nextLen {len : Nat} (hi : ChainInv cs fw len s) :
    s.snd.nextLen = lenAt fw (cursor fw s.g.totalCmdNum) := by
  rw [← hi.next, ← hi.buf]
  rfl

/-- The record due. -/
theorem ChainInv.recordAt {len : Nat} (hi : ChainInv cs fw len s) :
    BtOta.recordAt s.snd.fwDataBuf s.snd.nextIdx s.snd.nextLen
      = BtOta.recordAt fw (cursor fw s.g.totalCmdNum)
        (lenAt fw (cursor fw s.g.totalCmdNum)) := by
  rw [hi.nextLen, hi.buf, hi.next]

/-- Where it is built, the tests are on its own command, since `cmd_buf`
has been cleared. -/
theorem ChainInv.filled_five {len : Nat} (hi : ChainInv cs fw len s)
    (hpc : s.snd.pc = .assemble) :
    (s.snd.filled cs).cmdBuf 5 = dataCmd ↔ IsData fw s.g.totalCmdNum := by
  have hclear := (hi.seq.cleared (by rw [hpc]; rfl)).2
  rw [Sender.filled, hclear, fill_getD, hi.recordAt]
  rfl

/-- The buffer of a session whose file is loaded: the file, and behind it
the stack. -/
def loadedBuf (stack : Nat → UInt8) (file : List UInt8) (k : Nat) : UInt8 :=
  file.getD k (stack k)

theorem ChainInv.of_reach {ok : Session → Act → Prop} {g₀ : Shared}
    {param2 : Option String} {stack : Nat → UInt8} {file : List UInt8}
    (h : Lts.Reach (Session.step cs) ok
      (Session.start g₀ param2 stack file) s) :
    ChainInv cs (loadedBuf stack file) file.length s :=
  h.invariant ⟨⟨nofun, nofun⟩, rfl, rfl,
    seqInv_start cs g₀ param2 stack file, rfl, nofun⟩
    fun _ _ _ hi _ hs => hi.step hs

-- ==================================================================== a lap

/-- A START response with SUCCESS. -/
def startOk : List UInt8 := [0xA1, 0x02, 0, 0x01, 0, 0, 0]

/-- A step of the sender but for pthread_create, as a run of one step. -/
theorem reach_send (hne : i ≠ .created 0)
    (h : otaUpdate cs s.g s.snd i = some (g', l', es)) :
    Lts.Reach (Session.step cs) Lts.free s
      { s with g := g', snd := l', trace := s.trace ++ es } := by
  refine (Lts.Reach.refl s).tail (a := .send i) trivial ?_
  simp [Session.step, h, Session.spawn_of_ne hne]

/-- A step of the reader. -/
theorem reach_read (hrdr : s.rdr = some pc)
    (h : hidRead cs s.g pc j = some (g', pc', es)) :
    Lts.Reach (Session.step cs) Lts.free s
      { s with g := g', rdr := some pc', trace := s.trace ++ es } := by
  refine (Lts.Reach.refl s).tail (a := .read j) trivial ?_
  simp [Session.step, hrdr, h]

/-- The session is about to build record `n`, with `n` packets sent. -/
structure AtRecord (fw : Nat → UInt8) (len n : Nat) (s : Session) :
    Prop where
  pc : s.snd.pc = .assemble
  rdr : s.rdr = some .test
  flag : s.g.flagRead = true
  buf : s.snd.fwDataBuf = fw
  fwLen : s.snd.fwDataLen = len
  clear : s.snd.cmdBuf = fun _ => 0
  sendCount : s.snd.sendCount = 0
  next : s.snd.nextIdx = cursor fw n
  total : s.g.totalCmdNum = n
  sent : (sentOf s.trace).length = n

/-- A packet has been written and the sender waits, with its reader about
to read. -/
structure Waiting (fw : Nat → UInt8) (len n : Nat) (s : Session) :
    Prop where
  pc : s.snd.pc = .wait
  waitCount : s.snd.waitCount = 0
  rdr : s.rdr = some .test
  flag : s.g.flagRead = true
  buf : s.snd.fwDataBuf = fw
  fwLen : s.snd.fwDataLen = len
  next : s.snd.nextIdx = cursor fw n
  total : s.g.totalCmdNum = n
  sent : (sentOf s.trace).length = n

/-- The packet is built and written: three steps of the sender, none of
which depends on the reader. -/
theorem AtRecord.writes {len n : Nat} (h : AtRecord fw len n s)
    (hbuilds : Builds fw len n) :
    ∃ s', Lts.Reach (Session.step cs) Lts.free s s'
      ∧ Waiting fw len (n + 1) s' := by
  have hpacked : (assemble cs s.g s.snd).isSome = true :=
    (builds_iff h.buf h.fwLen h.clear h.next).mpr hbuilds
  obtain ⟨⟨g₁, l₁, es₁⟩, hsome⟩ := Option.isSome_iff_exists.mp hpacked
  have ha := assembled_of_some hsome
  have hcount : l₁.sendCount = 0 := ha.sendCount.trans h.sendCount
  have hbuilt : otaUpdate cs s.g s.snd .tick
      = some (g₁, { l₁ with pc := .retry }, es₁) := by
    simp only [otaUpdate, h.pc, hsome]
  have hretry : otaUpdate cs g₁ { l₁ with pc := .retry } .tick
      = some ({ g₁ with otaStage := .retrying },
        { l₁ with pc := .write, sendCount := 1, waitCount := 0 }, []) := by
    simp [otaUpdate, hcount]
  have hwrote : otaUpdate cs { g₁ with otaStage := .retrying }
      { l₁ with pc := .write, sendCount := 1, waitCount := 0 } (.wrote 0)
      = some ({ g₁ with otaStage := .retrying },
        { l₁ with pc := .wait, sendCount := 1, waitCount := 0 },
        (hidWrite { g₁ with otaStage := .retrying } l₁.packet 0).2) := by
    unfold otaUpdate
    rw [hidWrite_of_nonneg _ (Int.le_refl 0)]
    rfl
  have hrun := ((reach_send (by simp) hbuilt).trans
    (reach_send (by simp) hretry)).trans (reach_send (by simp) hwrote)
  refine ⟨_, hrun, rfl, rfl, h.rdr, ha.flagRead.trans h.flag,
    ha.fwBuf.trans h.buf, ha.fwLen.trans h.fwLen, ?_, ?_, ?_⟩
  · rw [cursor, ← h.next, ← h.buf]
    exact congrArg₂ (· + ·) ha.idx ha.len
  · exact ha.total.trans (congrArg (· + 1) h.total)
  · have hsent := h.sent
    rw [hidWrite_of_nonneg _ (Int.le_refl 0)]
    simp only [sentOf_append, sentOf_quiet ha.quiet, sentOf_verbose,
      List.append_nil, List.nil_append]
    rw [List.length_append, hsent]
    rfl

/-- The device's answer is recorded: a START response does, since hidRead
compares nothing there. -/
theorem Waiting.answered {len n : Nat} (h : Waiting fw len n s) :
    ∃ s', Lts.Reach (Session.step cs) Lts.free s s'
      ∧ Waiting fw len n s' ∧ s'.g.otaStage = .nextCmd := by
  have htest : hidRead cs s.g .test .tick = some (s.g, .read, []) := by
    simp [hidRead, h.flag]
  have hgot : hidRead cs s.g .read (.got (some startOk))
      = some ({ s.g with rspCmd := Rsp.ofReport startOk }, .decide,
        .report startOk
          :: s.g.verbose (.dump (Rsp.ofReport startOk).bytes)) := by
    simp [hidRead, Rsp.ofReport, startOk]
  have hdecide : hidRead cs { s.g with rspCmd := Rsp.ofReport startOk }
      .decide .tick
      = some ({ s.g with
          rspCmd := Rsp.ofReport startOk
          otaStatus := cs.promote (Rsp.ofReport startOk).stat },
        .store .nextCmd, []) := by
    cases cs <;> rfl
  have hrun := ((reach_read h.rdr htest).trans (reach_read rfl hgot)).trans
    (reach_read rfl hdecide)
  refine ⟨_, hrun.trans (reach_read (j := .tick) rfl rfl), ⟨h.pc,
    h.waitCount, rfl, h.flag, h.buf, h.fwLen, h.next, h.total, ?_⟩, rfl⟩
  rw [sentOf_append]
  show (sentOf _ ++ []).length = n
  simp only [sentOf_append, (hidRead_inv hgot).sentOf, List.append_nil]
  exact h.sent

/-- The sender goes on to the next record. -/
theorem Waiting.leaves {len n : Nat} (h : Waiting fw len n s)
    (hst : s.g.otaStage = .nextCmd) :
    ∃ s', Lts.Reach (Session.step cs) Lts.free s s'
      ∧ AtRecord fw len n s' := by
  have hpoll : otaUpdate cs s.g s.snd .tick
      = some (s.g, { s.snd with pc := .pollNext, waitCount := 1 }, []) := by
    simp [otaUpdate, h.pc, h.waitCount, otaWaitTime]
  have hhit : otaUpdate cs s.g
      { s.snd with pc := .pollNext, waitCount := 1 } .tick
      = some (s.g, { s.snd with pc := .next, waitCount := 1 },
        [.goto .nextCmd s.g.totalCmdNum]) := by
    simp [otaUpdate, hst]
  have hnext : otaUpdate cs s.g { s.snd with pc := .next, waitCount := 1 }
      .tick
      = some ({ s.g with currentDataSeq := 0 },
        { s.snd with
          pc := .newStage, waitCount := 1, sendCount := 0
          cmdBuf := fun _ => 0 }, []) := rfl
  have htick : SIn.tick ≠ .created 0 := by simp
  have hrun := ((reach_send htick hpoll).trans (reach_send htick hhit)).trans
    (reach_send htick hnext)
  refine ⟨_, hrun.trans (reach_send htick rfl), rfl, h.rdr, h.flag, h.buf, h.fwLen, rfl, rfl, h.next,
    h.total, ?_⟩
  have hgoto : sentOf [.goto .nextCmd s.g.totalCmdNum] = [] := rfl
  simp only [sentOf_append, hgoto, List.append_nil]
  exact h.sent

/-- From one record to the next, which can be repeated as long as the
records can be built. -/
theorem AtRecord.lap {len n : Nat} (h : AtRecord fw len n s)
    (hbuilds : Builds fw len n) :
    ∃ s', Lts.Reach (Session.step cs) Lts.free s s'
      ∧ AtRecord fw len (n + 1) s' := by
  obtain ⟨s₁, hwrites, hwait⟩ := h.writes hbuilds
  obtain ⟨s₂, hanswered, hwait₂, hst⟩ := hwait.answered
  obtain ⟨s₃, hleaves, hnext⟩ := hwait₂.leaves hst
  exact ⟨s₃, (hwrites.trans hanswered).trans hleaves, hnext⟩

/-- pthread_create succeeds, and the first record is due. -/
theorem reach_first (cs : CharSign) (g₀ : Shared) (param2 : Option String)
    (stack : Nat → UInt8) (file : List UInt8) :
    ∃ s', Lts.Reach (Session.step cs) Lts.free
        (Session.start g₀ param2 stack file) s'
      ∧ AtRecord (loadedBuf stack file) file.length 0 s' := by
  have hcreated : Lts.Reach (Session.step cs) Lts.free
      (Session.start g₀ param2 stack file)
      { Session.start g₀ param2 stack file with
        snd := { (Session.start g₀ param2 stack file).snd with pc := .next }
        rdr := some .test } := by
    refine (Lts.Reach.refl _).tail (a := .send (.created 0)) trivial ?_
    simp [Session.step, otaUpdate, Session.start, Session.spawn]
  have hnext := hcreated.trans (reach_send (i := .tick) (by simp) rfl)
  have hnew := hnext.trans (reach_send (i := .tick) (by simp) rfl)
  refine ⟨_, hnew, rfl, rfl, rfl, rfl, rfl, rfl, rfl, rfl, rfl, ?_⟩
  have hquiet := sentOf_quiet
    (Session.start_quiet g₀ param2 stack file)
  simpa [sentOf] using congrArg List.length hquiet

/-- The session comes to every record the chain comes to, by induction on
the records. So what the chain does, some run does. -/
theorem reach_record (cs : CharSign) (g₀ : Shared) (param2 : Option String)
    (stack : Nat → UInt8) (file : List UInt8) (n : Nat)
    (hbuilds : ∀ m, m < n → Builds (loadedBuf stack file) file.length m) :
    ∃ s', Lts.Reach (Session.step cs) Lts.free
        (Session.start g₀ param2 stack file) s'
      ∧ AtRecord (loadedBuf stack file) file.length n s' := by
  induction n with
  | zero => exact reach_first cs g₀ param2 stack file
  | succ n ih =>
      obtain ⟨s, hr, hat⟩ := ih fun m hm => hbuilds m (by omega)
      obtain ⟨s', hlap, hnext⟩ := hat.lap (hbuilds n (by omega))
      exact ⟨s', hr.trans hlap, hnext⟩

end BtOta
