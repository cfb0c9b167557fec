/-
What the signedness of `char` does to sequence numbers.

Both sides of `rsp_seq == current_data_seq` are built by shifts and ors
from two `char`s. Where `char` is signed, a low byte of 0x80 or more is
promoted to an `int` whose upper bits are all set, and the high byte is
lost in them: numbers with that low byte compare equal whatever their
high bytes are (`seq_eq_iff`). A late response to record 0x0180 then
acknowledges record 0x0080 (`hidden_byte`).

That is all the signedness does. The checksum differs as well, but it
is not in the packets handed to hidWrite. So a session in which no
response is swallowed in this way goes under one signedness step for
step as it does under the other: `Alike` relates the two, and
`seq_exact_iff` has the whole runs. The text of the verbose dumps is not
among what is related: there a negative byte is six characters longer
(`dumps_never_fit`), and verbose sessions are taken past that.
-/
import BtOta.Proofs.Laps

namespace BtOta

variable {cs : CharSign} {g g' : Shared} {l l' : Sender}
  {es : List Event} {i : SIn} {s s' : Session}

-- ============================================================== vocabulary

/-- The two bytes of a packet's sequence number; a packet that is no
DATA packet counts as number 0. -/
def seqBytes (packet : List UInt8) : UInt8 × UInt8 :=
  if packet.getD 5 0 = dataCmd then (packet.getD 6 0, packet.getD 7 0)
  else (0, 0)

/-- The response has the number's low byte, another high byte, and a low
byte whose promotion hides the high one. -/
def Swallows (cs : CharSign) (own : UInt8 × UInt8) (rsp : Rsp) : Prop :=
  cs.negative own.1 ∧ rsp.seq0 = own.1 ∧ rsp.seq1 ≠ own.2

instance (cs : CharSign) (own : UInt8 × UInt8) (rsp : Rsp) :
    Decidable (Swallows cs own rsp) :=
  inferInstanceAs (Decidable (_ ∧ _))

/-- The response's two bytes and the packet's are the same number of 16
bits, little endian. -/
def SameNumber (packet : List UInt8) (rsp : Rsp) : Prop :=
  le16 rsp.seq0 rsp.seq1 = le16 (packet.getD 6 0) (packet.getD 7 0)

instance (packet : List UInt8) (rsp : Rsp) :
    Decidable (SameNumber packet rsp) :=
  inferInstanceAs (Decidable (_ = _))

/-- No packet has been built yet, so `current_data_seq` is still what an
earlier session left. -/
def Session.fresh (s : Session) : Prop :=
  s.g.totalCmdNum = 0 ∧ (s.snd.pc = .create ∨ s.snd.pc = .next)

instance (s : Session) : Decidable s.fresh :=
  inferInstanceAs (Decidable (_ ∧ _))

/-- The two bytes `current_data_seq` was made of: those of the packet
built last, or at first the ones an earlier session left. -/
def Session.ownSeq (left : UInt8 × UInt8) (s : Session) : UInt8 × UInt8 :=
  if s.fresh then left else seqBytes s.snd.packet

/-- The step compares no DATA response that the number compared with
would swallow where `char` is signed. It is asked of the comparing step
alone, and of the response as hidRead holds it there. -/
def exactTests (left : UInt8 × UInt8) (s : Session) : Act → Prop
  | .read .tick => s.rdr = some .decide → s.g.rspCmd.cmd = dataCmd →
      ¬ Swallows .signed (s.ownSeq left) s.g.rspCmd
  | _ => True

instance (left : UInt8 × UInt8) (s : Session) :
    ∀ a, Decidable (exactTests left s a)
  | .read .tick => inferInstanceAs (Decidable (_ → _ → _))
  | .read (.got _) | .send _ => inferInstanceAs (Decidable True)

/-- The static variables, with `current_data_seq` made of these bytes. -/
def Shared.leftSeq (g : Shared) (cs : CharSign) (left : UInt8 × UInt8) :
    Shared :=
  { g with currentDataSeq := cs.seq left.1 left.2 }

-- ================================================================ two bytes

/-- The bits of a promoted byte: its own, and above them its sign. -/
theorem CharSign.getLsbD_promote (cs : CharSign) (b : UInt8) (i : Nat) :
    (cs.promote b).getLsbD i
      = if i < 8 then b.toBitVec.getLsbD i
        else decide (i < 32 ∧ cs.negative b) := by
  cases cs with
  | signed =>
      unfold promote
      rw [BitVec.getLsbD_signExtend, BitVec.msb_eq_decide]
      by_cases hi : i < 8
      · simp [hi, show i < 32 by omega]
      · simp [hi, negative_signed]
  | unsigned =>
      unfold promote
      rw [BitVec.getLsbD_setWidth]
      by_cases hi : i < 8
      · simp [hi, show i < 32 by omega]
      · have hout : b.toBitVec.getLsbD i = false :=
          BitVec.getLsbD_of_ge _ _ (by omega)
        simp [hi, hout, not_negative_unsigned]

theorem CharSign.getLsbD_seq (cs : CharSign) (lo hi : UInt8) (i : Nat) :
    (cs.seq lo hi).getLsbD i
      = if i < 8 then lo.toBitVec.getLsbD i
        else decide (i < 32) && (decide (cs.negative lo)
          || (cs.promote hi).getLsbD (i - 8)) := by
  unfold seq
  rw [BitVec.getLsbD_or, BitVec.getLsbD_shiftLeft, cs.getLsbD_promote lo]
  by_cases hlow : i < 8
  · simp [hlow]
  · by_cases h32 : i < 32
    · simp [hlow, h32]
    · simp [hlow, h32]

/-- Two numbers compare equal exactly if their low bytes are equal, and
their high bytes are or are hidden. -/
theorem CharSign.seq_eq_iff (cs : CharSign) {lo hi lo' hi' : UInt8} :
    cs.seq lo hi = cs.seq lo' hi'
      ↔ lo = lo' ∧ (hi = hi' ∨ cs.negative lo) := by
  constructor
  · intro h
    have hbit : ∀ i, (cs.seq lo hi).getLsbD i = (cs.seq lo' hi').getLsbD i :=
      fun i => by rw [h]
    have hlo : lo = lo' := by
      apply UInt8.toBitVec_inj.mp
      apply BitVec.eq_of_getLsbD_eq
      intro i hi
      have hb := hbit i
      rwa [getLsbD_seq, getLsbD_seq, if_pos hi, if_pos hi] at hb
    subst hlo
    refine ⟨rfl, ?_⟩
    by_cases hneg : cs.negative lo
    · exact Or.inr hneg
    · refine Or.inl (UInt8.toBitVec_inj.mp (BitVec.eq_of_getLsbD_eq ?_))
      intro i hi
      have hb := hbit (i + 8)
      rw [getLsbD_seq, getLsbD_seq, if_neg (by omega), if_neg (by omega),
        Nat.add_sub_cancel, getLsbD_promote, getLsbD_promote, if_pos hi,
        if_pos hi, decide_eq_true (show i + 8 < 32 by omega),
        decide_eq_false hneg] at hb
      simpa using hb
  · intro h
    obtain ⟨rfl, rfl | hneg⟩ := h
    · rfl
    · apply BitVec.eq_of_getLsbD_eq
      intro i hi
      rw [getLsbD_seq, getLsbD_seq]
      simp [hneg]

/-- As unsigned numbers of 16 bits they are equal byte by byte. -/
theorem le16_inj {lo hi lo' hi' : UInt8} :
    le16 lo hi = le16 lo' hi' ↔ lo = lo' ∧ hi = hi' := by
  have hval : ∀ lo hi : UInt8, le16 lo hi = hi.toNat * 256 + lo.toNat := by
    intro lo hi
    rw [le16, Nat.or_comm, ← Nat.shiftLeft_add_eq_or_of_lt lo.toNat_lt,
      Nat.shiftLeft_eq]
  have hlt := lo.toNat_lt
  have hlt' := lo'.toNat_lt
  rw [hval, hval, ← UInt8.toNat_inj, ← UInt8.toNat_inj]
  omega

/-- The comparison is exact but where it swallows the response. -/
theorem exact_iff (cs : CharSign) (own : UInt8 × UInt8) (rsp : Rsp) :
    (cs.seq rsp.seq0 rsp.seq1 = cs.seq own.1 own.2
        ↔ le16 rsp.seq0 rsp.seq1 = le16 own.1 own.2)
      ↔ ¬ Swallows cs own rsp := by
  rw [cs.seq_eq_iff, le16_inj, Swallows]
  constructor
  · intro h hsw
    obtain ⟨hneg, hlo, hhi⟩ := hsw
    exact hhi (h.mp ⟨hlo, Or.inr (hlo ▸ hneg)⟩).2
  · intro h
    constructor
    · intro heq
      obtain ⟨hlo, hhi | hneg⟩ := heq
      · exact ⟨hlo, hhi⟩
      · exact ⟨hlo, Decidable.byContradiction fun hhi =>
          h ⟨hlo ▸ hneg, hlo, hhi⟩⟩
    · intro heq
      exact ⟨heq.1, Or.inl heq.2⟩

/-- Nothing is swallowed under one signedness that is not where `char`
is signed. -/
theorem Swallows.signed {own : UInt8 × UInt8} {rsp : Rsp}
    (h : Swallows cs own rsp) : Swallows .signed own rsp :=
  ⟨⟨rfl, h.1.2⟩, h.2⟩

theorem packetSeq_eq (cs : CharSign) (packet : List UInt8) :
    packetSeq cs packet
      = cs.seq (seqBytes packet).1 (seqBytes packet).2 := by
  unfold packetSeq seqBytes
  split
  case isTrue => rfl
  case isFalse => cases cs <;> rfl

/-- A cleared `cmd_buf` has number 0. -/
theorem packetSeq_cleared (cs : CharSign) (h : l.cmdBuf = fun _ => 0) :
    packetSeq cs l.packet = 0 := by
  have hzero : l.packet.getD 5 0 = 0 := by
    rw [Sender.packet, h, List.map_const', List.length_range]
    rw [List.getD_eq_getElem?_getD]
    exact List.getElem?_getD_replicate_default_eq _ _ _
  unfold packetSeq
  rw [hzero]
  exact if_neg (by decide)

-- ==================================================== where the number is from

/-- What `current_data_seq` is made of, in every state behind the load:
the two bytes of `ownSeq`, put together under the signedness at hand. -/
structure OwnInv (cs : CharSign) (left : UInt8 × UInt8) (s : Session) :
    Prop where
  opened : s.snd.pc ≠ .init ∧ s.snd.pc ≠ .load
  create : s.snd.pc = .create → s.g.totalCmdNum = 0
  begun : s.snd.pc.holding = true → 0 < s.g.totalCmdNum
  seq : SeqInv cs s.g s.snd
  own : s.g.currentDataSeq = cs.seq (s.ownSeq left).1 (s.ownSeq left).2

variable {left : UInt8 × UInt8}

theorem Session.not_fresh (h : s.snd.pc ≠ .create ∧ s.snd.pc ≠ .next) :
    ¬ s.fresh := by
  intro hf
  rcases hf.2 with hpc | hpc
  · exact h.1 hpc
  · exact h.2 hpc

/-- A state that is not fresh compares with the packet built last. -/
theorem Session.ownSeq_of_not_fresh (h : ¬ s.fresh) :
    cs.seq (s.ownSeq left).1 (s.ownSeq left).2
      = packetSeq cs s.snd.packet := by
  rw [ownSeq, if_neg h, packetSeq_eq]

theorem Session.ownSeq_congr
    (htotal : s'.g.totalCmdNum = s.g.totalCmdNum)
    (hpc : s'.snd.pc = s.snd.pc) (hpacket : s'.snd.packet = s.snd.packet) :
    s'.ownSeq left = s.ownSeq left := by
  have hfresh : s'.fresh ↔ s.fresh := by
    unfold fresh
    rw [htotal, hpc]
  simp only [ownSeq, hfresh, hpacket]

/-- A move that leaves packet and number alone leaves the number made of
the bytes it was made of. -/
theorem OwnInv.kept (hi : OwnInv cs left s)
    (hpc : s.snd.pc ≠ .create ∧ s.snd.pc ≠ .next) (hnot : ¬ s'.fresh)
    (hseq : s'.g.currentDataSeq = s.g.currentDataSeq)
    (hpacket : s'.snd.packet = s.snd.packet) :
    s'.g.currentDataSeq
      = cs.seq (s'.ownSeq left).1 (s'.ownSeq left).2 := by
  rw [hseq, hi.own, Session.ownSeq_of_not_fresh hnot,
    Session.ownSeq_of_not_fresh (Session.not_fresh hpc), hpacket]

theorem OwnInv.send (hi : OwnInv cs left s)
    (h : SStep cs s.g s.snd i g' l' es) (rdr : Option RPc)
    (trace : List Event) :
    OwnInv cs left { g := g', snd := l', rdr := rdr, trace := trace } := by
  have hopened : l'.pc ≠ .init ∧ l'.pc ≠ .load :=
    ⟨fun hpc => hi.opened.1 (h.opening (Or.inl hpc)),
      fun hpc => hi.opened.1 (h.opening (Or.inr hpc))⟩
  have hseq := hi.seq.send h
  cases h with
  | init pc => exact absurd pc hi.opened.1
  | openFail pc | opened pc | openOver pc => exact absurd pc hi.opened.2
  | created pc ret =>
      -- up to `next` the number an earlier session left is still there
      have hzero := hi.create pc
      have hwas : s.ownSeq left = left := if_pos ⟨hzero, Or.inl pc⟩
      refine ⟨hopened, nofun, nofun, hseq, ?_⟩
      rw [Session.ownSeq, if_pos ⟨hzero, Or.inr rfl⟩]
      exact hwas ▸ hi.own
  | next pc =>
      -- 0 on both sides, until a DATA packet is made
      refine ⟨hopened, nofun, nofun, hseq, ?_⟩
      rw [Session.ownSeq_of_not_fresh (Session.not_fresh (by simp)),
        packetSeq_cleared cs rfl]
  | newStage pc | crash pc =>
      refine ⟨hopened, nofun, nofun, hseq, ?_⟩
      exact hi.kept (by simp [pc]) (Session.not_fresh (by simp)) rfl rfl
  | assemble pc hasm =>
      -- current_data_seq is set from the packet itself
      have ha := assembled_of_some hasm
      obtain ⟨hzero, hclear⟩ := hi.seq.cleared (by rw [pc]; rfl)
      refine ⟨hopened, nofun, fun _ => ?_, hseq, ?_⟩
      · rw [ha.total]
        exact Nat.succ_pos _
      · rw [Session.ownSeq_of_not_fresh (Session.not_fresh (by simp))]
        exact ha.seq hclear hzero
  | nextHit pc hst =>
      have hpos := hi.begun (by rw [pc]; rfl)
      refine ⟨hopened, nofun, nofun, hseq, ?_⟩
      refine hi.kept (by simp [pc]) ?_ rfl rfl
      exact fun hf => absurd hf.1 (Nat.ne_of_gt hpos)
  | retry pc | wrote pc | poll pc | timeout pc | nextMiss pc | errHit pc
  | errMiss pc | completeMiss pc =>
      refine ⟨hopened, nofun, fun _ => hi.begun (by rw [pc]; rfl), hseq, ?_⟩
      exact hi.kept (by simp [pc]) (Session.not_fresh (by simp)) rfl rfl
  | giveUp pc | writeFail pc | completeHit pc | flag pc | verdict pc
  | stop pc | quitThread pc | quitServ pc =>
      refine ⟨hopened, nofun, nofun, hseq, ?_⟩
      exact hi.kept (by simp [pc]) (Session.not_fresh (by simp)) rfl rfl

theorem OwnInv.read {pc pc' : RPc} {j : RIn} (hi : OwnInv cs left s)
    (h : RStep cs s.g pc j g' pc' es) (rdr : Option RPc)
    (trace : List Event) :
    OwnInv cs left { g := g', snd := s.snd, rdr := rdr, trace := trace } := by
  obtain ⟨htotal, hseq⟩ := h.frame
  refine ⟨hi.opened, ?_, ?_, hi.seq.read h, ?_⟩
  · intro hpc
    exact htotal.trans (hi.create hpc)
  · intro hpc
    dsimp only
    rw [htotal]
    exact hi.begun hpc
  · have hown : Session.ownSeq left
        { g := g', snd := s.snd, rdr := rdr, trace := trace }
        = s.ownSeq left := Session.ownSeq_congr htotal rfl rfl
    rw [hown]
    exact hseq.trans hi.own

theorem ownInv_start (cs : CharSign) (g₀ : Shared) (left : UInt8 × UInt8)
    (param2 : Option String) (stack : Nat → UInt8) (file : List UInt8) :
    OwnInv cs left (Session.start (g₀.leftSeq cs left) param2 stack file) where
  opened := ⟨nofun, nofun⟩
  create := fun _ => rfl
  begun := nofun
  seq := seqInv_start cs (g₀.leftSeq cs left) param2 stack file
  own := by
    rw [Session.ownSeq, if_pos ⟨rfl, Or.inl rfl⟩]
    rfl

-- ================================================================= ota_update

/-- The static variables with others where the signedness shows. -/
def Shared.under (g : Shared) (seq otaStatus : BitVec 32)
    (isFinishCmd : Bool) : Shared :=
  { g with
    currentDataSeq := seq, otaStatus := otaStatus, isFinishCmd := isFinishCmd }

/-- The sender with another `cmd_buf`. -/
def Sender.over (l : Sender) (cmdBuf : Nat → UInt8) : Sender :=
  { l with cmdBuf := cmdBuf }

@[simp] theorem Sender.nextIdx_over (l : Sender) (c : Nat → UInt8) :
    (l.over c).nextIdx = l.nextIdx := rfl

@[simp] theorem Sender.nextLen_over (l : Sender) (c : Nat → UInt8) :
    (l.over c).nextLen = l.nextLen := rfl

variable (cs' : CharSign) (q st : BitVec 32) (f : Bool) {c : Nat → UInt8}

/-- What a DATA record adds under the other signedness: the same, but for
the number put together from its bytes and the line that prints it. -/
theorem dataPart_alike {remain : Int}
    (hcmd : ((l.over c).filled cs').cmdBuf 5 = (l.filled cs).cmdBuf 5)
    (h : dataPart cs g l = some (g', remain, es)) :
    ∃ q₁ es₁, dataPart cs' (g.under q st f) (l.over c)
      = some (g'.under q₁ st f, remain, es₁) := by
  simp only [dataPart] at h ⊢
  rw [hcmd]
  split at h
  case isFalse hd =>
    cases h
    exact ⟨q, [], if_neg hd⟩
  case isTrue hd =>
    obtain ⟨⟨num2, ms⟩, hprog, hx⟩ := Option.map_eq_some_iff.mp h
    cases hx
    rw [if_pos hd]
    refine ⟨_, _, Option.map_eq_some_iff.mpr ⟨(num2, ms), hprog, rfl⟩⟩

/-- The FINISH part may read a byte of the checksum, so the flag it sets
can differ, and nothing else does. -/
theorem finishPart_alike (g : Shared) (cmd cmd' : UInt8) :
    ∃ f₁, (finishPart (g.under q st f) cmd').1
      = (finishPart g cmd).1.under q st f₁ := by
  unfold finishPart
  split
  case isTrue =>
    split
    case isTrue => exact ⟨true, rfl⟩
    case isFalse => exact ⟨true, rfl⟩
  case isFalse =>
    split
    case isTrue => exact ⟨f, rfl⟩
    case isFalse => exact ⟨f, rfl⟩

/-- A packet is built under the other signedness with it: the same
bytes, but for the checksum behind them. -/
theorem assemble_alike (hclear : l.cmdBuf = fun _ => 0)
    (hclear' : c = fun _ => 0)
    (h : assemble cs g l = some (g', l', es)) :
    ∃ q₁ f₁ c₁ es₁, assemble cs' (g.under q st f) (l.over c)
        = some (g'.under q₁ st f₁, l'.over c₁, es₁) := by
  subst hclear'
  have hcmd : ((l.over fun _ => 0).filled cs').cmdBuf 5
      = (l.filled cs).cmdBuf 5 := by
    unfold Sender.filled
    rw [hclear, fill_getD]
    exact fill_getD cs' _ _ _ _
  obtain ⟨hin, g₁, remain, es₁, hdata, rfl, rfl, -⟩ := parts_of_assemble h
  obtain ⟨q₁, es₂, hdata'⟩ := dataPart_alike cs' q st f hcmd hdata
  obtain ⟨f₁, hfin⟩ := finishPart_alike q₁ st f
    { g₁ with totalCmdNum := g₁.totalCmdNum + 1 }
    ((l.advance cs).cmdBuf 5) (((l.over fun _ => 0).advance cs').cmdBuf 5)
  rw [assemble_of_parts (by simpa using hin) hdata']
  exact ⟨q₁, f₁, ((l.over fun _ => 0).advance cs').cmdBuf, _,
    congrArg some (congrArg₂ Prod.mk hfin rfl)⟩

/-- Nor is one built under the other that is not. -/
theorem assemble_none_alike (hclear : l.cmdBuf = fun _ => 0)
    (hclear' : c = fun _ => 0) (h : assemble cs g l = none) :
    assemble cs' (g.under q st f) (l.over c) = none := by
  cases hasm : assemble cs' (g.under q st f) (l.over c) with
  | none => rfl
  | some built =>
      obtain ⟨g₁, l₁, es₁⟩ := built
      obtain ⟨_, _, _, _, hback⟩ := assemble_alike cs g.currentDataSeq
        g.otaStatus g.isFinishCmd (c := l.cmdBuf) hclear' hclear hasm
      cases h.symm.trans hback

/-- A move of the sender is its move under the other signedness. -/
theorem SStep.alike (h : SStep cs g l i g' l' es)
    (hopened : l.pc ≠ .init ∧ l.pc ≠ .load)
    (hclear : l.pc = .assemble →
      l.cmdBuf = (fun _ => 0) ∧ c = fun _ => 0)
    (hpacket : (l.over c).packet = l.packet) :
    ∃ q₁ f₁ c₁ es₁, SStep cs' (g.under q st f) (l.over c) i
        (g'.under q₁ st f₁) (l'.over c₁) es₁
      ∧ (l'.over c₁).packet = l'.packet ∧ sentOf es₁ = sentOf es := by
  cases h with
  | init pc => exact absurd pc hopened.1
  | openFail pc | opened pc | openOver pc => exact absurd pc hopened.2
  | created pc ret =>
      exact ⟨q, f, c, _, .created (l := l.over c) pc ret, hpacket, rfl⟩
  | next pc => exact ⟨0, f, fun _ => 0, _, .next pc, rfl, rfl⟩
  | newStage pc => exact ⟨q, f, c, _, .newStage pc, hpacket, rfl⟩
  | assemble pc hasm =>
      -- the packet depends on the file alone; what the signedness changes is
      -- left in q₁, f₁ and c₁
      obtain ⟨hzero, hzero'⟩ := hclear pc
      obtain ⟨q₁, f₁, c₁, es₁, hasm'⟩ :=
        assemble_alike cs' q st f hzero hzero' hasm
      have ha := assembled_of_some hasm
      have ha' := assembled_of_some hasm'
      refine ⟨q₁, f₁, c₁, es₁, .assemble (l := l.over c) pc hasm', ?_, ?_⟩
      · exact ha'.packet.trans ha.packet.symm
      · rw [sentOf_quiet ha.quiet, sentOf_quiet ha'.quiet]
  | crash pc hasm =>
      obtain ⟨hzero, hzero'⟩ := hclear pc
      have hnone : BtOta.assemble cs' (g.under q st f) (l.over c) = none :=
        assemble_none_alike cs' q st f hzero hzero' hasm
      exact ⟨q, f, c, _, .crash (l := l.over c) pc hnone, hpacket, rfl⟩
  | retry pc hlt => exact ⟨q, f, c, _, .retry pc hlt, hpacket, rfl⟩
  | giveUp pc hge => exact ⟨q, f, c, _, .giveUp pc hge, hpacket, rfl⟩
  | wrote pc res hres =>
      refine
        ⟨q, f, c, _, .wrote (l := l.over c) pc res hres, hpacket, ?_⟩
      rw [hpacket]
      rfl
  | writeFail pc res hres =>
      refine
        ⟨q, f, c, _, .writeFail (l := l.over c) pc res hres, hpacket, ?_⟩
      rw [hpacket]
      rfl
  | poll pc hlt => exact ⟨q, f, c, _, .poll pc hlt, hpacket, rfl⟩
  | timeout pc hge => exact ⟨q, f, c, _, .timeout pc hge, hpacket, rfl⟩
  | nextHit pc hst => exact ⟨q, f, c, _, .nextHit pc hst, hpacket, rfl⟩
  | nextMiss pc hst => exact ⟨q, f, c, _, .nextMiss pc hst, hpacket, rfl⟩
  | errHit pc hst => exact ⟨q, f, c, _, .errHit pc hst, hpacket, rfl⟩
  | errMiss pc hst => exact ⟨q, f, c, _, .errMiss pc hst, hpacket, rfl⟩
  | completeHit pc hst =>
      exact ⟨q, f, c, _, .completeHit pc hst, hpacket, rfl⟩
  | completeMiss pc hst =>
      exact ⟨q, f, c, _, .completeMiss pc hst, hpacket, rfl⟩
  | flag pc => exact ⟨q, f, c, _, .flag pc, hpacket, rfl⟩
  | verdict pc => exact ⟨q, f, c, _, .verdict pc, hpacket, rfl⟩
  | stop pc => exact ⟨q, f, c, _, .stop pc, hpacket, rfl⟩
  | quitThread pc => exact ⟨q, f, c, _, .quitThread pc, hpacket, rfl⟩
  | quitServ pc => exact ⟨q, f, c, _, .quitServ pc, hpacket, rfl⟩

-- ==================================================================== hidRead

/-- A response is judged alike where the sequence numbers compare
alike. -/
theorem respond_alike (g' : Shared) {rsp : Rsp}
    (hseq : rsp.cmd = dataCmd →
      (cs'.seq rsp.seq0 rsp.seq1 = g'.currentDataSeq
        ↔ cs.seq rsp.seq0 rsp.seq1 = g.currentDataSeq)) :
    (respond cs' g' rsp).map Prod.fst = (respond cs g rsp).map Prod.fst := by
  have hstatus : ∀ on, (byStatus on (cs'.promote rsp.stat) rsp.stat).1
      = (byStatus on (cs.promote rsp.stat) rsp.stat).1 := by
    intro on
    rw [byStatus_fst, byStatus_fst]
  by_cases hs : rsp.cmd = startCmd
  · unfold respond
    rw [if_pos hs, if_pos hs]
    exact congrArg some (hstatus .nextCmd)
  · by_cases hd : rsp.cmd = dataCmd
    · unfold respond
      rw [if_neg hs, if_neg hs, if_pos hd, if_pos hd]
      refine congrArg some ?_
      show (respondData _ _ _ _).1 = (respondData _ _ _ _).1
      unfold respondData
      simp only [hseq hd]
      split
      case isTrue => exact hstatus .nextCmd
      case isFalse => rfl
    · unfold respond
      rw [if_neg hs, if_neg hs, if_neg hd, if_neg hd]
      split
      case isTrue => exact congrArg some (hstatus .complete)
      case isFalse => rfl

/-- A move of the reader is its move under the other signedness. -/
theorem RStep.alike {pc pc' : RPc} {j : RIn}
    (h : RStep cs g pc j g' pc' es)
    (hseq : pc = .decide → j = .tick → g.rspCmd.cmd = dataCmd →
      (cs'.seq g.rspCmd.seq0 g.rspCmd.seq1 = q
        ↔ cs.seq g.rspCmd.seq0 g.rspCmd.seq1 = g.currentDataSeq)) :
    ∃ st₁ es₁, RStep cs' (g.under q st f) pc j
      (g'.under q st₁ f) pc' es₁ := by
  cases h with
  | enter hpc hflag => exact ⟨st, _, .enter hpc hflag⟩
  | leave hpc hflag => exact ⟨st, _, .leave hpc hflag⟩
  | readFail hpc => exact ⟨st, _, .readFail hpc⟩
  | report hpc r hrid => exact ⟨st, _, .report hpc r hrid⟩
  | stray hpc r hrid => exact ⟨st, _, .stray hpc r hrid⟩
  | decide hpc hx =>
      have hfst := respond_alike cs' (g.under q st f) (hseq hpc rfl)
      rw [hx] at hfst
      obtain ⟨⟨x', ms'⟩, hx', hstage⟩ := Option.map_eq_some_iff.mp hfst
      cases hstage
      exact ⟨_, _, .decide hpc hx'⟩
  | ignore hpc hx =>
      have hfst := respond_alike cs' (g.under q st f) (hseq hpc rfl)
      rw [hx] at hfst
      exact ⟨_, _, .ignore hpc (Option.map_eq_none_iff.mp hfst)⟩
  | store hpc => exact ⟨st, _, .store hpc⟩
  | failFlag hpc => exact ⟨st, _, .failFlag hpc⟩
  | failLog hpc => exact ⟨st, _, .failLog hpc⟩
  | failStop hpc => exact ⟨st, _, .failStop hpc⟩

-- =============================================================== the sessions

variable {cs'}

/-- Two sessions that differ where the signedness shows, and have written
the same packets. The number compared with, OTAStatus, the FINISH flag
and the bytes of `cmd_buf` behind the packet may differ; everything else
is the same. -/
structure Alike (cs cs' : CharSign) (left : UInt8 × UInt8)
    (s s' : Session) : Prop where
  shared : s'.g
    = s.g.under s'.g.currentDataSeq s'.g.otaStatus s'.g.isFinishCmd
  sender : s'.snd = s.snd.over s'.snd.cmdBuf
  packet : s'.snd.packet = s.snd.packet
  rdr : s'.rdr = s.rdr
  sent : sentOf s'.trace = sentOf s.trace
  own : OwnInv cs left s
  own' : OwnInv cs' left s'

theorem Alike.rspCmd (hi : Alike cs cs' left s s') :
    s'.g.rspCmd = s.g.rspCmd := by
  have h := congrArg Shared.rspCmd hi.shared
  exact h

theorem Alike.pc (hi : Alike cs cs' left s s') :
    s'.snd.pc = s.snd.pc := by
  have h := congrArg Sender.pc hi.sender
  exact h

/-- They compare responses with the same number, each as its own
signedness puts it together. -/
theorem Alike.ownSeq (hi : Alike cs cs' left s s') :
    s'.ownSeq left = s.ownSeq left := by
  have htotal := congrArg Shared.totalCmdNum hi.shared
  exact Session.ownSeq_congr htotal hi.pc hi.packet

/-- The condition looks at bytes alone, so a step within it for one
session is within it for the other. -/
theorem Alike.exactTests {a : Act} (hi : Alike cs cs' left s s')
    (hok : BtOta.exactTests left s a) : BtOta.exactTests left s' a := by
  cases a with
  | send i => trivial
  | read j =>
      cases j with
      | got res => trivial
      | tick =>
          unfold BtOta.exactTests at hok ⊢
          dsimp only at hok ⊢
          rw [hi.rdr, hi.rspCmd, hi.ownSeq]
          exact hok

/-- A comparison within the condition is the same under both. -/
theorem Alike.compares (hi : Alike cs cs' left s s')
    (hexact : ¬ Swallows .signed (s.ownSeq left) s.g.rspCmd) :
    cs'.seq s.g.rspCmd.seq0 s.g.rspCmd.seq1 = s'.g.currentDataSeq
      ↔ cs.seq s.g.rspCmd.seq0 s.g.rspCmd.seq1 = s.g.currentDataSeq := by
  have hboth : ∀ cs : CharSign, ¬ Swallows cs (s.ownSeq left) s.g.rspCmd :=
    fun cs hsw => hexact hsw.signed
  rw [hi.own'.own, hi.own.own, hi.ownSeq, (exact_iff cs' _ _).mpr (hboth cs'),
    (exact_iff cs _ _).mpr (hboth cs)]

theorem Alike.step {a : Act} {t : Session} (hi : Alike cs cs' left s s')
    (hok : BtOta.exactTests left s a) (hs : Session.step cs s a = some t) :
    ∃ t', Alike cs cs' left t t' ∧ BtOta.exactTests left s' a
      ∧ Session.step cs' s' a = some t' := by
  cases Session.step_inv hs with
  | @send i g₁ l₁ es h =>
      have hclear : s.snd.pc = .assemble →
          s.snd.cmdBuf = (fun _ => 0) ∧ s'.snd.cmdBuf = fun _ => 0 := by
        intro hpc
        refine ⟨(hi.own.seq.cleared ?_).2, (hi.own'.seq.cleared ?_).2⟩
        · rw [hpc]
          rfl
        · rw [hi.pc, hpc]
          rfl
      obtain ⟨q, f, c, es₁, hmove, hpacket, hsent⟩ :=
        h.alike cs' s'.g.currentDataSeq s'.g.otaStatus s'.g.isFinishCmd
          (c := s'.snd.cmdBuf) hi.own.opened hclear (hi.sender ▸ hi.packet)
      rw [← hi.shared, ← hi.sender] at hmove
      refine ⟨{ g := g₁.under q s'.g.otaStatus f, snd := l₁.over c
                rdr := Session.spawn s'.rdr i, trace := s'.trace ++ es₁ },
        ⟨rfl, rfl, hpacket, ?_, ?_, hi.own.send h _ _,
          hi.own'.send hmove _ _⟩, hi.exactTests hok, ?_⟩
      · dsimp only
        rw [hi.rdr]
      · rw [sentOf_append, sentOf_append, hi.sent, hsent]
      · simp [Session.step, hmove.step]
  | @read j pc pc' g₁ es hrdr h =>
      have hseq : pc = .decide → j = .tick → s.g.rspCmd.cmd = dataCmd →
          (cs'.seq s.g.rspCmd.seq0 s.g.rspCmd.seq1 = s'.g.currentDataSeq
            ↔ cs.seq s.g.rspCmd.seq0 s.g.rspCmd.seq1
              = s.g.currentDataSeq) := by
        intro hpc htick hcmd
        subst htick
        exact hi.compares (hok (hrdr.trans (congrArg some hpc)) hcmd)
      obtain ⟨st, es₁, hmove⟩ :=
        h.alike cs' s'.g.currentDataSeq s'.g.otaStatus s'.g.isFinishCmd hseq
      rw [← hi.shared] at hmove
      refine ⟨{ s' with
          g := g₁.under s'.g.currentDataSeq st s'.g.isFinishCmd
          rdr := some pc', trace := s'.trace ++ es₁ },
        ⟨rfl, hi.sender, hi.packet, rfl, ?_, hi.own.read h _ _,
          hi.own'.read hmove _ _⟩, hi.exactTests hok, ?_⟩
      · rw [sentOf_append, sentOf_append, hi.sent, h.sentOf, hmove.sentOf]
      · simp [Session.step, hi.rdr, hrdr, hmove.step]

/-- While a DATA packet is held, its own bytes are compared with. -/
theorem OwnInv.of_holding (hi : SeqInv cs s.g s.snd)
    (hhold : s.snd.pc.holding = true)
    (hdata : s.snd.packet.getD 5 0 = dataCmd) :
    s.g.currentDataSeq
      = cs.seq (s.snd.packet.getD 6 0) (s.snd.packet.getD 7 0) := by
  rw [hi.own hhold, packetSeq, if_pos hdata]

/-- While a DATA packet is held, the test on a DATA response is exact
unless the response is swallowed; and in every run that compares no
response that a signed `char` would swallow, the session goes under
either signedness through the same steps, writes the same packets and
stands at the same place. -/
theorem seq_exact_iff (cs : CharSign) (g₀ : Shared)
    (param2 : Option String) (stack : Nat → UInt8) (file : List UInt8) :
    (∀ (s : Session) (rsp : Rsp),
      Lts.Reach (Session.step cs) Lts.free
        (Session.start g₀ param2 stack file) s →
      s.snd.pc.holding = true → s.snd.packet.getD 5 0 = dataCmd →
      ((cs.seq rsp.seq0 rsp.seq1 = s.g.currentDataSeq
          ↔ SameNumber s.snd.packet rsp)
        ↔ ¬ Swallows cs (s.snd.packet.getD 6 0, s.snd.packet.getD 7 0) rsp))
    ∧ ∀ (cs' : CharSign) (left : UInt8 × UInt8) (as : List Act) (s : Session),
      Lts.Run (Session.step cs) (exactTests left)
        (Session.start (g₀.leftSeq cs left) param2 stack file) as s →
      ∃ s', Lts.Run (Session.step cs') (exactTests left)
          (Session.start (g₀.leftSeq cs' left) param2 stack file) as s'
        ∧ sentOf s'.trace = sentOf s.trace
        ∧ s'.snd.pc = s.snd.pc := by
  constructor
  · intro s rsp hr hhold hdata
    rw [OwnInv.of_holding (ChainInv.of_reach hr).seq hhold hdata]
    exact exact_iff cs (s.snd.packet.getD 6 0, s.snd.packet.getD 7 0) rsp
  · intro cs' left as s hrun
    have hstart : Alike cs cs' left
        (Session.start (g₀.leftSeq cs left) param2 stack file)
        (Session.start (g₀.leftSeq cs' left) param2 stack file) :=
      ⟨rfl, rfl, rfl, rfl, rfl, ownInv_start cs g₀ left param2 stack file,
        ownInv_start cs' g₀ left param2 stack file⟩
    obtain ⟨s', hi, hrun'⟩ := hrun.lockstep hstart
      fun s a t s' hi hok hs => hi.step hok hs
    exact ⟨s', hrun', hi.sent, hi.pc⟩

-- ============================================================== two sessions

/-- The answered session of `dataImage` swallows nothing, so it writes
both packets where `char` is unsigned as well. -/
theorem seq_exact_answered :
    ∃ s', Lts.Run (Session.step .unsigned) (exactTests (0, 0))
        (Session.start (Shared.loaded.leftSeq .unsigned (0, 0)) none
          (fun _ => 0) dataImage.bytes) answeredRun s'
      ∧ (sentOf s'.trace).map Prod.fst = [1, 2]
      ∧ s'.snd.pc = .flag .success := by
  have hrun : Lts.Run (Session.step .signed) (exactTests (0, 0))
      (Session.start (Shared.loaded.leftSeq .signed (0, 0)) none
        (fun _ => 0) dataImage.bytes) answeredRun _ :=
    Lts.Run.of_isSome (by decide)
  obtain ⟨s', hrun', hsent, hpc⟩ :=
    (seq_exact_iff .signed Shared.loaded none (fun _ => 0)
      dataImage.bytes).2 .unsigned (0, 0) answeredRun _ hrun
  refine ⟨s', hrun', ?_, ?_⟩
  · rw [hsent]
    decide
  · rw [hpc]
    decide

/-- A DATA record with the number 0x0080, whose low byte is the least
with the sign bit set, and a FINISH record. -/
def lowImage : Image := .close [.data 0x80 0] (by decide) (by decide)

/-- The session when the first of its packets is written, with the
response still to come. -/
def lowSent : Session :=
  (Lts.run (Session.step .signed) Lts.free lowImage.session
    sendFirst).getD lowImage.session

/-- A response to record 0x0180 arrives while the first is held. -/
def otherAnswer : List Act :=
  sendFirst ++ readOne [0xA1, 0x02, 0, 0x02, 0x80, 0x01, 0]
    ++ [.send .tick, .send .tick]

/-- Where `char` is signed the response to record 0x0180 passes for one
to record 0x0080: the session goes on to the FINISH record, and where
`char` is unsigned it does not. -/
theorem hidden_byte :
    (¬ ∀ (cs : CharSign) (g₀ : Shared) (param2 : Option String)
        (stack : Nat → UInt8) (file : List UInt8) (s : Session) (rsp : Rsp),
      Lts.Reach (Session.step cs) Lts.free
        (Session.start g₀ param2 stack file) s →
      s.snd.pc.holding = true → s.snd.packet.getD 5 0 = dataCmd →
      (cs.seq rsp.seq0 rsp.seq1 = s.g.currentDataSeq
        ↔ SameNumber s.snd.packet rsp))
    ∧ ¬ ∀ (cs cs' : CharSign) (g₀ : Shared) (param2 : Option String)
        (stack : Nat → UInt8) (file : List UInt8) (as : List Act)
        (s : Session),
      Lts.Run (Session.step cs) Lts.free
        (Session.start g₀ param2 stack file) as s →
      ∃ s', Lts.Run (Session.step cs') Lts.free
          (Session.start g₀ param2 stack file) as s'
        ∧ sentOf s'.trace = sentOf s.trace
        ∧ s'.snd.pc = s.snd.pc := by
  constructor
  · intro h
    have hsent : Lts.Reach (Session.step .signed) Lts.free lowImage.session
        lowSent := Lts.Reach.of_isSome (by decide)
    have hsame := (h _ _ _ _ _ lowSent ⟨2, 0, 2, 0x80, 0x01, 0⟩ hsent
      (by decide) (by decide)).mp (by decide)
    exact absurd hsame (by decide)
  · intro h
    have hrun : Lts.Run (Session.step .signed) Lts.free lowImage.session
        otherAnswer _ := Lts.Run.of_isSome (by decide)
    obtain ⟨s', hrun', -, hpc⟩ := h _ .unsigned _ _ _ _ _ _ hrun
    have hmiss : (Lts.run (Session.step .unsigned) Lts.free lowImage.session
        otherAnswer).map (fun s => s.snd.pc) = some .pollErr := by decide
    have hplays : Lts.run (Session.step .unsigned) Lts.free lowImage.session
        otherAnswer = some s' := hrun'.run_eq
    rw [hplays] at hmiss
    have hmiss' : s'.snd.pc = .pollErr := Option.some.inj hmiss
    rw [hpc] at hmiss'
    exact absurd hmiss' (by decide)

end BtOta
