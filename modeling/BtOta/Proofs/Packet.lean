/-
What `assemble` builds: the packet is the report type followed by the
record's bytes, the sequence number is the packet's own, and nothing
hidRead wrote is touched.

`fill_cmdBuf` closes the fill loop; `Assembled` is the one fact the
invariants use about a packet being built, and `assemble_isSome` says
when it is built at all.
-/
import BtOta.Proofs.Steps
import Mathlib.Data.List.GetD

namespace BtOta

-- ============================================================ the fill loop

/-- The fill loop leaves the report type, then the record, then what
`cmd_buf` held. -/
theorem fill_cmdBuf (cs : CharSign) (fw : Nat → UInt8) (idx len : Nat)
    (buf : Nat → UInt8) (j : Nat) :
    (fill cs fw idx len buf).cmdBuf j
      = if j = 0 then 0x52 else if j ≤ len then fw (idx + (j - 1))
        else buf j := by
  induction len with
  | zero =>
      by_cases hj : j = 0
      · subst hj
        simp [fill]
      · rw [if_neg hj, if_neg (by omega)]
        simp [fill, Function.update_of_ne hj]
  | succ len ih =>
      have hstep : fill cs fw idx (len + 1) buf
          = fillStep cs fw idx (fill cs fw idx len buf) len := by
        simp only [fill, List.range_succ, List.foldl_append,
          List.foldl_cons, List.foldl_nil]
      rw [hstep]
      by_cases hj : j = len + 1
      · subst hj
        simp [fillStep]
      · simp only [fillStep, Function.update_of_ne hj, ih]
        by_cases hj0 : j = 0
        · rw [if_pos hj0, if_pos hj0]
        · rw [if_neg hj0, if_neg hj0]
          by_cases hle : j ≤ len
          · rw [if_pos hle, if_pos (by omega)]
          · rw [if_neg hle, if_neg (by omega)]

/-- The checksum goes behind the packet, so no byte that is handed to
hidWrite is one of its. -/
theorem storeCrc_of_le (f : Fill) {len j : Nat} (hj : j ≤ len) :
    storeCrc f len j = f.cmdBuf j := by
  unfold storeCrc
  rw [Function.update_of_ne (by omega), Function.update_of_ne (by omega)]

-- ============================================================== the packet

/-- The record bytes at a cursor, behind the report type: what the packet
ought to be. -/
def recordAt (fw : Nat → UInt8) (idx len : Nat) : List UInt8 :=
  0x52 :: (List.range len).map fun i => fw (idx + i)

/-- The first `len + 1` bytes of the filled `cmd_buf`. -/
theorem fill_packet (cs : CharSign) (fw : Nat → UInt8) (idx len : Nat)
    (buf : Nat → UInt8) :
    (List.range (len + 1)).map (fill cs fw idx len buf).cmdBuf
      = recordAt fw idx len := by
  rw [List.range_succ_eq_map, List.map_cons, List.map_map, recordAt,
    fill_cmdBuf, if_pos rfl]
  refine congrArg _ (List.map_congr_left fun i hi => ?_)
  have hlt := List.mem_range.mp hi
  simp only [Function.comp_apply, fill_cmdBuf]
  rw [if_neg (by omega), if_pos (by omega)]
  simp

/-- Over a cleared `cmd_buf` the filled bytes are the packet's, and
zero behind it. -/
theorem fill_getD (cs : CharSign) (fw : Nat → UInt8) (idx len j : Nat) :
    (fill cs fw idx len fun _ => 0).cmdBuf j
      = (recordAt fw idx len).getD j 0 := by
  rw [fill_cmdBuf]
  cases j with
  | zero => rfl
  | succ j =>
      rw [if_neg (by omega), recordAt, List.getD_cons_succ]
      by_cases hlt : j < len
      · rw [if_pos (by omega), List.getD_eq_getElem _ _ (by simpa using hlt)]
        simp
      · rw [if_neg (by omega), List.getD_eq_default _ _ (by simpa using hlt)]

/-- The number a DATA packet carries in bytes 5-6 of its record, as
`current_data_seq` holds it; 0 for the other commands. -/
def packetSeq (cs : CharSign) (packet : List UInt8) : BitVec 32 :=
  if packet.getD 5 0 = dataCmd then
    cs.seq (packet.getD 6 0) (packet.getD 7 0)
  else 0

-- ================================================================ assemble

/-- A line that is no verdict and reports no failure of the channel, so
that no count of such lines moves with it. -/
def Msg.quiet : Msg → Bool
  | .otaFail | .otaEnd | .otaStop | .writeError | .readError => false
  | _ => true

/-- An event that only logs such a line. -/
def Event.quiet : Event → Bool
  | .log m => m.quiet
  | _ => false

theorem Shared.verbose_quiet {g : Shared} {m : Msg} (hm : m.quiet = true) :
    ∀ e ∈ g.verbose m, e.quiet = true := by
  intro e he
  rw [mem_verbose he]
  exact hm

theorem startLog_quiet (cmd : UInt8) :
    ∀ e ∈ startLog cmd, e.quiet = true := by
  intro e he
  unfold startLog at he
  split at he
  · rw [List.mem_singleton.mp he]
    rfl
  · cases he

/-- What the DATA part changes, and what it leaves alone: the sequence
number is put together from the record, two operands of the progress line
are counted on, and the lines are quiet. -/
theorem dataPart_spec {cs : CharSign} {g g' : Shared} {l : Sender}
    {remain : Int} {es : List Event}
    (h : dataPart cs g l = some (g', remain, es)) :
    g' = { g with
        currentDataSeq := g'.currentDataSeq, num1 := g'.num1
        num2 := g'.num2 }
      ∧ g'.currentDataSeq
        = (if (l.filled cs).cmdBuf 5 = dataCmd then
            cs.seq ((l.filled cs).cmdBuf 6) ((l.filled cs).cmdBuf 7)
          else g.currentDataSeq)
      ∧ ∀ e ∈ es, e.quiet = true := by
  simp only [dataPart] at h
  split at h
  case isFalse hd =>
    cases h
    exact ⟨rfl, (if_neg hd).symm, by simp⟩
  case isTrue hd =>
    obtain ⟨⟨num2, ms⟩, hprog, hx⟩ := Option.map_eq_some_iff.mp h
    cases hx
    refine ⟨rfl, (if_pos hd).symm, ?_⟩
    intro e he
    rcases List.mem_append.mp he with he | he
    · exact Shared.verbose_quiet rfl e he
    · obtain ⟨m, hm, rfl⟩ := List.mem_map.mp he
      unfold progress at hprog
      split at hprog
      case isTrue => cases hprog
      case isFalse =>
        split at hprog
        all_goals
          cases hprog
          simp_all [Event.quiet, Msg.quiet]

/-- What the FINISH part changes, and what it leaves alone: only the flag
moves, and the lines are quiet. -/
theorem finishPart_spec (g : Shared) (cmd : UInt8) :
    (finishPart g cmd).1
        = { g with isFinishCmd := (finishPart g cmd).1.isFinishCmd }
      ∧ ∀ e ∈ (finishPart g cmd).2, e.quiet = true := by
  unfold finishPart
  split
  · exact ⟨rfl, by simp [Event.quiet, Msg.quiet]⟩
  · exact ⟨rfl, by simp⟩

/-- An assembly, part by part, in the order in which the code runs them.
-/
theorem assemble_of_parts {cs : CharSign} {g g₁ : Shared} {l : Sender}
    {remain : Int} {es : List Event}
    (hin : inBuffers l.nextIdx l.nextLen = true)
    (h : dataPart cs g l = some (g₁, remain, es)) :
    assemble cs g l
      = some ((finishPart { g₁ with totalCmdNum := g₁.totalCmdNum + 1 }
          ((l.advance cs).cmdBuf 5)).1,
        { l.advance cs with remainDataLen := remain },
        startLog ((l.filled cs).cmdBuf 5) ++ es
          ++ (finishPart { g₁ with totalCmdNum := g₁.totalCmdNum + 1 }
            ((l.advance cs).cmdBuf 5)).2) := by
  unfold assemble
  rw [if_pos hin, h]
  rfl

theorem parts_of_assemble {cs : CharSign} {g g' : Shared} {l l' : Sender}
    {es : List Event} (h : assemble cs g l = some (g', l', es)) :
    inBuffers l.nextIdx l.nextLen = true
      ∧ ∃ g₁ remain es₁, dataPart cs g l = some (g₁, remain, es₁)
        ∧ g' = (finishPart { g₁ with totalCmdNum := g₁.totalCmdNum + 1 }
          ((l.advance cs).cmdBuf 5)).1
        ∧ l' = { l.advance cs with remainDataLen := remain }
        ∧ es = startLog ((l.filled cs).cmdBuf 5) ++ es₁
          ++ (finishPart { g₁ with totalCmdNum := g₁.totalCmdNum + 1 }
            ((l.advance cs).cmdBuf 5)).2 := by
  have hsome := h
  unfold assemble at hsome
  split at hsome
  case isFalse => cases hsome
  case isTrue hin =>
    obtain ⟨⟨g₁, remain, es₁⟩, hdata, -⟩ := Option.map_eq_some_iff.mp hsome
    have hparts := Option.some.inj ((assemble_of_parts hin hdata).symm.trans h)
    obtain ⟨hg, hrest⟩ := Prod.mk.inj hparts
    obtain ⟨hl, hes⟩ := Prod.mk.inj hrest
    exact ⟨hin, g₁, remain, es₁, hdata, hg.symm, hl.symm, hes.symm⟩

/-- Everything a packet's assembly does: the record it takes is inside
both buffers, the packet is that record's, one more is counted, and what
the reader writes is left alone. -/
structure Assembled (cs : CharSign) (g : Shared) (l : Sender) (g' : Shared)
    (l' : Sender) (es : List Event) : Prop where
  inside : inBuffers l.nextIdx l.nextLen = true
  idx : l'.currentCmdIdx = l.nextIdx
  len : l'.currentCmdLen = l.nextLen
  packet : l'.packet = recordAt l.fwDataBuf l.nextIdx l.nextLen
  fwBuf : l'.fwDataBuf = l.fwDataBuf
  fwLen : l'.fwDataLen = l.fwDataLen
  sendCount : l'.sendCount = l.sendCount
  total : g'.totalCmdNum = g.totalCmdNum + 1
  otaStage : g'.otaStage = g.otaStage
  flagRead : g'.flagRead = g.flagRead
  rspCmd : g'.rspCmd = g.rspCmd
  seq : l.cmdBuf = (fun _ => 0) → g.currentDataSeq = 0 →
    g'.currentDataSeq = packetSeq cs l'.packet
  quiet : ∀ e ∈ es, e.quiet = true

/-- The packet handed to hidWrite once the checksum is stored. -/
theorem packet_advance (cs : CharSign) (l : Sender) :
    (l.advance cs).packet = recordAt l.fwDataBuf l.nextIdx l.nextLen := by
  rw [← fill_packet cs l.fwDataBuf l.nextIdx l.nextLen l.cmdBuf]
  apply List.map_congr_left
  intro i hi
  have hlt := List.mem_range.mp hi
  exact storeCrc_of_le _ (Nat.lt_succ_iff.mp hlt)

theorem assembled_of_some {cs : CharSign} {g g' : Shared} {l l' : Sender}
    {es : List Event} (h : assemble cs g l = some (g', l', es)) :
    Assembled cs g l g' l' es := by
  obtain ⟨hin, g₁, remain, es₁, hdata, rfl, rfl, rfl⟩ := parts_of_assemble h
  obtain ⟨hg₁, hseq, hes₁⟩ := dataPart_spec hdata
  obtain ⟨hg', hfin⟩ := finishPart_spec
    { g₁ with totalCmdNum := g₁.totalCmdNum + 1 }
    ((l.advance cs).cmdBuf 5)
  have hpacket := packet_advance cs l
  refine
    { inside := hin, idx := rfl, len := rfl, packet := hpacket
      fwBuf := rfl, fwLen := rfl, sendCount := rfl
      total := ?_, otaStage := ?_, flagRead := ?_, rspCmd := ?_
      seq := ?_, quiet := ?_ }
  · exact (congrArg Shared.totalCmdNum hg').trans (by rw [hg₁])
  · exact (congrArg Shared.otaStage hg').trans (by rw [hg₁])
  · exact (congrArg Shared.flagRead hg').trans (by rw [hg₁])
  · exact (congrArg Shared.rspCmd hg').trans (by rw [hg₁])
  · intro hclear hzero
    apply (congrArg Shared.currentDataSeq hg').trans
    show g₁.currentDataSeq = packetSeq cs (l.advance cs).packet
    rw [hseq, hpacket, packetSeq, Sender.filled, hclear, fill_getD,
      fill_getD, fill_getD, hzero]
  · intro e he
    rcases List.mem_append.mp he with he | he
    · rcases List.mem_append.mp he with he | he
      · exact startLog_quiet _ e he
      · exact hes₁ e he
    · exact hfin e he

/-- A record is assembled exactly if it is inside both buffers, unless
it is a DATA record and the file is empty. -/
theorem assemble_isSome_iff {cs : CharSign} {g : Shared} {l : Sender} :
    (assemble cs g l).isSome = true
      ↔ inBuffers l.nextIdx l.nextLen = true
        ∧ ((l.filled cs).cmdBuf 5 = dataCmd → l.fwDataLen ≠ 0) := by
  unfold assemble
  by_cases hin : inBuffers l.nextIdx l.nextLen = true
  · rw [if_pos hin, Option.isSome_map]
    simp only [dataPart, hin, true_and]
    by_cases hdata : (l.filled cs).cmdBuf 5 = dataCmd
    · rw [if_pos hdata, Option.isSome_map]
      unfold progress
      by_cases hlen : l.fwDataLen = 0
      · simp [hlen, hdata]
      · rw [if_neg hlen]
        split <;> simp [hlen]
    · simp [hdata]
  · simp [hin]

/-- A record inside both buffers is assembled, once the file is not
empty. -/
theorem assemble_isSome (cs : CharSign) (g : Shared) {l : Sender}
    (hin : inBuffers l.nextIdx l.nextLen = true) (hlen : l.fwDataLen ≠ 0) :
    (assemble cs g l).isSome = true :=
  assemble_isSome_iff.mpr ⟨hin, fun _ => hlen⟩

end BtOta
