/-
hidRead's judgement of an answer to the packet outstanding.

`current_data_seq` is cleared before every packet and set while a DATA
packet is built, so from then on it is the sequence field of the packet
held, and zero where that is no DATA packet (`SeqInv`). An answer with
SUCCESS that belongs to the packet held is therefore never taken for an
error: hidRead stores the stage that acknowledges the packet, and which
one that is depends on the packet alone (`respond_own`).
-/
import BtOta.Proofs.Cursor

namespace BtOta

variable {cs : CharSign} {g g' : Shared} {l l' : Sender} {es : List Event}
  {i : SIn} {packet : List UInt8} {rsp : Rsp}

-- ========================================================== the sequence

/-- `current_data_seq`, whatever file is sent: the packet's own number
while it is held, and 0 from clearing it until then. -/
structure SeqInv (cs : CharSign) (g : Shared) (l : Sender) : Prop where
  cleared : l.pc.cleared = true →
    g.currentDataSeq = 0 ∧ l.cmdBuf = fun _ => 0
  own : l.pc.holding = true → g.currentDataSeq = packetSeq cs l.packet

theorem SeqInv.send (hi : SeqInv cs g l) (h : SStep cs g l i g' l' es) :
    SeqInv cs g' l' := by
  cases h with
  | next pc => exact ⟨fun _ => ⟨rfl, rfl⟩, nofun⟩
  | newStage pc => exact ⟨fun _ => hi.cleared (by rw [pc]; rfl), nofun⟩
  | assemble pc hasm =>
      obtain ⟨hseq, hbuf⟩ := hi.cleared (by rw [pc]; rfl)
      exact ⟨nofun, fun _ => (assembled_of_some hasm).seq hbuf hseq⟩
  | retry pc | wrote pc | poll pc | timeout pc | nextMiss pc | errHit pc
  | errMiss pc | completeMiss pc =>
      exact ⟨nofun, fun _ => hi.own (by rw [pc]; rfl)⟩
  | init | openFail | opened | openOver | created | crash | giveUp
  | writeFail | nextHit | completeHit | flag | verdict | stop | quitThread
  | quitServ => exact ⟨nofun, nofun⟩

theorem SeqInv.read {pc pc' : RPc} {j : RIn} (hi : SeqInv cs g l)
    (h : RStep cs g pc j g' pc' es) : SeqInv cs g' l := by
  obtain ⟨-, hseq⟩ := h.frame
  refine ⟨fun hpc => ?_, fun hpc => ?_⟩
  · rw [hseq]
    exact hi.cleared hpc
  · rw [hseq]
    exact hi.own hpc

theorem seqInv_start (cs : CharSign) (g₀ : Shared) (param2 : Option String)
    (stack : Nat → UInt8) (file : List UInt8) :
    SeqInv cs (Session.start g₀ param2 stack file).g
      (Session.start g₀ param2 stack file).snd :=
  ⟨nofun, nofun⟩

-- ============================================================ the judgement

/-- The stage that acknowledges a packet. -/
def ackOf (packet : List UInt8) : Stage :=
  if packet.getD 5 0 = finishCmd then .complete else .nextCmd

/-- The stage that acknowledges a packet asks for no retry, so the two
cannot be mistaken for each other. -/
theorem ackOf_ne_errRetry (packet : List UInt8) :
    ackOf packet ≠ .errRetry := by
  unfold ackOf
  split <;> nofun

theorem belongs_iff :
    belongs packet rsp = true ↔ rsp.cmd = packet.getD 5 0
      ∧ (rsp.cmd = dataCmd →
        rsp.seq0 = packet.getD 6 0 ∧ rsp.seq1 = packet.getD 7 0) := by
  simp only [belongs, Bool.and_eq_true, Bool.or_eq_true, bne_iff_ne, beq_iff_eq]
  constructor
  · intro h
    obtain ⟨hcmd, hseq⟩ := h
    exact ⟨hcmd, fun hd => hseq.resolve_left (absurd hd)⟩
  · intro h
    obtain ⟨hcmd, hseq⟩ := h
    refine ⟨hcmd, ?_⟩
    by_cases hd : rsp.cmd = dataCmd
    · exact Or.inr (hseq hd)
    · exact Or.inl hd

/-- The device's answers belong to the packets they answer, by command
and by sequence field. -/
theorem belongs_of_isAnswer {report : List UInt8}
    (h : isAnswer packet report = true) :
    (Rsp.ofReport report).rid = 0x02
      ∧ belongs packet (Rsp.ofReport report) = true := by
  simpa only [isAnswer, Bool.and_eq_true, beq_iff_eq] using h

/-- On SUCCESS for the packet held hidRead stores that packet's
acknowledgement. -/
theorem respond_own {x : Stage} {ms : List Msg}
    (hb : belongs packet rsp = true) (hstat : rsp.stat = 0)
    (hseq : g.currentDataSeq = packetSeq cs packet)
    (h : respond cs g rsp = some (x, ms)) : x = ackOf packet := by
  obtain ⟨hcmd, hfield⟩ := belongs_iff.mp hb
  unfold ackOf
  rw [← hcmd]
  rcases respond_inv h with ⟨hc, hx⟩ | ⟨hc, -, hx⟩ | ⟨hc, hne, -⟩ | ⟨hc, hx⟩
  · rw [hx, hstat, hc]
    rfl
  · rw [hx, hstat, hc]
    rfl
  · -- the sequence field is the packet's, so the comparison succeeds
    obtain ⟨h0, h1⟩ := hfield hc
    refine absurd ?_ hne
    rw [hseq, packetSeq, if_pos (hcmd ▸ hc), h0, h1]
  · rw [hx, hstat, hc]
    rfl

/-- Each of the three commands has its branch, so a response to one of
them comes to a store. -/
theorem respond_isSome (g : Shared)
    (h : rsp.cmd = startCmd ∨ rsp.cmd = dataCmd ∨ rsp.cmd = finishCmd) :
    (respond cs g rsp).isSome = true := by
  unfold respond
  rcases h with hc | hc | hc
  · simp [hc]
  · simp [hc, startCmd, dataCmd]
  · simp [hc, startCmd, dataCmd, finishCmd]

end BtOta
