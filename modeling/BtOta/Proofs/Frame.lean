/-
What the moves leave alone, and what their events say about them.

The sender reads `OTAStage` only while it waits, and everything stored
there before it last stored STAGE_RETRYING is gone by then. `awaiting`
names the program counters from hidWrite to the last poll;
`SStep.awaiting` says that a move into them either is the
STAGE_RETRYING store or starts among them and leaves `OTAStage` alone.
So an invariant about what the mailbox holds needs to look at hidRead's
store and at nothing else.
-/
import BtOta.Proofs.Packet
import BtOta.Answer
import BtOta.Lib.EventLog

namespace BtOta

/-- The sender stands between its STAGE_RETRYING store and the end of
its wait loop. -/
def SPc.awaiting : SPc → Bool
  | .write | .wait | .pollNext | .pollErr | .pollComplete => true
  | _ => false

/-- The sender is between two packets: the last one is done with, and the
next one is not built. -/
def SPc.between : SPc → Bool
  | .create | .next | .newStage | .assemble => true
  | _ => false

/-- The sender has a packet to transmit or to wait for, and has not come
to either flag. -/
def SPc.live (pc : SPc) : Bool :=
  pc.between || pc == .retry || pc.awaiting

/-- The sender is at FLAG_OTA_FAIL or behind it. -/
def SPc.failing : SPc → Bool
  | .flag .fail | .verdict .fail | .stop .fail | .quitThread .fail
  | .quitServ .fail | .returned .fail => true
  | _ => false

/-- The sender is at FLAG_OTA_SUCCESS or behind it. -/
def SPc.succeeding : SPc → Bool
  | .flag .success | .verdict .success | .stop .success
  | .quitThread .success | .quitServ .success | .returned .success => true
  | _ => false

/-- Events that only hidRead causes, so a move of the sender adds none of
them. -/
def Event.fromReader : Event → Bool
  | .report _ | .stored _ _ => true
  | _ => false

/-- Events that only ota_update causes, so a move of hidRead adds none of
them. -/
def Event.fromSender : Event → Bool
  | .goto _ _ | .timeout _ | .tx _ _ => true
  | _ => false

variable {cs : CharSign} {g g' : Shared} {l l' : Sender} {es : List Event}
  {i : SIn}

-- =============================================================== ota_update

/-- A move into the wait: the STAGE_RETRYING store, or one that leaves
the mailbox and the packet alone. -/
theorem SStep.awaiting (h : SStep cs g l i g' l' es)
    (ha : l'.pc.awaiting = true) :
    g'.totalCmdNum = g.totalCmdNum
      ∧ ((l.pc = .retry ∧ g'.otaStage = .retrying)
        ∨ (l.pc.awaiting = true ∧ g'.otaStage = g.otaStage)) := by
  cases h with
  | retry pc hlt => exact ⟨rfl, Or.inl ⟨pc, rfl⟩⟩
  | wrote pc | poll pc | nextMiss pc | errMiss pc | completeMiss pc =>
      exact ⟨rfl, Or.inr ⟨by rw [pc]; rfl, rfl⟩⟩
  | init | openFail | opened | openOver | created | next | newStage
  | assemble | crash | giveUp | writeFail | timeout | nextHit | errHit
  | completeHit | flag | verdict | stop | quitThread | quitServ =>
      simp [SPc.awaiting] at ha

/-- The sender never touches `rsp_cmd`, so the response that a reader
holds stays as it is. -/
theorem SStep.rspCmd (h : SStep cs g l i g' l' es) :
    g'.rspCmd = g.rspCmd := by
  cases h with
  | assemble pc hasm => exact (assembled_of_some hasm).rspCmd
  | _ => rfl

/-- The file is opened once, ahead of everything else, so a session
behind it stays behind it. -/
theorem SStep.opening (h : SStep cs g l i g' l' es)
    (ho : l'.pc = .init ∨ l'.pc = .load) : l.pc = .init := by
  cases h with
  | init pc => exact pc
  | _ => simp at ho

/-- What an event of the sender says about the move that caused it: where
the sender stood, and what it found in the mailbox. -/
inductive SEvent (g : Shared) (l : Sender) : Event → Prop
  | quiet {e : Event} (h : e.quiet = true) : SEvent g l e
  | openFail (pc : l.pc = .load) : SEvent g l (.goto .otaFail g.totalCmdNum)
  | giveUp (pc : l.pc = .retry) (hge : 3 ≤ l.sendCount) :
      SEvent g l (.goto .otaFail g.totalCmdNum)
  | writeError (pc : l.pc = .write) : SEvent g l (.log .writeError)
  | writeFail (pc : l.pc = .write) :
      SEvent g l (.goto .otaFail g.totalCmdNum)
  | tx (pc : l.pc = .write) : SEvent g l (.tx g.totalCmdNum l.packet)
  | timeout (pc : l.pc = .wait) : SEvent g l (.timeout g.totalCmdNum)
  | timedOut (pc : l.pc = .wait) :
      SEvent g l (.goto .retryCmd g.totalCmdNum)
  | errRetry (pc : l.pc = .pollErr) (hst : g.otaStage = .errRetry) :
      SEvent g l (.goto .retryCmd g.totalCmdNum)
  | nextCmd (pc : l.pc = .pollNext) (hst : g.otaStage = .nextCmd) :
      SEvent g l (.goto .nextCmd g.totalCmdNum)
  | success (pc : l.pc = .pollComplete) (hst : g.otaStage = .complete) :
      SEvent g l (.goto .otaSuccess g.totalCmdNum)
  | verdict {v : Verdict} (pc : l.pc = .verdict v) : SEvent g l (.log v.msg)
  | stop {v : Verdict} (pc : l.pc = .stop v) : SEvent g l (.log .otaStop)

/-- A verbose line is quiet. -/
theorem SEvent.verbose {m : Msg} {e : Event} (he : e ∈ g.verbose m)
    (hm : m.quiet = true) : SEvent g l e :=
  .quiet (by rw [Shared.mem_verbose he]; exact hm)

theorem SStep.event (h : SStep cs g l i g' l' es) {e : Event}
    (he : e ∈ es) : SEvent g l e := by
  cases h with
  | init pc => exact .quiet (by rw [Shared.mem_verbose he]; rfl)
  | openFail pc =>
      rcases List.mem_cons.mp he with rfl | he
      · exact .quiet rfl
      · rw [List.mem_singleton.mp he]
        exact .openFail pc
  | created pc ret | retry pc hlt =>
      -- one line or none, and a line is quiet
      split at he
      all_goals first
        | (cases he; done)
        | (rw [List.mem_singleton.mp he]; exact .quiet rfl)
  | assemble pc hasm => exact .quiet ((assembled_of_some hasm).quiet e he)
  | giveUp pc hge =>
      rw [List.mem_singleton.mp he]
      exact .giveUp pc hge
  | wrote pc res hres =>
      -- the packet stands between two verbose lines
      rcases List.mem_append.mp he with he | he
      · rcases List.mem_append.mp he with he | he
        · exact .verbose he rfl
        · rw [List.mem_singleton.mp he]
          exact .tx pc
      · exact .verbose he rfl
  | writeFail pc res hres =>
      rcases List.mem_append.mp he with he | he
      · exact .verbose he rfl
      · rcases List.mem_cons.mp he with rfl | he
        · exact .writeError pc
        · rw [List.mem_singleton.mp he]
          exact .writeFail pc
  | timeout pc hge =>
      -- the timeout and the jump it makes
      rcases List.mem_cons.mp he with rfl | he
      · exact .timeout pc
      · rw [List.mem_singleton.mp he]
        exact .timedOut pc
  | nextHit pc hst =>
      rw [List.mem_singleton.mp he]
      exact .nextCmd pc hst
  | errHit pc hst =>
      rw [List.mem_singleton.mp he]
      exact .errRetry pc hst
  | completeHit pc hst =>
      rw [List.mem_singleton.mp he]
      exact .success pc hst
  | verdict pc =>
      rw [List.mem_singleton.mp he]
      exact .verdict pc
  | stop pc =>
      rw [List.mem_singleton.mp he]
      exact .stop pc
  | opened pc | quitThread pc | quitServ pc =>
      rw [List.mem_singleton.mp he]
      exact .quiet rfl
  | openOver | next | newStage | crash | poll | nextMiss | errMiss
  | completeMiss | flag => cases he

/-- A quiet event is a line of the log. -/
theorem Event.quiet_inv {e : Event} (h : e.quiet = true) :
    ∃ m, e = .log m := by
  cases e with
  | log m => exact ⟨m, rfl⟩
  | _ => cases h

/-- Only hidRead reads reports and records responses. -/
theorem SEvent.fromReader {e : Event} (h : SEvent g l e) :
    e.fromReader = false := by
  cases h with
  | quiet h =>
      obtain ⟨m, rfl⟩ := Event.quiet_inv h
      rfl
  | _ => rfl

/-- The only move to FLAG_OTA_SUCCESS: the third test of a poll, with
STAGE_COMPLETE in the mailbox. -/
theorem SEvent.succeeds {e : Event} (h : SEvent g l e)
    (hs : e.succeeds = true) :
    l.pc = .pollComplete ∧ g.otaStage = .complete := by
  cases h with
  | success pc hst => exact ⟨pc, hst⟩
  | quiet h =>
      obtain ⟨m, rfl⟩ := Event.quiet_inv h
      cases hs
  | _ => cases hs

/-- A session begins with quiet lines only, so a property of packets,
responses and verdicts begins with nothing. -/
theorem Session.start_quiet (g₀ : Shared) (param2 : Option String)
    (stack : Nat → UInt8) (file : List UInt8) :
    ∀ e ∈ (Session.start g₀ param2 stack file).trace, e.quiet = true := by
  intro e he
  rcases List.mem_append.mp he with he | he
  · rw [Shared.mem_verbose he]
    rfl
  · rw [List.mem_singleton.mp he]
    rfl

theorem Session.start_log (g₀ : Shared) (param2 : Option String)
    (stack : Nat → UInt8) (file : List UInt8) {e : Event}
    (he : e ∈ (Session.start g₀ param2 stack file).trace) :
    ∃ m, e = .log m :=
  Event.quiet_inv (Session.start_quiet g₀ param2 stack file e he)

/-- The sender's move makes no reader but one that begins, so a reader
anywhere else was there before. -/
theorem Session.spawn_eq_some {rdr : Option RPc} {i : SIn} {pc : RPc}
    (h : Session.spawn rdr i = some pc) (hne : pc ≠ .test) :
    rdr = some pc := by
  unfold Session.spawn at h
  split at h
  · cases h
    exact absurd rfl hne
  · exact h

-- ================================================================= hidRead

/-- The stage a status byte selects, as the three branches share it. -/
def stageOf (onSuccess : Stage) (stat : UInt8) : Stage :=
  if stat = 0 then onSuccess else if stat = 2 then .complete else .errRetry

theorem stageOf_eq_complete {on : Stage} {stat : UInt8} :
    stageOf on stat = .complete ↔ stat = 0 ∧ on = .complete ∨ stat = 2 := by
  unfold stageOf
  by_cases h0 : stat = 0
  · subst h0
    simp
  · by_cases h2 : stat = 2 <;> simp [h0, h2]

theorem stageOf_eq_nextCmd {on : Stage} {stat : UInt8} :
    stageOf on stat = .nextCmd ↔ stat = 0 ∧ on = .nextCmd := by
  unfold stageOf
  by_cases h0 : stat = 0
  · simp [h0]
  · by_cases h2 : stat = 2 <;> simp [h0, h2]

theorem byStatus_fst (cs : CharSign) (onSuccess : Stage) (stat : UInt8) :
    (byStatus onSuccess (cs.promote stat) stat).1
      = stageOf onSuccess stat := by
  simp only [byStatus, stageOf, CharSign.promote_eq_success,
    CharSign.promote_eq_noNeedUpdate]
  split
  · rfl
  · split <;> rfl

/-- The three response branches, each with the stage it selects. The DATA
branch alone looks at the sequence number. -/
theorem respond_inv {rsp : Rsp} {x : Stage} {ms : List Msg}
    (h : respond cs g rsp = some (x, ms)) :
    (rsp.cmd = startCmd ∧ x = stageOf .nextCmd rsp.stat)
      ∨ (rsp.cmd = dataCmd ∧ cs.seq rsp.seq0 rsp.seq1 = g.currentDataSeq
        ∧ x = stageOf .nextCmd rsp.stat)
      ∨ (rsp.cmd = dataCmd ∧ cs.seq rsp.seq0 rsp.seq1 ≠ g.currentDataSeq
        ∧ x = .errRetry)
      ∨ (rsp.cmd = finishCmd ∧ x = stageOf .complete rsp.stat) := by
  unfold respond at h
  split at h
  case isTrue hs =>
    refine Or.inl ⟨hs, ?_⟩
    rw [← byStatus_fst cs]
    exact (congrArg Prod.fst (Option.some.inj h)).symm
  case isFalse =>
    split at h
    case isTrue hd =>
      have hx : x = (respondData (cs.seq rsp.seq0 rsp.seq1)
          g.currentDataSeq (cs.promote rsp.stat) rsp.stat).1 :=
        (congrArg Prod.fst (Option.some.inj h)).symm
      by_cases hseq : cs.seq rsp.seq0 rsp.seq1 = g.currentDataSeq
      · rw [respondData, if_pos hseq, byStatus_fst] at hx
        exact Or.inr (Or.inl ⟨hd, hseq, hx⟩)
      · rw [respondData, if_neg hseq] at hx
        exact Or.inr (Or.inr (Or.inl ⟨hd, hseq, hx⟩))
    case isFalse =>
      split at h
      case isFalse => cases h
      case isTrue hf =>
        refine Or.inr (Or.inr (Or.inr ⟨hf, ?_⟩))
        rw [← byStatus_fst cs]
        exact (congrArg Prod.fst (Option.some.inj h)).symm

/-- The lines of the response branches, none of which is a verdict or OTA
STOP. -/
inductive RspLine : Msg → Prop
  | noNeedUpdate : RspLine .noNeedUpdate
  | statusError (stat : UInt8) : RspLine (.statusError stat)
  | seqMismatch : RspLine .seqMismatch
  | rspSeq (seq : BitVec 32) : RspLine (.rspSeq seq)

theorem byStatus_lines (on : Stage) (status : BitVec 32) (stat : UInt8) :
    ∀ m ∈ (byStatus on status stat).2, RspLine m := by
  intro m hm
  unfold byStatus at hm
  split at hm
  case isTrue => cases hm
  case isFalse =>
    split at hm
    case isTrue =>
      rw [List.mem_singleton.mp hm]
      exact .noNeedUpdate
    case isFalse =>
      rw [List.mem_singleton.mp hm]
      exact .statusError stat

theorem respond_lines {rsp : Rsp} {x : Stage} {ms : List Msg}
    (h : respond cs g rsp = some (x, ms)) : ∀ m ∈ ms, RspLine m := by
  simp only [respond] at h
  split at h
  case isTrue =>
    rw [← show _ = ms from congrArg Prod.snd (Option.some.inj h)]
    exact byStatus_lines _ _ _
  case isFalse =>
    split at h
    case isTrue =>
      rw [← show _ = ms from congrArg Prod.snd (Option.some.inj h)]
      intro m hm
      rcases List.mem_append.mp hm with hm | hm
      · split at hm
        · rw [List.mem_singleton.mp hm]
          exact .rspSeq _
        · cases hm
      · unfold respondData at hm
        split at hm
        · exact byStatus_lines _ _ _ m hm
        · rw [List.mem_singleton.mp hm]
          exact .seqMismatch
    case isFalse =>
      split at h
      case isFalse => cases h
      case isTrue =>
        rw [← show _ = ms from congrArg Prod.snd (Option.some.inj h)]
        exact byStatus_lines _ _ _

/-- None of them is a verdict. -/
theorem respond_quiet {rsp : Rsp} {x : Stage} {ms : List Msg}
    (h : respond cs g rsp = some (x, ms)) : ∀ m ∈ ms, m.quiet = true := by
  intro m hm
  cases respond_lines h m hm with
  | noNeedUpdate | statusError | seqMismatch | rspSeq => rfl

variable {pc pc' : RPc} {j : RIn}

/-- The reader moves the mailbox by its store alone, and then it logs the
store with the response. -/
theorem RStep.otaStage (h : RStep cs g pc j g' pc' es) :
    (∃ x, pc = .store x ∧ j = .tick ∧ g'.otaStage = x
        ∧ es = [.stored x g.rspCmd])
      ∨ g'.otaStage = g.otaStage := by
  cases h with
  | store hpc => exact Or.inl ⟨_, hpc, rfl, rfl, rfl⟩
  | _ => exact Or.inr rfl

/-- The reader leaves the packet and its number alone, so they are the
sender's in every interleaving. -/
theorem RStep.frame (h : RStep cs g pc j g' pc' es) :
    g'.totalCmdNum = g.totalCmdNum
      ∧ g'.currentDataSeq = g.currentDataSeq := by
  cases h <;> exact ⟨rfl, rfl⟩

/-- Only ota_update jumps, times out and writes packets, whatever hidRead
does. -/
theorem RStep.fromSender (h : RStep cs g pc j g' pc' es) :
    ∀ e ∈ es, e.fromSender = false := by
  intro e he
  cases h with
  | report hpc r hrid | stray hpc r hrid =>
      rcases List.mem_cons.mp he with rfl | he
      · rfl
      · rw [Shared.mem_verbose he]; rfl
  | decide hpc hx =>
      obtain ⟨m, -, rfl⟩ := List.mem_map.mp he
      rfl
  | _ => simp_all [Event.fromSender]

end BtOta
