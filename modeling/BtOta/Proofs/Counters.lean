/-
The counters ota_update keeps along the chain of records.

`num1` counts DATA records, `num2` is the percentage logged last, and
`remain_data_len` is what is left of the file. Each of them changes where
a DATA record is built and nowhere else, so whatever the device answers
they are functions of how far the session is along the chain
(`CountersInv`), and the lines logged are 1, 2, 3 and so on up to `num2`.
Their state at a transmission is therefore the same at every
transmission of one packet.

How the percentage follows the records is `Ratchet`'s business: the
target is the quotient the code computes, one tick is one DATA record.
-/
import BtOta.Proofs.Laps
import BtOta.Proofs.Verdict
import BtOta.Lib.Ratchet

namespace BtOta

open EventLog

-- ================================================================ vocabulary

instance (fw : Nat → UInt8) (n : Nat) : Decidable (IsData fw n) :=
  inferInstanceAs (Decidable (_ = _))

/-- The DATA records among the first `n`. -/
def dataCount (fw : Nat → UInt8) : Nat → Nat
  | 0 => 0
  | n + 1 => dataCount fw n + if IsData fw n then 1 else 0

/-- Their lengths, added up. -/
def dataBytes (fw : Nat → UInt8) : Nat → Nat
  | 0 => 0
  | n + 1 =>
      dataBytes fw n + if IsData fw n then lenAt fw (cursor fw n) else 0

/-- `num1*649*100/fw_data_len`. -/
def ratio (len num1 : Nat) : Int :=
  (int32 (num1 * dataCmdLen * 100)).tdiv len

/-- `num2` behind `k` DATA records, which the counter follows one record
at a time, up to 100. -/
def percentAfter (len k : Nat) : Nat := Ratchet.value (ratio len) 100 k

/-- The percentage of a progress line. -/
def Event.percent? : Event → Option Nat
  | .log (.writeData percent) => some percent
  | _ => none

/-- The percentages logged so far, oldest first. -/
def percentsOf (trace : List Event) : List Nat :=
  trace.filterMap Event.percent?

/-- The progress line is due at a record. -/
def LineDue (len num1 num2 : Nat) (data : Prop) : Prop :=
  data ∧ (num2 : Int) ≤ ratio len num1 ∧ num2 < 100

instance (len num1 num2 : Nat) (data : Prop) [Decidable data] :
    Decidable (LineDue len num1 num2 data) :=
  inferInstanceAs (Decidable (_ ∧ _))

/-- The first packets, up to a number, have been transmitted, each at
least once. -/
def SentUpTo (n : Nat) (trace : List Event) : Prop :=
  ∀ k, 1 ≤ k → k ≤ n → ∃ packet, (k, packet) ∈ sentOf trace

/-- Where a packet was transmitted, the percentages logged before are
those of the DATA records up to it. -/
def LinesAt (fw : Nat → UInt8) (len : Nat) (before : List Event)
    (e : Event) : Prop :=
  ∀ k packet, e = .tx k packet →
    percentsOf before
      = List.range' 1 (percentAfter len (dataCount fw k))

/-- Where a percentage was logged, it was due, and all records before
the one that logged it had been transmitted. -/
def LoggedAt (fw : Nat → UInt8) (len total : Nat) (before : List Event)
    (e : Event) : Prop :=
  ∀ p, e.percent? = some p → ∃ n, n < total
    ∧ p = percentAfter len (dataCount fw n) + 1
    ∧ (percentAfter len (dataCount fw n) : Int)
        ≤ ratio len (dataCount fw n)
    ∧ SentUpTo n before

/-- The packet begun last has been transmitted, as far as the place in
the loop shows it. -/
def SPc.settled (pc : SPc) : Bool := pc.tried || pc.succeeding

/-- The counters of a session that goes along the chain: each is a
function of how many records have been built. -/
structure CountersInv (fw : Nat → UInt8) (len : Nat) (s : Session) :
    Prop where
  num1 : s.g.num1 = dataCount fw s.g.totalCmdNum
  num2 : s.g.num2 = percentAfter len s.g.num1
  remain : s.snd.remainDataLen = len - dataBytes fw s.g.totalCmdNum
  lines : percentsOf s.trace = List.range' 1 s.g.num2
  sent : SentUpTo (s.g.totalCmdNum - 1) s.trace
  last : s.snd.pc.settled = true → SentUpTo s.g.totalCmdNum s.trace
  tx : Always (LinesAt fw len) s.trace
  logged : Always (LoggedAt fw len s.g.totalCmdNum) s.trace

variable {cs : CharSign} {g g' : Shared} {l l' : Sender} {es : List Event}
  {i : SIn} {s s' : Session} {fw : Nat → UInt8} {len : Nat}

-- ================================================================= the lines

theorem percentsOf_append (xs ys : List Event) :
    percentsOf (xs ++ ys) = percentsOf xs ++ percentsOf ys :=
  List.filterMap_append

theorem percentsOf_eq_nil (h : ∀ e ∈ es, e.percent? = none) :
    percentsOf es = [] :=
  List.filterMap_eq_nil_iff.mpr h

theorem percentsOf_verbose {m : Msg} (hm : (Event.log m).percent? = none) :
    percentsOf (g.verbose m) = [] := by
  apply percentsOf_eq_nil
  intro e he
  rw [Shared.mem_verbose he]
  exact hm

theorem percentsOf_startLog (cmd : UInt8) : percentsOf (startLog cmd) = [] := by
  unfold startLog
  split <;> rfl

theorem percentsOf_finishPart (cmd : UInt8) :
    percentsOf (finishPart g cmd).2 = [] := by
  unfold finishPart
  split <;> rfl

theorem mem_percentsOf {e : Event} {p : Nat} (he : e ∈ es)
    (hp : e.percent? = some p) : p ∈ percentsOf es :=
  List.mem_filterMap.mpr ⟨e, he, hp⟩

theorem SentUpTo.append {n : Nat} {trace : List Event}
    (h : SentUpTo n trace) (es : List Event) : SentUpTo n (trace ++ es) := by
  intro k hpos hle
  obtain ⟨packet, hmem⟩ := h k hpos hle
  refine ⟨packet, ?_⟩
  rw [sentOf_append]
  exact List.mem_append_left _ hmem

-- ================================================================ one record

/-- What the progress test does, once it divides. -/
theorem progress_spec {num1 num2 num2' : Nat} {ms : List Msg}
    (h : progress num1 num2 len = some (num2', ms)) :
    num2' = (if LineDue len num1 num2 True then num2 + 1 else num2)
      ∧ percentsOf (ms.map .log)
        = if LineDue len num1 num2 True then [num2 + 1] else [] := by
  unfold progress at h
  split at h
  case isTrue => cases h
  case isFalse =>
    split at h
    case isTrue hup =>
      have hdue : LineDue len num1 num2 True :=
        ⟨trivial, hup.1, Nat.lt_succ_of_le hup.2⟩
      cases h
      exact ⟨(if_pos hdue).symm, (if_pos hdue).symm⟩
    case isFalse hup =>
      have hdue : ¬ LineDue len num1 num2 True := fun hdue =>
        hup ⟨hdue.2.1, Nat.le_of_lt_succ hdue.2.2⟩
      cases h
      exact ⟨(if_neg hdue).symm, (if_neg hdue).symm⟩

/-- What building a packet does to the counters, in terms of whether the
record is a DATA record. -/
structure Counted (g : Shared) (l : Sender) (g' : Shared) (remain : Int)
    (es : List Event) (data : Prop) [Decidable data] : Prop where
  num1 : g'.num1 = g.num1 + if data then 1 else 0
  num2 : g'.num2 = if LineDue l.fwDataLen g.num1 g.num2 data
    then g.num2 + 1 else g.num2
  remain : remain = l.remainDataLen - if data then (l.nextLen : Int) else 0
  lines : percentsOf es = if LineDue l.fwDataLen g.num1 g.num2 data
    then [g.num2 + 1] else []

theorem dataPart_counted {remain : Int}
    (h : dataPart cs g l = some (g', remain, es)) :
    Counted g l g' remain es ((l.filled cs).cmdBuf 5 = dataCmd) := by
  simp only [dataPart] at h
  split at h
  case isFalse hd =>
    have hdue : ¬ LineDue l.fwDataLen g.num1 g.num2
        ((l.filled cs).cmdBuf 5 = dataCmd) := fun hdue => hd hdue.1
    cases h
    refine ⟨?_, (if_neg hdue).symm, ?_, (if_neg hdue).symm⟩
    · rw [if_neg hd, Nat.add_zero]
    · rw [if_neg hd, Int.sub_zero]
  case isTrue hd =>
    obtain ⟨⟨num2, ms⟩, hprog, hx⟩ := Option.map_eq_some_iff.mp h
    obtain ⟨hnum2, hlines⟩ := progress_spec hprog
    have hdue : LineDue l.fwDataLen g.num1 g.num2
          ((l.filled cs).cmdBuf 5 = dataCmd)
        ↔ LineDue l.fwDataLen g.num1 g.num2 True := by
      unfold LineDue
      rw [eq_true hd]
    cases hx
    refine ⟨by rw [if_pos hd], ?_, by rw [if_pos hd], ?_⟩
    · simp only [hdue]
      exact hnum2
    · simp only [hdue]
      rw [percentsOf_append, percentsOf_verbose rfl]
      exact hlines

/-- `num2` behind the record is again what the number of DATA records
makes it. -/
theorem Counted.percent {remain : Int} {data : Prop} [Decidable data]
    (h : Counted g l g' remain es data)
    (hnum2 : g.num2 = percentAfter len g.num1) (hlen : l.fwDataLen = len) :
    g'.num2 = percentAfter len g'.num1 := by
  rw [h.num2, h.num1, hlen, hnum2]
  by_cases hd : data
  · have hdue : LineDue len g.num1 (percentAfter len g.num1) data
        ↔ (percentAfter len g.num1 : Int) ≤ ratio len g.num1
          ∧ percentAfter len g.num1 < 100 := and_iff_right hd
    rw [if_pos hd]
    simp only [hdue]
    rfl
  · rw [if_neg hd, if_neg fun hdue => hd hdue.1]
    rfl

/-- A percentage that is logged was due. -/
theorem Counted.due {remain : Int} {data : Prop} [Decidable data]
    {e : Event} {p : Nat} (h : Counted g l g' remain es data) (he : e ∈ es)
    (hp : e.percent? = some p) :
    p = g.num2 + 1 ∧ LineDue l.fwDataLen g.num1 g.num2 data := by
  have hmem := mem_percentsOf he hp
  rw [h.lines] at hmem
  split at hmem
  case isTrue hdue => exact ⟨List.mem_singleton.mp hmem, hdue⟩
  case isFalse => cases hmem

/-- Over a cleared `cmd_buf` the test is on the record's own byte, and no
byte of an earlier packet is in it. -/
theorem counted_of_some (h : assemble cs g l = some (g', l', es))
    (hclear : l.cmdBuf = fun _ => 0) :
    Counted g l g' l'.remainDataLen es
      ((recordAt l.fwDataBuf l.nextIdx l.nextLen).getD 5 0 = dataCmd) := by
  have hcmd : (l.filled cs).cmdBuf 5
      = (recordAt l.fwDataBuf l.nextIdx l.nextLen).getD 5 0 := by
    rw [Sender.filled, hclear, fill_getD]
  obtain ⟨-, g₁, remain, es₁, hdata, rfl, rfl, rfl⟩ := parts_of_assemble h
  have hc := dataPart_counted hdata
  simp only [hcmd] at hc
  obtain ⟨hg', -⟩ := finishPart_spec
    { g₁ with totalCmdNum := g₁.totalCmdNum + 1 }
    ((l.advance cs).cmdBuf 5)
  refine ⟨?_, ?_, hc.remain, ?_⟩
  · exact (congrArg Shared.num1 hg').trans hc.num1
  · exact (congrArg Shared.num2 hg').trans hc.num2
  · rw [percentsOf_append, percentsOf_append, percentsOf_startLog,
      percentsOf_finishPart, List.append_nil]
    exact hc.lines

/-- The other moves leave the counters alone, and log no percentage: only
building a packet counts. -/
theorem SStep.counters (h : SStep cs g l i g' l' es)
    (hopened : l.pc ≠ .init ∧ l.pc ≠ .load) (hpc : l.pc ≠ .assemble) :
    g'.num1 = g.num1 ∧ g'.num2 = g.num2
      ∧ l'.remainDataLen = l.remainDataLen ∧ percentsOf es = [] := by
  cases h with
  | init pc => exact absurd pc hopened.1
  | openFail pc | opened pc | openOver pc => exact absurd pc hopened.2
  | assemble pc | crash pc => exact absurd pc hpc
  | created pc ret | retry pc hlt =>
      refine ⟨rfl, rfl, rfl, ?_⟩
      split <;> rfl
  | wrote pc res hres =>
      refine ⟨rfl, rfl, rfl, ?_⟩
      rw [percentsOf_append, percentsOf_append, percentsOf_verbose rfl,
        percentsOf_verbose rfl]
      rfl
  | writeFail pc res hres =>
      refine ⟨rfl, rfl, rfl, ?_⟩
      rw [percentsOf_append, percentsOf_verbose rfl]
      rfl
  | @verdict v pc =>
      refine ⟨rfl, rfl, rfl, ?_⟩
      cases v <;> rfl
  | next | newStage | giveUp | poll | timeout | nextHit | nextMiss | errHit
  | errMiss | completeHit | completeMiss | flag | stop | quitThread
  | quitServ => exact ⟨rfl, rfl, rfl, rfl⟩

/-- A step that logs no percentage and begins no packet. -/
theorem CountersInv.still (hi : CountersInv fw len s)
    (hnum1 : s'.g.num1 = s.g.num1) (hnum2 : s'.g.num2 = s.g.num2)
    (htotal : s'.g.totalCmdNum = s.g.totalCmdNum)
    (hremain : s'.snd.remainDataLen = s.snd.remainDataLen)
    (htrace : s'.trace = s.trace ++ es) (hnone : percentsOf es = [])
    (hlast : s'.snd.pc.settled = true →
      SentUpTo s.g.totalCmdNum (s.trace ++ es))
    (htx : Always (LinesAt fw len) (s.trace ++ es)) :
    CountersInv fw len s' where
  num1 := by
    rw [hnum1, htotal]
    exact hi.num1
  num2 := by
    rw [hnum1, hnum2]
    exact hi.num2
  remain := by
    rw [hremain, htotal]
    exact hi.remain
  lines := by
    rw [htrace, percentsOf_append, hnone, List.append_nil, hnum2]
    exact hi.lines
  sent := by
    rw [htrace, htotal]
    exact hi.sent.append es
  last := by
    rw [htrace, htotal]
    exact hlast
  tx := htrace ▸ htx
  logged := by
    rw [htrace, htotal]
    refine hi.logged.append_of fun e he before p hp => ?_
    have hmem := mem_percentsOf he hp
    rw [hnone] at hmem
    cases hmem

/-- Where a packet is built, or its assembly has no meaning. -/
theorem SStep.at_assemble (h : SStep cs g l i g' l' es)
    (hpc : l.pc = .assemble) :
    (∃ l₁, BtOta.assemble cs g l = some (g', l₁, es)
        ∧ l' = { l₁ with pc := .retry })
      ∨ g' = g ∧ l' = { l with pc := .undefined } ∧ es = [] := by
  cases h with
  | assemble pc hasm => exact Or.inl ⟨_, hasm, rfl⟩
  | crash => exact Or.inr ⟨rfl, rfl, rfl⟩
  | init pc | openFail pc | opened pc | openOver pc | created pc | next pc
  | newStage pc | retry pc | giveUp pc | wrote pc | writeFail pc | poll pc
  | timeout pc | nextHit pc | nextMiss pc | errHit pc | errMiss pc
  | completeHit pc | completeMiss pc | flag pc | verdict pc | stop pc
  | quitThread pc | quitServ pc => cases hpc.symm.trans pc

/-- The percentages before a transmission are those of its packet, since
no percentage is logged between building it and sending it. -/
theorem CountersInv.tx_send (hi : CountersInv fw len s)
    (h : SStep cs s.g s.snd i g' l' es) (hnone : percentsOf es = []) :
    Always (LinesAt fw len) (s.trace ++ es) := by
  refine always_append.mpr ⟨hi.tx, ?_⟩
  intro before e after hes k packet he
  subst he
  have htx : .tx k packet ∈ es := by
    rw [hes]
    exact List.mem_append_cons_self
  have htotal : k = s.g.totalCmdNum := by
    cases h.event htx with
    | quiet hq => cases hq
    | tx => rfl
  have hbefore : percentsOf before = [] := by
    rw [hes, percentsOf_append] at hnone
    exact (List.append_eq_nil_iff.mp hnone).1
  rw [percentsOf_append, hbefore, List.append_nil, hi.lines, hi.num2,
    hi.num1, htotal]

/-- What has been transmitted once the sender has moved: a settled sender
has sent the packet begun last. -/
theorem CountersInv.last_send (hi : CountersInv fw len s)
    (hopened : s.snd.pc ≠ .init ∧ s.snd.pc ≠ .load)
    (h : SStep cs s.g s.snd i g' l' es)
    (htotal : g'.totalCmdNum = s.g.totalCmdNum)
    (hsettled : l'.pc.settled = true) :
    SentUpTo s.g.totalCmdNum (s.trace ++ es) := by
  have hmoved : l'.pc.tried = true ∨ l'.pc.succeeding = true := by
    simpa [SPc.settled] using hsettled
  have hlast : s.snd.pc.settled = true →
      SentUpTo s.g.totalCmdNum (s.trace ++ es) := fun hs =>
    (hi.last hs).append es
  rcases h.tally hopened with
    ⟨-, -, -, -, hsent⟩ | ⟨-, -, -, hnew, -⟩ | hstill
  · -- the packet held is written now
    intro k hpos hle
    by_cases hk : k = s.g.totalCmdNum
    · refine ⟨s.snd.packet, ?_⟩
      rw [sentOf_append, hsent, hk]
      exact List.mem_append_right _ (List.mem_singleton_self _)
    · exact hi.sent.append es k hpos (by omega)
  · omega
  · rcases hmoved with htried | hsucc
    · apply hlast
      rw [SPc.settled, hstill.tried htried]
      rfl
    · rcases h.succeeding hsucc with hwas | ⟨hpc, -⟩
      · apply hlast
        rw [SPc.settled, hwas, Bool.or_true]
      · apply hlast
        rw [hpc]
        rfl

/-- A packet is built: the counters follow the chain by one record. -/
theorem CountersInv.build {l₁ : Sender} (hi : CountersInv fw len s)
    (hchain : ChainInv cs fw len s) (hpc : s.snd.pc = .assemble)
    (hasm : assemble cs s.g s.snd = some (g', l₁, es))
    (rdr : Option RPc) :
    CountersInv fw len
      { g := g', snd := { l₁ with pc := .retry }, rdr := rdr
        trace := s.trace ++ es } := by
  have ha := assembled_of_some hasm
  -- the buffer is empty here, so the record's type is read from the file and
  -- not from a leftover
  have hclear := (hchain.seq.cleared (by rw [hpc]; rfl)).2
  have hc : Counted s.g s.snd g' l₁.remainDataLen es
      (IsData fw s.g.totalCmdNum) := by
    have h := counted_of_some hasm hclear
    rw [hchain.recordAt] at h
    exact h
  have hsent : SentUpTo s.g.totalCmdNum s.trace :=
    hi.last (by rw [hpc]; rfl)
  refine
    { num1 := ?_, num2 := hc.percent hi.num2 hchain.fwLen
      remain := ?_, lines := ?_
      sent := by rw [ha.total]; exact hsent.append es
      last := nofun, tx := ?_, logged := ?_ }
  · dsimp only
    rw [hc.num1, hi.num1, ha.total]
    rfl
  · dsimp only
    rw [hc.remain, hi.remain, ha.total, hchain.nextLen, dataBytes]
    split
    case isTrue => omega
    case isFalse => omega
  · dsimp only
    rw [percentsOf_append, hi.lines, hc.lines, hc.num2]
    split
    case isTrue =>
      rw [List.range'_concat, Nat.one_mul, Nat.add_comm 1]
    case isFalse => rw [List.append_nil]
  · refine hi.tx.append_of fun e he before k packet hk => ?_
    subst hk
    cases ha.quiet _ he
  · dsimp only
    rw [ha.total]
    refine always_append.mpr ⟨fun before e after heq p hp => ?_, ?_⟩
    · obtain ⟨n, hn, hrest⟩ := hi.logged before e after heq p hp
      exact ⟨n, Nat.lt_succ_of_lt hn, hrest⟩
    · intro before e after hes p hp
      -- a percentage logged in this step is the one `Counted` says is due
      have he : e ∈ es := by
        rw [hes]
        exact List.mem_append_cons_self
      obtain ⟨rfl, hdue⟩ := hc.due he hp
      rw [hchain.fwLen] at hdue
      refine ⟨s.g.totalCmdNum, Nat.lt_succ_self _, ?_, ?_,
        hsent.append before⟩
      -- what the packets before this one have made of the counters
      · rw [hi.num2, hi.num1]
      · rw [← hi.num1, ← hi.num2]
        exact hdue.2.1

theorem CountersInv.send (hi : CountersInv fw len s)
    (hchain : ChainInv cs fw len s) (h : SStep cs s.g s.snd i g' l' es)
    (rdr : Option RPc) :
    CountersInv fw len
      { g := g', snd := l', rdr := rdr, trace := s.trace ++ es } := by
  by_cases hpc : s.snd.pc = .assemble
  · rcases h.at_assemble hpc with ⟨l₁, hasm, rfl⟩ | ⟨rfl, rfl, rfl⟩
    · exact hi.build hchain hpc hasm rdr
    · refine hi.still rfl rfl rfl rfl rfl rfl nofun ?_
      rw [List.append_nil]
      exact hi.tx
  · obtain ⟨hnum1, hnum2, hremain, hnone⟩ := h.counters hchain.opened hpc
    have htotal : g'.totalCmdNum = s.g.totalCmdNum := by
      rcases h.tally hchain.opened with
        ⟨-, -, -, htotal, -⟩ | ⟨hasm, -⟩ | hstill
      · exact htotal
      · exact absurd hasm hpc
      · exact hstill.total
    exact hi.still hnum1 hnum2 htotal hremain rfl hnone
      (hi.last_send hchain.opened h htotal) (hi.tx_send h hnone)

/-- hidRead logs no percentage. -/
theorem RStep.percentsOf {pc pc' : RPc} {j : RIn}
    (h : RStep cs g pc j g' pc' es) :
    g'.num1 = g.num1 ∧ g'.num2 = g.num2 ∧ BtOta.percentsOf es = [] := by
  cases h with
  | report | stray =>
      refine ⟨rfl, rfl, ?_⟩
      exact percentsOf_verbose rfl
  | decide hpc hx =>
      refine ⟨rfl, rfl, percentsOf_eq_nil fun e he => ?_⟩
      obtain ⟨m, hm, rfl⟩ := List.mem_map.mp he
      cases respond_lines hx m hm with
      | noNeedUpdate | statusError | seqMismatch | rspSeq => rfl
  | readFail | enter | leave | ignore | store | failFlag | failLog
  | failStop => exact ⟨rfl, rfl, rfl⟩

theorem CountersInv.read {pc pc' : RPc} {j : RIn}
    (hi : CountersInv fw len s) (h : RStep cs s.g pc j g' pc' es) :
    CountersInv fw len
      { s with g := g', rdr := some pc', trace := s.trace ++ es } := by
  obtain ⟨hnum1, hnum2, hnone⟩ := h.percentsOf
  refine hi.still hnum1 hnum2 h.frame.1 rfl rfl hnone
    (fun hs => (hi.last hs).append es) ?_
  refine hi.tx.append_of fun e he before k packet hk => ?_
  subst hk
  cases h.fromSender _ he

/-- The counters in every state of a run, whatever the responses and
however often a packet is sent again. -/
theorem CountersInv.of_reach {ok : Session → Act → Prop} {g₀ : Shared}
    {param2 : Option String} {stack : Nat → UInt8} {file : List UInt8}
    (h : Lts.Reach (Session.step cs) ok
      (Session.start g₀ param2 stack file) s) :
    CountersInv (loadedBuf stack file) file.length s := by
  refine h.invariant₂ (fun s hr => ChainInv.of_reach hr) ?_ ?_
  · have hempty : ∀ trace, SentUpTo 0 trace := fun trace k hpos hle =>
      absurd hpos (by omega)
    have hlines : percentsOf (Session.start g₀ param2 stack file).trace
        = [] := by
      show percentsOf (_ ++ _) = []
      rw [percentsOf_append, percentsOf_verbose rfl]
      rfl
    refine
      { num1 := rfl, num2 := rfl, remain := (Int.sub_zero _).symm
        lines := hlines, sent := hempty _, last := fun _ => hempty _
        tx := ?_, logged := ?_ }
    · refine (always_nil _).append_of fun e he before k packet hk => ?_
      obtain ⟨m, rfl⟩ := Session.start_log g₀ param2 stack file he
      cases hk
    · refine (always_nil _).append_of fun e he before p hp => ?_
      have hmem : p ∈ percentsOf (Session.start g₀ param2 stack file).trace :=
        mem_percentsOf he hp
      rw [hlines] at hmem
      cases hmem
  · intro s a s' hchain hi _ hs
    cases Session.step_inv hs with
    | send hm => exact hi.send hchain hm _
    | read hrdr hm => exact hi.read hm

end BtOta
