/-
What a log says of packets and responses: which packet is outstanding,
which responses belong to it, what was known when a report was read,
and whether an acknowledgement waits to be seen.

Each notion is a function of the events alone, so a property that uses
it judges a run from outside, whatever the threads believe.
-/
import BtOta.Event
import BtOta.Lib.EventLog

namespace BtOta

/-- A response belongs to a packet: it names the packet's command, and
for DATA the packet's sequence field. -/
def belongs (packet : List UInt8) (rsp : Rsp) : Bool :=
  rsp.cmd == packet.getD 5 0
    && (rsp.cmd != dataCmd
      || (rsp.seq0 == packet.getD 6 0 && rsp.seq1 == packet.getD 7 0))

-- ===================================================== outstanding packet

/-- How one event moves the outstanding packet: a transmission sets it,
and leaving for the next packet or for the end clears it. -/
def outStep : Option (List UInt8) → Event → Option (List UInt8)
  | _, .tx _ packet => some packet
  | o, .goto .retryCmd _ => o
  | _, .goto _ _ => none
  | o, _ => o

/-- The packet transmitted last, as long as the sender has not left it
for the next one or for the end of the session. -/
def outstanding (trace : List Event) : Option (List UInt8) :=
  trace.foldl outStep none

/-- A response belongs to the packet outstanding; with none outstanding,
no response does. -/
def forOutstanding (trace : List Event) (rsp : Rsp) : Bool :=
  match outstanding trace with
  | some packet => belongs packet rsp
  | none => false

/-- A FINISH record has been transmitted. Only from here on can a FINISH
response be an answer. -/
def finishSent (trace : List Event) : Bool :=
  (sentOf trace).any fun t => t.2.getD 5 0 == finishCmd

-- ========================================================= report by report

/-- One event's effect on the log as it was when the latest report was
read; the first component is the log so far. -/
def reportStep :
    List Event × List Event → Event → List Event × List Event
  | (log, _), .report r => (log ++ [.report r], log)
  | (log, before), e => (log ++ [e], before)

/-- The log as it was when the latest report was read. A response is
judged by what was known then, whenever it is acted on. -/
def beforeReport (trace : List Event) : List Event :=
  (trace.foldl reportStep ([], [])).2

/-- A completing response, read where it is due: a FINISH response with
SUCCESS once the FINISH record has been transmitted, or NO_NEED_UPDATE
for the packet outstanding. -/
def dueComplete (before : List Event) (rsp : Rsp) : Bool :=
  rsp.rid == 0x02
    && ((rsp.cmd == finishCmd && rsp.stat == 0 && finishSent before)
      || (rsp.stat == 2 && forOutstanding before rsp))

/-- The event is the reading of such a response, and not yet its being
acted on. -/
def readsDue (before : List Event) : Event → Bool
  | .report r => dueComplete before (Rsp.ofReport r)
  | _ => false

/-- Somewhere in the log such a response was read. This is what an
announced success has to rest on. -/
def Completed (trace : List Event) : Prop :=
  EventLog.Sometime (fun before e => readsDue before e = true) trace

instance (trace : List Event) : Decidable (Completed trace) :=
  inferInstanceAs (Decidable (EventLog.Sometime _ trace))

-- ================================================ acknowledgements pending

/-- The two stages that acknowledge a packet: the next command, and the
end of the session. -/
def Stage.acks : Stage → Bool
  | .nextCmd | .complete => true
  | _ => false

/-- One event's effect on the outstanding packet and on whether an
acknowledgement of it has been recorded that the sender has not acted
on. -/
def ackStep : Option (List UInt8) × Bool → Event →
    Option (List UInt8) × Bool
  | (o, pending), .stored x rsp =>
      (o, pending || (x.acks
        && match o with
          | some packet => belongs packet rsp
          | none => false))
  | (o, pending), .goto .retryCmd _ => (o, pending)
  | (_, _), .goto _ _ => (none, false)
  | (o, pending), e => (outStep o e, pending)

/-- An acknowledgement of the outstanding packet has been recorded, and
the sender still has that packet. -/
def ackPending (trace : List Event) : Bool :=
  (trace.foldl ackStep (none, false)).2

-- ============================================================== small facts

@[simp] theorem sentOf_append (tr es : List Event) :
    sentOf (tr ++ es) = sentOf tr ++ sentOf es := by
  simp [sentOf]

/-- The first component carries the log itself, so the pair can be folded
without looking back. -/
theorem foldl_reportStep_fst (tr : List Event) :
    ∀ log before, (tr.foldl reportStep (log, before)).1 = log ++ tr := by
  induction tr with
  | nil => simp
  | cons e tr ih =>
      intro log before
      cases e with
      | report r => simp [reportStep, ih]
      | _ => simp [reportStep, ih]

/-- Reading a report fixes what came before it, whatever an earlier
report had fixed. -/
@[simp] theorem beforeReport_report (tr : List Event) (r : List UInt8) :
    beforeReport (tr ++ [.report r]) = tr := by
  have h := foldl_reportStep_fst tr [] []
  rw [beforeReport, List.foldl_append]
  generalize tr.foldl reportStep ([], []) = p at h
  obtain ⟨log, before⟩ := p
  simpa [reportStep] using h

/-- Any other event leaves it as it was. -/
theorem beforeReport_snoc {e : Event} (tr : List Event)
    (he : ∀ r, e ≠ .report r) :
    beforeReport (tr ++ [e]) = beforeReport tr := by
  rw [beforeReport, beforeReport, List.foldl_append]
  generalize tr.foldl reportStep ([], []) = p
  obtain ⟨log, before⟩ := p
  cases e with
  | report r => exact absurd rfl (he r)
  | _ => rfl

theorem beforeReport_append {es : List Event} (tr : List Event)
    (hes : ∀ e ∈ es, ∀ r, e ≠ .report r) :
    beforeReport (tr ++ es) = beforeReport tr := by
  induction es generalizing tr with
  | nil => simp
  | cons e es ih =>
      rw [show tr ++ e :: es = (tr ++ [e]) ++ es by simp,
        ih (tr ++ [e]) fun e' he' => hes e' (List.mem_cons_of_mem e he'),
        beforeReport_snoc tr (hes e (List.mem_cons_self ..))]

/-- The fold that tracks acknowledgements tracks the outstanding packet
as well, so the two never disagree about which packet it is. -/
theorem foldl_ackStep_fst (tr : List Event) :
    ∀ o b, (tr.foldl ackStep (o, b)).1 = tr.foldl outStep o := by
  induction tr with
  | nil => simp
  | cons e tr ih =>
      intro o b
      rw [List.foldl_cons, List.foldl_cons, ← ih (outStep o e)
        (ackStep (o, b) e).2]
      congr 2
      cases e with
      | stored x rsp => rfl
      | goto l k => cases l <;> rfl
      | _ => rfl

/-- One more event: what is pending behind it depends on the outstanding
packet and on what was pending before it. -/
theorem ackPending_snoc (tr : List Event) (e : Event) :
    ackPending (tr ++ [e])
      = (ackStep (outstanding tr, ackPending tr) e).2 := by
  have hfst := foldl_ackStep_fst tr none false
  rw [ackPending, List.foldl_append, outstanding, ackPending, ← hfst]
  rfl

/-- A quiet stretch of the log leaves pending what was pending. -/
theorem ackPending_append {es : List Event} (tr : List Event)
    (hes : ∀ e ∈ es, ∀ o b, (ackStep (o, b) e).2 = b) :
    ackPending (tr ++ es) = ackPending tr := by
  induction es generalizing tr with
  | nil => simp
  | cons e es ih =>
      rw [show tr ++ e :: es = (tr ++ [e]) ++ es by simp,
        ih (tr ++ [e]) fun e' he' => hes e' (List.mem_cons_of_mem e he'),
        ackPending_snoc, hes e (List.mem_cons_self ..)]

end BtOta
