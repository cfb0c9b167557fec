/-
What the threads share, and the record a run leaves of itself.

`Shared` holds the file-scope variables of hidserv.c that `ota_update`
and `hidRead` read and write. Each step of a thread makes at most one
access to a variable the other thread also uses, so an interleaving of
steps is an interleaving of those accesses.

`Event` is instrumentation: the log lines the code writes, and the
points of a run that properties speak of (a packet handed to the
channel, a report read from it, a `goto`, a store to `OTAStage`). No
step reads the events back.
-/
import BtOta.Define

namespace BtOta

/-- `rsp_cmd`, by the names of its fields. The fields are bytes; what
`char` makes of them is up to who reads them. -/
structure Rsp where
  rid : UInt8
  datatp : UInt8
  cmd : UInt8
  seq0 : UInt8
  seq1 : UInt8
  stat : UInt8
  deriving DecidableEq, Repr

/-- `rsp_cmd[index] = buf[index+1]` over `buf`, zero-filled before the
read: the bytes a short report leaves out are zero. -/
def Rsp.ofReport (report : List UInt8) : Rsp where
  rid := report.getD 1 0
  datatp := report.getD 2 0
  cmd := report.getD 3 0
  seq0 := report.getD 4 0
  seq1 := report.getD 5 0
  stat := report.getD 6 0

/-- The six bytes, as the verbose dump prints them. -/
def Rsp.bytes (rsp : Rsp) : List UInt8 :=
  [rsp.rid, rsp.datatp, rsp.cmd, rsp.seq0, rsp.seq1, rsp.stat]

/-- The static variables of hidserv.c that a session uses. They outlive
it: the next session begins with what this one left. -/
structure Shared where
  flagRead : Bool
  otaStatus : BitVec 32
  otaStage : Stage
  currentDataSeq : BitVec 32
  rspCmd : Rsp
  isFinishCmd : Bool
  isVerboseLog : Bool
  totalCmdNum : Nat
  num1 : Nat
  num2 : Nat
  deriving Repr

/-- The static variables when the library is loaded: all zero, as C has
it for statics, and 0 is STAGE_START. -/
def Shared.loaded : Shared where
  flagRead := false
  otaStatus := 0
  otaStage := .start
  currentDataSeq := 0
  rspCmd := ⟨0, 0, 0, 0, 0, 0⟩
  isFinishCmd := false
  isVerboseLog := false
  totalCmdNum := 0
  num1 := 0
  num2 := 0

/-- The `goto` labels of ota_update. A jump is how a decision of the
sender shows in the log. -/
inductive Label
  /-- `FLAG_SNED_NEXT_CMD` -/
  | nextCmd
  /-- `FLAG_RETRY_CMD` -/
  | retryCmd
  /-- `FLAG_OTA_FAIL` -/
  | otaFail
  /-- `FLAG_OTA_SUCCESS` -/
  | otaSuccess
  deriving DecidableEq, Repr

/-- What happened, in the order it happened. Packets are numbered by
`total_cmd_num`, which says which record they were made of. -/
inductive Event
  /-- a line written to the log -/
  | log (m : Msg)
  /-- ota_update took this `goto` while packet `k` was the last one
  assembled -/
  | goto (l : Label) (k : Nat)
  /-- a wait loop of packet `k` ran out of `OTA_WAIT_TIME` polls -/
  | timeout (k : Nat)
  /-- packet `k` was written to the interrupt channel -/
  | tx (k : Nat) (packet : List UInt8)
  /-- hidRead read a report from the interrupt channel -/
  | report (bytes : List UInt8)
  /-- hidRead stored `OTAStage` because of the response -/
  | stored (x : Stage) (rsp : Rsp)
  deriving DecidableEq, Repr

/-- A line written only when `isVerboseLog` is set: one event, or none.
-/
def Shared.verbose (g : Shared) (m : Msg) : List Event :=
  if g.isVerboseLog then [.log m] else []

theorem Shared.mem_verbose {g : Shared} {m : Msg} {e : Event}
    (he : e ∈ g.verbose m) : e = .log m := by
  unfold verbose at he
  split at he
  · simpa using he
  · cases he

/-- The event is the jump to FLAG_OTA_SUCCESS. -/
def Event.succeeds : Event → Bool
  | .goto .otaSuccess _ => true
  | _ => false

/-- The packet an event puts on the channel, with its number. -/
def Event.sent? : Event → Option (Nat × List UInt8)
  | .tx k packet => some (k, packet)
  | _ => none

/-- The packets written so far, oldest first, with their numbers: what
the device can have seen at most. -/
def sentOf (trace : List Event) : List (Nat × List UInt8) :=
  trace.filterMap Event.sent?

end BtOta
