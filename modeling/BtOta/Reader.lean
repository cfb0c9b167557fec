/-
hidRead, the thread that turns reports into stores of `OTAStage`.

The reader leaves its mark on the session through `OTAStage` alone:
`respond` is the body of the three response branches, a function of the
response and of `current_data_seq`, and the store it decides on is a
step of its own, so that the sender may move between the comparison and
the store.

# What a step takes together

A report goes into `rsp_cmd` in one step, and is judged in one step:
`OTAStatus` is stored there and tested. Nobody but hidRead touches
either, so where one reader is alive at a time nothing can come between
the bytes, or between the store and the tests. Two at once share both
variables; `Proc` says what is left out then.

With the verbose log on, the dump of a report writes one NUL behind its
buffer (`Verbose`). The step goes on as if it had not.
-/
import BtOta.Event

namespace BtOta

/-- Where hidRead stands. What lies between two places touches at most
one variable that the sender touches too. -/
inductive RPc
  /-- `while (flagRead)` -/
  | test
  /-- `read(intr, buf, sizeof(buf))` -/
  | read
  /-- a report with the right RID is in `rsp_cmd` -/
  | decide
  /-- about to store `OTAStage` -/
  | store (x : Stage)
  /-- `FLAG_OTA_FAIL`: `flagRead = 0` -/
  | failFlag
  | failLog
  | failStop
  /-- the thread has returned -/
  | ended
  deriving DecidableEq, Repr

/-- What a reader step takes from outside: nothing, or the result of
`read` (`none` for a negative one). -/
inductive RIn
  | tick
  | got (report : Option (List UInt8))
  deriving DecidableEq, Repr

/-- The test on `OTAStatus` that the response branches make: the stage
to store and the line to log. -/
def byStatus (onSuccess : Stage) (otaStatus : BitVec 32) (stat : UInt8) :
    Stage × List Msg :=
  if otaStatus = success then (onSuccess, [])
  else if otaStatus = noNeedUpdate then (.complete, [.noNeedUpdate])
  else (.errRetry, [.statusError stat])

/-- The `START_CMD` branch. It asks for no sequence number, so any START
response is taken for an answer. -/
def respondStart (otaStatus : BitVec 32) (stat : UInt8) :
    Stage × List Msg :=
  byStatus .nextCmd otaStatus stat

/-- The `DATA_CMD` branch: the only one that checks that the response
belongs to the packet outstanding. -/
def respondData (rspSeq currentDataSeq otaStatus : BitVec 32)
    (stat : UInt8) : Stage × List Msg :=
  if rspSeq = currentDataSeq then byStatus .nextCmd otaStatus stat
  else (.errRetry, [.seqMismatch])

/-- The `FINISH_CMD` branch, which asks for no sequence number either. -/
def respondFinish (otaStatus : BitVec 32) (stat : UInt8) :
    Stage × List Msg :=
  byStatus .complete otaStatus stat

/-- The stage a response makes hidRead store, with the lines it logs;
`none` where the command is none of the three. -/
def respond (cs : CharSign) (g : Shared) (rsp : Rsp) :
    Option (Stage × List Msg) :=
  let otaStatus := cs.promote rsp.stat
  if rsp.cmd = startCmd then some (respondStart otaStatus rsp.stat)
  else if rsp.cmd = dataCmd then
    let rspSeq := cs.seq rsp.seq0 rsp.seq1
    let (x, ms) := respondData rspSeq g.currentDataSeq otaStatus rsp.stat
    some (x, (if g.isVerboseLog then [.rspSeq rspSeq] else []) ++ ms)
  else if rsp.cmd = finishCmd then
    some (respondFinish otaStatus rsp.stat)
  else none

/-- One step of hidRead: the new shared variables, where the thread
stands, and what it did. `none` where the step is not the thread's to
take. -/
def hidRead (cs : CharSign) (g : Shared) (pc : RPc) :
    RIn → Option (Shared × RPc × List Event)
  | .tick =>
      match pc with
      | .test => some (g, if g.flagRead then .read else .ended, [])
      | .decide =>
          let g' := { g with otaStatus := cs.promote g.rspCmd.stat }
          match respond cs g g.rspCmd with
          | some (x, ms) => some (g', .store x, ms.map .log)
          | none => some (g', .test, [])
      | .store x =>
          some ({ g with otaStage := x }, .test, [.stored x g.rspCmd])
      | .failFlag => some ({ g with flagRead := false }, .failLog, [])
      | .failLog => some (g, .failStop, [.log .otaFail])
      | .failStop => some (g, .ended, [.log .otaStop])
      | .read | .ended => none
  | .got res =>
      match pc with
      | .read =>
          match res with
          | none => some (g, .failFlag, [.log .readError])
          | some report =>
              let rsp := Rsp.ofReport report
              -- a report with another RID is dropped without a trace
              some ({ g with rspCmd := rsp },
                if rsp.rid = 0x02 then .decide else .test,
                .report report :: g.verbose (.dump rsp.bytes))
      | _ => none

end BtOta
