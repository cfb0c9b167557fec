/-
ota_update, the thread that sends the image packet by packet.

# Steps

A program counter stands wherever the source touches a variable that
hidRead also touches, or waits for the outside (fopen, pthread_create,
write). What lies between two such points is local and runs as one
step. The wait loop reads `OTAStage` up to three times per poll, so it
has three program counters of its own.

# Undefined behaviour

An index outside `fw_data_buf` or `cmd_buf`, and a division by a zero
`fw_data_len`, leave C without a meaning. The sender then stands at
`undefined` for good, and no step leads on from there. A progress
product too large for an `int` is taken to wrap (`int32`), as it does
on the build targets.

# Left out

`CRCRes` lives inside `assemble`; `tmp` is never used; the load loop is
the bytes fopen's result is read to, and the buffers of the verbose
dump, behind which each dump writes one NUL (`Verbose`), are not modelled
here, only its lines. quit_thread signals
`thread`, which nothing sets, and quit_serv closes the sockets: both
are the lines they log.
-/
import BtOta.Event
import Mathlib.Logic.Function.Basic

namespace BtOta

-- ============================================================== the state

/-- Which of the two ends a session comes to: FLAG_OTA_SUCCESS or
FLAG_OTA_FAIL. -/
inductive Verdict
  | fail | success
  deriving DecidableEq, Repr

/-- The line that announces a verdict. -/
def Verdict.msg : Verdict → Msg
  | .fail => .otaFail
  | .success => .otaEnd

/-- Where ota_update stands. Each place is before one access to a
variable hidRead uses, or before a call that waits for the outside. -/
inductive SPc
  /-- the initial stores, `flagRead = 1` among them -/
  | init
  /-- fopen and the load loop -/
  | load
  /-- pthread_create -/
  | create
  /-- `FLAG_SNED_NEXT_CMD`: `current_data_seq = 0` -/
  | next
  /-- `OTAStage = STAGE_NEW_CMD` -/
  | newStage
  /-- the packet is built in `cmd_buf` -/
  | assemble
  /-- `FLAG_RETRY_CMD`: `OTAStage = STAGE_RETRYING` -/
  | retry
  /-- hidWrite -/
  | write
  /-- `wait_count++` and its test -/
  | wait
  /-- `OTAStage == STAGE_NEXT_CMD` -/
  | pollNext
  /-- `OTAStage == STAGE_ERR_RETRY` -/
  | pollErr
  /-- `OTAStage == STAGE_COMPLETE` -/
  | pollComplete
  /-- `FLAG_OTA_FAIL` or `FLAG_OTA_SUCCESS`: `flagRead = 0` -/
  | flag (v : Verdict)
  /-- the verdict's line -/
  | verdict (v : Verdict)
  /-- the `OTA STOP` line -/
  | stop (v : Verdict)
  | quitThread (v : Verdict)
  | quitServ (v : Verdict)
  | returned (v : Verdict)
  | undefined
  deriving DecidableEq, Repr

/-- The local variables of one ota_update call. They keep their values
from packet to packet, but for what the loop resets. -/
structure Sender where
  pc : SPc
  param2 : Option String
  fwDataBuf : Nat → UInt8
  fwDataLen : Nat
  remainDataLen : Int
  sendCount : Nat
  waitCount : Nat
  currentCmdIdx : Nat
  currentCmdLen : Nat
  cmdBuf : Nat → UInt8

/-- A call about to run. The buffers hold what the stack held. -/
def Sender.call (param2 : Option String) (stack : Nat → UInt8) : Sender where
  pc := .init
  param2 := param2
  fwDataBuf := stack
  fwDataLen := 0
  remainDataLen := 0
  sendCount := 0
  waitCount := 0
  currentCmdIdx := 0
  currentCmdLen := 0
  cmdBuf := stack

/-- What the sender hands to hidWrite: `cmd_buf` up to the packet, its
checksum left off. -/
def Sender.packet (l : Sender) : List UInt8 :=
  (List.range (l.currentCmdLen + 1)).map l.cmdBuf

/-- What a sender step takes from outside: nothing, or the result of
fopen, of pthread_create or of write. -/
inductive SIn
  | tick
  /-- fopen's result, with the bytes the load loop reads -/
  | opened (file : Option (List UInt8))
  /-- pthread_create's result -/
  | created (ret : Int)
  /-- write's result -/
  | wrote (res : Int)
  deriving DecidableEq, Repr

-- ===================================================== initial stores

/-- `isVerboseLog` from `param2`. -/
def verboseArg : Option String → Bool
  | some param2 => param2 == "Y" || param2 == "y"
  | none => false

/-- The stores at the head of ota_update. `OTAStage`, `current_data_seq`
and `rsp_cmd` are none of them: a session finds these as the last one
left them. -/
def Shared.initVars (g : Shared) (param2 : Option String) : Shared :=
  { g with
    num1 := 0, num2 := 0, flagRead := true, isFinishCmd := false,
    isVerboseLog := verboseArg param2, totalCmdNum := 0 }

/-- The buffers once the file has been read: its bytes are in front, and
behind them what the stack held. -/
def Sender.load (l : Sender) (file : List UInt8) : Sender :=
  { l with
    fwDataBuf := fun i => file.getD i (l.fwDataBuf i)
    fwDataLen := file.length
    remainDataLen := file.length }

-- ================================================== building a packet

/-- `cmd_buf` and `CRCRes` while the fill loop runs. `CRCRes` is the
16-bit sum of the bytes as they promote. -/
structure Fill where
  cmdBuf : Nat → UInt8
  crcRes : BitVec 16

/-- One pass of the fill loop. -/
def fillStep (cs : CharSign) (fw : Nat → UInt8) (idx : Nat) (f : Fill)
    (i : Nat) : Fill :=
  let b := fw (idx + i)
  { cmdBuf := Function.update f.cmdBuf (i + 1) b
    crcRes := f.crcRes + (cs.promote b).setWidth 16 }

/-- `cmd_buf[0] = 0x52` and the fill loop, over a cleared `cmd_buf`. -/
def fill (cs : CharSign) (fw : Nat → UInt8) (idx len : Nat)
    (cmdBuf : Nat → UInt8) : Fill :=
  (List.range len).foldl (fillStep cs fw idx)
    { cmdBuf := Function.update cmdBuf 0 0x52, crcRes := 0 }

/-- The checksum stored behind the packet, which is not sent with it. -/
def storeCrc (f : Fill) (len : Nat) : Nat → UInt8 :=
  Function.update
    (Function.update f.cmdBuf (len + 1) (UInt8.ofBitVec (f.crcRes.setWidth 8)))
    (len + 1 + 1) (UInt8.ofBitVec ((f.crcRes >>> 8).setWidth 8))

/-- `num1*649*100/fw_data_len >= num2 && num2 <= 99`: the new `num2` and
the line it logs; `none` for the division by zero. -/
def progress (num1 num2 fwDataLen : Nat) : Option (Nat × List Msg) :=
  if fwDataLen = 0 then none
  else if (num2 : Int) ≤ (int32 (num1 * dataCmdLen * 100)).tdiv fwDataLen
      ∧ num2 ≤ 99 then
    some (num2 + 1, [.writeData (num2 + 1)])
  else some (num2, [])

/-- The indices a packet of this length uses are inside both buffers. -/
def inBuffers (idx len : Nat) : Bool :=
  decide (idx + 2 < fwBufSize ∧ idx + len ≤ fwBufSize
    ∧ len + 1 + 1 < cmdBufSize)

namespace Sender

/-- `current_cmd_idx += current_cmd_len`: where the next packet begins. -/
def nextIdx (l : Sender) : Nat := l.currentCmdIdx + l.currentCmdLen

/-- The length field of the record there, as the file states it: nothing
checks it against the file's size. -/
def nextLen (l : Sender) : Nat :=
  le16 (l.fwDataBuf (l.nextIdx + 1)) (l.fwDataBuf (l.nextIdx + 2))

/-- `cmd_buf` and `CRCRes` behind the fill loop, over the record the
cursor has come to. -/
def filled (cs : CharSign) (l : Sender) : Fill :=
  fill cs l.fwDataBuf l.nextIdx l.nextLen l.cmdBuf

/-- Cursor, length and `cmd_buf` with its checksum: what assembling a
packet changes of the locals, whatever its command. -/
def advance (cs : CharSign) (l : Sender) : Sender :=
  { l with
    currentCmdIdx := l.nextIdx
    currentCmdLen := l.nextLen
    cmdBuf := storeCrc (l.filled cs) l.nextLen }

end Sender

/-- The line of a START record, which is all a START record adds. -/
def startLog (cmd : UInt8) : List Event :=
  if cmd = startCmd then [.log .sendStart] else []

/-- What a DATA record adds: its sequence number, what remains of the
file, and the progress line. `none` for the division by zero. -/
def dataPart (cs : CharSign) (g : Shared) (l : Sender) :
    Option (Shared × Int × List Event) :=
  let cmdBuf := (l.filled cs).cmdBuf
  if cmdBuf 5 = dataCmd then
    let seq := cs.seq (cmdBuf 6) (cmdBuf 7)
    (progress g.num1 g.num2 l.fwDataLen).map fun (num2, ms) =>
      ({ g with currentDataSeq := seq, num1 := g.num1 + 1, num2 := num2 },
        l.remainDataLen - l.nextLen,
        g.verbose (.sendData (cmdBuf 4) seq) ++ ms.map .log)
  else some (g, l.remainDataLen, [])

/-- What a FINISH record adds. The test reads `cmd_buf[5]` behind the
checksum store, so on a record of 3 or 4 bytes it reads the checksum. -/
def finishPart (g : Shared) (cmd : UInt8) : Shared × List Event :=
  if cmd = finishCmd then
    ({ g with isFinishCmd := true }, [.log .sendFinish])
  else (g, [])

/-- The next packet. `none` where C gives its assembly no meaning. -/
def assemble (cs : CharSign) (g : Shared) (l : Sender) :
    Option (Shared × Sender × List Event) :=
  if inBuffers l.nextIdx l.nextLen then
    (dataPart cs g l).map fun (g₁, remain, es) =>
      let l' := { l.advance cs with remainDataLen := remain }
      let (g', fin) := finishPart
        { g₁ with totalCmdNum := g₁.totalCmdNum + 1 } (l'.cmdBuf 5)
      (g', l', startLog ((l.filled cs).cmdBuf 5) ++ es ++ fin)
  else none

-- ================================================================ hidWrite

/-- hidWrite: what it returns for write's result, and what it did. The
packet counts as sent if the write did not fail. -/
def hidWrite (g : Shared) (writeData : List UInt8) (res : Int) :
    Int × List Event :=
  if res < 0 then
    (-errWrite, g.verbose (.dump writeData) ++ [.log .writeError])
  else
    (0, g.verbose (.dump writeData) ++ [.tx g.totalCmdNum writeData]
      ++ g.verbose (.wrote res))

-- ============================================================= the thread

/-- One step of ota_update: the new shared variables, the new locals,
and what it did. `none` where the step is not the thread's to take. -/
def otaUpdate (cs : CharSign) (g : Shared) (l : Sender) :
    SIn → Option (Shared × Sender × List Event)
  | .tick =>
      match l.pc with
      | .init =>
          let g' := g.initVars l.param2
          some (g', { l with pc := .load }, g'.verbose .otaUpdateArgs)
      | .next =>
          some ({ g with currentDataSeq := 0 },
            { l with pc := .newStage, sendCount := 0, cmdBuf := fun _ => 0 },
            [])
      | .newStage =>
          some ({ g with otaStage := .newCmd }, { l with pc := .assemble }, [])
      | .assemble =>
          match assemble cs g l with
          | some (g', l', es) => some (g', { l' with pc := .retry }, es)
          | none => some (g, { l with pc := .undefined }, [])
      | .retry =>
          let g' := { g with otaStage := .retrying }
          let l' := { l with sendCount := l.sendCount + 1, waitCount := 0 }
          if l'.sendCount > 3 then
            some (g', { l' with pc := .flag .fail },
              [.goto .otaFail g.totalCmdNum])
          else
            some (g', { l' with pc := .write },
              if l'.sendCount > 1 then [.log (.retrying l'.sendCount)]
              else [])
      | .wait =>
          let l' := { l with waitCount := l.waitCount + 1 }
          if l'.waitCount < otaWaitTime then
            some (g, { l' with pc := .pollNext }, [])
          else
            some (g, { l' with pc := .retry },
              [.timeout g.totalCmdNum, .goto .retryCmd g.totalCmdNum])
      | .pollNext =>
          if g.otaStage = .nextCmd then
            some (g, { l with pc := .next }, [.goto .nextCmd g.totalCmdNum])
          else some (g, { l with pc := .pollErr }, [])
      | .pollErr =>
          if g.otaStage = .errRetry then
            some (g, { l with pc := .retry }, [.goto .retryCmd g.totalCmdNum])
          else some (g, { l with pc := .pollComplete }, [])
      | .pollComplete =>
          if g.otaStage = .complete then
            some (g, { l with pc := .flag .success },
              [.goto .otaSuccess g.totalCmdNum])
          else some (g, { l with pc := .wait }, [])
      | .flag v =>
          some ({ g with flagRead := false }, { l with pc := .verdict v }, [])
      | .verdict v => some (g, { l with pc := .stop v }, [.log v.msg])
      | .stop v => some (g, { l with pc := .quitThread v }, [.log .otaStop])
      | .quitThread v =>
          some (g, { l with pc := .quitServ v }, [.log .quitThread])
      | .quitServ v =>
          some (g, { l with pc := .returned v }, [.log .quitServ])
      | .load | .create | .write | .returned _ | .undefined => none
  | .opened file =>
      match l.pc with
      | .load =>
          match file with
          | none =>
              some (g, { l with pc := .flag .fail },
                [.log .openFail, .goto .otaFail g.totalCmdNum])
          | some bytes =>
              if bytes.length ≤ fwBufSize then
                some (g, { l.load bytes with pc := .create },
                  [.log (.fwSize bytes.length)])
              else some (g, { l with pc := .undefined }, [])
      | _ => none
  | .created ret =>
      match l.pc with
      | .create =>
          some (g, { l with pc := .next },
            if ret = 0 then [] else [.log (.createFail ret)])
      | _ => none
  | .wrote res =>
      match l.pc with
      | .write =>
          let (ret, es) := hidWrite g l.packet res
          if ret < 0 then
            some (g, { l with pc := .flag .fail },
              es ++ [.goto .otaFail g.totalCmdNum])
          else some (g, { l with pc := .wait }, es)
      | _ => none

end BtOta
