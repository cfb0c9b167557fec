/-
The vocabulary of OTADefine.h, and the C integers the session compares.

`char` is the element type of `cmd_buf` and `rsp_cmd`, and whether it
is signed is the build target's choice, so every place where a `char`
is promoted to `int` takes the choice as a parameter (`CharSign`).
An `int` that is built from bytes by shifts and ors is a `BitVec 32`;
counters and lengths that only grow from zero are `Nat`.
-/
import Mathlib.Data.List.Basic

namespace BtOta

-- ============================================================ OTADefine.h

/-- `OTA_WAIT_TIME`: polls of 20 ms before a command is retried. -/
def otaWaitTime : Nat := 750

/-- `START_CMD`. -/
def startCmd : UInt8 := 0x01
/-- `DATA_CMD`. -/
def dataCmd : UInt8 := 0x02
/-- `FINISH_CMD`. -/
def finishCmd : UInt8 := 0x03

/-- `SUCCESS` and `NO_NEED_UPDATE` of `enum OTA_RSP_STATUS`, as the
`int` that `OTAStatus` is compared with. -/
def success : BitVec 32 := 0
def noNeedUpdate : BitVec 32 := 2

/-- `enum OTA_STAGES`, the values of `OTAStage`: the one word the sender
and hidRead leave each other. -/
inductive Stage
  | start | data | dataNext | finish | errRetry | complete | retrying
  | nextCmd | newCmd
  deriving DecidableEq, Repr

/-- `data_cmd_len`, the DATA record length the progress line assumes. -/
def dataCmdLen : Nat := 649

/-- `rsp_cmd_len`, the bytes of a response behind the report type. -/
def rspCmdLen : Nat := 6

/-- `sizeof(fw_data_buf)`. -/
def fwBufSize : Nat := 524288
/-- `sizeof(cmd_buf)`. -/
def cmdBufSize : Nat := 1024

/-- `ERR_WRITE`, which hidWrite negates when the write fails. Any
negative result ends a session. -/
def errWrite : Int := 6

-- ======================================================== C integers

/-- Whether plain `char` is signed on the build target. -/
inductive CharSign
  | signed | unsigned
  deriving DecidableEq, Repr

/-- A `char` promoted to `int`. -/
def CharSign.promote (cs : CharSign) (b : UInt8) : BitVec 32 :=
  match cs with
  | .signed => b.toBitVec.signExtend 32
  | .unsigned => b.toBitVec.setWidth 32

/-- A byte whose promotion is negative: then its upper 24 bits drown what
is or'ed with it. -/
def CharSign.negative (cs : CharSign) (b : UInt8) : Prop :=
  cs = .signed ∧ 0x80 ≤ b

instance (cs : CharSign) (b : UInt8) : Decidable (cs.negative b) :=
  inferInstanceAs (Decidable (_ ∧ _))

/-- `lo | (hi << 8)` over two `char`s: the sequence number on both
sides of `rsp_seq == current_data_seq`. -/
def CharSign.seq (cs : CharSign) (lo hi : UInt8) : BitVec 32 :=
  cs.promote lo ||| (cs.promote hi <<< 8)

/-- `lo | (hi << 8)` over two `unsigned char`s: a record's length,
whatever the signedness of `char`. -/
def le16 (lo hi : UInt8) : Nat := lo.toNat ||| (hi.toNat <<< 8)

/-- The `int` a mathematical integer is stored as: two's complement. -/
def int32 (n : Int) : Int := n.bmod 0x100000000

-- ============================================================ log lines

/-- The lines written to the Android log under the tag
`====OTAUpdate====`, with the values they print. The app reads them back,
so they are part of what a session does. -/
inductive Msg
  /-- `"  ota_update 000001 %s %d"` -/
  | otaUpdateArgs
  /-- `"open fw file fail: %s\n"` -/
  | openFail
  /-- `"update FW size:%d\n"` -/
  | fwSize (len : Nat)
  /-- `"pthread_create fail, ret:%d\n"` -/
  | createFail (ret : Int)
  /-- `"send START_CMD\n"` -/
  | sendStart
  /-- `"send DATA_CMD, DATAP:0x%x, SQE:0x%X\n"` -/
  | sendData (datap : UInt8) (seq : BitVec 32)
  /-- `"write data ... %d%c\n"` -/
  | writeData (percent : Nat)
  /-- `"send FINISH_CMD, set finish flag\n"` -/
  | sendFinish
  /-- `"Retrying OTA CMD #%d....\n"` -/
  | retrying (count : Nat)
  /-- `"@@@@:%s"`, the hex dump of a packet or of a response -/
  | dump (bytes : List UInt8)
  /-- `"write %d bytes successfully\n"` -/
  | wrote (res : Int)
  /-- `"Error: %d, write bytes error   ERR:%s\n"` and `"write"` -/
  | writeError
  /-- `"Error: %d, res:%d  ERR:%s\n"` and `"read"` -/
  | readError
  /-- `"response data sequence no. 0x%X\n"` -/
  | rspSeq (seq : BitVec 32)
  /-- `"NO_NEED_UPDATE\n"` -/
  | noNeedUpdate
  /-- `"status error:0x%X, retry\n"` -/
  | statusError (stat : UInt8)
  /-- `"sequence no. not match, retry\n"` -/
  | seqMismatch
  /-- `"OTA fail ~~======================================\n"` -/
  | otaFail
  /-- `"OTA end  !! ======================================\n"` -/
  | otaEnd
  /-- `"OTA STOP @@======================================\n"` -/
  | otaStop
  /-- `" ====...====Tina    quit_thread  \n"` -/
  | quitThread
  /-- `" ====...====Tina    quit_serv  \n"` -/
  | quitServ
  deriving DecidableEq, Repr

-- ========================================================== small facts

theorem negative_signed {b : UInt8} :
    CharSign.signed.negative b ↔ 128 ≤ b.toNat := by
  unfold CharSign.negative
  rw [UInt8.le_iff_toNat_le]
  exact and_iff_right rfl

theorem not_negative_unsigned {b : UInt8} :
    ¬ CharSign.unsigned.negative b := by
  rintro ⟨hcs, -⟩
  cases hcs

/-- Promotion loses nothing: two bytes that promote alike are the same
byte, under either signedness. -/
theorem CharSign.promote_injective (cs : CharSign) {a b : UInt8}
    (h : cs.promote a = cs.promote b) : a = b := by
  apply UInt8.toBitVec_inj.mp
  cases cs with
  | signed =>
      have h' := congrArg BitVec.toInt h
      unfold promote at h'
      rw [BitVec.toInt_signExtend_of_le (by decide),
        BitVec.toInt_signExtend_of_le (by decide)] at h'
      exact BitVec.eq_of_toInt_eq h'
  | unsigned =>
      have h' := congrArg BitVec.toNat h
      simp only [promote, BitVec.toNat_setWidth] at h'
      have ha := a.toBitVec.isLt
      have hb := b.toBitVec.isLt
      rw [Nat.mod_eq_of_lt (by omega), Nat.mod_eq_of_lt (by omega)] at h'
      exact BitVec.eq_of_toNat_eq h'

/-- A promoted status is `SUCCESS` exactly if its byte is 0, under
either signedness. -/
@[simp] theorem CharSign.promote_eq_success (cs : CharSign) (b : UInt8) :
    cs.promote b = success ↔ b = 0 := by
  constructor
  · intro h
    exact cs.promote_injective (h.trans (by cases cs <;> rfl))
  · intro heq
    subst heq
    cases cs <;> rfl

/-- A promoted status is `NO_NEED_UPDATE` exactly if its byte is 2. -/
@[simp] theorem CharSign.promote_eq_noNeedUpdate (cs : CharSign) (b : UInt8) :
    cs.promote b = noNeedUpdate ↔ b = 2 := by
  constructor
  · intro h
    exact cs.promote_injective (h.trans (by cases cs <;> rfl))
  · intro heq
    subst heq
    cases cs <;> rfl

end BtOta
