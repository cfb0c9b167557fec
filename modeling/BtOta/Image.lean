/-
Well-formed firmware images: a concatenation of records that say their
own length and type, the only FINISH record last, small enough for
`fw_data_buf` and each small enough for `cmd_buf`.

A `Record` and an `Image` carry these facts as fields, so a value of
the type is well formed. What ota_update does on a file that is no
`Image` is the business of `Session.start`, which takes any bytes.
-/
import BtOta.Define

namespace BtOta

/-- One record of an image, header included. The length it states is its
own, its command is one of the three, and its packet fits `cmd_buf`. -/
structure Record where
  bytes : List UInt8
  lower : 7 ≤ bytes.length
  upper : bytes.length ≤ 1021
  /-- bytes 1-2 hold the record's own length, little endian -/
  selfLen : le16 (bytes.getD 1 0) (bytes.getD 2 0) = bytes.length
  /-- byte 4 is the command -/
  hasType : bytes.getD 4 0 = startCmd ∨ bytes.getD 4 0 = dataCmd
    ∨ bytes.getD 4 0 = finishCmd

namespace Record

/-- The command byte. -/
def type (r : Record) : UInt8 := r.bytes.getD 4 0

/-- The record as it is to be transmitted: all of its bytes, header
included, behind the report type. -/
def packet (r : Record) : List UInt8 := 0x52 :: r.bytes

/-- The shortest record of a command: header, length, command and the
two bytes of a sequence number. -/
def shortest (cmd lo hi : UInt8)
    (h : cmd = startCmd ∨ cmd = dataCmd ∨ cmd = finishCmd) : Record where
  bytes := [0xF0, 7, 0, 0, cmd, lo, hi]
  lower := by simp
  upper := by simp
  selfLen := by simp [le16]
  hasType := h

/-- The shortest START record. -/
def start : Record := shortest startCmd 0 0 (Or.inl rfl)

/-- The shortest DATA record with this sequence number. -/
def data (lo hi : UInt8) : Record :=
  shortest dataCmd lo hi (Or.inr (Or.inl rfl))

/-- The shortest FINISH record. -/
def finish : Record := shortest finishCmd 0 0 (Or.inr (Or.inr rfl))

end Record

/-- A well-formed image: records of which the last and only the last is
FINISH, in a file that fits `fw_data_buf`. -/
structure Image where
  recs : List Record
  fits : (recs.flatMap Record.bytes).length ≤ fwBufSize
  finishLast : ∃ body fin, recs = body ++ [fin] ∧ fin.type = finishCmd
    ∧ ∀ r ∈ body, r.type ≠ finishCmd

namespace Image

/-- An image made by putting the shortest FINISH record behind a body
without one. Examples are made this way. -/
def close (body : List Record)
    (hbody : ∀ r ∈ body, r.type ≠ finishCmd)
    (hfits : ((body ++ [Record.finish]).flatMap Record.bytes).length
      ≤ fwBufSize) : Image where
  recs := body ++ [Record.finish]
  fits := hfits
  finishLast := ⟨body, Record.finish, rfl, rfl, hbody⟩

/-- The file an image is stored as. -/
def bytes (img : Image) : List UInt8 := img.recs.flatMap Record.bytes

/-- The packets of an image, numbered as `total_cmd_num` counts them:
what a perfect session would send, once each and in this order. -/
def packets (img : Image) : List (Nat × List UInt8) :=
  img.recs.mapIdx fun i r => (i + 1, r.packet)

/-- Where record `k` begins in the file: behind the bytes of the records
before it. -/
def offset (img : Image) (k : Nat) : Nat :=
  ((img.recs.take k).flatMap Record.bytes).length

/-- Consecutive DATA records carry distinct sequence numbers, so an
answer to one is no answer to the next. -/
def DistinctSeqs (img : Image) : Prop :=
  img.recs.IsChain fun r r' => r.type = dataCmd → r'.type = dataCmd →
    (r.bytes.getD 5 0, r.bytes.getD 6 0)
      ≠ (r'.bytes.getD 5 0, r'.bytes.getD 6 0)

end Image

end BtOta
