/-
The verbose dumps of hidWrite and hidRead: the hex text that a loop of
sprintf and strcat builds on the stack.

An array of `size` bytes holds a text that leaves room for its NUL
(`CString`). What would be stored past the end of an array makes the
dump `none`. A `char` is promoted to `int` where it is passed to sprintf,
and `%02X` prints what it is passed as an `unsigned int`.

Only where `isVerboseLog` is set does the code come here; the line the
text ends up in is `Msg.dump`.
-/
import BtOta.Event
import Mathlib.Data.Nat.Digits.Defs

namespace BtOta

-- ==================================================================== strings

/-- A string in a `char` array of `size` bytes. There is always room for
its NUL, so a string that overruns cannot be built. -/
structure CString (size : Nat) where
  text : List Char
  /-- the text and its NUL are inside the array -/
  fits : text.length + 1 ≤ size

/-- A text stored in an array of `size` bytes; `none` where it does not
fit with its NUL. -/
def CString.store (size : Nat) (text : List Char) : Option (CString size) :=
  if h : text.length + 1 ≤ size then some ⟨text, h⟩ else none

/-- `strcat(s, t)`: `none` where the two do not fit into the array of the
first with a NUL. -/
def CString.strcat {size size' : Nat} (s : CString size)
    (t : CString size') : Option (CString size) :=
  CString.store size (s.text ++ t.text)

-- ==================================================================== sprintf

/-- A digit of `%X`, which prints capitals. -/
def hexDigit (d : Nat) : Char := "0123456789ABCDEF".toList.getD d '0'

/-- `%02X`: two digits at least, and as many as the value has. -/
def format02X (v : BitVec 32) : List Char :=
  ((Nat.digits 16 v.toNat).reverse.map hexDigit).leftpad 2 '0'

/-- hidWrite's `"%02X "`: a byte that promotes to a negative `int` comes
out with eight digits. -/
def writeFormat (cs : CharSign) (b : UInt8) : List Char :=
  format02X (cs.promote b) ++ [' ']

/-- hidRead's `"0x%02X "`, with the same promotion in it. -/
def readFormat (cs : CharSign) (b : UInt8) : List Char :=
  ['0', 'x'] ++ format02X (cs.promote b) ++ [' ']

-- ================================================================== the loops

/-- `sizeof(tmp2)`. -/
def tmp2Size : Nat := 10

/-- One pass of a dump's loop: `sprintf(tmp2, ..)` and
`strcat(tmpWrite, tmp2)`. -/
def dumpByte {size : Nat} (format : UInt8 → List Char)
    (tmpWrite : CString size) (b : UInt8) : Option (CString size) := do
  let tmp2 ← CString.store tmp2Size (format b)
  tmpWrite.strcat tmp2

/-- The loop, over a cleared `tmpWrite` of `size` bytes. -/
def dumpBytes (size : Nat) (format : UInt8 → List Char)
    (bytes : List UInt8) : Option (CString size) := do
  let tmpWrite ← CString.store size []
  bytes.foldlM (dumpByte format) tmpWrite

/-- hidWrite's dump, in `char tmpWrite[data_length*3]`. -/
def hidWriteDump (cs : CharSign) (writeData : List UInt8) :
    Option (CString (writeData.length * 3)) :=
  dumpBytes (writeData.length * 3) (writeFormat cs) writeData

/-- hidRead's dump, in `char tmpWrite[rsp_cmd_len*5]`. -/
def hidReadDump (cs : CharSign) (rsp : Rsp) :
    Option (CString (rspCmdLen * 5)) :=
  dumpBytes (rspCmdLen * 5) (readFormat cs) rsp.bytes

end BtOta
