/-
sdp.c: what is known of a device, fetched from its service records,
stored in a text file, and read back.

The file is one line for each device, under its address, in the file of
the local adapter. textfile_put and textfile_get are bluez's; here they
are a parameter.

Where the code would write past the end of an array, or use a variable
that sscanf has not set, the result is `none`.

# Left out

malloc returns memory. sdp_connect and the two searches are the answer
they come to (`SdpAnswer`), or fail. The attribute 0x0206 is the text of
its second element, which is the descriptor.
-/
import BtOta.Lib.Scan
import BtOta.Verbose

namespace BtOta

open Scan

-- ================================================================ the request

theorem CString.eq_of_text {size : Nat} {s t : CString size}
    (h : s.text = t.text) : s = t := by
  cases s
  cases t
  cases h
  rfl

instance {size : Nat} : DecidableEq (CString size) := fun s t =>
  decidable_of_iff (s.text = t.text)
    ⟨CString.eq_of_text, congrArg CString.text⟩

/-- The fields of `struct hidp_connadd_req` that are kept. -/
structure ConnaddReq where
  vendor : UInt16
  product : UInt16
  version : UInt16
  subclass : UInt8
  country : UInt8
  parser : UInt16
  flags : UInt32
  /-- `char name[128]` -/
  name : CString 128
  /-- `rd_size` bytes; it is a 16-bit field -/
  rdData : List UInt8
  deriving DecidableEq

-- ================================================================== the quirk

/-- USAGE_MAXIMUM and LOGICAL_MAXIMUM with their bytes swapped. -/
def pattern : List UInt8 :=
  [0x05, 0x07, 0x19, 0x00, 0x2a, 0x00, 0xff, 0x15, 0x00, 0x26, 0x00, 0xff]

/-- `memcmp(data + i, pattern, sizeof(pattern))` is 0. -/
def matchesAt (data : List UInt8) (i : Nat) : Bool :=
  (data.drop i).take pattern.length == pattern

/-- The body of the `if`: the maximum of either item is written anew, low
byte first, and everything around it stays. -/
def swapAt (data : List UInt8) (i : Nat) : List UInt8 :=
  (((data.set (i + 5) 0xff).set (i + 6) 0x00).set (i + 10) 0xff).set
    (i + 11) 0x00

/-- The loop with `n` passes to go, from `i`. A read or a write outside
of the descriptor is `none`. -/
def quirkLoop : Nat → Nat → List UInt8 → Option (List UInt8)
  | 0, _, data => some data
  | n + 1, i, data =>
      if i + pattern.length ≤ data.length then
        quirkLoop n (i + 1)
          (if matchesAt data i then swapAt data i else data)
      else none

/-- epox_endian_quirk. The bound `size - sizeof(pattern)` is an unsigned
difference. -/
def epoxEndianQuirk (data : List UInt8) : Option (List UInt8) :=
  quirkLoop
    (BitVec.ofNat 32 data.length - BitVec.ofNat 32 pattern.length).toNat
    0 data

-- ==================================================================== storing

/-- `desc`, built by `"%2.2X"`: two upper-case digits for each byte of
the descriptor. -/
def descOf (rdData : List UInt8) : List Char :=
  rdData.flatMap fun b => printX 2 b.toNat

/-- What `"%04X:%04X:%04X %02X %02X %04X %s %08X %s"` writes. -/
def infoText (req : ConnaddReq) : List Char :=
  printX 4 req.vendor.toNat ++ ':' :: (printX 4 req.product.toNat
    ++ ':' :: (printX 4 req.version.toNat
      ++ ' ' :: (printX 2 req.subclass.toNat
        ++ ' ' :: (printX 2 req.country.toNat
          ++ ' ' :: (printX 4 req.parser.toNat
            ++ ' ' :: (descOf req.rdData
              ++ ' ' :: (printX 8 req.flags.toNat
                ++ ' ' :: req.name.text)))))))

/-- The bytes allocated for it, of which snprintf is told one less. -/
def infoSize (req : ConnaddReq) : Nat :=
  15 + 3 + 3 + 5 + (req.rdData.length * 2) + 1 + 9 + req.name.text.length + 2

/-- `snprintf(str, size - 1, ...)`, which leaves room for the NUL. -/
def storedText (req : ConnaddReq) : List Char :=
  (infoText req).take (infoSize req - 1 - 1)

/-- bluez's textfile: the file is that of the first address, the key the
second. What it does is a parameter of every result. -/
structure Textfile (σ α : Type) where
  textfilePut : σ → α → α → List Char → σ × Int
  textfileGet : σ → α → α → Option (List Char)

/-- store_device_info. -/
def storeDeviceInfo {σ α : Type} (tf : Textfile σ α) (files : σ)
    (src dst : α) (req : ConnaddReq) : σ × Int :=
  tf.textfilePut files src dst (storedText req)

-- =================================================================== fetching

/-- `"%04X:%04X:%04X %02X %02X %04X %4095s %08X %n"`. -/
def infoFormat : List Directive :=
  [.hex 4, .lit ':', .hex 4, .lit ':', .hex 4, .space, .hex 2, .space,
    .hex 2, .space, .hex 4, .space, .str 4095, .space, .hex 8, .space, .count]

/-- The loop over `desc`, two characters at a time; a single one at the
end is left over. -/
def ofDesc : List Char → List UInt8
  | a :: b :: desc =>
      UInt8.ofBitVec (BitVec.ofInt 8 (strtol16 [a, b])) :: ofDesc desc
  | _ => []

/-- What get_stored_device_info makes of a line. `none`: sscanf has left
one of its variables as it was, which was nothing. -/
def parseInfo (str : List Char) : Option ConnaddReq :=
  match sscanf infoFormat 0 str with
  | [.num vendor, .num product, .num version, .num subclass, .num country,
      .num parser, .text desc, .num flags, .count pos] => do
      let name ← CString.store 128 ((str.drop pos).take 127)
      some {
        vendor := vendor.toUInt16, product := product.toUInt16
        version := version.toUInt16, subclass := subclass.toUInt8
        country := country.toUInt8, parser := parser.toUInt16
        flags := flags.toUInt32, name := name, rdData := ofDesc desc }
  | _ => none

/-- What a function that fills in a request comes to: an error, a
request, or behaviour that C does not define. -/
inductive Fetched
  /-- it returned this error and left the request alone -/
  | error (e : Int)
  | req (req : ConnaddReq)
  | undefined
  deriving DecidableEq

/-- get_stored_device_info. -/
def getStoredDeviceInfo {σ α : Type} (tf : Textfile σ α) (files : σ)
    (src dst : α) : Fetched :=
  match tf.textfileGet files src dst with
  -- -EIO
  | none => .error (-5)
  | some str =>
      match parseInfo str with
      | some req => .req req
      | none => .undefined

-- ======================================================== the service records

/-- The PnP record: the three numbers that name the device's maker and
make. -/
structure PnpRecord where
  vendor : Option UInt16
  product : Option UInt16
  version : Option UInt16

/-- The HID record, by the names of its attributes; each may be missing.
-/
structure HidRecord where
  /-- 0x0100 -/
  serviceName : Option (List Char)
  /-- 0x0101 -/
  serviceDescription : Option (List Char)
  /-- 0x0102 -/
  providerName : Option (List Char)
  /-- 0x0201 -/
  parserVersion : Option UInt16
  /-- 0x0202 -/
  deviceSubclass : Option UInt8
  /-- 0x0203 -/
  countryCode : Option UInt8
  /-- 0x0206 -/
  descriptorList : Option (List UInt8)

/-- What the two searches bring back, and the local address that the
connection has, under which the answer is stored. -/
structure SdpAnswer (α : Type) where
  pnp : Option PnpRecord
  hid : HidRecord
  bdaddr : α

/-- `strncat(name, s, n)`: at most `n` characters and a NUL. `none` is a
write past the end of the array. -/
def CString.strncat {size : Nat} (name : CString size) (s : List Char)
    (n : Nat) : Option (CString size) :=
  CString.store size (name.text ++ s.take n)

/-- How get_sdp_device_info fills in the name: by the service's, or else
by its description, behind the provider's name where the two begin
differently. -/
def sdpName (name : CString 128) (hid : HidRecord) :
    Option (CString 128) :=
  match hid.serviceName with
  | some s => CString.store 128 (s.take 127)
  | none =>
      match hid.serviceDescription, hid.providerName with
      | some desc, some prov => do
          let name ←
            if desc.take 5 ≠ prov.take 5 then do
              let name ← CString.store 128 (prov.take 127)
              CString.store 128 (name.text ++ [' '])
            else some name
          name.strncat desc (128 - name.text.length)
      | some desc, none => CString.store 128 (desc.take 127)
      | none, _ => some name

/-- How it fills in the descriptor. `rd_size` takes 16 bits of the
length. -/
def sdpDescriptor (rdData : List UInt8) (hid : HidRecord) :
    Option (List UInt8) :=
  match hid.descriptorList with
  | none => some rdData
  | some d => epoxEndianQuirk (d.take (d.length % 2 ^ 16))

/-- How it fills in the request. -/
def sdpReq {α : Type} (answer : SdpAnswer α) (req : ConnaddReq) :
    Option ConnaddReq := do
  let req : ConnaddReq :=
    match answer.pnp with
    | some pnp =>
        { req with
          vendor := pnp.vendor.getD 0x0000
          product := pnp.product.getD 0x0000
          version := pnp.version.getD 0x0000 }
    | none => req
  let name ← sdpName req.name answer.hid
  let rdData ← sdpDescriptor req.rdData answer.hid
  some { req with
    name := name
    parser := answer.hid.parserVersion.getD 0x0100
    subclass := answer.hid.deviceSubclass.getD 0
    country := answer.hid.countryCode.getD 0
    rdData := rdData }

/-- get_sdp_device_info; `any` is BDADDR_ANY. -/
def getSdpDeviceInfo {σ α : Type} [DecidableEq α] (tf : Textfile σ α)
    (any : α) (files : σ) (dst : α) (answer : Option (SdpAnswer α))
    (req : ConnaddReq) : σ × Fetched :=
  match answer with
  | none => (files, .error (-1))
  | some answer =>
      match sdpReq answer req with
      | none => (files, .undefined)
      | some req =>
          (if answer.bdaddr ≠ any then
              (storeDeviceInfo tf files answer.bdaddr dst req).1
            else files,
            .req req)

end BtOta
