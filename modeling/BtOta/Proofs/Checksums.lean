/-
What crc16_ccitt and crc32 compute.

crc16_ccitt is the CRC of its polynomial on every buffer: all 256 entries
of the table are right, and neither the sign of `char` nor the width of
`crc` reaches the result (`crc16_agrees`).

# Where crc32 is wrong

make_crc_table divides in an `int`, so a remainder with its top bit set
keeps it where the division shifts it down. Of the table just the entries
0x00 and 0x80 are right, and what an entry is off by is a word of
parities of its index (`makeCrcTable_fault`). The standard CRC-32 looks
its table up at indices that the buffer alone determines (`indices`); the
faults of the entries at these, carried on through the bytes behind them,
add up to what crc32 is off by (`crc32_off`), and so crc32 is right
exactly where they cancel (`crc32_ieee_iff`).
-/
import BtOta.Checksum
import BtOta.Lib.Crc

namespace BtOta

-- ================================================================ vocabulary

/-- The first `len` bytes of a buffer. -/
def bytesOf (buf : Nat → UInt8) (len : Nat) : List (BitVec 8) :=
  (List.range len).map fun i => (buf i).toBitVec

/-- crc16_ccitt over a register that nothing is cut from, and bytes
without a sign. -/
def crc16Untruncated (bytes : List (BitVec 8)) : Nat :=
  bytes.foldl (fun crc b => (crc <<< 8)
    ^^^ (crc16tab.getD ((crc >>> 8 ^^^ b.toNat) &&& 0xFF) 0).toNat) 0

/-- A byte of the standard CRC-32. -/
def ieeeByte (c : BitVec 32) (b : BitVec 8) : BitVec 32 :=
  (Crc.reflected 0xEDB88320).feed c (Crc.lsbFirst b)

/-- The CRC-32 of IEEE 802.3: polynomial 0xEDB88320, the lowest bit
first. -/
def ieeeCrc32 (bytes : List (BitVec 8)) : BitVec 32 :=
  (Crc.reflected 0xEDB88320).feed 0xFFFFFFFF (bytes.flatMap Crc.lsbFirst)
    ^^^ 0xFFFFFFFF

/-- The indices at which the standard computation looks its table up, from
register `c` on. -/
def indices : BitVec 32 → List (BitVec 8) → List (BitVec 8)
  | _, [] => []
  | c, b :: bs => (c.setWidth 8 ^^^ b) :: indices (ieeeByte c b) bs

/-- Each bit of a byte with the one `k` below it, so that three foldings
give the parity of all eight. -/
def folded (k : Nat) (i : BitVec 8) : BitVec 8 := i ^^^ (i <<< k)

/-- A word of parities of `i`: bit `25 + k`, for `k` up to 5, that of the
bits of `i` up to `k`, and bit 31 that of the bits 1 to 6. -/
def fault (i : BitVec 8) : BitVec 32 :=
  (folded 4 (folded 2 (folded 1 i)) ^^^ (i <<< 6)).setWidth 32 <<< 25

/-- What a register off by `e` is off by one byte later, at an entry that
is right: the division is linear. -/
def carried (e : BitVec 32) : BitVec 32 :=
  fault (e.setWidth 8) ^^^ ieeeByte e 0

/-- What the faults at these indices come to, each carried on through the
bytes behind it. -/
def lapse (e : BitVec 32) (xs : List (BitVec 8)) : BitVec 32 :=
  xs.foldl (fun e x => fault x ^^^ carried e) e

-- ==================================================================== indices

/-- An `int` masked with 0xFF is its low byte, so no index is out of the
table. -/
theorem toNat_and_ff (x : BitVec 32) :
    (x &&& 0xFF).toNat = (x.setWidth 8).toNat := by
  rw [BitVec.toNat_and, BitVec.toNat_setWidth]
  exact Nat.and_two_pow_sub_one_eq_mod _ 8

/-- The low byte of a promoted `char` is the byte: the sign is above it.
-/
theorem promote_setWidth (cs : CharSign) (b : UInt8) :
    (cs.promote b).setWidth 8 = b.toBitVec := by
  cases cs with
  | signed =>
      unfold CharSign.promote
      apply BitVec.eq_of_getLsbD_eq
      intro i hi
      rw [BitVec.getLsbD_setWidth, BitVec.getLsbD_signExtend]
      simp only [hi, show i < 32 by omega, decide_true, Bool.true_and,
        if_true]
  | unsigned =>
      unfold CharSign.promote
      rw [BitVec.setWidth_setWidth_of_le _ (by omega), BitVec.setWidth_eq]

-- ===================================================================== CRC-16

/-- All 256 entries are right, by computing each of them from the
polynomial. -/
theorem crc16tab_eq : crc16tab
    = (List.range 256).map fun i =>
        Crc.normalTable 0x1021 (BitVec.ofNat 8 i) := by
  decide +kernel

theorem crc16tab_getD (i : BitVec 8) :
    crc16tab.getD i.toNat 0 = Crc.normalTable 0x1021 i := by
  have hlt : i.toNat < 256 := i.isLt
  rw [crc16tab_eq, List.getD_eq_getElem?_getD, List.getElem?_map,
    List.getElem?_range hlt]
  simp

/-- The table lookup of crc16_ccitt is a byte of the division, and the
sign of `char` is masked away. -/
theorem crc16Next_eq (cs : CharSign) (crc : BitVec 16) (b : UInt8) :
    crc16Next cs crc b
      = (Crc.normal 0x1021).feed crc (Crc.msbFirst b.toBitVec) := by
  rw [Crc.normal_byte (by omega)]
  unfold crc16Next
  have hshift : (crc.setWidth 32).sshiftRight 8 = crc.setWidth 32 >>> 8 := by
    apply BitVec.sshiftRight_eq_of_msb_false
    simp [BitVec.msb_setWidth]
  have hlow : ((crc.setWidth 32 >>> 8).setWidth 8 : BitVec 8)
      = (crc >>> (16 - 8)).setWidth 8 := by
    apply BitVec.eq_of_getLsbD_eq
    intro i hi
    simp [hi, show 8 + i < 32 by omega]
  have hindex : (((crc.setWidth 32).sshiftRight 8 ^^^ cs.promote b)
      &&& 0x00FF).toNat
        = ((crc >>> (16 - 8)).setWidth 8 ^^^ b.toBitVec).toNat := by
    rw [toNat_and_ff, BitVec.setWidth_xor, hshift, hlow, promote_setWidth]
  have hcut : ((crc.setWidth 32 <<< 8).setWidth 16 : BitVec 16)
      = crc <<< 8 := by
    apply BitVec.eq_of_getLsbD_eq
    intro i hi
    simp [hi]
  simp only [hindex, crc16tab_getD]
  rw [BitVec.setWidth_xor, hcut, BitVec.setWidth_setWidth_of_le _ (by omega),
    BitVec.setWidth_eq, BitVec.xor_comm]

/-- So it is in a register that nothing is cut from. -/
theorem crc16_step_untruncated (crc : Nat) (b : BitVec 8) :
    BitVec.ofNat 16 ((crc <<< 8)
        ^^^ (crc16tab.getD ((crc >>> 8 ^^^ b.toNat) &&& 0xFF) 0).toNat)
      = (Crc.normal 0x1021).feed (BitVec.ofNat 16 crc)
        (Crc.msbFirst b) := by
  have hindex : (crc >>> 8 ^^^ b.toNat) &&& 0xFF
      = ((BitVec.ofNat 16 crc >>> (16 - 8)).setWidth 8 ^^^ b).toNat := by
    apply Nat.eq_of_testBit_eq
    intro i
    rw [show (0xFF : Nat) = 2 ^ 8 - 1 from rfl, Nat.testBit_and,
      Nat.testBit_two_pow_sub_one, BitVec.testBit_toNat, Nat.testBit_xor,
      BitVec.testBit_toNat, BitVec.getLsbD_xor, BitVec.getLsbD_setWidth,
      BitVec.getLsbD_ushiftRight, BitVec.getLsbD_ofNat,
      Nat.testBit_shiftRight]
    by_cases hi : i < 8
    · simp only [hi, show 16 - 8 + i < 16 by omega, decide_true,
        Bool.and_true, Bool.true_and]
    · simp only [hi, BitVec.getLsbD_of_ge b i (by omega), decide_false,
        Bool.and_false, Bool.false_and, Bool.xor_false]
  have hcut : BitVec.ofNat 16 (crc <<< 8) = BitVec.ofNat 16 crc <<< 8 := by
    apply BitVec.eq_of_getLsbD_eq
    intro i hi
    rw [BitVec.getLsbD_ofNat, BitVec.getLsbD_shiftLeft,
      BitVec.getLsbD_ofNat, Nat.testBit_shiftLeft]
    by_cases hlow : i < 8
    · simp [hlow]
    · simp [hlow, hi, show 8 ≤ i by omega, show i - 8 < 16 by omega]
  rw [Crc.normal_byte (by omega), hindex, crc16tab_getD, BitVec.ofNat_xor,
    hcut, BitVec.ofNat_toNat, BitVec.setWidth_eq, BitVec.xor_comm]

/-- crc16_ccitt is the CRC with polynomial 0x1021, initial value 0, the
highest bit first, for every buffer and length; it is so for either sign
of `char`, and would be with nothing cut from `crc << 8`. -/
theorem crc16_agrees (cs : CharSign) (buf : Nat → UInt8) (len : Int) :
    crc16Ccitt cs buf len = (Crc.normal 0x1021).feed 0
        ((bytesOf buf len.toNat).flatMap Crc.msbFirst)
      ∧ BitVec.ofNat 16 (crc16Untruncated (bytesOf buf len.toNat))
        = crc16Ccitt cs buf len := by
  have hcode : crc16Ccitt cs buf len = (Crc.normal 0x1021).feed 0
      ((bytesOf buf len.toNat).flatMap Crc.msbFirst) := by
    unfold crc16Ccitt bytesOf
    rw [Crc.ShiftRegister.feed_flatMap, List.foldl_map]
    simp only [crc16Next_eq]
  refine ⟨hcode, ?_⟩
  rw [hcode, Crc.ShiftRegister.feed_flatMap]
  unfold crc16Untruncated
  suffices hfold : ∀ (bs : List (BitVec 8)) (crc : Nat),
      BitVec.ofNat 16 (bs.foldl (fun crc b => (crc <<< 8)
          ^^^ (crc16tab.getD ((crc >>> 8 ^^^ b.toNat) &&& 0xFF) 0).toNat) crc)
        = bs.foldl (fun c b => (Crc.normal 0x1021).feed c (Crc.msbFirst b))
          (BitVec.ofNat 16 crc) from hfold _ 0
  intro bs
  induction bs with
  | nil => exact fun _ => rfl
  | cons b bs ih =>
      intro crc
      rw [List.foldl_cons, List.foldl_cons, ih, crc16_step_untruncated]

-- ===================================================================== CRC-32

/-- Every entry is off by the fault of its index, by computing all 256.
-/
theorem makeCrcTable_fault : makeCrcTable
    = (List.range 256).map fun i =>
        Crc.reflectedTable 0xEDB88320 (BitVec.ofNat 8 i)
          ^^^ fault (BitVec.ofNat 8 i) := by
  decide +kernel

theorem makeCrcTable_getD (i : BitVec 8) :
    makeCrcTable.getD i.toNat 0
      = Crc.reflectedTable 0xEDB88320 i ^^^ fault i := by
  have hlt : i.toNat < 256 := i.isLt
  rw [makeCrcTable_fault, List.getD_eq_getElem?_getD, List.getElem?_map,
    List.getElem?_range hlt]
  simp

/-- The entries that are right. -/
theorem fault_eq_zero_iff (i : BitVec 8) :
    fault i = 0 ↔ i = 0x00 ∨ i = 0x80 := by
  revert i
  decide +kernel

theorem folded_xor (k : Nat) (i j : BitVec 8) :
    folded k (i ^^^ j) = folded k i ^^^ folded k j := by
  unfold folded
  rw [BitVec.shiftLeft_xor_distrib, Crc.xor_swap]

theorem fault_xor (i j : BitVec 8) :
    fault (i ^^^ j) = fault i ^^^ fault j := by
  unfold fault
  rw [folded_xor, folded_xor, folded_xor, BitVec.shiftLeft_xor_distrib,
    Crc.xor_swap, BitVec.setWidth_xor, BitVec.shiftLeft_xor_distrib]

/-- The standard byte, from the table. -/
theorem ieeeByte_eq (c : BitVec 32) (b : BitVec 8) :
    ieeeByte c b = Crc.reflectedTable 0xEDB88320 (c.setWidth 8 ^^^ b)
      ^^^ (c >>> 8) :=
  Crc.reflected_byte (by omega) c b

/-- The table lookup of crc32 is that byte, with the fault of the entry
that it reads. -/
theorem crc32Next_eq (c : BitVec 32) (b : UInt8) :
    crc32Next makeCrcTable c b
      = ieeeByte c b.toBitVec ^^^ fault (c.setWidth 8 ^^^ b.toBitVec) := by
  have hindex : ((c ^^^ b.toBitVec.setWidth 32) &&& 0xFF).toNat
      = (c.setWidth 8 ^^^ b.toBitVec).toNat := by
    rw [toNat_and_ff, BitVec.setWidth_xor,
      BitVec.setWidth_setWidth_of_le _ (by omega), BitVec.setWidth_eq]
  show makeCrcTable.getD ((c ^^^ b.toBitVec.setWidth 32) &&& 0xFF).toNat 0
    ^^^ (c >>> 8) = _
  rw [hindex, makeCrcTable_getD, ieeeByte_eq, BitVec.xor_assoc,
    BitVec.xor_comm (fault _), BitVec.xor_assoc]

/-- What two registers differ by after one byte, both fed as in the
standard, does not depend on the byte. -/
theorem ieeeByte_xor (s a : BitVec 32) (b : BitVec 8) :
    ieeeByte s b ^^^ ieeeByte a b = ieeeByte (s ^^^ a) 0 := by
  rw [ieeeByte_eq, ieeeByte_eq, ieeeByte_eq, Crc.xor_swap,
    ← Crc.reflectedTable_xor, Crc.xor_cancel,
    ← BitVec.ushiftRight_xor_distrib, BitVec.setWidth_xor]
  exact congrArg (Crc.reflectedTable 0xEDB88320 · ^^^ _)
    BitVec.xor_zero.symm

/-- And the one fed as in the standard, the other as in crc32. -/
theorem crc32_step_off (s a : BitVec 32) (b : UInt8) :
    ieeeByte s b.toBitVec ^^^ crc32Next makeCrcTable a b
      = fault (s.setWidth 8 ^^^ b.toBitVec) ^^^ carried (s ^^^ a) := by
  have hfault : fault (a.setWidth 8 ^^^ b.toBitVec)
      = fault (s.setWidth 8 ^^^ b.toBitVec)
        ^^^ fault ((s ^^^ a).setWidth 8) := by
    rw [← fault_xor, BitVec.setWidth_xor, Crc.xor_swap, BitVec.xor_self,
      BitVec.zero_xor, BitVec.xor_comm]
  unfold carried
  rw [crc32Next_eq, ← BitVec.xor_assoc, ieeeByte_xor, hfault,
    BitVec.xor_comm, BitVec.xor_assoc]

/-- What crc32 is off by, over a buffer, by induction on the bytes: the
faults, each from where it came in. -/
theorem crc32_off (bs : List UInt8) (s a : BitVec 32) :
    (bs.map UInt8.toBitVec).foldl ieeeByte s
        ^^^ bs.foldl (crc32Next makeCrcTable) a
      = lapse (s ^^^ a) (indices s (bs.map UInt8.toBitVec)) := by
  induction bs generalizing s a with
  | nil => rfl
  | cons b bs ih =>
      rw [List.map_cons, List.foldl_cons, List.foldl_cons, ih,
        crc32_step_off, indices]
      unfold lapse
      rw [List.foldl_cons]

-- ======================================================= where faults cancel

theorem lapse_append (e : BitVec 32) (xs : List (BitVec 8)) (x : BitVec 8) :
    lapse e (xs ++ [x]) = fault x ^^^ carried (lapse e xs) := by
  unfold lapse
  rw [List.foldl_append]
  rfl

theorem indices_length (c : BitVec 32) (bs : List (BitVec 8)) :
    (indices c bs).length = bs.length := by
  induction bs generalizing c with
  | nil => rfl
  | cons b bs ih => rw [indices, List.length_cons, ih, List.length_cons]

/-- A register whose low byte is right is only shifted. -/
theorem carried_of_low {e : BitVec 32} (h : e.setWidth 8 = 0#8) :
    carried e = e >>> 8 := by
  have hfault : fault 0#8 = 0#32 := by decide
  have htable : Crc.reflectedTable (0xEDB88320 : BitVec 32) (0#8 ^^^ 0)
      = 0#32 := by
    decide +kernel
  unfold carried
  rw [ieeeByte_eq, h, hfault, htable, BitVec.zero_xor, BitVec.zero_xor]

/-- Without a fault there is nothing to carry, so a buffer that meets the
right entries only has the right checksum. -/
theorem lapse_of_right {xs : List (BitVec 8)}
    (h : ∀ x ∈ xs, x = 0x00 ∨ x = 0x80) : lapse 0 xs = 0 := by
  induction xs using List.reverseRecOn with
  | nil => rfl
  | append_singleton xs x ih =>
      have hx : fault x = 0 := (fault_eq_zero_iff x).mpr (h x (by simp))
      rw [lapse_append, hx, ih fun y hy => h y (by simp [hy])]
      decide +kernel

theorem fault_low (x : BitVec 8) {i : Nat} (hi : i < 25) :
    (fault x).getLsbD i = false := by
  unfold fault
  simp [BitVec.getLsbD_shiftLeft, hi]

/-- A word moved down a byte has nothing where a fault stands, so the two
are equal only where there is no fault. -/
theorem fault_eq_zero_of_shift {x : BitVec 8} {w : BitVec 32}
    (h : fault x = w >>> 8) : fault x = 0 := by
  apply BitVec.eq_of_getLsbD_eq
  intro i hi
  by_cases hi' : i < 25
  · rw [fault_low x hi']
    simp
  · rw [h, BitVec.getLsbD_ushiftRight,
      BitVec.getLsbD_of_ge _ _ (by omega)]
    simp

/-- A clear low byte is all that moving down a byte loses. -/
theorem eq_zero_of_shift {w : BitVec 32} (hlow : w.setWidth 8 = 0#8)
    (h : w >>> 8 = 0) : w = 0 := by
  apply BitVec.eq_of_getLsbD_eq
  intro i hi
  by_cases hi' : i < 8
  · have hbit := congrArg (·.getLsbD i) hlow
    simpa [hi'] using hbit
  · have hbit := congrArg (·.getLsbD (i - 8)) h
    simp only [BitVec.getLsbD_ushiftRight] at hbit
    rw [show 8 + (i - 8) = i by omega] at hbit
    rw [hbit]
    simp

/-- A fault stands in the top byte and comes down a byte at a time: with
up to four bytes no two meet. -/
theorem lapse_short {xs : List (BitVec 8)} (h : xs.length ≤ 4) :
    (lapse 0 xs = 0 ↔ ∀ x ∈ xs, fault x = 0)
      ∧ ∀ i, i + 8 * xs.length < 32 → (lapse 0 xs).getLsbD i = false := by
  induction xs using List.reverseRecOn with
  | nil => exact ⟨by simp [lapse], fun i hi => by simp [lapse]⟩
  | append_singleton xs x ih =>
      rw [List.length_append, List.length_singleton] at h
      obtain ⟨hzero, hlow⟩ := ih (by omega)
      have hbyte : (lapse 0 xs).setWidth 8 = 0#8 := by
        apply BitVec.eq_of_getLsbD_eq
        intro i hi
        rw [BitVec.getLsbD_setWidth, hlow i (by omega)]
        simp
      rw [lapse_append, carried_of_low hbyte]
      refine ⟨?_, ?_⟩
      · simp only [List.mem_append, List.mem_singleton]
        constructor
        · intro hsum
          have heq : fault x = lapse 0 xs >>> 8 :=
            BitVec.xor_eq_zero_iff.mp hsum
          have hx : fault x = 0 := fault_eq_zero_of_shift heq
          have hxs : lapse 0 xs = 0 :=
            eq_zero_of_shift hbyte (heq.symm.trans hx)
          rintro y (hy | rfl)
          · exact hzero.mp hxs y hy
          · exact hx
        · intro hall
          rw [hall x (Or.inr rfl), hzero.mpr fun y hy => hall y (Or.inl hy)]
          rfl
      · intro i hi
        rw [List.length_append, List.length_singleton] at hi
        rw [BitVec.getLsbD_xor, fault_low x (by omega),
          BitVec.getLsbD_ushiftRight, hlow (8 + i) (by omega)]
        rfl

/-- crc32 is the IEEE CRC-32 of a buffer exactly where the faults of the
entries at the standard's own indices cancel: that is so where each index
is 0x00 or 0x80, and up to four bytes nowhere else. -/
theorem crc32_ieee_iff (buf : Nat → UInt8) (len : Nat) :
    (crc32 makeCrcTable buf len = ieeeCrc32 (bytesOf buf len)
      ↔ lapse 0 (indices 0xFFFFFFFF (bytesOf buf len)) = 0)
    ∧ ((∀ x ∈ indices 0xFFFFFFFF (bytesOf buf len), x = 0x00 ∨ x = 0x80) →
      lapse 0 (indices 0xFFFFFFFF (bytesOf buf len)) = 0)
    ∧ (len ≤ 4 →
      (lapse 0 (indices 0xFFFFFFFF (bytesOf buf len)) = 0
        ↔ ∀ x ∈ indices 0xFFFFFFFF (bytesOf buf len),
          x = 0x00 ∨ x = 0x80)) := by
  refine ⟨?_, lapse_of_right, ?_⟩
  · have hoff := crc32_off ((List.range len).map buf) 0xFFFFFFFF 0xFFFFFFFF
    have hbytes : ((List.range len).map buf).map UInt8.toBitVec
        = bytesOf buf len := by
      unfold bytesOf
      rw [List.map_map]
      rfl
    rw [hbytes, BitVec.xor_self, List.foldl_map] at hoff
    unfold crc32 ieeeCrc32
    rw [Crc.ShiftRegister.feed_flatMap, BitVec.xor_left_inj]
    change _ = lapse 0 _ at hoff
    rw [← hoff]
    exact eq_comm.trans BitVec.xor_eq_zero_iff.symm
  · intro hlen
    have hcount : (indices 0xFFFFFFFF (bytesOf buf len)).length = len := by
      rw [indices_length]
      simp [bytesOf]
    have hshort := (lapse_short (hcount ▸ hlen)).1
    simpa only [fault_eq_zero_iff] using hshort

/-- One byte 0x00: the first index is 0xFF. -/
theorem crc32_not_ieee : ¬ ∀ (buf : Nat → UInt8) (len : Nat),
    crc32 makeCrcTable buf len = ieeeCrc32 (bytesOf buf len) := by
  intro h
  have hbyte := h (fun _ => 0x00) 1
  revert hbyte
  decide +kernel

end BtOta
