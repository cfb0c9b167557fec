/-
Cyclic redundancy checks: a register fed one bit at a time, and the
tables by which it is fed one byte at a time.

# The register

A step lets one bit go out of the register and shifts the rest; where
that bit and the message bit differ, the polynomial is taken off. Which
bit goes out, and how the rest is shifted, is what the variants differ
in, and all that a proof needs of it is that both respect exclusive or.
`ShiftRegister` carries the two laws as fields; `reflected` (low bit out,
shift right) and `normal` (high bit out, shift left) are instances.

# What is here

- `iterate_step_xor`: a message xored into the bits about to go out is a
  message fed bit by bit.
- `reflected_byte` and `normal_byte`: eight bits at a time from a table
  of 256 entries, for every register and every byte.
-/
import Mathlib.Data.BitVec
import Mathlib.Data.List.Basic
import Mathlib.Logic.Function.Iterate

namespace Crc

variable {w : Nat}

theorem xor_swap (a b c d : BitVec w) :
    a ^^^ b ^^^ (c ^^^ d) = a ^^^ c ^^^ (b ^^^ d) := by
  ac_rfl

/-- What is xored into both sides of a difference drops out of it. -/
theorem xor_cancel (a b m : BitVec w) : a ^^^ m ^^^ (b ^^^ m) = a ^^^ b := by
  rw [xor_swap, BitVec.xor_self, BitVec.xor_zero]

/-- A register of `w` bits: how it is shifted, which bit goes out, and
that both respect exclusive or. -/
structure ShiftRegister (w : Nat) where
  poly : BitVec w
  out : BitVec w → Bool
  shift : BitVec w → BitVec w
  out_xor : ∀ a b, out (a ^^^ b) = (out a ^^ out b)
  shift_xor : ∀ a b, shift (a ^^^ b) = shift a ^^^ shift b

namespace ShiftRegister

variable (r : ShiftRegister w)

/-- One bit of the message: where it differs from the bit that goes out,
the polynomial is taken off. -/
def bit (c : BitVec w) (m : Bool) : BitVec w :=
  if r.out c ^^ m then r.poly ^^^ r.shift c else r.shift c

/-- The bits of a message, one after another. -/
def feed (c : BitVec w) (ms : List Bool) : BitVec w := ms.foldl r.bit c

/-- A bit that is not set, which is what a table is computed with. -/
def step (c : BitVec w) : BitVec w := r.bit c false

/-- The bits that go out next. -/
def outs : Nat → BitVec w → List Bool
  | 0, _ => []
  | n + 1, c => r.out c :: outs n (r.shift c)

@[simp] theorem feed_nil (c : BitVec w) : r.feed c [] = c := rfl

@[simp] theorem feed_cons (c : BitVec w) (m : Bool) (ms : List Bool) :
    r.feed c (m :: ms) = r.feed (r.bit c m) ms := rfl

theorem feed_append (c : BitVec w) (ms ms' : List Bool) :
    r.feed c (ms ++ ms') = r.feed (r.feed c ms) ms' := List.foldl_append

/-- Byte by byte, in whatever order a byte's bits go, so a claim about
bytes needs one about a single byte only. -/
theorem feed_flatMap (order : BitVec 8 → List Bool) (c : BitVec w)
    (bs : List (BitVec 8)) :
    r.feed c (bs.flatMap order)
      = bs.foldl (fun c b => r.feed c (order b)) c := by
  induction bs generalizing c with
  | nil => rfl
  | cons b bs ih => rw [List.flatMap_cons, feed_append, ih, List.foldl_cons]

/-- What is xored into the register: its first bit acts as a message bit,
the others stay where they are. -/
theorem step_xor (c v : BitVec w) :
    r.step (c ^^^ v) = r.bit c (r.out v) ^^^ r.shift v := by
  unfold step bit
  rw [r.out_xor, r.shift_xor, Bool.xor_false]
  cases r.out c ^^ r.out v with
  | true => exact (BitVec.xor_assoc _ _ _).symm
  | false => rfl

/-- A step respects exclusive or, as its two halves do. All of the table
method rests on this. -/
theorem step_linear (a b : BitVec w) :
    r.step (a ^^^ b) = r.step a ^^^ r.step b := by
  unfold step bit
  rw [r.out_xor, r.shift_xor]
  cases r.out a <;> cases r.out b
  · rfl
  · show r.poly ^^^ (r.shift a ^^^ r.shift b)
      = r.shift a ^^^ (r.poly ^^^ r.shift b)
    ac_rfl
  · exact (BitVec.xor_assoc _ _ _).symm
  · show r.shift a ^^^ r.shift b
      = r.poly ^^^ r.shift a ^^^ (r.poly ^^^ r.shift b)
    rw [BitVec.xor_comm r.poly, BitVec.xor_comm r.poly, xor_cancel]

theorem iterate_step_linear (n : Nat) (a b : BitVec w) :
    r.step^[n] (a ^^^ b) = r.step^[n] a ^^^ r.step^[n] b := by
  induction n generalizing a b with
  | zero => rfl
  | succ n ih =>
      rw [Function.iterate_succ_apply, Function.iterate_succ_apply,
        Function.iterate_succ_apply, step_linear, ih]

/-- A message xored into the bits about to go out is a message fed, by
induction on the bits. -/
theorem iterate_step_xor (n : Nat) (c v : BitVec w) :
    r.step^[n] (c ^^^ v) = r.feed c (r.outs n v) ^^^ r.shift^[n] v := by
  induction n generalizing c v with
  | zero => rfl
  | succ n ih =>
      rw [Function.iterate_succ_apply, Function.iterate_succ_apply,
        step_xor, ih]
      rfl

/-- An idle register does its own division: what goes out is fed back
in. -/
theorem iterate_step (n : Nat) (c : BitVec w) :
    r.step^[n] c = r.feed 0#w (r.outs n c) ^^^ r.shift^[n] c := by
  have h := r.iterate_step_xor n 0#w c
  rwa [BitVec.zero_xor] at h

end ShiftRegister

-- ============================================================= two registers

/-- Low bit out, shift right. -/
def reflected (poly : BitVec w) : ShiftRegister w where
  poly := poly
  out c := c.getLsbD 0
  shift c := c >>> 1
  out_xor _ _ := BitVec.getLsbD_xor
  shift_xor a b := BitVec.ushiftRight_xor_distrib a b 1

/-- High bit out, shift left. -/
def normal (poly : BitVec w) : ShiftRegister w where
  poly := poly
  out c := c.msb
  shift c := c <<< 1
  out_xor _ _ := BitVec.msb_xor
  shift_xor a b := BitVec.shiftLeft_xor_distrib a b 1

/-- The bits of a byte, lowest first. -/
def lsbFirst (b : BitVec 8) : List Bool := (List.range 8).map b.getLsbD

/-- The bits of a byte, highest first. -/
def msbFirst (b : BitVec 8) : List Bool := (List.range 8).map b.getMsbD

variable {poly : BitVec w}

theorem reflected_iterate_shift (n : Nat) (c : BitVec w) :
    (reflected poly).shift^[n] c = c >>> n := by
  induction n generalizing c with
  | zero => simp
  | succ n ih =>
      rw [Function.iterate_succ_apply, ih]
      show c >>> 1 >>> n = c >>> (n + 1)
      rw [← BitVec.shiftRight_add, Nat.add_comm]

theorem normal_iterate_shift (n : Nat) (c : BitVec w) :
    (normal poly).shift^[n] c = c <<< n := by
  induction n generalizing c with
  | zero => simp
  | succ n ih =>
      rw [Function.iterate_succ_apply, ih]
      show c <<< 1 <<< n = c <<< (n + 1)
      rw [← BitVec.shiftLeft_add, Nat.add_comm]

theorem reflected_outs (n : Nat) (c : BitVec w) :
    (reflected poly).outs n c = (List.range n).map c.getLsbD := by
  induction n generalizing c with
  | zero => rfl
  | succ n ih =>
      show c.getLsbD 0 :: (reflected poly).outs n (c >>> 1) = _
      rw [ih, List.range_succ_eq_map, List.map_cons, List.map_map]
      congr 1
      apply List.map_congr_left
      intro i hi
      rw [BitVec.getLsbD_ushiftRight, Nat.add_comm]
      rfl

theorem normal_outs (n : Nat) (hn : n ≤ w) (c : BitVec w) :
    (normal poly).outs n c = (List.range n).map c.getMsbD := by
  induction n generalizing c with
  | zero => rfl
  | succ n ih =>
      show c.msb :: (normal poly).outs n (c <<< 1) = _
      rw [ih (by omega), List.range_succ_eq_map, List.map_cons,
        List.map_map]
      congr 1
      apply List.map_congr_left
      intro i hi
      rw [BitVec.getMsbD_shiftLeft]
      rfl

-- ========================================================= a byte at a time

theorem lsbFirst_setWidth (c : BitVec w) :
    (reflected poly).outs 8 c = lsbFirst (c.setWidth 8) := by
  rw [reflected_outs]
  unfold lsbFirst
  apply List.map_congr_left
  intro i hi
  have hlt := List.mem_range.mp hi
  simp [hlt]

theorem msbFirst_setWidth (hw : 8 ≤ w) (c : BitVec w) :
    (normal poly).outs 8 c = msbFirst ((c >>> (w - 8)).setWidth 8) := by
  rw [normal_outs 8 hw]
  unfold msbFirst
  apply List.map_congr_left
  intro i hi
  have hlt := List.mem_range.mp hi
  have hbit : w - 8 + (8 - 1 - i) = w - 1 - i := by omega
  rw [BitVec.getMsbD_eq_getLsbD, BitVec.getMsbD_eq_getLsbD,
    BitVec.getLsbD_setWidth, BitVec.getLsbD_ushiftRight, hbit]
  simp [hlt, show i < w by omega, show 7 - i < 8 by omega]

/-- The table of the reflected register: eight steps of each byte, which
stands at the end it goes out of. -/
def reflectedTable (poly : BitVec w) (i : BitVec 8) : BitVec w :=
  (reflected poly).step^[8] (i.setWidth w)

/-- The table of the normal register: eight steps of each byte, the byte
put where it goes out. -/
def normalTable (poly : BitVec w) (i : BitVec 8) : BitVec w :=
  (normal poly).step^[8] (i.setWidth w <<< (w - 8))

theorem reflectedTable_xor (i j : BitVec 8) :
    reflectedTable poly (i ^^^ j)
      = reflectedTable poly i ^^^ reflectedTable poly j := by
  unfold reflectedTable
  rw [BitVec.setWidth_xor, ShiftRegister.iterate_step_linear]

/-- A byte from the table: the low byte goes out, the rest moves down.
The eight steps are one exclusive or. -/
theorem reflected_byte (hw : 8 ≤ w) (c : BitVec w) (b : BitVec 8) :
    (reflected poly).feed c (lsbFirst b)
      = reflectedTable poly (c.setWidth 8 ^^^ b) ^^^ (c >>> 8) := by
  have hclear : ∀ i : BitVec 8, i.setWidth w >>> 8 = 0#w := by
    intro i
    apply BitVec.eq_of_getLsbD_eq
    intro j hj
    simp [BitVec.getLsbD_setWidth, BitVec.getLsbD_of_ge]
  have hback : ∀ i : BitVec 8, (i.setWidth w).setWidth 8 = i := by
    intro i
    rw [BitVec.setWidth_setWidth_of_le i hw, BitVec.setWidth_eq]
  have htable : ∀ i : BitVec 8, reflectedTable poly i
      = (reflected poly).feed 0#w (lsbFirst i) := by
    intro i
    unfold reflectedTable
    rw [ShiftRegister.iterate_step, lsbFirst_setWidth, hback,
      reflected_iterate_shift, hclear, BitVec.xor_zero]
  have hfeed := (reflected poly).iterate_step_xor 8 c (b.setWidth w)
  rw [lsbFirst_setWidth, hback, reflected_iterate_shift, hclear,
    BitVec.xor_zero] at hfeed
  rw [← hfeed, ShiftRegister.iterate_step, lsbFirst_setWidth,
    reflected_iterate_shift, BitVec.setWidth_xor, hback, ← htable,
    BitVec.ushiftRight_xor_distrib, hclear, BitVec.xor_zero]

/-- The same from the other end: the high byte goes out, the rest moves
up. -/
theorem normal_byte (hw : 8 ≤ w) (c : BitVec w) (b : BitVec 8) :
    (normal poly).feed c (msbFirst b)
      = normalTable poly ((c >>> (w - 8)).setWidth 8 ^^^ b)
        ^^^ (c <<< 8) := by
  have hclear : ∀ i : BitVec 8, i.setWidth w <<< (w - 8) <<< 8 = 0#w := by
    intro i
    apply BitVec.eq_of_getLsbD_eq
    intro j hj
    simp [BitVec.getLsbD_shiftLeft, BitVec.getLsbD_setWidth]
    omega
  have hback : ∀ i : BitVec 8,
      (i.setWidth w <<< (w - 8) >>> (w - 8)).setWidth 8 = i := by
    intro i
    apply BitVec.eq_of_getLsbD_eq
    intro j hj
    have hbit : w - 8 + j - (w - 8) = j := by omega
    rw [BitVec.getLsbD_setWidth, BitVec.getLsbD_ushiftRight,
      BitVec.getLsbD_shiftLeft, BitVec.getLsbD_setWidth, hbit]
    simp [hj, show w - 8 + j < w by omega, show j < w by omega]
  have htable : ∀ i : BitVec 8, normalTable poly i
      = (normal poly).feed 0#w (msbFirst i) := by
    intro i
    unfold normalTable
    rw [ShiftRegister.iterate_step, msbFirst_setWidth hw, hback,
      normal_iterate_shift, hclear, BitVec.xor_zero]
  have hfeed := (normal poly).iterate_step_xor 8 c
    (b.setWidth w <<< (w - 8))
  rw [msbFirst_setWidth hw, hback, normal_iterate_shift, hclear,
    BitVec.xor_zero] at hfeed
  rw [← hfeed, ShiftRegister.iterate_step, msbFirst_setWidth hw,
    normal_iterate_shift, BitVec.ushiftRight_xor_distrib,
    BitVec.setWidth_xor, hback, ← htable,
    BitVec.shiftLeft_xor_distrib, hclear, BitVec.xor_zero]

end Crc
