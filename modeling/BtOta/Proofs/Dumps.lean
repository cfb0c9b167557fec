/-
The verbose dumps overflow their buffers, every one of them.

The text of a byte is at least three characters in hidWrite and five in
hidRead (`writeFormat_length`, `readFormat_length`), so `data_length` or
`rsp_cmd_len` of them fill the array to its last byte and leave none for
the NUL. Where `char` is signed a byte of 0x80 or more takes six
characters more, and then hidRead's does not fit `tmp2` either.
-/
import BtOta.Verbose
import Mathlib.Data.Nat.Digits.Lemmas

namespace BtOta

-- ============================================================== a byte's text

/-- What a promoted `char` is as an `unsigned int`, which is how `%02X`
takes it. -/
theorem promote_toNat (cs : CharSign) (b : UInt8) :
    (cs.promote b).toNat
      = if cs.negative b then 0xFFFFFF00 + b.toNat else b.toNat := by
  have hlt : b.toNat < 256 := b.toNat_lt
  cases cs with
  | unsigned =>
      rw [if_neg not_negative_unsigned]
      unfold CharSign.promote
      exact BitVec.toNat_setWidth_of_le (by omega)
  | signed =>
      have hsum : (CharSign.signed.promote b).toNat
          = b.toNat + if 128 ≤ b.toNat then 0xFFFFFF00 else 0 := by
        unfold CharSign.promote
        simp only
        rw [BitVec.toNat_signExtend, BitVec.msb_eq_decide,
          BitVec.toNat_setWidth_of_le (by omega), UInt8.toNat_toBitVec]
        simp
      rw [hsum]
      by_cases hb : 128 ≤ b.toNat
      · rw [if_pos hb, if_pos (negative_signed.mpr hb)]
        omega
      · rw [if_neg hb, if_neg fun h => hb (negative_signed.mp h)]
        rfl

/-- `%02X` of a byte: two digits, or the eight of a negative `int`. -/
theorem format02X_length (cs : CharSign) (b : UInt8) :
    (format02X (cs.promote b)).length = if cs.negative b then 8 else 2 := by
  have hlt : b.toNat < 256 := b.toNat_lt
  unfold format02X
  rw [List.length_leftpad, List.length_map, List.length_reverse,
    promote_toNat]
  by_cases hneg : cs.negative b
  · rw [if_pos hneg, if_pos hneg]
    have hle : (Nat.digits 16 (0xFFFFFF00 + b.toNat)).length ≤ 8 :=
      (Nat.digits_length_le_iff (by omega) _).mpr (by omega)
    have hgt : 7 < (Nat.digits 16 (0xFFFFFF00 + b.toNat)).length :=
      (Nat.lt_digits_length_iff (by omega) _).mpr (by omega)
    omega
  · rw [if_neg hneg, if_neg hneg]
    have hle : (Nat.digits 16 b.toNat).length ≤ 2 :=
      (Nat.digits_length_le_iff (by omega) _).mpr (by omega)
    omega

theorem writeFormat_length (cs : CharSign) (b : UInt8) :
    (writeFormat cs b).length = if cs.negative b then 9 else 3 := by
  unfold writeFormat
  rw [List.length_append, format02X_length]
  split <;> rfl

theorem readFormat_length (cs : CharSign) (b : UInt8) :
    (readFormat cs b).length = if cs.negative b then 11 else 5 := by
  unfold readFormat
  rw [List.length_append, List.length_append, format02X_length]
  split <;> rfl

-- ================================================================== the loops

/-- A text is stored exactly where it fits. -/
theorem CString.store_eq_some_iff {size : Nat} {text : List Char}
    {s : CString size} :
    CString.store size text = some s ↔ s.text = text := by
  unfold CString.store
  split
  case isTrue h =>
    constructor
    · intro heq
      cases heq
      rfl
    · intro heq
      subst heq
      rfl
  case isFalse h =>
    constructor
    · intro heq
      cases heq
    · intro heq
      exact absurd s.fits (heq ▸ h)

theorem CString.store_isSome_iff {size : Nat} {text : List Char} :
    (CString.store size text).isSome = true ↔ text.length + 1 ≤ size := by
  unfold CString.store
  split
  case isTrue h => simp [h]
  case isFalse h => simp [h]

variable {size : Nat} {format : UInt8 → List Char} {bytes : List UInt8}

/-- What the loop leaves in `tmpWrite`: the texts of the bytes, one
behind the other, by induction on the bytes. -/
theorem foldlM_dumpByte {s s' : CString size}
    (h : bytes.foldlM (dumpByte format) s = some s') :
    s'.text = s.text ++ bytes.flatMap format := by
  induction bytes generalizing s with
  | nil =>
      cases h
      simp
  | cons b bytes ih =>
      rw [List.foldlM_cons, Option.bind_eq_bind,
        Option.bind_eq_some_iff] at h
      obtain ⟨s₁, hbyte, hrest⟩ := h
      unfold dumpByte at hbyte
      rw [Option.bind_eq_bind, Option.bind_eq_some_iff] at hbyte
      obtain ⟨tmp2, htmp2, hcat⟩ := hbyte
      rw [ih hrest, CString.store_eq_some_iff.mp hcat,
        CString.store_eq_some_iff.mp htmp2, List.append_assoc,
        List.flatMap_cons]

/-- So a text that is too long for the array is never stored, at
whichever byte the loop fails. -/
theorem dumpBytes_eq_none (h : size ≤ (bytes.flatMap format).length) :
    dumpBytes size format bytes = none := by
  cases hdump : dumpBytes size format bytes with
  | none => rfl
  | some s =>
      unfold dumpBytes at hdump
      rw [Option.bind_eq_bind, Option.bind_eq_some_iff] at hdump
      obtain ⟨s₀, hstart, hloop⟩ := hdump
      have htext := foldlM_dumpByte hloop
      rw [CString.store_eq_some_iff.mp hstart, List.nil_append] at htext
      have hfits := s.fits
      rw [htext] at hfits
      omega

/-- `n` characters or more for each byte make `n` times as many for all
of them. -/
theorem length_flatMap_ge (bytes : List UInt8) (n : Nat)
    (h : ∀ b, n ≤ (format b).length) :
    bytes.length * n ≤ (bytes.flatMap format).length := by
  induction bytes with
  | nil => simp
  | cons b bytes ih =>
      have hb := h b
      rw [List.flatMap_cons, List.length_append, List.length_cons,
        Nat.succ_mul]
      omega

/-- Where the dumps are inside their arrays: never, whatever the packet,
the report and the sign of `char`; the text with its NUL is too long. A
byte's own text fits `tmp2` in hidWrite, and in hidRead unless its
promotion is negative. -/
theorem dumps_never_fit (cs : CharSign) :
    (∀ writeData : List UInt8, hidWriteDump cs writeData = none
      ∧ writeData.length * 3
        < (writeData.flatMap (writeFormat cs)).length + 1)
    ∧ (∀ report : List UInt8, hidReadDump cs (Rsp.ofReport report) = none
      ∧ rspCmdLen * 5
        < ((Rsp.ofReport report).bytes.flatMap (readFormat cs)).length + 1)
    ∧ (∀ b : UInt8,
      (CString.store tmp2Size (writeFormat cs b)).isSome = true)
    ∧ (∀ b : UInt8, (CString.store tmp2Size (readFormat cs b)).isSome = true
      ↔ ¬ cs.negative b) := by
  refine ⟨fun writeData => ?_, fun report => ?_, fun b => ?_, fun b => ?_⟩
  · have hthree : ∀ b, 3 ≤ (writeFormat cs b).length := by
      intro b
      rw [writeFormat_length]
      split <;> omega
    have hlong := length_flatMap_ge writeData 3 hthree
    exact ⟨dumpBytes_eq_none hlong, Nat.lt_succ_of_le hlong⟩
  · have hfive : ∀ b, 5 ≤ (readFormat cs b).length := by
      intro b
      rw [readFormat_length]
      split <;> omega
    have hbytes : (Rsp.ofReport report).bytes.length = rspCmdLen := rfl
    have hlong : rspCmdLen * 5
        ≤ ((Rsp.ofReport report).bytes.flatMap (readFormat cs)).length :=
      hbytes ▸ length_flatMap_ge _ 5 hfive
    exact ⟨dumpBytes_eq_none hlong, Nat.lt_succ_of_le hlong⟩
  · rw [CString.store_isSome_iff, writeFormat_length]
    split <;> decide
  · rw [CString.store_isSome_iff, readFormat_length]
    split
    case isTrue h => simp [h, tmp2Size]
    case isFalse h => simp [h, tmp2Size]

/-- One byte in hidWrite: three characters and the NUL, in three bytes. -/
theorem dumps_do_not_fit :
    ¬ ∀ (cs : CharSign) (writeData report : List UInt8),
      (hidWriteDump cs writeData).isSome = true
        ∧ (hidReadDump cs (Rsp.ofReport report)).isSome = true := by
  intro h
  have hall := h .unsigned [0x52] []
  revert hall
  decide

end BtOta
