/-
Formatted text: hexadecimal fields as printf writes them, and sscanf,
which reads them back.

A text is a list of characters without its NUL. `printX w n` is what
`%0wX` writes of `n`. A format of sscanf is a list of `Directive`s, and
`sscanf` gives the arguments it stores before the first directive that
fails, so a caller sees what has been stored and what has not. The
numbers are those of a 32-bit `unsigned int`, and white space is that of
the C locale.

The rules at the end read a format from the left over a text that was
written for it: each takes one directive and the field it stands for off
the front (`sscanf_hex`, `sscanf_lit`, `sscanf_space`, `sscanf_str`).
-/
import Mathlib.Data.List.TakeWhile
import Mathlib.Data.Nat.Digits.Lemmas

namespace Scan

-- ==================================================================== digits

/-- isspace. -/
def isSpace (c : Char) : Bool :=
  c == ' ' || (decide ('\t' ≤ c) && decide (c ≤ '\r'))

/-- A digit of `%X`. -/
def hexDigit (d : Nat) : Char := "0123456789ABCDEF".toList.getD d '0'

/-- The value of a digit. -/
def hexValue (c : Char) : Option Nat :=
  if '0' ≤ c ∧ c ≤ '9' then some (c.toNat - '0'.toNat)
  else if 'A' ≤ c ∧ c ≤ 'F' then some (c.toNat - 'A'.toNat + 10)
  else if 'a' ≤ c ∧ c ≤ 'f' then some (c.toNat - 'a'.toNat + 10)
  else none

/-- isxdigit. -/
def isDigit (c : Char) : Bool := (hexValue c).isSome

theorem hexValue_hexDigit {d : Nat} (h : d < 16) :
    hexValue (hexDigit d) = some d := by
  have hall : ∀ d : Fin 16, hexValue (hexDigit d) = some d.val := by decide
  exact hall ⟨d, h⟩

theorem isDigit_hexDigit {d : Nat} (h : d < 16) :
    isDigit (hexDigit d) = true := by
  rw [isDigit, hexValue_hexDigit h]
  rfl

theorem zero_le_of_isDigit {c : Char} (h : isDigit c = true) : '0' ≤ c := by
  unfold isDigit hexValue at h
  split at h
  case isTrue hd => exact hd.1
  case isFalse =>
    split at h
    case isTrue hd => exact Char.le_trans (by decide) hd.1
    case isFalse =>
      split at h
      case isTrue hd => exact Char.le_trans (by decide) hd.1
      case isFalse => cases h

theorem not_isSpace_of_isDigit {c : Char} (h : isDigit c = true) :
    isSpace c = false := by
  have hle := zero_le_of_isDigit h
  have hne : c ≠ ' ' := by
    rintro rfl
    exact absurd hle (by decide)
  have hnot : ¬ c ≤ '\r' := fun hr =>
    absurd (Char.le_trans hle hr) (by decide)
  simp [isSpace, hne, hnot]

/-- The number that digits stand for, read from the left. -/
def valueOf (cs : List Char) : Nat :=
  cs.foldl (fun n c => n * 16 + (hexValue c).getD 0) 0

-- ================================================================== printing

/-- `%0wX`, for a width of at least 1: no more than `w` digits are needed
for what is below `16 ^ w`. -/
def printX (w n : Nat) : List Char :=
  ((Nat.digits 16 n).reverse.map hexDigit).leftpad w '0'

theorem isDigit_of_mem_printX {w n : Nat} {c : Char} (h : c ∈ printX w n) :
    isDigit c = true := by
  rw [printX, List.leftpad, List.mem_append] at h
  rcases h with h | h
  · rw [List.eq_of_mem_replicate h]
    rfl
  · obtain ⟨d, hd, rfl⟩ := List.mem_map.mp h
    exact isDigit_hexDigit
      (Nat.digits_lt_base (by decide) (List.mem_reverse.mp hd))

theorem length_printX {w n : Nat} (h : n < 16 ^ w) :
    (printX w n).length = w := by
  have hle := (Nat.digits_length_le_iff (k := w) (by decide) n).mpr h
  simp [printX, List.leftpad]
  omega

theorem printX_ne_nil {w n : Nat} (hpos : 0 < w) (h : n < 16 ^ w) :
    printX w n ≠ [] := by
  intro hnil
  have hlen := length_printX h
  rw [hnil, List.length_nil] at hlen
  omega

/-- A number printed is not skipped as white space. -/
theorem head_printX {w n : Nat} {rest : List Char} (hpos : 0 < w)
    (h : n < 16 ^ w) :
    ∀ c ∈ (printX w n ++ rest).head?, isSpace c = false := by
  intro c hc
  rw [List.head?_append_of_ne_nil _ (printX_ne_nil hpos h)] at hc
  exact not_isSpace_of_isDigit
    (isDigit_of_mem_printX (List.mem_of_mem_head? hc))

theorem valueOf_printX (w n : Nat) : valueOf (printX w n) = n := by
  have hzeros : ∀ k, (List.replicate k '0').foldl
      (fun n c => n * 16 + (hexValue c).getD 0) 0 = 0 := by
    intro k
    induction k with
    | zero => rfl
    | succ k ih =>
        rw [List.replicate_succ, List.foldl_cons]
        exact ih
  have hdigits : ∀ ds : List Nat, (∀ d ∈ ds, d < 16) →
      valueOf (ds.reverse.map hexDigit) = Nat.ofDigits 16 ds := by
    intro ds hds
    induction ds with
    | nil => rfl
    | cons d ds ih =>
        have hd : d < 16 := hds d List.mem_cons_self
        rw [Nat.ofDigits_cons, ← ih fun d hd => hds d (List.mem_cons_of_mem _ hd)]
        simp only [valueOf, List.reverse_cons, List.map_append,
          List.foldl_append, List.map_cons, List.map_nil, List.foldl_cons,
          List.foldl_nil, hexValue_hexDigit hd, Option.getD_some]
        omega
  rw [valueOf, printX, List.leftpad, List.foldl_append, hzeros]
  exact (hdigits _ fun d hd => Nat.digits_lt_base (by decide) hd).trans
    (Nat.ofDigits_digits 16 n)

-- ================================================================== scanning

/-- An optional sign: whether it is a minus, and what follows it. -/
def sign : List Char → Bool × List Char
  | '-' :: cs => (true, cs)
  | '+' :: cs => (false, cs)
  | cs => (false, cs)

/-- What follows an optional `0x`, which is part of a number for scanf
and for strtol. -/
def unprefixed : List Char → List Char
  | '0' :: 'x' :: cs => cs
  | '0' :: 'X' :: cs => cs
  | cs => cs

/-- The number at the head of an item, with its sign, and how many of
its characters belong to it. An `0x` without a digit is no number. -/
def number (item : List Char) : Option (Bool × Nat × Nat) :=
  let body := unprefixed (sign item).2
  let digits := body.takeWhile isDigit
  if digits = [] then none
  else some ((sign item).1, valueOf digits,
    item.length - body.length + digits.length)

/-- A signed number as an `unsigned int`, modulo `2 ^ 32` as C has it. -/
def unsigned (neg : Bool) (n : Nat) : Nat :=
  (BitVec.ofInt 32 (if neg then -(n : Int) else n)).toNat

/-- `%wX`: the number, and what is left of the text. White space ahead of
it is skipped. -/
def scanX (w : Nat) (s : List Char) : Option (Nat × List Char) :=
  let t := s.dropWhile isSpace
  (number (t.take w)).map fun (neg, n, consumed) =>
    (unsigned neg n, t.drop consumed)

/-- strtol with base 16, for a text that is no longer than a `long`. Of
an `0x` without a digit it takes the `0`. -/
def strtol16 (s : List Char) : Int :=
  let t := s.dropWhile isSpace
  let body := (sign t).2
  let digits := (unprefixed body).takeWhile isDigit
  let n := valueOf (if digits = [] then body.takeWhile isDigit else digits)
  if (sign t).1 then -(n : Int) else n

/-- What a format asks for, one directive at a time. -/
inductive Directive
  /-- this character -/
  | lit (c : Char)
  /-- any amount of white space -/
  | space
  /-- `%wX` -/
  | hex (w : Nat)
  /-- `%ws` -/
  | str (w : Nat)
  /-- `%n` -/
  | count
  deriving DecidableEq, Repr

/-- What a directive stores through its argument. -/
inductive Arg
  | num (n : Nat)
  | text (s : List Char)
  | count (n : Nat)
  deriving DecidableEq, Repr

/-- The arguments stored, `k` characters having been read. A directive
that fails ends the list, and with it what is stored. -/
def sscanf : List Directive → Nat → List Char → List Arg
  | [], _, _ => []
  | .lit c :: ds, k, s =>
      match s with
      | c' :: rest => if c' = c then sscanf ds (k + 1) rest else []
      | [] => []
  | .space :: ds, k, s =>
      let rest := s.dropWhile isSpace
      sscanf ds (k + (s.length - rest.length)) rest
  | .hex w :: ds, k, s =>
      match scanX w s with
      | some (n, rest) =>
          .num n :: sscanf ds (k + (s.length - rest.length)) rest
      | none => []
  | .str w :: ds, k, s =>
      let t := s.dropWhile isSpace
      let item := (t.take w).takeWhile fun c => !isSpace c
      if item = [] then []
      else
        .text item
          :: sscanf ds (k + (s.length - t.length) + item.length)
            (t.drop item.length)
  | .count :: ds, k, s => .count k :: sscanf ds k s

-- ===================================================== what was written is read

theorem sign_of_digits {t : List Char} (h : ∀ c ∈ t, isDigit c = true) :
    sign t = (false, t) := by
  unfold sign
  split
  case h_1 => cases h '-' List.mem_cons_self
  case h_2 => cases h '+' List.mem_cons_self
  case h_3 => rfl

theorem unprefixed_of_digits {t : List Char}
    (h : ∀ c ∈ t, isDigit c = true) : unprefixed t = t := by
  unfold unprefixed
  split
  case h_1 => cases h 'x' (List.mem_cons_of_mem _ List.mem_cons_self)
  case h_2 => cases h 'X' (List.mem_cons_of_mem _ List.mem_cons_self)
  case h_3 => rfl

/-- Digits alone are a number: no sign, no `0x`, and all of them belong
to it. -/
theorem number_of_digits {t : List Char} (h : ∀ c ∈ t, isDigit c = true)
    (hne : t ≠ []) : number t = some (false, valueOf t, t.length) := by
  have hbody : (unprefixed (sign t).2).takeWhile isDigit = t := by
    rw [sign_of_digits h, unprefixed_of_digits h]
    exact List.takeWhile_eq_self_iff.mpr h
  unfold number
  simp only [hbody, if_neg hne]
  rw [sign_of_digits h, unprefixed_of_digits h]
  simp

theorem dropWhile_isSpace_of_head {s : List Char}
    (h : ∀ c ∈ s.head?, isSpace c = false) : s.dropWhile isSpace = s := by
  cases s with
  | nil => rfl
  | cons c s => simp [h c rfl]

theorem unsigned_of_lt {n : Nat} (h : n < 2 ^ 32) : unsigned false n = n := by
  simp only [unsigned, Bool.false_eq_true, if_false]
  rw [show BitVec.ofInt 32 (n : Int) = BitVec.ofNat 32 n from rfl,
    BitVec.toNat_ofNat, Nat.mod_eq_of_lt h]

/-- The digits printed of a number are read as that number, whatever
follows them, since the width ends the field. -/
theorem scanX_printX {w n : Nat} (hpos : 0 < w) (hw : w ≤ 8)
    (hn : n < 16 ^ w) (rest : List Char) :
    scanX w (printX w n ++ rest) = some (n, rest) := by
  have hlen := length_printX hn
  have hskip : (printX w n ++ rest).dropWhile isSpace
      = printX w n ++ rest :=
    dropWhile_isSpace_of_head (head_printX hpos hn)
  have htake : (printX w n ++ rest).take w = printX w n := by
    rw [List.take_append_of_le_length (by omega), List.take_of_length_le
      (by omega)]
  have hlt : n < 2 ^ 32 := by
    calc n < 16 ^ w := hn
      _ ≤ 16 ^ 8 := Nat.pow_le_pow_right (by decide) hw
      _ = 2 ^ 32 := by decide
  unfold scanX
  simp only [hskip, htake]
  rw [number_of_digits (fun c hc => isDigit_of_mem_printX hc)
    (printX_ne_nil hpos hn)]
  simp [valueOf_printX, unsigned_of_lt hlt]

theorem strtol16_printX (w n : Nat) : strtol16 (printX w n) = n := by
  have hd : ∀ c ∈ printX w n, isDigit c = true :=
    fun c hc => isDigit_of_mem_printX hc
  have hskip : (printX w n).dropWhile isSpace = printX w n := by
    apply dropWhile_isSpace_of_head
    intro c hc
    exact not_isSpace_of_isDigit (hd c (List.mem_of_mem_head? hc))
  have hall : (printX w n).takeWhile isDigit = printX w n :=
    List.takeWhile_eq_self_iff.mpr hd
  unfold strtol16
  simp only [hskip, sign_of_digits hd, unprefixed_of_digits hd, hall,
    ite_self, valueOf_printX]
  rfl

section Rules

variable {ds : List Directive} {k w n : Nat} {c : Char}
  {t rest : List Char}

theorem sscanf_lit :
    sscanf (.lit c :: ds) k (c :: rest) = sscanf ds (k + 1) rest := by
  simp [sscanf]

/-- White space is read up to what follows it. -/
theorem sscanf_blanks {blanks : List Char}
    (hblanks : ∀ c ∈ blanks, isSpace c = true)
    (hrest : ∀ c ∈ rest.head?, isSpace c = false) :
    sscanf (.space :: ds) k (blanks ++ rest)
      = sscanf ds (k + blanks.length) rest := by
  simp only [sscanf]
  rw [List.dropWhile_append_of_pos hblanks, dropWhile_isSpace_of_head hrest,
    List.length_append, Nat.add_sub_cancel]

theorem sscanf_space (hc : isSpace c = true)
    (hrest : ∀ c ∈ rest.head?, isSpace c = false) :
    sscanf (.space :: ds) k (c :: rest) = sscanf ds (k + 1) rest :=
  sscanf_blanks (List.forall_mem_singleton.mpr hc) hrest

theorem sscanf_hex (hpos : 0 < w) (hw : w ≤ 8) (hn : n < 16 ^ w) :
    sscanf (.hex w :: ds) k (printX w n ++ rest)
      = .num n :: sscanf ds (k + w) rest := by
  simp [sscanf, scanX_printX hpos hw hn, length_printX hn]

/-- A field without white space is read up to the width. -/
theorem sscanf_str (hne : t ≠ []) (ht : ∀ c ∈ t, isSpace c = false)
    (hw : 0 < w) (hrest : ∀ c ∈ rest.head?, isSpace c = true) :
    sscanf (.str w :: ds) k (t ++ rest)
      = .text (t.take w)
        :: sscanf ds (k + (t.take w).length) (t.drop w ++ rest) := by
  have hskip : (t ++ rest).dropWhile isSpace = t ++ rest := by
    apply dropWhile_isSpace_of_head
    intro c hc
    rw [List.head?_append_of_ne_nil _ hne] at hc
    exact ht c (List.mem_of_mem_head? hc)
  have hitem : ((t ++ rest).take w).takeWhile (fun c => !isSpace c)
      = t.take w := by
    have hfield : ∀ c ∈ t.take w, (!isSpace c) = true := by
      intro c hc
      rw [ht c (List.mem_of_mem_take hc)]
      rfl
    rw [List.take_append, List.takeWhile_append_of_pos hfield]
    cases hr : rest.take (w - t.length) with
    | nil => simp
    | cons c cs =>
        have hc : c ∈ rest.head? := by
          cases rest with
          | nil => simp at hr
          | cons c' rest =>
              cases hn : w - t.length with
              | zero => simp [hn] at hr
              | succ n =>
                  rw [hn, List.take_succ_cons] at hr
                  cases hr
                  rfl
        simp [hrest c hc]
  have hfull : t.take w ≠ [] := by
    simp [hne]
    omega
  have hdrop : (t ++ rest).drop (t.take w).length = t.drop w ++ rest := by
    rw [List.length_take, List.drop_append_of_le_length (Nat.min_le_right ..)]
    congr 1
    rcases Nat.le_total w t.length with hle | hle
    · rw [Nat.min_eq_left hle]
    · rw [Nat.min_eq_right hle, List.drop_length,
        List.drop_of_length_le hle]
  simp only [sscanf, hskip, hitem, if_neg hfull, hdrop, Nat.sub_self,
    Nat.add_zero]

end Rules

end Scan
