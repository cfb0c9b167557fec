/-
Whether the transfer arithmetic is safe.

The progress line takes every DATA record for one of 649 bytes and the
file for a file that is not empty, and `remain_data_len` takes the length
fields for what is left of the file. None of it is checked. An empty
file with a DATA record on the stack behind it divides by zero
(`divides_by_zero`); a record that runs past the end leaves
`remain_data_len` negative; and with DATA records of few bytes the file
has room for more of them than the product has for an `int`.

All sessions of a file are safe, whatever the responses, exactly if the
DATA records that the chain of length fields comes to never add up to
more than the file, and are never more than 33090 (`arithmetic_iff`).
-/
import BtOta.Proofs.Counters

namespace BtOta

-- ============================================================== vocabulary

/-- `INT_MAX`. -/
def intMax : Nat := 2147483647

/-- What ota_update does ahead of the progress line stays inside both
buffers: the reading of the length field, and the fill loop. -/
def Fills (idx len : Nat) : Prop :=
  idx + 2 < fwBufSize ∧ idx + len ≤ fwBufSize ∧ len < cmdBufSize

instance (idx len : Nat) : Decidable (Fills idx len) :=
  inferInstanceAs (Decidable (_ ∧ _))

/-- The DATA records whose product still fits an `int`: the line counts
those before it. -/
def dataLimit : Nat := 33090

/-- The arithmetic of a state is safe: where a DATA record is built, the
division has a divisor and its product fits, and what is left of the
file is not negative, neither before nor behind the record. -/
structure Arithmetic (cs : CharSign) (s : Session) : Prop where
  record : s.snd.pc = .assemble → Fills s.snd.nextIdx s.snd.nextLen →
    (s.snd.filled cs).cmdBuf 5 = dataCmd →
    s.snd.fwDataLen ≠ 0
      ∧ s.g.num1 * dataCmdLen * 100 ≤ intMax
      ∧ 0 ≤ s.snd.remainDataLen - s.snd.nextLen
  remain : 0 ≤ s.snd.remainDataLen

/-- The DATA records up to record `n` add up to no more than the file,
and are few enough for the product. -/
def Adds (fw : Nat → UInt8) (len n : Nat) : Prop :=
  dataBytes fw (n + 1) ≤ len ∧ dataCount fw (n + 1) ≤ dataLimit

/-- The record, if it is a DATA record that is read and filled in at
all, is no more than the file has left and one the product has room
for. -/
def AddsAt (fw : Nat → UInt8) (len n : Nat) : Prop :=
  Fills (cursor fw n) (lenAt fw (cursor fw n)) → IsData fw n →
    Adds fw len n

variable {cs : CharSign} {s : Session} {fw : Nat → UInt8} {len n : Nat}

-- ============================================================== the records

/-- A DATA record is long enough for its command, or the packet would not
have been taken for one. -/
theorem IsData.long (h : IsData fw n) : 5 ≤ lenAt fw (cursor fw n) := by
  by_contra hlt
  unfold IsData at h
  rw [List.getD_eq_default] at h
  · cases h
  · rw [recordAt, List.length_cons, List.length_map, List.length_range]
    omega

theorem dataCount_succ (h : IsData fw n) :
    dataCount fw (n + 1) = dataCount fw n + 1 := by
  rw [dataCount, if_pos h]

theorem dataBytes_succ (h : IsData fw n) :
    dataBytes fw (n + 1) = dataBytes fw n + lenAt fw (cursor fw n) := by
  rw [dataBytes, if_pos h]

theorem dataBytes_succ_of_not (h : ¬ IsData fw n) :
    dataBytes fw (n + 1) = dataBytes fw n := by
  rw [dataBytes, if_neg h, Nat.add_zero]

theorem Builds.fills (h : Builds fw len n) :
    Fills (cursor fw n) (lenAt fw (cursor fw n)) := by
  obtain ⟨hhead, hbody, hcmd⟩ := h.fits
  exact ⟨hhead, hbody, by omega⟩

-- ================================================================ the states

/-- The arithmetic of a state is safe exactly if the records built add
up, and the one about to be built, where there is one, does with
them. -/
theorem CountersInv.adds_iff (hi : CountersInv fw len s)
    (hchain : ChainInv cs fw len s) :
    Arithmetic cs s
      ↔ dataBytes fw s.g.totalCmdNum ≤ len
        ∧ (s.snd.pc = .assemble → AddsAt fw len s.g.totalCmdNum) := by
  have hremain : 0 ≤ s.snd.remainDataLen
      ↔ dataBytes fw s.g.totalCmdNum ≤ len := by
    rw [hi.remain]
    omega
  constructor
  · intro h
    refine ⟨hremain.mp h.remain, fun hpc hfills hdata => ?_⟩
    obtain ⟨-, hproduct, hleft⟩ := h.record hpc
      (by rw [hchain.nextLen, hchain.next]; exact hfills)
      ((hchain.filled_five hpc).mpr hdata)
    rw [hi.remain, hchain.nextLen] at hleft
    rw [hi.num1] at hproduct
    unfold Adds
    rw [dataBytes_succ hdata, dataCount_succ hdata]
    constructor
    · omega
    · unfold dataCmdLen intMax at hproduct
      unfold dataLimit
      omega
  · intro h
    obtain ⟨hsum, hdue⟩ := h
    refine ⟨fun hpc hfills hcmd => ?_, hremain.mpr hsum⟩
    have hdata := (hchain.filled_five hpc).mp hcmd
    rw [hchain.nextLen, hchain.next] at hfills
    obtain ⟨hbytes, hcount⟩ := hdue hpc hfills hdata
    have hlong := hdata.long
    rw [dataBytes_succ hdata] at hbytes
    rw [dataCount_succ hdata] at hcount
    refine ⟨?_, ?_, ?_⟩
    · rw [hchain.fwLen]
      omega
    · rw [hi.num1]
      unfold dataLimit at hcount
      unfold dataCmdLen intMax
      omega
    · rw [hi.remain, hchain.nextLen]
      omega

/-- Records that all add up leave something of the file, by induction on
the records that the chain comes to. -/
theorem dataBytes_le (hall : ∀ n, (∀ m, m < n → Builds fw len m) →
      AddsAt fw len n)
    (hbuilds : ∀ m, m < n → Builds fw len m) : dataBytes fw n ≤ len := by
  induction n with
  | zero => exact Nat.zero_le len
  | succ n ih =>
      have hbefore : ∀ m, m < n → Builds fw len m := fun m hm =>
        hbuilds m (Nat.lt_succ_of_lt hm)
      by_cases hdata : IsData fw n
      · exact (hall n hbefore (hbuilds n (Nat.lt_succ_self n)).fills hdata).1
      · rw [dataBytes_succ_of_not hdata]
        exact ih hbefore

/-- For every file and every sequence of responses, the arithmetic of a
state is safe wherever the records up to it add up; and it is safe
throughout, whatever the responses, exactly if all records add up that
the chain of length fields comes to. -/
theorem arithmetic_iff (cs : CharSign) (g₀ : Shared)
    (param2 : Option String) (stack : Nat → UInt8) (file : List UInt8) :
    (∀ s, Lts.Reach (Session.step cs) Lts.free
        (Session.start g₀ param2 stack file) s →
      (Arithmetic cs s
        ↔ dataBytes (loadedBuf stack file) s.g.totalCmdNum ≤ file.length
          ∧ (s.snd.pc = .assemble →
            AddsAt (loadedBuf stack file) file.length s.g.totalCmdNum)))
    ∧ ((∀ s, Lts.Reach (Session.step cs) Lts.free
          (Session.start g₀ param2 stack file) s → Arithmetic cs s)
        ↔ ∀ n, (∀ m, m < n → Builds (loadedBuf stack file) file.length m) →
          AddsAt (loadedBuf stack file) file.length n) := by
  have hstate : ∀ s, Lts.Reach (Session.step cs) Lts.free
      (Session.start g₀ param2 stack file) s →
      (Arithmetic cs s
        ↔ dataBytes (loadedBuf stack file) s.g.totalCmdNum ≤ file.length
          ∧ (s.snd.pc = .assemble →
            AddsAt (loadedBuf stack file) file.length s.g.totalCmdNum)) :=
    fun s h => (CountersInv.of_reach h).adds_iff (ChainInv.of_reach h)
  refine ⟨hstate, ?_, ?_⟩
  · intro hall n hbuilds
    obtain ⟨s, hr, hat⟩ := reach_record cs g₀ param2 stack file n hbuilds
    have hadds := ((hstate s hr).mp (hall s hr)).2 hat.pc
    rwa [hat.total] at hadds
  · intro hall s hr
    have hbuilt := (ChainInv.of_reach hr).built
    exact (hstate s hr).mpr
      ⟨dataBytes_le hall hbuilt, fun _ => hall _ hbuilt⟩

-- ================================================================ two files

/-- Behind the two records of `dataImage`, on a stack of zeros, the
chain stands still. -/
theorem cursor_dataImage (n : Nat) :
    cursor (loadedBuf (fun _ => 0) dataImage.bytes) (n + 2) = 14 := by
  induction n with
  | zero => decide
  | succ n ih =>
      unfold cursor
      rw [ih]
      decide

/-- So the arithmetic of its sessions is safe, whatever the device
answers. -/
theorem arithmetic_dataImage :
    ∀ s, Lts.Reach (Session.step .unsigned) Lts.free dataImage.session s →
      Arithmetic .unsigned s := by
  refine (arithmetic_iff .unsigned Shared.loaded none _ dataImage.bytes).2.mpr
    fun n _ => ?_
  match n with
  | 0 =>
      intro _ _
      unfold Adds
      decide
  | 1 => exact fun _ hdata => absurd hdata (by decide)
  | n + 2 =>
      intro _ hdata
      unfold IsData at hdata
      rw [cursor_dataImage] at hdata
      exact absurd hdata (by decide)

/-- A DATA record of seven bytes left on the stack. -/
def dataStack (k : Nat) : UInt8 := (Record.data 0 0).bytes.getD k 0

/-- An empty file is taken, and the DATA record behind its end divides
by its length. -/
theorem divides_by_zero :
    ¬ ∀ (cs : CharSign) (g₀ : Shared) (param2 : Option String)
        (stack : Nat → UInt8) (file : List UInt8) (s : Session),
      file.length ≤ fwBufSize →
      Lts.Reach (Session.step cs) Lts.free
        (Session.start g₀ param2 stack file) s →
      Arithmetic cs s := by
  intro h
  obtain ⟨s, hr, hat⟩ := reach_first .unsigned Shared.loaded none dataStack []
  have hsafe := h _ _ _ _ [] s (Nat.zero_le _) hr
  have hchain := ChainInv.of_reach hr
  have hfills : Fills s.snd.nextIdx s.snd.nextLen := by
    rw [hchain.nextLen, hchain.next, hat.total]
    decide
  have hcmd : (s.snd.filled .unsigned).cmdBuf 5 = dataCmd := by
    rw [hchain.filled_five hat.pc, hat.total]
    decide
  exact (hsafe.record hat.pc hfills hcmd).1 hchain.fwLen

end BtOta
