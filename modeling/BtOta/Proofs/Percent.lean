/-
The percentages, held against the image.

The progress line counts one percentage up for a DATA record, if
649 bytes for each DATA record before it have come up to that share of
the file. So it never shows more than has been sent, and a packet
transmitted again shows nothing new. But it can only show as many
percentages as there are DATA records, and it looks at the records
before the one it is built for: an image of one DATA record is
transmitted whole under `write data ... 1%` (`stops_at_one`).

100% comes exactly if 649 bytes for each DATA record but the last are 99
percent of the file (`percent_iff`). Where they are, there are more than
100 DATA records, and the percentage then keeps up: a file of 64900
bytes or more gains at most one percent a record, and a smaller one is
ahead of its records.
-/
import BtOta.Proofs.Arithmetic
import BtOta.Proofs.Progress
import Mathlib.Algebra.Ring.Nat
import Mathlib.Data.List.Destutter

namespace BtOta

open EventLog

-- ============================================================== vocabulary

/-- A DATA record. -/
def Record.isData (r : Record) : Bool := r.type == dataCmd

/-- The DATA records of an image. -/
def Image.dataRecords (img : Image) : Nat := img.recs.countP Record.isData

/-- The bytes of an image in the DATA packets among these, each counted
once, however often it was sent. -/
def Image.covered (img : Image) (sent : List (Nat × List UInt8)) : Nat :=
  ((img.packets.filter fun t =>
      t.2.getD 5 0 == dataCmd && decide (t ∈ sent)).map
    fun t => t.2.length - 1).sum

/-- The percentages are 1, 2, 3 and so on, and none is above 100, so the
line never goes back and never repeats. -/
def CountsUp (trace : List Event) : Prop :=
  ∃ m, m ≤ 100 ∧ percentsOf trace = List.range' 1 m

/-- Between two transmissions of one packet no percentage is logged. -/
def OncePerPacket (trace : List Event) : Prop :=
  ∀ before between after k packet packet',
    trace = before ++ .tx k packet :: (between ++ .tx k packet' :: after) →
    percentsOf between = []

/-- Where `p` percent are logged, the DATA packets sent before make up
`p - 1` percent of the image. -/
def CoveredAt (img : Image) (before : List Event) (e : Event) : Prop :=
  ∀ p, e.percent? = some p →
    (p - 1) * img.bytes.length ≤ 100 * img.covered (sentOf before)

/-- Where the last DATA record is transmitted, 100 percent have been
logged. -/
def CompleteAt (img : Image) (before : List Event) (e : Event) : Prop :=
  ∀ k packet, e = .tx k packet → packet.getD 5 0 = dataCmd →
    (∀ r ∈ img.recs.drop k, r.isData = false) → 100 ∈ percentsOf before

/-- What the percentages never get wrong: they count up, once a packet,
and show no more than has been sent. -/
structure Sound (img : Image) (trace : List Event) : Prop where
  counts : CountsUp trace
  once : OncePerPacket trace
  covered : Always (CoveredAt img) trace

/-- Progress reporting is sound, and complete: the last DATA record comes
with 100 percent. -/
structure Reported (img : Image) (trace : List Event) : Prop
    extends Sound img trace where
  complete : Always (CompleteAt img) trace

variable {cs : CharSign} {img : Image} {k n : Nat} {r : Record}
  {stack : Nat → UInt8} {s : Session}

-- ================================================================= the image

/-- An image's record, as it is read from the loaded file. -/
theorem read_image (stack : Nat → UInt8) (hr : img.recs[k]? = some r) :
    lenAt (loadedBuf stack img.bytes) (img.offset k) = r.bytes.length
      ∧ recordAt (loadedBuf stack img.bytes) (img.offset k) r.bytes.length
        = r.packet :=
  Image.read_record (loaded_start Shared.loaded none stack img.bytes).buf hr

/-- The chain of an image's file goes along its records, whatever lies
behind the file. -/
theorem cursor_image (stack : Nat → UInt8) (hk : k ≤ img.recs.length) :
    cursor (loadedBuf stack img.bytes) k = img.offset k := by
  induction k with
  | zero => rfl
  | succ k ih =>
      obtain ⟨r, hr⟩ := Image.exists_rec hk
      rw [cursor, ih (Nat.le_of_succ_le hk), (read_image stack hr).1,
        Image.offset_succ hr]

theorem isData_image (stack : Nat → UInt8) (hr : img.recs[k]? = some r) :
    IsData (loadedBuf stack img.bytes) k ↔ r.isData = true := by
  obtain ⟨hlen, hrec⟩ := read_image stack hr
  have hk := (List.getElem?_eq_some_iff.mp hr).1
  unfold IsData Record.isData
  rw [cursor_image stack (Nat.le_of_lt hk), hlen, hrec, r.getD_packet,
    beq_iff_eq]

/-- The DATA records along the chain are the image's. -/
theorem dataCount_image (stack : Nat → UInt8) (hn : n ≤ img.recs.length) :
    dataCount (loadedBuf stack img.bytes) n
      = (img.recs.take n).countP Record.isData := by
  induction n with
  | zero => rfl
  | succ n ih =>
      obtain ⟨r, hr⟩ := Image.exists_rec hn
      rw [dataCount, ih (Nat.le_of_succ_le hn), List.take_add_one, hr,
        List.countP_append]
      simp only [isData_image stack hr, Option.toList_some,
        List.countP_singleton]

theorem Image.packets_map_fst (img : Image) :
    img.packets.map Prod.fst = List.range' 1 img.recs.length := by
  apply List.ext_getElem (by simp)
  intro j hj hj'
  simp [packets, Nat.add_comm]

theorem Image.packets_map_snd (img : Image) :
    img.packets.map Prod.snd = img.recs.map Record.packet := by
  apply List.ext_getElem (by simp)
  intro j hj hj'
  simp [packets]

/-- Somewhere there is the last record of a kind, by induction from the
end of the list. -/
theorem exists_last {p : Record → Bool} {recs : List Record}
    (h : ∃ r ∈ recs, p r = true) :
    ∃ k r, recs[k]? = some r ∧ p r = true
      ∧ ∀ r' ∈ recs.drop (k + 1), p r' = false := by
  induction recs with
  | nil =>
      obtain ⟨r, hr, -⟩ := h
      cases hr
  | cons r₀ recs ih =>
      by_cases hrest : ∃ r ∈ recs, p r = true
      · obtain ⟨k, r, hr, hp, hlast⟩ := ih hrest
        exact ⟨k + 1, r, hr, hp, hlast⟩
      · obtain ⟨r, hr, hp⟩ := h
        rcases List.mem_cons.mp hr with rfl | hr
        · refine ⟨0, r, rfl, hp, fun r' hr' => ?_⟩
          by_contra hne
          exact hrest ⟨r', hr', by simpa using hne⟩
        · exact absurd ⟨r, hr, hp⟩ hrest

/-- Behind the last DATA record all have been counted, since the ones
that follow are none. -/
theorem Image.countP_take (img : Image)
    (hlast : ∀ r ∈ img.recs.drop k, r.isData = false) :
    (img.recs.take k).countP Record.isData = img.dataRecords := by
  have hnone : (img.recs.drop k).countP Record.isData = 0 :=
    List.countP_eq_zero.mpr fun r hr => by simp [hlast r hr]
  have hsplit : img.dataRecords
      = (img.recs.take k).countP Record.isData
        + (img.recs.drop k).countP Record.isData := by
    rw [← List.countP_append, List.take_append_drop]
    rfl
  rw [hsplit, hnone, Nat.add_zero]

/-- DATA records of the length assumed leave room for the FINISH
record. -/
theorem Image.dataRecords_fit (img : Image)
    (hlen : ∀ r ∈ img.recs, r.isData = true →
      r.bytes.length = dataCmdLen) :
    dataCmdLen * img.dataRecords + 7 ≤ img.bytes.length := by
  obtain ⟨body, fin, hrecs, hfin, -⟩ := img.finishLast
  have hlower := fin.lower
  have hbody : ∀ recs : List Record,
      (∀ r ∈ recs, r.isData = true → r.bytes.length = dataCmdLen) →
      dataCmdLen * recs.countP Record.isData
        ≤ (recs.flatMap Record.bytes).length := by
    intro recs hrecs
    induction recs with
    | nil => exact Nat.zero_le _
    | cons r recs ih =>
        have hrest := ih fun r' hr' => hrecs r' (List.mem_cons_of_mem r hr')
        rw [List.countP_cons, List.flatMap_cons, List.length_append,
          Nat.mul_add]
        split
        case isTrue hd =>
          have hr := hrecs r (List.mem_cons_self ..) hd
          omega
        case isFalse => omega
  have hnot : fin.isData = false := by
    unfold Record.isData
    rw [hfin]
    rfl
  have hsum := hbody body fun r hr => hlen r (by simp [hrecs, hr])
  have hfile : img.bytes.length
      = (body.flatMap Record.bytes).length + fin.bytes.length := by
    rw [Image.bytes, hrecs, List.flatMap_append, List.length_append,
      List.flatMap_singleton]
  have hcount : img.dataRecords = body.countP Record.isData := by
    rw [dataRecords, hrecs, List.countP_append, List.countP_singleton,
      hnot]
    rfl
  rw [hfile, hcount]
  omega

/-- They are few enough for the product, as the file is no longer than
the buffer. -/
theorem Image.dataRecords_lt (img : Image)
    (hfit : dataCmdLen * img.dataRecords + 7 ≤ img.bytes.length) :
    img.dataRecords < dataLimit := by
  have hfits : img.bytes.length ≤ fwBufSize := img.fits
  unfold dataCmdLen at hfit
  unfold fwBufSize at hfits
  unfold dataLimit
  omega

-- ================================================================= the ratio

/-- The product of an image's records fits an `int`, so the division is
that of the numbers. -/
theorem ratio_eq {len : Nat} (hk : k < dataLimit) :
    ratio len k = ((k * dataCmdLen * 100 / len : Nat) : Int) := by
  have hbound : k * dataCmdLen * 100 < 0x80000000 := by
    unfold dataLimit at hk
    unfold dataCmdLen
    omega
  have hwrap : int32 ((k * dataCmdLen * 100 : Nat) : Int)
      = ((k * dataCmdLen * 100 : Nat) : Int) := by
    unfold int32
    exact Int.bmod_eq_of_le (by omega) (by omega)
  rw [Int.ofNat_tdiv, ← hwrap]
  rfl

/-- A percentage is due once the records before have come up to it, by
multiplying out the division. -/
theorem le_ratio_iff {len p : Nat} (hlen : 0 < len) (hk : k < dataLimit) :
    (p : Int) ≤ ratio len k ↔ p * len ≤ k * dataCmdLen * 100 := by
  rw [ratio_eq hk, Int.ofNat_le, Nat.le_div_iff_mul_le hlen]

/-- The ratio never gets away from the percentage: in a large file it
gains at most one a record, and in a small one the percentage has as
many records to follow it. -/
theorem ratio_keeps {len : Nat} (hlen : 0 < len)
    (hk : k + 1 < dataLimit) :
    ratio len (k + 1) ≤ ratio len k + 1 ∨ (k : Int) ≤ ratio len k := by
  by_cases hlarge : dataCmdLen * 100 ≤ len
  · refine Or.inl ?_
    rw [ratio_eq hk, ratio_eq (Nat.lt_of_succ_lt hk)]
    have hstep : (k + 1) * dataCmdLen * 100
        ≤ k * dataCmdLen * 100 + len := by
      rw [Nat.succ_mul, Nat.add_mul]
      omega
    have hdiv : (k + 1) * dataCmdLen * 100 / len
        ≤ k * dataCmdLen * 100 / len + 1 := by
      rw [← Nat.add_div_right _ hlen]
      exact Nat.div_le_div_right hstep
    omega
  · refine Or.inr ((le_ratio_iff hlen (Nat.lt_of_succ_lt hk)).mpr ?_)
    rw [Nat.mul_assoc]
    exact Nat.mul_le_mul_left k (by omega)

/-- The percentage behind all DATA records is 100 exactly if those but
the last are 99 percent of the file. -/
theorem hundred_iff {len d : Nat} (hd : 0 < d)
    (hfit : dataCmdLen * d < len) (hlen : len ≤ fwBufSize) :
    percentAfter len d = 100 ↔ 99 * len ≤ (d - 1) * dataCmdLen * 100 := by
  have hlimit : d < dataLimit := by
    unfold dataCmdLen at hfit
    unfold fwBufSize at hlen
    unfold dataLimit
    omega
  have hpos : 0 < len := Nat.zero_lt_of_lt hfit
  constructor
  · intro h
    have hlt : 99 < Ratchet.value (ratio len) 100 d := by
      unfold percentAfter at h
      omega
    obtain ⟨j, hj, -, hreached⟩ := Ratchet.reached_of_lt hlt
    have hreach := (le_ratio_iff (p := 99) hpos (by omega)).mp hreached
    have hle : j * dataCmdLen * 100 ≤ (d - 1) * dataCmdLen * 100 :=
      Nat.mul_le_mul_right _ (Nat.mul_le_mul_right _ (by omega))
    exact Nat.le_trans hreach hle
  · intro h
    have hmany : 99 ≤ d - 1 := by
      unfold dataCmdLen at hfit h
      omega
    have hkeeps := Ratchet.keeps_up (f := ratio len) (m := 99) (k := d - 1)
      (fun j hj => ratio_keeps hpos (by omega)) (show 99 < 100 by omega) hmany
      ((le_ratio_iff hpos (by omega)).mpr h)
    rw [Nat.sub_add_cancel hd] at hkeeps
    have hcap := Ratchet.value_le_cap (ratio len) 100 d
    unfold percentAfter
    omega

-- ================================================================== the runs

/-- The session has succeeded, and what it has written is the image's
packets in order, retransmissions left out. -/
structure Transmitted (img : Image) (s : Session) : Prop where
  all : (sentOf s.trace).destutter (· ≠ ·) = img.packets
  success : s.snd.pc.succeeding = true

/-- Leaving repetitions out leaves nothing out: what occurs still occurs.
-/
theorem mem_destutter {α : Type} [DecidableEq α] {x : α} {xs : List α}
    (hx : x ∈ xs) : x ∈ xs.destutter (· ≠ ·) := by
  have htail : ∀ (a : α) (ys : List α), x ∈ a :: ys →
      x ∈ ys.destutter' (· ≠ ·) a := by
    intro a ys
    induction ys generalizing a with
    | nil => exact id
    | cons b ys ih =>
        intro hmem
        rw [List.destutter'_cons]
        split
        case isTrue =>
          rcases List.mem_cons.mp hmem with rfl | hmem
          · exact List.mem_cons_self ..
          · exact List.mem_cons_of_mem _ (ih b hmem)
        case isFalse hab =>
          apply ih a
          rcases List.mem_cons.mp hmem with rfl | hmem
          · exact List.mem_cons_self ..
          · rwa [Decidable.not_not.mp hab]
  cases xs with
  | nil => cases hx
  | cons a xs => exact htail a xs hx

theorem Transmitted.mem_iff (h : Transmitted img s)
    {t : Nat × List UInt8} : t ∈ sentOf s.trace ↔ t ∈ img.packets := by
  rw [← h.all]
  exact ⟨mem_destutter, fun ht => (List.destutter_sublist _ _).subset ht⟩

theorem mem_sentOf {trace : List Event} {k : Nat} {packet : List UInt8} :
    (k, packet) ∈ sentOf trace ↔ .tx k packet ∈ trace := by
  unfold sentOf
  rw [List.mem_filterMap]
  constructor
  · intro h
    obtain ⟨e, he, hsent⟩ := h
    cases e with
    | tx k' packet' =>
        cases hsent
        exact he
    | _ => cases hsent
  · intro h
    exact ⟨_, h, rfl⟩

/-- No packet behind the image has been begun, since it would have been
written. -/
theorem Transmitted.total_le {fw : Nat → UInt8} {len : Nat}
    (h : Transmitted img s) (hi : CountersInv fw len s) :
    s.g.totalCmdNum ≤ img.recs.length := by
  by_contra hgt
  have hsettled : s.snd.pc.settled = true := by
    rw [SPc.settled, h.success, Bool.or_true]
  obtain ⟨packet, hmem⟩ := hi.last hsettled s.g.totalCmdNum (by omega)
    (Nat.le_refl _)
  obtain ⟨j, r, hk, hr, -⟩ := Image.mem_packets (h.mem_iff.mp hmem)
  have hj := (List.getElem?_eq_some_iff.mp hr).1
  omega

/-- What has been transmitted of the image under a number is the record
with that number. -/
theorem SentUpTo.mem {before : List Event} (hup : SentUpTo n before)
    (hsent : ∀ t ∈ sentOf before, t ∈ img.packets) (hk : k < n)
    (hr : img.recs[k]? = some r) : (k + 1, r.packet) ∈ sentOf before := by
  obtain ⟨packet, hmem⟩ := hup (k + 1) (Nat.succ_pos k) hk
  obtain ⟨j, r', hj, hr', hpacket⟩ := Image.mem_packets (hsent _ hmem)
  obtain rfl : k = j := Nat.succ.inj hj
  rw [hr] at hr'
  cases hr'
  exact hpacket ▸ hmem

/-- The first records, once transmitted, are covered, with 649 bytes for
each DATA record among them. -/
theorem Image.covered_ge {before : List Event}
    (hlen : ∀ r ∈ img.recs, r.isData = true →
      r.bytes.length = dataCmdLen)
    (hsent : ∀ t ∈ sentOf before, t ∈ img.packets)
    (hup : SentUpTo n before) :
    dataCmdLen * (img.recs.take n).countP Record.isData
      ≤ img.covered (sentOf before) := by
  have hkept : (img.packets.take n).filter (fun t =>
        t.2.getD 5 0 == dataCmd && decide (t ∈ sentOf before))
      = (img.packets.take n).filter fun t => t.2.getD 5 0 == dataCmd := by
    apply List.filter_congr
    intro t ht
    obtain ⟨j, r, hj, hr, rfl⟩ := Image.mem_take_packets ht
    rw [decide_eq_true (hup.mem hsent hj hr), Bool.and_true]
  have hbytes : ((img.packets.take n).filter fun t =>
        t.2.getD 5 0 == dataCmd).map (fun t => t.2.length - 1)
      = List.replicate ((img.packets.take n).countP fun t =>
          t.2.getD 5 0 == dataCmd) dataCmdLen := by
    rw [List.countP_eq_length_filter, ← List.map_const']
    apply List.map_congr_left
    intro t ht
    obtain ⟨hmem, hdata⟩ := List.mem_filter.mp ht
    obtain ⟨j, r, -, hr, rfl⟩ := Image.mem_take_packets hmem
    exact hlen r (List.mem_of_getElem? hr) hdata
  have hcount : (img.packets.take n).countP (fun t =>
        t.2.getD 5 0 == dataCmd)
      = (img.recs.take n).countP Record.isData := by
    calc (img.packets.take n).countP (fun t => t.2.getD 5 0 == dataCmd)
        = ((img.packets.take n).map Prod.snd).countP
            fun p => p.getD 5 0 == dataCmd := by
          rw [List.countP_map]
          rfl
      _ = ((img.recs.take n).map Record.packet).countP
            fun p => p.getD 5 0 == dataCmd := by
          rw [List.map_take, img.packets_map_snd, ← List.map_take]
      _ = (img.recs.take n).countP Record.isData := List.countP_map
  rw [covered, ← List.take_append_drop n img.packets, List.filter_append,
    List.map_append, List.sum_append, hkept, hbytes,
    List.sum_replicate_nat, hcount, Nat.mul_comm]
  exact Nat.le_add_right _ _

theorem countsUp {fw : Nat → UInt8} {len : Nat}
    (hi : CountersInv fw len s) : CountsUp s.trace := by
  refine ⟨s.g.num2, ?_, hi.lines⟩
  rw [hi.num2]
  exact Ratchet.value_le_cap _ _ _

theorem oncePerPacket {fw : Nat → UInt8} {len : Nat}
    (hi : CountersInv fw len s) : OncePerPacket s.trace := by
  intro before between after k packet packet' htrace
  have hfirst := hi.tx before _ _ htrace k packet rfl
  have hagain := hi.tx (before ++ .tx k packet :: between)
    (.tx k packet') after (by simp [htrace]) k packet' rfl
  rw [percentsOf_append, hfirst] at hagain
  exact List.append_right_eq_self.mp hagain

theorem Transmitted.coveredAt (h : Transmitted img s)
    (hlen : ∀ r ∈ img.recs, r.isData = true →
      r.bytes.length = dataCmdLen)
    (hi : CountersInv (loadedBuf stack img.bytes) img.bytes.length s) :
    Always (CoveredAt img) s.trace := by
  intro before e after htrace p hp
  obtain ⟨n, hn, hpercent, hdue, hup⟩ := hi.logged before e after htrace p hp
  have hin : n ≤ img.recs.length :=
    Nat.le_of_lt (Nat.lt_of_lt_of_le hn (h.total_le hi))
  have hfit := img.dataRecords_fit hlen
  have hlimit : (img.recs.take n).countP Record.isData < dataLimit :=
    Nat.lt_of_le_of_lt ((List.take_sublist n _).countP_le)
      (img.dataRecords_lt hfit)
  have hsent : ∀ t ∈ sentOf before, t ∈ img.packets := by
    intro t ht
    rw [← h.mem_iff, htrace, sentOf_append]
    exact List.mem_append_left _ ht
  rw [dataCount_image stack hin] at hpercent hdue
  have hreach := (le_ratio_iff (by omega) hlimit).mp hdue
  have hcovered := Image.covered_ge hlen hsent hup
  rw [hpercent, Nat.add_sub_cancel]
  refine Nat.le_trans hreach ?_
  rw [Nat.mul_comm _ 100, Nat.mul_comm _ dataCmdLen]
  exact Nat.mul_le_mul_left 100 hcovered

/-- Where the last DATA record is transmitted, the percentage is that
behind all of them. -/
theorem Transmitted.completeAt_iff (h : Transmitted img s)
    (hdata : ∃ r ∈ img.recs, r.isData = true)
    (hi : CountersInv (loadedBuf stack img.bytes) img.bytes.length s) :
    Always (CompleteAt img) s.trace
      ↔ percentAfter img.bytes.length img.dataRecords = 100 := by
  have hlines : ∀ before k packet after,
      s.trace = before ++ .tx k packet :: after →
      (∀ r ∈ img.recs.drop k, r.isData = false) →
      percentsOf before = List.range' 1
        (percentAfter img.bytes.length img.dataRecords) := by
    intro before k packet after htrace hlast
    have hmem : (k, packet) ∈ img.packets := by
      rw [← h.mem_iff, mem_sentOf, htrace]
      exact List.mem_append_cons_self
    obtain ⟨j, r, rfl, hr, -⟩ := Image.mem_packets hmem
    have hj := (List.getElem?_eq_some_iff.mp hr).1
    rw [hi.tx before _ after htrace (j + 1) packet rfl,
      dataCount_image stack hj, img.countP_take hlast]
  constructor
  · intro hall
    obtain ⟨k, r, hr, hd, hlast⟩ := exists_last hdata
    have hmem : .tx (k + 1) r.packet ∈ s.trace := by
      rw [← mem_sentOf, h.mem_iff]
      exact List.mem_of_getElem? (Image.getElem?_packets hr)
    obtain ⟨before, after, htrace⟩ := List.append_of_mem hmem
    have hundred := hall before _ after htrace (k + 1) r.packet rfl
      (beq_iff_eq.mp hd) hlast
    rw [hlines before _ _ after htrace hlast, List.mem_range'_1] at hundred
    have hcap : percentAfter img.bytes.length img.dataRecords ≤ 100 :=
      Ratchet.value_le_cap _ _ _
    omega
  · intro heq before e after htrace k packet he hd hlast
    subst he
    rw [hlines before k packet after htrace hlast, heq, List.mem_range'_1]
    omega

/-- 100 percent are reported by the last DATA record exactly if the
records but the last are 99 percent of the file. -/
theorem Transmitted.complete_iff (h : Transmitted img s)
    (hdata : ∃ r ∈ img.recs, r.isData = true)
    (hlen : ∀ r ∈ img.recs, r.isData = true →
      r.bytes.length = dataCmdLen)
    (hi : CountersInv (loadedBuf stack img.bytes) img.bytes.length s) :
    Always (CompleteAt img) s.trace
      ↔ 99 * img.bytes.length ≤ (img.dataRecords - 1) * dataCmdLen * 100 := by
  have hpos : 0 < img.dataRecords := List.countP_pos_iff.mpr hdata
  have hfit := img.dataRecords_fit hlen
  have hfits : img.bytes.length ≤ fwBufSize := img.fits
  rw [h.completeAt_iff hdata hi]
  exact hundred_iff hpos (by omega) hfits

/-- For every well-formed image whose DATA records have the length
assumed, and every run that transmits all its records in order and
succeeds, the percentages are sound; and 100 percent are reported by the
last DATA record exactly if 649 bytes for each DATA record but the last
are 99 percent of the file. -/
theorem percent_iff {g₀ : Shared} {param2 : Option String}
    (hdata : ∃ r ∈ img.recs, r.isData = true)
    (hlen : ∀ r ∈ img.recs, r.isData = true →
      r.bytes.length = dataCmdLen)
    (hr : Lts.Reach (Session.step cs) Lts.free
      (Session.start g₀ param2 stack img.bytes) s)
    (h : Transmitted img s) :
    Sound img s.trace
      ∧ (Reported img s.trace ↔
        99 * img.bytes.length
          ≤ (img.dataRecords - 1) * dataCmdLen * 100) := by
  have hi := CountersInv.of_reach hr
  have hsound : Sound img s.trace :=
    ⟨countsUp hi, oncePerPacket hi, h.coveredAt hlen hi⟩
  refine ⟨hsound, ?_⟩
  rw [← h.complete_iff hdata hlen hi]
  exact ⟨fun hrep => hrep.complete, fun hall => ⟨hsound, hall⟩⟩

-- =============================================================== two images

/-- The bytes of a DATA record of the length assumed. -/
def longBytes : List UInt8 :=
  [0xF0, 0x89, 0x02, 0, dataCmd, 0, 0] ++ List.replicate 642 0

theorem length_longBytes : longBytes.length = dataCmdLen := by
  rw [longBytes, List.length_append, List.length_replicate]
  rfl

/-- The record. -/
def Record.long : Record where
  bytes := longBytes
  lower := by
    rw [length_longBytes]
    decide
  upper := by
    rw [length_longBytes]
    decide
  selfLen := by
    rw [length_longBytes]
    rfl
  hasType := Or.inr (Or.inl rfl)

theorem length_longs (n : Nat) :
    ((List.replicate n Record.long ++ [Record.finish]).flatMap
      Record.bytes).length = dataCmdLen * n + 7 := by
  rw [List.flatMap_append, List.length_append, List.length_flatMap,
    List.map_replicate, List.sum_replicate_nat, Nat.mul_comm]
  exact congrArg (· * n + 7) length_longBytes

/-- `n` of them, and a FINISH record. -/
def longImage (n : Nat) (hn : n ≤ 807) : Image :=
  .close (List.replicate n Record.long)
    (fun r hr => by
      rw [List.eq_of_mem_replicate hr]
      decide)
    (by
      rw [length_longs]
      unfold dataCmdLen fwBufSize
      omega)

theorem longImage_facts {n : Nat} (hpos : 0 < n) (hn : n ≤ 807) :
    (∃ r ∈ (longImage n hn).recs, r.isData = true)
      ∧ (∀ r ∈ (longImage n hn).recs, r.isData = true →
        r.bytes.length = dataCmdLen)
      ∧ (longImage n hn).dataRecords = n
      ∧ (longImage n hn).bytes.length = dataCmdLen * n + 7 := by
  have hlong : Record.long.isData = true := by decide
  refine ⟨⟨Record.long, ?_, hlong⟩, ?_, ?_, length_longs n⟩
  · apply List.mem_append_left
    exact List.mem_replicate.mpr ⟨Nat.ne_of_gt hpos, rfl⟩
  · intro r hr hd
    rcases List.mem_append.mp hr with hr | hr
    · rw [List.eq_of_mem_replicate hr]
      exact length_longBytes
    · rw [List.mem_singleton.mp hr] at hd
      exact absurd hd (by decide)
  · show (List.replicate n Record.long ++ [Record.finish]).countP
      Record.isData = n
    rw [List.countP_append, List.countP_replicate, if_pos hlong]
    rfl

/-- Packets written once each are the image's in order. -/
theorem transmitted_of_sent (h : sentOf s.trace = img.packets)
    (hsucc : s.snd.pc.succeeding = true) : Transmitted img s := by
  refine ⟨?_, hsucc⟩
  have hnodup : img.packets.Nodup := by
    apply List.Nodup.of_map Prod.fst
    rw [img.packets_map_fst]
    exact List.nodup_range'
  rw [h]
  exact List.destutter_of_isChain _ _ hnodup.isChain

/-- An image of 200 such records is reported whole: those but the last
are 99 percent of it. -/
theorem percent_twoHundred :
    ∃ s, Lts.Reach (Session.step .unsigned) Lts.free
        (Session.start Shared.loaded none (fun _ => 0)
          (longImage 200 (by decide)).bytes) s
      ∧ Reported (longImage 200 (by decide)) s.trace := by
  obtain ⟨s, hr, hsent, hsucc⟩ := exists_transfer .unsigned Shared.loaded
    none (fun _ => 0) (longImage 200 (by decide))
  obtain ⟨hdata, hlen, hcount, hfile⟩ :=
    longImage_facts (n := 200) (by decide) (by decide)
  refine ⟨s, hr, (percent_iff hdata hlen hr
    (transmitted_of_sent hsent hsucc)).2.mpr ?_⟩
  rw [hcount, hfile]
  decide

/-- An image of one DATA record is transmitted whole, and its last
percentage is 1. -/
theorem stops_at_one :
    ¬ ∀ (cs : CharSign) (g₀ : Shared) (param2 : Option String)
        (stack : Nat → UInt8) (img : Image) (s : Session),
      (∃ r ∈ img.recs, r.isData = true) →
      (∀ r ∈ img.recs, r.isData = true → r.bytes.length = dataCmdLen) →
      Lts.Reach (Session.step cs) Lts.free
        (Session.start g₀ param2 stack img.bytes) s →
      Transmitted img s → Reported img s.trace := by
  intro h
  obtain ⟨s, hr, hsent, hsucc⟩ := exists_transfer .unsigned Shared.loaded
    none (fun _ => 0) (longImage 1 (by decide))
  obtain ⟨hdata, hlen, hcount, hfile⟩ :=
    longImage_facts (n := 1) (by decide) (by decide)
  have htrans := transmitted_of_sent hsent hsucc
  have hrep := h _ _ _ _ _ s hdata hlen hr htrans
  have hreach := (htrans.complete_iff hdata hlen
    (CountersInv.of_reach hr)).mp hrep.complete
  rw [hcount, hfile] at hreach
  exact absurd hreach (by decide)

end BtOta
