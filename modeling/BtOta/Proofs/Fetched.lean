/-
What get_sdp_device_info makes of a device's records.

# The quirk

epox_endian_quirk is to correct each occurrence of a pattern in the
report descriptor. Its loop stops one position early, so an occurrence
that ends the descriptor stays as it is; every other one is corrected,
and nothing else is touched (`quirk_exact`). Occurrences do not overlap,
since the pattern's first byte is in it only once, so the corrections of
one do not disturb another. A descriptor shorter than the pattern makes
the unsigned bound wrap, and the loop reads past its end.

# The buffers

The name is put together in `char name[128]`. strncat is given the room
left without one for the NUL, and strcat nothing at all, so a provider
and a description that fill the buffer are written past its end.
`fetch_inside` says exactly when the function stays inside its arrays.
-/
import BtOta.Proofs.Stored

namespace BtOta

-- ================================================================= the pattern

theorem matchesAt_iff {data : List UInt8} {i : Nat} :
    matchesAt data i = true ↔ ∀ t < 12, data[i + t]? = pattern[t]? := by
  have hlen : pattern.length = 12 := rfl
  rw [matchesAt, hlen, beq_iff_eq, List.ext_getElem?_iff]
  constructor
  · intro h t ht
    have hget := h t
    rwa [List.getElem?_take_of_lt ht, List.getElem?_drop] at hget
  · intro h t
    rcases Nat.lt_or_ge t 12 with ht | ht
    · rw [List.getElem?_take_of_lt ht, List.getElem?_drop]
      exact h t ht
    · have htake : ((data.drop i).take 12).length ≤ 12 := by
        rw [List.length_take]
        exact Nat.min_le_left ..
      rw [List.getElem?_eq_none (Nat.le_trans htake ht),
        List.getElem?_eq_none (hlen.trans_le ht)]

theorem first_only : ∀ t < 12, 0 < t → pattern[t]? ≠ some 0x05 := by
  decide

/-- Occurrences do not overlap: the pattern begins with a byte that it
does not have again. -/
theorem matchesAt_apart {data : List UInt8} {i j : Nat}
    (hi : matchesAt data i = true) (hj : matchesAt data j = true)
    (hlt : i < j) : i + 12 ≤ j := by
  by_contra hnear
  have hfirst := matchesAt_iff.mp hj 0 (by decide)
  have hinner := matchesAt_iff.mp hi (j - i) (by omega)
  rw [show i + (j - i) = j + 0 by omega, hfirst] at hinner
  exact first_only (j - i) (by omega) (by omega) hinner.symm

-- ============================================================== the correction

/-- Byte `k`, with the occurrences before `n` corrected. -/
def correctedByte (data : List UInt8) (n k : Nat) (b : UInt8) : UInt8 :=
  if ∃ i < n, matchesAt data i = true ∧ (k = i + 5 ∨ k = i + 10) then 0xff
  else if ∃ i < n, matchesAt data i = true ∧ (k = i + 6 ∨ k = i + 11) then
    0x00
  else b

/-- The descriptor with the occurrences before `n` corrected, as a
function of the original alone. -/
def corrected (data : List UInt8) (n : Nat) : List UInt8 :=
  data.mapIdx (correctedByte data n)

variable {data : List UInt8} {i j k n : Nat}

theorem getElem?_corrected :
    (corrected data n)[k]? = data[k]?.map (correctedByte data n k) :=
  List.getElem?_mapIdx

/-- A byte that no correction is about stays. -/
theorem correctedByte_of_not (b : UInt8)
    (h : ∀ i < n, matchesAt data i = true → k < i + 5 ∨ i + 11 < k
      ∨ i + 6 < k ∧ k < i + 10) : correctedByte data n k b = b := by
  unfold correctedByte
  rw [if_neg, if_neg]
  · rintro ⟨i, hi, hm, hk⟩
    have hfar := h i hi hm
    omega
  · rintro ⟨i, hi, hm, hk⟩
    have hfar := h i hi hm
    omega

theorem corrected_zero (data : List UInt8) : corrected data 0 = data := by
  apply List.ext_getElem?
  intro k
  rw [getElem?_corrected]
  cases hb : data[k]? with
  | none => rfl
  | some b =>
      rw [Option.map_some, correctedByte_of_not]
      intro i hi
      omega

/-- No correction is about the bytes of a place that is clear of the
occurrences. -/
theorem corrected_window (h : ∀ j < n, matchesAt data j = true →
      j + 12 ≤ i ∨ i + 12 ≤ j) :
    ∀ t < 12, (corrected data n)[i + t]? = data[i + t]? := by
  intro t ht
  rw [getElem?_corrected]
  cases hb : data[i + t]? with
  | none => rfl
  | some b =>
      rw [Option.map_some, correctedByte_of_not]
      intro j hj hm
      have hclear := h j hj hm
      omega

/-- Inside an occurrence there is no first byte of another, corrected or
not, so no correction makes a new one. -/
theorem corrected_inner (hm : matchesAt data j = true)
    (hlt : j < i) (hnear : i < j + 12) :
    (corrected data n)[i]? ≠ some 0x05 := by
  rw [getElem?_corrected]
  have hinner := matchesAt_iff.mp hm (i - j) (by omega)
  rw [show j + (i - j) = i by omega] at hinner
  rw [hinner]
  have hnot := first_only (i - j) (by omega) (by omega)
  cases hp : pattern[i - j]? with
  | none => exact nofun
  | some b =>
      rw [hp] at hnot
      rw [Option.map_some]
      unfold correctedByte
      split
      · exact nofun
      · split
        · exact nofun
        · exact hnot

/-- An occurrence is inside the descriptor. -/
theorem lt_of_matchesAt (h : matchesAt data i = true) :
    i + 12 ≤ data.length := by
  have hlast := matchesAt_iff.mp h 11 (by decide)
  have hlt := (List.getElem?_eq_some_iff.mp
    (hlast.trans (show pattern[11]? = some 0xff from rfl))).1
  omega

theorem getElem?_swapAt (h : n + 12 ≤ data.length) :
    (swapAt data n)[k]?
      = if k = n + 5 ∨ k = n + 10 then some 0xff
        else if k = n + 6 ∨ k = n + 11 then some 0x00
        else data[k]? := by
  simp only [swapAt, List.getElem?_set, List.length_set]
  split_ifs <;> first | rfl | omega

/-- One more occurrence, byte by byte: four bytes are written, and the
others do not depend on it. -/
theorem correctedByte_succ (b : UInt8) :
    correctedByte data (n + 1) k b
      = if matchesAt data n = true ∧ (k = n + 5 ∨ k = n + 10) then 0xff
        else if matchesAt data n = true ∧ (k = n + 6 ∨ k = n + 11) then 0x00
        else correctedByte data n k b := by
  have hor : ∀ P : Nat → Prop,
      (∃ i < n + 1, P i) ↔ P n ∨ ∃ i < n, P i := by
    intro P
    constructor
    · rintro ⟨i, hi, hp⟩
      rcases Nat.lt_succ_iff_lt_or_eq.mp hi with hlt | rfl
      · exact Or.inr ⟨i, hlt, hp⟩
      · exact Or.inl hp
    · rintro (hp | ⟨i, hi, hp⟩)
      · exact ⟨n, Nat.lt_succ_self n, hp⟩
      · exact ⟨i, Nat.lt_succ_of_lt hi, hp⟩
  unfold correctedByte
  simp only [hor]
  by_cases hff : matchesAt data n = true ∧ (k = n + 5 ∨ k = n + 10)
  · rw [if_pos (Or.inl hff), if_pos hff]
  · rw [if_neg hff]
    by_cases hzero : matchesAt data n = true ∧ (k = n + 6 ∨ k = n + 11)
    · rw [if_pos hzero, if_neg, if_pos (Or.inl hzero)]
      rintro (hn | ⟨i, hi, hm, hk⟩)
      · exact hff hn
      · have happart := matchesAt_apart hm hzero.1 hi
        omega
    · rw [if_neg hzero]
      simp only [hff, hzero, false_or]

/-- Correcting one more occurrence. -/
theorem corrected_succ :
    corrected data (n + 1)
      = if matchesAt data n then swapAt (corrected data n) n
        else corrected data n := by
  apply List.ext_getElem?
  intro k
  rw [getElem?_corrected]
  by_cases hm : matchesAt data n = true
  · have hlen : n + 12 ≤ (corrected data n).length := by
      rw [corrected, List.length_mapIdx]
      exact lt_of_matchesAt hm
    rw [if_pos hm, getElem?_swapAt hlen, getElem?_corrected]
    cases hb : data[k]? with
    | none =>
        have hge := List.getElem?_eq_none_iff.mp hb
        have hin := lt_of_matchesAt hm
        rw [if_neg (by omega), if_neg (by omega)]
        rfl
    | some b =>
        simp only [Option.map_some, correctedByte_succ, hm, true_and]
        split_ifs <;> rfl
  · rw [if_neg hm, getElem?_corrected]
    congr 1
    funext b
    rw [correctedByte_succ, if_neg (fun h => hm h.1), if_neg (fun h => hm h.1)]

/-- The correction does not hide an occurrence, nor make one, so the loop
sees those of the original. -/
theorem matchesAt_corrected :
    matchesAt (corrected data n) n = matchesAt data n := by
  rw [Bool.eq_iff_iff]
  constructor
  · intro h
    have hclear : ∀ j < n, matchesAt data j = true →
        j + 12 ≤ n ∨ n + 12 ≤ j := by
      intro j hj hm
      by_contra hnear
      have hfirst := matchesAt_iff.mp h 0 (by decide)
      exact corrected_inner hm hj (by omega) hfirst
    rw [matchesAt_iff] at h ⊢
    intro t ht
    rw [← corrected_window hclear t ht]
    exact h t ht
  · intro h
    have hclear : ∀ j < n, matchesAt data j = true →
        j + 12 ≤ n ∨ n + 12 ≤ j :=
      fun j hj hm => Or.inl (matchesAt_apart hm h hj)
    rw [matchesAt_iff] at h ⊢
    intro t ht
    rw [corrected_window hclear t ht]
    exact h t ht

theorem length_corrected : (corrected data n).length = data.length :=
  List.length_mapIdx

/-- The passes of the loop, by induction: behind pass `i` the occurrences
before `i` are corrected. -/
theorem quirkLoop_corrected (h : i + n + 12 ≤ data.length + 1) :
    quirkLoop n i (corrected data i) = some (corrected data (i + n)) := by
  induction n generalizing i with
  | zero => rfl
  | succ n ih =>
      rw [quirkLoop, if_pos (by
        rw [length_corrected]
        show i + 12 ≤ data.length
        omega), matchesAt_corrected, ← corrected_succ, ih (by omega),
        Nat.add_right_comm, Nat.add_assoc]

-- ==================================================================== the loop

/-- What the loop is to make of a descriptor that is long enough. -/
theorem epoxEndianQuirk_of_le (h : 12 ≤ data.length)
    (hsize : data.length < 2 ^ 32) :
    epoxEndianQuirk data = some (corrected data (data.length - 12)) := by
  have hbound : (BitVec.ofNat 32 data.length
      - BitVec.ofNat 32 pattern.length).toNat = data.length - 12 := by
    show (BitVec.ofNat 32 data.length - BitVec.ofNat 32 12).toNat = _
    rw [BitVec.toNat_sub, BitVec.toNat_ofNat, BitVec.toNat_ofNat]
    omega
  have hloop : quirkLoop (data.length - 12) 0 (corrected data 0)
      = some (corrected data (0 + (data.length - 12))) :=
    quirkLoop_corrected (by omega)
  rw [corrected_zero, Nat.zero_add] at hloop
  rw [epoxEndianQuirk, hbound, hloop]

/-- A short one is read past its end at once, since the unsigned bound
wraps around. -/
theorem epoxEndianQuirk_of_lt (h : data.length < 12) :
    epoxEndianQuirk data = none := by
  have hbound : (BitVec.ofNat 32 data.length
      - BitVec.ofNat 32 pattern.length).toNat ≠ 0 := by
    show (BitVec.ofNat 32 data.length - BitVec.ofNat 32 12).toNat ≠ 0
    rw [BitVec.toNat_sub, BitVec.toNat_ofNat, BitVec.toNat_ofNat]
    omega
  obtain ⟨n, hn⟩ := Nat.exists_eq_succ_of_ne_zero hbound
  rw [epoxEndianQuirk, hn, quirkLoop, if_neg]
  show ¬ 0 + 12 ≤ data.length
  omega

theorem epoxEndianQuirk_isSome (hsize : data.length < 2 ^ 32) :
    (epoxEndianQuirk data).isSome = true ↔ 12 ≤ data.length := by
  rcases Nat.lt_or_ge data.length 12 with hlt | hge
  · rw [epoxEndianQuirk_of_lt hlt]
    exact ⟨nofun, fun hle => absurd hle (by omega)⟩
  · rw [epoxEndianQuirk_of_le hge hsize]
    exact ⟨fun _ => hge, fun _ => rfl⟩

/-- No occurrence is left where the loop has been, and none is made. -/
theorem not_matchesAt_corrected (hi : i < n) :
    matchesAt (corrected data n) i = false := by
  by_contra hmatch
  have hm : matchesAt (corrected data n) i = true := by
    simpa using hmatch
  rw [matchesAt_iff] at hm
  by_cases hd : matchesAt data i = true
  · have hfive := hm 5 (by decide)
    have hin := lt_of_matchesAt hd
    have hlt : i + 5 < data.length := by omega
    rw [getElem?_corrected, List.getElem?_eq_getElem hlt, Option.map_some,
      correctedByte, if_pos ⟨i, hi, hd, Or.inl rfl⟩] at hfive
    cases hfive
  · have hclear : ∀ j < n, matchesAt data j = true →
        j + 12 ≤ i ∨ i + 12 ≤ j := by
      intro j hj hmj
      by_contra hnear
      rcases Nat.lt_trichotomy j i with hlt | rfl | hgt
      · exact corrected_inner hmj hlt (by omega) (hm 0 (by decide))
      · exact hd hmj
      · -- the first byte of an occurrence stays
        have hfirst : (corrected data n)[j]? = some 0x05 := by
          have hbyte : data[j]? = some 0x05 :=
            matchesAt_iff.mp hmj 0 (by decide)
          rw [getElem?_corrected, hbyte, Option.map_some,
            correctedByte_of_not]
          intro j' hj' hm'
          rcases Nat.lt_trichotomy j' j with hlt | rfl | hgt'
          · have hfar := matchesAt_apart hm' hmj hlt
            omega
          · omega
          · omega
        have hinner := hm (j - i) (by omega)
        rw [show i + (j - i) = j by omega, hfirst] at hinner
        exact first_only (j - i) (by omega) (by omega) hinner.symm
    apply hd
    rw [matchesAt_iff]
    intro t ht
    rw [← corrected_window hclear t ht]
    exact hm t ht

-- =================================================================== results

/-- The function stays inside the descriptor exactly if it is as long as
the pattern. Then it corrects each occurrence but one that ends the
descriptor, which stays, leaves none where it has been, and changes
nothing else. -/
theorem quirk_exact {data : List UInt8} (hsize : data.length < 2 ^ 32) :
    ((epoxEndianQuirk data).isSome = true ↔ 12 ≤ data.length)
      ∧ ∀ r, epoxEndianQuirk data = some r →
        r = corrected data (data.length - 12)
          ∧ (∀ i, i + 12 < data.length → matchesAt r i = false)
          ∧ matchesAt r (data.length - 12)
            = matchesAt data (data.length - 12) := by
  have hsome := epoxEndianQuirk_isSome hsize
  refine ⟨hsome, ?_⟩
  intro r hr
  have hge : 12 ≤ data.length := hsome.mp (by rw [hr]; rfl)
  rw [epoxEndianQuirk_of_le hge hsize] at hr
  cases hr
  exact ⟨rfl, fun i hi => not_matchesAt_corrected (by omega),
    matchesAt_corrected⟩

/-- A descriptor with the pattern twice, the second time at its end. -/
theorem quirk_exact_twice :
    epoxEndianQuirk (pattern ++ pattern) = some (swapAt pattern 0 ++ pattern)
      ∧ ((epoxEndianQuirk (pattern ++ pattern)).isSome = true
          ↔ 12 ≤ (pattern ++ pattern).length)
      ∧ ∀ r, epoxEndianQuirk (pattern ++ pattern) = some r →
        r = corrected (pattern ++ pattern) ((pattern ++ pattern).length - 12)
          ∧ (∀ i, i + 12 < (pattern ++ pattern).length →
            matchesAt r i = false)
          ∧ matchesAt r ((pattern ++ pattern).length - 12)
            = matchesAt (pattern ++ pattern)
              ((pattern ++ pattern).length - 12) :=
  ⟨by decide, quirk_exact (by decide)⟩

/-- The name fits its array with its NUL, for the one combination of
records in which nothing bounds it. -/
def nameFits (name : List Char) (hid : HidRecord) : Prop :=
  match hid.serviceName, hid.serviceDescription, hid.providerName with
  | none, some desc, some prov =>
      if desc.take 5 ≠ prov.take 5 then prov.length + 1 + desc.length ≤ 127
      else name.length + desc.length ≤ 127
  | _, _, _ => True

/-- The descriptor is as long as the pattern, by its `rd_size`, which has
16 bits. -/
def descriptorFits (hid : HidRecord) : Prop :=
  ∀ d, hid.descriptorList = some d → 12 ≤ d.length % 2 ^ 16

theorem store_isSome {size : Nat} {text : List Char} :
    (CString.store size text).isSome = true ↔ text.length + 1 ≤ size := by
  unfold CString.store
  split <;> simp_all

theorem store_of_fits {size : Nat} {text : List Char}
    (h : text.length + 1 ≤ size) :
    CString.store size text = some ⟨text, h⟩ := dif_pos h

/-- strncat with the room that is left, but for the NUL. -/
theorem strncat_isSome (name : CString 128) (s : List Char) :
    (name.strncat s (128 - name.text.length)).isSome = true
      ↔ name.text.length + s.length ≤ 127 := by
  have hfits := name.fits
  rw [CString.strncat, store_isSome, List.length_append, List.length_take]
  omega

theorem sdpName_isSome (name : CString 128) (hid : HidRecord) :
    (sdpName name hid).isSome = true ↔ nameFits name.text hid := by
  have hcut : ∀ s : List Char, (s.take 127).length + 1 ≤ 128 := by
    intro s
    rw [List.length_take]
    omega
  unfold sdpName nameFits
  cases hid.serviceName with
  | some s => simp [store_of_fits (hcut s)]
  | none =>
      cases hid.serviceDescription with
      | none => exact ⟨fun _ => trivial, fun _ => rfl⟩
      | some desc =>
          cases hid.providerName with
          | none => simp [store_of_fits (hcut desc)]
          | some prov =>
              by_cases hdiffer : desc.take 5 ≠ prov.take 5
              · simp only [if_pos hdiffer, store_of_fits (hcut prov),
                  Option.bind_eq_bind, Option.bind_some]
                have hlen : (prov.take 127 ++ [' ']).length
                    = min 127 prov.length + 1 := by
                  rw [List.length_append, List.length_take,
                    List.length_singleton]
                rcases Nat.lt_or_ge prov.length 127 with hlt | hge
                · have hroom : (prov.take 127 ++ [' ']).length + 1 ≤ 128 := by
                    omega
                  rw [store_of_fits hroom, Option.bind_some, strncat_isSome,
                    hlen]
                  omega
                · -- strcat itself writes past the end
                  have hfull : ¬ (prov.take 127 ++ [' ']).length + 1 ≤ 128 := by
                    omega
                  rw [CString.store, dif_neg hfull]
                  constructor
                  · intro hsome
                    cases hsome
                  · intro hle
                    omega
              · simp only [if_neg hdiffer, Option.bind_eq_bind,
                  Option.bind_some, strncat_isSome]

theorem sdpDescriptor_isSome (rdData : List UInt8) (hid : HidRecord) :
    (sdpDescriptor rdData hid).isSome = true ↔ descriptorFits hid := by
  unfold sdpDescriptor descriptorFits
  cases hid.descriptorList with
  | none => exact ⟨fun _ => nofun, fun _ => rfl⟩
  | some d =>
      have hle : d.length % 2 ^ 16 ≤ d.length := Nat.mod_le ..
      have hlen : (d.take (d.length % 2 ^ 16)).length = d.length % 2 ^ 16 := by
        rw [List.length_take, Nat.min_eq_left hle]
      have hlt : d.length % 2 ^ 16 < 2 ^ 16 := Nat.mod_lt _ (by decide)
      have hquirk := epoxEndianQuirk_isSome (by rw [hlen]; omega)
      rw [hlen] at hquirk
      simp only [hquirk, Option.some.injEq, forall_eq']

theorem sdpReq_isSome {α : Type} (answer : SdpAnswer α)
    (req : ConnaddReq) :
    (sdpReq answer req).isSome = true
      ↔ nameFits req.name.text answer.hid ∧ descriptorFits answer.hid := by
  have hname := sdpName_isSome req.name answer.hid
  have hdescriptor := sdpDescriptor_isSome req.rdData answer.hid
  have hboth : (sdpReq answer req).isSome = true
      ↔ (sdpName req.name answer.hid).isSome = true
        ∧ (sdpDescriptor req.rdData answer.hid).isSome = true := by
    unfold sdpReq
    cases answer.pnp <;>
      cases hn : sdpName req.name answer.hid <;>
        cases hd : sdpDescriptor req.rdData answer.hid <;>
          simp [hn, hd]
  rw [hboth, hname, hdescriptor]

/-- get_sdp_device_info leaves its arrays only where it fills in the
request: a search that fails leaves the request alone, and what is stored
behind it is put together in memory of its own. -/
theorem getSdpDeviceInfo_undefined {σ α : Type} [DecidableEq α]
    (tf : Textfile σ α) (any : α) (files : σ) (dst : α)
    (answer : Option (SdpAnswer α)) (req : ConnaddReq) :
    (getSdpDeviceInfo tf any files dst answer req).2 = .undefined
      ↔ ∃ a ∈ answer, sdpReq a req = none := by
  unfold getSdpDeviceInfo
  cases answer with
  | none => simp
  | some answer =>
      cases hreq : sdpReq answer req with
      | none => simp [hreq]
      | some req => simp [hreq]

/-- get_sdp_device_info stays inside its arrays exactly where the name,
put together from the provider and the description, leaves room for its
NUL, and the descriptor is as long as the pattern looked for in it. The
request it has then filled in is `sdpReq`'s. -/
theorem fetch_inside {σ α : Type} [DecidableEq α] (tf : Textfile σ α)
    (any : α) (files : σ) (dst : α) (answer : SdpAnswer α)
    (req : ConnaddReq) :
    ((sdpReq answer req).isSome = true
        ↔ nameFits req.name.text answer.hid ∧ descriptorFits answer.hid)
      ∧ ((getSdpDeviceInfo tf any files dst (some answer) req).2 ≠ .undefined
        ↔ nameFits req.name.text answer.hid
          ∧ descriptorFits answer.hid) := by
  have hreq := sdpReq_isSome answer req
  refine ⟨hreq, ?_⟩
  rw [← hreq, Ne, getSdpDeviceInfo_undefined, Option.isSome_iff_ne_none]
  simp

end BtOta
