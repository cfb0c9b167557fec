/-
The cursor and the record list, kept in step.

ota_update finds the next packet by adding up length fields it reads
from the file. On a well-formed image the sum after `k` packets is the
offset of record `k`, the length read there is the record's own, and
the packet built is that record behind the report type. `CursorInv`
holds in every state of every run, whatever hidRead stores and whatever
the channel returns, as long as no packet behind the last record has
been begun.
-/
import BtOta.Proofs.Frame
import Mathlib.Data.List.GetD

namespace BtOta

-- =============================================================== the image

namespace Image

variable {img : Image} {k : Nat} {r : Record}

/-- The file, cut around one record, so that a position in it can be told
to be before, in or behind the record. -/
theorem bytes_split (hr : img.recs[k]? = some r) :
    img.bytes = (img.recs.take k).flatMap Record.bytes
      ++ (r.bytes ++ (img.recs.drop (k + 1)).flatMap Record.bytes) := by
  obtain ⟨hk, rfl⟩ := List.getElem?_eq_some_iff.mp hr
  rw [← List.flatMap_cons, ← List.drop_eq_getElem_cons hk,
    ← List.flatMap_append, List.take_append_drop]
  rfl

theorem offset_succ (hr : img.recs[k]? = some r) :
    img.offset (k + 1) = img.offset k + r.bytes.length := by
  rw [offset, List.take_add_one, hr]
  simp [offset]

theorem offset_add_le (hr : img.recs[k]? = some r) :
    img.offset k + r.bytes.length ≤ img.bytes.length := by
  rw [bytes_split hr]
  simp only [List.length_append, offset]
  omega

theorem getD_offset_add (hr : img.recs[k]? = some r) {j : Nat}
    (hj : j < r.bytes.length) :
    img.bytes.getD (img.offset k + j) 0 = r.bytes.getD j 0 := by
  rw [bytes_split hr, List.getD_append_right _ _ _ _ (by simp [offset])]
  rw [show img.offset k + j - ((img.recs.take k).flatMap Record.bytes).length
      = j by simp [offset], List.getD_append _ _ _ _ hj]

theorem getElem?_packets (hr : img.recs[k]? = some r) :
    img.packets[k]? = some (k + 1, r.packet) := by
  simp [packets, List.getElem?_mapIdx, hr]

@[simp] theorem length_packets (img : Image) :
    img.packets.length = img.recs.length := by
  simp [packets]

/-- Every packet number up to the last record's has its record. -/
theorem exists_rec (hk : k < img.recs.length) :
    ∃ r, img.recs[k]? = some r :=
  ⟨_, List.getElem?_eq_getElem hk⟩

/-- A packet of the image is a record's. -/
theorem mem_take_packets {n : Nat} {t : Nat × List UInt8}
    (h : t ∈ img.packets.take n) :
    ∃ j r, j < n ∧ img.recs[j]? = some r ∧ t = (j + 1, r.packet) := by
  obtain ⟨j, hj⟩ := List.mem_iff_getElem?.mp h
  rw [List.getElem?_take] at hj
  split at hj
  case isFalse => cases hj
  case isTrue hlt =>
    have hin : j < img.recs.length := by
      rw [← img.length_packets]
      exact (List.getElem?_eq_some_iff.mp hj).1
    obtain ⟨r, hr⟩ := exists_rec hin
    have heq := Option.some.inj (hj.symm.trans (getElem?_packets hr))
    exact ⟨j, r, hlt, hr, heq⟩

theorem mem_packets {packet : List UInt8}
    (h : (k, packet) ∈ img.packets) :
    ∃ j r, k = j + 1 ∧ img.recs[j]? = some r ∧ packet = r.packet := by
  rw [← List.take_length (l := img.packets)] at h
  obtain ⟨j, r, -, hr, heq⟩ := mem_take_packets h
  obtain ⟨hk, hpacket⟩ := Prod.mk.inj heq
  exact ⟨j, r, hk, hr, hpacket⟩

/-- Its number tells a packet of the image. -/
theorem packet_unique {p q : List UInt8} (hp : (k, p) ∈ img.packets)
    (hq : (k, q) ∈ img.packets) : p = q := by
  obtain ⟨j, r, hj, hr, rfl⟩ := mem_packets hp
  obtain ⟨j', r', hj', hr', rfl⟩ := mem_packets hq
  have hjj : j' = j := by omega
  rw [hjj, hr] at hr'
  rw [Option.some.inj hr']

end Image

-- ============================================================ the sender

/-- The file has been read into the buffer, and nothing has been written
there since. -/
structure Loaded (file : List UInt8) (l : Sender) : Prop where
  opened : l.pc ≠ .init ∧ l.pc ≠ .load
  buf : ∀ i, i < file.length → l.fwDataBuf i = file.getD i 0
  len : l.fwDataLen = file.length

/-- `cmd_buf` holds the packet numbered `total_cmd_num`: from its
assembly on, as long as the sender may send it again. -/
def SPc.holding : SPc → Bool
  | .retry | .write | .wait | .pollNext | .pollErr | .pollComplete => true
  | _ => false

/-- The variables of the last packet have been cleared for the next,
which has not been built. -/
def SPc.cleared : SPc → Bool
  | .newStage | .assemble => true
  | _ => false

variable {cs : CharSign} {g g' : Shared} {l l' : Sender} {es : List Event}
  {i : SIn} {file : List UInt8}

/-- A move of the sender builds the next packet, or leaves cursor,
buffer and packet count alone; only then can it hold a packet that it
held before. -/
theorem SStep.carries (h : SStep cs g l i g' l' es)
    (hload : l.pc ≠ .load) :
    (l.pc = .assemble ∧ i = .tick ∧ ∃ l₁, Assembled cs g l g' l₁ es
        ∧ l' = { l₁ with pc := .retry })
      ∨ (g'.totalCmdNum = g.totalCmdNum ∧ l'.nextIdx = l.nextIdx
        ∧ l'.fwDataBuf = l.fwDataBuf ∧ l'.fwDataLen = l.fwDataLen
        ∧ (l'.pc.holding = true →
          l.pc.holding = true ∧ l'.packet = l.packet))
      ∨ l.pc = .init := by
  cases h with
  | init pc => exact Or.inr (Or.inr pc)
  | openFail pc | opened pc | openOver pc => exact absurd pc hload
  | assemble pc hasm =>
      exact Or.inl ⟨pc, rfl, _, assembled_of_some hasm, rfl⟩
  | retry pc | wrote pc | poll pc | timeout pc | nextMiss pc | errHit pc
  | errMiss pc | completeMiss pc =>
      refine Or.inr (Or.inl ⟨rfl, rfl, rfl, rfl, fun _ => ⟨?_, rfl⟩⟩)
      rw [pc]
      rfl
  | created | next | newStage | crash | giveUp | writeFail | nextHit
  | completeHit | flag | verdict | stop | quitThread | quitServ =>
      exact Or.inr (Or.inl ⟨rfl, rfl, rfl, rfl, nofun⟩)

theorem Loaded.step (hi : Loaded file l) (h : SStep cs g l i g' l' es) :
    Loaded file l' := by
  have hopened : l'.pc ≠ .init ∧ l'.pc ≠ .load :=
    ⟨fun hpc => hi.opened.1 (h.opening (Or.inl hpc)),
      fun hpc => hi.opened.1 (h.opening (Or.inr hpc))⟩
  rcases h.carries hi.opened.2 with
    ⟨-, -, l₁, hasm, rfl⟩ | ⟨-, -, hbuf, hlen, -⟩ | hpc
  · exact ⟨hopened, fun j hj => (congrFun hasm.fwBuf j).trans (hi.buf j hj),
      hasm.fwLen.trans hi.len⟩
  · exact ⟨hopened, fun j hj => (congrFun hbuf j).trans (hi.buf j hj),
      hlen.trans hi.len⟩
  · exact absurd hpc hi.opened.1

theorem loaded_start (g₀ : Shared) (param2 : Option String)
    (stack : Nat → UInt8) (file : List UInt8) :
    Loaded file (Session.start g₀ param2 stack file).snd := by
  refine ⟨⟨nofun, nofun⟩, fun j hj => ?_, rfl⟩
  show file.getD j (stack j) = file.getD j 0
  rw [List.getD_eq_getElem _ _ hj, List.getD_eq_getElem _ _ hj]

/-- A record found in the buffer is transmitted as it is, byte for byte
behind the report type. -/
theorem recordAt_of {fw : Nat → UInt8} {idx : Nat} {bytes : List UInt8}
    (h : ∀ j, j < bytes.length → fw (idx + j) = bytes.getD j 0) :
    recordAt fw idx bytes.length = 0x52 :: bytes := by
  unfold recordAt
  congr 1
  apply List.ext_getElem (by simp)
  intro j hj hj'
  rw [List.getElem_map, List.getElem_range, h j hj',
    List.getD_eq_getElem _ _ hj']

-- ============================================================ the invariant

/-- Cursor and packet, as long as the sender is inside the image: where
it reads next, and which packet it holds. -/
structure CursorInv (img : Image) (s : Session) : Prop where
  loaded : Loaded img.bytes s.snd
  cursor : s.g.totalCmdNum ≤ img.recs.length →
    s.snd.nextIdx = img.offset s.g.totalCmdNum
  packet : s.snd.pc.holding = true → s.g.totalCmdNum ≤ img.recs.length →
    ∃ k r, s.g.totalCmdNum = k + 1 ∧ img.recs[k]? = some r
      ∧ s.snd.packet = r.packet

variable {img : Image} {s : Session}

/-- A record of the image, as it is read from a buffer that holds the
file. -/
theorem Image.read_record {fw : Nat → UInt8} {k : Nat} {r : Record}
    (hfw : ∀ i, i < img.bytes.length → fw i = img.bytes.getD i 0)
    (hr : img.recs[k]? = some r) :
    le16 (fw (img.offset k + 1)) (fw (img.offset k + 2)) = r.bytes.length
      ∧ recordAt fw (img.offset k) r.bytes.length = r.packet := by
  have hbytes : ∀ j, j < r.bytes.length →
      fw (img.offset k + j) = r.bytes.getD j 0 := by
    intro j hj
    have hle := Image.offset_add_le hr
    rw [hfw _ (by omega), Image.getD_offset_add hr hj]
  have hlower := r.lower
  refine ⟨?_, recordAt_of hbytes⟩
  rw [hbytes 1 (by omega), hbytes 2 (by omega), r.selfLen]

/-- The record at the cursor, as the sender reads it: its length field is
its length, and its bytes are the packet. -/
theorem Loaded.record {k : Nat} {r : Record} (hl : Loaded img.bytes l)
    (hidx : l.nextIdx = img.offset k) (hr : img.recs[k]? = some r) :
    l.nextLen = r.bytes.length
      ∧ recordAt l.fwDataBuf l.nextIdx l.nextLen = r.packet := by
  obtain ⟨hlen, hrec⟩ := Image.read_record hl.buf hr
  rw [← hidx] at hlen hrec
  refine ⟨hlen, ?_⟩
  rw [show l.nextLen = r.bytes.length from hlen]
  exact hrec

theorem CursorInv.send (hi : CursorInv img s)
    (h : SStep cs s.g s.snd i g' l' es) (rdr : Option RPc)
    (trace : List Event) :
    CursorInv img { g := g', snd := l', rdr := rdr, trace := trace } := by
  rcases h.carries hi.loaded.opened.2 with
    ⟨-, -, l₁, hasm, rfl⟩ | ⟨htotal, hidx, -, -, hhold⟩ | hpc
  · have hrec : g'.totalCmdNum ≤ img.recs.length →
        ∃ r, img.recs[s.g.totalCmdNum]? = some r
          ∧ s.snd.nextIdx = img.offset s.g.totalCmdNum := by
      intro hle
      rw [hasm.total] at hle
      obtain ⟨r, hr⟩ := Image.exists_rec (Nat.lt_of_succ_le hle)
      exact ⟨r, hr, hi.cursor (by omega)⟩
    refine ⟨hi.loaded.step h, ?_, ?_⟩
    · intro hle
      obtain ⟨r, hr, hidx⟩ := hrec hle
      show l₁.currentCmdIdx + l₁.currentCmdLen = img.offset g'.totalCmdNum
      rw [hasm.idx, hasm.len, (hi.loaded.record hidx hr).1, hidx,
        hasm.total, Image.offset_succ hr]
    · intro _ hle
      obtain ⟨r, hr, hidx⟩ := hrec hle
      refine ⟨s.g.totalCmdNum, r, hasm.total, hr, ?_⟩
      exact hasm.packet.trans (hi.loaded.record hidx hr).2
  · refine ⟨hi.loaded.step h, ?_, ?_⟩
    · intro hle
      show l'.nextIdx = img.offset g'.totalCmdNum
      rw [htotal] at hle ⊢
      exact hidx.trans (hi.cursor hle)
    · intro hpc hle
      obtain ⟨hwas, hsame⟩ := hhold hpc
      show ∃ k r, g'.totalCmdNum = k + 1 ∧ _
      rw [htotal] at hle ⊢
      rw [show l'.packet = s.snd.packet from hsame]
      exact hi.packet hwas hle
  · exact absurd hpc hi.loaded.opened.1

theorem CursorInv.read {pc pc' : RPc} {j : RIn} (hi : CursorInv img s)
    (h : RStep cs s.g pc j g' pc' es) (rdr : Option RPc)
    (trace : List Event) :
    CursorInv img { g := g', snd := s.snd, rdr := rdr, trace := trace } := by
  obtain ⟨htotal, -⟩ := h.frame
  refine ⟨hi.loaded, ?_, ?_⟩
  · intro hle
    rw [show g'.totalCmdNum = s.g.totalCmdNum from htotal] at hle
    exact (hi.cursor hle).trans (congrArg img.offset htotal.symm)
  · intro hpc hle
    show ∃ k r, g'.totalCmdNum = k + 1 ∧ _
    rw [show g'.totalCmdNum = s.g.totalCmdNum from htotal] at hle ⊢
    exact hi.packet hpc hle

theorem cursorInv_start (g₀ : Shared) (param2 : Option String)
    (stack : Nat → UInt8) (img : Image) :
    CursorInv img (Session.start g₀ param2 stack img.bytes) where
  loaded := loaded_start g₀ param2 stack img.bytes
  cursor := by
    intro _
    simp [Session.start, Sender.nextIdx, Sender.load, Sender.call,
      Image.offset, Shared.initVars]
  packet := nofun

end BtOta
