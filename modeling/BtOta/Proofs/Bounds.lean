/-
Whether building a packet stays inside the buffers.

Nothing in ota_update keeps it there: the length field of a record is
taken as it stands in the file and compared with no size, neither that
of `cmd_buf` nor what is left of `fw_data_buf`. A record that does not
fit does not lead to FLAG_OTA_FAIL; its bytes are stored behind the end
of `cmd_buf` (`overrun`).

`inBuffers`, at which the model gives a packet's assembly up, is exactly
that every index the assembly uses is in range (`inBuffers_iff`). So a
session is inside its buffers in exactly the states in which the record
it is about to build fits, and all sessions of an image are, whatever
the responses, exactly if no record that the chain of length fields
comes to fails to fit (`bounded_iff`). The end of the file does not end
the chain: a device that goes on acknowledging leads the session on into
what the stack held.
-/
import BtOta.Proofs.Contents
import BtOta.Proofs.Laps

namespace BtOta

variable {cs : CharSign} {g g' : Shared} {l l' : Sender} {es : List Event}
  {i : SIn} {s s' : Session} {fw : Nat → UInt8}

-- ============================================================== the indices

/-- The indices of `fw_data_buf` that building a packet reads: the
length field, and the record. -/
def fwReads (idx len : Nat) : List Nat :=
  [idx + 1, idx + 2] ++ (List.range len).map (idx + ·)

/-- The indices of `cmd_buf` that it writes: the report type, the record
and the checksum. -/
def cmdWrites (len : Nat) : List Nat :=
  [0] ++ (List.range len).map (· + 1) ++ [len + 1, len + 1 + 1]

/-- Every index that building the next packet uses is in range. This
names the accesses one by one, as the source makes them. -/
def InRange (l : Sender) : Prop :=
  (∀ j ∈ fwReads l.nextIdx l.nextLen, j < fwBufSize)
    ∧ ∀ j ∈ cmdWrites l.nextLen, j < cmdBufSize

theorem fwReads_iff {idx len : Nat} :
    (∀ j ∈ fwReads idx len, j < fwBufSize)
      ↔ idx + 2 < fwBufSize ∧ idx + len ≤ fwBufSize := by
  unfold fwReads
  constructor
  · intro h
    refine ⟨h (idx + 2) (by simp), ?_⟩
    cases len with
    | zero =>
        have hone := h (idx + 1) (by simp)
        omega
    | succ len => exact h (idx + len) (by simp)
  · intro h j hj
    obtain ⟨hhead, hbody⟩ := h
    simp only [List.mem_append, List.mem_cons, List.mem_map, List.mem_range,
      List.not_mem_nil, or_false] at hj
    rcases hj with (rfl | rfl) | ⟨k, hk, rfl⟩
    · omega
    · exact hhead
    · omega

theorem cmdWrites_iff {len : Nat} :
    (∀ j ∈ cmdWrites len, j < cmdBufSize) ↔ len + 1 + 1 < cmdBufSize := by
  unfold cmdWrites
  constructor
  · intro h
    exact h _ (by simp)
  · intro h j hj
    simp only [List.mem_append, List.mem_cons, List.mem_map, List.mem_range,
      List.not_mem_nil, or_false] at hj
    rcases hj with (rfl | ⟨k, hk, rfl⟩) | rfl | rfl
    · omega
    · omega
    · omega
    · exact h

/-- The model gives up an assembly exactly where an index is out of
range, so `undefined` leaves out nothing and adds nothing. -/
theorem inBuffers_iff :
    inBuffers l.nextIdx l.nextLen = true ↔ InRange l := by
  unfold inBuffers InRange
  rw [decide_eq_true_iff, fwReads_iff, cmdWrites_iff, and_assoc]

-- ============================================================= the property

/-- The session is inside its buffers: a packet about to be built stays
in range or the session fails instead, and hidWrite is and was never
asked for more than `cmd_buf` holds. -/
structure Bounded (cs : CharSign) (s : Session) : Prop where
  builds : s.snd.pc = .assemble → InRange s.snd
    ∨ ∃ s', Session.step cs s (.send .tick) = some s'
      ∧ s'.snd.pc = .flag .fail
  writes : s.snd.pc = .write → s.snd.packet.length ≤ cmdBufSize
  wrote : ∀ t ∈ sentOf s.trace, t.2.length ≤ cmdBufSize

/-- What the next step builds goes nowhere else: there is no way from
building a packet to FLAG_OTA_FAIL. -/
theorem not_fail_of_assemble (hpc : s.snd.pc = .assemble)
    (hs : Session.step cs s (.send .tick) = some s') :
    s'.snd.pc ≠ .flag .fail := by
  cases Session.step_inv hs with
  | send h =>
      cases h with
      | assemble | crash => simp
      | init pc | next pc | newStage pc | retry pc | giveUp pc | poll pc
      | timeout pc | nextHit pc | nextMiss pc | errHit pc | errMiss pc
      | completeHit pc | completeMiss pc | flag pc | verdict pc | stop pc
      | quitThread pc | quitServ pc => cases hpc.symm.trans pc

/-- No packet built is too long for hidWrite: one that would be is never
handed to it, since building it leaves the buffers. -/
theorem sendsOnly_short {ok : Session → Act → Prop} {g₀ : Shared}
    {param2 : Option String} {stack : Nat → UInt8} {file : List UInt8}
    (h : Lts.Reach (Session.step cs) ok
      (Session.start g₀ param2 stack file) s) :
    SendsOnly (fun packet => packet.length ≤ cmdBufSize) s := by
  refine h.invariant₂ (fun s hr => ChainInv.of_reach hr) ?_ ?_
  · refine ⟨nofun, fun t ht => ?_⟩
    rw [sentOf_quiet (Session.start_quiet g₀ param2 stack file)] at ht
    cases ht
  · intro s a s' hchain hi _ hs
    cases Session.step_inv hs with
    | read hrdr hm => exact hi.read hm
    | send hm =>
        refine hi.send hchain.opened (fun hpc htick l₁ hasm => ?_) hm
        have hin := (inBuffers_iff.mp hasm.inside).2
        have hlen := cmdWrites_iff.mp hin
        rw [hasm.packet, recordAt, List.length_cons, List.length_map,
          List.length_range]
        omega

/-- A state of a session is inside its buffers exactly if the record
about to be built, where there is one, fits. -/
theorem ChainInv.inBounds_iff {len : Nat} (hi : ChainInv cs fw len s)
    (hsends : SendsOnly (fun packet => packet.length ≤ cmdBufSize) s) :
    Bounded cs s
      ↔ (s.snd.pc = .assemble → FitsAt fw s.g.totalCmdNum) := by
  have hfits : InRange s.snd ↔ FitsAt fw s.g.totalCmdNum := by
    rw [← inBuffers_iff, inBuffers, decide_eq_true_iff, FitsAt, ← hi.next,
      ← hi.buf]
    rfl
  constructor
  · intro hb hpc
    rcases hb.builds hpc with hin | ⟨s', hs, hfail⟩
    · exact hfits.mp hin
    · exact absurd hfail (not_fail_of_assemble hpc hs)
  · intro h
    refine ⟨fun hpc => Or.inl (hfits.mpr (h hpc)), ?_, hsends.sent⟩
    intro hpc
    exact hsends.packet (by rw [hpc]; rfl)

/-- For every image and every sequence of responses, the session is
inside its buffers wherever the record it is about to build fits; and it
is throughout, whatever the responses, exactly if each record fits that
the chain of length fields comes to. -/
theorem bounded_iff (cs : CharSign) (g₀ : Shared) (param2 : Option String)
    (stack : Nat → UInt8) (file : List UInt8) :
    (∀ s, Lts.Reach (Session.step cs) Lts.free
        (Session.start g₀ param2 stack file) s →
      (Bounded cs s ↔ (s.snd.pc = .assemble →
        FitsAt (loadedBuf stack file) s.g.totalCmdNum)))
    ∧ ((∀ s, Lts.Reach (Session.step cs) Lts.free
          (Session.start g₀ param2 stack file) s → Bounded cs s)
        ↔ ∀ n, (∀ m, m < n → Builds (loadedBuf stack file) file.length m) →
          FitsAt (loadedBuf stack file) n) := by
  have hstate : ∀ s, Lts.Reach (Session.step cs) Lts.free
      (Session.start g₀ param2 stack file) s →
      (Bounded cs s ↔ (s.snd.pc = .assemble →
        FitsAt (loadedBuf stack file) s.g.totalCmdNum)) := fun s h =>
    (ChainInv.of_reach h).inBounds_iff (sendsOnly_short h)
  refine ⟨hstate, ?_, ?_⟩
  · intro hall n hbuilds
    obtain ⟨s, hr, hat⟩ := reach_record cs g₀ param2 stack file n hbuilds
    have hfits := (hstate s hr).mp (hall s hr) hat.pc
    rwa [hat.total] at hfits
  · intro hall s hr
    refine (hstate s hr).mpr fun _ => ?_
    exact hall _ (ChainInv.of_reach hr).built

-- ============================================================== two records

/-- Behind a record of seven bytes, on a stack of zeros, the chain
stands still. -/
theorem cursor_startFile (n : Nat) :
    cursor (loadedBuf (fun _ => 0) startFile) n = 0
      ∨ cursor (loadedBuf (fun _ => 0) startFile) n = 7 := by
  induction n with
  | zero => exact Or.inl rfl
  | succ n ih =>
      unfold cursor
      rcases ih with hc | hc
      · exact Or.inr (by rw [hc]; rfl)
      · exact Or.inr (by rw [hc]; rfl)

/-- So its sessions stay inside the buffers, whatever the device answers.
-/
theorem bounded_startFile :
    ∀ s, Lts.Reach (Session.step .unsigned) Lts.free
        (Session.start Shared.loaded none (fun _ => 0) startFile) s →
      Bounded .unsigned s := by
  refine (bounded_iff .unsigned Shared.loaded none _ startFile).2.mpr ?_
  intro n _
  unfold FitsAt
  rcases cursor_startFile n with hc | hc
  · rw [hc]
    decide
  · rw [hc]
    decide

/-- A file whose only record says that it has 1100 bytes, which is more
than `cmd_buf` has. -/
def overlong : List UInt8 := [0xF0, 0x4C, 0x04, 0, 1, 0, 0]

/-- It is about to be built. -/
def overlongDue : Session :=
  (Lts.run (Session.step .unsigned) Lts.free
    (Session.start Shared.loaded none (fun _ => 0) overlong)
    [.send (.created 0), .send .tick, .send .tick]).getD
    (Session.start Shared.loaded none (fun _ => 0) overlong)

/-- A record of 1100 bytes is stored behind the end of `cmd_buf`. -/
theorem overrun :
    ¬ ∀ (cs : CharSign) (g₀ : Shared) (param2 : Option String)
        (stack : Nat → UInt8) (file : List UInt8) (s : Session),
      file.length ≤ fwBufSize →
      Lts.Reach (Session.step cs) Lts.free
        (Session.start g₀ param2 stack file) s →
      Bounded cs s := by
  intro h
  have hrun : Lts.Reach (Session.step .unsigned) Lts.free
      (Session.start Shared.loaded none (fun _ => 0) overlong)
      overlongDue := Lts.Reach.of_isSome (by decide)
  have hpc : overlongDue.snd.pc = .assemble := by decide
  rcases (h _ _ _ _ overlong _ (by decide) hrun).builds hpc with
    hin | ⟨s', hs, hfail⟩
  · have hlen : overlongDue.snd.nextLen = 1100 := by decide
    have hlast := cmdWrites_iff.mp hin.2
    rw [hlen] at hlast
    exact absurd hlast (by decide)
  · exact not_fail_of_assemble hpc hs hfail

end BtOta
