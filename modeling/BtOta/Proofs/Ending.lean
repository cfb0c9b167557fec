/-
Whether a session comes to its end.

# It need not

The cursor moves by the length field of the record before, and a length
of zero leaves it where it is: the session builds the same record again,
with `send_count` back at zero, for as long as the device acknowledges
(`endless`). Nothing ends the chain of records at the end of the file
either; a session that is acknowledged there goes on in what the stack
held.

# Where it does

`advances` asks of each record about to be built that it begins inside
the file, behind the one before, and fits the buffers. Then three
transmissions for each byte of the file are enough for all of them, and
the sender can take a step until it has returned, but only boundedly
many (`session_ends`). The measure is lexicographic, folded into one
number: the places left for a record to begin, the transmissions left
for the record at hand, and the polls left in this wait.

With the verbose log on, a session comes to its end in this sense only
if its dumps, which write behind their buffers (`dumps_never_fit`), let
it go on.
-/
import BtOta.Proofs.Laps

namespace BtOta

variable {cs : CharSign} {g g' : Shared} {l l' : Sender} {es : List Event}
  {i : SIn} {s s' : Session} {file : List UInt8}

-- ============================================================= the condition

/-- The record about to be built is the first, or begins behind the one
before; it begins inside the file, and it fits both buffers. -/
def advances (s : Session) (a : Act) : Prop :=
  a = .send .tick → s.snd.pc = .assemble →
    (s.g.totalCmdNum = 0 ∨ 0 < s.snd.currentCmdLen)
      ∧ s.snd.nextIdx < s.snd.fwDataLen
      ∧ s.snd.nextIdx + 2 < fwBufSize
      ∧ s.snd.nextIdx + s.snd.nextLen ≤ fwBufSize
      ∧ s.snd.nextLen + 1 + 1 < cmdBufSize

instance (s : Session) (a : Act) : Decidable (advances s a) :=
  inferInstanceAs (Decidable (_ → _ → _))

/-- The step is the sender's. -/
def Act.isSend : Act → Bool
  | .send _ => true
  | .read _ => false

-- =============================================================== the measure

/-- How many places are left in the file for a record to begin: the part
of the measure that an assembly lowers. -/
def places (g : Shared) (l : Sender) : Nat :=
  if g.totalCmdNum = 0 then l.fwDataLen
  else l.fwDataLen - (l.currentCmdIdx + 1)

/-- How many transmissions are left for the packet held, the one under
way included. -/
def attempts (l : Sender) : Nat :=
  if l.pc.holding = true then
    3 - l.sendCount + (if l.pc = .write then 1 else 0)
  else 0

/-- The steps left for the packet held, and behind FLAG_OTA_FAIL or
FLAG_OTA_SUCCESS, whatever is answered. -/
def SPc.work (pc : SPc) (sendCount waitCount : Nat) : Nat :=
  match pc with
  | .retry => (3 - sendCount) * 3022 + 8
  | .write => (3 - sendCount) * 3022 + 3020
  | .pollNext => (3 - sendCount) * 3022 + 4 * (otaWaitTime - waitCount) + 13
  | .pollErr => (3 - sendCount) * 3022 + 4 * (otaWaitTime - waitCount) + 12
  | .pollComplete =>
      (3 - sendCount) * 3022 + 4 * (otaWaitTime - waitCount) + 11
  | .wait => (3 - sendCount) * 3022 + 4 * (otaWaitTime - waitCount) + 10
  | .flag _ => 6
  | .verdict _ => 5
  | .create | .stop _ => 4
  | .next | .quitThread _ => 3
  | .newStage | .quitServ _ => 2
  | .assemble => 1
  | .init | .load | .returned _ | .undefined => 0

/-- The steps left: those of the packet held, and three full waits for
every place a record may still begin at. -/
def work (g : Shared) (l : Sender) : Nat :=
  places g l * 9075 + l.pc.work l.sendCount l.waitCount

/-- What an assembly under the condition leaves: the next record has
fewer places than this one had. -/
theorem Assembled.places_lt (h : Assembled cs g l g' l' es)
    (hstep : g.totalCmdNum = 0 ∨ 0 < l.currentCmdLen)
    (hfile : l.nextIdx < l.fwDataLen) : places g' l' < places g l := by
  have hidx := h.idx
  unfold places
  rw [h.total, h.fwLen, if_neg (by omega), hidx]
  unfold Sender.nextIdx at hfile ⊢
  split
  case isTrue => omega
  case isFalse hne => omega

/-- A move builds the next packet, is without a meaning, or leaves the
cursor where it is. -/
theorem SStep.places (h : SStep cs g l i g' l' es)
    (hopened : l.pc ≠ .init ∧ l.pc ≠ .load) :
    (l.pc = .assemble ∧ i = .tick
        ∧ ∃ l₁, Assembled cs g l g' l₁ es ∧ l' = { l₁ with pc := .retry })
      ∨ l'.pc = .undefined
      ∨ (l.pc ≠ .assemble ∧ BtOta.places g' l' = BtOta.places g l
        ∧ l'.fwDataLen = l.fwDataLen) := by
  cases h with
  | init pc => exact absurd pc hopened.1
  | openFail pc | opened pc | openOver pc => exact absurd pc hopened.2
  | assemble pc hasm => exact Or.inl ⟨pc, rfl, _, assembled_of_some hasm, rfl⟩
  | crash => exact Or.inr (Or.inl rfl)
  | created pc | next pc | newStage pc | retry pc | giveUp pc | wrote pc
  | writeFail pc | poll pc | timeout pc | nextHit pc | nextMiss pc
  | errHit pc | errMiss pc | completeHit pc | completeMiss pc | flag pc
  | verdict pc | stop pc | quitThread pc | quitServ pc =>
      exact Or.inr (Or.inr ⟨by simp [pc], rfl, rfl⟩)

/-- Every step of the sender lowers the measure, so a run whose records
advance has a bounded number of them. -/
theorem SStep.work_lt (h : SStep cs g l i g' l' es)
    (hopened : l.pc ≠ .init ∧ l.pc ≠ .load)
    (hcount : l.pc = .assemble → l.sendCount = 0)
    (hadv : i = .tick → l.pc = .assemble →
      (g.totalCmdNum = 0 ∨ 0 < l.currentCmdLen) ∧ l.nextIdx < l.fwDataLen)
    (hdef : l'.pc ≠ .undefined) : work g' l' < work g l := by
  unfold work
  cases h with
  | init pc => exact absurd pc hopened.1
  | openFail pc | opened pc | openOver pc => exact absurd pc hopened.2
  | crash pc hasm => exact absurd rfl hdef
  | @assemble pc g' l₁ es hasm =>
      have ha := assembled_of_some hasm
      obtain ⟨hstep, hfile⟩ := hadv rfl pc
      have hlt := ha.places_lt hstep hfile
      have hzero : l₁.sendCount = 0 := ha.sendCount.trans (hcount pc)
      have hsame : BtOta.places g' { l₁ with pc := .retry }
          = BtOta.places g' l₁ := rfl
      rw [hsame, pc]
      simp only [SPc.work, hzero]
      omega
  | retry pc hlt =>
      refine Nat.add_lt_add_left ?_ _
      simp only [pc, SPc.work]
      omega
  | poll pc hlt =>
      refine Nat.add_lt_add_left ?_ _
      unfold otaWaitTime at hlt
      simp only [pc, SPc.work, otaWaitTime]
      omega
  | giveUp pc | created pc | next pc | newStage pc | flag pc | verdict pc
  | stop pc | quitThread pc | quitServ pc =>
      refine Nat.add_lt_add_left ?_ _
      simp [pc, SPc.work]
  | wrote pc | writeFail pc | timeout pc | nextHit pc | nextMiss pc
  | errHit pc | errMiss pc | completeHit pc | completeMiss pc =>
      refine Nat.add_lt_add_left ?_ _
      simp only [pc, SPc.work, otaWaitTime]
      omega

-- ============================================================= the invariant

/-- What a run under `advances` keeps: the session is inside its buffers,
and what it has sent is paid for by places and attempts. -/
structure EndingInv (file : List UInt8) (s : Session) : Prop where
  opened : s.snd.pc ≠ .init ∧ s.snd.pc ≠ .load
  defined : s.snd.pc ≠ .undefined
  fwLen : s.snd.fwDataLen = file.length
  count : s.snd.pc.cleared = true → s.snd.sendCount = 0
  sent : (sentOf s.trace).length + 3 * places s.g s.snd + attempts s.snd
    ≤ 3 * file.length

/-- Outside an assembly no transmission is gained: what is sent is taken
off the attempts of the packet held. -/
theorem SStep.attempts_le (h : SStep cs g l i g' l' es)
    (hopened : l.pc ≠ .init ∧ l.pc ≠ .load) (hpc : l.pc ≠ .assemble) :
    (sentOf es).length + attempts l' ≤ attempts l := by
  unfold attempts
  rcases h.tally hopened with
    ⟨hwrite, hwait, hcount, -, hsent⟩ | ⟨hasm, -⟩ | hstill
  · rw [hsent, hwrite, hwait, hcount]
    simp [SPc.holding]
    omega
  · exact absurd hasm hpc
  · rw [hstill.sent]
    by_cases hhold : l'.pc.holding = true
    · obtain ⟨hwas, hcase⟩ := hstill.holding hhold
      rw [if_pos hhold, if_pos hwas]
      rcases hcase with ⟨hw, hr, hcount, hlt⟩ | ⟨hiff, hcount⟩
      · rw [if_pos hw, hcount, hr]
        simp
        omega
      · rw [hcount]
        by_cases hw : l.pc = .write
        · simp [hw, hiff.mpr hw]
        · simp [hw, mt hiff.mp hw]
    · simp [hhold]

theorem EndingInv.send (hi : EndingInv file s)
    (hok : advances s (.send i)) (h : SStep cs s.g s.snd i g' l' es) :
    EndingInv file
      { g := g', snd := l', rdr := Session.spawn s.rdr i
        trace := s.trace ++ es } := by
  -- the guard keeps the next record inside the file, so assemble does not
  -- leave the buffers
  have hdef : l'.pc ≠ .undefined := by
    intro hu
    cases h with
    | openOver pc => exact hi.opened.2 pc
    | crash pc hasm =>
        obtain ⟨-, hfile, hhead, hbody, hcmd⟩ := hok rfl pc
        have hin : inBuffers s.snd.nextIdx s.snd.nextLen = true :=
          decide_eq_true ⟨hhead, hbody, hcmd⟩
        have hsome := assemble_isSome cs s.g hin (by omega)
        rw [hasm] at hsome
        cases hsome
    | _ => cases hu
  have hopened : l'.pc ≠ .init ∧ l'.pc ≠ .load :=
    ⟨fun hpc => hi.opened.1 (h.opening (Or.inl hpc)),
      fun hpc => hi.opened.1 (h.opening (Or.inr hpc))⟩
  have hsent := hi.sent
  rcases h.places hi.opened with
    ⟨hpc, htick, l₁, hasm, rfl⟩ | hu | ⟨hpc, hplaces, hfwLen⟩
  -- a new packet: three attempts more, three fewer by its place in the file
  · subst htick
    obtain ⟨hstep, hfile, -⟩ := hok rfl hpc
    have hlt := hasm.places_lt hstep hfile
    have hzero : l₁.sendCount = 0 :=
      hasm.sendCount.trans (hi.count (by rw [hpc]; rfl))
    refine ⟨hopened, hdef, hasm.fwLen.trans hi.fwLen, nofun, ?_⟩
    have hthree : attempts { l₁ with pc := .retry } = 3 := by
      simp [attempts, SPc.holding, hzero]
    have hplaces : places g' { l₁ with pc := .retry } = places g' l₁ := rfl
    dsimp only
    rw [sentOf_append, sentOf_quiet hasm.quiet, List.append_nil, hthree,
      hplaces]
    omega
  · exact absurd hu hdef
  · refine ⟨hopened, hdef, hfwLen.trans hi.fwLen, ?_, ?_⟩
    · intro hclear
      rcases h.tally hi.opened with ⟨-, hwait, -⟩ | ⟨hasm, -⟩ | hstill
      · rw [hwait] at hclear
        cases hclear
      · exact absurd hasm hpc
      · rcases hstill.cleared hclear with hzero | ⟨hwas, hcount⟩
        · exact hzero
        · exact hcount.trans (hi.count hwas)
    -- any other step spends at least what it sends
    · have hatt := h.attempts_le hi.opened hpc
      dsimp only
      rw [sentOf_append, List.length_append, hplaces]
      omega

theorem EndingInv.read {pc pc' : RPc} {j : RIn} (hi : EndingInv file s)
    (h : RStep cs s.g pc j g' pc' es) :
    EndingInv file
      { s with g := g', rdr := some pc', trace := s.trace ++ es } := by
  refine ⟨hi.opened, hi.defined, hi.fwLen, hi.count, ?_⟩
  have hsent := hi.sent
  unfold places at hsent ⊢
  dsimp only
  rwa [sentOf_append, h.sentOf, List.append_nil, h.frame.1]

theorem endingInv_start (g₀ : Shared) (param2 : Option String)
    (stack : Nat → UInt8) (file : List UInt8) :
    EndingInv file (Session.start g₀ param2 stack file) := by
  refine ⟨⟨nofun, nofun⟩, nofun, rfl, nofun, ?_⟩
  rw [sentOf_quiet (Session.start_quiet g₀ param2 stack file)]
  show 0 + 3 * file.length + 0 ≤ 3 * file.length
  omega

-- ================================================================ the result

/-- The sender has come to FLAG_OTA_FAIL or FLAG_OTA_SUCCESS, and what is
left of it depends on nothing. -/
def SPc.flagged (pc : SPc) : Bool := pc.failing || pc.succeeding

/-- A sender that has not come to its end can take a step, whatever write
returns, so a run does not get stuck before it. -/
theorem canSend (s : Session) (hdef : s.snd.pc ≠ .undefined)
    (hend : s.snd.pc.flagged = false) :
    ∃ i, (Session.step cs s (.send i)).isSome = true := by
  simp only [Session.step, Option.isSome_map]
  cases hpc : s.snd.pc with
  | undefined => exact absurd hpc hdef
  | load => exact ⟨.opened none, by simp [otaUpdate, hpc]⟩
  | create => exact ⟨.created 0, by simp [otaUpdate, hpc]⟩
  | write =>
      refine ⟨.wrote 0, ?_⟩
      simp only [otaUpdate, hpc]
      split <;> rfl
  | init | next | newStage => exact ⟨.tick, by simp [otaUpdate, hpc]⟩
  | assemble =>
      refine ⟨.tick, ?_⟩
      simp only [otaUpdate, hpc]
      split <;> rfl
  | retry | wait | pollNext | pollErr | pollComplete =>
      refine ⟨.tick, ?_⟩
      simp only [otaUpdate, hpc]
      split <;> rfl
  | flag v | verdict v | stop v | quitThread v | quitServ v | returned v =>
      rw [hpc] at hend
      cases v <;> cases hend

/-- In every run of a session whose records advance inside the file, at
most three packets are written for each byte of the file, the sender can
go on until it comes to FLAG_OTA_FAIL or FLAG_OTA_SUCCESS, and it does
not go on for ever. -/
theorem session_ends {g₀ : Shared} {param2 : Option String}
    {stack : Nat → UInt8} {as : List Act}
    (h : Lts.Run (Session.step cs) advances
      (Session.start g₀ param2 stack file) as s) :
    (sentOf s.trace).length ≤ 3 * file.length
      ∧ as.countP Act.isSend ≤ 9075 * file.length + 4
      ∧ (s.snd.pc.flagged = false →
        ∃ i, (Session.step cs s (.send i)).isSome = true) := by
  have hinv : ∀ s, Lts.Reach (Session.step cs) advances
      (Session.start g₀ param2 stack file) s → EndingInv file s := by
    intro s hr
    refine hr.invariant (endingInv_start g₀ param2 stack file) ?_
    intro s a s' hi hok hs
    cases Session.step_inv hs with
    | send hm => exact hi.send hok hm
    | read hrdr hm => exact hi.read hm
  have hi := hinv s h.reach
  refine ⟨?_, ?_, canSend s hi.defined⟩
  · have hsent := hi.sent
    omega
  · have hcount := h.countP_le Act.isSend (fun s => work s.g s.snd) ?_
      (Lts.Reach.refl _)
    · have hstart : work (Session.start g₀ param2 stack file).g
          (Session.start g₀ param2 stack file).snd
            = file.length * 9075 + 4 := rfl
      omega
    · intro s a s' hr hok hs
      have hi := hinv s hr
      cases Session.step_inv hs with
      | send hm =>
          refine hm.work_lt hi.opened (fun hpc => hi.count (by rw [hpc]; rfl))
            (fun htick hpc => ?_) (hi.send hok hm).defined
          subst htick
          obtain ⟨hstep, hfile, -⟩ := hok rfl hpc
          exact ⟨hstep, hfile⟩
      | read hrdr hm =>
          simp only [Act.isSend, Bool.false_eq_true, if_false, Nat.add_zero]
          unfold work places
          exact Nat.le_of_eq (by rw [hm.frame.1])

-- ============================================================== two sessions

/-- The device answers both packets of `dataImage`. -/
def bothSent : Session :=
  (Lts.run (Session.step .unsigned) advances dataImage.session
    answeredRun).getD dataImage.session

/-- The session has come to its end. -/
theorem session_ends_answered :
    bothSent.snd.pc = .flag .success
      ∧ (sentOf bothSent.trace).length ≤ 3 * dataImage.bytes.length
      ∧ answeredRun.countP Act.isSend ≤ 9075 * dataImage.bytes.length + 4
      ∧ (bothSent.snd.pc.flagged = false →
        ∃ i, (Session.step .unsigned bothSent (.send i)).isSome = true) :=
  ⟨by decide, session_ends (Lts.Run.of_isSome (by decide))⟩

/-- A record whose length field is zero. -/
def emptyRecord : List UInt8 := [0xF0, 0, 0, 0, 1, 0, 0]

theorem cursor_emptyRecord (n : Nat) :
    cursor (loadedBuf (fun _ => 0) emptyRecord) n = 0 := by
  induction n with
  | zero => rfl
  | succ n ih =>
      rw [cursor, ih]
      rfl

/-- It is built again and again: no bound on the packets of a file is
right. -/
theorem endless :
    ¬ ∃ bound : Nat → Nat, ∀ (cs : CharSign) (g₀ : Shared)
        (param2 : Option String) (stack : Nat → UInt8) (file : List UInt8)
        (s : Session), file.length ≤ fwBufSize →
      Lts.Reach (Session.step cs) Lts.free
        (Session.start g₀ param2 stack file) s →
      (sentOf s.trace).length ≤ bound file.length := by
  intro h
  obtain ⟨bound, hbound⟩ := h
  obtain ⟨s, hr, hat⟩ := reach_record .unsigned Shared.loaded none
    (fun _ => 0) emptyRecord (bound 7 + 1) (by
      intro m _
      refine ⟨?_, fun _ => by decide⟩
      unfold FitsAt
      rw [cursor_emptyRecord]
      decide)
  have hle := hbound _ _ _ _ emptyRecord s (by decide) hr
  rw [hat.sent] at hle
  exact absurd hle (by simp [emptyRecord])

end BtOta
