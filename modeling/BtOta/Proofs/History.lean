/-
What a session inherits from the sessions before it.

ota_update sets six of the static variables at its head and leaves four
as it finds them: `OTAStatus`, `OTAStage`, `current_data_seq` and
`rsp_cmd`. Nothing of the first, the second and the last is ever read
before it is written: hidRead reads `OTAStatus` and `rsp_cmd` behind its
own stores, and the sender reads `OTAStage` only in its wait, behind its
STAGE_RETRYING store. `current_data_seq` is another matter: it is
cleared once the reader runs already, so a DATA response that hidRead
judges before then is compared with what an earlier session has left.

`judgesOwn` excludes that comparison. Under it a session does not depend
on the sessions before: whatever it does from one set of left-overs it
does, step by step, from any other, with the same log, the same packets
and the same end (`history_free`).
-/
import BtOta.Proofs.Chain
import BtOta.Proofs.Flight
import BtOta.Proofs.Signs

namespace BtOta

variable {cs : CharSign} {g g' : Shared} {l l' : Sender} {es : List Event}
  {i : SIn} {s t : Session}

-- ============================================================== the left-overs

/-- The static variables, with what another session has left in those
that no session sets at its head. `o` is where the left-overs are taken
from. -/
def Shared.past (g o : Shared) : Shared :=
  { g with
    otaStatus := o.otaStatus, otaStage := o.otaStage
    currentDataSeq := o.currentDataSeq, rspCmd := o.rspCmd }

/-- hidRead judges no DATA response before `current_data_seq` has been
cleared for the first packet. -/
def judgesOwn (s : Session) : Act → Prop
  | .read .tick => s.rdr = some .decide → s.g.rspCmd.cmd = dataCmd →
      ¬ s.fresh
  | _ => True

instance (s : Session) : ∀ a, Decidable (judgesOwn s a)
  | .read .tick => inferInstanceAs (Decidable (_ → _ → _))
  | .read (.got _) | .send _ => inferInstanceAs (Decidable True)

-- ================================================================= ota_update

/-- What a DATA record adds does not depend on the left-overs: it writes
`current_data_seq` and does not read it. -/
theorem dataPart_past {remain : Int} (o : Shared)
    (h : dataPart cs g l = some (g', remain, es)) :
    ∃ q, dataPart cs (g.past o) l
        = some (g'.past { o with currentDataSeq := q }, remain, es)
      ∧ (o.currentDataSeq = g.currentDataSeq → q = g'.currentDataSeq) := by
  simp only [dataPart] at h ⊢
  split at h
  case isFalse hd =>
    cases h
    exact ⟨o.currentDataSeq, if_neg hd, id⟩
  case isTrue hd =>
    obtain ⟨⟨num2, ms⟩, hprog, hx⟩ := Option.map_eq_some_iff.mp h
    cases hx
    rw [if_pos hd]
    exact ⟨_, Option.map_eq_some_iff.mpr ⟨(num2, ms), hprog, rfl⟩,
      fun _ => rfl⟩

theorem finishPart_past (g o : Shared) (cmd : UInt8) :
    finishPart (g.past o) cmd
      = ((finishPart g cmd).1.past o, (finishPart g cmd).2) := by
  unfold finishPart
  split
  case isTrue => rfl
  case isFalse => rfl

/-- The next packet is built as it would have been, whatever has been
left. -/
theorem assemble_past (o : Shared)
    (h : assemble cs g l = some (g', l', es)) :
    ∃ q, assemble cs (g.past o) l
        = some (g'.past { o with currentDataSeq := q }, l', es)
      ∧ (o.currentDataSeq = g.currentDataSeq → q = g'.currentDataSeq) := by
  obtain ⟨hin, g₁, remain, es₁, hdata, rfl, rfl, rfl⟩ := parts_of_assemble h
  obtain ⟨q, hdata', hq⟩ := dataPart_past o hdata
  refine ⟨q, ?_, fun heq => ?_⟩
  · rw [assemble_of_parts hin hdata']
    have hfin := finishPart_past { g₁ with totalCmdNum := g₁.totalCmdNum + 1 }
      { o with currentDataSeq := q } ((l.advance cs).cmdBuf 5)
    rw [show ({ g₁.past { o with currentDataSeq := q } with
        totalCmdNum := (g₁.past { o with currentDataSeq := q }).totalCmdNum
          + 1 } : Shared)
      = Shared.past { g₁ with totalCmdNum := g₁.totalCmdNum + 1 }
          { o with currentDataSeq := q } from rfl, hfin]
  · have hsame := congrArg Shared.currentDataSeq (finishPart_spec
      { g₁ with totalCmdNum := g₁.totalCmdNum + 1 }
      ((l.advance cs).cmdBuf 5)).1
    exact (hq heq).trans hsame.symm

theorem assemble_none_past (o : Shared) (h : assemble cs g l = none) :
    assemble cs (g.past o) l = none := by
  cases hasm : assemble cs (g.past o) l with
  | none => rfl
  | some built =>
      obtain ⟨g₁, l₁, es₁⟩ := built
      obtain ⟨q, hback, -⟩ := assemble_past g hasm
      cases h.symm.trans hback

/-- A move of the sender from the one set of left-overs is its move from
the other, and what it has written over is the same in both from then
on. -/
theorem SStep.past (h : SStep cs g l i g' l' es) (hinit : l.pc ≠ .init)
    (o : Shared)
    (hstage : l.pc.awaiting = true → o.otaStage = g.otaStage) :
    ∃ o', SStep cs (g.past o) l i (g'.past o') l' es
      ∧ (l'.pc.awaiting = true → o'.otaStage = g'.otaStage)
      ∧ o'.rspCmd = o.rspCmd
      ∧ (o.currentDataSeq = g.currentDataSeq ∨ l.pc = .next →
        o'.currentDataSeq = g'.currentDataSeq) := by
  -- only `next` may begin with another sequence number
  have hseq : ∀ {x : Prop}, l.pc ≠ .next →
      (o.currentDataSeq = g.currentDataSeq → x) →
      (o.currentDataSeq = g.currentDataSeq ∨ l.pc = .next → x) :=
    fun hne hx hor => hx (hor.resolve_right hne)
  cases h with
  | init pc => exact absurd pc hinit
  | openFail pc =>
      exact ⟨o, .openFail pc, nofun, rfl, hseq (by simp [pc]) id⟩
  | opened pc file hfit =>
      exact ⟨o, .opened pc file hfit, nofun, rfl, hseq (by simp [pc]) id⟩
  | openOver pc file hfit =>
      exact ⟨o, .openOver pc file hfit, nofun, rfl, hseq (by simp [pc]) id⟩
  | created pc ret =>
      exact ⟨o, .created pc ret, nofun, rfl, hseq (by simp [pc]) id⟩
  | next pc =>
      -- from here on the two agree: both hold 0
      exact ⟨{ o with currentDataSeq := 0 }, .next pc, nofun, rfl,
        fun _ => rfl⟩
  | newStage pc =>
      exact ⟨{ o with otaStage := .newCmd }, .newStage pc, nofun, rfl,
        hseq (by simp [pc]) id⟩
  | assemble pc hasm =>
      obtain ⟨q, hasm', hq⟩ := assemble_past o hasm
      exact ⟨{ o with currentDataSeq := q }, .assemble pc hasm', nofun, rfl,
        hseq (by simp [pc]) hq⟩
  | crash pc hasm =>
      exact ⟨o, .crash pc (assemble_none_past o hasm), nofun, rfl,
        hseq (by simp [pc]) id⟩
  | retry pc hlt =>
      -- so do they about OTAStage, from the first STAGE_RETRYING on
      exact ⟨{ o with otaStage := .retrying }, .retry pc hlt, fun _ => rfl,
        rfl, hseq (by simp [pc]) id⟩
  | giveUp pc hge =>
      exact ⟨{ o with otaStage := .retrying }, .giveUp pc hge, nofun, rfl,
        hseq (by simp [pc]) id⟩
  | wrote pc res hres =>
      exact ⟨o, .wrote pc res hres, fun _ => hstage (by rw [pc]; rfl), rfl,
        hseq (by simp [pc]) id⟩
  | writeFail pc res hres =>
      exact ⟨o, .writeFail pc res hres, nofun, rfl, hseq (by simp [pc]) id⟩
  | poll pc hlt =>
      exact ⟨o, .poll pc hlt, fun _ => hstage (by rw [pc]; rfl), rfl,
        hseq (by simp [pc]) id⟩
  | timeout pc hge =>
      exact ⟨o, .timeout pc hge, nofun, rfl, hseq (by simp [pc]) id⟩
  | nextHit pc hst =>
      -- the three tests of OTAStage come out alike, since it is awaited
      have hown := (hstage (by rw [pc]; rfl)).trans hst
      exact ⟨o, .nextHit pc hown, nofun, rfl, hseq (by simp [pc]) id⟩
  | nextMiss pc hst =>
      have hown := hstage (by rw [pc]; rfl)
      exact ⟨o, .nextMiss pc (fun h => hst (hown.symm.trans h)),
        fun _ => hown, rfl, hseq (by simp [pc]) id⟩
  | errHit pc hst =>
      have hown := (hstage (by rw [pc]; rfl)).trans hst
      exact ⟨o, .errHit pc hown, nofun, rfl, hseq (by simp [pc]) id⟩
  | errMiss pc hst =>
      have hown := hstage (by rw [pc]; rfl)
      exact ⟨o, .errMiss pc (fun h => hst (hown.symm.trans h)),
        fun _ => hown, rfl, hseq (by simp [pc]) id⟩
  | completeHit pc hst =>
      have hown := (hstage (by rw [pc]; rfl)).trans hst
      exact ⟨o, .completeHit pc hown, nofun, rfl, hseq (by simp [pc]) id⟩
  | completeMiss pc hst =>
      have hown := hstage (by rw [pc]; rfl)
      exact ⟨o, .completeMiss pc (fun h => hst (hown.symm.trans h)),
        fun _ => hown, rfl, hseq (by simp [pc]) id⟩
  | flag pc => exact ⟨o, .flag pc, nofun, rfl, hseq (by simp [pc]) id⟩
  | verdict pc => exact ⟨o, .verdict pc, nofun, rfl, hseq (by simp [pc]) id⟩
  | stop pc => exact ⟨o, .stop pc, nofun, rfl, hseq (by simp [pc]) id⟩
  | quitThread pc =>
      exact ⟨o, .quitThread pc, nofun, rfl, hseq (by simp [pc]) id⟩
  | quitServ pc =>
      exact ⟨o, .quitServ pc, nofun, rfl, hseq (by simp [pc]) id⟩

-- ==================================================================== hidRead

/-- A response is judged by its bytes, and for DATA by the sequence
number it is compared with. -/
theorem respond_past (g o : Shared) {rsp : Rsp}
    (hseq : rsp.cmd = dataCmd → o.currentDataSeq = g.currentDataSeq) :
    respond cs (g.past o) rsp = respond cs g rsp := by
  by_cases hd : rsp.cmd = dataCmd
  · have hpast : (g.past o).currentDataSeq = g.currentDataSeq := hseq hd
    unfold respond
    rw [hpast]
    rfl
  · simp only [respond, if_neg hd]

/-- A move of the reader from the one set of left-overs is its move from
the other, since the response it judges is one it has read itself. -/
theorem RStep.past {pc pc' : RPc} {j : RIn}
    (h : RStep cs g pc j g' pc' es) (o : Shared)
    (hrsp : pc.busy = true → o.rspCmd = g.rspCmd)
    (hseq : pc = .decide → j = .tick → g.rspCmd.cmd = dataCmd →
      o.currentDataSeq = g.currentDataSeq) :
    ∃ o', RStep cs (g.past o) pc j (g'.past o') pc' es
      ∧ (pc'.busy = true → o'.rspCmd = g'.rspCmd)
      ∧ o'.currentDataSeq = o.currentDataSeq
      ∧ (o.otaStage = g.otaStage → o'.otaStage = g'.otaStage) := by
  cases h with
  | enter hpc hflag => exact ⟨o, .enter hpc hflag, nofun, rfl, id⟩
  | leave hpc hflag => exact ⟨o, .leave hpc hflag, nofun, rfl, id⟩
  | readFail hpc => exact ⟨o, .readFail hpc, nofun, rfl, id⟩
  | report hpc r hrid =>
      -- rsp_cmd is overwritten whole, so what it held is gone
      exact ⟨{ o with rspCmd := Rsp.ofReport r }, .report hpc r hrid,
        fun _ => rfl, rfl, id⟩
  | stray hpc r hrid =>
      exact ⟨{ o with rspCmd := Rsp.ofReport r }, .stray hpc r hrid,
        fun _ => rfl, rfl, id⟩
  | decide hpc hx =>
      -- the response is this reader's own; respond reads current_data_seq
      -- too, for a DATA response
      have hown : o.rspCmd = g.rspCmd := hrsp (by rw [hpc]; rfl)
      have hx' : respond cs (g.past o) g.rspCmd = respond cs g g.rspCmd :=
        respond_past g o (hseq hpc rfl)
      have hmove := @RStep.decide cs (g.past o) pc hpc _ _ (by
        rw [show (g.past o).rspCmd = g.rspCmd from hown, hx', hx])
      rw [show (g.past o).rspCmd = g.rspCmd from hown] at hmove
      exact ⟨{ o with
          otaStatus := cs.promote g.rspCmd.stat, rspCmd := g.rspCmd },
        hmove, fun _ => rfl, rfl, id⟩
  | ignore hpc hx =>
      have hown : o.rspCmd = g.rspCmd := hrsp (by rw [hpc]; rfl)
      have hx' : respond cs (g.past o) g.rspCmd = respond cs g g.rspCmd :=
        respond_past g o (hseq hpc rfl)
      have hmove := @RStep.ignore cs (g.past o) pc hpc (by
        rw [show (g.past o).rspCmd = g.rspCmd from hown, hx', hx])
      rw [show (g.past o).rspCmd = g.rspCmd from hown] at hmove
      exact ⟨{ o with
          otaStatus := cs.promote g.rspCmd.stat, rspCmd := g.rspCmd },
        hmove, nofun, rfl, id⟩
  | @store x hpc =>
      -- the store makes OTAStage agree, whatever it was
      have hown : o.rspCmd = g.rspCmd := hrsp (by rw [hpc]; rfl)
      have hmove := @RStep.store cs (g.past o) pc x hpc
      rw [show (g.past o).rspCmd = g.rspCmd from hown] at hmove
      exact ⟨{ o with otaStage := x, rspCmd := g.rspCmd }, hmove, nofun, rfl,
        fun _ => rfl⟩
  | failFlag hpc => exact ⟨o, .failFlag hpc, nofun, rfl, id⟩
  | failLog hpc => exact ⟨o, .failLog hpc, nofun, rfl, id⟩
  | failStop hpc => exact ⟨o, .failStop hpc, nofun, rfl, id⟩

-- =============================================================== the sessions

/-- Two sessions that differ in what they found, and have done the same:
the same log, the same sender, the same reader. -/
structure SameSoFar (s t : Session) : Prop where
  sender : t.snd = s.snd
  rdr : t.rdr = s.rdr
  trace : t.trace = s.trace
  shared : s.snd.pc ≠ .init → t.g = s.g.past t.g
  alone : s.snd.pc.early = true → s.rdr = none
  unbegun : s.snd.pc = .load ∨ s.snd.pc = .create → s.g.totalCmdNum = 0
  stage : s.snd.pc.awaiting = true → t.g.otaStage = s.g.otaStage
  rsp : s.rdr.any RPc.busy = true → t.g.rspCmd = s.g.rspCmd
  built : (s.snd.pc.cleared = true ∨ s.snd.pc.holding = true) →
    t.g.currentDataSeq = s.g.currentDataSeq
  seq : s.rdr.isSome = true → ¬ s.fresh →
    t.g.currentDataSeq = s.g.currentDataSeq

/-- Where `current_data_seq` comes from behind a sender's move: it was
cleared, or both sessions had the same before. -/
theorem SameSoFar.seq_send (hi : SameSoFar s t)
    (h : SStep cs s.g s.snd i g' l' es)
    (hafter : (l'.pc.cleared = true ∨ l'.pc.holding = true)
      ∨ (Session.spawn s.rdr i).isSome = true
        ∧ ¬ (g'.totalCmdNum = 0 ∧ (l'.pc = .create ∨ l'.pc = .next))) :
    t.g.currentDataSeq = s.g.currentDataSeq ∨ s.snd.pc = .next := by
  have hkept : s.snd.pc ≠ .create → s.snd.pc ≠ .next →
      s.rdr.isSome = true → t.g.currentDataSeq = s.g.currentDataSeq :=
    fun hcreate hnext hsome =>
      hi.seq hsome fun hfresh => hfresh.2.elim hcreate hnext
  cases h with
  | next pc => exact Or.inr pc
  | newStage pc | assemble pc | crash pc =>
      exact Or.inl (hi.built (Or.inl (by rw [pc]; rfl)))
  | retry pc | giveUp pc | wrote pc | writeFail pc | poll pc | timeout pc
  | nextHit pc | nextMiss pc | errHit pc | errMiss pc | completeHit pc
  | completeMiss pc =>
      exact Or.inl (hi.built (Or.inr (by rw [pc]; rfl)))
  | created pc ret =>
      have hzero := hi.unbegun (Or.inr pc)
      rcases hafter with hpc | ⟨-, hno⟩
      · rcases hpc with h | h <;> cases h
      · exact absurd ⟨hzero, Or.inr rfl⟩ hno
  | init pc | openFail pc | opened pc | openOver pc =>
      have hnone := hi.alone (by rw [pc]; rfl)
      rcases hafter with hpc | ⟨hsome, -⟩
      · rcases hpc with h | h <;> cases h
      · have hsome' : s.rdr.isSome = true := hsome
        rw [hnone] at hsome'
        cases hsome'
  | flag pc | verdict pc | stop pc | quitThread pc | quitServ pc =>
      rcases hafter with hpc | ⟨hsome, -⟩
      · rcases hpc with h | h <;> cases h
      · exact Or.inl (hkept (by rw [pc]; nofun) (by rw [pc]; nofun) hsome)

theorem SameSoFar.send (hi : SameSoFar s t)
    (h : SStep cs s.g s.snd i g' l' es) :
    ∃ o, SStep cs t.g t.snd i (g'.past o) l' es
      ∧ SameSoFar
        { g := g', snd := l', rdr := Session.spawn s.rdr i
          trace := s.trace ++ es }
        { g := g'.past o, snd := l', rdr := Session.spawn t.rdr i
          trace := t.trace ++ es } := by
  have hspawn : Session.spawn t.rdr i = Session.spawn s.rdr i := by
    rw [hi.rdr]
  by_cases hinit : s.snd.pc = .init
  · cases h with
    | init pc =>
        refine ⟨t.g, ?_, ⟨rfl, hspawn, ?_, fun _ => rfl,
          fun _ => hi.alone (by rw [pc]; rfl), fun _ => rfl, nofun, ?_,
          by simp [SPc.cleared, SPc.holding], ?_⟩⟩
        · rw [hi.sender]
          exact .init pc
        · dsimp only
          rw [hi.trace]
        · intro hbusy
          have hbusy' : s.rdr.any RPc.busy = true := hbusy
          rw [hi.alone (by rw [pc]; rfl)] at hbusy'
          cases hbusy'
        · intro hsome
          have hsome' : s.rdr.isSome = true := hsome
          rw [hi.alone (by rw [pc]; rfl)] at hsome'
          cases hsome'
    | openFail pc | opened pc | openOver pc | created pc | next pc
    | newStage pc | assemble pc | crash pc | retry pc | giveUp pc | wrote pc
    | writeFail pc | poll pc | timeout pc | nextHit pc | nextMiss pc
    | errHit pc | errMiss pc | completeHit pc | completeMiss pc | flag pc
    | verdict pc | stop pc | quitThread pc | quitServ pc =>
        cases pc.symm.trans hinit
  · obtain ⟨o, hmove, hstage, hrsp, hseq⟩ := h.past hinit t.g hi.stage
    rw [← hi.shared hinit, ← hi.sender] at hmove
    refine ⟨o, hmove, ⟨rfl, hspawn, ?_, fun _ => rfl, ?_, ?_, hstage, ?_, ?_,
      ?_⟩⟩
    · dsimp only
      rw [hi.trace]
    · -- alone
      intro hpc
      cases h with
      | opened pc => exact hi.alone (by rw [pc]; rfl)
      | init pc => exact absurd pc hinit
      | openFail | openOver | created | next | newStage | assemble | crash
      | retry | giveUp | wrote | writeFail | poll | timeout | nextHit
      | nextMiss | errHit | errMiss | completeHit | completeMiss | flag
      | verdict | stop | quitThread | quitServ => cases hpc
    · -- unbegun
      intro hpc
      cases h with
      | opened pc => exact hi.unbegun (Or.inl pc)
      | init pc => exact absurd pc hinit
      | openFail | openOver | created | next | newStage | assemble | crash
      | retry | giveUp | wrote | writeFail | poll | timeout | nextHit
      | nextMiss | errHit | errMiss | completeHit | completeMiss | flag
      | verdict | stop | quitThread | quitServ =>
          rcases hpc with h | h <;> cases h
    · intro hbusy
      have hbusy' : s.rdr.any RPc.busy = true := by
        obtain ⟨pc, hpc, hb⟩ := Option.any_eq_true _ _ |>.mp hbusy
        rw [Session.spawn_eq_some hpc (by rintro rfl; cases hb)]
        exact hb
      show o.rspCmd = g'.rspCmd
      rw [hrsp, h.rspCmd]
      exact hi.rsp hbusy'
    · intro hpc
      exact hseq (hi.seq_send h (Or.inl hpc))
    · intro hsome hnot
      exact hseq (hi.seq_send h (Or.inr ⟨hsome, hnot⟩))

theorem SameSoFar.read {pc pc' : RPc} {j : RIn} (hi : SameSoFar s t)
    (hok : judgesOwn s (.read j)) (hrdr : s.rdr = some pc)
    (h : RStep cs s.g pc j g' pc' es) :
    ∃ o, RStep cs t.g pc j (g'.past o) pc' es
      ∧ SameSoFar
        { s with g := g', rdr := some pc', trace := s.trace ++ es }
        { t with
          g := g'.past o, rdr := some pc', trace := t.trace ++ es } := by
  have hinit : s.snd.pc.early = true → False := fun hpc => by
    cases (hi.alone hpc).symm.trans hrdr
  have hsome : s.rdr.isSome = true := by
    rw [hrdr]
    rfl
  obtain ⟨o, hmove, hrsp, hseq, hstage⟩ := h.past t.g
    (fun hbusy => hi.rsp (by rw [hrdr]; exact hbusy))
    (fun hpc htick hcmd => by
      subst htick
      exact hi.seq hsome (hok (hrdr.trans (congrArg some hpc)) hcmd))
  rw [← hi.shared fun hpc => hinit (by rw [hpc]; rfl)] at hmove
  obtain ⟨htotal, hown⟩ := h.frame
  refine ⟨o, hmove, ⟨hi.sender, rfl, ?_, fun _ => rfl,
    fun hpc => (hinit hpc).elim, fun hpc => htotal.trans (hi.unbegun hpc),
    fun ha => hstage (hi.stage ha), hrsp, ?_, ?_⟩⟩
  · dsimp only
    rw [hi.trace]
  · intro hpc
    show o.currentDataSeq = g'.currentDataSeq
    rw [hseq, hown]
    exact hi.built hpc
  · intro _ hnot
    show o.currentDataSeq = g'.currentDataSeq
    rw [hseq, hown]
    refine hi.seq hsome fun hfresh => hnot ⟨?_, hfresh.2⟩
    exact htotal.trans hfresh.1

theorem SameSoFar.step {a : Act} {s' : Session} (hi : SameSoFar s t)
    (hok : judgesOwn s a) (hs : Session.step cs s a = some s') :
    ∃ t', SameSoFar s' t' ∧ judgesOwn t a
      ∧ Session.step cs t a = some t' := by
  cases Session.step_inv hs with
  | send h =>
      obtain ⟨o, hmove, hsame⟩ := hi.send h
      refine ⟨_, hsame, trivial, ?_⟩
      simp only [Session.step, hmove.step, Option.map_some]
  | @read j pc pc' g' es hrdr h =>
      obtain ⟨o, hmove, hsame⟩ := hi.read hok hrdr h
      refine ⟨_, hsame, ?_, ?_⟩
      · cases j with
        | got res => trivial
        | tick =>
            intro hd hcmd hfresh
            have hd' : s.rdr = some .decide := hi.rdr.symm.trans hd
            have hnot : s.snd.pc ≠ .init := fun hpc => by
              cases (hi.alone (by rw [hpc]; rfl)).symm.trans hrdr
            have hrsp : t.g.rspCmd = s.g.rspCmd := hi.rsp (by rw [hd']; rfl)
            refine hok hd' (hrsp ▸ hcmd) ⟨?_, ?_⟩
            · have htotal := congrArg Shared.totalCmdNum (hi.shared hnot)
              exact htotal.symm.trans hfresh.1
            · rw [← hi.sender]
              exact hfresh.2
      · simp only [Session.step, hi.rdr, hrdr, hmove.step, Option.map_some]

/-- What a session does from one set of left-overs it does from any
other: the same actions can be taken, and they lead to the same log, the
same sender and the same reader, as long as no DATA response is judged
before `current_data_seq` has been cleared for the first packet. -/
theorem history_free {g₀ : Shared} {param2 : Option String}
    {stack : Nat → UInt8} {as : List Act}
    (h : Lts.Run (Session.step cs) judgesOwn
      (Session.call g₀ param2 stack) as s) (g₁ : Shared) :
    ∃ t, Lts.Run (Session.step cs) judgesOwn
        (Session.call g₁ param2 stack) as t
      ∧ t.trace = s.trace ∧ t.snd = s.snd ∧ t.rdr = s.rdr := by
  obtain ⟨t, hsame, hrun⟩ := h.lockstep (R := SameSoFar)
    (t := Session.call g₁ param2 stack)
    ⟨rfl, rfl, rfl, absurd rfl, fun _ => rfl, by simp [Session.call,
      Sender.call], nofun, nofun, by simp [Session.call, Sender.call,
      SPc.cleared, SPc.holding], nofun⟩
    fun s a s' t hi hok hs => hi.step hok hs
  exact ⟨t, hrun, hsame.trace, hsame.sender, hsame.rdr⟩

-- ============================================================== one session

/-- An earlier session has left STAGE_COMPLETE and a sequence number. -/
def leftOver : Shared :=
  { Shared.loaded with otaStage := .complete, currentDataSeq := 1 }

/-- The file is opened, and the device answers both packets, from the
call on. -/
def wholeCall : List Act :=
  .send .tick :: .send (.opened (some dataImage.bytes)) :: answeredRun

/-- Where that leaves a call in a process just started. -/
def wholeCallEnd : Session :=
  (Lts.run (Session.step .unsigned) judgesOwn
    (Session.call Shared.loaded none fun _ => 0) wholeCall).getD
    (Session.call Shared.loaded none fun _ => 0)

/-- The left-overs make no difference to it. -/
theorem history_free_leftOver :
    (∃ e ∈ wholeCallEnd.trace, e.succeeds = true)
      ∧ ∃ t, Lts.Run (Session.step .unsigned) judgesOwn
          (Session.call leftOver none fun _ => 0) wholeCall t
        ∧ t.trace = wholeCallEnd.trace ∧ t.snd = wholeCallEnd.snd
        ∧ t.rdr = wholeCallEnd.rdr :=
  ⟨by decide, history_free (Lts.Run.of_isSome (by decide)) leftOver⟩

end BtOta
