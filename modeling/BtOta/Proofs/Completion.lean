/-
When a session may end in success.

hidRead stores STAGE_COMPLETE on the bytes of a response alone: a
FINISH response with SUCCESS completes the session whether or not the
FINISH record has been sent (`isFinishCmd` is set and never read), and
NO_NEED_UPDATE in a START or FINISH response completes it whatever
packet is outstanding. `early_success` is the run that shows it: one
stray FINISH response while the first DATA record is outstanding.

`timely` names the reports that do no such harm. In every run whose
reports are all timely, FLAG_OTA_SUCCESS is reached only once a response
was read that completes the session where it is due
(`success_completed`). The invariant is about the mailbox: while the
sender waits, STAGE_COMPLETE in it means that such a response was read,
and the only step that could break this is hidRead's store.
-/
import BtOta.Proofs.Frame

namespace BtOta

open EventLog

/-- A START or FINISH response on which hidRead completes the session,
whatever is outstanding. -/
def completes (rsp : Rsp) : Bool :=
  (rsp.cmd == startCmd && rsp.stat == 2)
    || (rsp.cmd == finishCmd && (rsp.stat == 0 || rsp.stat == 2))

/-- A DATA response on which hidRead completes the session: its sequence
number passes for that of the packet outstanding. -/
def completesData (cs : CharSign) (g : Shared) (rsp : Rsp) : Bool :=
  rsp.cmd == dataCmd && rsp.stat == 2
    && cs.seq rsp.seq0 rsp.seq1 == g.currentDataSeq

/-- The step reads no report that completes the session before its
time: no FINISH response with SUCCESS before the FINISH record has been
transmitted, no NO_NEED_UPDATE for another command than that of the
packet outstanding, and none for a sequence number that hidRead's
comparison takes for another packet's. -/
def timely (cs : CharSign) (s : Session) : Act → Prop
  | .read (.got (some r)) =>
      (Rsp.ofReport r).rid = 0x02 → completes (Rsp.ofReport r) = true →
        dueComplete s.trace (Rsp.ofReport r) = true
  | .read .tick =>
      s.rdr = some .decide → completesData cs s.g s.g.rspCmd = true →
        dueComplete (beforeReport s.trace) s.g.rspCmd = true
  | _ => True

instance (cs : CharSign) (s : Session) : ∀ a, Decidable (timely cs s a)
  | .read (.got (some _)) => inferInstanceAs (Decidable (_ → _ → _))
  | .read .tick => inferInstanceAs (Decidable (_ → _ → _))
  | .read (.got none) => inferInstanceAs (Decidable True)
  | .send _ => inferInstanceAs (Decidable True)

/-- A jump to FLAG_OTA_SUCCESS comes after a response was read that
completes the session where it is due. -/
def SuccessDue (before : List Event) (e : Event) : Prop :=
  e.succeeds = true → Completed before

instance (before : List Event) (e : Event) :
    Decidable (SuccessDue before e) :=
  inferInstanceAs (Decidable (_ → _))

/-- What a run of timely reports keeps: what a reader holds and what
waits in the mailbox are due, and so was every success. -/
structure CompletionInv (s : Session) : Prop where
  /-- the response in `rsp_cmd` is the report read last -/
  decide : s.rdr = some .decide →
    (∃ r after, s.trace = beforeReport s.trace ++ .report r :: after
      ∧ s.g.rspCmd = Rsp.ofReport r)
    ∧ (completes s.g.rspCmd = true →
      dueComplete (beforeReport s.trace) s.g.rspCmd = true)
  store : s.rdr = some (.store .complete) → Completed s.trace
  mail : s.snd.pc.awaiting = true → s.g.otaStage = .complete →
    Completed s.trace
  log : Always SuccessDue s.trace

/-- hidRead completes a session on one of the responses named, and on no
other. -/
theorem completes_of_respond {cs : CharSign} {g : Shared} {rsp : Rsp}
    {ms : List Msg} (h : respond cs g rsp = some (.complete, ms)) :
    completes rsp = true ∨ completesData cs g rsp = true := by
  rcases respond_inv h with ⟨hc, hx⟩ | ⟨hc, hseq, hx⟩ | ⟨-, -, hx⟩ | ⟨hc, hx⟩
  · obtain ⟨-, hon⟩ | hstat := stageOf_eq_complete.mp hx.symm
    · cases hon
    · exact Or.inl (by simp [completes, hc, hstat])
  · obtain ⟨-, hon⟩ | hstat := stageOf_eq_complete.mp hx.symm
    · cases hon
    · exact Or.inr (by simp [completesData, hc, hstat, hseq])
  · cases hx
  · obtain ⟨hstat, -⟩ | hstat := stageOf_eq_complete.mp hx.symm
    · exact Or.inl (by simp [completes, hc, hstat])
    · exact Or.inl (by simp [completes, hc, hstat])

/-- A sender's move keeps the invariant: it reads no report, and it sees
STAGE_COMPLETE only while it waits. -/
theorem CompletionInv.send {cs : CharSign} {s : Session} {i : SIn}
    {g : Shared} {snd : Sender} {es : List Event} (hi : CompletionInv s)
    (h : SStep cs s.g s.snd i g snd es) :
    CompletionInv
      { g := g, snd := snd, rdr := Session.spawn s.rdr i
        trace := s.trace ++ es } := by
  have hrep : ∀ e ∈ es, ∀ r, e ≠ .report r := by
    intro e he r hr
    subst hr
    cases (h.event he).fromReader
  refine ⟨?_, ?_, ?_, ?_⟩
  · intro hd
    obtain ⟨⟨r, after, htr, hrsp⟩, hdue⟩ := hi.decide
      (Session.spawn_eq_some hd (by decide))
    dsimp only
    rw [beforeReport_append _ hrep, h.rspCmd]
    refine ⟨⟨r, after ++ es, ?_, hrsp⟩, hdue⟩
    rw [← List.cons_append, ← List.append_assoc, ← htr]
  · intro hd
    exact (hi.store (Session.spawn_eq_some hd (by simp))).append es
  · intro ha hst
    rcases (h.awaiting ha).2 with ⟨-, hret⟩ | ⟨hwait, hsame⟩
    · rw [hret] at hst
      cases hst
    · exact (hi.mail hwait (hsame ▸ hst)).append es
  · refine always_append.mpr ⟨hi.log, ?_⟩
    intro before e after hes hsucc
    have he : e ∈ es := by
      rw [hes]
      exact List.mem_append_cons_self
    obtain ⟨hpc, hst⟩ := (h.event he).succeeds hsucc
    exact (hi.mail (by rw [hpc]; rfl) hst).append before

/-- A reader's move keeps the invariant, if it is timely. -/
theorem CompletionInv.read {cs : CharSign} {s : Session} {i : RIn}
    {pc pc' : RPc} {g : Shared} {es : List Event} (hi : CompletionInv s)
    (hok : timely cs s (.read i)) (hrdr : s.rdr = some pc)
    (h : RStep cs s.g pc i g pc' es) :
    CompletionInv { s with g := g, rdr := some pc', trace := s.trace ++ es } := by
  have hlog : Always SuccessDue (s.trace ++ es) := by
    apply hi.log.append_of
    intro e he before hsucc
    have hsend := h.fromSender e he
    cases e with
    | goto lb k => cases hsend
    | _ => cases hsucc
  cases h with
  | report hpc r hrid =>
      -- the report is weighed against the trace before it, which is what
      -- `timely` speaks of
      refine ⟨?_, by simp, fun ha hst => (hi.mail ha hst).append _, hlog⟩
      intro _
      have hbefore : beforeReport (s.trace ++ .report r
          :: s.g.verbose (.dump (Rsp.ofReport r).bytes)) = s.trace := by
        rw [show ∀ vs : List Event, s.trace ++ .report r :: vs
            = (s.trace ++ [.report r]) ++ vs by simp,
          beforeReport_append, beforeReport_report]
        intro e he r' hr'
        rw [Shared.mem_verbose he] at hr'
        cases hr'
      dsimp only
      rw [hbefore]
      exact ⟨⟨r, _, rfl, rfl⟩, hok hrid⟩
  | decide hpc hx =>
      -- most responses were weighed as they were read; a DATA response is
      -- weighed now, with current_data_seq
      refine ⟨by simp, ?_, fun ha hst => (hi.mail ha hst).append _, hlog⟩
      intro hd
      simp only [Option.some.injEq, RPc.store.injEq] at hd
      subst hd
      rw [hpc] at hrdr
      obtain ⟨⟨r, after, htr, hrsp⟩, hdue⟩ := hi.decide hrdr
      have hdue' : dueComplete (beforeReport s.trace) s.g.rspCmd = true := by
        rcases completes_of_respond hx with hc | hc
        · exact hdue hc
        · exact hok hrdr hc
      rw [hrsp] at hdue'
      exact Sometime.append ⟨_, .report r, after, htr, hdue'⟩ _
  | @store x hpc =>
      -- from the reader's hand into the mailbox
      refine ⟨by simp, by simp, ?_, hlog⟩
      intro _ hst
      have hx : x = Stage.complete := hst
      subst hx
      exact (hi.store (hrdr.trans (congrArg some hpc))).append _
  | readFail | enter | leave | stray | ignore | failFlag | failLog
  | failStop =>
      exact ⟨by simp, by simp, fun ha hst => (hi.mail ha hst).append _, hlog⟩

/-- In every run whose reports are all timely, the session reaches
FLAG_OTA_SUCCESS only after a response was read that completes it where
it is due. -/
theorem success_completed {cs : CharSign} {g₀ : Shared}
    {param2 : Option String} {stack : Nat → UInt8} {file : List UInt8}
    {s : Session}
    (h : Lts.Reach (Session.step cs) (timely cs)
      (Session.start g₀ param2 stack file) s) :
    Always SuccessDue s.trace := by
  have hinv : CompletionInv s := by
    refine h.invariant (I := CompletionInv) ?_ ?_
    · refine ⟨nofun, nofun, nofun, ?_⟩
      refine (always_nil _).append_of ?_
      intro e he before hsucc
      obtain ⟨m, rfl⟩ := Session.start_log g₀ param2 stack file he
      cases hsucc
    · intro s a s' hi hok hs
      cases Session.step_inv hs with
      | send hm => exact hi.send hm
      | read hrdr hm => exact hi.read hok hrdr hm
  exact hinv.log

-- ======================================================= two sessions

/-- Where that leaves the session. -/
def answeredEnd : Session :=
  (Lts.run (Session.step .unsigned) (timely .unsigned) dataImage.session
    answeredRun).getD dataImage.session

/-- The session succeeds, and was due to: both records are answered in
time. -/
theorem success_completed_answered :
    (∃ e ∈ answeredEnd.trace, e.succeeds = true)
      ∧ Always SuccessDue answeredEnd.trace :=
  ⟨by decide, success_completed (Lts.Reach.of_isSome (by decide))⟩

/-- A FINISH response with SUCCESS, where the first DATA record is
outstanding. -/
def strayFinish : List Act :=
  sendFirst ++ readOne [0xA1, 0x02, 0, 0x03, 0, 0, 0] ++ pollToEnd

/-- The session reports success with one packet sent: a stray FINISH
response ends it while the first DATA record is outstanding. -/
theorem early_success :
    ¬ ∀ (cs : CharSign) (g₀ : Shared) (param2 : Option String)
        (stack : Nat → UInt8) (img : Image) (s : Session),
      Lts.Reach (Session.step cs) Lts.free
        (Session.start g₀ param2 stack img.bytes) s →
      Always SuccessDue s.trace := by
  intro h
  have hend := h .unsigned _ _ _ dataImage _ (Lts.Reach.of_isSome
    (show (Lts.run (Session.step .unsigned) Lts.free dataImage.session
      strayFinish).isSome = true by decide))
  exact absurd hend (by decide)

end BtOta
