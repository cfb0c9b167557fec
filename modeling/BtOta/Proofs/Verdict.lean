/-
One verdict per session, and nothing behind it.

ota_update announces the end of a session once, on whichever path it
takes. hidRead announces it too when a read fails, and neither thread
looks at what the other has said: `two_verdicts` is the session that
logs 'OTA fail' from the reader and 'OTA end' from the sender. Even
where only the sender speaks, the verdict need not be the one that was
recorded, because STAGE_COMPLETE can be overwritten, or recorded when
the sender has already given up.

`undisturbed` excludes these: no read fails, and STAGE_COMPLETE is
neither recorded too late nor passed over by the sender. In every
run under it, a session whose threads have ended has logged one verdict
and one 'OTA STOP', 'OTA end' exactly if a completing response was
recorded, and no packet was written behind the verdict
(`one_verdict`).
-/
import BtOta.Proofs.Frame

namespace BtOta

open EventLog

-- ============================================================ vocabulary

/-- One of the two lines that announce how the session ended. -/
def Event.isVerdict : Event → Bool
  | .log .otaFail | .log .otaEnd => true
  | _ => false

/-- The 'OTA end' line. -/
def Event.isEnd : Event → Bool
  | .log .otaEnd => true
  | _ => false

/-- The 'OTA STOP' line. -/
def Event.isStop : Event → Bool
  | .log .otaStop => true
  | _ => false

/-- hidRead stored STAGE_COMPLETE. -/
def Event.recordsComplete : Event → Bool
  | .stored .complete _ => true
  | _ => false

/-- A completing response has been recorded in this session, whether or
not the sender has seen it. -/
def recorded (trace : List Event) : Bool := trace.any Event.recordsComplete

/-- A packet is written only while no verdict has been logged. -/
def WrittenBefore (before : List Event) (e : Event) : Prop :=
  e.sent?.isSome = true → before.any Event.isVerdict = false

instance (before : List Event) (e : Event) :
    Decidable (WrittenBefore before e) :=
  inferInstanceAs (Decidable (_ → _))

/-- Both threads have ended, the reader possibly by never having been
created, so nothing more is said. -/
def Session.over (s : Session) : Bool :=
  (s.snd.pc == .returned .fail || s.snd.pc == .returned .success)
    && (s.rdr == none || s.rdr == some .ended)

/-- A session that is over has logged one verdict and one 'OTA STOP',
and the verdict is 'OTA end' exactly if a completing response was
recorded. -/
def Session.OneVerdict (s : Session) : Prop :=
  s.over = true →
    s.trace.countP Event.isVerdict = 1
      ∧ s.trace.countP Event.isStop = 1
      ∧ (s.trace.any Event.isEnd = true ↔ recorded s.trace = true)

instance (s : Session) : Decidable s.OneVerdict :=
  inferInstanceAs (Decidable (_ → _ ∧ _ ∧ (_ ↔ _)))

/-- The step disturbs no verdict: no read fails, hidRead records no
STAGE_COMPLETE for a sender on its way out of FLAG_OTA_FAIL, and with a
STAGE_COMPLETE recorded the sender neither stores STAGE_NEW_CMD or
STAGE_RETRYING nor fails to write. -/
def undisturbed (s : Session) : Act → Prop
  | .read (.got res) => res.isSome = true
  | .read .tick =>
      s.rdr = some (.store .complete) → s.snd.pc.failing = false
  | .send (.wrote res) => res < 0 → recorded s.trace = false
  | .send .tick =>
      (s.snd.pc = .newStage ∨ s.snd.pc = .retry) → recorded s.trace = false
  | .send _ => True

instance (s : Session) : ∀ a, Decidable (undisturbed s a)
  | .read (.got _) => inferInstanceAs (Decidable (_ = true))
  | .read .tick => inferInstanceAs (Decidable (_ → _))
  | .send (.wrote _) => inferInstanceAs (Decidable (_ → _))
  | .send .tick => inferInstanceAs (Decidable (_ → _))
  | .send (.opened _) => inferInstanceAs (Decidable True)
  | .send (.created _) => inferInstanceAs (Decidable True)

-- ========================================================= what is said

/-- Verdicts the sender has logged by the time it stands here: its own
ones, the reader's apart. -/
def SPc.verdicts : SPc → Nat
  | .stop _ | .quitThread _ | .quitServ _ | .returned _ => 1
  | _ => 0

/-- 'OTA STOP' lines the sender has logged by then. -/
def SPc.stops : SPc → Nat
  | .quitThread _ | .quitServ _ | .returned _ => 1
  | _ => 0

/-- 'OTA end' lines the sender has logged by then. -/
def SPc.ends : SPc → Nat
  | .stop .success | .quitThread .success | .quitServ .success
  | .returned .success => 1
  | _ => 0

variable {cs : CharSign} {g g' : Shared} {l l' : Sender} {es : List Event}
  {i : SIn}

theorem Event.quiet_facts {e : Event} (h : e.quiet = true) :
    e.isVerdict = false ∧ e.isStop = false ∧ e.isEnd = false := by
  cases e with
  | log m => cases m <;> first | exact ⟨rfl, rfl, rfl⟩ | cases h
  | _ => cases h

/-- Away from the two announcements a sender's move announces nothing. -/
theorem SStep.silent (h : SStep cs g l i g' l' es)
    (hv : ∀ v, l.pc ≠ .verdict v) (hs : ∀ v, l.pc ≠ .stop v) :
    ∀ e ∈ es, e.isVerdict = false ∧ e.isStop = false ∧ e.isEnd = false := by
  intro e he
  cases h.event he with
  | quiet hq => exact Event.quiet_facts hq
  | verdict pc => exact absurd pc (hv _)
  | stop pc => exact absurd pc (hs _)
  | _ => exact ⟨rfl, rfl, rfl⟩

/-- The sender's announcements keep pace with its program counter. -/
theorem SStep.announces (h : SStep cs g l i g' l' es) :
    l'.pc.verdicts = l.pc.verdicts + es.countP Event.isVerdict
      ∧ l'.pc.stops = l.pc.stops + es.countP Event.isStop
      ∧ l'.pc.ends = l.pc.ends + es.countP Event.isEnd := by
  have quietly : (∀ v, l.pc ≠ .verdict v) → (∀ v, l.pc ≠ .stop v) →
      es.countP Event.isVerdict = 0 ∧ es.countP Event.isStop = 0
        ∧ es.countP Event.isEnd = 0 := by
    intro hv hs
    have hsil := h.silent hv hs
    refine ⟨List.countP_eq_zero.mpr ?_, List.countP_eq_zero.mpr ?_,
      List.countP_eq_zero.mpr ?_⟩
    · exact fun e he => by simp [(hsil e he).1]
    · exact fun e he => by simp [(hsil e he).2.1]
    · exact fun e he => by simp [(hsil e he).2.2]
  cases h with
  | verdict pc =>
      rename_i v
      rw [pc]
      cases v <;> exact ⟨rfl, rfl, rfl⟩
  | stop pc =>
      rename_i v
      rw [pc]
      cases v <;> exact ⟨rfl, rfl, rfl⟩
  | flag pc | quitThread pc | quitServ pc =>
      rename_i v
      obtain ⟨h₁, h₂, h₃⟩ := quietly (by simp [pc]) (by simp [pc])
      rw [h₁, h₂, h₃, pc]
      cases v <;> exact ⟨rfl, rfl, rfl⟩
  | init pc | openFail pc | opened pc | openOver pc | created pc | next pc
  | newStage pc | assemble pc | crash pc | retry pc | giveUp pc | wrote pc
  | writeFail pc | poll pc | timeout pc | nextHit pc | nextMiss pc
  | errHit pc | errMiss pc | completeHit pc | completeMiss pc =>
      obtain ⟨h₁, h₂, h₃⟩ := quietly (by simp [pc]) (by simp [pc])
      rw [h₁, h₂, h₃, pc]
      exact ⟨rfl, rfl, rfl⟩

/-- Where the sender comes from when it is on its way out: from there
already, or from the poll that found STAGE_COMPLETE. -/
theorem SStep.succeeding (h : SStep cs g l i g' l' es)
    (hs : l'.pc.succeeding = true) :
    l.pc.succeeding = true ∨ l.pc = .pollComplete ∧ g.otaStage = .complete := by
  cases h with
  | completeHit pc hst => exact Or.inr ⟨pc, hst⟩
  | flag pc | verdict pc | stop pc | quitThread pc | quitServ pc =>
      rename_i v
      apply Or.inl
      rw [pc]
      cases v with
      | success => rfl
      | fail => cases hs
  | init | openFail | opened | openOver | created | next | newStage
  | assemble | crash | retry | giveUp | wrote | writeFail | poll | timeout
  | nextHit | nextMiss | errHit | errMiss | completeMiss =>
      simp [SPc.succeeding] at hs

theorem SStep.failing (h : SStep cs g l i g' l' es)
    (hf : l'.pc.failing = true) :
    l.pc.failing = true ∨ l.pc = .load
      ∨ (l.pc = .retry ∧ i = .tick) ∨ ∃ res, i = .wrote res ∧ res < 0 := by
  cases h with
  | openFail pc => exact Or.inr (Or.inl pc)
  | giveUp pc hge => exact Or.inr (Or.inr (Or.inl ⟨pc, rfl⟩))
  | writeFail pc res hres => exact Or.inr (Or.inr (Or.inr ⟨res, rfl, hres⟩))
  | flag pc | verdict pc | stop pc | quitThread pc | quitServ pc =>
      rename_i v
      apply Or.inl
      rw [pc]
      cases v with
      | fail => rfl
      | success => cases hf
  | init | opened | openOver | created | next | newStage | assemble | crash
  | retry | wrote | poll | timeout | nextHit | nextMiss | errHit | errMiss
  | completeHit | completeMiss =>
      simp [SPc.failing] at hf

/-- hidRead announces nothing unless a read has failed. -/
theorem RStep.silent {pc pc' : RPc} {j : RIn}
    (h : RStep cs g pc j g' pc' es) (hlog : pc ≠ .failLog)
    (hstop : pc ≠ .failStop) :
    ∀ e ∈ es, e.isVerdict = false ∧ e.isStop = false ∧ e.isEnd = false := by
  intro e he
  cases h with
  | report hpc r hrid | stray hpc r hrid =>
      rcases List.mem_cons.mp he with rfl | he
      · exact ⟨rfl, rfl, rfl⟩
      · rw [Shared.mem_verbose he]
        exact ⟨rfl, rfl, rfl⟩
  | decide hpc hx =>
      obtain ⟨m, hm, rfl⟩ := List.mem_map.mp he
      exact Event.quiet_facts (respond_quiet hx m hm)
  | readFail hpc | store hpc =>
      rw [List.mem_singleton.mp he]
      exact ⟨rfl, rfl, rfl⟩
  | failLog hpc => exact absurd hpc hlog
  | failStop hpc => exact absurd hpc hstop
  | enter | leave | ignore | failFlag => cases he

/-- A log grows by silent events: nothing new is announced. -/
theorem countP_silent {p : Event → Bool} {trace es : List Event}
    (h : ∀ e ∈ es, p e = false) :
    (trace ++ es).countP p = trace.countP p := by
  have hzero : es.countP p = 0 :=
    List.countP_eq_zero.mpr fun e he => by simp [h e he]
  rw [List.countP_append, hzero, Nat.add_zero]

-- ============================================================ the invariant

/-- What an undisturbed run keeps: the log's announcements are the
sender's, by where it stands, and a success has been recorded. -/
structure VerdictInv (s : Session) : Prop where
  opened : s.snd.pc ≠ .init ∧ s.snd.pc ≠ .load
  reader : ∀ pc, s.rdr = some pc →
    pc ≠ .failFlag ∧ pc ≠ .failLog ∧ pc ≠ .failStop
  verdicts : s.trace.countP Event.isVerdict = s.snd.pc.verdicts
  stops : s.trace.countP Event.isStop = s.snd.pc.stops
  ends : s.trace.countP Event.isEnd = s.snd.pc.ends
  succeeding : s.snd.pc.succeeding = true → recorded s.trace = true
  failing : s.snd.pc.failing = true → recorded s.trace = false
  mail : s.snd.pc.awaiting = true → s.g.otaStage = .complete →
    recorded s.trace = true
  log : Always WrittenBefore s.trace

theorem recorded_append (trace es : List Event) :
    recorded (trace ++ es)
      = (recorded trace || es.any Event.recordsComplete) :=
  List.any_append

/-- Only hidRead records, so the sender's moves leave it as it is. -/
theorem SStep.recorded (h : SStep cs g l i g' l' es) (trace : List Event) :
    BtOta.recorded (trace ++ es) = BtOta.recorded trace := by
  rw [recorded_append, List.any_eq_false.mpr, Bool.or_false]
  intro e he hrec
  have hev := (h.event he).fromReader
  cases e with
  | stored x rsp => cases hev
  | _ => cases hrec

/-- And it records with its store alone. -/
theorem RStep.records {pc pc' : RPc} {j : RIn} {e : Event}
    (h : RStep cs g pc j g' pc' es) (he : e ∈ es)
    (hrec : e.recordsComplete = true) :
    pc = .store .complete ∧ j = .tick := by
  cases h with
  | @store x hpc =>
      rw [List.mem_singleton.mp he] at hrec
      cases x with
      | complete => exact ⟨hpc, rfl⟩
      | _ => cases hrec
  | report hpc r hrid | stray hpc r hrid =>
      rcases List.mem_cons.mp he with rfl | he
      · cases hrec
      · rw [Shared.mem_verbose he] at hrec
        cases hrec
  | decide hpc hx =>
      obtain ⟨m, -, rfl⟩ := List.mem_map.mp he
      cases hrec
  | readFail | failLog | failStop =>
      rw [List.mem_singleton.mp he] at hrec
      cases hrec
  | enter | leave | ignore | failFlag => cases he

theorem VerdictInv.send {s : Session} (hi : VerdictInv s)
    (hok : undisturbed s (.send i)) (h : SStep cs s.g s.snd i g' l' es) :
    VerdictInv
      { g := g', snd := l', rdr := Session.spawn s.rdr i
        trace := s.trace ++ es } := by
  obtain ⟨hv, hst, he⟩ := h.announces
  constructor
  case opened =>
    exact ⟨fun hpc => hi.opened.1 (h.opening (Or.inl hpc)),
      fun hpc => hi.opened.1 (h.opening (Or.inr hpc))⟩
  case reader =>
    intro pc hpc
    unfold Session.spawn at hpc
    split at hpc
    · cases hpc
      exact ⟨nofun, nofun, nofun⟩
    · exact hi.reader pc hpc
  case verdicts => rw [List.countP_append, hi.verdicts, hv]
  case stops => rw [List.countP_append, hi.stops, hst]
  case ends => rw [List.countP_append, hi.ends, he]
  case succeeding =>
    intro hs
    dsimp only
    rw [h.recorded]
    rcases h.succeeding hs with hs | ⟨hpc, hstage⟩
    · exact hi.succeeding hs
    · exact hi.mail (by rw [hpc]; rfl) hstage
  case failing =>
    intro hf
    dsimp only
    rw [h.recorded]
    rcases h.failing hf with hf | hpc | ⟨hpc, rfl⟩ | ⟨res, rfl, hres⟩
    · exact hi.failing hf
    · exact absurd hpc hi.opened.2
    · exact hok (Or.inr hpc)
    · exact hok hres
  case mail =>
    intro ha hstage
    dsimp only
    rw [h.recorded]
    rcases (h.awaiting ha).2 with ⟨-, hret⟩ | ⟨hwait, hsame⟩
    · rw [hret] at hstage
      cases hstage
    · exact hi.mail hwait (hsame ▸ hstage)
  case log =>
    refine always_append.mpr ⟨hi.log, ?_⟩
    intro before e after hes hsent
    have hmem : e ∈ es := by
      rw [hes]
      exact List.mem_append_cons_self
    cases h.event hmem with
    | quiet hq =>
        obtain ⟨m, rfl⟩ := Event.quiet_inv hq
        cases hsent
    | tx pc =>
        -- at hidWrite no verdict has been logged, nor does this step log one
        have hsil := h.silent (by simp [pc]) (by simp [pc])
        apply List.any_eq_false.mpr
        intro e' he'
        rcases List.mem_append.mp he' with he' | he'
        · have hzero := hi.verdicts
          rw [pc] at hzero
          exact List.countP_eq_zero.mp hzero e' he'
        · have hmem' : e' ∈ es := by
            rw [hes]
            exact List.mem_append_left _ he'
          simp [(hsil e' hmem').1]
    | _ => cases hsent

theorem VerdictInv.read {s : Session} {j : RIn} {pc pc' : RPc}
    (hi : VerdictInv s) (hok : undisturbed s (.read j))
    (hrdr : s.rdr = some pc) (h : RStep cs s.g pc j g' pc' es) :
    VerdictInv { s with g := g', rdr := some pc', trace := s.trace ++ es } := by
  obtain ⟨hflag, hlog, hstop⟩ := hi.reader pc hrdr
  have hsil := h.silent hlog hstop
  have hwas : recorded s.trace = true →
      recorded (s.trace ++ es) = true := by
    intro hrec
    rw [recorded_append, hrec, Bool.true_or]
  constructor
  case opened => exact hi.opened
  case reader =>
    rintro _ ⟨⟩
    cases h with
    | readFail hpc => cases hok
    | failFlag hpc => exact absurd hpc hflag
    | failLog hpc => exact absurd hpc hlog
    | _ => exact ⟨nofun, nofun, nofun⟩
  case verdicts =>
    exact (countP_silent fun e he => (hsil e he).1).trans hi.verdicts
  case stops =>
    exact (countP_silent fun e he => (hsil e he).2.1).trans hi.stops
  case ends =>
    exact (countP_silent fun e he => (hsil e he).2.2).trans hi.ends
  case succeeding => exact fun hs => hwas (hi.succeeding hs)
  case failing =>
    intro hf
    dsimp only
    rw [recorded_append, hi.failing hf, Bool.false_or]
    apply List.any_eq_false.mpr
    intro e he hrec
    -- a store of STAGE_COMPLETE would come too late for this sender
    obtain ⟨hpc, rfl⟩ := h.records he hrec
    rw [hok (hrdr.trans (congrArg some hpc))] at hf
    cases hf
  case mail =>
    intro ha hstage
    rcases h.otaStage with ⟨x, hpc, rfl, hx, hes⟩ | hsame
    · have hx' : x = .complete := hx.symm.trans hstage
      subst hx'
      rw [hes, recorded_append]
      simp [Event.recordsComplete]
    · exact hwas (hi.mail ha (hsame ▸ hstage))
  case log =>
    apply hi.log.append_of
    intro e he before hsent
    have hev := h.fromSender e he
    cases e with
    | tx k packet => cases hev
    | _ => cases hsent

/-- A session that is over has said what its invariant says of a sender
that has returned. -/
theorem VerdictInv.oneVerdict {s : Session} (hi : VerdictInv s) :
    s.OneVerdict := by
  intro hover
  simp only [Session.over, Bool.and_eq_true, Bool.or_eq_true, beq_iff_eq]
    at hover
  refine ⟨?_, ?_, ?_⟩
  · rcases hover.1 with hpc | hpc <;> rw [hi.verdicts, hpc] <;> rfl
  · rcases hover.1 with hpc | hpc <;> rw [hi.stops, hpc] <;> rfl
  · have hends := hi.ends
    rcases hover.1 with hpc | hpc
    · rw [hi.failing (by rw [hpc]; rfl)]
      rw [hpc] at hends
      simpa using List.countP_eq_zero.mp hends
    · rw [hi.succeeding (by rw [hpc]; rfl)]
      rw [hpc] at hends
      have hpos : 0 < s.trace.countP Event.isEnd := by
        rw [hends]
        decide
      simpa using List.countP_pos_iff.mp hpos

/-- In every undisturbed run, a session that is over has logged one
verdict, the one that was recorded, and has written no packet behind
it. -/
theorem one_verdict {cs : CharSign} {g₀ : Shared} {param2 : Option String}
    {stack : Nat → UInt8} {file : List UInt8} {s : Session}
    (h : Lts.Reach (Session.step cs) undisturbed
      (Session.start g₀ param2 stack file) s) :
    s.OneVerdict ∧ Always WrittenBefore s.trace := by
  have hinv : VerdictInv s := by
    refine h.invariant (I := VerdictInv) ?_ ?_
    · have hquiet : ∀ e ∈ (Session.start g₀ param2 stack file).trace,
          e.quiet = true := Session.start_quiet g₀ param2 stack file
      have hnone : ∀ p : Event → Bool, (∀ e, e.quiet = true → p e = false) →
          (Session.start g₀ param2 stack file).trace.countP p = 0 := by
        refine fun p hp => List.countP_eq_zero.mpr fun e he => ?_
        simp [hp e (hquiet e he)]
      refine
        { opened := ⟨nofun, nofun⟩, reader := nofun
          verdicts := hnone _ fun e he => (Event.quiet_facts he).1
          stops := hnone _ fun e he => (Event.quiet_facts he).2.1
          ends := hnone _ fun e he => (Event.quiet_facts he).2.2
          succeeding := nofun, failing := nofun, mail := nofun
          log := (always_nil _).append_of fun e he before hsent => ?_ }
      obtain ⟨m, rfl⟩ := Event.quiet_inv (hquiet e he)
      cases hsent
    · intro s a s' hi hok hs
      cases Session.step_inv hs with
      | send hm => exact hi.send hok hm
      | read hrdr hm => exact hi.read hok hrdr hm
  exact ⟨hinv.oneVerdict, hinv.log⟩

-- ========================================================== two sessions

/-- The sender announces the end and returns. -/
def returnTicks : List Act := List.replicate 5 (.send .tick)

/-- Both packets of the image are answered, the sender returns and the
reader ends. -/
def answeredOver : Session :=
  (Lts.run (Session.step .unsigned) undisturbed dataImage.session
    (answeredRun ++ returnTicks ++ [.read .tick])).getD dataImage.session

/-- One verdict is logged in a session that is over. -/
theorem one_verdict_answered :
    answeredOver.over = true ∧ answeredOver.OneVerdict
      ∧ Always WrittenBefore answeredOver.trace :=
  ⟨by decide, one_verdict (Lts.Reach.of_isSome (by decide))⟩

/-- The reader acts on the answer to the FINISH record, and its next
read fails before the sender has polled. -/
def failedRead : List Act :=
  sendFirst ++ readOne [0xA1, 0x02, 0, 0x02, 1, 0, 0] ++ sendNext
    ++ readOne [0xA1, 0x02, 0, 0x03, 0, 0, 0]
    ++ [.read .tick, .read (.got none), .read .tick, .read .tick, .read .tick]
    ++ pollToEnd ++ returnTicks

/-- Two verdicts and two 'OTA STOP' lines in one session: the reader
logs 'OTA fail' on a read error, the sender 'OTA end' on the answer
recorded before. -/
theorem two_verdicts :
    ¬ ∀ (cs : CharSign) (g₀ : Shared) (param2 : Option String)
        (stack : Nat → UInt8) (img : Image) (s : Session),
      Lts.Reach (Session.step cs) Lts.free
        (Session.start g₀ param2 stack img.bytes) s →
      s.OneVerdict ∧ Always WrittenBefore s.trace := by
  intro h
  have hend := (h .unsigned _ _ _ dataImage _ (Lts.Reach.of_isSome
    (show (Lts.run (Session.step .unsigned) Lts.free dataImage.session
      failedRead).isSome = true by decide))).1
  exact absurd hend (by decide)

end BtOta
