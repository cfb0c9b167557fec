/-
Whether the screen says "Success" only when the device has said so.

It does, as long as the sessions are joined: a call of ota_update is made
when the earlier calls have returned, and begins when their readers have
ended. Everything else may happen at any time: what the user clicks, what
the device reports, when the log is cleared and what each of the threads
behind it has got to. The result comes the long way: the session's own
hidRead stores STAGE_COMPLETE on a response it has read, its ota_update
finds it in the mailbox and logs its verdict, a logcat prints the line, a
thread reads it and sends a message, and the handler shows it. Each of
these keeps what the one before knew (`AnsweredInv` in the session,
`VerdictInv` behind it).

Where sessions overlap nothing of the kind holds. `rsp_cmd` and
`OTAStatus` are static variables that every hidRead fills and tests
without a lock, so two at once can put a response together that no
device has given.

Which response it was is another matter: one that the device has given
to an earlier session may be read by the reader of a later one, and
complete it.
-/
import BtOta.Console
import BtOta.Proofs.Chain
import BtOta.Proofs.Completion
import BtOta.Proofs.LostLines
import BtOta.Proofs.Verdict

namespace BtOta

open EventLog

theorem mem_linesOf {m : Msg} {tr : List Event} (h : m ∈ linesOf tr) :
    .log m ∈ tr := by
  obtain ⟨e, he, hmsg⟩ := List.mem_filterMap.mp h
  cases e with
  | log m' =>
      cases hmsg
      exact he
  | _ => cases hmsg

/-- A response on which hidRead may complete a session, due or not. -/
def mayComplete (rsp : Rsp) : Bool :=
  completes rsp || (rsp.cmd == dataCmd && rsp.stat == 2)

/-- The device has given such a response, and hidRead has read it. -/
def Answered (tr : List Event) : Prop :=
  ∃ r, .report r ∈ tr ∧ mayComplete (Rsp.ofReport r) = true

theorem Answered.append {tr : List Event} (h : Answered tr)
    (es : List Event) : Answered (tr ++ es) := by
  obtain ⟨r, hr, hc⟩ := h
  exact ⟨r, List.mem_append_left es hr, hc⟩

theorem mayComplete_of_respond {cs : CharSign} {g : Shared} {rsp : Rsp}
    {ms : List Msg} (h : respond cs g rsp = some (.complete, ms)) :
    mayComplete rsp = true := by
  rcases completes_of_respond h with hc | hc
  · simp [mayComplete, hc]
  · simp only [completesData, Bool.and_eq_true] at hc
    simp [mayComplete, hc.1]

/-- A success is announced when the device has answered. -/
def AnnouncedDue (before : List Event) (e : Event) : Prop :=
  e = .log .otaEnd → Answered before

-- =============================================================== one session

/-- What a session keeps, whatever it finds in the static variables: from
the response in `rsp_cmd` to the verdict in the log, whoever goes on with
a completion has it from a response that the session's reader has read. -/
structure AnsweredInv (s : Session) : Prop where
  /-- the response being judged is one that has been read -/
  decide : s.rdr = some .decide →
    ∃ r, .report r ∈ s.trace ∧ s.g.rspCmd = Rsp.ofReport r
  store : s.rdr = some (.store .complete) → Answered s.trace
  /-- what an earlier session has left in `OTAStage` is overwritten before
  the sender looks at it -/
  mail : s.snd.pc.awaiting = true → s.g.otaStage = .complete →
    Answered s.trace
  done : s.snd.pc.succeeding = true → Answered s.trace
  log : Always AnnouncedDue s.trace

section Process

variable {cs : CharSign} {p p' : Proc} {g g' : Shared} {l l' : Sender}
  {i : SIn} {j : RIn} {pc pc' : RPc} {es : List Event} {s : Session}

/-- A call that announces success is on its way out in success, and has
been since its last poll. -/
theorem SStep.otaEnd (h : SStep cs g l i g' l' es)
    (he : .log .otaEnd ∈ es) : l.pc.succeeding = true := by
  generalize hev : Event.log Msg.otaEnd = e at he
  cases h.event he with
  | quiet hq =>
      rw [← hev] at hq
      cases hq
  | @verdict v pc =>
      cases v with
      | success =>
          rw [pc]
          rfl
      | fail => cases hev
  | _ => cases hev

/-- hidRead announces no success; all it announces is a failure. -/
theorem RStep.otaEnd (h : RStep cs g pc j g' pc' es) :
    .log .otaEnd ∉ es := by
  intro he
  cases h with
  | report hpc r hrid | stray hpc r hrid =>
      rcases List.mem_cons.mp he with he | he
      · cases he
      · cases Shared.mem_verbose he
  | decide hpc hx =>
      obtain ⟨m, hm, heq⟩ := List.mem_map.mp he
      cases heq
      cases respond_quiet hx _ hm
  | _ => simp at he

/-- The sender acts on a completion only while it waits, and what it
finds then has been put there by the reader. -/
theorem AnsweredInv.send (hi : AnsweredInv s)
    (h : SStep cs s.g s.snd i g' l' es) :
    AnsweredInv
      { g := g', snd := l', rdr := Session.spawn s.rdr i
        trace := s.trace ++ es } := by
  refine ⟨?_, ?_, ?_, ?_, ?_⟩
  · intro hd
    obtain ⟨r, hr, hrsp⟩ :=
      hi.decide (Session.spawn_eq_some hd (by decide))
    exact ⟨r, List.mem_append_left es hr, h.rspCmd.trans hrsp⟩
  · intro hd
    exact (hi.store (Session.spawn_eq_some hd (by simp))).append es
  · -- the mailbox is empty when the sender begins to wait
    intro ha hst
    rcases (h.awaiting ha).2 with ⟨-, hret⟩ | ⟨hwait, hsame⟩
    · cases hret.symm.trans hst
    · exact (hi.mail hwait (hsame.symm.trans hst)).append es
  · intro hsucc
    rcases h.succeeding hsucc with hwas | ⟨hpc, hst⟩
    · exact (hi.done hwas).append es
    · exact (hi.mail (by rw [hpc]; rfl) hst).append es
  · refine always_append.mpr ⟨hi.log, ?_⟩
    intro before e after hes he
    rw [he] at hes
    have hsucc := h.otaEnd (by rw [hes]; exact List.mem_append_cons_self)
    exact (hi.done hsucc).append before

/-- The reader hands a completion on from the report it has read to the
store it makes, with nobody else in between. -/
theorem AnsweredInv.read (hi : AnsweredInv s) (hrdr : s.rdr = some pc)
    (h : RStep cs s.g pc j g' pc' es) :
    AnsweredInv { s with g := g', rdr := some pc', trace := s.trace ++ es } := by
  have hlog : Always AnnouncedDue (s.trace ++ es) := by
    refine hi.log.append_of ?_
    intro e he before heq
    rw [heq] at he
    exact absurd he h.otaEnd
  have hdone := fun hsucc => (hi.done hsucc).append es
  have hmail := fun ha hst => (hi.mail ha hst).append es
  cases h with
  | report hpc r hrid =>
      refine ⟨?_, by simp, hmail, hdone, hlog⟩
      exact fun _ => ⟨r, List.mem_append_right _ List.mem_cons_self, rfl⟩
  | decide hpc hx =>
      refine ⟨by simp, ?_, hmail, hdone, hlog⟩
      intro hd
      simp only [Option.some.injEq, RPc.store.injEq] at hd
      subst hd hpc
      obtain ⟨r, hr, hrsp⟩ := hi.decide hrdr
      have hmay := mayComplete_of_respond hx
      rw [hrsp] at hmay
      exact Answered.append ⟨r, hr, hmay⟩ _
  | @store x hpc =>
      refine ⟨by simp, by simp, ?_, hdone, hlog⟩
      intro _ hst
      have hx : x = Stage.complete := hst
      subst hx hpc
      exact (hi.store hrdr).append _
  | readFail | enter | leave | stray | ignore | failFlag | failLog
  | failStop => exact ⟨by simp, by simp, hmail, hdone, hlog⟩

theorem AnsweredInv.of_call {g₀ : Shared} {param2 : Option String}
    {stack : Nat → UInt8}
    (h : Lts.Reach (Session.step cs) Lts.free
      (Session.call g₀ param2 stack) s) : AnsweredInv s := by
  refine h.invariant (I := AnsweredInv) ?_ ?_
  · exact ⟨nofun, nofun, nofun, nofun, always_nil _⟩
  · intro s a s' hi _ hs
    cases Session.step_inv hs with
    | send hm => exact hi.send hm
    | read hrdr hm => exact hi.read hrdr hm

/-- The record of a process grows at its end. -/
theorem Proc.step_trace {a : PAct} (h : Proc.step cs p a = some p') :
    ∃ es, p'.trace = p.trace ++ es := by
  cases Proc.step_inv h with
  | call param2 stack => exact ⟨[], (List.append_nil _).symm⟩
  | send hk hm => exact ⟨_, rfl⟩
  | read hj hm => exact ⟨_, rfl⟩

end Process

-- =============================================================== the console

/-- The line a step of the thread reads, as a list: readLine's, and no
other step's. -/
def Worker.reads (wk : Worker) : WIn → List Msg
  | .line => wk.pipe.head?.toList
  | _ => []

/-- What a step of the thread reads it takes out of its pipe. -/
theorem WStep.reads {wk wk' : Worker} {i : WIn} (h : WStep wk i wk') :
    wk.pipe = wk.reads i ++ wk'.pipe ∧ wk'.pos = wk.pos := by
  cases h with
  | line pc hpipe | stop pc hpipe => simp [Worker.reads, hpipe]
  | clear | sleep | spawn | exec | release | dies | readFail | eof =>
      exact ⟨rfl, rfl⟩

theorem Line.eq_of_result {x : Line} {v : Verdict}
    (h : x.result = some v) : x = .log v.msg := by
  unfold Line.result at h
  split at h <;> cases h <;> rfl

theorem Line.line_of_sent {x : Line} {y : Held} (h : x.sent = some y) :
    y.line = x := by
  cases x with
  | stopped => cases h
  | log m =>
      simp only [Line.sent] at h
      split at h <;> cases h <;> rfl

namespace Console

/-- Who shows a result has it from a line of the log: the pipe, the hand,
the queue and the screen, in this order. -/
structure VerdictInv (c : Console) : Prop where
  pipe : ∀ wk ∈ c.u.workers, ∀ m ∈ wk.pipe, m ∈ linesOf c.u.proc.trace
  held : ∀ w x v, c.held w = some x → x.line.result = some v →
    v.msg ∈ linesOf c.u.proc.trace
  queue : ∀ v, .textView v ∈ c.queue → v.msg ∈ linesOf c.u.proc.trace
  screen : ∀ v, c.screen.tvResult = some v →
    v.msg ∈ linesOf c.u.proc.trace

variable {cs : CharSign} {c c' : Console} {w : Nat}

/-- Going on with a line moves no further than to a message about it. -/
theorem goOn_spec (c : Console) (w : Nat) (x : Held) :
    (c.goOn w x).u = c.u ∧ (c.goOn w x).screen = c.screen
      ∧ (∀ n y, (c.goOn w x).held n = some y →
        c.held n = some y ∨ y.line = x.line)
      ∧ ∀ v, .textView v ∈ (c.goOn w x).queue →
        .textView v ∈ c.queue ∨ x.line.result = some v := by
  -- the hand that moves is thread w's, and it keeps its line
  have hself : ∀ (o : Option Held), (∀ y, o = some y → y.line = x.line) →
      ∀ n y, Function.update c.held w o n = some y →
        c.held n = some y ∨ y.line = x.line := by
    intro o ho n y hn
    by_cases hnw : n = w
    · subst hnw
      rw [Function.update_self] at hn
      exact Or.inr (ho y hn)
    · rw [Function.update_of_ne hnw] at hn
      exact Or.inl hn
  cases x with
  | choose x =>
      refine ⟨rfl, rfl, hself _ ?_, fun v hv => Or.inl hv⟩
      intro y hy
      cases hy
      split <;> rfl
  | whole x | fetch x | store x text =>
      refine ⟨rfl, rfl, hself _ ?_, fun v hv => Or.inl hv⟩
      intro y hy
      cases hy
      rfl
  | send x obj =>
      refine ⟨rfl, rfl, hself _ fun y hy => Line.line_of_sent hy, ?_⟩
      intro v hv
      rcases List.mem_append.mp hv with hv | hv
      · exact Or.inl hv
      · cases List.mem_singleton.mp hv
  | keep x =>
      refine ⟨rfl, rfl, hself _ ?_, fun v hv => Or.inl hv⟩
      intro y hy
      cases hy
      split <;> rfl
  | result x =>
      -- the only step that posts a verdict
      refine ⟨rfl, rfl, hself _ nofun, ?_⟩
      intro v hv
      rcases List.mem_append.mp hv with hv | hv
      · exact Or.inl hv
      · obtain ⟨v', hv', heq⟩ :=
          Option.map_eq_some_iff.mp (Option.mem_toList.mp hv)
        cases heq
        exact Or.inr hv'

/-- The line a thread takes up was in its pipe, if it shows a result. -/
theorem line_of_holds {wk : Worker} {i : WIn} {x : Held} {v : Verdict}
    (h : wk.holds i = some x) (hv : x.line.result = some v) :
    v.msg ∈ wk.pipe := by
  cases i with
  | line =>
      simp only [Worker.holds] at h
      split at h
      case h_2 => cases h
      case h_1 m rest hpipe =>
        cases h
        rw [hpipe]
        have heq := Line.eq_of_result hv
        simp only [Held.line, Line.of] at heq
        split at heq
        · cases heq
        · cases heq
          exact List.mem_cons_self
  | eof =>
      cases h
      cases hv
  | threw =>
      simp only [Worker.holds] at h
      split at h <;> cases h
      cases hv
  | tick => cases h

theorem VerdictInv.start (hi : VerdictInv c) : VerdictInv c.onStart := by
  rcases c.onStart_inv with heq | ⟨-, heq⟩
  · rwa [heq]
  · rw [heq]
    refine ⟨?_, hi.held, hi.queue, nofun⟩
    intro wk hwk m hm
    rcases List.mem_append.mp hwk with hwk | hwk
    · exact hi.pipe wk hwk m hm
    · rw [List.mem_singleton.mp hwk] at hm
      cases hm

/-- A thread's pipe gets no lines but the log's, whichever thread has
moved. -/
theorem VerdictInv.pipe_moved {wk wk' : Worker} (hi : VerdictInv c)
    (hw : c.u.workers[w]? = some wk)
    (hpipe : ∀ m ∈ wk'.pipe, m ∈ wk.pipe ∨ m ∈ linesOf c.u.proc.trace) :
    ∀ wk₁ ∈ c.u.workers.set w wk', ∀ m ∈ wk₁.pipe,
      m ∈ linesOf c.u.proc.trace := by
  intro wk₁ hwk₁ m hm
  rcases List.mem_or_eq_of_mem_set hwk₁ with hwk₁ | rfl
  · exact hi.pipe wk₁ hwk₁ m hm
  · rcases hpipe m hm with hold | hlog
    · exact hi.pipe wk (List.mem_of_getElem? hw) m hold
    · exact hlog

/-- A step hands a result on only with the line it stands for. -/
theorem VerdictInv.step {a : ConAct} (hi : VerdictInv c)
    (h : Console.step cs c a = some c') : VerdictInv c' := by
  cases step_inv h with
  | start => exact hi.start
  -- an empty screen shows no verdict
  | clean => exact ⟨hi.pipe, hi.held, hi.queue, nofun⟩
  | verboseLog isChecked => exact ⟨hi.pipe, hi.held, hi.queue, hi.screen⟩
  | file path ha => exact ⟨hi.pipe, hi.held, hi.queue, hi.screen⟩
  | @worker w i wk wk' hw hheld hstep =>
      -- a line taken in hand was in the pipe
      refine ⟨hi.pipe_moved hw ?_, ?_, hi.queue, hi.screen⟩
      · intro m hm
        rw [(Worker.step_inv hstep).reads.1]
        exact Or.inl (List.mem_append_right _ hm)
      · intro n x v hn hv
        by_cases hnw : n = w
        · subst hnw
          replace hn : wk.holds i = some x := by
            simpa [Function.update_self] using hn
          exact hi.pipe wk (List.mem_of_getElem? hw) _ (line_of_holds hn hv)
        · simp only [Function.update_of_ne hnw] at hn
          exact hi.held n x v hn hv
  | @line w x hheld =>
      -- a verdict that is posted is the held line's
      obtain ⟨hu, hscreen, hx, hq⟩ := goOn_spec c w x
      refine ⟨?_, ?_, ?_, ?_⟩
      · rw [hu]
        exact hi.pipe
      · rw [hu]
        intro n y v hn hv
        rcases hx n y hn with hn | hy
        · exact hi.held n y v hn hv
        · exact hi.held w x v hheld (hy ▸ hv)
      · rw [hu]
        intro v hv
        rcases hq v hv with hv | hv
        · exact hi.queue v hv
        · exact hi.held w x v hheld hv
      · rw [hu, hscreen]
        exact hi.screen
  | @handle m rest hqueue =>
      -- only a textView message changes the verdict on the screen
      refine ⟨hi.pipe, hi.held, ?_, ?_⟩
      · intro v hv
        apply hi.queue v
        rw [hqueue]
        exact List.mem_cons_of_mem m hv
      · intro v hv
        cases m with
        | editText obj => exact hi.screen v hv
        | textView v' =>
            cases hv
            apply hi.queue v
            rw [hqueue]
            exact List.mem_cons_self
  | flag w => exact ⟨hi.pipe, hi.held, hi.queue, hi.screen⟩
  | native hw hst v stack =>
      exact ⟨hi.pipe_moved hw fun _ => Or.inl, hi.held, hi.queue, hi.screen⟩
  | clear hw =>
      exact ⟨hi.pipe_moved hw fun _ => Or.inl, hi.held, hi.queue, hi.screen⟩
  | @logcat w wk m hw hpc hm =>
      -- logcat hands over lines of the log
      refine ⟨hi.pipe_moved hw ?_, hi.held, hi.queue, hi.screen⟩
      intro m₁ hm₁
      rcases List.mem_append.mp hm₁ with hm₁ | hm₁
      · exact Or.inl hm₁
      · rw [List.mem_singleton.mp hm₁]
        exact Or.inr (List.mem_of_getElem? hm)
  | proc hp =>
      obtain ⟨es, hes⟩ := Proc.step_trace hp
      have hsub : ∀ m, m ∈ linesOf c.u.proc.trace →
          m ∈ linesOf (c.u.proc.trace ++ es) := by
        intro m hm
        rw [linesOf_append]
        exact List.mem_append_left _ hm
      rw [← hes] at hsub
      exact ⟨fun wk hwk m hm => hsub m (hi.pipe wk hwk m hm),
        fun n x v hn hv => hsub _ (hi.held n x v hn hv),
        fun v hv => hsub _ (hi.queue v hv),
        fun v hv => hsub _ (hi.screen v hv)⟩

/-- The sessions are joined: ota_update is called when the earlier calls
have returned, and sets `flagRead` when their readers have ended. -/
def joined (c : Console) : ConAct → Prop
  | .native _ _ => ∀ l ∈ c.u.proc.calls, l.returned = true
  | .proc a => Proc.joined c.u.proc a
  | _ => True

instance (c : Console) : ∀ a, Decidable (joined c a)
  | .native _ _ => inferInstanceAs (Decidable (∀ l ∈ c.u.proc.calls, _))
  | .proc a => inferInstanceAs (Decidable (Proc.joined c.u.proc a))
  | .start | .clean | .verboseLog _ | .selected _ | .canceled | .worker _ _
  | .line _ | .handle | .flag _ | .clear _ | .logcat _ =>
      inferInstanceAs (Decidable True)

/-- The process below the console is then one of joined sessions, so it
has gone through a chain of them. -/
theorem reach_joined
    (h : Lts.Reach (Console.step cs) joined Console.loaded c) :
    Lts.Reach (Proc.step cs) Proc.joined Proc.loaded c.u.proc := by
  refine h.invariant (I := fun c =>
    Lts.Reach (Proc.step cs) Proc.joined Proc.loaded c.u.proc)
    (Lts.Reach.refl _) ?_
  intro c a c' hr hok hs
  cases step_inv hs with
  | start => rwa [c.onStart_proc]
  | @line w x hheld => rwa [(goOn_spec c w x).1]
  | native hw hst v stack =>
      exact hr.tail (a := .call (some (Activity.verboseS v)) stack)
        ⟨hok, nofun⟩ rfl
  | proc hp => exact hr.tail hok hp
  | clean | verboseLog | file | worker | handle | flag | clear | logcat =>
      exact hr

theorem VerdictInv.of_reach {ok : Console → ConAct → Prop}
    (h : Lts.Reach (Console.step cs) ok Console.loaded c) :
    VerdictInv c :=
  h.invariant (I := VerdictInv) ⟨nofun, nofun, nofun, nofun⟩
    fun _ _ _ hi _ hs => hi.step hs

end Console

-- ================================================================== results

/-- A line of the log, read and shown in so many steps. -/
def showLine (w steps : Nat) : List ConAct :=
  .worker w .line :: List.replicate steps (.line w)

/-- A click on Start, up to the call of ota_update. -/
def clickStart : List ConAct :=
  [.selected "fw.img", .start, .worker 0 .tick, .clear 0, .worker 0 .tick,
    .worker 0 .tick, .worker 0 .tick, .flag 0, .native 0 (fun _ => 0)]

/-- The thread reads the session's five lines, one of them about the
progress made, and the handler shows them. -/
def showSession : List ConAct :=
  List.replicate 5 (.logcat 0) ++ showLine 0 7 ++ showLine 0 4
    ++ showLine 0 7 ++ showLine 0 7 ++ showLine 0 3
    ++ List.replicate 6 .handle

/-- The device answers both packets, and the screen says so, with every
guard of this module met. -/
def shownSuccess : Console :=
  (Lts.run (Console.step .unsigned) Console.joined Console.loaded
    (clickStart ++ (answeredCall 0 0 ++ returns 0).map .proc
      ++ showSession)).getD Console.loaded

end BtOta
