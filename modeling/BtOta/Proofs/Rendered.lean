/-
What the screen shows of a session: its lines, in order, each once.

Between the log and the text area lie logcat, its pipe, the thread that
puts each line's message together from `isVerboseLog` and `resultTmp` in
several steps, the handler's queue, and the handler. `Screen.of` says
what is to come of it: with the verbose log all the lines, and without
it the last line behind those that stay, with the result of the last
line that has one.

`steady` names the runs in which nothing interferes: the user neither
clicks on Clean nor switches the verbose log while a session is shown,
and starts the next one when the messages of the last are handled; the
log is cleared before ota_update is started, and does not end. In every
such run the messages are those of the lines logged since the log was
cleared, up to OTA STOP, and once they are handled the screen is what
`Screen.of` says (`screen_exact`).

# The invariant

`AtLine` says, for each place where the thread can stand with a line,
what has been sent and what `resultTmp` is. Only the thread of the last
click can stand at a line (`Turns`), so nobody else writes `resultTmp`.
-/
import BtOta.Proofs.Shown

namespace BtOta

-- ================================================================= rendering

/-- The lines that stay, in their order: what `resultTmp` comes to. -/
def kept (xs : List Line) : List Line := xs.filter Line.stays

theorem kept_snoc (xs : List Line) (x : Line) :
    kept (xs ++ [x]) = kept xs ++ (if x.stays then [x] else []) := by
  unfold kept
  rw [List.filter_append]
  cases hx : x.stays <;> simp [hx]

/-- The text sent with a line, behind the lines before it: the line
alone, or with all that stays of those. -/
def textOf (isVerboseLog : Bool) (before : List Line) (x : Line) :
    List Line :=
  if isVerboseLog then [x] else kept before ++ [x]

/-- The messages sent about a line. -/
def Line.messages (isVerboseLog : Bool) (before : List Line) (x : Line) :
    List Message :=
  .editText (textOf isVerboseLog before x)
    :: (x.result.map .textView).toList

/-- The messages sent about lines that follow others. -/
def messagesOf (isVerboseLog : Bool) : List Line → List Line → List Message
  | _, [] => []
  | before, x :: xs =>
      x.messages isVerboseLog before
        ++ messagesOf isVerboseLog (before ++ [x]) xs

theorem messagesOf_snoc (b : Bool) (before xs : List Line) (x : Line) :
    messagesOf b before (xs ++ [x])
      = messagesOf b before xs ++ x.messages b (before ++ xs) := by
  induction xs generalizing before with
  | nil => simp [messagesOf]
  | cons y ys ih => simp [messagesOf, ih]

/-- What is to be shown of the lines, as a function of nothing else: not
of when they were read or handled. -/
def Screen.of (isVerboseLog : Bool) (xs : List Line) : Screen where
  editText :=
    if isVerboseLog then xs else kept xs.dropLast ++ xs.getLast?.toList
  tvResult := (xs.filterMap Line.result).getLast?

/-- What the handler makes of messages, from a blank screen on. -/
def Screen.after (isVerboseLog : Bool) (ms : List Message) : Screen :=
  ms.foldl (Screen.handleMessage isVerboseLog) Screen.blank

theorem Screen.after_snoc (b : Bool) (ms : List Message) (m : Message) :
    Screen.after b (ms ++ [m]) = (Screen.after b ms).handleMessage b m := by
  simp [after]

/-- The messages about the lines, handled one by one, leave what is to be
shown of them. -/
theorem Screen.after_messagesOf (b : Bool) (xs : List Line) :
    Screen.after b (messagesOf b [] xs) = Screen.of b xs := by
  induction xs using List.reverseRecOn with
  | nil => cases b <;> rfl
  | append_singleton xs x ih =>
      rw [messagesOf_snoc, List.nil_append]
      have htext : (Screen.of b xs).handleMessage b (.editText (textOf b xs x))
          = { Screen.of b (xs ++ [x]) with
              tvResult := (Screen.of b xs).tvResult } := by
        cases b <;> simp [handleMessage, textOf, of]
      have hresult : (Screen.of b (xs ++ [x])).tvResult
          = x.result.or (Screen.of b xs).tvResult := by
        cases hx : x.result <;> simp [of, hx]
      cases hx : x.result with
      | none =>
          rw [Line.messages, hx]
          show Screen.after b (messagesOf b [] xs ++ [_]) = _
          rw [after_snoc, ih, htext]
          rw [hx, Option.none_or] at hresult
          rw [← hresult]
      | some v =>
          rw [Line.messages, hx]
          show Screen.after b (messagesOf b [] xs ++ [_, _]) = _
          rw [List.append_cons, after_snoc, after_snoc, ih, htext]
          rw [hx, Option.some_or] at hresult
          simp only [handleMessage]
          rw [← hresult]

-- ================================================================ vocabulary

/-- The thread has left its loop over the log, so it reads no more lines.
-/
def Worker.left (wk : Worker) : Bool :=
  match wk.pc with
  | .release | .ended => true
  | _ => false

/-- The thread has not come to its loop, so it has read no line. -/
def Worker.early (wk : Worker) : Bool :=
  match wk.pc with
  | .clear | .sleep | .spawn | .exec => true
  | _ => false

namespace Console

/-- Nothing interferes with what is shown of a session: no click on
Clean, no switch of the mode, no clear while the thread reads, and no end
of the log. -/
def steady (c : Console) : ConAct → Prop
  | .start => c.queue = []
  | .clean => False
  | .verboseLog _ => c.u.isOTARun = false ∧ c.queue = []
  | .worker w .threw => ∀ wk ∈ c.u.workers[w]?, wk.early = true
  | .worker _ .eof => False
  | .clear w => ∀ wk ∈ c.u.workers[w]?, wk.early = true
  | _ => True

instance (c : Console) : ∀ a, Decidable (steady c a)
  | .start => inferInstanceAs (Decidable (_ = _))
  | .clean | .worker _ .eof => inferInstanceAs (Decidable False)
  | .verboseLog _ => inferInstanceAs (Decidable (_ ∧ _))
  | .worker _ .threw | .clear _ =>
      inferInstanceAs (Decidable (∀ wk ∈ c.u.workers[_]?, _))
  | .selected _ | .canceled | .worker _ .tick | .worker _ .line | .line _
  | .handle | .flag _ | .native _ _ | .logcat _ | .proc _ =>
      inferInstanceAs (Decidable True)

end Console

-- ================================================================== one line

/-- What has been sent, and what `resultTmp` is, where the thread stands
with the line behind `ys`: one case for each access. -/
def AtLine (b : Bool) (ys resultTmp : List Line) (sent : List Message) :
    Held → Prop
  | .choose _ => sent = messagesOf b [] ys ∧ (b = false → resultTmp = kept ys)
  | .whole _ => b = false ∧ sent = messagesOf b [] ys ∧ resultTmp = kept ys
  | .send x obj =>
      sent = messagesOf b [] ys ∧ (b = false → resultTmp = kept ys)
        ∧ obj = textOf b ys x
  | .keep x =>
      x ≠ .stopped ∧ x.stays = true
        ∧ sent = messagesOf b [] ys ++ [.editText (textOf b ys x)]
        ∧ (b = false → resultTmp = kept ys)
  | .fetch x =>
      b = false ∧ x ≠ .stopped ∧ x.stays = true
        ∧ sent = messagesOf b [] ys ++ [.editText (textOf b ys x)]
        ∧ resultTmp = kept ys
  | .store x text =>
      b = false ∧ x ≠ .stopped
        ∧ sent = messagesOf b [] ys ++ [.editText (textOf b ys x)]
        ∧ text = kept (ys ++ [x])
  | .result x =>
      x ≠ .stopped
        ∧ sent = messagesOf b [] ys ++ [.editText (textOf b ys x)]
        ∧ (b = false → resultTmp = kept (ys ++ [x]))

/-- The same between two lines and at one, `xs` being those taken up, the
line at hand included. -/
def TextAt (b : Bool) (xs resultTmp : List Line) (sent : List Message) :
    Option Held → Prop
  | none =>
      sent = messagesOf b [] xs
        ∧ (b = false → .stopped ∉ xs → resultTmp = kept xs)
  | some y => ∃ ys, xs = ys ++ [y.line] ∧ AtLine b ys resultTmp sent y

/-- The thread goes on with its line, by whichever access is next, and
what it has sent stays what the lines make of it. -/
theorem TextAt.goOn {b : Bool} {c : Console} {w : Nat} {y : Held}
    {xs : List Line} {done : List Message} (hb : c.isVerboseLog = b)
    (h : TextAt b xs c.resultTmp (done ++ c.queue) (some y)) :
    TextAt b xs (c.goOn w y).resultTmp (done ++ (c.goOn w y).queue)
      ((c.goOn w y).held w) := by
  obtain ⟨ys, rfl, h⟩ := h
  cases y with
  | choose x =>
      -- isVerboseLog decides which of the two ways the line takes
      obtain ⟨hsent, htmp⟩ := h
      simp only [Console.goOn, Function.update_self, hb]
      refine ⟨ys, ?_, ?_⟩
      · split <;> rfl
      · cases b with
        | true => exact ⟨hsent, htmp, rfl⟩
        | false => exact ⟨rfl, hsent, htmp rfl⟩
  | whole x =>
      obtain ⟨rfl, hsent, htmp⟩ := h
      simp only [Console.goOn, Function.update_self]
      refine ⟨ys, rfl, hsent, fun _ => htmp, ?_⟩
      rw [htmp]
      rfl
  | send x obj =>
      -- OTA STOP is shown and ends the lines; another line may still be kept
      -- for later
      obtain ⟨hsent, htmp, rfl⟩ := h
      have hnew : done ++ (c.queue ++ [Message.editText (textOf b ys x)])
          = messagesOf b [] ys ++ [.editText (textOf b ys x)] := by
        rw [← List.append_assoc, hsent]
      simp only [Console.goOn, Function.update_self, hnew]
      cases x with
      | stopped =>
          refine ⟨(messagesOf_snoc b [] ys .stopped).symm, ?_⟩
          exact fun _ hnot => absurd (List.mem_append_cons_self) hnot
      | log m =>
          have hne : Line.log m ≠ .stopped := by simp
          simp only [Line.sent]
          split
          case isTrue hstays =>
            exact ⟨ys, rfl, hne, hstays, rfl, htmp⟩
          case isFalse hstays =>
            refine ⟨ys, rfl, hne, rfl, fun hf => ?_⟩
            rw [kept_snoc, if_neg hstays, List.append_nil]
            exact htmp hf
  | keep x =>
      -- isVerboseLog is read a second time here
      obtain ⟨hne, hstays, hsent, htmp⟩ := h
      simp only [Console.goOn, Function.update_self, hb]
      refine ⟨ys, ?_, ?_⟩
      · split <;> rfl
      · cases b with
        | true => exact ⟨hne, hsent, fun hf => Bool.noConfusion hf⟩
        | false => exact ⟨rfl, hne, hstays, hsent, htmp rfl⟩
  | fetch x =>
      obtain ⟨rfl, hne, hstays, hsent, htmp⟩ := h
      simp only [Console.goOn, Function.update_self]
      refine ⟨ys, rfl, rfl, hne, hsent, ?_⟩
      rw [kept_snoc, if_pos hstays, htmp]
  | store x text =>
      obtain ⟨rfl, hne, hsent, rfl⟩ := h
      simp only [Console.goOn, Function.update_self]
      exact ⟨ys, rfl, hne, hsent, fun _ => rfl⟩
  | result x =>
      -- the result line posts its verdict behind the text
      obtain ⟨hne, hsent, htmp⟩ := h
      simp only [Console.goOn, Function.update_self, Held.line]
      refine ⟨?_, fun hf _ => htmp hf⟩
      rw [← List.append_assoc, hsent, messagesOf_snoc, List.append_assoc]
      rfl

/-- What has been sent is of the messages about the lines taken up, and
only the last line's may be missing. -/
theorem TextAt.sent_prefix {b : Bool} {xs resultTmp : List Line}
    {sent : List Message} {o : Option Held}
    (h : TextAt b xs resultTmp sent o) : sent <+: messagesOf b [] xs := by
  cases o with
  | none => exact h.1 ▸ List.prefix_rfl
  | some y =>
      obtain ⟨ys, rfl, h⟩ := h
      rw [messagesOf_snoc]
      have hwhole : messagesOf b [] ys <+: messagesOf b [] ys
          ++ y.line.messages b ([] ++ ys) := List.prefix_append ..
      have htext : messagesOf b [] ys ++ [.editText (textOf b ys y.line)]
          <+: messagesOf b [] ys ++ y.line.messages b ([] ++ ys) := by
        rw [List.prefix_append_right_inj]
        exact List.prefix_append [_] _
      cases y with
      | choose x => rwa [h.1]
      | whole x => rwa [h.2.1]
      | send x obj => rwa [h.1]
      | keep x => rwa [h.2.2.1]
      | fetch x => rwa [h.2.2.2.1]
      | store x text => rwa [h.2.2.1]
      | result x => rwa [h.2.1]

/-- The thread takes up the next line. -/
theorem TextAt.take {b : Bool} {xs resultTmp : List Line}
    {sent : List Message} (h : TextAt b xs resultTmp sent none)
    (hxs : .stopped ∉ xs) (x : Line) :
    TextAt b (xs ++ [x]) resultTmp sent (some (.choose x)) :=
  ⟨xs, rfl, h.1, fun hf => h.2 hf hxs⟩

-- =================================================================== the log

/-- The lines `ms` have been read by the thread, of those logged since
the log was cleared: from the first, without a gap. -/
structure LogAt (lines : List Msg) (cleared : Nat) (wk : Worker)
    (ms : List Msg) : Prop where
  segment : ms ++ wk.pipe = (lines.take wk.pos).drop cleared
  within : wk.pos ≤ lines.length
  started : wk.pos = 0 ∨ cleared ≤ wk.pos
  early : wk.early = true → wk.pos = 0
  reading : wk.left = false → .otaStop ∉ ms
  left : wk.left = true → ∃ ms', ms = ms' ++ [.otaStop] ∧ .otaStop ∉ ms'

section Log

variable {lines : List Msg} {cleared : Nat} {wk wk' : Worker}
  {ms : List Msg}

theorem logAt_new (lines : List Msg) (cleared : Nat) :
    LogAt lines cleared Worker.new [] :=
  ⟨by simp [Worker.new], Nat.zero_le _, Or.inl rfl, fun _ => rfl, nofun, nofun⟩

/-- The log grows at its end, so what was read stays a stretch of it. -/
theorem LogAt.grow (h : LogAt lines cleared wk ms) (new : List Msg) :
    LogAt (lines ++ new) cleared wk ms where
  segment := by
    rw [List.take_append_of_le_length h.within]
    exact h.segment
  within := by
    rw [List.length_append]
    exact Nat.le_add_right_of_le h.within
  started := h.started
  early := h.early
  reading := h.reading
  left := h.left

/-- logcat prints the next line. -/
theorem LogAt.logcat {m : Msg} (h : LogAt lines cleared wk ms)
    (hpc : wk.pc = .readLine) (hm : lines[max wk.pos cleared]? = some m) :
    LogAt lines cleared
      { wk with pos := max wk.pos cleared + 1, pipe := wk.pipe ++ [m] }
      ms where
  segment := by
    show ms ++ (wk.pipe ++ [m])
      = (lines.take (max wk.pos cleared + 1)).drop cleared
    have hlt := (List.getElem?_eq_some_iff.mp hm).1
    have htake : lines.take (max wk.pos cleared + 1)
        = lines.take (max wk.pos cleared) ++ [m] := by
      rw [List.take_add_one, hm]
      rfl
    rw [← List.append_assoc, h.segment, htake,
      List.drop_append_of_le_length (by simp; omega)]
    congr 1
    rcases h.started with hzero | hle
    · simp [hzero]
    · rw [Nat.max_eq_left hle]
  within := (List.getElem?_eq_some_iff.mp hm).1
  started := Or.inr (Nat.le_succ_of_le (Nat.le_max_right ..))
  early := by
    intro he
    rw [Worker.early, hpc] at he
    cases he
  reading := h.reading
  left := h.left

/-- The log is cleared before the thread comes to its loop, so it has
read nothing that is lost. -/
theorem LogAt.clear (h : LogAt lines cleared wk ms)
    (hearly : wk.early = true) :
    LogAt lines lines.length { wk with clearing := false } ms where
  segment := by
    have hseg := h.segment
    rw [h.early hearly] at hseg
    show ms ++ wk.pipe = (lines.take wk.pos).drop lines.length
    rw [hseg, h.early hearly]
    simp
  within := h.within
  started := Or.inl (h.early hearly)
  early := h.early
  reading := h.reading
  left := h.left

/-- What a step of the thread reads comes out of the pipe, in the order
it went in. -/
theorem LogAt.segment_step {i : WIn} (h : LogAt lines cleared wk ms)
    (hstep : wk.step i = some wk') :
    ms ++ wk.reads i ++ wk'.pipe = (lines.take wk'.pos).drop cleared := by
  obtain ⟨hpipe, hpos⟩ := (Worker.step_inv hstep).reads
  rw [List.append_assoc, ← hpipe, hpos]
  exact h.segment

theorem LogAt.tick (h : LogAt lines cleared wk ms)
    (hstep : wk.step .tick = some wk') : LogAt lines cleared wk' ms := by
  have hpos := (Worker.step_inv hstep).reads.2
  have hsegment := h.segment_step hstep
  rw [show wk.reads .tick = [] from rfl, List.append_nil] at hsegment
  have hpc : (wk'.early = true → wk.early = true)
      ∧ wk'.left = wk.left := by
    cases Worker.step_inv hstep with
    | clear pc | sleep pc | spawn pc | exec pc | release pc =>
        simp [Worker.early, Worker.left, pc]
  refine ⟨hsegment, hpos ▸ h.within, hpos ▸ h.started, ?_, ?_, ?_⟩
  · intro he
    exact hpos.trans (h.early (hpc.1 he))
  · intro hl
    exact h.reading (hpc.2 ▸ hl)
  · intro hl
    exact h.left (hpc.2 ▸ hl)

/-- Before its loop, an exception ends the thread. -/
theorem LogAt.threw (h : LogAt lines cleared wk ms)
    (hstep : wk.step .threw = some wk') (hearly : wk.early = true) :
    LogAt lines cleared wk' ms ∧ wk.takes .threw = []
      ∧ wk.left = false := by
  have hpos := (Worker.step_inv hstep).reads.2
  have hsegment := h.segment_step hstep
  rw [show wk.reads .threw = [] from rfl, List.append_nil] at hsegment
  have hdied : wk' = { wk with pc := .died } ∧ wk.left = false := by
    cases Worker.step_inv hstep with
    | dies pc => rcases pc with pc | pc <;> simp [Worker.left, pc]
    | readFail pc => simp [Worker.early, pc] at hearly
  obtain ⟨rfl, hleft⟩ := hdied
  refine ⟨⟨hsegment, hpos ▸ h.within, hpos ▸ h.started,
    fun he => Bool.noConfusion he, fun _ => h.reading hleft,
    fun hl => Bool.noConfusion hl⟩, ?_, hleft⟩
  have hpc : wk.pc ≠ .readLine := by
    intro hpc
    rw [Worker.early, hpc] at hearly
    cases hearly
  simp only [Worker.takes, Worker.holds]
  rfl

/-- A line that is read is the next one, and OTA STOP the last. -/
theorem LogAt.line (h : LogAt lines cleared wk ms)
    (hstep : wk.step .line = some wk') :
    LogAt lines cleared wk' (ms ++ wk.reads .line)
      ∧ wk.takes .line = (wk.reads .line).map Line.of
      ∧ wk.left = false := by
  have hpos := (Worker.step_inv hstep).reads.2
  have hsegment := h.segment_step hstep
  have htakes : ∀ m rest, wk.pipe = m :: rest →
      wk.reads .line = [m] ∧ wk.takes .line = [m].map Line.of := by
    intro m rest hm
    simp [Worker.reads, Worker.takes, Worker.holds, hm, Held.line]
  cases Worker.step_inv hstep with
  | @line m rest pc pipe hm =>
      have hleft : wk.left = false := by rw [Worker.left, pc]
      obtain ⟨hreads, htakes⟩ := htakes m rest pipe
      rw [hreads] at hsegment ⊢
      refine ⟨⟨hsegment, h.within, h.started, ?_, ?_, ?_⟩, htakes, hleft⟩
      · intro he
        cases he
      · intro _ hmem
        rcases List.mem_append.mp hmem with hmem | hmem
        · exact h.reading hleft hmem
        · exact hm (List.mem_singleton.mp hmem).symm
      · intro hl
        cases hl
  | @stop rest pc pipe =>
      have hleft : wk.left = false := by rw [Worker.left, pc]
      obtain ⟨hreads, htakes⟩ := htakes _ rest pipe
      rw [hreads] at hsegment ⊢
      refine ⟨⟨hsegment, h.within, h.started, ?_, ?_, ?_⟩, htakes, hleft⟩
      · intro he
        cases he
      · intro hl
        cases hl
      · exact fun _ => ⟨ms, rfl, h.reading hleft⟩

/-- A step of the thread, which reads what it takes up. -/
theorem LogAt.worker {i : WIn} (h : LogAt lines cleared wk ms)
    (hstep : wk.step i = some wk') (heof : i ≠ .eof)
    (hthrew : i = .threw → wk.early = true) :
    LogAt lines cleared wk' (ms ++ wk.reads i)
      ∧ wk.takes i = (wk.reads i).map Line.of
      ∧ (wk.takes i ≠ [] → wk.left = false) := by
  cases i with
  | eof => exact absurd rfl heof
  | tick =>
      rw [show wk.reads .tick = [] from rfl, List.append_nil]
      exact ⟨h.tick hstep, rfl, fun hne => absurd rfl hne⟩
  | threw =>
      obtain ⟨hat, htakes, hleft⟩ := h.threw hstep (hthrew rfl)
      rw [show wk.reads .threw = [] from rfl, List.append_nil]
      exact ⟨hat, htakes, fun _ => hleft⟩
  | line =>
      obtain ⟨hat, htakes, hleft⟩ := h.line hstep
      exact ⟨hat, htakes, fun _ => hleft⟩

end Log

-- ============================================================== the invariant

namespace Console

/-- Only the thread of the last click is at work, and only while
`isOTARun` is set, so `resultTmp` is its own. -/
structure Turns (c : Console) : Prop where
  free : c.u.isOTARun = false → ∀ wk ∈ c.u.workers, wk.pc = .ended
  busy : ∀ n wk, c.u.workers[n]? = some wk → n + 1 < c.u.workers.length →
    wk.pc = .ended
  held : ∀ n x, c.held n = some x → ∃ wk, c.u.workers[n]? = some wk
    ∧ (wk.pc = .readLine ∨ wk.pc = .release)
  taken : ∀ n, c.u.workers.length ≤ n → c.taken n = []

/-- What the thread of the last click has read, sent and seen shown, each
a part of the one before. -/
structure LastAt (c : Console) (w : Nat) (wk : Worker) (ms : List Msg)
    (done : List Message) : Prop where
  taken : c.taken w = ms.map Line.of
  log : LogAt (linesOf c.u.proc.trace) c.u.cleared wk ms
  screen : c.screen = Screen.after c.mode done
  text : TextAt c.mode (c.taken w) c.resultTmp (done ++ c.queue) (c.held w)

/-- What a steady run keeps: turns are taken, the mode stays, and the
last thread's lines are on the screen as far as they have come. -/
structure RenderInv (c : Console) : Prop where
  turns : Turns c
  mode : c.u.isOTARun = true ∨ c.queue ≠ [] → c.isVerboseLog = c.mode
  last : ∀ w wk, c.u.workers.length = w + 1 → c.u.workers[w]? = some wk →
    ∃ ms done, LastAt c w wk ms done

variable {cs : CharSign} {c c' : Console} {w : Nat} {wk wk' : Worker}

/-- A thread that is not through is the last one. -/
theorem Turns.last (hi : Turns c) (hw : c.u.workers[w]? = some wk)
    (hpc : wk.pc ≠ .ended) : c.u.workers.length = w + 1 := by
  have hlt := (List.getElem?_eq_some_iff.mp hw).1
  by_contra hne
  exact hpc (hi.busy w wk hw (by omega))

theorem Turns.run (hi : Turns c) (hw : c.u.workers[w]? = some wk)
    (hpc : wk.pc ≠ .ended) : c.u.isOTARun = true := by
  cases hrun : c.u.isOTARun with
  | true => rfl
  | false => exact absurd (hi.free hrun wk (List.mem_of_getElem? hw)) hpc

/-- A change to one thread that leaves it where it is, and the flag as it
is. -/
theorem Turns.stay (hi : Turns c) (hw : c.u.workers[w]? = some wk)
    (hpc : wk'.pc = wk.pc) {u : Activity}
    (hrun : u.isOTARun = c.u.isOTARun)
    (hworkers : u.workers = c.u.workers.set w wk') :
    Turns { c with u := u } := by
  refine ⟨?_, ?_, ?_, ?_⟩
  · intro hfree wk₁ hwk₁
    have hall := hi.free (hrun.symm.trans hfree)
    rw [hworkers] at hwk₁
    rcases List.mem_or_eq_of_mem_set hwk₁ with hwk₁ | rfl
    · exact hall wk₁ hwk₁
    · exact hpc.trans (hall wk (List.mem_of_getElem? hw))
  · intro n wk₁ hn hlt
    rw [hworkers, List.length_set] at hlt
    rw [hworkers] at hn
    rcases Threads.moved_inv hn with ⟨rfl, rfl⟩ | ⟨hne, hold⟩
    · exact hpc.trans (hi.busy n wk hw hlt)
    · exact hi.busy n wk₁ hold hlt
  · intro n x hx
    obtain ⟨wk₁, hn, hpc₁⟩ := hi.held n x hx
    show ∃ wk₁, u.workers[n]? = some wk₁ ∧ _
    rw [hworkers]
    by_cases hne : n = w
    · subst hne
      cases hw.symm.trans hn
      exact ⟨wk', Threads.moved hn, by rwa [hpc]⟩
    · exact ⟨wk₁, Threads.moved_of_ne hne hn, hpc₁⟩
  · intro n hle
    rw [hworkers, List.length_set] at hle
    exact hi.taken n hle

/-- Between two lines a thread takes up one, or goes its way with none.
-/
theorem holds_inv (wk : Worker) (i : WIn) :
    (wk.holds i = none ∧ wk.takes i = [])
      ∨ ∃ x, wk.holds i = some (.choose x) ∧ wk.takes i = [x] := by
  unfold Worker.takes
  cases i with
  | tick => exact Or.inl ⟨rfl, rfl⟩
  | eof => exact Or.inr ⟨.stopped, rfl, rfl⟩
  | line =>
      simp only [Worker.holds]
      split
      · exact Or.inr ⟨_, rfl, rfl⟩
      · exact Or.inl ⟨rfl, rfl⟩
  | threw =>
      simp only [Worker.holds]
      split
      · exact Or.inr ⟨_, rfl, rfl⟩
      · exact Or.inl ⟨rfl, rfl⟩

/-- A thread with a line to put up is in its loop or behind it. -/
theorem pc_of_holds {i : WIn} {x : Held} (hstep : wk.step i = some wk')
    (hx : wk.holds i = some x) : wk'.pc = .readLine ∨ wk'.pc = .release := by
  cases Worker.step_inv hstep with
  | line => exact Or.inl rfl
  | stop | eof | readFail => exact Or.inr rfl
  | dies pc =>
      simp only [Worker.holds] at hx
      rcases pc with pc | pc <;> rw [pc] at hx <;> cases hx
  | clear | sleep | spawn | exec | release => cases hx

theorem pc_of_step {i : WIn} (hstep : wk.step i = some wk') :
    wk.pc ≠ .ended ∧ (wk.pc = .release → wk'.pc = .ended) := by
  rcases (Worker.step_inv hstep).course with ⟨hpc, -⟩ | ⟨-, -, hrel, hne, -⟩
  · rw [hpc]
    exact ⟨nofun, nofun⟩
  · exact ⟨hne, fun h => (hrel h).1⟩

/-- A step of a thread outside of a line. -/
theorem Turns.worker {i : WIn} (hi : Turns c)
    (hw : c.u.workers[w]? = some wk) (hstep : wk.step i = some wk') :
    Turns { c with
      u := { c.u with
        isOTARun := if wk.pc = .release then false else c.u.isOTARun
        workers := c.u.workers.set w wk' }
      held := Function.update c.held w (wk.holds i)
      taken := Function.update c.taken w (c.taken w ++ wk.takes i) } := by
  obtain ⟨hne, hrel⟩ := pc_of_step hstep
  have hlen := hi.last hw hne
  refine ⟨?_, ?_, ?_, ?_⟩
  · intro hfree wk₁ hwk₁
    have hpc : wk.pc = .release := by
      by_contra hpc
      simp only [if_neg hpc] at hfree
      exact absurd (hfree.symm.trans (hi.run hw hne)) nofun
    obtain ⟨n, hn⟩ := List.mem_iff_getElem?.mp hwk₁
    rcases Threads.moved_inv hn with ⟨-, rfl⟩ | ⟨hnw, hold⟩
    · exact hrel hpc
    · have hlt := (List.getElem?_eq_some_iff.mp hold).1
      exact hi.busy n wk₁ hold (by omega)
  · intro n wk₁ hn hlt
    simp only [List.length_set] at hlt
    rcases Threads.moved_inv hn with ⟨rfl, -⟩ | ⟨-, hold⟩
    · omega
    · exact hi.busy n wk₁ hold hlt
  · intro n x hx
    by_cases hnw : n = w
    · subst hnw
      simp only [Function.update_self] at hx
      exact ⟨wk', Threads.moved hw, pc_of_holds hstep hx⟩
    · simp only [Function.update_of_ne hnw] at hx
      obtain ⟨wk₁, hn, hpc₁⟩ := hi.held n x hx
      exact ⟨wk₁, Threads.moved_of_ne hnw hn, hpc₁⟩
  · intro n hle
    simp only [List.length_set] at hle
    simp only [Function.update_of_ne (show n ≠ w by omega)]
    exact hi.taken n hle

-- ================================================================= the steps

/-- Start begins with nothing on its way and nothing shown. -/
theorem RenderInv.start (hi : RenderInv c) (hqueue : c.queue = []) :
    RenderInv c.onStart := by
  rcases c.onStart_inv with heq | ⟨hrun, heq⟩
  · rwa [heq]
  · rw [heq]
    have hended := hi.turns.free hrun
    have hnobody : ∀ n, c.held n = none := by
      intro n
      cases hn : c.held n with
      | none => rfl
      | some x =>
          obtain ⟨wk, hw, hpc⟩ := hi.turns.held n x hn
          rw [hended wk (List.mem_of_getElem? hw)] at hpc
          rcases hpc with hpc | hpc <;> cases hpc
    refine ⟨⟨nofun, ?_, ?_, ?_⟩, fun _ => rfl, ?_⟩
    · intro n wk hn hlt
      rcases Threads.snoc_inv hn with hold | ⟨rfl, -⟩
      · exact hended wk (List.mem_of_getElem? hold)
      · simp at hlt
    · intro n x hx
      cases (hnobody n).symm.trans hx
    · intro n hle
      simp only [List.length_append, List.length_singleton] at hle
      exact hi.turns.taken n (by omega)
    · intro w wk hlen hw
      simp only [List.length_append, List.length_singleton] at hlen
      have hwlen : w = c.u.workers.length := by omega
      subst hwlen
      rw [List.getElem?_concat_length] at hw
      cases hw
      have htaken := hi.turns.taken _ (Nat.le_refl c.u.workers.length)
      refine ⟨[], [], htaken, logAt_new _ _, rfl, ?_⟩
      show TextAt _ (c.taken _) [] ([] ++ c.queue) (c.held _)
      rw [htaken, hnobody, hqueue]
      exact ⟨rfl, fun _ _ => rfl⟩

/-- A line the thread takes up has been logged and printed, and it is the
next one. -/
theorem RenderInv.worker {i : WIn} (hi : RenderInv c)
    (hok : steady c (.worker w i)) (hw : c.u.workers[w]? = some wk)
    (hheld : c.held w = none) (hstep : wk.step i = some wk') :
    RenderInv { c with
      u := { c.u with
        isOTARun := if wk.pc = .release then false else c.u.isOTARun
        workers := c.u.workers.set w wk' }
      held := Function.update c.held w (wk.holds i)
      taken := Function.update c.taken w (c.taken w ++ wk.takes i) } := by
  have hne := (pc_of_step hstep).1
  have hlen := hi.turns.last hw hne
  have hrun := hi.turns.run hw hne
  refine ⟨hi.turns.worker hw hstep, fun _ => hi.mode (Or.inl hrun), ?_⟩
  intro w₁ wk₁ hlen₁ hw₁
  simp only [List.length_set] at hlen₁
  obtain rfl : w₁ = w := by omega
  cases (Threads.moved hw).symm.trans hw₁
  obtain ⟨ms, done, hl⟩ := hi.last w₁ wk hlen hw
  have heof : i ≠ .eof := by
    rintro rfl
    exact hok
  have hthrew : i = .threw → wk.early = true := by
    rintro rfl
    exact hok wk hw
  obtain ⟨hlog, htakes, hleft⟩ := hl.log.worker hstep heof hthrew
  refine ⟨ms ++ wk.reads i, done, ?_, hlog, hl.screen, ?_⟩
  · simp only [Function.update_self]
    rw [hl.taken, htakes, List.map_append]
  · simp only [Function.update_self]
    have htext := hl.text
    rw [hheld] at htext
    rcases holds_inv wk i with ⟨hnone, hnil⟩ | ⟨x, hsome, hx⟩
    · rw [hnone, hnil, List.append_nil]
      exact htext
    · rw [hsome, hx]
      apply htext.take
      rw [hl.taken]
      intro hmem
      obtain ⟨m, hm, hof⟩ := List.mem_map.mp hmem
      have hstop : m = .otaStop := by
        by_contra hnot
        simp [Line.of, hnot] at hof
      exact hl.log.reading (hleft (by simp [hx])) (hstop ▸ hm)

theorem goOn_frame (c : Console) (w : Nat) (x : Held) :
    (c.goOn w x).u = c.u ∧ (c.goOn w x).isVerboseLog = c.isVerboseLog
      ∧ (c.goOn w x).mode = c.mode ∧ (c.goOn w x).taken = c.taken
      ∧ (c.goOn w x).screen = c.screen
      ∧ ∀ n ≠ w, (c.goOn w x).held n = c.held n := by
  cases x <;>
    exact ⟨rfl, rfl, rfl, rfl, rfl, fun n hn => Function.update_of_ne hn _ _⟩

theorem RenderInv.line {x : Held} (hi : RenderInv c)
    (hheld : c.held w = some x) : RenderInv (c.goOn w x) := by
  obtain ⟨hu, hverbose, hmode, htaken, hscreen, hothers⟩ := goOn_frame c w x
  obtain ⟨wk, hw, hpc⟩ := hi.turns.held w x hheld
  have hne : wk.pc ≠ .ended := by
    rcases hpc with hpc | hpc <;> rw [hpc] <;> nofun
  have hb := hi.mode (Or.inl (hi.turns.run hw hne))
  refine ⟨⟨?_, ?_, ?_, ?_⟩, ?_, ?_⟩
  · rw [hu]
    exact hi.turns.free
  · rw [hu]
    exact hi.turns.busy
  · rw [hu]
    intro n y hn
    by_cases hnw : n = w
    · subst hnw
      exact ⟨wk, hw, hpc⟩
    · exact hi.turns.held n y ((hothers n hnw).symm.trans hn)
  · rw [hu, htaken]
    exact hi.turns.taken
  · intro _
    rw [hverbose, hmode]
    exact hb
  · rw [hu]
    intro w₁ wk₁ hlen₁ hw₁
    obtain rfl : w₁ = w := by
      have hlen := hi.turns.last hw hne
      omega
    cases hw.symm.trans hw₁
    obtain ⟨ms, done, hl⟩ := hi.last w₁ wk hlen₁ hw
    have htext := hl.text
    rw [hheld] at htext
    refine ⟨ms, done, ?_, ?_, ?_, ?_⟩
    · rw [htaken]
      exact hl.taken
    · rw [hu]
      exact hl.log
    · rw [hscreen, hmode]
      exact hl.screen
    · rw [hmode, htaken]
      exact htext.goOn hb

/-- The handler shows the message that is next, so the screen is as far
as the queue has been emptied. -/
theorem RenderInv.handle {m : Message} {rest : List Message}
    (hi : RenderInv c) (hqueue : c.queue = m :: rest) :
    RenderInv { c with
      queue := rest
      screen := c.screen.handleMessage c.isVerboseLog m } := by
  have hb := hi.mode (Or.inr (by rw [hqueue]; exact List.cons_ne_nil m rest))
  refine ⟨⟨hi.turns.free, hi.turns.busy, hi.turns.held, hi.turns.taken⟩,
    fun _ => hb, ?_⟩
  intro w wk hlen hw
  obtain ⟨ms, done, hl⟩ := hi.last w wk hlen hw
  refine ⟨ms, done ++ [m], hl.taken, hl.log, ?_, ?_⟩
  · rw [Screen.after_snoc, ← hl.screen, hb]
  · have htext := hl.text
    rw [hqueue, List.append_cons] at htext
    exact htext

/-- A step that moves no thread and shows nothing. -/
theorem RenderInv.below (hi : RenderInv c) {u : Activity}
    (hw : c.u.workers[w]? = some wk)
    (hworkers : u.workers = c.u.workers.set w wk') (hpc : wk'.pc = wk.pc)
    (hrun : u.isOTARun = c.u.isOTARun)
    (hlog : ∀ ms, c.u.workers.length = w + 1 →
      LogAt (linesOf c.u.proc.trace) c.u.cleared wk ms →
      LogAt (linesOf u.proc.trace) u.cleared wk' ms)
    (hothers : c.u.workers.length ≠ w + 1 →
      u.proc.trace = c.u.proc.trace ∧ u.cleared = c.u.cleared) :
    RenderInv { c with u := u } := by
  refine ⟨hi.turns.stay hw hpc hrun hworkers, ?_, ?_⟩
  · intro h
    exact hi.mode (hrun ▸ h)
  · intro w₁ wk₁ hlen₁ hw₁
    simp only [hworkers, List.length_set] at hlen₁ hw₁
    rcases Threads.moved_inv hw₁ with ⟨rfl, rfl⟩ | ⟨hne, hold⟩
    · obtain ⟨ms, done, hl⟩ := hi.last w₁ wk hlen₁ hw
      exact ⟨ms, done, hl.taken, hlog ms hlen₁ hl.log, hl.screen, hl.text⟩
    · obtain ⟨ms, done, hl⟩ := hi.last w₁ wk₁ hlen₁ hold
      obtain ⟨htrace, hcleared⟩ := hothers (by omega)
      refine ⟨ms, done, hl.taken, ?_, hl.screen, hl.text⟩
      show LogAt (linesOf u.proc.trace) u.cleared wk₁ ms
      rw [htrace, hcleared]
      exact hl.log

/-- A step that only the next session sees: the mode may change while
nothing of this one is to come. -/
theorem RenderInv.aside (hi : RenderInv c) {isVerboseLog : Bool}
    {fwFilePath : String} {verboseS : Nat → Option Bool}
    {paths : List String}
    (hmode : c.u.isOTARun = true ∨ c.queue ≠ [] → isVerboseLog = c.mode) :
    RenderInv { c with
      isVerboseLog := isVerboseLog, fwFilePath := fwFilePath
      verboseS := verboseS, paths := paths } := by
  refine ⟨⟨hi.turns.free, hi.turns.busy, hi.turns.held, hi.turns.taken⟩,
    hmode, ?_⟩
  intro w wk hlen hw
  obtain ⟨ms, done, hl⟩ := hi.last w wk hlen hw
  exact ⟨ms, done, hl.taken, hl.log, hl.screen, hl.text⟩

/-- In a steady run each step keeps the invariant. -/
theorem RenderInv.step {a : ConAct} (hi : RenderInv c) (hok : steady c a)
    (h : Console.step cs c a = some c') : RenderInv c' := by
  cases step_inv h with
  | start => exact hi.start hok
  | clean => exact absurd hok id
  | verboseLog isChecked =>
      -- the guard: nothing of a session is left to be shown in the other
      -- mode
      apply hi.aside
      rintro (hrun | hqueue)
      · cases hok.1.symm.trans hrun
      · exact absurd hok.2 hqueue
  | file path ha => exact hi.aside hi.mode
  | worker hw hheld hstep => exact hi.worker hok hw hheld hstep
  | line hheld => exact hi.line hheld
  | handle hqueue => exact hi.handle hqueue
  | flag w => exact hi.aside hi.mode
  | @native w wk hw hst v stack =>
      -- first the thread and its call, then the path, which nothing shown
      -- reads
      have hcalled : RenderInv { c with
          u := { c.u with
            workers := c.u.workers.set w
              { wk with native := .called c.u.proc.calls.length }
            proc := { c.u.proc with
              calls := c.u.proc.calls
                ++ [Sender.call (some (Activity.verboseS v)) stack] } } } := by
        refine hi.below hw rfl rfl rfl ?_ ?_
        · intro ms _ hl
          exact ⟨hl.segment, hl.within, hl.started, hl.early, hl.reading,
            hl.left⟩
        · exact fun _ => ⟨rfl, rfl⟩
      exact hcalled.aside hcalled.mode
  | @clear w wk hw =>
      -- the guard: the clear comes before its thread reads anything
      have hearly : wk.early = true := hok wk hw
      have hne : wk.pc ≠ .ended := by
        intro hpc
        rw [Worker.early, hpc] at hearly
        cases hearly
      refine hi.below hw rfl rfl rfl ?_ ?_
      · exact fun ms _ hl => hl.clear hearly
      · exact fun hnot => absurd (hi.turns.last hw hne) hnot
  | @logcat w wk m hw hpc hm =>
      refine hi.below hw rfl rfl rfl ?_ ?_
      · exact fun ms _ hl => hl.logcat hpc hm
      · exact fun _ => ⟨rfl, rfl⟩
  | proc hp =>
      -- the log only grows, so what was read stays a stretch of it
      obtain ⟨es, hes⟩ := Proc.step_trace hp
      refine ⟨⟨hi.turns.free, hi.turns.busy, hi.turns.held, hi.turns.taken⟩,
        hi.mode, ?_⟩
      intro w wk hlen hw
      obtain ⟨ms, done, hl⟩ := hi.last w wk hlen hw
      refine ⟨ms, done, hl.taken, ?_, hl.screen, hl.text⟩
      simp only [hes, linesOf_append]
      exact hl.log.grow _

theorem RenderInv.of_reach
    (h : Lts.Reach (Console.step cs) steady Console.loaded c) :
    RenderInv c :=
  h.invariant (I := RenderInv)
    ⟨⟨nofun, nofun, nofun, fun _ _ => rfl⟩, fun _ => rfl, nofun⟩
    fun _ _ _ hi hok hs => hi.step hok hs

end Console

-- =================================================================== results

/-- The session of `shownSuccess`, whose thread has read OTA STOP and
whose messages are handled. -/
def steadySuccess : Console :=
  (Lts.run (Console.step .unsigned) Console.steady Console.loaded
    (clickStart ++ (answeredCall 0 0 ++ returns 0).map .proc
      ++ showSession)).getD Console.loaded

/-- Its thread. -/
def steadyThread : Worker :=
  steadySuccess.u.workers[0]?.getD Worker.new

end BtOta
