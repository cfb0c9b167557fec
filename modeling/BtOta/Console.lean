/-
OTAActivity's screen over the activity: what the thread that reads the
log shows of each line, the handler that shows it, and the buttons.

The thread does not touch the views. It puts messages in the handler's
queue, and the main thread takes them out one by one, when it gets to
it, between the clicks.

`isVerboseLog` and `resultTmp` are static variables that the main thread
and the thread of a click use without a lock. Each step of the thread
makes one access to one of them, so the text it shows of a line is
put together in several: `resultTmp = resultTmp + temp` reads and writes
in two, with whatever the main thread does in between.

# Lines

A text is the list of its lines. The tests `contains(...)` are tests of
which line it is; no path of a firmware file is taken to contain one of
the texts looked for.

# Notes

`taken` notes the lines each thread has taken up, `mode` how
`isVerboseLog` stood at the last click on Start, and `paths` the first
arguments of startOTAUpdate. No step reads them.

# Left out

The activity is created once. The toasts, the views of the device and of
the file, and the buttons that open the other activities reach none of
this; Connect and Disconnect are `Library`'s.
-/
import BtOta.Activity

namespace BtOta

-- ================================================================= the lines

/-- A line of the text: one of the log, or the line the thread adds
behind OTA STOP. -/
inductive Line
  /-- one read from the log -/
  | log (m : Msg)
  /-- `"OTA stop!!\n"` -/
  | stopped
  deriving DecidableEq, Repr

namespace Line

/-- The line a thread goes on with when it has read one. -/
def of (m : Msg) : Line :=
  if m = .otaStop then .stopped else .log m

/-- It contains `"write data ... "`. -/
def progress : Line → Bool
  | .log (.writeData _) => true
  | _ => false

/-- It contains `"write data ... 100%"`. -/
def hundred : Line → Bool
  | .log (.writeData percent) => percent == 100
  | _ => false

/-- `resultTmp` takes it up. Of the progress lines only that of 100%
stays; the others are shown once and forgotten. -/
def stays (x : Line) : Bool :=
  x.hundred || !x.progress

/-- The result it shows: `"OTA fail ~~..."` and `"OTA end  !! ..."`. -/
def result : Line → Option Verdict
  | .log .otaFail => some .fail
  | .log .otaEnd => some .success
  | _ => none

end Line

-- ================================================================ the screen

/-- A message to the handler. The text is put together by the thread, so
a message carries it whole. -/
inductive Message
  /-- `MEG_UPDATEEDITTEXT` -/
  | editText (obj : List Line)
  /-- `MEG_UPDATETEXTVIEW_RED` or `MEG_UPDATETEXTVIEW_BLUE` -/
  | textView (v : Verdict)
  deriving DecidableEq, Repr

/-- The two views that show a session: the text, and the result under it.
-/
structure Screen where
  editText : List Line
  /-- `"Fail"` in red or `"Success"` in blue -/
  tvResult : Option Verdict
  deriving DecidableEq, Repr

namespace Screen

def blank : Screen := ⟨[], none⟩

/-- handleMessage: with the verbose log on the text is appended to what
is shown, else it replaces it. -/
def handleMessage (isVerboseLog : Bool) (s : Screen) : Message → Screen
  | .editText obj =>
      { s with editText := if isVerboseLog then s.editText ++ obj else obj }
  | .textView v => { s with tvResult := some v }

end Screen

-- ============================================================== one line read

/-- Where the thread stands with the line it has read. Each place is one
access to `isVerboseLog`, to `resultTmp` or to the queue. -/
inductive Held
  /-- `if (isVerboseLog)`, for `m.obj` -/
  | choose (x : Line)
  /-- `resultTmp+temp` -/
  | whole (x : Line)
  /-- `handler.sendMessage(m)` -/
  | send (x : Line) (obj : List Line)
  /-- `if (!isVerboseLog)` -/
  | keep (x : Line)
  /-- `resultTmp + temp` is evaluated -/
  | fetch (x : Line)
  /-- `resultTmp = ` what it was -/
  | store (x : Line) (text : List Line)
  /-- the tests for the result -/
  | result (x : Line)
  deriving DecidableEq, Repr

/-- The line. -/
def Held.line : Held → Line
  | .choose x | .whole x | .send x _ | .keep x | .fetch x | .store x _
  | .result x => x

/-- What follows when the line's text is sent: nothing for the thread's
own line, the way into `resultTmp` for one that stays, and for any other
its result. -/
def Line.sent : Line → Option Held
  | .stopped => none
  | .log m =>
      if (Line.log m).stays then some (.keep (.log m))
      else some (.result (.log m))

/-- The line a step of the thread leaves it with. Only readLine brings
one, and the end of the loop adds its own. -/
def Worker.holds (wk : Worker) : WIn → Option Held
  | .line =>
      match wk.pipe with
      | m :: _ => some (.choose (Line.of m))
      | [] => none
  | .eof => some (.choose .stopped)
  | .threw =>
      match wk.pc with
      | .readLine => some (.choose .stopped)
      | _ => none
  | .tick => none

/-- The same line, as a list, for the record of all that the thread has
taken. -/
def Worker.takes (wk : Worker) (i : WIn) : List Line :=
  ((wk.holds i).map Held.line).toList

-- =============================================================== the console

/-- The activity and its screen, with what is under way between the
threads and the views. -/
structure Console where
  u : Activity
  isVerboseLog : Bool
  fwFilePath : String
  resultTmp : List Line
  /-- the line the thread of click `w` is at -/
  held : Nat → Option Held
  /-- `isVerboseLogS` of the thread that calls startOTAUpdate -/
  verboseS : Nat → Option Bool
  /-- the handler's messages, next first -/
  queue : List Message
  screen : Screen
  taken : Nat → List Line
  mode : Bool
  paths : List String

/-- What happens, each step by whoever takes it; the five of the user
come first. -/
inductive ConAct
  /-- a click on Start -/
  | start
  /-- a click on Clean -/
  | clean
  /-- tbVerboseLog is switched -/
  | verboseLog (isChecked : Bool)
  /-- onActivityResult: SELECT_UPDADED_FILE with RESULT_OK -/
  | selected (path : String)
  /-- onActivityResult: SELECT_UPDADED_FILE with RESULT_CANCELED -/
  | canceled
  /-- a step of thread `w` outside of what it does with a line -/
  | worker (w : Nat) (i : WIn)
  /-- thread `w` goes on with its line -/
  | line (w : Nat)
  /-- the main thread handles the next message -/
  | handle
  /-- the native thread of `w` reads `isVerboseLog` -/
  | flag (w : Nat)
  /-- the native thread of `w` enters startOTAUpdate -/
  | native (w : Nat) (stack : Nat → UInt8)
  /-- the first logcat of `w` clears the log -/
  | clear (w : Nat)
  /-- the second logcat of `w` prints a line -/
  | logcat (w : Nat)
  /-- a step of ota_update or of hidRead -/
  | proc (a : PAct)

namespace Console

/-- The activity has been created. -/
def loaded : Console where
  u := Activity.loaded
  isVerboseLog := false
  fwFilePath := ""
  resultTmp := []
  held := fun _ => none
  verboseS := fun _ => none
  queue := []
  screen := Screen.blank
  taken := fun _ => []
  mode := false
  paths := []

/-- button_start.onClick with what it does to the screen: the text and
the result are cleared only if a session is started. -/
def onStart (c : Console) : Console :=
  if c.fwFilePath = "" then c
  else if c.u.isOTARun = false then
    { c with
      u := c.u.onClick c.fwFilePath
      resultTmp := []
      screen := Screen.blank
      mode := c.isVerboseLog }
  else c

/-- A click starts nothing, or one more thread, and then with a cleared
screen. -/
theorem onStart_inv (c : Console) :
    c.onStart = c ∨ c.u.isOTARun = false
      ∧ c.onStart = { c with
        u := { c.u with
          isOTARun := true, workers := c.u.workers ++ [Worker.new] }
        resultTmp := []
        screen := Screen.blank
        mode := c.isVerboseLog } := by
  unfold onStart
  split
  case isTrue => exact Or.inl rfl
  case isFalse hpath =>
    split
    case isFalse => exact Or.inl rfl
    case isTrue hrun =>
      refine Or.inr ⟨hrun, ?_⟩
      rw [Activity.onClick, if_neg hpath, if_pos hrun]

theorem onStart_proc (c : Console) : c.onStart.u.proc = c.u.proc := by
  rcases c.onStart_inv with heq | ⟨-, heq⟩ <;> rw [heq]

/-- The thread of click `w` goes on with the line it is at, by one access
to a shared variable. -/
def goOn (c : Console) (w : Nat) : Held → Console
  | .choose x =>
      { c with
        held := Function.update c.held w
          (some (if c.isVerboseLog then .send x [x] else .whole x)) }
  | .whole x =>
      { c with
        held := Function.update c.held w
          (some (.send x (c.resultTmp ++ [x]))) }
  | .send x obj =>
      { c with
        queue := c.queue ++ [.editText obj]
        held := Function.update c.held w x.sent }
  | .keep x =>
      { c with
        held := Function.update c.held w
          (some (if c.isVerboseLog then .result x else .fetch x)) }
  | .fetch x =>
      { c with
        held := Function.update c.held w
          (some (.store x (c.resultTmp ++ [x]))) }
  | .store x text =>
      { c with
        resultTmp := text
        held := Function.update c.held w (some (.result x)) }
  | .result x =>
      { c with
        queue := c.queue ++ (x.result.map .textView).toList
        held := Function.update c.held w none }

/-- One step. A thread that holds a line does nothing else before it is
done with the line; everything else may come in between. -/
def step (cs : CharSign) (c : Console) : ConAct → Option Console
  | .start => some c.onStart
  | .clean => some { c with resultTmp := [], screen := Screen.blank }
  | .verboseLog isChecked => some { c with isVerboseLog := isChecked }
  | .selected path => some { c with fwFilePath := path }
  | .canceled => some { c with fwFilePath := "" }
  | .worker w i => do
      let wk ← c.u.workers[w]?
      if c.held w = none then
        let u ← c.u.step cs (.worker w i)
        some { c with
          u := u
          held := Function.update c.held w (wk.holds i)
          taken := Function.update c.taken w (c.taken w ++ wk.takes i) }
      else none
  | .line w => (c.held w).map (c.goOn w)
  | .handle =>
      match c.queue with
      | m :: rest =>
          some { c with
            queue := rest
            screen := c.screen.handleMessage c.isVerboseLog m }
      | [] => none
  | .flag w => do
      let wk ← c.u.workers[w]?
      if wk.native = .started ∧ c.verboseS w = none then
        some { c with
          verboseS := Function.update c.verboseS w (some c.isVerboseLog) }
      else none
  | .native w stack => do
      let isVerboseLog ← c.verboseS w
      let u ← c.u.step cs (.native w isVerboseLog stack)
      some { c with u := u, paths := c.paths ++ [c.fwFilePath] }
  | .clear w => (c.u.step cs (.clear w)).map fun u => { c with u := u }
  | .logcat w => (c.u.step cs (.logcat w)).map fun u => { c with u := u }
  | .proc a => (c.u.step cs (.proc a)).map fun u => { c with u := u }

/-- The steps, by name, down to what they do to the activity, so that an
invariant of the screen splits once. -/
inductive Move (cs : CharSign) (c : Console) : ConAct → Console → Prop
  | start : Move cs c .start c.onStart
  | clean : Move cs c .clean { c with resultTmp := [], screen := Screen.blank }
  | verboseLog (isChecked : Bool) :
      Move cs c (.verboseLog isChecked) { c with isVerboseLog := isChecked }
  | file {a : ConAct} (path : String)
      (ha : a = .selected path ∨ a = .canceled ∧ path = "") :
      Move cs c a { c with fwFilePath := path }
  | worker {w : Nat} {i : WIn} {wk wk' : Worker}
      (hw : c.u.workers[w]? = some wk) (hheld : c.held w = none)
      (h : wk.step i = some wk') :
      Move cs c (.worker w i)
        { c with
          u := { c.u with
            isOTARun := if wk.pc = .release then false else c.u.isOTARun
            workers := c.u.workers.set w wk' }
          held := Function.update c.held w (wk.holds i)
          taken := Function.update c.taken w (c.taken w ++ wk.takes i) }
  | line {w : Nat} {x : Held} (hheld : c.held w = some x) :
      Move cs c (.line w) (c.goOn w x)
  | handle {m : Message} {rest : List Message} (hqueue : c.queue = m :: rest) :
      Move cs c .handle
        { c with
          queue := rest
          screen := c.screen.handleMessage c.isVerboseLog m }
  | flag (w : Nat) :
      Move cs c (.flag w)
        { c with
          verboseS := Function.update c.verboseS w (some c.isVerboseLog) }
  | native {w : Nat} {wk : Worker} (hw : c.u.workers[w]? = some wk)
      (hst : wk.native = .started) (isVerboseLog : Bool)
      (stack : Nat → UInt8) :
      Move cs c (.native w stack)
        { c with
          u := { c.u with
            workers := c.u.workers.set w
              { wk with native := .called c.u.proc.calls.length }
            proc := { c.u.proc with
              calls := c.u.proc.calls
                ++ [Sender.call (some (Activity.verboseS isVerboseLog))
                  stack] } }
          paths := c.paths ++ [c.fwFilePath] }
  | clear {w : Nat} {wk : Worker} (hw : c.u.workers[w]? = some wk) :
      Move cs c (.clear w)
        { c with
          u := { c.u with
            workers := c.u.workers.set w { wk with clearing := false }
            cleared := (linesOf c.u.proc.trace).length } }
  | logcat {w : Nat} {wk : Worker} {m : Msg}
      (hw : c.u.workers[w]? = some wk) (hpc : wk.pc = .readLine)
      (hm : (linesOf c.u.proc.trace)[max wk.pos c.u.cleared]? = some m) :
      Move cs c (.logcat w)
        { c with
          u := { c.u with
            workers := c.u.workers.set w
              { wk with
                pos := max wk.pos c.u.cleared + 1
                pipe := wk.pipe ++ [m] } } }
  | proc {a : PAct} {p : Proc} (h : Proc.step cs c.u.proc a = some p) :
      Move cs c (.proc a) { c with u := { c.u with proc := p } }

theorem step_inv {cs : CharSign} {c c' : Console} {a : ConAct}
    (h : step cs c a = some c') : Move cs c a c' := by
  cases a with
  | start =>
      cases h
      exact .start
  | clean =>
      cases h
      exact .clean
  | verboseLog isChecked =>
      cases h
      exact .verboseLog isChecked
  | selected path =>
      cases h
      exact .file path (Or.inl rfl)
  | canceled =>
      cases h
      exact .file "" (Or.inr ⟨rfl, rfl⟩)
  | worker w i =>
      -- a thread that holds a line goes on with that line first, so the step
      -- is the activity's own only if nothing is held
      simp only [step, Option.bind_eq_bind, Option.bind_eq_some_iff] at h
      obtain ⟨wk, hw, h⟩ := h
      split at h
      case isFalse => cases h
      case isTrue hheld =>
        obtain ⟨u, hu, h⟩ := Option.bind_eq_some_iff.mp h
        cases h
        cases Activity.step_inv hu with
        | worker hw₁ hstep =>
            cases hw.symm.trans hw₁
            exact .worker hw hheld hstep
        | log ha => rcases ha with ha | ha <;> cases ha
  | line w =>
      obtain ⟨x, hheld, rfl⟩ := Option.map_eq_some_iff.mp h
      exact .line hheld
  | handle =>
      simp only [step] at h
      split at h
      case h_2 => cases h
      case h_1 m rest hqueue =>
        cases h
        exact .handle hqueue
  | flag w =>
      -- the guard (no value read yet) is dropped: no proof needs it
      simp only [step, Option.bind_eq_bind, Option.bind_eq_some_iff] at h
      obtain ⟨wk, -, h⟩ := h
      split at h
      case isFalse => cases h
      case isTrue =>
        cases h
        exact .flag w
  | native w stack =>
      simp only [step, Option.bind_eq_bind, Option.bind_eq_some_iff] at h
      obtain ⟨v, -, u, hu, h⟩ := h
      cases h
      cases Activity.step_inv hu with
      | native hw hst => exact .native hw hst v stack
      | log ha => rcases ha with ha | ha <;> cases ha
  | clear w =>
      -- the two log processes keep their own guards, which the later proofs
      -- need
      obtain ⟨u, hu, rfl⟩ := Option.map_eq_some_iff.mp h
      simp only [Activity.step, Option.bind_eq_bind,
        Option.bind_eq_some_iff] at hu
      obtain ⟨wk, hw, hu⟩ := hu
      split at hu
      case isFalse => cases hu
      case isTrue =>
        cases hu
        exact .clear hw
  | logcat w =>
      obtain ⟨u, hu, rfl⟩ := Option.map_eq_some_iff.mp h
      simp only [Activity.step, Option.bind_eq_bind,
        Option.bind_eq_some_iff] at hu
      obtain ⟨wk, hw, hu⟩ := hu
      split at hu
      case isFalse => cases hu
      case isTrue hpc =>
        obtain ⟨m, hm, hu⟩ := Option.bind_eq_some_iff.mp hu
        cases hu
        exact .logcat hw hpc hm
  | proc a =>
      obtain ⟨u, hu, rfl⟩ := Option.map_eq_some_iff.mp h
      cases a with
      | call param2 stack => cases hu
      | send k i | read j i =>
          obtain ⟨p, hp, hu⟩ := Option.bind_eq_some_iff.mp hu
          cases hu
          exact .proc hp

/-- A step of ota_update or of hidRead makes no call. -/
theorem proc_calls {cs : CharSign} {c c' : Console} {a : PAct}
    (h : step cs c (.proc a) = some c') :
    c'.u.proc.calls.length = c.u.proc.calls.length := by
  cases step_inv h with
  | file path ha => rcases ha with ha | ⟨ha, -⟩ <;> cases ha
  | proc hp =>
      cases Proc.step_inv hp with
      | call param2 stack => cases h
      | send hk hm => exact List.length_set
      | read hj hm => rfl

/-- Every step of the console is a step of the activity below it, or
leaves the activity alone. -/
theorem step_activity {cs : CharSign} {c c' : Console} {a : ConAct}
    (h : step cs c a = some c') :
    c'.u = c.u ∨ ∃ b, Activity.step cs c.u b = some c'.u := by
  cases a with
  | start =>
      -- a click may be swallowed: a session runs, or no file is chosen
      cases h
      unfold onStart
      split
      case isTrue => exact Or.inl rfl
      case isFalse =>
        split
        case isTrue => exact Or.inr ⟨.click c.fwFilePath, rfl⟩
        case isFalse => exact Or.inl rfl
  | clean | verboseLog | selected | canceled =>
      cases h
      exact Or.inl rfl
  | worker w i =>
      simp only [step, Option.bind_eq_bind, Option.bind_eq_some_iff] at h
      obtain ⟨wk, -, h⟩ := h
      split at h
      case isFalse => cases h
      case isTrue =>
        obtain ⟨u, hu, h⟩ := Option.bind_eq_some_iff.mp h
        cases h
        exact Or.inr ⟨_, hu⟩
  | line w =>
      -- what is held and what is queued belong to the console alone
      obtain ⟨x, -, rfl⟩ := Option.map_eq_some_iff.mp h
      cases x <;> exact Or.inl rfl
  | handle =>
      simp only [step] at h
      split at h
      case h_2 => cases h
      case h_1 =>
        cases h
        exact Or.inl rfl
  | flag w =>
      simp only [step, Option.bind_eq_bind, Option.bind_eq_some_iff] at h
      obtain ⟨wk, -, h⟩ := h
      split at h
      case isFalse => cases h
      case isTrue =>
        cases h
        exact Or.inl rfl
  | native w stack =>
      simp only [step, Option.bind_eq_bind, Option.bind_eq_some_iff] at h
      obtain ⟨v, -, u, hu, h⟩ := h
      cases h
      exact Or.inr ⟨_, hu⟩
  | clear w | logcat w | proc a =>
      obtain ⟨u, hu, rfl⟩ := Option.map_eq_some_iff.mp h
      exact Or.inr ⟨_, hu⟩

/-- A run of the console is a run of the activity. -/
theorem reach_activity {cs : CharSign} {c₀ c : Console}
    {ok : Console → ConAct → Prop} (h : Lts.Reach (step cs) ok c₀ c) :
    Lts.Reach (Activity.step cs) Lts.free c₀.u c.u := by
  refine h.invariant
    (I := fun c => Lts.Reach (Activity.step cs) Lts.free c₀.u c.u)
    (Lts.Reach.refl _) ?_
  intro c a c' hr _ hs
  rcases step_activity hs with hsame | ⟨b, hb⟩
  · rwa [hsame]
  · exact hr.tail trivial hb

end Console

end BtOta
