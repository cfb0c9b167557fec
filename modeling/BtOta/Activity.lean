/-
OTAActivity's Start button over the native library.

A click that finds `isOTARun` false sets it and starts a thread. That
thread clears the log, starts ota_update on a further thread, and then
reads the log until it finds the OTA STOP line, or the log ends, or
reading fails; only then does it reset `isOTARun`. Nobody waits for the
thread that is inside ota_update. As in `Proc`, a call has returned once
quit_serv's line is logged: the closes that follow are part of that
step, and they are no part of what the activity waits for.

# The log

Both calls of logcat run as processes of their own. The first clears
the log at some time after it was started; the second prints the lines
that are in the log, then those that are added to it, and the thread
reads what it has printed. Log lines are those of `====OTAUpdate====`:
the `beginning of /dev/log` lines are skipped by the thread, and no
path of a firmware file is taken to contain the OTA STOP text.

# Left out

What the thread shows on the screen. Nothing interrupts these threads,
so their sleeps return.
-/
import BtOta.Proc

namespace BtOta

/-- The line an event adds to the log. -/
def Event.line? : Event → Option Msg
  | .log m => some m
  | _ => none

/-- The lines logged so far, oldest first: what logcat would print if
nothing were cleared. -/
def linesOf (trace : List Event) : List Msg :=
  trace.filterMap Event.line?

-- ====================================================== the log's reader

/-- Where the thread started by a click stands. The places are the calls
it blocks in and the two assignments to `isOTARun`. -/
inductive WPc
  /-- `exec("logcat -c -v raw ...")` -/
  | clear
  /-- `Thread.sleep(100)` -/
  | sleep
  /-- the thread that calls startOTAUpdate is created and started -/
  | spawn
  /-- `exec("logcat -v raw ...")` -/
  | exec
  /-- `reader.readLine()` -/
  | readLine
  /-- `isOTARun = false` -/
  | release
  | ended
  /-- a RuntimeException has ended the thread -/
  | died
  deriving DecidableEq, Repr

/-- How far the thread that calls startOTAUpdate has come. Nobody joins
it, so all its click knows is that it was started. -/
inductive Native
  | none
  /-- started, and not yet in the library -/
  | started
  /-- in call `k` of ota_update, or back from it -/
  | called (k : Nat)
  deriving DecidableEq, Repr

/-- What a click has started: the thread, its two logcat processes, and
the thread of the native call. -/
structure Worker where
  pc : WPc
  native : Native
  /-- the first logcat has still to clear the log -/
  clearing : Bool
  /-- the number of the line the second logcat prints next -/
  pos : Nat
  /-- the lines it has printed that have not been read -/
  pipe : List Msg
  deriving DecidableEq, Repr

/-- A thread about to run. -/
def Worker.new : Worker := ⟨.clear, .none, false, 0, []⟩

/-- What a step of the thread takes from outside: nothing, an exception,
or what readLine finds in the pipe. -/
inductive WIn
  | tick
  /-- an IOException -/
  | threw
  /-- readLine returns the next line printed -/
  | line
  /-- readLine returns null -/
  | eof
  deriving DecidableEq, Repr

/-- One step of the thread. `none` is a step that cannot be taken where
it stands: it waits, or it has ended. -/
def Worker.step (wk : Worker) : WIn → Option Worker
  | .tick =>
      match wk.pc with
      | .clear => some { wk with pc := .sleep, clearing := true }
      | .sleep => some { wk with pc := .spawn }
      | .spawn => some { wk with pc := .exec, native := .started }
      | .exec => some { wk with pc := .readLine }
      | .release => some { wk with pc := .ended }
      | .readLine | .ended | .died => none
  | .threw =>
      match wk.pc with
      -- rethrown as a RuntimeException
      | .clear | .exec => some { wk with pc := .died }
      -- printed, and the thread goes on behind the loop
      | .readLine => some { wk with pc := .release }
      | _ => none
  | .line =>
      match wk.pc, wk.pipe with
      | .readLine, m :: rest =>
          some { wk with
            pc := if m = .otaStop then .release else .readLine
            pipe := rest }
      | _, _ => none
  | .eof =>
      match wk.pc, wk.pipe with
      | .readLine, [] => some { wk with pc := .release }
      | _, _ => none

/-- The steps of the thread, by name, down to where each leaves it. Every
invariant of the activity splits here and none unfolds `Worker.step`. -/
inductive WStep (wk : Worker) : WIn → Worker → Prop
  | clear (pc : wk.pc = .clear) :
      WStep wk .tick { wk with pc := .sleep, clearing := true }
  | sleep (pc : wk.pc = .sleep) : WStep wk .tick { wk with pc := .spawn }
  | spawn (pc : wk.pc = .spawn) :
      WStep wk .tick { wk with pc := .exec, native := .started }
  | exec (pc : wk.pc = .exec) : WStep wk .tick { wk with pc := .readLine }
  | release (pc : wk.pc = .release) : WStep wk .tick { wk with pc := .ended }
  /-- one of the two logcats could not be started -/
  | dies (pc : wk.pc = .clear ∨ wk.pc = .exec) :
      WStep wk .threw { wk with pc := .died }
  | readFail (pc : wk.pc = .readLine) :
      WStep wk .threw { wk with pc := .release }
  /-- a line other than OTA STOP -/
  | line {m : Msg} {rest : List Msg} (pc : wk.pc = .readLine)
      (pipe : wk.pipe = m :: rest) (hm : m ≠ .otaStop) :
      WStep wk .line { wk with pc := .readLine, pipe := rest }
  | stop {rest : List Msg} (pc : wk.pc = .readLine)
      (pipe : wk.pipe = .otaStop :: rest) :
      WStep wk .line { wk with pc := .release, pipe := rest }
  | eof (pc : wk.pc = .readLine) (pipe : wk.pipe = []) :
      WStep wk .eof { wk with pc := .release }

theorem Worker.step_inv {wk wk' : Worker} {i : WIn}
    (h : wk.step i = some wk') : WStep wk i wk' := by
  cases i with
  | tick =>
      simp only [step] at h
      split at h
      case h_1 pc =>
        cases h
        exact .clear pc
      case h_2 pc =>
        cases h
        exact .sleep pc
      case h_3 pc =>
        cases h
        exact .spawn pc
      case h_4 pc =>
        cases h
        exact .exec pc
      case h_5 pc =>
        cases h
        exact .release pc
      all_goals cases h
  | threw =>
      -- an exception ends the loop in readLine, and the thread anywhere
      -- before it
      simp only [step] at h
      split at h
      case h_1 pc =>
        cases h
        exact .dies (Or.inl pc)
      case h_2 pc =>
        cases h
        exact .dies (Or.inr pc)
      case h_3 pc =>
        cases h
        exact .readFail pc
      case h_4 => cases h
  | line =>
      -- OTA STOP is the line that clears isOTARun
      simp only [step] at h
      split at h
      case h_2 => cases h
      case h_1 m rest pc pipe =>
        cases h
        by_cases hm : m = .otaStop
        · subst hm
          exact .stop pc pipe
        · rw [if_neg hm]
          exact .line pc pipe hm
  | eof =>
      simp only [step] at h
      split at h
      case h_1 pc pipe =>
        cases h
        exact .eof pc pipe
      case h_2 => cases h

-- ============================================================ the activity

/-- The activity, what its clicks have started, and the process.
`isOTARun` and the log are all that the clicks have in common. -/
structure Activity where
  isOTARun : Bool
  workers : List Worker
  /-- how many log lines have been cleared -/
  cleared : Nat
  proc : Proc

/-- What happens, each step by whoever takes it: the user, a thread, a
log process, or the library. -/
inductive UAct
  /-- onCreate -/
  | create
  /-- a click on Start -/
  | click (fwFilePath : String)
  /-- a step of thread `w` -/
  | worker (w : Nat) (i : WIn)
  /-- the native thread of `w` enters ota_update -/
  | native (w : Nat) (isVerboseLog : Bool) (stack : Nat → UInt8)
  /-- the first logcat of `w` clears the log -/
  | clear (w : Nat)
  /-- the second logcat of `w` prints a line -/
  | logcat (w : Nat)
  /-- a step of ota_update or of hidRead -/
  | proc (a : PAct)

namespace Activity

def loaded : Activity := ⟨false, [], 0, Proc.loaded⟩

/-- button_start.onClick: a click is swallowed while `isOTARun` is set,
or while no file is chosen. -/
def onClick (u : Activity) (fwFilePath : String) : Activity :=
  if fwFilePath = "" then u
  else if u.isOTARun = false then
    { u with isOTARun := true, workers := u.workers ++ [Worker.new] }
  else u

/-- The second argument of startOTAUpdate. -/
def verboseS (isVerboseLog : Bool) : String :=
  if isVerboseLog then "Y" else "N"

/-- The next line to print: one that has been cleared is not printed. -/
def nextLine (u : Activity) (wk : Worker) : Option Msg :=
  (linesOf u.proc.trace)[max wk.pos u.cleared]?

/-- One step. Nothing here keeps the clicks apart but `isOTARun`, as in
the app. -/
def step (cs : CharSign) (u : Activity) : UAct → Option Activity
  | .create => some { u with isOTARun := false }
  | .click fwFilePath => some (u.onClick fwFilePath)
  | .worker w i => do
      let wk ← u.workers[w]?
      let wk' ← wk.step i
      some { u with
        isOTARun := if wk.pc = .release then false else u.isOTARun
        workers := u.workers.set w wk' }
  | .native w isVerboseLog stack => do
      let wk ← u.workers[w]?
      if wk.native = .started then
        let p ← Proc.step cs u.proc
          (.call (some (verboseS isVerboseLog)) stack)
        some { u with
          workers := u.workers.set w
            { wk with native := .called u.proc.calls.length }
          proc := p }
      else none
  | .clear w => do
      let wk ← u.workers[w]?
      if wk.clearing then
        some { u with
          workers := u.workers.set w { wk with clearing := false }
          cleared := (linesOf u.proc.trace).length }
      else none
  | .logcat w => do
      let wk ← u.workers[w]?
      if wk.pc = .readLine then
        let m ← u.nextLine wk
        some { u with
          workers := u.workers.set w
            { wk with
              pos := max wk.pos u.cleared + 1, pipe := wk.pipe ++ [m] } }
      else none
  | .proc a =>
      match a with
      | .call _ _ => none
      | .send _ _ | .read _ _ => do
          let p ← Proc.step cs u.proc a
          some { u with proc := p }

/-- The steps, by name. What the two log processes do is one arm: they
move cursors and leave the process alone. -/
inductive Move (cs : CharSign) (u : Activity) : UAct → Activity → Prop
  | create : Move cs u .create { u with isOTARun := false }
  | click (fwFilePath : String) :
      Move cs u (.click fwFilePath) (u.onClick fwFilePath)
  | worker {w : Nat} {i : WIn} {wk wk' : Worker}
      (hw : u.workers[w]? = some wk) (h : wk.step i = some wk') :
      Move cs u (.worker w i)
        { u with
          isOTARun := if wk.pc = .release then false else u.isOTARun
          workers := u.workers.set w wk' }
  | native {w : Nat} {wk : Worker} (hw : u.workers[w]? = some wk)
      (hst : wk.native = .started) (isVerboseLog : Bool)
      (stack : Nat → UInt8) :
      Move cs u (.native w isVerboseLog stack)
        { u with
          workers := u.workers.set w
            { wk with native := .called u.proc.calls.length }
          proc := { u.proc with
            calls := u.proc.calls
              ++ [Sender.call (some (verboseS isVerboseLog)) stack] } }
  | log {w : Nat} {a : UAct} {wk wk' : Worker} {cleared : Nat}
      (ha : a = .clear w ∨ a = .logcat w)
      (hw : u.workers[w]? = some wk) (hpc : wk'.pc = wk.pc)
      (hnat : wk'.native = wk.native) :
      Move cs u a
        { u with workers := u.workers.set w wk', cleared := cleared }
  | proc {a : PAct} {p : Proc} (hcall : ∀ q st, a ≠ .call q st)
      (h : Proc.step cs u.proc a = some p) :
      Move cs u (.proc a) { u with proc := p }

theorem step_inv {cs : CharSign} {u u' : Activity} {a : UAct}
    (h : step cs u a = some u') : Move cs u a u' := by
  cases a with
  | create =>
      cases h
      exact .create
  | click fwFilePath =>
      cases h
      exact .click fwFilePath
  | worker w i =>
      simp only [step, Option.bind_eq_bind, Option.bind_eq_some_iff] at h
      obtain ⟨wk, hw, wk', hstep, h⟩ := h
      cases h
      exact .worker hw hstep
  | native w isVerboseLog stack =>
      -- the thread of the native call has been started and has not called
      -- yet
      simp only [step, Option.bind_eq_bind, Option.bind_eq_some_iff] at h
      obtain ⟨wk, hw, h⟩ := h
      split at h
      case isFalse => cases h
      case isTrue hst =>
        cases h
        exact .native hw hst isVerboseLog stack
  | clear w =>
      -- both processes only move the log cursors, so they share an arm
      simp only [step, Option.bind_eq_bind, Option.bind_eq_some_iff] at h
      obtain ⟨wk, hw, h⟩ := h
      split at h
      case isFalse => cases h
      case isTrue hst =>
        cases h
        exact .log (Or.inl rfl) hw rfl rfl
  | logcat w =>
      simp only [step, Option.bind_eq_bind, Option.bind_eq_some_iff] at h
      obtain ⟨wk, hw, h⟩ := h
      split at h
      case isFalse => cases h
      case isTrue hst =>
        obtain ⟨m, hm, h⟩ := Option.bind_eq_some_iff.mp h
        cases h
        exact .log (Or.inr rfl) hw rfl rfl
  | proc a =>
      -- calls are made by `native`, never from outside
      cases a with
      | call param2 stack => cases h
      | send k i | read j i =>
          obtain ⟨p, hp, h⟩ := Option.bind_eq_some_iff.mp h
          cases h
          exact .proc nofun hp

end Activity

end BtOta
