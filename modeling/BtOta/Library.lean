/-
The native library in its process: every call of connectToHost,
deconnectClient and startOTAUpdate made so far, the readers the sessions
have created, and other code that opens and closes descriptors of its
own.

The three entries are androhid.c's, which hand on what reconnect and
ota_update return. A run of quit_serv stands by itself: deconnectClient
starts one, and so does a call of ota_update at either of its ends,
where a `Sender` counts as returned once quit_serv's line is logged.

# read and write

The kernel looks the number in `intr` up when read or write is entered,
and a call that blocks stays with what it found, whatever becomes of the
number meanwhile. So each is two steps, `enterRead` and `enterWrite` and
then its result, and a number that is not open leads to a failure. A
packet counts as gone to a descriptor, and a report as taken from it,
when the call succeeds.

# fopen

fopen gives out a number before the load loop runs, and fclose frees it
when the loop has ended; the loop itself is one step, as it is in
`Sender`. A file too long for `fw_data_buf` never comes to fclose.

# Notes

`home` notes, for each call of ota_update, the interrupt channel that
`intr` named when the call began. No step reads it.

The table of descriptors is empty at load. What the process has open by
then, its other code may as well open afterwards.
-/
import BtOta.Proc
import BtOta.Reconnect

namespace BtOta

open Descriptors

/-- The library and its process: every call there has been, where each
stands, and the one table of descriptors they all use. -/
structure Library where
  proc : Proc
  net : Net
  /-- the calls of reconnect so far, oldest first -/
  connects : List Connect
  /-- the runs of quit_serv so far, oldest first -/
  quits : List QPc
  /-- the interrupt channel open when ota_update call `k` began -/
  home : Nat → Option Desc
  /-- the number behind `fp` of ota_update call `k`, while it is open -/
  file : Nat → Option Nat
  /-- ota_update call `k` is in write, on what the number stood for -/
  writing : Nat → Option (Option Desc)
  /-- reader `j` is in read, on what the number stood for -/
  reading : Nat → Option (Option Desc)

/-- What happens: an entry is called, a call goes on, or other code of
the app opens or closes something of its own. -/
inductive LibAct
  | connectToHost
  /-- a step of reconnect call `c` -/
  | reconnect (c : Nat) (i : CIn)
  | deconnectClient
  /-- a step of run `q` of quit_serv -/
  | quitServ (q : Nat)
  | startOTAUpdate (param2 : Option String) (stack : Nat → UInt8)
  /-- fopen gives out `n` to ota_update call `k` -/
  | fopen (k n : Nat)
  /-- ota_update call `k` enters write -/
  | enterWrite (k : Nat)
  /-- reader `j` enters read -/
  | enterRead (j : Nat)
  /-- a step of ota_update call `k` -/
  | send (k : Nat) (i : SIn)
  /-- a step of reader `j` -/
  | read (j : Nat) (i : RIn)
  /-- other code opens `n` -/
  | otherOpen (n m : Nat)
  /-- other code closes `n`, which it has opened -/
  | otherClose (n : Nat)

namespace Library

def loaded : Library where
  proc := Proc.loaded
  net := Net.loaded
  connects := []
  quits := []
  home := fun _ => none
  file := fun _ => none
  writing := fun _ => none
  reading := fun _ => none

-- ================================================= the threads of a session

/-- What the system can answer ota_update call `k`: the load goes with
what fopen gave out, and a write that was entered on no open descriptor
fails. -/
def answersSend (l : Library) (k : Nat) : SIn → Bool
  | .opened none => (l.file k).isNone
  | .opened (some _) => (l.file k).isSome
  | .wrote res =>
      match l.writing k with
      | none => false
      | some d => d.isSome || decide (res < 0)
  | .tick | .created _ => true

/-- What a step of ota_update call `k` does to the descriptors: fclose
comes with the load, and a write that does not fail is on record with
what it went to. -/
def sendNet (l : Library) (k : Nat) : SIn → Net
  | .opened (some bytes) =>
      match l.file k with
      | some n =>
          if bytes.length ≤ fwBufSize then l.net.fclose n else l.net
      | none => l.net
  | .wrote res =>
      match l.writing k with
      | some (some d) =>
          if res < 0 then l.net else l.net.say (.wrote k d)
      | _ => l.net
  | _ => l.net

/-- `fp` behind a step of ota_update: fclose comes with the load, so it
is set between fopen and the load only. -/
def fileAfter (file : Option Nat) : SIn → Option Nat
  | .opened (some bytes) =>
      if bytes.length ≤ fwBufSize then none else file
  | _ => file

/-- A step with write's result ends the write, and with it the hold on
what the number stood for. -/
def writingAfter (writing : Option (Option Desc)) :
    SIn → Option (Option Desc)
  | .wrote _ => none
  | _ => writing

/-- Call `k` has come to its end, in the sense of `Sender.returned`: the
closes of its quit_serv are still to be made here. -/
def hasReturned (calls : List Sender) (k : Nat) : Bool :=
  (calls[k]?.map Sender.returned).getD false

/-- Behind a step of ota_update call `k` that left the process at `p`: if
the call has come to its end, its quit_serv begins. -/
def sent (l : Library) (k : Nat) (i : SIn) (p : Proc) : Library :=
  { l with
    proc := p
    net := l.sendNet k i
    quits := if hasReturned p.calls k then l.quits ++ [.ctrl] else l.quits
    file := Function.update l.file k (fileAfter (l.file k) i)
    writing := Function.update l.writing k
      (writingAfter (l.writing k) i) }

/-- What the system can answer reader `j`: a read that was entered on no
open descriptor fails, so it brings no report. -/
def answersRead (l : Library) (j : Nat) : RIn → Bool
  | .tick => true
  | .got report =>
      match l.reading j with
      | none => false
      | some d => d.isSome || report.isNone

/-- What a step of reader `j`, of call `k`, does to the descriptors:
nothing, but a report is on record with where it came from. -/
def readNet (l : Library) (j k : Nat) : RIn → Net
  | .got (some _) =>
      match l.reading j with
      | some (some d) => l.net.say (.consumed k d)
      | _ => l.net
  | _ => l.net

/-- A step with read's result ends the read, and the next one looks the
number in `intr` up again. -/
def readingAfter (reading : Option (Option Desc)) :
    RIn → Option (Option Desc)
  | .got _ => none
  | .tick => reading

/-- Behind a step of reader `j` of call `k` that left the process at
`p`. -/
def received (l : Library) (j k : Nat) (i : RIn) (p : Proc) : Library :=
  { l with
    proc := p
    net := l.readNet j k i
    reading := Function.update l.reading j
      (readingAfter (l.reading j) i) }

variable {l : Library} {j k k' : Nat} {i : SIn} {r : RIn} {p : Proc}

@[simp] theorem sent_file_self :
    (l.sent k i p).file k = fileAfter (l.file k) i :=
  Function.update_self k _ l.file

theorem sent_file_of_ne (h : k' ≠ k) :
    (l.sent k i p).file k' = l.file k' :=
  Function.update_of_ne h _ l.file

@[simp] theorem sent_writing_self :
    (l.sent k i p).writing k = writingAfter (l.writing k) i :=
  Function.update_self k _ l.writing

theorem sent_writing_of_ne (h : k' ≠ k) :
    (l.sent k i p).writing k' = l.writing k' :=
  Function.update_of_ne h _ l.writing

@[simp] theorem received_reading_self :
    (l.received j k r p).reading j = readingAfter (l.reading j) r :=
  Function.update_self j _ l.reading

theorem received_reading_of_ne (h : k' ≠ j) :
    (l.received j k r p).reading k' = l.reading k' :=
  Function.update_of_ne h _ l.reading

-- ================================================================ the steps

/-- One step. The three entries may be called at any time and from any
thread; a property says itself what it asks of the order. -/
def step (cs : CharSign) (l : Library) : LibAct → Option Library
  | .connectToHost =>
      some { l with connects := l.connects ++ [Connect.call] }
  | .reconnect c i => do
      let cn ← l.connects[c]?
      let (net, cn') ← reconnect c l.net cn i
      some { l with net := net, connects := l.connects.set c cn' }
  | .deconnectClient => some { l with quits := l.quits ++ [.ctrl] }
  | .quitServ q => do
      let pc ← l.quits[q]?
      let (net, pc') ← quitServ l.net pc
      some { l with net := net, quits := l.quits.set q pc' }
  | .startOTAUpdate param2 stack =>
      some { l with
        proc := { l.proc with
          calls := l.proc.calls ++ [Sender.call param2 stack] }
        home := Function.update l.home l.proc.calls.length
          ((l.net.fds l.net.intr).filter Desc.isIntr) }
  | .fopen k n => do
      let snd ← l.proc.calls[k]?
      if snd.pc = .load ∧ l.file k = none ∧ l.net.fds n = none then
        some { l with
          net := l.net.opened n (.firmware k)
          file := Function.update l.file k (some n) }
      else none
  | .enterWrite k => do
      let snd ← l.proc.calls[k]?
      if snd.pc = .write ∧ l.writing k = none then
        some { l with
          writing := Function.update l.writing k
            (some (l.net.fds l.net.intr)) }
      else none
  | .enterRead j => do
      let (_, pc) ← l.proc.rdrs[j]?
      if pc = .read ∧ l.reading j = none then
        some { l with
          reading := Function.update l.reading j
            (some (l.net.fds l.net.intr)) }
      else none
  | .send k i =>
      if l.answersSend k i then
        (Proc.step cs l.proc (.send k i)).map (l.sent k i)
      else none
  | .read j i => do
      let (k, _) ← l.proc.rdrs[j]?
      if l.answersRead j i then
        (Proc.step cs l.proc (.read j i)).map (l.received j k i)
      else none
  | .otherOpen n m =>
      if l.net.fds n = none then
        some { l with net := l.net.opened n (.other m) }
      else none
  | .otherClose n =>
      match l.net.fds n with
      | some (.other _) => some { l with net := l.net.fclose n }
      | _ => none

/-- The steps, by name, each with the guard that the descriptors put on
it. -/
inductive Move (cs : CharSign) (l : Library) : LibAct → Library → Prop
  | connectToHost :
      Move cs l .connectToHost
        { l with connects := l.connects ++ [Connect.call] }
  | reconnect {c : Nat} {i : CIn} {cn cn' : Connect} {net : Net}
      (hc : l.connects[c]? = some cn) (h : CStep c l.net cn i net cn') :
      Move cs l (.reconnect c i)
        { l with net := net, connects := l.connects.set c cn' }
  | deconnectClient :
      Move cs l .deconnectClient { l with quits := l.quits ++ [.ctrl] }
  | quitServ {q : Nat} {pc pc' : QPc} {net : Net}
      (hq : l.quits[q]? = some pc)
      (h : BtOta.quitServ l.net pc = some (net, pc')) :
      Move cs l (.quitServ q)
        { l with net := net, quits := l.quits.set q pc' }
  | startOTAUpdate (param2 : Option String) (stack : Nat → UInt8) :
      Move cs l (.startOTAUpdate param2 stack)
        { l with
          proc := { l.proc with
            calls := l.proc.calls ++ [Sender.call param2 stack] }
          home := Function.update l.home l.proc.calls.length
            ((l.net.fds l.net.intr).filter Desc.isIntr) }
  | fopen {k n : Nat} {snd : Sender} (hk : l.proc.calls[k]? = some snd)
      (hpc : snd.pc = .load) (hfile : l.file k = none)
      (free : l.net.fds n = none) :
      Move cs l (.fopen k n)
        { l with
          net := l.net.opened n (.firmware k)
          file := Function.update l.file k (some n) }
  | enterWrite {k : Nat} {snd : Sender}
      (hk : l.proc.calls[k]? = some snd) (hpc : snd.pc = .write) :
      Move cs l (.enterWrite k)
        { l with
          writing := Function.update l.writing k
            (some (l.net.fds l.net.intr)) }
  | enterRead {j k : Nat} (hj : l.proc.rdrs[j]? = some (k, .read))
      (hnone : l.reading j = none) :
      Move cs l (.enterRead j)
        { l with
          reading := Function.update l.reading j
            (some (l.net.fds l.net.intr)) }
  | send {k : Nat} {i : SIn} {p : Proc}
      (answers : l.answersSend k i = true)
      (h : Proc.step cs l.proc (.send k i) = some p) :
      Move cs l (.send k i) (l.sent k i p)
  | read {j k : Nat} {i : RIn} {pc : RPc} {p : Proc}
      (hj : l.proc.rdrs[j]? = some (k, pc))
      (answers : l.answersRead j i = true)
      (h : Proc.step cs l.proc (.read j i) = some p) :
      Move cs l (.read j i) (l.received j k i p)
  | otherOpen {n m : Nat} (free : l.net.fds n = none) :
      Move cs l (.otherOpen n m)
        { l with net := l.net.opened n (.other m) }
  | otherClose {n m : Nat} (h : l.net.fds n = some (.other m)) :
      Move cs l (.otherClose n) { l with net := l.net.fclose n }

theorem step_inv {cs : CharSign} {l l' : Library} {a : LibAct}
    (h : step cs l a = some l') : Move cs l a l' := by
  cases a with
  | connectToHost =>
      cases h
      exact .connectToHost
  | reconnect c i =>
      simp only [step, Option.bind_eq_bind, Option.bind_eq_some_iff] at h
      obtain ⟨cn, hc, ⟨net, cn'⟩, hstep, h⟩ := h
      cases h
      exact .reconnect hc (reconnect_inv hstep)
  | deconnectClient =>
      cases h
      exact .deconnectClient
  | quitServ q =>
      simp only [step, Option.bind_eq_bind, Option.bind_eq_some_iff] at h
      obtain ⟨pc, hq, ⟨net, pc'⟩, hstep, h⟩ := h
      cases h
      exact .quitServ hq hstep
  | startOTAUpdate param2 stack =>
      cases h
      exact .startOTAUpdate param2 stack
  | fopen k n =>
      -- the operating system may hand out any free number, so the guard is
      -- taken apart and kept
      simp only [step, Option.bind_eq_bind, Option.bind_eq_some_iff] at h
      obtain ⟨snd, hk, h⟩ := h
      split at h
      case isFalse => cases h
      case isTrue hgive =>
        cases h
        exact .fopen hk hgive.1 hgive.2.1 hgive.2.2
  | enterWrite k =>
      simp only [step, Option.bind_eq_bind, Option.bind_eq_some_iff] at h
      obtain ⟨snd, hk, h⟩ := h
      split at h
      case isFalse => cases h
      case isTrue henter =>
        cases h
        exact .enterWrite hk henter.1
  | enterRead j =>
      simp only [step, Option.bind_eq_bind, Option.bind_eq_some_iff] at h
      obtain ⟨⟨k, pc⟩, hj, h⟩ := h
      split at h
      case isFalse => cases h
      case isTrue henter =>
        cases h
        obtain ⟨hpc, hnone⟩ := henter
        subst hpc
        exact .enterRead hj hnone
  | send k i =>
      -- the result of a blocked call must be one the descriptors allow
      simp only [step] at h
      split at h
      case isFalse => cases h
      case isTrue hans =>
        obtain ⟨p, hp, rfl⟩ := Option.map_eq_some_iff.mp h
        exact .send hans hp
  | read j i =>
      simp only [step, Option.bind_eq_bind, Option.bind_eq_some_iff] at h
      obtain ⟨⟨k, pc⟩, hj, h⟩ := h
      split at h
      case isFalse => cases h
      case isTrue hans =>
        obtain ⟨p, hp, rfl⟩ := Option.map_eq_some_iff.mp h
        exact .read hj hans hp
  | otherOpen n m =>
      -- the rest of the app shares the process's descriptor table
      simp only [step] at h
      split at h
      case isFalse => cases h
      case isTrue hfree =>
        cases h
        exact .otherOpen hfree
  | otherClose n =>
      simp only [step] at h
      split at h <;> cases h
      case h_1 m hn => exact .otherClose hn

-- =============================================================== sequences

/-- Nothing runs that the three entries have started, but for readers:
those are left running by every session. -/
def idle (l : Library) : Bool :=
  l.connects.all Connect.returned && l.proc.calls.all Sender.returned
    && l.quits.all (· == .done)

/-- The entries are called one after another: each begins when the ones
before it are over. Other code, and readers, may step at any time. -/
def sequential (l : Library) : LibAct → Prop
  | .connectToHost | .deconnectClient | .startOTAUpdate _ _ =>
      l.idle = true
  | _ => True

instance (l : Library) : ∀ a, Decidable (sequential l a)
  | .connectToHost | .deconnectClient | .startOTAUpdate _ _ =>
      inferInstanceAs (Decidable (l.idle = true))
  | .reconnect _ _ | .quitServ _ | .fopen _ _ | .enterWrite _
  | .enterRead _ | .send _ _ | .read _ _ | .otherOpen _ _
  | .otherClose _ => inferInstanceAs (Decidable True)

-- ============================================================= the sessions

/-- The sessions of the library are a process of sessions, so whatever is
proved of `Proc` holds of them under every run of the library. -/
theorem reach_proc {cs : CharSign} {ok : Library → LibAct → Prop}
    {l₀ l : Library} (h : Lts.Reach (step cs) ok l₀ l) :
    Lts.Reach (Proc.step cs) Lts.free l₀.proc l.proc := by
  refine h.invariant (I := fun l =>
    Lts.Reach (Proc.step cs) Lts.free l₀.proc l.proc) (.refl _) ?_
  intro l a l' hr _ hs
  cases step_inv hs with
  | startOTAUpdate param2 stack =>
      exact hr.tail (a := .call param2 stack) trivial rfl
  | send _ hp => exact hr.tail trivial hp
  | read _ _ hp => exact hr.tail trivial hp
  | _ => exact hr

end Library

-- =========================================================== pieces of runs

/-- Both channels are connected: a call of connectToHost in which every
system call succeeds. -/
def bothConnected : List LibAct :=
  [.connectToHost, .reconnect 0 (.number 3), .reconnect 0 (.number 4),
    .reconnect 0 .ok, .reconnect 0 .ok, .reconnect 0 (.number 5),
    .reconnect 0 .ok, .reconnect 0 .ok, .reconnect 0 .tick,
    .reconnect 0 .tick, .reconnect 0 .tick]

/-- A connection, and a session whose file cannot be opened. -/
def connectedThenFailed : List LibAct :=
  bothConnected
    ++ [.startOTAUpdate none fun _ => 0, .send 0 .tick,
      .send 0 (.opened none), .send 0 .tick, .send 0 .tick, .send 0 .tick,
      .send 0 .tick, .send 0 .tick, .quitServ 0, .quitServ 0, .quitServ 0,
      .quitServ 0]

end BtOta
