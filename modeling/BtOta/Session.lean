/-
One session: ota_update and the hidRead thread it creates, interleaved
step by step against an arbitrary channel. Every result of fopen,
pthread_create, read and write comes with the action, so a run is one
choice of all of them together with one schedule.

`Session.start` is the point at which every session of an image begins:
the file is open and loaded, no reader runs yet, and the static
variables hold whatever earlier sessions left in them, but for the ones
the session has set (`run_start`).
-/
import BtOta.Reader
import BtOta.Sender
import BtOta.Image
import BtOta.Lib.Lts

namespace BtOta

/-- The two threads of a session, and what has happened. The trace is for
the properties: no step reads it. -/
structure Session where
  g : Shared
  snd : Sender
  /-- `none` before pthread_create has succeeded -/
  rdr : Option RPc
  trace : List Event

/-- Whose step it is, and what the step takes from outside. -/
inductive Act
  | send (i : SIn)
  | read (i : RIn)
  deriving DecidableEq, Repr

namespace Session

/-- The reader once the sender has taken a step: pthread_create's success
makes one, and no other step does. -/
def spawn (rdr : Option RPc) : SIn → Option RPc
  | .created 0 => some .test
  | _ => rdr

theorem spawn_of_ne {rdr : Option RPc} {i : SIn} (h : i ≠ .created 0) :
    spawn rdr i = rdr := by
  unfold spawn
  split
  · exact absurd rfl h
  · rfl

/-- One step of the session: either thread may move at any time, as far
as what it waits for has come. -/
def step (cs : CharSign) (s : Session) : Act → Option Session
  | .send i =>
      (otaUpdate cs s.g s.snd i).map fun (g, snd, es) =>
        { g := g, snd := snd, rdr := spawn s.rdr i, trace := s.trace ++ es }
  | .read i =>
      match s.rdr with
      | some pc =>
          (hidRead cs s.g pc i).map fun (g, pc', es) =>
            { s with g := g, rdr := some pc', trace := s.trace ++ es }
      | none => none

/-- A session about to run its first statement. -/
def call (g₀ : Shared) (param2 : Option String) (stack : Nat → UInt8) :
    Session where
  g := g₀
  snd := Sender.call param2 stack
  rdr := none
  trace := []

/-- A session whose file has been opened and loaded, over whatever the
variables held before it. -/
def start (g₀ : Shared) (param2 : Option String) (stack : Nat → UInt8)
    (file : List UInt8) : Session where
  g := g₀.initVars param2
  snd := { (Sender.call param2 stack).load file with pc := .create }
  rdr := none
  trace := (g₀.initVars param2).verbose .otaUpdateArgs
    ++ [.log (.fwSize file.length)]

/-- Where every session of an image that fits the buffer comes to, by two
steps of its own, so properties of runs may begin there. -/
theorem run_start (cs : CharSign) (g₀ : Shared) (param2 : Option String)
    (stack : Nat → UInt8) {file : List UInt8}
    (hfit : file.length ≤ fwBufSize) :
    Lts.run (step cs) Lts.free (call g₀ param2 stack)
        [.send .tick, .send (.opened (some file))]
      = some (start g₀ param2 stack file) := by
  simp only [Lts.run, Lts.free, if_true, step, otaUpdate, call, Sender.call,
    Option.map_some, if_pos hfit]
  rfl

end Session

-- ===================================================== pieces of schedules

/-- The session of an image, on a stack of zeros, for examples. -/
def Image.session (img : Image) : Session :=
  Session.start Shared.loaded none (fun _ => 0) img.bytes

/-- pthread_create succeeds and the first packet is written. -/
def sendFirst : List Act :=
  [.send (.created 0), .send .tick, .send .tick, .send .tick, .send .tick,
    .send (.wrote 8)]

/-- The sender polls, finds STAGE_NEXT_CMD and writes the next packet. -/
def sendNext : List Act :=
  [.send .tick, .send .tick, .send .tick, .send .tick, .send .tick,
    .send .tick, .send (.wrote 8)]

/-- hidRead reads one report and acts on it. -/
def readOne (report : List UInt8) : List Act :=
  [.read .tick, .read (.got (some report)), .read .tick, .read .tick]

/-- The sender polls once and finds STAGE_COMPLETE. -/
def pollToEnd : List Act :=
  [.send .tick, .send .tick, .send .tick, .send .tick]

/-- A DATA record, then the FINISH record: the shortest image that has
both kinds of packets. -/
def dataImage : Image := .close [.data 1 0] (by decide) (by decide)

/-- The device answers both packets of `dataImage`, and the session comes
to its success. -/
def answeredRun : List Act :=
  sendFirst ++ readOne [0xA1, 0x02, 0, 0x02, 1, 0, 0] ++ sendNext
    ++ readOne [0xA1, 0x02, 0, 0x03, 0, 0, 0] ++ pollToEnd

end BtOta
