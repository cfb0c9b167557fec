/-
A session joined to a device by a channel that keeps order.

Transmissions travel to the device in `up` and answers travel back in
`down`, each with the number of the packet it belongs to. The device
takes transmissions in order and answers each at most once, echoing its
command byte and, for DATA, its sequence field, with a status of its
own choosing; the channel may hold anything back for as long as it
likes, and may lose it. A guard on the actions (`Lts.Reach`) picks out
better-behaved devices and channels.

The numbers are for the properties only: neither thread can see them.
-/
import BtOta.Session
import BtOta.Answer

namespace BtOta

/-- A session, the channel and what the device has done, with the number
of the packet each answer belongs to. -/
structure Link where
  s : Session
  /-- transmissions the device has not handled yet, oldest first -/
  up : List (Nat × List UInt8)
  /-- answers hidRead has not read yet, oldest first -/
  down : List (Nat × List UInt8)
  /-- the packet that hidRead's latest report answers -/
  held : Nat
  /-- every answer the device has given -/
  answered : List (Nat × List UInt8)

/-- Whose step it is: one of the threads', the device's, or a loss on the
way up or down. -/
inductive LAct
  | send (i : SIn)
  /-- a step of hidRead other than its read -/
  | tick
  /-- hidRead's read returns the oldest answer -/
  | deliver
  /-- hidRead's read fails -/
  | readFail
  /-- the device answers the oldest transmission -/
  | answer (report : List UInt8)
  /-- the oldest transmission is lost, or left unanswered -/
  | lose
  /-- an answer is lost on its way -/
  | drop (i : Nat)
  deriving DecidableEq, Repr

/-- The report answers the packet: it echoes the command byte and, for
DATA, the sequence field. -/
def isAnswer (packet report : List UInt8) : Bool :=
  (Rsp.ofReport report).rid == 0x02 && belongs packet (Rsp.ofReport report)

namespace Link

/-- What the sender's step puts on the channel: the packet, if the write
succeeds, with its number. -/
def written (s : Session) : SIn → List (Nat × List UInt8)
  | .wrote res => if res < 0 then [] else [(s.g.totalCmdNum, s.snd.packet)]
  | _ => []

/-- One step of the session, the channel or the device. -/
def step (cs : CharSign) (l : Link) : LAct → Option Link
  | .send i =>
      (l.s.step cs (.send i)).map fun s' =>
        { l with s := s', up := l.up ++ written l.s i }
  | .tick => (l.s.step cs (.read .tick)).map fun s' => { l with s := s' }
  | .deliver =>
      match l.down with
      | (k, report) :: rest =>
          (l.s.step cs (.read (.got (some report)))).map fun s' =>
            { l with s := s', down := rest, held := k }
      | [] => none
  | .readFail =>
      (l.s.step cs (.read (.got none))).map fun s' => { l with s := s' }
  | .answer report =>
      match l.up with
      | (k, packet) :: rest =>
          if isAnswer packet report then
            some { l with
              up := rest
              down := l.down ++ [(k, report)]
              answered := l.answered ++ [(k, report)] }
          else none
      | [] => none
  | .lose =>
      match l.up with
      | _ :: rest => some { l with up := rest }
      | [] => none
  | .drop i =>
      if i < l.down.length then some { l with down := l.down.eraseIdx i }
      else none

/-- A session about to create its reader, with nothing in flight: where
`Session.start` comes to be joined to a device. -/
def start (g₀ : Shared) (param2 : Option String) (stack : Nat → UInt8)
    (file : List UInt8) : Link where
  s := Session.start g₀ param2 stack file
  up := []
  down := []
  held := 0
  answered := []

/-- Every run of the joined system is, on its session, a run against an
arbitrary channel. What is proved of a session alone so holds beside
every device. -/
theorem reach_session {cs : CharSign} {ok : Link → LAct → Prop}
    {l₀ l : Link} (h : Lts.Reach (step cs) ok l₀ l) :
    Lts.Reach (Session.step cs) Lts.free l₀.s l.s := by
  refine h.invariant
    (I := fun l => Lts.Reach (Session.step cs) Lts.free l₀.s l.s)
    (Lts.Reach.refl _) ?_
  intro l a l' hr _ hs
  -- four of the seven actions are a session step with the channels moved
  -- beside it
  have lift : ∀ (b : Act) (f : Session → Link), (∀ s, (f s).s = s) →
      (l.s.step cs b).map f = some l' →
      Lts.Reach (Session.step cs) Lts.free l₀.s l'.s := by
    intro b f hf hmap
    obtain ⟨s', hs', rfl⟩ := Option.map_eq_some_iff.mp hmap
    rw [hf]
    exact hr.tail trivial hs'
  cases a with
  | send i => exact lift (.send i) _ (fun _ => rfl) hs
  | tick => exact lift (.read .tick) _ (fun _ => rfl) hs
  | readFail => exact lift (.read (.got none)) _ (fun _ => rfl) hs
  | deliver =>
      simp only [step] at hs
      split at hs
      case h_1 k report rest _ =>
        exact lift (.read (.got (some report))) _ (fun _ => rfl) hs
      case h_2 => cases hs
  | answer report =>
      -- the device and the air leave the session where it is
      simp only [step] at hs
      split at hs
      case h_2 => cases hs
      case h_1 =>
        split at hs
        case isFalse => cases hs
        case isTrue =>
          cases hs
          exact hr
  | lose =>
      simp only [step] at hs
      split at hs
      case h_2 => cases hs
      case h_1 =>
        cases hs
        exact hr
  | drop i =>
      simp only [step] at hs
      split at hs
      case isFalse => cases hs
      case isTrue =>
        cases hs
        exact hr

-- ===================================================== pieces of schedules

/-- pthread_create succeeds and the first packet is written: the steps up
to the first poll. -/
def sendFirst : List LAct :=
  [.send (.created 0), .send .tick, .send .tick, .send .tick, .send .tick,
    .send (.wrote 8)]

/-- The sender polls, finds STAGE_NEXT_CMD and writes the next packet. -/
def sendNext : List LAct :=
  [.send .tick, .send .tick, .send .tick, .send .tick, .send .tick,
    .send .tick, .send (.wrote 8)]

/-- The last poll is behind the sender: it times out and writes the
packet again. -/
def sendAgain : List LAct := [.send .tick, .send .tick, .send (.wrote 8)]

/-- hidRead reads the oldest answer and acts on it. -/
def readAnswer : List LAct := [.tick, .deliver, .tick, .tick]

end Link

/-- An image's session joined to a device, on a stack of zeros. -/
def Image.link (img : Image) : Link :=
  Link.start Shared.loaded none (fun _ => 0) img.bytes

/-- The answers to the two records of `dataImage`, with SUCCESS. -/
def dataAnswer : List UInt8 := [0xA1, 0x02, 0, 0x02, 1, 0, 0]

def finishAnswer : List UInt8 := [0xA1, 0x02, 0, 0x03, 0, 0, 0]

end BtOta
