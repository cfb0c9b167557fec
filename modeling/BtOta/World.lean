/-
The app, the channel and the device.

A parcel is a packet or an answer to one, with the call of ota_update
that wrote the packet and the number the packet had there. Parcels
travel to the device in `up` and back in `down`, whatever becomes of the
call meanwhile: a later session writes behind what an earlier one has
left on its way, and its reader may come to read an answer that was
meant for the earlier one. As in `Link`, the device takes transmissions
in order and answers each at most once, the channel may hold anything
back and may lose it, and neither the app nor the device can see the
numbers.

A report reaches hidRead from the device alone, so the console's own
steps do not bring any.
-/
import BtOta.Console
import BtOta.Link

namespace BtOta

/-- Something on its way, up or down, with whose it is: for the
properties only, since no thread can see it. -/
structure Parcel where
  call : Nat
  num : Nat
  bytes : List UInt8
  deriving DecidableEq, Repr

/-- The parcels of a call, as `Link` has them, in the order they are on
their way. -/
def parcelsOf (k : Nat) (ts : List Parcel) : List (Nat × List UInt8) :=
  (ts.filter fun t => t.call = k).map fun t => (t.num, t.bytes)

/-- The app, the channel and what the device has done, over all of the
sessions there have been. -/
structure World where
  c : Console
  /-- transmissions the device has not handled yet, oldest first -/
  up : List Parcel
  /-- answers no hidRead has read yet, oldest first -/
  down : List Parcel
  /-- every packet that has been written -/
  sent : List Parcel
  /-- every answer the device has given -/
  answered : List Parcel

/-- Whose step it is. A report that is read is taken from the channel, so
the app's own steps do not bring one. -/
inductive WAct
  /-- a step of the app, but for a report that is read -/
  | app (a : ConAct)
  /-- reader `j`'s read returns the oldest answer -/
  | deliver (j : Nat)
  /-- the device answers the oldest transmission -/
  | answer (report : List UInt8)
  /-- the oldest transmission is lost, or left unanswered -/
  | lose
  /-- an answer is lost on its way -/
  | drop (i : Nat)

namespace World

/-- The app has been started, with nothing on its way. -/
def loaded : World := ⟨Console.loaded, [], [], [], []⟩

/-- What a step of the app puts on the channel: a packet that is written,
by whichever call writes it. -/
def written (p : Proc) : ConAct → List Parcel
  | .proc (.send k (.wrote res)) =>
      match p.calls[k]? with
      | some snd =>
          if res < 0 then [] else [⟨k, p.g.totalCmdNum, snd.packet⟩]
      | none => []
  | _ => []

/-- The step brings a report; the channel is where it has to come from.
-/
def reports : ConAct → Bool
  | .proc (.read _ (.got (some _))) => true
  | _ => false

/-- One step of the app, the channel or the device. The channel has one
end in the app: any reader may take what comes. -/
def step (cs : CharSign) (w : World) : WAct → Option World
  | .app a =>
      if reports a then none
      else (w.c.step cs a).map fun c =>
        { w with
          c := c
          up := w.up ++ written w.c.u.proc a
          sent := w.sent ++ written w.c.u.proc a }
  | .deliver j =>
      match w.down with
      | t :: rest =>
          (w.c.step cs (.proc (.read j (.got (some t.bytes))))).map fun c =>
            { w with c := c, down := rest }
      | [] => none
  | .answer report =>
      match w.up with
      | t :: rest =>
          if isAnswer t.bytes report then
            some { w with
              up := rest
              down := w.down ++ [⟨t.call, t.num, report⟩]
              answered := w.answered ++ [⟨t.call, t.num, report⟩] }
          else none
      | [] => none
  | .lose =>
      match w.up with
      | _ :: rest => some { w with up := rest }
      | [] => none
  | .drop i =>
      if i < w.down.length then some { w with down := w.down.eraseIdx i }
      else none

/-- The steps, by name, down to what they do to the process. `aside` is
whatever does not reach it. -/
inductive Move (cs : CharSign) (w : World) : WAct → World → Prop
  | aside {a : ConAct} {c : Console} (hs : w.c.step cs a = some c)
      (hproc : c.u.proc = w.c.u.proc) (ha : ∀ b, a ≠ .proc b) :
      Move cs w (.app a) { w with c := c }
  | call {n : Nat} {param2 : Option String} {stack : Nat → UInt8}
      {c : Console} (hs : w.c.step cs (.native n stack) = some c)
      (h : Proc.step cs w.c.u.proc (.call param2 stack) = some c.u.proc) :
      Move cs w (.app (.native n stack)) { w with c := c }
  | send {k : Nat} {i : SIn} {c : Console}
      (hs : w.c.step cs (.proc (.send k i)) = some c)
      (h : Proc.step cs w.c.u.proc (.send k i) = some c.u.proc) :
      Move cs w (.app (.proc (.send k i)))
        { w with
          c := c
          up := w.up ++ written w.c.u.proc (.proc (.send k i))
          sent := w.sent ++ written w.c.u.proc (.proc (.send k i)) }
  | read {j : Nat} {b : RIn} {c : Console} (hb : ∀ r, b ≠ .got (some r))
      (hs : w.c.step cs (.proc (.read j b)) = some c)
      (h : Proc.step cs w.c.u.proc (.read j b) = some c.u.proc) :
      Move cs w (.app (.proc (.read j b))) { w with c := c }
  | deliver {j : Nat} {t : Parcel} {rest : List Parcel} {c : Console}
      (hdown : w.down = t :: rest)
      (hs : w.c.step cs (.proc (.read j (.got (some t.bytes)))) = some c)
      (h : Proc.step cs w.c.u.proc (.read j (.got (some t.bytes)))
        = some c.u.proc) :
      Move cs w (.deliver j) { w with c := c, down := rest }
  | answer {t : Parcel} {rest : List Parcel} {report : List UInt8}
      (hup : w.up = t :: rest) (hans : isAnswer t.bytes report = true) :
      Move cs w (.answer report)
        { w with
          up := rest
          down := w.down ++ [⟨t.call, t.num, report⟩]
          answered := w.answered ++ [⟨t.call, t.num, report⟩] }
  | lose {t : Parcel} {rest : List Parcel} (hup : w.up = t :: rest) :
      Move cs w .lose { w with up := rest }
  | drop {i : Nat} (hi : i < w.down.length) :
      Move cs w (.drop i) { w with down := w.down.eraseIdx i }

theorem app_inv {cs : CharSign} {w w' : World} {a : ConAct}
    (h : step cs w (.app a) = some w') : Move cs w (.app a) w' := by
  simp only [step] at h
  split at h
  case isTrue => cases h
  case isFalse hrep =>
    obtain ⟨c, hc, rfl⟩ := Option.map_eq_some_iff.mp h
    -- but for `send`, nothing is written
    have hnone : written w.c.u.proc a = [] →
        Move cs w (.app a) { w with c := c } →
        Move cs w (.app a)
          { w with
            c := c
            up := w.up ++ written w.c.u.proc a
            sent := w.sent ++ written w.c.u.proc a } := by
      intro hnil hmove
      rwa [hnil, List.append_nil, List.append_nil]
    cases Console.step_inv hc with
    | start =>
        exact hnone rfl (.aside hc w.c.onStart_proc nofun)
    | clean | verboseLog | worker | handle | flag | clear | logcat =>
        exact hnone rfl (.aside hc rfl nofun)
    | line hheld =>
        rename_i n x
        refine hnone rfl (.aside hc ?_ nofun)
        cases x <;> rfl
    | file path ha =>
        rcases ha with rfl | ⟨rfl, -⟩ <;>
          exact hnone rfl (.aside hc rfl nofun)
    | native hw hst v stack => exact hnone rfl (.call hc rfl)
    | @proc b p hp =>
        cases b with
        | call param2 stack => cases hc
        | send k i => exact .send hc hp
        | read j b =>
            refine hnone rfl (.read ?_ hc hp)
            rintro r rfl
            exact hrep rfl

theorem step_inv {cs : CharSign} {w w' : World} {a : WAct}
    (h : step cs w a = some w') : Move cs w a w' := by
  cases a with
  | app a => exact app_inv h
  | deliver j =>
      simp only [step] at h
      split at h
      case h_2 => cases h
      case h_1 t rest hdown =>
        obtain ⟨c, hc, rfl⟩ := Option.map_eq_some_iff.mp h
        cases Console.step_inv hc with
        | proc hp => exact .deliver hdown hc hp
        | file path ha => rcases ha with ha | ⟨ha, -⟩ <;> cases ha
  | answer report =>
      simp only [step] at h
      split at h
      case h_2 => cases h
      case h_1 t rest hup =>
        split at h
        case isFalse => cases h
        case isTrue hans =>
          cases h
          exact .answer hup hans
  | lose =>
      simp only [step] at h
      split at h
      case h_2 => cases h
      case h_1 t rest hup =>
        cases h
        exact .lose hup
  | drop i =>
      simp only [step] at h
      split at h
      case isFalse => cases h
      case isTrue hi =>
        cases h
        exact .drop hi

/-- A run of the world is a run of the app, under any guard that says
nothing of the reports that come. -/
theorem reach_console {cs : CharSign} {w₀ w : World}
    {ok : World → WAct → Prop} {ok' : Console → ConAct → Prop}
    (h : Lts.Reach (step cs) ok w₀ w)
    (happ : ∀ w a, ok w (.app a) → ok' w.c a)
    (hread : ∀ c j r, ok' c (.proc (.read j (.got (some r))))) :
    Lts.Reach (Console.step cs) ok' w₀.c w.c := by
  refine h.invariant (I := fun w => Lts.Reach (Console.step cs) ok' w₀.c w.c)
    (Lts.Reach.refl _) ?_
  intro w a w' hr hok hs
  cases step_inv hs with
  | aside hc | call hc | send hc | read _ hc =>
      exact hr.tail (happ w _ hok) hc
  | deliver _ hc => exact hr.tail (hread ..) hc
  | answer | lose | drop => exact hr

end World

end BtOta
