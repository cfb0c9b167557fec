/-
The process the library is loaded into: every ota_update call made in
it and every hidRead thread those calls have created, over the one set
of static variables.

Nothing here keeps the calls apart. A call may begin at any time, a
reader runs on when the call that created it has returned, and nobody
joins it. Guards on the actions pick out processes whose calls follow
one another.

A process that makes one call is a `Session` (`reach_proc`). Two calls
at once share more variables than a sender shares with a reader, and
their steps are taken as coarsely as a session's: hidRead fills
`rsp_cmd` in one step and stores and tests `OTAStatus` in another, which
two of them would really do byte by byte and with each other's values in
between. So where calls or readers overlap, the properties proved here
are about where each of them stands, about the descriptors and the log,
and not about which response is judged; what depends on that is proved
of sessions, or of processes whose sessions are joined.

# Returning

A call counts as returned once quit_serv's line is logged. The closes
behind that line are quit_serv's own and touch nothing the process has:
`Library`, which has the descriptors, takes them one by one from there.
-/
import BtOta.Proofs.Steps

namespace BtOta

/-- The call has come back to its caller, which here is once quit_serv's
line is logged. -/
def Sender.returned (l : Sender) : Bool :=
  match l.pc with
  | .returned _ => true
  | _ => false

/-- The process. Calls and readers are never removed: one that is over
keeps its place, so that its number stays its own. -/
structure Proc where
  g : Shared
  /-- the calls made so far, oldest first -/
  calls : List Sender
  /-- the readers created so far, oldest first, each with its call -/
  rdrs : List (Nat × RPc)
  trace : List Event

/-- Whose step it is: that of whoever calls ota_update, of one of the
calls, or of one of the readers. -/
inductive PAct
  /-- ota_update is called, on a stack that holds what it held -/
  | call (param2 : Option String) (stack : Nat → UInt8)
  /-- a step of call `k` -/
  | send (k : Nat) (i : SIn)
  /-- a step of reader `j` -/
  | read (j : Nat) (i : RIn)

namespace Proc

/-- The library has been loaded, and nothing has been called yet. -/
def loaded : Proc := ⟨Shared.loaded, [], [], []⟩

/-- pthread_create's success makes one more reader, and the reader
belongs to the call that made it. -/
def spawn (rdrs : List (Nat × RPc)) (k : Nat) : SIn → List (Nat × RPc)
  | .created 0 => rdrs ++ [(k, .test)]
  | _ => rdrs

theorem spawn_of_ne {rdrs : List (Nat × RPc)} {k : Nat} {i : SIn}
    (h : i ≠ .created 0) : spawn rdrs k i = rdrs := by
  unfold spawn
  split
  · exact absurd rfl h
  · rfl

/-- One step of the process: one thread moves, over the variables as the
others have left them. -/
def step (cs : CharSign) (p : Proc) : PAct → Option Proc
  | .call param2 stack =>
      some { p with calls := p.calls ++ [Sender.call param2 stack] }
  | .send k i =>
      match p.calls[k]? with
      | some snd =>
          (otaUpdate cs p.g snd i).map fun (g, snd', es) =>
            { g := g, calls := p.calls.set k snd'
              rdrs := spawn p.rdrs k i, trace := p.trace ++ es }
      | none => none
  | .read j i =>
      match p.rdrs[j]? with
      | some (k, pc) =>
          (hidRead cs p.g pc i).map fun (g, pc', es) =>
            { p with
              g := g, rdrs := p.rdrs.set j (k, pc'), trace := p.trace ++ es }
      | none => none

/-- A step of the process is a new call or a move of one of its threads,
and the rest of the process stays as it is. -/
inductive Move (cs : CharSign) (p : Proc) : PAct → Proc → Prop
  | call (param2 : Option String) (stack : Nat → UInt8) :
      Move cs p (.call param2 stack)
        { p with calls := p.calls ++ [Sender.call param2 stack] }
  | send {k : Nat} {i : SIn} {g : Shared} {snd snd' : Sender}
      {es : List Event} (hk : p.calls[k]? = some snd)
      (h : SStep cs p.g snd i g snd' es) :
      Move cs p (.send k i)
        { g := g, calls := p.calls.set k snd', rdrs := spawn p.rdrs k i
          trace := p.trace ++ es }
  | read {j k : Nat} {i : RIn} {g : Shared} {pc pc' : RPc}
      {es : List Event} (hj : p.rdrs[j]? = some (k, pc))
      (h : RStep cs p.g pc i g pc' es) :
      Move cs p (.read j i)
        { p with
          g := g, rdrs := p.rdrs.set j (k, pc'), trace := p.trace ++ es }

theorem step_inv {cs : CharSign} {p p' : Proc} {a : PAct}
    (h : step cs p a = some p') : Move cs p a p' := by
  cases a with
  | call param2 stack =>
      cases h
      exact .call param2 stack
  | send k i =>
      simp only [step] at h
      split at h
      case h_2 => cases h
      case h_1 snd hk =>
        obtain ⟨⟨g, snd', es⟩, hs, rfl⟩ := Option.map_eq_some_iff.mp h
        exact .send hk (otaUpdate_inv hs)
  | read j i =>
      simp only [step] at h
      split at h
      case h_2 => cases h
      case h_1 k pc hj =>
        obtain ⟨⟨g, pc', es⟩, hs, rfl⟩ := Option.map_eq_some_iff.mp h
        exact .read hj (hidRead_inv hs)

end Proc

-- ========================================================== a single session

/-- A session as a process that has made one call and, where it has a
reader, created that. -/
def Session.proc (s : Session) : Proc where
  g := s.g
  calls := [s.snd]
  rdrs := s.rdr.toList.map fun pc => (0, pc)
  trace := s.trace

/-- The reader has not been created yet: ota_update has not come to
pthread_create. -/
def SPc.early : SPc → Bool
  | .init | .load | .create => true
  | _ => false

/-- Every run of a session is a run of a process that makes one call. -/
theorem Session.reach_proc {cs : CharSign} {g₀ : Shared}
    {param2 : Option String} {stack : Nat → UInt8} {s : Session}
    (h : Lts.Reach (Session.step cs) Lts.free
      (Session.call g₀ param2 stack) s) :
    Lts.Reach (Proc.step cs) Lts.free (Session.call g₀ param2 stack).proc
      s.proc := by
  -- carried along: before pthread_create there is no reader, so a second one
  -- is never made
  suffices hboth : Lts.Reach (Proc.step cs) Lts.free
      (Session.call g₀ param2 stack).proc s.proc
      ∧ (s.snd.pc.early = true → s.rdr = none) from hboth.1
  refine h.invariant (I := fun s => Lts.Reach (Proc.step cs) Lts.free
    (Session.call g₀ param2 stack).proc s.proc
      ∧ (s.snd.pc.early = true → s.rdr = none))
    ⟨Lts.Reach.refl _, fun _ => rfl⟩ ?_
  intro s a s' hinv _ hs
  obtain ⟨hr, hearly⟩ := hinv
  cases a with
  | send i =>
      obtain ⟨⟨g, snd, es⟩, hsend, rfl⟩ := Option.map_eq_some_iff.mp hs
      have hmove := otaUpdate_inv hsend
      refine ⟨hr.tail (a := .send 0 i) trivial ?_, ?_⟩
      · have hrdrs : Proc.spawn s.proc.rdrs 0 i
            = (Session.spawn s.rdr i).toList.map fun pc => (0, pc) := by
          cases hmove with
          | created pc ret =>
              -- the only step that can add a reader, on both sides alike
              have hnone : s.rdr = none := hearly (by rw [pc]; rfl)
              have hnil : s.proc.rdrs = [] := by
                rw [Session.proc, hnone]
                rfl
              by_cases hret : ret = 0
              · subst hret
                rw [hnil]
                rfl
              · have hne : SIn.created ret ≠ .created 0 := fun heq =>
                  hret (SIn.created.inj heq)
                rw [Proc.spawn_of_ne hne, Session.spawn_of_ne hne]
                rfl
          | _ => rfl
        simp only [Proc.step, Session.proc, List.getElem?_cons_zero] at hrdrs ⊢
        rw [hsend, Option.map_some, hrdrs]
        rfl
      · intro hpc
        cases hmove with
        | init pc | opened pc =>
            exact hearly (by rw [pc]; rfl)
        | _ => cases hpc
  | read i =>
      -- the session's one reader is reader 0 of call 0
      simp only [Session.step] at hs
      split at hs
      case h_2 => cases hs
      case h_1 pc hrdr =>
        obtain ⟨⟨g, pc', es⟩, hread, rfl⟩ := Option.map_eq_some_iff.mp hs
        refine ⟨hr.tail (a := .read 0 i) trivial ?_, ?_⟩
        · simp [Proc.step, Session.proc, hrdr, hread]
        · intro hpc
          cases (hearly hpc).symm.trans hrdr

end BtOta
