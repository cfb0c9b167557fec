/-
What a failed connection attempt leaves behind: nothing.

A call of reconnect has up to three sockets open where it can still
fail, and three functions share closing them. It opens them one on top of
the other (`Grown`) and closes them in the opposite order, each once, so
whatever numbers it was given, and whatever was open before, the table
ends as it began (`CStep.layered`). The variables that another operation
reads are stored behind the last call that can fail (`Course`).

The failure may come at any call; from there the call closes and returns
by itself (`backs_home`).
-/
import BtOta.Proofs.Holdings

namespace BtOta

open Descriptors

-- ================================================================ vocabulary

/-- `ctrl`, `intr`, `csg`, `isg` and `connection_status`. -/
def Net.vars (net : Net) : Nat × Nat × Nat × Nat × Int :=
  (net.ctrl, net.intr, net.csg, net.isg, net.connectionStatus)

/-- Nothing has failed, and nothing has been stored: what is open so far
may have to be closed again. -/
def CPc.opens : CPc → Bool
  | .openCtl | .socket _ | .bind _ | .connect _ | .storeCtrl => true
  | _ => false

/-- On the way back from a failure, with at least one close to be made.
-/
def CPc.backs : CPc → Bool
  | .drop _ | .closeCsk | .closeCtl => true
  | _ => false

/-- What the call holds lies on top of what was open when it began, and
it has stored nothing, so closing what it holds restores everything. -/
structure Layered (net₀ : Net) (c : Nat) (net : Net) (cn : Connect) :
    Prop where
  vars : net.vars = net₀.vars
  grown : Grown net₀.fds (cn.holds c) net.fds

/-- Where a call that began in `net₀` stands, with what it was answered
so far: on its way in, on its way back, or among its stores. -/
inductive Course (net₀ : Net) (c : Nat) (is : List CIn) (net : Net)
    (cn : Connect) : Prop
  | opens (ok : .failed ∉ is) (pc : cn.pc.opens = true)
      (h : Layered net₀ c net cn)
  | backs (failed : .failed ∈ is)
      (pc : cn.pc.backs = true ∨ cn.pc = .returned 0)
      (h : Layered net₀ c net cn)
  | stores (ok : .failed ∉ is)
      (pc : cn.pc = .storeIntr ∨ cn.pc = .storeStatus
        ∨ cn.pc = .returned 0)

/-- One step of reconnect call `c`, as a system of its own. -/
def Connect.step (c : Nat) (s : Net × Connect) (i : CIn) :
    Option (Net × Connect) :=
  reconnect c s.1 s.2 i

variable {c : Nat} {net₀ net net' : Net} {cn cn' : Connect} {i : CIn}
  {is : List CIn}

-- ================================================================== one step

/-- What the call has opened comes on top, since its number was free. -/
theorem Layered.opened {n : Nat} {d : Desc} (hl : Layered net₀ c net cn)
    (free : net.fds n = none)
    (hholds : cn'.holds c = cn.holds c ++ [(n, d)]) :
    Layered net₀ c (net.opened n d) cn' where
  vars := hl.vars
  grown := by
    rw [hholds]
    exact hl.grown.snoc free

/-- What it closes was on top, so what is left is as it was before that
was opened. -/
theorem Layered.close {n : Nat} {d : Desc} (hl : Layered net₀ c net cn)
    (hholds : cn.holds c = cn'.holds c ++ [(n, d)]) :
    Layered net₀ c (net.close n) cn' where
  vars := hl.vars
  grown := by
    have hgrown := hl.grown
    rw [hholds] at hgrown
    exact hgrown.closed

/-- A step that opens and closes nothing, and leaves the variables alone.
-/
theorem Layered.same (hl : Layered net₀ c net cn)
    (hvars : net'.vars = net.vars) (hfds : net'.fds = net.fds)
    (hholds : cn'.holds c = cn.holds c) : Layered net₀ c net' cn' where
  vars := hvars.trans hl.vars
  grown := by
    rw [hholds, hfds]
    exact hl.grown

/-- A step that stores nothing keeps what the call holds on top. -/
theorem CStep.layered (h : CStep c net cn i net' cn')
    (hpc : cn.pc ≠ .storeCtrl ∧ cn.pc ≠ .storeIntr ∧ cn.pc ≠ .storeStatus)
    (hl : Layered net₀ c net cn) : Layered net₀ c net' cn' := by
  cases h with
  | openCtl pc free =>
      -- opened on top of what the call holds
      apply hl.opened free
      simp only [Connect.holds, pc]
      rfl
  | @socket n p pc free =>
      apply hl.opened free
      cases p with
      | ctrl =>
          simp only [Connect.holds, pc]
          rfl
      | intr =>
          simp only [Connect.holds, pc]
          rfl
  | noCtl pc | connectCtrl pc | connectIntr pc =>
      -- no descriptor moves
      refine hl.same rfl rfl ?_
      simp only [Connect.holds, pc]
  | @noSocket p pc | @bind p pc =>
      refine hl.same rfl rfl ?_
      cases p <;> simp only [Connect.holds, pc, CPc.refused]
  | @refuse p pc =>
      refine hl.same rfl rfl ?_
      rcases pc with pc | pc <;> cases p <;> simp only [Connect.holds, pc]
  | @drop p pc =>
      -- l2cap_connect closes the socket it opened last
      cases p with
      | ctrl =>
          apply hl.close (d := .channel c .ctrl)
          simp only [Connect.holds, pc]
          rfl
      | intr =>
          apply hl.close (d := .channel c .intr)
          simp only [Connect.holds, pc]
          rfl
  | closeCsk pc =>
      apply hl.close (d := .channel c .ctrl)
      simp only [Connect.holds, pc]
      rfl
  | closeCtl pc =>
      apply hl.close (d := .hidp c)
      simp only [Connect.holds, pc]
      rfl
  | storeCtrl pc => exact absurd pc hpc.1
  | storeIntr pc => exact absurd pc hpc.2.1
  | storeStatus pc => exact absurd pc hpc.2.2

/-- The first store. -/
theorem CStep.from_storeCtrl (h : CStep c net cn i net' cn')
    (hpc : cn.pc = .storeCtrl) : cn'.pc = .storeIntr := by
  -- the three stores are the success exit, which `hpc` leaves out
  cases h with
  | storeCtrl pc => rfl
  | refuse pc => rcases pc with pc | pc <;> rw [pc] at hpc <;> cases hpc
  | openCtl pc | noCtl pc | socket pc | noSocket pc | bind pc
  | connectCtrl pc | connectIntr pc | drop pc | closeCsk pc | closeCtl pc
  | storeIntr pc | storeStatus pc =>
      rw [pc] at hpc
      cases hpc

/-- A step of a call that nothing has failed yet: it fails and turns
back, or goes on towards the stores. -/
theorem CStep.from_opens (h : CStep c net cn i net' cn')
    (hpc : cn.pc.opens = true) :
    (i = .failed ∧ (cn'.pc.backs = true ∨ cn'.pc = .returned 0))
      ∨ (i ≠ .failed ∧ (cn'.pc.opens = true ∨ cn'.pc = .storeIntr)) := by
  cases h with
  | noCtl pc => exact Or.inl ⟨rfl, Or.inr rfl⟩
  | @noSocket p pc => exact Or.inl ⟨rfl, Or.inl (by cases p <;> rfl)⟩
  | refuse pc => exact Or.inl ⟨rfl, Or.inl rfl⟩
  | openCtl pc free => exact Or.inr ⟨by simp, Or.inl rfl⟩
  | socket pc free => exact Or.inr ⟨by simp, Or.inl rfl⟩
  | bind pc => exact Or.inr ⟨by simp, Or.inl rfl⟩
  | connectCtrl pc => exact Or.inr ⟨by simp, Or.inl rfl⟩
  | connectIntr pc => exact Or.inr ⟨by simp, Or.inl rfl⟩
  | storeCtrl pc => exact Or.inr ⟨by simp, Or.inr rfl⟩
  | drop pc | closeCsk pc | closeCtl pc | storeIntr pc | storeStatus pc =>
      rw [pc] at hpc
      cases hpc

/-- A step on the way back stays on the way back, and ends at the return.
-/
theorem CStep.from_backs (h : CStep c net cn i net' cn')
    (hpc : cn.pc.backs = true ∨ cn.pc = .returned 0) :
    cn'.pc.backs = true ∨ cn'.pc = .returned 0 := by
  cases h with
  | @drop p pc => exact Or.inl (by cases p <;> rfl)
  | closeCsk pc => exact Or.inl rfl
  | closeCtl pc => exact Or.inr rfl
  | refuse pc =>
      rcases pc with pc | pc <;> rw [pc] at hpc <;>
        rcases hpc with hpc | hpc <;> cases hpc
  | openCtl pc | noCtl pc | socket pc | noSocket pc | bind pc
  | connectCtrl pc | connectIntr pc | storeCtrl pc | storeIntr pc
  | storeStatus pc =>
      rw [pc] at hpc
      rcases hpc with hpc | hpc <;> cases hpc

/-- A step of a call that has begun to store: there is nothing left that
could fail. -/
theorem CStep.from_stores (h : CStep c net cn i net' cn')
    (hpc : cn.pc = .storeIntr ∨ cn.pc = .storeStatus
      ∨ cn.pc = .returned 0) :
    i ≠ .failed ∧ (cn'.pc = .storeStatus ∨ cn'.pc = .returned 0) := by
  cases h with
  | storeIntr pc => exact ⟨by simp, Or.inl rfl⟩
  | storeStatus pc => exact ⟨by simp, Or.inr rfl⟩
  | refuse pc =>
      rcases pc with pc | pc <;> rw [pc] at hpc <;>
        rcases hpc with hpc | hpc | hpc <;> cases hpc
  | openCtl pc | noCtl pc | socket pc | noSocket pc | bind pc
  | connectCtrl pc | connectIntr pc | drop pc | closeCsk pc | closeCtl pc
  | storeCtrl pc =>
      rw [pc] at hpc
      rcases hpc with hpc | hpc | hpc <;> cases hpc

-- ==================================================================== a call

theorem course_call (net : Net) (c : Nat) :
    Course net c [] net Connect.call :=
  .opens List.not_mem_nil rfl ⟨rfl, .nil⟩

/-- What a step of the call does to its course, whatever it is answered.
-/
theorem CStep.course (h : CStep c net cn i net' cn')
    (hi : Course net₀ c is net cn) :
    Course net₀ c (is ++ [i]) net' cn' := by
  have hmem : .failed ∈ is ++ [i] ↔ .failed ∈ is ∨ i = .failed := by
    simp [eq_comm]
  cases hi with
  | opens ok pc hl =>
      have hnever : cn.pc ≠ .storeIntr ∧ cn.pc ≠ .storeStatus := by
        constructor <;> intro heq <;> rw [heq] at pc <;> cases pc
      rcases h.from_opens pc with ⟨hfailed, hpc⟩ | ⟨hok, hpc⟩
      · refine .backs (hmem.mpr (Or.inr hfailed)) hpc
          (h.layered ⟨fun heq => ?_, hnever⟩ hl)
        rw [h.from_storeCtrl heq] at hpc
        rcases hpc with hpc | hpc <;> cases hpc
      · have hno : .failed ∉ is ++ [i] := by
          rw [hmem]
          exact not_or.mpr ⟨ok, hok⟩
        rcases hpc with hpc | hpc
        · refine .opens hno hpc (h.layered ⟨fun heq => ?_, hnever⟩ hl)
          rw [h.from_storeCtrl heq] at hpc
          cases hpc
        · exact .stores hno (Or.inl hpc)
  | backs failed pc hl =>
      refine .backs (hmem.mpr (Or.inl failed)) (h.from_backs pc)
        (h.layered ?_ hl)
      refine ⟨?_, ?_, ?_⟩ <;> intro heq <;> rw [heq] at pc <;>
        rcases pc with pc | pc <;> cases pc
  | stores ok pc =>
      obtain ⟨hok, hpc⟩ := h.from_stores pc
      refine .stores ?_ (Or.inr hpc)
      rw [hmem]
      exact not_or.mpr ⟨ok, hok⟩

/-- The course of a whole run of the call, by induction on its steps. -/
theorem course_of_run {s : Net × Connect}
    (h : Lts.Run (Connect.step c) Lts.free (net, Connect.call) is s) :
    Course net c is s.1 s.2 :=
  h.invariant (I := fun is s => Course net c is s.1 s.2) (course_call net c)
    fun _ _ _ _ hi _ hs => (reconnect_inv hs).course hi

/-- A failed call that has returned leaves everything as it was. -/
theorem Course.restored (h : Course net₀ c is net cn) (hf : .failed ∈ is)
    (hret : cn.returned = true) :
    net.vars = net₀.vars ∧ net.fds = net₀.fds := by
  cases h with
  | opens ok | stores ok => exact absurd hf ok
  | backs failed pc hl =>
      have hgrown := hl.grown
      rw [Connect.holds_of_returned hret] at hgrown
      exact ⟨hl.vars, hgrown.eq_of_nil⟩

/-- The closes that are left on the way back. -/
def CPc.left : CPc → Nat
  | .drop .intr => 3
  | .drop .ctrl | .closeCsk => 2
  | .closeCtl => 1
  | _ => 0

/-- On the way back a close can be made, and it brings the return
nearer. -/
theorem backs_tick (net : Net) (h : cn.pc.backs = true) :
    ∃ net' cn', reconnect c net cn .tick = some (net', cn')
      ∧ (cn'.pc.backs = true ∨ cn'.pc = .returned 0)
      ∧ cn'.pc.left < cn.pc.left := by
  cases hpc : cn.pc with
  | drop p =>
      refine ⟨net.close cn.sk, { cn with pc := .refused p },
        by simp [reconnect, hpc], ?_⟩
      cases p with
      | ctrl => exact ⟨Or.inl rfl, Nat.lt_add_one 1⟩
      | intr => exact ⟨Or.inl rfl, Nat.lt_add_one 2⟩
  | closeCsk =>
      exact ⟨net.close cn.csk, { cn with pc := .closeCtl },
        by simp [reconnect, hpc], Or.inl rfl, Nat.lt_add_one 1⟩
  | closeCtl =>
      exact ⟨net.close cn.ctl, { cn with pc := .returned 0 },
        by simp [reconnect, hpc], Or.inr rfl, Nat.lt_add_one 0⟩
  | _ =>
      rw [hpc] at h
      cases h

/-- From a failure the call comes to its return, and nothing from outside
is needed for it. -/
theorem backs_home (net : Net) (cn : Connect)
    (h : cn.pc.backs = true ∨ cn.pc = .returned 0) :
    ∃ ticks s, Lts.Run (Connect.step c) Lts.free (net, cn)
      (List.replicate ticks .tick) s ∧ s.2.returned = true := by
  induction hn : cn.pc.left using Nat.strongRecOn
    generalizing net cn with
  | ind n ih =>
      rcases h with h | h
      · obtain ⟨net', cn', hstep, hpc, hlt⟩ := backs_tick (c := c) net h
        obtain ⟨ticks, s, hrun, hret⟩ := ih _ (hn ▸ hlt) net' cn' hpc rfl
        exact ⟨ticks + 1, s, .cons trivial hstep hrun, hret⟩
      · exact ⟨0, (net, cn), .nil _, by simp [Connect.returned, h]⟩

-- =========================================================== in the library

namespace Library

variable {cs : CharSign} {l m : Library}

/-- Where the library is when call `c` alone has run on. -/
def withCall (l : Library) (c : Nat) (s : Net × Connect) : Library :=
  { l with net := s.1, connects := l.connects.set c s.2 }

/-- Behind `.connectToHost`. -/
def begun (l : Library) : Library :=
  { l with connects := l.connects ++ [Connect.call] }

theorem begun_eq :
    l.begun.withCall l.connects.length (l.net, Connect.call) = l.begun := by
  unfold withCall begun
  simp

/-- A step of the call in the library is a step of the call, and nothing
else of the library changes. -/
theorem step_reconnect (hc : l.connects[c]? = some cn) :
    Library.step cs l (.reconnect c i)
      = (Connect.step c (l.net, cn) i).map (l.withCall c) := by
  unfold Connect.step
  cases hstep : reconnect c l.net cn i with
  | none => simp [Library.step, hc, hstep]
  | some s => simp [Library.step, hc, hstep, withCall]

theorem withCall_call {s : Net × Connect} (hc : c < l.connects.length) :
    (l.withCall c s).connects[c]? = some s.2 :=
  List.getElem?_set_self hc

theorem withCall_withCall {s s' : Net × Connect} :
    (l.withCall c s).withCall c s' = l.withCall c s' := by
  unfold withCall
  rw [List.set_set]

/-- A run of the call alone is a run of the library. -/
theorem run_call {s s' : Net × Connect} (hc : c < l.connects.length)
    (h : Lts.Run (Connect.step c) Lts.free s is s') :
    Lts.Run (Library.step cs) Lts.free (l.withCall c s)
      (is.map (.reconnect c)) (l.withCall c s') := by
  induction h with
  | nil s => exact .nil _
  | @cons s s₁ s₂ i is hok hs _ ih =>
      refine .cons trivial ?_ ih
      rw [step_reconnect (withCall_call hc)]
      show (Connect.step c s i).map _ = _
      rw [hs]
      exact congrArg some withCall_withCall

/-- And there is no other: a run of the library in which only the call
moves is a run of the call. -/
theorem run_call_inv {s : Net × Connect} (hc : c < l.connects.length)
    (h : Lts.Run (Library.step cs) Lts.free (l.withCall c s)
      (is.map (.reconnect c)) m) :
    ∃ s', Lts.Run (Connect.step c) Lts.free s is s'
      ∧ m = l.withCall c s' := by
  induction is generalizing s with
  | nil =>
      cases h
      exact ⟨s, .nil s, rfl⟩
  | cons i is ih =>
      cases h with
      | cons _ hs hrest =>
          rw [step_reconnect (withCall_call hc)] at hs
          obtain ⟨s₁, hs₁, rfl⟩ := Option.map_eq_some_iff.mp hs
          rw [withCall_withCall] at hrest
          obtain ⟨s', hrun, rfl⟩ := ih hrest
          exact ⟨s', .cons trivial hs₁ hrun, rfl⟩

/-- Call `c` of reconnect has returned. -/
def callReturned (l : Library) (c : Nat) : Bool :=
  (l.connects[c]?.map Connect.returned).getD false

@[simp] theorem withCall_net (s : Net × Connect) :
    (l.withCall c s).net = s.1 := rfl

theorem callReturned_withCall (hc : c < l.connects.length)
    (s : Net × Connect) :
    (l.withCall c s).callReturned c = s.2.returned := by
  unfold callReturned
  rw [withCall_call hc]
  rfl

/-- A call of reconnect that has failed, whatever the state it began in
and wherever it failed: once it has returned, the variables and the open
descriptors are what they were, and it does return. -/
theorem failed_reconnect_leaves_no_trace (cs : CharSign) (l m : Library)
    (is : List CIn)
    (h : Lts.Run (Library.step cs) Lts.free l
      (.connectToHost :: is.map (.reconnect l.connects.length)) m)
    (hf : .failed ∈ is) :
    (m.callReturned l.connects.length = true →
      m.net.vars = l.net.vars ∧ m.net.fds = l.net.fds)
    ∧ ∃ ticks m', Lts.Run (Library.step cs) Lts.free m
        (List.replicate ticks (.reconnect l.connects.length .tick)) m'
      ∧ m'.callReturned l.connects.length = true
      ∧ m'.net.vars = l.net.vars ∧ m'.net.fds = l.net.fds := by
  cases h with
  | @cons _ l₁ _ _ _ _ hs hrun =>
      cases hs
      have hc : l.connects.length < l.begun.connects.length := by
        simp [begun]
      change Lts.Run _ _ l.begun _ _ at hrun
      rw [← begun_eq] at hrun
      obtain ⟨s, hcall, rfl⟩ := run_call_inv hc hrun
      have hcourse := course_of_run hcall
      refine ⟨fun hret => ?_, ?_⟩
      · rw [callReturned_withCall hc] at hret
        exact hcourse.restored hf hret
      · have hback : s.2.pc.backs = true ∨ s.2.pc = .returned 0 := by
          cases hcourse with
          | opens ok | stores ok => exact absurd hf ok
          | backs failed pc hl => exact pc
        obtain ⟨ticks, s', hhome, hret⟩ :=
          backs_home (c := l.connects.length) s.1 s.2 hback
        have hwhole : Course l.net l.connects.length
            (is ++ List.replicate ticks .tick) s'.1 s'.2 :=
          course_of_run (hcall.append hhome)
        refine ⟨ticks, _, ?_, (callReturned_withCall hc s').trans hret,
          hwhole.restored (List.mem_append_left _ hf) hret⟩
        rw [← List.map_replicate]
        exact run_call hc hhome

/-- A library with a connection established. -/
def connectedOnce : Library :=
  (Lts.run (step .unsigned) Lts.free loaded bothConnected).getD loaded

/-- The next call, refused where it connects the interrupt channel. -/
def refusedAtIntr : List CIn :=
  [.number 6, .number 7, .ok, .ok, .number 8, .ok, .failed, .tick, .tick,
    .tick]

theorem refused_call_leaves_no_trace :
    ((Lts.run (Library.step .unsigned) Lts.free connectedOnce
        (.connectToHost :: refusedAtIntr.map (.reconnect 1))).getD
        connectedOnce).net.vars = connectedOnce.net.vars
      ∧ ((Lts.run (Library.step .unsigned) Lts.free connectedOnce
        (.connectToHost :: refusedAtIntr.map (.reconnect 1))).getD
        connectedOnce).net.fds = connectedOnce.net.fds :=
  (failed_reconnect_leaves_no_trace .unsigned connectedOnce _ refusedAtIntr
    (Lts.Run.of_isSome (by decide)) (by decide)).1 (by decide)

end Library

end BtOta
