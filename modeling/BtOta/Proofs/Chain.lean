/-
A process whose sessions follow one another is a chain of sessions.

`Proc` lets every call of ota_update and every reader move at any time.
Under `joined`, where a session sets `flagRead` only once the earlier
calls have returned and their readers have ended, nothing overlaps: the
process goes through one session after the other, each an interleaving
of one sender with one reader, each begun with the static variables as
the one before left them, and what the process has done is what the
sessions have done, in their order (`reach_chain`). So what is proved of
a session, from whatever it finds in the static variables, holds of
every session of such a process (`Chain.forall`).
-/
import BtOta.Proofs.Readers

namespace BtOta

variable {cs : CharSign} {g g' : Shared} {es : List Event} {i : SIn}
  {s s' : Session} {ss : List Session} {p p' : Proc}

-- ================================================================= sessions

/-- Both threads are through, or the reader was never created: nothing of
the session can move any more. -/
def Session.through (s : Session) : Bool :=
  s.snd.returned && s.rdr.all (· == .ended)

theorem RStep.not_ended {pc pc' : RPc} {b : RIn}
    (h : RStep cs g pc b g' pc' es) : pc ≠ .ended := by
  rintro rfl
  cases h with
  | enter hpc | leave hpc | readFail hpc | report hpc | stray hpc
  | decide hpc | ignore hpc | store hpc | failFlag hpc | failLog hpc
  | failStop hpc => cases hpc

/-- A session that is through does not move, so a step of the process is
not its step. -/
theorem Session.not_through {a : Act} (h : Session.step cs s a = some s') :
    s.through = false := by
  cases Session.step_inv h with
  | send hm => rw [through, hm.not_returned, Bool.false_and]
  | read hrdr hm =>
      rw [through, hrdr, Option.all_some, beq_false_of_ne hm.not_ended,
        Bool.and_false]

/-- Sessions in turn, from the static variables of a library just loaded
to those the last session leaves. -/
inductive Chain (cs : CharSign) : List Session → Shared → Prop
  | nil : Chain cs [] Shared.loaded
  | snoc {ss : List Session} {g : Shared} {param2 : Option String}
      {stack : Nat → UInt8} {s : Session} (h : Chain cs ss g)
      (hover : ∀ s ∈ ss, s.through = true)
      (hs : Lts.Reach (Session.step cs) Lts.free
        (Session.call g param2 stack) s) :
      Chain cs (ss ++ [s]) s.g

/-- What holds of every session by itself holds of every session of a
chain, whatever the ones before it have left. -/
theorem Chain.forall {P : Session → Prop} (h : Chain cs ss g)
    (hP : ∀ (g₀ : Shared) (param2 : Option String) (stack : Nat → UInt8)
      (s : Session),
      Lts.Reach (Session.step cs) Lts.free (Session.call g₀ param2 stack) s →
      P s) : ∀ s ∈ ss, P s := by
  induction h with
  | nil =>
      intro s hmem
      cases hmem
  | snoc h hover hs ih =>
      intro s hmem
      rcases List.mem_append.mp hmem with hmem | hmem
      · exact ih s hmem
      · rw [List.mem_singleton.mp hmem]
        exact hP _ _ _ _ hs

/-- The reader of session `k`, as the process counts it. -/
def Session.reader (k : Nat) (s : Session) : List (Nat × RPc) :=
  s.rdr.toList.map fun pc => (k, pc)

/-- The readers the sessions have created, in the order in which the
process counts them. -/
def readersOf (ss : List Session) : List (Nat × RPc) :=
  (ss.mapIdx Session.reader).flatten

theorem readersOf_snoc (ss : List Session) (s : Session) :
    readersOf (ss ++ [s]) = readersOf ss ++ s.reader ss.length := by
  simp [readersOf, List.mapIdx_append]

/-- The readers of sessions that are through have ended. -/
theorem ended_of_mem_readersOf {r : Nat × RPc}
    (hover : ∀ s ∈ ss, s.through = true) (hr : r ∈ readersOf ss) :
    r.2 = .ended := by
  obtain ⟨rs, hrs, hr⟩ := List.mem_flatten.mp hr
  obtain ⟨k, hk, rfl⟩ := List.mem_mapIdx.mp hrs
  have hthrough := hover _ (List.getElem_mem hk)
  obtain ⟨pc, hpc, rfl⟩ := List.mem_map.mp hr
  rw [Session.through, Bool.and_eq_true, Option.mem_toList.mp hpc] at hthrough
  simpa using hthrough.2

/-- Until pthread_create the session has no reader, so its steps are the
sender's alone. -/
theorem Session.rdr_of_early {param2 : Option String}
    {stack : Nat → UInt8}
    (h : Lts.Reach (Session.step cs) Lts.free
      (Session.call g param2 stack) s) (hpc : s.snd.pc.early = true) :
    s.rdr = none := by
  refine h.invariant (I := fun s => s.snd.pc.early = true → s.rdr = none)
    (fun _ => rfl) ?_ hpc
  intro s a s' hi _ hs hpc
  cases Session.step_inv hs with
  | send hm =>
      cases hm with
      | init pc | opened pc => exact hi (by rw [pc]; rfl)
      | openFail | openOver | created | next | newStage | assemble | crash
      | retry | giveUp | wrote | writeFail | poll | timeout | nextHit
      | nextMiss | errHit | errMiss | completeHit | completeMiss | flag
      | verdict | stop | quitThread | quitServ => cases hpc
  | read hrdr hm => cases (hi hpc).symm.trans hrdr

-- ============================================================== the process

/-- A call that has been made and has not begun: there is one at most,
and the calls before it have returned. -/
def Pending (ss : List Session) (snds : List Sender) : Prop :=
  snds = [] ∨ ∃ param2 stack, snds = [Sender.call param2 stack]
    ∧ ∀ s ∈ ss, s.snd.returned = true

/-- The process has gone through the sessions: its variables, its log,
its calls and its readers are theirs, put together. -/
structure GoneThrough (cs : CharSign) (ss : List Session) (p : Proc) :
    Prop where
  chain : Chain cs ss p.g
  trace : p.trace = (ss.map Session.trace).flatten
  calls : ∃ snds, p.calls = ss.map Session.snd ++ snds ∧ Pending ss snds
  rdrs : p.rdrs = readersOf ss

/-- What a step of the process is to the sessions it has gone through. -/
inductive Turn (cs : CharSign) (p : Proc) (ss : List Session) :
    PAct → List Session → Prop
  /-- a call is made, and its session has yet to begin -/
  | call (param2 : Option String) (stack : Nat → UInt8) :
      Turn cs p ss (.call param2 stack) ss
  /-- the first step of one more session -/
  | begin {param2 : Option String} {stack : Nat → UInt8} {s : Session}
      (h : Session.step cs (Session.call p.g param2 stack) (.send .tick)
        = some s) :
      Turn cs p ss (.send ss.length .tick) (ss ++ [s])
  /-- a step of the last one's sender -/
  | send {init : List Session} {s s' : Session} {i : SIn}
      (hss : ss = init ++ [s]) (h : Session.step cs s (.send i) = some s') :
      Turn cs p ss (.send init.length i) (init ++ [s'])
  /-- a step of its reader -/
  | read {init : List Session} {s s' : Session} {j : Nat} {pc : RPc}
      {b : RIn} (hss : ss = init ++ [s])
      (hj : p.rdrs[j]? = some (init.length, pc))
      (h : Session.step cs s (.read b) = some s') :
      Turn cs p ss (.read j b) (init ++ [s'])

/-- The first sessions stay as they are once they are through, so what is
known of them is known for good. -/
theorem Turn.take {a : PAct} {ss' : List Session} {n : Nat}
    (h : Turn cs p ss a ss') (hle : n ≤ ss.length)
    (hover : ∀ s ∈ ss.take n, s.through = true) :
    ss'.take n = ss.take n ∧ ss.length ≤ ss'.length := by
  have hlast : ∀ {init : List Session} {s s' : Session} {b : Act},
      ss = init ++ [s] → Session.step cs s b = some s' →
      (init ++ [s']).take n = ss.take n := by
    intro init s s' b hss hs
    subst hss
    have hn : n ≤ init.length := by
      by_contra hgt
      rw [List.take_of_length_le (by simp; omega)] at hover
      have hover := hover s (List.mem_append_right _ (List.mem_singleton_self s))
      cases hover.symm.trans (Session.not_through hs)
    rw [List.take_append_of_le_length hn, List.take_append_of_le_length hn]
  cases h with
  | call param2 stack => exact ⟨rfl, Nat.le_refl _⟩
  | begin hs => exact ⟨List.take_append_of_le_length hle, by simp⟩
  | send hss hs => exact ⟨hlast hss hs, by simp [hss]⟩
  | read hss hj hs => exact ⟨hlast hss hs, by simp [hss]⟩

/-- A new call waits for its turn: it is no session before its first
step. -/
theorem GoneThrough.call (hi : GoneThrough cs ss p)
    (hok : ∀ l ∈ p.calls, l.returned = true) (param2 : Option String)
    (stack : Nat → UInt8) :
    GoneThrough cs ss
      { p with calls := p.calls ++ [Sender.call param2 stack] } := by
  obtain ⟨snds, hcalls, hpending⟩ := hi.calls
  refine ⟨hi.chain, hi.trace, ⟨[Sender.call param2 stack], ?_, ?_⟩, hi.rdrs⟩
  · rcases hpending with rfl | ⟨q, st, rfl, -⟩
    · show p.calls ++ _ = _
      rw [hcalls, List.append_nil]
    · have hret := hok (Sender.call q st) (by rw [hcalls]; simp)
      cases hret
  · refine Or.inr ⟨param2, stack, rfl, fun s hs => hok s.snd ?_⟩
    rw [hcalls]
    exact List.mem_append_left _ (List.mem_map_of_mem hs)

/-- Where the calls have returned and the readers have ended, the
sessions are through. -/
theorem GoneThrough.through (hi : GoneThrough cs ss p)
    (hret : ∀ s ∈ ss, s.snd.returned = true)
    (hjoin : ∀ r ∈ p.rdrs, r.1 < ss.length → r.2 = .ended) :
    ∀ s ∈ ss, s.through = true := by
  intro s hs
  rw [Session.through, hret s hs, Bool.true_and]
  cases hrdr : s.rdr with
  | none => rfl
  | some pc =>
      obtain ⟨n, hn, rfl⟩ := List.getElem_of_mem hs
      have hmem : (n, pc) ∈ p.rdrs := by
        rw [hi.rdrs]
        refine List.mem_flatten.mpr ⟨ss[n].reader n, ?_, ?_⟩
        · exact List.mem_mapIdx.mpr ⟨n, hn, rfl⟩
        · rw [Session.reader, hrdr]
          exact List.mem_singleton_self _
      have hend := hjoin _ hmem hn
      subst hend
      rfl

/-- The call whose turn it is begins, and is a session of its own. -/
theorem GoneThrough.begin {k : Nat} {param2 : Option String}
    {stack : Nat → UInt8} {snd' : Sender} (hi : GoneThrough cs ss p)
    (hcalls : p.calls = ss.map Session.snd ++ [Sender.call param2 stack])
    (hret : ∀ s ∈ ss, s.snd.returned = true)
    (hjoin : ∀ r ∈ p.rdrs, r.1 < ss.length → r.2 = .ended)
    (hk : k = ss.length)
    (h : SStep cs p.g (Sender.call param2 stack) i g' snd' es) :
    ∃ ss', Turn cs p ss (.send k i) ss' ∧ GoneThrough cs ss'
      { g := g', calls := p.calls.set k snd', rdrs := Proc.spawn p.rdrs k i
        trace := p.trace ++ es } := by
  have hover := hi.through hret hjoin
  cases h with
  | init pc =>
      have hs : Session.step cs (Session.call p.g param2 stack) (.send .tick)
          = some { g := p.g.initVars param2
                   snd := { Sender.call param2 stack with pc := .load }
                   rdr := none
                   trace := (p.g.initVars param2).verbose .otaUpdateArgs } :=
        rfl
      refine ⟨ss ++ [_], hk ▸ .begin hs, .snoc hi.chain hover
        ((Lts.Reach.refl _).tail trivial hs), ?_, ⟨[], ?_, Or.inl rfl⟩, ?_⟩
      · show p.trace ++ _ = _
        rw [hi.trace]
        simp [Sender.call]
      · show p.calls.set k _ = _
        rw [hcalls, hk]
        simp [Sender.call]
      · rw [readersOf_snoc]
        show p.rdrs = _
        rw [hi.rdrs]
        simp [Session.reader]
  | openFail pc | opened pc | openOver pc | created pc | next pc
  | newStage pc | assemble pc | crash pc | retry pc | giveUp pc | wrote pc
  | writeFail pc | poll pc | timeout pc | nextHit pc | nextMiss pc
  | errHit pc | errMiss pc | completeHit pc | completeMiss pc | flag pc
  | verdict pc | stop pc | quitThread pc | quitServ pc => cases pc

/-- The last session moves on, and the others stay as they are: the one
step a chain knows besides growing. -/
theorem Chain.moved {a : Act} (h : Chain cs (ss ++ [s]) g)
    (hs : Session.step cs s a = some s') : Chain cs (ss ++ [s']) s'.g := by
  generalize hsnoc : ss ++ [s] = ss₁ at h
  cases h with
  | nil => simp at hsnoc
  | snoc h hover hreach =>
      obtain ⟨rfl, hlast⟩ := List.append_inj' hsnoc rfl
      cases hlast
      exact .snoc h hover (hreach.tail trivial hs)

/-- Of a chain the sessions before the last are through, and the last
one is where a session can be. -/
theorem Chain.last_inv (h : Chain cs (ss ++ [s]) g) :
    (∀ s ∈ ss, s.through = true) ∧ g = s.g
      ∧ (s.snd.pc.early = true → s.rdr = none) := by
  generalize hsnoc : ss ++ [s] = ss₁ at h
  cases h with
  | nil => simp at hsnoc
  | snoc h hover hreach =>
      obtain ⟨rfl, hlast⟩ := List.append_inj' hsnoc rfl
      cases hlast
      exact ⟨hover, rfl, Session.rdr_of_early hreach⟩

theorem returned_of_through (h : s.through = true) :
    s.snd.returned = true := by
  rw [Session.through, Bool.and_eq_true] at h
  exact h.1

/-- A step of the sender whose session it is. The others have returned,
so it can be no other's. -/
theorem GoneThrough.send {k : Nat} {snd snd' : Sender}
    (hi : GoneThrough cs (ss ++ [s]) p)
    (hcalls : p.calls = (ss ++ [s]).map Session.snd)
    (hk : p.calls[k]? = some snd)
    (h : SStep cs p.g snd i g' snd' es) :
    ∃ ss', Turn cs p (ss ++ [s]) (.send k i) ss' ∧ GoneThrough cs ss'
      { g := g', calls := p.calls.set k snd', rdrs := Proc.spawn p.rdrs k i
        trace := p.trace ++ es } := by
  obtain ⟨hover, hg, hearly⟩ := hi.chain.last_inv
  rw [hcalls, List.map_append, List.map_singleton] at hk
  rcases Threads.snoc_inv hk with hold | ⟨rfl, rfl⟩
  · -- the earlier calls have returned
    obtain ⟨t, ht, rfl⟩ := List.mem_map.mp (List.mem_of_getElem? hold)
    have hret := returned_of_through (hover t ht)
    cases hret.symm.trans h.not_returned
  · have hs : Session.step cs s (.send i)
        = some { g := g', snd := snd', rdr := Session.spawn s.rdr i
                 trace := s.trace ++ es } := by
      rw [hg] at h
      simp only [Session.step, h.step, Option.map_some]
    have hlen : (ss.map Session.snd).length = ss.length := List.length_map _
    refine ⟨ss ++ [_], hlen ▸ .send rfl hs, hi.chain.moved hs, ?_,
      ⟨[], ?_, Or.inl rfl⟩, ?_⟩
    · show p.trace ++ es = _
      rw [hi.trace]
      simp
    · show p.calls.set _ snd' = _
      rw [hcalls]
      simp
    · show Proc.spawn p.rdrs _ i = _
      rw [hi.rdrs, readersOf_snoc, readersOf_snoc, List.length_map]
      cases h with
      | created pc ret =>
          have hnone : s.rdr = none := hearly (by rw [pc]; rfl)
          by_cases hret : ret = 0
          · subst hret
            simp [Proc.spawn, Session.spawn, Session.reader, hnone]
          · have hne : SIn.created ret ≠ .created 0 := fun heq =>
              hret (SIn.created.inj heq)
            rw [Proc.spawn_of_ne hne, Session.spawn_of_ne hne]
            rfl
      | init | openFail | opened | openOver | next | newStage | assemble
      | crash | retry | giveUp | wrote | writeFail | poll | timeout
      | nextHit | nextMiss | errHit | errMiss | completeHit | completeMiss
      | flag | verdict | stop | quitThread | quitServ => rfl

/-- A step of the reader whose session it is. The others' have ended, so
it can be no other's. -/
theorem GoneThrough.read {j k : Nat} {pc pc' : RPc} {b : RIn}
    (hi : GoneThrough cs (ss ++ [s]) p) (hj : p.rdrs[j]? = some (k, pc))
    (h : RStep cs p.g pc b g' pc' es) :
    ∃ ss', Turn cs p (ss ++ [s]) (.read j b) ss' ∧ GoneThrough cs ss'
      { p with
        g := g', rdrs := p.rdrs.set j (k, pc'), trace := p.trace ++ es } := by
  obtain ⟨hover, hg, -⟩ := hi.chain.last_inv
  have hrdrs := hi.rdrs
  rw [readersOf_snoc] at hrdrs
  have hgoes := h.not_ended
  cases hrdr : s.rdr with
  | none =>
      -- the last session has no reader yet, and those before it are over
      rw [Session.reader, hrdr, Option.toList_none, List.map_nil,
        List.append_nil] at hrdrs
      rw [hrdrs] at hj
      exact absurd (ended_of_mem_readersOf hover (List.mem_of_getElem? hj))
        hgoes
  | some pc₁ =>
      -- a reader that still moves can only be the last session's
      rw [Session.reader, hrdr, Option.toList_some, List.map_singleton]
        at hrdrs
      have hat := hj
      rw [hrdrs] at hj
      rcases Threads.snoc_inv hj with hold | ⟨rfl, heq⟩
      · exact absurd
          (ended_of_mem_readersOf hover (List.mem_of_getElem? hold)) hgoes
      · cases heq
        have hs : Session.step cs s (.read b)
            = some { s with
              g := g', rdr := some pc', trace := s.trace ++ es } := by
          rw [hg] at h
          simp only [Session.step, hrdr, h.step, Option.map_some]
        obtain ⟨snds, hcalls, hpending⟩ := hi.calls
        refine ⟨ss ++ [_], .read rfl hat hs, hi.chain.moved hs, ?_,
          ⟨snds, ?_, ?_⟩, ?_⟩
        · show p.trace ++ es = _
          rw [hi.trace]
          simp
        · show p.calls = _
          rw [hcalls]
          simp
        · refine hpending.imp id ?_
          rintro ⟨param2, stack, hsnds, hret⟩
          refine ⟨param2, stack, hsnds, fun t ht => ?_⟩
          rcases List.mem_append.mp ht with ht | ht
          · exact hret t (List.mem_append_left _ ht)
          · rw [List.mem_singleton.mp ht]
            exact hret s (List.mem_append_right _ (List.mem_singleton_self s))
        · show p.rdrs.set _ _ = _
          rw [hrdrs, readersOf_snoc]
          simp [Session.reader]

theorem GoneThrough.step {a : PAct} (hi : GoneThrough cs ss p)
    (hok : Proc.joined p a) (hs : Proc.step cs p a = some p') :
    ∃ ss', Turn cs p ss a ss' ∧ GoneThrough cs ss' p' := by
  cases Proc.step_inv hs with
  | call param2 stack =>
      exact ⟨ss, .call param2 stack, hi.call hok.1 param2 stack⟩
  | @send k i g' snd snd' es hk h =>
      obtain ⟨snds, hcalls, hnil | ⟨param2, stack, hsnds, hret⟩⟩ := hi.calls
      · rw [hnil, List.append_nil] at hcalls
        rcases List.eq_nil_or_concat' ss with rfl | ⟨init, last, rfl⟩
        · rw [hcalls] at hk
          cases hk
        · exact GoneThrough.send hi hcalls hk h
      · rw [hsnds] at hcalls
        rw [hcalls] at hk
        rcases Threads.snoc_inv hk with hold | ⟨hlen, rfl⟩
        · obtain ⟨t, ht, rfl⟩ := List.mem_map.mp (List.mem_of_getElem? hold)
          cases (hret t ht).symm.trans h.not_returned
        · rw [List.length_map] at hlen
          refine hi.begin hcalls hret ?_ hlen h
          intro r hr hlt
          refine hok.2 k ?_ r hr (hlen ▸ hlt)
          have hpc : (Sender.call param2 stack).pc = .init := rfl
          cases h with
          | init pc =>
              simp [Proc.setsFlag, hcalls, hlen, hpc]
          | openFail pc | opened pc | openOver pc | created pc | next pc
          | newStage pc | assemble pc | crash pc | retry pc | giveUp pc
          | wrote pc | writeFail pc | poll pc | timeout pc | nextHit pc
          | nextMiss pc | errHit pc | errMiss pc | completeHit pc
          | completeMiss pc | flag pc | verdict pc | stop pc
          | quitThread pc | quitServ pc => cases hpc.symm.trans pc
  | read hj h =>
      rcases List.eq_nil_or_concat' ss with rfl | ⟨init, last, rfl⟩
      · rw [hi.rdrs] at hj
        cases hj
      · exact GoneThrough.read hi hj h

theorem GoneThrough.of_reach
    (h : Lts.Reach (Proc.step cs) Proc.joined Proc.loaded p) :
    ∃ ss, GoneThrough cs ss p := by
  refine h.invariant (I := fun p => ∃ ss, GoneThrough cs ss p)
    ⟨[], .nil, rfl, ⟨[], rfl, Or.inl rfl⟩, rfl⟩ ?_
  intro p a p' hex hok hs
  obtain ⟨ss, hi⟩ := hex
  obtain ⟨ss', -, hi'⟩ := hi.step hok hs
  exact ⟨ss', hi'⟩

/-- In every run whose sessions are joined, the process has gone through
a chain of sessions: what it has done is what they have done, in their
order; each began with the static variables as the one before left them,
whose threads were through; and the process stands where the last of
them does. -/
theorem reach_chain (h : Lts.Reach (Proc.step cs) Proc.joined Proc.loaded p) :
    ∃ ss, Chain cs ss p.g ∧ p.trace = (ss.map Session.trace).flatten
      ∧ (∃ snds, p.calls = ss.map Session.snd ++ snds ∧ Pending ss snds)
      ∧ p.rdrs = readersOf ss := by
  obtain ⟨ss, hi⟩ := GoneThrough.of_reach h
  exact ⟨ss, hi.chain, hi.trace, hi.calls, hi.rdrs⟩

/-- The process of two sessions in turn is a chain of two. -/
theorem reach_chain_inTurn :
    inTurn.calls.length = 2
      ∧ ∃ ss, Chain .unsigned ss inTurn.g
        ∧ inTurn.trace = (ss.map Session.trace).flatten
        ∧ (∃ snds, inTurn.calls = ss.map Session.snd ++ snds
          ∧ Pending ss snds)
        ∧ inTurn.rdrs = readersOf ss :=
  ⟨by decide, reach_chain (Lts.Reach.of_isSome (by decide))⟩

end BtOta
