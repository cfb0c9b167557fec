/-
Whether the result codes tell success from failure.

They do not: every exit of do_connect and reconnect that can be reached
is `return 0`, and so are both ends of ota_update, which androhid.c
hands on. connectToHost returns 0 where a channel was refused
(`refused_zero`), and startOTAUpdate where the session failed.

So connectToHost's 0 means that both channels are connected and stored
exactly if none of the call's socket, bind and connect calls failed, and
startOTAUpdate's 0 means that the session came to FLAG_OTA_SUCCESS
exactly if no step of it jumped to FLAG_OTA_FAIL: fopen and each write
succeeded, and no packet was given up after its third transmission
(`result_codes_iff`).
-/
import BtOta.Proofs.Holdings
import BtOta.Proofs.Loading

namespace BtOta

-- ================================================================ vocabulary

/-- What ota_update returns at its two ends. -/
def Verdict.ret : Verdict → Int
  | .fail => 0
  | .success => 0

/-- The step jumps to FLAG_OTA_FAIL, as told from where the sender stands
and what it takes. -/
def Sender.fails (snd : Sender) : SIn → Bool
  | .opened none => true
  | .wrote res => decide (res < 0)
  | .tick => snd.pc == .retry && decide (3 ≤ snd.sendCount)
  | _ => false

namespace Library

/-- What call `c` of connectToHost has returned: reconnect's result. -/
def connectToHost? (l : Library) (c : Nat) : Option Int :=
  l.connects[c]?.bind fun cn =>
    match cn.pc with
    | .returned ret => some ret
    | _ => none

/-- How call `k` of startOTAUpdate has ended. -/
def ended? (l : Library) (k : Nat) : Option Verdict :=
  l.proc.calls[k]?.bind fun snd =>
    match snd.pc with
    | .returned v => some v
    | _ => none

/-- What call `k` of startOTAUpdate has returned: ota_update's result. -/
def startOTAUpdate? (l : Library) (k : Nat) : Option Int :=
  (l.ended? k).map Verdict.ret

/-- Call `c` of connectToHost has connected both channels and has stored
them in `ctrl` and `intr`, as the log says. -/
def linked (l : Library) (c : Nat) : Prop :=
  ∀ p, .connected c p ∈ l.net.log ∧ .stored c p ∈ l.net.log

/-- The step is not a jump of ota_update call `k` to FLAG_OTA_FAIL. -/
def unfailing (k : Nat) (l : Library) : LibAct → Prop
  | .send k' i => k' = k → ∀ snd ∈ l.proc.calls[k]?, snd.fails i = false
  | _ => True

end Library

variable {cs : CharSign} {l l' : Library} {a : LibAct} {as : List LibAct}
  {net net' : Net} {c k : Nat} {cn cn' : Connect}

-- ============================================================== connectToHost

/-- What a call of reconnect has come through, by where it stands:
whether one of its system calls has failed, and which channels are
connected and stored. -/
def CPc.past (failed : Prop) (connected stored : Psm → Prop) :
    CPc → Prop
  | .openCtl | .socket .ctrl | .bind .ctrl | .connect .ctrl =>
      ¬ failed ∧ ∀ p, ¬ stored p
  | .socket .intr | .bind .intr | .connect .intr =>
      ¬ failed ∧ (∀ p, ¬ stored p) ∧ connected .ctrl
  | .storeCtrl => ¬ failed ∧ ∀ p, connected p
  | .storeIntr => ¬ failed ∧ (∀ p, connected p) ∧ stored .ctrl
  | .storeStatus => ¬ failed ∧ ∀ p, connected p ∧ stored p
  | .drop _ | .closeCsk | .closeCtl => failed ∧ ∀ p, ¬ stored p
  | .returned ret =>
      ret = 0 ∧ ((failed ∧ ∀ p, ¬ stored p)
        ∨ (¬ failed ∧ ∀ p, connected p ∧ stored p))

/-- The same, of what a run has done and logged. -/
def Past (as : List LibAct) (net : Net) (c : Nat) (pc : CPc) : Prop :=
  pc.past (.reconnect c .failed ∈ as) (fun p => .connected c p ∈ net.log)
    (fun p => .stored c p ∈ net.log)

/-- A call that has returned 0 has connected and stored both channels,
exactly if nothing failed; and every call that has returned has returned
0. -/
theorem CPc.past_returned {failed : Prop} {connected stored : Psm → Prop}
    {ret : Int} (h : (CPc.returned ret).past failed connected stored) :
    ret = 0 ∧ ((∀ p, connected p ∧ stored p) ↔ ¬ failed) := by
  obtain ⟨hret, ⟨hfailed, hno⟩ | ⟨hok, hall⟩⟩ := h
  · exact ⟨hret, iff_of_false (fun hall => hno .ctrl (hall .ctrl).2)
      (not_not_intro hfailed)⟩
  · exact ⟨hret, iff_of_true hall hok⟩

theorem forall_psm {P : Psm → Prop} :
    (∀ p, P p) ↔ P .ctrl ∧ P .intr := by
  constructor
  · intro h
    exact ⟨h .ctrl, h .intr⟩
  · rintro ⟨hctrl, hintr⟩ p
    cases p
    · exact hctrl
    · exact hintr

theorem CStep.past {i : CIn} (h : CStep c net cn i net' cn')
    (hp : Past as net c cn.pc) :
    Past (as ++ [.reconnect c i]) net' c cn'.pc := by
  unfold Past at hp ⊢
  cases h with
  | openCtl pc | closeCsk pc | connectCtrl pc =>
      rw [pc] at hp
      simpa [CPc.past] using hp
  | noCtl pc =>
      rw [pc] at hp
      simpa [CPc.past] using hp.2
  | closeCtl pc =>
      rw [pc] at hp
      simpa [CPc.past] using Or.inl hp
  | connectIntr pc | storeCtrl pc | storeIntr pc | storeStatus pc =>
      rw [pc] at hp
      simp only [CPc.past, forall_psm] at hp ⊢
      simp [hp]
  | @refuse p pc =>
      rcases pc with pc | pc <;>
        rw [pc] at hp <;> cases p <;> simp_all [CPc.past]
  | @socket n p pc | @noSocket p pc | @bind p pc | @drop p pc =>
      rw [pc] at hp
      cases p <;> simp_all [CPc.past, CPc.refused]

namespace Library

/-- What the steps of others leave alone: call `c`'s own failures and
events. -/
theorem Move.past_of_ne {pc : CPc} (h : Move cs l a l')
    (hne : ∀ i, a ≠ .reconnect c i) (hp : Past as l.net c pc) :
    Past (as ++ [a]) l'.net c pc := by
  have hfailed : .reconnect c .failed ∈ as ++ [a]
      ↔ .reconnect c .failed ∈ as := by
    rw [List.mem_append, List.mem_singleton]
    exact or_iff_left (Ne.symm (hne _))
  have hown : ∀ p, (.connected c p ∈ l'.net.log ↔ .connected c p ∈ l.net.log)
      ∧ (.stored c p ∈ l'.net.log ↔ .stored c p ∈ l.net.log) := by
    intro p
    cases h with
    | @reconnect c₀ i cn cn' net hc h =>
        have hc₀ : c ≠ c₀ := fun heq => hne i (by rw [heq])
        cases h with
        | connectCtrl | connectIntr | drop | closeCsk | closeCtl
        | storeCtrl | storeIntr | storeStatus => simp [hc₀]
        | _ => exact ⟨Iff.rfl, Iff.rfl⟩
    | @quitServ q pc pc' net hq h =>
        cases pc <;> cases h <;> simp
    | @send k i p hans =>
        rcases sendNet_cases hans with ⟨hnet, -⟩ | ⟨d, -, hnet, -⟩
          | ⟨n, bytes, -, -, hnet, -⟩ <;> rw [sent, hnet] <;> simp
    | @read j k i =>
        rcases l.readNet_cases j k i with hnet | ⟨d, -, hnet⟩ <;>
          rw [received, hnet] <;> simp
    | _ => exact ⟨Iff.rfl, Iff.rfl⟩
  unfold Past at hp ⊢
  simp only [hfailed, fun p => (hown p).1, fun p => (hown p).2]
  exact hp

/-- Where call `c` of reconnect stands, be it only to begin. -/
def callPc (l : Library) (c : Nat) : CPc :=
  (l.connects[c]?.map Connect.pc).getD .openCtl

/-- The steps of others leave call `c` where it is. -/
theorem Move.callPc_of_ne (h : Move cs l a l')
    (hne : ∀ i, a ≠ .reconnect c i) : l'.callPc c = l.callPc c := by
  unfold callPc
  cases h with
  | connectToHost =>
      exact Threads.snoc_eq
        (fun cn? => (cn?.map Connect.pc).getD .openCtl) rfl c
  | @reconnect c₀ i =>
      have hc₀ : c₀ ≠ c := fun heq => hne i (by rw [heq])
      simp only [List.getElem?_set_ne hc₀]
  | _ => rfl

/-- Each call of reconnect has come through what its place tells, in
every run, whoever else moves. -/
theorem past_of_run {ok : Library → LibAct → Prop}
    (h : Lts.Run (step cs) ok loaded as l) (c : Nat) :
    Past as l.net c (l.callPc c) := by
  refine h.invariant (I := fun as l => Past as l.net c (l.callPc c)) ?_ ?_
  · exact ⟨List.not_mem_nil, fun _ => List.not_mem_nil⟩
  · intro as l a l' hp _ hs
    by_cases hne : ∀ i, a ≠ .reconnect c i
    · rw [(step_inv hs).callPc_of_ne hne]
      exact (step_inv hs).past_of_ne hne hp
    · rw [not_forall] at hne
      obtain ⟨i, ha⟩ := hne
      rw [not_not] at ha
      subst ha
      cases step_inv hs with
      | reconnect hc hstep =>
          have hlt := (List.getElem?_eq_some_iff.mp hc).1
          simp only [callPc, hc, List.getElem?_set_self hlt,
            Option.map_some, Option.getD_some] at hp ⊢
          exact hstep.past hp

end Library

-- ============================================================= startOTAUpdate

/-- A session begins to fail with the jump to FLAG_OTA_FAIL. -/
theorem SStep.failing_iff {g g' : Shared} {snd snd' : Sender} {i : SIn}
    {es : List Event} (h : SStep cs g snd i g' snd' es)
    (hf : snd.pc.failing = false) : snd'.pc.failing = snd.fails i := by
  cases h with
  | openFail => rfl
  | giveUp pc hge => simp [Sender.fails, pc, hge, SPc.failing]
  | retry pc hlt => simp [Sender.fails, pc, hlt, SPc.failing]
  | wrote pc res hres => simp [Sender.fails, hres, SPc.failing]
  | writeFail pc res hres => simp [Sender.fails, hres, SPc.failing]
  | flag pc | verdict pc | stop pc | quitThread pc | quitServ pc =>
      rename_i v
      cases v with
      | fail => simp [pc, SPc.failing] at hf
      | success => simp [Sender.fails, pc, SPc.failing]
  | init pc | newStage pc | assemble pc | crash pc | next pc | poll pc
  | timeout pc | nextHit pc | nextMiss pc | errHit pc | errMiss pc
  | completeHit pc | completeMiss pc =>
      simp [Sender.fails, pc, SPc.failing]
  | opened | openOver | created => rfl

namespace Library

/-- ota_update call `k` has jumped to FLAG_OTA_FAIL. -/
def failingAt (l : Library) (k : Nat) : Bool :=
  l.proc.calls[k]?.any fun snd => snd.pc.failing

/-- What a step does to a session: nothing, or the step of its own. -/
theorem Move.call_inv (h : Move cs l a l') (k : Nat) :
    (l'.failingAt k = l.failingAt k ∧ ∀ i, a ≠ .send k i)
      ∨ ∃ i g es snd snd', a = .send k i ∧ l.proc.calls[k]? = some snd
        ∧ l'.proc.calls[k]? = some snd'
        ∧ SStep cs l.proc.g snd i g snd' es := by
  unfold failingAt
  cases h with
  | startOTAUpdate param2 stack =>
      left
      exact ⟨Threads.snoc_eq
        (Option.any fun snd : Sender => snd.pc.failing) rfl k, by simp⟩
  | @send k₀ i p _ hp =>
      cases Proc.step_inv hp with
      | @send _ _ g snd snd' es hk hstep =>
          by_cases heq : k₀ = k
          · subst heq
            right
            exact ⟨i, g, es, snd, snd', rfl, hk, Threads.moved hk, hstep⟩
          · left
            refine ⟨by simp only [sent, List.getElem?_set_ne heq], ?_⟩
            intro i' ha
            cases ha
            exact heq rfl
  | read _ _ hp =>
      cases Proc.step_inv hp with
      | read => exact Or.inl ⟨rfl, (by simp)⟩
  | _ => exact Or.inl ⟨rfl, (by simp)⟩

/-- A session that has not failed fails with a jump, and with nothing
else. -/
theorem Move.failingAt_iff (h : Move cs l a l')
    (hf : l.failingAt k = false) :
    l'.failingAt k = false ↔ unfailing k l a := by
  rcases h.call_inv k with ⟨heq, hne⟩
    | ⟨i, g, es, snd, snd', rfl, hk, hk', hstep⟩
  · rw [heq]
    refine iff_of_true hf ?_
    cases a with
    | send k' i =>
        intro hk'
        exact absurd (by rw [hk']) (hne i)
    | _ => trivial
  · have hsnd : snd.pc.failing = false := by
      simpa [failingAt, hk] using hf
    have hsnd' := hstep.failing_iff hsnd
    simp [failingAt, hk', unfailing, hk, hsnd']

/-- A session that has failed has failed: there is no way back from
FLAG_OTA_FAIL. -/
theorem Move.failingAt_mono (h : Move cs l a l')
    (hf : l.failingAt k = true) : l'.failingAt k = true := by
  rcases h.call_inv k with ⟨heq, -⟩
    | ⟨i, g, es, snd, snd', rfl, hk, hk', hstep⟩
  · rw [heq]
    exact hf
  · have hsnd : snd.pc.failing = true := by
      simpa [failingAt, hk] using hf
    simpa [failingAt, hk'] using (hstep.fails_on hsnd).1

/-- A session has not failed exactly if no step of the run was a jump of
its own to FLAG_OTA_FAIL. -/
theorem failingAt_iff_run (h : Lts.Run (step cs) Lts.free l as l')
    (hf : l.failingAt k = false) :
    l'.failingAt k = false ↔ Lts.Run (step cs) (unfailing k) l as l' := by
  induction h with
  | nil l => exact iff_of_true hf (.nil l)
  | @cons l l₁ l' a as _ hs hrun ih =>
      have hmove := step_inv hs
      cases hf₁ : l₁.failingAt k with
      | false =>
          have hok := (hmove.failingAt_iff hf).mp hf₁
          rw [ih hf₁]
          constructor
          · exact fun hrest => .cons hok hs hrest
          · intro hall
            cases hall with
            | cons _ hs' hrest =>
                cases hs.symm.trans hs'
                exact hrest
      | true =>
          have hend : l'.failingAt k = true := by
            refine hrun.reach.invariant (I := fun m => m.failingAt k = true)
              hf₁ ?_
            intro m b m' hm _ hs'
            exact (step_inv hs').failingAt_mono hm
          refine iff_of_false (by simp [hend]) fun hall => ?_
          cases hall with
          | cons hok _ _ =>
              rw [(hmove.failingAt_iff hf).mpr hok] at hf₁
              cases hf₁

-- ==================================================================== results

/-- connectToHost's 0 means that both channels are connected and stored
exactly if no system call of it failed; startOTAUpdate's means that the
session came to FLAG_OTA_SUCCESS exactly if no step of it was a jump to
FLAG_OTA_FAIL. -/
theorem result_codes_iff (h : Lts.Run (step cs) Lts.free loaded as l) :
    (∀ c ret, l.connectToHost? c = some ret →
      ((ret = 0 ↔ l.linked c) ↔ .reconnect c .failed ∉ as))
    ∧ ∀ k v ret, l.ended? k = some v → l.startOTAUpdate? k = some ret →
      ((ret = 0 ↔ v = .success)
        ↔ Lts.Run (step cs) (unfailing k) loaded as l) := by
  refine ⟨fun c ret hret => ?_, fun k v ret hend hret => ?_⟩
  · have hpast := past_of_run h c
    obtain ⟨cn, hc, hpc⟩ := Option.bind_eq_some_iff.mp hret
    split at hpc
    case h_2 => cases hpc
    case h_1 ret' hpc' =>
      cases hpc
      rw [callPc, hc, Option.map_some, Option.getD_some, hpc'] at hpast
      obtain ⟨rfl, hlinked⟩ := CPc.past_returned hpast
      rw [← hlinked]
      simp [linked]
  · have hzero : ret = 0 := by
      rw [startOTAUpdate?, hend, Option.map_some] at hret
      cases hret
      cases v <;> rfl
    have hv : l.failingAt k = false ↔ v = .success := by
      obtain ⟨snd, hk, hpc⟩ := Option.bind_eq_some_iff.mp hend
      split at hpc
      case h_2 => cases hpc
      case h_1 v' hpc' =>
        cases hpc
        cases v <;> simp [failingAt, hk, hpc', SPc.failing]
    rw [← failingAt_iff_run h (by simp [failingAt, loaded, Proc.loaded]), hv]
    simp [hzero]

end Library

/-- A connection is established, and a session cannot open its file. -/
theorem result_codes_failed :
    ((0 : Int) = 0 ↔ ((Lts.run (Library.step .unsigned) Lts.free
        Library.loaded connectedThenFailed).getD Library.loaded).linked 0)
      ∧ ¬ Lts.Run (Library.step .unsigned) (Library.unfailing 0)
        Library.loaded connectedThenFailed
        ((Lts.run (Library.step .unsigned) Lts.free Library.loaded
          connectedThenFailed).getD Library.loaded) := by
  have hcodes := Library.result_codes_iff (Lts.Run.of_isSome
    (show (Lts.run (Library.step .unsigned) Lts.free Library.loaded
      connectedThenFailed).isSome = true by decide))
  refine ⟨(hcodes.1 0 0 (by decide)).mpr ?_, fun hrun => ?_⟩
  · simp [connectedThenFailed, bothConnected]
  · exact absurd ((hcodes.2 0 .fail 0 (by decide) (by decide)).mpr hrun)
      (by decide)

/-- connectToHost returns 0, and nothing is connected. -/
theorem refused_zero :
    ¬ ∀ (cs : CharSign) (l : Library),
      Lts.Reach (Library.step cs) Lts.free Library.loaded l →
      (∀ c ret, l.connectToHost? c = some ret → (ret = 0 ↔ l.linked c))
      ∧ ∀ k v ret, l.ended? k = some v → l.startOTAUpdate? k = some ret →
        (ret = 0 ↔ v = .success) := by
  intro h
  have hall := h .unsigned _ (Lts.Reach.of_isSome
    (show (Lts.run (Library.step .unsigned) Lts.free Library.loaded
      [.connectToHost, .reconnect 0 .failed]).isSome = true by decide))
  have hlinked := (hall.1 0 0 (by decide)).mp rfl
  exact absurd (hlinked .ctrl).1 (by decide)

end BtOta
