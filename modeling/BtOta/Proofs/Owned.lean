/-
Whether the library closes only what it has opened.

reconnect does: each number that it, do_connect or l2cap_connect closes
is a socket of the call's own. quit_serv does not. It closes csg and isg
each time, which are 0 from load on, and nothing marks a number that has
been closed; so one run of it closes the number 0 twice, and by the
second time whatever stands there is not the library's. It may be the
standard input of the process, or a descriptor that other code has
opened since (`foreign_close`).

Over the sequences of operations whose last one is over, every close is
of something the library has open exactly if no Disconnect was asked for
and no session has come to its end (`closes_owned_iff`).
-/
import BtOta.Proofs.Holdings

namespace BtOta

open Descriptors

-- ================================================================ vocabulary

/-- The event, if it is a close, is of something the library has
open. -/
def FdEvent.owned : FdEvent → Bool
  | .closed _ d => d.any Desc.ours
  | _ => true

namespace Library

/-- Every close so far was of something the library had open, and of
nobody else's. -/
def closesOwned (l : Library) : Prop := ∀ e ∈ l.net.log, e.owned = true

instance (l : Library) : Decidable l.closesOwned :=
  inferInstanceAs (Decidable (∀ e ∈ _, _))

/-- No deconnectClient in the run, and no call of ota_update over at its
end. -/
def unquit (as : List LibAct) (l : Library) : Prop :=
  .deconnectClient ∉ as ∧ ∀ snd ∈ l.proc.calls, snd.returned = false

end Library

variable {cs : CharSign} {l l' : Library} {a : LibAct} {as : List LibAct}
  {net net' : Net} {c : Nat} {cn cn' : Connect}

-- ================================================================ reconnect

/-- A number that stands for something held is the library's, so closing
it is its own affair. -/
theorem owned_of_open {n : Nat} {d : Desc} (h : net.fds n = some d)
    (hd : d.ours = true) : (FdEvent.closed n (net.fds n)).owned = true := by
  rw [h]
  exact hd

theorem CStep.owned {i : CIn} (h : CStep c net cn i net' cn')
    (hk : AllOpen net.fds (cn.holds c))
    (hlog : ∀ e ∈ net.log, e.owned = true) :
    ∀ e ∈ net'.log, e.owned = true := by
  cases h with
  | @drop p pc =>
      have hsk : net.fds cn.sk = some (.channel c p) := by
        cases p with
        | ctrl =>
            simp only [Connect.holds, pc, allOpen_cons] at hk
            exact hk.2.1
        | intr =>
            simp only [Connect.holds, pc, allOpen_cons] at hk
            exact hk.2.2.1
      rw [Net.close_log, List.forall_mem_append]
      exact ⟨hlog, by simpa using owned_of_open hsk rfl⟩
  | closeCsk pc =>
      simp only [Connect.holds, pc, allOpen_cons] at hk
      rw [Net.close_log, List.forall_mem_append]
      exact ⟨hlog, by simpa using owned_of_open hk.2.1 rfl⟩
  | closeCtl pc =>
      simp only [Connect.holds, pc, allOpen_cons] at hk
      rw [Net.close_log, List.forall_mem_append]
      exact ⟨hlog, by simpa using owned_of_open hk.1 rfl⟩
  | connectCtrl | connectIntr | storeCtrl | storeIntr | storeStatus =>
      rw [Net.say_log, List.forall_mem_append]
      exact ⟨hlog, by simp [FdEvent.owned]⟩
  | _ => exact hlog

namespace Library

/-- While quit_serv has not run, every close is owned: reconnect and
ota_update close what they hold. -/
theorem closesOwned_step (hi : SeqInv l) (hs : step cs l a = some l')
    (h : l.quits = [] → l.closesOwned) :
    l'.quits = [] → l'.closesOwned := by
  have hmove := step_inv hs
  intro hquits
  cases hmove with
  | reconnect hc hstep => exact hstep.owned (hi.calls _ _ hc).kept (h hquits)
  | quitServ hq =>
      rw [List.set_eq_nil_iff] at hquits
      rw [hquits] at hq
      cases hq
  | deconnectClient => exact absurd hquits (by simp)
  | @send k i p hans =>
      have hnil : l.quits = [] := by
        by_cases hret : hasReturned p.calls k = true
        · rw [sent, if_pos hret] at hquits
          exact absurd hquits (by simp)
        · rwa [sent, if_neg hret] at hquits
      unfold closesOwned
      rcases sendNet_cases hans with ⟨hnet, -⟩ | ⟨d, -, hnet, -⟩
        | ⟨n, bytes, -, -, hnet, -⟩ <;> rw [sent, hnet]
      · exact h hnil
      · rw [Net.say_log, List.forall_mem_append]
        exact ⟨h hnil, by simp [FdEvent.owned]⟩
      · exact h hnil
  | @read j k i =>
      unfold closesOwned
      rcases l.readNet_cases j k i with hnet | ⟨d, -, hnet⟩ <;>
        rw [received, hnet]
      · exact h hquits
      · rw [Net.say_log, List.forall_mem_append]
        exact ⟨h hquits, by simp [FdEvent.owned]⟩
  | _ => exact h hquits

-- ================================================================ quit_serv

/-- A run of quit_serv that is over has closed a number that was not the
library's: csg and isg are both 0, one of the two closes comes second,
and what it closes then stands for nothing the library holds. -/
theorem closesOwned_quit (hi : SeqInv l) (hs : step cs l a = some l')
    (h : ∀ q : Nat, l.quits[q]? = some .done → ¬ l.closesOwned) :
    ∀ q : Nat, l'.quits[q]? = some .done → ¬ l'.closesOwned := by
  have hmove := step_inv hs
  intro q hq howned
  have hbefore : l.closesOwned :=
    fun e he => howned e (hmove.log_grows.subset he)
  cases hmove with
  | @quitServ q₀ pc pc' net hq₀ hstep =>
      rcases Threads.moved_inv hq with ⟨rfl, hdone⟩ | ⟨-, hold⟩
      · subst hdone
        cases pc with
        | isg =>
            cases hstep
            have hforeign := (hi.quits q .isg hq₀).zero rfl
            have hmem : FdEvent.closed l.net.isg (l.net.fds l.net.isg)
                ∈ ((l.net.close l.net.isg).say .quit).log := by simp
            have hours := howned _ hmem
            rw [hi.static.isg] at hours
            cases hopen : l.net.fds 0 with
            | none => simp [FdEvent.owned, hopen] at hours
            | some d =>
                have hd := hforeign d hopen
                simp [FdEvent.owned, hopen, hd] at hours
        | ctrl | intr | csg | done => cases hstep
      · exact h q hold hbefore
  | deconnectClient =>
      rcases Threads.snoc_inv hq with hold | ⟨-, hnew⟩
      · exact h q hold hbefore
      · cases hnew
  | @send k i p =>
      by_cases hret : hasReturned p.calls k = true
      · rw [sent, if_pos hret] at hq
        rcases Threads.snoc_inv hq with hold | ⟨-, hnew⟩
        · exact h q hold hbefore
        · cases hnew
      · rw [sent, if_neg hret] at hq
        exact h q hq hbefore
  | _ => exact h q hq hbefore

-- ============================================ what starts a run of quit_serv

/-- A call that is over stays over, so what it has started has been
started. -/
theorem Move.hasReturned_mono {k : Nat} (h : Move cs l a l')
    (hret : hasReturned l.proc.calls k = true) :
    hasReturned l'.proc.calls k = true := by
  obtain ⟨snd, hk, hsnd⟩ := hasReturned_iff.mp hret
  cases h with
  | startOTAUpdate =>
      exact hasReturned_iff.mpr ⟨snd, Threads.snoc hk, hsnd⟩
  | @send k₀ i p _ hp =>
      cases Proc.step_inv hp with
      | send hk₀ hstep =>
          by_cases heq : k₀ = k
          · subst heq
            rw [hk] at hk₀
            cases hk₀
            rw [hstep.returned_eq] at hsnd
            cases hsnd
          · exact hasReturned_iff.mpr
              ⟨snd, Threads.moved_of_ne (Ne.symm heq) hk, hsnd⟩
  | read _ _ hp =>
      cases Proc.step_inv hp with
      | read => exact hret
  | _ => exact hret

/-- quit_serv is started by deconnectClient, and by a session that comes
to its end. -/
theorem Move.quits_nil (h : Move cs l a l') :
    l'.quits = [] ↔ l.quits = [] ∧ a ≠ .deconnectClient
      ∧ ∀ k, hasReturned l'.proc.calls k = true →
        hasReturned l.proc.calls k = true := by
  cases h with
  | deconnectClient => simp
  | quitServ => simp [List.set_eq_nil_iff]
  | startOTAUpdate param2 stack =>
      refine ⟨fun hnil => ⟨hnil, (by simp), fun k hret => ?_⟩, fun h => h.1⟩
      obtain ⟨snd, hk, hsnd⟩ := hasReturned_iff.mp hret
      rcases Threads.snoc_inv hk with hold | ⟨-, rfl⟩
      · exact hasReturned_iff.mpr ⟨snd, hold, hsnd⟩
      · cases hsnd
  | @send k i p _ hp =>
      cases Proc.step_inv hp with
      | @send _ _ g snd snd' es hk hstep =>
          have hbefore : hasReturned l.proc.calls k ≠ true := by
            intro hret
            obtain ⟨snd₀, hk₀, hsnd⟩ := hasReturned_iff.mp hret
            rw [hk] at hk₀
            cases hk₀
            rw [hstep.returned_eq] at hsnd
            cases hsnd
          by_cases hret : hasReturned (l.proc.calls.set k snd') k = true
          · rw [sent, if_pos hret]
            refine ⟨fun hnil => absurd hnil (by simp), fun hall => ?_⟩
            exact absurd (hall.2.2 k hret) hbefore
          · rw [sent, if_neg hret]
            refine ⟨fun hnil => ⟨hnil, (by simp), fun k' hk' => ?_⟩,
              fun h => h.1⟩
            by_cases heq : k = k'
            · exact absurd (heq ▸ hk') hret
            · unfold hasReturned at hk' ⊢
              rwa [List.getElem?_set_ne heq] at hk'
  | read _ _ hp =>
      cases Proc.step_inv hp with
      | read => simp [received]
  | _ => simp

theorem none_returned_iff {calls : List Sender} :
    (∀ snd ∈ calls, snd.returned = false)
      ↔ ∀ k, hasReturned calls k ≠ true := by
  constructor
  · intro hall k hret
    obtain ⟨snd, hk, hsnd⟩ := hasReturned_iff.mp hret
    rw [hall snd (List.mem_of_getElem? hk)] at hsnd
    cases hsnd
  · intro hnone snd hmem
    by_contra hret
    rw [Bool.not_eq_false] at hret
    obtain ⟨k, hk⟩ := List.mem_iff_getElem?.mp hmem
    exact hnone k (hasReturned_iff.mpr ⟨snd, hk, hret⟩)

/-- quit_serv has not run exactly if no Disconnect was asked for and no
session has come to its end. -/
theorem quits_nil_iff {ok : Library → LibAct → Prop}
    (h : Lts.Run (step cs) ok loaded as l) :
    l.quits = [] ↔ unquit as l := by
  refine h.invariant (I := fun as l => l.quits = [] ↔ unquit as l) ?_ ?_
  · simp [unquit, loaded, Proc.loaded]
  · intro as l a l' ih _ hs
    have hmove := step_inv hs
    unfold unquit at ih ⊢
    rw [none_returned_iff] at ih ⊢
    rw [hmove.quits_nil, ih, List.mem_append, List.mem_singleton, not_or]
    constructor
    · rintro ⟨⟨hno, hnone⟩, hne, hback⟩
      exact ⟨⟨hno, hne.symm⟩, fun k hret => hnone k (hback k hret)⟩
    · rintro ⟨⟨hno, hne⟩, hnone⟩
      exact ⟨⟨hno, fun k hret => hnone k (hmove.hasReturned_mono hret)⟩,
        Ne.symm hne, fun k hret => absurd hret (hnone k)⟩

-- ==================================================================== results

/-- In a sequence of operations every close is of something the library
has open while no Disconnect was asked for and no session has come to
its end; and where the last operation is over, only then. -/
theorem closes_owned_iff
    (h : Lts.Run (step cs) sequential loaded as l) :
    (unquit as l → l.closesOwned)
      ∧ (l.idle = true → (l.closesOwned ↔ unquit as l)) := by
  have howned : l.quits = [] → l.closesOwned := by
    refine h.reach.invariant₂ (fun _ => SeqInv.of_reach) (fun _ => ?_)
      fun _ _ _ hi hown _ hs => closesOwned_step hi hs hown
    simp [closesOwned, loaded, Net.loaded]
  have hquit : ∀ q : Nat, l.quits[q]? = some .done → ¬ l.closesOwned := by
    refine h.reach.invariant₂ (fun _ => SeqInv.of_reach) (fun q hq => ?_)
      fun _ _ _ hi hno _ hs => closesOwned_quit hi hs hno
    simp [loaded] at hq
  rw [← quits_nil_iff h]
  refine ⟨howned, fun hidle => ⟨fun hown => ?_, howned⟩⟩
  by_contra hne
  obtain ⟨pc, hmem⟩ := List.exists_mem_of_ne_nil _ hne
  obtain ⟨q, hq⟩ := List.mem_iff_getElem?.mp hmem
  obtain rfl := done_of_not_live (idle_iff.mp hidle _) hq
  exact hquit q hq hown

end Library

/-- The first channel's bind fails. -/
def refusedConnect : List LibAct :=
  [.connectToHost, .reconnect 0 (.number 3), .reconnect 0 (.number 4),
    .reconnect 0 .failed, .reconnect 0 .tick, .reconnect 0 .tick]

/-- It closes its two sockets, both of them its own. -/
theorem closes_owned_refused :
    ((Lts.run (Library.step .unsigned) Library.sequential Library.loaded
      refusedConnect).getD Library.loaded).net.log
        = [.closed 4 (some (.channel 0 .ctrl)), .closed 3 (some (.hidp 0))]
      ∧ ((Lts.run (Library.step .unsigned) Library.sequential
        Library.loaded refusedConnect).getD Library.loaded).closesOwned :=
  ⟨by decide,
    (Library.closes_owned_iff (Lts.Run.of_isSome (by decide))).1
      ⟨by simp [refusedConnect], by decide⟩⟩

/-- Other code has the number 0 open when a Disconnect is asked for. -/
def disconnectFirst : List LibAct :=
  [.otherOpen 0 7, .deconnectClient, .quitServ 0]

/-- quit_serv closes it. -/
theorem foreign_close :
    ¬ ∀ (cs : CharSign) (l : Library),
      Lts.Reach (Library.step cs) Library.sequential Library.loaded l →
      l.closesOwned := by
  intro h
  have hall := h .unsigned _ (Lts.Reach.of_isSome
    (show (Lts.run (Library.step .unsigned) Library.sequential
      Library.loaded disconnectFirst).isSome = true by decide))
  exact absurd hall (by decide)

end BtOta
