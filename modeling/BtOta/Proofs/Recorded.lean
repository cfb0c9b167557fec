/-
Whether connection_status tells the truth.

It is set by do_connect, where `ctrl` and `intr` have just been stored,
and it is never reset: quit_serv, which closes both, leaves it 1, be it
called by a Disconnect or at the end of a session, even of one whose
file could not be opened (`stale_status`).

Over the sequences of operations, connection_status is right in every
state, those between do_connect's stores and in quit_serv aside, exactly
if quit_serv has not run after a connection was established
(`status_true_iff`). A connection made after another, or refused after
one, does not hurt it.
-/
import BtOta.Lib.EventLog
import BtOta.Proofs.Leaks

namespace BtOta

open Descriptors EventLog

-- ================================================================ vocabulary

/-- quit_serv has run, with a connection established before, so both of
its channels are closed. -/
def hungUp (log : List FdEvent) : Prop :=
  Sometime (fun before e => e = .quit ∧ ∃ c, .established c ∈ before) log

namespace Library

/-- `ctrl` and `intr` are the open channels that call `c` of reconnect
has made, one each. -/
def joinedBy (l : Library) (c : Nat) : Prop :=
  l.net.fds l.net.ctrl = some (.channel c .ctrl)
    ∧ l.net.fds l.net.intr = some (.channel c .intr)

/-- connection_status is 1 exactly if `ctrl` and `intr` are the open
channels of one connection. -/
def statusTrue (l : Library) : Prop :=
  l.net.connectionStatus = 1 ↔ ∃ c, l.joinedBy c

/-- No run of quit_serv is under way, and no call of reconnect is between
its stores: nothing is half done. -/
structure Settled (l : Library) : Prop where
  quits : ∀ q, l.live (.quit q) = false
  calls : ∀ (c : Nat) (cn : Connect), l.connects[c]? = some cn →
    cn.pc ≠ .storeIntr ∧ cn.pc ≠ .storeStatus

/-- Before the first connection `ctrl` and `intr` hold one number,
unless a call is between its stores. -/
def UnstoredInv (l : Library) : Prop :=
  (∀ c, .established c ∉ l.net.log) →
    (∀ (c : Nat) (cn : Connect), l.connects[c]? = some cn →
      cn.pc ≠ .storeIntr ∧ cn.pc ≠ .storeStatus) →
    l.net.ctrl = l.net.intr

/-- Once a connection has been established, and as long as quit_serv has
not run, `ctrl` and `intr` are the channels of one. -/
def JoinedInv (l : Library) : Prop :=
  l.Settled → (∃ c, .established c ∈ l.net.log) → ¬ hungUp l.net.log →
    ∃ c, ∃ cn : Connect, l.connects[c]? = some cn ∧ cn.returned = true
      ∧ l.joinedBy c

end Library

variable {cs : CharSign} {l l' : Library} {a : LibAct} {net net' : Net}
  {c : Nat} {cn cn' : Connect}

-- ================================================================== hanging up

/-- quit_serv's last close is the one step that can hang up. -/
theorem hungUp_snoc {log : List FdEvent} {e : FdEvent} :
    hungUp (log ++ [e])
      ↔ hungUp log ∨ (e = .quit ∧ ∃ c, .established c ∈ log) := by
  unfold hungUp
  constructor
  · intro h
    by_contra hnot
    rw [not_or] at hnot
    exact not_sometime.mpr
      (always_snoc.mpr ⟨not_sometime.mp hnot.1, hnot.2⟩) h
  · rintro (h | h)
    · exact h.append [e]
    · exact ⟨log, e, [], rfl, h⟩

theorem hungUp_mono {log log' : List FdEvent} (h : log <+: log')
    (hup : hungUp log) : hungUp log' := by
  obtain ⟨es, rfl⟩ := h
  exact hup.append es

-- ========================================================= calls of reconnect

/-- A call of reconnect closes only what it holds, so what another has
made stays open. -/
theorem CStep.keeps {i : CIn} {n : Nat} {d : Desc}
    (h : CStep c net cn i net' cn') (hk : AllOpen net.fds (cn.holds c))
    (hopen : net.fds n = some d) (hd : ∀ x ∈ cn.holds c, x.2 ≠ d) :
    net'.fds n = some d := by
  have hkept : AllOpen net.fds [(n, d)] :=
    allOpen_cons.mpr ⟨hopen, allOpen_nil⟩
  have hclosed : ∀ x ∈ cn.holds c, net.fds.closed x.1 n = some d := by
    intro x hx
    exact getClosed.mpr ⟨ne_of_open hopen (hk x hx) (hd x hx).symm, hopen⟩
  cases h with
  | openCtl _ free | socket _ free =>
      exact hkept.opened free (n, d) (List.mem_singleton.mpr rfl)
  | @drop p pc =>
      refine hclosed (cn.sk, .channel c p) ?_
      cases p <;> simp [Connect.holds, pc]
  | closeCsk pc =>
      exact hclosed (cn.csk, .channel c .ctrl) (by simp [Connect.holds, pc])
  | closeCtl pc =>
      exact hclosed (cn.ctl, .hidp c) (by simp [Connect.holds, pc])
  | _ => exact hopen

/-- A call of reconnect that is not at its stores leaves `ctrl` and
`intr` alone. -/
theorem CStep.stores {i : CIn} (h : CStep c net cn i net' cn') :
    cn'.pc = .storeIntr ∨ cn'.pc = .storeStatus ∨ cn.pc = .storeStatus
      ∨ ((cn.pc ≠ .storeIntr ∧ cn.pc ≠ .storeStatus)
        ∧ net'.ctrl = net.ctrl ∧ net'.intr = net.intr) := by
  cases h with
  | storeCtrl => exact Or.inl rfl
  | storeIntr => exact Or.inr (Or.inl rfl)
  | storeStatus pc => exact Or.inr (Or.inr (Or.inl pc))
  | refuse pc =>
      right; right; right
      rcases pc with pc | pc <;> simp [pc]
  | openCtl pc | noCtl pc | socket pc | noSocket pc | bind pc
  | connectCtrl pc | connectIntr pc | drop pc | closeCsk pc
  | closeCtl pc =>
      right; right; right
      simp [pc, Net.opened, Net.close]

/-- The last store of do_connect establishes the connection. -/
theorem CStep.establishes {i : CIn} (h : CStep c net cn i net' cn')
    (hpc : cn.pc = .storeStatus) :
    net' = { net with connectionStatus := 1 }.say (.established c)
      ∧ cn' = { cn with pc := .returned 0 } := by
  cases h with
  | storeStatus => exact ⟨rfl, rfl⟩
  | refuse pc => rcases pc with pc | pc <;> cases hpc.symm.trans pc
  | openCtl pc | noCtl pc | socket pc | noSocket pc | bind pc
  | connectCtrl pc | connectIntr pc | drop pc | closeCsk pc | closeCtl pc
  | storeCtrl pc | storeIntr pc => cases hpc.symm.trans pc

namespace Library

/-- At its last store a call has both channels open and stored, so the
store is of the truth. -/
theorem SeqInv.joinedBy (hi : SeqInv l) (hc : l.connects[c]? = some cn)
    (hpc : cn.pc = .storeStatus) : l.joinedBy c := by
  have hcall := hi.calls c cn hc
  have hkept := hcall.kept
  simp only [Connect.holds, hpc, allOpen_cons] at hkept
  refine ⟨?_, ?_⟩
  · rw [hcall.ctrl (Or.inr hpc)]
    exact hkept.2.1
  · rw [hcall.intr hpc]
    exact hkept.2.2.1

/-- quit_serv hangs up with its last close, or goes on, and is then not
settled. -/
theorem quitServ_live {q : Nat} {pc pc' : QPc}
    (hq : l.quits[q]? = some pc)
    (h : BtOta.quitServ l.net pc = some (net, pc'))
    (hest : ∃ c, .established c ∈ l.net.log) :
    hungUp net.log
      ∨ live { l with net := net, quits := l.quits.set q pc' } (.quit q)
        = true := by
  have hlt := (List.getElem?_eq_some_iff.mp hq).1
  cases pc with
  | isg =>
      cases h
      left
      refine hungUp_snoc.mpr (Or.inr ⟨rfl, ?_⟩)
      obtain ⟨c, hc⟩ := hest
      exact ⟨c, List.mem_append_left _ hc⟩
  | ctrl | intr | csg =>
      cases h
      right
      simp [live, List.getElem?_set_self hlt]
  | done => cases h

theorem joinedBy.frame (h : l.joinedBy c)
    (hctrl : l'.net.ctrl = l.net.ctrl) (hintr : l'.net.intr = l.net.intr)
    (hfds : ∀ n p, l.net.fds n = some (.channel c p) →
      l'.net.fds n = some (.channel c p)) : l'.joinedBy c := by
  refine ⟨?_, ?_⟩
  · rw [hctrl]
    exact hfds _ _ h.1
  · rw [hintr]
    exact hfds _ _ h.2

/-- Opening a free number leaves the channels open. -/
theorem channel_opened {n m : Nat} {d e : Desc} (h : net.fds m = some e)
    (hfree : net.fds n = none) : (net.opened n d).fds m = some e := by
  have hkept : AllOpen net.fds [(m, e)] :=
    allOpen_cons.mpr ⟨h, allOpen_nil⟩
  exact hkept.opened hfree (m, e) (List.mem_singleton.mpr rfl)

/-- Closing what is no channel leaves them open. -/
theorem channel_fclose {n m : Nat} {d e : Desc} (h : net.fds m = some e)
    (hn : net.fds n = some d) (hd : e ≠ d) : (net.fclose n).fds m = some e :=
  getClosed.mpr ⟨ne_of_open h hn hd, h⟩

theorem JoinedInv.reconnect {c₀ : Nat} {i : CIn} {cn₀ cn₀' : Connect}
    (hj : l.JoinedInv) (hi : SeqInv l) (hc₀ : l.connects[c₀]? = some cn₀)
    (h : CStep c₀ l.net cn₀ i net cn₀') :
    JoinedInv { l with net := net, connects := l.connects.set c₀ cn₀' } := by
  intro hset hest hnh
  have hself : (l.connects.set c₀ cn₀')[c₀]? = some cn₀' :=
    Threads.moved hc₀
  have hop : l.live (.connect c₀) = true :=
    live_connect.mpr ⟨cn₀, hc₀, h.returned_eq⟩
  rcases h.stores with hpc | hpc | hpc | ⟨hpc, hctrl, hintr⟩
  · exact absurd hpc (hset.calls c₀ cn₀' hself).1
  · exact absurd hpc (hset.calls c₀ cn₀' hself).2
  · -- the call's last store
    obtain ⟨rfl, rfl⟩ := h.establishes hpc
    exact ⟨c₀, _, hself, rfl, hi.joinedBy hc₀ hpc⟩
  · -- any other step: the connection there was is another call's
    have hsettled : l.Settled :=
      ⟨hset.quits, Threads.forall_of_moved hc₀ hpc hset.calls⟩
    have hbefore : ∃ c, .established c ∈ l.net.log := by
      obtain ⟨c, hc⟩ := hest
      rcases (Move.reconnect hc₀ h : Move .signed l _ _).established_inv hc
        with hold | ⟨cn, -, hget, hlast, -⟩
      · exact ⟨c, hold⟩
      · have hlive : l.live (.connect c) = true :=
          live_connect.mpr ⟨cn, hget, by simp [Connect.returned, hlast]⟩
        cases hi.alone _ _ hlive hop
        rw [hc₀] at hget
        cases hget
        exact absurd hlast hpc.2
    obtain ⟨c, cn, hc, hret, hjoin⟩ := hj hsettled hbefore
      fun hup => hnh (hungUp_mono h.log_grows hup)
    have hne : c ≠ c₀ := by
      intro heq
      subst heq
      rw [hc₀] at hc
      cases hc
      rw [h.returned_eq] at hret
      cases hret
    refine ⟨c, cn, Threads.moved_of_ne hne hc, hret,
      hjoin.frame hctrl hintr fun n p hopen => ?_⟩
    refine h.keeps (hi.calls c₀ cn₀ hc₀).kept hopen fun x hx => ?_
    rcases Connect.holds_desc hx with hd | ⟨p', hd⟩ <;> rw [hd] <;>
      simp [Ne.symm hne]

/-- A step that is none of reconnect's, and leaves the connections
made. -/
theorem JoinedInv.frame (hj : l.JoinedInv) (h : Move cs l a l')
    (hne : ∀ c, a ≠ .reconnect c .tick) (hset : l'.Settled → l.Settled)
    (hcalls : ∀ (c : Nat) (cn : Connect),
      l.connects[c]? = some cn → l'.connects[c]? = some cn)
    (hjoin : ∀ c, l.joinedBy c → l'.joinedBy c) : l'.JoinedInv := by
  intro hsettled hest hnh
  have hbefore : ∃ c, .established c ∈ l.net.log := by
    obtain ⟨c, hc⟩ := hest
    rcases h.established_inv hc with hold | ⟨cn, ha, -⟩
    · exact ⟨c, hold⟩
    · exact absurd ha (hne c)
  obtain ⟨c, cn, hc, hret, hjoined⟩ := hj (hset hsettled) hbefore
    fun hup => hnh (hungUp_mono h.log_grows hup)
  exact ⟨c, cn, hcalls c cn hc, hret, hjoin c hjoined⟩

theorem JoinedInv.step (hj : l.JoinedInv) (hi : SeqInv l)
    (hs : Library.step cs l a = some l') : l'.JoinedInv := by
  have hmove := step_inv hs
  cases hmove with
  | reconnect hc h => exact hj.reconnect hi hc h
  | quitServ hq h =>
      -- the connection was there before this close: it has been hung up, or
      -- this quit_serv is still under way
      intro hset hest hnh
      obtain ⟨n, es, hnet, hes⟩ := quitServ_closes h
      have hbefore : ∃ c, .established c ∈ l.net.log := by
        obtain ⟨c, hc⟩ := hest
        rw [hnet] at hc
        exact ⟨c, (List.mem_append.mp hc).resolve_right
          (not_established_of_closes hes c)⟩
      rcases quitServ_live hq h hbefore with hup | hlive
      · exact absurd hup hnh
      · rw [hset.quits] at hlive
        cases hlive
  | deconnectClient =>
      -- a quit_serv has just begun: nothing is settled
      intro hset
      exact absurd (hset.quits l.quits.length) (by simp [live])
  | connectToHost =>
      refine hj.frame (step_inv hs) (by simp) ?_
        (fun _ _ => Threads.snoc) fun _ => id
      intro hset
      exact ⟨hset.quits, fun c cn hc => hset.calls c cn (Threads.snoc hc)⟩
  | fopen hk hpc hfile free | otherOpen free =>
      refine hj.frame (step_inv hs) (by simp)
        (fun hset => ⟨hset.quits, hset.calls⟩) (fun _ _ => id) ?_
      intro c hjoin
      exact hjoin.frame rfl rfl fun n p hopen => channel_opened hopen free
  | otherClose hn =>
      -- the app closes what it opened itself, no channel
      refine hj.frame (step_inv hs) (by simp)
        (fun hset => ⟨hset.quits, hset.calls⟩) (fun _ _ => id) ?_
      intro c hjoin
      exact hjoin.frame rfl rfl
        fun n p hopen => channel_fclose hopen hn (by simp)
  | @send k i p hans hp =>
      -- a call that returns here has its quit_serv ahead, which unsettles;
      -- any other step keeps the channels
      refine hj.frame (step_inv hs) (by simp) ?_ (fun _ _ => id) ?_
      · intro hset
        have hret : ¬ hasReturned p.calls k = true := by
          intro hret
          refine absurd (hset.quits l.quits.length) ?_
          simp [live, sent, hret]
        have hquits : (l.sent k i p).quits = l.quits := if_neg hret
        refine ⟨fun q => ?_, hset.calls⟩
        have hq := hset.quits q
        unfold live at hq ⊢
        rwa [hquits] at hq
      · intro c hjoin
        obtain ⟨hctrl, hintr⟩ := sendNet_static hans
        refine hjoin.frame hctrl hintr fun m p' hopen => ?_
        rcases sendNet_fds hans with hfds | ⟨n, hfile, hfds⟩ <;>
          rw [sent, hfds]
        · exact hopen
        · exact channel_fclose hopen (hi.files k n hfile) (by simp)
  | @read j k i =>
      refine hj.frame (step_inv hs) (by simp)
        (fun hset => ⟨hset.quits, hset.calls⟩) (fun _ _ => id) ?_
      intro c hjoin
      exact hjoin.frame (l.readNet_ctrl j k i) (l.readNet_intr j k i)
        fun n p hopen => by simpa [received]
  | startOTAUpdate | enterWrite | enterRead =>
      exact hj.frame (step_inv hs) (by simp)
        (fun hset => ⟨hset.quits, hset.calls⟩) (fun _ _ => id) fun _ => id

theorem JoinedInv.of_reach
    (h : Lts.Reach (Library.step cs) sequential loaded l) : l.JoinedInv := by
  refine h.invariant₂ (fun _ => SeqInv.of_reach) ?_
    fun _ _ _ hi hj _ hs => hj.step hi hs
  intro _ hest
  simp [loaded, Net.loaded] at hest

-- ================================================= before the first connection

theorem UnstoredInv.step (hu : l.UnstoredInv)
    (hs : Library.step cs l a = some l') : l'.UnstoredInv := by
  have hmove := step_inv hs
  intro hno hcalls
  have hbefore : ∀ c, .established c ∉ l.net.log :=
    fun c hc => hno c (hmove.log_grows.subset hc)
  cases hmove with
  | @reconnect c₀ i cn₀ cn₀' net hc₀ h =>
      have hself : (l.connects.set c₀ cn₀')[c₀]? = some cn₀' :=
        Threads.moved hc₀
      rcases h.stores with hpc | hpc | hpc | ⟨hpc, hctrl, hintr⟩
      · exact absurd hpc (hcalls c₀ cn₀' hself).1
      · exact absurd hpc (hcalls c₀ cn₀' hself).2
      · obtain ⟨rfl, rfl⟩ := h.establishes hpc
        exact absurd (by simp) (hno c₀)
      · have hsame := hu hbefore
          (Threads.forall_of_moved hc₀ hpc hcalls)
        exact hctrl.trans (hsame.trans hintr.symm)
  | connectToHost =>
      exact hu hbefore fun c cn hc => hcalls c cn (Threads.snoc hc)
  | quitServ hq h =>
      obtain ⟨n, es, rfl, -⟩ := quitServ_closes h
      exact hu hbefore hcalls
  | @send k i p hans =>
      obtain ⟨hctrl, hintr⟩ := sendNet_static hans
      exact hctrl.trans ((hu hbefore hcalls).trans hintr.symm)
  | @read j k i =>
      exact (l.readNet_ctrl j k i).trans
        ((hu hbefore hcalls).trans (l.readNet_intr j k i).symm)
  | _ => exact hu hbefore hcalls

theorem UnstoredInv.of_reach {ok : Library → LibAct → Prop}
    (h : Lts.Reach (Library.step cs) ok loaded l) : l.UnstoredInv :=
  h.invariant (fun _ _ => rfl) fun _ _ _ hu _ hs => hu.step hs

/-- Between operations nothing is half done. -/
theorem settled_of_idle (hidle : l.idle = true) : l.Settled := by
  have hlive := idle_iff.mp hidle
  refine ⟨fun q => hlive _, fun c cn hc => ?_⟩
  have hret := returned_of_not_live (hlive (.connect c)) hc
  constructor <;> intro hpc <;> simp [Connect.returned, hpc] at hret

-- ==================================================================== results

/-- Where nothing is half done, connection_status is right as long as
quit_serv has not run after a connection was established, since nothing
else resets the channels. -/
theorem Settled.statusTrue (hset : l.Settled) (hstatic : StaticInv l.net)
    (hj : l.JoinedInv) (hu : l.UnstoredInv) (hnh : ¬ hungUp l.net.log) :
    l.statusTrue := by
  by_cases hest : ∃ c, .established c ∈ l.net.log
  · obtain ⟨c, hc⟩ := hest
    obtain ⟨c', cn, -, -, hjoin⟩ := hj hset ⟨c, hc⟩ hnh
    exact iff_of_true (hstatic.set c hc) ⟨c', hjoin⟩
  · have hno : ∀ c, .established c ∉ l.net.log := fun c hc => hest ⟨c, hc⟩
    refine iff_of_false ?_ ?_
    · rw [hstatic.unset hno]
      decide
    · -- one number stands for one channel
      rintro ⟨c, hctrl, hintr⟩
      rw [hu hno hset.calls, hintr] at hctrl
      cases hctrl

/-- The step that hangs up ends its operation, and connection_status is
wrong behind it. -/
theorem SeqInv.hangsUp (hi : SeqInv l) (hs : Library.step cs l a = some l')
    (hbefore : ¬ hungUp l.net.log) (hafter : hungUp l'.net.log) :
    l'.idle = true ∧ ¬ l'.statusTrue := by
  rcases (step_inv hs).log_cases with hlog | ⟨e, hlog, he⟩ | ⟨q, hq, rfl⟩
  · rw [hlog] at hafter
    exact absurd hafter hbefore
  · rw [hlog] at hafter
    exact absurd ((hungUp_snoc.mp hafter).resolve_right fun h => he h.1)
      hbefore
  have hlt := (List.getElem?_eq_some_iff.mp hq).1
  have hop : l.live (.quit q) = true := live_quit.mpr ⟨.isg, hq, (by simp)⟩
  refine ⟨hi.alone.idle_of_end hop (fun _ => live_quits_set hop) ?_, ?_⟩
  · simp [live, List.getElem?_set_self hlt]
  · -- ctrl was closed first, and nothing of the library's has come there
    have hforeign : Foreign (l.net.fds.closed l.net.isg) l.net.ctrl :=
      ((hi.quits q .isg hq).ctrl (by simp) (by simp)).closed
    obtain ⟨c, hc⟩ : ∃ c, .established c ∈ l.net.log := by
      rcases hungUp_snoc.mp hafter with hup | ⟨-, c, hc⟩
      · exact absurd ((hungUp_snoc.mp hup).resolve_right (by simp)) hbefore
      · exact ⟨c, by simpa using hc⟩
    intro htrue
    obtain ⟨c', hctrl, -⟩ := htrue.mp (hi.static.set c hc)
    cases hforeign _ hctrl

/-- In a sequence of operations connection_status is right wherever
nothing is half done exactly if quit_serv never runs after a connection
has been established. -/
theorem status_true_iff (h : Lts.Reach (step cs) sequential loaded l) :
    (∀ l₁, Lts.Reach (step cs) sequential loaded l₁ →
      Lts.Reach (step cs) sequential l₁ l → l₁.Settled → l₁.statusTrue)
      ↔ ¬ hungUp l.net.log := by
  constructor
  · intro hall hup
    have hloaded : ¬ hungUp loaded.net.log := by
      rintro ⟨before, e, after, hlog, -⟩
      cases before <;> cases hlog
    have hturns := h.turns (P := fun m => hungUp m.net.log) hloaded hup
    obtain ⟨l₁, a, l₂, hr, hno, hok, hs, hup₂, hrest⟩ := hturns
    obtain ⟨hidle, hwrong⟩ := (SeqInv.of_reach hr).hangsUp hs hno hup₂
    exact hwrong (hall l₂ (hr.tail hok hs) hrest (settled_of_idle hidle))
  · intro hno l₁ hr hrest hset
    exact hset.statusTrue (SeqInv.of_reach hr).static
      (JoinedInv.of_reach hr) (UnstoredInv.of_reach hr)
      fun hup => hno (hungUp_mono (log_grows hrest) hup)

end Library

/-- A connection, and a second one that is refused. -/
def connectedTwice : List LibAct :=
  bothConnected
    ++ [.connectToHost, .reconnect 1 (.number 6), .reconnect 1 .failed,
      .reconnect 1 .tick]

/-- connection_status is right. -/
theorem status_true_connected :
    ((Lts.run (Library.step .unsigned) Library.sequential Library.loaded
      connectedTwice).getD Library.loaded).net.connectionStatus = 1
      ∧ ((Lts.run (Library.step .unsigned) Library.sequential
        Library.loaded connectedTwice).getD Library.loaded).statusTrue := by
  have hreach := Lts.Reach.of_isSome
    (show (Lts.run (Library.step .unsigned) Library.sequential
      Library.loaded connectedTwice).isSome = true by decide)
  refine ⟨by decide,
    (Library.status_true_iff hreach).mpr ?_ _ hreach (.refl _)
      (Library.settled_of_idle (by decide))⟩
  rintro ⟨before, e, after, hlog, rfl, -⟩
  have hmem : FdEvent.quit ∈ before ++ .quit :: after := by simp
  rw [← hlog] at hmem
  exact absurd hmem (by decide)

/-- connection_status is 1, and nothing is connected. -/
theorem stale_status :
    ¬ ∀ (cs : CharSign) (l : Library),
      Lts.Reach (Library.step cs) Library.sequential Library.loaded l →
      l.idle = true → l.statusTrue := by
  intro h
  have htrue := h .unsigned _ (Lts.Reach.of_isSome
    (show (Lts.run (Library.step .unsigned) Library.sequential
      Library.loaded connectedThenFailed).isSome = true by decide))
    (by decide)
  obtain ⟨c, hctrl, -⟩ := htrue.mp (by decide)
  cases hctrl

end BtOta
