/-
Whether the library leaves descriptors open.

It does, and at once. do_connect closes the HIDP control socket that
reconnect has opened for it where a channel is refused, and forgets it
where both are connected: the local variable `ctl` goes out of scope and
nothing else names the number. So the first connection that is
established leaks a socket (`leaked_ctl`).

Over the sequences of operations, the states in which neither reconnect
nor quit_serv is under way, nor a session's load loop, have open just the
two channels of the current connection exactly if no connection is
established (`no_leak_iff`): every other exit closes what it has opened.
-/
import BtOta.Proofs.Holdings

namespace BtOta

open Descriptors

-- ================================================================ vocabulary

/-- The connection after one more event: made by do_connect, gone with
quit_serv. -/
def connectionAfter (cur : Option Nat) : FdEvent → Option Nat
  | .established c => some c
  | .quit => none
  | _ => cur

/-- The current connection: the last one established, if quit_serv has
not run since. -/
def currentConnection (log : List FdEvent) : Option Nat :=
  log.foldl connectionAfter none

namespace Library

/-- No call of reconnect and no run of quit_serv is under way, and no
session has its file open: whatever is open now stays open. -/
structure AtRest (l : Library) : Prop where
  calls : ∀ c, l.live (.connect c) = false
  quits : ∀ q, l.live (.quit q) = false
  files : ∀ k, l.file k = none

/-- What is open and the library's own is `ctrl` and `intr` of the
current connection, while there is one. -/
def noLeak (l : Library) : Prop :=
  ∀ n d, (l.net.fds n = some d ∧ d.ours = true)
    ↔ ∃ c, currentConnection l.net.log = some c
      ∧ ((n = l.net.ctrl ∧ d = .channel c .ctrl)
        ∨ (n = l.net.intr ∧ d = .channel c .intr))

end Library

variable {cs : CharSign} {l l' : Library} {a : LibAct}

-- ================================================================= the proof

/-- Without a connection established there is no current one, by
induction on the log. -/
theorem currentConnection_none {log : List FdEvent}
    (h : ∀ c, .established c ∉ log) : currentConnection log = none := by
  suffices hfold : ∀ cur : Option Nat, cur = none →
      log.foldl connectionAfter cur = none from hfold none rfl
  induction log with
  | nil => exact fun _ hcur => hcur
  | cons e log ih =>
      intro cur hcur
      rw [List.foldl_cons]
      refine ih (fun c hc => h c (List.mem_cons_of_mem e hc)) _ ?_
      cases e with
      | established c => exact absurd List.mem_cons_self (h c)
      | quit => rfl
      | _ => exact hcur

namespace Library

/-- What has been logged stays logged, over a run. -/
theorem log_grows {ok : Library → LibAct → Prop}
    (h : Lts.Reach (step cs) ok l l') : l.net.log <+: l'.net.log :=
  h.invariant (I := fun m => l.net.log <+: m.net.log) (List.prefix_refl _)
    fun _ _ _ hi _ hs => hi.trans (step_inv hs).log_grows

theorem SeqInv.atRest (hi : SeqInv l) (hidle : l.idle = true) :
    l.AtRest := by
  have hlive := idle_iff.mp hidle
  refine ⟨fun _ => hlive _, fun _ => hlive _, fun k => ?_⟩
  cases hfile : l.file k with
  | none => rfl
  | some n =>
      have hsession := hi.loads.live hfile
      rw [hlive] at hsession
      cases hsession

/-- The step that establishes a connection ends its call, and leaves the
HIDP control socket open, with nothing left that names it. -/
theorem SeqInv.leaks {c : Nat} (hi : SeqInv l)
    (hs : Library.step cs l a = some l')
    (hbefore : .established c ∉ l.net.log)
    (hafter : .established c ∈ l'.net.log) :
    l'.idle = true ∧ ∃ n, l'.net.fds n = some (.hidp c) := by
  rcases (step_inv hs).established_inv hafter with hold
    | ⟨cn, -, hc, hpc, rfl⟩
  case inl => exact absurd hold hbefore
  have hlt := (List.getElem?_eq_some_iff.mp hc).1
  have hop : l.live (.connect c) = true :=
    live_connect.mpr ⟨cn, hc, by simp [Connect.returned, hpc]⟩
  refine ⟨hi.alone.idle_of_end hop (fun _ => live_connects_set hop) ?_,
    cn.ctl, ?_⟩
  · simp [live, List.getElem?_set_self hlt, Connect.returned]
  · have hkept := (hi.calls c cn hc).kept
    simp only [Connect.holds, hpc, allOpen_cons] at hkept
    exact hkept.1

/-- In a sequence of operations just the current connection's channels
are open wherever the library is at rest, exactly if no connection is
ever established. -/
theorem no_leak_iff (h : Lts.Reach (step cs) sequential loaded l) :
    (∀ l₁, Lts.Reach (step cs) sequential loaded l₁ →
      Lts.Reach (step cs) sequential l₁ l → l₁.AtRest → l₁.noLeak)
      ↔ ∀ c, .established c ∉ l.net.log := by
  constructor
  · intro hall c hc
    have hturns := h.turns (P := fun m => ∃ c, .established c ∈ m.net.log)
      (by simp [loaded, Net.loaded]) ⟨c, hc⟩
    obtain ⟨l₁, a, l₂, hr, hno, hok, hs, ⟨c₀, hest⟩, hrest⟩ := hturns
    obtain ⟨hidle, n, hopen⟩ := (SeqInv.of_reach hr).leaks hs
      (fun hc => hno ⟨c₀, hc⟩) hest
    have hr₂ := hr.tail hok hs
    have hleak := (hall l₂ hr₂ hrest ((SeqInv.of_reach hr₂).atRest hidle)
      n (.hidp c₀)).mp ⟨hopen, rfl⟩
    obtain ⟨c₁, -, ⟨-, hd⟩ | ⟨-, hd⟩⟩ := hleak <;> cases hd
  · intro hno l₁ hr hrest hat n d
    have hno₁ : ∀ c, .established c ∉ l₁.net.log :=
      fun c hc => hno c ((log_grows hrest).subset hc)
    rw [currentConnection_none hno₁]
    constructor
    · rintro ⟨hopen, hours⟩
      rw [(SeqInv.of_reach hr).accounts.none_open hat.calls
        hat.files hno₁ hopen] at hours
      cases hours
    · rintro ⟨c, hc, -⟩
      cases hc

end Library

/-- The second channel is refused. -/
def secondRefused : List LibAct :=
  [.connectToHost, .reconnect 0 (.number 3), .reconnect 0 (.number 4),
    .reconnect 0 .ok, .reconnect 0 .ok, .reconnect 0 (.number 5),
    .reconnect 0 .ok, .reconnect 0 .failed, .reconnect 0 .tick,
    .reconnect 0 .tick, .reconnect 0 .tick]

/-- Nothing stays open. -/
theorem no_leak_refused :
    ((Lts.run (Library.step .unsigned) Library.sequential Library.loaded
      secondRefused).getD Library.loaded).noLeak := by
  have hreach := Lts.Reach.of_isSome
    (show (Lts.run (Library.step .unsigned) Library.sequential
      Library.loaded secondRefused).isSome = true by decide)
  have hlog : ((Lts.run (Library.step .unsigned) Library.sequential
      Library.loaded secondRefused).getD Library.loaded).net.log
      = [.connected 0 .ctrl, .closed 5 (some (.channel 0 .intr)),
        .closed 4 (some (.channel 0 .ctrl)),
        .closed 3 (some (.hidp 0))] := by decide
  exact (Library.no_leak_iff hreach).mpr (by rw [hlog]; simp) _ hreach
    (.refl _) ((Library.SeqInv.of_reach hreach).atRest (by decide))

/-- The HIDP control socket stays open. -/
theorem leaked_ctl :
    ¬ ∀ (cs : CharSign) (l : Library),
      Lts.Reach (Library.step cs) Library.sequential Library.loaded l →
      l.idle = true → l.noLeak := by
  intro h
  have hleak := h .unsigned _ (Lts.Reach.of_isSome
    (show (Lts.run (Library.step .unsigned) Library.sequential
      Library.loaded bothConnected).isSome = true by decide)) (by decide)
    3 (.hidp 0)
  obtain ⟨c, -, ⟨-, hd⟩ | ⟨-, hd⟩⟩ := hleak.mp ⟨by decide, rfl⟩ <;> cases hd

end BtOta
