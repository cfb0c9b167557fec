/-
Sequences of operations: at most one is under way at a time.

`live` names what is under way: a call of reconnect, a call of
ota_update or a run of quit_serv that is not over. A step is a step of
an operation that is live, or of a reader or other code, or the start
of an operation (`Move.live`). Where the entries are called one after
another, no two operations are live at once (`Alone.step`).
-/
import BtOta.Lib.Threads
import BtOta.Library

namespace BtOta

-- ================================================================ vocabulary

/-- What the entries start: the operations that are to be one after
another. -/
inductive Op
  /-- call `c` of reconnect -/
  | connect (c : Nat)
  /-- call `k` of ota_update -/
  | session (k : Nat)
  /-- run `q` of quit_serv -/
  | quit (q : Nat)
  deriving DecidableEq, Repr

namespace Library

/-- The operation has begun and is not over. A run of quit_serv is one of
its own, begun by whoever comes to it. -/
def live (l : Library) : Op → Bool
  | .connect c => l.connects[c]?.any fun cn => !cn.returned
  | .session k => l.proc.calls[k]?.any fun snd => !snd.returned
  | .quit q => l.quits[q]?.any (· != .done)

/-- No two operations are live. This is what `sequential` is for, and it
is all that the properties take from it. -/
def Alone (l : Library) : Prop :=
  ∀ op op', l.live op = true → l.live op' = true → op = op'

end Library

/-- Whose step it is; readers and other code are no operation's. -/
def LibAct.op? : LibAct → Option Op
  | .reconnect c _ => some (.connect c)
  | .quitServ q => some (.quit q)
  | .fopen k _ | .enterWrite k | .send k _ => some (.session k)
  | _ => none

variable {cs : CharSign} {l l' : Library} {a : LibAct} {op : Op}

namespace Library

theorem live_connect {c : Nat} :
    l.live (.connect c) = true
      ↔ ∃ cn, l.connects[c]? = some cn ∧ cn.returned = false := by
  simp [live, Option.any_eq_true]

theorem live_session {k : Nat} :
    l.live (.session k) = true
      ↔ ∃ snd, l.proc.calls[k]? = some snd ∧ snd.returned = false := by
  simp [live, Option.any_eq_true]

theorem live_quit {q : Nat} :
    l.live (.quit q) = true ↔ ∃ pc, l.quits[q]? = some pc ∧ pc ≠ .done := by
  simp [live, Option.any_eq_true]

/-- Nothing is live where the library is idle. -/
theorem idle_iff : l.idle = true ↔ ∀ op, l.live op = false := by
  unfold idle
  simp only [Bool.and_eq_true, List.all_eq_true, beq_iff_eq]
  constructor
  · intro h op
    obtain ⟨⟨hconnects, hcalls⟩, hquits⟩ := h
    rw [← Bool.not_eq_true]
    cases op with
    | connect c =>
        rw [live_connect]
        intro hlive
        obtain ⟨cn, hc, hret⟩ := hlive
        have hall := hconnects cn (List.mem_of_getElem? hc)
        rw [hret] at hall
        cases hall
    | session k =>
        rw [live_session]
        intro hlive
        obtain ⟨snd, hk, hret⟩ := hlive
        have hall := hcalls snd (List.mem_of_getElem? hk)
        rw [hret] at hall
        cases hall
    | quit q =>
        rw [live_quit]
        intro hlive
        obtain ⟨pc, hq, hpc⟩ := hlive
        exact hpc (hquits pc (List.mem_of_getElem? hq))
  · intro h
    refine ⟨⟨fun cn hmem => ?_, fun snd hmem => ?_⟩, fun pc hmem => ?_⟩
    · obtain ⟨c, hc⟩ := List.mem_iff_getElem?.mp hmem
      by_contra hret
      have hlive := live_connect.mpr ⟨cn, hc, Bool.not_eq_true _ ▸ hret⟩
      rw [h] at hlive
      cases hlive
    · obtain ⟨k, hk⟩ := List.mem_iff_getElem?.mp hmem
      by_contra hret
      have hlive := live_session.mpr ⟨snd, hk, Bool.not_eq_true _ ▸ hret⟩
      rw [h] at hlive
      cases hlive
    · obtain ⟨q, hq⟩ := List.mem_iff_getElem?.mp hmem
      by_contra hpc
      have hlive := live_quit.mpr ⟨pc, hq, hpc⟩
      rw [h] at hlive
      cases hlive

end Library

-- ================================================================ what moves

theorem CStep.returned_eq {c : Nat} {net net' : Net} {cn cn' : Connect}
    {i : CIn} (h : CStep c net cn i net' cn') : cn.returned = false := by
  unfold Connect.returned
  cases h with
  | refuse pc => rcases pc with pc | pc <;> rw [pc]
  | openCtl pc | noCtl pc | socket pc | noSocket pc | bind pc
  | connectCtrl pc | connectIntr pc | drop pc | closeCsk pc | closeCtl pc
  | storeCtrl pc | storeIntr pc | storeStatus pc => rw [pc]

theorem SStep.returned_eq {g g' : Shared} {snd snd' : Sender} {i : SIn}
    {es : List Event} (h : SStep cs g snd i g' snd' es) :
    snd.returned = false := by
  unfold Sender.returned
  cases h <;> simp [*]

theorem quitServ_ne {net net' : Net} {pc pc' : QPc}
    (h : quitServ net pc = some (net', pc')) : pc ≠ .done := by
  intro hpc
  subst hpc
  cases h

/-- A step of an operation is a step of one that is live. -/
theorem Library.Move.live (h : Library.Move cs l a l')
    (hop : a.op? = some op) : l.live op = true := by
  cases h with
  | reconnect hc h =>
      cases hop
      exact live_connect.mpr ⟨_, hc, h.returned_eq⟩
  | quitServ hq h =>
      cases hop
      exact live_quit.mpr ⟨_, hq, quitServ_ne h⟩
  | fopen hk hpc | enterWrite hk hpc =>
      cases hop
      refine live_session.mpr ⟨_, hk, ?_⟩
      unfold Sender.returned
      rw [hpc]
  | send _ hp =>
      cases hop
      cases Proc.step_inv hp with
      | send hk hs => exact live_session.mpr ⟨_, hk, hs.returned_eq⟩
  | _ => cases hop

-- ================================================================= the starts

namespace Library

/-- What is live behind a step was live: a step that begins nothing keeps
the operations apart. -/
theorem Alone.mono (h : l.Alone)
    (hlive : ∀ op, l'.live op = true → l.live op = true) : l'.Alone :=
  fun op op' hop hop' => h op op' (hlive op hop) (hlive op' hop')

theorem alone_of_one (op : Op)
    (hone : ∀ op', l'.live op' = true → op' = op) : l'.Alone :=
  fun op₁ op₂ h₁ h₂ => (hone op₁ h₁).trans (hone op₂ h₂).symm

/-- An operation starts where none is live, so it is the only one. -/
theorem alone_of_start (op : Op) (hidle : l.idle = true)
    (hlive : ∀ op', l'.live op' = true → l.live op' = true ∨ op' = op) :
    l'.Alone := by
  refine alone_of_one op fun op' hop' => ?_
  rcases hlive op' hop' with hold | hnew
  · rw [idle_iff.mp hidle op'] at hold
    cases hold
  · exact hnew

/-- A live operation ends where another begins, as ota_update does where
its quit_serv begins. -/
theorem Alone.handOver {op₀ : Op} (op : Op) (h : l.Alone)
    (hold : l.live op₀ = true) (hend : l'.live op₀ = false)
    (hlive : ∀ op', l'.live op' = true → l.live op' = true ∨ op' = op) :
    l'.Alone := by
  refine alone_of_one op fun op' hop' => ?_
  rcases hlive op' hop' with hwas | hnew
  · have heq := h op' op₀ hwas hold
    subst heq
    rw [hend] at hop'
    cases hop'
  · exact hnew

/-- The library is idle when the operation that was under way is over. -/
theorem Alone.idle_of_end (h : l.Alone) (hop : l.live op = true)
    (hlive : ∀ op', l'.live op' = true → l.live op' = true)
    (hend : l'.live op = false) : l'.idle = true := by
  rw [idle_iff]
  intro op'
  by_contra hop'
  rw [Bool.not_eq_false] at hop'
  have heq := h op' op (hlive op' hop') hop
  subst heq
  rw [hend] at hop'
  cases hop'

theorem live_connects_set {c : Nat} {cn : Connect} {net : Net}
    (hc : l.live (.connect c) = true)
    (hlive : live { l with net := net, connects := l.connects.set c cn } op
      = true) : l.live op = true := by
  cases op with
  | connect c' =>
      obtain ⟨cn', hget, hret⟩ := live_connect.mp hlive
      rcases Threads.moved_inv hget with ⟨rfl, -⟩ | ⟨-, hold⟩
      · exact hc
      · exact live_connect.mpr ⟨cn', hold, hret⟩
  | session k => exact hlive
  | quit q => exact hlive

theorem live_quits_set {q : Nat} {pc : QPc} {net : Net}
    (hq : l.live (.quit q) = true)
    (hlive : live { l with net := net, quits := l.quits.set q pc } op
      = true) : l.live op = true := by
  cases op with
  | connect c => exact hlive
  | session k => exact hlive
  | quit q' =>
      obtain ⟨pc', hget, hpc⟩ := live_quit.mp hlive
      rcases Threads.moved_inv hget with ⟨rfl, -⟩ | ⟨-, hold⟩
      · exact hq
      · exact live_quit.mpr ⟨pc', hold, hpc⟩

theorem live_connects_snoc {cn : Connect}
    (hlive : live { l with connects := l.connects ++ [cn] } op = true) :
    l.live op = true ∨ op = .connect l.connects.length := by
  cases op with
  | connect c =>
      obtain ⟨cn', hget, hret⟩ := live_connect.mp hlive
      rcases Threads.snoc_inv hget with hold | ⟨rfl, -⟩
      · exact Or.inl (live_connect.mpr ⟨cn', hold, hret⟩)
      · exact Or.inr rfl
  | session k => exact Or.inl hlive
  | quit q => exact Or.inl hlive

theorem live_calls_snoc {snd : Sender} {home : Nat → Option Desc}
    (hlive : live { l with
      proc := { l.proc with calls := l.proc.calls ++ [snd] }, home := home }
        op = true) :
    l.live op = true ∨ op = .session l.proc.calls.length := by
  cases op with
  | connect c => exact Or.inl hlive
  | session k =>
      obtain ⟨snd', hget, hret⟩ := live_session.mp hlive
      rcases Threads.snoc_inv hget with hold | ⟨rfl, -⟩
      · exact Or.inl (live_session.mpr ⟨snd', hold, hret⟩)
      · exact Or.inr rfl
  | quit q => exact Or.inl hlive

/-- What is live when ota_update call `k` has taken a step was live, or
is the quit_serv that the call has come to. -/
theorem live_sent {k : Nat} {i : SIn} {p : Proc}
    (hp : Proc.step cs l.proc (.send k i) = some p)
    (hlive : (l.sent k i p).live op = true) :
    l.live op = true
      ∨ (hasReturned p.calls k = true ∧ op = .quit l.quits.length) := by
  have hmove := Proc.step_inv hp
  cases op with
  | connect c => exact Or.inl hlive
  | session k' =>
      left
      cases hmove with
      | send hk hs =>
          obtain ⟨snd', hget, hret⟩ := live_session.mp hlive
          rcases Threads.moved_inv hget with ⟨rfl, -⟩ | ⟨-, hold⟩
          · exact live_session.mpr ⟨_, hk, hs.returned_eq⟩
          · exact live_session.mpr ⟨snd', hold, hret⟩
  | quit q =>
      obtain ⟨pc, hget, hpc⟩ := live_quit.mp hlive
      by_cases hret : hasReturned p.calls k = true
      · rw [sent, if_pos hret] at hget
        rcases Threads.snoc_inv hget with hold | ⟨rfl, -⟩
        · exact Or.inl (live_quit.mpr ⟨pc, hold, hpc⟩)
        · exact Or.inr ⟨hret, rfl⟩
      · rw [sent, if_neg hret] at hget
        exact Or.inl (live_quit.mpr ⟨pc, hget, hpc⟩)

theorem hasReturned_iff {calls : List Sender} {k : Nat} :
    hasReturned calls k = true
      ↔ ∃ snd, calls[k]? = some snd ∧ snd.returned = true := by
  unfold hasReturned
  cases calls[k]? with
  | none => simp
  | some snd => simp

/-- The entries are called one after another: one operation at a time, in
every step that the guard allows. -/
theorem Alone.step (hi : l.Alone) (hok : sequential l a)
    (hs : step cs l a = some l') : l'.Alone := by
  have hmove := step_inv hs
  cases hmove with
  | connectToHost => exact alone_of_start _ hok fun _ => live_connects_snoc
  | deconnectClient =>
      refine alone_of_start (.quit l.quits.length) hok ?_
      intro op hlive
      cases op with
      | connect c => exact Or.inl hlive
      | session k => exact Or.inl hlive
      | quit q =>
          obtain ⟨pc, hget, hpc⟩ := live_quit.mp hlive
          rcases Threads.snoc_inv hget with hold | ⟨rfl, -⟩
          · exact Or.inl (live_quit.mpr ⟨pc, hold, hpc⟩)
          · exact Or.inr rfl
  | startOTAUpdate => exact alone_of_start _ hok fun _ => live_calls_snoc
  | reconnect hc h =>
      exact hi.mono fun _ => live_connects_set
        (live_connect.mpr ⟨_, hc, h.returned_eq⟩)
  | quitServ hq h =>
      exact hi.mono fun _ => live_quits_set
        (live_quit.mpr ⟨_, hq, quitServ_ne h⟩)
  | @send k i p _ hp =>
      have hold : l.live (.session k) = true := (step_inv hs).live rfl
      by_cases hret : hasReturned p.calls k = true
      · refine hi.handOver (.quit l.quits.length) hold ?_ ?_
        · obtain ⟨snd, hk, hsnd⟩ := hasReturned_iff.mp hret
          simp [live, sent, hk, hsnd]
        · intro op hlive
          rcases live_sent hp hlive with hwas | ⟨-, hnew⟩
          · exact Or.inl hwas
          · exact Or.inr hnew
      · refine hi.mono fun op hlive => ?_
        rcases live_sent hp hlive with hwas | ⟨hyes, -⟩
        · exact hwas
        · exact absurd hyes hret
  | read hj _ hp =>
      refine hi.mono fun op hlive => ?_
      cases Proc.step_inv hp with
      | read => cases op <;> exact hlive
  | fopen | enterWrite | enterRead | otherOpen | otherClose =>
      refine hi.mono fun op hlive => ?_
      cases op <;> exact hlive

theorem alone_loaded : loaded.Alone := by
  intro op op' hlive
  cases op <;> simp [live, loaded, Proc.loaded] at hlive

end Library

end BtOta
