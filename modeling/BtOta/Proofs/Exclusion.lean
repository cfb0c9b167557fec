/-
Whether `isOTARun` keeps two firmware sessions apart.

It does not. The thread that reads the log resets it when it reads the
OTA STOP line, and that line does not mean that ota_update has returned:
hidRead logs it on a read error while the sender goes on transmitting
(`released_early`), ota_update logs it before it closes its descriptors,
and the log can end, or be cut short, at any time.

`awaited` asks that the thread reset the flag only when the ota_update
it has started has been made and has returned. In every run whose steps
meet it the flag is false only while no session runs, and a session
starts only when the earlier ones have returned (`one_session`); the
sessions of such a run are successive ones (`awaited_successive`). A
thread that does not wait has a run that breaks it (`early_release`).
-/
import BtOta.Activity
import BtOta.Proofs.Readers

namespace BtOta

/-- The call of ota_update made for this click has returned, which is
what the reset of the flag should wait for. -/
def Worker.served (calls : List Sender) (wk : Worker) : Bool :=
  match wk.native with
  | .called k => (calls[k]?.map Sender.returned).getD false
  | .none | .started => false

/-- The thread has come to its end, and no call of ota_update is left of
the click. -/
def Worker.settled (calls : List Sender) (wk : Worker) : Bool :=
  match wk.pc with
  | .ended => wk.served calls
  | .died => decide (wk.native = .none) || wk.served calls
  | _ => false

namespace Activity

/-- `isOTARun` is reset only when the call it stands for has returned.
The app does not wait for that, so this is a guard. -/
def awaited (u : Activity) : UAct → Prop
  | .worker w .tick => ∀ wk ∈ u.workers[w]?, wk.pc = .release →
      wk.served u.proc.calls = true
  | .create => ∀ wk ∈ u.workers, wk.settled u.proc.calls = true
  | _ => True

instance (u : Activity) (a : UAct) : Decidable (awaited u a) :=
  match a with
  | .worker w .tick => inferInstanceAs (Decidable (∀ wk ∈ u.workers[w]?, _))
  | .create => inferInstanceAs (Decidable (∀ wk ∈ u.workers, _))
  | .click _ | .native _ _ _ | .clear _ | .logcat _ | .proc _
  | .worker _ .threw | .worker _ .line | .worker _ .eof =>
      inferInstanceAs (Decidable True)

/-- What a run under `awaited` keeps: while the flag is clear every
thread is settled, and while it is set all but the last are. -/
structure GuardInv (u : Activity) : Prop where
  free : u.isOTARun = false →
    ∀ wk ∈ u.workers, wk.settled u.proc.calls = true
  busy : ∀ w wk, u.workers[w]? = some wk → w + 1 < u.workers.length →
    wk.settled u.proc.calls = true
  made : ∀ k < u.proc.calls.length,
    ∃ wk ∈ u.workers, wk.native = .called k
  fresh : ∀ wk ∈ u.workers, wk.pc = .clear ∨ wk.pc = .sleep
    ∨ wk.pc = .spawn → wk.native = .none

end Activity

-- ================================================================ the thread

variable {calls calls' : List Sender} {wk wk' : Worker} {i : WIn}

/-- Calls that have returned stay as they are, and none is taken away. -/
def Kept (calls calls' : List Sender) : Prop :=
  ∀ (k : Nat) (l : Sender), calls[k]? = some l → l.returned = true →
    calls'[k]? = some l

theorem Worker.settled_mono (hc : Kept calls calls')
    (h : wk.settled calls = true) : wk.settled calls' = true := by
  have hserved : wk.served calls = true → wk.served calls' = true := by
    intro hs
    unfold served at hs ⊢
    cases hn : wk.native with
    | none | started =>
        rw [hn] at hs
        cases hs
    | called k =>
        simp only [hn] at hs ⊢
        cases hl : calls[k]? with
        | none =>
            rw [hl] at hs
            cases hs
        | some l =>
            rw [hl] at hs
            rw [hc k l hl hs]
            exact hs
  unfold settled at h ⊢
  cases hpc : wk.pc with
  | ended =>
      simp only [hpc] at h ⊢
      exact hserved h
  | died =>
      simp only [hpc, Bool.or_eq_true] at h ⊢
      exact h.imp_right hserved
  | _ =>
      rw [hpc] at h
      cases h

theorem Worker.settled_pc (h : wk.settled calls = true) :
    wk.pc = .ended ∨ wk.pc = .died := by
  cases hpc : wk.pc with
  | ended => exact Or.inl rfl
  | died => exact Or.inr rfl
  | _ =>
      unfold settled at h
      rw [hpc] at h
      cases h

/-- A click whose call is still to be made is not settled, so no other
click can have begun meanwhile. -/
theorem Worker.not_settled_of_started (hn : wk.native = .started) :
    wk.settled calls = false := by
  have hs : wk.served calls = false := by
    unfold served
    rw [hn]
  unfold settled
  cases wk.pc with
  | ended => exact hs
  | died => simp [hs, hn]
  | _ => rfl

/-- The call of a thread that is settled has returned, whichever call
that is. -/
theorem Worker.returned_of_settled {k : Nat} {l : Sender}
    (h : wk.settled calls = true) (hn : wk.native = .called k)
    (hk : calls[k]? = some l) : l.returned = true := by
  have hserved : wk.served calls = l.returned := by simp [served, hn, hk]
  rcases settled_pc h with hpc | hpc
  · unfold settled at h
    rw [hpc] at h
    exact hserved.symm.trans h
  · simpa [settled, hpc, hn, hserved] using h

/-- Only what concerns the log has changed, which is not looked at. -/
theorem Worker.settled_congr (hpc : wk'.pc = wk.pc)
    (hn : wk'.native = wk.native) : wk'.settled calls = wk.settled calls := by
  simp only [settled, served, hpc, hn]

/-- What a step of the thread does to its place and to its native thread:
it starts the native thread, or leaves it as it is and goes on towards
the end, which it comes to from where the flag is reset. -/
theorem WStep.course (h : WStep wk i wk') :
    wk.pc = .spawn ∧ wk'.pc = .exec ∧ wk'.native = .started
      ∨ wk'.native = wk.native
        ∧ (wk'.pc = .ended → wk.pc = .release)
        ∧ (wk.pc = .release → wk'.pc = .ended ∧ i = .tick)
        ∧ wk.pc ≠ .ended ∧ wk.pc ≠ .died ∧ wk'.pc ≠ .clear
        ∧ (wk'.pc = .sleep ∨ wk'.pc = .spawn →
          wk.pc = .clear ∨ wk.pc = .sleep) := by
  cases h with
  | spawn pc => exact Or.inl ⟨pc, rfl, rfl⟩
  | clear pc | sleep pc | exec pc | release pc | readFail pc | line pc
  | stop pc | eof pc => exact Or.inr (by simp [pc])
  | dies pc => rcases pc with pc | pc <;> exact Or.inr (by simp [pc])

/-- A thread that moves is not settled, since a settled one has ended and
its call has returned. -/
theorem Worker.not_settled_of_step (h : wk.step i = some wk') :
    wk.settled calls = false := by
  have hpc : wk.pc ≠ .ended ∧ wk.pc ≠ .died := by
    rcases (step_inv h).course with ⟨hpc, -⟩ | ⟨-, -, -, hne, hnd, -⟩
    · rw [hpc]
      exact ⟨nofun, nofun⟩
    · exact ⟨hne, hnd⟩
  by_contra ho
  rcases settled_pc (Bool.not_eq_false _ ▸ ho) with h' | h'
  · exact hpc.1 h'
  · exact hpc.2 h'

-- ============================================================ the invariant

namespace Activity

variable {cs : CharSign} {u : Activity}

/-- A thread that is not settled is the last that was started, since a
click starts one only when the others are settled. -/
theorem GuardInv.last (hi : GuardInv u) {w : Nat}
    (hw : u.workers[w]? = some wk)
    (hset : wk.settled u.proc.calls = false) : u.workers.length = w + 1 := by
  have hlen : w < u.workers.length := (List.getElem?_eq_some_iff.mp hw).1
  by_contra hne
  cases (hi.busy w wk hw (by omega)).symm.trans hset

/-- The other threads are settled, so a step of the last one is all there
is to look at. -/
theorem GuardInv.others (hi : GuardInv u) {w : Nat}
    (hlast : u.workers.length = w + 1) {wk₁ wk₂ : Worker}
    (h : wk₁ ∈ u.workers.set w wk₂) :
    wk₁ = wk₂ ∨ wk₁ ∈ u.workers ∧ wk₁.settled u.proc.calls = true := by
  obtain ⟨n, hn⟩ := List.mem_iff_getElem?.mp h
  rcases Threads.moved_inv hn with ⟨-, rfl⟩ | ⟨hnw, hold⟩
  · exact Or.inl rfl
  · have hlt := (List.getElem?_eq_some_iff.mp hold).1
    exact Or.inr
      ⟨List.mem_of_getElem? hold, hi.busy n wk₁ hold (by omega)⟩

/-- A call stays with the thread that has made it, so every call has a
thread to wait for it. -/
theorem GuardInv.made_set (hi : GuardInv u) {w : Nat}
    (hw : u.workers[w]? = some wk)
    (hkeep : ∀ k, wk.native = .called k → wk'.native = .called k) :
    ∀ k < u.proc.calls.length,
      ∃ wk₁ ∈ u.workers.set w wk', wk₁.native = .called k := by
  intro k hk
  obtain ⟨wk₁, hwk₁, hn₁⟩ := hi.made k hk
  obtain ⟨n, hn⟩ := List.mem_iff_getElem?.mp hwk₁
  by_cases hnw : n = w
  · subst hnw
    cases hw.symm.trans hn
    have hlen : n < u.workers.length := (List.getElem?_eq_some_iff.mp hw).1
    exact ⟨wk', List.mem_set hlen wk', hkeep k hn₁⟩
  · exact ⟨wk₁, List.mem_of_getElem? (Threads.moved_of_ne hnw hn), hn₁⟩

theorem GuardInv.loaded : GuardInv Activity.loaded where
  free := nofun
  busy := nofun
  made := nofun
  fresh := nofun

theorem GuardInv.click (hi : GuardInv u) (fwFilePath : String) :
    GuardInv (u.onClick fwFilePath) := by
  unfold onClick
  split
  case isTrue => exact hi
  case isFalse =>
    split
    case isFalse => exact hi
    case isTrue hfree =>
      refine ⟨nofun, ?_, ?_, ?_⟩
      · intro w wk hw hlt
        simp only [List.length_append, List.length_singleton] at hlt
        rw [List.getElem?_append_left (by omega)] at hw
        exact hi.free hfree wk (List.mem_of_getElem? hw)
      · intro k hk
        obtain ⟨wk, hwk, hn⟩ := hi.made k hk
        exact ⟨wk, List.mem_append_left _ hwk, hn⟩
      · intro wk hwk hpc
        rcases List.mem_append.mp hwk with hwk | hwk
        · exact hi.fresh wk hwk hpc
        · rw [List.mem_singleton.mp hwk]
          rfl

theorem GuardInv.worker (hi : GuardInv u) {w : Nat}
    (hok : awaited u (.worker w i)) (hw : u.workers[w]? = some wk)
    (h : wk.step i = some wk') :
    GuardInv { u with
      isOTARun := if wk.pc = .release then false else u.isOTARun
      workers := u.workers.set w wk' } := by
  have hlen : w < u.workers.length := (List.getElem?_eq_some_iff.mp hw).1
  have hmem : wk ∈ u.workers := List.mem_of_getElem? hw
  have hstep := (Worker.step_inv h).course
  have hset : wk.settled u.proc.calls = false := Worker.not_settled_of_step h
  have hlast := hi.last hw hset
  have hbusy : ∀ n wk₁, (u.workers.set w wk')[n]? = some wk₁ →
      n + 1 < (u.workers.set w wk').length →
      wk₁.settled u.proc.calls = true := by
    intro n wk₁ hn hlt
    rw [List.length_set] at hlt
    rw [List.getElem?_set_ne (by omega)] at hn
    exact hi.busy n wk₁ hn hlt
  refine ⟨?_, hbusy, ?_, ?_⟩
  · intro hfree wk₁ hwk₁
    rcases hi.others hlast hwk₁ with rfl | ⟨-, ho⟩
    · by_cases hpc : wk.pc = .release
      · -- the flag is reset, and the call has returned
        rcases hstep with ⟨hsp, -⟩ | ⟨hn, -, hrel, -⟩
        · cases hsp.symm.trans hpc
        · obtain ⟨hend, rfl⟩ := hrel hpc
          have hserved := hok wk hw hpc
          rw [Worker.settled, hend]
          simpa only [Worker.served, hn] using hserved
      · simp only [if_neg hpc] at hfree
        cases (hi.free hfree wk hmem).symm.trans hset
    · exact ho
  · apply hi.made_set hw
    intro k hk
    rcases hstep with ⟨hsp, -⟩ | ⟨hn, -⟩
    · cases hk.symm.trans (hi.fresh wk hmem (Or.inr (Or.inr hsp)))
    · exact hn.trans hk
  · intro wk₁ hwk₁ hpc₁
    rcases hi.others hlast hwk₁ with rfl | ⟨hold, -⟩
    · rcases hstep with ⟨-, hex, -⟩ | ⟨hn, -, -, -, -, hnc, hsl⟩
      · rcases hpc₁ with h' | h' | h' <;> cases hex.symm.trans h'
      · rw [hn]
        apply hi.fresh wk hmem
        rcases hsl (hpc₁.resolve_left hnc) with h' | h'
        · exact Or.inl h'
        · exact Or.inr (Or.inl h')
    · exact hi.fresh wk₁ hold hpc₁

/-- With a native thread still to call, every call made has returned, so
the next call begins alone. -/
theorem GuardInv.all_returned (hi : GuardInv u) {w : Nat}
    (hw : u.workers[w]? = some wk) (hst : wk.native = .started) :
    ∀ l ∈ u.proc.calls, l.returned = true := by
  have hset : wk.settled u.proc.calls = false :=
    Worker.not_settled_of_started hst
  have hlast := hi.last hw hset
  intro l hl
  obtain ⟨k, hk⟩ := List.mem_iff_getElem?.mp hl
  obtain ⟨wk₁, hwk₁, hn₁⟩ :=
    hi.made k (List.getElem?_eq_some_iff.mp hk).1
  obtain ⟨n, hn⟩ := List.mem_iff_getElem?.mp hwk₁
  have hnlt := (List.getElem?_eq_some_iff.mp hn).1
  have hnw : n ≠ w := by
    intro heq
    subst heq
    cases hw.symm.trans hn
    cases hn₁.symm.trans hst
  exact Worker.returned_of_settled (hi.busy n wk₁ hn (by omega)) hn₁ hk

theorem GuardInv.native (hi : GuardInv u) {w : Nat}
    (hw : u.workers[w]? = some wk) (hst : wk.native = .started)
    (snd : Sender) :
    GuardInv { u with
      workers := u.workers.set w
        { wk with native := .called u.proc.calls.length }
      proc := { u.proc with calls := u.proc.calls ++ [snd] } } := by
  have hlen : w < u.workers.length := (List.getElem?_eq_some_iff.mp hw).1
  have hmem : wk ∈ u.workers := List.mem_of_getElem? hw
  have hset : wk.settled u.proc.calls = false :=
    Worker.not_settled_of_started hst
  have hlast := hi.last hw hset
  have hmono : Kept u.proc.calls (u.proc.calls ++ [snd]) := by
    intro k l hl _
    exact Threads.snoc hl
  refine ⟨?_, ?_, ?_, ?_⟩
  · intro hfree
    cases (hi.free hfree wk hmem).symm.trans hset
  · intro n wk₁ hn hlt
    simp only [List.length_set] at hlt
    rw [List.getElem?_set_ne (by omega)] at hn
    exact Worker.settled_mono hmono (hi.busy n wk₁ hn hlt)
  · intro k hk
    simp only [List.length_append, List.length_singleton] at hk
    by_cases hnew : k = u.proc.calls.length
    · subst hnew
      exact ⟨_, List.mem_set hlen _, rfl⟩
    · exact hi.made_set hw (fun k hk => nomatch hk.symm.trans hst) k
        (by omega)
  · intro wk₁ hwk₁ hpc₁
    rcases hi.others hlast hwk₁ with rfl | ⟨hold, -⟩
    · cases (hi.fresh wk hmem hpc₁).symm.trans hst
    · exact hi.fresh wk₁ hold hpc₁

theorem GuardInv.logged (hi : GuardInv u) {w : Nat} (cleared : Nat)
    (hw : u.workers[w]? = some wk) (hpc : wk'.pc = wk.pc)
    (hnat : wk'.native = wk.native) :
    GuardInv
      { u with workers := u.workers.set w wk', cleared := cleared } := by
  have hmem : wk ∈ u.workers := List.mem_of_getElem? hw
  refine ⟨?_, ?_, ?_, ?_⟩
  · intro hfree wk₁ hwk₁
    rcases List.mem_or_eq_of_mem_set hwk₁ with hold | rfl
    · exact hi.free hfree wk₁ hold
    · rw [Worker.settled_congr hpc hnat]
      exact hi.free hfree wk hmem
  · intro n wk₁ hn hlt
    simp only [List.length_set] at hlt
    rcases Threads.moved_inv hn with ⟨rfl, rfl⟩ | ⟨-, hold⟩
    · rw [Worker.settled_congr hpc hnat]
      exact hi.busy n wk hw hlt
    · exact hi.busy n wk₁ hold hlt
  · exact hi.made_set hw fun k hk => hnat.trans hk
  · intro wk₁ hwk₁ hpc₁
    rcases List.mem_or_eq_of_mem_set hwk₁ with hold | rfl
    · exact hi.fresh wk₁ hold hpc₁
    · rw [hpc] at hpc₁
      exact hnat.trans (hi.fresh wk hmem hpc₁)

theorem GuardInv.proc (hi : GuardInv u) {a : PAct} {p : Proc}
    (hcall : ∀ q st, a ≠ .call q st)
    (h : Proc.step cs u.proc a = some p) :
    GuardInv { u with proc := p } := by
  have hkeep : p.calls.length = u.proc.calls.length
      ∧ Kept u.proc.calls p.calls := by
    cases Proc.step_inv h with
    | call param2 stack => exact absurd rfl (hcall param2 stack)
    | send hk hm =>
        refine ⟨List.length_set, fun n l hl hret => ?_⟩
        rw [List.getElem?_set_ne]
        · exact hl
        · -- a call that has returned takes no step
          intro heq
          subst heq
          cases hk.symm.trans hl
          cases hret.symm.trans hm.not_returned
    | read hj hm => exact ⟨rfl, fun _ _ hl _ => hl⟩
  refine ⟨?_, ?_, ?_, hi.fresh⟩
  · intro hfree wk hwk
    exact Worker.settled_mono hkeep.2 (hi.free hfree wk hwk)
  · intro w wk hw hlt
    exact Worker.settled_mono hkeep.2 (hi.busy w wk hw hlt)
  · intro k hk
    exact hi.made k (hkeep.1 ▸ hk)

theorem GuardInv.step {u' : Activity} {a : UAct} (hi : GuardInv u)
    (hok : awaited u a) (h : Activity.step cs u a = some u') :
    GuardInv u' := by
  cases step_inv h with
  | create => exact ⟨fun _ => hok, hi.busy, hi.made, hi.fresh⟩
  | click fwFilePath => exact hi.click fwFilePath
  | worker hw hst => exact hi.worker hok hw hst
  | native hw hst v stack => exact hi.native hw hst _
  | log ha hw hpc hnat => exact hi.logged _ hw hpc hnat
  | proc hcall hp => exact hi.proc hcall hp

theorem GuardInv.of_reach
    (h : Lts.Reach (Activity.step cs) awaited Activity.loaded u) :
    GuardInv u :=
  h.invariant (I := GuardInv) GuardInv.loaded
    fun _ _ _ hi hok hs => hi.step hok hs

end Activity

-- ================================================================= results

/-- The sessions of a run under `awaited` are successive ones, so what is
proved of those holds of the app. -/
theorem awaited_successive {cs : CharSign} {u : Activity}
    (h : Lts.Reach (Activity.step cs) Activity.awaited Activity.loaded u) :
    Lts.Reach (Proc.step cs) Proc.successive Proc.loaded u.proc := by
  refine h.invariant₂ (J := Activity.GuardInv)
    (I := fun u => Lts.Reach (Proc.step cs) Proc.successive Proc.loaded
      u.proc) (fun _ => Activity.GuardInv.of_reach) (Lts.Reach.refl _) ?_
  intro u a u' hi hr hok hs
  cases Activity.step_inv hs with
  | create | worker hw hst | log ha hw hpc hnat => exact hr
  | click fwFilePath =>
      show Lts.Reach (Proc.step cs) Proc.successive Proc.loaded
        (u.onClick fwFilePath).proc
      unfold Activity.onClick
      split
      · exact hr
      · split <;> exact hr
  | native hw hst v stack =>
      exact hr.tail (a := .call (some (Activity.verboseS v)) stack)
        (hi.all_returned hw hst) rfl
  | @proc b p hcall hp =>
      refine hr.tail ?_ hp
      cases b with
      | call q st => exact absurd rfl (hcall q st)
      | send k i | read j i => trivial

/-- In every run under `awaited`, no ota_update call is executing while
`isOTARun` is false, and every call but the last has returned. -/
theorem one_session {cs : CharSign} {u : Activity}
    (h : Lts.Reach (Activity.step cs) Activity.awaited Activity.loaded u) :
    (u.isOTARun = false → ∀ l ∈ u.proc.calls, l.returned = true)
      ∧ u.proc.Sequential := by
  refine ⟨?_, Proc.Sequential.of_reach (awaited_successive h)⟩
  intro hfree l hl
  have hi := Activity.GuardInv.of_reach h
  obtain ⟨k, hk⟩ := List.mem_iff_getElem?.mp hl
  obtain ⟨wk, hwk, hn⟩ := hi.made k (List.getElem?_eq_some_iff.mp hk).1
  exact Worker.returned_of_settled (hi.free hfree wk hwk) hn hk

/-- A thread that resets the flag before the call of its click has
returned has a run in which the call executes while the flag is
false. -/
theorem early_release {cs : CharSign} {u : Activity} {w : Nat}
    {wk : Worker} (hw : u.workers[w]? = some wk) (hpc : wk.pc = .release)
    (hcall : wk.native = .started
      ∨ ∃ k l, wk.native = .called k ∧ u.proc.calls[k]? = some l
        ∧ l.returned = false) :
    ∃ u', Lts.Reach (Activity.step cs) Lts.free u u'
      ∧ u'.isOTARun = false ∧ ∃ l ∈ u'.proc.calls, l.returned = false := by
  have hlen : w < u.workers.length := (List.getElem?_eq_some_iff.mp hw).1
  -- the step that resets it
  let u₁ : Activity :=
    { u with
      isOTARun := false
      workers := u.workers.set w { wk with pc := .ended } }
  have hrel : Activity.step cs u (.worker w .tick) = some u₁ := by
    simp [Activity.step, hw, Worker.step, hpc, u₁]
  have hreach : Lts.Reach (Activity.step cs) Lts.free u u₁ :=
    (Lts.Reach.refl u).tail (a := .worker w .tick) trivial hrel
  rcases hcall with hst | ⟨k, l, -, hk, hret⟩
  · -- the native thread calls ota_update now
    have hw₁ : u₁.workers[w]? = some { wk with pc := .ended } :=
      List.getElem?_set_self hlen
    have hnat : ∃ u₂, Activity.step cs u₁ (.native w false fun _ => 0)
        = some u₂ ∧ u₂.isOTARun = false
        ∧ ∃ l ∈ u₂.proc.calls, l.returned = false := by
      simp only [Activity.step, hw₁, Option.bind_eq_bind, Option.bind_some,
        hst, if_true, Proc.step]
      exact ⟨_, rfl, rfl, Sender.call _ _,
        List.mem_append_right _ (List.mem_singleton_self _), rfl⟩
    obtain ⟨u₂, hstep, hfree, hrun⟩ := hnat
    exact ⟨u₂, hreach.tail (a := .native w false fun _ => 0) trivial hstep,
      hfree, hrun⟩
  · exact ⟨u₁, hreach, rfl, l, List.mem_of_getElem? hk, hret⟩

-- ============================================================== two clicks

/-- The first click on Start, up to the call of ota_update: the thread
and the native thread it starts. -/
def pressStart : List UAct :=
  [.click "fw.img", .worker 0 .tick, .clear 0, .worker 0 .tick,
    .worker 0 .tick, .worker 0 .tick, .native 0 false (fun _ => 0)]

/-- The thread reads five lines of the log and resets `isOTARun`. -/
def readsStop : List UAct :=
  List.replicate 5 (.logcat 0) ++ List.replicate 5 (.worker 0 .line)
    ++ [.worker 0 .tick]

/-- The device answers both packets, and the thread resumes when
ota_update has returned. -/
def released : Activity :=
  (Lts.run (Activity.step .unsigned) Activity.awaited Activity.loaded
    (pressStart ++ (answeredCall 0 0 ++ returns 0).map .proc
      ++ readsStop)).getD Activity.loaded

/-- The click's session is over when the flag is false again, as it is
meant to be. -/
theorem one_session_released :
    released.isOTARun = false
      ∧ ∀ l ∈ released.proc.calls, l.returned = true :=
  ⟨by decide, (@one_session .unsigned released
    (Lts.Reach.of_isSome (by decide))).1 (by decide)⟩

/-- A read fails while the first packet is outstanding, and hidRead logs
OTA STOP. -/
def failedFirstRead : List PAct :=
  [.send 0 .tick, .send 0 (.opened (some dataImage.bytes))]
    ++ sendFirst.map (Act.ofCall 0 0)
    ++ [.read 0 .tick, .read 0 (.got none), .read 0 .tick, .read 0 .tick,
      .read 0 .tick]

/-- `isOTARun` is false and the sender is polling for an answer, with
retries to come. -/
theorem released_early :
    ¬ ∀ (cs : CharSign) (u : Activity),
      Lts.Reach (Activity.step cs) Lts.free Activity.loaded u →
      u.isOTARun = false → ∀ l ∈ u.proc.calls, l.returned = true := by
  intro h
  have hall := h .unsigned _ (Lts.Reach.of_isSome
    (show (Lts.run (Activity.step .unsigned) Lts.free Activity.loaded
      (pressStart ++ failedFirstRead.map .proc ++ readsStop)).isSome = true
      by decide)) (by decide)
  exact absurd hall (by decide)

end BtOta
