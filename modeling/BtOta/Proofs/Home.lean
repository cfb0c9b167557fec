/-
Whether a session stays on the connection it began with.

It need not. hidWrite and hidRead look at the number in `intr` each time
they run, `intr` is 0 before the first connection, keeps its number when
quit_serv has closed the channel, and is overwritten by the next
do_connect; and a number that is free is given out again. So a session
that begins without a connection writes its packets to whatever the
number 0 stands for (`stray_write`), one that goes on across a
Disconnect to whatever is opened next, and one that goes on across a
Connect to the new channel. A reader that outlives its session reads on
for the next one.

`steady` asks, step by step, that none of this happens: that a session
begins with `intr` free or an interrupt channel, that `intr` is not
stored and its number not given out while some session may still write
or read, and that a session sets flagRead only when the readers still
there have nothing but their own channel to read. In every run whose
steps meet it each packet goes to, and each report comes from, the
interrupt channel that was open when the session began (`stays_home`).
-/
import BtOta.Proofs.Holdings
import BtOta.Proofs.Frame

namespace BtOta

open Descriptors

-- ================================================================ vocabulary

/-- The sender may still come to a write, from where it stands. -/
def SPc.ahead (pc : SPc) : Bool := pc == .init || pc == .load || pc.live

/-- The reader may still come to a read, if flagRead lets it. -/
def RPc.goesOn : RPc → Bool
  | .test | .read | .decide | .store _ => true
  | _ => false

namespace Library

/-- ota_update call `k` may still enter write, as far as its place tells.
-/
def mayWrite (l : Library) (k : Nat) : Bool :=
  l.proc.calls[k]?.any fun snd => snd.pc.ahead

/-- Reader `j` may still enter read: it is about to, or goes on and
flagRead is set. -/
def mayRead (l : Library) (j : Nat) : Bool :=
  l.proc.rdrs[j]?.any fun r =>
    (r.2.goesOn && l.proc.g.flagRead)
      || (r.2 == .read && (l.reading j).isNone)

/-- Some session may still write or read; what ota_update call `k` may
write aside, where one is named. -/
def busy (l : Library) (aside : Option Nat) : Prop :=
  (∃ k < l.proc.calls.length, some k ≠ aside ∧ l.mayWrite k = true)
    ∨ ∃ j < l.proc.rdrs.length, l.mayRead j = true

instance (l : Library) (aside : Option Nat) : Decidable (l.busy aside) :=
  inferInstanceAs (Decidable ((∃ k < _, _) ∨ ∃ j < _, _))

/-- What `intr` names, if it is open, is the channel that call `k` began
with. A closed channel does no harm: the call fails. -/
def onHome (l : Library) (k : Nat) : Prop :=
  ∀ d ∈ l.net.fds l.net.intr, l.home k = some d

instance (l : Library) (k : Nat) : Decidable (l.onHome k) :=
  inferInstanceAs (Decidable (∀ d ∈ _, _))

/-- Nothing comes between a session and the connection it began with:
whatever would make `intr` name something new waits until no session can
use it. -/
def steady (l : Library) : LibAct → Prop
  | .startOTAUpdate _ _ =>
      ∀ d ∈ l.net.fds l.net.intr, d.isIntr = true
  | .reconnect c .tick =>
      ∀ cn ∈ l.connects[c]?, cn.pc = .storeIntr → ¬ l.busy none
  | .reconnect _ (.number n) | .otherOpen n _ =>
      n = l.net.intr → ¬ l.busy none
  | .fopen k n => n = l.net.intr → ¬ l.busy (some k)
  | .send k .tick =>
      ∀ snd ∈ l.proc.calls[k]?, snd.pc = .init →
        ∀ r ∈ l.proc.rdrs, r.2.goesOn = true → l.onHome r.1
  | _ => True

instance (l : Library) : ∀ a, Decidable (steady l a)
  | .startOTAUpdate _ _ => inferInstanceAs (Decidable (∀ d ∈ _, _))
  | .reconnect _ .tick =>
      inferInstanceAs (Decidable (∀ cn ∈ _, _ → ¬ l.busy none))
  | .reconnect _ (.number _) | .otherOpen _ _ =>
      inferInstanceAs (Decidable (_ → ¬ l.busy none))
  | .fopen k _ => inferInstanceAs (Decidable (_ → ¬ l.busy (some k)))
  | .send _ .tick =>
      inferInstanceAs (Decidable (∀ snd ∈ _, _ → ∀ r ∈ _, _ → _))
  | .connectToHost | .deconnectClient | .quitServ _ | .enterWrite _
  | .enterRead _ | .read _ _ | .otherClose _ | .reconnect _ .failed
  | .reconnect _ .ok | .send _ (.opened _) | .send _ (.created _)
  | .send _ (.wrote _) => inferInstanceAs (Decidable True)

/-- Every packet went to the channel its session began with, and every
report came from the channel its reader's session began with. -/
def atHome (l : Library) : Prop :=
  ∀ k d, .wrote k d ∈ l.net.log ∨ .consumed k d ∈ l.net.log →
    l.home k = some d

end Library

variable {cs : CharSign} {l l' : Library} {a : LibAct} {net net' : Net}
  {c k j : Nat} {cn cn' : Connect} {g g' : Shared} {es : List Event}

-- ===================================================== what a step can bring

/-- A sender that may still write could before its step, so being past
the last write is for good. -/
theorem SStep.ahead_of {snd snd' : Sender} {i : SIn}
    (h : SStep cs g snd i g' snd' es) (hf : snd'.pc.ahead = true) :
    snd.pc.ahead = true := by
  cases h with
  | init pc | openFail pc | opened pc | openOver pc | created pc | next pc
  | newStage pc | assemble pc | crash pc | retry pc | giveUp pc | wrote pc
  | writeFail pc | poll pc | timeout pc | nextHit pc | nextMiss pc
  | errHit pc | errMiss pc | completeHit pc | completeMiss pc =>
      rw [pc]
      rfl
  | flag | verdict | stop | quitThread | quitServ => cases hf

/-- flagRead is set by a session's initial stores alone, and by nobody
else. -/
theorem SStep.flagRead_of {snd snd' : Sender} {i : SIn}
    (h : SStep cs g snd i g' snd' es) (hf : g'.flagRead = true) :
    g.flagRead = true ∨ (snd.pc = .init ∧ i = .tick) := by
  cases h with
  | init pc => exact Or.inr ⟨pc, rfl⟩
  | assemble pc hasm => exact Or.inl ((assembled_of_some hasm).flagRead ▸ hf)
  | flag => cases hf
  | _ => exact Or.inl hf

theorem RStep.flagRead_of {pc pc' : RPc} {i : RIn}
    (h : RStep cs g pc i g' pc' es) (hf : g'.flagRead = true) :
    g.flagRead = true := by
  cases h with
  | failFlag => cases hf
  | _ => exact hf

/-- A reader that goes on has gone on: one that has left its loop does
not come back to it. -/
theorem RStep.goesOn_of {pc pc' : RPc} {i : RIn}
    (h : RStep cs g pc i g' pc' es) (hf : pc'.goesOn = true) :
    pc.goesOn = true := by
  cases h with
  | enter pc | leave pc | readFail pc | report pc | stray pc | decide pc
  | ignore pc | store pc | failFlag pc | failLog pc | failStop pc =>
      first
        | rw [pc]; rfl
        | cases hf

/-- A reader comes to read with flagRead set. -/
theorem RStep.read_of {pc : RPc} {i : RIn}
    (h : RStep cs g pc i g' .read es) :
    pc = .test ∧ g.flagRead = true := by
  cases h with
  | enter pc hflag => exact ⟨pc, hflag⟩

/-- What `intr` names is what it named, or nothing, unless do_connect
has stored it or its number has been given out. -/
theorem CStep.intr_of {i : CIn} (h : CStep c net cn i net' cn') :
    (net'.intr = net.intr ∧ ∀ d ∈ net'.fds net.intr, d ∈ net.fds net.intr)
      ∨ (i = .tick ∧ cn.pc = .storeIntr) ∨ i = .number net.intr := by
  cases h with
  | @openCtl n pc free | @socket n p pc free =>
      by_cases hn : n = net.intr
      · rw [hn]
        exact Or.inr (Or.inr rfl)
      · left
        refine ⟨rfl, fun d hd => ?_⟩
        exact (opened_of_ne (Ne.symm hn)).symm.trans hd
  | drop | closeCsk | closeCtl =>
      exact Or.inl ⟨rfl, fun d hd => (getClosed.mp hd).2⟩
  | storeIntr pc => exact Or.inr (Or.inl ⟨rfl, pc⟩)
  | _ => exact Or.inl ⟨rfl, fun d hd => hd⟩

namespace Library

/-- A reader that may read is about to, or goes on with flagRead set. -/
theorem mayRead_of {pc : RPc} (hj : l.proc.rdrs[j]? = some (k, pc)) :
    l.mayRead j = true ↔
      (pc.goesOn = true ∧ l.proc.g.flagRead = true)
        ∨ (pc = .read ∧ l.reading j = none) := by
  simp [mayRead, hj]

theorem lt_of_mayWrite (h : l.mayWrite k = true) :
    k < l.proc.calls.length :=
  Threads.lt_of_any h

theorem lt_of_mayRead (h : l.mayRead j = true) :
    j < l.proc.rdrs.length :=
  Threads.lt_of_any h

/-- A call is on its channel still when `intr` names nothing new; that it
names less is no matter. -/
theorem onHome.mono (h : l.onHome k) (hhome : l'.home k = l.home k)
    (hintr : l'.net.intr = l.net.intr)
    (hfds : ∀ d ∈ l'.net.fds l.net.intr, d ∈ l.net.fds l.net.intr) :
    l'.onHome k := by
  intro d hd
  rw [hintr] at hd
  exact hhome.trans (h d (hfds d hd))

/-- What a step logs of a session's packets and reports: one at most,
with what its write or read was entered on. -/
theorem Move.io_inv {e : FdEvent} (h : Move cs l a l')
    (he : e ∈ l'.net.log) :
    e ∈ l.net.log
      ∨ (∃ k d, e = .wrote k d ∧ l.writing k = some (some d))
      ∨ (∃ j k pc d, e = .consumed k d ∧ l.proc.rdrs[j]? = some (k, pc)
        ∧ l.reading j = some (some d))
      ∨ ∀ k d, e ≠ .wrote k d ∧ e ≠ .consumed k d := by
  cases h with
  | reconnect hc h =>
      cases h with
      | connectCtrl | connectIntr | drop | closeCsk | closeCtl
      | storeCtrl | storeIntr | storeStatus =>
          rcases List.mem_append.mp he with hold | hnew
          · exact Or.inl hold
          · rw [List.mem_singleton.mp hnew]
            exact Or.inr (Or.inr (Or.inr fun _ _ => ⟨(by simp), (by simp)⟩))
      | _ => exact Or.inl he
  | quitServ hq h =>
      obtain ⟨n, es, rfl, hes⟩ := quitServ_closes h
      rcases List.mem_append.mp he with hold | hnew
      · exact Or.inl hold
      · right; right; right
        rcases hes e hnew with rfl | ⟨n, d, rfl⟩ <;>
          exact fun _ _ => ⟨(by simp), (by simp)⟩
  | @send k i p hans =>
      rcases sendNet_cases hans with ⟨hnet, -⟩ | ⟨d, hd, hnet, -⟩
        | ⟨n, bytes, -, -, hnet, -⟩ <;> rw [sent, hnet] at he
      · exact Or.inl he
      · rcases List.mem_append.mp he with hold | hnew
        · exact Or.inl hold
        · exact Or.inr (Or.inl ⟨k, d, List.mem_singleton.mp hnew, hd⟩)
      · exact Or.inl he
  | @read j k i pc p hj =>
      rcases l.readNet_cases j k i with hnet | ⟨d, hd, hnet⟩ <;>
        rw [received, hnet] at he
      · exact Or.inl he
      · rcases List.mem_append.mp he with hold | hnew
        · exact Or.inl hold
        · exact Or.inr (Or.inr (Or.inl
            ⟨j, k, pc, d, List.mem_singleton.mp hnew, hj, hd⟩))
  | _ => exact Or.inl he

end Library

-- ============================================================= the invariant

namespace Library

/-- What every run under `steady` keeps: whoever may still use `intr`
finds its own channel there, and whoever has entered has found it. -/
structure HomeInv (l : Library) : Prop where
  /-- a call that may write is on its channel, or `intr` has the number
  of its file, which it closes first -/
  writers : ∀ k, l.mayWrite k = true →
    l.onHome k ∨ l.file k = some l.net.intr
  loads : l.LoadsInv
  /-- a reader that may read is on its session's channel -/
  readers : ∀ j k pc, l.proc.rdrs[j]? = some (k, pc) →
    l.mayRead j = true → l.onHome k
  owners : ∀ r ∈ l.proc.rdrs, r.1 < l.proc.calls.length
  writing : ∀ k d, l.writing k = some (some d) →
    k < l.proc.calls.length ∧ l.home k = some d
  reading : ∀ j b, l.reading j = some b →
    ∃ k pc, l.proc.rdrs[j]? = some (k, pc)
      ∧ ∀ d, b = some d → l.home k = some d
  logged : ∀ k d, .wrote k d ∈ l.net.log ∨ .consumed k d ∈ l.net.log →
    k < l.proc.calls.length ∧ l.home k = some d

theorem calls_length_le (h : Move cs l a l') :
    l.proc.calls.length ≤ l'.proc.calls.length := by
  cases h with
  | startOTAUpdate => simp
  | send _ hp =>
      cases Proc.step_inv hp with
      | send => simp [sent]
  | read _ _ hp =>
      cases Proc.step_inv hp with
      | read => exact Nat.le_refl _
  | _ => exact Nat.le_refl _

/-- A call's channel is noted once, when the call is made, and the note
is never changed. -/
theorem home_of_lt (h : Move cs l a l') (hk : k < l.proc.calls.length) :
    l'.home k = l.home k := by
  cases h with
  | startOTAUpdate => exact Function.update_of_ne (Nat.ne_of_lt hk) _ _
  | _ => rfl

theorem HomeInv.logged_step (hi : HomeInv l) (h : Move cs l a l') {d : Desc}
    (hd : .wrote k d ∈ l'.net.log ∨ .consumed k d ∈ l'.net.log) :
    k < l'.proc.calls.length ∧ l'.home k = some d := by
  suffices hbefore : k < l.proc.calls.length ∧ l.home k = some d from
    ⟨Nat.lt_of_lt_of_le hbefore.1 (calls_length_le h),
      (home_of_lt h hbefore.1).trans hbefore.2⟩
  rcases hd with hd | hd
  · rcases h.io_inv hd with hold | ⟨k', d', he, hw⟩ | ⟨_, _, _, _, he, -⟩
      | hno
    · exact hi.logged k d (Or.inl hold)
    · cases he
      exact hi.writing k d hw
    · cases he
    · exact absurd rfl (hno k d).1
  · rcases h.io_inv hd with hold | ⟨_, _, he, -⟩ | ⟨j, k', pc, d', he, hj, hr⟩
      | hno
    · exact hi.logged k d (Or.inr hold)
    · cases he
    · cases he
      obtain ⟨k₁, pc₁, hj₁, hhome⟩ := hi.reading j _ hr
      rw [hj] at hj₁
      cases hj₁
      exact ⟨hi.owners (k, pc) (List.mem_of_getElem? hj), hhome d rfl⟩
    · exact absurd rfl (hno k d).2

/-- A reader behind a step was there and has stayed, or has taken the
step, or has just been created. -/
theorem Move.rdrs_inv {pc : RPc} (h : Move cs l a l')
    (hj : l'.proc.rdrs[j]? = some (k, pc)) :
    (l.proc.rdrs[j]? = some (k, pc)
        ∧ (l'.reading j = none → l.reading j = none))
      ∨ (∃ i g es pc₀, a = .read j i ∧ l.proc.rdrs[j]? = some (k, pc₀)
        ∧ RStep cs l.proc.g pc₀ i g pc es)
      ∨ ∃ snd, a = .send k (.created 0) ∧ l.proc.calls[k]? = some snd
        ∧ snd.pc = .create := by
  cases h with
  | @enterRead j₀ k₀ hj₀ hnone =>
      left
      refine ⟨hj, fun hread => ?_⟩
      by_cases heq : j = j₀
      · subst heq
        exact hnone
      · exact (Function.update_of_ne heq _ l.reading).symm.trans hread
  | @send k₀ i p _ hp =>
      cases Proc.step_inv hp with
      | @send _ _ g snd snd' es hk hstep =>
          by_cases hi : i = .created 0
          · subst hi
            rcases Threads.snoc_inv hj with hold | ⟨-, heq⟩
            · exact Or.inl ⟨hold, id⟩
            · cases heq
              cases hstep with
              | created hpc => exact Or.inr (Or.inr ⟨snd, rfl, hk, hpc⟩)
          · simp only [sent, Proc.spawn_of_ne hi] at hj
            exact Or.inl ⟨hj, id⟩
  | @read j₀ k₀ i pc₀ p _ _ hp =>
      cases Proc.step_inv hp with
      | @read _ k' _ g pc₁ pc' es hj₁ hstep =>
          rcases Threads.moved_inv hj with ⟨rfl, heq⟩ | ⟨hne, hold⟩
          · cases heq
            exact Or.inr (Or.inl ⟨i, g, es, pc₁, rfl, hj₁, hstep⟩)
          · left
            exact ⟨hold, (received_reading_of_ne hne).symm.trans⟩
  | _ => exact Or.inl ⟨hj, id⟩

/-- flagRead is set behind a step if it was, or by initial stores. -/
theorem Move.flagRead_inv (h : Move cs l a l')
    (hf : l'.proc.g.flagRead = true) :
    l.proc.g.flagRead = true
      ∨ ∃ k snd, a = .send k .tick ∧ l.proc.calls[k]? = some snd
        ∧ snd.pc = .init := by
  cases h with
  | @send k i p _ hp =>
      cases Proc.step_inv hp with
      | @send _ _ g snd snd' es hk hstep =>
          rcases hstep.flagRead_of hf with hold | ⟨hpc, rfl⟩
          · exact Or.inl hold
          · exact Or.inr ⟨k, snd, rfl, hk, hpc⟩
  | read _ _ hp =>
      cases Proc.step_inv hp with
      | read _ hstep => exact Or.inl (hstep.flagRead_of hf)
  | _ => exact Or.inl hf

theorem HomeInv.owners_step (hi : HomeInv l) (h : Move cs l a l')
    {r : Nat × RPc} (hr : r ∈ l'.proc.rdrs) :
    r.1 < l'.proc.calls.length := by
  refine Nat.lt_of_lt_of_le ?_ (calls_length_le h)
  obtain ⟨k, pc⟩ := r
  obtain ⟨j, hj⟩ := List.mem_iff_getElem?.mp hr
  rcases h.rdrs_inv hj with ⟨hj₀, -⟩ | ⟨_, _, _, pc₀, -, hj₀, -⟩
    | ⟨snd, -, hk, -⟩
  · exact hi.owners (k, pc) (List.mem_of_getElem? hj₀)
  · exact hi.owners (k, pc₀) (List.mem_of_getElem? hj₀)
  · exact (List.getElem?_eq_some_iff.mp hk).1

theorem HomeInv.writing_step (hi : HomeInv l) (h : Move cs l a l') {d : Desc}
    (hw : l'.writing k = some (some d)) :
    k < l'.proc.calls.length ∧ l'.home k = some d := by
  suffices hbefore : k < l.proc.calls.length ∧ l.home k = some d from
    ⟨Nat.lt_of_lt_of_le hbefore.1 (calls_length_le h),
      (home_of_lt h hbefore.1).trans hbefore.2⟩
  cases h with
  | @enterWrite k₀ snd hk hpc =>
      by_cases heq : k = k₀
      · subst heq
        simp only [Function.update_self, Option.some.injEq] at hw
        have hmay : l.mayWrite k = true := by
          simp [mayWrite, hk, hpc, SPc.ahead, SPc.live, SPc.awaiting]
        refine ⟨lt_of_mayWrite hmay, ?_⟩
        rcases hi.writers k hmay with hhome | hfile
        · exact hhome d hw
        · obtain ⟨snd', hk', hpc'⟩ := hi.loads k _ hfile
          rw [hk] at hk'
          cases hk'
          rcases hpc' with hpc' | hpc' <;> cases hpc.symm.trans hpc'
      · simp only [Function.update_of_ne heq] at hw
        exact hi.writing k d hw
  | @send k₀ i p =>
      by_cases heq : k = k₀
      · subst heq
        rw [sent_writing_self] at hw
        cases i with
        | wrote res => cases hw
        | tick | opened file | created ret => exact hi.writing k d hw
      · rw [sent_writing_of_ne heq] at hw
        exact hi.writing k d hw
  | _ => exact hi.writing k d hw

/-- A reader stays its call's, wherever it goes. -/
theorem rdrs_keep {pc : RPc} (h : Move cs l a l')
    (hj : l.proc.rdrs[j]? = some (k, pc)) :
    ∃ pc', l'.proc.rdrs[j]? = some (k, pc') := by
  cases h with
  | @send k₀ i p _ hp =>
      cases Proc.step_inv hp with
      | send =>
          by_cases hi : i = .created 0
          · subst hi
            exact ⟨pc, Threads.snoc hj⟩
          · refine ⟨pc, ?_⟩
            simp only [sent, Proc.spawn_of_ne hi]
            exact hj
  | @read j₀ k₀ i pc₀ p _ _ hp =>
      cases Proc.step_inv hp with
      | @read _ k' _ g pc₁ pc' es hj₀ =>
          by_cases heq : j₀ = j
          · subst heq
            rw [hj] at hj₀
            cases hj₀
            exact ⟨pc', Threads.moved hj⟩
          · exact ⟨pc, Threads.moved_of_ne (Ne.symm heq) hj⟩
  | _ => exact ⟨pc, hj⟩

/-- A reader is in read where it was, or has just entered it. -/
theorem Move.reading_inv {b : Option Desc} (h : Move cs l a l')
    (hr : l'.reading j = some b) :
    l.reading j = some b
      ∨ ∃ k, l.proc.rdrs[j]? = some (k, .read) ∧ l.reading j = none
        ∧ b = l.net.fds l.net.intr := by
  cases h with
  | @enterRead j₀ k hj hnone =>
      by_cases heq : j = j₀
      · subst heq
        simp only [Function.update_self, Option.some.injEq] at hr
        exact Or.inr ⟨k, hj, hnone, hr.symm⟩
      · simp only [Function.update_of_ne heq] at hr
        exact Or.inl hr
  | @read j₀ k i =>
      by_cases heq : j = j₀
      · subst heq
        rw [received_reading_self] at hr
        cases i with
        | tick => exact Or.inl hr
        | got report => cases hr
      · rw [received_reading_of_ne heq] at hr
        exact Or.inl hr
  | _ => exact Or.inl hr

theorem HomeInv.reading_step (hi : HomeInv l) (h : Move cs l a l')
    {b : Option Desc} (hr : l'.reading j = some b) :
    ∃ k pc, l'.proc.rdrs[j]? = some (k, pc)
      ∧ ∀ d, b = some d → l'.home k = some d := by
  suffices hbefore : ∃ k pc, l.proc.rdrs[j]? = some (k, pc)
      ∧ ∀ d, b = some d → l.home k = some d by
    obtain ⟨k, pc, hj, hhome⟩ := hbefore
    obtain ⟨pc', hj'⟩ := rdrs_keep h hj
    have hlt := hi.owners (k, pc) (List.mem_of_getElem? hj)
    exact ⟨k, pc', hj', fun d hd => (home_of_lt h hlt).trans (hhome d hd)⟩
  rcases h.reading_inv hr with hold | ⟨k, hj, hnone, rfl⟩
  · exact hi.reading j b hold
  · have hmay : l.mayRead j = true := by simp [mayRead, hj, hnone]
    exact ⟨k, .read, hj, fun d hd => hi.readers j k .read hj hmay d hd⟩

-- ====================================================== who is on its channel

/-- A call that may write could, or has just begun, and then it is the
last one. -/
theorem Move.mayWrite_inv (h : Move cs l a l')
    (hw : l'.mayWrite k = true) :
    l.mayWrite k = true
      ∨ (k = l.proc.calls.length ∧ ∃ q st, a = .startOTAUpdate q st) := by
  cases h with
  | startOTAUpdate q st =>
      by_cases hlt : k < l.proc.calls.length
      · unfold mayWrite at hw
        rw [List.getElem?_append_left hlt] at hw
        exact Or.inl hw
      · right
        have hlt' := lt_of_mayWrite hw
        simp only [List.length_append, List.length_singleton] at hlt'
        exact ⟨by omega, q, st, rfl⟩
  | @send k₀ i p _ hp =>
      left
      cases Proc.step_inv hp with
      | @send _ _ g snd snd' es hk hstep =>
          unfold mayWrite at hw ⊢
          by_cases heq : k₀ = k
          · subst heq
            have hlt := (List.getElem?_eq_some_iff.mp hk).1
            simp only [sent, List.getElem?_set_self hlt, Option.any_some]
              at hw
            rw [hk, Option.any_some]
            exact hstep.ahead_of hw
          · simpa only [sent, List.getElem?_set_ne heq] using hw
  | read _ _ hp =>
      cases Proc.step_inv hp with
      | read => exact Or.inl hw
  | _ => exact Or.inl hw

/-- A step of ota_update gives `intr` nothing new to name: all it closes
is its file. -/
theorem sent_intr {i : SIn} {p : Proc} (h : l.answersSend k i = true) :
    (l.sent k i p).net.intr = l.net.intr
      ∧ ∀ d ∈ (l.sent k i p).net.fds l.net.intr,
        d ∈ l.net.fds l.net.intr := by
  refine ⟨(sendNet_static h).2, fun d hd => ?_⟩
  rcases sendNet_fds h with hfds | ⟨n, -, hfds⟩ <;> rw [sent, hfds] at hd
  · exact hd
  · exact (getClosed.mp hd).2

/-- What `intr` names behind a step is what it named, or nothing, or the
step was one that `steady` looks at. -/
theorem Move.intr_inv (h : Move cs l a l') (hok : steady l a) :
    (l'.net.intr = l.net.intr
        ∧ ∀ d ∈ l'.net.fds l.net.intr, d ∈ l.net.fds l.net.intr)
      ∨ ¬ l.busy none
      ∨ ∃ k, a = .fopen k l.net.intr ∧ ¬ l.busy (some k) := by
  cases h with
  | @reconnect c i cn cn' net hc hstep =>
      rcases hstep.intr_of with hsame | ⟨rfl, hpc⟩ | rfl
      · exact Or.inl hsame
      · exact Or.inr (Or.inl (hok cn hc hpc))
      · exact Or.inr (Or.inl (hok rfl))
  | quitServ hq hstep =>
      obtain ⟨n, es, rfl, -⟩ := quitServ_closes hstep
      exact Or.inl ⟨rfl, fun d hd => (getClosed.mp hd).2⟩
  | @fopen k n =>
      by_cases hn : n = l.net.intr
      · subst hn
        exact Or.inr (Or.inr ⟨k, rfl, hok rfl⟩)
      · left
        refine ⟨rfl, fun d hd => ?_⟩
        exact (opened_of_ne (Ne.symm hn)).symm.trans hd
  | send hans => exact Or.inl (sent_intr hans)
  | @read j k i =>
      left
      refine ⟨readNet_intr l j k i, fun d hd => ?_⟩
      rwa [received, readNet_fds] at hd
  | @otherOpen n m =>
      by_cases hn : n = l.net.intr
      · exact Or.inr (Or.inl (hok hn))
      · left
        refine ⟨rfl, fun d hd => ?_⟩
        exact (opened_of_ne (Ne.symm hn)).symm.trans hd
  | otherClose => exact Or.inl ⟨rfl, fun d hd => (getClosed.mp hd).2⟩
  | _ => exact Or.inl ⟨rfl, fun d hd => hd⟩

/-- A file stays open under its number, or the number is closed. -/
theorem Move.file_inv {n : Nat} (h : Move cs l a l')
    (hfile : l.file k = some n) :
    l'.file k = some n ∨ l'.net.fds n = none := by
  cases h with
  | @fopen k₀ m snd _ _ hnone =>
      left
      have hne : k ≠ k₀ := by
        intro heq
        rw [heq, hnone] at hfile
        cases hfile
      exact (Function.update_of_ne hne _ _).trans hfile
  | @send k₀ i p hans =>
      by_cases heq : k = k₀
      · subst heq
        rw [sent_file_self]
        rcases sendNet_cases hans with ⟨-, hsame⟩ | ⟨d, -, -, hsame⟩
          | ⟨m, bytes, hm, -, hnet, -⟩
        · exact Or.inl (hsame.trans hfile)
        · exact Or.inl (hsame.trans hfile)
        · right
          cases hm.symm.trans hfile
          rw [sent, hnet]
          exact closed_self
      · exact Or.inl ((sent_file_of_ne heq).trans hfile)
  | _ => exact Or.inl hfile

theorem HomeInv.writers_step (hi : HomeInv l) (h : Move cs l a l')
    (hok : steady l a) (hw' : l'.mayWrite k = true) :
    l'.onHome k ∨ l'.file k = some l'.net.intr := by
  rcases h.mayWrite_inv hw' with hw | ⟨rfl, q, st, rfl⟩
  · have hhome := home_of_lt h (lt_of_mayWrite hw)
    rcases h.intr_inv hok with ⟨hintr, hfds⟩ | hbusy | ⟨k₀, rfl, hbusy⟩
    · rcases hi.writers k hw with hon | hfile
      · exact Or.inl (hon.mono hhome hintr hfds)
      · rcases h.file_inv hfile with hstill | hfree
        · exact Or.inr (hintr ▸ hstill)
        · left
          intro d hd
          rw [hintr, hfree] at hd
          cases hd
    · exact absurd (Or.inl ⟨k, lt_of_mayWrite hw, (by simp), hw⟩) hbusy
    · by_cases heq : k = k₀
      · subst heq
        cases h
        exact Or.inr (Function.update_self k _ l.file)
      · exact absurd (Or.inl ⟨k, lt_of_mayWrite hw,
          fun h => heq (Option.some.inj h), hw⟩) hbusy
  · -- the call that begins notes the channel that `intr` names
    cases h
    left
    intro d hd
    have hnote : (l.net.fds l.net.intr).filter Desc.isIntr = some d := by
      rw [Option.filter_eq_some_iff]
      exact ⟨hd, hok d hd⟩
    exact (Function.update_self _ _ l.home).trans hnote

/-- A reader that may read could, or a session has just set flagRead, or
it has just been created. -/
theorem Move.mayRead_inv {pc : RPc} (h : Move cs l a l')
    (hj : l'.proc.rdrs[j]? = some (k, pc)) (hr : l'.mayRead j = true) :
    (∃ pc, l.proc.rdrs[j]? = some (k, pc) ∧ l.mayRead j = true)
      ∨ (∃ pc k₀ snd, l.proc.rdrs[j]? = some (k, pc) ∧ pc.goesOn = true
        ∧ a = .send k₀ .tick ∧ l.proc.calls[k₀]? = some snd
        ∧ snd.pc = .init)
      ∨ ∃ snd, a = .send k (.created 0) ∧ l.proc.calls[k]? = some snd
        ∧ snd.pc = .create := by
  rw [mayRead_of hj] at hr
  rcases h.rdrs_inv hj with ⟨hj₀, hnone⟩ | ⟨i, g, es, pc₀, ha, hj₀, hstep⟩
    | hnew
  · rcases hr with ⟨hgo, hflag⟩ | ⟨hpc, hread⟩
    · rcases h.flagRead_inv hflag with hold | ⟨k₀, snd, ha, hk, hpc⟩
      · left
        exact ⟨pc, hj₀, (mayRead_of hj₀).mpr (Or.inl ⟨hgo, hold⟩)⟩
      · right; left
        exact ⟨pc, k₀, snd, hj₀, hgo, ha, hk, hpc⟩
    · left
      exact ⟨pc, hj₀, (mayRead_of hj₀).mpr (Or.inr ⟨hpc, hnone hread⟩)⟩
  · -- its own step: it goes on as before, or comes from the test
    left
    refine ⟨pc₀, hj₀, (mayRead_of hj₀).mpr (Or.inl ?_)⟩
    rcases hr with ⟨hgo, hflag⟩ | ⟨rfl, -⟩
    · refine ⟨hstep.goesOn_of hgo, ?_⟩
      rcases h.flagRead_inv hflag with hold | ⟨k₀, snd, ha', -⟩
      · exact hold
      · cases ha.symm.trans ha'
    · obtain ⟨rfl, hflag⟩ := hstep.read_of
      exact ⟨rfl, hflag⟩
  · exact Or.inr (Or.inr hnew)

theorem HomeInv.readers_step {pc : RPc} (hi : HomeInv l)
    (h : Move cs l a l') (hok : steady l a)
    (hj : l'.proc.rdrs[j]? = some (k, pc)) (hr : l'.mayRead j = true) :
    l'.onHome k := by
  rcases h.mayRead_inv hj hr with ⟨pc₀, hj₀, hmay⟩
    | ⟨pc₀, k₀, snd, hj₀, hgo, rfl, hk₀, hpc⟩ | ⟨snd, rfl, hk, hpc⟩
  · have hlt := hi.owners (k, pc₀) (List.mem_of_getElem? hj₀)
    rcases h.intr_inv hok with ⟨hintr, hfds⟩ | hbusy | ⟨k₀, rfl, hbusy⟩
    · exact (hi.readers j k pc₀ hj₀ hmay).mono (home_of_lt h hlt) hintr hfds
    · exact absurd (Or.inr ⟨j, lt_of_mayRead hmay, hmay⟩) hbusy
    · exact absurd (Or.inr ⟨j, lt_of_mayRead hmay, hmay⟩) hbusy
  · have hmem := List.mem_of_getElem? hj₀
    have hon := hok snd hk₀ hpc (k, pc₀) hmem hgo
    cases h with
    | send hans =>
        obtain ⟨hintr, hfds⟩ := sent_intr hans
        exact hon.mono rfl hintr hfds
  · have hmay : l.mayWrite k = true := by
      simp [mayWrite, hk, hpc, SPc.ahead, SPc.live, SPc.between]
    have hon : l.onHome k := by
      refine (hi.writers k hmay).resolve_right fun hfile => ?_
      obtain ⟨snd', hk', hpc'⟩ := hi.loads k _ hfile
      rw [hk] at hk'
      cases hk'
      rcases hpc' with hpc' | hpc' <;> cases hpc.symm.trans hpc'
    cases h with
    | send hans =>
        obtain ⟨hintr, hfds⟩ := sent_intr hans
        exact hon.mono rfl hintr hfds

-- ================================================================== whole runs

theorem HomeInv.step (hi : HomeInv l) (hok : steady l a)
    (hs : Library.step cs l a = some l') : HomeInv l' where
  writers := fun _ => hi.writers_step (step_inv hs) hok
  loads := hi.loads.step (step_inv hs)
  readers := fun _ _ _ => hi.readers_step (step_inv hs) hok
  owners := fun _ => hi.owners_step (step_inv hs)
  writing := fun _ _ => hi.writing_step (step_inv hs)
  reading := fun _ _ => hi.reading_step (step_inv hs)
  logged := fun _ _ => hi.logged_step (step_inv hs)

theorem homeInv_loaded : HomeInv loaded where
  writers := fun k h => absurd h (by simp [mayWrite, loaded, Proc.loaded])
  loads := fun _ _ h => absurd h (by simp [loaded])
  readers := fun j k pc h => absurd h (by simp [loaded, Proc.loaded])
  owners := fun _ h => absurd h (by simp [loaded, Proc.loaded])
  writing := fun _ _ h => absurd h (by simp [loaded])
  reading := fun _ _ h => absurd h (by simp [loaded])
  logged := fun k d h => absurd h (by simp [loaded, Net.loaded])

/-- In every run whose steps are all steady, packets and reports stay on
the connection their session began with, whatever else is opened and
closed. -/
theorem stays_home (h : Lts.Reach (Library.step cs) steady loaded l) :
    l.atHome := by
  have hi := h.invariant homeInv_loaded fun _ _ _ hi hok hs =>
    hi.step hok hs
  exact fun k d hd => (hi.logged k d hd).2

end Library

/-- A packet is written and a report is taken, and then the connection is
closed under the session that goes on. -/
def disconnectedSession : List LibAct :=
  bothConnected
    ++ [.startOTAUpdate none fun _ => 0, .send 0 .tick, .fopen 0 6,
      .send 0 (.opened (some dataImage.bytes)), .send 0 (.created 0),
      .send 0 .tick, .send 0 .tick, .send 0 .tick, .send 0 .tick,
      .enterWrite 0, .send 0 (.wrote 8), .read 0 .tick, .enterRead 0,
      .read 0 (.got (some [0xA1, 0x02, 0, 0x02, 1, 0, 0])),
      .deconnectClient, .quitServ 0, .quitServ 0]

/-- All that the session did was on its channel. -/
theorem stays_home_disconnected :
    ((Lts.run (Library.step .unsigned) Library.steady Library.loaded
      disconnectedSession).getD Library.loaded).net.log.drop 5
        = [.wrote 0 (.channel 0 .intr), .consumed 0 (.channel 0 .intr),
          .closed 4 (some (.channel 0 .ctrl)),
          .closed 5 (some (.channel 0 .intr))]
      ∧ ((Lts.run (Library.step .unsigned) Library.steady Library.loaded
        disconnectedSession).getD Library.loaded).atHome :=
  ⟨by decide, Library.stays_home (Lts.Reach.of_isSome (by decide))⟩

/-- Without a connection `intr` is 0, and other code has 0 open. -/
def strandedSession : List LibAct :=
  [.otherOpen 0 7, .startOTAUpdate none fun _ => 0, .send 0 .tick,
    .fopen 0 6, .send 0 (.opened (some dataImage.bytes)),
    .send 0 (.created 0), .send 0 .tick, .send 0 .tick, .send 0 .tick,
    .send 0 .tick, .enterWrite 0, .send 0 (.wrote 8)]

/-- The session's first packet goes there. -/
theorem stray_write :
    ¬ ∀ (cs : CharSign) (l : Library),
      Lts.Reach (Library.step cs) Lts.free Library.loaded l →
      l.atHome := by
  intro h
  have hall := h .unsigned _ (Lts.Reach.of_isSome
    (show (Lts.run (Library.step .unsigned) Lts.free Library.loaded
      strandedSession).isSome = true by decide))
  have hhome := hall 0 (.other 7) (Or.inl (by decide))
  exact absurd hhome (by decide)

end BtOta
