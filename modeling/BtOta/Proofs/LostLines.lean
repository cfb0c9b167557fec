/-
Whether the thread that reads the log may wait for a session that is
over.

It may. `logcat -c` is started and not waited for: it clears the log
whenever it gets to it, and a session can be over by then, at once where
the firmware file cannot be opened. If the clear takes effect between
the session's OTA STOP line and the moment the second logcat prints it,
the line is gone, the thread waits for ever and `isOTARun` stays true
(`lost_stop`).

`unlost` asks that the log be cleared only when each thread whose
session has begun has had every line printed that was logged since. In
every run whose steps meet it no thread waits for a session that is
over, and the session's verdict and OTA STOP lines come to the thread
(`lines_delivered`).

# Notes

What is said of a run speaks of lines by their place in the log:
where the log stood when a session began, and which lines were printed
for a thread. `Observed` notes both beside the activity; no step reads
the notes, so every run can be noted (`observed_of_reach`).
-/
import BtOta.Proofs.Exclusion

namespace BtOta

-- ================================================================ vocabulary

/-- The thread is at its loop over the log or about to enter it. -/
def Worker.listening (wk : Worker) : Bool :=
  match wk.pc with
  | .exec | .readLine => true
  | _ => false

/-- The thread's session has begun, and it listens: the lines of that
session are meant for it. -/
def Worker.attends (wk : Worker) : Bool :=
  match wk.native with
  | .called _ => wk.listening
  | .none | .started => false

/-- The thread waits for a line, its session is over, no line is left
for it to read, and Start is still disabled. -/
def Activity.stuck (u : Activity) (wk : Worker) : Bool :=
  u.isOTARun && wk.pc == .readLine && wk.served u.proc.calls
    && wk.pipe.isEmpty && (u.nextLine wk).isNone

/-- The activity, with notes of what was logged and printed when. The
notes are for the property: no step reads them. -/
structure Observed where
  u : Activity
  /-- the lines logged before the session of thread `w` began -/
  since : Nat → Nat
  /-- the lines printed for thread `w`, by their numbers -/
  got : Nat → List Nat

namespace Observed

def loaded : Observed := ⟨Activity.loaded, fun _ => 0, fun _ => []⟩

/-- The lines logged so far. -/
def lines (o : Observed) : List Msg := linesOf o.u.proc.trace

/-- The notes behind a step: where the log stood when a thread's call was
made, and which lines were printed for it. -/
def note (o : Observed) (u : Activity) : UAct → Observed
  | .native w _ _ =>
      { o with u := u, since := Function.update o.since w o.lines.length }
  | .logcat w =>
      { o with
        u := u
        got := Function.update o.got w
          (o.got w ++ (o.u.workers[w]?.map fun wk =>
            max wk.pos o.u.cleared).toList) }
  | _ => { o with u := u }

/-- One step, noted. -/
def step (cs : CharSign) (o : Observed) (a : UAct) : Option Observed :=
  (Activity.step cs o.u a).map fun u => o.note u a

/-- The log is cleared only when every thread whose session has begun has
had all of its lines printed. Nothing in the app sees to that. -/
def unlost (o : Observed) : UAct → Prop
  | .clear _ => ∀ w < o.u.workers.length, ∀ wk ∈ o.u.workers[w]?,
      wk.attends = true → o.lines.length ≤ max (o.since w) wk.pos
  | _ => True

instance (o : Observed) : ∀ a, Decidable (unlost o a)
  | .clear _ => inferInstanceAs (Decidable (∀ w < _, ∀ wk ∈ _, _ → _))
  | .create | .click _ | .worker _ _ | .native _ _ _ | .logcat _
  | .proc _ => inferInstanceAs (Decidable True)

/-- A line of the session of thread `w` has been printed for the thread,
or is there to be printed. -/
def Delivered (o : Observed) (w : Nat) (wk : Worker) (m : Msg) : Prop :=
  ∃ j, o.since w ≤ j ∧ o.lines[j]? = some m
    ∧ (j ∈ o.got w ∨ max wk.pos o.u.cleared ≤ j)

/-- No thread waits for a session that is over, and to a thread that
listens the session's last two lines are delivered. -/
structure Heard (o : Observed) : Prop where
  free : ∀ wk ∈ o.u.workers, o.u.stuck wk = false
  delivered : ∀ w wk k l v, o.u.workers[w]? = some wk →
    wk.listening = true → wk.native = .called k →
    o.u.proc.calls[k]? = some l → l.pc = .returned v →
    o.Delivered w wk v.msg ∧ o.Delivered w wk .otaStop

end Observed

-- =============================================================== the session

variable {cs : CharSign} {g g' : Shared} {l l' : Sender} {es : List Event}
  {i : SIn}

/-- The last lines that a session has logged by then: the verdict, and
OTA STOP behind it. -/
def SPc.said : SPc → List Msg
  | .stop v => [v.msg]
  | .quitThread v | .quitServ v | .returned v => [v.msg, .otaStop]
  | _ => []

/-- What a session has said it has logged, in this step or before it. -/
theorem SStep.said (h : SStep cs g l i g' l' es) {m : Msg}
    (hm : m ∈ l'.pc.said) : m ∈ l.pc.said ∨ m ∈ linesOf es := by
  cases h with
  | @verdict v pc =>
      exact Or.inr (by simpa [SPc.said, linesOf, Event.line?] using hm)
  | @stop v pc =>
      simp only [SPc.said, List.mem_cons, List.not_mem_nil, or_false] at hm
      rcases hm with rfl | rfl
      · exact Or.inl (by simp [pc, SPc.said])
      · exact Or.inr (by simp [linesOf, Event.line?])
  | quitThread pc | quitServ pc =>
      rw [pc]
      exact Or.inl hm
  | init | openFail | opened | openOver | created | next | newStage
  | assemble | crash | retry | giveUp | wrote | writeFail | poll | timeout
  | nextHit | nextMiss | errHit | errMiss | completeHit | completeMiss
  | flag => cases hm

theorem linesOf_append (tr es : List Event) :
    linesOf (tr ++ es) = linesOf tr ++ linesOf es := List.filterMap_append ..

-- ============================================================ the invariant

/-- What is true of a thread and its notes: every line since its session
began has been printed for it, or is ahead of it and not cleared. -/
structure Tracked (p : Proc) (cleared since : Nat) (got : List Nat)
    (wk : Worker) : Prop where
  pos : wk.pos ≤ (linesOf p.trace).length
  began : ∀ k, wk.native = .called k →
    k < p.calls.length ∧ since ≤ (linesOf p.trace).length
  kept : wk.attends = true → cleared ≤ max since wk.pos
  printed : wk.attends = true → ∀ j, since ≤ j → j < wk.pos → j ∈ got
  unread : wk.pc ≠ .release → wk.pc ≠ .ended → wk.pc ≠ .died →
    ∃ read, got.map (fun j => (linesOf p.trace)[j]?)
        = (read ++ wk.pipe).map some ∧ .otaStop ∉ read
  said : ∀ k l, wk.native = .called k → p.calls[k]? = some l →
    ∀ m ∈ l.pc.said, ∃ j, since ≤ j ∧ (linesOf p.trace)[j]? = some m

/-- What every run under `unlost` keeps: each thread is tracked, and one
that is yet to come has nothing noted. -/
structure NotesInv (o : Observed) : Prop where
  bound : o.u.cleared ≤ o.lines.length
  tracked : ∀ w wk, o.u.workers[w]? = some wk →
    Tracked o.u.proc o.u.cleared (o.since w) (o.got w) wk
  fresh : ∀ w, o.u.workers.length ≤ w → o.got w = []

variable {p p' : Proc} {cleared since : Nat} {got : List Nat}
  {wk wk' : Worker} {o o' : Observed}

theorem getElem?_append_of_some {xs ys : List Msg} {j : Nat} {m : Msg}
    (h : xs[j]? = some m) : (xs ++ ys)[j]? = some m :=
  (List.getElem?_append_left (List.getElem?_eq_some_iff.mp h).1).trans h

/-- The log grows at its end, and calls are made and go on. -/
theorem Tracked.grow (ms : List Msg)
    (ht : Tracked p cleared since got wk)
    (hlines : linesOf p'.trace = linesOf p.trace ++ ms)
    (hcalls : p.calls.length ≤ p'.calls.length)
    (hsaid : ∀ k l', k < p.calls.length → p'.calls[k]? = some l' →
      ∃ l, p.calls[k]? = some l
        ∧ ∀ m ∈ l'.pc.said, m ∈ l.pc.said ∨ m ∈ ms) :
    Tracked p' cleared since got wk := by
  have hlen : (linesOf p.trace).length ≤ (linesOf p'.trace).length := by
    rw [hlines, List.length_append]
    omega
  refine ⟨Nat.le_trans ht.pos hlen, ?_, ht.kept, ht.printed, ?_, ?_⟩
  · intro k hk
    obtain ⟨hlt, hle⟩ := ht.began k hk
    exact ⟨by omega, by omega⟩
  · intro hr he hd
    obtain ⟨read, hmap, hstop⟩ := ht.unread hr he hd
    refine ⟨read, ?_, hstop⟩
    rw [← hmap]
    apply List.map_congr_left
    intro j hj
    have hin : (linesOf p.trace)[j]? ∈ (read ++ wk.pipe).map some := by
      rw [← hmap]
      exact List.mem_map_of_mem hj
    obtain ⟨m, -, hm⟩ := List.mem_map.mp hin
    rw [hlines, ← hm]
    exact getElem?_append_of_some hm.symm
  · intro k l' hk hl' m hm
    obtain ⟨hlt, hle⟩ := ht.began k hk
    obtain ⟨l, hl, hback⟩ := hsaid k l' hlt hl'
    rw [hlines]
    rcases hback m hm with hm | hm
    · obtain ⟨j, hj, hline⟩ := ht.said k l hk hl m hm
      exact ⟨j, hj, getElem?_append_of_some hline⟩
    · obtain ⟨n, hn⟩ := List.mem_iff_getElem?.mp hm
      refine ⟨(linesOf p.trace).length + n, by omega, ?_⟩
      rw [List.getElem?_append_right (by omega), Nat.add_sub_cancel_left]
      exact hn

theorem Worker.attends_iff : wk.attends = true
    ↔ (∃ k, wk.native = .called k) ∧ wk.listening = true := by
  unfold attends
  cases wk.native <;> simp

/-- What a step of the thread does to what the notes are about: it reads
no further than its pipe goes, and does not go on behind OTA STOP. -/
theorem WStep.pipe {i : WIn} (h : WStep wk i wk') :
    wk'.pos = wk.pos ∧ (∀ k, wk'.native = .called k → wk.native = .called k)
      ∧ (wk'.attends = true → wk.attends = true)
      ∧ (wk'.pc = .release ∨ wk'.pc = .ended ∨ wk'.pc = .died
        ∨ (wk.pc ≠ .release ∧ wk.pc ≠ .ended ∧ wk.pc ≠ .died)
          ∧ (wk'.pipe = wk.pipe
            ∨ ∃ m, wk.pipe = m :: wk'.pipe ∧ m ≠ .otaStop)) := by
  rw [Worker.attends_iff, Worker.attends_iff]
  unfold Worker.listening
  cases h with
  | clear pc | sleep pc | spawn pc | release pc | readFail pc | stop pc
  | eof pc => simp [pc]
  | exec pc =>
      -- the step into the loop
      refine ⟨rfl, fun k => id, ?_, by simp [pc]⟩
      exact fun ha => ⟨ha.1, by rw [pc]⟩
  | dies pc => rcases pc with pc | pc <;> simp [pc]
  | line pc hpipe hm => simp [pc, hpipe, hm]

/-- A step of the thread, which takes lines out of its pipe and leaves
the log alone. -/
theorem Tracked.worker {i : WIn} (ht : Tracked p cleared since got wk)
    (h : wk.step i = some wk') : Tracked p cleared since got wk' := by
  obtain ⟨hpos, hcalled, hattends, hpipe⟩ := (Worker.step_inv h).pipe
  refine ⟨hpos ▸ ht.pos, fun k hk => ht.began k (hcalled k hk), ?_, ?_, ?_,
    fun k l hk => ht.said k l (hcalled k hk)⟩
  · intro ha
    rw [hpos]
    exact ht.kept (hattends ha)
  · intro ha
    rw [hpos]
    exact ht.printed (hattends ha)
  · intro hr he hd
    rcases hpipe with hpc | hpc | hpc | ⟨⟨hr', he', hd'⟩, hpipe⟩
    · exact absurd hpc hr
    · exact absurd hpc he
    · exact absurd hpc hd
    · obtain ⟨read, hmap, hstop⟩ := ht.unread hr' he' hd'
      rcases hpipe with hsame | ⟨m, hcons, hne⟩
      · exact ⟨read, hsame ▸ hmap, hstop⟩
      · refine ⟨read ++ [m], ?_, ?_⟩
        · rw [hmap, hcons, List.append_assoc]
          rfl
        · intro hin
          rcases List.mem_append.mp hin with hin | hin
          · exact hstop hin
          · exact hne (List.mem_singleton.mp hin).symm

/-- A line is printed: it goes to the thread's pipe and on its notes. -/
theorem Tracked.logcat {m : Msg} (ht : Tracked p cleared since got wk)
    (hm : (linesOf p.trace)[max wk.pos cleared]? = some m) :
    Tracked p cleared since (got ++ [max wk.pos cleared])
      { wk with pos := max wk.pos cleared + 1, pipe := wk.pipe ++ [m] } := by
  have hlt := (List.getElem?_eq_some_iff.mp hm).1
  refine ⟨hlt, ht.began, ?_, ?_, ?_, ht.said⟩
  · intro _
    dsimp only
    omega
  · intro ha j hj hpos
    dsimp only at hpos
    have hkept := ht.kept ha
    by_cases hold : j < wk.pos
    · exact List.mem_append_left _ (ht.printed ha j hj hold)
    · have heq : j = max wk.pos cleared := by omega
      rw [heq]
      exact List.mem_append_right _ (List.mem_singleton_self _)
  · intro hr he hd
    obtain ⟨read, hmap, hstop⟩ := ht.unread hr he hd
    refine ⟨read, ?_, hstop⟩
    rw [List.map_append, hmap, ← List.append_assoc, List.map_append]
    simp [hm]

/-- The log is cleared, and nothing is lost that the thread still needs:
that is what the guard says. -/
theorem Tracked.clear (ht : Tracked p cleared since got wk)
    (hprinted : wk.attends = true →
      (linesOf p.trace).length ≤ max since wk.pos) (clearing : Bool) :
    Tracked p (linesOf p.trace).length since got
      { wk with clearing := clearing } :=
  ⟨ht.pos, ht.began, hprinted, ht.printed, ht.unread, ht.said⟩

/-- The session of the thread begins, and its lines are those that are
logged from here on. -/
theorem Tracked.native (ht : Tracked p cleared since got wk)
    (hbound : cleared ≤ (linesOf p.trace).length)
    (param2 : Option String) (stack : Nat → UInt8) :
    Tracked { p with calls := p.calls ++ [Sender.call param2 stack] } cleared
      (linesOf p.trace).length got
      { wk with native := .called p.calls.length } := by
  refine ⟨ht.pos, ?_, ?_, ?_, ht.unread, ?_⟩
  · intro k hk
    cases hk
    exact ⟨by simp, Nat.le_refl _⟩
  · intro _
    exact Nat.le_trans hbound (Nat.le_max_left _ _)
  · intro _ j hj hpos
    have hle := ht.pos
    dsimp only at hpos
    omega
  · intro k l hk hl m hm
    cases hk
    rw [List.getElem?_append_right (Nat.le_refl _), Nat.sub_self] at hl
    cases hl
    cases hm

/-- A call begins beside a thread's own. -/
theorem Tracked.call (ht : Tracked p cleared since got wk) (snd : Sender) :
    Tracked { p with calls := p.calls ++ [snd] } cleared since got wk := by
  refine ht.grow [] (List.append_nil _).symm (by simp) ?_
  intro k l hk hl
  rw [List.getElem?_append_left hk] at hl
  exact ⟨l, hl, fun m hm => Or.inl hm⟩

/-- The log grows at its end. -/
theorem step_lines {a : PAct} (h : Proc.step cs p a = some p') :
    (linesOf p.trace).length ≤ (linesOf p'.trace).length := by
  cases Proc.step_inv h with
  | call param2 stack => exact Nat.le_refl _
  | send hn hm | read hj hm =>
      dsimp only
      rw [linesOf_append, List.length_append]
      omega

/-- A step of a session's threads: lines are added at the end, and calls
said what they have logged. -/
theorem Tracked.proc {a : PAct} (ht : Tracked p cleared since got wk)
    (hcall : ∀ q st, a ≠ .call q st) (h : Proc.step cs p a = some p') :
    Tracked p' cleared since got wk := by
  cases Proc.step_inv h with
  | call param2 stack => exact absurd rfl (hcall param2 stack)
  | @send n i g snd snd' es hn hm =>
      refine ht.grow _ (linesOf_append _ _) (by simp) ?_
      intro k l hk hl
      by_cases hkn : n = k
      · subst hkn
        rw [List.getElem?_set_self hk] at hl
        cases hl
        exact ⟨snd, hn, fun m hmem => hm.said hmem⟩
      · rw [List.getElem?_set_ne hkn] at hl
        exact ⟨l, hl, fun m hmem => Or.inl hmem⟩
  | read hj hm =>
      refine ht.grow _ (linesOf_append _ _) (Nat.le_refl _) ?_
      exact fun k l _ hl => ⟨l, hl, fun m hmem => Or.inl hmem⟩

-- ============================================================== the activity

namespace Observed

theorem step_clear_inv {u u' : Activity} {w : Nat}
    (h : Activity.step cs u (.clear w) = some u') :
    ∃ wk, u.workers[w]? = some wk
      ∧ u' = { u with
          workers := u.workers.set w { wk with clearing := false }
          cleared := (linesOf u.proc.trace).length } := by
  simp only [Activity.step, Option.bind_eq_bind,
    Option.bind_eq_some_iff] at h
  obtain ⟨wk, hw, h⟩ := h
  split at h
  case isFalse => cases h
  case isTrue =>
    cases h
    exact ⟨wk, hw, rfl⟩

theorem step_logcat_inv {u u' : Activity} {w : Nat}
    (h : Activity.step cs u (.logcat w) = some u') :
    ∃ wk m, u.workers[w]? = some wk
      ∧ (linesOf u.proc.trace)[max wk.pos u.cleared]? = some m
      ∧ u' = { u with
          workers := u.workers.set w
            { wk with
              pos := max wk.pos u.cleared + 1, pipe := wk.pipe ++ [m] } } := by
  simp only [Activity.step, Option.bind_eq_bind,
    Option.bind_eq_some_iff] at h
  obtain ⟨wk, hw, h⟩ := h
  split at h
  case isFalse => cases h
  case isTrue =>
    obtain ⟨m, hm, h⟩ := Option.bind_eq_some_iff.mp h
    cases h
    exact ⟨wk, m, hw, hm, rfl⟩

end Observed

/-- A click may start one more thread. -/
theorem NotesInv.click (hi : NotesInv o) (fwFilePath : String) :
    NotesInv (o.note (o.u.onClick fwFilePath) (.click fwFilePath)) := by
  unfold Activity.onClick Observed.note
  by_cases hempty : fwFilePath = ""
  · simp only [if_pos hempty]
    exact ⟨hi.bound, hi.tracked, hi.fresh⟩
  by_cases hfree : o.u.isOTARun = false
  · simp only [if_neg hempty, if_pos hfree]
    refine ⟨hi.bound, ?_, ?_⟩
    · intro n wk hn
      rcases Threads.snoc_inv hn with hold | ⟨hlen, rfl⟩
      · exact hi.tracked n wk hold
      · have hnone := hi.fresh n (by omega)
        refine ⟨Nat.zero_le _, nofun, nofun, nofun, ?_, nofun⟩
        dsimp only
        rw [hnone]
        exact fun _ _ _ => ⟨[], rfl, List.not_mem_nil⟩
    · intro n hn
      simp only [List.length_append, List.length_singleton] at hn
      exact hi.fresh n (by omega)
  · simp only [if_neg hempty, if_neg hfree]
    exact ⟨hi.bound, hi.tracked, hi.fresh⟩

theorem NotesInv.step {a : UAct} (hi : NotesInv o)
    (hok : Observed.unlost o a) (hs : Observed.step cs o a = some o') :
    NotesInv o' := by
  obtain ⟨u', hu, rfl⟩ := Option.map_eq_some_iff.mp hs
  cases a with
  | clear w =>
      -- `unlost` on this step: what any listening thread waits for lies
      -- behind the clear, or was read
      obtain ⟨wk, hw, rfl⟩ := Observed.step_clear_inv hu
      have hall : ∀ n wk', o.u.workers[n]? = some wk' →
          wk'.attends = true → o.lines.length ≤ max (o.since n) wk'.pos :=
        fun n wk' hn => hok n (List.getElem?_eq_some_iff.mp hn).1 wk' hn
      refine ⟨Nat.le_refl _, Threads.forall_moved ?_ ?_, ?_⟩
      · exact (hi.tracked w wk hw).clear (hall w wk hw) false
      · intro n wk' _ hn
        exact (hi.tracked n wk' hn).clear (hall n wk' hn) wk'.clearing
      · intro n hn
        exact hi.fresh n (by simpa [Observed.note] using hn)
  | logcat w =>
      -- one more line read, for this thread alone
      obtain ⟨wk, m, hw, hm, rfl⟩ := Observed.step_logcat_inv hu
      refine ⟨hi.bound, Threads.forall_moved ?_ ?_, ?_⟩
      · simp only [Observed.note, hw, Option.map_some, Option.toList_some,
          Function.update_self]
        exact (hi.tracked w wk hw).logcat hm
      · intro n wk' hne hn
        simp only [Observed.note, Function.update_of_ne hne]
        exact hi.tracked n wk' hn
      · intro n hn
        have hne : n ≠ w := by
          have hlen := (List.getElem?_eq_some_iff.mp hw).1
          simp only [Observed.note, List.length_set] at hn
          omega
        simp only [Observed.note, Function.update_of_ne hne]
        exact hi.fresh n (by simpa [Observed.note] using hn)
  | create =>
      cases hu
      exact ⟨hi.bound, hi.tracked, hi.fresh⟩
  | click fwFilePath =>
      cases hu
      exact hi.click fwFilePath
  | worker w i =>
      cases Activity.step_inv hu with
      | worker hw hst =>
          refine ⟨hi.bound, Threads.forall_moved ?_ ?_, ?_⟩
          · exact (hi.tracked w _ hw).worker hst
          · exact fun n wk' _ hn => hi.tracked n wk' hn
          · intro n hn
            exact hi.fresh n (by simpa [Observed.note] using hn)
      | log ha => rcases ha with h' | h' <;> cases h'
  | native w v stack =>
      -- the call's lines are counted from here
      cases Activity.step_inv hu with
      | log ha => rcases ha with h' | h' <;> cases h'
      | native hw hst =>
          refine ⟨hi.bound, Threads.forall_moved ?_ ?_, ?_⟩
          · simp only [Observed.note, Function.update_self]
            exact (hi.tracked w _ hw).native hi.bound _ stack
          · intro n wk' hne hn
            simp only [Observed.note, Function.update_of_ne hne]
            exact (hi.tracked n wk' hn).call _
          · intro n hn
            exact hi.fresh n (by simpa [Observed.note] using hn)
  | proc b =>
      cases Activity.step_inv hu with
      | log ha => rcases ha with h' | h' <;> cases h'
      | @proc b p hcall hp =>
          exact ⟨Nat.le_trans hi.bound (step_lines hp),
            fun n wk hn => (hi.tracked n wk hn).proc hcall hp, hi.fresh⟩

theorem notesInv_loaded : NotesInv Observed.loaded :=
  ⟨Nat.le_refl _, nofun, fun _ _ => rfl⟩

theorem NotesInv.of_reach
    (h : Lts.Reach (Observed.step cs) Observed.unlost Observed.loaded o) :
    NotesInv o :=
  h.invariant notesInv_loaded fun _ _ _ hi hok hs => hi.step hok hs

-- ================================================================= results

/-- A line of the session is printed, or there to be printed, for a
thread that attends. -/
theorem Tracked.delivered {w : Nat} {m : Msg}
    (ht : Tracked o.u.proc o.u.cleared (o.since w) (o.got w) wk)
    (ha : wk.attends = true) {j : Nat} (hj : o.since w ≤ j)
    (hm : o.lines[j]? = some m) : o.Delivered w wk m := by
  have hkept := ht.kept ha
  refine ⟨j, hj, hm, ?_⟩
  by_cases hold : j < wk.pos
  · exact Or.inl (ht.printed ha j hj hold)
  · exact Or.inr (by omega)

/-- An OTA STOP line that is delivered keeps the thread from waiting. -/
theorem Tracked.not_stuck {w : Nat}
    (ht : Tracked o.u.proc o.u.cleared (o.since w) (o.got w) wk)
    (hd : o.Delivered w wk .otaStop) : o.u.stuck wk = false := by
  by_contra hstuck
  rw [Bool.not_eq_false] at hstuck
  unfold Activity.stuck at hstuck
  simp only [Bool.and_eq_true, beq_iff_eq, List.isEmpty_iff,
    Option.isNone_iff_eq_none] at hstuck
  obtain ⟨⟨⟨⟨-, hpc⟩, -⟩, hpipe⟩, hnone⟩ := hstuck
  obtain ⟨j, -, hline, hgot | hleft⟩ := hd
  · -- printed and not read, so it is in the pipe
    obtain ⟨read, hmap, hstop⟩ := ht.unread (by simp [hpc]) (by simp [hpc])
      (by simp [hpc])
    have hin : (linesOf o.u.proc.trace)[j]? ∈ (read ++ wk.pipe).map some := by
      rw [← hmap]
      exact List.mem_map_of_mem hgot
    obtain ⟨m, hmem, heq⟩ := List.mem_map.mp hin
    rw [show (linesOf o.u.proc.trace)[j]? = some .otaStop from hline] at heq
    cases heq
    rw [hpipe, List.append_nil] at hmem
    exact hstop hmem
  · unfold Activity.nextLine at hnone
    have hlen := List.getElem?_eq_none_iff.mp hnone
    have hlt := (List.getElem?_eq_some_iff.mp hline).1
    unfold Observed.lines at hlt
    omega

/-- In every run in which the log is cleared only where no line of a
session is lost by it, no thread waits for a session that is over, and
the session's verdict and OTA STOP lines come to the thread. -/
theorem lines_delivered
    (h : Lts.Reach (Observed.step cs) Observed.unlost Observed.loaded o) :
    o.Heard := by
  have hi := NotesInv.of_reach h
  have hlines : ∀ w wk k l v, o.u.workers[w]? = some wk →
      wk.listening = true → wk.native = .called k →
      o.u.proc.calls[k]? = some l → l.pc = .returned v →
      o.Delivered w wk v.msg ∧ o.Delivered w wk .otaStop := by
    intro w wk k l v hw hlisten hk hl hpc
    have ht := hi.tracked w wk hw
    have ha : wk.attends = true := Worker.attends_iff.mpr ⟨⟨k, hk⟩, hlisten⟩
    have hsaid := ht.said k l hk hl
    rw [hpc] at hsaid
    obtain ⟨j, hj, hv⟩ := hsaid v.msg (by simp [SPc.said])
    obtain ⟨n, hn, hstop⟩ := hsaid .otaStop (by simp [SPc.said])
    exact ⟨ht.delivered ha hj hv, ht.delivered ha hn hstop⟩
  -- a thread that waits for ever is served and listening, and `hlines` says
  -- that OTA STOP has come to it
  refine ⟨fun wk hwk => ?_, hlines⟩
  obtain ⟨w, hw⟩ := List.mem_iff_getElem?.mp hwk
  by_contra hstuck
  rw [Bool.not_eq_false] at hstuck
  have hcopy := hstuck
  unfold Activity.stuck at hcopy
  simp only [Bool.and_eq_true, beq_iff_eq] at hcopy
  obtain ⟨⟨⟨⟨-, hpc⟩, hserved⟩, -⟩, -⟩ := hcopy
  unfold Worker.served at hserved
  cases hn : wk.native with
  | none | started =>
      rw [hn] at hserved
      cases hserved
  | called k =>
      simp only [hn] at hserved
      cases hl : o.u.proc.calls[k]? with
      | none => simp [hl] at hserved
      | some l =>
          simp only [hl, Option.map_some, Option.getD_some] at hserved
          unfold Sender.returned at hserved
          split at hserved
          case h_2 => cases hserved
          case h_1 v hv =>
            have hlisten : wk.listening = true := by
              unfold Worker.listening
              rw [hpc]
            obtain ⟨-, hstop⟩ := hlines w wk k l v hw hlisten hn hl hv
            exact absurd hstuck
              (by simp [(hi.tracked w wk hw).not_stuck hstop])

/-- Every run can be noted, so a property of noted runs is one of runs.
-/
theorem observed_of_reach {u : Activity}
    (h : Lts.Reach (Activity.step cs) Lts.free Activity.loaded u) :
    ∃ o, o.u = u
      ∧ Lts.Reach (Observed.step cs) Lts.free Observed.loaded o := by
  have hloaded : Observed.loaded.u = Activity.loaded := rfl
  refine h.simulates (R := fun (u : Activity) (o : Observed) => o.u = u)
    hloaded ?_
  intro u a u' o _ hou _ hs
  subst hou
  refine ⟨o.note u' a, by cases a <;> rfl, ?_⟩
  refine (Lts.Reach.refl o).tail (a := a) trivial ?_
  unfold Observed.step
  rw [hs]
  rfl

/-- What is noted is a run. -/
theorem reach_of_observed {ok : Observed → UAct → Prop}
    (h : Lts.Reach (Observed.step cs) ok Observed.loaded o) :
    Lts.Reach (Activity.step cs) Lts.free Activity.loaded o.u := by
  refine h.invariant (I := fun o => Lts.Reach (Activity.step cs) Lts.free
    Activity.loaded o.u) (Lts.Reach.refl _) ?_
  intro o a o' hr _ hs
  obtain ⟨u', hu, rfl⟩ := Option.map_eq_some_iff.mp hs
  have hnote : (o.note u' a).u = u' := by cases a <;> rfl
  rw [hnote]
  exact hr.tail trivial hu

-- ============================================================== two clicks

/-- The click's session cannot open the file. -/
def notFound : List PAct :=
  [.send 0 .tick, .send 0 (.opened none), .send 0 .tick, .send 0 .tick,
    .send 0 .tick, .send 0 .tick, .send 0 .tick]

/-- The log is cleared before the session begins, and the thread enters
its loop when the session is over. -/
def heardFailure : Observed :=
  (Lts.run (Observed.step .unsigned) Observed.unlost Observed.loaded
    (pressStart ++ notFound.map .proc ++ [.logcat 0, .logcat 0])).getD
    Observed.loaded

/-- Both lines come to the thread. -/
theorem lines_delivered_failure :
    heardFailure.u.proc.calls.map Sender.returned = [true]
      ∧ heardFailure.Heard :=
  ⟨by decide, lines_delivered (Lts.Reach.of_isSome
    (show (Lts.run (Observed.step .unsigned) Observed.unlost
      Observed.loaded (pressStart ++ notFound.map .proc
        ++ [.logcat 0, .logcat 0])).isSome = true by decide))⟩

/-- The same click, with the log cleared when the session is over. -/
def clearedLate : List UAct :=
  [.click "fw.img", .worker 0 .tick, .worker 0 .tick, .worker 0 .tick,
    .native 0 false (fun _ => 0)] ++ notFound.map .proc
    ++ [.clear 0, .worker 0 .tick]

/-- The thread waits for ever. -/
theorem lost_stop :
    ¬ ∀ (cs : CharSign) (u : Activity),
      Lts.Reach (Activity.step cs) Lts.free Activity.loaded u →
      ∀ wk ∈ u.workers, u.stuck wk = false := by
  intro h
  have hall := h .unsigned _ (Lts.Reach.of_isSome
    (show (Lts.run (Activity.step .unsigned) Lts.free Activity.loaded
      clearedLate).isSome = true by decide))
  exact absurd hall (by decide)

end BtOta
