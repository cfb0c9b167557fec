/-
Whose "Success" it is that the screen shows.

`shown_delivered` finds some call of ota_update behind it. Where the
user waits for the threads of a session before starting the next one,
and the log is cleared before ota_update is started (`unhurried`), it is
the call of the last click: click `n` makes call `n`, the sessions
before it are through when it is made, and what they have logged is cleared
before the thread of the click reads the first line (`ClickInv`).
-/
import BtOta.Proofs.Delivered
import BtOta.Proofs.Rendered

namespace BtOta

variable {cs : CharSign} {c c' : Console} {w : Nat} {wk wk' : Worker}
  {i : WIn} {ss ss' : List Session}

-- ================================================================ vocabulary

/-- The thread's native thread has not entered ota_update. -/
def Worker.waits (wk : Worker) : Bool :=
  match wk.native with
  | .called _ => false
  | .none | .started => true

/-- The log has been cleared for the thread, as far as its place and its
clear under way tell. -/
def Worker.clean (wk : Worker) : Bool :=
  match wk.pc with
  | .clear | .died => false
  | .sleep | .spawn => !wk.clearing
  | .exec | .readLine | .release | .ended => true

namespace Console

/-- The next session is started when the threads of the others have
ended, and ota_update when the log has been cleared. The app waits for
neither. -/
def unhurried (c : Console) : ConAct → Prop
  | .start => c.u.isOTARun = false →
      (∀ l ∈ c.u.proc.calls, l.returned = true)
        ∧ ∀ r ∈ c.u.proc.rdrs, r.2 = .ended
  | .worker w .tick =>
      ∀ wk ∈ c.u.workers[w]?, wk.pc = .spawn → wk.clearing = false
  | _ => True

instance (c : Console) : ∀ a, Decidable (unhurried c a)
  | .start => inferInstanceAs (Decidable (_ → (∀ l ∈ c.u.proc.calls, _)
      ∧ ∀ r ∈ c.u.proc.rdrs, _))
  | .worker w .tick =>
      inferInstanceAs (Decidable (∀ wk ∈ c.u.workers[w]?, _ → _))
  | .worker _ .threw | .worker _ .line | .worker _ .eof | .clean
  | .verboseLog _ | .selected _ | .canceled | .line _ | .handle | .flag _
  | .native _ _ | .clear _ | .logcat _ | .proc _ =>
      inferInstanceAs (Decidable True)

end Console

-- ================================================================ one thread

/-- A thread comes to its loop over a log that has been cleared, if it
has waited for the clear. -/
theorem Worker.clean_of_step (h : wk.step i = some wk')
    (hun : i = .tick → wk.pc = .spawn → wk.clearing = false)
    (hclean : wk'.clean = true) : wk.clean = true := by
  cases step_inv h with
  | clear => cases hclean
  | sleep pc => simpa [clean, pc] using hclean
  | spawn pc => simp [clean, pc, hun rfl pc]
  | exec pc | release pc | readFail pc | line pc | stop pc | eof pc =>
      simp [clean, pc]
  | dies => cases hclean

/-- The thread has its call still to make up to where it starts it, so it
makes one call and no more. -/
def Worker.Fresh (wk : Worker) : Prop :=
  wk.pc = .clear ∨ wk.pc = .sleep ∨ wk.pc = .spawn → wk.native = .none

/-- No step of the thread is the call. -/
theorem Worker.fresh_of_step (h : wk.step i = some wk') (hf : wk.Fresh) :
    wk'.Fresh ∧ wk'.waits = wk.waits := by
  unfold waits
  rcases (step_inv h).course with ⟨hpc, hpc', hnat⟩ | ⟨hnat, -, -, -, -, hnc, hsl⟩
  · refine ⟨?_, by rw [hnat, hf (Or.inr (Or.inr hpc))]⟩
    rintro (hpc₁ | hpc₁ | hpc₁) <;> cases hpc'.symm.trans hpc₁
  · refine ⟨fun hpc => hnat.trans (hf ?_), by rw [hnat]⟩
    exact (hsl (hpc.resolve_left hnc)).imp id Or.inl

-- ============================================================ the invariant

/-- The lines the first `n` sessions have logged, which is where those of
session `n` begin. -/
def linesUpTo (ss : List Session) (n : Nat) : List Msg :=
  linesOf ((ss.take n).map Session.trace).flatten

theorem lines_eq {p : Proc} (hgone : GoneThrough cs ss p) (n : Nat) :
    linesOf p.trace = linesUpTo ss n
      ++ linesOf ((ss.drop n).map Session.trace).flatten := by
  rw [linesUpTo, ← linesOf_append, ← List.flatten_append, ← List.map_append,
    List.take_append_drop, hgone.trace]

/-- What is logged behind the lines of the first `n` sessions is logged
by a later one. -/
theorem session_of_mem_drop {p : Proc} {n cleared : Nat} {m : Msg}
    (hgone : GoneThrough cs ss p) (hle : (linesUpTo ss n).length ≤ cleared)
    (hm : m ∈ (linesOf p.trace).drop cleared) :
    ∃ k s, n ≤ k ∧ ss[k]? = some s ∧ .log m ∈ s.trace := by
  have hmem : m ∈ linesOf ((ss.drop n).map Session.trace).flatten := by
    rw [lines_eq hgone n, List.drop_append] at hm
    rcases List.mem_append.mp hm with hm | hm
    · rw [List.drop_eq_nil_of_le hle] at hm
      cases hm
    · exact List.mem_of_mem_drop hm
  obtain ⟨tr, htr, he⟩ := List.mem_flatten.mp (mem_linesOf hmem)
  obtain ⟨s, hs, rfl⟩ := List.mem_map.mp htr
  obtain ⟨j, hj⟩ := List.mem_iff_getElem?.mp hs
  rw [List.getElem?_drop] at hj
  exact ⟨n + j, s, Nat.le_add_right n j, hj, he⟩

/-- A line read was logged behind the last clear, so it is none of a
session before it. -/
theorem LogAt.mem_drop {lines ms : List Msg} {cleared : Nat} {m : Msg}
    (h : LogAt lines cleared wk ms) (hm : m ∈ ms) :
    m ∈ lines.drop cleared := by
  have hread : m ∈ ms ++ wk.pipe := List.mem_append_left _ hm
  rw [h.segment, List.drop_take] at hread
  exact List.mem_of_mem_take hread

/-- A thread that has read a line has had one printed. -/
theorem LogAt.pos_ne {lines ms : List Msg} {cleared : Nat} {m : Msg}
    (h : LogAt lines cleared wk ms) (hm : m ∈ ms) : wk.pos ≠ 0 := by
  intro hpos
  have hseg := h.segment
  rw [hpos, List.take_zero, List.drop_nil] at hseg
  rw [(List.append_eq_nil_iff.mp hseg).1] at hm
  cases hm

namespace Console

/-- What an unhurried run keeps: the sessions of the clicks before the
last are through, and what they have logged is cleared. -/
structure ClickInv (c : Console) (ss : List Session) : Prop where
  fresh : ∀ wk ∈ c.u.workers, wk.Fresh
  calls : c.u.proc.calls.length + c.u.workers.countP Worker.waits
    ≤ c.u.workers.length
  begun : ∀ w, c.u.workers.length = w + 1 → w ≤ ss.length
  earlier : ∀ w, c.u.workers.length = w + 1 →
    ∀ s ∈ ss.take w, s.through = true
  base : ∀ w wk, c.u.workers.length = w + 1 → c.u.workers[w]? = some wk →
    wk.clean = true ∨ wk.pos ≠ 0 →
    (linesUpTo ss w).length ≤ c.u.cleared

/-- The process moves on under the console, which changes nothing of
sessions that are through. -/
theorem ClickInv.turn {p : Proc} {a : PAct} (hi : ClickInv c ss)
    (h : Turn cs p ss a ss') : ClickInv c ss' := by
  have htake : ∀ w, c.u.workers.length = w + 1 →
      ss'.take w = ss.take w ∧ ss.length ≤ ss'.length :=
    fun w hlen => h.take (hi.begun w hlen) (hi.earlier w hlen)
  refine ⟨hi.fresh, hi.calls, ?_, ?_, ?_⟩
  · intro w hlen
    exact Nat.le_trans (hi.begun w hlen) (htake w hlen).2
  · intro w hlen
    rw [(htake w hlen).1]
    exact hi.earlier w hlen
  · intro w wk hlen hw hclean
    rw [linesUpTo, (htake w hlen).1]
    exact hi.base w wk hlen hw hclean

/-- A thread that goes on with its call to make, or made, counts as
before: calls made and calls to come add up to the clicks. -/
theorem ClickInv.calls_moved {w : Nat} (hi : ClickInv c ss)
    (hw : c.u.workers[w]? = some wk) (hwaits : wk'.waits = wk.waits) :
    c.u.proc.calls.length + (c.u.workers.set w wk').countP Worker.waits
      ≤ c.u.workers.length := by
  rw [Threads.countP_moved_of_eq hw hwaits]
  exact hi.calls

/-- One that makes its call waits no more. -/
theorem ClickInv.calls_made {w k : Nat} {l : Sender} (hi : ClickInv c ss)
    (hw : c.u.workers[w]? = some wk) (hst : wk.native = .started) :
    (c.u.proc.calls ++ [l]).length
        + (c.u.workers.set w { wk with native := .called k }).countP
          Worker.waits
      ≤ c.u.workers.length := by
  have hcount := Threads.countP_moved
    (x := { wk with native := .called k }) Worker.waits hw
  have hone : wk.waits = true := by rw [Worker.waits, hst]
  have hzero : Worker.waits { wk with native := .called k } = false := rfl
  have hold := hi.calls
  rw [hone, hzero, if_pos rfl, if_neg Bool.false_ne_true] at hcount
  rw [List.length_append, List.length_singleton]
  omega

/-- One thread changes, and the log may be cleared. -/
theorem ClickInv.thread {w : Nat} (hi : ClickInv c ss)
    (hw : c.u.workers[w]? = some wk)
    (hworkers : c'.u.workers = c.u.workers.set w wk') (hfresh : wk'.Fresh)
    (hcalls : c'.u.proc.calls.length + c'.u.workers.countP Worker.waits
      ≤ c.u.workers.length)
    (hcleared : ∀ n, (linesUpTo ss n).length ≤ c.u.cleared →
      (linesUpTo ss n).length ≤ c'.u.cleared)
    (hclean : c.u.workers.length = w + 1 → wk'.clean = true ∨ wk'.pos ≠ 0 →
      (linesUpTo ss w).length ≤ c'.u.cleared) :
    ClickInv c' ss := by
  have hlen : c'.u.workers.length = c.u.workers.length := by
    rw [hworkers, List.length_set]
  refine ⟨?_, hlen.symm ▸ hcalls, ?_, ?_, ?_⟩
  · intro wk₁ hwk₁
    rw [hworkers] at hwk₁
    rcases List.mem_or_eq_of_mem_set hwk₁ with hwk₁ | rfl
    · exact hi.fresh wk₁ hwk₁
    · exact hfresh
  · intro w₁ hw₁
    exact hi.begun w₁ (hlen ▸ hw₁)
  · intro w₁ hw₁
    exact hi.earlier w₁ (hlen ▸ hw₁)
  · intro w₁ wk₁ hw₁ hwk₁ hclean₁
    rw [hlen] at hw₁
    rw [hworkers] at hwk₁
    rcases Threads.moved_inv hwk₁ with ⟨rfl, rfl⟩ | ⟨-, hold⟩
    · exact hclean hw₁ hclean₁
    · exact hcleared w₁ (hi.base w₁ wk₁ hw₁ hold hclean₁)

/-- Behind OTA STOP the thread of the last click has seen its session:
the line is none of an earlier one, since those are cleared. -/
theorem ClickInv.last_begun (hi : ClickInv c ss) (hr : RenderInv c)
    (hgone : GoneThrough cs ss c.u.proc) (hw : c.u.workers[w]? = some wk)
    (hlen : c.u.workers.length = w + 1) (hpc : wk.pc = .ended) :
    w + 1 ≤ ss.length := by
  obtain ⟨ms, done, hl⟩ := hr.last w wk hlen hw
  obtain ⟨ms', hms, -⟩ := hl.log.left (by rw [Worker.left, hpc])
  have hbase := hi.base w wk hlen hw (Or.inl (by rw [Worker.clean, hpc]))
  have hmem := hl.log.mem_drop (hms ▸ List.mem_append_cons_self)
  obtain ⟨k, s, hle, hk, -⟩ := session_of_mem_drop hgone hbase hmem
  have hlt := (List.getElem?_eq_some_iff.mp hk).1
  omega

/-- A click that starts a thread finds the sessions through, so the next
session is the next one of the chain. -/
theorem ClickInv.start (hi : ClickInv c ss) (hr : RenderInv c)
    (hgone : GoneThrough cs ss c.u.proc) (hun : unhurried c .start) :
    ClickInv c.onStart ss := by
  rcases c.onStart_inv with heq | ⟨hrun, heq⟩
  · rwa [heq]
  -- unhurried: every earlier call has returned and its reader has ended
  · obtain ⟨hret, hend⟩ := hun hrun
    obtain ⟨snds, hcalls, -⟩ := hgone.calls
    have hthrough : ∀ s ∈ ss, s.through = true := by
      refine hgone.through ?_ fun r hr _ => hend r hr
      intro s hs
      apply hret
      rw [hcalls]
      exact List.mem_append_left _ (List.mem_map_of_mem hs)
    have hnew : ∀ w, (c.u.workers ++ [Worker.new]).length = w + 1 →
        w = c.u.workers.length := by
      intro w hlen
      simpa using hlen.symm
    rw [heq]
    refine ⟨?_, ?_, ?_, ?_, ?_⟩
    · intro wk hwk
      rcases List.mem_append.mp hwk with hwk | hwk
      · exact hi.fresh wk hwk
      · rw [List.mem_singleton.mp hwk]
        exact fun _ => rfl
    · have hold := hi.calls
      simp only [List.countP_append, List.length_append,
        List.length_singleton]
      have hone : [Worker.new].countP Worker.waits = 1 := rfl
      omega
    · intro w hlen
      rw [hnew w hlen]
      -- the session of the click before has begun, since its thread is back
      -- from it
      cases hw : c.u.workers.getLast? with
      | none =>
          rw [List.getLast?_eq_none_iff.mp hw]
          exact Nat.zero_le _
      | some wk =>
          have hne : c.u.workers ≠ [] := by
            rintro hnil
            rw [hnil] at hw
            cases hw
          have hpos := List.length_pos_of_ne_nil hne
          have hlast : c.u.workers.length = c.u.workers.length - 1 + 1 := by
            omega
          rw [List.getLast?_eq_getElem?] at hw
          have hpc := hr.turns.free hrun wk (List.mem_of_getElem? hw)
          rw [hlast]
          exact hi.last_begun hr hgone hw hlast hpc
    · intro w _ s hs
      exact hthrough s (List.mem_of_mem_take hs)
    · intro w wk hlen hw hclean
      rw [hnew w hlen, List.getElem?_concat_length] at hw
      cases hw
      rcases hclean with hclean | hpos
      · cases hclean
      · exact absurd rfl hpos

/-- One step of the console, with the chain already moved on where the
process has. -/
theorem ClickInv.step {a : ConAct} (hi : ClickInv c ss) (hr : RenderInv c)
    (hgone : GoneThrough cs ss c'.u.proc) (hun : unhurried c a)
    (h : Console.step cs c a = some c') : ClickInv c' ss := by
  cases step_inv h with
  | start => exact hi.start hr (c.onStart_proc ▸ hgone) hun
  | clean | verboseLog | file | flag | handle =>
      exact ⟨hi.fresh, hi.calls, hi.begun, hi.earlier, hi.base⟩
  | @line w x hheld =>
      have hu : (c.goOn w x).u = c.u := (goOn_spec c w x).1
      constructor <;> rw [hu]
      · exact hi.fresh
      · exact hi.calls
      · exact hi.begun
      · exact hi.earlier
      · exact hi.base
  | @worker w i wk wk' hw hheld hstep =>
      -- the guard: the native thread is not created before the clear
      obtain ⟨hfresh, hwaits⟩ :=
        Worker.fresh_of_step hstep (hi.fresh wk (List.mem_of_getElem? hw))
      refine hi.thread hw rfl hfresh (hi.calls_moved hw hwaits) (fun _ => id)
        ?_
      intro hlen hclean
      apply hi.base w wk hlen hw
      refine hclean.imp (Worker.clean_of_step hstep ?_) ?_
      · rintro rfl
        exact hun wk hw
      · rw [(Worker.step_inv hstep).reads.2]
        exact id
  | @native w wk hw hst v stack =>
      -- a fresh thread has not started its native call
      refine hi.thread hw rfl ?_ (hi.calls_made hw hst) (fun _ => id) ?_
      · intro hpc
        cases hst.symm.trans (hi.fresh wk (List.mem_of_getElem? hw) hpc)
      · exact fun hlen hclean => hi.base w wk hlen hw hclean
  | @clear w wk hw =>
      -- the clear takes effect now, behind every line of the sessions before
      have hle : ∀ n, (linesUpTo ss n).length
          ≤ (linesOf c.u.proc.trace).length := by
        intro n
        rw [lines_eq hgone n, List.length_append]
        exact Nat.le_add_right ..
      exact hi.thread hw rfl (hi.fresh wk (List.mem_of_getElem? hw))
        (hi.calls_moved hw rfl) (fun n _ => hle n) fun _ _ => hle w
  | @logcat w wk m hw hpc hm =>
      refine hi.thread hw rfl (hi.fresh wk (List.mem_of_getElem? hw))
        (hi.calls_moved hw rfl) (fun _ => id) ?_
      intro hlen _
      exact hi.base w wk hlen hw (Or.inl (by rw [Worker.clean, hpc]))
  | proc hp =>
      refine ⟨hi.fresh, ?_, hi.begun, hi.earlier, hi.base⟩
      rw [proc_calls h]
      exact hi.calls

end Console

namespace World

variable {files : Nat → Image} {w w' : World}

/-- Nothing interferes with what is shown of a session, and the user
waits for its threads. -/
def calm (w : World) : WAct → Prop
  | .app a => w.c.steady a ∧ w.c.unhurried a
  | _ => True

instance (w : World) : ∀ a, Decidable (calm w a)
  | .app _ => inferInstanceAs (Decidable (_ ∧ _))
  | .deliver _ | .answer _ | .lose | .drop _ =>
      inferInstanceAs (Decidable True)

theorem clickInv_of_reach
    (h : Lts.Reach (step cs) (fun w a => fair files w a ∧ calm w a)
      loaded w) :
    Console.RenderInv w.c
      ∧ ∃ ss, FairInv cs files w ss ∧ Console.ClickInv w.c ss := by
  have hrender : ∀ w, Lts.Reach (step cs)
      (fun w a => fair files w a ∧ calm w a) loaded w →
      Console.RenderInv w.c := by
    intro w hr
    exact .of_reach (reach_console hr (fun w a hok => hok.2.1)
      fun _ _ _ => trivial)
  refine ⟨hrender w h, ?_⟩
  refine h.invariant₂
    (I := fun w => ∃ ss, FairInv cs files w ss ∧ Console.ClickInv w.c ss)
    hrender ?_ ?_
  · have hrefl : Lts.Reach (step cs) (fair files) loaded loaded :=
      Lts.Reach.refl loaded
    obtain ⟨ss, hi⟩ := FairInv.of_reach hrefl
    have hempty : ∀ n, loaded.c.u.workers.length ≠ n + 1 := nofun
    refine ⟨ss, hi, ?_, Nat.le_refl _, ?_, ?_, ?_⟩
    · intro wk hwk
      cases hwk
    · exact fun n hlen => absurd hlen (hempty n)
    · exact fun n hlen => absurd hlen (hempty n)
    · exact fun n _ hlen => absurd hlen (hempty n)
  · intro w a w' hr hex hok hs
    obtain ⟨ss, hi, hclick⟩ := hex
    obtain ⟨ss', hturn, hi'⟩ := hi.step hok.1 hs
    have hclick' : Console.ClickInv w.c ss' := by
      rcases hturn with rfl | ⟨b, hturn⟩
      · exact hclick
      · exact hclick.turn hturn
    refine ⟨ss', hi', ?_⟩
    cases step_inv hs with
    | aside hc | call hc | send hc | read _ hc =>
        exact hclick'.step hr hi'.gone hok.2.2 hc
    | deliver _ hc =>
        exact hclick'.step (a := .proc _) hr hi'.gone trivial hc
    | answer | lose | drop => exact hclick'

end World

-- ================================================================== results

/-- A result shown has been sent: nothing else writes to the view. -/
theorem Screen.mem_of_after {v : Verdict} {b : Bool} {ms : List Message}
    (hv : (Screen.after b ms).tvResult = some v) : .textView v ∈ ms := by
  induction ms using List.reverseRecOn with
  | nil => cases hv
  | append_singleton ms m ih =>
      rw [after_snoc] at hv
      cases m with
      | editText obj => exact List.mem_append_left _ (ih hv)
      | textView v' =>
          cases hv
          exact List.mem_append_right _ (List.mem_singleton_self _)

/-- A result sent is that of a line, and of which one is what the log
tells. -/
theorem line_of_mem_messagesOf {v : Verdict} {b : Bool}
    {before xs : List Line} (h : .textView v ∈ messagesOf b before xs) :
    ∃ x ∈ xs, x.result = some v := by
  induction xs generalizing before with
  | nil => cases h
  | cons x xs ih =>
      rcases List.mem_append.mp h with h | h
      · rcases List.mem_cons.mp h with h | h
        · cases h
        · obtain ⟨v', hv', heq⟩ :=
            List.mem_map.mp (Option.toList_map ▸ h)
          cases heq
          exact ⟨x, List.mem_cons_self, Option.mem_toList.mp hv'⟩
      · obtain ⟨y, hy, hres⟩ := ih h
        exact ⟨y, List.mem_cons_of_mem x hy, hres⟩

/-- In a steady run a result on the screen has been read from the log by
the thread of the last click. -/
theorem Console.LastAt.verdict {ms : List Msg} {done : List Message}
    {v : Verdict} (h : LastAt c w wk ms done)
    (hv : c.screen.tvResult = some v) : v.msg ∈ ms := by
  rw [h.screen] at hv
  have hsent : .textView v ∈ messagesOf c.mode [] (c.taken w) :=
    h.text.sent_prefix.subset
      (List.mem_append_left _ (Screen.mem_of_after hv))
  obtain ⟨x, hx, hres⟩ := line_of_mem_messagesOf hsent
  rw [h.taken] at hx
  obtain ⟨m, hm, rfl⟩ := List.mem_map.mp hx
  have heq := Line.eq_of_result hres
  unfold Line.of at heq
  split at heq
  · cases heq
  · cases heq
    exact hm

/-- "Success" on the screen has been announced by the call of the last
click: its thread has read the line, and the line is of that session. -/
theorem World.last_delivered {files : Nat → Image} {w : World} {n : Nat}
    (hr : Console.RenderInv w.c) (hi : World.FairInv cs files w ss)
    (hclick : Console.ClickInv w.c ss)
    (hlen : w.c.u.workers.length = n + 1)
    (hv : w.c.screen.tvResult = some .success) :
    n < w.c.u.proc.calls.length ∧
      ∀ q ∈ (files n).packets, ⟨n, q.1, q.2⟩ ∈ w.sent ∧ w.acked n q.1 := by
  obtain ⟨wk, hw⟩ : ∃ wk, w.c.u.workers[n]? = some wk :=
    ⟨_, List.getElem?_eq_getElem (by omega)⟩
  obtain ⟨ms, done, hl⟩ := hr.last n wk hlen hw
  have hms := hl.verdict hv
  have hbase := hclick.base n wk hlen hw (Or.inr (hl.log.pos_ne hms))
  obtain ⟨k, s, hle, hk, hlog⟩ :=
    session_of_mem_drop hi.gone hbase (hl.log.mem_drop hms)
  obtain ⟨snds, hcalls, -⟩ := hi.gone.calls
  have hlt := (List.getElem?_eq_some_iff.mp hk).1
  have hss : ss.length ≤ w.c.u.proc.calls.length := by
    rw [hcalls, List.length_append, List.length_map]
    omega
  have hmade := hclick.calls
  obtain rfl : k = n := by omega
  refine ⟨by omega, ?_⟩
  exact hi.delivered hk hlog

/-- Another click on Start, up to the call of ota_update. -/
def clickAgain (w : Nat) : List ConAct :=
  [.start, .worker w .tick, .clear w, .worker w .tick, .worker w .tick,
    .worker w .tick, .flag w, .native w (fun _ => 0)]

/-- Its thread reads the session's five lines, and the handler shows
them. -/
def showAgain (w : Nat) : List ConAct :=
  List.replicate 5 (.logcat w) ++ showLine w 7 ++ showLine w 4
    ++ showLine w 7 ++ showLine w 7 ++ showLine w 3
    ++ List.replicate 6 .handle

/-- The threads of the first session end. -/
def windUp : List ConAct := [.worker 0 .tick, .proc (.read 0 .tick)]

/-- Two sessions, the second when the threads of the first have ended. -/
def secondSuccess : World :=
  (Lts.run (World.step .unsigned)
    (fun w a => World.fair (fun _ => dataImage) w a ∧ World.calm w a)
    World.loaded
    (clickStart.map .app ++ (answeredCall 0 0 ++ returns 0).flatMap onAir
      ++ (showSession ++ windUp ++ clickAgain 1).map .app
      ++ (answeredCall 1 1 ++ returns 1).flatMap onAir
      ++ (showAgain 1).map .app)).getD World.loaded

end BtOta
