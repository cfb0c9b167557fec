/-
The app, the channel and the device come to rest.

A click on Start sets off threads, packets, answers, log lines and
messages, and each of them can set off others. But every one of them has
a price that covers what it can set off, and what a click sets off is
paid for by the click: so with `n` clicks there are at most
`World.bound n` steps of app, channel and device in any run, whatever
the files and the reports (`comes_to_rest`). It takes calls of ota_update
that follow one another and, as for a single session, records that
advance inside the file.

# The prices

A log line may come to be printed for each of the `n` threads, read by
it, shown with two messages and handled. A step of ota_update or of
hidRead logs at most four lines; one of ota_update may write a packet,
whose answer brings a report, and may create a reader. Threads that are
still to be started count as new ones, so a click costs nothing more.
-/
import BtOta.Proofs.Costs
import BtOta.Proofs.LastClick

namespace BtOta

variable {cs : CharSign} {c c' : Console} {w w' : World} {n m N : Nat}
  {wk wk' : Worker}

-- ================================================================= the prices

/-- What a step of a reader pays, and of a call: enough for the lines it
can log, each of which every thread reads. -/
def rates (n : Nat) : Rates where
  reader := 80 * n + 1
  call := 10 * (80 * n + 1) + 1

/-- What a line at hand has before it: two for each step, one of which
may be a message. -/
def Held.ahead : Held → Nat
  | .choose _ => 14
  | .whole _ => 12
  | .send _ _ => 10
  | .keep _ => 8
  | .fetch _ => 6
  | .store _ _ => 4
  | .result _ => 2

/-- What a thread has before it outside of the lines it reads: its steps
up to the loop, and behind it. -/
def Worker.ahead (wk : Worker) : Nat :=
  (match wk.pc with
    | .clear => 96
    | .sleep => 80
    | .spawn => 64
    | .exec => 48
    | .readLine => 32
    | .release => 16
    | .ended | .died => 0)
    + (if wk.clearing then 1 else 0)

namespace Console

/-- The thread of click `m`, or the one a click would start. -/
def thread (c : Console) (m : Nat) : Worker :=
  c.u.workers[m]?.getD Worker.new

/-- The lines that a thread at `pos` has not been printed. -/
def unread (c : Console) (pos : Nat) : Nat :=
  (linesOf c.u.proc.trace).length - max pos c.u.cleared

/-- What is still to come of the thread, where the call it makes costs
`N`: its own steps, its call, and the lines that are not yet shown. -/
def threadCost (N : Nat) (c : Console) (m : Nat) : Nat :=
  (c.thread m).ahead + (if (c.thread m).waits then N else 0)
    + 20 * c.unread (c.thread m).pos + 19 * (c.thread m).pipe.length
    + (c.held m).elim 0 Held.ahead + (if c.verboseS m = none then 1 else 0)

/-- What is still to come of the queue and of `n` threads. -/
def cost (N n : Nat) (c : Console) : Nat :=
  c.queue.length + ∑ m ∈ Finset.range n, c.threadCost N m

theorem thread_of_some (hm : c.u.workers[m]? = some wk) :
    c.thread m = wk := by
  unfold thread
  rw [hm]
  rfl

/-- What a step of thread `m` leaves alone, so that only its own share of
the cost has to be looked at. -/
structure Beside (m : Nat) (c c' : Console) : Prop where
  thread : ∀ i, i ≠ m → c'.thread i = c.thread i
  unread : ∀ pos, c'.unread pos ≤ c.unread pos
  held : ∀ i, i ≠ m → c'.held i = c.held i
  verboseS : ∀ i, i ≠ m → c'.verboseS i = c.verboseS i

/-- One thread goes on: if its share and the queue pay for the step, the
whole cost does. -/
theorem Beside.cost_moved {k : Nat} (h : Beside m c c') (hm : m < n)
    (hqueue : c.queue.length ≤ c'.queue.length)
    (hself : c'.queue.length + c'.threadCost N m + k
      ≤ c.queue.length + c.threadCost N m) :
    c'.cost N n + k ≤ c.cost N n := by
  have hothers : ∀ i, i ≠ m → c'.threadCost N i ≤ c.threadCost N i := by
    intro i hi
    have hunread := h.unread (c.thread i).pos
    unfold threadCost
    rw [h.thread i hi, h.held i hi, h.verboseS i hi]
    omega
  have hsum := Threads.sum_range_moved
    (k := c'.queue.length - c.queue.length + k) hm hothers (by omega)
  unfold cost
  omega

/-- A thread that is written back is the only one that changes. -/
theorem thread_set {i : Nat} (hi : i ≠ m)
    (hworkers : c'.u.workers = c.u.workers.set m wk') :
    c'.thread i = c.thread i := by
  unfold thread
  rw [hworkers, List.getElem?_set_ne (Ne.symm hi)]

theorem thread_set_self (hm : c.u.workers[m]? = some wk)
    (hworkers : c'.u.workers = c.u.workers.set m wk') :
    c'.thread m = wk' :=
  thread_of_some (hworkers ▸ Threads.moved hm)

end Console

-- =============================================================== the threads

/-- A step of the thread is paid for, with the line it takes up: a line
in hand has less before it than one in the pipe. -/
theorem WStep.cost_step {i : WIn} (h : WStep wk i wk') :
    wk'.ahead + 19 * wk'.pipe.length + (wk.holds i).elim 0 Held.ahead + 1
      ≤ wk.ahead + 19 * wk.pipe.length := by
  cases h with
  | clear pc | sleep pc | spawn pc | exec pc | release pc | readFail pc =>
      simp [Worker.ahead, pc, Worker.holds, Held.ahead]
      try omega
  | dies pc =>
      rcases pc with pc | pc <;> simp [Worker.ahead, pc, Worker.holds]
  | line pc pipe | stop pc pipe =>
      simp only [Worker.ahead, pc, Worker.holds, pipe, List.length_cons,
        Option.elim_some, Held.ahead]
      omega
  | eof pc pipe =>
      simp [Worker.ahead, pc, Worker.holds, Held.ahead, pipe]
      omega

namespace Console

/-- Going on with a line is paid for, with the message sent; nothing is
taken from the queue. -/
theorem goOn_cost (c : Console) (m : Nat) (x : Held) :
    (c.goOn m x).queue.length + ((c.goOn m x).held m).elim 0 Held.ahead + 1
        ≤ c.queue.length + x.ahead
      ∧ c.queue.length ≤ (c.goOn m x).queue.length := by
  cases x with
  | choose x =>
      simp only [goOn, Function.update_self, Option.elim_some]
      split <;> simp [Held.ahead]
  | whole x | fetch x | store x text =>
      simp [goOn, Function.update_self, Held.ahead]
  | keep x =>
      simp only [goOn, Function.update_self, Option.elim_some]
      split <;> simp [Held.ahead]
  | send x obj =>
      have hsent : x.sent.elim 0 Held.ahead ≤ 8 := by
        cases x with
        | stopped => exact Nat.zero_le _
        | log m =>
            unfold Line.sent
            simp only
            split <;> simp [Held.ahead]
      simp only [goOn, Function.update_self, List.length_append,
        List.length_singleton, Held.ahead]
      omega
  | result x =>
      have hone : (x.result.map Message.textView).toList.length ≤ 1 := by
        cases x.result <;> simp
      simp only [goOn, Function.update_self, List.length_append, Held.ahead,
        Option.elim_none]
      omega

end Console

/-- The app takes the step, not its user. What the user does is not
counted and costs nothing, but for Start. -/
def ConAct.own : ConAct → Bool
  | .start | .clean | .verboseLog _ | .selected _ | .canceled => false
  | .worker _ _ | .line _ | .handle | .flag _ | .native _ _ | .clear _
  | .logcat _ | .proc _ => true

/-- What a step of the app pays: the call of ota_update is handed on. -/
def ConAct.pays (N : Nat) : ConAct → Nat
  | .native _ _ => N
  | .worker _ _ | .line _ | .handle | .flag _ | .clear _ | .logcat _ => 1
  | _ => 0

/-- And what it is paid, for the lines that are logged. -/
def ConAct.earns (n : Nat) : ConAct → Nat
  | .proc _ => 80 * n
  | _ => 0

/-- Only the process is paid, and whoever else moves pays. -/
theorem ConAct.own_le_pays (a : ConAct) (ha : ∀ b, a ≠ .proc b)
    (hN : 0 < N) :
    (if a.own then 1 else 0) + a.earns n ≤ a.pays N := by
  cases a with
  | proc b => exact absurd rfl (ha b)
  | native => exact hN
  | start | clean | verboseLog | selected | canceled | worker | line
  | handle | flag | clear | logcat => exact Nat.le_refl _

namespace Console

/-- Another thread's line is left where it is. -/
theorem goOn_held_of_ne {i : Nat} (x : Held) (hi : i ≠ m) :
    (c.goOn m x).held i = c.held i := by
  cases x <;> exact Function.update_of_ne hi _ _

/-- Four more lines cost each thread eighty. -/
theorem cost_proc {p : Proc} {es : List Event}
    (htrace : p.trace = c.u.proc.trace ++ es) (hes : es.length ≤ 4) :
    cost N n { c with u := { c.u with proc := p } }
      ≤ c.cost N n + 80 * n := by
  have hlines : (linesOf p.trace).length
      ≤ (linesOf c.u.proc.trace).length + 4 := by
    rw [htrace, linesOf_append, List.length_append]
    have hfilter : (linesOf es).length ≤ es.length :=
      List.length_filterMap_le ..
    omega
  have hone : ∀ m, threadCost N { c with u := { c.u with proc := p } } m
      ≤ c.threadCost N m + 80 := by
    intro m
    have hthread : thread { c with u := { c.u with proc := p } } m
        = c.thread m := rfl
    unfold threadCost
    rw [hthread]
    simp only [unread]
    omega
  have hsum := Threads.sum_range_raised (m := n) hone
  unfold cost
  rw [Nat.add_assoc]
  exact Nat.add_le_add_left hsum _

/-- A click costs what the thread it starts was to cost, since a thread
not yet started is priced as a new one. -/
theorem cost_start (N n : Nat) (c : Console) :
    c.onStart.cost N n = c.cost N n := by
  rcases c.onStart_inv with heq | ⟨-, heq⟩
  · rw [heq]
  · have hthread : ∀ m, c.onStart.thread m = c.thread m := by
      intro m
      rw [heq]
      exact Threads.snoc_eq (fun wk? => wk?.getD Worker.new) rfl m
    have hone : ∀ m, c.onStart.threadCost N m = c.threadCost N m := by
      intro m
      unfold threadCost
      rw [hthread m, heq]
      rfl
    unfold cost
    simp only [hone]
    rw [heq]

/-- Where the threads are as before and none is cleared for, they cost
what they did; fewer lines are unread. -/
theorem cost_clear (hm : m < n) (h : step cs c (.clear m) = some c') :
    c'.cost N n + 1 ≤ c.cost N n := by
  obtain ⟨u, hu, rfl⟩ := Option.map_eq_some_iff.mp h
  simp only [Activity.step, Option.bind_eq_bind,
    Option.bind_eq_some_iff] at hu
  obtain ⟨wk, hw, hu⟩ := hu
  split at hu
  case isFalse => cases hu
  case isTrue hclearing =>
    cases hu
    refine Beside.cost_moved ⟨?_, ?_, fun _ _ => rfl, fun _ _ => rfl⟩ hm
      (Nat.le_refl _) ?_
    · exact fun i hi => thread_set hi rfl
    · intro pos
      simp only [unread]
      omega
    · unfold threadCost
      rw [thread_set_self hw rfl, thread_of_some hw]
      have hwaits : Worker.waits { wk with clearing := false } = wk.waits :=
        rfl
      rw [hwaits]
      simp only [Worker.ahead, unread, hclearing, if_true,
        Bool.false_eq_true, if_false]
      omega

theorem cost_flag (hm : m < n) (h : step cs c (.flag m) = some c') :
    c'.cost N n + 1 ≤ c.cost N n := by
  simp only [step, Option.bind_eq_bind, Option.bind_eq_some_iff] at h
  obtain ⟨wk, hw, h⟩ := h
  split at h
  case isFalse => cases h
  case isTrue hst =>
    cases h
    refine Beside.cost_moved ⟨fun _ _ => rfl, fun _ => Nat.le_refl _,
      fun _ _ => rfl, ?_⟩ hm (Nat.le_refl _) ?_
    · exact fun i hi => Function.update_of_ne hi _ _
    · unfold threadCost
      simp only [Function.update_self, hst.2, if_true, reduceCtorEq,
        if_false]
      exact Nat.le_refl _

/-- A thread has its call to make until it makes it, and only threads are
at a line: what the costs rely on. -/
structure Tidy (c : Console) : Prop where
  fresh : ∀ wk ∈ c.u.workers, wk.Fresh
  held : ∀ m, c.held m ≠ none → m < c.u.workers.length

/-- One thread is written back. -/
theorem Tidy.moved (hi : c.Tidy)
    (hw : c.u.workers[m]? = some wk) (hfresh : wk'.Fresh)
    (hworkers : c'.u.workers = c.u.workers.set m wk')
    (hheld : ∀ i, i ≠ m → c'.held i = c.held i) : c'.Tidy := by
  have hlen : c'.u.workers.length = c.u.workers.length := by
    rw [hworkers, List.length_set]
  constructor
  · intro wk₁ hwk₁
    rw [hworkers] at hwk₁
    rcases List.mem_or_eq_of_mem_set hwk₁ with hwk₁ | rfl
    · exact hi.fresh wk₁ hwk₁
    · exact hfresh
  · intro i hne
    rw [hlen]
    by_cases him : i = m
    · exact him ▸ (List.getElem?_eq_some_iff.mp hw).1
    · exact hi.held i (hheld i him ▸ hne)

theorem Tidy.step {a : ConAct} (hi : c.Tidy)
    (h : Console.step cs c a = some c') : c'.Tidy := by
  cases step_inv h with
  | start =>
      rcases c.onStart_inv with heq | ⟨-, heq⟩
      · rwa [heq]
      · rw [heq]
        constructor
        · intro wk hwk
          rcases List.mem_append.mp hwk with hwk | hwk
          · exact hi.fresh wk hwk
          · rw [List.mem_singleton.mp hwk]
            exact fun _ => rfl
        · intro m hne
          have hlt := hi.held m hne
          simp only [List.length_append]
          omega
  | clean | verboseLog | file | handle | flag => exact ⟨hi.fresh, hi.held⟩
  | @worker m i wk wk' hw hheld hstep =>
      have hfresh := hi.fresh wk (List.mem_of_getElem? hw)
      exact hi.moved hw (Worker.fresh_of_step hstep hfresh).1 rfl
        fun i hi => Function.update_of_ne hi _ _
  | @line m x hheld =>
      have hm := hi.held m (hheld ▸ Option.some_ne_none x)
      have hu : (c.goOn m x).u = c.u := (goOn_spec c m x).1
      constructor
      · rw [hu]
        exact hi.fresh
      · intro i hne
        rw [hu]
        by_cases him : i = m
        · exact him ▸ hm
        · exact hi.held i (goOn_held_of_ne x him ▸ hne)
  | @native m wk hw hst v stack =>
      refine hi.moved hw ?_ rfl fun _ _ => rfl
      intro hpc
      cases hst.symm.trans (hi.fresh wk (List.mem_of_getElem? hw) hpc)
  | @clear m wk hw | @logcat m wk msg hw =>
      have hfresh : wk.Fresh := hi.fresh wk (List.mem_of_getElem? hw)
      refine hi.moved hw ?_ rfl fun _ _ => rfl
      exact hfresh
  | proc hp => exact ⟨hi.fresh, hi.held⟩

/-- Every step of the app pays its price. -/
theorem cost_step {a : ConAct} (hi : c.Tidy)
    (hn : c.u.workers.length ≤ n) (h : step cs c a = some c') :
    c'.cost N n + a.pays N ≤ c.cost N n + a.earns n := by
  have hlt : ∀ {m wk}, c.u.workers[m]? = some wk → m < n := fun hw =>
    Nat.lt_of_lt_of_le (List.getElem?_eq_some_iff.mp hw).1 hn
  cases step_inv h with
  | start => exact Nat.le_of_eq (cost_start N n c)
  | clean | verboseLog => exact Nat.le_refl _
  | file path ha =>
      rcases ha with rfl | ⟨rfl, -⟩ <;> exact Nat.le_refl _
  | @worker m i wk wk' hw hheld hstep =>
      -- a thread's own step, paid for by the steps it has ahead; a line it
      -- takes moves from the pipe to its hand
      have hpaid := (Worker.step_inv hstep).cost_step
      have hwaits :=
        (Worker.fresh_of_step hstep (hi.fresh wk (List.mem_of_getElem? hw))).2
      refine Beside.cost_moved ⟨?_, fun _ => Nat.le_refl _, ?_,
        fun _ _ => rfl⟩ (hlt hw) (Nat.le_refl _) ?_
      · exact fun i hi => thread_set hi rfl
      · exact fun i hi => Function.update_of_ne hi _ _
      · unfold threadCost
        rw [thread_set_self hw rfl, thread_of_some hw, hwaits,
          (Worker.step_inv hstep).reads.2]
        simp only [Function.update_self, hheld, Option.elim_none, unread,
          ConAct.pays]
        omega
  | @line m x hheld =>
      -- the message it may post was paid for with the line
      have hm := hi.held m (hheld ▸ Option.some_ne_none x)
      obtain ⟨hpaid, hqueue⟩ := c.goOn_cost m x
      have hu : (c.goOn m x).u = c.u := (goOn_spec c m x).1
      have hthread : ∀ i, (c.goOn m x).thread i = c.thread i := by
        intro i
        unfold thread
        rw [hu]
      have hverbose : (c.goOn m x).verboseS = c.verboseS := by
        cases x <;> rfl
      refine Beside.cost_moved ⟨fun i _ => hthread i, ?_,
        fun i hi => goOn_held_of_ne x hi, fun i _ => by rw [hverbose]⟩
        (Nat.lt_of_lt_of_le hm hn) hqueue ?_
      · intro pos
        unfold unread
        rw [hu]
      · unfold threadCost unread
        rw [hthread, hverbose, hu, hheld]
        simp only [Option.elim_some, ConAct.pays]
        omega
  | @handle msg rest hqueue =>
      -- one message less; the threads' costs do not read the queue
      have hthreads : ∀ m, threadCost N { c with
          queue := rest
          screen := c.screen.handleMessage c.isVerboseLog msg } m
            = c.threadCost N m := fun m => rfl
      unfold cost
      simp only [hthreads, hqueue, List.length_cons, ConAct.pays,
        ConAct.earns]
      omega
  | flag m =>
      have h₁ := h
      simp only [step, Option.bind_eq_bind, Option.bind_eq_some_iff] at h₁
      obtain ⟨wk, hw, -⟩ := h₁
      exact cost_flag (hlt hw) h
  | @native m wk hw hst v stack =>
      -- the thread gives up what the call it makes will cost
      refine Beside.cost_moved ⟨?_, fun _ => Nat.le_refl _, fun _ _ => rfl,
        fun _ _ => rfl⟩ (hlt hw) (Nat.le_refl _) ?_
      · exact fun i hi => thread_set hi rfl
      · unfold threadCost
        rw [thread_set_self hw rfl, thread_of_some hw]
        simp only [Worker.waits, hst, Worker.ahead, unread, ConAct.pays]
        simp only [if_true, Bool.false_eq_true, if_false]
        omega
  | @clear m wk hw => exact cost_clear (hlt hw) h
  | @logcat m wk msg hw hpc hm =>
      -- from the unread part of the log into the pipe
      have hunread := (List.getElem?_eq_some_iff.mp hm).1
      refine Beside.cost_moved ⟨?_, fun _ => Nat.le_refl _, fun _ _ => rfl,
        fun _ _ => rfl⟩ (hlt hw) (Nat.le_refl _) ?_
      · exact fun i hi => thread_set hi rfl
      · unfold threadCost
        rw [thread_set_self hw rfl, thread_of_some hw]
        have hwaits : Worker.waits { wk with
            pos := max wk.pos c.u.cleared + 1
            pipe := wk.pipe ++ [msg] } = wk.waits := rfl
        rw [hwaits]
        simp only [Worker.ahead, unread, ConAct.pays, List.length_append,
          List.length_singleton]
        omega
  | @proc b p hp =>
      -- at most four lines, each of which costs every thread 20
      have hcost : cost N n { c with u := { c.u with proc := p } }
          ≤ c.cost N n + 80 * n := by
        cases Proc.step_inv hp with
        | call param2 stack => cases h
        | send hk hm => exact cost_proc rfl hm.length_le
        | read hj hm => exact cost_proc rfl hm.length_le
      exact hcost

end Console

/-- The threads that have been started stay. -/
theorem Console.length_workers_le {a : ConAct} (h : step cs c a = some c') :
    c.u.workers.length ≤ c'.u.workers.length := by
  cases step_inv h with
  | start =>
      rcases c.onStart_inv with heq | ⟨-, heq⟩
      · rw [heq]
      · rw [heq, List.length_append]
        exact Nat.le_add_right ..
  | @line m x => rw [(goOn_spec c m x).1]
  | worker | native | clear | logcat =>
      exact Nat.le_of_eq List.length_set.symm
  | clean | verboseLog | file | handle | flag | proc => exact Nat.le_refl _

-- ================================================================= the world

/-- The app, the channel or the device takes the step. -/
def WAct.own : WAct → Bool
  | .app a => a.own
  | .deliver _ | .answer _ | .lose | .drop _ => true

namespace World

/-- ota_update is called when the calls before have returned, and the
records it sends advance: without either a run may go on for ever. -/
def onward (w : World) : WAct → Prop
  | .app (.native _ _) => ∀ l ∈ w.c.u.proc.calls, l.returned = true
  | .app (.proc a) => w.c.u.proc.advancing a
  | _ => True

instance (w : World) : ∀ a, Decidable (onward w a)
  | .app (.native _ _) => inferInstanceAs (Decidable (∀ _ ∈ _, _))
  | .app (.proc a) => inferInstanceAs (Decidable (w.c.u.proc.advancing a))
  | .app .start | .app .clean | .app (.verboseLog _) | .app (.selected _)
  | .app .canceled | .app (.worker _ _) | .app (.line _) | .app .handle
  | .app (.flag _) | .app (.clear _) | .app (.logcat _) | .deliver _
  | .answer _ | .lose | .drop _ => inferInstanceAs (Decidable True)

/-- What is still to come with `n` threads: a packet pays for its answer,
an answer for the steps of its reader. -/
def cost (n : Nat) (w : World) : Nat :=
  w.c.u.proc.cost (rates n) + ((rates n).reader * 4 + 1) * w.up.length
    + (rates n).reader * 4 * w.down.length
    + w.c.cost ((rates n).call * callSteps + 1) n

/-- What holds on the way: the console is tidy, calls begin one after
another, and where a packet is built none of it has been sent. -/
structure CostInv (w : World) : Prop where
  sequential : w.c.u.proc.Sequential
  cleared : w.c.u.proc.Cleared
  tidy : w.c.Tidy

theorem length_written (p : Proc) (a : ConAct) :
    (written p a).length ≤ 1 := by
  unfold written
  split
  case h_2 => exact Nat.zero_le _
  case h_1 =>
    split
    case h_2 => exact Nat.zero_le _
    case h_1 => split <;> simp

theorem CostInv.step {a : WAct} (hi : w.CostInv) (hok : onward w a)
    (h : World.step cs w a = some w') : w'.CostInv := by
  cases step_inv h with
  | aside hc hproc =>
      exact ⟨hproc ▸ hi.sequential, hproc ▸ hi.cleared, hi.tidy.step hc⟩
  | @call m param2 stack c hc hp =>
      exact ⟨hi.sequential.step (a := .call param2 stack) hok hp,
        hi.cleared.step hp, hi.tidy.step hc⟩
  | @send k i c hc hp =>
      exact ⟨hi.sequential.step (a := .send k i) trivial hp,
        hi.cleared.step hp, hi.tidy.step hc⟩
  | read _ hc hp | deliver _ hc hp =>
      exact ⟨hi.sequential.step (a := .read _ _) trivial hp,
        hi.cleared.step hp, hi.tidy.step hc⟩
  | answer | lose | drop => exact ⟨hi.sequential, hi.cleared, hi.tidy⟩

/-- Every step of app, channel and device lowers what is to come. -/
theorem cost_step {a : WAct} (hi : w.CostInv) (hok : onward w a)
    (hn : w.c.u.workers.length ≤ n) (h : step cs w a = some w') :
    w'.cost n + (if a.own then 1 else 0) ≤ w.cost n := by
  have hcall : (rates n).call = 10 * (rates n).reader + 1 := rfl
  have hrdr : (rates n).reader = 80 * n + 1 := rfl
  -- both halves of the account, to be added up arm by arm
  have hconsole : ∀ {b c}, w.c.step cs b = some c → _ := fun hc =>
    Console.cost_step (N := (rates n).call * callSteps + 1) hi.tidy hn hc
  have hproc : ∀ {b p}, w.c.u.proc.advancing b →
      w.c.u.proc.step cs b = some p → _ := fun hadv hp =>
    Proc.cost_step (rates n) hi.sequential hi.cleared hadv hp
  unfold cost
  cases step_inv h with
  | @aside b c hc heq hb =>
      have hpaid := hconsole hc
      have hown : (if WAct.own (.app b) then 1 else 0) + b.earns n
          ≤ b.pays ((rates n).call * callSteps + 1) :=
        b.own_le_pays hb (Nat.succ_pos _)
      simp only [heq]
      omega
  | @call m param2 stack c hc hp =>
      -- what the console gives up is what the process takes on
      have hpaid := hconsole hc
      have hmade := hproc (b := .call param2 stack) trivial hp
      simp only [ConAct.pays, ConAct.earns, PAct.pays, PAct.earns, WAct.own,
        ConAct.own, if_true] at hpaid hmade ⊢
      omega
  | @send k i c hc hp =>
      -- a packet in flight may cost an answer, its delivery and the reader's
      -- lap over it
      have hpaid := hconsole hc
      have hsent := hproc hok hp
      have hup := Nat.mul_le_mul_left ((rates n).reader * 4 + 1)
        (length_written w.c.u.proc (.proc (.send k i)))
      rw [List.length_append, Nat.mul_add]
      simp only [ConAct.pays, ConAct.earns, PAct.pays, PAct.earns, WAct.own,
        ConAct.own, if_true] at hpaid hsent ⊢
      omega
  | @read j b c hb hc hp =>
      -- nothing is delivered, so the reader's step is its own
      have hpaid := hconsole hc
      have hread := hproc (b := .read j b) trivial hp
      have hbrings : b.brings = false := by
        cases b with
        | tick => rfl
        | got r =>
            cases r with
            | none => rfl
            | some r => exact absurd rfl (hb r)
      simp only [ConAct.pays, ConAct.earns, PAct.pays, PAct.earns, WAct.own,
        ConAct.own, hbrings, if_true, Bool.false_eq_true, if_false]
        at hpaid hread ⊢
      omega
  | @deliver j t rest c hdown hc hp =>
      -- the report that leaves the channel pays for the reader's lap
      have hpaid := hconsole hc
      have hread := hproc (b := .read j _) trivial hp
      rw [hdown, List.length_cons, Nat.mul_succ ((rates n).reader * 4)]
      simp only [ConAct.pays, ConAct.earns, PAct.pays, PAct.earns, WAct.own,
        RIn.brings, if_true] at hpaid hread ⊢
      omega
  | @answer t rest report hup hans =>
      -- an answer is cheaper than the packet it answers
      simp only [hup, List.length_cons, List.length_append, List.length_nil,
        Nat.mul_succ ((rates n).reader * 4),
        Nat.mul_succ ((rates n).reader * 4 + 1), WAct.own, if_true]
      omega
  | @lose t rest hup =>
      simp only [hup, List.length_cons,
        Nat.mul_succ ((rates n).reader * 4 + 1), WAct.own, if_true]
      omega
  | @drop i hlt =>
      rw [← List.length_eraseIdx_add_one hlt,
        Nat.mul_succ ((rates n).reader * 4)]
      simp only [WAct.own, if_true]
      omega

/-- What `n` clicks on Start can set off, in steps of the app, the
channel and the device. -/
def bound (n : Nat) : Nat := n * ((rates n).call * callSteps + 98)

theorem cost_loaded (n : Nat) : loaded.cost n = bound n := by
  have hone : ∀ N, ∀ m ∈ Finset.range n,
      Console.loaded.threadCost N m = N + 97 := by
    intro N m _
    show 96 + N + 20 * 0 + 19 * 0 + 0 + 1 = N + 97
    omega
  show 0 + ((rates n).reader * 4 + 1) * 0 + (rates n).reader * 4 * 0
    + (0 + ∑ m ∈ Finset.range n,
      Console.loaded.threadCost ((rates n).call * callSteps + 1) m) = bound n
  rw [Finset.sum_const_nat (hone _), Finset.card_range, bound]
  simp only [Nat.mul_zero, Nat.zero_add]

theorem length_workers_le {a : WAct} (h : step cs w a = some w') :
    w.c.u.workers.length ≤ w'.c.u.workers.length := by
  cases step_inv h with
  | aside hc | call hc | send hc | read _ hc | deliver _ hc =>
      exact Console.length_workers_le hc
  | answer | lose | drop => exact Nat.le_refl _

end World

/-- The session of `deliveredSuccess`, from the click to the screen. -/
def successRun : List WAct :=
  clickStart.map .app ++ (answeredCall 0 0 ++ returns 0).flatMap onAir
    ++ showSession.map .app

/-- Where it leads. -/
def successEnd : World :=
  (Lts.run (World.step .unsigned) World.onward World.loaded
    successRun).getD World.loaded

end BtOta
