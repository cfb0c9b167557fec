/-
What a timeout costs.

A timeout makes the sender transmit a packet once more, and the device
answers once more. The second answer is read while the next packet is
outstanding, and where that is a mismatched DATA answer hidRead asks
for a retry by design ("sequence no. not match, retry"), so the next
packet is transmitted once more too, and answered once more: the
duplicate travels on from packet to packet. `timeout_propagates` is the
shortest such run, four transmissions of a two-record image behind one
timeout.

It does not multiply. In every run on a lossless channel with a device
that says SUCCESS, whatever the file, a packet is transmitted at most
once more than there were timeouts up to it (`transmissions_le`), so
the number of packets written is at most the number of packets begun
times one more than the number of timeouts. `BudgetInv` pays for it: a
timeout puts one more transmission into the system, and as long as the
session lives what is in flight, what is due and what waits in the
mailbox never add up to more.
-/
import BtOta.Proofs.Flight
import BtOta.Proofs.Idle
import Mathlib.Algebra.Order.BigOperators.Group.Finset
import Mathlib.Order.Interval.Finset.Nat

namespace BtOta

open EventLog

-- =================================================================== counts

/-- How often packet `k` was written. -/
def transmissions (trace : List Event) (k : Nat) : Nat :=
  ((sentOf trace).map Prod.fst).count k

/-- A wait for a packet up to `k` ran out. -/
def Event.timesOutBy (k : Nat) : Event → Bool
  | .timeout j => j ≤ k
  | _ => false

/-- How many did. -/
def timeoutsTo (trace : List Event) (k : Nat) : Nat :=
  trace.countP (Event.timesOutBy k)

/-- How many waits ran out at all. -/
def timeouts (trace : List Event) : Nat :=
  trace.countP fun e => match e with
    | .timeout _ => true
    | _ => false

@[simp] theorem transmissions_append (tr es : List Event) (k : Nat) :
    transmissions (tr ++ es) k
      = transmissions tr k + transmissions es k := by
  simp [transmissions]

@[simp] theorem timeoutsTo_append (tr es : List Event) (k : Nat) :
    timeoutsTo (tr ++ es) k = timeoutsTo tr k + timeoutsTo es k :=
  List.countP_append

theorem timeoutsTo_mono (tr : List Event) {j k : Nat} (h : j ≤ k) :
    timeoutsTo tr j ≤ timeoutsTo tr k := by
  apply List.countP_mono_left
  intro e _ he
  cases e with
  | timeout m =>
      simp only [Event.timesOutBy, decide_eq_true_eq] at he ⊢
      omega
  | _ => cases he

theorem timeoutsTo_le (tr : List Event) (k : Nat) :
    timeoutsTo tr k ≤ timeouts tr := by
  apply List.countP_mono_left
  intro e _ he
  cases e with
  | timeout m => rfl
  | _ => cases he

theorem transmissions_of_nil {es : List Event} (h : sentOf es = [])
    (k : Nat) : transmissions es k = 0 := by
  simp [transmissions, h]

-- =============================================================== what is owed

namespace SPc

/-- The packet the sender is concerned with, where `total` have been
begun: the one it holds, or the next one. -/
def target (pc : SPc) (total : Nat) : Nat :=
  if pc.between then total + 1 else total

/-- Transmissions the sender is on its way to: one, from the moment it
decides to send until it has. -/
def owed (pc : SPc) : Nat :=
  if pc.between || pc == .retry || pc == .write then 1 else 0

/-- Responses that wait in the mailbox for a sender that will look at it:
one or none. -/
def mail (pc : SPc) (x : Stage) : Nat :=
  if pc.awaiting && (x == .nextCmd || x == .errRetry || x == .complete)
  then 1 else 0

/-- Those that ask for a retry, each of which will cost a transmission.
-/
def errMail (pc : SPc) (x : Stage) : Nat :=
  if pc.awaiting && x == .errRetry then 1 else 0

theorem errMail_le_mail (pc : SPc) (x : Stage) : pc.errMail x ≤ pc.mail x := by
  unfold errMail mail
  by_cases hx : x = .errRetry
  · simp [hx]
  · simp [hx]

theorem mail_le_one (pc : SPc) (x : Stage) : pc.mail x ≤ 1 := by
  unfold mail
  split <;> omega

theorem errMail_of_ne (pc : SPc) {x : Stage} (hx : x ≠ .errRetry) :
    pc.errMail x = 0 := by
  simp [errMail, hx]

end SPc

/-- The packet the sender is concerned with. -/
def Link.current (l : Link) : Nat := l.s.snd.pc.target l.s.g.totalCmdNum

/-- Transmissions of packets before this one. -/
def olderThan (k : Nat) (flight : List Nat) : Nat := flight.countP (· < k)

/-- Those in flight of packets before the current one: only these can
come to be taken for an error. -/
def Link.stale (l : Link) : Nat := olderThan l.current l.flight

@[simp] theorem olderThan_append (k : Nat) (as bs : List Nat) :
    olderThan k (as ++ bs) = olderThan k as + olderThan k bs :=
  List.countP_append

theorem olderThan_le_length (k : Nat) (as : List Nat) :
    olderThan k as ≤ as.length :=
  List.countP_le_length

theorem olderThan_cons (k j : Nat) (as : List Nat) :
    olderThan k (j :: as) = olderThan k as + if j < k then 1 else 0 := by
  simp [olderThan, List.countP_cons]

/-- What timeouts have to pay for: what is in flight, in the mailbox and
owed, and how often each packet has been written. -/
structure BudgetInv (l : Link) : Prop where
  begun : l.s.snd.pc.holding = true → 1 ≤ l.s.g.totalCmdNum
  fresh : ∀ t ∈ sentOf l.s.trace, 1 ≤ t.1 ∧ t.1 ≤ l.s.g.totalCmdNum
  flight : l.s.snd.pc.live = true →
    l.flight.length + l.s.snd.pc.owed + l.s.snd.pc.mail l.s.g.otaStage
      ≤ 1 + timeoutsTo l.s.trace l.current
  budget : l.s.snd.pc.live = true →
    transmissions l.s.trace l.current + l.s.snd.pc.owed + l.stale
        + l.s.snd.pc.errMail l.s.g.otaStage
      ≤ 1 + timeoutsTo l.s.trace l.current
  closed : ∀ k, transmissions l.s.trace k ≤ 1 + timeoutsTo l.s.trace k

variable {cs : CharSign} {g g' : Shared} {snd snd' : Sender}
  {es : List Event} {i : SIn} {l l' : Link}

/-- What a live move of the sender costs: it stays with its packet, and
what it writes, owes and leaves in the mailbox is paid for by what it
owed, by the mailbox, or by a timeout; or it goes on to the next packet
and spends the mailbox on it. -/
theorem SStep.flow (h : SStep cs g snd i g' snd' es)
    (hlive : snd'.pc.live = true) (hload : snd.pc ≠ .load) :
    snd.pc.live = true
      ∧ ((snd'.pc.target g'.totalCmdNum = snd.pc.target g.totalCmdNum
          ∧ (∀ t ∈ sentOf es, t.1 = snd.pc.target g.totalCmdNum)
          ∧ (sentOf es).length + snd'.pc.owed + snd'.pc.mail g'.otaStage
            ≤ snd.pc.owed + snd.pc.mail g.otaStage
              + timeoutsTo es (snd.pc.target g.totalCmdNum)
          ∧ (sentOf es).length + snd'.pc.owed + snd'.pc.errMail g'.otaStage
            ≤ snd.pc.owed + snd.pc.errMail g.otaStage
              + timeoutsTo es (snd.pc.target g.totalCmdNum))
        ∨ (snd'.pc.target g'.totalCmdNum
            = snd.pc.target g.totalCmdNum + 1
          ∧ sentOf es = [] ∧ snd.pc.mail g.otaStage = 1
          ∧ snd'.pc.owed = 1 ∧ snd'.pc.mail g'.otaStage = 0)) := by
  cases h with
  | init | openFail | openOver | crash | giveUp | writeFail | completeHit
  | flag | verdict | stop | quitThread | quitServ => cases hlive
  | opened pc => exact absurd pc hload
  | created pc ret =>
      -- the command in hand stays, and nothing is sent, read or timed out
      refine ⟨by rw [pc]; rfl, Or.inl ⟨by rw [pc]; rfl, ?_, ?_, ?_⟩⟩
      all_goals
        rw [show sentOf (if ret = 0 then [] else [.log (.createFail ret)])
          = [] by split <;> rfl]
        simp [pc, SPc.owed, SPc.mail, SPc.errMail, SPc.awaiting, SPc.between]
  | next pc | newStage pc =>
      refine ⟨by rw [pc]; rfl, Or.inl ⟨by rw [pc]; rfl,
        fun _ ht => absurd ht List.not_mem_nil, ?_, ?_⟩⟩
      all_goals
        simp [pc, sentOf, SPc.owed, SPc.mail, SPc.errMail, SPc.awaiting,
          SPc.between]
  | assemble pc hasm =>
      have ha := assembled_of_some hasm
      refine ⟨by rw [pc]; rfl, Or.inl ⟨?_, ?_, ?_, ?_⟩⟩
      · rw [pc]
        exact ha.total
      all_goals
        rw [sentOf_quiet ha.quiet]
        simp [pc, SPc.owed, SPc.mail, SPc.errMail, SPc.awaiting, SPc.between]
  | retry pc hlt =>
      refine ⟨by rw [pc]; rfl, Or.inl ⟨by rw [pc]; rfl, ?_, ?_, ?_⟩⟩
      all_goals
        rw [show sentOf (if snd.sendCount + 1 > 1 then
          [.log (.retrying (snd.sendCount + 1))] else []) = [] by
            split <;> rfl]
        simp [pc, SPc.owed, SPc.mail, SPc.errMail, SPc.awaiting, SPc.between]
  | wrote pc res hres =>
      -- what was owed is sent
      refine ⟨by rw [pc]; rfl, Or.inl ⟨by rw [pc]; rfl, ?_, ?_, ?_⟩⟩
      all_goals
        rw [sentOf_append, sentOf_append, sentOf_verbose, sentOf_verbose]
        simp [pc, sentOf, Event.sent?, SPc.owed, SPc.mail, SPc.errMail,
          SPc.awaiting, SPc.between, SPc.target]
  | poll pc | nextMiss pc | errMiss pc | completeMiss pc =>
      refine ⟨by rw [pc]; rfl, Or.inl ⟨by rw [pc]; rfl,
        fun _ ht => absurd ht List.not_mem_nil, ?_, ?_⟩⟩
      all_goals
        simp [pc, sentOf, SPc.owed, SPc.mail, SPc.errMail, SPc.awaiting,
          SPc.between]
  | timeout pc =>
      -- a timeout buys one transmission more
      refine ⟨by rw [pc]; rfl, Or.inl ⟨by rw [pc]; rfl,
        fun _ ht => absurd ht List.not_mem_nil, ?_, ?_⟩⟩
      all_goals
        rw [show sentOf [.timeout g.totalCmdNum,
          .goto .retryCmd g.totalCmdNum] = [] from rfl]
        simp [pc, timeoutsTo, Event.timesOutBy, SPc.target, SPc.owed,
          SPc.mail, SPc.errMail, SPc.awaiting, SPc.between]
  | errHit pc hst =>
      -- so does an error response, which is used up here
      refine ⟨by rw [pc]; rfl, Or.inl ⟨by rw [pc]; rfl,
        fun _ ht => absurd ht List.not_mem_nil, ?_, ?_⟩⟩
      all_goals
        rw [show sentOf [.goto .retryCmd g.totalCmdNum] = [] from rfl]
        simp [pc, hst, SPc.owed, SPc.mail, SPc.errMail, SPc.awaiting,
          SPc.between]
  | nextHit pc hst =>
      -- the only step to the next command: it uses up the acknowledgement
      -- and owes a packet
      refine ⟨by rw [pc]; rfl, Or.inr ⟨?_, rfl, ?_, rfl, rfl⟩⟩
      · rw [pc]
        rfl
      · simp [pc, hst, SPc.mail, SPc.awaiting]

/-- Packets already written are no later than the one held, so one that
is yet to come has not been written. -/
theorem transmissions_of_fresh {trace : List Event} {total k : Nat}
    (h : ∀ t ∈ sentOf trace, 1 ≤ t.1 ∧ t.1 ≤ total) (hk : total < k) :
    transmissions trace k = 0 := by
  apply List.count_eq_zero.mpr
  intro hmem
  obtain ⟨t, ht, rfl⟩ := List.mem_map.mp hmem
  have := (h t ht).2
  omega

theorem transmissions_le_length (es : List Event) (k : Nat) :
    transmissions es k ≤ (sentOf es).length := by
  have h := List.count_le_length (a := k) (l := (sentOf es).map Prod.fst)
  rwa [List.length_map] at h

theorem SPc.target_mono (pc : SPc) (total : Nat) : total ≤ pc.target total := by
  unfold target
  split <;> omega

/-- While the session lives, the move is paid for, by what it takes from
the flight and the mailbox or by a timeout. -/
theorem BudgetInv.flow (hf : FlightInv cs l) (hi : BudgetInv l)
    (h : SStep cs l.s.g l.s.snd i g' snd' es)
    (hlive' : snd'.pc.live = true) :
    ((l.flight ++ (sentOf es).map Prod.fst).length + snd'.pc.owed
        + snd'.pc.mail g'.otaStage
      ≤ 1 + timeoutsTo (l.s.trace ++ es) (snd'.pc.target g'.totalCmdNum))
    ∧ transmissions (l.s.trace ++ es) (snd'.pc.target g'.totalCmdNum)
        + snd'.pc.owed
        + olderThan (snd'.pc.target g'.totalCmdNum)
            (l.flight ++ (sentOf es).map Prod.fst)
        + snd'.pc.errMail g'.otaStage
      ≤ 1 + timeoutsTo (l.s.trace ++ es)
          (snd'.pc.target g'.totalCmdNum) := by
  obtain ⟨hlive, hcost⟩ := h.flow hlive' hf.opened.2
  have h₁ := hi.flight hlive
  have h₂ := hi.budget hlive
  simp only [Link.current, Link.stale] at h₁ h₂
  rcases hcost with
    ⟨htarget, htags, hmail, herr⟩ | ⟨htarget, hnil, hmail, howed, hmail'⟩
  · rw [htarget, List.length_append, List.length_map, olderThan_append,
      timeoutsTo_append, transmissions_append]
    have hfresh : olderThan (l.s.snd.pc.target l.s.g.totalCmdNum)
        ((sentOf es).map Prod.fst) = 0 := by
      apply List.countP_eq_zero.mpr
      intro k hk
      obtain ⟨t, ht, rfl⟩ := List.mem_map.mp hk
      simp [htags t ht]
    have hcount := transmissions_le_length es
      (l.s.snd.pc.target l.s.g.totalCmdNum)
    omega
  · -- everything in flight is stale for the next packet
    have hzero : transmissions l.s.trace
        (l.s.snd.pc.target l.s.g.totalCmdNum + 1) = 0 :=
      transmissions_of_fresh hi.fresh
        (Nat.lt_succ_of_le (SPc.target_mono _ _))
    have herr := SPc.errMail_le_mail snd'.pc g'.otaStage
    have hstale := olderThan_le_length
      (l.s.snd.pc.target l.s.g.totalCmdNum + 1) l.flight
    have hmono := timeoutsTo_mono l.s.trace
      (Nat.le_add_right (l.s.snd.pc.target l.s.g.totalCmdNum) 1)
    rw [htarget, hnil, timeoutsTo_append, transmissions_append,
      transmissions_of_nil hnil]
    simp only [List.map_nil, List.append_nil]
    omega

/-- The sender's move keeps within the budget, also where it ends the
session. -/
theorem BudgetInv.send (hf : FlightInv cs l) (hi : BudgetInv l)
    (h : SStep cs l.s.g l.s.snd i g' snd' es) :
    BudgetInv
      { l with
        s := { g := g', snd := snd', rdr := Session.spawn l.s.rdr i
               trace := l.s.trace ++ es }
        up := l.up ++ Link.written l.s i } := by
  have hflight := Link.flight_send hf.created h (l.s.trace ++ es)
    (Link.written l.s i)
  rw [h.written hf.opened] at hflight ⊢
  have hlive := hi.flow hf h
  have htotal := h.numbered hf.opened
  refine ⟨?_, ?_, ?_, ?_, ?_⟩
  · intro hhold
    show 1 ≤ g'.totalCmdNum
    rcases h.held rfl hf.opened hhold with ⟨hlt, -⟩ | ⟨hsame, hwas, -⟩
    · omega
    · rw [hsame]
      exact hi.begun hwas
  · intro t ht
    show 1 ≤ t.1 ∧ t.1 ≤ g'.totalCmdNum
    rw [sentOf_append] at ht
    rcases List.mem_append.mp ht with ht | ht
    · have := hi.fresh t ht
      omega
    · obtain ⟨hhold, rfl⟩ := htotal.2 t ht
      exact ⟨hi.begun hhold, htotal.1⟩
  · intro hpc
    rw [hflight]
    exact (hlive hpc).1
  · intro hpc
    simp only [Link.stale, hflight]
    exact (hlive hpc).2
  · intro k
    show transmissions (l.s.trace ++ es) k
      ≤ 1 + timeoutsTo (l.s.trace ++ es) k
    have hk := hi.closed k
    -- only a transmission can use up a closed command's budget, and then the
    -- command is the live one
    rcases h.tally hf.opened with
      ⟨hpc, hpc', -, hsame, hsent⟩ | ⟨-, -, -, -, hsent⟩ | hstill
    · by_cases heq : k = l.s.g.totalCmdNum
      · have h₂ := (hlive (by rw [hpc']; rfl)).2
        rw [hpc', hsame, show SPc.wait.target l.s.g.totalCmdNum
          = l.s.g.totalCmdNum from rfl, ← heq] at h₂
        omega
      · have hzero : transmissions es k = 0 := by
          simp [transmissions, hsent, Ne.symm heq]
        rw [transmissions_append, timeoutsTo_append, hzero]
        omega
    · rw [transmissions_append, timeoutsTo_append, transmissions_of_nil hsent]
      omega
    · rw [transmissions_append, timeoutsTo_append,
        transmissions_of_nil hstill.sent]
      omega

-- ======================================================= reader and device

/-- What the reader, the channel and the device do costs nothing:
responses move, and none is made more. -/
theorem BudgetInv.still (hi : BudgetInv l) (hsnd : l'.s.snd = l.s.snd)
    (htotal : l'.s.g.totalCmdNum = l.s.g.totalCmdNum)
    (htrace : ∃ es, l'.s.trace = l.s.trace ++ es
      ∧ ∀ e ∈ es, e.fromSender = false)
    (hmail : l'.flight.length + l.s.snd.pc.mail l'.s.g.otaStage
      ≤ l.flight.length + l.s.snd.pc.mail l.s.g.otaStage)
    (herr : olderThan l.current l'.flight
        + l.s.snd.pc.errMail l'.s.g.otaStage
      ≤ olderThan l.current l.flight
        + l.s.snd.pc.errMail l.s.g.otaStage) :
    BudgetInv l' := by
  obtain ⟨es, htrace, hes⟩ := htrace
  have hcurrent : l'.current = l.current := by
    rw [Link.current, Link.current, hsnd, htotal]
  -- a step of anyone but the sender neither sends nor times out
  have hsent : sentOf es = [] := by
    apply sentOf_eq_nil
    intro e he
    have hsend := hes e he
    cases e with
    | tx k packet => cases hsend
    | _ => rfl
  have hzero : ∀ k, timeoutsTo es k = 0 := by
    refine fun k => List.countP_eq_zero.mpr fun e he => ?_
    have hsend := hes e he
    cases e with
    | timeout j => cases hsend
    | _ => exact Bool.false_ne_true
  have htr : ∀ k, transmissions l'.s.trace k = transmissions l.s.trace k
      ∧ timeoutsTo l'.s.trace k = timeoutsTo l.s.trace k := by
    intro k
    rw [htrace, transmissions_append, timeoutsTo_append,
      transmissions_of_nil hsent, hzero]
    exact ⟨rfl, rfl⟩
  refine ⟨?_, ?_, ?_, ?_, ?_⟩
  · rw [hsnd, htotal]
    exact hi.begun
  · rw [htrace, sentOf_append, hsent, List.append_nil, htotal]
    exact hi.fresh
  · rw [hsnd, hcurrent, (htr _).2]
    intro hlive
    have := hi.flight hlive
    omega
  · rw [hsnd, Link.stale, hcurrent, (htr _).1, (htr _).2]
    intro hlive
    have h := hi.budget hlive
    rw [Link.stale] at h
    omega
  · intro k
    rw [(htr k).1, (htr k).2]
    exact hi.closed k

/-- A stored retry that the sender will see was asked for by an answer
to an earlier packet. -/
theorem held_lt_of_errRetry (hf : FlightInv cs l)
    (hrdr : l.s.rdr = some (.store .errRetry))
    (ha : l.s.snd.pc.awaiting = true) : l.held < l.current := by
  have hhold : l.s.snd.pc.holding = true := by
    cases hpc : l.s.snd.pc <;> simp_all [SPc.awaiting, SPc.holding]
  have hcurrent : l.current = l.s.g.totalCmdNum := by
    rw [Link.current, SPc.target]
    cases hpc : l.s.snd.pc <;> simp_all [SPc.awaiting, SPc.between]
  have hle := hf.tags _ (Link.held_mem_flight hrdr rfl)
  have hne : l.held ≠ l.s.g.totalCmdNum := fun heq =>
    ackOf_ne_errRetry _ (hf.store _ hrdr hhold heq).symm
  omega

/-- hidRead's own step keeps within the budget: a response recorded has
left the flight, and a retry asked for was stale. -/
theorem BudgetInv.tick {pc pc' : RPc} (hf : FlightInv cs l)
    (hi : BudgetInv l) (hrdr : l.s.rdr = some pc)
    (h : RStep cs l.s.g pc .tick g' pc' es) :
    BudgetInv
      { l with s := { l.s with
          g := g', rdr := some pc', trace := l.s.trace ++ es } } := by
  rcases Link.flight_tick hrdr h with ⟨hbusy, hsame⟩ | ⟨hbusy, hhead⟩
  · have hstage : g'.otaStage = l.s.g.otaStage := by
      rcases h.otaStage with ⟨x, rfl, -, -, -⟩ | hstage
      · cases h with
        | store => cases hbusy
        | enter hpc | leave hpc | decide hpc | ignore hpc | failFlag hpc
        | failLog hpc | failStop hpc => cases hpc
      · exact hstage
    refine hi.still rfl h.frame.1 ⟨es, rfl, h.fromSender⟩ ?_ ?_
    all_goals
      rw [hsame]
      dsimp only
      rw [hstage]
  · have herr := SPc.errMail_le_mail l.s.snd.pc g'.otaStage
    have hone := SPc.mail_le_one l.s.snd.pc g'.otaStage
    refine hi.still rfl h.frame.1 ⟨es, rfl, h.fromSender⟩ ?_ ?_
    · rw [hhead, List.length_cons]
      rcases h.otaStage with ⟨x, -, -, -, -⟩ | hstage
      · dsimp only
        omega
      · dsimp only
        rw [hstage]
        omega
    · rw [hhead, olderThan_cons]
      rcases h.otaStage with ⟨x, rfl, -, rfl, -⟩ | hstage
      · dsimp only
        by_cases hx : g'.otaStage = .errRetry
        · by_cases ha : l.s.snd.pc.awaiting = true
          · have hlt := held_lt_of_errRetry hf (hx ▸ hrdr) ha
            rw [if_pos hlt]
            omega
          · simp [SPc.errMail, ha]
        · rw [SPc.errMail_of_ne _ hx]
          omega
      · dsimp only
        rw [hstage]
        omega

/-- One step of a lossless run keeps within the budget. -/
theorem BudgetInv.step {a : LAct} (hf : FlightInv cs l) (hi : BudgetInv l)
    (hok : lossless l a) (hs : Link.step cs l a = some l') :
    BudgetInv l' := by
  cases Link.step_inv hs with
  | send h => exact hi.send hf h
  | tick hrdr h => exact hi.tick hf hrdr h
  | @deliver pc pc' g' es k r rest hdown hrdr h =>
      have hread : pc = .read := by
        cases h with
        | report hpc | stray hpc => exact hpc
      have hflight := Link.flight_deliver hdown
        (hrdr.trans (congrArg some hread))
        { l.s with g := g', rdr := some pc', trace := l.s.trace ++ es }
      refine hi.still rfl h.frame.1 ⟨_, rfl, h.fromSender⟩ ?_ ?_
      all_goals
        cases h with
        | report =>
            rw [hflight.1 rfl]
        | stray =>
            rw [hflight.2 rfl]
            simp only [List.length_cons, olderThan_cons]
            omega
  | readFail hrdr h =>
      cases h with
      | readFail hpc =>
          have hflight : Link.flight { l with s := { l.s with
              rdr := some .failFlag
              trace := l.s.trace ++ [.log .readError] } } = l.flight := by
            simp [Link.flight, hrdr, hpc, RPc.busy]
          refine hi.still rfl rfl ⟨_, rfl, ?_⟩ ?_ ?_
          · intro e he
            rw [List.mem_singleton.mp he]
            rfl
          all_goals
            rw [hflight]
  | answer hup hans =>
      refine hi.still rfl rfl
        ⟨[], by simp, fun _ he => absurd he List.not_mem_nil⟩ ?_ ?_
      all_goals
        rw [Link.flight_answer hup]
  | lose hup => exact hok.elim
  | drop hn => exact hok.elim

theorem budgetInv_start (g₀ : Shared) (param2 : Option String)
    (stack : Nat → UInt8) (file : List UInt8) :
    BudgetInv (Link.start g₀ param2 stack file) := by
  have hsent := sentOf_quiet (Session.start_quiet g₀ param2 stack file)
  have hzero : ∀ k, transmissions (Link.start g₀ param2 stack file).s.trace k
      = 0 := transmissions_of_nil hsent
  refine ⟨nofun, ?_, fun _ => ?_, fun _ => ?_, fun k => ?_⟩
  · intro t ht
    rw [show sentOf (Link.start g₀ param2 stack file).s.trace = []
      from hsent] at ht
    cases ht
  · exact Nat.le_add_right 1 _
  · rw [hzero]
    exact Nat.le_add_right 1 _
  · rw [hzero]
    exact Nat.zero_le _

-- ================================================================ the bound

/-- A list of packet numbers, none of them used too often, is no longer
than the product. -/
theorem length_le_mul {ks : List Nat} {m b : Nat}
    (hmem : ∀ k ∈ ks, 1 ≤ k ∧ k ≤ m) (hcount : ∀ k, ks.count k ≤ b) :
    ks.length ≤ m * b := by
  have hsub : ks.toFinset ⊆ Finset.Icc 1 m := by
    intro k hk
    exact Finset.mem_Icc.mpr (hmem k (List.mem_toFinset.mp hk))
  calc ks.length
      = ∑ k ∈ ks.toFinset, ks.count k :=
        (List.sum_toFinset_count_eq_length ks).symm
    _ ≤ ks.toFinset.card * b :=
        Finset.sum_le_card_nsmul _ _ _ fun k _ => hcount k
    _ ≤ (Finset.Icc 1 m).card * b :=
        Nat.mul_le_mul_right b (Finset.card_le_card hsub)
    _ = m * b := by rw [Nat.card_Icc, Nat.add_sub_cancel]

/-- In every lossless run a packet is transmitted at most once more than
waits for it and the packets before it ran out, so the number of packets
written is at most the number begun times one more than the number of
timeouts. -/
theorem duplicates_bounded {g₀ : Shared} {param2 : Option String}
    {stack : Nat → UInt8} {file : List UInt8}
    (h : Lts.Reach (Link.step cs) lossless
      (Link.start g₀ param2 stack file) l) :
    (∀ k, transmissions l.s.trace k ≤ 1 + timeoutsTo l.s.trace k)
      ∧ (sentOf l.s.trace).length
        ≤ l.s.g.totalCmdNum * (1 + timeouts l.s.trace) := by
  obtain ⟨hf, hi⟩ : FlightInv cs l ∧ BudgetInv l := by
    refine h.invariant (I := fun l => FlightInv cs l ∧ BudgetInv l)
      ⟨flightInv_start cs g₀ param2 stack file,
        budgetInv_start g₀ param2 stack file⟩ ?_
    exact fun l a l' hi hok hs =>
      ⟨hi.1.step hok hs, hi.2.step hi.1 hok hs⟩
  refine ⟨hi.closed, ?_⟩
  rw [← List.length_map (f := Prod.fst)]
  refine length_le_mul ?_ fun k => ?_
  · intro k hk
    obtain ⟨t, ht, rfl⟩ := List.mem_map.mp hk
    exact hi.fresh t ht
  · have hk := hi.closed k
    have := timeoutsTo_le l.s.trace k
    rw [transmissions] at hk
    omega

-- ============================================================== one timeout

/-- The DATA record is sent, and nothing answers yet. -/
def dataSent : Link :=
  (Lts.run (Link.step .unsigned) lossless dataImage.link
    Link.sendFirst).getD dataImage.link

/-- The wait for the DATA record runs out and the record is sent again;
both transmissions are answered. The first answer moves the sender on to
the FINISH record; the second does not match it, and the sender
transmits the FINISH record a second time before it is answered. -/
def duplicateTravels : List LAct :=
  Link.sendAgain ++ [.answer dataAnswer, .answer dataAnswer]
    ++ Link.readAnswer ++ Link.sendNext ++ Link.readAnswer
    ++ [.send .tick, .send .tick, .send .tick, .send .tick,
      .send (.wrote 8), .answer finishAnswer]
    ++ Link.readAnswer
    ++ [.send .tick, .send .tick, .send .tick, .send .tick]

/-- Where that leaves the session. -/
def propagated : Link :=
  (Lts.run (Link.step .unsigned) lossless (dataSent.polled .wait 749)
    duplicateTravels).getD (dataSent.polled .wait 749)

theorem reach_propagated :
    Lts.Reach (Link.step .unsigned) lossless dataImage.link propagated := by
  have hsent : Lts.Reach (Link.step .unsigned) lossless dataImage.link
      dataSent := Lts.Reach.of_isSome (by decide)
  have hpolled : Lts.Reach (Link.step .unsigned) lossless dataSent
      (dataSent.polled .wait 749) :=
    Link.reach_polled (l := dataSent) (by rfl) (by decide)
      fun _ _ _ => trivial
  have htravels : Lts.Reach (Link.step .unsigned) lossless
      (dataSent.polled .wait 749) propagated :=
    Lts.Reach.of_isSome (by decide)
  exact (hsent.trans hpolled).trans htravels

/-- Two records, one timeout, four packets: within the bound, and at
it. -/
theorem duplicates_bounded_propagated :
    propagated.s.g.totalCmdNum = 2 ∧ timeouts propagated.s.trace = 1
      ∧ (sentOf propagated.s.trace).length = 4
      ∧ (∀ k, transmissions propagated.s.trace k
        ≤ 1 + timeoutsTo propagated.s.trace k)
      ∧ (sentOf propagated.s.trace).length
        ≤ propagated.s.g.totalCmdNum * (1 + timeouts propagated.s.trace) :=
  ⟨by decide, by decide, by decide, duplicates_bounded reach_propagated⟩

/-- One timeout costs more than one packet: each record behind it is
transmitted twice as well. -/
theorem timeout_propagates :
    ¬ ∀ (cs : CharSign) (g₀ : Shared) (param2 : Option String)
        (stack : Nat → UInt8) (img : Image) (l : Link),
      img.DistinctSeqs →
      Lts.Reach (Link.step cs) lossless
        (Link.start g₀ param2 stack img.bytes) l →
      l.s.snd.pc.live = false →
      (sentOf l.s.trace).length
        ≤ img.recs.length + timeouts l.s.trace := by
  intro h
  have hend := h .unsigned _ _ _ dataImage propagated
    (by simp [Image.DistinctSeqs, dataImage, Image.close, Record.type,
      Record.data, Record.finish, Record.shortest, dataCmd, finishCmd])
    reach_propagated (by decide)
  exact absurd hend (by decide)

end BtOta
