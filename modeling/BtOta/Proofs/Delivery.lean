/-
The transfer over a channel that loses comes to its end.

The reader's and the device's half of `RecoveryInv`: each of their moves
takes the one transmission from one stage of its life to the next. And
the price of a run (`Link.price`): a packet that may have to be
transmitted three times costs three wait loops, and what is lost or
refused is paid from the transmissions left.
-/
import BtOta.Proofs.Recovery

namespace BtOta

variable {cs : CharSign} {g' : Shared} {snd' : Sender} {es : List Event}
  {i : SIn} {img : Image} {l l' : Link} {pc pc' : RPc}

-- =============================================================== the reader

/-- A response with an error is recorded as one, whichever of the three
commands it answers. -/
theorem respond_refused {g : Shared} {rsp : Rsp} {x : Stage}
    {ms : List Msg} (hzero : rsp.stat ≠ 0) (htwo : rsp.stat ≠ 2)
    (h : respond cs g rsp = some (x, ms)) : x = .errRetry := by
  have hstage : ∀ on, stageOf on rsp.stat = .errRetry := by
    intro on
    rw [stageOf, if_neg hzero, if_neg htwo]
  rcases respond_inv h with ⟨-, hx⟩ | ⟨-, -, hx⟩ | ⟨-, -, hx⟩ | ⟨-, hx⟩
  · exact hx.trans (hstage _)
  · exact hx.trans (hstage _)
  · exact hx
  · exact hx.trans (hstage _)

theorem Link.Idle.pc_of (h : l.Idle) (hrdr : l.s.rdr = some pc) :
    pc = .test ∨ pc = .read := by
  rcases h with h | h
  · exact Or.inl (Option.some.inj (hrdr.symm.trans h))
  · exact Or.inr (Option.some.inj (hrdr.symm.trans h))

/-- Between two reports hidRead goes back to its read, and that is all
it does. -/
theorem Link.Idle.tick (h : l.Idle) (hflag : l.s.g.flagRead = true)
    (hrdr : l.s.rdr = some pc) (hs : RStep cs l.s.g pc .tick g' pc' es) :
    g' = l.s.g ∧ pc' = .read := by
  have hpcs := h.pc_of hrdr
  cases hs with
  | enter hpc hflag' => exact ⟨rfl, rfl⟩
  | leave hpc hflag' => cases hflag.symm.trans hflag'
  | decide hpc | ignore hpc | store hpc | failFlag hpc | failLog hpc
  | failStop hpc =>
      rw [hpc] at hpcs
      rcases hpcs with h | h <;> cases h

/-- The joined system behind a move of hidRead between its reads: the
channels are as they were. -/
def Link.ticked (l : Link) (g' : Shared) (pc' : RPc) (es : List Event) :
    Link :=
  { l with s := { l.s with
      g := g', rdr := some pc', trace := l.s.trace ++ es } }

/-- hidRead decides on the answer, and records what it decided: the
transmission goes on to the next stage of its life. -/
theorem Life.tick (hi : RecoveryInv cs img l) (hlife : Life l)
    (hpoll : l.s.snd.pc.polling = true)
    (htotal : l.s.g.totalCmdNum ≤ img.recs.length)
    (hflag : l.s.g.flagRead = true) (hrdr : l.s.rdr = some pc)
    (h : RStep cs l.s.g pc .tick g' pc' es) :
    Life (l.ticked g' pc' es) ∧ (l.Lost → (l.ticked g' pc' es).Lost) := by
  have hhold := SPc.holding_of_polling hpoll
  cases hlife with
  | up hup hdown hidle hst =>
      -- nothing has reached the reader: it can only go from its test to read
      obtain ⟨rfl, rfl⟩ := hidle.tick hflag hrdr h
      refine ⟨.up hup hdown (Or.inr rfl) hst, fun hlost => ?_⟩
      cases hup.symm.trans hlost.up
  | down hup hdown hidle hst hrid hfair =>
      obtain ⟨rfl, rfl⟩ := hidle.tick hflag hrdr h
      refine ⟨.down hup hdown (Or.inr rfl) hst hrid
        ⟨hfair.mine, hfair.noNeed, hfair.spare⟩, fun hlost => ?_⟩
      cases hdown.symm.trans hlost.down
  | acked hup hdown hidle hst =>
      obtain ⟨rfl, rfl⟩ := hidle.tick hflag hrdr h
      exact ⟨.acked hup hdown (Or.inr rfl) hst, fun hlost =>
        ⟨hup, hdown, Or.inr rfl, hlost.stage, hlost.spare⟩⟩
  | lost hlost =>
      obtain ⟨rfl, rfl⟩ := hlost.idle.tick hflag hrdr h
      have hlost' : (l.ticked l.s.g .read es).Lost :=
        ⟨hlost.up, hlost.down, Or.inr rfl, hlost.stage, hlost.spare⟩
      exact ⟨.lost hlost', fun _ => hlost'⟩
  | read hup hdown hrdr' hst hfair =>
      -- the answer is judged: a success acknowledges, an error asks for a
      -- retry
      refine ⟨?_, fun hlost => ?_⟩
      · obtain ⟨k, r, -, hr, hp⟩ := hi.cursor.packet hhold htotal
        cases Option.some.inj (hrdr.symm.trans hrdr')
        cases h with
        | @decide x ms hpc hx =>
            refine .decided hup hdown rfl hst ?_
            by_cases hzero : l.s.g.rspCmd.stat = 0
            · exact Or.inl (respond_own hfair.mine hzero (hi.seq.own hhold)
                hx)
            · exact Or.inr ⟨respond_refused hzero hfair.noNeed hx,
                hfair.spare hzero⟩
        | ignore hpc hx =>
            -- no answer to a packet of the image is ignored, whatever its
            -- type
            obtain ⟨hcmd, -⟩ := belongs_iff.mp hfair.mine
            rw [hp, r.getD_packet] at hcmd
            have hsome : (respond cs l.s.g l.s.g.rspCmd).isSome = true :=
              respond_isSome _ (by rw [hcmd]; exact r.hasType)
            rw [hx] at hsome
            cases hsome
        | enter hpc | leave hpc | store hpc | failFlag hpc | failLog hpc
        | failStop hpc => cases hpc
      · rcases hlost.idle.pc_of hrdr' with h | h <;> cases h
  | @decided x hup hdown hrdr' hst hx =>
      -- the judgement reaches the mailbox, and the packet's life is decided
      refine ⟨?_, fun hlost => ?_⟩
      · cases Option.some.inj (hrdr.symm.trans hrdr')
        cases h with
        | store hpc =>
            cases hpc
            rcases hx with hown | ⟨herr, hspare⟩
            · exact .acked hup hdown (Or.inl rfl) hown
            · exact .lost ⟨hup, hdown, Or.inl rfl, Or.inr herr, hspare⟩
        | enter hpc | leave hpc | decide hpc | ignore hpc | failFlag hpc
        | failLog hpc | failStop hpc => cases hpc
      · rcases hlost.idle.pc_of hrdr' with h | h <;> cases h

/-- With nothing in flight there is nothing to decide on, so the flight
stays empty. -/
theorem Link.clear_tick (hclear : l.flight = [])
    (hrdr : l.s.rdr = some pc) (h : RStep cs l.s.g pc .tick g' pc' es) :
    (l.ticked g' pc' es).flight = [] := by
  rcases flight_tick hrdr h with ⟨-, hsame⟩ | ⟨-, hhead⟩
  · exact hsame.trans hclear
  · rw [hclear] at hhead
    cases hhead

theorem RecoveryInv.tick (hi : RecoveryInv cs img l)
    (hrdr : l.s.rdr = some pc) (h : RStep cs l.s.g pc .tick g' pc' es) :
    RecoveryInv cs img (l.ticked g' pc' es) := by
  have htotal' := h.frame.1
  have hsent' : ∀ m, l.Sent img m → (l.ticked g' pc' es).Sent img m := by
    intro m hsent t ht
    show t ∈ sentOf (l.s.trace ++ es)
    rw [sentOf_append]
    exact List.mem_append_left _ (hsent t ht)
  have hcreate : l.s.snd.pc ≠ .create := fun hpc => by
    cases (hi.created hpc).symm.trans hrdr
  -- outside the wait loop hidRead goes on listening and does nothing else
  have hidly : l.flight = [] → l.s.g.flagRead = true → l.Listening →
      g' = l.s.g ∧ (l.ticked g' pc' es).Listening := by
    intro hclear hflag hlisten
    obtain ⟨rfl, rfl⟩ :=
      (Link.idle_of_clear hclear hlisten).tick hflag hrdr h
    exact ⟨rfl, Or.inr (Or.inl rfl)⟩
  refine ⟨hi.cursor.read h _ _, hi.seq.read h, fun hpc => absurd hpc hcreate,
    ?_⟩
  cases hi.phase with
  | between hpc htotal hzero hclear hflag hlisten hsent =>
      obtain ⟨rfl, hlisten'⟩ := hidly hclear hflag (hlisten hcreate)
      exact .between hpc htotal hzero (Link.clear_tick hclear hrdr h) hflag
        (fun _ => hlisten') (hsent' _ hsent)
  | writing hpc htotal hspare hwrite hclear hflag hlisten hsent =>
      obtain ⟨rfl, hlisten'⟩ := hidly hclear hflag hlisten
      exact .writing hpc htotal hspare hwrite
        (Link.clear_tick hclear hrdr h) hflag hlisten' (hsent' _ hsent)
  | polling hpc htotal hlife htime hflag hsent =>
      obtain ⟨hlife', hlost'⟩ := hlife.tick hi hpc htotal hflag hrdr h
      have hnum : (l.ticked g' pc' es).s.g.totalCmdNum
          = l.s.g.totalCmdNum := htotal'
      refine .polling hpc (Nat.le_trans (Nat.le_of_eq hnum) htotal) hlife'
        ?_ ?_ ?_
      · exact htime.imp hlost' id
      · cases h with
        | failFlag hpc' =>
            have hlisten := hlife.listening
            unfold Link.Listening at hlisten
            rw [hrdr, hpc'] at hlisten
            simp [RPc.busy] at hlisten
        | enter | leave | decide | ignore | store | failLog | failStop =>
            exact hflag
      · rw [hnum]
        exact hsent' _ hsent
  | ended hpc htotal hclear hsent =>
      have hnum : (l.ticked g' pc' es).s.g.totalCmdNum
          = l.s.g.totalCmdNum := htotal'
      refine .ended hpc (hnum.trans htotal)
        (Link.clear_tick hclear hrdr h) ?_
      rw [hnum]
      exact hsent' _ hsent

-- ================================================== the device and the channel

/-- What is on the channel belongs to a sender that polls for it. -/
theorem RecoveryInv.polls (hi : RecoveryInv cs img l)
    (h : l.up ≠ [] ∨ l.down ≠ []) :
    l.s.snd.pc.polling = true ∧ l.s.g.totalCmdNum ≤ img.recs.length
      ∧ Life l ∧ l.InTime ∧ l.s.g.flagRead = true
      ∧ l.Sent img l.s.g.totalCmdNum := by
  have hbusy : l.flight ≠ [] := by
    intro hclear
    obtain ⟨hup, hdown, -⟩ := Link.clear_inv hclear
    exact h.elim (fun hne => hne hup) fun hne => hne hdown
  cases hi.phase with
  | polling hpc htotal hlife htime hflag hsent =>
      exact ⟨hpc, htotal, hlife, htime, hflag, hsent⟩
  | between hpc htotal hzero hclear | writing hpc htotal hspare hwrite hclear
  | ended hpc htotal hclear => exact absurd hclear hbusy

/-- What is lost or judged while the sender polls stays in time. -/
theorem Link.InTime.of_eq (h : l.InTime) (hsnd : l'.s.snd = l.s.snd)
    (hlost : l.Lost → l'.Lost) : l'.InTime := by
  unfold InTime
  rw [hsnd]
  exact h.imp_left hlost

/-- hidRead reads the answer, which belongs to the packet held; a stray
report cannot come from this device. -/
theorem RecoveryInv.deliver {k : Nat} {r : List UInt8}
    {rest : List (Nat × List UInt8)} (hi : RecoveryInv cs img l)
    (hdown : l.down = (k, r) :: rest)
    (h : RStep cs l.s.g pc (.got (some r)) g' pc' es)
    (hrdr : l.s.rdr = some pc) :
    RecoveryInv cs img
      { l with
        s := { l.s with g := g', rdr := some pc', trace := l.s.trace ++ es }
        down := rest
        held := k } := by
  obtain ⟨hpc, htotal, hlife, htime, hflag, hsent⟩ :=
    hi.polls (Or.inr (by simp [hdown]))
  have hnot : ¬ l.Lost := fun hlost => by cases hdown.symm.trans hlost.down
  refine ⟨hi.cursor.read h _ _, hi.seq.read h, fun hcreate => ?_, ?_⟩
  · cases (hi.created hcreate).symm.trans hrdr
  cases hlife with
  | @down t hup hdown' hidle hst hrid hfair =>
      cases hdown.symm.trans hdown'
      have hsent' : ∀ t ∈ img.packets.take l.s.g.totalCmdNum,
          t ∈ sentOf (l.s.trace ++ es) := by
        intro t ht
        rw [sentOf_append]
        exact List.mem_append_left _ (hsent t ht)
      cases h with
      | report hread =>
          refine .polling hpc htotal (.read hup rfl rfl hst ?_)
            (htime.of_eq rfl fun h => absurd h hnot) hflag hsent'
          exact ⟨hfair.mine, hfair.noNeed, hfair.spare⟩
      | stray hread report hne => exact absurd hrid hne
  | up hup hdown' | read hup hdown' | decided hup hdown'
  | acked hup hdown' => cases hdown.symm.trans hdown'
  | lost h => exact absurd h hnot

/-- The device answers the transmission, with SUCCESS or, while a
transmission is left, with an error. -/
theorem RecoveryInv.answer {k : Nat} {p r : List UInt8}
    {rest : List (Nat × List UInt8)} (hi : RecoveryInv cs img l)
    (hok : recoverable l (.answer r)) (hup : l.up = (k, p) :: rest)
    (hans : isAnswer p r = true) :
    RecoveryInv cs img
      { l with
        up := rest
        down := l.down ++ [(k, r)]
        answered := l.answered ++ [(k, r)] } := by
  obtain ⟨hpc, htotal, hlife, htime, hflag, hsent⟩ :=
    hi.polls (Or.inl (by simp [hup]))
  have hnot : ¬ l.Lost := fun hlost => by cases hup.symm.trans hlost.up
  obtain ⟨hrid, hmine⟩ := belongs_of_isAnswer hans
  refine ⟨hi.cursor, hi.seq, hi.created, ?_⟩
  cases hlife with
  | up hup' hdown hidle hst =>
      cases hup.symm.trans hup'
      refine .polling hpc htotal
        (.down (t := (l.s.g.totalCmdNum, r)) rfl ?_ hidle hst hrid
          ⟨hmine, hok.1, hok.2⟩)
        (htime.of_eq rfl fun h => absurd h hnot) hflag hsent
      show l.down ++ _ = _
      rw [hdown]
      rfl
  | down hup' | read hup' | decided hup' | acked hup' =>
      cases hup.symm.trans hup'
  | lost h => exact absurd h hnot

/-- The transmission is lost on its way. The guard leaves a further one
to come. -/
theorem RecoveryInv.lose {t : Nat × List UInt8}
    {rest : List (Nat × List UInt8)} (hi : RecoveryInv cs img l)
    (hspare : l.s.snd.sendCount < 3) (hup : l.up = t :: rest) :
    RecoveryInv cs img { l with up := rest } := by
  obtain ⟨hpc, htotal, hlife, htime, hflag, hsent⟩ :=
    hi.polls (Or.inl (by simp [hup]))
  refine ⟨hi.cursor, hi.seq, hi.created, ?_⟩
  cases hlife with
  | up hup' hdown hidle hst =>
      cases hup.symm.trans hup'
      have hlost : Link.Lost { l with up := [] } :=
        ⟨rfl, hdown, hidle, Or.inl hst, hspare⟩
      exact .polling hpc htotal (.lost hlost) (Or.inl hlost) hflag hsent
  | down hup' | read hup' | decided hup' | acked hup' =>
      cases hup.symm.trans hup'
  | lost h => cases hup.symm.trans h.up

/-- Its answer is lost on its way back, which the sender cannot tell from
a loss on the way there. -/
theorem RecoveryInv.drop {n : Nat} (hi : RecoveryInv cs img l)
    (hspare : l.s.snd.sendCount < 3) (hn : n < l.down.length) :
    RecoveryInv cs img { l with down := l.down.eraseIdx n } := by
  have hne : l.down ≠ [] := List.ne_nil_of_length_pos (by omega)
  obtain ⟨hpc, htotal, hlife, htime, hflag, hsent⟩ :=
    hi.polls (Or.inr hne)
  refine ⟨hi.cursor, hi.seq, hi.created, ?_⟩
  cases hlife with
  | down hup hdown hidle hst =>
      have hzero : n = 0 := by
        rw [hdown, List.length_singleton] at hn
        omega
      have hlost : Link.Lost { l with down := l.down.eraseIdx n } := by
        refine ⟨hup, ?_, hidle, Or.inl hst, hspare⟩
        show l.down.eraseIdx n = []
        rw [hdown, hzero]
        rfl
      exact .polling hpc htotal (.lost hlost) (Or.inl hlost) hflag hsent
  | up hup hdown | read hup hdown | decided hup hdown | acked hup hdown =>
      exact absurd hdown hne
  | lost h => exact absurd h.down hne

/-- One step of a recoverable run, whoever takes it. -/
theorem RecoveryInv.step {a : LAct} (hi : RecoveryInv cs img l)
    (hok : recoverable l a) (hs : Link.step cs l a = some l') :
    RecoveryInv cs img l' := by
  cases Link.step_inv hs with
  | send h => exact hi.send hok h
  | tick hrdr h => exact hi.tick hrdr h
  | deliver hdown hrdr h => exact hi.deliver hdown h hrdr
  | readFail hrdr h => exact hok.elim
  | answer hup hans => exact hi.answer hok hup hans
  | lose hup => exact hi.lose hok hup
  | drop hn => exact hi.drop hok hn

theorem recoveryInv_start (cs : CharSign) (g₀ : Shared)
    (param2 : Option String) (stack : Nat → UInt8) (img : Image) :
    RecoveryInv cs img (Link.start g₀ param2 stack img.bytes) := by
  have hpos : 0 < img.recs.length := by
    obtain ⟨body, fin, hrecs, -⟩ := img.finishLast
    rw [hrecs]
    simp
  refine ⟨cursorInv_start g₀ param2 stack img,
    seqInv_start cs g₀ param2 stack img.bytes, fun _ => rfl, ?_⟩
  refine .between rfl hpos (fun _ => rfl) rfl rfl (absurd rfl) ?_
  intro t ht
  cases ht

theorem recoveryInv_of_reach {g₀ : Shared} {param2 : Option String}
    {stack : Nat → UInt8}
    (h : Lts.Reach (Link.step cs) recoverable
      (Link.start g₀ param2 stack img.bytes) l) : RecoveryInv cs img l := by
  refine h.invariant (I := RecoveryInv cs img)
    (recoveryInv_start cs g₀ param2 stack img) ?_
  exact fun l a l' hi hok hs => hi.step hok hs

-- ================================================================ the price

/-- Where the sender stands in its packet; a retry has the whole wait
still before it, and pays for it from the transmissions left. -/
def SPc.price (pc : SPc) (waitCount : Nat) : Nat :=
  if pc = .retry then 9 else pc.rank waitCount

/-- The transmissions of the packet held that are left. -/
def Link.spare (l : Link) : Nat :=
  if l.s.snd.pc.between then 0 else 3 - l.s.snd.sendCount

/-- What is left to be done, at the worst: for each record not begun, and
for the transmissions left of the one held. -/
def Link.price (img : Image) (l : Link) : Nat :=
  (img.recs.length - l.s.g.totalCmdNum) * 12084 + l.spare * 3021
    + l.s.snd.pc.price l.s.snd.waitCount
    + 6 * l.up.length + 5 * l.down.length
    + (l.s.rdr.map RPc.rank).getD 0

/-- A move of the sender lowers the price; what it spends on a retry it
takes from the transmissions left. -/
theorem RecoveryInv.price_send (hi : RecoveryInv cs img l)
    (hok : recoverable l (.send i))
    (h : SStep cs l.s.g l.s.snd i g' snd' es) :
    (l.after i g' snd' es).price img < l.price img := by
  unfold Link.price Link.spare Link.after SPc.price
  dsimp only
  cases h with
  | init pc => exact absurd pc hi.cursor.loaded.opened.1
  | openFail pc | opened pc | openOver pc =>
      exact absurd pc hi.cursor.loaded.opened.2
  | created pc ret =>
      -- the reader is created with the two steps it needs to reach read
      have hret : ret = 0 := hok
      subst hret
      rw [hi.created pc, pc]
      simp [SPc.rank, SPc.between, RPc.rank, Session.spawn, Link.written]
      omega
  | next pc | newStage pc =>
      simp [pc, SPc.rank, SPc.between, Session.spawn, Link.written]
  | assemble pc hasm =>
      -- a packet is paid for by the record it is made of
      have ha := assembled_of_some hasm
      have hlt : l.s.g.totalCmdNum < img.recs.length := by
        cases hi.phase with
        | between hpc htotal => exact htotal
        | writing hpc | polling hpc | ended hpc =>
            simp [pc, SPc.polling, SPc.succeeding] at hpc
      rw [ha.total, pc]
      simp [SPc.rank, SPc.between, Session.spawn, Link.written]
      omega
  | crash pc hasm =>
      cases hi.phase with
      | between hpc htotal =>
          have hsome := hi.cursor.assembles cs htotal
          rw [hasm] at hsome
          cases hsome
      | writing hpc | polling hpc | ended hpc =>
          simp [pc, SPc.polling, SPc.succeeding] at hpc
  | retry pc hlt =>
      simp [pc, SPc.rank, SPc.between, Session.spawn, Link.written]
      omega
  | giveUp pc hge =>
      -- no fourth attempt: the phase keeps a try in hand
      cases hi.phase with
      | writing hpc htotal hspare =>
          have := hspare pc
          omega
      | between hpc | polling hpc | ended hpc =>
          simp [pc, SPc.between, SPc.polling, SPc.succeeding] at hpc
  | wrote pc res hres =>
      -- the packet and the polls it buys are paid for by the attempt
      cases hi.phase with
      | writing hpc htotal hspare hwrite =>
          rw [(hwrite pc).2, pc]
          simp [SPc.rank, SPc.between, Session.spawn, Link.written,
            otaWaitTime, Int.not_lt.mpr hres]
          omega
      | between hpc | polling hpc | ended hpc =>
          simp [pc, SPc.between, SPc.polling, SPc.succeeding] at hpc
  | writeFail pc res hres =>
      have hres' : 0 ≤ res := hok
      omega
  | poll pc hlt =>
      simp [pc, SPc.rank, SPc.between, Session.spawn, Link.written]
      omega
  | nextHit pc =>
      simp [pc, SPc.rank, SPc.between, Session.spawn, Link.written]
      omega
  | timeout pc | nextMiss pc | errHit pc | errMiss pc | completeHit pc
  | completeMiss pc | flag pc | verdict pc | stop pc | quitThread pc
  | quitServ pc =>
      -- these leave the channels alone and lower the rank
      simp [pc, SPc.rank, SPc.between, Session.spawn, Link.written]

/-- Every step of a recoverable run lowers the price, so the run cannot
go on for ever. -/
theorem RecoveryInv.price_step {a : LAct} (hi : RecoveryInv cs img l)
    (hok : recoverable l a) (hs : Link.step cs l a = some l') :
    l'.price img < l.price img := by
  cases Link.step_inv hs with
  | send h => exact hi.price_send hok h
  | tick hrdr h =>
      have htotal := h.frame.1
      unfold Link.price Link.spare
      dsimp only
      rw [htotal, hrdr]
      cases h with
      | enter hpc | leave hpc | decide hpc | ignore hpc | store hpc
      | failFlag hpc | failLog hpc | failStop hpc =>
          simp [hpc, RPc.rank]
  | deliver hdown hrdr h =>
      have htotal := h.frame.1
      unfold Link.price Link.spare
      dsimp only
      rw [htotal, hrdr, hdown]
      cases h with
      | report hpc | stray hpc =>
          simp [hpc, RPc.rank]
          omega
  | readFail hrdr h => exact hok.elim
  | answer hup hans =>
      unfold Link.price Link.spare
      dsimp only
      rw [hup]
      simp only [List.length_cons, List.length_append, List.length_nil]
      omega
  | lose hup =>
      unfold Link.price Link.spare
      dsimp only
      rw [hup, List.length_cons]
      omega
  | drop hn =>
      unfold Link.price Link.spare
      dsimp only
      rw [List.length_eraseIdx_of_lt hn]
      omega

-- ======================================================== a step to be taken

/-- The sender's own step is there wherever it waits for nobody. -/
theorem otaUpdate_tick_isSome {g : Shared} {snd : Sender}
    (hlive : snd.pc.live = true) (hcreate : snd.pc ≠ .create)
    (hwrite : snd.pc ≠ .write) :
    (otaUpdate cs g snd .tick).isSome = true := by
  cases hpc : snd.pc with
  | next | newStage => simp [otaUpdate, hpc]
  | assemble | retry | wait | pollNext | pollErr | pollComplete =>
      simp only [otaUpdate, hpc]
      split <;> rfl
  | create => exact absurd hpc hcreate
  | write => exact absurd hpc hwrite
  | init | load | flag v | verdict v | stop v | quitThread v | quitServ v
  | returned v | undefined =>
      rw [hpc] at hlive
      cases hlive

/-- As long as the sender has a packet to transmit or to wait for, the
run can go on, by a step the guard allows. -/
theorem RecoveryInv.canStep (hi : RecoveryInv cs img l)
    (hlive : l.s.snd.pc.live = true) :
    ∃ a l', recoverable l a ∧ Link.step cs l a = some l' := by
  have hstep : ∀ a, recoverable l a → (Link.step cs l a).isSome = true →
      ∃ a l', recoverable l a ∧ Link.step cs l a = some l' := by
    intro a hok hsome
    obtain ⟨l', hs⟩ := Option.isSome_iff_exists.mp hsome
    exact ⟨a, l', hok, hs⟩
  by_cases hcreate : l.s.snd.pc = .create
  · apply hstep (.send (.created 0)) rfl
    simp [Link.step, Session.step, otaUpdate, hcreate]
  by_cases hwrite : l.s.snd.pc = .write
  · apply hstep (.send (.wrote 0)) (Int.le_refl 0)
    simp [Link.step, Session.step, otaUpdate, hwrite, hidWrite]
  by_cases hok : recoverable l (.send .tick)
  · apply hstep (.send .tick) hok
    simpa [Link.step, Session.step] using
      @otaUpdate_tick_isSome cs l.s.g l.s.snd hlive hcreate hwrite
  · -- held back at its last look, with the transmission on its way
    simp only [recoverable, Classical.not_imp, not_or, not_not] at hok
    obtain ⟨hlast, -, hflight⟩ := hok
    have hpoll : l.s.snd.pc.polling = true := by
      rcases hlast.2 with hpc | ⟨hpc, -⟩ <;> rw [hpc] <;> rfl
    have hlisten : l.Listening := by
      cases hi.phase with
      | polling hpc htotal hlife => exact hlife.listening
      | between hpc htotal hzero hclear
      | writing hpc htotal hspare hwrite hclear
      | ended hpc htotal hclear => exact absurd hclear hflight
    have hcan : l.CanStep cs := Link.canStep_of_flight hlisten hflight
    obtain ⟨a, l', hbehaved, hs⟩ := hcan
    exact ⟨a, l', recoverable_of_wellBehaved hbehaved, hs⟩

-- ============================================================= the delivery

/-- What a recoverable run has transmitted so far, read off the abstract
sender that follows it. -/
theorem RecoveryInv.delivered (hi : RecoveryInv cs img l)
    {t : StopWait.State (Nat × List UInt8)} (hm : Matches img l.s t)
    (ht : Follows img StopWait.start t) : Delivered img l := by
  obtain ⟨rest, hout, -, hnil⟩ := hm.sent
  obtain ⟨counts, hshape, -⟩ := StopWait.shape ht
  have htotal : l.s.g.totalCmdNum ≤ img.recs.length := by
    cases hi.phase with
    | between hpc htotal => exact Nat.le_of_lt htotal
    | writing hpc htotal | polling hpc htotal => exact htotal
    | ended hpc htotal => exact Nat.le_of_eq htotal
  rw [hnil htotal, List.append_nil] at hout
  refine ⟨counts, hout ▸ hshape, fun hlive => ?_⟩
  cases hi.phase with
  | between hpc =>
      rw [SPc.live_of_between hpc] at hlive
      cases hlive
  | writing hpc =>
      rcases hpc with hpc | hpc <;> rw [hpc] at hlive <;> cases hlive
  | polling hpc =>
      rw [(SPc.live_of_polling hpc).1] at hlive
      cases hlive
  | ended hpc htotal' hclear hsent =>
      refine ⟨hpc, Nat.le_antisymm ?_ ?_⟩
      · rw [← img.length_packets]
        exact hshape.2.1
      · -- the last packet has been written, so it has its count
        obtain ⟨body, fin, hrecs, -⟩ := img.finishLast
        have hlen : img.recs.length = body.length + 1 := by simp [hrecs]
        have hfin : img.recs[body.length]? = some fin := by simp [hrecs]
        have hmem : (body.length + 1, fin.packet) ∈ sentOf l.s.trace := by
          apply hsent
          rw [htotal', ← img.length_packets, List.take_length]
          exact List.mem_of_getElem? (Image.getElem?_packets hfin)
        rw [hout, hshape.1] at hmem
        obtain ⟨j, r, hlt, -, heq⟩ := Image.mem_take_packets
          (StopWait.mem_take_of_mem_expand hmem)
        have hj : body.length + 1 = j + 1 := congrArg Prod.fst heq
        omega

/-- In every run over a channel that loses, with a device that refuses,
as long as the third transmission of a packet comes through, the image's
packets are written in order, each between one time and three times; the
run can be continued until the sender is at FLAG_OTA_SUCCESS with all of
them written, and it is bounded. -/
theorem recovers {g₀ : Shared} {param2 : Option String}
    {stack : Nat → UInt8} {as : List LAct}
    (h : Lts.Run (Link.step cs) recoverable
      (Link.start g₀ param2 stack img.bytes) as l) :
    Delivered img l
      ∧ (l.s.snd.pc.live = true →
        ∃ a l', recoverable l a ∧ Link.step cs l a = some l')
      ∧ as.length ≤ img.recs.length * 12084 + 6 := by
  have hi : RecoveryInv cs img l := recoveryInv_of_reach h.reach
  obtain ⟨t, hm, ht⟩ := (Link.reach_session h.reach).simulates
    (R := Matches img) (matches_start g₀ param2 stack img)
    fun s a s' t ht hm _ hs => hm.step ht hs
  refine ⟨hi.delivered hm ht, hi.canStep, ?_⟩
  have hbound := h.length_le (Link.price img)
    (fun l a l' hr hok hs => (recoveryInv_of_reach hr).price_step hok hs)
    (Lts.Reach.refl _)
  have hstart : (Link.start g₀ param2 stack img.bytes).price img
      = img.recs.length * 12084 + 6 := by
    simp [Link.price, Link.spare, Link.start, Session.start,
      Shared.initVars, SPc.price, SPc.rank, SPc.between]
  omega

-- ============================================================== one session

/-- The sender polls, finds STAGE_ERR_RETRY and transmits again. -/
def sendRefused : List LAct :=
  [.send .tick, .send .tick, .send .tick, .send .tick, .send (.wrote 8)]

/-- The device refuses the DATA record twice and takes it at last. -/
def refusedTwice : List LAct :=
  Link.sendFirst
    ++ .answer [0xA1, 0x02, 0, 0x02, 1, 0, 1] :: Link.readAnswer
    ++ sendRefused
    ++ .answer [0xA1, 0x02, 0, 0x02, 1, 0, 7] :: Link.readAnswer
    ++ sendRefused ++ .answer dataAnswer :: Link.readAnswer
    ++ Link.sendNext ++ .answer finishAnswer :: Link.readAnswer
    ++ [.send .tick, .send .tick, .send .tick, .send .tick]

/-- Where that leaves the session. -/
def refusedTwiceEnd : Link :=
  (Lts.run (Link.step .unsigned) recoverable dataImage.link
    refusedTwice).getD dataImage.link

/-- Three transmissions of the one record and one of the other, and the
session succeeds. -/
theorem recovers_refusedTwice :
    (sentOf refusedTwiceEnd.s.trace).map Prod.fst = [1, 1, 1, 2]
      ∧ refusedTwiceEnd.s.snd.pc = .flag .success
      ∧ Delivered dataImage refusedTwiceEnd
      ∧ (refusedTwiceEnd.s.snd.pc.live = true →
        ∃ a l', recoverable refusedTwiceEnd a
          ∧ Link.step .unsigned refusedTwiceEnd a = some l')
      ∧ refusedTwice.length ≤ dataImage.recs.length * 12084 + 6 :=
  ⟨by decide, by decide, recovers (Lts.Run.of_isSome (by decide))⟩

end BtOta
