/-
What is on its way back to the sender.

`flight` lists the transmissions that have not been judged yet, oldest
first, by the packets they belong to: the answer hidRead holds, the
answers in the channel, the transmissions the device has still to
answer. On a channel that keeps order a transmission enters the list at
its end, the device's answer and hidRead's read leave the list as it
is, and hidRead's judgement takes its head.

`FlightInv` says that what is in flight for the packet held is about
that packet: its transmissions carry it, their answers belong to it,
and hidRead's judgement of them is its acknowledgement. It holds in
every run with a device whose answers all say SUCCESS.
-/
import BtOta.Proofs.Sequence
import BtOta.Proofs.Shape

namespace BtOta

-- ================================================================= in flight

/-- hidRead has a response that it has not recorded yet, so the response
is still on its way to the sender. -/
def RPc.busy : RPc → Bool
  | .decide | .store _ => true
  | _ => false

/-- The packets whose transmissions have not been judged yet, oldest
first. -/
def Link.flight (l : Link) : List Nat :=
  (if l.s.rdr.any RPc.busy then [l.held] else [])
    ++ l.down.map Prod.fst ++ l.up.map Prod.fst

/-- Every answer says SUCCESS, and nothing is lost. -/
def lossless : Link → LAct → Prop
  | _, .answer r => (Rsp.ofReport r).stat = 0
  | _, .lose | _, .drop _ => False
  | _, _ => True

instance (l : Link) : ∀ a, Decidable (lossless l a)
  | .answer _ => inferInstanceAs (Decidable (_ = _))
  | .lose | .drop _ => inferInstanceAs (Decidable False)
  | .send _ | .tick | .deliver | .readFail =>
      inferInstanceAs (Decidable True)

/-- What is in flight for the packet held is about that packet: tags tell
packets apart, and a tag of the packet held comes with its bytes. -/
structure FlightInv (cs : CharSign) (l : Link) : Prop where
  seq : SeqInv cs l.s.g l.s.snd
  opened : l.s.snd.pc ≠ .init ∧ l.s.snd.pc ≠ .load
  created : l.s.snd.pc = .create → l.s.rdr = none
  tags : ∀ k ∈ l.flight, k ≤ l.s.g.totalCmdNum
  up : ∀ t ∈ l.up, l.s.snd.pc.holding = true →
    t.1 = l.s.g.totalCmdNum → t.2 = l.s.snd.packet
  rid : ∀ t ∈ l.down, (Rsp.ofReport t.2).rid = 0x02
  down : ∀ t ∈ l.down, (Rsp.ofReport t.2).stat = 0
    ∧ (l.s.snd.pc.holding = true → t.1 = l.s.g.totalCmdNum →
      belongs l.s.snd.packet (Rsp.ofReport t.2) = true)
  decide : l.s.rdr = some .decide → l.s.g.rspCmd.stat = 0
    ∧ (l.s.snd.pc.holding = true → l.held = l.s.g.totalCmdNum →
      belongs l.s.snd.packet l.s.g.rspCmd = true)
  store : ∀ x, l.s.rdr = some (.store x) → l.s.snd.pc.holding = true →
    l.held = l.s.g.totalCmdNum → x = ackOf l.s.snd.packet

variable {cs : CharSign} {g g' : Shared} {snd' : Sender} {es : List Event}
  {i : SIn} {l l' : Link}

/-- What the sender's move puts on the channel is what it logs as
written, so channel and log agree. -/
theorem SStep.written {s : Session} (h : SStep cs s.g s.snd i g' snd' es)
    (hopened : s.snd.pc ≠ .init ∧ s.snd.pc ≠ .load) :
    Link.written s i = sentOf es := by
  rcases h.tally hopened with
    ⟨hpc, hpc', -, -, hsent⟩ | ⟨hpc, -, -, -, hsent⟩ | hstill
  · cases h with
    | wrote pc res hres =>
        rw [hsent]
        exact if_neg (by omega)
    | writeFail => cases hpc'
    | init pc | openFail pc | opened pc | openOver pc | created pc
    | next pc | newStage pc | assemble pc | crash pc | retry pc | giveUp pc
    | poll pc | timeout pc | nextHit pc | nextMiss pc | errHit pc
    | errMiss pc | completeHit pc | completeMiss pc | flag pc | verdict pc
    | stop pc | quitThread pc | quitServ pc =>
        exact nomatch pc.symm.trans hpc
  · rw [hsent]
    cases h with
    | wrote pc | writeFail pc => exact nomatch pc.symm.trans hpc
    | _ => rfl
  · rw [hstill.sent]
    cases h with
    | wrote pc res hres =>
        have hne := hstill.sent
        rw [sentOf_append, sentOf_append, sentOf_verbose] at hne
        cases hne
    | writeFail pc res hres => exact if_pos hres
    | _ => rfl

/-- Creating the reader gives it nothing to judge, so a move of the
sender adds what it writes and takes nothing away. -/
theorem Link.flight_send (hcreated : l.s.snd.pc = .create → l.s.rdr = none)
    (h : SStep cs l.s.g l.s.snd i g' snd' es) (trace : List Event)
    (w : List (Nat × List UInt8)) :
    Link.flight
        { l with
          s := { g := g', snd := snd', rdr := Session.spawn l.s.rdr i
                 trace := trace }
          up := l.up ++ w }
      = l.flight ++ w.map Prod.fst := by
  have hbusy : (Session.spawn l.s.rdr i).any RPc.busy
      = l.s.rdr.any RPc.busy := by
    cases h with
    | created pc ret =>
        rw [hcreated pc]
        unfold Session.spawn
        split <;> rfl
    | _ => rfl
  simp only [flight, hbusy, List.map_append, List.append_assoc]

theorem Link.mem_flight_up {t : Nat × List UInt8} (h : t ∈ l.up) :
    t.1 ∈ l.flight :=
  List.mem_append_right _ (List.mem_map_of_mem h)

theorem Link.mem_flight_down {t : Nat × List UInt8} (h : t ∈ l.down) :
    t.1 ∈ l.flight :=
  List.mem_append_left _
    (List.mem_append_right _ (List.mem_map_of_mem h))

theorem Link.held_mem_flight {pc : RPc} (h : l.s.rdr = some pc)
    (hbusy : pc.busy = true) : l.held ∈ l.flight := by
  refine List.mem_append_left _ (List.mem_append_left _ ?_)
  rw [h, Option.any_some, if_pos hbusy]
  exact List.mem_singleton_self _

/-- The sender's move into a packet held: the packet is new, or it is
the one it held. -/
theorem SStep.held (h : SStep cs g l.s.snd i g' snd' es)
    (hg : g = l.s.g) (hopened : l.s.snd.pc ≠ .init ∧ l.s.snd.pc ≠ .load)
    (hhold : snd'.pc.holding = true) :
    (l.s.g.totalCmdNum < g'.totalCmdNum ∧ sentOf es = [])
      ∨ g'.totalCmdNum = l.s.g.totalCmdNum
        ∧ l.s.snd.pc.holding = true ∧ snd'.packet = l.s.snd.packet := by
  subst hg
  rcases h.carries hopened.2 with
    ⟨-, -, l₁, hasm, rfl⟩ | ⟨htotal, -, -, -, hkeep⟩ | hpc
  · refine Or.inl ⟨?_, sentOf_quiet hasm.quiet⟩
    rw [hasm.total]
    exact Nat.lt_succ_self _
  · exact Or.inr ⟨htotal, hkeep hhold⟩
  · exact absurd hpc hopened.1

/-- A number already in use that is the held packet's number behind the
move was its number before: a new packet has a new number. -/
theorem SStep.same_packet {k : Nat}
    (h : SStep cs l.s.g l.s.snd i g' snd' es)
    (hopened : l.s.snd.pc ≠ .init ∧ l.s.snd.pc ≠ .load)
    (hk : k ≤ l.s.g.totalCmdNum) (hhold : snd'.pc.holding = true)
    (heq : k = g'.totalCmdNum) :
    l.s.snd.pc.holding = true ∧ k = l.s.g.totalCmdNum
      ∧ snd'.packet = l.s.snd.packet := by
  rcases h.held rfl hopened hhold with ⟨hlt, -⟩ | ⟨hsame, hwas, hp⟩
  · omega
  · exact ⟨hwas, heq.trans hsame, hp⟩

/-- Packets are numbered upwards, and what is written is the packet
held. -/
theorem SStep.numbered {s : Session} (h : SStep cs s.g s.snd i g' snd' es)
    (hopened : s.snd.pc ≠ .init ∧ s.snd.pc ≠ .load) :
    s.g.totalCmdNum ≤ g'.totalCmdNum
      ∧ ∀ t ∈ sentOf es, s.snd.pc.holding = true
        ∧ t = (s.g.totalCmdNum, s.snd.packet) := by
  rcases h.tally hopened with
    ⟨hpc, -, -, htotal, hsent⟩ | ⟨-, -, -, htotal, hsent⟩ | hstill
  · rw [htotal, hsent]
    refine ⟨Nat.le_refl _, fun t ht => ⟨?_, List.mem_singleton.mp ht⟩⟩
    rw [hpc]
    rfl
  · rw [htotal, hsent]
    exact ⟨Nat.le_succ _, fun _ ht => absurd ht List.not_mem_nil⟩
  · rw [hstill.total, hstill.sent]
    exact ⟨Nat.le_refl _, fun _ ht => absurd ht List.not_mem_nil⟩

/-- While the packet held is the same, so is everything about it; a new
packet has nothing in flight, since its number is new. -/
theorem FlightInv.send (hi : FlightInv cs l)
    (h : SStep cs l.s.g l.s.snd i g' snd' es) :
    FlightInv cs
      { l with
        s := { g := g', snd := snd', rdr := Session.spawn l.s.rdr i
               trace := l.s.trace ++ es }
        up := l.up ++ Link.written l.s i } := by
  have hflight := Link.flight_send hi.created h (l.s.trace ++ es)
    (Link.written l.s i)
  have hw := h.written hi.opened
  have htotal := h.numbered hi.opened
  constructor
  case seq => exact hi.seq.send h
  case opened =>
    exact ⟨fun hpc => hi.opened.1 (h.opening (Or.inl hpc)),
      fun hpc => hi.opened.1 (h.opening (Or.inr hpc))⟩
  case created =>
    -- no step but the load's end leads to pthread_create
    intro hpc
    cases h with
    | opened pc => exact absurd pc hi.opened.2
    | assemble => cases hpc
    | _ => cases hpc
  case tags =>
    -- what is written now carries the number the step leaves
    intro k hk
    rw [hflight] at hk
    show k ≤ g'.totalCmdNum
    rcases List.mem_append.mp hk with hk | hk
    · exact Nat.le_trans (hi.tags k hk) htotal.1
    · obtain ⟨t, ht, rfl⟩ := List.mem_map.mp hk
      rw [hw] at ht
      rw [(htotal.2 t ht).2]
      exact htotal.1
  case up =>
    -- a new command makes every tag in flight an old one
    intro t ht hhold heq
    have heq' : t.1 = g'.totalCmdNum := heq
    rw [show l.up ++ Link.written l.s i = l.up ++ sentOf es from
      congrArg _ hw] at ht
    rcases h.held rfl hi.opened hhold with ⟨hlt, hnil⟩ | ⟨hsame, hwas, hp⟩
    · rw [hnil, List.append_nil] at ht
      have := hi.tags _ (Link.mem_flight_up ht)
      omega
    · rw [hp]
      rcases List.mem_append.mp ht with ht | ht
      · exact hi.up t ht hwas (heq'.trans hsame)
      · rw [(htotal.2 t ht).2]
  case rid => exact hi.rid
  case down =>
    -- an answer to the packet in hand stays one: the same number means the
    -- same packet
    intro t ht
    refine ⟨(hi.down t ht).1, fun hhold heq => ?_⟩
    obtain ⟨hwas, hsame, hp⟩ := h.same_packet hi.opened
      (hi.tags _ (Link.mem_flight_down ht)) hhold heq
    rw [hp]
    exact (hi.down t ht).2 hwas hsame
  case decide =>
    -- the response the reader holds is not the sender's to change
    intro hd
    have hd' := Session.spawn_eq_some hd (by decide)
    obtain ⟨hstat, hbel⟩ := hi.decide hd'
    show g'.rspCmd.stat = 0 ∧ _
    rw [h.rspCmd]
    refine ⟨hstat, fun hhold heq => ?_⟩
    obtain ⟨hwas, hsame, hp⟩ := h.same_packet hi.opened
      (hi.tags _ (Link.held_mem_flight hd' rfl)) hhold heq
    rw [hp]
    exact hbel hwas hsame
  case store =>
    intro x hd hhold heq
    have hd' := Session.spawn_eq_some hd nofun
    obtain ⟨hwas, hsame, hp⟩ := h.same_packet hi.opened
      (hi.tags _ (Link.held_mem_flight hd' rfl)) hhold heq
    rw [hp]
    exact hi.store x hd' hwas hsame

-- ======================================================= reader and device

variable {pc pc' : RPc} {r : List UInt8} {k : Nat}
  {rest : List (Nat × List UInt8)}

/-- hidRead's own steps leave the list as it is, or judge its head. -/
theorem Link.flight_tick (hrdr : l.s.rdr = some pc)
    (h : RStep cs l.s.g pc .tick g' pc' es) :
    (pc.busy = pc'.busy
        ∧ Link.flight { l with s := { l.s with
            g := g', rdr := some pc', trace := l.s.trace ++ es } } = l.flight)
      ∨ (pc.busy = true
        ∧ l.flight = l.held :: Link.flight { l with s := { l.s with
            g := g', rdr := some pc', trace := l.s.trace ++ es } }) := by
  cases h with
  | enter hpc | leave hpc | failFlag hpc | failLog hpc | failStop hpc
  | decide hpc =>
      refine Or.inl ⟨by rw [hpc]; rfl, ?_⟩
      simp [flight, hrdr, hpc, RPc.busy]
  | ignore hpc | store hpc =>
      refine Or.inr ⟨by rw [hpc]; rfl, ?_⟩
      simp [flight, hrdr, hpc, RPc.busy]

/-- A report read is held; one with another RID is dropped. -/
theorem Link.flight_deliver (hdown : l.down = (k, r) :: rest)
    (hrdr : l.s.rdr = some .read) (s' : Session) :
    (s'.rdr = some .decide →
        Link.flight { l with s := s', down := rest, held := k } = l.flight)
      ∧ (s'.rdr = some .test → l.flight
        = k :: Link.flight { l with s := s', down := rest, held := k }) := by
  constructor
  · intro h
    simp [flight, hrdr, h, hdown, RPc.busy]
  · intro h
    simp [flight, hrdr, h, hdown, RPc.busy]

/-- The device's answer takes its transmission's place, so the list does
not change. -/
theorem Link.flight_answer {p : List UInt8} (hup : l.up = (k, p) :: rest) :
    Link.flight { l with
        up := rest, down := l.down ++ [(k, r)]
        answered := l.answered ++ [(k, r)] } = l.flight := by
  simp [flight, hup]

theorem FlightInv.tick (hi : FlightInv cs l) (hrdr : l.s.rdr = some pc)
    (h : RStep cs l.s.g pc .tick g' pc' es) :
    FlightInv cs
      { l with s := { l.s with
          g := g', rdr := some pc', trace := l.s.trace ++ es } } := by
  obtain ⟨htotal, -⟩ := h.frame
  have htags : ∀ k ∈ Link.flight { l with s := { l.s with
      g := g', rdr := some pc', trace := l.s.trace ++ es } },
      k ≤ l.s.g.totalCmdNum := by
    intro k hk
    rcases Link.flight_tick hrdr h with ⟨-, heq⟩ | ⟨-, heq⟩
    · exact hi.tags k (heq ▸ hk)
    · exact hi.tags k (heq ▸ List.mem_cons_of_mem _ hk)
  constructor
  case seq => exact hi.seq.read h
  case opened => exact hi.opened
  case created =>
    intro hpc
    cases (hi.created hpc).symm.trans hrdr
  case tags =>
    intro k hk
    exact Nat.le_trans (htags k hk) (Nat.le_of_eq htotal.symm)
  case up => exact fun t ht hh heq => hi.up t ht hh (heq.trans htotal)
  case rid => exact hi.rid
  case down =>
    exact fun t ht =>
      ⟨(hi.down t ht).1, fun hh heq => (hi.down t ht).2 hh (heq.trans htotal)⟩
  case decide =>
    intro hd
    cases h with
    | enter | leave | decide | ignore | store | failFlag | failLog
    | failStop => cases hd
  case store =>
    intro x hd hh heq
    have heq' : l.held = l.s.g.totalCmdNum := heq.trans htotal
    cases h with
    | decide hpc hx =>
        cases hd
        obtain ⟨hstat, hbel⟩ := hi.decide (hrdr.trans (congrArg some hpc))
        exact respond_own (hbel hh heq') hstat (hi.seq.own hh) hx
    | enter | leave | ignore | store | failFlag | failLog | failStop =>
        cases hd

theorem FlightInv.deliver (hi : FlightInv cs l)
    (hdown : l.down = (k, r) :: rest) (hrdr : l.s.rdr = some pc)
    (h : RStep cs l.s.g pc (.got (some r)) g' pc' es) :
    FlightInv cs
      { l with
        s := { l.s with g := g', rdr := some pc', trace := l.s.trace ++ es }
        down := rest
        held := k } := by
  obtain ⟨htotal, -⟩ := h.frame
  have hall := hi.down
  rw [hdown] at hall
  have hread : pc = .read := by
    cases h with
    | report hpc | stray hpc => exact hpc
  have hflight := Link.flight_deliver hdown
    (hrdr.trans (congrArg some hread))
    { l.s with g := g', rdr := some pc', trace := l.s.trace ++ es }
  constructor
  case seq => exact hi.seq.read h
  case opened => exact hi.opened
  case created =>
    intro hpc
    cases (hi.created hpc).symm.trans hrdr
  case tags =>
    -- a stray report drops out of the flight, a response stays in it
    intro j hj
    refine Nat.le_trans (hi.tags j ?_) (Nat.le_of_eq htotal.symm)
    cases h with
    | report => rwa [← hflight.1 rfl]
    | stray =>
        rw [hflight.2 rfl]
        exact List.mem_cons_of_mem _ hj
  case up => exact fun t ht hh heq => hi.up t ht hh (heq.trans htotal)
  case rid =>
    refine fun t ht => hi.rid t ?_
    rw [hdown]
    exact List.mem_cons_of_mem _ ht
  case down =>
    intro t ht
    obtain ⟨hstat, hbel⟩ := hall t (List.mem_cons_of_mem _ ht)
    exact ⟨hstat, fun hh heq => hbel hh (heq.trans htotal)⟩
  case decide =>
    -- what was promised of the channel's head now holds of the reader's hand
    intro _
    obtain ⟨hstat, hbel⟩ := hall (k, r) (List.mem_cons_self ..)
    cases h with
    | report => exact ⟨hstat, hbel⟩
    | stray => exact ⟨hstat, hbel⟩
  case store =>
    intro x hd
    cases h with
    | report => cases hd
    | stray => cases hd

/-- One step of a lossless run keeps the invariant, whoever takes it. -/
theorem FlightInv.step {a : LAct} (hi : FlightInv cs l) (hok : lossless l a)
    (hs : Link.step cs l a = some l') : FlightInv cs l' := by
  cases Link.step_inv hs with
  | send h => exact hi.send h
  | tick hrdr h => exact hi.tick hrdr h
  | deliver hdown hrdr h => exact hi.deliver hdown hrdr h
  | readFail hrdr h =>
      cases h with
      | readFail hpc =>
          refine ⟨⟨hi.seq.cleared, hi.seq.own⟩, hi.opened, ?_, ?_, hi.up,
            hi.rid, hi.down, nofun, nofun⟩
          · intro hpc
            cases (hi.created hpc).symm.trans hrdr
          · intro j hj
            apply hi.tags j
            simp only [Link.flight, hrdr, hpc] at hj ⊢
            exact hj
  | answer hup hans =>
      obtain ⟨hrid, hbel⟩ := belongs_of_isAnswer hans
      have hall := hi.up
      rw [hup] at hall
      refine ⟨hi.seq, hi.opened, hi.created, ?_, ?_, ?_, ?_, hi.decide,
        hi.store⟩
      · intro j hj
        rw [Link.flight_answer hup] at hj
        exact hi.tags j hj
      · exact fun t ht => hall t (List.mem_cons_of_mem _ ht)
      · intro t ht
        rcases List.mem_append.mp ht with ht | ht
        · exact hi.rid t ht
        · rw [List.mem_singleton.mp ht]
          exact hrid
      · intro t ht
        rcases List.mem_append.mp ht with ht | ht
        · exact hi.down t ht
        · rw [List.mem_singleton.mp ht]
          refine ⟨hok, fun hh heq => ?_⟩
          have hp := hall _ (List.mem_cons_self ..) hh heq
          dsimp only at hp ⊢
          rw [← hp]
          exact hbel
  | lose hup => exact hok.elim
  | drop hn => exact hok.elim

theorem flightInv_start (cs : CharSign) (g₀ : Shared)
    (param2 : Option String) (stack : Nat → UInt8) (file : List UInt8) :
    FlightInv cs (Link.start g₀ param2 stack file) :=
  ⟨seqInv_start cs g₀ param2 stack file, ⟨nofun, nofun⟩, fun _ => rfl, nofun,
    nofun, nofun, nofun, nofun, nofun⟩

end BtOta
