/-
Whether a packet is left only once it has been acknowledged itself.

It is not: hidRead takes every START response for an acknowledgement of
whatever packet is outstanding, and a DATA response for one of any
packet whose sequence number compares equal. After a timeout the device
has two transmissions of one packet to answer, and the second answer
arrives while the next packet is outstanding; `skipped_unacked` is the
run in which a START record is sent twice and the DATA record behind it
is left without ever being answered.

`ownAck` asks that hidRead store STAGE_NEXT_CMD into a wait only on an
answer to the packet waited for. In every run whose steps all meet it,
a packet is left by the STAGE_NEXT_CMD jump only once the device has
answered SUCCESS to a transmission of that packet (`left_acked`).
-/
import BtOta.Proofs.Frame
import BtOta.Proofs.Idle

namespace BtOta.Link

/-- The device has answered SUCCESS to a transmission of packet `k`. This
is the device's own view, which the threads do not have. -/
def acked (l : Link) (k : Nat) : Prop :=
  ∃ t ∈ l.answered, t.1 = k ∧ (Rsp.ofReport t.2).stat = 0

instance (l : Link) (k : Nat) : Decidable (l.acked k) :=
  inferInstanceAs (Decidable (∃ _ ∈ l.answered, _))

/-- hidRead stores STAGE_NEXT_CMD while the sender waits only on an
answer to the packet the sender waits for. -/
def ownAck (l : Link) (a : LAct) : Prop :=
  a = .tick → l.s.rdr = some (.store .nextCmd) →
    l.s.snd.pc.awaiting = true → l.held = l.s.g.totalCmdNum

instance (l : Link) (a : LAct) : Decidable (ownAck l a) :=
  inferInstanceAs (Decidable (_ → _ → _ → _))

/-- What a run under `ownAck` keeps: an acknowledgement in the reader's
hand or in the mailbox is the device's answer to the packet waited for.
-/
structure OwnAckInv (l : Link) : Prop where
  down : ∀ t ∈ l.down, t ∈ l.answered
  decide : l.s.rdr = some .decide →
    ∃ r, (l.held, r) ∈ l.answered ∧ l.s.g.rspCmd = Rsp.ofReport r
  store : l.s.rdr = some (.store .nextCmd) → l.acked l.held
  mail : l.s.snd.pc.awaiting = true → l.s.g.otaStage = .nextCmd →
    l.acked l.s.g.totalCmdNum

theorem acked_mono {l l' : Link} {k : Nat}
    (hsub : ∀ t ∈ l.answered, t ∈ l'.answered) (h : l.acked k) :
    l'.acked k := by
  obtain ⟨t, ht, hk⟩ := h
  exact ⟨t, hsub t ht, hk⟩

/-- hidRead stores STAGE_NEXT_CMD only on SUCCESS, in whichever branch.
-/
theorem stat_of_respond_nextCmd {cs : CharSign} {g : Shared} {rsp : Rsp}
    {ms : List Msg} (h : respond cs g rsp = some (.nextCmd, ms)) :
    rsp.stat = 0 := by
  rcases respond_inv h with ⟨-, hx⟩ | ⟨-, -, hx⟩ | ⟨-, -, hx⟩ | ⟨-, hx⟩
  · exact (stageOf_eq_nextCmd.mp hx.symm).1
  · exact (stageOf_eq_nextCmd.mp hx.symm).1
  · cases hx
  · exact (stageOf_eq_nextCmd.mp hx.symm).1

/-- One step keeps the invariant; the channel and the device only add to
what has been answered. -/
theorem OwnAckInv.step {cs : CharSign} {l l' : Link} {a : LAct}
    (hi : OwnAckInv l) (hok : ownAck l a) (hs : Link.step cs l a = some l') :
    OwnAckInv l' := by
  cases step_inv hs with
  | send h =>
      refine ⟨hi.down, ?_, ?_, ?_⟩
      · intro hd
        dsimp only
        rw [h.rspCmd]
        exact hi.decide (Session.spawn_eq_some hd (by decide))
      · exact fun hd => hi.store (Session.spawn_eq_some hd (by decide))
      · intro ha hst
        obtain ⟨htotal, ⟨-, hret⟩ | ⟨hwait, hsame⟩⟩ := h.awaiting ha
        · cases hst.symm.trans hret
        · dsimp only
          rw [htotal]
          exact hi.mail hwait (hsame.symm.trans hst)
  | tick hrdr h =>
      cases h with
      | decide hpc hx =>
          refine ⟨hi.down, nofun, ?_, hi.mail⟩
          intro hd
          simp only [Option.some.injEq, RPc.store.injEq] at hd
          subst hd
          obtain ⟨r, hr, hrsp⟩ := hi.decide (hrdr.trans (congrArg some hpc))
          have hstat := stat_of_respond_nextCmd hx
          exact ⟨_, hr, rfl, hrsp ▸ hstat⟩
      | @store x hpc =>
          refine ⟨hi.down, nofun, nofun, ?_⟩
          intro ha hst
          have hx : x = .nextCmd := hst
          subst hx
          have hstore := hrdr.trans (congrArg some hpc)
          -- the guard names the packet waited for
          rw [← show l.held = l.s.g.totalCmdNum from hok rfl hstore ha]
          exact hi.store hstore
      | enter | leave | ignore | failFlag | failLog | failStop =>
          exact ⟨hi.down, nofun, nofun, hi.mail⟩
  | deliver hdown hrdr h =>
      have hdown' : ∀ t ∈ l.down, t ∈ l.answered := hi.down
      rw [hdown] at hdown'
      have hrest := fun t ht => hdown' t (List.mem_cons_of_mem _ ht)
      cases h with
      | report hpc r hrid =>
          refine ⟨hrest, ?_, nofun, hi.mail⟩
          exact fun _ => ⟨_, hdown' _ (List.mem_cons_self ..), rfl⟩
      | stray hpc r hrid => exact ⟨hrest, nofun, nofun, hi.mail⟩
  | readFail hrdr h =>
      cases h with
      | readFail => exact ⟨hi.down, nofun, nofun, hi.mail⟩
  | answer hup hans =>
      have hsub : ∀ t ∈ l.answered, ∀ u, t ∈ l.answered ++ [u] :=
        fun t ht u => List.mem_append_left _ ht
      refine ⟨?_, ?_, ?_, ?_⟩
      · intro t ht
        rcases List.mem_append.mp ht with ht | ht
        · exact hsub t (hi.down t ht) _
        · exact List.mem_append_right _ ht
      · intro hd
        obtain ⟨r, hr, hrsp⟩ := hi.decide hd
        exact ⟨r, hsub _ hr _, hrsp⟩
      · exact fun hd => acked_mono (fun t ht => hsub t ht _) (hi.store hd)
      · exact fun ha hst =>
          acked_mono (fun t ht => hsub t ht _) (hi.mail ha hst)
  | lose hup => exact ⟨hi.down, hi.decide, hi.store, hi.mail⟩
  | drop hn =>
      exact ⟨fun t ht => hi.down t (List.mem_of_mem_eraseIdx ht), hi.decide,
        hi.store, hi.mail⟩

/-- In every run under `ownAck`, a packet the sender leaves by the
STAGE_NEXT_CMD jump has been answered SUCCESS itself. -/
theorem left_acked {cs : CharSign} {g₀ : Shared} {param2 : Option String}
    {stack : Nat → UInt8} {file : List UInt8} {l l' : Link} {a : LAct}
    {k : Nat}
    (h : Lts.Reach (step cs) ownAck (start g₀ param2 stack file) l)
    (hs : step cs l a = some l')
    (hleave : l'.s.trace = l.s.trace ++ [.goto .nextCmd k]) :
    l.acked k := by
  have hinv : OwnAckInv l := by
    refine h.invariant (I := OwnAckInv) ⟨nofun, nofun, nofun, nofun⟩ ?_
    exact fun l a l' hi hok hs => hi.step hok hs
  cases step_inv hs with
  | send hm =>
      have hes := List.append_cancel_left hleave
      have he := hm.event (e := .goto .nextCmd k) (by rw [hes]; simp)
      cases he with
      | nextCmd pc hst => exact hinv.mail (by rw [pc]; rfl) hst
      | quiet h => cases h
  | tick hrdr hm =>
      have hes := List.append_cancel_left hleave
      cases hm.fromSender (.goto .nextCmd k) (by rw [hes]; simp)
  | deliver hdown hrdr hm =>
      have hes := List.append_cancel_left hleave
      cases hm.fromSender (.goto .nextCmd k) (by rw [hes]; simp)
  | readFail hrdr hm =>
      have hes := List.append_cancel_left hleave
      cases hm.fromSender (.goto .nextCmd k) (by rw [hes]; simp)
  | answer hup hans => simp at hleave
  | lose hup => simp at hleave
  | drop hn => simp at hleave

-- ======================================================= two sessions

/-- A START record, a DATA record, the FINISH record. -/
def threeImage : Image :=
  .close [.start, .data 1 0] (by decide) (by decide)

/-- A START response with SUCCESS. -/
def startAnswer : List UInt8 := [0xA1, 0x02, 0, 0x01, 0, 0, 0]

/-- The START record is sent and answered, and the sender has seen it. -/
def startAnswered : Link :=
  (Lts.run (step .unsigned) ownAck threeImage.link
    (sendFirst ++ .answer startAnswer :: readAnswer ++ [.send .tick])).getD
    threeImage.link

/-- The poll that finds it. -/
def startLeft : Link :=
  (step .unsigned startAnswered (.send .tick)).getD startAnswered

/-- The sender leaves the START record on the device's own answer to it,
as it should. -/
theorem left_acked_start :
    startLeft.s.trace = startAnswered.s.trace ++ [.goto .nextCmd 1]
      ∧ startAnswered.acked 1 :=
  ⟨by decide, left_acked (Lts.Reach.of_isSome (by decide))
    (show step .unsigned startAnswered (.send .tick) = some startLeft by rfl)
    (by decide)⟩

/-- The START record is sent, and nothing answers yet. -/
def startSent : Link :=
  (Lts.run (step .unsigned) Lts.free threeImage.link sendFirst).getD
    threeImage.link

/-- Behind a timeout it is sent again and both transmissions are
answered; the first answer moves the sender on to the DATA record, and
the second one arrives while that is outstanding. -/
def lateDuplicate : Link :=
  (Lts.run (step .unsigned) Lts.free (startSent.polled .wait 749)
    (sendAgain ++ [.answer startAnswer, .answer startAnswer] ++ readAnswer
      ++ sendNext ++ readAnswer ++ [.send .tick])).getD
    (startSent.polled .wait 749)

/-- A packet is left unacknowledged: the late second answer to the START
record moves the sender past the DATA record, which the device has not
answered at all. -/
theorem skipped_unacked :
    ¬ ∀ (cs : CharSign) (g₀ : Shared) (param2 : Option String)
        (stack : Nat → UInt8) (img : Image) (l l' : Link) (a : LAct)
        (k : Nat),
      Lts.Reach (step cs) Lts.free (start g₀ param2 stack img.bytes) l →
      step cs l a = some l' →
      l'.s.trace = l.s.trace ++ [.goto .nextCmd k] → l.acked k := by
  intro h
  have hsent : Lts.Reach (step .unsigned) Lts.free threeImage.link
      startSent := Lts.Reach.of_isSome (by decide)
  have hpolled : Lts.Reach (step .unsigned) Lts.free startSent
      (startSent.polled .wait 749) :=
    reach_polled (l := startSent) (by rfl) (by decide) fun _ _ _ => trivial
  have hlate : Lts.Reach (step .unsigned) Lts.free
      (startSent.polled .wait 749) lateDuplicate :=
    Lts.Reach.of_isSome (by decide)
  exact absurd
    (h .unsigned _ _ _ threeImage lateDuplicate
      ((step .unsigned lateDuplicate (.send .tick)).getD lateDuplicate)
      (.send .tick) 2 ((hsent.trans hpolled).trans hlate) (by rfl)
      (by decide))
    (by decide)

end BtOta.Link
