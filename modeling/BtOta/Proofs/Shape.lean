/-
The shape of what ota_update transmits, whoever answers.

Against an arbitrary reader and an arbitrary channel the sender is a
stop-and-wait sender of the image's packets: it begins them in file
order, transmits each at least once and at most three times, and never
goes back. The proof is a simulation of the session into
`StopWait.step`. The abstract sender follows the real one packet by
packet up to the last record; once a packet behind it has been begun it
stands still, and what is written from then on is `rest`.

`send_count` is what ties the two together: while a packet is held it
counts the transmissions of that packet, one ahead of them at hidWrite,
so the third failure in a row to be acknowledged means three
transmissions on the channel.

A verbose session is taken past its dumps, each of which writes a NUL
behind its buffer (`dumps_never_fit`); what is shown here of such a
session is shown of one in which that does no harm.
-/
import BtOta.Proofs.Cursor
import BtOta.Lib.StopWait

namespace BtOta

open EventLog

variable {cs : CharSign} {g g' : Shared} {l l' : Sender} {es : List Event}
  {i : SIn} {img : Image} {s s' : Session}

-- ========================================================= what is written

theorem sentOf_eq_nil (h : ∀ e ∈ es, e.sent? = none) : sentOf es = [] :=
  List.filterMap_eq_nil_iff.mpr h

@[simp] theorem sentOf_verbose (g : Shared) (m : Msg) :
    sentOf (g.verbose m) = [] := by
  apply sentOf_eq_nil
  intro e he
  rw [Shared.mem_verbose he]
  rfl

theorem sentOf_quiet (h : ∀ e ∈ es, e.quiet = true) : sentOf es = [] := by
  apply sentOf_eq_nil
  intro e he
  obtain ⟨m, rfl⟩ := Event.quiet_inv (h e he)
  rfl

/-- hidRead writes no packets, so what has been transmitted is the
sender's alone. -/
theorem RStep.sentOf {pc pc' : RPc} {j : RIn}
    (h : RStep cs g pc j g' pc' es) : BtOta.sentOf es = [] := by
  apply sentOf_eq_nil
  intro e he
  have hsend := h.fromSender e he
  cases e with
  | tx k packet => cases hsend
  | _ => rfl

/-- The sender is between two packets, or has transmitted the one it
holds in this round. -/
def SPc.tried : SPc → Bool
  | .create | .next | .newStage | .assemble | .wait | .pollNext | .pollErr
  | .pollComplete => true
  | _ => false

/-- A move that neither writes nor begins a packet: what it does to
`send_count`, and where it leads. -/
structure SStep.Still (g : Shared) (l : Sender) (g' : Shared) (l' : Sender)
    (es : List Event) : Prop where
  total : g'.totalCmdNum = g.totalCmdNum
  sent : sentOf es = []
  holding : l'.pc.holding = true → l.pc.holding = true
    ∧ (l'.pc = .write ∧ l.pc = .retry ∧ l'.sendCount = l.sendCount + 1
        ∧ l.sendCount < 3
      ∨ (l'.pc = .write ↔ l.pc = .write) ∧ l'.sendCount = l.sendCount)
  tried : l'.pc.tried = true → l.pc.tried = true
  cleared : l'.pc.cleared = true → l'.sendCount = 0
    ∨ l.pc.cleared = true ∧ l'.sendCount = l.sendCount

/-- A sender's move writes the packet it holds, begins the next one, or
does neither. -/
theorem SStep.tally (h : SStep cs g l i g' l' es)
    (hopened : l.pc ≠ .init ∧ l.pc ≠ .load) :
    (l.pc = .write ∧ l'.pc = .wait ∧ l'.sendCount = l.sendCount
        ∧ g'.totalCmdNum = g.totalCmdNum
        ∧ BtOta.sentOf es = [(g.totalCmdNum, l.packet)])
      ∨ (l.pc = .assemble ∧ l'.pc = .retry ∧ l'.sendCount = l.sendCount
        ∧ g'.totalCmdNum = g.totalCmdNum + 1 ∧ BtOta.sentOf es = [])
      ∨ SStep.Still g l g' l' es := by
  cases h with
  | wrote pc res hres =>
      -- the dump and the result line are no packets
      refine Or.inl ⟨pc, rfl, rfl, rfl, ?_⟩
      rw [sentOf_append, sentOf_append, sentOf_verbose, sentOf_verbose]
      rfl
  | assemble pc hasm =>
      have ha := assembled_of_some hasm
      exact Or.inr (Or.inl
        ⟨pc, rfl, ha.sendCount, ha.total, sentOf_quiet ha.quiet⟩)
  | retry pc hlt =>
      -- a new attempt: send_count goes up, below its bound
      refine Or.inr (Or.inr ⟨rfl, ?_, ?_, nofun, nofun⟩)
      · split <;> rfl
      · intro _
        exact ⟨by rw [pc]; rfl, Or.inl ⟨rfl, pc, rfl, hlt⟩⟩
  | init pc => exact absurd pc hopened.1
  | openFail pc | opened pc | openOver pc => exact absurd pc hopened.2
  | created pc ret =>
      refine Or.inr (Or.inr ⟨rfl, ?_, nofun, fun _ => by rw [pc]; rfl, nofun⟩)
      split <;> rfl
  | next pc =>
      exact Or.inr (Or.inr
        ⟨rfl, rfl, nofun, fun _ => by rw [pc]; rfl, fun _ => Or.inl rfl⟩)
  | newStage pc =>
      refine Or.inr (Or.inr ⟨rfl, rfl, nofun, fun _ => by rw [pc]; rfl, ?_⟩)
      exact fun _ => Or.inr ⟨by rw [pc]; rfl, rfl⟩
  | timeout pc | errHit pc =>
      -- back to retry with the count as it was
      refine Or.inr (Or.inr ⟨rfl, rfl, fun _ => ?_, nofun, nofun⟩)
      exact ⟨by rw [pc]; rfl, Or.inr ⟨by simp [pc], rfl⟩⟩
  | poll pc | nextMiss pc | errMiss pc | completeMiss pc =>
      refine Or.inr (Or.inr
        ⟨rfl, rfl, fun _ => ?_, fun _ => by rw [pc]; rfl, nofun⟩)
      exact ⟨by rw [pc]; rfl, Or.inr ⟨by simp [pc], rfl⟩⟩
  | nextHit pc =>
      exact Or.inr (Or.inr
        ⟨rfl, rfl, nofun, fun _ => by rw [pc]; rfl, nofun⟩)
  | writeFail pc res hres =>
      refine Or.inr (Or.inr ⟨rfl, ?_, nofun, nofun, nofun⟩)
      rw [sentOf_append, sentOf_verbose]
      rfl
  | crash | giveUp | completeHit | flag | verdict | stop | quitThread
  | quitServ => exact Or.inr (Or.inr ⟨rfl, rfl, nofun, nofun, nofun⟩)

/-- Every packet held or written is `P`, so a property of packets has to
be looked at where they are built only. -/
structure SendsOnly (P : List UInt8 → Prop) (s : Session) : Prop where
  packet : s.snd.pc.holding = true → P s.snd.packet
  sent : ∀ t ∈ BtOta.sentOf s.trace, P t.2

/-- It stays so if the packet built is: no other move makes a packet. -/
theorem SendsOnly.send {P : List UInt8 → Prop} (hi : SendsOnly P s)
    (hopened : s.snd.pc ≠ .init ∧ s.snd.pc ≠ .load)
    (hnew : s.snd.pc = .assemble → i = .tick →
      ∀ l₁, Assembled cs s.g s.snd g' l₁ es → P l₁.packet)
    (h : SStep cs s.g s.snd i g' l' es) :
    SendsOnly P
      { g := g', snd := l', rdr := Session.spawn s.rdr i
        trace := s.trace ++ es } := by
  refine ⟨?_, ?_⟩
  · intro hhold
    rcases h.carries hopened.2 with
      ⟨hpc, hi', l₁, hasm, rfl⟩ | ⟨-, -, -, -, hkeep⟩ | hpc
    · exact hnew hpc hi' l₁ hasm
    · obtain ⟨hwas, hsame⟩ := hkeep hhold
      exact hsame ▸ hi.packet hwas
    · exact absurd hpc hopened.1
  · intro t ht
    rw [sentOf_append] at ht
    rcases List.mem_append.mp ht with ht | ht
    · exact hi.sent t ht
    · rcases h.tally hopened with
        ⟨hpc, -, -, -, hsent⟩ | ⟨-, -, -, -, hsent⟩ | hstill
      · rw [hsent] at ht
        rw [List.mem_singleton.mp ht]
        exact hi.packet (by rw [hpc]; rfl)
      · rw [hsent] at ht
        cases ht
      · rw [hstill.sent] at ht
        cases ht

theorem SendsOnly.read {P : List UInt8 → Prop} {pc pc' : RPc} {j : RIn}
    (hi : SendsOnly P s) (h : RStep cs s.g pc j g' pc' es) :
    SendsOnly P
      { s with g := g', rdr := some pc', trace := s.trace ++ es } := by
  refine ⟨hi.packet, fun t ht => ?_⟩
  rw [sentOf_append, h.sentOf, List.append_nil] at ht
  exact hi.sent t ht

-- =========================================================== the simulation

/-- FLAG_OTA_FAIL, with no packet behind the image begun, comes after a
failing write or three transmissions of one record. -/
def FailEarned (img : Image) (before : List Event) (e : Event) : Prop :=
  ∀ k, e = .goto .otaFail k → k ≤ img.recs.length →
    .log .writeError ∈ before
      ∨ ∃ t ∈ img.packets, 3 ≤ (sentOf before).count t

/-- The abstract sender stands where the session does: as many items
begun, the last tried as often, and the same output inside the image. -/
structure Matches (img : Image) (s : Session)
    (t : StopWait.State (Nat × List UInt8)) : Prop where
  cursor : CursorInv img s
  begun : t.begun = min s.g.totalCmdNum img.recs.length
  sent : ∃ rest, sentOf s.trace = t.out ++ rest
    ∧ (∀ x ∈ rest, img.recs.length < x.1)
    ∧ (s.g.totalCmdNum ≤ img.recs.length → rest = [])
  tally : s.snd.pc.holding = true → s.g.totalCmdNum ≤ img.recs.length →
    t.tries + (if s.snd.pc = .write then 1 else 0) = s.snd.sendCount
      ∧ s.snd.sendCount ≤ 3
  tried : (s.snd.pc.tried = true ∨ img.recs.length < s.g.totalCmdNum) →
    t.begun = 0 ∨ 0 < t.tries
  cleared : s.snd.pc.cleared = true → s.snd.sendCount = 0
  log : Always (FailEarned img) s.trace

/-- Steps of the abstract sender, none or one, which is what a step of
the session may come to. -/
abbrev Follows (img : Image) :=
  Lts.Reach (StopWait.step img.packets 3) Lts.free

variable {t : StopWait.State (Nat × List UInt8)}

/-- A jump to FLAG_OTA_FAIL has been earned, by what the abstract sender
says of the transmissions. -/
theorem Matches.log_send (hi : Matches img s t)
    (ht : Follows img StopWait.start t)
    (h : SStep cs s.g s.snd i g' l' es) :
    Always (FailEarned img) (s.trace ++ es) := by
  refine always_append.mpr ⟨hi.log, ?_⟩
  intro before e after hes k he hk
  subst he
  have hmem : .goto .otaFail k ∈ es := by
    rw [hes]
    exact List.mem_append_cons_self
  cases h.event hmem with
  | quiet hq => cases hq
  | openFail pc => exact absurd pc hi.cursor.loaded.opened.2
  | giveUp pc hge =>
      -- send_count has counted the transmissions of the packet held
      obtain ⟨j, r, htotal, hr, -⟩ := hi.cursor.packet (by rw [pc]; rfl) hk
      obtain ⟨htally, -⟩ := hi.tally (by rw [pc]; rfl) hk
      rw [if_neg (by simp [pc])] at htally
      have hx := Image.getElem?_packets hr
      have hbegun : t.begun = j + 1 := by
        rw [hi.begun, htotal, Nat.min_eq_left (by omega)]
      have hcount := StopWait.tries_le_count ht hbegun hx
      obtain ⟨rest, hsent, -⟩ := hi.sent
      refine Or.inr ⟨_, List.mem_of_getElem? hx, ?_⟩
      rw [sentOf_append, hsent, List.count_append, List.count_append]
      omega
  | writeFail pc =>
      cases h with
      | wrote pc' res hres =>
          rcases List.mem_append.mp hmem with hmem | hmem
          · rcases List.mem_append.mp hmem with hmem | hmem
            · cases Shared.mem_verbose hmem
            · cases List.mem_singleton.mp hmem
          · cases Shared.mem_verbose hmem
      | writeFail pc' res hres =>
          refine Or.inl (List.mem_append_right _ ?_)
          have hlast : s.g.verbose (.dump s.snd.packet) ++ [.log .writeError]
              = before := by
            refine EventLog.split_last
              (by rw [List.append_assoc]; exact hes) fun hgoto => ?_
            rcases List.mem_append.mp hgoto with hgoto | hgoto
            · cases Shared.mem_verbose hgoto
            · cases List.mem_singleton.mp hgoto
          rw [← hlast]
          simp
      | init pc' | openFail pc' | opened pc' | openOver pc' | created pc'
      | next pc' | newStage pc' | assemble pc' | crash pc' | retry pc'
      | giveUp pc' | poll pc' | timeout pc' | nextHit pc' | nextMiss pc'
      | errHit pc' | errMiss pc' | completeHit pc' | completeMiss pc'
      | flag pc' | verdict pc' | stop pc' | quitThread pc' | quitServ pc' =>
          exact nomatch pc'.symm.trans pc

/-- The abstract sender may stay where it is, in every step that neither
begins nor writes a packet. -/
theorem Matches.still (hi : Matches img s t)
    (h : SStep.Still s.g s.snd s'.g s'.snd es)
    (htrace : s'.trace = s.trace ++ es) (hcur : CursorInv img s')
    (hlog : Always (FailEarned img) s'.trace) : Matches img s' t := by
  refine ⟨hcur, ?_, ?_, ?_, ?_, ?_, hlog⟩
  · rw [h.total]
    exact hi.begun
  · rw [htrace, sentOf_append, h.sent, List.append_nil, h.total]
    exact hi.sent
  · intro hpc hle
    rw [h.total] at hle
    obtain ⟨hwas, hmove⟩ := h.holding hpc
    obtain ⟨htally, hthree⟩ := hi.tally hwas hle
    rcases hmove with ⟨hw, hr, hcount, hlt⟩ | ⟨hsame, hcount⟩
    · rw [if_pos hw, hcount]
      rw [if_neg (by rw [hr]; nofun)] at htally
      omega
    · simp only [hsame, hcount]
      exact ⟨htally, hthree⟩
  · intro h
    rcases h with hpc | hgt
    · exact hi.tried (Or.inl (h.tried hpc))
    · exact hi.tried (Or.inr (h.total ▸ hgt))
  · intro hpc
    rcases h.cleared hpc with hzero | ⟨hwas, hsame⟩
    · exact hzero
    · exact hsame.trans (hi.cleared hwas)

/-- A write is a transmission, as long as the packet is the image's. -/
theorem Matches.wrote (hi : Matches img s t) (hpc : s.snd.pc = .write)
    (hpc' : s'.snd.pc = .wait) (hcount : s'.snd.sendCount = s.snd.sendCount)
    (htotal : s'.g.totalCmdNum = s.g.totalCmdNum)
    (hsent : sentOf s'.trace
      = sentOf s.trace ++ [(s.g.totalCmdNum, s.snd.packet)])
    (hcur : CursorInv img s') (hlog : Always (FailEarned img) s'.trace) :
    ∃ t', Matches img s' t' ∧ Follows img t t' := by
  obtain ⟨rest, hout, hrest, hnil⟩ := hi.sent
  -- a packet of the image is the protocol's transmit; one behind the image
  -- is outside it
  by_cases hle : s.g.totalCmdNum ≤ img.recs.length
  · obtain ⟨k, r, hk, hr, hpacket⟩ := hi.cursor.packet (by rw [hpc]; rfl) hle
    obtain ⟨htally, hthree⟩ := hi.tally (by rw [hpc]; rfl) hle
    rw [if_pos hpc] at htally
    have hbegun : t.begun = k + 1 := by
      rw [hi.begun, hk, Nat.min_eq_left (by omega)]
    have hstep : StopWait.step img.packets 3 t .transmit = some _ :=
      StopWait.step_transmit hbegun (Image.getElem?_packets hr) (by omega)
    refine ⟨_, ?_, (Lts.Reach.refl t).tail trivial hstep⟩
    refine ⟨hcur, ?_, ⟨[], ?_, nofun, fun _ => rfl⟩, ?_, ?_, ?_, hlog⟩
    · rw [htotal]
      exact hi.begun
    · rw [hsent, hout, hnil hle, hk, hpacket]
      simp
    · intro _ _
      rw [if_neg (by rw [hpc']; nofun), hcount]
      exact ⟨htally, hthree⟩
    · exact fun _ => Or.inr (Nat.succ_pos _)
    · rw [hpc']
      nofun
  · refine ⟨t, ?_, Lts.Reach.refl t⟩
    refine ⟨hcur, ?_, ⟨rest ++ [(s.g.totalCmdNum, s.snd.packet)], ?_, ?_, ?_⟩,
      ?_, ?_, ?_, hlog⟩
    · rw [htotal]
      exact hi.begun
    · rw [hsent, hout, List.append_assoc]
    · intro x hx
      rcases List.mem_append.mp hx with hx | hx
      · exact hrest x hx
      · rw [List.mem_singleton.mp hx]
        exact Nat.lt_of_not_le hle
    · intro hle'
      exact absurd (htotal ▸ hle') hle
    · intro _ hle'
      exact absurd (htotal ▸ hle') hle
    · exact fun _ => hi.tried (Or.inr (Nat.lt_of_not_le hle))
    · rw [hpc']
      nofun

/-- A packet begun inside the image is an advance; one begun behind it is
none of the abstract sender's. -/
theorem Matches.begin (hi : Matches img s t) (hpc : s.snd.pc = .assemble)
    (hpc' : s'.snd.pc = .retry) (hcount : s'.snd.sendCount = s.snd.sendCount)
    (htotal : s'.g.totalCmdNum = s.g.totalCmdNum + 1)
    (hsent : sentOf s'.trace = sentOf s.trace)
    (hcur : CursorInv img s') (hlog : Always (FailEarned img) s'.trace) :
    ∃ t', Matches img s' t' ∧ Follows img t t' := by
  obtain ⟨rest, hout, hrest, hnil⟩ := hi.sent
  have htried := hi.tried (Or.inl (by rw [hpc]; rfl))
  by_cases hlt : s.g.totalCmdNum < img.recs.length
  · have hbegun : t.begun = s.g.totalCmdNum := by
      rw [hi.begun, Nat.min_eq_left (by omega)]
    have hstep : StopWait.step img.packets 3 t .advance = some _ :=
      StopWait.step_advance htried (by rw [Image.length_packets]; omega)
    refine ⟨_, ?_, (Lts.Reach.refl t).tail trivial hstep⟩
    refine ⟨hcur, ?_, ⟨rest, hsent.trans hout, hrest, ?_⟩, ?_, ?_, ?_, hlog⟩
    · rw [htotal]
      show t.begun + 1 = _
      omega
    · exact fun _ => hnil (by omega)
    · intro _ _
      have hzero := hi.cleared (by rw [hpc]; rfl)
      rw [if_neg (by rw [hpc']; nofun), hcount, hzero]
      exact ⟨rfl, by omega⟩
    · rw [hpc', htotal]
      intro h
      rcases h with hpc | hgt
      · cases hpc
      · omega
    · rw [hpc']
      nofun
  · refine ⟨t, ?_, Lts.Reach.refl t⟩
    refine ⟨hcur, ?_, ⟨rest, hsent.trans hout, hrest, ?_⟩, ?_, ?_, ?_, hlog⟩
    · rw [htotal, hi.begun]
      omega
    · intro hle
      omega
    · intro _ hle
      omega
    · exact fun _ => htried
    · rw [hpc']
      nofun

/-- The abstract sender follows the session, whichever thread has moved.
-/
theorem Matches.step {a : Act} (hi : Matches img s t)
    (ht : Follows img StopWait.start t)
    (hs : Session.step cs s a = some s') :
    ∃ t', Matches img s' t' ∧ Follows img t t' := by
  cases Session.step_inv hs with
  | send h =>
      have hlog := hi.log_send ht h
      have hcur := hi.cursor.send h
      rcases h.tally hi.cursor.loaded.opened with
        ⟨hpc, hpc', hcount, htotal, hsent⟩
        | ⟨hpc, hpc', hcount, htotal, hsent⟩ | hstill
      · refine hi.wrote hpc hpc' hcount htotal ?_ (hcur _ _) hlog
        rw [sentOf_append, hsent]
      · refine hi.begin hpc hpc' hcount htotal ?_ (hcur _ _) hlog
        rw [sentOf_append, hsent, List.append_nil]
      · exact ⟨t, hi.still hstill rfl (hcur _ _) hlog, Lts.Reach.refl t⟩
  | read hrdr h =>
      have hlog : Always (FailEarned img) (s.trace ++ _) :=
        hi.log.append_of fun e he before k hk _ => by
          subst hk
          cases h.fromSender _ he
      have hstill : SStep.Still s.g s.snd _ s.snd _ :=
        ⟨h.frame.1, h.sentOf, fun hpc => ⟨hpc, Or.inr ⟨Iff.rfl, rfl⟩⟩, id,
          fun hpc => Or.inr ⟨hpc, rfl⟩⟩
      exact ⟨t, hi.still hstill rfl (hi.cursor.read h _ _) hlog,
        Lts.Reach.refl t⟩

theorem matches_start (g₀ : Shared) (param2 : Option String)
    (stack : Nat → UInt8) (img : Image) :
    Matches img (Session.start g₀ param2 stack img.bytes)
      StopWait.start where
  cursor := cursorInv_start g₀ param2 stack img
  begun := (Nat.zero_min _).symm
  sent := ⟨[], sentOf_quiet (Session.start_quiet g₀ param2 stack _), nofun,
    fun _ => rfl⟩
  tally := nofun
  tried := fun _ => Or.inl rfl
  cleared := nofun
  log := (always_nil _).append_of fun e he before k hk _ => by
    obtain ⟨m, rfl⟩ := Session.start_log g₀ param2 stack img.bytes he
    cases hk

-- ================================================================ the shape

/-- What has been transmitted: the image's packets in order, each one to
three times, and behind the last of them only packets begun behind the
image. -/
def Shaped (img : Image) (trace : List Event) : Prop :=
  ∃ counts sent rest, sentOf trace = sent ++ rest
    ∧ StopWait.Shape img.packets 3 counts sent
    ∧ (∀ x ∈ rest, img.recs.length < x.1)
    ∧ (rest ≠ [] → counts.length = img.recs.length)

/-- A session that the abstract sender follows has transmitted what that
one has. -/
theorem Matches.shaped (hi : Matches img s t)
    (ht : Follows img StopWait.start t) : Shaped img s.trace := by
  obtain ⟨counts, hshape, hlen⟩ := StopWait.shape ht
  obtain ⟨rest, hsent, hrest, hnil⟩ := hi.sent
  refine ⟨counts, t.out, rest, hsent, hshape, hrest, fun hne => ?_⟩
  have hgt : img.recs.length < s.g.totalCmdNum :=
    Nat.lt_of_not_le fun hle => hne (hnil hle)
  rw [hlen (hi.tried (Or.inr hgt)), hi.begun]
  omega

/-- In every run the packets written have the shape of the image, and a
session fails inside the image only behind a failing write or three
transmissions of one record. -/
theorem transmitted_shape {g₀ : Shared} {param2 : Option String}
    {stack : Nat → UInt8}
    (h : Lts.Reach (Session.step cs) Lts.free
      (Session.start g₀ param2 stack img.bytes) s) :
    Shaped img s.trace ∧ Always (FailEarned img) s.trace := by
  obtain ⟨t, hi, ht⟩ := h.simulates (R := Matches img)
    (matches_start g₀ param2 stack img) fun s a s' t ht hi _ hs =>
      hi.step ht hs
  exact ⟨hi.shaped ht, hi.log⟩

/-- The DATA record is answered with an error, transmitted again and
acknowledged, and the FINISH record is transmitted. -/
def retriedOnce : Session :=
  (Lts.run (Session.step .unsigned) Lts.free dataImage.session
    (sendFirst ++ readOne [0xA1, 0x02, 0, 0x02, 1, 0, 7]
      ++ [.send .tick, .send .tick, .send .tick, .send .tick,
        .send (.wrote 8)]
      ++ readOne [0xA1, 0x02, 0, 0x02, 1, 0, 0] ++ sendNext)).getD
    dataImage.session

/-- Two of one record and one of the next. -/
theorem transmitted_shape_retried :
    (sentOf retriedOnce.trace).map Prod.fst = [1, 1, 2]
      ∧ Shaped dataImage retriedOnce.trace
      ∧ Always (FailEarned dataImage) retriedOnce.trace :=
  ⟨by decide, transmitted_shape (Lts.Reach.of_isSome (by decide))⟩

end BtOta
