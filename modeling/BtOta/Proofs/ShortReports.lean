/-
Whether a report that is not complete counts as a response.

It does: hidRead looks at the number of bytes read for its sign alone,
and the bytes it did not read are the zeros it filled the buffer with.
Four bytes, up to the command, are enough. The status of such a report
reads as SUCCESS, and its sequence number, where that is missing too, as
zero, so `A1 02 00 01` acknowledges the packet outstanding
(`short_ack`).

Fewer than four bytes name no command. So the reports that do harm are
those of four to six bytes with the right RID and a command (`clipped`):
wherever hidRead waits for a report, each store that comes of it follows
a complete response if and only if the report is not one of them
(`stored_whole`).
-/
import BtOta.Proofs.Sequence

namespace BtOta

open EventLog

-- ================================================================ vocabulary

/-- The report an event reads. -/
def Event.report? : Event → Option (List UInt8)
  | .report r => some r
  | _ => none

/-- The report read last. -/
def lastReport (trace : List Event) : Option (List UInt8) :=
  (trace.filterMap Event.report?).getLast?

/-- The report names the OTA responses' RID and one of their commands,
which is what hidRead goes by. -/
def named (report : List UInt8) : Prop :=
  report.getD 1 0 = 0x02
    ∧ (report.getD 3 0 = startCmd ∨ report.getD 3 0 = dataCmd
      ∨ report.getD 3 0 = finishCmd)

/-- The report is a response, and all of it was read. -/
def whole (report : List UInt8) : Prop :=
  1 + rspCmdLen ≤ report.length ∧ named report

/-- The report ends behind the command and before the status, so it is
taken for a response and its status is filled in. -/
def clipped (report : List UInt8) : Prop :=
  4 ≤ report.length ∧ report.length ≤ 6 ∧ named report

instance (report : List UInt8) : Decidable (named report) :=
  inferInstanceAs (Decidable (_ ∧ _))

instance (report : List UInt8) : Decidable (whole report) :=
  inferInstanceAs (Decidable (_ ∧ _))

instance (report : List UInt8) : Decidable (clipped report) :=
  inferInstanceAs (Decidable (_ ∧ _))

/-- The event, if it is a store of hidRead, comes of a whole
response. -/
def StoredWhole (before : List Event) : Event → Prop
  | .stored _ _ => ∃ r ∈ lastReport before, whole r
  | _ => True

instance (before : List Event) : ∀ e, Decidable (StoredWhole before e)
  | .stored _ _ => inferInstanceAs (Decidable (∃ r ∈ lastReport before, _))
  | .log _ | .goto _ _ | .timeout _ | .tx _ _ | .report _ =>
      inferInstanceAs (Decidable True)

/-- The step reads no clipped report; whether it does depends on the
report alone. -/
def unclipped (_ : Session) : Act → Prop
  | .read (.got (some report)) => ¬ clipped report
  | _ => True

instance (s : Session) : ∀ a, Decidable (unclipped s a)
  | .read (.got (some _)) => inferInstanceAs (Decidable (¬ _))
  | .read (.got none) | .read .tick | .send _ =>
      inferInstanceAs (Decidable True)

variable {cs : CharSign} {g g' : Shared} {l l' : Sender} {es : List Event}
  {i : SIn} {j : RIn} {pc pc' : RPc} {s s' : Session}

-- ========================================================= the last report

theorem lastReport_append {trace : List Event}
    (hes : ∀ e ∈ es, e.report? = none) :
    lastReport (trace ++ es) = lastReport trace := by
  unfold lastReport
  rw [List.filterMap_append, List.filterMap_eq_nil_iff.mpr hes,
    List.append_nil]

theorem lastReport_report (trace : List Event) (r : List UInt8)
    (hes : ∀ e ∈ es, e.report? = none) :
    lastReport (trace ++ .report r :: es) = some r := by
  have hone : (Event.report r :: es).filterMap Event.report? = [r] := by
    rw [List.filterMap_cons]
    simp only [Event.report?, List.cons.injEq, true_and]
    exact List.filterMap_eq_nil_iff.mpr hes
  unfold lastReport
  rw [List.filterMap_append, hone, List.getLast?_concat]

theorem report?_log (ms : List Msg) :
    ∀ e ∈ ms.map Event.log, e.report? = none := by
  intro e he
  obtain ⟨m, -, rfl⟩ := List.mem_map.mp he
  rfl

theorem report?_verbose (g : Shared) (m : Msg) :
    ∀ e ∈ g.verbose m, e.report? = none := by
  intro e he
  rw [Shared.mem_verbose he]
  rfl

/-- A command behind byte 3 was read, not filled in, since no command is
zero. -/
theorem whole_of_named {report : List UInt8} (h : named report)
    (hclip : ¬ clipped report) : whole report := by
  refine ⟨?_, h⟩
  have hlen : 4 ≤ report.length := by
    by_contra hlt
    have hzero : report.getD 3 0 = 0 :=
      List.getD_eq_default _ _ (by omega)
    have hcmd := h.2
    rw [hzero] at hcmd
    exact absurd hcmd (by decide)
  unfold rspCmdLen
  by_contra hlt
  exact hclip ⟨hlen, by omega, h⟩

/-- hidRead stores on a response with one of the three commands. -/
theorem named_of_respond {r : List UInt8} {x : Stage} {ms : List Msg}
    (hrid : (Rsp.ofReport r).rid = 0x02)
    (h : respond cs g (Rsp.ofReport r) = some (x, ms)) : named r := by
  refine ⟨hrid, ?_⟩
  rcases respond_inv h with ⟨hc, -⟩ | ⟨hc, -, -⟩ | ⟨hc, -, -⟩ | ⟨hc, -⟩
  · exact Or.inl hc
  · exact Or.inr (Or.inl hc)
  · exact Or.inr (Or.inl hc)
  · exact Or.inr (Or.inr hc)

-- ============================================================ the invariant

/-- What a run without clipped reports keeps: what hidRead judges or
stores comes of a whole response. -/
structure WholeInv (s : Session) : Prop where
  decide : s.rdr = some .decide →
    ∃ r, lastReport s.trace = some r ∧ s.g.rspCmd = Rsp.ofReport r
      ∧ (Rsp.ofReport r).rid = 0x02 ∧ ¬ clipped r
  store : ∀ x, s.rdr = some (.store x) →
    ∃ r ∈ lastReport s.trace, whole r
  log : Always StoredWhole s.trace

theorem storedWhole_log (ms : List Msg) :
    ∀ e ∈ ms.map Event.log, ∀ before, StoredWhole before e := by
  intro e he before
  obtain ⟨m, -, rfl⟩ := List.mem_map.mp he
  trivial

theorem storedWhole_verbose (g : Shared) (m : Msg) :
    ∀ e ∈ g.verbose m, ∀ before, StoredWhole before e := by
  intro e he before
  rw [Shared.mem_verbose he]
  trivial

/-- The sender neither reads reports nor answers them, so its moves leave
all of this alone. -/
theorem WholeInv.send (hi : WholeInv s) (h : SStep cs s.g s.snd i g' l' es) :
    WholeInv
      { g := g', snd := l', rdr := Session.spawn s.rdr i
        trace := s.trace ++ es } := by
  have hreader : ∀ e ∈ es, e.report? = none
      ∧ ∀ before, StoredWhole before e := by
    intro e he
    have hno := (h.event he).fromReader
    cases e with
    | report r => cases hno
    | stored x rsp => cases hno
    | _ => exact ⟨rfl, fun _ => trivial⟩
  have hlast : lastReport (s.trace ++ es) = lastReport s.trace :=
    lastReport_append fun e he => (hreader e he).1
  refine ⟨?_, ?_, hi.log.append_of fun e he => (hreader e he).2⟩
  · intro hd
    dsimp only
    rw [hlast, h.rspCmd]
    exact hi.decide (Session.spawn_eq_some hd (by decide))
  · intro x hx
    dsimp only
    rw [hlast]
    exact hi.store x (Session.spawn_eq_some hx (by simp))

/-- hidRead's step keeps the invariant, on any report but a clipped
one. -/
theorem WholeInv.read (hi : WholeInv s) (hrdr : s.rdr = some pc)
    (hok : unclipped s (.read j)) (h : RStep cs s.g pc j g' pc' es) :
    WholeInv
      { s with g := g', rdr := some pc', trace := s.trace ++ es } := by
  cases h with
  | enter | leave | readFail | ignore | failFlag | failLog | failStop =>
      refine ⟨nofun, nofun, hi.log.append_of ?_⟩
      simp [StoredWhole]
  | report hpc r hrid =>
      have hlast := lastReport_report s.trace r
        (report?_verbose s.g (.dump (Rsp.ofReport r).bytes))
      refine ⟨fun _ => ⟨r, hlast, rfl, hrid, hok⟩, nofun, ?_⟩
      refine hi.log.append_of fun e he before => ?_
      rcases List.mem_cons.mp he with rfl | he
      · trivial
      · exact storedWhole_verbose _ _ e he before
  | stray hpc r hrid =>
      refine ⟨nofun, nofun, hi.log.append_of fun e he before => ?_⟩
      rcases List.mem_cons.mp he with rfl | he
      · trivial
      · exact storedWhole_verbose _ _ e he before
  | @decide hpc x ms hx =>
      obtain ⟨r, hr, hrsp, hrid, hclip⟩ :=
        hi.decide (hrdr.trans (congrArg some hpc))
      rw [hrsp] at hx
      refine ⟨nofun, fun y _ => ?_, hi.log.append_of (storedWhole_log ms)⟩
      dsimp only
      rw [lastReport_append (report?_log ms)]
      exact ⟨r, hr, whole_of_named (named_of_respond hrid hx) hclip⟩
  | @store x hpc =>
      have hst := hi.store x (hrdr.trans (congrArg some hpc))
      exact ⟨nofun, nofun, always_snoc.mpr ⟨hi.log, hst⟩⟩

theorem WholeInv.of_reach {s₀ : Session} (h₀ : WholeInv s₀)
    (h : Lts.Reach (Session.step cs) unclipped s₀ s) : WholeInv s := by
  refine h.invariant (I := WholeInv) h₀ ?_
  intro s a s' hi hok hs
  cases Session.step_inv hs with
  | send hm => exact hi.send hm
  | read hrdr hm => exact hi.read hrdr hok hm

-- ================================================================ the result

theorem step_decide {x : Stage} {ms : List Msg}
    (hrdr : s.rdr = some .decide)
    (hx : respond cs s.g s.g.rspCmd = some (x, ms)) :
    Session.step cs s (.read .tick)
      = some { s with
          g := { s.g with otaStatus := cs.promote s.g.rspCmd.stat }
          rdr := some (.store x), trace := s.trace ++ ms.map .log } := by
  simp [Session.step, hrdr, hidRead, hx]

theorem step_store {x : Stage} (hrdr : s.rdr = some (.store x)) :
    Session.step cs s (.read .tick)
      = some { s with
          g := { s.g with otaStage := x }, rdr := some .test
          trace := s.trace ++ [.stored x s.g.rspCmd] } := by
  simp [Session.step, hrdr, hidRead]

/-- A response with a command comes to a store, if nothing intervenes:
two steps of hidRead. -/
theorem stores_of_decide (hrdr : s.rdr = some .decide)
    {report : List UInt8} (hrsp : s.g.rspCmd = Rsp.ofReport report)
    (hlast : lastReport s.trace = some report) (hn : named report) :
    ∃ s' before x rsp, Lts.Reach (Session.step cs) unclipped s s'
      ∧ s'.trace = before ++ [.stored x rsp]
      ∧ lastReport before = some report := by
  have hanswers : (respond cs s.g s.g.rspCmd).isSome = true :=
    respond_isSome s.g (hrsp ▸ hn.2)
  obtain ⟨⟨x, ms⟩, hx⟩ := Option.isSome_iff_exists.mp hanswers
  have hstart : Lts.Reach (Session.step cs) unclipped s s := .refl s
  have hdecide := hstart.tail (a := Act.read .tick) trivial
    (step_decide hrdr hx)
  refine ⟨_, _, x, _, hdecide.tail (a := .read .tick) ?_ (step_store rfl),
    rfl, ?_⟩
  · trivial
  rw [lastReport_append (report?_log ms)]
  exact hlast

/-- A report with the right RID is acted on. -/
theorem decides_of_named {report : List UInt8} (hn : named report)
    (hs : Session.step cs s (.read (.got (some report))) = some s') :
    s'.rdr = some .decide ∧ s'.g.rspCmd = Rsp.ofReport report
      ∧ lastReport s'.trace = some report := by
  cases Session.step_inv hs with
  | read hrdr hm =>
      cases hm with
      | stray hpc r hrid => exact absurd hn.1 hrid
      | report hpc r hrid =>
          exact ⟨rfl, rfl, lastReport_report _ report (report?_verbose _ _)⟩

/-- Between two responses there is nothing to keep but the log, so a run
may be taken up there. -/
theorem wholeInv_idle (hd : s.rdr ≠ some .decide)
    (hst : ∀ x, s.rdr ≠ some (.store x)) (hlog : Always StoredWhole s.trace) :
    WholeInv s where
  decide := fun h => absurd h hd
  store := fun x h => absurd h (hst x)
  log := hlog

/-- Wherever hidRead waits for a report and has stored nothing without a
whole response so far, the report it reads leads to no such store, up to
the next clipped report, if and only if it is not clipped itself. In
particular a run that reads no clipped report stores nothing without a
whole response. -/
theorem stored_whole (cs : CharSign) :
    (∀ g₀ param2 stack s, Lts.Reach (Session.step cs) unclipped
        (Session.call g₀ param2 stack) s →
      Always StoredWhole s.trace)
    ∧ ∀ s s₁ report, Always StoredWhole s.trace →
        Session.step cs s (.read (.got (some report))) = some s₁ →
        ((∀ s', Lts.Reach (Session.step cs) unclipped s₁ s' →
          Always StoredWhole s'.trace) ↔ ¬ clipped report) := by
  refine ⟨?_, ?_⟩
  · intro g₀ param2 stack s h
    refine (WholeInv.of_reach (wholeInv_idle ?_ ?_ (always_nil _)) h).log
    · simp [Session.call]
    · simp [Session.call]
  intro s s₁ report hlog hs
  constructor
  · intro hall hclip
    obtain ⟨hrdr, hrsp, hread⟩ := decides_of_named hclip.2.2 hs
    obtain ⟨s₂, before, x, rsp, hr, htrace, hlast⟩ :=
      stores_of_decide hrdr hrsp hread hclip.2.2
    obtain ⟨r, hr', hwhole⟩ := hall s₂ hr before _ [] htrace
    cases hlast.symm.trans hr'
    have hlen := hwhole.1
    unfold rspCmdLen at hlen
    exact absurd hclip.2.1 (by omega)
  · intro hclip s' h
    cases Session.step_inv hs with
    | read hrdr hm =>
        have hpc : s.rdr = some .read := by
          cases hm with
          | report hpc r hrid => exact hrdr.trans (congrArg some hpc)
          | stray hpc r hrid => exact hrdr.trans (congrArg some hpc)
        have hi : WholeInv s :=
          wholeInv_idle (by simp [hpc]) (by simp [hpc]) hlog
        have hok : unclipped s (.read (.got (some report))) := hclip
        exact (WholeInv.of_reach (hi.read hrdr hok hm) h).log

-- ============================================================== two reports

/-- The first call of ota_update. -/
def firstCall : Session := Session.call Shared.loaded none fun _ => 0

/-- The image's first packet is written, and hidRead waits. -/
def firstWritten : Session :=
  (Lts.run (Session.step .unsigned) unclipped firstCall
    ([.send .tick, .send (.opened (some dataImage.bytes))] ++ sendFirst
      ++ [.read .tick])).getD firstCall

/-- It reads the whole response. -/
def wholeRead : Session :=
  (Session.step .unsigned firstWritten
    (.read (.got (some [0xA1, 0x02, 0, 0x02, 1, 0, 0])))).getD firstWritten

/-- A whole response is stored, and nothing else. -/
theorem stored_whole_answered :
    Always StoredWhole firstWritten.trace
      ∧ ((∀ s', Lts.Reach (Session.step .unsigned) unclipped wholeRead s' →
          Always StoredWhole s'.trace)
        ↔ ¬ clipped [0xA1, 0x02, 0, 0x02, 1, 0, 0]) := by
  have hall := stored_whole .unsigned
  have hrun : Lts.Reach (Session.step .unsigned) unclipped firstCall
      firstWritten := Lts.Reach.of_isSome (by decide)
  have hlog : Always StoredWhole firstWritten.trace := hall.1 _ _ _ _ hrun
  have hread : Session.step .unsigned firstWritten
      (.read (.got (some [0xA1, 0x02, 0, 0x02, 1, 0, 0])))
        = some wholeRead := by rfl
  exact ⟨hlog, hall.2 _ _ _ hlog hread⟩

/-- Four bytes of a START response: report type, RID, data type and
command. -/
def fourBytes : List UInt8 := [0xA1, 0x02, 0, 0x01]

/-- They are read, and STAGE_NEXT_CMD is stored. -/
def fourBytesRead : Session :=
  (Lts.run (Session.step .unsigned) Lts.free firstCall
    ([.send .tick, .send (.opened (some dataImage.bytes))] ++ sendFirst
      ++ readOne fourBytes)).getD firstCall

/-- Four bytes acknowledge the packet outstanding. -/
theorem short_ack :
    ¬ ∀ (cs : CharSign) (g₀ : Shared) (param2 : Option String)
        (stack : Nat → UInt8) (s : Session),
      Lts.Reach (Session.step cs) Lts.free
        (Session.call g₀ param2 stack) s →
      Always StoredWhole s.trace := by
  intro h
  have hrun : Lts.Reach (Session.step .unsigned) Lts.free firstCall
      fourBytesRead := Lts.Reach.of_isSome (by decide)
  exact absurd (h _ _ _ _ _ hrun) (by decide)

end BtOta
