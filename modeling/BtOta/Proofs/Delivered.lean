/-
What "Success" on the screen means for the device.

`shown_result` traces it back to a response, and `Link` knows what a
success means to the device of one session. In between lies the
process: sessions that follow one another over one channel, on which
answers to an earlier one may still be on their way. Each session of an
app whose sessions are joined is a run of `Link` on the parcels of its
own call (`FairInv`), as long as its reader reads only answers to its
own packets; what is left of an earlier session may be answered late or
lost. So where the device is honest about each image, the screen says
"Success" only when there is a session that has transmitted its whole
image, each packet of which the device has answered with SUCCESS
(`shown_delivered`).

Without the last condition it may say so of an image that the device
refuses: a FINISH response left from an earlier session completes a
later one.
-/
import BtOta.Proofs.Chain
import BtOta.Proofs.EndToEnd
import BtOta.Proofs.Loading
import BtOta.Proofs.Shown
import BtOta.World

namespace BtOta

variable {cs : CharSign} {g g' : Shared} {l l' : Sender} {es : List Event}
  {i : SIn} {img : Image} {s s' : Session}

-- ================================================================== parcels

theorem parcelsOf_append (k : Nat) (ts us : List Parcel) :
    parcelsOf k (ts ++ us) = parcelsOf k ts ++ parcelsOf k us := by
  simp [parcelsOf]

theorem parcelsOf_cons_self (t : Parcel) (ts : List Parcel) :
    parcelsOf t.call (t :: ts) = (t.num, t.bytes) :: parcelsOf t.call ts := by
  simp [parcelsOf]

theorem parcelsOf_cons_of_ne {k : Nat} {t : Parcel} (h : t.call ≠ k)
    (ts : List Parcel) : parcelsOf k (t :: ts) = parcelsOf k ts := by
  simp [parcelsOf, h]

/-- A parcel lost is lost to its own call. -/
theorem parcelsOf_eraseIdx (k : Nat) {n : Nat} {ts : List Parcel}
    (hn : n < ts.length) :
    parcelsOf k (ts.eraseIdx n) = parcelsOf k ts
      ∨ ∃ m, m < (parcelsOf k ts).length
        ∧ parcelsOf k (ts.eraseIdx n) = (parcelsOf k ts).eraseIdx m := by
  induction ts generalizing n with
  | nil => cases hn
  | cons t ts ih =>
      cases n with
      | zero =>
          rw [List.eraseIdx_cons_zero]
          by_cases hk : t.call = k
          · subst hk
            rw [parcelsOf_cons_self]
            exact Or.inr ⟨0, Nat.succ_pos _, rfl⟩
          · rw [parcelsOf_cons_of_ne hk]
            exact Or.inl rfl
      | succ n =>
          rw [List.eraseIdx_cons_succ]
          have hn' : n < ts.length := Nat.lt_of_succ_lt_succ hn
          by_cases hk : t.call = k
          · subst hk
            rw [parcelsOf_cons_self, parcelsOf_cons_self]
            rcases ih hn' with heq | ⟨m, hm, heq⟩
            · exact Or.inl (by rw [heq])
            · exact Or.inr ⟨m + 1, Nat.succ_lt_succ hm, by
                rw [heq, List.eraseIdx_cons_succ]⟩
          · rw [parcelsOf_cons_of_ne hk, parcelsOf_cons_of_ne hk]
            exact ih hn'

-- ============================================================== one session

/-- A session that has succeeded has succeeded: no step leads back from
behind FLAG_OTA_SUCCESS. -/
theorem SStep.succeeds_on (h : SStep cs g l i g' l' es)
    (hs : l.pc.succeeding = true) : l'.pc.succeeding = true := by
  cases h with
  | @flag v pc | @verdict v pc | @stop v pc | @quitThread v pc
  | @quitServ v pc =>
      rw [pc] at hs
      cases v with
      | success => rfl
      | fail => cases hs
  | init pc | openFail pc | opened pc | openOver pc | created pc | next pc
  | newStage pc | assemble pc | crash pc | retry pc | giveUp pc | wrote pc
  | writeFail pc | poll pc | timeout pc | nextHit pc | nextMiss pc
  | errHit pc | errMiss pc | completeHit pc | completeMiss pc =>
      rw [pc] at hs
      cases hs

theorem SPc.succeeding_of_failing {pc : SPc} (h : pc.failing = true) :
    pc.succeeding = false := by
  unfold SPc.failing at h
  split at h <;> first | rfl | cases h

/-- A session that has announced success is behind FLAG_OTA_SUCCESS, so
the log line is as good as the place. -/
theorem succeeding_of_otaEnd {g₀ : Shared} {param2 : Option String}
    {stack : Nat → UInt8}
    (h : Lts.Reach (Session.step cs) Lts.free
      (Session.call g₀ param2 stack) s) (he : .log .otaEnd ∈ s.trace) :
    s.snd.pc.succeeding = true := by
  refine h.invariant
    (I := fun s => .log .otaEnd ∈ s.trace → s.snd.pc.succeeding = true)
    nofun ?_ he
  intro s a s' hi _ hs he
  cases Session.step_inv hs with
  | send hm =>
      rcases List.mem_append.mp he with he | he
      · exact hm.succeeds_on (hi he)
      · exact hm.succeeds_on (hm.otaEnd he)
  | read hrdr hm =>
      rcases List.mem_append.mp he with he | he
      · exact hi he
      · exact absurd he hm.otaEnd

/-- The parcels of a session: what it has under way in each direction,
what it has sent, and what has been answered. -/
structure Ends where
  up : List (Nat × List UInt8)
  down : List (Nat × List UInt8)
  sent : List (Nat × List UInt8)
  answered : List (Nat × List UInt8)

def Ends.none : Ends := ⟨[], [], [], []⟩

/-- The parcels of a link, without the session. -/
def Link.ends (l : Link) : Ends :=
  ⟨l.up, l.down, sentOf l.s.trace, l.answered⟩

/-- What a session is to its parcels: it is about to load its file, it
has failed, or it is a link to an honest device. -/
inductive Tied (cs : CharSign) (img : Image) (e : Ends) (s : Session) : Prop
  | loading {g₀ : Shared} {param2 : Option String} {stack : Nat → UInt8}
      (h : Session.step cs (Session.call g₀ param2 stack) (.send .tick)
        = some s)
      (hnone : e = Ends.none)
  | failing (h : s.snd.pc.failing = true)
  | linked {g₀ : Shared} {param2 : Option String} {stack : Nat → UInt8}
      {l : Link}
      (h : Lts.Reach (Link.step cs) (Link.honest img)
        (Link.start g₀ param2 stack img.bytes) l)
      (hs : l.s = s) (he : l.ends = e)

section Tied

variable {e : Ends}

/-- The session is at fopen. -/
theorem load_of_step {g₀ : Shared} {param2 : Option String}
    {stack : Nat → UInt8}
    (h : Session.step cs (Session.call g₀ param2 stack) (.send .tick)
      = some s) : s.snd.pc = .load ∧ s.rdr = none := by
  cases h
  exact ⟨rfl, rfl⟩

/-- The session behind its file. -/
theorem start_of_steps {g₀ : Shared} {param2 : Option String}
    {stack : Nat → UInt8} {file : List UInt8}
    (hfit : file.length ≤ fwBufSize)
    (h : Session.step cs (Session.call g₀ param2 stack) (.send .tick)
      = some s)
    (hs : Session.step cs s (.send (.opened (some file))) = some s') :
    s' = Session.start g₀ param2 stack file := by
  have hrun := Session.run_start cs g₀ param2 stack hfit
  simp only [Lts.run, Lts.free, if_true, h, hs] at hrun
  exact Option.some.inj hrun

/-- A step of the sender, which writes at most one packet; a file that is
opened makes the session a link. -/
theorem Tied.send (hi : Tied cs img e s)
    (hopens : ∀ bytes, i = .opened (some bytes) → bytes = img.bytes)
    (hs : Session.step cs s (.send i) = some s') :
    Tied cs img
      { e with
        up := e.up ++ Link.written s i, sent := e.sent ++ Link.written s i }
      s' := by
  cases hi with
  | @loading g₀ param2 stack h hnone =>
      -- the file is not read yet: this step opens it, or fails
      have hpc := (load_of_step h).1
      cases Session.step_inv hs with
      | send hm =>
          cases hm with
          | openFail pc => exact .failing rfl
          | opened pc file hfit =>
              have hfile := hopens file rfl
              subst hfile
              have hstart := start_of_steps hfit h hs
              refine .linked (Lts.Reach.refl _) hstart.symm ?_
              rw [hnone, Link.ends]
              simp only [Link.start]
              rw [sentOf_quiet (Session.start_quiet g₀ param2 stack img.bytes)]
              rfl
          | openOver pc file hfit =>
              -- an image is never larger than fw_data_buf
              have hfile := hopens file rfl
              subst hfile
              exact absurd img.fits hfit
          | init pc | created pc | next pc | newStage pc | assemble pc
          | crash pc | retry pc | giveUp pc | wrote pc | writeFail pc
          | poll pc | timeout pc | nextHit pc | nextMiss pc | errHit pc
          | errMiss pc | completeHit pc | completeMiss pc | flag pc
          | verdict pc | stop pc | quitThread pc | quitServ pc =>
              cases hpc.symm.trans pc
  | failing h =>
      cases Session.step_inv hs with
      | send hm => exact .failing (hm.fails_on h).1
  | @linked g₀ param2 stack l h hl he =>
      -- from here on the session and its channels move as a link does
      subst hl he
      have hstep : Link.step cs l (.send i)
          = some { l with s := s', up := l.up ++ Link.written l.s i } := by
        rw [Link.step, hs]
        rfl
      refine .linked (h.tail (a := .send i) trivial hstep) rfl ?_
      have hopened := (Link.EndInv.of_reach h).2.cursor.loaded.opened
      cases Session.step_inv hs with
      | send hm =>
          rw [Link.ends, sentOf_append, hm.written hopened]
          rfl

/-- hidRead writes nothing and leaves the sender alone. -/
theorem read_spec {b : RIn} (hs : Session.step cs s (.read b) = some s') :
    s.rdr ≠ none ∧ s'.snd = s.snd ∧ sentOf s'.trace = sentOf s.trace := by
  cases Session.step_inv hs with
  | read hrdr hm =>
      refine ⟨by rw [hrdr]; nofun, rfl, ?_⟩
      show sentOf (s.trace ++ _) = _
      rw [sentOf_append, hm.sentOf, List.append_nil]

/-- A step of hidRead that brings no report, so nothing is taken from the
channel. -/
theorem Tied.read {b : RIn} (hi : Tied cs img e s)
    (hb : ∀ r, b ≠ .got (some r))
    (hs : Session.step cs s (.read b) = some s') : Tied cs img e s' := by
  obtain ⟨hrdr, hsnd, hsent⟩ := read_spec hs
  cases hi with
  | loading h => exact absurd (load_of_step h).2 hrdr
  | failing h => exact .failing (hsnd ▸ h)
  | @linked g₀ param2 stack l h hl he =>
      subst hl he
      have hends : Link.ends { l with s := s' } = l.ends := by
        rw [Link.ends, hsent]
        rfl
      have hstep := congrArg (Option.map fun s' => { l with s := s' }) hs
      cases b with
      | tick => exact .linked (h.tail (a := .tick) trivial hstep) rfl hends
      | got r =>
          cases r with
          | some r => exact absurd rfl (hb r)
          | none =>
              exact .linked (h.tail (a := .readFail) trivial hstep) rfl hends

/-- hidRead reads the oldest answer, which the guard has made one of its
own session's. -/
theorem Tied.deliver {n : Nat} {r : List UInt8}
    {rest : List (Nat × List UInt8)} (hi : Tied cs img e s)
    (hdown : e.down = (n, r) :: rest)
    (hs : Session.step cs s (.read (.got (some r))) = some s') :
    Tied cs img { e with down := rest } s' := by
  obtain ⟨hrdr, hsnd, hsent⟩ := read_spec hs
  cases hi with
  | loading h => exact absurd (load_of_step h).2 hrdr
  | failing h => exact .failing (hsnd ▸ h)
  | @linked g₀ param2 stack l h hl he =>
      subst hl he
      have hstep : Link.step cs l .deliver
          = some { l with s := s', down := rest, held := n } := by
        simp only [Link.step, show l.down = _ from hdown, hs,
          Option.map_some]
      refine .linked (h.tail (a := .deliver) trivial hstep) rfl ?_
      rw [Link.ends, hsent]
      rfl

/-- The device answers the oldest transmission, as honestly as the link's
guard asks of it. -/
theorem Tied.answer {n : Nat} {p r : List UInt8}
    {rest : List (Nat × List UInt8)} (hi : Tied cs img e s)
    (hup : e.up = (n, p) :: rest) (hans : isAnswer p r = true)
    (hno : (Rsp.ofReport r).stat ≠ 2)
    (hok : (Rsp.ofReport r).cmd = finishCmd → (Rsp.ofReport r).stat = 0 →
      ∀ q ∈ img.packets, (∃ t ∈ e.answered, t.1 = q.1
        ∧ (Rsp.ofReport t.2).stat = 0) ∨ n = q.1) :
    Tied cs img
      { e with
        up := rest
        down := e.down ++ [(n, r)]
        answered := e.answered ++ [(n, r)] } s := by
  cases hi with
  | loading h hnone =>
      subst hnone
      cases hup
  | failing h => exact .failing h
  | @linked g₀ param2 stack l h hl he =>
      subst hl he
      have hup' : l.up = (n, p) :: rest := hup
      have hstep : Link.step cs l (.answer r) = some { l with
          up := rest
          down := l.down ++ [(n, r)]
          answered := l.answered ++ [(n, r)] } := by
        simp only [Link.step, hup', if_pos hans]
      refine .linked (h.tail (a := .answer r) ⟨hno, ?_⟩ hstep) rfl rfl
      intro hcmd hzero q hq
      rw [hup']
      exact (hok hcmd hzero q hq).imp id (congrArg some)

/-- The oldest transmission is lost. -/
theorem Tied.lose {t : Nat × List UInt8} {rest : List (Nat × List UInt8)}
    (hi : Tied cs img e s) (hup : e.up = t :: rest) :
    Tied cs img { e with up := rest } s := by
  cases hi with
  | loading h hnone =>
      subst hnone
      cases hup
  | failing h => exact .failing h
  | @linked g₀ param2 stack l h hl he =>
      subst hl he
      have hstep : Link.step cs l .lose = some { l with up := rest } := by
        simp only [Link.step, show l.up = _ from hup]
      exact .linked (h.tail (a := .lose) trivial hstep) rfl rfl

/-- An answer is lost on its way. -/
theorem Tied.drop {n : Nat} (hi : Tied cs img e s)
    (hn : n < e.down.length) :
    Tied cs img { e with down := e.down.eraseIdx n } s := by
  cases hi with
  | loading h hnone =>
      subst hnone
      cases hn
  | failing h => exact .failing h
  | @linked g₀ param2 stack l h hl he =>
      subst hl he
      have hstep : Link.step cs l (.drop n)
          = some { l with down := l.down.eraseIdx n } := if_pos hn
      exact .linked (h.tail (a := .drop n) trivial hstep) rfl rfl

end Tied

-- ============================================================ what is assumed

namespace World

/-- The device has answered SUCCESS to a transmission of packet `n` of
call `k`, whether or not the answer arrived. -/
def acked (w : World) (k n : Nat) : Prop :=
  ∃ t ∈ w.answered, t.call = k ∧ t.num = n ∧ (Rsp.ofReport t.bytes).stat = 0

instance (w : World) (k n : Nat) : Decidable (w.acked k n) :=
  inferInstanceAs (Decidable (∃ _ ∈ w.answered, _))

/-- A file that is opened holds the call's image: what the user picked is
well formed. -/
def opens (files : Nat → Image) : PAct → Prop
  | .send k (.opened (some bytes)) => bytes = (files k).bytes
  | _ => True

/-- The device does not say NO_NEED_UPDATE, and it answers a call's
FINISH record with SUCCESS only where that leaves no record of the
call's image without such an answer. -/
def honest (files : Nat → Image) (w : World) (r : List UInt8) : Prop :=
  (Rsp.ofReport r).stat ≠ 2
    ∧ ((Rsp.ofReport r).cmd = finishCmd → (Rsp.ofReport r).stat = 0 →
      ∀ t ∈ w.up.head?, ∀ q ∈ (files t.call).packets,
        w.acked t.call q.1 ∨ t.num = q.1)

/-- Sessions in turn, each of an image, whose readers read answers to
their own packets, and an honest device. -/
def fair (files : Nat → Image) (w : World) : WAct → Prop
  | .app (.native _ _) => ∀ l ∈ w.c.u.proc.calls, l.returned = true
  | .app (.proc a) => Proc.joined w.c.u.proc a ∧ opens files a
  | .deliver j =>
      ∀ t ∈ w.down.head?, ∀ r ∈ w.c.u.proc.rdrs[j]?, r.1 = t.call
  | .answer r => honest files w r
  | _ => True

instance (files : Nat → Image) : ∀ a, Decidable (opens files a)
  | .send _ (.opened (some _)) => inferInstanceAs (Decidable (_ = _))
  | .send _ (.opened none) | .send _ .tick | .send _ (.created _)
  | .send _ (.wrote _) | .call _ _ | .read _ _ =>
      inferInstanceAs (Decidable True)

instance (files : Nat → Image) (w : World) (r : List UInt8) :
    Decidable (honest files w r) :=
  inferInstanceAs (Decidable (_ ∧ (_ → _ → ∀ t ∈ w.up.head?,
    ∀ q ∈ (files t.call).packets, _)))

instance (files : Nat → Image) (w : World) : ∀ a, Decidable (fair files w a)
  | .app (.native _ _) => inferInstanceAs (Decidable (∀ _ ∈ _, _))
  | .app (.proc _) => inferInstanceAs (Decidable (_ ∧ _))
  | .deliver _ => inferInstanceAs (Decidable (∀ t ∈ _, ∀ r ∈ _, _))
  | .answer r => inferInstanceAs (Decidable (honest files w r))
  | .app .start | .app .clean | .app (.verboseLog _) | .app (.selected _)
  | .app .canceled | .app (.worker _ _) | .app (.line _) | .app .handle
  | .app (.flag _) | .app (.clear _) | .app (.logcat _) | .lose | .drop _ =>
      inferInstanceAs (Decidable True)

-- ============================================================ the invariant

/-- The parcels of call `k`. -/
def ends (w : World) (k : Nat) : Ends :=
  ⟨parcelsOf k w.up, parcelsOf k w.down, parcelsOf k w.sent,
    parcelsOf k w.answered⟩

/-- What a fair run keeps: the process has gone through sessions, and
each of them is tied to its parcels. -/
structure FairInv (cs : CharSign) (files : Nat → Image) (w : World)
    (ss : List Session) : Prop where
  gone : GoneThrough cs ss w.c.u.proc
  tied : ∀ k s, ss[k]? = some s → Tied cs (files k) (w.ends k) s
  fresh : ∀ k, ss.length ≤ k → w.ends k = Ends.none

variable {files : Nat → Image} {w w' : World} {ss init : List Session}

/-- The last session and its parcels move on, and those of the others
stay as they are. -/
theorem FairInv.moved (hi : FairInv cs files w (init ++ [s]))
    (hgone : GoneThrough cs (init ++ [s']) w'.c.u.proc)
    (hself : Tied cs (files init.length) (w.ends init.length) s →
      Tied cs (files init.length) (w'.ends init.length) s')
    (hothers : ∀ k, k ≠ init.length → w'.ends k = w.ends k) :
    FairInv cs files w' (init ++ [s']) := by
  refine ⟨hgone, ?_, ?_⟩
  · intro k t hk
    rcases Threads.snoc_inv hk with hk | ⟨rfl, rfl⟩
    · have hne : k ≠ init.length :=
        Nat.ne_of_lt (List.getElem?_eq_some_iff.mp hk).1
      rw [hothers k hne]
      exact hi.tied k t (Threads.snoc hk)
    · exact hself (hi.tied _ s List.getElem?_concat_length)
  · intro k hk
    have hne : k ≠ init.length := by
      rintro rfl
      rw [List.length_append, List.length_singleton] at hk
      omega
    rw [hothers k hne]
    exact hi.fresh k (by simpa using hk)

/-- The channel or the device moves on, and a call it has nothing of is
none of its business. -/
theorem FairInv.channel (hi : FairInv cs files w ss) (hc : w'.c = w.c)
    (hends : ∀ k, w'.ends k = w.ends k ∨ w.ends k ≠ Ends.none
      ∧ ∀ s, Tied cs (files k) (w.ends k) s →
        Tied cs (files k) (w'.ends k) s) :
    FairInv cs files w' ss := by
  refine ⟨hc ▸ hi.gone, ?_, ?_⟩
  · intro k s hk
    rcases hends k with heq | ⟨-, htied⟩
    · rw [heq]
      exact hi.tied k s hk
    · exact htied s (hi.tied k s hk)
  · intro k hk
    rcases hends k with heq | ⟨hsome, -⟩
    · rw [heq]
      exact hi.fresh k hk
    · exact absurd (hi.fresh k hk) hsome

/-- What the last session writes goes out under its number, as `Link` has
it without one. -/
theorem written_eq (hgone : GoneThrough cs (init ++ [s]) w.c.u.proc)
    (i : SIn) :
    written w.c.u.proc (.proc (.send init.length i))
      = (Link.written s i).map fun t => ⟨init.length, t.1, t.2⟩ := by
  obtain ⟨-, hg, -⟩ := hgone.chain.last_inv
  obtain ⟨snds, hcalls, -⟩ := hgone.calls
  have hcall : w.c.u.proc.calls[init.length]? = some s.snd := by
    rw [hcalls, List.map_append, List.map_singleton, List.append_assoc,
      List.singleton_append, List.getElem?_append_right (by simp)]
    simp
  cases i with
  | wrote res =>
      simp only [written, hcall, Link.written, hg]
      split <;> rfl
  | tick | opened | created => rfl

theorem parcelsOf_written (k n : Nat) (ts : List (Nat × List UInt8)) :
    parcelsOf n (ts.map fun t => ⟨k, t.1, t.2⟩) = if n = k then ts else [] := by
  rw [parcelsOf, List.filter_map, List.map_map]
  split
  case isTrue heq =>
    subst heq
    rw [List.filter_eq_self.mpr (by simp)]
    exact List.map_id ts
  case isFalse hne =>
    rw [List.filter_eq_nil_iff.mpr (by simp [Ne.symm hne])]
    rfl

theorem FairInv.send {k : Nat} {i : SIn} {c : Console}
    (hi : FairInv cs files w ss)
    (hok : fair files w (.app (.proc (.send k i))))
    (h : Proc.step cs w.c.u.proc (.send k i) = some c.u.proc) :
    ∃ ss', Turn cs w.c.u.proc ss (.send k i) ss' ∧ FairInv cs files
      { w with
        c := c
        up := w.up ++ written w.c.u.proc (.proc (.send k i))
        sent := w.sent ++ written w.c.u.proc (.proc (.send k i)) } ss' := by
  obtain ⟨ss', hturn, hgone⟩ := hi.gone.step hok.1 h
  refine ⟨ss', hturn, ?_⟩
  cases hturn with
  | @begin param2 stack s hs =>
      have hends : ∀ k, ({ w with
            c := c, up := w.up ++ [], sent := w.sent ++ [] } : World).ends k
          = w.ends k := by
        intro k
        simp only [List.append_nil]
        rfl
      refine ⟨hgone, ?_, ?_⟩
      · intro k t hk
        refine (hends k).symm ▸ ?_
        rcases Threads.snoc_inv hk with hk | ⟨rfl, rfl⟩
        · exact hi.tied k t hk
        · exact .loading hs (hi.fresh _ (Nat.le_refl _))
      · intro k hk
        rw [List.length_append, List.length_singleton] at hk
        exact (hends k).trans (hi.fresh k (by omega))
  | @send init s s' i hss hs =>
      subst hss
      have hwritten := written_eq hi.gone i
      refine hi.moved hgone ?_ ?_
      · intro htied
        have hopens : ∀ bytes, i = .opened (some bytes) →
            bytes = (files init.length).bytes := by
          rintro bytes rfl
          exact hok.2
        have hsend := htied.send hopens hs
        simp only [ends, hwritten, parcelsOf_append, parcelsOf_written,
          if_true]
        exact hsend
      · intro n hn
        simp only [ends, hwritten, parcelsOf_append, parcelsOf_written,
          if_neg hn, List.append_nil]

theorem FairInv.read {j : Nat} {b : RIn} {c : Console}
    (hi : FairInv cs files w ss)
    (hok : Proc.joined w.c.u.proc (.read j b)) (hb : ∀ r, b ≠ .got (some r))
    (h : Proc.step cs w.c.u.proc (.read j b) = some c.u.proc) :
    ∃ ss', Turn cs w.c.u.proc ss (.read j b) ss'
      ∧ FairInv cs files { w with c := c } ss' := by
  obtain ⟨ss', hturn, hgone⟩ := hi.gone.step hok h
  refine ⟨ss', hturn, ?_⟩
  cases hturn with
  | @read init s s' j pc b hss hj hs =>
      subst hss
      exact hi.moved hgone (fun htied => htied.read hb hs) fun k _ => rfl

/-- The answer read is the oldest of the last session's, so its link can
take the same step. -/
theorem FairInv.deliver {j : Nat} {t : Parcel} {rest : List Parcel}
    {c : Console} (hi : FairInv cs files w ss)
    (hdown : w.down = t :: rest) (hok : fair files w (.deliver j))
    (h : Proc.step cs w.c.u.proc (.read j (.got (some t.bytes)))
      = some c.u.proc) :
    ∃ ss', Turn cs w.c.u.proc ss (.read j (.got (some t.bytes))) ss'
      ∧ FairInv cs files { w with c := c, down := rest } ss' := by
  have hjoined : Proc.joined w.c.u.proc (.read j (.got (some t.bytes))) :=
    ⟨trivial, fun k hk => by cases hk⟩
  obtain ⟨ss', hturn, hgone⟩ := hi.gone.step hjoined h
  refine ⟨ss', hturn, ?_⟩
  cases hturn with
  | @read init s s' j pc b hss hj hs =>
      subst hss
      have hcall : init.length = t.call := by
        refine hok t ?_ (init.length, pc) hj
        rw [hdown]
        rfl
      have hends : ∀ k, k ≠ t.call →
          parcelsOf k rest = parcelsOf k w.down := by
        intro k hk
        rw [hdown, parcelsOf_cons_of_ne (Ne.symm hk)]
      have hself : (w.ends t.call).down
          = (t.num, t.bytes) :: parcelsOf t.call rest := by
        rw [ends, hdown, parcelsOf_cons_self]
      refine hi.moved hgone ?_ ?_
      · intro htied
        rw [hcall] at htied ⊢
        exact htied.deliver hself hs
      · intro k hk
        rw [hcall] at hk
        simp only [ends, hends k hk]

/-- The device is honest to each call, so the call whose packet it
answers has an honest device. -/
theorem FairInv.answer {t : Parcel} {rest : List Parcel} {r : List UInt8}
    (hi : FairInv cs files w ss) (hup : w.up = t :: rest)
    (hans : isAnswer t.bytes r = true) (hok : honest files w r) :
    FairInv cs files
      { w with
        up := rest
        down := w.down ++ [⟨t.call, t.num, r⟩]
        answered := w.answered ++ [⟨t.call, t.num, r⟩] } ss := by
  have hself : (w.ends t.call).up
      = (t.num, t.bytes) :: parcelsOf t.call rest := by
    rw [ends, hup, parcelsOf_cons_self]
  refine hi.channel rfl fun k => ?_
  by_cases hk : k = t.call
  · subst hk
    refine Or.inr ⟨fun hnone => ?_, fun s htied => ?_⟩
    · rw [hnone] at hself
      cases hself
    · have hanswer := htied.answer hself hans hok.1 ?_
      · have hone : ∀ ts : List Parcel,
            parcelsOf t.call (ts ++ [⟨t.call, t.num, r⟩])
              = parcelsOf t.call ts ++ [(t.num, r)] := by
          intro ts
          rw [parcelsOf_append]
          exact congrArg _ (parcelsOf_cons_self _ [])
        simp only [ends, hone]
        exact hanswer
      · intro hcmd hzero q hq
        rcases hok.2 hcmd hzero t (by rw [hup]; rfl) q hq with hack | hnum
        · obtain ⟨u, hu, hcall, hnum, hstat⟩ := hack
          refine Or.inl ⟨(u.num, u.bytes), ?_, hnum, hstat⟩
          exact List.mem_map_of_mem
            (List.mem_filter.mpr ⟨hu, decide_eq_true hcall⟩)
        · exact Or.inr hnum
  · have hnone : ∀ ts : List Parcel,
        parcelsOf k (ts ++ [⟨t.call, t.num, r⟩]) = parcelsOf k ts := by
      intro ts
      have hne : (⟨t.call, t.num, r⟩ : Parcel).call ≠ k := Ne.symm hk
      rw [parcelsOf_append, parcelsOf_cons_of_ne hne]
      exact List.append_nil _
    refine Or.inl ?_
    simp only [ends, hnone, hup, parcelsOf_cons_of_ne (Ne.symm hk)]

theorem FairInv.lose {t : Parcel} {rest : List Parcel}
    (hi : FairInv cs files w ss) (hup : w.up = t :: rest) :
    FairInv cs files { w with up := rest } ss := by
  have hself : (w.ends t.call).up
      = (t.num, t.bytes) :: parcelsOf t.call rest := by
    rw [ends, hup, parcelsOf_cons_self]
  refine hi.channel rfl fun k => ?_
  by_cases hk : k = t.call
  · subst hk
    refine Or.inr ⟨fun hnone => ?_, fun s htied => htied.lose hself⟩
    rw [hnone] at hself
    cases hself
  · refine Or.inl ?_
    simp only [ends, hup, parcelsOf_cons_of_ne (Ne.symm hk)]

theorem FairInv.drop {n : Nat} (hi : FairInv cs files w ss)
    (hn : n < w.down.length) :
    FairInv cs files { w with down := w.down.eraseIdx n } ss := by
  refine hi.channel rfl fun k => ?_
  rcases parcelsOf_eraseIdx k hn with heq | ⟨m, hm, heq⟩
  · exact Or.inl (by simp only [ends, heq])
  · refine Or.inr ⟨fun hnone => ?_, fun s htied => ?_⟩
    · rw [show parcelsOf k w.down = [] from congrArg Ends.down hnone] at hm
      cases hm
    · simp only [ends, heq]
      exact htied.drop hm

theorem FairInv.step {a : WAct} (hi : FairInv cs files w ss)
    (hok : fair files w a) (h : World.step cs w a = some w') :
    ∃ ss', (ss' = ss ∨ ∃ b, Turn cs w.c.u.proc ss b ss')
      ∧ FairInv cs files w' ss' := by
  cases step_inv h with
  | aside hs hproc =>
      exact ⟨ss, Or.inl rfl, hproc ▸ hi.gone, hi.tied, hi.fresh⟩
  | @call n param2 stack c hs hproc =>
      have hjoined : Proc.joined w.c.u.proc (.call param2 stack) :=
        ⟨hok, fun k hk => by cases hk⟩
      obtain ⟨ss', hturn, hgone⟩ := hi.gone.step hjoined hproc
      cases hturn with
      | call param2 stack =>
          exact ⟨ss, Or.inl rfl, hgone, hi.tied, hi.fresh⟩
  | send hs hproc =>
      obtain ⟨ss', hturn, hi'⟩ := hi.send hok hproc
      exact ⟨ss', Or.inr ⟨_, hturn⟩, hi'⟩
  | read hb hs hproc =>
      obtain ⟨ss', hturn, hi'⟩ := hi.read hok.1 hb hproc
      exact ⟨ss', Or.inr ⟨_, hturn⟩, hi'⟩
  | deliver hdown hs hproc =>
      obtain ⟨ss', hturn, hi'⟩ := hi.deliver hdown hok hproc
      exact ⟨ss', Or.inr ⟨_, hturn⟩, hi'⟩
  | answer hup hans => exact ⟨ss, Or.inl rfl, hi.answer hup hans hok⟩
  | lose hup => exact ⟨ss, Or.inl rfl, hi.lose hup⟩
  | drop hn => exact ⟨ss, Or.inl rfl, hi.drop hn⟩

theorem FairInv.of_reach
    (h : Lts.Reach (World.step cs) (fair files) loaded w) :
    ∃ ss, FairInv cs files w ss := by
  refine h.invariant (I := fun w => ∃ ss, FairInv cs files w ss) ?_ ?_
  · have hgone : GoneThrough cs [] Proc.loaded :=
      ⟨.nil, rfl, ⟨[], rfl, Or.inl rfl⟩, rfl⟩
    refine ⟨[], hgone, ?_, fun _ _ => rfl⟩
    intro k s hk
    cases hk
  · intro w a w' hex hok hs
    obtain ⟨ss, hi⟩ := hex
    obtain ⟨ss', -, hi'⟩ := hi.step hok hs
    exact ⟨ss', hi'⟩

end World

-- ================================================================== results

/-- Of a session that has announced success each packet has been written
and answered, which is `Link`'s result about one device. -/
theorem Tied.delivered {e : Ends} (hi : Tied cs img e s)
    (hsucc : s.snd.pc.succeeding = true) :
    ∀ q ∈ img.packets, q ∈ e.sent
      ∧ ∃ t ∈ e.answered, t.1 = q.1 ∧ (Rsp.ofReport t.2).stat = 0 := by
  cases hi with
  | loading h =>
      rw [(load_of_step h).1] at hsucc
      cases hsucc
  | failing h => cases hsucc.symm.trans (SPc.succeeding_of_failing h)
  | @linked g₀ param2 stack l h hl he =>
      subst hl he
      obtain ⟨hinv, hsent⟩ := Link.EndInv.of_reach h
      intro q hq
      have hack := hinv.done hsucc q hq
      exact ⟨hinv.sent hsent hq hack, hack⟩

/-- A session that has announced success has been delivered, in the
world's own terms: by call number and packet number. -/
theorem World.FairInv.delivered {files : Nat → Image} {w : World}
    {ss : List Session} {k : Nat} (hi : FairInv cs files w ss)
    (hk : ss[k]? = some s) (hend : .log .otaEnd ∈ s.trace) :
    ∀ q ∈ (files k).packets, ⟨k, q.1, q.2⟩ ∈ w.sent ∧ w.acked k q.1 := by
  have hsucc : s.snd.pc.succeeding = true :=
    hi.gone.chain.forall (P := fun s => .log .otaEnd ∈ s.trace →
      s.snd.pc.succeeding = true)
      (fun _ _ _ _ hr => succeeding_of_otaEnd hr) s
      (List.mem_of_getElem? hk) hend
  intro q hq
  obtain ⟨hsent, t, ht, hnum, hstat⟩ :=
    (hi.tied k s hk).delivered hsucc q hq
  obtain ⟨u, hu, heq⟩ := List.mem_map.mp hsent
  obtain ⟨a, ha, rfl⟩ := List.mem_map.mp ht
  obtain ⟨hmem, hcall⟩ := List.mem_filter.mp hu
  obtain ⟨hmem', hcall'⟩ := List.mem_filter.mp ha
  refine ⟨?_, a, hmem', of_decide_eq_true hcall', hnum, hstat⟩
  subst heq
  rw [← of_decide_eq_true hcall]
  exact hmem

/-- What a step of the process is here: a report comes from the device. -/
def onAir : PAct → List WAct
  | .read j (.got (some r)) => [.answer r, .deliver j]
  | a => [.app (.proc a)]

/-- The run of `shownSuccess`, with the channel and the device. -/
def deliveredSuccess : World :=
  (Lts.run (World.step .unsigned) (World.fair fun _ => dataImage)
    World.loaded
    (clickStart.map .app ++ (answeredCall 0 0 ++ returns 0).flatMap onAir
      ++ showSession.map .app)).getD World.loaded

end BtOta
