/-
Whether the load loop is exact, stays inside the buffer and ends.

It is and does for a file that fits `fw_data_buf` and can be read to its
end, bytes of 0xFF included: the loop asks feof, not `c`. For every
other file it does not. It compares `i` with nothing, so a longer file
runs over the end of the buffer; and a read that fails sets no
end-of-file indicator, so the loop goes on storing 0xFF until it does
the same (`overflow`). The condition is exact (`load_exact_iff`).

Where it holds, a session whose load loop is stepped is a session
(`opening_refines`): the step `otaUpdate` takes on fopen's result is
what the loop does.
-/
import BtOta.Loader
import BtOta.Proofs.Shape

namespace BtOta

variable {cs : CharSign} {file : List UInt8} {errorAt : Option Nat}
  {old : Nat → UInt8} {ld ld' : Loader} {o o' : Opening}

-- ============================================================= the property

/-- No read fails up to the end of the file, where fgetc learns that it
is at the end. -/
def Readable (file : List UInt8) (errorAt : Option Nat) : Prop :=
  ∀ n, errorAt = some n → file.length < n

/-- The buffer starts with the file, and `fw_data_len` is its length. -/
def Opening.Exact (o : Opening) : Prop :=
  o.s.snd.fwDataLen = o.file.length
    ∧ ∀ k, k < o.file.length → o.s.snd.fwDataBuf k = o.file.getD k 0

/-- The loop alone moves, as it does in the code: no other thread of the
session exists yet. -/
def Opening.loads (_ : Opening) (a : OAct) : Prop := a = .load

/-- What a state has to meet: the loop stores inside the buffer; it comes
to its end, where it runs; and once a packet has been transmitted, the
image is the file. -/
structure Opening.Sound (cs : CharSign) (o : Opening) : Prop where
  bounded : ∀ ld, o.ld = some ld → ld.pc = .store → ld.i < fwBufSize
  ends : o.ld ≠ none →
    ∃ o', Lts.Reach (Opening.step cs) loads o o' ∧ o'.ld = none
  exact : sentOf o.s.trace ≠ [] → o.Exact

-- ============================================================ the loop itself

/-- What the loop keeps on a file that can be read, by where it stands:
how far the stream is ahead of `i`, and what `c` is. -/
def Loader.At (file : List UInt8) (ld : Loader) : Prop :=
  match ld.pc with
  | .get => ld.fp.feof = false ∧ ld.fp.pos = ld.i ∧ ld.i ≤ file.length
  | .test =>
      (ld.fp.feof = true ∧ ld.i = file.length)
        ∨ (ld.fp.feof = false ∧ ld.fp.pos = ld.i + 1 ∧ ld.i < file.length
          ∧ ld.c = file.getD ld.i 0)
  | .store =>
      ld.fp.feof = false ∧ ld.fp.pos = ld.i + 1 ∧ ld.i < file.length
        ∧ ld.c = file.getD ld.i 0
  | .done => ld.i = file.length
  | .undefined => False

/-- What has been stored is the file up to `i`, over what was there. -/
structure LoaderInv (file : List UInt8) (errorAt : Option Nat)
    (old : Nat → UInt8) (ld : Loader) : Prop where
  reads : ld.fp.file = file
  fails : ld.fp.errorAt = errorAt
  copied : ∀ k, ld.fwDataBuf k
    = if k < ld.i then file.getD k 0 else old k
  place : ld.At file

/-- EOF is told from a byte by the indicator alone: as an `unsigned char`
it is a byte too. -/
theorem toUChar_byte (b : UInt8) : UInt8.ofInt (b.toNat : Int) = b := by
  have hlt : b.toNat < 256 := b.toNat_lt
  unfold UInt8.ofInt
  apply UInt8.toNat_inj.mp
  rw [UInt8.toNat_ofNat']
  omega

/-- fgetc before the end of a file that can be read. -/
theorem fgetc_byte (fp : Stream) (hread : Readable fp.file fp.errorAt)
    (hlt : fp.pos < fp.file.length) :
    fp.fgetc = (((fp.file.getD fp.pos 0).toNat : Int),
      { fp with pos := fp.pos + 1 }) := by
  unfold Stream.fgetc
  have hne : fp.errorAt ≠ some fp.pos := by
    intro he
    have hlater := hread _ he
    omega
  rw [if_neg hne, List.getElem?_eq_getElem hlt,
    List.getD_eq_getElem _ _ hlt]

/-- fgetc at the end. -/
theorem fgetc_end {fp : Stream} (hread : Readable fp.file fp.errorAt)
    (hend : fp.pos = fp.file.length) :
    fp.fgetc = (eof, { fp with feof := true }) := by
  unfold Stream.fgetc
  have hne : fp.errorAt ≠ some fp.pos := by
    intro he
    have hlater := hread _ he
    omega
  rw [if_neg hne, List.getElem?_eq_none (by omega)]

/-- One step of the loop keeps the invariant, on a file that fits and can
be read. -/
theorem LoaderInv.step (hi : LoaderInv file errorAt old ld)
    (hread : Readable file errorAt) (hfit : file.length ≤ fwBufSize)
    (h : ld.step = some ld') : LoaderInv file errorAt old ld' := by
  have hplace := hi.place
  have hread' : Readable ld.fp.file ld.fp.errorAt := by
    rw [hi.reads, hi.fails]
    exact hread
  unfold Loader.At at hplace
  cases hpc : ld.pc with
  | done | undefined =>
      simp [Loader.step, hpc] at h
  | get =>
      -- fgetc: a byte of the file, or its end, where feof will say so
      simp only [hpc] at hplace
      obtain ⟨heof, hpos, hle⟩ := hplace
      simp only [Loader.step, hpc] at h
      by_cases hlt : ld.i < file.length
      · rw [fgetc_byte _ hread' (by rw [hi.reads, hpos]; exact hlt)] at h
        cases h
        refine ⟨hi.reads, hi.fails, hi.copied, Or.inr ⟨heof, ?_, hlt, ?_⟩⟩
        · exact congrArg (· + 1) hpos
        · rw [toUChar_byte, hi.reads, hpos]
      · rw [fgetc_end hread' (by rw [hi.reads, hpos]; omega)] at h
        cases h
        exact ⟨hi.reads, hi.fails, hi.copied, Or.inl ⟨rfl, by
          show ld.i = file.length
          omega⟩⟩
  | test =>
      -- the end of file flag is what was found at the last fgetc
      simp only [hpc] at hplace
      simp only [Loader.step, hpc] at h
      cases h
      rcases hplace with ⟨heof, hend⟩ | ⟨heof, hpos, hlt, hc⟩
      · refine ⟨hi.reads, hi.fails, hi.copied, ?_⟩
        simp only [Loader.At, heof, if_true]
        exact hend
      · refine ⟨hi.reads, hi.fails, hi.copied, ?_⟩
        simp only [Loader.At, heof, Bool.false_eq_true, if_false]
        exact ⟨trivial, hpos, hlt, hc⟩
  | store =>
      -- in range, since the file fits
      simp only [hpc] at hplace
      obtain ⟨heof, hpos, hlt, hc⟩ := hplace
      simp only [Loader.step, hpc] at h
      rw [if_pos (Nat.lt_of_lt_of_le hlt hfit)] at h
      cases h
      refine ⟨hi.reads, hi.fails, fun k => ?_, heof, hpos, hlt⟩
      dsimp only
      by_cases hk : k = ld.i
      · rw [hk, Function.update_self, if_pos (by omega)]
        exact hc
      · rw [Function.update_of_ne hk, hi.copied]
        by_cases hki : k < ld.i
        · rw [if_pos hki, if_pos (by omega)]
        · rw [if_neg hki, if_neg (by omega)]


/-- How far the loop is from its end: three steps for each byte, and
those of the last lap. -/
def Loader.left (file : List UInt8) (ld : Loader) : Nat :=
  match ld.pc with
  | .get => 3 * (file.length - ld.i) + 3
  | .test => 3 * (file.length - ld.i) + 2
  | .store => 3 * (file.length - ld.i) + 1
  | .done | .undefined => 0

/-- The loop comes closer to its end, or is there. -/
theorem LoaderInv.progress (hi : LoaderInv file errorAt old ld)
    (hfit : file.length ≤ fwBufSize) :
    ld.pc = .done
      ∨ ∃ ld', ld.step = some ld' ∧ ld'.left file < ld.left file := by
  have hplace := hi.place
  unfold Loader.At at hplace
  cases hpc : ld.pc with
  | done => exact Or.inl rfl
  | undefined =>
      rw [hpc] at hplace
      exact hplace.elim
  | get =>
      refine Or.inr ⟨_, by simp only [Loader.step, hpc]; rfl, ?_⟩
      simp [Loader.left, hpc]
  | test =>
      refine Or.inr ⟨_, by simp only [Loader.step, hpc]; rfl, ?_⟩
      cases ld.fp.feof with
      | true => simp [Loader.left, hpc]
      | false => simp [Loader.left, hpc]
  | store =>
      simp only [hpc] at hplace
      obtain ⟨-, -, hlt, -⟩ := hplace
      refine Or.inr ⟨_, by
        simp only [Loader.step, hpc]
        rw [if_pos (Nat.lt_of_lt_of_le hlt hfit)], ?_⟩
      simp only [Loader.left, hpc]
      omega

/-- So it comes to its end, by induction on how far it is. -/
theorem LoaderInv.ends (hread : Readable file errorAt)
    (hfit : file.length ≤ fwBufSize) (hi : LoaderInv file errorAt old ld)
    (hld : o.ld = some ld) :
    ∃ o', Lts.Reach (Opening.step cs) Opening.loads o o' ∧ o'.ld = none := by
  induction hn : ld.left file using Nat.strongRecOn generalizing ld o with
  | ind n ih =>
      rcases hi.progress hfit with hdone | ⟨ld', hs, hlt⟩
      · refine ⟨{ o with s := o.s.loaded ld, ld := none }, ?_, rfl⟩
        refine (Lts.Reach.refl o).tail (a := .load) rfl ?_
        simp [Opening.step, hld, hdone]
      · have hne : ld.pc ≠ .done := by
          intro hdone
          simp [Loader.step, hdone] at hs
        have hstep : Opening.step cs o .load
            = some { o with ld := some ld' } := by
          simp [Opening.step, hld, hne, hs]
        obtain ⟨o', hr, hend⟩ := ih (ld'.left file) (hn ▸ hlt)
          (hi.step hread hfit hs) (o := { o with ld := some ld' }) rfl rfl
        exact ⟨o', ((Lts.Reach.refl o).tail (a := .load) rfl hstep).trans hr,
          hend⟩

-- ============================================================== the session

variable {g g' : Shared} {l l' : Sender} {es : List Event} {i : SIn}

/-- A session that is failing goes on failing, and writes nothing. -/
theorem SStep.fails_on (h : SStep cs g l i g' l' es)
    (hf : l.pc.failing = true) :
    l'.pc.failing = true ∧ BtOta.sentOf es = [] := by
  cases h with
  | @flag v pc | @verdict v pc | @stop v pc | @quitThread v pc
  | @quitServ v pc =>
      rw [pc] at hf
      cases v with
      | success => cases hf
      | fail => exact ⟨rfl, rfl⟩
  | init pc | openFail pc | opened pc | openOver pc | created pc | next pc
  | newStage pc | assemble pc | crash pc | retry pc | giveUp pc | wrote pc
  | writeFail pc | poll pc | timeout pc | nextHit pc | nextMiss pc
  | errHit pc | errMiss pc | completeHit pc | completeMiss pc =>
      rw [pc] at hf
      cases hf

/-- What a run on a file that fits and can be read keeps: the loop's
invariant while it runs, and the file in the buffer behind it. -/
structure OpeningInv (file : List UInt8) (errorAt : Option Nat)
    (o : Opening) : Prop where
  disk : o.file = file ∧ o.errorAt = errorAt
  loop : ∀ ld, o.ld = some ld →
    LoaderInv file errorAt o.s.snd.fwDataBuf ld ∧ o.s.snd.pc = .load
  early : o.s.snd.pc = .init ∨ o.s.snd.pc = .load → sentOf o.s.trace = []
  late : o.s.snd.pc ≠ .init → o.s.snd.pc ≠ .load →
    o.Exact ∨ (sentOf o.s.trace = [] ∧ o.s.snd.pc.failing = true)

theorem OpeningInv.send (hi : OpeningInv file errorAt o) (hld : o.ld = none)
    (hne : ∀ bytes, i ≠ .opened (some bytes))
    (h : SStep cs o.s.g o.s.snd i g' l' es) :
    OpeningInv file errorAt
      { o with s := { g := g', snd := l', rdr := Session.spawn o.s.rdr i
                      trace := o.s.trace ++ es } } := by
  have hno : ∀ ld, o.ld = some ld → False := by
    intro ld hsome
    cases hld.symm.trans hsome
  -- three stretches: before fopen, at fopen, and behind the load
  by_cases hinit : o.s.snd.pc = .init
  · have hsent := hi.early (Or.inl hinit)
    cases h with
    | init pc =>
        refine ⟨hi.disk, fun ld hsome => (hno ld hsome).elim, fun _ => ?_,
          fun _ hload => absurd rfl hload⟩
        dsimp only
        rw [sentOf_append, hsent, sentOf_verbose]
        rfl
    | openFail pc | opened pc | openOver pc | created pc | next pc
    | newStage pc | assemble pc | crash pc | retry pc | giveUp pc | wrote pc
    | writeFail pc | poll pc | timeout pc | nextHit pc | nextMiss pc
    | errHit pc | errMiss pc | completeHit pc | completeMiss pc | flag pc
    | verdict pc | stop pc | quitThread pc | quitServ pc =>
        cases hinit.symm.trans pc
  by_cases hload : o.s.snd.pc = .load
  · have hsent := hi.early (Or.inr hload)
    cases h with
    | openFail pc =>
        refine ⟨hi.disk, fun ld hsome => (hno ld hsome).elim, nofun, ?_⟩
        intro _ _
        refine Or.inr ⟨?_, rfl⟩
        dsimp only
        rw [sentOf_append, hsent]
        rfl
    | opened pc bytes | openOver pc bytes => exact absurd rfl (hne bytes)
    | init pc | created pc | next pc
    | newStage pc | assemble pc | crash pc | retry pc | giveUp pc | wrote pc
    | writeFail pc | poll pc | timeout pc | nextHit pc | nextMiss pc
    | errHit pc | errMiss pc | completeHit pc | completeMiss pc | flag pc
    | verdict pc | stop pc | quitThread pc | quitServ pc =>
        cases hload.symm.trans pc
  have hearly : ¬ (l'.pc = .init ∨ l'.pc = .load) := fun hpc =>
    hinit (h.opening hpc)
  refine ⟨hi.disk, fun ld hsome => (hno ld hsome).elim,
    fun hpc => absurd hpc hearly, fun _ _ => ?_⟩
  rcases hi.late hinit hload with ⟨hlen, hbuf⟩ | ⟨hsent, hfail⟩
  -- loaded: the buffer and its length are written no more
  · refine Or.inl ?_
    rcases h.carries hload with
      ⟨-, -, l₁, hasm, rfl⟩ | ⟨-, -, hbuf', hlen', -⟩ | hpc
    · exact ⟨hasm.fwLen.trans hlen, fun k hk =>
        (congrFun hasm.fwBuf k).trans (hbuf k hk)⟩
    · exact ⟨hlen'.trans hlen, fun k hk =>
        (congrFun hbuf' k).trans (hbuf k hk)⟩
    · exact absurd hpc hinit
  -- failed: the session ends without a packet
  · obtain ⟨hfail', hnone⟩ := h.fails_on hfail
    refine Or.inr ⟨?_, hfail'⟩
    dsimp only
    rw [sentOf_append, hsent, hnone]
    rfl

theorem OpeningInv.step {a : OAct} (hread : Readable file errorAt)
    (hfit : file.length ≤ fwBufSize) (hi : OpeningInv file errorAt o)
    (hs : Opening.step cs o a = some o') : OpeningInv file errorAt o' := by
  cases Opening.step_inv hs with
  | act hld hne h =>
      cases Session.step_inv h with
      | send hm =>
          exact hi.send hld (fun bytes he => hne bytes (by rw [he])) hm
      | read hrdr hm =>
          refine ⟨hi.disk, hi.loop, ?_, ?_⟩
          · dsimp only
            rw [sentOf_append, hm.sentOf, List.append_nil]
            exact hi.early
          · unfold Opening.Exact
            dsimp only
            rw [sentOf_append, hm.sentOf, List.append_nil]
            exact hi.late
  | fopen hld hpc =>
      refine ⟨hi.disk, ?_, hi.early, hi.late⟩
      intro ld hsome
      cases hsome
      refine ⟨⟨hi.disk.1, hi.disk.2, fun k => ?_, rfl, rfl, Nat.zero_le _⟩,
        hpc⟩
      rfl
  | exit hld hpc =>
      obtain ⟨hinv, hload⟩ := hi.loop _ hld
      have hplace := hinv.place
      unfold Loader.At at hplace
      rw [hpc] at hplace
      refine ⟨hi.disk, nofun, nofun, fun _ _ => Or.inl ⟨?_, ?_⟩⟩
      · exact hplace.trans (congrArg List.length hi.disk.1.symm)
      · intro k hk
        dsimp only at hk ⊢
        rw [hi.disk.1] at hk ⊢
        refine (hinv.copied k).trans (if_pos ?_)
        rw [hplace]
        exact hk
  | load hld h =>
      obtain ⟨hinv, hload⟩ := hi.loop _ hld
      refine ⟨hi.disk, ?_, hi.early, hi.late⟩
      intro ld hsome
      cases hsome
      exact ⟨hinv.step hread hfit h, hload⟩

theorem openingInv_call (g₀ : Shared) (param2 : Option String)
    (stack : Nat → UInt8) (file : List UInt8) (errorAt : Option Nat) :
    OpeningInv file errorAt
      (Opening.call g₀ param2 stack file errorAt) :=
  ⟨⟨rfl, rfl⟩, nofun, fun _ => rfl, fun hinit => absurd rfl hinit⟩

theorem OpeningInv.sound (hread : Readable file errorAt)
    (hfit : file.length ≤ fwBufSize) (hi : OpeningInv file errorAt o) :
    o.Sound cs := by
  refine ⟨?_, ?_, ?_⟩
  · intro ld hld hpc
    have hplace := (hi.loop ld hld).1.place
    unfold Loader.At at hplace
    rw [hpc] at hplace
    exact Nat.lt_of_lt_of_le hplace.2.2.1 hfit
  · intro hne
    obtain ⟨ld, hld⟩ := Option.ne_none_iff_exists'.mp hne
    exact (hi.loop ld hld).1.ends hread hfit hld
  · intro hsent
    by_cases hearly : o.s.snd.pc = .init ∨ o.s.snd.pc = .load
    · exact absurd (hi.early hearly) hsent
    · rcases hi.late (fun h => hearly (Or.inl h))
        (fun h => hearly (Or.inr h)) with hexact | ⟨hnone, -⟩
      · exact hexact
      · exact absurd hnone hsent

-- ============================================================= the overflow

/-- At the head of the loop, with `k` bytes stored and no end of the
file in sight up to the end of the buffer. -/
structure Loader.Unending (file : List UInt8) (errorAt : Option Nat) (k : Nat)
    (ld : Loader) : Prop where
  pc : ld.pc = .get
  count : ld.i = k
  reads : ld.fp.file = file
  fails : ld.fp.errorAt = errorAt
  feof : ld.fp.feof = false
  place : (∃ n, errorAt = some n ∧ n ≤ file.length ∧ ld.fp.pos = min k n)
    ∨ (Readable file errorAt ∧ fwBufSize < file.length ∧ ld.fp.pos = k)

/-- fgetc sets no end-of-file indicator there: there are more bytes, or
the read has failed. -/
theorem Loader.Unending.fgetc {k : Nat} (h : ld.Unending file errorAt k)
    (hk : k ≤ fwBufSize) :
    ld.fp.fgetc.2.feof = false ∧ ld.fp.fgetc.2.file = file
      ∧ ld.fp.fgetc.2.errorAt = errorAt
      ∧ ((∃ n, errorAt = some n ∧ n ≤ file.length
          ∧ ld.fp.fgetc.2.pos = min (k + 1) n)
        ∨ (Readable file errorAt ∧ fwBufSize < file.length
          ∧ ld.fp.fgetc.2.pos = k + 1)) := by
  rcases h.place with ⟨n, hn, hle, hpos⟩ | ⟨hread, hlong, hpos⟩
  · by_cases hat : ld.fp.pos = n
    · -- the read fails, and nothing moves
      have hfail : ld.fp.fgetc = (eof, ld.fp) := by
        unfold Stream.fgetc
        rw [if_pos (by rw [h.fails, hn, hat])]
      rw [hfail]
      refine ⟨h.feof, h.reads, h.fails, Or.inl ⟨n, hn, hle, ?_⟩⟩
      dsimp only
      omega
    · have hbyte : ld.fp.fgetc = (((ld.fp.file.getD ld.fp.pos 0).toNat : Int),
          { ld.fp with pos := ld.fp.pos + 1 }) := by
        have hlt : ld.fp.pos < ld.fp.file.length := by
          rw [h.reads]
          omega
        unfold Stream.fgetc
        rw [if_neg (by
          rw [h.fails, hn]
          exact fun he => hat (Option.some.inj he).symm),
          List.getElem?_eq_getElem hlt, List.getD_eq_getElem _ _ hlt]
      rw [hbyte]
      refine ⟨h.feof, h.reads, h.fails, Or.inl ⟨n, hn, hle, ?_⟩⟩
      dsimp only
      omega
  · have hbyte := fgetc_byte ld.fp
      (by rw [h.reads, h.fails]; exact hread) (by rw [h.reads]; omega)
    rw [hbyte]
    exact ⟨h.feof, h.reads, h.fails,
      Or.inr ⟨hread, hlong, congrArg (· + 1) hpos⟩⟩

variable (cs) in
/-- The loop's step, in a session. -/
theorem reach_load (hld : o.ld = some ld) (hne : ld.pc ≠ .done)
    (h : ld.step = some ld') :
    Lts.Reach (Opening.step cs) Lts.free o { o with ld := some ld' } := by
  refine (Lts.Reach.refl o).tail (a := .load) trivial ?_
  simp [Opening.step, hld, hne, h]

variable (cs) in
/-- From the head of the loop to the store, whatever fgetc has given. -/
theorem Loader.Unending.reach_store {k : Nat}
    (h : ld.Unending file errorAt k) (hk : k ≤ fwBufSize)
    (hld : o.ld = some ld) :
    ∃ ld', Lts.Reach (Opening.step cs) Lts.free o { o with ld := some ld' }
      ∧ ld'.pc = .store ∧ ld'.i = k ∧ ld'.fp = ld.fp.fgetc.2 := by
  have hget : ld.step = some { ld with
      pc := .test, fp := ld.fp.fgetc.2, c := UInt8.ofInt ld.fp.fgetc.1 } := by
    simp only [Loader.step, h.pc]
  have htest : Loader.step { ld with
        pc := .test, fp := ld.fp.fgetc.2, c := UInt8.ofInt ld.fp.fgetc.1 }
      = some { ld with
        pc := .store, fp := ld.fp.fgetc.2
        c := UInt8.ofInt ld.fp.fgetc.1 } := by
    simp only [Loader.step, (h.fgetc hk).1, Bool.false_eq_true, if_false]
  have hrun := (reach_load cs hld (by simp [h.pc]) hget).trans
    (reach_load cs rfl (by simp) htest)
  exact ⟨_, hrun, rfl, h.count, rfl⟩

variable (cs) in
/-- Once around the loop: one more byte is stored, of the file or 0xFF.
-/
theorem Loader.Unending.lap {k : Nat} (h : ld.Unending file errorAt k)
    (hk : k < fwBufSize) (hld : o.ld = some ld) :
    ∃ ld', Lts.Reach (Opening.step cs) Lts.free o { o with ld := some ld' }
      ∧ ld'.Unending file errorAt (k + 1) := by
  obtain ⟨ld₁, hr, hpc, hi, hfp⟩ := h.reach_store cs
    (Nat.le_of_lt hk) hld
  obtain ⟨heof, hfile, herr, hplace⟩ := h.fgetc (Nat.le_of_lt hk)
  have hstore : ld₁.step = some { ld₁ with
      pc := .get, i := ld₁.i + 1
      fwDataBuf := Function.update ld₁.fwDataBuf ld₁.i ld₁.c } := by
    simp only [Loader.step, hpc]
    rw [if_pos (hi ▸ hk)]
  have hrun := hr.trans (reach_load cs rfl (by simp [hpc]) hstore)
  rw [← hfp] at heof hfile herr hplace
  exact ⟨_, hrun, rfl, congrArg (· + 1) hi, hfile, herr, heof, hplace⟩

/-- So the loop comes to a store behind the end of the buffer. -/
theorem overflow (cs : CharSign) (g₀ : Shared) (param2 : Option String)
    (stack : Nat → UInt8)
    (hbad : ¬ (file.length ≤ fwBufSize ∧ Readable file errorAt)) :
    ∃ o ld, Lts.Reach (Opening.step cs) Lts.free
        (Opening.call g₀ param2 stack file errorAt) o
      ∧ o.ld = some ld ∧ ld.pc = .store ∧ ld.i = fwBufSize := by
  have hlaps : ∀ k, k ≤ fwBufSize → ∃ o ld,
      Lts.Reach (Opening.step cs) Lts.free
        (Opening.call g₀ param2 stack file errorAt) o
      ∧ o.ld = some ld ∧ ld.Unending file errorAt k := by
    intro k
    induction k with
    | zero =>
        intro _
        have hinit : Opening.step cs
            (Opening.call g₀ param2 stack file errorAt) (.act (.send .tick))
            = some { Opening.call g₀ param2 stack file errorAt with
              s := (Session.step cs (Session.call g₀ param2 stack)
                (.send .tick)).getD (Session.call g₀ param2 stack) } := rfl
        have hbegun : Lts.Reach (Opening.step cs) Lts.free
            (Opening.call g₀ param2 stack file errorAt) _ :=
          (Lts.Reach.refl _).tail trivial hinit
        have hrun := hbegun.tail (a := .fopen) trivial rfl
        refine ⟨_, _, hrun, rfl, rfl, rfl, rfl, rfl, rfl, ?_⟩
        by_cases hread : Readable file errorAt
        · have hlong : fwBufSize < file.length := by
            by_contra hle
            exact hbad ⟨by omega, hread⟩
          exact Or.inr ⟨hread, hlong, rfl⟩
        · unfold Readable at hread
          obtain ⟨n, hn⟩ := not_forall.mp hread
          obtain ⟨he, hle⟩ := Classical.not_imp.mp hn
          exact Or.inl ⟨n, he, by omega, (Nat.zero_min n).symm⟩
    | succ k ih =>
        intro hk
        obtain ⟨o, ld, hr, hld, hun⟩ := ih (by omega)
        obtain ⟨ld', hlap, hun'⟩ := hun.lap cs hk hld
        exact ⟨_, ld', hr.trans hlap, rfl, hun'⟩
  obtain ⟨o, ld, hr, hld, hun⟩ := hlaps fwBufSize (Nat.le_refl _)
  obtain ⟨ld', hr', hpc, hi, -⟩ := hun.reach_store cs
    (Nat.le_refl _) hld
  exact ⟨_, ld', hr.trans hr', rfl, hpc, hi⟩

-- ================================================================ the result

/-- Whatever bytes the file has, and wherever a read of it fails: in
every run of a session the load loop stores inside the buffer and comes
to its end, and nothing is transmitted of an image that is not the file,
if and only if the file fits the buffer and can be read to its end. -/
theorem load_exact_iff (cs : CharSign) (g₀ : Shared)
    (param2 : Option String) (stack : Nat → UInt8) (file : List UInt8)
    (errorAt : Option Nat) :
    (∀ o, Lts.Reach (Opening.step cs) Lts.free
        (Opening.call g₀ param2 stack file errorAt) o → o.Sound cs)
      ↔ file.length ≤ fwBufSize ∧ Readable file errorAt := by
  constructor
  · intro hall
    by_contra hbad
    obtain ⟨o, ld, hr, hld, hpc, hi⟩ := overflow cs g₀ param2 stack hbad
    have hlt := (hall o hr).bounded ld hld hpc
    omega
  · intro hgood o hr
    obtain ⟨hfit, hread⟩ := hgood
    have hi : OpeningInv file errorAt o :=
      hr.invariant (openingInv_call g₀ param2 stack file errorAt)
        fun _ _ _ hi _ hs => hi.step hread hfit hs
    exact hi.sound hread hfit

/-- A session whose load loop is stepped is a session, so what is proved
of sessions, which load in one step, holds of it. -/
theorem opening_refines {g₀ : Shared} {param2 : Option String}
    {stack : Nat → UInt8} (hfit : file.length ≤ fwBufSize)
    (hread : Readable file errorAt)
    (h : Lts.Reach (Opening.step cs) Lts.free
      (Opening.call g₀ param2 stack file errorAt) o) :
    Lts.Reach (Session.step cs) Lts.free (Session.call g₀ param2 stack)
      o.s := by
  have hinv : ∀ o, Lts.Reach (Opening.step cs) Lts.free
      (Opening.call g₀ param2 stack file errorAt) o →
      OpeningInv file errorAt o := fun o hr =>
    hr.invariant (openingInv_call g₀ param2 stack file errorAt)
      fun _ _ _ hi _ hs => hi.step hread hfit hs
  refine h.invariant₂ (I := fun o => Lts.Reach (Session.step cs) Lts.free
    (Session.call g₀ param2 stack) o.s) hinv (Lts.Reach.refl _) ?_
  intro o a o' hi hr _ hs
  cases Opening.step_inv hs with
  | act hld hne h => exact hr.tail trivial h
  | fopen hld hpc => exact hr
  | load hld h => exact hr
  | @exit ld hld hpc =>
      refine hr.tail (a := .send (.opened (some file))) trivial ?_
      obtain ⟨hinv, hload⟩ := hi.loop ld hld
      have hplace : ld.i = file.length := by
        have hat := hinv.place
        unfold Loader.At at hat
        rwa [hpc] at hat
      have hbuf : ld.fwDataBuf
          = fun k => file.getD k (o.s.snd.fwDataBuf k) := by
        funext k
        rw [hinv.copied, hplace]
        by_cases hk : k < file.length
        · rw [if_pos hk, List.getD_eq_getElem _ _ hk,
            List.getD_eq_getElem _ _ hk]
        · rw [if_neg hk, List.getD_eq_default _ _ (by omega)]
      simp [Session.step, otaUpdate, hload, hfit, Session.loaded,
        Sender.load, Session.spawn, hplace, hbuf]

-- ================================================================ two files

/-- A file of one byte, 0xFF, is loaded as it is. -/
theorem load_exact_one :
    ∀ o, Lts.Reach (Opening.step .unsigned) Lts.free
        (Opening.call Shared.loaded none (fun _ => 0) [0xFF] none) o →
      o.Sound .unsigned :=
  (load_exact_iff .unsigned Shared.loaded none (fun _ => 0) [0xFF] none).mpr
    ⟨by decide, nofun⟩

/-- The loop does not come to its end when the first read fails. -/
theorem failed_load :
    ¬ ∀ (cs : CharSign) (g₀ : Shared) (param2 : Option String)
        (stack : Nat → UInt8) (file : List UInt8) (errorAt : Option Nat)
        (o : Opening),
      Lts.Reach (Opening.step cs) Lts.free
        (Opening.call g₀ param2 stack file errorAt) o → o.Sound cs := by
  intro h
  have hbad : ¬ (([0xF0] : List UInt8).length ≤ fwBufSize
      ∧ Readable [0xF0] (some 0)) := by
    intro hgood
    have hlt := hgood.2 0 rfl
    exact absurd hlt (by decide)
  obtain ⟨o, ld, hr, hld, hpc, hi⟩ := overflow .unsigned Shared.loaded none
    (fun _ => 0) hbad
  have hlt := (h _ _ _ _ _ _ o hr).bounded ld hld hpc
  omega

end BtOta
