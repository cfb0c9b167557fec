/-
Whether a reader outlives the session that created it.

It can. A session tells its reader to stop by `flagRead = 0` and returns
without waiting for it; quit_thread signals a thread that is no longer
created. A reader that is inside `read` at that moment tests the flag
only when the call returns, and by then a later session may have set it
to 1 (`stale_reader`).

Under `joined`, which asks that whenever a session sets the flag the
readers of the earlier ones have returned, no reader acts in a later
session (`own_reader`). Nothing weaker does: a reader that has not
returned when the flag is set has a run in which it acts (`stale_acts`).
-/
import BtOta.Lib.Threads
import BtOta.Proc
import Mathlib.Data.List.Nodup

namespace BtOta

/-- The call has run its initial stores, `flagRead = 1` among them. -/
def Sender.started (l : Sender) : Bool := decide (l.pc ≠ .init)

namespace Proc

/-- A later call than `k` has set `flagRead` to 1, which a reader of call
`k` would take for its own. -/
def superseded (p : Proc) (k : Nat) : Bool :=
  (p.calls.drop (k + 1)).any Sender.started

/-- The call whose step sets `flagRead` to 1: its first step, and no
other. -/
def setsFlag (p : Proc) : PAct → Option Nat
  | .send k .tick =>
      match p.calls[k]? with
      | some snd => if snd.pc = .init then some k else none
      | none => none
  | _ => none

/-- A call is made only when the earlier ones have returned, which is
what a caller would take for enough. -/
def successive (p : Proc) : PAct → Prop
  | .call _ _ => ∀ l ∈ p.calls, l.returned = true
  | _ => True

/-- Successive calls, each of which sets `flagRead` only when the
readers of the earlier ones have returned. -/
def joined (p : Proc) (a : PAct) : Prop :=
  successive p a ∧
    ∀ k ∈ p.setsFlag a, ∀ r ∈ p.rdrs, r.1 < k → r.2 = .ended

instance (p : Proc) (a : PAct) : Decidable (successive p a) :=
  match a with
  | .call _ _ => inferInstanceAs (Decidable (∀ l ∈ p.calls, _))
  | .send _ _ | .read _ _ => inferInstanceAs (Decidable True)

instance (p : Proc) (a : PAct) : Decidable (joined p a) :=
  inferInstanceAs (Decidable (_ ∧ ∀ k ∈ p.setsFlag a, _))

end Proc

/-- The step reads a report, writes `OTAStatus`, `OTAStage` or
`flagRead`, or logs one of the two lines of FLAG_OTA_FAIL. -/
def RPc.acts : RPc → RIn → Bool
  | .read, .got (some _) => true
  | .decide, .tick | .store _, .tick => true
  | .failFlag, .tick | .failLog, .tick | .failStop, .tick => true
  | _, _ => false

/-- Reader `j` is the only one of call `k`, and no later call has set
`flagRead`. -/
structure Proc.OwnReader (p : Proc) (j k : Nat) : Prop where
  current : p.superseded k = false
  only : ∀ j' pc', p.rdrs[j']? = some (k, pc') → j' = j

-- ========================================================== the invariant

/-- Every call but the last has returned, so only the last one moves. -/
def Proc.Sequential (p : Proc) : Prop :=
  ∀ k l, p.calls[k]? = some l → k + 1 < p.calls.length → l.returned = true

/-- A call that has returned takes no step, so a step tells that its call
has not. -/
theorem SStep.not_returned {cs : CharSign} {g g' : Shared}
    {l l' : Sender} {i : SIn} {es : List Event}
    (h : SStep cs g l i g' l' es) : l.returned = false := by
  cases h with
  | init pc | openFail pc | opened pc | openOver pc | created pc | next pc
  | newStage pc | assemble pc | crash pc | retry pc | giveUp pc | wrote pc
  | writeFail pc | poll pc | timeout pc | nextHit pc | nextMiss pc
  | errHit pc | errMiss pc | completeHit pc | completeMiss pc | flag pc
  | verdict pc | stop pc | quitThread pc | quitServ pc =>
      rw [Sender.returned, pc]

namespace Proc

variable {cs : CharSign} {p : Proc} {g' : Shared} {es : List Event}

/-- A call that moves is the last, since the others have returned. -/
theorem Sequential.last {k : Nat} {i : SIn} {snd snd' : Sender}
    (hp : p.Sequential) (hk : p.calls[k]? = some snd)
    (h : SStep cs p.g snd i g' snd' es) : p.calls.length = k + 1 := by
  have hlen : k < p.calls.length := (List.getElem?_eq_some_iff.mp hk).1
  by_contra hne
  have hret := hp k snd hk (by omega)
  cases hret.symm.trans h.not_returned

theorem Sequential.step {p' : Proc} {a : PAct} (hp : p.Sequential)
    (hok : successive p a) (h : Proc.step cs p a = some p') :
    p'.Sequential := by
  cases step_inv h with
  | call param2 stack =>
      intro k l hl hk
      simp only [List.length_append, List.length_singleton] at hk
      rw [List.getElem?_append_left (by omega)] at hl
      exact hok l (List.mem_of_getElem? hl)
  | send hk hm =>
      have hlast := hp.last hk hm
      intro n l hl hn
      simp only [List.length_set] at hn
      rw [List.getElem?_set_ne (by omega)] at hl
      exact hp n l hl hn
  | read hj hm => exact hp

theorem Sequential.of_reach
    (h : Lts.Reach (Proc.step cs) successive Proc.loaded p) :
    p.Sequential :=
  h.invariant (I := Proc.Sequential) nofun
    fun _ _ _ hp hok hs => hp.step hok hs

theorem superseded_iff {k : Nat} :
    p.superseded k = true
      ↔ ∃ k' l, k < k' ∧ p.calls[k']? = some l ∧ l.started = true := by
  rw [superseded, List.any_eq_true]
  constructor
  · intro h
    obtain ⟨l, hl, hst⟩ := h
    obtain ⟨n, hn⟩ := List.mem_iff_getElem?.mp hl
    rw [List.getElem?_drop] at hn
    exact ⟨k + 1 + n, l, by omega, hn, hst⟩
  · intro h
    obtain ⟨k', l, hlt, hl, hst⟩ := h
    refine ⟨l, List.mem_iff_getElem?.mpr ⟨k' - (k + 1), ?_⟩, hst⟩
    rw [List.getElem?_drop]
    have hk : k + 1 + (k' - (k + 1)) = k' := by omega
    rw [hk]
    exact hl

/-- What a run under `joined` keeps: each reader has been created by the
call it belongs to, no call has two, and the readers of superseded calls
have ended. -/
structure ReadersInv (p : Proc) : Prop where
  made : ∀ r ∈ p.rdrs, ∃ l, p.calls[r.1]? = some l ∧ l.pc.early = false
  only : (p.rdrs.map Prod.fst).Nodup
  ended : ∀ r ∈ p.rdrs, p.superseded r.1 = true → r.2 = .ended

theorem ReadersInv.loaded : ReadersInv Proc.loaded where
  made := nofun
  only := List.nodup_nil
  ended := nofun

end Proc

/-- Behind pthread_create there is no way back to it, so a call creates
one reader at most. -/
theorem SStep.early {cs : CharSign} {g g' : Shared} {l l' : Sender}
    {i : SIn} {es : List Event} (h : SStep cs g l i g' l' es)
    (hl : l.pc.early = false) : l'.pc.early = false := by
  cases h with
  | init pc | opened pc => exact nomatch (congrArg SPc.early pc).symm.trans hl
  | _ => rfl

namespace Proc

variable {cs : CharSign} {p : Proc} {g' : Shared} {es : List Event}

theorem mem_spawn {k : Nat} {i : SIn} {r : Nat × RPc}
    (h : r ∈ spawn p.rdrs k i) :
    r ∈ p.rdrs ∨ r = (k, .test) ∧ i = .created 0 := by
  unfold spawn at h
  split at h
  · rcases List.mem_append.mp h with h | h
    · exact Or.inl h
    · exact Or.inr ⟨List.mem_singleton.mp h, rfl⟩
  · exact Or.inl h

theorem ReadersInv.call {param2 : Option String} {stack : Nat → UInt8}
    (hi : ReadersInv p) :
    ReadersInv { p with calls := p.calls ++ [Sender.call param2 stack] } where
  made := by
    intro r hr
    obtain ⟨l, hl, he⟩ := hi.made r hr
    exact ⟨l, Threads.snoc hl, he⟩
  only := hi.only
  ended := by
    intro r hr hsup
    apply hi.ended r hr
    obtain ⟨k', l, hlt, hl, hst⟩ := superseded_iff.mp hsup
    rcases Threads.snoc_inv hl with hold | ⟨-, rfl⟩
    · exact superseded_iff.mpr ⟨k', l, hlt, hold, hst⟩
    · -- the new call has not set the flag
      cases hst

/-- A call is superseded by a step that sets the flag, or it has been
before. -/
theorem superseded_of_send {k n : Nat} {i : SIn} {snd snd' : Sender}
    {rdrs : List (Nat × RPc)} {trace : List Event}
    (hk : p.calls[k]? = some snd) (h : SStep cs p.g snd i g' snd' es)
    (hsup : Proc.superseded
      { g := g', calls := p.calls.set k snd', rdrs := rdrs, trace := trace } n
        = true) :
    p.superseded n = true ∨ n < k ∧ p.setsFlag (.send k i) = some k := by
  obtain ⟨k', l, hlt, hl, hst⟩ := superseded_iff.mp hsup
  rcases Threads.moved_inv hl with ⟨rfl, -⟩ | ⟨-, hold⟩
  · by_cases hinit : snd.pc = .init
    · have htick : i = .tick := by
        cases h with
        | init pc => rfl
        | _ pc => exact nomatch pc.symm.trans hinit
      refine Or.inr ⟨hlt, ?_⟩
      rw [htick, setsFlag, hk]
      exact if_pos hinit
    · exact Or.inl (superseded_iff.mpr
        ⟨k', snd, hlt, hk, by simp [Sender.started, hinit]⟩)
  · exact Or.inl (superseded_iff.mpr ⟨k', l, hlt, hold, hst⟩)

theorem ReadersInv.send {k : Nat} {i : SIn} {snd snd' : Sender}
    (hi : ReadersInv p) (hp : p.Sequential) (hok : joined p (.send k i))
    (hk : p.calls[k]? = some snd) (h : SStep cs p.g snd i g' snd' es) :
    ReadersInv
      { g := g', calls := p.calls.set k snd', rdrs := spawn p.rdrs k i
        trace := p.trace ++ es } := by
  have hlast : p.calls.length = k + 1 := hp.last hk h
  have hself : (p.calls.set k snd')[k]? = some snd' := Threads.moved hk
  refine ⟨?_, ?_, ?_⟩
  · intro r hr
    show ∃ l, (p.calls.set k snd')[r.1]? = some l ∧ _
    rcases mem_spawn hr with hr | ⟨rfl, rfl⟩
    · obtain ⟨l, hl, he⟩ := hi.made r hr
      by_cases hrk : r.1 = k
      · rw [hrk] at hl ⊢
        cases hk.symm.trans hl
        exact ⟨snd', hself, h.early he⟩
      · exact ⟨l, Threads.moved_of_ne hrk hl, he⟩
    · refine ⟨snd', hself, ?_⟩
      cases h with
      | created pc ret => rfl
  · show ((spawn p.rdrs k i).map Prod.fst).Nodup
    unfold spawn
    split
    · -- the call has not created a reader before
      have hpc : snd.pc.early = true := by
        cases h with
        | created pc ret => rw [pc]; rfl
      have hnew : k ∉ p.rdrs.map Prod.fst := by
        intro hmem
        obtain ⟨r, hr, hrk⟩ := List.mem_map.mp hmem
        obtain ⟨l, hl, he⟩ := hi.made r hr
        rw [hrk] at hl
        cases hk.symm.trans hl
        cases hpc.symm.trans he
      rw [List.map_append]
      exact List.Nodup.append hi.only (List.nodup_singleton k)
        (List.disjoint_singleton.mpr hnew)
    · exact hi.only
  · intro r hr hsup
    rcases mem_spawn hr with hold | ⟨rfl, -⟩
    · rcases superseded_of_send hk h hsup with hsup | ⟨hlt, hset⟩
      · exact hi.ended r hold hsup
      · exact hok.2 k hset r hold hlt
    · -- there is no later call
      obtain ⟨k', l, hlt, hl, -⟩ := superseded_iff.mp hsup
      have hk' := (List.getElem?_eq_some_iff.mp hl).1
      simp only [List.length_set] at hk' hlt
      omega

theorem ReadersInv.read {j k : Nat} {i : RIn} {pc pc' : RPc}
    (hi : ReadersInv p) (hj : p.rdrs[j]? = some (k, pc))
    (h : RStep cs p.g pc i g' pc' es) :
    ReadersInv
      { p with
        g := g', rdrs := p.rdrs.set j (k, pc'), trace := p.trace ++ es } := by
  have hmem : (k, pc) ∈ p.rdrs := List.mem_of_getElem? hj
  have hfst : (p.rdrs.set j (k, pc')).map Prod.fst = p.rdrs.map Prod.fst := by
    have hjk : (p.rdrs.map Prod.fst)[j]? = some k := by
      rw [List.getElem?_map, hj]
      rfl
    obtain ⟨hlt, hget⟩ := List.getElem?_eq_some_iff.mp hjk
    rw [List.map_set, ← hget, List.set_getElem_self]
  refine ⟨?_, ?_, ?_⟩
  · intro r hr
    rcases List.mem_or_eq_of_mem_set hr with hr | rfl
    · exact hi.made r hr
    · exact hi.made (k, pc) hmem
  · show ((p.rdrs.set j (k, pc')).map Prod.fst).Nodup
    rw [hfst]
    exact hi.only
  · intro r hr hsup
    rcases List.mem_or_eq_of_mem_set hr with hr | rfl
    · exact hi.ended r hr hsup
    · -- a reader that has returned takes no step
      have hend := hi.ended (k, pc) hmem hsup
      simp only at hend
      cases h <;> simp_all

theorem ReadersInv.of_reach (h : Lts.Reach (step cs) joined Proc.loaded p) :
    ReadersInv p := by
  refine h.invariant₂ (I := ReadersInv) (J := Proc.Sequential) ?_
    ReadersInv.loaded ?_
  · intro q hq
    exact Sequential.of_reach (hq.mono fun _ _ hok => hok.1)
  · intro p a p' hp hi hok hs
    cases step_inv hs with
    | call param2 stack => exact hi.call
    | send hk hm => exact hi.send hp hok hk hm
    | read hj hm => exact hi.read hj hm

end Proc

-- ================================================================= results

/-- In every run under `joined`, a reader that acts is the only one its
call has created, and no later call has set `flagRead`. -/
theorem own_reader {cs : CharSign} {p : Proc} {j k : Nat} {pc : RPc}
    {i : RIn} (h : Lts.Reach (Proc.step cs) Proc.joined Proc.loaded p)
    (hj : p.rdrs[j]? = some (k, pc)) (hacts : pc.acts i = true) :
    p.OwnReader j k := by
  have hi := Proc.ReadersInv.of_reach h
  refine ⟨?_, ?_⟩
  · cases hsup : p.superseded k with
    | false => rfl
    | true =>
        have hend := hi.ended (k, pc) (List.mem_of_getElem? hj) hsup
        simp only at hend
        subst hend
        cases hacts
  · intro j' pc' hj'
    have hk : (p.rdrs.map Prod.fst)[j]? = some k := by
      rw [List.getElem?_map, hj]
      rfl
    have hk' : (p.rdrs.map Prod.fst)[j']? = some k := by
      rw [List.getElem?_map, hj']
      rfl
    have hlt := (List.getElem?_eq_some_iff.mp hk').1
    exact (List.getElem?_inj hlt hi.only).mp (hk'.trans hk.symm)

/-- A reader that has not returned when a later call sets `flagRead` has
a run in which it acts under that call. -/
theorem stale_acts {cs : CharSign} {p : Proc} {j k₀ k : Nat} {pc : RPc}
    {snd : Sender} (hk : p.calls[k]? = some snd) (hinit : snd.pc = .init)
    (hj : p.rdrs[j]? = some (k₀, pc)) (hlt : k₀ < k) (hpc : pc ≠ .ended) :
    ∃ p' pc' i, Lts.Reach (Proc.step cs) Proc.successive p p'
      ∧ p'.rdrs[j]? = some (k₀, pc') ∧ pc'.acts i = true
      ∧ (Proc.step cs p' (.read j i)).isSome = true
      ∧ p'.superseded k₀ = true := by
  have hlen : k < p.calls.length := (List.getElem?_eq_some_iff.mp hk).1
  have hjlen : j < p.rdrs.length := (List.getElem?_eq_some_iff.mp hj).1
  -- the step that sets the flag
  let p₁ : Proc :=
    { g := p.g.initVars snd.param2
      calls := p.calls.set k { snd with pc := .load }, rdrs := p.rdrs
      trace := p.trace ++ (p.g.initVars snd.param2).verbose .otaUpdateArgs }
  have hset : Proc.step cs p (.send k .tick) = some p₁ := by
    simp only [Proc.step, hk, otaUpdate, hinit, Option.map_some]
    rfl
  have hreach : Lts.Reach (Proc.step cs) Proc.successive p p₁ :=
    (Lts.Reach.refl p).tail (a := .send k .tick) trivial hset
  have hsup : p₁.superseded k₀ = true :=
    Proc.superseded_iff.mpr
      ⟨k, _, hlt, List.getElem?_set_self hlen, rfl⟩
  have hj₁ : p₁.rdrs[j]? = some (k₀, pc) := hj
  cases pc with
  | ended => exact absurd rfl hpc
  | test =>
      -- the flag it tests is the later call's
      let p₂ : Proc := { p₁ with rdrs := p₁.rdrs.set j (k₀, .read) }
      have hstep : Proc.step cs p₁ (.read j .tick) = some p₂ := by
        simp only [Proc.step, hj₁, hidRead, Option.map_some]
        simp [p₂, p₁, Shared.initVars]
      refine ⟨p₂, .read, .got (some []), hreach.tail (a := .read j .tick) trivial hstep,
        List.getElem?_set_self hjlen, rfl, ?_, hsup⟩
      simp [Proc.step, p₂, p₁, hjlen, hidRead]
  | read =>
      refine ⟨p₁, .read, .got (some []), hreach, hj₁, rfl, ?_, hsup⟩
      simp [Proc.step, hj₁, hidRead]
  | decide =>
      refine ⟨p₁, .decide, .tick, hreach, hj₁, rfl, ?_, hsup⟩
      simp only [Proc.step, hj₁, hidRead]
      split <;> rfl
  | store x =>
      refine ⟨p₁, .store x, .tick, hreach, hj₁, rfl, ?_, hsup⟩
      simp [Proc.step, hj₁, hidRead]
  | failFlag =>
      refine ⟨p₁, .failFlag, .tick, hreach, hj₁, rfl, ?_, hsup⟩
      simp [Proc.step, hj₁, hidRead]
  | failLog =>
      refine ⟨p₁, .failLog, .tick, hreach, hj₁, rfl, ?_, hsup⟩
      simp [Proc.step, hj₁, hidRead]
  | failStop =>
      refine ⟨p₁, .failStop, .tick, hreach, hj₁, rfl, ?_, hsup⟩
      simp [Proc.step, hj₁, hidRead]

-- ============================================================ two processes

/-- A session's step as a step of call `k` and its reader `j`. -/
def Act.ofCall (k j : Nat) : Act → PAct
  | .send i => .send k i
  | .read i => .read j i

/-- The call opens its file and the device answers both packets. -/
def answeredCall (k j : Nat) : List PAct :=
  [.send k .tick, .send k (.opened (some dataImage.bytes))]
    ++ answeredRun.map (Act.ofCall k j)

/-- From the verdict on, the call returns. -/
def returns (k : Nat) : List PAct :=
  List.replicate 5 (.send k .tick)

/-- The reader of the first session returns before the second begins,
whose own reader goes as far as reading its first report. -/
def inTurn : Proc :=
  (Lts.run (Proc.step .unsigned) Proc.joined Proc.loaded
    (.call none (fun _ => 0) :: answeredCall 0 0 ++ returns 0
      ++ [.read 0 .tick, .call none (fun _ => 0), .send 1 .tick,
        .send 1 (.opened (some dataImage.bytes))]
      ++ sendFirst.map (Act.ofCall 1 1) ++ [.read 1 .tick])).getD
    Proc.loaded

/-- In the second session the report is for its own reader, the first
one's having ended. -/
theorem own_reader_second : inTurn.OwnReader 1 1 :=
  @own_reader .unsigned inTurn 1 1 .read
    (.got (some [0xA1, 0x02, 0, 0x02, 1, 0, 0]))
    (Lts.Reach.of_isSome (by decide)) (by decide) rfl

/-- The reader of the first session goes back into `read` before the
session ends; the second session sets the flag, and the read fails. -/
def overlapped : Proc :=
  (Lts.run (Proc.step .unsigned) Proc.successive Proc.loaded
    (.call none (fun _ => 0) :: answeredCall 0 0
      ++ [.read 0 .tick] ++ returns 0
      ++ [.call none (fun _ => 0), .send 1 .tick,
        .read 0 (.got none)])).getD Proc.loaded

/-- The reader of the first session is about to store `flagRead = 0` in
the second. -/
theorem stale_reader :
    ¬ ∀ (cs : CharSign) (p p' : Proc) (j k : Nat) (pc : RPc) (i : RIn),
      Lts.Reach (Proc.step cs) Proc.successive Proc.loaded p →
      p.rdrs[j]? = some (k, pc) → pc.acts i = true →
      Proc.step cs p (.read j i) = some p' →
      p.OwnReader j k := by
  intro h
  have hown := h .unsigned overlapped _ 0 0 .failFlag .tick
    (Lts.Reach.of_isSome (by decide)) (by decide) rfl
    (Option.some_get (by decide)).symm
  exact absurd hown.current (by decide)

end BtOta
