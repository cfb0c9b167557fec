/-
Which file the firmware is read from.

`fwFilePath` is what a browser has returned, or empty, and the thread
that calls startOTAUpdate reads it when it gets there: after a click on
Start with one path it may find another, or none. What it finds is at or
beneath `/mnt` or nothing, whatever the files do (`picked`). Where they
stay as they are, and no browser returns while a thread is on its way to
the call, it is one of the files offered (`picked_offered`).
-/
import BtOta.App
import BtOta.Proofs.Browsing
import BtOta.Proofs.LastClick

namespace BtOta

open Paths (Name pathOf)

variable {toLowerCase : String → String} {cs : CharSign} {fs : Files}
  {app app' : App} {a : AppAct} {c c' : Console} {b : ConAct}
  {Good : Browsing → Prop} {P : String → Prop}

-- =============================================================== the console

/-- Only a browser's result changes the path, and only a call of
startOTAUpdate takes it. -/
theorem Console.step_path (h : Console.step cs c b = some c')
    (hb : b.returned = false) :
    c'.fwFilePath = c.fwFilePath
      ∧ (c'.paths = c.paths ∨ c'.paths = c.paths ++ [c.fwFilePath]) := by
  cases Console.step_inv h with
  | start =>
      rcases c.onStart_inv with hsame | ⟨-, hnew⟩
      · rw [hsame]
        exact ⟨rfl, Or.inl rfl⟩
      · rw [hnew]
        exact ⟨rfl, Or.inl rfl⟩
  | file path ha => rcases ha with rfl | ⟨rfl, -⟩ <;> cases hb
  | @line w x hheld => cases x <;> exact ⟨rfl, Or.inl rfl⟩
  | native hw hst isVerboseLog stack => exact ⟨rfl, Or.inr rfl⟩
  | clean | verboseLog | worker | handle | flag | clear | logcat | proc =>
      exact ⟨rfl, Or.inl rfl⟩

-- ============================================================= what is picked

/-- The browsers are as they should be, and every path is one they return
or empty. `Good` and `P` are what a property asks of the two. -/
structure App.From (Good : Browsing → Prop) (P : String → Prop)
    (app : App) : Prop where
  browsers : ∀ s ∈ app.browsers, Good s
  fwFilePath : app.console.fwFilePath ≠ "" → P app.console.fwFilePath
  paths : ∀ p ∈ app.console.paths, p ≠ "" → P p

/-- What the browsers keep, and what of it holds of their results, is
kept of the paths. The console's own steps bring in nothing. -/
theorem App.From.step
    (hcreate : ∀ fs, a = .select fs → Good (Browsing.onCreate toLowerCase fs))
    (hbrowse : ∀ k b s s', a = .browse k b → Good s →
      Browsing.step toLowerCase s b = some s' → Good s')
    (hresult : ∀ p, Good (.finished (some p)) → P p)
    (hi : app.From Good P) (h : App.step toLowerCase cs app a = some app') :
    app'.From Good P := by
  cases App.step_inv h with
  | @console b c hb hc =>
      obtain ⟨hpath, hpaths⟩ := Console.step_path hc hb
      refine ⟨hi.browsers, ?_, ?_⟩
      · show c.fwFilePath ≠ "" → P c.fwFilePath
        rw [hpath]
        exact hi.fwFilePath
      · show ∀ p ∈ c.paths, p ≠ "" → P p
        rcases hpaths with hsame | hone
        · rw [hsame]
          exact hi.paths
        · rw [hone]
          intro p hp
          rcases List.mem_append.mp hp with hp | hp
          · exact hi.paths p hp
          · cases List.mem_singleton.mp hp
            exact hi.fwFilePath
  | select fs =>
      refine ⟨?_, hi.fwFilePath, hi.paths⟩
      intro s hs
      rcases List.mem_append.mp hs with hs | hs
      · exact hi.browsers s hs
      · cases List.mem_singleton.mp hs
        exact hcreate fs rfl
  | @browse k b s s' hs hstep =>
      refine ⟨?_, hi.fwFilePath, hi.paths⟩
      intro s₁ hs₁
      rcases List.mem_or_eq_of_mem_set hs₁ with hs₁ | rfl
      · exact hi.browsers s₁ hs₁
      · exact hbrowse k b s s₁ rfl (hi.browsers s hs) hstep
  | @onActivityResult k result hs =>
      refine ⟨fun s hs => hi.browsers s (List.mem_of_mem_eraseIdx hs), ?_,
        hi.paths⟩
      cases result with
      | none => exact fun hne => absurd rfl hne
      | some p => exact fun _ => hresult p (hi.browsers _ hs)

theorem App.From.loaded (Good : Browsing → Prop) (P : String → Prop) :
    App.loaded.From Good P where
  browsers := by
    intro s hs
    cases hs
  fwFilePath hne := absurd rfl hne
  paths := by
    intro p hp
    cases hp

/-- In every run of the app, whatever the files do: a path that
startOTAUpdate is called with is at or beneath `/mnt`, or empty. -/
theorem picked
    (h : Lts.Reach (App.step toLowerCase cs) Lts.free App.loaded app)
    (p : String) (hp : p ∈ app.console.paths) :
    p = "" ∨ ∃ ns, p = pathOf "/mnt" ns := by
  have hfrom : app.From (Browsing.Below toLowerCase)
      (fun p => ∃ ns, p = pathOf "/mnt" ns) := by
    refine h.invariant (App.From.loaded _ _) ?_
    intro s a s' hi _ hs
    refine App.From.step (fun fs _ => ?_) ?_ ?_ hi hs
    · exact search_below toLowerCase fs []
    · intro k b s s' _ hgood hstep
      exact hgood.step hstep
    · intro p hgood
      exact hgood p rfl
  by_cases hempty : p = ""
  · exact Or.inl hempty
  · exact Or.inr (hfrom.paths p hp hempty)

/-- The image on the card is picked. -/
def pick (k : Nat) : List AppAct :=
  [.select (.withCard true), .browse k (.click (.withCard true) 0),
    .browse k (.click (.withCard true) 1), .onActivityResult k]

/-- The card is picked, as it goes. -/
def pickGone (k : Nat) : List AppAct :=
  [.select (.withCard true), .browse k (.click (.withCard false) 0),
    .onActivityResult k]

/-- The image is picked, and behind a click on Start, the card. -/
def pickedLate : App :=
  (Lts.run (App.step String.toLower .unsigned) Lts.free App.loaded
    (pick 0 ++ [.console .start] ++ pickGone 0
      ++ (clickAgain 0).tail.map .console)).getD App.loaded

theorem picked_late :
    "/mnt/sdcard" ∈ pickedLate.console.paths
      ∧ ("/mnt/sdcard" = "" ∨ ∃ ns, "/mnt/sdcard" = pathOf "/mnt" ns) :=
  have hp : "/mnt/sdcard" ∈ pickedLate.console.paths := by decide +kernel
  ⟨hp, @picked String.toLower .unsigned pickedLate
    (Lts.Reach.of_isSome (by decide +kernel)) _ hp⟩

-- ======================================================== files that are there

/-- It is `fs` that answers. -/
def AppAct.asks (fs : Files) : AppAct → Prop
  | .select fs' => fs' = fs
  | .browse _ b => b.asks fs
  | .onActivityResult _ | .console _ => True

/-- No browser returns while a thread is on its way to startOTAUpdate, so
that thread finds the path it was started with. -/
def App.settled (app : App) : AppAct → Prop
  | .onActivityResult _ => ∀ wk ∈ app.console.u.workers, wk.waits = false
  | .console _ | .select _ | .browse _ _ => True

instance (app : App) : ∀ a, Decidable (app.settled a)
  | .onActivityResult _ =>
      inferInstanceAs (Decidable (∀ wk ∈ app.console.u.workers, _))
  | .console _ | .select _ | .browse _ _ =>
      inferInstanceAs (Decidable True)

/-- A thread on its way to startOTAUpdate finds a path, and every path
found so far was one. -/
structure Console.Ready (c : Console) : Prop where
  fresh : ∀ wk ∈ c.u.workers, wk.Fresh
  path : ∀ wk ∈ c.u.workers, wk.waits = true → c.fwFilePath ≠ ""
  paths : "" ∉ c.paths

/-- One thread goes on and starts no call it had not to make. -/
theorem Console.Ready.moved {w : Nat} {wk wk' : Worker} (hi : c.Ready)
    (hw : c.u.workers[w]? = some wk)
    (hworkers : c'.u.workers = c.u.workers.set w wk')
    (hpath : c'.fwFilePath = c.fwFilePath) (hfresh : wk'.Fresh)
    (hwaits : wk'.waits = true → wk.waits = true)
    (hpaths : "" ∉ c'.paths) : c'.Ready := by
  refine ⟨?_, ?_, hpaths⟩
  · intro wk₁ hwk₁
    rw [hworkers] at hwk₁
    rcases List.mem_or_eq_of_mem_set hwk₁ with hold | rfl
    · exact hi.fresh wk₁ hold
    · exact hfresh
  · intro wk₁ hwk₁ hwait
    rw [hworkers] at hwk₁
    rw [hpath]
    rcases List.mem_or_eq_of_mem_set hwk₁ with hold | rfl
    · exact hi.path wk₁ hold hwait
    · exact hi.path wk (List.mem_of_getElem? hw) (hwaits hwait)

/-- A click on Start is taken only with a path, which stays until the
thread has read it. -/
theorem Console.Ready.onStart (hi : c.Ready) : c.onStart.Ready := by
  by_cases hpath : c.fwFilePath = ""
  · have hsame : c.onStart = c := if_pos hpath
    rwa [hsame]
  · rcases c.onStart_inv with hsame | ⟨-, hnew⟩
    · rwa [hsame]
    · rw [hnew]
      refine ⟨?_, fun _ _ _ => hpath, hi.paths⟩
      intro wk hwk
      rcases List.mem_append.mp hwk with hwk | hwk
      · exact hi.fresh wk hwk
      · cases List.mem_singleton.mp hwk
        exact fun _ => rfl

theorem Console.Ready.step (hi : c.Ready)
    (h : Console.step cs c b = some c') (hb : b.returned = false) :
    c'.Ready := by
  cases Console.step_inv h with
  | start => exact hi.onStart
  | file path ha => rcases ha with rfl | ⟨rfl, -⟩ <;> cases hb
  | @worker w i wk wk' hw hheld hstep =>
      obtain ⟨hfresh, hwaits⟩ := Worker.fresh_of_step hstep
        (hi.fresh wk (List.mem_of_getElem? hw))
      refine hi.moved hw rfl rfl hfresh ?_ hi.paths
      rw [hwaits]
      exact id
  | @line w x hheld => cases x <;> exact ⟨hi.fresh, hi.path, hi.paths⟩
  | @native w wk hw hst isVerboseLog stack =>
      have hwk := List.mem_of_getElem? hw
      refine hi.moved hw rfl rfl ?_ ?_ ?_
      · intro hpc
        have hnone := hi.fresh wk hwk hpc
        rw [hst] at hnone
        cases hnone
      · intro hwait
        cases hwait
      · intro hempty
        rcases List.mem_append.mp hempty with hold | hnew
        · exact hi.paths hold
        · refine hi.path wk hwk ?_ (List.mem_singleton.mp hnew).symm
          rw [Worker.waits, hst]
  | @clear w wk hw =>
      exact hi.moved hw rfl rfl (hi.fresh wk (List.mem_of_getElem? hw)) id
        hi.paths
  | @logcat w wk m hw hpc hm =>
      exact hi.moved hw rfl rfl (hi.fresh wk (List.mem_of_getElem? hw)) id
        hi.paths
  | clean | verboseLog | handle | flag | proc =>
      exact ⟨hi.fresh, hi.path, hi.paths⟩

theorem App.ready_step (hi : app.console.Ready)
    (hok : app.settled a)
    (h : App.step toLowerCase cs app a = some app') :
    app'.console.Ready := by
  cases App.step_inv h with
  | console hb hc => exact hi.step hc hb
  | select | browse => exact hi
  | onActivityResult hs =>
      refine ⟨hi.fresh, ?_, hi.paths⟩
      intro wk hwk hwait
      exact absurd hwait (Bool.eq_false_iff.mp (hok wk hwk))

/-- What a settled run over files that stay keeps of app and console, for
the paths to be read off. -/
theorem App.from_of_reach
    (h : Lts.Reach (App.step toLowerCase cs)
      (fun app a => app.settled a ∧ a.asks fs) App.loaded app) :
    app.From (Browsing.Among toLowerCase fs) (Offered fs)
      ∧ app.console.Ready := by
  refine h.invariant (I := fun app =>
    app.From (Browsing.Among toLowerCase fs) (Offered fs)
      ∧ app.console.Ready) ⟨App.From.loaded _ _, ?_⟩ ?_
  · refine ⟨?_, ?_, List.not_mem_nil⟩ <;> intro wk hwk <;> cases hwk
  · intro s a s' hi hok hs
    refine ⟨App.From.step ?_ ?_ ?_ hi.1 hs, App.ready_step hi.2 hok.1 hs⟩
    · rintro fs' rfl
      cases hok.2
      exact Browsable.mnt.among toLowerCase
    · rintro k b s₁ s₂ rfl hgood hstep
      exact hgood.step hok.2 hstep
    · intro p hgood
      exact hgood p rfl

/-- In every run of the app over files that stay as they are, in which no
browser returns while a thread is on its way to startOTAUpdate: a path
startOTAUpdate is called with is one of the files offered. -/
theorem picked_offered
    (h : Lts.Reach (App.step toLowerCase cs)
      (fun app a => app.settled a ∧ a.asks fs) App.loaded app)
    (p : String) (hp : p ∈ app.console.paths) : Offered fs p := by
  obtain ⟨hfrom, hready⟩ := App.from_of_reach h
  refine hfrom.paths p hp ?_
  rintro rfl
  exact hready.paths hp

theorem pick_asks (k : Nat) : ∀ a ∈ pick k, a.asks (.withCard true) := by
  simp [pick, AppAct.asks, BrowseAct.asks]

/-- The image is picked and started. -/
def pickAndStart : List AppAct := pick 0 ++ (clickAgain 0).map .console

def pickedStarted : App :=
  (Lts.run (App.step String.toLower .unsigned) App.settled App.loaded
    pickAndStart).getD App.loaded

theorem picked_offered_card :
    "/mnt/sdcard/fw.img" ∈ pickedStarted.console.paths
      ∧ Offered (Files.withCard true) "/mnt/sdcard/fw.img" :=
  have hrun : Lts.Run (App.step String.toLower .unsigned) App.settled
      App.loaded pickAndStart pickedStarted :=
    Lts.Run.of_isSome (by decide +kernel)
  have hasks : ∀ a ∈ pickAndStart, a.asks (Files.withCard true) := by
    intro a ha
    rcases List.mem_append.mp ha with ha | ha
    · exact pick_asks 0 a ha
    · obtain ⟨b, -, rfl⟩ := List.mem_map.mp ha
      exact trivial
  have hp : "/mnt/sdcard/fw.img" ∈ pickedStarted.console.paths := by
    decide +kernel
  ⟨hp, picked_offered (hrun.restrict hasks).reach _ hp⟩

end BtOta
