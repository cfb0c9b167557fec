/-
The whole of an upgrade: OTAActivity with its browsers, the channel and
the device.

It is `World` with the browsers over its console. They work as in `App`;
what they return reaches the world's console, and nothing else selects a
file there.
-/
import BtOta.App
import BtOta.World

namespace BtOta

/-- The world and the browsers. The console is the world's own, so there
is one console and one file path. -/
structure Upgrade where
  w : World
  browsers : List Browsing

/-- What happens: a step of the world, or one that is about the browsers,
their results included. -/
inductive UpAct
  | world (a : WAct)
  /-- a step of the app's that is about its browsers -/
  | app (a : AppAct)

/-- It is a result of a browser, which a step of the world may not bring.
-/
def WAct.returned : WAct → Bool
  | .app a => a.returned
  | .deliver _ | .answer _ | .lose | .drop _ => false

/-- It is a step of the console alone; the world takes those. -/
def AppAct.own : AppAct → Bool
  | .console _ => true
  | .select _ | .browse _ _ | .onActivityResult _ => false

namespace Upgrade

/-- The app has been started. -/
def loaded : Upgrade := ⟨World.loaded, []⟩

/-- The app of it: the world's console with the browsers, and without the
channel and the device. -/
def toApp (s : Upgrade) : App := ⟨s.w.c, s.browsers⟩

/-- One step. A browser's result changes the world's console and nothing
else of the world. -/
def step (toLowerCase : String → String) (cs : CharSign) (s : Upgrade) :
    UpAct → Option Upgrade
  | .world a =>
      if a.returned then none
      else (World.step cs s.w a).map fun w => { s with w := w }
  | .app a =>
      if a.own then none
      else (App.step toLowerCase cs s.toApp a).map fun app =>
        { w := { s.w with c := app.console }, browsers := app.browsers }

variable {toLowerCase : String → String} {cs : CharSign}
  {s s' s₀ : Upgrade} {a : UpAct} {ok : Upgrade → UpAct → Prop}

/-- What the world does to its console, the console does, and no browser
has returned by it. This is what lets the two halves be joined. -/
theorem world_console {w w' : World} {b : WAct}
    (h : World.step cs w b = some w') (hb : b.returned = false) :
    w'.c = w.c ∨ ∃ a, a.returned = false
      ∧ Console.step cs w.c a = some w'.c := by
  cases World.step_inv h with
  | @aside b c hc => exact Or.inr ⟨b, hb, hc⟩
  | call hc | send hc | read _ hc | deliver _ hc =>
      exact Or.inr ⟨_, rfl, hc⟩
  | answer | lose | drop => exact Or.inl rfl

/-- A run of an upgrade is a run of its app, under whatever guard the
console's own steps do not touch. -/
theorem reach_app {ok' : App → AppAct → Prop}
    (h : Lts.Reach (step toLowerCase cs) ok s₀ s)
    (hconsole : ∀ app a, ok' app (.console a))
    (happ : ∀ s a, ok s (.app a) → ok' s.toApp a) :
    Lts.Reach (App.step toLowerCase cs) ok' s₀.toApp s.toApp := by
  refine h.invariant (I := fun s =>
    Lts.Reach (App.step toLowerCase cs) ok' s₀.toApp s.toApp)
    (Lts.Reach.refl _) ?_
  intro s a s' hr hok hs
  cases a with
  | world b =>
      simp only [step] at hs
      split at hs
      case isTrue => cases hs
      case isFalse hb =>
        obtain ⟨w, hw, rfl⟩ := Option.map_eq_some_iff.mp hs
        rcases world_console hw (Bool.eq_false_iff.mpr hb) with hsame | hstep
        · have heq : toApp { s with w := w } = s.toApp := by
            unfold toApp
            rw [hsame]
          rwa [heq]
        · obtain ⟨b', hb', hstep⟩ := hstep
          refine hr.tail (hconsole _ b') ?_
          show (if b'.returned then none else _) = _
          rw [if_neg (Bool.eq_false_iff.mp hb')]
          show (Console.step cs s.w.c b').map _ = _
          rw [hstep]
          rfl
  | app b =>
      simp only [step] at hs
      split at hs
      case isTrue => cases hs
      case isFalse =>
        obtain ⟨app, happ', rfl⟩ := Option.map_eq_some_iff.mp hs
        exact hr.tail (happ s b hok) happ'

/-- And it is a run of its world, in which a browser's result is the
user's choice of a file. -/
theorem reach_world {ok' : World → WAct → Prop}
    (h : Lts.Reach (step toLowerCase cs) ok s₀ s)
    (hworld : ∀ s a, ok s (.world a) → ok' s.w a)
    (hreturn : ∀ w a, a.returned = true → ok' w (.app a)) :
    Lts.Reach (World.step cs) ok' s₀.w s.w := by
  refine h.invariant (I := fun s =>
    Lts.Reach (World.step cs) ok' s₀.w s.w) (Lts.Reach.refl _) ?_
  intro s a s' hr hok hs
  cases a with
  | world b =>
      simp only [step] at hs
      split at hs
      case isTrue => cases hs
      case isFalse =>
        obtain ⟨w, hw, rfl⟩ := Option.map_eq_some_iff.mp hs
        exact hr.tail (hworld s b hok) hw
  | app b =>
      simp only [step] at hs
      split at hs
      case isTrue => cases hs
      case isFalse hown =>
        obtain ⟨app, happ, rfl⟩ := Option.map_eq_some_iff.mp hs
        cases App.step_inv happ with
        | console => exact absurd rfl hown
        | select | browse => exact hr
        | @onActivityResult k result =>
            cases result with
            | none =>
                refine hr.tail (a := .app .canceled)
                  (hreturn _ _ rfl) ?_
                simp [World.step, World.reports, World.written,
                  Console.step, toApp]
            | some path =>
                refine hr.tail (a := .app (.selected path))
                  (hreturn _ _ rfl) ?_
                simp [World.step, World.reports, World.written,
                  Console.step, toApp]

end Upgrade

end BtOta
