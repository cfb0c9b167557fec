/-
OTAActivity and the browsers it starts.

A click on the button for the file starts SelectUpgradedFileActivity, and
what that returns comes to onActivityResult. Two clicks on the button can
come before the first browser is there, and a click on Start behind them:
so any number of browsers is open, and the console's own buttons stay
open to clicks throughout. `fwFilePath` is set by nothing else.
-/
import BtOta.Browser
import BtOta.Console

namespace BtOta

/-- The two activities: one console, and as many browsers as have been
started. -/
structure App where
  console : Console
  browsers : List Browsing

/-- What happens: a step of the console, a browser started, a step of a
browser, or its result coming back. -/
inductive AppAct
  /-- a step of the console that is no result of a browser -/
  | console (a : ConAct)
  /-- btnSelectUpgradedFile.onClick -/
  | select (fs : Files)
  /-- a step of browser `k` -/
  | browse (k : Nat) (a : BrowseAct)
  /-- browser `k` has finished -/
  | onActivityResult (k : Nat)

/-- It is a result of a browser. In the app these steps come from
onActivityResult alone, so nobody else may take them. -/
def ConAct.returned : ConAct → Bool
  | .selected _ | .canceled => true
  | _ => false

/-- What onActivityResult takes a browser's result for; a browser that is
still open, or died, has none. -/
def Browsing.resultAct : Browsing → Option ConAct
  | .finished (some path) => some (.selected path)
  | .finished none => some .canceled
  | .showing _ | .crashed => none

namespace App

/-- OTAActivity has been created. -/
def loaded : App := ⟨Console.loaded, []⟩

/-- One step. A result is handed over once: the browser that gave it is
gone. -/
def step (toLowerCase : String → String) (cs : CharSign) (app : App) :
    AppAct → Option App
  | .console a =>
      if a.returned then none
      else (Console.step cs app.console a).map fun c =>
        { app with console := c }
  | .select fs =>
      some { app with
        browsers := app.browsers ++ [Browsing.onCreate toLowerCase fs] }
  | .browse k a => do
      let s ← app.browsers[k]?
      let s' ← Browsing.step toLowerCase s a
      some { app with browsers := app.browsers.set k s' }
  | .onActivityResult k => do
      let s ← app.browsers[k]?
      let a ← s.resultAct
      let c ← Console.step cs app.console a
      some { console := c, browsers := app.browsers.eraseIdx k }

/-- The steps, by name; those of the console carry the fact that they are
no browser's result. -/
inductive Move (toLowerCase : String → String) (cs : CharSign) (app : App) :
    AppAct → App → Prop
  | console {a : ConAct} {c : Console} (ha : a.returned = false)
      (h : Console.step cs app.console a = some c) :
      Move toLowerCase cs app (.console a) { app with console := c }
  | select (fs : Files) :
      Move toLowerCase cs app (.select fs)
        { app with
          browsers := app.browsers ++ [Browsing.onCreate toLowerCase fs] }
  | browse {k : Nat} {a : BrowseAct} {s s' : Browsing}
      (hs : s ∈ app.browsers)
      (h : Browsing.step toLowerCase s a = some s') :
      Move toLowerCase cs app (.browse k a)
        { app with browsers := app.browsers.set k s' }
  | onActivityResult {k : Nat} {result : Option String}
      (hs : Browsing.finished result ∈ app.browsers) :
      Move toLowerCase cs app (.onActivityResult k)
        { console := { app.console with fwFilePath := result.getD "" }
          browsers := app.browsers.eraseIdx k }

theorem step_inv {toLowerCase : String → String} {cs : CharSign}
    {app app' : App} {a : AppAct}
    (h : step toLowerCase cs app a = some app') :
    Move toLowerCase cs app a app' := by
  cases a with
  | console a =>
      simp only [step] at h
      split at h
      case isTrue => cases h
      case isFalse ha =>
        obtain ⟨c, hc, rfl⟩ := Option.map_eq_some_iff.mp h
        exact .console (Bool.eq_false_iff.mpr ha) hc
  | select fs =>
      cases h
      exact .select fs
  | browse k a =>
      simp only [step, Option.bind_eq_bind, Option.bind_eq_some_iff] at h
      obtain ⟨s, hs, s', hs', h⟩ := h
      cases h
      exact .browse (List.mem_of_getElem? hs) hs'
  | onActivityResult k =>
      simp only [step, Option.bind_eq_bind, Option.bind_eq_some_iff] at h
      obtain ⟨s, hs, a, ha, c, hc, h⟩ := h
      cases h
      cases s with
      | showing b => cases ha
      | crashed => cases ha
      | finished result =>
          cases result with
          | none | some path =>
              cases ha
              cases hc
              exact .onActivityResult (List.mem_of_getElem? hs)

end App

end BtOta
