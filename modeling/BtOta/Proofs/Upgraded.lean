/-
"Success" on the screen: the picked file is on the device.

`shown_last` says it of the image that the last click's call reads, and
`picked_offered` where its path comes from. A run of the whole is a run
of both (`Upgrade.reach_world` and `Upgrade.reach_app`), and call number
`n` is the one that was given path number `n`: so where a file's image
is what its path says, the screen says "Success" only when the packets
of an offered file have all arrived.
-/
import BtOta.Upgrade
import BtOta.Proofs.Picked

namespace BtOta

variable {toLowerCase : String → String} {cs : CharSign} {fs : Files}
  {c c' : Console} {b : ConAct} {files : Nat → Image}
  {content : String → Image}

/-- Every call of ota_update has been given a path, so call number `n`
has path number `n`. -/
theorem Console.paths_step (h : Console.step cs c b = some c')
    (hi : c.paths.length = c.u.proc.calls.length) :
    c'.paths.length = c'.u.proc.calls.length := by
  cases Console.step_inv h with
  | start =>
      rcases c.onStart_inv with hsame | ⟨-, hnew⟩
      · rwa [hsame]
      · rwa [hnew]
  | @line w x hheld => cases x <;> exact hi
  | native hw hst isVerboseLog stack =>
      simp only [List.length_append, List.length_singleton, hi]
  | proc hp => exact hi.trans (Console.proc_calls h).symm
  | clean | verboseLog | file | worker | handle | flag | clear | logcat =>
      exact hi

namespace Upgrade

/-- The runs `shown_last` speaks of, over browsers whose files stay as
they are and that do not return while a thread is on its way to
startOTAUpdate. -/
def orderly (files : Nat → Image) (s : Upgrade) : UpAct → Prop
  | .world a => World.fair files s.w a ∧ World.calm s.w a
  | .app a => s.toApp.settled a

instance (files : Nat → Image) (s : Upgrade) :
    ∀ a, Decidable (orderly files s a)
  | .world _ => inferInstanceAs (Decidable (_ ∧ _))
  | .app a => inferInstanceAs (Decidable (s.toApp.settled a))

end Upgrade

/-- It is `fs` that answers. -/
def UpAct.asks (fs : Files) : UpAct → Prop
  | .world _ => True
  | .app a => a.asks fs

/-- The image on the card is picked, started and shown to succeed. -/
def upgradeCard : List UpAct :=
  (pick 0).map .app ++ (clickAgain 0).map (.world ∘ .app)
    ++ ((answeredCall 0 0 ++ returns 0).flatMap onAir).map .world
    ++ showSession.map (.world ∘ .app)

def upgraded : Upgrade :=
  (Lts.run (Upgrade.step String.toLower .unsigned)
    (Upgrade.orderly fun _ => dataImage) Upgrade.loaded upgradeCard).getD
    Upgrade.loaded

end BtOta
