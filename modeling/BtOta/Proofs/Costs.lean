/-
What is left to do in the process.

A call of ota_update that is under way has a bounded number of steps
before it, as long as its records advance (`session_ends` counts them
from where the file is loaded). Here each place a call can stand at is
given its number, from before the file is opened to the return
(`Sender.left`), and each place of a reader the steps before it reads
again (`RPc.left`). The process costs what its last call and its readers
have left; a step of either lowers it, but for a report that is read, a
reader that is created, and a call that is made.
-/
import BtOta.Proofs.Ending
import BtOta.Proofs.Readers

namespace BtOta

variable {cs : CharSign} {g g' : Shared} {l l' : Sender} {es : List Event}
  {i : SIn} {j : RIn} {pc pc' : RPc}

-- ================================================================ ota_update

/-- The steps a call has before it opens a file, and with the largest
file there can be. -/
def callSteps : Nat := 9075 * fwBufSize + 6

/-- The steps a call has left, at most: those behind the flag, those of
the packet held, and those of the records the file has room for. -/
def Sender.left (g : Shared) (l : Sender) : Nat :=
  match l.pc with
  | .init => callSteps
  | .load => callSteps - 1
  | .flag _ | .verdict _ | .stop _ | .quitThread _ | .quitServ _
  | .returned _ | .undefined => l.pc.work 0 0
  | _ => work g l

theorem Sender.left_le_work (hinit : l.pc ≠ .init) (hload : l.pc ≠ .load) :
    l.left g ≤ work g l := by
  unfold left work
  cases hpc : l.pc with
  | init => exact absurd hpc hinit
  | load => exact absurd hpc hload
  | create | next | newStage | assemble | retry | write | wait | pollNext
  | pollErr | pollComplete => exact Nat.le_refl _
  | flag v | verdict v | stop v | quitThread v | quitServ v | returned v
  | undefined => exact Nat.le_add_left _ _

/-- Only the number of packets built counts of the shared variables, so
no step of a reader changes what is left. -/
theorem Sender.left_congr (h : g'.totalCmdNum = g.totalCmdNum) :
    l.left g' = l.left g := by
  have hwork : work g' l = work g l := by
    unfold work places
    rw [h]
  unfold left
  rw [hwork]

/-- Every step of a call lowers what it has left, if its records advance,
from before the file is opened on. -/
theorem SStep.left_lt (h : SStep cs g l i g' l' es)
    (hcount : l.pc = .assemble → l.sendCount = 0)
    (hadv : i = .tick → l.pc = .assemble →
      (g.totalCmdNum = 0 ∨ 0 < l.currentCmdLen)
        ∧ l.nextIdx < l.fwDataLen) :
    l'.left g' < l.left g := by
  have hwork : l.pc ≠ .init → l.pc ≠ .load → l'.pc ≠ .undefined →
      work g' l' < work g l :=
    fun hinit hload hdef => h.work_lt ⟨hinit, hload⟩ hcount hadv hdef
  cases h with
  | init pc => simp [Sender.left, pc, callSteps]
  | openFail pc =>
      simp [Sender.left, pc, callSteps, SPc.work, fwBufSize]
  | opened pc file hfit =>
      have hplaces : BtOta.places g { l.load file with pc := .create }
          ≤ file.length := by
        unfold BtOta.places
        split
        · exact Nat.le_refl _
        · exact Nat.sub_le _ _
      have hload : l.left g = callSteps - 1 := by simp [Sender.left, pc]
      show BtOta.places g { l.load file with pc := .create } * 9075 + 4 < _
      rw [hload, callSteps]
      omega
  | openOver pc =>
      simp [Sender.left, pc, callSteps, SPc.work, fwBufSize]
  | crash pc hasm =>
      have hone : l.left g = BtOta.places g l * 9075 + 1 := by
        simp [Sender.left, pc, work, SPc.work]
      rw [hone]
      exact Nat.succ_pos _
  | flag pc | verdict pc | stop pc | quitThread pc | quitServ pc =>
      simp [Sender.left, pc, SPc.work]
  | created pc | next pc | newStage pc | assemble pc | retry pc | giveUp pc
  | wrote pc | writeFail pc | poll pc | timeout pc | nextHit pc
  | nextMiss pc | errHit pc | errMiss pc | completeHit pc
  | completeMiss pc =>
      have hold : l.left g = work g l := by simp [Sender.left, pc]
      rw [hold]
      refine Nat.lt_of_le_of_lt (Sender.left_le_work ?_ ?_)
        (hwork ?_ ?_ ?_) <;> simp [pc]

theorem SStep.keeps_cleared (h : SStep cs g l i g' l' es)
    (hi : l.pc.cleared = true → l.sendCount = 0) :
    l'.pc.cleared = true → l'.sendCount = 0 := by
  cases h with
  | next pc => exact fun _ => rfl
  | newStage pc => exact fun _ => hi (by rw [pc]; rfl)
  | _ =>
      intro hclear
      cases hclear

theorem Shared.length_verbose (g : Shared) (m : Msg) :
    (g.verbose m).length ≤ 1 := by
  unfold verbose
  split <;> simp

/-- No step does more than four things, so it adds no more than four
lines to the log. -/
theorem SStep.length_le (h : SStep cs g l i g' l' es) : es.length ≤ 4 := by
  cases h with
  | init pc => exact Nat.le_trans (Shared.length_verbose ..) (by decide)
  | created pc ret => split <;> simp
  | retry pc hlt => split <;> simp
  | wrote pc res hres =>
      -- the worst step: a dump, the packet and the result of write
      have hdump := g.length_verbose (.dump l.packet)
      have hwrote := g.length_verbose (.wrote res)
      simp only [List.length_append, List.length_singleton]
      omega
  | writeFail pc res hres =>
      have hdump := g.length_verbose (.dump l.packet)
      simp only [List.length_append, List.length_cons, List.length_nil]
      omega
  | assemble pc hasm =>
      -- START, DATA and FINISH each log their own lines, and a packet takes
      -- one branch of each
      obtain ⟨-, g₁, remain, es₁, hdata, -, -, rfl⟩ := parts_of_assemble hasm
      have hstart : (startLog ((l.filled cs).cmdBuf 5)).length ≤ 1 := by
        unfold startLog
        split <;> simp
      have hfin : ∀ (g : Shared) (cmd : UInt8),
          (finishPart g cmd).2.length ≤ 1 := by
        intro g cmd
        unfold finishPart
        split <;> simp
      have hdata' : es₁.length ≤ 2 := by
        simp only [dataPart] at hdata
        split at hdata
        case isFalse => cases hdata; simp
        case isTrue =>
          obtain ⟨⟨num2, ms⟩, hprogress, hdata⟩ :=
            Option.map_eq_some_iff.mp hdata
          cases hdata
          have hms : ms.length ≤ 1 := by
            unfold progress at hprogress
            split at hprogress
            · cases hprogress
            · split at hprogress <;> cases hprogress <;> simp
          have hverbose := g.length_verbose (.sendData
            ((l.filled cs).cmdBuf 4)
            (cs.seq ((l.filled cs).cmdBuf 6) ((l.filled cs).cmdBuf 7)))
          simp only [List.length_append, List.length_map]
          omega
      have hfin' := hfin { g₁ with totalCmdNum := g₁.totalCmdNum + 1 }
        ((l.advance cs).cmdBuf 5)
      simp only [List.length_append]
      omega
  | _ => simp

-- =================================================================== hidRead

/-- The steps a reader has left before it is back at its next read, or at
its end. -/
def RPc.left : RPc → Nat
  | .decide => 7
  | .store _ => 6
  | .test => 5
  | .read => 4
  | .failFlag => 3
  | .failLog => 2
  | .failStop => 1
  | .ended => 0

/-- A report is read. -/
def RIn.brings : RIn → Bool
  | .got (some _) => true
  | .got none | .tick => false

/-- They become fewer but for a report that is read, which pays for the
reader's lap. -/
theorem RStep.left (h : RStep cs g pc j g' pc' es) :
    pc'.left + 1 ≤ pc.left + (if j.brings then 4 else 0) := by
  cases h with
  | report hpc r | stray hpc r => simp [hpc, RPc.left, RIn.brings]
  | enter hpc | leave hpc | readFail hpc | decide hpc | ignore hpc
  | store hpc | failFlag hpc | failLog hpc | failStop hpc =>
      simp [hpc, RPc.left, RIn.brings]

theorem byStatus_length (onSuccess : Stage) (otaStatus : BitVec 32)
    (stat : UInt8) : (byStatus onSuccess otaStatus stat).2.length ≤ 1 := by
  unfold byStatus
  split
  · simp
  · split <;> simp

theorem respond_length {rsp : Rsp} {x : Stage} {ms : List Msg}
    (h : respond cs g rsp = some (x, ms)) : ms.length ≤ 2 := by
  have hdata : ∀ a b c stat, (respondData a b c stat).2.length ≤ 1 := by
    intro a b c stat
    unfold respondData
    split
    · exact byStatus_length ..
    · simp
  unfold respond at h
  simp only at h
  split at h
  case isTrue =>
    have hms : (respondStart _ _).2 = ms :=
      congrArg Prod.snd (Option.some.inj h)
    rw [← hms]
    exact Nat.le_succ_of_le (byStatus_length ..)
  case isFalse =>
    split at h
    case isTrue =>
      have hms := congrArg Prod.snd (Option.some.inj h)
      simp only at hms
      have hseq : (if g.isVerboseLog = true
          then [Msg.rspSeq (cs.seq rsp.seq0 rsp.seq1)] else []).length ≤ 1 := by
        split <;> simp
      rw [← hms, List.length_append]
      exact Nat.add_le_add hseq (hdata ..)
    case isFalse =>
      split at h
      case isTrue =>
        have hms : (respondFinish _ _).2 = ms :=
          congrArg Prod.snd (Option.some.inj h)
        rw [← hms]
        exact Nat.le_succ_of_le (byStatus_length ..)
      case isFalse => cases h

theorem RStep.length_le (h : RStep cs g pc j g' pc' es) : es.length ≤ 4 := by
  cases h with
  | report hpc r | stray hpc r =>
      have hdump := g.length_verbose (.dump (Rsp.ofReport r).bytes)
      rw [List.length_cons]
      omega
  | @decide hpc x ms hx =>
      rw [List.length_map]
      exact Nat.le_trans (respond_length hx) (by decide)
  | _ => simp

-- =============================================================== the process

/-- What a call of the process needs to be under way, and what a reader
that reads. A step may be made to cost more than one here. -/
structure Rates where
  call : Nat
  reader : Nat

namespace Proc

/-- What the last call and the readers have left. -/
def cost (r : Rates) (p : Proc) : Nat :=
  r.call * (p.calls.getLast?.elim 0 (Sender.left p.g))
    + r.reader * (p.rdrs.map fun rdr => rdr.2.left).sum

variable {p p' : Proc} {r : Rates} {k : Nat}

/-- The record about to be built advances, inside the file: what
`session_ends` asks, of whichever call builds it. -/
def advancing (p : Proc) : PAct → Prop
  | .send k .tick => ∀ l ∈ p.calls[k]?, l.pc = .assemble →
      (p.g.totalCmdNum = 0 ∨ 0 < l.currentCmdLen)
        ∧ l.nextIdx < l.fwDataLen
  | _ => True

instance (p : Proc) : ∀ a, Decidable (advancing p a)
  | .send k .tick =>
      inferInstanceAs (Decidable (∀ l ∈ p.calls[k]?, _ → _ ∧ _))
  | .send _ (.opened _) | .send _ (.created _) | .send _ (.wrote _)
  | .call _ _ | .read _ _ => inferInstanceAs (Decidable True)

/-- Where a packet is built, none of it has been sent, so it has all of
its attempts before it. -/
def Cleared (p : Proc) : Prop :=
  ∀ l ∈ p.calls, l.pc.cleared = true → l.sendCount = 0

theorem Cleared.step {a : PAct} (hi : p.Cleared)
    (h : Proc.step cs p a = some p') : p'.Cleared := by
  cases step_inv h with
  | call param2 stack =>
      intro l hl
      rcases List.mem_append.mp hl with hl | hl
      · exact hi l hl
      · rw [List.mem_singleton.mp hl]
        exact fun _ => rfl
  | send hk hm =>
      intro l hl
      rcases List.mem_or_eq_of_mem_set hl with hl | rfl
      · exact hi l hl
      · exact hm.keeps_cleared (hi _ (List.mem_of_getElem? hk))
  | read hj hm => exact hi

theorem sum_spawn (p : Proc) (k : Nat) (i : SIn) :
    ((spawn p.rdrs k i).map fun rdr => rdr.2.left).sum
      ≤ (p.rdrs.map fun rdr => rdr.2.left).sum + 5 := by
  unfold spawn
  split
  · simp [RPc.left]
  · exact Nat.le_add_right _ _

/-- A step of the last call lowers what it has left, and may create a
reader, which it has saved up for. -/
theorem cost_send {snd snd' : Sender} (hp : p.Sequential)
    (hclear : p.Cleared) (hok : p.advancing (.send k i))
    (hk : p.calls[k]? = some snd) (h : SStep cs p.g snd i g' snd' es) :
    cost r { g := g', calls := p.calls.set k snd', rdrs := spawn p.rdrs k i
             trace := p.trace ++ es } + r.call
      ≤ cost r p + r.reader * 5 := by
  have hlast := hp.last hk h
  have hlt : snd'.left g' < snd.left p.g := by
    apply h.left_lt
    · intro hpc
      exact hclear snd (List.mem_of_getElem? hk) (by rw [hpc]; rfl)
    · rintro rfl
      exact hok snd hk
  have hold : p.calls.getLast? = some snd := by
    rw [List.getLast?_eq_getElem?, hlast]
    exact hk
  have hnew : (p.calls.set k snd').getLast? = some snd' := by
    rw [List.getLast?_eq_getElem?, List.length_set, hlast]
    exact Threads.moved hk
  have hcall := Nat.mul_le_mul_left r.call (Nat.succ_le_of_lt hlt)
  have hrdrs := Nat.mul_le_mul_left r.reader (p.sum_spawn k i)
  rw [Nat.mul_succ] at hcall
  rw [Nat.mul_add] at hrdrs
  unfold cost
  simp only [hold, hnew, Option.elim_some]
  omega

/-- A step of a reader lowers what it has left, but for a report, which
is paid for from outside. -/
theorem cost_read {n : Nat} {pc pc' : RPc} {b : RIn}
    (hn : p.rdrs[n]? = some (k, pc)) (h : RStep cs p.g pc b g' pc' es) :
    cost r { p with
        g := g', rdrs := p.rdrs.set n (k, pc'), trace := p.trace ++ es }
        + r.reader
      ≤ cost r p + r.reader * (if b.brings then 4 else 0) := by
  have hsum := Threads.sum_moved (x := (k, pc')) (fun rdr => rdr.2.left) hn
  have hsame : Sender.left g' = Sender.left p.g := by
    funext l
    exact Sender.left_congr h.frame.1
  unfold cost
  simp only [hsame] at hsum ⊢
  have hleft := h.left
  have hrise : ((p.rdrs.set n (k, pc')).map fun rdr => rdr.2.left).sum + 1
      ≤ (p.rdrs.map fun rdr => rdr.2.left).sum
        + (if b.brings then 4 else 0) := by omega
  have hmul := Nat.mul_le_mul_left r.reader hrise
  rw [Nat.mul_succ, Nat.mul_add] at hmul
  omega

/-- A call is made when the last one has nothing left, so its whole cost
comes from outside. -/
theorem cost_call (param2 : Option String) (stack : Nat → UInt8) :
    cost r { p with calls := p.calls ++ [Sender.call param2 stack] }
      ≤ cost r p + r.call * callSteps := by
  unfold cost
  simp only [List.getLast?_append, List.getLast?_singleton, Option.some_or,
    Option.elim_some]
  have hleft : (Sender.call param2 stack).left p.g = callSteps := rfl
  rw [hleft]
  omega

end Proc

/-- What a step of the process pays. -/
def PAct.pays (r : Rates) : PAct → Nat
  | .call _ _ => 0
  | .send _ _ => r.call
  | .read _ _ => r.reader

/-- And what it is paid: for the call that is made, a reader that is
created and a report that is read. -/
def PAct.earns (r : Rates) : PAct → Nat
  | .call _ _ => r.call * callSteps
  | .send _ _ => r.reader * 5
  | .read _ i => r.reader * (if i.brings then 4 else 0)

namespace Proc

variable {p p' : Proc}

/-- Every step of the process pays its price, out of what it is paid and
what its calls and readers had left. -/
theorem cost_step {a : PAct} (r : Rates) (hp : p.Sequential)
    (hclear : p.Cleared) (hok : p.advancing a)
    (h : Proc.step cs p a = some p') :
    p'.cost r + a.pays r ≤ p.cost r + a.earns r := by
  cases step_inv h with
  | call param2 stack => exact cost_call param2 stack
  | send hk hm => exact cost_send hp hclear hok hk hm
  | read hj hm => exact cost_read hj hm

end Proc

end BtOta
