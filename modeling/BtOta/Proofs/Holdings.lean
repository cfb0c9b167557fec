/-
What the library has open, and who answers for it.

A call of reconnect holds the sockets it has opened until it has closed
them or has stored them (`Connect.holds`); a call of ota_update holds
its file. In a run whose entries are called one after another nobody
closes what such an operation holds but the operation itself
(`CallsInv`, `FilesInv`), whatever is open and the library's own is held
by an operation that is live, unless a connection has been established
(`Accounts`), and behind its first close quit_serv finds nothing of the
library's under the number in `ctrl`, nor, at its last close, under the
number 0 (`QuitsInv`).
-/
import BtOta.Proofs.Alone

namespace BtOta

open Descriptors

-- ================================================================ vocabulary

/-- What call `c` of reconnect has open, each with its number, oldest
first: what it would have to close to leave no trace. -/
def Connect.holds (c : Nat) (cn : Connect) : List (Nat × Desc) :=
  match cn.pc with
  | .openCtl | .returned _ => []
  | .socket .ctrl | .closeCtl => [(cn.ctl, .hidp c)]
  | .bind .ctrl | .connect .ctrl | .drop .ctrl =>
      [(cn.ctl, .hidp c), (cn.sk, .channel c .ctrl)]
  | .socket .intr | .closeCsk =>
      [(cn.ctl, .hidp c), (cn.csk, .channel c .ctrl)]
  | .bind .intr | .connect .intr | .drop .intr =>
      [(cn.ctl, .hidp c), (cn.csk, .channel c .ctrl),
        (cn.sk, .channel c .intr)]
  | .storeCtrl | .storeIntr | .storeStatus =>
      [(cn.ctl, .hidp c), (cn.csk, .channel c .ctrl),
        (cn.isk, .channel c .intr)]

/-- A call of reconnect has what it holds, and has stored what it has
come past in `ctrl` and `intr`. -/
structure CallInv (net : Net) (c : Nat) (cn : Connect) : Prop where
  kept : AllOpen net.fds (cn.holds c)
  ctrl : cn.pc = .storeIntr ∨ cn.pc = .storeStatus → net.ctrl = cn.csk
  intr : cn.pc = .storeStatus → net.intr = cn.isk

/-- The number stands for nothing of the library's: it is free, or
another's. -/
def Foreign (t : Table Desc) (n : Nat) : Prop :=
  ∀ d, t n = some d → d.ours = false

/-- What a run of quit_serv has put behind it: the numbers it has closed
stand for nothing of the library's any more. -/
structure QuitInv (net : Net) (pc : QPc) : Prop where
  ctrl : pc ≠ .ctrl → pc ≠ .done → Foreign net.fds net.ctrl
  zero : pc = .isg → Foreign net.fds 0

namespace Library

def CallsInv (l : Library) : Prop :=
  ∀ c cn, l.connects[c]? = some cn → CallInv l.net c cn

/-- A call that has its file open is in the load loop, or has run off
the end of the buffer there. -/
def LoadsInv (l : Library) : Prop :=
  ∀ k n, l.file k = some n → ∃ snd, l.proc.calls[k]? = some snd
    ∧ (snd.pc = .load ∨ snd.pc = .undefined)

def FilesInv (l : Library) : Prop :=
  ∀ k n, l.file k = some n → l.net.fds n = some (.firmware k)

/-- What is open and the library's own is held by an operation, unless a
connection has been established, which is where a descriptor is
forgotten. -/
def Accounts (l : Library) : Prop :=
  ∀ n d, l.net.fds n = some d → d.ours = true →
    (∃ c, ∃ cn : Connect, l.connects[c]? = some cn ∧ (n, d) ∈ cn.holds c)
      ∨ (∃ k, l.file k = some n)
      ∨ ∃ c, .established c ∈ l.net.log

def QuitsInv (l : Library) : Prop :=
  ∀ (q : Nat) pc, l.quits[q]? = some pc → QuitInv l.net pc

end Library

variable {cs : CharSign} {l l' : Library} {a : LibAct} {net net' : Net}
  {c : Nat} {cn cn' : Connect}

-- ======================================================= the holds of a call

theorem Connect.holds_of_returned (h : cn.returned = true) :
    cn.holds c = [] := by
  unfold Connect.returned at h
  split at h
  case h_1 ret hpc => simp only [Connect.holds, hpc]
  case h_2 => cases h

/-- What a call holds is its own: its HIDP control socket, or one of its
two channels. -/
theorem Connect.holds_desc {x : Nat × Desc} (h : x ∈ cn.holds c) :
    x.2 = .hidp c ∨ ∃ p, x.2 = .channel c p := by
  unfold Connect.holds at h
  split at h <;> simp only [List.mem_cons, List.not_mem_nil, or_false] at h
  all_goals grind

theorem Connect.holds_ours {x : Nat × Desc} (h : x ∈ cn.holds c) :
    x.2.ours = true := by
  rcases Connect.holds_desc h with hd | ⟨p, hd⟩ <;> rw [hd] <;> rfl

theorem CallInv.of_returned (h : cn.returned = true) :
    CallInv net c cn := by
  refine ⟨?_, ?_, ?_⟩
  · rw [Connect.holds_of_returned h]
    exact allOpen_nil
  · rintro (hpc | hpc) <;> simp [Connect.returned, hpc] at h
  · intro hpc
    simp [Connect.returned, hpc] at h

/-- What leaves alone what the call holds and has stored. -/
theorem CallInv.frame (h : CallInv net c cn)
    (hkept : AllOpen net'.fds (cn.holds c)) (hctrl : net'.ctrl = net.ctrl)
    (hintr : net'.intr = net.intr) : CallInv net' c cn :=
  ⟨hkept, fun hpc => hctrl.trans (h.ctrl hpc),
    fun hpc => hintr.trans (h.intr hpc)⟩

/-- A number is given out beside the call: it was free, so it is none
that the call holds. -/
theorem CallInv.opened {n : Nat} {d : Desc} (h : CallInv net c cn)
    (hfree : net.fds n = none) : CallInv (net.opened n d) c cn :=
  h.frame (h.kept.opened hfree) rfl rfl

/-- A number is freed that stands for nothing of the library's. -/
theorem CallInv.fclose {n : Nat} {d : Desc} (h : CallInv net c cn)
    (hn : net.fds n = some d) (hd : d.ours = false) :
    CallInv (net.fclose n) c cn := by
  refine h.frame (h.kept.closed_of hn fun x hx heq => ?_) rfl rfl
  have hours := Connect.holds_ours hx
  rw [heq, hd] at hours
  cases hours

/-- What a call holds when it has taken a step is open, as long as nobody
else closes it. -/
theorem CStep.kept {i : CIn} (h : CStep c net cn i net' cn')
    (hk : AllOpen net.fds (cn.holds c)) : AllOpen net'.fds (cn'.holds c) := by
  cases h with
  | openCtl pc free => exact allOpen_cons.mpr ⟨opened_self, allOpen_nil⟩
  | noCtl pc => exact allOpen_nil
  | @socket n p pc free =>
      have hold := hk.opened (d := .channel c p) free
      cases p with
      | ctrl =>
          simp only [Connect.holds, pc, allOpen_cons] at hold ⊢
          exact ⟨hold.1, opened_self, allOpen_nil⟩
      | intr =>
          simp only [Connect.holds, pc, allOpen_cons] at hold ⊢
          exact ⟨hold.1, hold.2.1, opened_self, allOpen_nil⟩
  | @noSocket p pc =>
      cases p <;> simpa only [Connect.holds, pc, CPc.refused] using hk
  | @bind p pc => cases p <;> simpa only [Connect.holds, pc] using hk
  | @refuse p pc =>
      rcases pc with pc | pc <;>
        cases p <;> simpa only [Connect.holds, pc] using hk
  | connectCtrl pc | connectIntr pc =>
      simpa only [Connect.holds, pc, Net.say_fds] using hk
  | @drop p pc =>
      cases p with
      | ctrl =>
          simp only [Connect.holds, pc, allOpen_cons] at hk
          obtain ⟨hctl, hsk, -⟩ := hk
          refine AllOpen.closed_of (allOpen_cons.mpr ⟨hctl, allOpen_nil⟩) hsk ?_
          simp [CPc.refused, Connect.holds]
      | intr =>
          simp only [Connect.holds, pc, allOpen_cons] at hk
          obtain ⟨hctl, hcsk, hsk, -⟩ := hk
          refine AllOpen.closed_of
            (allOpen_cons.mpr ⟨hctl, allOpen_cons.mpr ⟨hcsk, allOpen_nil⟩⟩) hsk ?_
          simp [CPc.refused, Connect.holds]
  | closeCsk pc =>
      simp only [Connect.holds, pc, allOpen_cons] at hk
      obtain ⟨hctl, hcsk, -⟩ := hk
      refine AllOpen.closed_of (allOpen_cons.mpr ⟨hctl, allOpen_nil⟩) hcsk ?_
      simp [Connect.holds]
  | closeCtl pc => exact allOpen_nil
  | storeCtrl pc | storeIntr pc =>
      simpa only [Connect.holds, pc, Net.say_fds] using hk
  | storeStatus pc => exact allOpen_nil

theorem CStep.callInv {i : CIn} (h : CStep c net cn i net' cn')
    (hi : CallInv net c cn) : CallInv net' c cn' := by
  refine ⟨h.kept hi.kept, ?_, ?_⟩
  · intro hpc
    cases h with
    | storeCtrl pc => rfl
    | storeIntr pc => exact hi.ctrl (Or.inl pc)
    | @noSocket p pc | @drop p pc =>
        cases p <;> rcases hpc with hpc | hpc <;> cases hpc
    | _ => rcases hpc with hpc | hpc <;> cases hpc
  · intro hpc
    cases h with
    | storeIntr pc => rfl
    | @noSocket p pc | @drop p pc => cases p <;> cases hpc
    | _ => cases hpc

/-- What a call opens it holds: no socket is opened and dropped in one
step. -/
theorem CStep.opens {i : CIn} {n : Nat} {d : Desc}
    (h : CStep c net cn i net' cn') (hopen : net'.fds n = some d) :
    net.fds n = some d ∨ (n, d) ∈ cn'.holds c := by
  cases h with
  | openCtl pc free =>
      rcases getOpened hopen with ⟨rfl, rfl⟩ | ⟨-, hold⟩
      · exact Or.inr (List.mem_singleton.mpr rfl)
      · exact Or.inl hold
  | @socket m p pc free =>
      rcases getOpened hopen with ⟨rfl, rfl⟩ | ⟨-, hold⟩
      · right
        cases p <;> simp [Connect.holds]
      · exact Or.inl hold
  | drop | closeCsk | closeCtl => exact Or.inl (getClosed.mp hopen).2
  | _ => exact Or.inl hopen

/-- What a call has held it holds, or has closed, or has established a
connection with, which is the only way to let go of it open. -/
theorem CStep.drops {i : CIn} {x : Nat × Desc}
    (h : CStep c net cn i net' cn') (hx : x ∈ cn.holds c) :
    x ∈ cn'.holds c ∨ net'.fds x.1 = none
      ∨ .established c ∈ net'.log := by
  cases h with
  | openCtl pc | noCtl pc =>
      simp [Connect.holds, pc] at hx
  | @socket n p pc =>
      left
      cases p <;> simp [Connect.holds, pc] at hx ⊢ <;> grind
  | @noSocket p pc | @bind p pc =>
      left
      cases p <;> simpa only [Connect.holds, pc, CPc.refused] using hx
  | @refuse p pc =>
      left
      rcases pc with pc | pc <;>
        cases p <;> simpa only [Connect.holds, pc] using hx
  | connectCtrl pc | connectIntr pc | storeCtrl pc | storeIntr pc =>
      left
      simpa only [Connect.holds, pc] using hx
  | @drop p pc =>
      by_cases hn : x.1 = cn.sk
      · right; left
        rw [hn]
        exact closed_self
      · left
        cases p <;> simp [Connect.holds, pc, CPc.refused] at hx ⊢ <;> grind
  | closeCsk pc =>
      by_cases hn : x.1 = cn.csk
      · right; left
        rw [hn]
        exact closed_self
      · left
        simp [Connect.holds, pc] at hx ⊢
        grind
  | closeCtl pc =>
      right; left
      simp only [Connect.holds, pc, List.mem_singleton] at hx
      rw [hx]
      exact closed_self
  | storeStatus pc =>
      right; right
      simp [Net.say]

/-- What has been logged stays logged. -/
theorem CStep.log_grows {i : CIn} (h : CStep c net cn i net' cn') :
    net.log <+: net'.log := by
  cases h with
  | connectCtrl | connectIntr | drop | closeCsk | closeCtl | storeCtrl
  | storeIntr | storeStatus => exact List.prefix_append _ _
  | _ => exact List.prefix_refl _

/-- quit_serv closes a number, and logs closes and its end, whichever
variable it has come to. -/
theorem quitServ_closes {pc pc' : QPc}
    (h : quitServ net pc = some (net', pc')) :
    ∃ n es, net' = { net with
        fds := net.fds.closed n, log := net.log ++ es }
      ∧ ∀ e ∈ es, e = .quit ∨ ∃ n d, e = .closed n d := by
  cases pc with
  | ctrl | intr | csg =>
      cases h
      refine ⟨_, [.closed _ _], rfl, fun e he => ?_⟩
      rw [List.mem_singleton] at he
      exact Or.inr ⟨_, _, he⟩
  | isg =>
      cases h
      refine ⟨net.isg, [.closed net.isg (net.fds net.isg), .quit],
        by simp [Net.say, Net.close], fun e he => ?_⟩
      simp only [List.mem_cons, List.not_mem_nil, or_false] at he
      rcases he with rfl | rfl
      · exact Or.inr ⟨_, _, rfl⟩
      · exact Or.inl rfl
  | done => cases h

/-- quit_serv establishes nothing. -/
theorem not_established_of_closes {es : List FdEvent}
    (hes : ∀ e ∈ es, e = .quit ∨ ∃ n d, e = .closed n d) (c : Nat) :
    .established c ∉ es := by
  intro hc
  rcases hes _ hc with he | ⟨n, d, he⟩ <;> cases he

-- ======================================================== the runs of quit_serv

theorem foreign_closed {t : Table Desc} {n : Nat} : Foreign (t.closed n) n :=
  fun _ h => absurd (closed_self.symm.trans h) (by simp)

theorem Foreign.closed {t : Table Desc} {n m : Nat} (h : Foreign t n) :
    Foreign (t.closed m) n :=
  fun d hd => h d (getClosed.mp hd).2

theorem Foreign.opened {t : Table Desc} {n m : Nat} {d : Desc}
    (h : Foreign t n) (hd : d.ours = false) : Foreign (t.opened m d) n := by
  intro e he
  rcases getOpened he with ⟨-, rfl⟩ | ⟨-, hold⟩
  · exact hd
  · exact h e hold

theorem QuitInv.of_done (net : Net) : QuitInv net .done :=
  ⟨fun _ h => absurd rfl h, (by simp)⟩

theorem QuitInv.start (net : Net) : QuitInv net .ctrl :=
  ⟨fun h => absurd rfl h, (by simp)⟩

/-- What opens nothing of the library's and stores nothing. -/
theorem QuitInv.frame {pc : QPc} (h : QuitInv net pc)
    (hctrl : net'.ctrl = net.ctrl)
    (hforeign : ∀ n, Foreign net.fds n → Foreign net'.fds n) :
    QuitInv net' pc :=
  ⟨fun hne hdone => hctrl ▸ hforeign _ (h.ctrl hne hdone),
    fun hpc => hforeign 0 (h.zero hpc)⟩

theorem QuitInv.step {pc pc' : QPc} (h : QuitInv net pc)
    (hcsg : net.csg = 0) (hs : BtOta.quitServ net pc = some (net', pc')) :
    QuitInv net' pc' := by
  cases pc with
  | ctrl =>
      cases hs
      exact ⟨fun _ _ => foreign_closed, (by simp)⟩
  | intr =>
      cases hs
      exact ⟨fun _ _ => Foreign.closed (h.ctrl (by simp) (by simp)), (by simp)⟩
  | csg =>
      cases hs
      refine ⟨fun _ _ => Foreign.closed (h.ctrl (by simp) (by simp)), fun _ => ?_⟩
      rw [Net.close_fds, hcsg]
      exact foreign_closed
  | isg =>
      cases hs
      exact QuitInv.of_done _
  | done => cases hs

-- ======================================================= steps of a session

namespace Library

/-- A step of a reader logs what it took, and no more. -/
theorem readNet_cases (l : Library) (j k : Nat) (i : RIn) :
    l.readNet j k i = l.net
      ∨ ∃ d, l.reading j = some (some d)
        ∧ l.readNet j k i = l.net.say (.consumed k d) := by
  unfold readNet
  split
  case h_2 => exact Or.inl rfl
  case h_1 =>
    split
    case h_1 d hd => exact Or.inr ⟨d, hd, rfl⟩
    case h_2 => exact Or.inl rfl

/-- A step of ota_update closes its file, or logs what it wrote, or does
nothing to the descriptors. -/
theorem sendNet_cases {k : Nat} {i : SIn}
    (h : l.answersSend k i = true) :
    (l.sendNet k i = l.net ∧ fileAfter (l.file k) i = l.file k)
      ∨ (∃ d, l.writing k = some (some d)
        ∧ l.sendNet k i = l.net.say (.wrote k d)
        ∧ fileAfter (l.file k) i = l.file k)
      ∨ ∃ n bytes, l.file k = some n ∧ i = .opened (some bytes)
        ∧ l.sendNet k i = l.net.fclose n
        ∧ fileAfter (l.file k) i = none := by
  cases i with
  | tick | created ret => exact Or.inl ⟨rfl, rfl⟩
  | opened file =>
      cases file with
      | none => exact Or.inl ⟨rfl, rfl⟩
      | some bytes =>
          obtain ⟨n, hn⟩ := Option.isSome_iff_exists.mp h
          by_cases hfit : bytes.length ≤ fwBufSize
          · right; right
            exact ⟨n, bytes, hn, rfl, by simp [sendNet, hn, hfit],
              by simp [fileAfter, hfit]⟩
          · left
            simp [sendNet, fileAfter, hn, hfit]
  | wrote res =>
      simp only [answersSend] at h
      split at h
      case h_1 => cases h
      case h_2 d hd =>
        cases d with
        | none => exact Or.inl ⟨by simp [sendNet, hd], rfl⟩
        | some d =>
            by_cases hres : res < 0
            · exact Or.inl ⟨by simp [sendNet, hd, hres], rfl⟩
            · right; left
              exact ⟨d, hd, by simp [sendNet, hd, hres], rfl⟩

@[simp] theorem readNet_fds (l : Library) (j k : Nat) (i : RIn) :
    (l.readNet j k i).fds = l.net.fds := by
  rcases l.readNet_cases j k i with h | ⟨d, -, h⟩ <;> simp [h]

@[simp] theorem readNet_ctrl (l : Library) (j k : Nat) (i : RIn) :
    (l.readNet j k i).ctrl = l.net.ctrl := by
  rcases l.readNet_cases j k i with h | ⟨d, -, h⟩ <;> simp [h]

@[simp] theorem readNet_intr (l : Library) (j k : Nat) (i : RIn) :
    (l.readNet j k i).intr = l.net.intr := by
  rcases l.readNet_cases j k i with h | ⟨d, -, h⟩ <;> simp [h]

/-- A step of ota_update stores nothing in `ctrl` and `intr`, so these
are reconnect's alone to set. -/
theorem sendNet_static {k : Nat} {i : SIn} (h : l.answersSend k i = true) :
    (l.sendNet k i).ctrl = l.net.ctrl
      ∧ (l.sendNet k i).intr = l.net.intr := by
  rcases sendNet_cases h with ⟨hnet, -⟩ | ⟨d, -, hnet, -⟩
    | ⟨n, bytes, -, -, hnet, -⟩ <;> rw [hnet] <;> exact ⟨rfl, rfl⟩

/-- Nor does it close anything but its file. -/
theorem sendNet_fds {k : Nat} {i : SIn} (h : l.answersSend k i = true) :
    (l.sendNet k i).fds = l.net.fds
      ∨ ∃ n, l.file k = some n
        ∧ (l.sendNet k i).fds = l.net.fds.closed n := by
  rcases sendNet_cases h with ⟨hnet, -⟩ | ⟨d, -, hnet, -⟩
    | ⟨n, bytes, hfile, -, hnet, -⟩ <;> rw [hnet]
  · exact Or.inl rfl
  · exact Or.inl rfl
  · exact Or.inr ⟨n, hfile, rfl⟩

theorem Alone.only {op op' : Op} (hi : l.Alone) (hop : l.live op = true)
    (hne : op' ≠ op) : l.live op' = false := by
  by_contra hlive
  exact hne (hi op' op (Bool.not_eq_false _ ▸ hlive) hop)

theorem returned_of_not_live (h : l.live (.connect c) = false)
    (hc : l.connects[c]? = some cn) : cn.returned = true := by
  simpa [live, hc] using h

theorem done_of_not_live {q : Nat} {pc : QPc}
    (h : l.live (.quit q) = false) (hq : l.quits[q]? = some pc) :
    pc = .done := by
  simpa [live, hq] using h

/-- While another operation is live, every call of reconnect is over, and
holds nothing. -/
theorem Alone.callInv {op : Op} (hi : l.Alone) (hop : l.live op = true)
    (hne : op ≠ .connect c) (hc : l.connects[c]? = some cn) :
    CallInv net c cn :=
  CallInv.of_returned (returned_of_not_live (hi.only hop (Ne.symm hne)) hc)

/-- A step logs one event at most, but for quit_serv's last close, which
logs its end as well. -/
theorem Move.log_cases (h : Move cs l a l') :
    l'.net.log = l.net.log
      ∨ (∃ e, l'.net.log = l.net.log ++ [e] ∧ e ≠ .quit)
      ∨ ∃ q : Nat, l.quits[q]? = some .isg
        ∧ l' = { l with
          net := (l.net.close l.net.isg).say .quit
          quits := l.quits.set q .done } := by
  cases h with
  | reconnect hc h =>
      cases h with
      | connectCtrl | connectIntr | drop | closeCsk | closeCtl
      | storeCtrl | storeIntr | storeStatus =>
          exact Or.inr (Or.inl ⟨_, rfl, (by simp)⟩)
      | _ => exact Or.inl rfl
  | @quitServ q pc pc' net hq h =>
      cases pc with
      | ctrl | intr | csg =>
          cases h
          exact Or.inr (Or.inl ⟨_, rfl, (by simp)⟩)
      | isg =>
          cases h
          exact Or.inr (Or.inr ⟨q, hq, rfl⟩)
      | done => cases h
  | @send k i p hans =>
      rcases sendNet_cases hans with ⟨hnet, -⟩ | ⟨d, -, hnet, -⟩
        | ⟨n, bytes, -, -, hnet, -⟩ <;> rw [sent, hnet]
      · exact Or.inl rfl
      · exact Or.inr (Or.inl ⟨_, rfl, (by simp)⟩)
      · exact Or.inl rfl
  | @read j k i =>
      rcases l.readNet_cases j k i with hnet | ⟨d, -, hnet⟩ <;>
        rw [received, hnet]
      · exact Or.inl rfl
      · exact Or.inr (Or.inl ⟨_, rfl, (by simp)⟩)
  | _ => exact Or.inl rfl

/-- What has been logged stays logged. -/
theorem Move.log_grows (h : Move cs l a l') :
    l.net.log <+: l'.net.log := by
  rcases h.log_cases with hlog | ⟨e, hlog, -⟩ | ⟨q, -, rfl⟩
  · exact hlog ▸ List.prefix_refl _
  · exact hlog ▸ List.prefix_append _ _
  · simp

/-- A connection is established by do_connect's last store. -/
theorem Move.established_inv {c : Nat} (h : Move cs l a l')
    (hmem : .established c ∈ l'.net.log) :
    .established c ∈ l.net.log
      ∨ ∃ cn : Connect, a = .reconnect c .tick
        ∧ l.connects[c]? = some cn ∧ cn.pc = .storeStatus
        ∧ l' = { l with
          net := { l.net with connectionStatus := 1 }.say (.established c)
          connects := l.connects.set c { cn with pc := .returned 0 } } := by
  cases h with
  | @reconnect c₀ i cn cn' net hc h =>
      cases h with
      | storeStatus pc =>
          rcases List.mem_append.mp hmem with hold | hnew
          · exact Or.inl hold
          · cases List.mem_singleton.mp hnew
            exact Or.inr ⟨cn, rfl, hc, pc, rfl⟩
      | connectCtrl | connectIntr | drop | closeCsk | closeCtl
      | storeCtrl | storeIntr =>
          simp only [Net.say_log, Net.close_log, List.mem_append,
            List.mem_singleton, reduceCtorEq, or_false] at hmem
          exact Or.inl hmem
      | _ => exact Or.inl hmem
  | quitServ hq h =>
      obtain ⟨n, es, rfl, hes⟩ := quitServ_closes h
      rcases List.mem_append.mp hmem with hold | hnew
      · exact Or.inl hold
      · exact absurd hnew (not_established_of_closes hes c)
  | @send k i p hans =>
      left
      rcases sendNet_cases hans with ⟨hnet, -⟩ | ⟨d, -, hnet, -⟩
        | ⟨n, bytes, -, -, hnet, -⟩ <;> rw [sent, hnet] at hmem <;>
        simpa using hmem
  | @read j k i =>
      left
      rcases l.readNet_cases j k i with hnet | ⟨d, -, hnet⟩ <;>
        rw [received, hnet] at hmem <;> simpa using hmem
  | _ => exact Or.inl hmem

-- ==================================================== the calls of reconnect

theorem CallsInv.step (hi : l.CallsInv) (ha : l.Alone)
    (hs : Library.step cs l a = some l') : l'.CallsInv := by
  have hmove := step_inv hs
  intro c cn hc
  cases hmove with
  | connectToHost =>
      rcases Threads.snoc_inv hc with hold | ⟨rfl, rfl⟩
      · exact hi c cn hold
      · exact ⟨allOpen_nil, by simp [Connect.call], by simp [Connect.call]⟩
  | @reconnect c₀ i cn₀ cn₀' net hc₀ h =>
      rcases Threads.moved_inv hc with ⟨rfl, rfl⟩ | ⟨hne, hold⟩
      · exact h.callInv (hi c cn₀ hc₀)
      · have hop : l.live (.connect c₀) = true := (step_inv hs).live rfl
        exact ha.callInv hop (fun h => hne (Op.connect.inj h).symm) hold
  | quitServ hq h =>
      exact ha.callInv ((step_inv hs).live rfl) (by simp) hc
  | send =>
      exact ha.callInv ((step_inv hs).live rfl) (by simp) hc
  | fopen _ _ _ free => exact (hi c cn hc).opened free
  | otherOpen free => exact (hi c cn hc).opened free
  | otherClose hn => exact (hi c cn hc).fclose hn rfl
  | @read j k i =>
      have hcall := hi c cn hc
      rcases l.readNet_cases j k i with hnet | ⟨d, -, hnet⟩ <;>
        rw [received, hnet]
      · exact hcall
      · exact hcall.frame hcall.kept rfl rfl
  | deconnectClient | startOTAUpdate | enterWrite | enterRead =>
      exact hi c cn hc

-- ================================================================= the files

/-- A call that has its file open is not over, so the file is the live
operation's. -/
theorem LoadsInv.live {k n : Nat} (hi : l.LoadsInv)
    (hfile : l.file k = some n) : l.live (.session k) = true := by
  obtain ⟨snd, hk, hpc⟩ := hi k n hfile
  refine live_session.mpr ⟨snd, hk, ?_⟩
  unfold Sender.returned
  rcases hpc with hpc | hpc <;> rw [hpc]

/-- The file stays open across a step only where the load loop has run
off the end of the buffer. -/
theorem file_of_step {k n : Nat} {g g' : Shared} {snd snd' : Sender}
    {i : SIn} {es : List Event} (h : SStep cs g snd i g' snd' es)
    (hans : l.answersSend k i = true) (hfile : l.file k = some n)
    (hpc : snd.pc = .load ∨ snd.pc = .undefined)
    (hafter : fileAfter (l.file k) i ≠ none) : snd'.pc = .undefined := by
  cases h with
  | openFail pc => simp [answersSend, hfile] at hans
  | opened pc bytes hfit => simp [fileAfter, hfit] at hafter
  | openOver pc => rfl
  | _ => rcases hpc with hpc | hpc <;> simp_all

/-- A step of ota_update opens no file. -/
theorem file_of_after {k n : Nat} {i : SIn} (h : l.answersSend k i = true)
    (hfile : fileAfter (l.file k) i = some n) : l.file k = some n := by
  rcases sendNet_cases h with ⟨-, hsame⟩ | ⟨d, -, -, hsame⟩
    | ⟨m, bytes, -, -, -, hnone⟩
  · exact hsame.symm.trans hfile
  · exact hsame.symm.trans hfile
  · rw [hnone] at hfile
    cases hfile

theorem LoadsInv.step (hi : l.LoadsInv) (h : Move cs l a l') :
    l'.LoadsInv := by
  intro k n hfile
  cases h with
  | startOTAUpdate =>
      obtain ⟨snd, hk, hpc⟩ := hi k n hfile
      exact ⟨snd, Threads.snoc hk, hpc⟩
  | @fopen k₀ n₀ snd hk hpc =>
      by_cases heq : k = k₀
      · subst heq
        exact ⟨snd, hk, Or.inl hpc⟩
      · simp only [Function.update_of_ne heq] at hfile
        exact hi k n hfile
  | @send k₀ i p hans hp =>
      cases Proc.step_inv hp with
      | @send _ _ g snd snd' es hk hstep =>
          by_cases heq : k = k₀
          · subst heq
            rw [sent_file_self] at hfile
            have hold := file_of_after hans hfile
            obtain ⟨snd₀, hk₀, hpc⟩ := hi k n hold
            obtain rfl : snd₀ = snd := Option.some.inj (hk₀.symm.trans hk)
            have hafter : fileAfter (l.file k) i ≠ none := by
              rw [hfile]
              exact Option.some_ne_none n
            exact ⟨snd', Threads.moved hk,
              Or.inr (file_of_step hstep hans hold hpc hafter)⟩
          · rw [sent_file_of_ne heq] at hfile
            obtain ⟨snd₀, hk₀, hpc⟩ := hi k n hfile
            exact ⟨snd₀, Threads.moved_of_ne heq hk₀, hpc⟩
  | read _ _ hp =>
      cases Proc.step_inv hp with
      | read => exact hi k n hfile
  | _ => exact hi k n hfile

theorem FilesInv.step (hi : l.FilesInv) (hl : l.LoadsInv) (ha : l.Alone)
    (hs : Library.step cs l a = some l') : l'.FilesInv := by
  have hmove := step_inv hs
  intro k n hfile
  cases hmove with
  | reconnect | quitServ =>
      have hop := (step_inv hs).live rfl
      exact absurd (ha _ _ (hl.live hfile) hop) (by simp)
  | @send k₀ i p hans =>
      -- only the call that steps can have a file open
      have hop : l.live (.session k₀) = true := (step_inv hs).live rfl
      by_cases heq : k = k₀
      case neg =>
        rw [sent_file_of_ne heq] at hfile
        exact absurd (Op.session.inj (ha _ _ (hl.live hfile) hop)) heq
      subst heq
      rw [sent_file_self] at hfile
      have hopen := hi k n (file_of_after hans hfile)
      rcases sendNet_cases hans with ⟨hnet, -⟩ | ⟨d, -, hnet, -⟩
        | ⟨m, bytes, -, -, -, hnone⟩
      · rwa [sent, hnet]
      · rwa [sent, hnet]
      · rw [hnone] at hfile
        cases hfile
  | @fopen k₀ n₀ =>
      by_cases heq : k = k₀
      · subst heq
        simp only [Function.update_self] at hfile
        cases hfile
        exact opened_self
      · simp only [Function.update_of_ne heq] at hfile
        have hop : l.live (.session k₀) = true := (step_inv hs).live rfl
        exact absurd (Op.session.inj (ha _ _ (hl.live hfile) hop)) heq
  | otherOpen free =>
      refine (opened_of_ne ?_).trans (hi k n hfile)
      intro heq
      have hopen := hi k n hfile
      rw [heq, free] at hopen
      cases hopen
  | otherClose hn =>
      have hopen := hi k n hfile
      exact getClosed.mpr ⟨ne_of_open hopen hn (by simp), hopen⟩
  | read =>
      rw [received, readNet_fds]
      exact hi k n hfile
  | connectToHost | deconnectClient | startOTAUpdate | enterWrite
  | enterRead => exact hi k n hfile

-- ============================================================== the accounts

/-- What was open and is open still is accounted for still, if the step
has taken nothing from those who hold it. -/
theorem Accounts.keep {n : Nat} {d : Desc} (hi : l.Accounts)
    (hopen : l.net.fds n = some d) (hours : d.ours = true)
    (hconnects : l'.connects = l.connects)
    (hfile : ∀ k, l.file k = some n → l'.file k = some n)
    (hlog : l.net.log <+: l'.net.log) :
    (∃ c, ∃ cn : Connect, l'.connects[c]? = some cn
      ∧ (n, d) ∈ cn.holds c)
      ∨ (∃ k, l'.file k = some n)
      ∨ ∃ c, .established c ∈ l'.net.log := by
  rcases hi n d hopen hours with ⟨c, cn, hc, hx⟩ | ⟨k, hk⟩ | ⟨c, hest⟩
  · exact Or.inl ⟨c, cn, hconnects ▸ hc, hx⟩
  · exact Or.inr (Or.inl ⟨k, hfile k hk⟩)
  · exact Or.inr (Or.inr ⟨c, hlog.subset hest⟩)

theorem Accounts.step (hi : l.Accounts)
    (hs : Library.step cs l a = some l') : l'.Accounts := by
  have hmove := step_inv hs
  intro n d hopen hours
  cases hmove with
  | connectToHost =>
      rcases hi n d hopen hours with ⟨c, cn, hc, hx⟩ | hrest
      · left
        exact ⟨c, cn, Threads.snoc hc, hx⟩
      · exact Or.inr hrest
  | @reconnect c i cn cn' net hc h =>
      -- a call opens and drops its own descriptors; another's stay accounted
      -- for as they were
      have hself : (l.connects.set c cn')[c]? = some cn' :=
        Threads.moved hc
      rcases h.opens hopen with hold | hnew
      case inr => exact Or.inl ⟨c, cn', hself, hnew⟩
      rcases hi n d hold hours with ⟨c₁, cn₁, hc₁, hx⟩ | hfile | ⟨c₁, hest⟩
      · by_cases heq : c₁ = c
        · subst heq
          obtain rfl : cn₁ = cn := Option.some.inj (hc₁.symm.trans hc)
          rcases h.drops hx with hheld | hfree | hest
          · exact Or.inl ⟨c₁, cn', hself, hheld⟩
          · exact absurd (hopen.symm.trans hfree) (by simp)
          · exact Or.inr (Or.inr ⟨c₁, hest⟩)
        · left
          exact ⟨c₁, cn₁, Threads.moved_of_ne heq hc₁, hx⟩
      · exact Or.inr (Or.inl hfile)
      · exact Or.inr (Or.inr ⟨c₁, h.log_grows.subset hest⟩)
  | quitServ hq h =>
      obtain ⟨m, es, rfl, -⟩ := quitServ_closes h
      exact hi.keep (getClosed.mp hopen).2 hours rfl (fun _ => id)
        (List.prefix_append _ _)
  | @fopen k m snd _ _ hfile free =>
      -- the number was free, so no other call's file carries it
      rcases getOpened hopen with ⟨rfl, rfl⟩ | ⟨-, hold⟩
      · exact Or.inr (Or.inl ⟨k, Function.update_self k _ l.file⟩)
      · refine hi.keep hold hours rfl (fun k' hk' => ?_)
          (List.prefix_refl _)
        have hne : k' ≠ k := by
          intro heq
          rw [heq, hfile] at hk'
          cases hk'
        exact (Function.update_of_ne hne _ _).trans hk'
  | otherOpen =>
      -- what the app opens is not ours to account for
      rcases getOpened hopen with ⟨-, rfl⟩ | ⟨-, hold⟩
      · cases hours
      · exact hi.keep hold hours rfl (fun _ => id) (List.prefix_refl _)
  | otherClose =>
      exact hi.keep (getClosed.mp hopen).2 hours rfl (fun _ => id)
        (List.prefix_refl _)
  | @send k i p hans =>
      -- the last case is fclose: the one descriptor it takes is the call's
      -- own
      have hothers : ∀ k', k' ≠ k → l.file k' = some n →
          (l.sent k i p).file k' = some n :=
        fun k' hne hk' => (sent_file_of_ne hne).trans hk'
      rcases sendNet_cases hans with ⟨hnet, hsame⟩ | ⟨e, -, hnet, hsame⟩
        | ⟨m, bytes, hm, -, hnet, -⟩
      case inr.inr =>
        rw [sent, hnet] at hopen
        obtain ⟨hne, hold⟩ := getClosed.mp hopen
        refine hi.keep hold hours rfl (fun k' hk' => hothers k' ?_ hk')
          (step_inv hs).log_grows
        intro heq
        rw [heq, hm] at hk'
        exact hne (Option.some.inj hk').symm
      all_goals
        rw [sent, hnet] at hopen
        refine hi.keep hopen hours rfl (fun k' hk' => ?_)
          (step_inv hs).log_grows
        by_cases heq : k' = k
        · subst heq
          exact sent_file_self.trans (hsame.trans hk')
        · exact hothers k' heq hk'
  | @read j k i =>
      rw [received, readNet_fds] at hopen
      exact hi.keep hopen hours rfl (fun _ => id) (step_inv hs).log_grows
  | deconnectClient | startOTAUpdate | enterWrite | enterRead =>
      exact hi.keep hopen hours rfl (fun _ => id) (List.prefix_refl _)

/-- While another operation is live, every run of quit_serv is over. -/
theorem Alone.quitInv {op : Op} {q : Nat} {pc : QPc} (hi : l.Alone)
    (hop : l.live op = true) (hne : op ≠ .quit q)
    (hq : l.quits[q]? = some pc) : QuitInv net pc := by
  obtain rfl := done_of_not_live (hi.only hop (Ne.symm hne)) hq
  exact QuitInv.of_done _

theorem QuitsInv.step (hi : l.QuitsInv) (ha : l.Alone)
    (hcsg : l.net.csg = 0) (hs : Library.step cs l a = some l') :
    l'.QuitsInv := by
  have hmove := step_inv hs
  intro q pc hq
  cases hmove with
  | @quitServ q₀ pc₀ pc₀' net hq₀ h =>
      rcases Threads.moved_inv hq with ⟨rfl, rfl⟩ | ⟨hne, hold⟩
      · exact (hi q pc₀ hq₀).step hcsg h
      · have hop : l.live (.quit q₀) = true := (step_inv hs).live rfl
        exact ha.quitInv hop (fun h => hne (Op.quit.inj h).symm) hold
  | deconnectClient =>
      rcases Threads.snoc_inv hq with hold | ⟨-, rfl⟩
      · exact hi q pc hold
      · exact QuitInv.start _
  | @send k i p =>
      have hop : l.live (.session k) = true := (step_inv hs).live rfl
      by_cases hret : hasReturned p.calls k = true
      · rw [sent, if_pos hret] at hq
        rcases Threads.snoc_inv hq with hold | ⟨-, rfl⟩
        · exact ha.quitInv hop (by simp) hold
        · exact QuitInv.start _
      · rw [sent, if_neg hret] at hq
        exact ha.quitInv hop (by simp) hq
  | reconnect | fopen =>
      exact ha.quitInv ((step_inv hs).live rfl) (by simp) hq
  | otherOpen =>
      exact (hi q pc hq).frame rfl fun _ h => Foreign.opened h rfl
  | otherClose => exact (hi q pc hq).frame rfl fun _ h => Foreign.closed h
  | @read j k i =>
      rcases l.readNet_cases j k i with hnet | ⟨d, -, hnet⟩ <;>
        rw [received, hnet]
      · exact hi q pc hq
      · exact (hi q pc hq).frame rfl fun _ h => h
  | connectToHost | startOTAUpdate | enterWrite | enterRead => exact hi q pc hq

-- ===================================================== the static variables

/-- csg and isg are what they were at load, and connection_status tells
whether a connection has ever been established. -/
structure StaticInv (net : Net) : Prop where
  csg : net.csg = 0
  isg : net.isg = 0
  unset : (∀ c, .established c ∉ net.log) → net.connectionStatus = 0
  set : ∀ c, .established c ∈ net.log → net.connectionStatus = 1

/-- What establishes nothing and stores nothing of this, which is every
step but do_connect's last. -/
theorem StaticInv.frame (es : List FdEvent) (h : StaticInv net)
    (hcsg : net'.csg = net.csg) (hisg : net'.isg = net.isg)
    (hstatus : net'.connectionStatus = net.connectionStatus)
    (hlog : net'.log = net.log ++ es) (hes : ∀ c, .established c ∉ es) :
    StaticInv net' := by
  have hmem : ∀ c, .established c ∈ net'.log ↔ .established c ∈ net.log := by
    intro c
    rw [hlog, List.mem_append]
    exact or_iff_left (hes c)
  refine ⟨hcsg.trans h.csg, hisg.trans h.isg, fun hno => ?_,
    fun c hc => hstatus.trans (h.set c ((hmem c).mp hc))⟩
  exact hstatus.trans (h.unset fun c hc => hno c ((hmem c).mpr hc))

theorem StaticInv.reconnect {i : CIn} (hi : StaticInv net)
    (h : CStep c net cn i net' cn') : StaticInv net' := by
  cases h with
  | storeStatus pc =>
      refine ⟨hi.csg, hi.isg, fun hno => ?_, fun _ _ => rfl⟩
      exact absurd (by simp) (hno c)
  | connectCtrl | connectIntr | drop | closeCsk | closeCtl | storeCtrl
  | storeIntr =>
      exact hi.frame [_] rfl rfl rfl rfl (by simp)
  | _ =>
      exact hi.frame [] rfl rfl rfl (List.append_nil _).symm (by simp)

theorem StaticInv.step (hi : StaticInv l.net)
    (hs : Library.step cs l a = some l') : StaticInv l'.net := by
  have hmove := step_inv hs
  cases hmove with
  | reconnect hc h => exact hi.reconnect h
  | quitServ hq h =>
      obtain ⟨n, es, rfl, hes⟩ := quitServ_closes h
      exact hi.frame es rfl rfl rfl rfl (not_established_of_closes hes)
  | @send k i p hans =>
      rcases sendNet_cases hans with ⟨hnet, -⟩ | ⟨d, -, hnet, -⟩
        | ⟨n, bytes, -, -, hnet, -⟩ <;> rw [sent, hnet]
      · exact hi
      · exact hi.frame [_] rfl rfl rfl rfl (by simp)
      · exact hi.frame [] rfl rfl rfl (List.append_nil _).symm (by simp)
  | @read j k i =>
      rcases l.readNet_cases j k i with hnet | ⟨d, -, hnet⟩ <;>
        rw [received, hnet]
      · exact hi
      · exact hi.frame [_] rfl rfl rfl rfl (by simp)
  | fopen | otherOpen | otherClose =>
      exact hi.frame [] rfl rfl rfl (List.append_nil _).symm (by simp)
  | connectToHost | deconnectClient | startOTAUpdate | enterWrite
  | enterRead => exact hi

-- =========================================================== a whole sequence

/-- What every run keeps whose entries are called one after another: the
invariants of the operations, together, since each relies on the others.
-/
structure SeqInv (l : Library) : Prop where
  alone : l.Alone
  calls : l.CallsInv
  loads : l.LoadsInv
  files : l.FilesInv
  quits : l.QuitsInv
  accounts : l.Accounts
  static : StaticInv l.net

theorem SeqInv.step (hi : SeqInv l) (hok : sequential l a)
    (hs : Library.step cs l a = some l') : SeqInv l' where
  alone := hi.alone.step hok hs
  calls := hi.calls.step hi.alone hs
  loads := hi.loads.step (step_inv hs)
  files := hi.files.step hi.loads hi.alone hs
  quits := hi.quits.step hi.alone hi.static.csg hs
  accounts := hi.accounts.step hs
  static := hi.static.step hs

theorem seqInv_loaded : SeqInv loaded where
  alone := alone_loaded
  calls := fun _ _ h => absurd h (by simp [loaded])
  loads := fun _ _ h => absurd h (by simp [loaded])
  files := fun _ _ h => absurd h (by simp [loaded])
  quits := fun _ _ h => absurd h (by simp [loaded])
  accounts := fun _ _ h => absurd h (by simp [loaded, Net.loaded, Table.empty])
  static := ⟨rfl, rfl, fun _ => rfl,
    fun _ h => absurd h (by simp [loaded, Net.loaded])⟩

theorem SeqInv.of_reach
    (h : Lts.Reach (Library.step cs) sequential loaded l) : SeqInv l :=
  h.invariant seqInv_loaded fun _ _ _ hi hok hs => hi.step hok hs

/-- Where no call of reconnect is under way, no session has its file
open, and no connection has been established, the library has nothing
open. -/
theorem Accounts.none_open {n : Nat} {d : Desc} (hi : l.Accounts)
    (hcalls : ∀ c, l.live (.connect c) = false)
    (hfiles : ∀ k, l.file k = none)
    (hno : ∀ c, .established c ∉ l.net.log)
    (hopen : l.net.fds n = some d) : d.ours = false := by
  by_contra hours
  rw [Bool.not_eq_false] at hours
  rcases hi n d hopen hours with ⟨c, cn, hc, hx⟩ | ⟨k, hk⟩ | ⟨c, hest⟩
  · have hret := returned_of_not_live (hcalls c) hc
    rw [Connect.holds_of_returned hret] at hx
    cases hx
  · rw [hfiles k] at hk
    cases hk
  · exact hno c hest

end Library

end BtOta
