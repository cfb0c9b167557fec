/-
What one step of each thread can do, said once.

`SStep` and `RStep` list the moves of ota_update and hidRead by name,
with the program counter each starts from, its guard, and everything it
changes. `otaUpdate_inv` and `hidRead_inv` read a step of the model back
as one of them, so every invariant below is a case analysis on named
moves and none of them unfolds the two step functions again.
`Session.step_inv` and `Link.step_inv` do the same for the interleaving
and for the system joined to a device.
-/
import BtOta.Link

namespace BtOta

-- =============================================================== ota_update

/-- The moves of ota_update, one for each way a step of it can go. Each
names the program counter it starts from and what it tests there, and its
indices are all it changes. -/
inductive SStep (cs : CharSign) (g : Shared) (l : Sender) :
    SIn → Shared → Sender → List Event → Prop
  | init (pc : l.pc = .init) :
      SStep cs g l .tick (g.initVars l.param2) { l with pc := .load }
        ((g.initVars l.param2).verbose .otaUpdateArgs)
  | openFail (pc : l.pc = .load) :
      SStep cs g l (.opened none) g { l with pc := .flag .fail }
        [.log .openFail, .goto .otaFail g.totalCmdNum]
  | opened (pc : l.pc = .load) (file : List UInt8)
      (hfit : file.length ≤ fwBufSize) :
      SStep cs g l (.opened (some file)) g
        { l.load file with pc := .create } [.log (.fwSize file.length)]
  | openOver (pc : l.pc = .load) (file : List UInt8)
      (hfit : ¬ file.length ≤ fwBufSize) :
      SStep cs g l (.opened (some file)) g { l with pc := .undefined } []
  | created (pc : l.pc = .create) (ret : Int) :
      SStep cs g l (.created ret) g { l with pc := .next }
        (if ret = 0 then [] else [.log (.createFail ret)])
  | next (pc : l.pc = .next) :
      SStep cs g l .tick { g with currentDataSeq := 0 }
        { l with pc := .newStage, sendCount := 0, cmdBuf := fun _ => 0 } []
  | newStage (pc : l.pc = .newStage) :
      SStep cs g l .tick { g with otaStage := .newCmd }
        { l with pc := .assemble } []
  | assemble (pc : l.pc = .assemble) {g' : Shared} {l' : Sender}
      {es : List Event} (hasm : assemble cs g l = some (g', l', es)) :
      SStep cs g l .tick g' { l' with pc := .retry } es
  | crash (pc : l.pc = .assemble) (hasm : BtOta.assemble cs g l = none) :
      SStep cs g l .tick g { l with pc := .undefined } []
  | retry (pc : l.pc = .retry) (hlt : l.sendCount < 3) :
      SStep cs g l .tick { g with otaStage := .retrying }
        { l with pc := .write, sendCount := l.sendCount + 1, waitCount := 0 }
        (if l.sendCount + 1 > 1 then [.log (.retrying (l.sendCount + 1))]
          else [])
  | giveUp (pc : l.pc = .retry) (hge : 3 ≤ l.sendCount) :
      SStep cs g l .tick { g with otaStage := .retrying }
        { l with
          pc := .flag .fail, sendCount := l.sendCount + 1, waitCount := 0 }
        [.goto .otaFail g.totalCmdNum]
  | wrote (pc : l.pc = .write) (res : Int) (hres : 0 ≤ res) :
      SStep cs g l (.wrote res) g { l with pc := .wait }
        (g.verbose (.dump l.packet) ++ [.tx g.totalCmdNum l.packet]
          ++ g.verbose (.wrote res))
  | writeFail (pc : l.pc = .write) (res : Int) (hres : res < 0) :
      SStep cs g l (.wrote res) g { l with pc := .flag .fail }
        (g.verbose (.dump l.packet)
          ++ [.log .writeError, .goto .otaFail g.totalCmdNum])
  | poll (pc : l.pc = .wait) (hlt : l.waitCount + 1 < otaWaitTime) :
      SStep cs g l .tick g
        { l with pc := .pollNext, waitCount := l.waitCount + 1 } []
  | timeout (pc : l.pc = .wait) (hge : otaWaitTime ≤ l.waitCount + 1) :
      SStep cs g l .tick g
        { l with pc := .retry, waitCount := l.waitCount + 1 }
        [.timeout g.totalCmdNum, .goto .retryCmd g.totalCmdNum]
  | nextHit (pc : l.pc = .pollNext) (hst : g.otaStage = .nextCmd) :
      SStep cs g l .tick g { l with pc := .next }
        [.goto .nextCmd g.totalCmdNum]
  | nextMiss (pc : l.pc = .pollNext) (hst : g.otaStage ≠ .nextCmd) :
      SStep cs g l .tick g { l with pc := .pollErr } []
  | errHit (pc : l.pc = .pollErr) (hst : g.otaStage = .errRetry) :
      SStep cs g l .tick g { l with pc := .retry }
        [.goto .retryCmd g.totalCmdNum]
  | errMiss (pc : l.pc = .pollErr) (hst : g.otaStage ≠ .errRetry) :
      SStep cs g l .tick g { l with pc := .pollComplete } []
  | completeHit (pc : l.pc = .pollComplete) (hst : g.otaStage = .complete) :
      SStep cs g l .tick g { l with pc := .flag .success }
        [.goto .otaSuccess g.totalCmdNum]
  | completeMiss (pc : l.pc = .pollComplete)
      (hst : g.otaStage ≠ .complete) :
      SStep cs g l .tick g { l with pc := .wait } []
  | flag {v : Verdict} (pc : l.pc = .flag v) :
      SStep cs g l .tick { g with flagRead := false }
        { l with pc := .verdict v } []
  | verdict {v : Verdict} (pc : l.pc = .verdict v) :
      SStep cs g l .tick g { l with pc := .stop v } [.log v.msg]
  | stop {v : Verdict} (pc : l.pc = .stop v) :
      SStep cs g l .tick g { l with pc := .quitThread v } [.log .otaStop]
  | quitThread {v : Verdict} (pc : l.pc = .quitThread v) :
      SStep cs g l .tick g { l with pc := .quitServ v } [.log .quitThread]
  | quitServ {v : Verdict} (pc : l.pc = .quitServ v) :
      SStep cs g l .tick g { l with pc := .returned v } [.log .quitServ]

variable {cs : CharSign} {g g' : Shared} {l l' : Sender} {es : List Event}

/-- hidWrite's two outcomes: the line it logs tells a failing write from
one that has gone out. -/
theorem hidWrite_of_neg {res : Int} (data : List UInt8) (h : res < 0) :
    hidWrite g data res
      = (-errWrite, g.verbose (.dump data) ++ [.log .writeError]) :=
  if_pos h

theorem hidWrite_of_nonneg {res : Int} (data : List UInt8) (h : 0 ≤ res) :
    hidWrite g data res
      = (0, g.verbose (.dump data) ++ [.tx g.totalCmdNum data]
          ++ g.verbose (.wrote res)) :=
  if_neg (by omega)

/-- Every internal step of ota_update is one of its moves; the ones that
take a result from outside are added below. -/
theorem otaUpdate_tick_inv
    (h : otaUpdate cs g l .tick = some (g', l', es)) :
    SStep cs g l .tick g' l' es := by
  cases hpc : l.pc with
  | load | create | write | returned | undefined =>
      -- three wait for an answer of the system, two are over
      simp [otaUpdate, hpc] at h
  | init =>
      simp only [otaUpdate, hpc] at h
      cases h
      exact .init hpc
  | next =>
      simp only [otaUpdate, hpc] at h
      cases h
      exact .next hpc
  | newStage =>
      simp only [otaUpdate, hpc] at h
      cases h
      exact .newStage hpc
  | assemble =>
      simp only [otaUpdate, hpc] at h
      split at h
      case h_1 g₁ l₁ es₁ hasm =>
        cases h
        exact .assemble hpc hasm
      case h_2 hasm =>
        cases h
        exact .crash hpc hasm
  | retry =>
      -- the code compares the raised count, the arms the one before
      simp only [otaUpdate, hpc] at h
      split at h
      case isTrue hgt =>
        cases h
        exact .giveUp hpc (by omega)
      case isFalse hle =>
        cases h
        exact .retry hpc (by omega)
  | wait =>
      simp only [otaUpdate, hpc] at h
      split at h
      case isTrue hlt =>
        cases h
        exact .poll hpc hlt
      case isFalse hge =>
        cases h
        exact .timeout hpc (by omega)
  | pollNext =>
      simp only [otaUpdate, hpc] at h
      split at h
      case isTrue hst =>
        cases h
        exact .nextHit hpc hst
      case isFalse hst =>
        cases h
        exact .nextMiss hpc hst
  | pollErr =>
      simp only [otaUpdate, hpc] at h
      split at h
      case isTrue hst =>
        cases h
        exact .errHit hpc hst
      case isFalse hst =>
        cases h
        exact .errMiss hpc hst
  | pollComplete =>
      simp only [otaUpdate, hpc] at h
      split at h
      case isTrue hst =>
        cases h
        exact .completeHit hpc hst
      case isFalse hst =>
        cases h
        exact .completeMiss hpc hst
  | flag v =>
      simp only [otaUpdate, hpc] at h
      cases h
      exact .flag hpc
  | verdict v =>
      simp only [otaUpdate, hpc] at h
      cases h
      exact .verdict hpc
  | stop v =>
      simp only [otaUpdate, hpc] at h
      cases h
      exact .stop hpc
  | quitThread v =>
      simp only [otaUpdate, hpc] at h
      cases h
      exact .quitThread hpc
  | quitServ v =>
      simp only [otaUpdate, hpc] at h
      cases h
      exact .quitServ hpc

/-- Every step of ota_update is one of its moves. -/
theorem otaUpdate_inv {i : SIn}
    (h : otaUpdate cs g l i = some (g', l', es)) :
    SStep cs g l i g' l' es := by
  cases i with
  | tick => exact otaUpdate_tick_inv h
  | opened file =>
      simp only [otaUpdate] at h
      split at h
      case h_2 => cases h
      case h_1 hpc =>
        cases file with
        | none =>
            cases h
            exact .openFail hpc
        | some bytes =>
            dsimp only at h
            split at h
            case isTrue hfit =>
              cases h
              exact .opened hpc bytes hfit
            case isFalse hfit =>
              cases h
              exact .openOver hpc bytes hfit
  | created ret =>
      simp only [otaUpdate] at h
      split at h
      case h_2 => cases h
      case h_1 hpc =>
        cases h
        exact .created hpc ret
  | wrote res =>
      simp only [otaUpdate] at h
      split at h
      case h_2 => cases h
      case h_1 hpc =>
        by_cases hres : res < 0
        · rw [hidWrite_of_neg _ hres, if_pos (by show -errWrite < 0; decide)] at h
          cases h
          rw [List.append_assoc]
          exact .writeFail hpc res hres
        · rw [hidWrite_of_nonneg _ (by omega),
            if_neg (by show ¬ (0 : Int) < 0; decide)] at h
          cases h
          exact .wrote hpc res (by omega)

/-- And every move is a step. -/
theorem SStep.step {i : SIn} (h : SStep cs g l i g' l' es) :
    otaUpdate cs g l i = some (g', l', es) := by
  cases h with
  | assemble pc hasm => simp [otaUpdate, pc, hasm]
  | crash pc hasm => simp [otaUpdate, pc, hasm]
  | retry pc hlt =>
      simp [otaUpdate, pc]
      omega
  | giveUp pc hge =>
      simp [otaUpdate, pc]
      omega
  | opened pc file hfit => simp [otaUpdate, pc, hfit]
  | openOver pc file hfit => simp [otaUpdate, pc, hfit]
  | poll pc hlt => simp [otaUpdate, pc, hlt]
  | timeout pc hge => simp [otaUpdate, pc, Nat.not_lt.mpr hge]
  | nextHit pc hst | nextMiss pc hst | errHit pc hst | errMiss pc hst
  | completeHit pc hst | completeMiss pc hst => simp [otaUpdate, pc, hst]
  | wrote pc res hres =>
      unfold otaUpdate
      rw [pc]
      dsimp only
      rw [hidWrite_of_nonneg _ hres]
      rfl
  | writeFail pc res hres =>
      unfold otaUpdate
      rw [pc]
      dsimp only
      rw [hidWrite_of_neg _ hres]
      dsimp only
      rw [if_pos (by decide), List.append_assoc]
      rfl
  | init pc | openFail pc | created pc | next pc | newStage pc | flag pc
  | verdict pc | stop pc | quitThread pc | quitServ pc =>
      simp [otaUpdate, pc]

-- ================================================================= hidRead

/-- The moves of hidRead, in the same manner; what the reader keeps
between two of them is its program counter and nothing else. -/
inductive RStep (cs : CharSign) (g : Shared) (pc : RPc) :
    RIn → Shared → RPc → List Event → Prop
  | enter (hpc : pc = .test) (hflag : g.flagRead = true) :
      RStep cs g pc .tick g .read []
  | leave (hpc : pc = .test) (hflag : g.flagRead = false) :
      RStep cs g pc .tick g .ended []
  | readFail (hpc : pc = .read) :
      RStep cs g pc (.got none) g .failFlag [.log .readError]
  | report (hpc : pc = .read) (report : List UInt8)
      (hrid : (Rsp.ofReport report).rid = 0x02) :
      RStep cs g pc (.got (some report))
        { g with rspCmd := Rsp.ofReport report } .decide
        (.report report :: g.verbose (.dump (Rsp.ofReport report).bytes))
  | stray (hpc : pc = .read) (report : List UInt8)
      (hrid : (Rsp.ofReport report).rid ≠ 0x02) :
      RStep cs g pc (.got (some report))
        { g with rspCmd := Rsp.ofReport report } .test
        (.report report :: g.verbose (.dump (Rsp.ofReport report).bytes))
  | decide (hpc : pc = .decide) {x : Stage} {ms : List Msg}
      (hx : respond cs g g.rspCmd = some (x, ms)) :
      RStep cs g pc .tick
        { g with otaStatus := cs.promote g.rspCmd.stat } (.store x)
        (ms.map .log)
  | ignore (hpc : pc = .decide) (hx : respond cs g g.rspCmd = none) :
      RStep cs g pc .tick
        { g with otaStatus := cs.promote g.rspCmd.stat } .test []
  | store {x : Stage} (hpc : pc = .store x) :
      RStep cs g pc .tick { g with otaStage := x } .test
        [.stored x g.rspCmd]
  | failFlag (hpc : pc = .failFlag) :
      RStep cs g pc .tick { g with flagRead := false } .failLog []
  | failLog (hpc : pc = .failLog) :
      RStep cs g pc .tick g .failStop [.log .otaFail]
  | failStop (hpc : pc = .failStop) :
      RStep cs g pc .tick g .ended [.log .otaStop]

/-- Every step of hidRead is one of its moves. -/
theorem hidRead_inv {pc pc' : RPc} {i : RIn}
    (h : hidRead cs g pc i = some (g', pc', es)) :
    RStep cs g pc i g' pc' es := by
  cases i with
  | tick =>
      cases hpc : pc with
      | read | ended => simp [hidRead, hpc] at h
      | test =>
          subst hpc
          unfold hidRead at h
          cases h
          cases hflag : g.flagRead with
          | true => exact .enter rfl hflag
          | false => exact .leave rfl hflag
      | decide =>
          subst hpc
          simp only [hidRead] at h
          split at h
          case h_1 x ms hx =>
            cases h
            exact .decide rfl hx
          case h_2 hx =>
            cases h
            exact .ignore rfl hx
      | store x =>
          subst hpc
          unfold hidRead at h
          cases h
          exact .store rfl
      | failFlag =>
          subst hpc
          unfold hidRead at h
          cases h
          exact .failFlag rfl
      | failLog =>
          subst hpc
          unfold hidRead at h
          cases h
          exact .failLog rfl
      | failStop =>
          subst hpc
          unfold hidRead at h
          cases h
          exact .failStop rfl
  | got res =>
      simp only [hidRead] at h
      split at h
      case h_2 => cases h
      case h_1 =>
        cases res with
        | none =>
            cases h
            exact .readFail rfl
        | some report =>
            -- the RID check comes behind the copy into rsp_cmd
            cases h
            by_cases hrid : (Rsp.ofReport report).rid = 0x02
            · rw [if_pos hrid]
              exact .report rfl report hrid
            · rw [if_neg hrid]
              exact .stray rfl report hrid

/-- And every move is a step. -/
theorem RStep.step {pc pc' : RPc} {i : RIn}
    (h : RStep cs g pc i g' pc' es) :
    hidRead cs g pc i = some (g', pc', es) := by
  cases h with
  | enter hpc hflag | leave hpc hflag => simp [hidRead, hpc, hflag]
  | report hpc r hrid | stray hpc r hrid => simp [hidRead, hpc, hrid]
  | decide hpc hx | ignore hpc hx => simp [hidRead, hpc, hx]
  | readFail hpc | store hpc | failFlag hpc | failLog hpc | failStop hpc =>
      simp [hidRead, hpc]

-- ============================================================ the session

namespace Session

/-- A step of the session is a move of one of its threads. -/
inductive Move (cs : CharSign) (s : Session) : Act → Session → Prop
  | send {i : SIn} {g : Shared} {snd : Sender} {es : List Event}
      (h : SStep cs s.g s.snd i g snd es) :
      Move cs s (.send i)
        { g := g, snd := snd, rdr := spawn s.rdr i, trace := s.trace ++ es }
  | read {i : RIn} {pc pc' : RPc} {g : Shared} {es : List Event}
      (hrdr : s.rdr = some pc) (h : RStep cs s.g pc i g pc' es) :
      Move cs s (.read i)
        { s with g := g, rdr := some pc', trace := s.trace ++ es }

theorem step_inv {s s' : Session} {a : Act} (h : step cs s a = some s') :
    Move cs s a s' := by
  cases a with
  | send i =>
      obtain ⟨⟨g, snd, es⟩, hs, rfl⟩ := Option.map_eq_some_iff.mp h
      exact .send (otaUpdate_inv hs)
  | read i =>
      simp only [step] at h
      split at h
      case h_2 => cases h
      case h_1 pc hrdr =>
        obtain ⟨⟨g, pc', es⟩, hs, rfl⟩ := Option.map_eq_some_iff.mp h
        exact .read hrdr (hidRead_inv hs)

end Session

-- ============================================================== the device

namespace Link

/-- A step of the joined system is a move of a thread, of the device or
of the channel. -/
inductive Move (cs : CharSign) (l : Link) : LAct → Link → Prop
  | send {i : SIn} {g : Shared} {snd : Sender} {es : List Event}
      (h : SStep cs l.s.g l.s.snd i g snd es) :
      Move cs l (.send i)
        { l with
          s := { g := g, snd := snd, rdr := Session.spawn l.s.rdr i
                 trace := l.s.trace ++ es }
          up := l.up ++ written l.s i }
  | tick {pc pc' : RPc} {g : Shared} {es : List Event}
      (hrdr : l.s.rdr = some pc) (h : RStep cs l.s.g pc .tick g pc' es) :
      Move cs l .tick
        { l with
          s := { l.s with g := g, rdr := some pc', trace := l.s.trace ++ es } }
  | deliver {pc pc' : RPc} {g : Shared} {es : List Event} {k : Nat}
      {r : List UInt8} {rest : List (Nat × List UInt8)}
      (hdown : l.down = (k, r) :: rest) (hrdr : l.s.rdr = some pc)
      (h : RStep cs l.s.g pc (.got (some r)) g pc' es) :
      Move cs l .deliver
        { l with
          s := { l.s with g := g, rdr := some pc', trace := l.s.trace ++ es }
          down := rest
          held := k }
  | readFail {pc pc' : RPc} {g : Shared} {es : List Event}
      (hrdr : l.s.rdr = some pc) (h : RStep cs l.s.g pc (.got none) g pc' es) :
      Move cs l .readFail
        { l with
          s := { l.s with g := g, rdr := some pc', trace := l.s.trace ++ es } }
  | answer {k : Nat} {p r : List UInt8} {rest : List (Nat × List UInt8)}
      (hup : l.up = (k, p) :: rest) (hans : isAnswer p r = true) :
      Move cs l (.answer r)
        { l with
          up := rest
          down := l.down ++ [(k, r)]
          answered := l.answered ++ [(k, r)] }
  | lose {t : Nat × List UInt8} {rest : List (Nat × List UInt8)}
      (hup : l.up = t :: rest) : Move cs l .lose { l with up := rest }
  | drop {n : Nat} (hn : n < l.down.length) :
      Move cs l (.drop n) { l with down := l.down.eraseIdx n }

theorem step_inv {cs : CharSign} {l l' : Link} {a : LAct}
    (h : step cs l a = some l') : Move cs l a l' := by
  cases a with
  | send i =>
      obtain ⟨s', hs, rfl⟩ := Option.map_eq_some_iff.mp h
      cases Session.step_inv hs with
      | send hm => exact .send hm
  | tick =>
      obtain ⟨s', hs, rfl⟩ := Option.map_eq_some_iff.mp h
      cases Session.step_inv hs with
      | read hrdr hm => exact .tick hrdr hm
  | readFail =>
      obtain ⟨s', hs, rfl⟩ := Option.map_eq_some_iff.mp h
      cases Session.step_inv hs with
      | read hrdr hm => exact .readFail hrdr hm
  | deliver =>
      -- a delivery is a read of the oldest report
      simp only [step] at h
      split at h
      case h_2 => cases h
      case h_1 k r rest hdown =>
        obtain ⟨s', hs, rfl⟩ := Option.map_eq_some_iff.mp h
        cases Session.step_inv hs with
        | read hrdr hm => exact .deliver hdown hrdr hm
  | answer r =>
      simp only [step] at h
      split at h
      case h_2 => cases h
      case h_1 k p rest hup =>
        split at h
        case isFalse => cases h
        case isTrue hans =>
          cases h
          exact .answer hup hans
  | lose =>
      simp only [step] at h
      split at h
      case h_2 => cases h
      case h_1 t rest hup =>
        cases h
        exact .lose hup
  | drop n =>
      simp only [step] at h
      split at h
      case isFalse => cases h
      case isTrue hn =>
        cases h
        exact .drop hn

end Link

end BtOta
