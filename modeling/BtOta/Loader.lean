/-
The load loop of ota_update, byte by byte, and a session that runs it.

`otaUpdate` takes the whole of a file in one step. Here the loop itself
is stepped: fgetc, the test of feof, the store. What fgetc and feof do
is ISO C's: at the end of the file fgetc returns EOF and sets the
end-of-file indicator; when a read fails it returns EOF and leaves that
indicator alone, and it goes on doing so.

`Opening` is a session of which the load loop is stepped. It differs
from a `Session` only between fopen and pthread_create.
-/
import BtOta.Session

namespace BtOta

-- ================================================================ the stream

/-- `EOF`. -/
def eof : Int := -1

/-- A file opened for reading: its bytes, where it stands, the position
at which reading fails, and the end-of-file indicator. -/
structure Stream where
  file : List UInt8
  /-- how many bytes can be read before a read fails -/
  errorAt : Option Nat
  pos : Nat
  /-- the end-of-file indicator -/
  feof : Bool
  deriving Repr

/-- What fopen returns: a stream that stands at its first byte, with the
indicator clear. -/
def Stream.fopen (file : List UInt8) (errorAt : Option Nat) : Stream :=
  ⟨file, errorAt, 0, false⟩

/-- `fgetc(fp)`: a byte, or EOF. Only at the end of the file does EOF set
the indicator that feof tests. -/
def Stream.fgetc (fp : Stream) : Int × Stream :=
  if fp.errorAt = some fp.pos then (eof, fp)
  else
    match fp.file[fp.pos]? with
    | some b => (b.toNat, { fp with pos := fp.pos + 1 })
    | none => (eof, { fp with feof := true })

-- ================================================================== the loop

/-- Where the loop stands, between its three calls and assignments. -/
inductive LPc
  /-- `c = fgetc(fp)` -/
  | get
  /-- `while (!feof(fp))` -/
  | test
  /-- `fw_data_buf[i] = c; i++` -/
  | store
  /-- behind the loop -/
  | done
  /-- a store behind the end of `fw_data_buf` -/
  | undefined
  deriving DecidableEq, Repr

/-- The loop's variables, with the buffer it fills and the stream it
reads. -/
structure Loader where
  pc : LPc
  fp : Stream
  i : Nat
  c : UInt8
  fwDataBuf : Nat → UInt8

/-- The loop about to run: `i = 0`. -/
def Loader.start (fwDataBuf : Nat → UInt8) (fp : Stream) : Loader :=
  ⟨.get, fp, 0, 0, fwDataBuf⟩

/-- One step of the loop. `c` is an `unsigned char`, so EOF is stored in
it as 0xFF. -/
def Loader.step (ld : Loader) : Option Loader :=
  match ld.pc with
  | .get =>
      let (n, fp) := ld.fp.fgetc
      some { ld with pc := .test, fp := fp, c := UInt8.ofInt n }
  | .test =>
      some { ld with pc := if ld.fp.feof then .done else .store }
  | .store =>
      if ld.i < fwBufSize then
        some { ld with
          pc := .get, i := ld.i + 1
          fwDataBuf := Function.update ld.fwDataBuf ld.i ld.c }
      else some { ld with pc := .undefined }
  | .done | .undefined => none

-- =============================================================== the session

/-- A session, and the load loop while it runs. With no loop running it
is a plain session. -/
structure Opening where
  s : Session
  ld : Option Loader
  /-- what fopen opens, if it succeeds -/
  file : List UInt8
  errorAt : Option Nat

/-- What happens: a step of the session, or of the load loop that stands
in for one of its steps. -/
inductive OAct
  /-- a step of the session outside the load loop -/
  | act (a : Act)
  /-- fopen succeeds -/
  | fopen
  /-- a step of the load loop, or the step behind it -/
  | load
  deriving DecidableEq, Repr

/-- The session behind the loop: `fw_data_len = i`, and `fclose(fp)`. -/
def Session.loaded (s : Session) (ld : Loader) : Session :=
  { s with
    snd := { s.snd with
      fwDataBuf := ld.fwDataBuf, fwDataLen := ld.i
      remainDataLen := ld.i, pc := .create }
    trace := s.trace ++ [.log (.fwSize ld.i)] }

namespace Opening

/-- One step. While the loop runs nothing else does: hidRead is not
created before the loop is over. -/
def step (cs : CharSign) (o : Opening) : OAct → Option Opening
  | .act a =>
      match o.ld, a with
      | some _, _ | none, .send (.opened (some _)) => none
      | none, a => (Session.step cs o.s a).map fun s => { o with s := s }
  | .fopen =>
      if o.ld.isNone ∧ o.s.snd.pc = .load then
        some { o with
          ld := some (Loader.start o.s.snd.fwDataBuf
            (Stream.fopen o.file o.errorAt)) }
      else none
  | .load =>
      match o.ld with
      | none => none
      | some ld =>
          if ld.pc = .done then
            some { o with s := o.s.loaded ld, ld := none }
          else ld.step.map fun ld' => { o with ld := some ld' }

/-- A session about to run its first statement, with the file that its
fopen will find on the disk. -/
def call (g₀ : Shared) (param2 : Option String) (stack : Nat → UInt8)
    (file : List UInt8) (errorAt : Option Nat) : Opening :=
  ⟨Session.call g₀ param2 stack, none, file, errorAt⟩

/-- The steps, by name: the session's, the loop's, and the two that lead
into the loop and out of it. -/
inductive Move (cs : CharSign) (o : Opening) : OAct → Opening → Prop
  | act {a : Act} {s : Session} (hld : o.ld = none)
      (hne : ∀ file, a ≠ .send (.opened (some file)))
      (h : Session.step cs o.s a = some s) :
      Move cs o (.act a) { o with s := s }
  | fopen (hld : o.ld = none) (hpc : o.s.snd.pc = .load) :
      Move cs o .fopen
        { o with
          ld := some (Loader.start o.s.snd.fwDataBuf
            (Stream.fopen o.file o.errorAt)) }
  | exit {ld : Loader} (hld : o.ld = some ld) (hpc : ld.pc = .done) :
      Move cs o .load { o with s := o.s.loaded ld, ld := none }
  | load {ld ld' : Loader} (hld : o.ld = some ld) (h : ld.step = some ld') :
      Move cs o .load { o with ld := some ld' }

theorem step_inv {cs : CharSign} {o o' : Opening} {a : OAct}
    (h : step cs o a = some o') : Move cs o a o' := by
  cases a with
  | act a =>
      simp only [step] at h
      split at h
      case h_1 => cases h
      case h_2 => cases h
      case h_3 hld hne =>
        obtain ⟨s, hs, rfl⟩ := Option.map_eq_some_iff.mp h
        refine .act hld ?_ hs
        intro file hf
        exact hne file hf
  | fopen =>
      simp only [step] at h
      split at h
      case isFalse => cases h
      case isTrue hpc =>
        cases h
        exact .fopen (Option.isNone_iff_eq_none.mp hpc.1) hpc.2
  | load =>
      simp only [step] at h
      split at h
      case h_1 => cases h
      case h_2 ld hld =>
        split at h
        case isTrue hpc =>
          cases h
          exact .exit hld hpc
        case isFalse hpc =>
          obtain ⟨ld', hs, rfl⟩ := Option.map_eq_some_iff.mp h
          exact .load hld hs

end Opening

end BtOta
