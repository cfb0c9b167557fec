/-
The connection: reconnect, do_connect and l2cap_connect, which open its
sockets, and quit_serv, which closes them.

# Steps

One step is one system call, or one store to a variable that another
thread reads. What a call returns comes with the step: the number a
socket call gives out, which may be any that is free, or that the call
failed. setsockopt's result is not looked at and changes nothing here.

l2cap_connect runs twice, for the control channel and for the interrupt
channel, and is one set of program counters with the channel as its
argument. quit_serv reads each global variable where it closes it.

# Left out

`switch (uuid)` has the one arm that `uuid` is set to. csg and isg are
assigned by open_sock alone, which nothing runs any more, so they stay
what they are at load. The request, the names and the addresses reach
no branch. quit_thread signals a thread that nothing sets.
-/
import BtOta.Lib.Descriptors

namespace BtOta

open Descriptors

-- ============================================================== descriptors

/-- The two channels of a connection, by the PSM they are opened on. -/
inductive Psm
  /-- `L2CAP_PSM_HIDP_CTRL` -/
  | ctrl
  /-- `L2CAP_PSM_HIDP_INTR` -/
  | intr
  deriving DecidableEq, Repr

/-- What a descriptor stands for. The number alone does not say: the
kernel gives it out anew once it is closed. -/
inductive Desc
  /-- the HIDP control socket of reconnect call `c` -/
  | hidp (c : Nat)
  /-- the L2CAP socket that reconnect call `c` opened for a channel -/
  | channel (c : Nat) (p : Psm)
  /-- the firmware file of ota_update call `k` -/
  | firmware (k : Nat)
  /-- something other code of the process has opened -/
  | other (m : Nat)
  deriving DecidableEq, Repr

/-- The library has opened it, and nobody else is to close it. -/
def Desc.ours : Desc → Bool
  | .other _ => false
  | _ => true

/-- An interrupt channel: what hidWrite and hidRead mean to use. -/
def Desc.isIntr : Desc → Bool
  | .channel _ .intr => true
  | _ => false

/-- What happened to the descriptors, in the order it happened. No step
reads these events back. -/
inductive FdEvent
  /-- l2cap_connect has connected channel `p` for call `c` -/
  | connected (c : Nat) (p : Psm)
  /-- do_connect has stored channel `p` in its global variable -/
  | stored (c : Nat) (p : Psm)
  /-- do_connect has set connection_status -/
  | established (c : Nat)
  /-- reconnect, do_connect, l2cap_connect or quit_serv has closed the
  number `n`, which stood for `d` -/
  | closed (n : Nat) (d : Option Desc)
  /-- quit_serv has closed its last number -/
  | quit
  /-- a packet of ota_update call `k` went to `d` -/
  | wrote (k : Nat) (d : Desc)
  /-- a reader of ota_update call `k` took a report from `d` -/
  | consumed (k : Nat) (d : Desc)
  deriving DecidableEq, Repr

/-- The descriptors of the process, and the variables of hidserv.c that
hold numbers of them. A variable keeps its number when the descriptor is
closed. -/
structure Net where
  fds : Table Desc
  ctrl : Nat
  intr : Nat
  csg : Nat
  isg : Nat
  connectionStatus : Int
  log : List FdEvent

namespace Net

/-- The static variables when the library is loaded: all zero, so each
holds the number of standard input. -/
def loaded : Net where
  fds := Table.empty
  ctrl := 0
  intr := 0
  csg := 0
  isg := 0
  connectionStatus := 0
  log := []

def say (net : Net) (e : FdEvent) : Net := { net with log := net.log ++ [e] }

/-- socket or fopen gives out `n`, which was free, and it stands for `d`
from here on. -/
def opened (net : Net) (n : Nat) (d : Desc) : Net :=
  { net with fds := net.fds.opened n d }

/-- `close(n)`: whatever `n` stands for is closed, whoever has opened it;
a number that is free is an error that nobody looks at. -/
def close (net : Net) (n : Nat) : Net :=
  { net with
    fds := net.fds.closed n, log := net.log ++ [.closed n (net.fds n)] }

/-- `fclose(fp)`, with `n` behind it: the library's own close, on a
descriptor it got from fopen. -/
def fclose (net : Net) (n : Nat) : Net :=
  { net with fds := net.fds.closed n }

variable (net : Net) (n : Nat) (d : Desc) (e : FdEvent)

@[simp] theorem say_fds : (net.say e).fds = net.fds := rfl
@[simp] theorem say_ctrl : (net.say e).ctrl = net.ctrl := rfl
@[simp] theorem say_intr : (net.say e).intr = net.intr := rfl
@[simp] theorem say_log : (net.say e).log = net.log ++ [e] := rfl
@[simp] theorem opened_fds : (net.opened n d).fds = net.fds.opened n d := rfl
@[simp] theorem opened_log : (net.opened n d).log = net.log := rfl
@[simp] theorem close_fds : (net.close n).fds = net.fds.closed n := rfl
@[simp] theorem close_log :
    (net.close n).log = net.log ++ [.closed n (net.fds n)] := rfl
@[simp] theorem fclose_fds : (net.fclose n).fds = net.fds.closed n := rfl
@[simp] theorem fclose_log : (net.fclose n).log = net.log := rfl

end Net

-- ================================================================ reconnect

/-- Where a call of reconnect stands: one place for each system call, and
for each store to a variable that other threads read. -/
inductive CPc
  /-- `socket(AF_BLUETOOTH, SOCK_RAW, BTPROTO_HIDP)` -/
  | openCtl
  /-- l2cap_connect: `socket(PF_BLUETOOTH, SOCK_SEQPACKET, ..)` -/
  | socket (p : Psm)
  /-- l2cap_connect: `bind(sk, ..)` -/
  | bind (p : Psm)
  /-- l2cap_connect: `connect(sk, ..)` -/
  | connect (p : Psm)
  /-- l2cap_connect: `close(sk)` before it returns -1 -/
  | drop (p : Psm)
  /-- do_connect: `close(csk)` -/
  | closeCsk
  /-- do_connect: `close(ctl)` -/
  | closeCtl
  /-- do_connect: `ctrl = csk` -/
  | storeCtrl
  /-- do_connect: `intr = isk` -/
  | storeIntr
  /-- do_connect: `connection_status = 1` -/
  | storeStatus
  | returned (ret : Int)
  deriving DecidableEq, Repr

/-- The local variables of one call of reconnect and of what it calls,
and what it will return. -/
structure Connect where
  pc : CPc
  ctl : Nat
  csk : Nat
  isk : Nat
  sk : Nat
  deriving DecidableEq, Repr

/-- A call about to run. -/
def Connect.call : Connect := ⟨.openCtl, 0, 0, 0, 0⟩

def Connect.returned (cn : Connect) : Bool :=
  match cn.pc with
  | .returned _ => true
  | _ => false

/-- What a step of reconnect takes from outside: nothing, a descriptor's
number, or the failure of the call. -/
inductive CIn
  | tick
  /-- the call has failed -/
  | failed
  /-- the call has succeeded -/
  | ok
  /-- the number socket gives out -/
  | number (n : Nat)
  deriving DecidableEq, Repr

/-- Where do_connect goes on when l2cap_connect has returned -1: it
closes what it has, the control channel first. -/
def CPc.refused : Psm → CPc
  | .ctrl => .closeCtl
  | .intr => .closeCsk

/-- One step of reconnect call `c`. `none` where the system cannot give
the answer that comes with the step. -/
def reconnect (c : Nat) (net : Net) (cn : Connect) :
    CIn → Option (Net × Connect)
  | .number n =>
      if net.fds n = none then
        match cn.pc with
        | .openCtl =>
            some (net.opened n (.hidp c),
              { cn with pc := .socket .ctrl, ctl := n })
        | .socket p =>
            some (net.opened n (.channel c p),
              { cn with pc := .bind p, sk := n })
        | _ => none
      else none
  | .failed =>
      match cn.pc with
      | .openCtl => some (net, { cn with pc := .returned 0 })
      | .socket p => some (net, { cn with pc := .refused p })
      | .bind p | .connect p => some (net, { cn with pc := .drop p })
      | _ => none
  | .ok =>
      match cn.pc with
      | .bind p => some (net, { cn with pc := .connect p })
      | .connect .ctrl =>
          some (net.say (.connected c .ctrl),
            { cn with pc := .socket .intr, csk := cn.sk })
      | .connect .intr =>
          some (net.say (.connected c .intr),
            { cn with pc := .storeCtrl, isk := cn.sk })
      | _ => none
  | .tick =>
      match cn.pc with
      | .drop p => some (net.close cn.sk, { cn with pc := .refused p })
      | .closeCsk => some (net.close cn.csk, { cn with pc := .closeCtl })
      | .closeCtl => some (net.close cn.ctl, { cn with pc := .returned 0 })
      | .storeCtrl =>
          some ({ net with ctrl := cn.csk }.say (.stored c .ctrl),
            { cn with pc := .storeIntr })
      | .storeIntr =>
          some ({ net with intr := cn.isk }.say (.stored c .intr),
            { cn with pc := .storeStatus })
      | .storeStatus =>
          some ({ net with connectionStatus := 1 }.say (.established c),
            { cn with pc := .returned 0 })
      | _ => none

/-- The steps of reconnect, by name, each with what it asks of the
descriptors. -/
inductive CStep (c : Nat) (net : Net) (cn : Connect) :
    CIn → Net → Connect → Prop
  | openCtl {n : Nat} (pc : cn.pc = .openCtl) (free : net.fds n = none) :
      CStep c net cn (.number n) (net.opened n (.hidp c))
        { cn with pc := .socket .ctrl, ctl := n }
  | noCtl (pc : cn.pc = .openCtl) :
      CStep c net cn .failed net { cn with pc := .returned 0 }
  | socket {n : Nat} {p : Psm} (pc : cn.pc = .socket p)
      (free : net.fds n = none) :
      CStep c net cn (.number n) (net.opened n (.channel c p))
        { cn with pc := .bind p, sk := n }
  | noSocket {p : Psm} (pc : cn.pc = .socket p) :
      CStep c net cn .failed net { cn with pc := .refused p }
  | bind {p : Psm} (pc : cn.pc = .bind p) :
      CStep c net cn .ok net { cn with pc := .connect p }
  | refuse {p : Psm} (pc : cn.pc = .bind p ∨ cn.pc = .connect p) :
      CStep c net cn .failed net { cn with pc := .drop p }
  | connectCtrl (pc : cn.pc = .connect .ctrl) :
      CStep c net cn .ok (net.say (.connected c .ctrl))
        { cn with pc := .socket .intr, csk := cn.sk }
  | connectIntr (pc : cn.pc = .connect .intr) :
      CStep c net cn .ok (net.say (.connected c .intr))
        { cn with pc := .storeCtrl, isk := cn.sk }
  | drop {p : Psm} (pc : cn.pc = .drop p) :
      CStep c net cn .tick (net.close cn.sk) { cn with pc := .refused p }
  | closeCsk (pc : cn.pc = .closeCsk) :
      CStep c net cn .tick (net.close cn.csk) { cn with pc := .closeCtl }
  | closeCtl (pc : cn.pc = .closeCtl) :
      CStep c net cn .tick (net.close cn.ctl)
        { cn with pc := .returned 0 }
  | storeCtrl (pc : cn.pc = .storeCtrl) :
      CStep c net cn .tick
        ({ net with ctrl := cn.csk }.say (.stored c .ctrl))
        { cn with pc := .storeIntr }
  | storeIntr (pc : cn.pc = .storeIntr) :
      CStep c net cn .tick
        ({ net with intr := cn.isk }.say (.stored c .intr))
        { cn with pc := .storeStatus }
  | storeStatus (pc : cn.pc = .storeStatus) :
      CStep c net cn .tick
        ({ net with connectionStatus := 1 }.say (.established c))
        { cn with pc := .returned 0 }

theorem reconnect_inv {c : Nat} {net net' : Net} {cn cn' : Connect}
    {i : CIn} (h : reconnect c net cn i = some (net', cn')) :
    CStep c net cn i net' cn' := by
  cases i with
  | number n =>
      simp only [reconnect] at h
      split at h
      case isFalse => cases h
      case isTrue hfree =>
        split at h <;> cases h
        case h_1 hpc => exact .openCtl hpc hfree
        case h_2 p hpc => exact .socket hpc hfree
  | failed =>
      simp only [reconnect] at h
      split at h <;> cases h
      case h_1 hpc => exact .noCtl hpc
      case h_2 p hpc => exact .noSocket hpc
      case h_3 p hpc => exact .refuse (Or.inl hpc)
      case h_4 p hpc => exact .refuse (Or.inr hpc)
  | ok =>
      simp only [reconnect] at h
      split at h <;> cases h
      case h_1 p hpc => exact .bind hpc
      case h_2 hpc => exact .connectCtrl hpc
      case h_3 hpc => exact .connectIntr hpc
  | tick =>
      simp only [reconnect] at h
      split at h <;> cases h
      case h_1 p hpc => exact .drop hpc
      case h_2 hpc => exact .closeCsk hpc
      case h_3 hpc => exact .closeCtl hpc
      case h_4 hpc => exact .storeCtrl hpc
      case h_5 hpc => exact .storeIntr hpc
      case h_6 hpc => exact .storeStatus hpc

-- ================================================================ quit_serv

/-- Where a run of quit_serv stands, its line logged: before one of its
four closes, or behind them. -/
inductive QPc
  /-- `close(ctrl)` -/
  | ctrl
  /-- `close(intr)` -/
  | intr
  /-- `close(csg)` -/
  | csg
  /-- `close(isg)` -/
  | isg
  | done
  deriving DecidableEq, Repr

/-- One step of quit_serv. Each variable is read where it is closed, so a
store in between is seen. -/
def quitServ (net : Net) : QPc → Option (Net × QPc)
  | .ctrl => some (net.close net.ctrl, .intr)
  | .intr => some (net.close net.intr, .csg)
  | .csg => some (net.close net.csg, .isg)
  | .isg => some ((net.close net.isg).say .quit, .done)
  | .done => none

end BtOta
