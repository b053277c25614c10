import NanoBSD.Lib.Run

/-! # Suspending LWPs on their way to user mode

`kern_lwp.c` and `kern_synch.c`: `lwp_suspend` asks an LWP to suspend itself, which it does in
`lwp_userret` when it returns to user mode; `lwp_continue` takes the request back or makes the LWP
runnable again. An LWP reads its flags without a lock in `lwp_userret`, takes the locks later, and
is still on the CPU for a while after it has changed its state.

Each critical section under `p_lock` and the lock of the LWP is one step. What an LWP does in the
kernel is left out, except that it may sleep. `issignal` stops the LWP or returns; when it does
which is a parameter. What `sobj_unsleep` does is to take the LWP off its sleep queue and to make
it runnable.
-/
namespace NanoBSD.Freeze
variable {π : Type}

inductive LStat
  | idl
  | run
  | sleep
  | stop
  | zomb
  | onproc
  | suspended
  deriving DecidableEq, Repr

structure Flags where
  wexit : Bool
  pendsig : Bool
  wreboot : Bool
  wsuspend : Bool
  wcore : Bool
  lwpctl : Bool
  cachecred : Bool
  deriving DecidableEq, Repr

def Flags.empty : Flags := ⟨false,false,false,false,false,false,false⟩

/-- Where an LWP is: in user mode; in the kernel; in `lwp_userret` before it reads the flags, with
the flags read, in the code for signals, before it suspends, exits or updates `lc_curcpu`; or about
to switch away. -/
inductive Pc
  | user
  | kernel
  | top
  | loaded (f : Flags)
  | signals
  | suspend
  | exit
  | lwpctl
  | sleeping
  | stopping
  | switching
  deriving DecidableEq, Repr

/-- An LWP of the process `proc`; `wchan` says that it is on a sleep queue, `running` is
`LP_RUNNING`. -/
structure Lwp (π : Type) where
  proc : π
  stat : LStat
  flags : Flags
  sintr : Bool
  dbgsuspend : Bool
  wchan : Bool
  running : Bool
  pc : Pc
  deriving DecidableEq, Repr

/-- A process: `PK_SYSTEM`, whether it is stopped by a signal, whether it is traced with a signal
in `p_xsig`, and `p_nrlwps`. -/
structure Proc where
  system : Bool
  stopped : Bool
  traced : Bool
  nrlwps : ℕ
  deriving DecidableEq, Repr

inductive Errno
  | edeadlk
  | eintr
  deriving DecidableEq, Repr

namespace Lwp

def setFlags (x : Lwp π) (f : Flags) : Lwp π := { x with flags := f }
def goto (x : Lwp π) (pc : Pc) : Lwp π := { x with pc := pc }
def runnable (x : Lwp π) : Lwp π := { x with stat := if x.running then .onproc else .run }
def unsleep (x : Lwp π) : Lwp π := { x with wchan := false, sintr := false }.runnable

def start (x : Lwp π) : Lwp π :=
  if x.wchan then unsleep { x with stat := .sleep } else x.runnable

end Lwp

/-- `setrunnable`; `none` is a failed assertion or a panic. -/
def setrunnable (p : Proc) (x : Lwp π) : Option (Proc × Lwp π) :=
  if x.dbgsuspend then none
  else match x.stat with
    | .stop =>
      some ({ p with nrlwps := p.nrlwps + 1 },
        (x.setFlags { x.flags with pendsig := x.flags.pendsig || p.traced }).start)
    | .suspended =>
      some ({ p with nrlwps := p.nrlwps + 1 },(x.setFlags { x.flags with wsuspend := false }).start)
    | .sleep | .idl => some (p,x.start)
    | .run | .zomb | .onproc => none

/-- `lwp_suspend` for an LWP other than the current one, which is `exiting` or not. -/
def lwpSuspend (exiting : Bool) (p : Proc) (x : Lwp π) : Option (Option Errno × Proc × Lwp π) :=
  let asked := x.setFlags { x.flags with wsuspend := true }
  if exiting then some (some .edeadlk,p,x)
  else if x.dbgsuspend then some (none,p,x)
  else match x.stat with
    | .run | .onproc => some (none,p,asked)
    | .sleep => if x.sintr then (setrunnable p asked).map (none,·) else some (none,p,asked)
    | .suspended => some (none,p,x)
    | .stop => (setrunnable p asked).map (none,·)
    | .idl | .zomb => some (some .eintr,p,x)

def lwpContinue (p : Proc) (x : Lwp π) : Option (Proc × Lwp π) :=
  if x.flags.wreboot then some (p,x)
  else
    let x := x.setFlags { x.flags with wsuspend := false }
    if x.stat ≠ .suspended ∨ x.dbgsuspend = true then some (p,x) else setrunnable p x

def Flags.next (f : Flags) : Pc :=
  if f.pendsig && !f.wcore && !f.wexit then .signals
  else if f.wsuspend then .suspend
  else if f.wexit then .exit
  else if f.lwpctl then .lwpctl
  else .top

/-- What is left open in a step of an LWP: a system call may sleep, and there may be more signals
to come. -/
inductive Choice
  | go
  | sleep (sintr : Bool)
  | more
  deriving DecidableEq, Repr

def IssignalWaits (issignal : Proc → Bool) : Prop := ∀ p, p.stopped = true → issignal p = true

def userret (issignal : Proc → Bool) (p : Proc) (x : Lwp π) : Choice → Option (Proc × Lwp π)
  | .go =>
    match x.pc with
    | .user => some (p,x.goto .kernel)
    | .kernel => some (p,x.goto .top)
    | .top => some (p,x.goto (if x.flags = Flags.empty then .user else .loaded x.flags))
    | .loaded f =>
      some (p,(x.setFlags { x.flags with cachecred := x.flags.cachecred && !f.cachecred }).goto f.next)
    | .signals =>
      if issignal p then
        some ({ p with nrlwps := p.nrlwps - 1 },{ x with stat := .stop, pc := .stopping })
      else some (p,(x.setFlags { x.flags with pendsig := false }).goto .top)
    | .suspend =>
      if x.flags.wsuspend then
        some ({ p with nrlwps := p.nrlwps - 1 },{ x with stat := .suspended, pc := .switching })
      else some (p,x.goto .top)
    | .exit => some ({ p with nrlwps := p.nrlwps - 1 },{ x with stat := .zomb, pc := .switching })
    | .lwpctl => some (p,(x.setFlags { x.flags with lwpctl := false }).goto .top)
    | .sleeping | .stopping | .switching => none
  | .sleep sintr =>
    if x.pc = .kernel then
      some (p,{ x with stat := .sleep, wchan := true, sintr := sintr, pc := .sleeping })
    else none
  | .more =>
    if x.pc = .signals ∧ issignal p = false then
      some (p,(x.setFlags { x.flags with pendsig := true }).goto .top)
    else none

def Pc.resume : Pc → Pc
  | .sleeping => .kernel
  | .stopping => .signals
  | .switching => .top
  | pc => pc

def Pc.leaves : Pc → Bool
  | .sleeping | .stopping | .switching => true
  | _ => false

/-- `mi_switch`: an LWP that was made runnable in the meantime yields. -/
def Lwp.miSwitch (x : Lwp π) : Lwp π :=
  { x with
    stat := if x.stat = .onproc then .run else x.stat
    running := false
    pc := x.pc.resume }

def Lwp.wake (x : Lwp π) : Lwp π :=
  if x.stat = .sleep then x.unsleep else { x with wchan := false, sintr := false }

end NanoBSD.Freeze
