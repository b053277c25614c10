import Mathlib.Data.Finset.Erase
import Mathlib.Data.List.FinRange
import NanoBSD.Lib.Run
import NanoBSD.Xhci.Slot

/-! # The controller and its threads

The slots of a controller with the threads that work on them: the owners of transitions,
the work queue, the holder of `sc_lock` (transfer starts and interrupt processing), the
system suspend and resume, the callout, the sysctl handlers and the threads that bind and
unbind slots and open and close pipes. A step is one section under `sc_intr_lock`, or a
look at a slot without it; between any two steps of a thread all others may run.

`owed` is not in the source: a reconcile is owed when a setting was stored or a pause
ended and no reconcile has been carried out since.
-/
namespace NanoBSD.Xhci
open Function

/-- The holder of `sc_lock` between two sections: a doorbell or port change about to kick a slot,
and `xhci_rt_portchange` at its looks at the slot. -/
inductive Bus (n : ℕ)
  | free
  | kick (i : Fin n)
  | look (i : Fin n)
  | asleep (i : Fin n)
  | stir (i : Fin n)
  | wake (i : Fin n)
deriving DecidableEq

/-- The system suspend and resume. The loops over the slots have the slots to do. -/
inductive Pm (n : ℕ)
  | awake
  -- `xhci_rt_pause`: flag set, callout halted, tasks and openers gone
  | pausing
  | halted
  | drained
  -- `xhci_suspend`: commands blocked, and the failure exit
  | blocked
  | failing (todo : List (Fin n))
  | failKick (i : Fin n) (todo : List (Fin n))
  -- `xhci_resume`: not called yet, running, failed, and the exit after a success
  | asleep
  | resuming
  | broken
  | ringing (todo : List (Fin n))
  | rung
  | unparking (todo : List (Fin n))
  | unparkKick (i : Fin n) (todo : List (Fin n))
deriving DecidableEq

structure State (n : ℕ) where
  env : Env
  timer : Timer
  slots : Fin n → Slot
  bus : Bus n
  pm : Pm n
  /-- a setting was stored, and whether its reconcile has to wake the slots -/
  knob : Option Bool
  owed : Bool

inductive Knob
  | autosuspend (val : ℕ)
  | hid
  | deferrable (val : Bool)

inductive Event (n : ℕ)
  | owner (i : Fin n) (a : Answer)
  | pop (i : Fin n)
  | task (i : Fin n)
  | wakeForOpen (i : Fin n)
  | pipeOpened (i : Fin n) (d : ℕ) (own : Bool)
  | pipeClosed (i : Fin n) (d : ℕ) (own : Bool)
  | doorbell (i : Fin n) (d : ℕ)
  | complete (i : Fin n) (d : ℕ)
  | abort (i : Fin n) (d rung held : ℕ)
  | portchange (i : Fin n)
  | bus (resumes : Bool)
  | callout
  | store (k : Knob)
  | reconcile
  | tick
  | bind (i : Fin n) (root : Bool)
  | bound (i : Fin n)
  | unbind (i : Fin n)
  | unbound (i : Fin n)
  | deactivate
  | detach
  | pause
  | halt
  | drain
  | block
  | fail
  | sleep
  | resume
  | restart (i : Fin n) (d : ℕ)
  | resumed (ok : Bool)
  | pm

/-! ## Loops over the slots -/
section Loops
variable {n : ℕ}

structure Flags where
  reset : Bool
  wake : Bool

def reconcileCore (flags : Flags) (k : Core) : Core :=
  let want := if flags.wake ∧ k.root ∧ (k.suspended ∨ k.parkedDrv) then .resume else k.want
  if k.link = .bound then
    { k with want := want, queued := k.queued || (decide (want ≠ .nothing) && k.owner.isNone) }
  else k

def resetDl (k : Core) (c : Cell) : Cell :=
  let fresh := { c with dl := { c.dl with resFails := 0, suspFails := 0 } }
  if c.dl.retryArmed ∧ (c.dl.retryWant = .suspend ∨ !k.suspended) then rtDlClear fresh else fresh

def reconcileDl (e : Env) (flags : Flags) (k : Core) (c : Cell) : Cell :=
  if k.link = .bound then
    let newer := { c with dl := { c.dl with gen := c.dl.gen + 1 } }
    let reset := if flags.reset then resetDl k newer else newer
    if reset.dl.retryArmed then rtSlotRearm e k reset else rtIdleArm e k reset
  else rtDlClear c

def reconcileLoop (e : Env) (flags : Flags) :
    List (Fin n) → Timer → (Fin n → Slot) → Timer × (Fin n → Slot)
  | [], t, f => (t,f)
  | i :: is, t, f =>
    let c := reconcileDl e flags (f i).toCore ⟨t,(f i).toDeadline⟩
    reconcileLoop e flags is c.timer
      (update f i ⟨reconcileCore flags (f i).toCore,c.dl⟩)

structure Scan where
  timer : Timer
  n : ℕ
  next : Option ℤ
  hard : Bool

def Scan.clear (a : Scan) (x : Slot) : Slot × Scan :=
  let c := rtDlClear ⟨a.timer,x.toDeadline⟩
  (⟨x.toCore,c.dl⟩,{ a with timer := c.timer })

def Scan.serve (e : Env) (a : Scan) (x : Slot) (due : ℤ) (want : Want) : Slot × Scan :=
  if 0 ≤ tdiff e.now due then
    let r := a.clear x
    ({ r.1 with want := x.want.max want, queued := true },r.2)
  else
    (x,
      { a with
        n := a.n + 1
        next := some (a.next.elim due fun t => if tdiff due t < 0 then due else t)
        hard := a.hard || (x.retryArmed && decide (want = .resume)) })

def Scan.visit (e : Env) (a : Scan) (x : Slot) : Slot × Scan :=
  if !x.armed then (x,a)
  else if x.link ≠ .bound ∨ !x.root then a.clear x
  else if x.owner.isSome ∨ x.want ≠ .nothing ∨ x.resuming then (x,{ a with n := a.n + 1 })
  else if x.retryArmed then a.serve e x x.retryDue x.retryWant
  else if !e.enabled ∨ x.suspended then a.clear x
  else a.serve e x (x.lastbusy + e.period) .suspend

def scanLoop (e : Env) : List (Fin n) → (Fin n → Slot) → Scan → (Fin n → Slot) × Scan
  | [], f, a => (f,a)
  | i :: is, f, a =>
    scanLoop e is (update f i (a.visit e (f i)).1) (a.visit e (f i)).2

def Scan.timerAfter (e : Env) (a : Scan) : Timer :=
  match a.next with
  | some due => rtSchedule e { a.timer with ndeadlines := a.n } due a.hard
  | none => { a.timer with ndeadlines := a.n, armed := false }

end Loops

/-! ## Steps -/
section Step
variable {n : ℕ}

namespace State

def core (s : State n) (i : Fin n) : Core := (s.slots i).toCore
def cell (s : State n) (i : Fin n) : Cell := ⟨s.timer,(s.slots i).toDeadline⟩

def place (s : State n) (i : Fin n) (r : Core × Cell) : State n :=
  { s with timer := r.2.timer, slots := update s.slots i ⟨r.1,r.2.dl⟩ }

def setCore (s : State n) (i : Fin n) (k : Core) : State n :=
  { s with slots := update s.slots i ⟨k,(s.slots i).toDeadline⟩ }

def mapCores (s : State n) (f : Core → Core) : State n :=
  { s with slots := fun i => ⟨f (s.slots i).toCore,(s.slots i).toDeadline⟩ }

def reconcile (s : State n) (flags : Flags) : State n :=
  if s.env.dying || s.env.paused then s
  else
    let r := reconcileLoop s.env flags (List.finRange n) s.timer s.slots
    { s with timer := r.1, slots := r.2, owed := false }

def callout (s : State n) : State n :=
  if s.env.dying || s.env.paused then { s with timer := { s.timer with armed := false } }
  else
    let r := scanLoop s.env (List.finRange n) s.slots ⟨{ s.timer with armed := false },0,none,false⟩
    { s with timer := r.2.timerAfter s.env, slots := r.1 }

def locked (s : State n) : Bool :=
  match s.bus, s.pm with
  | .free, .ringing _ => true
  | .free, _ => false
  | _, _ => true

def busNext (s : State n) (resumes : Bool) : Option (State n) :=
  match s.bus with
  | .free => none
  | .kick i => some { s.setCore i (rtKick s.env .resume (s.core i)) with bus := .free }
  | .look i =>
    if (s.core i).link ≠ .bound ∨ !(s.core i).root then some { s with bus := .free }
    else if (s.core i).suspended then some { s with bus := .asleep i }
    else some { s with bus := .stir i }
  | .asleep i =>
    if (s.core i).resuming ∨ !resumes then some { s with bus := .free }
    else some { s with bus := .wake i }
  | .stir i =>
    let newer := { s.cell i with dl := { (s.cell i).dl with gen := (s.cell i).dl.gen + 1 } }
    some
      { s.place i (s.core i,if newer.dl.dormant then rtIdleArm s.env (s.core i) newer else newer) with
        bus := .free }
  | .wake i => some { s.setCore i { s.core i with resuming := true } with bus := .kick i }

def pmNext (s : State n) : Option (State n) :=
  match s.pm with
  | .failing [] => some { s.reconcile ⟨true,false⟩ with pm := .awake }
  | .failing (i :: todo) =>
    if (s.core i).link = .bound ∧ ((s.core i).suspended ∨ (s.core i).resuming ∨
        (s.core i).parkedDrv ∨ (s.core i).dbpending ≠ ∅) then
      some { s with pm := .failKick i todo }
    else some { s with pm := .failing todo }
  | .failKick i todo =>
    some { s.setCore i (rtKick s.env .resume (s.core i)) with pm := .failing todo }
  | .ringing [] => some { s with pm := .rung }
  | .ringing (i :: todo) =>
    if (s.core i).link = .bound then
      some { s.setCore i (rtRingPending s.env (s.core i)) with pm := .ringing todo }
    else some { s with pm := .ringing todo }
  | .rung =>
    some { s with env := { s.env with paused := false }, pm := .unparking (List.finRange n) }
  | .unparking [] => some { s.reconcile ⟨true,false⟩ with pm := .awake }
  | .unparking (i :: todo) =>
    if (s.core i).link = .bound ∧ (s.core i).parkedDrv then
      some { s with pm := .unparkKick i todo }
    else some { s with pm := .unparking todo }
  | .unparkKick i todo =>
    some { s.setCore i (rtKick s.env .resume (s.core i)) with pm := .unparking todo }
  | _ => none

/-- What `xhci_rt_pause` waits for: no task of a bound slot is queued or runs, and
`sc_rt_openers` is 0. -/
def Drained (s : State n) : Prop :=
  ∀ i, ((s.core i).link = .bound → (s.core i).queued = false ∧ (s.core i).worker = .idle) ∧
    ∀ o, (s.core i).owner = some o → o.who ≠ .opener

instance (s : State n) : Decidable s.Drained :=
  inferInstanceAs (Decidable (∀ i, _ ∧ ∀ o ∈ (s.core i).owner, _))

end State

def resumedCore (e : Env) (k : Core) : Core :=
  if k.link = .bound then
    { k with suspended := k.parkedDrv, resuming := false, want := .nothing, lastbusy := e.now }
  else k

def bindCore (e : Env) (root : Bool) (k : Core) : Core :=
  { k with
    link := .binding
    root := root
    npipes := 0
    lastbusy := e.now
    owner := none
    suspended := false
    resuming := false
    parkedDrv := false
    dbpending := ∅
    want := .nothing
    queued := false
    pipes := ∅
    held := fun _ => 0
    rung := fun _ => 0 }

def bindDl (c : Cell) : Cell :=
  { rtDlClear c with dl := { (rtDlClear c).dl with dormant := false, resFails := 0, suspFails := 0 } }

def unboundCore (k : Core) : Core :=
  { k with
    link := .unbound
    root := false
    suspended := false
    resuming := false
    parkedDrv := false
    dbpending := ∅
    want := .nothing }

def Bus.leaves (b : Bus n) (i : Fin n) : Prop :=
  b ≠ .kick i ∧ b ≠ .look i ∧ b ≠ .asleep i ∧ b ≠ .stir i ∧ b ≠ .wake i

instance (b : Bus n) (i : Fin n) : Decidable (b.leaves i) :=
  inferInstanceAs (Decidable (_ ∧ _))

def Knob.apply (e : Env) : Knob → Option Env
  | .autosuspend val => if val ≤ 3600 then some { e with autosuspend := val } else none
  | .hid => some e
  | .deferrable val => some { e with deferrable := val }

def Knob.wakes : Knob → Bool
  | .autosuspend 0 => true
  | _ => false

def step (s : State n) : Event n → Option (State n)
  | .owner i a =>
    match (s.core i).owner with
    | none => none
    | some o => some (s.place i (advance s.env (s.core i) (s.cell i) o a))
  -- `xhci_rt_work`
  | .pop i =>
    if (s.core i).queued ∧ (s.core i).worker = .idle then
      some (s.setCore i { s.core i with queued := false, worker := .popped })
    else none
  | .task i =>
    if (s.core i).worker = .popped then some (s.setCore i (rtTask s.env (s.slots i))) else none
  -- `xhci_rt_wake_for_open` of a slot that has to be woken
  | .wakeForOpen i =>
    if (s.core i).link = .bound ∧ !s.env.paused ∧ (s.core i).owner = none ∧ (s.core i).suspended then
      some (s.setCore i
        { s.core i with resuming := true, owner := some ⟨.opener,.wake .done⟩ })
    else none
  -- the end of `xhci_open`, for a pipe other than the control pipe
  | .pipeOpened i d own =>
    if ((s.core i).link = .bound ∨ (s.core i).link = .unbinding) ∧ d ≠ 1 ∧ d ∉ (s.core i).pipes ∧
        (own → (s.core i).owner.isSome) then
      let k := { s.core i with
        npipes := (s.core i).npipes + 1
        lastbusy := s.env.now
        pipes := insert d (s.core i).pipes }
      some (s.place i (k,rtEvent s.env k own (s.cell i)))
    else none
  -- `xhci_close_pipe`, when the transfers of the pipe are gone
  | .pipeClosed i d own =>
    if !s.locked ∧ ((s.core i).link = .bound ∨ (s.core i).link = .unbinding) ∧
        d ∈ (s.core i).pipes ∧ (s.core i).rung d = 0 ∧ (s.core i).held d = 0 ∧
        (own → (s.core i).owner.isSome) then
      let k := { s.core i with pipes := (s.core i).pipes.erase d }
      if k.link = .bound then
        let k := { k with npipes := k.npipes - 1, lastbusy := s.env.now }
        some (s.place i (k,rtEvent s.env k own (s.cell i)))
      else some (s.setCore i k)
    else none
  -- a transfer is started
  | .doorbell i d =>
    if !s.locked ∧ ((s.core i).link = .bound ∨ (s.core i).link = .unbinding) ∧
        (d = 1 ∨ d ∈ (s.core i).pipes) then
      some
        { s.setCore i (rtDoorbell s.env d ((s.core i).enqueue d)) with
          bus := if rtDoorbellResumes s.env (s.core i) then .kick i else .free }
    else none
  -- `xhci_event_transfer`
  | .complete i d =>
    if (s.core i).link = .bound ∨ (s.core i).link = .unbinding then
      some (s.setCore i
        { s.core i with
          lastbusy := s.env.now
          rung := update (s.core i).rung d ((s.core i).rung d - 1) })
    else none
  | .abort i d rung held =>
    some (s.setCore i
      { s.core i with
        rung := update (s.core i).rung d ((s.core i).rung d - rung)
        held := update (s.core i).held d ((s.core i).held d - held) })
  | .portchange i => if s.locked ∨ s.env.paused then none else some { s with bus := .look i }
  | .bus resumes => s.busNext resumes
  | .callout => some s.callout
  -- `sysctl_hw_usbpm_knob`
  | .store k =>
    if s.knob = none then
      (k.apply s.env).map fun e => { s with env := e, knob := some k.wakes, owed := true }
    else none
  | .reconcile =>
    match s.knob with
    | none => none
    | some wake => some { s.reconcile ⟨true,wake⟩ with knob := none }
  | .tick => some { s with env := { s.env with now := s.env.now + 1 } }
  -- `xhci_rt_bind`; enabling the slot needed `sc_lock`
  | .bind i root =>
    if (s.core i).link = .unbound ∧ s.bus.leaves i then
      some (s.place i (bindCore s.env root (s.core i),bindDl (s.cell i)))
    else none
  | .bound i =>
    if (s.core i).link = .binding then
      let k := { s.core i with link := .bound }
      some (s.place i (k,rtEvent s.env k false (s.cell i)))
    else none
  -- `xhci_rt_unbind`, which at last waits for the task and the owner
  | .unbind i =>
    if (s.core i).link = .bound then
      some (s.place i ({ s.core i with link := .unbinding },rtDlClear (s.cell i)))
    else none
  | .unbound i =>
    if (s.core i).link = .unbinding ∧ !(s.core i).queued ∧ (s.core i).worker = .idle ∧
        (s.core i).owner = none then
      some (s.place i (unboundCore (s.core i),bindDl (s.cell i)))
    else none
  -- `xhci_activate` and `xhci_detach`
  | .deactivate => some { s with env := { s.env with dying := true } }
  | .detach =>
    some { s with env := { s.env with dying := true }, timer := { s.timer with armed := false } }
  -- `xhci_rt_pause`
  | .pause =>
    if s.pm = .awake then some { s with env := { s.env with paused := true }, pm := .pausing }
    else none
  | .halt =>
    if s.pm = .pausing then some { s with timer := { s.timer with armed := false }, pm := .halted }
    else none
  | .drain => if s.pm = .halted ∧ s.Drained then some { s with pm := .drained } else none
  -- `xhci_suspend`
  | .block =>
    if s.pm = .drained ∧ !s.locked then
      some { s with env := { s.env with suspender := true }, pm := .blocked }
    else none
  | .fail =>
    if s.pm = .blocked ∧ !s.locked then
      some
        { s with
          env := { s.env with suspender := false, paused := false }
          pm := .failing (List.finRange n)
          owed := true }
    else none
  | .sleep => if s.pm = .blocked then some { s with pm := .asleep } else none
  -- `xhci_resume`
  | .resume =>
    if (s.pm = .asleep ∨ s.pm = .broken) ∧ !s.locked then
      some { s with env := { s.env with suspender := true }, pm := .resuming }
    else none
  | .restart i d =>
    if s.pm = .resuming ∧ ((s.core i).link = .bound ∨ (s.core i).link = .unbinding) then
      some (s.setCore i (rtDoorbell s.env d (s.core i)))
    else none
  | .resumed ok =>
    if s.pm = .resuming ∧ !s.locked then
      if ok then
        some
          { s.mapCores (resumedCore s.env) with
            env := { s.env with suspender := false, resumeFailed := false }
            pm := .ringing (List.finRange n)
            owed := true }
      else
        some { s with env := { s.env with suspender := false, resumeFailed := true }, pm := .broken }
    else none
  | .pm => s.pmNext

end Step

/-! ## Boot -/
section Boot
variable {n : ℕ}

def emptySlot (now : ℤ) : Slot where
  link := .unbound
  root := false
  npipes := 0
  lastbusy := now
  owner := none
  suspended := false
  resuming := false
  parkedDrv := false
  dbpending := ∅
  want := .nothing
  queued := false
  worker := .idle
  pipes := ∅
  held := fun _ => 0
  rung := fun _ => 0
  idleArmed := false
  retryArmed := false
  dormant := false
  retryWant := .nothing
  retryDue := now
  gen := 0
  resFails := 0
  suspFails := 0

def attach (n : ℕ) (now : ℤ) (hz autosuspend : ℕ) (deferrable : Bool) : State n where
  env :=
    { now := now
      hz := hz
      autosuspend := autosuspend
      deferrable := deferrable
      dying := false
      paused := false
      suspender := false
      resumeFailed := false }
  timer := ⟨false,false,now,0⟩
  slots := fun _ => emptySlot now
  bus := .free
  pm := .awake
  knob := none
  owed := false

end Boot
end NanoBSD.Xhci
