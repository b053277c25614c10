import NanoBSD.Lib.Run

/-! # Runtime power management of an HD audio controller

The controller goes to D3 some time after the last use and comes back with the next one.
Users hold a reference, and `sc_rt_lock` is kept over each of the two transitions. A system
suspend puts the same PCI function in D3 through another path: it reads `sc_rt_suspended`
without the lock, sends verbs of its own and leaves the idle timer running.
-/
namespace NanoBSD.Hdaudio

/-- What a user of the controller has: an open device, a mixer access or an ioctl holds a reference,
which an idle stop gives back for a `parked` one. -/
inductive Client
  | out | holding | parked
  deriving DecidableEq, Repr

/-- On whose behalf `hdaudio_rt_resume_locked` runs: `hdaudio_rt_use` or a write of 0 to
`hw.hdaudio.power_save`. -/
inductive Waker (κ : Type)
  | use (c : κ)
  | sysctl
  deriving DecidableEq, Repr

/-- What is done by the one who holds `sc_rt_lock`. -/
inductive Section (κ : Type)
  /-- The worker sends the function groups to D3, or back when the controller stayed up. -/
  | suspending
  | restoring
  /-- The controller is back in D0 and is set up; then the function groups are. -/
  | resuming (r : Waker κ)
  | reviving (r : Waker κ)
  /-- `hdaudio_pci_resume_cycle` before D3 and after it. -/
  | cycling (back : Bool)
  deriving DecidableEq, Repr

inductive Pmf
  | up
  | suspending
  | fgSuspending
  | returned
  | down
  | resuming
  | cycle
  | pausing
  | marking
  | fgResuming
  deriving DecidableEq, Repr

/-- `d3` is the state of the PCI function. `fault` says that the hardware was accessed in D3. -/
structure State (κ : Type) where
  d3 : Bool
  rtSuspended : Bool
  rtUsers : ℕ
  armed : Bool
  queued : Bool
  lock : Option (Section κ)
  pmf : Pmf
  client : κ → Client
  fault : Bool

inductive Event (κ : Type)
  | use (c : κ)
  | resumed (ok : Bool)
  | revived
  | release (c : κ) (arm : Bool)
  | idleSleep (c : κ) (arm : Bool)
  | closeParked (c : κ)
  | powerSave (on : Bool)
  | timeout
  | work (on due : Bool)
  | suspended (ok : Bool)
  | restored
  | fgSuspend
  | fgSuspended
  | ctlSuspend
  | busD3
  | busD0
  | ctlResumed (ok : Bool)
  | cycleBegin
  | cycleOff (ok : Bool)
  | cycleOn
  | cycleEnd
  | pmfResumed (arm : Bool)
  | fgResume
  | fgResumed
  | clientAccess (c : κ)
  | lockAccess
  | pmfAccess

variable {κ : Type}

def attached : State κ where
  d3 := false
  rtSuspended := false
  rtUsers := 0
  armed := false
  queued := false
  lock := none
  pmf := .up
  client := fun _ => .out
  fault := false

def State.access (s : State κ) : State κ := { s with fault := s.fault || s.d3 }

/-- The controller half of `hdaudio_rt_resume_locked` up to D0. -/
def State.powerUp (s : State κ) (r : Waker κ) : State κ :=
  { s with d3 := false, lock := some (.resuming r) }

def Section.accesses : Section κ → Bool
  | .suspending | .restoring | .resuming _ | .reviving _ | .cycling true => true
  | .cycling false => false

def Pmf.accesses : Pmf → Bool
  | .fgSuspending | .resuming | .fgResuming => true
  | _ => false

section Step
variable [DecidableEq κ]

def State.hold (s : State κ) (c : κ) : State κ :=
  { s with
    rtUsers := s.rtUsers + 1, armed := false, lock := none
    client := Function.update s.client c .holding }

/-- `hdaudio_rt_release`; `arm` says that `hw.hdaudio.power_save` is not 0. -/
def State.drop (s : State κ) (c : κ) (as : Client) (arm : Bool) : State κ :=
  { s with
    rtUsers := s.rtUsers - 1
    armed := s.armed || (decide (s.rtUsers - 1 = 0) && arm && !s.rtSuspended)
    client := Function.update s.client c as }

def step (s : State κ) : Event κ → Option (State κ)
  | .use c =>
    if s.lock = none ∧ s.client c ≠ .holding then
      some (if s.rtSuspended then s.powerUp (.use c) else s.hold c)
    else none
  | .resumed ok =>
    match s.lock with
    | some (.resuming r) =>
      some (if ok then { s with rtSuspended := false, lock := some (.reviving r) }
        else { s with lock := none })
    | _ => none
  | .revived =>
    match s.lock with
    | some (.reviving (.use c)) => some (s.hold c)
    | some (.reviving .sysctl) => some { s with lock := none }
    | _ => none
  | .release c arm =>
    if s.lock = none ∧ s.client c = .holding then some (s.drop c .out arm) else none
  | .idleSleep c arm =>
    if s.lock = none ∧ s.client c = .holding then some (s.drop c .parked arm) else none
  | .closeParked c =>
    if s.client c = .parked then
      some { s with client := Function.update s.client c .out }
    else none
  | .powerSave on =>
    if s.lock = none then
      some (if on then
          { s with armed := s.armed || (decide (s.rtUsers = 0) && !s.rtSuspended) }
        else if s.rtSuspended then State.powerUp { s with armed := false } .sysctl
        else { s with armed := false })
    else none
  | .timeout => if s.armed then some { s with armed := false, queued := true } else none
  | .work on due =>
    if s.lock = none ∧ s.queued then
      some (if s.rtUsers = 0 ∧ s.rtSuspended = false ∧ on then
          if due then { s with queued := false, lock := some .suspending }
          else { s with queued := false, armed := true }
        else { s with queued := false })
    else none
  | .suspended ok =>
    if s.lock = some .suspending then
      some (if ok then { s with d3 := true, rtSuspended := true, lock := none }
        else { s with lock := some .restoring })
    else none
  | .restored =>
    if s.lock = some .restoring then some { s with armed := true, lock := none } else none
  | .fgSuspend =>
    if s.pmf = .up ∨ s.pmf = .suspending then
      some { s with pmf := if s.rtSuspended then .suspending else .fgSuspending }
    else none
  | .fgSuspended => if s.pmf = .fgSuspending then some { s with pmf := .suspending } else none
  | .ctlSuspend =>
    if s.pmf = .up ∨ s.pmf = .suspending then some { s with pmf := .returned } else none
  | .busD3 => if s.pmf = .returned then some { s with d3 := true, pmf := .down } else none
  | .busD0 => if s.pmf = .down then some { s with d3 := false, pmf := .resuming } else none
  | .ctlResumed ok =>
    if s.pmf = .resuming then some { s with pmf := if ok then .cycle else .marking } else none
  | .cycleBegin =>
    if s.pmf = .cycle ∧ s.lock = none then
      some { s with armed := false, lock := some (.cycling false) }
    else none
  | .cycleOff ok =>
    if s.lock = some (.cycling false) then
      -- The sleep between the two halves lets go of the lock.
      some (if ok then { s with d3 := true, lock := none, pmf := .pausing }
        else { s with d3 := false, lock := some (.cycling true) })
    else none
  | .cycleOn =>
    if s.pmf = .pausing ∧ s.lock = none then
      some { s with d3 := false, lock := some (.cycling true), pmf := .cycle }
    else none
  | .cycleEnd =>
    if s.lock = some (.cycling true) then some { s with lock := none, pmf := .marking } else none
  | .pmfResumed arm =>
    if s.pmf = .marking ∧ s.lock = none then
      some { s with
        rtSuspended := false, armed := s.armed || (decide (s.rtUsers = 0) && arm)
        pmf := .fgResuming }
    else none
  | .fgResume => if s.pmf = .suspending then some { s with pmf := .fgResuming } else none
  | .fgResumed => if s.pmf = .fgResuming then some { s with pmf := .up } else none
  | .clientAccess c => if s.client c = .holding then some s.access else none
  | .lockAccess => if s.lock.any Section.accesses then some s.access else none
  | .pmfAccess => if s.pmf.accesses then some s.access else none

end Step

/-- The system path where the worker begins a runtime suspend: it has not read a function group's
flag without sending the verbs, and the function is neither in D3 nor on its way back. -/
def Pmf.Clear : Pmf → Prop
  | .up | .suspending | .returned | .cycle => True
  | _ => False

instance : DecidablePred Pmf.Clear
  | .up | .suspending | .returned | .cycle => isTrue trivial
  | .fgSuspending | .down | .resuming | .pausing | .marking | .fgResuming =>
    inferInstanceAs (Decidable False)

def Apart (s : State κ) : Event κ → Prop
  | .work on due => s.rtUsers = 0 → s.rtSuspended = false → on = true → due = true → s.pmf.Clear
  | .fgSuspend | .busD3 => s.lock = none
  | .fgResume => s.lock = none ∧ s.rtSuspended = false
  | .clientAccess _ => s.pmf ≠ .down ∧ s.pmf ≠ .pausing
  | _ => True

instance decidableApart (s : State κ) [DecidableEq κ] : ∀ e, Decidable (Apart s e)
  | .work _ _ => inferInstanceAs (Decidable (_ → _))
  | .fgSuspend | .busD3 => inferInstanceAs (Decidable (_ = _))
  | .fgResume | .clientAccess _ => inferInstanceAs (Decidable (_ ∧ _))
  | .use _ | .resumed _ | .revived | .release _ _ | .idleSleep _ _ | .closeParked _ | .powerSave _
  | .timeout | .suspended _ | .restored | .fgSuspended | .ctlSuspend | .busD0 | .ctlResumed _
  | .cycleBegin | .cycleOff _ | .cycleOn | .cycleEnd | .pmfResumed _ | .fgResumed | .lockAccess
  | .pmfAccess => isTrue trivial

end NanoBSD.Hdaudio
