import Mathlib.Data.Finset.Insert
import Mathlib.Algebra.Group.Int.Defs
import Mathlib.Algebra.Group.Nat.Defs

/-! # Runtime power management of one slot

A slot is a device on the bus of the controller. Its transition between awake and
suspended belongs to the thread that is entered in `owner`, the task of the slot or a
thread that opens a pipe; everybody else defers doorbells and leaves requests. Beside the
transition a slot carries at most one deadline, for which the controller keeps one callout.

A section under `sc_intr_lock` is one function here. What the hardware, the drivers and
the rest of the USB stack reply are answers. Of a tick, an integer here, the code has the
low 32 bits, and it compares two of them only by `tdiff`.
-/
namespace NanoBSD.Xhci

/-- `xs_rt_want`, a request for the task of the slot: 0, 1 and 2. -/
inductive Want
  | nothing
  | suspend
  | resume
deriving DecidableEq

def Want.max : Want → Want → Want
  | .resume, _ => .resume
  | .suspend, .resume => .resume
  | .suspend, _ => .suspend
  | .nothing, w => w

/-- `enum xhci_rt_susp`, the outcome of an attempt to suspend. -/
inductive Susp
  | ok
  | busy
  | dormant
  | failed
  | none
deriving DecidableEq

/-- Where a thread goes on after `xhci_rt_resume_dev`. -/
inductive After
  | done
  | outcome (r : Susp) (gen : ℕ)
deriving DecidableEq

/-- The next section of a transition's owner. `gen` is the generation the task took the slot with,
`park` says that pipes are open, `lastbusy` is the last activity before. -/
inductive Pc
  -- `xhci_rt_task`
  | decide (want : Want) (gen : ℕ)
  | outcome (r : Susp) (gen : ℕ)
  | release
  -- `xhci_rt_suspend_dev`
  | check (gen : ℕ)
  | first (gen : ℕ)
  | probe (gen : ℕ) (park : Bool)
  | parking (gen : ℕ) (lastbusy : ℤ)
  | parkWait (gen : ℕ) (lastbusy : ℤ)
  | look (gen : ℕ) (park : Bool) (lastbusy : ℤ)
  | write (gen : ℕ)
  | wait (gen : ℕ)
  -- `xhci_rt_resume_dev`
  | wake (a : After)
  | driving (a : After)
  | unparking (a : After)
  | woken (a : After)
  | ring (a : After)
deriving DecidableEq

def After.pc : After → Pc
  | .done => .release
  | .outcome r gen => .outcome r gen

inductive Who
  | task
  | opener
deriving DecidableEq

structure Owner where
  who : Who
  pc : Pc
deriving DecidableEq

/-- `xs_rt_work` apart from being queued: with no thread, taken from the queue by `xhci_rt_work`, or
in `xhci_rt_task` as the owner. -/
inductive Worker
  | idle
  | popped
  | busy
deriving DecidableEq

/-- How far a slot is bound to its device: `xs_rt_init` is set when it is `bound`, and
`xs_dev` unless it is `unbound`. -/
inductive Link
  | unbound
  | binding
  | bound
  | unbinding
deriving DecidableEq

/-- `struct xhci_slot` without its deadline. The last three fields are not in the source: the open
pipes other than the control pipe, and for each pipe the transfers whose doorbell is deferred and
those rung and not completed. -/
structure Core where
  link : Link
  /-- `xs_ctlrport` is not 0 -/
  root : Bool
  npipes : ℕ
  lastbusy : ℤ
  owner : Option Owner
  suspended : Bool
  resuming : Bool
  parkedDrv : Bool
  dbpending : Finset ℕ
  want : Want
  queued : Bool
  worker : Worker
  pipes : Finset ℕ
  held : ℕ → ℕ
  rung : ℕ → ℕ

structure Deadline where
  idleArmed : Bool
  retryArmed : Bool
  dormant : Bool
  retryWant : Want
  retryDue : ℤ
  gen : ℕ
  resFails : ℕ
  suspFails : ℕ
deriving DecidableEq

structure Slot extends Core, Deadline

def Deadline.armed (d : Deadline) : Bool := d.idleArmed || d.retryArmed

structure Timer where
  armed : Bool
  armedHard : Bool
  armedAt : ℤ
  ndeadlines : ℕ
deriving DecidableEq

structure Env where
  now : ℤ
  hz : ℕ
  /-- `hw.usbpm.autosuspend` in seconds, 0 for off -/
  autosuspend : ℕ
  deferrable : Bool
  dying : Bool
  paused : Bool
  /-- `sc_suspender` is not `NULL` -/
  suspender : Bool
  resumeFailed : Bool

def Env.enabled (e : Env) : Bool := 0 < e.autosuspend
def Env.period (e : Env) : ℤ := e.hz * e.autosuspend
def Env.blocked (e : Env) : Bool := e.suspender || e.resumeFailed
def Env.retryMin (e : Env) : ℤ := max 1 (e.hz / 5 : ℕ)
def Env.retryMax (e : Env) : ℤ := 10 * e.hz

structure Cell where
  timer : Timer
  dl : Deadline

/-! ## Deadlines -/

/-- `xhci_rt_tdiff`, a signed difference of 32 bits -/
def tdiff (a b : ℤ) : ℤ := (a - b).bmod (2 ^ 32)

def rtSchedule (e : Env) (t : Timer) (due : ℤ) (hard : Bool) : Timer :=
  { t with
    armed := true
    armedHard := hard || !e.deferrable
    armedAt := e.now + max (tdiff due e.now) 1 }

def rtArmOver (e : Env) (t : Timer) (due : ℤ) (hard : Bool) : Timer :=
  if tdiff t.armedAt due ≤ 0 then
    if hard = t.armedHard then t else rtSchedule e t t.armedAt hard
  else rtSchedule e t due hard

def rtArm (e : Env) (t : Timer) (due : ℤ) (hard : Bool) : Timer :=
  if e.dying || e.paused then t
  else if t.armed then rtArmOver e t due (hard || !e.deferrable || t.armedHard)
  else rtSchedule e t due (hard || !e.deferrable)

def rtDlClear (c : Cell) : Cell :=
  if c.dl.armed then
    { timer :=
        { c.timer with
          ndeadlines := c.timer.ndeadlines - 1
          armed := c.timer.armed && decide (c.timer.ndeadlines - 1 ≠ 0) }
      dl := { c.dl with idleArmed := false, retryArmed := false } }
  else c

def rtDlCount (c : Cell) : Timer :=
  if c.dl.armed then c.timer
  else { c.timer with ndeadlines := c.timer.ndeadlines + 1 }

def rtIdleArmAwake (e : Env) (k : Core) (c : Cell) : Cell :=
  if c.dl.retryArmed || k.suspended || k.resuming then c
  else if e.enabled then
    { timer := rtArm e (rtDlCount c) (k.lastbusy + e.period) false
      dl := { c.dl with idleArmed := true } }
  else rtDlClear c

def rtIdleArm (e : Env) (k : Core) (c : Cell) : Cell :=
  if k.link = .bound ∧ k.root ∧ !e.dying then
    rtIdleArmAwake e k { c with dl := { c.dl with dormant := false } }
  else c

/-- `xhci_rt_event_locked`; the pipe traffic of the owner itself is no news. -/
def rtEvent (e : Env) (k : Core) (own : Bool) (c : Cell) : Cell :=
  rtIdleArm e k { c with dl := { c.dl with gen := if own then c.dl.gen else c.dl.gen + 1 } }

def rtDormant (c : Cell) : Cell :=
  { rtDlClear c with dl := { (rtDlClear c).dl with dormant := true } }

def rtRetry (e : Env) (k : Core) (want : Want) (delay : ℤ) (c : Cell) : Cell :=
  if k.link = .bound then
    { timer := rtArm e (rtDlCount c) (e.now + max delay 1) (decide (want = .resume))
      dl :=
        { c.dl with
          idleArmed := false
          retryArmed := true
          retryWant := want
          retryDue := e.now + max delay 1
          dormant := false } }
  else c

def backoff (cap : ℤ) : ℕ → ℤ → ℤ
  | 0, delay => delay
  | n + 1, delay => if delay < cap then backoff cap n (delay * 2) else delay

def rtResumeFailed (e : Env) (k : Core) (c : Cell) : Cell :=
  rtRetry e k .resume
    (min (backoff e.retryMax (min c.dl.resFails 16) e.retryMin) e.retryMax)
    { c with dl := { c.dl with resFails := c.dl.resFails + 1 } }

/-- `xhci_rt_suspend_failed_locked`; a resume retry that is outstanding comes first. -/
def rtSuspendFailed (e : Env) (k : Core) (c : Cell) : Cell :=
  let base := max e.period e.retryMin
  let failed := { c with dl := { c.dl with suspFails := c.dl.suspFails + 1 } }
  if k.suspended || c.dl.retryArmed then failed
  else rtRetry e k .suspend (min (backoff (8 * base) (min c.dl.suspFails 16) base) (8 * base)) failed

def rtSlotRearm (e : Env) (k : Core) (c : Cell) : Cell :=
  if c.dl.retryArmed then
    { c with timer := rtArm e c.timer c.dl.retryDue (decide (c.dl.retryWant = .resume)) }
  else if c.dl.idleArmed then
    { c with timer := rtArm e c.timer (k.lastbusy + e.period) false }
  else c

def rtSuspendOutcome (e : Env) (k : Core) (r : Susp) (gen : ℕ) (c : Cell) : Cell :=
  if k.link = .bound then
    match r with
    | .ok => rtDlClear c
    | .busy => rtIdleArm e k c
    | .dormant =>
      if c.dl.gen ≠ gen then rtIdleArm e k c
      else if !k.suspended && !c.dl.retryArmed then rtDormant c
      else c
    | .failed =>
      if c.dl.gen ≠ gen ∧ !k.suspended ∧ !c.dl.retryArmed then
        rtIdleArm e k { c with dl := { c.dl with suspFails := c.dl.suspFails + 1 } }
      else rtSuspendFailed e k c
    | .none => c
  else c

/-! ## Requests and doorbells -/
namespace Core

def goto (k : Core) (o : Owner) (pc : Pc) : Core := { k with owner := some { o with pc := pc } }

def enqueue (k : Core) (d : ℕ) : Core :=
  { k with held := Function.update k.held d (k.held d + 1) }

def ringBells (k : Core) (ds : Finset ℕ) : Core :=
  { k with
    rung := fun d => if d ∈ ds then k.rung d + k.held d else k.rung d
    held := fun d => if d ∈ ds then 0 else k.held d }

end Core

def rtKick (e : Env) (want : Want) (k : Core) : Core :=
  if !e.paused ∧ !e.dying ∧ k.link = .bound then
    { k with want := k.want.max want, queued := true }
  else k

def rtDoorbellResumes (e : Env) (k : Core) : Bool :=
  !e.blocked && !e.paused && k.suspended && !k.resuming

def rtDoorbell (e : Env) (d : ℕ) (k : Core) : Core :=
  if e.blocked || k.suspended || k.resuming then
    { k with
      dbpending := insert d k.dbpending
      resuming := k.resuming || rtDoorbellResumes e k }
  else k.ringBells {d}

def rtRingPending (e : Env) (k : Core) : Core :=
  if e.blocked || k.suspended || k.resuming then k
  else { k.ringBells k.dbpending with dbpending := ∅ }

/-- `xhci_rt_release_locked`, on the transition: a request that came in meanwhile is
handed over. With it the task returns. -/
def rtRelease (e : Env) (o : Owner) (k : Core) : Core :=
  { k with
    owner := none
    worker := if o.who = .task then .idle else k.worker
    queued := k.queued ||
      (decide (k.want ≠ .nothing) && decide (k.link = .bound) && !e.paused && !e.dying) }

def rtReleaseDl (e : Env) (k : Core) (c : Cell) : Cell :=
  if !c.dl.armed ∧ !c.dl.dormant ∧ k.want = .nothing ∧ !k.suspended ∧ !k.resuming then
    rtIdleArm e k c
  else rtSlotRearm e k c

/-! ## The sections of a transition -/

/-- What the port, a driver or a request to the device replies. `refused` is a reason that stays,
`woken` a port no longer in U3. For a step that reads `sc_dying` without the lock, `ok` says that it
was not set. -/
inductive Answer
  | ok
  | refused
  | failed
  | woken
deriving DecidableEq

def rtTask (e : Env) (x : Slot) : Core :=
  if x.link ≠ .bound ∨ e.paused ∨ e.dying ∨ x.owner.isSome then
    { x.toCore with worker := .idle }
  else
    { x.toCore with
      worker := .busy
      want := .nothing
      owner := some
        { who := .task
          pc := .decide
            (if x.want = .resume ∧ !x.suspended ∧ !x.resuming ∧ !x.parkedDrv then .nothing
              else x.want)
            x.gen } }

def resumeFails (e : Env) (k : Core) (c : Cell) (o : Owner) (a : After) : Core × Cell :=
  ({ k with suspended := true, resuming := false }.goto o a.pc,rtResumeFailed e k c)

def awake (e : Env) (k : Core) : Core :=
  { k with suspended := false, resuming := false, lastbusy := e.now, want := .nothing }

def awakeDl (e : Env) (k : Core) (c : Cell) : Cell :=
  let fresh := { c with dl := { c.dl with resFails := 0 } }
  rtIdleArm e k
    (if c.dl.retryArmed ∧ c.dl.retryWant = .resume then rtDlClear fresh else fresh)

def usedAgain (e : Env) (k : Core) (park : Bool) (lastbusy : ℤ) : Bool :=
  decide (k.link ≠ .bound) || e.paused || (!park && k.resuming) ||
    decide (k.dbpending ≠ ∅) || (decide (k.npipes ≠ 0) && !k.parkedDrv) ||
    decide (tdiff k.lastbusy lastbusy ≠ 0)

def unpark (park : Bool) (gen : ℕ) : Pc :=
  if park then .wake (.outcome .busy gen) else .outcome .busy gen

def advance (e : Env) (k : Core) (c : Cell) (o : Owner) (a : Answer) : Core × Cell :=
  match o.pc with
  | .decide want gen =>
    if want = .resume ∨ k.resuming then (k.goto o (.wake .done),c)
    else if want = .suspend then (k.goto o (.check gen),c)
    else (k.goto o .release,c)
  | .outcome r gen =>
    (if r = .ok ∧ k.link = .bound ∧ !e.enabled then { k with want := .resume }.goto o .release
      else k.goto o .release,
      rtSuspendOutcome e k r gen c)
  | .release => (rtRelease e o k,rtReleaseDl e k c)
  | .check gen =>
    if !k.root ∨ (e.dying ∧ a ≠ .ok) then (k.goto o (.outcome .none gen),c)
    else if !e.enabled ∨ a = .refused then (k.goto o (.outcome .dormant gen),c)
    else (k.goto o (.first gen),c)
  | .first gen =>
    if k.link ≠ .bound ∨ e.paused ∨ k.suspended ∨ k.resuming ∨ k.parkedDrv then
      -- parked but awake: the unpark is owed
      (if k.link = .bound ∧ k.parkedDrv ∧ !k.suspended then
          { k with want := .resume }.goto o (.outcome .none gen)
        else k.goto o (.outcome .none gen),c)
    else if tdiff e.now k.lastbusy < e.period then (k.goto o (.outcome .busy gen),c)
    else (k.goto o (.probe gen (decide (k.npipes ≠ 0))),c)
  | .probe gen park =>
    if a = .refused then (k.goto o (.outcome .dormant gen),c)
    else if a ≠ .ok then (k.goto o (.outcome .failed gen),c)
    else if k.link ≠ .bound ∨ e.paused then (k.goto o (.outcome .none gen),c)
    else if park then
      ({ k with suspended := true, resuming := true }.goto o (.parking gen k.lastbusy),c)
    else (k.goto o (.look gen false k.lastbusy),c)
  | .parking gen lastbusy =>
    if a = .ok then ({ k with parkedDrv := true }.goto o (.parkWait gen lastbusy),c)
    else (k.goto o (.wake (.outcome .failed gen)),c)
  | .parkWait gen lastbusy =>
    -- a driver that parks has aborted its transfers
    if a = .ok then
      ({ k with rung := fun d => if d = 1 then k.rung d else 0 }.goto o (.look gen true lastbusy),c)
    else (k.goto o (.wake (.outcome .failed gen)),c)
  | .look gen park lastbusy =>
    if a ≠ .ok ∨ usedAgain e k park lastbusy then (k.goto o (unpark park gen),c)
    else ({ k with suspended := true }.goto o (.write gen),c)
  | .write gen => (k.goto o (.wait gen),c)
  | .wait gen =>
    if a = .ok ∨ a = .woken then
      (if k.dbpending ≠ ∅ ∨ a = .woken then
          { k with resuming := true, want := .resume }.goto o (.outcome .ok gen)
        else { k with resuming := false }.goto o (.outcome .ok gen),
        { c with dl := { c.dl with suspFails := 0 } })
    else (k.goto o (.wake (.outcome .failed gen)),c)
  | .wake r =>
    if k.root ∧ (a = .ok ∨ !e.dying) then ({ k with resuming := true }.goto o (.driving r),c)
    else (k.goto o r.pc,c)
  | .driving r =>
    if a = .ok then
      (if k.parkedDrv then k.goto o (.unparking r) else k.goto o (.woken r),c)
    else resumeFails e k c o r
  | .unparking r =>
    if a = .ok then ({ k with parkedDrv := false }.goto o (.woken r),c)
    else resumeFails e k c o r
  | .woken r => ((awake e k).goto o (.ring r),awakeDl e (awake e k) c)
  | .ring r => ((rtRingPending e k).goto o r.pc,c)

end NanoBSD.Xhci
