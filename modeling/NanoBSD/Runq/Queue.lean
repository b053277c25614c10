import NanoBSD.Lib.Bitmap
import NanoBSD.Lib.Queues
import NanoBSD.Lib.Run
import Mathlib.Algebra.Group.Int.Defs

/-! # The run queues

`kern_runq.c`: each CPU has a queue for every priority, a bitmap of the queues that are not
empty, the highest such priority and two counts. An LWP is put on a queue of its own CPU and
taken off it again; an idle CPU takes one from another CPU, or hands on the one that is to
migrate. Each call is made with the locks of the queues it changes, so it is one step. The
time stamps and averages that only feed the statistics are left out.
-/
namespace NanoBSD.Runq
variable {γ ι : Type}

def priCount : ℕ := 224
def maxpriUser : ℕ := 63

inductive SchedClass
  | other
  | fifo
  | rr
  deriving DecidableEq, Repr

inductive LwpStat
  | idl
  | run
  | sleep
  | stop
  | zomb
  | onproc
  | suspended
  deriving DecidableEq, Repr

/-- `struct lwp`: its CPU, state and effective priority, `LP_BOUND` and `LP_PREEMPTING`, and the CPU
to migrate to. -/
structure Lwp (γ : Type) where
  cpu : γ
  stat : LwpStat
  eprio : Fin priCount
  bound : Bool
  preempting : Bool
  cls : SchedClass
  rticks : ℤ
  target : Option γ

/-- `struct schedstate_percpu`, with the flag `SPCF_IDLE` and the stamp `q_since` of lpsched. -/
structure Spc (ι : Type) where
  queue : Queues ℕ ι
  bitmap : Bitmap
  count : ℕ
  mcount : ℕ
  maxpriority : ℕ
  idle : Bool
  migrating : Option ι
  psid : ℕ
  qSince : ℕ

structure Platform (γ : Type) where
  siblings : γ → List γ
  tscMhz : ℕ
  minCatch : ℕ
  rrticks : ℤ

structure State (γ ι : Type) where
  lwp : ι → Lwp γ
  spc : γ → Spc ι
  tsc : ℕ
  ticks : ℤ
  enabled : Bool
  latency : Bool
  pack : ℕ
  waitBudgetUs : ℕ

def lpschedUs (mhz start stop : ℕ) : ℕ := if start < stop then (stop - start) / mhz else 0

namespace Spc

def lpschedEnqueued (spc : Spc ι) (now : ℕ) (wasEmpty : Bool) : Spc ι :=
  if wasEmpty then { spc with qSince := now } else spc

def lpschedDequeued (spc : Spc ι) (nowEmpty : Bool) : Spc ι :=
  if nowEmpty then { spc with qSince := 0 } else spc

def schedEnqueue (spc : Spc ι) (accounting : Bool) (now : ℕ) (l : ι) (eprio : ℕ)
    (bound head : Bool) : Spc ι :=
  let spc :=
    { spc with
      bitmap := if spc.queue eprio = [] then spc.bitmap.mark eprio else spc.bitmap
      queue := Function.update spc.queue eprio
        (if head then l :: spc.queue eprio else spc.queue eprio ++ [l])
      idle := false }
  let spc := if accounting then spc.lpschedEnqueued now (spc.count == 0) else spc
  { spc with
    count := spc.count + 1
    mcount := if bound then spc.mcount else spc.mcount + 1
    maxpriority := if spc.maxpriority < eprio then eprio else spc.maxpriority }

def schedDequeue [DecidableEq ι] (spc : Spc ι) (accounting : Bool) (l : ι) (eprio : ℕ)
    (bound : Bool) : Spc ι :=
  let spc :=
    { spc with
      migrating := if spc.migrating = some l then none else spc.migrating
      count := spc.count - 1 }
  let spc := if accounting then spc.lpschedDequeued (spc.count == 0) else spc
  let spc :=
    { spc with
      mcount := if bound then spc.mcount else spc.mcount - 1
      queue := Function.update spc.queue eprio ((spc.queue eprio).erase l) }
  if spc.queue eprio = [] then
    let bitmap := spc.bitmap.unmark eprio
    { spc with
      bitmap := bitmap
      maxpriority :=
        if eprio ≠ spc.maxpriority then spc.maxpriority else bitmap.scan (eprio >>> 5) }
  else spc

end Spc

def Lwp.toHead (x : Lwp γ) (ticks rrticks : ℤ) : Bool :=
  x.preempting &&
    match x.cls with
    | .other => false
    | .fifo => true
    -- an unsigned difference of 32 bits
    | .rr => decide ((ticks - x.rticks) % 2 ^ 32 < rrticks)

namespace State
variable [DecidableEq γ] [DecidableEq ι]

def setLwp (s : State γ ι) (l : ι) (x : Lwp γ) : State γ ι :=
  { s with lwp := Function.update s.lwp l x }

def setSpc (s : State γ ι) (c : γ) (spc : Spc ι) : State γ ι :=
  { s with spc := Function.update s.spc c spc }

def lpschedAccounting (s : State γ ι) : Bool := s.enabled && s.latency
def lpschedPacking (s : State γ ι) : Bool := s.enabled && decide (0 < s.pack)

def schedEnqueue (P : Platform γ) (s : State γ ι) (l : ι) : State γ ι :=
  let x := s.lwp l
  s.setSpc x.cpu ((s.spc x.cpu).schedEnqueue s.lpschedAccounting s.tsc l x.eprio x.bound
    (x.toHead s.ticks P.rrticks))

def schedDequeue (s : State γ ι) (l : ι) : State γ ι :=
  let x := s.lwp l
  s.setSpc x.cpu ((s.spc x.cpu).schedDequeue s.lpschedAccounting l x.eprio x.bound)

def lpschedQueueOverdue (P : Platform γ) (s : State γ ι) (c : γ) : Bool :=
  (s.spc c).qSince != 0 && decide (s.waitBudgetUs < lpschedUs P.tscMhz (s.spc c).qSince s.tsc)

def lpschedMinCatch (P : Platform γ) (s : State γ ι) (cur remote : γ) : ℕ :=
  if ¬s.lpschedPacking then P.minCatch
  else if maxpriUser < (s.spc remote).maxpriority then P.minCatch
  else if s.lpschedAccounting ∧ s.lpschedQueueOverdue P remote then P.minCatch
  else if (P.siblings cur).any fun t => !(s.spc t).idle then P.minCatch
  else P.minCatch + s.pack

def move (P : Platform γ) (s : State γ ι) (l : ι) (c : γ) (target : Option γ) : State γ ι :=
  ((s.schedDequeue l).setLwp l { s.lwp l with cpu := c, target := target }).schedEnqueue P l

/-- `sched_catchlwp`, by `cur` from `c`, with the answers of `cpu_is_better`, `lwp_cache_hot` and
`sched_migratable`. -/
def schedCatchlwp (P : Platform γ) (s : State γ ι) (cur c : γ) (gentle : Bool)
    (hot allowed : ι → Bool) : State γ ι :=
  let spc := s.spc c
  if spc.mcount < (if gentle then s.lpschedMinCatch P cur c else 1) ∨
      (s.spc cur).psid ≠ spc.psid then s
  else
    match (spc.queue spc.maxpriority).find?
      (fun l => !((s.lwp l).bound || gentle && hot l || !allowed l)) with
    | none => s
    | some l => s.move P l cur (s.lwp l).target

def schedIdleMigrate (P : Platform γ) (s : State γ ι) (c : γ) : State γ ι :=
  match (s.spc c).migrating with
  | none => s
  | some l =>
    let s' := s.setSpc c { s.spc c with migrating := none }
    match (s.lwp l).target with
    | none => s'
    | some t =>
      if t = c then s'.setLwp l { s.lwp l with target := none }
      else s'.move P l t none

def schedNextlwp (s : State γ ι) (c : γ) : Option ι :=
  let spc := s.spc c
  if spc.migrating.isSome then none
  else if spc.count = 0 then none
  else (spc.queue spc.maxpriority).head?

end State

/-- The calls with their callers' part: an LWP becomes runnable, is taken off its queue, `mi_switch`
picks the next one or notes a migration. An LWP that is not runnable may change in any way. -/
inductive Event (γ ι : Type)
  | enqueue (l : ι) (c : γ)
  | dequeue (l : ι) (stat : LwpStat)
  | switch (c : γ)
  | catchlwp (cur c : γ) (gentle : Bool) (hot allowed : ι → Bool)
  | idleMigrate (c : γ)
  | migrating (l : ι)
  | setTarget (l : ι) (target : Option γ)
  | alter (l : ι) (x : Lwp γ)
  | setIdle (c : γ) (idle : Bool)
  | pass (tsc : ℕ) (ticks : ℕ)
  | setEnabled (on : Bool)
  | setLatency (on : Bool)
  | setPack (n : ℕ)
  | setBudget (us : ℕ)

namespace State
variable [DecidableEq γ] [DecidableEq ι]

def step (P : Platform γ) (s : State γ ι) : Event γ ι → Option (State γ ι)
  | .enqueue l c =>
    if (s.lwp l).stat ≠ .run then
      some ((s.setLwp l { s.lwp l with cpu := c, stat := .run }).schedEnqueue P l)
    else none
  | .dequeue l stat =>
    if (s.lwp l).stat = .run ∧ stat ≠ .run then
      some ((s.schedDequeue l).setLwp l { s.lwp l with stat := stat })
    else none
  | .switch c =>
    match s.schedNextlwp c with
    | none => some s
    | some l =>
      some ((s.schedDequeue l).setLwp l { s.lwp l with stat := .onproc, rticks := s.ticks })
  | .catchlwp cur c gentle hot allowed =>
    if cur ≠ c then some (s.schedCatchlwp P cur c gentle hot allowed) else none
  | .idleMigrate c => some (s.schedIdleMigrate P c)
  | .migrating l =>
    if (s.lwp l).stat = .run ∧ (s.lwp l).target ≠ none ∧ (s.lwp l).bound = false then
      some (s.setSpc (s.lwp l).cpu { s.spc (s.lwp l).cpu with migrating := some l })
    else none
  | .setTarget l target => some (s.setLwp l { s.lwp l with target := target })
  | .alter l x =>
    if (s.lwp l).stat ≠ .run ∧ x.stat ≠ .run then some (s.setLwp l x) else none
  | .setIdle c idle => some (s.setSpc c { s.spc c with idle := idle })
  | .pass tsc ticks => some { s with tsc := s.tsc + tsc, ticks := s.ticks + ticks }
  | .setEnabled on => some { s with enabled := on }
  | .setLatency on => some { s with latency := on }
  | .setPack n => if n ≤ 2 then some { s with pack := n } else none
  | .setBudget us =>
    if 100 ≤ us ∧ us ≤ 1000000 then some { s with waitBudgetUs := us } else none

structure Boot (s : State γ ι) : Prop where
  tsc_pos : 0 < s.tsc
  not_run : ∀ l, (s.lwp l).stat ≠ .run
  queue_eq : ∀ c p, (s.spc c).queue p = []
  bitmap_eq : ∀ c i, (s.spc c).bitmap i = 0#32
  count_eq : ∀ c, (s.spc c).count = 0
  mcount_eq : ∀ c, (s.spc c).mcount = 0
  maxpriority_eq : ∀ c, (s.spc c).maxpriority = 0
  migrating_eq : ∀ c, (s.spc c).migrating = none
  qSince_eq : ∀ c, (s.spc c).qSince = 0

end State
end NanoBSD.Runq
