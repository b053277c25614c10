import NanoBSD.Lapic.Sleep
import NanoBSD.Timecounter.Hands

/-! # Which counter is in force, and how long the primary CPU may sleep

The list of counters and its routes of selection in `kern_tc.c`: the sysctl, `tc_init` of a
better counter, `tc_detach`, and the next tick after a counter has gone bad. The clock is
wound up by the ticks of the primary CPU, so its tickless sleep is capped by half the wrap of
the counter in force and of the selected one. Time is in counts of the local APIC timer.
-/
namespace NanoBSD.Timecounter
variable {κ ν : Type}

/-- A machine with its timer rates, tick rate and counters, which start from phases of their own. A
tick is no longer than a second over `hz`, and the TSC does not come round within the range of the
one-shot. -/
structure Board (κ ν : Type) extends Lapic.Rates where
  hz : ℕ
  tc : κ → Counter
  phase : κ → ℕ
  update : Ntp ν
  minskip : ℤ
  hz_lt : hz < 2^31
  tick_le : hz * tval ≤ lapicPerSecond
  ratio_le : ratio ≤ 2^31
  minskip_ge : 4 ≤ minskip

def Board.total (b : Board κ ν) (t : ℕ) (k : κ) : ℕ :=
  (b.phase k + (b.tc k).frequency * t) / b.lapicPerSecond

def Board.count (b : Board κ ν) (t : ℕ) : κ → ℕ := fun k => (b.tc k).getTimecount (b.total t k)

def tcHalfWrapTicks (hz : ℕ) (tc : Counter) : ℕ :=
  if tc.frequency = 0 then 2^64 - 1 else tc.mask * hz % 2^64 / tc.frequency / 2

def tcMaxWindupTicks (b : Board κ ν) (c : Clock κ ν) : ℕ :=
  let a := tcHalfWrapTicks b.hz (b.tc c.hands.counter)
  let s := tcHalfWrapTicks b.hz (b.tc c.timecounter)
  let a := if s < a then s else a
  if 2^31 - 1 < a then 2^31 - 1 else a

/-- The settings that `cidle_idle_tickless` reads, with the answer of `callout_next_ticks`. -/
structure Cidle where
  next : ℤ
  forceskip : ℤ
  maxskip : ℤ
  deriving DecidableEq, Repr

def cidleSkip (c : Cidle) (cap : ℤ) : ℤ :=
  let skip := if 0 < c.forceskip then c.forceskip else c.next
  let skip := if c.maxskip < skip then c.maxskip else skip
  if cap < skip then cap else skip

structure Plan (κ : Type) where
  nticks : ℕ
  sample : ℕ
  reprogram : ℕ
  active : κ
  selected : κ
  deriving DecidableEq, Repr

def Plan.sleep (p : Plan κ) (t : ℕ) : Lapic.Sleep := ⟨p.nticks,p.sample,p.reprogram,t,t⟩

def Plan.latest (r : Lapic.Rates) (p : Plan κ) : ℕ :=
  p.reprogram + min (r.tval * p.nticks) 0xffffffff + r.tval

/-- The primary CPU, as it went to sleep while it sleeps, and the timecounter with the list of
counters. `windupAt` is the last windup. -/
structure System (κ ν : Type) where
  primary : Lapic.Machine
  now : ℕ
  plan : Option (Plan κ)
  clock : Clock κ ν
  windupAt : ℕ
  counters : List κ
  quality : κ → ℤ
  bad : Bool

variable [DecidableEq κ]

namespace System

def advance (b : Board κ ν) (s : System κ ν) : ℕ :=
  b.total s.now s.clock.hands.counter - b.total s.windupAt s.clock.hands.counter

def windup (b : Board κ ν) (s : System κ ν) : System κ ν :=
  { s with
    clock := tcWindup b.update b.tc (b.count s.now) s.clock
    windupAt := s.now }

def select (s : System κ ν) (k : κ) : System κ ν :=
  { s with clock := { s.clock with timecounter := k } }

def better (b : Board κ ν) (quality : κ → ℤ) (best k : κ) : κ :=
  if quality best < quality k then k
  else if quality k < quality best then best
  else if (b.tc best).frequency < (b.tc k).frequency then k
  else best

def tcPick (b : Board κ ν) (s : System κ ν) : System κ ν :=
  match s.counters with
  | [] => s
  | k :: ks => s.select (ks.foldl (better b s.quality) k)

def enlist (b : Board κ ν) (s : System κ ν) (k : κ) (quality : ℤ) : System κ ν :=
  let u := (b.tc k).frequency / (b.tc k).mask % 2^32 * 11 % 2^32 / 10
  { s with
    counters := k :: s.counters
    quality := Function.update s.quality k (if b.hz < u ∧ 0 ≤ quality then -2000 else quality) }

def Prefers (b : Board κ ν) (s : System κ ν) (k : κ) : Prop :=
  let old := s.clock.timecounter
  0 ≤ s.quality k ∧ (s.quality old < s.quality k ∨
    (s.quality k = s.quality old ∧ (b.tc old).frequency < (b.tc k).frequency))

instance (b : Board κ ν) (s : System κ ν) (k : κ) : Decidable (s.Prefers b k) :=
  inferInstanceAs (Decidable (_ ∧ _))

def tcInit (b : Board κ ν) (s : System κ ν) (k : κ) (quality : ℤ) : System κ ν :=
  let s := s.enlist b k quality
  if s.Prefers b k then (s.select k).windup b else s

def tcDetach (b : Board κ ν) (s : System κ ν) (k : κ) : System κ ν :=
  let s' := { s with counters := s.counters.erase k }
  if s.clock.timecounter = k then (s'.tcPick b).windup b else s'

def tcTicktock (b : Board κ ν) (s : System κ ν) : System κ ν :=
  if s.bad then
    let s := { s with bad := false }
    if s.quality s.clock.timecounter < 0 then (s.tcPick b).windup b else s.windup b
  else s.windup b

/-- What happens on the primary CPU, and what the other CPUs do to the timecounter. -/
inductive Event (κ ν : Type) where
  | pass (d : ℕ)
  | expire
  | serve
  | sleep (c : Cidle) (sample reprogram : ℕ)
  | wake
  | sysctl (k : κ)
  | setclock (base : Bintime)
  | init (k : κ) (quality : ℤ)
  | detach (k : κ)
  | gonebad (k : κ)

def wake (b : Board κ ν) (s : System κ ν) (p : Plan κ) : System κ ν :=
  let primary := s.primary.cidleIdleTickless b.toRates (p.sleep s.now)
  (tcTicktock b)^[primary.cpu.ticks - s.primary.cpu.ticks]
    { s with primary := primary, plan := none }

/-- While the CPU is up, a boundary waits for the tick before to be served. The interrupts are off
for less than a tick when it goes to sleep, and anything may wake it from then on: the cross calls
that the sysctl and `tc_detach` end with are some of these wakes, so they may come at any time. -/
def step (b : Board κ ν) (s : System κ ν) : Event κ ν → Option (System κ ν)
  | .pass d =>
    match s.plan with
    | none =>
      if s.now + d < s.primary.hw.nextBoundary then
        some { s with
          primary := { s.primary with hw := s.primary.hw.passTo b.toRates (s.now + d) }
          now := s.now + d }
      else none
    | some p => if s.now + d ≤ p.latest b.toRates then some { s with now := s.now + d } else none
  | .expire =>
    if s.plan.isSome ∨ s.primary.hw.irr then none
    else
      some { s with
        primary :=
          { s.primary with hw := s.primary.hw.passTo b.toRates s.primary.hw.nextBoundary }
        now := s.primary.hw.nextBoundary }
  | .serve =>
    if s.plan.isNone ∧ s.primary.hw.irr then
      some ({ s with primary := s.primary.enableIntr b.toRates }.tcTicktock b)
    else none
  | .sleep c sample reprogram =>
    let skip := cidleSkip c (tcMaxWindupTicks b s.clock)
    if s.plan.isNone ∧ s.primary.hw.irr = false ∧ b.minskip ≤ skip ∧
        s.now ≤ sample ∧ sample ≤ reprogram ∧ reprogram < s.now + b.tval then
      some { s with
        plan := some ⟨skip.toNat,sample,reprogram,s.clock.hands.counter,s.clock.timecounter⟩ }
    else none
  | .wake =>
    match s.plan with
    | none => none
    | some p => if p.reprogram ≤ s.now then some (s.wake b p) else none
  | .sysctl k => if k ∈ s.counters then some (s.select k) else none
  | .setclock base => some ({ s with clock := { s.clock with timebase := base } }.windup b)
  | .init k quality => if k ∈ s.counters then none else some (s.tcInit b k quality)
  | .detach k => if k ∈ s.counters then some (s.tcDetach b k) else none
  | .gonebad k =>
    some { s with quality := Function.update s.quality k (-100), bad := true }

end System
end NanoBSD.Timecounter
