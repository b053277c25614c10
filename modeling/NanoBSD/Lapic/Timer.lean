import NanoBSD.Lapic.Accounting
import NanoBSD.Lib.Run

/-! # The timer hardware and the tickless idle loop

Time is counted in timer counts, as in `tests/lapic-tickless-harness.c`: the periodic timer
expires at `nextBoundary` and reloads itself, a one-shot expires at its deadline, and either
expiry sets the pending bit. A sleep is given by the instants of its register accesses, so
every order of expiries and accesses is some sleep. Interrupts are off from the entry check
to the end of the sleep.
-/
namespace NanoBSD.Lapic

structure Hw where
  now : ℕ
  nextBoundary : ℕ
  deadline : ℕ
  irr : Bool
  oneshot : Bool
  deriving DecidableEq, Repr

namespace Hw

def expiry (h : Hw) : ℕ := if h.oneshot then h.deadline else h.nextBoundary
def ccr (h : Hw) : ℕ := h.expiry - h.now
def tsc (r : Rates) (h : Hw) : ℕ := r.ratio * h.now % 2^64

/-- Time passes up to `t`. The periodic timer reloads itself at every boundary, but the
pending bit remembers only that there was one. -/
def passTo (r : Rates) (h : Hw) (t : ℕ) : Hw :=
  { h with
    now := t
    irr := h.irr || decide (h.expiry ≤ t)
    nextBoundary :=
      if h.nextBoundary ≤ t ∧ ¬h.oneshot then
        h.nextBoundary + ((t - h.nextBoundary) / r.tval + 1) * r.tval
      else h.nextBoundary }

def startOneshot (h : Hw) (count : ℕ) : Hw :=
  { h with oneshot := true, deadline := h.now + count }

def startPeriodic (r : Rates) (h : Hw) : Hw :=
  { h with oneshot := false, nextBoundary := h.now + r.tval }

end Hw

structure Machine where
  hw : Hw
  cpu : Cpu
  deriving DecidableEq, Repr

/-- One passage through the idle loop: the ticks it asks to skip, and when it samples the count,
starts the one-shot, reads the TSC and restarts the timer. In `lapic_oneshot_done` the last two
coincide. -/
structure Sleep where
  nticks : ℕ
  sample : ℕ
  reprogram : ℕ
  read : ℕ
  restore : ℕ
  deriving DecidableEq, Repr

/-- The sleeps that can happen next, of a positive number of ticks. Neither the entry check and the
sample nor the two accesses at the end are a whole tick apart; when the CPU wakes is open. -/
def Sleep.Possible (r : Rates) (h : Hw) (e : Sleep) : Prop :=
  (0 < e.nticks ∧ e.nticks < 2^32) ∧
  (h.now ≤ e.sample ∧ e.sample ≤ e.reprogram ∧ e.reprogram ≤ e.read ∧ e.read ≤ e.restore) ∧
  e.sample < h.nextBoundary + r.tval ∧ e.restore < e.read + r.tval

instance (r : Rates) (h : Hw) (e : Sleep) : Decidable (e.Possible r h) :=
  inferInstanceAs (Decidable ((_ ∧ _) ∧ (_ ∧ _ ∧ _ ∧ _) ∧ _ ∧ _))

namespace Machine

def enableIntr (r : Rates) (m : Machine) : Machine :=
  if m.hw.irr then ⟨{ m.hw with irr := false },lapicClockintr r.tval m.cpu⟩ else m

/-- `cidle_idle_tickless`, from the call of `lapic_oneshot` on. -/
def cidleIdleTickless (r : Rates) (m : Machine) (e : Sleep) : Machine :=
  let sampled := m.hw.passTo r e.sample
  match lapicOneshot r.tval m.cpu.tl e.nticks m.hw.irr
      (sampled.tsc r) sampled.ccr (sampled.tsc r) with
  | none => m.enableIntr r
  | some (tl,count) =>
    let asleep := (sampled.passTo r e.reprogram).startOneshot count
    let woken := asleep.passTo r e.read
    let restored := (woken.passTo r e.restore).startPeriodic r
    let done := lapicOneshotDone r.tval r.tscHz r.lapicPerSecond { m.cpu with tl := tl }
      e.nticks woken.ccr (woken.tsc r) (woken.tsc r) restored.irr
    ⟨{ restored with irr := false },replay r.tval done.1 restored.irr done.2⟩

end Machine

inductive Event where
  | pass (d : ℕ)
  | expire
  | serve
  | idle (e : Sleep)
  deriving DecidableEq, Repr

/-- Time passes inside a periodic interval, the interval ends, its tick is served, or the CPU goes
idle. The next boundary waits for the tick to be served. -/
def step (r : Rates) (m : Machine) : Event → Option Machine
  | .pass d =>
    if m.hw.now + d < m.hw.nextBoundary then
      some { m with hw := m.hw.passTo r (m.hw.now + d) }
    else none
  | .expire =>
    if m.hw.irr then none else some { m with hw := m.hw.passTo r m.hw.nextBoundary }
  | .serve => if m.hw.irr then some (m.enableIntr r) else none
  | .idle e =>
    if m.hw.irr ∨ e.Possible r m.hw then some (m.cidleIdleTickless r e) else none

def boot (r : Rates) : Machine where
  hw := ⟨0,r.tval,0,false,false⟩
  cpu := ⟨⟨0,0⟩,0,0⟩

def Machine.delivered (m : Machine) : ℕ := m.cpu.ticks + m.hw.irr.toNat

end NanoBSD.Lapic
