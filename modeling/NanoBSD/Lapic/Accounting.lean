import Mathlib.Algebra.Group.Nat.Defs
import Mathlib.Logic.Function.Iterate
import Mathlib.Tactic.Common

/-! # Tickless accounting of the local APIC timer

The words of `lapic_tl.h`, `lapic_oneshot` and `lapic_oneshot_done`: timer counts and TSC
values are 64 bits, the carried remainder and the tick counts 32. A CPU leaves the periodic
tick for a one-shot, sleeps, and credits the time the TSC measured when it returns; what is
less than a tick is carried to the next sleep. `ci_index` is below `MAXCPUS` on every
attached CPU, so `lapic_tlstate[idx]` always exists here.
-/
namespace NanoBSD.Lapic

/-- The rates of one machine. `lapic_tval` is half of a 32-bit word over `hz`, a second of TSC times
a second of timer counts fits 64 bits, and the TSC ticks `ratio` times per timer count. -/
structure Rates where
  tval : ℕ
  lapicPerSecond : ℕ
  ratio : ℕ
  tval_pos : 0 < tval
  tval_le : tval ≤ 2^31
  lapicPerSecond_pos : 0 < lapicPerSecond
  ratio_pos : 0 < ratio
  product_le : ratio * lapicPerSecond * lapicPerSecond ≤ 2^64

def Rates.tscHz (r : Rates) : ℕ := r.ratio * r.lapicPerSecond

structure TlState where
  frac : ℕ
  entryTsc : ℕ
  deriving DecidableEq, Repr

/-- What the tick keeps per CPU: the tickless state, the timecounter base
`ci_lapic_counter`, and how often `hardclock` has run. -/
structure Cpu where
  tl : TlState
  lapicCounter : ℕ
  ticks : ℕ
  deriving DecidableEq, Repr

def Cpu.hardclock (c : Cpu) : Cpu := { c with ticks := c.ticks + 1 }

def lapicClockintr (tval : ℕ) (c : Cpu) : Cpu :=
  { c with lapicCounter := (c.lapicCounter + tval) % 2^64 }.hardclock

def sub64 (a b : ℕ) : ℕ := (a + 2^64 - b) % 2^64
def midpoint (t0 t1 : ℕ) : ℕ := (t0 + sub64 t1 t0 / 2) % 2^64

def lapicTlCounts (tscDelta tscHz lapicHz : ℕ) : ℕ :=
  if tscHz = 0 then 0
  else
    let whole := tscDelta / tscHz
    let rest := tscDelta % tscHz
    (whole * lapicHz % 2^64 + rest * lapicHz % 2^64 / tscHz) % 2^64

def lapicTlSlop (tval : ℕ) : ℕ := tval / 1024 + 1

structure Credit where
  elapsed : ℕ
  frac : ℕ
  manual : ℕ
  deriving DecidableEq, Repr

/-- The rounding of `lapic_tl_credit`: a pending interrupt with almost a tick counted is
taken for the interrupt of that very tick. -/
def rounded (tval counted : ℕ) (pending : Bool) : ℕ :=
  if pending ∧ counted < tval ∧ tval ≤ counted + lapicTlSlop tval then tval else counted

/-- Credit a sleep: `carried` and `since` together make up the uncredited time. -/
def lapicTlCredit (carried since tval : ℕ) (pending : Bool) : Credit :=
  let counted := rounded tval ((carried + since) % 2^64) pending
  let elapsed := counted / tval % 2^32
  { elapsed
    frac := counted % tval % 2^32
    manual := if pending.toNat < elapsed then elapsed - pending.toNat else 0 }

/-- `lapic_oneshot` given the pending bit and the entry sample: refused with a timer interrupt
pending, else the new state and the count. -/
def lapicOneshot (tval : ℕ) (tl : TlState) (nticks : ℕ) (irr : Bool) (t0 ccr t1 : ℕ) :
    Option (TlState × ℕ) :=
  if irr then none
  else
    let used := if ccr < tval then tval - ccr else 0
    let count := tval * nticks
    let count := if count = 0 then 1 else count
    let count := if 0xffffffff < count then 0xffffffff else count
    some ({ frac := (tl.frac + used) % 2^32, entryTsc := midpoint t0 t1 },count)

/-- `lapic_oneshot_done` given the count left before the restore, the TSC around the write that
restarts the interval, and the pending bit after it. Returns the elapsed ticks. -/
def lapicOneshotDone (tval tscHz lapicHz : ℕ) (c : Cpu) (nticks rem t0 t1 : ℕ)
    (pending : Bool) : ℕ × Cpu :=
  let now := midpoint t0 t1
  let since :=
    if tscHz ≠ 0 then lapicTlCounts (sub64 now c.tl.entryTsc) tscHz lapicHz
    else
      -- without a TSC rate the timer's own count decides
      let counted := tval * nticks
      if pending then counted else if rem ≤ counted then counted - rem else 0
  let credit := lapicTlCredit c.tl.frac since tval pending
  (credit.elapsed,
    { c with
      tl := { c.tl with frac := credit.frac }
      lapicCounter := (c.lapicCounter + credit.manual * tval) % 2^64 })

/-- The end of `cidle_idle_tickless` replays `hardclock` for every elapsed tick but the one that the
pending interrupt brings. -/
def replay (tval elapsed : ℕ) (pending : Bool) (c : Cpu) : Cpu :=
  let manual := if pending.toNat ≤ elapsed then elapsed - pending.toNat else 0
  let c := Cpu.hardclock^[manual] c
  if pending then lapicClockintr tval c else c

theorem sub64_mod {a b : ℕ} (hle : a ≤ b) (hlt : b - a < 2^64) :
    sub64 (b % 2^64) (a % 2^64) = b - a := by
  unfold sub64
  omega

theorem midpoint_self {t : ℕ} (h : t < 2^64) : midpoint t t = t := by
  have hsub : sub64 t t = 0 := by
    unfold sub64
    omega
  unfold midpoint
  rw [hsub]
  omega

theorem lapicTlCounts_ratio (r : Rates) {d : ℕ} (hd : r.ratio * d < 2^64) :
    lapicTlCounts (r.ratio * d) r.tscHz r.lapicPerSecond = d := by
  have hhz : 0 < r.tscHz := Nat.mul_pos r.ratio_pos r.lapicPerSecond_pos
  have hwhole : r.ratio * d / r.tscHz = d / r.lapicPerSecond :=
    Nat.mul_div_mul_left d r.lapicPerSecond r.ratio_pos
  have hrest : r.ratio * d % r.tscHz = r.ratio * (d % r.lapicPerSecond) :=
    Nat.mul_mod_mul_left r.ratio d r.lapicPerSecond
  have hproduct : r.ratio * (d % r.lapicPerSecond) * r.lapicPerSecond =
      d % r.lapicPerSecond * r.tscHz := by
    unfold Rates.tscHz
    rw [Nat.mul_comm r.ratio,Nat.mul_assoc]
  have hfits : d % r.lapicPerSecond * r.tscHz < 2^64 :=
    calc d % r.lapicPerSecond * r.tscHz
        < r.lapicPerSecond * r.tscHz :=
          Nat.mul_lt_mul_of_pos_right (Nat.mod_lt d r.lapicPerSecond_pos) hhz
      _ = r.ratio * r.lapicPerSecond * r.lapicPerSecond := Nat.mul_comm _ _
      _ ≤ 2^64 := r.product_le
  have hdle : d ≤ r.ratio * d := Nat.le_mul_of_pos_left d r.ratio_pos
  have hsplit : d / r.lapicPerSecond * r.lapicPerSecond + d % r.lapicPerSecond = d :=
    Nat.div_add_mod' d r.lapicPerSecond
  unfold lapicTlCounts
  rw [if_neg (Nat.ne_of_gt hhz)]
  simp only [hwhole,hrest,hproduct,Nat.mod_eq_of_lt hfits,Nat.mul_div_cancel _ hhz]
  omega

theorem lapicTlCredit_eq (r : Rates) {carried since : ℕ} (pending : Bool)
    (hfits : carried + since < 2^32 * r.tval) : lapicTlCredit carried since r.tval pending =
      { elapsed := rounded r.tval (carried + since) pending / r.tval
        frac := rounded r.tval (carried + since) pending % r.tval
        manual := rounded r.tval (carried + since) pending / r.tval - pending.toNat } := by
  have htval := r.tval_le
  have hword : (carried + since) % 2^64 = carried + since := Nat.mod_eq_of_lt (by omega)
  have hlt : rounded r.tval (carried + since) pending < 2^32 * r.tval := by
    have := r.tval_pos
    unfold rounded
    split <;> omega
  have helapsed : rounded r.tval (carried + since) pending / r.tval < 2^32 :=
    Nat.div_lt_of_lt_mul (by rwa [Nat.mul_comm] at hlt)
  have hfrac : rounded r.tval (carried + since) pending % r.tval < 2^32 := by
    have := Nat.mod_lt (rounded r.tval (carried + since) pending) r.tval_pos
    omega
  simp only [lapicTlCredit,hword,Nat.mod_eq_of_lt helapsed,Nat.mod_eq_of_lt hfrac]
  congr 1
  split <;> omega

/-- The time that the replayed ticks, the interrupt's tick and the remainder stand for: with less
than a tick counted, the interrupt's tick comes on top, or is what that is rounded to. -/
theorem credited_time (r : Rates) (counted : ℕ) (pending : Bool) :
    max (rounded r.tval counted pending / r.tval) pending.toNat * r.tval +
        rounded r.tval counted pending % r.tval = if pending ∧ counted < r.tval then
        if r.tval ≤ counted + lapicTlSlop r.tval then r.tval else r.tval + counted
      else counted := by
  have hpos := r.tval_pos
  unfold rounded
  by_cases hshort : pending ∧ counted < r.tval
  · have hdiv : counted / r.tval = 0 := Nat.div_eq_of_lt hshort.2
    rw [if_pos hshort]
    by_cases hslop : r.tval ≤ counted + lapicTlSlop r.tval
    · rw [if_pos ⟨hshort.1,hshort.2,hslop⟩,if_pos hslop]
      simp [hshort.1,Nat.div_self hpos]
    · rw [if_neg (fun h => hslop h.2.2),if_neg hslop]
      simp [hshort.1,hdiv,Nat.mod_eq_of_lt hshort.2]
  · have hmax : max (counted / r.tval) pending.toNat = counted / r.tval := by
      cases pending with
      | false => simp
      | true =>
        have hle : r.tval ≤ counted := by simpa using hshort
        exact Nat.max_eq_left ((Nat.one_le_div_iff hpos).mpr hle)
    rw [if_neg hshort,if_neg (fun h => hshort ⟨h.1,h.2.1⟩),hmax]
    exact Nat.div_add_mod' counted r.tval

@[simp] theorem hardclock_iterate_ticks (n : ℕ) (c : Cpu) :
    (Cpu.hardclock^[n] c).ticks = c.ticks + n := by
  induction n generalizing c with
  | zero => rfl
  | succ n ih =>
    rw [Function.iterate_succ_apply,ih]
    simp only [Cpu.hardclock]
    omega

@[simp] theorem hardclock_iterate_lapicCounter (n : ℕ) (c : Cpu) :
    (Cpu.hardclock^[n] c).lapicCounter = c.lapicCounter := by
  induction n generalizing c with
  | zero => rfl
  | succ n ih => exact ih _

@[simp] theorem hardclock_iterate_tl (n : ℕ) (c : Cpu) :
    (Cpu.hardclock^[n] c).tl = c.tl := by
  induction n generalizing c with
  | zero => rfl
  | succ n ih => exact ih _

@[simp] theorem replay_tl (tval elapsed : ℕ) (pending : Bool) (c : Cpu) :
    (replay tval elapsed pending c).tl = c.tl := by
  unfold replay
  cases pending <;> simp [lapicClockintr,Cpu.hardclock]

theorem replay_ticks (tval elapsed : ℕ) (pending : Bool) (c : Cpu) :
    (replay tval elapsed pending c).ticks = c.ticks + max elapsed pending.toNat := by
  unfold replay
  cases pending with
  | false => simp
  | true =>
    simp only [lapicClockintr,Cpu.hardclock,Bool.toNat_true,hardclock_iterate_ticks,if_true]
    split <;> omega

end NanoBSD.Lapic
