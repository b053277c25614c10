import NanoBSD.Lapic.Timer

/-! # What one sleep does

While the periodic timer runs, the time not yet credited is the carried remainder plus the
part of the interval that has passed. A sleep counts on from there with the TSC, and its end
turns whole ticks of it into replayed ticks and carries the rest.
-/
namespace NanoBSD.Lapic
variable {r : Rates} {m : Machine} {e : Sleep}

structure Machine.InTick (r : Rates) (m : Machine) : Prop where
  periodic : m.hw.oneshot = false
  started : m.hw.nextBoundary ≤ m.hw.now + r.tval
  running : m.hw.now < m.hw.nextBoundary
  frac_lt : m.cpu.tl.frac < r.tval

theorem boot_inTick (r : Rates) : (boot r).InTick r where
  periodic := rfl
  started := by simp [boot]
  running := r.tval_pos
  frac_lt := r.tval_pos

def Machine.uncredited (r : Rates) (m : Machine) (t : ℕ) : ℕ :=
  m.cpu.tl.frac + (t + r.tval - m.hw.nextBoundary)

namespace Sleep

def Stale (m : Machine) (e : Sleep) : Prop := m.hw.nextBoundary ≤ e.sample
instance (m : Machine) (e : Sleep) : Decidable (e.Stale m) := Nat.decLe _ _

/-- The instant the one-shot expires, capped by the 32-bit count register. -/
def deadline (r : Rates) (e : Sleep) : ℕ := e.reprogram + min (r.tval * e.nticks) 0xffffffff

def Pending (r : Rates) (m : Machine) (e : Sleep) : Prop :=
  m.hw.nextBoundary ≤ e.reprogram ∨ e.deadline r ≤ e.restore

instance (r : Rates) (m : Machine) (e : Sleep) : Decidable (e.Pending r m) :=
  inferInstanceAs (Decidable (_ ∨ _))

def counted (r : Rates) (m : Machine) (e : Sleep) (t : ℕ) : ℕ :=
  if e.Stale m then m.uncredited r t - r.tval else m.uncredited r t

def Fits (r : Rates) (m : Machine) (e : Sleep) : Prop :=
  r.ratio * (e.read - e.sample) < 2^64 ∧ e.counted r m e.read < 2^32 * r.tval

def Rounds (r : Rates) (m : Machine) (e : Sleep) : Prop :=
  e.Pending r m ∧ e.counted r m e.read < r.tval ∧
    r.tval ≤ e.counted r m e.read + lapicTlSlop r.tval

instance (r : Rates) (m : Machine) (e : Sleep) : Decidable (e.Fits r m) :=
  inferInstanceAs (Decidable (_ ∧ _))

instance (r : Rates) (m : Machine) (e : Sleep) : Decidable (e.Rounds r m) :=
  inferInstanceAs (Decidable (_ ∧ _ ∧ _))

end Sleep

section Entry
variable (hm : m.InTick r) (hirr : m.hw.irr = false) (he : e.Possible r m.hw)
include hm he

theorem sampled_ccr : (m.hw.passTo r e.sample).ccr =
    if e.Stale m then m.hw.nextBoundary + r.tval - e.sample else m.hw.nextBoundary - e.sample := by
  obtain ⟨-,-,hsample,-⟩ := he
  simp only [Hw.passTo,Hw.ccr,Hw.expiry,hm.periodic,Sleep.Stale]
  by_cases hstale : m.hw.nextBoundary ≤ e.sample
  · have hdiv : (e.sample - m.hw.nextBoundary) / r.tval = 0 := Nat.div_eq_of_lt (by omega)
    simp [hstale,hdiv]
  · simp [hstale]

theorem entry_frac : (m.cpu.tl.frac + if (m.hw.passTo r e.sample).ccr < r.tval
      then r.tval - (m.hw.passTo r e.sample).ccr else 0) % 2^32 = e.counted r m e.sample := by
  have hccr := sampled_ccr hm he
  have hstarted := hm.started
  have hfrac := hm.frac_lt
  have htval := r.tval_le
  obtain ⟨-,⟨hnow,-⟩,hsample,-⟩ := he
  unfold Sleep.counted Machine.uncredited
  by_cases hstale : e.Stale m
  · rw [if_pos hstale] at hccr ⊢
    unfold Sleep.Stale at hstale
    split <;> omega
  · rw [if_neg hstale] at hccr ⊢
    unfold Sleep.Stale at hstale
    split <;> omega

include hirr in
theorem lapicOneshot_entry :
    lapicOneshot r.tval m.cpu.tl e.nticks m.hw.irr ((m.hw.passTo r e.sample).tsc r)
      (m.hw.passTo r e.sample).ccr ((m.hw.passTo r e.sample).tsc r) =
    some ({ frac := e.counted r m e.sample, entryTsc := r.ratio * e.sample % 2^64 },
      min (r.tval * e.nticks) 0xffffffff) := by
  have hpos : 0 < r.tval * e.nticks := Nat.mul_pos r.tval_pos he.1.1
  have hmid : midpoint ((m.hw.passTo r e.sample).tsc r) ((m.hw.passTo r e.sample).tsc r) =
      r.ratio * e.sample % 2^64 := midpoint_self (Nat.mod_lt _ (by decide))
  simp only [lapicOneshot,hirr,entry_frac hm he,hmid,if_neg (Nat.ne_of_gt hpos)]
  simp only [Bool.false_eq_true,if_false]
  congr 2
  split <;> omega

end Entry

theorem restored_irr (hm : m.InTick r) (hirr : m.hw.irr = false) (he : e.Possible r m.hw) :
    ((((((m.hw.passTo r e.sample).passTo r e.reprogram).startOneshot
      (min (r.tval * e.nticks) 0xffffffff)).passTo r e.read).passTo r e.restore).startPeriodic
        r).irr = decide (e.Pending r m) := by
  obtain ⟨-,⟨-,hreprogram,-,hrestore⟩,-⟩ := he
  rw [Bool.eq_iff_iff,decide_eq_true_iff]
  simp only [Hw.passTo,Hw.startOneshot,Hw.startPeriodic,Hw.expiry,hm.periodic,hirr,
    Sleep.Pending,Sleep.deadline,Bool.or_eq_true,decide_eq_true_eq]
  by_cases hstale : m.hw.nextBoundary ≤ e.sample
  · simp [hstale]
    omega
  · simp [hstale]
    omega

section Sleeping
variable (hm : m.InTick r) (he : e.Possible r m.hw) (hfits : e.Fits r m)
include hm he

theorem counted_add {t : ℕ} (ht : e.sample ≤ t) :
    e.counted r m e.sample + (t - e.sample) = e.counted r m t := by
  have hstarted := hm.started
  obtain ⟨-,⟨hnow,-⟩,-⟩ := he
  unfold Sleep.counted Machine.uncredited
  by_cases hstale : e.Stale m
  · rw [if_pos hstale,if_pos hstale]
    unfold Sleep.Stale at hstale
    omega
  · rw [if_neg hstale,if_neg hstale]
    omega

include hfits in
theorem lapicOneshotDone_sleep (rem : ℕ) (pending : Bool) :
    let c := { m.cpu with tl := ⟨e.counted r m e.sample,r.ratio * e.sample % 2^64⟩ }
    let counted := rounded r.tval (e.counted r m e.read) pending
    let done := lapicOneshotDone r.tval r.tscHz r.lapicPerSecond c e.nticks rem
      (r.ratio * e.read % 2^64) (r.ratio * e.read % 2^64) pending
    done.1 = counted / r.tval ∧ done.2.tl.frac = counted % r.tval ∧
      done.2.ticks = m.cpu.ticks := by
  have hle : e.sample ≤ e.read := Nat.le_trans he.2.1.2.1 he.2.1.2.2.1
  have hhz : r.tscHz ≠ 0 := Nat.ne_of_gt (Nat.mul_pos r.ratio_pos r.lapicPerSecond_pos)
  have hdelta : r.ratio * e.read - r.ratio * e.sample = r.ratio * (e.read - e.sample) :=
    (Nat.mul_sub r.ratio e.read e.sample).symm
  have htsc : sub64 (r.ratio * e.read % 2^64) (r.ratio * e.sample % 2^64) =
      r.ratio * (e.read - e.sample) := by
    rw [sub64_mod (Nat.mul_le_mul_left _ hle) (by rw [hdelta]; exact hfits.1),hdelta]
  have hmid : midpoint (r.ratio * e.read % 2^64) (r.ratio * e.read % 2^64) =
      r.ratio * e.read % 2^64 := midpoint_self (Nat.mod_lt _ (by decide))
  have hcount := counted_add hm he hle
  have hcredit := lapicTlCredit_eq r pending (by rw [hcount]; exact hfits.2)
  simp only [lapicOneshotDone,hmid,htsc,lapicTlCounts_ratio r hfits.1,hcredit,hcount,if_pos hhz]
  trivial

include hfits in
theorem cidleIdleTickless_spec (hirr : m.hw.irr = false) :
    let pending := decide (e.Pending r m)
    let counted := rounded r.tval (e.counted r m e.read) pending
    let m' := m.cidleIdleTickless r e
    m'.hw = ⟨e.restore,e.restore + r.tval,e.deadline r,false,false⟩ ∧
      m'.cpu.tl.frac = counted % r.tval ∧
      m'.cpu.ticks = m.cpu.ticks + max (counted / r.tval) pending.toNat := by
  have hrestored := restored_irr hm hirr he
  simp only [Machine.cidleIdleTickless,lapicOneshot_entry hm hirr he,hrestored]
  obtain ⟨helapsed,hfrac,hticks⟩ := lapicOneshotDone_sleep hm he hfits
    ((((m.hw.passTo r e.sample).passTo r e.reprogram).startOneshot
      (min (r.tval * e.nticks) 0xffffffff)).passTo r e.read).ccr (decide (e.Pending r m))
  refine ⟨rfl,?_,?_⟩
  · rw [replay_tl]
    exact hfrac
  · rw [replay_ticks]
    exact congrArg₂ (fun a b => a + max b _) hticks helapsed

theorem tval_le_uncredited (hpending : e.Pending r m) : r.tval ≤ m.uncredited r e.restore := by
  have hstarted := hm.started
  have htval := r.tval_le
  obtain ⟨⟨hnticks,-⟩,⟨hnow,hreprogram,hread,hrestore⟩,-⟩ := he
  have hticks : r.tval ≤ r.tval * e.nticks := Nat.le_mul_of_pos_right _ hnticks
  unfold Machine.uncredited
  rcases hpending with hboundary | hdeadline
  · omega
  · unfold Sleep.deadline at hdeadline
    omega

end Sleeping
end NanoBSD.Lapic
