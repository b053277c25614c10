import NanoBSD.Lapic.Sleep

/-! # Delivered ticks against real time

The conserved quantity: the periodic interval that is running began at the instant
`delivered` ticks plus the carried remainder. A sleep keeps it when its two ends are
measured where the timer is read and restarted, unless the periodic timer expired between
the entry check and the sample. The interrupt then brings a tick that is not in the counted
time, and the counted time must stay clear of a whole tick for the code to see that.
-/
namespace NanoBSD.Lapic
variable {r : Rates} {m : Machine} {e : Sleep}

structure Machine.Conserved (r : Rates) (m : Machine) : Prop extends m.InTick r where
  boundary : m.hw.nextBoundary = (m.delivered + 1) * r.tval + m.cpu.tl.frac

theorem boot_conserved (r : Rates) : (boot r).Conserved r :=
  { boot_inTick r with boundary := by simp [boot,Machine.delivered] }

theorem Machine.Conserved.delivered_eq (h : m.Conserved r) :
    m.delivered = m.hw.now / r.tval ∨ m.delivered + 1 = m.hw.now / r.tval := by
  have hboundary := h.boundary
  have hstarted := h.started
  have hrunning := h.running
  have hfrac := h.frac_lt
  have hsucc : (m.delivered + 1) * r.tval = m.delivered * r.tval + r.tval := Nat.succ_mul _ _
  have hlow : m.delivered ≤ m.hw.now / r.tval := by
    rw [Nat.le_div_iff_mul_le r.tval_pos]
    omega
  have hhigh : m.hw.now / r.tval < m.delivered + 2 := by
    rw [Nat.div_lt_iff_lt_mul r.tval_pos,Nat.add_mul]
    omega
  omega

namespace Sleep

/-- The sleep is measured up to the restart and a stale interrupt is told apart, or the
rounding restores what the measurement missed. -/
def Exact (r : Rates) (m : Machine) (e : Sleep) : Prop :=
  (e.restore = e.read ∧ (e.Stale m → e.counted r m e.read + lapicTlSlop r.tval < r.tval)) ∨
    (e.Rounds r m ∧ m.uncredited r e.restore = r.tval)

instance (r : Rates) (m : Machine) (e : Sleep) : Decidable (e.Exact r m) :=
  inferInstanceAs (Decidable ((_ ∧ (_ → _)) ∨ (_ ∧ _)))

end Sleep

section Sleeping
variable (hm : m.Conserved r) (he : e.Possible r m.hw) (hfits : e.Fits r m)
include hm he

theorem restore_eq (hirr : m.hw.irr = false) :
    e.restore = m.cpu.ticks * r.tval + m.uncredited r e.restore := by
  have hstarted := hm.started
  have hboundary := hm.boundary
  obtain ⟨-,⟨hnow,hreprogram,hread,hrestore⟩,-⟩ := he
  simp only [Machine.delivered,hirr,Bool.toNat_false,Nat.add_zero,Nat.succ_mul] at hboundary
  unfold Machine.uncredited
  omega

include hfits in
theorem conserved_iff_uncredited (hirr : m.hw.irr = false) :
    (m.cidleIdleTickless r e).Conserved r ↔ m.uncredited r e.restore =
      if e.Pending r m ∧ e.counted r m e.read < r.tval then
        if r.tval ≤ e.counted r m e.read + lapicTlSlop r.tval then r.tval
        else r.tval + e.counted r m e.read else e.counted r m e.read := by
  obtain ⟨hhw,hfrac,hticks⟩ := cidleIdleTickless_spec hm.toInTick he hfits hirr
  have hcredit := credited_time r (e.counted r m e.read) (decide (e.Pending r m))
  simp only [decide_eq_true_iff] at hcredit
  have hrestore := restore_eq hm he hirr
  have hdelivered : (m.cidleIdleTickless r e).delivered =
      (m.cidleIdleTickless r e).cpu.ticks := by
    rw [Machine.delivered,hhw]
    rfl
  rw [← hcredit]
  constructor
  · intro h
    have hboundary := h.boundary
    rw [hdelivered,hhw,hfrac,hticks,Nat.succ_mul,Nat.add_mul] at hboundary
    simp only at hboundary
    omega
  · intro h
    have hpos := r.tval_pos
    refine ⟨⟨?_,?_,?_,?_⟩,?_⟩
    · rw [hhw]
    · simp [hhw]
    · simp [hhw,hpos]
    · rw [hfrac]
      exact Nat.mod_lt _ hpos
    · rw [hdelivered,hhw,hfrac,hticks,Nat.succ_mul,Nat.add_mul]
      simp only
      omega

include hfits in
/-- A sleep conserves time just when it is measured up to the restart of the timer and a stale
interrupt is told apart, or rounding makes up for it. -/
theorem conserved_iff_exact (hirr : m.hw.irr = false) :
    (m.cidleIdleTickless r e).Conserved r ↔ e.Exact r m := by
  have hpos := r.tval_pos
  have hstarted := hm.started
  have huncredited := tval_le_uncredited hm.toInTick he
  rw [conserved_iff_uncredited hm he hfits hirr]
  obtain ⟨-,⟨hnow,hreprogram,hread,hrestore⟩,-,hshort⟩ := he
  unfold Sleep.Exact Sleep.Rounds
  by_cases hstale : e.Stale m
  · have hcounted : e.counted r m e.read = m.uncredited r e.read - r.tval := if_pos hstale
    have hpending : e.Pending r m := Or.inl (Nat.le_trans hstale hreprogram)
    have hboundary : m.hw.nextBoundary ≤ e.sample := hstale
    unfold Machine.uncredited at hcounted huncredited ⊢
    simp only [hpending,hstale,true_and,true_imp_iff]
    split <;> rename_i hc
    · split <;> omega
    · omega
  · have hcounted : e.counted r m e.read = m.uncredited r e.read := if_neg hstale
    unfold Machine.uncredited at hcounted huncredited ⊢
    by_cases hpending : e.Pending r m
    · have huncredited := huncredited hpending
      simp only [hpending,hstale,true_and,false_imp_iff,and_true]
      split <;> rename_i hc
      · split <;> omega
      · omega
    · simp only [hpending,hstale,false_and,false_imp_iff,and_true,or_false,if_false]
      omega

end Sleeping

def Event.Exact (r : Rates) (m : Machine) : Event → Prop
  | .idle e => m.hw.irr = false → e.Fits r m ∧ e.Exact r m
  | _ => True

instance (r : Rates) (m : Machine) : ∀ a : Event, Decidable (a.Exact r m)
  | .pass _ => isTrue trivial
  | .expire => isTrue trivial
  | .serve => isTrue trivial
  | .idle _ => inferInstanceAs (Decidable (_ → _ ∧ _))

theorem enableIntr_conserved (hm : m.Conserved r) : (m.enableIntr r).Conserved r := by
  have hboundary := hm.boundary
  unfold Machine.enableIntr
  cases hirr : m.hw.irr with
  | false => exact hm
  | true =>
    -- the tick moves from the pending bit to the count
    simp only [Machine.delivered,hirr,Bool.toNat_true] at hboundary
    exact { hm with boundary := hboundary }

theorem pass_conserved (hm : m.Conserved r) {d : ℕ} (hd : m.hw.now + d < m.hw.nextBoundary) :
    ({ m with hw := m.hw.passTo r (m.hw.now + d) } : Machine).Conserved r := by
  have hstarted := hm.started
  have hpass : m.hw.passTo r (m.hw.now + d) = { m.hw with now := m.hw.now + d } := by
    simp [Hw.passTo,Hw.expiry,hm.periodic,Nat.not_le.mpr hd]
  rw [hpass]
  exact ⟨⟨hm.periodic,by simp only; omega,hd,hm.frac_lt⟩,hm.boundary⟩

theorem expire_conserved (hm : m.Conserved r) (hirr : m.hw.irr = false) :
    ({ m with hw := m.hw.passTo r m.hw.nextBoundary } : Machine).Conserved r := by
  have hboundary := hm.boundary
  have hpos := r.tval_pos
  have hpass : m.hw.passTo r m.hw.nextBoundary =
      ⟨m.hw.nextBoundary,m.hw.nextBoundary + r.tval,m.hw.deadline,true,false⟩ := by
    simp [Hw.passTo,Hw.expiry,hm.periodic]
  simp only [Machine.delivered,hirr,Bool.toNat_false,Nat.add_zero] at hboundary
  rw [hpass]
  refine ⟨⟨rfl,?_,?_,hm.frac_lt⟩,?_⟩
  · simp
  · simpa using hpos
  · simp only [Machine.delivered,Bool.toNat_true,Nat.succ_mul] at hboundary ⊢
    omega

theorem step_conserved (m : Machine) (a : Event) (m' : Machine) (hm : m.Conserved r)
    (ha : a.Exact r m) (hstep : step r m a = some m') : m'.Conserved r := by
  cases a with
  | pass d =>
    obtain ⟨hd,rfl⟩ := of_guard hstep
    exact pass_conserved hm hd
  | expire =>
    obtain ⟨hirr,rfl⟩ := of_unless hstep
    exact expire_conserved hm (Bool.not_eq_true _ ▸ hirr)
  | serve =>
    obtain ⟨-,rfl⟩ := of_guard hstep
    exact enableIntr_conserved hm
  | idle e =>
    obtain ⟨hpossible,rfl⟩ := of_guard hstep
    cases hirr : m.hw.irr with
    | true =>
      have hrefused : m.cidleIdleTickless r e = m.enableIntr r := by
        simp [Machine.cidleIdleTickless,lapicOneshot,hirr]
      rw [hrefused]
      exact enableIntr_conserved hm
    | false =>
      have he : e.Possible r m.hw := by simpa [hirr] using hpossible
      exact (conserved_iff_exact hm he (ha hirr).1 hirr).mpr (ha hirr).2

/-- Along every run of serviced ticks and exact sleeps the delivered ticks are the whole
ticks of real time or one less. -/
theorem delivered_of_exact (r : Rates) {as : List Event} {m : Machine}
    (hrun : exec (step r) (boot r) as = some m)
    (hexact : Along (step r) (Event.Exact r) (boot r) as) :
    m.delivered = m.hw.now / r.tval ∨ m.delivered + 1 = m.hw.now / r.tval :=
  (exec_invariant_along (Machine.Conserved r) step_conserved (boot_conserved r) hexact
    hrun).delivered_eq

def harnessRates : Rates where
  tval := 384000
  lapicPerSecond := 38400000
  ratio := 55
  tval_pos := by decide
  tval_le := by decide
  lapicPerSecond_pos := by decide
  ratio_pos := by decide
  product_le := by decide

/-- An early wake, a served tick, a one-shot that expires, and a periodic expiry just before the
sample. -/
def mixedRun : List Event :=
  [.pass 128000,.idle ⟨4,128000,128000,896000,896000⟩,.expire,.serve,
    .idle ⟨10,1280000,1280003,5120003,5120003⟩,.idle ⟨100,5504003,5504003,5504008,5504008⟩]

theorem delivered_of_exact_mixedRun :
    ∃ m, exec (step harnessRates) (boot harnessRates) mixedRun = some m ∧
      (m.delivered = m.hw.now / harnessRates.tval ∨
        m.delivered + 1 = m.hw.now / harnessRates.tval) := by
  obtain ⟨m,hm⟩ : ∃ m, exec (step harnessRates) (boot harnessRates) mixedRun = some m :=
    Option.isSome_iff_exists.mp (by decide)
  exact ⟨m,hm,delivered_of_exact harnessRates hm (by decide)⟩

/-- A wake one count short of a tick carries that much. If the timer expires just before the next
sample, the interrupt is taken for the tick that completes it: of three ticks one is delivered. -/
theorem stale_expiry_loses_tick :
    (exec (step harnessRates) (boot harnessRates)
      [.idle ⟨4,0,0,383999,383999⟩,.idle ⟨4,767999,767999,768004,768004⟩,.pass 383999]).map
        (fun m => (m.delivered,m.hw.now / harnessRates.tval)) = some (1,3) := by
  decide

end NanoBSD.Lapic
