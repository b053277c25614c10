import NanoBSD.Timecounter.Select

/-! # The counter in force does not turn over

Between two windups lie at most a carried remainder, the running interval, the entry into a
sleep, the sleep itself and the wake-up. The sleep is no longer than half a wrap, and when it
is at least four ticks the other half covers the rest. What can break this is a windup of
another CPU that puts a new counter in force under a sleep that was planned without it.
-/
namespace NanoBSD.Timecounter
open Option
variable {κ ν : Type} [DecidableEq κ] {b : Board κ ν} {s t : System κ ν} {p : Plan κ} {k : κ}

def Board.Safe (b : Board κ ν) (k : κ) (d : ℕ) : Prop :=
  (b.tc k).frequency * d ≤ (b.tc k).mask * b.lapicPerSecond

instance (b : Board κ ν) (k : κ) (d : ℕ) : Decidable (b.Safe k d) := Nat.decLe _ _

section Board

section

omit [DecidableEq κ]

theorem Board.Safe.mono {d d' : ℕ} (h : b.Safe k d) (hle : d' ≤ d) : b.Safe k d' :=
  Nat.le_trans (Nat.mul_le_mul_left _ hle) h

theorem Board.Safe.total_sub_le {t₀ t₁ : ℕ} (h : b.Safe k (t₁ - t₀)) :
    b.total t₁ k - b.total t₀ k ≤ (b.tc k).mask := by
  unfold Safe at h
  unfold total
  have hle : b.phase k + (b.tc k).frequency * t₁ ≤
      b.phase k + (b.tc k).frequency * t₀ + (b.tc k).mask * b.lapicPerSecond := by
    rw [Nat.mul_sub] at h
    omega
  have hdiv := Nat.div_le_div_right (c := b.lapicPerSecond) hle
  rw [Nat.add_mul_div_right _ _ b.lapicPerSecond_pos] at hdiv
  omega

theorem Board.safe_of_ticks {n d : ℕ} (h : (b.tc k).frequency * n ≤ (b.tc k).mask * b.hz)
    (hle : d ≤ n * b.tval) : b.Safe k d :=
  calc (b.tc k).frequency * d
      ≤ (b.tc k).frequency * (n * b.tval) := Nat.mul_le_mul_left _ hle
    _ = (b.tc k).frequency * n * b.tval := (Nat.mul_assoc _ _ _).symm
    _ ≤ (b.tc k).mask * b.hz * b.tval := Nat.mul_le_mul_right _ h
    _ = (b.tc k).mask * (b.hz * b.tval) := Nat.mul_assoc _ _ _
    _ ≤ (b.tc k).mask * b.lapicPerSecond := Nat.mul_le_mul_left _ b.tick_le

end

theorem mul_two_le_of_halfWrap {tc : Counter} {hz n : ℕ} (hhz : hz < 2^31)
    (h : n ≤ tcHalfWrapTicks hz tc) : tc.frequency * (2 * n) ≤ tc.mask * hz := by
  have hmask : tc.mask < 2^32 :=
    Nat.lt_of_lt_of_le (Nat.sub_lt (Nat.pow_pos (by decide)) Nat.one_pos)
      (Nat.pow_le_pow_right (by decide) tc.bits_le)
  have hfits : tc.mask * hz < 2^64 :=
    calc tc.mask * hz < 2^32 * 2^31 := Nat.mul_lt_mul'' hmask hhz
      _ < 2^64 := by decide
  unfold tcHalfWrapTicks at h
  rw [if_neg (Nat.ne_of_gt tc.frequency_pos),Nat.mod_eq_of_lt hfits,
    Nat.le_div_iff_mul_le (by decide),Nat.le_div_iff_mul_le tc.frequency_pos] at h
  calc tc.frequency * (2 * n) = n * 2 * tc.frequency := by rw [Nat.mul_comm,Nat.mul_comm 2]
    _ ≤ tc.mask * hz := h

omit [DecidableEq κ] in
theorem tcMaxWindupTicks_le (b : Board κ ν) (c : Clock κ ν) :
    tcMaxWindupTicks b c ≤ tcHalfWrapTicks b.hz (b.tc c.hands.counter) ∧
      tcMaxWindupTicks b c ≤ tcHalfWrapTicks b.hz (b.tc c.timecounter) ∧
      tcMaxWindupTicks b c < 2^31 := by
  unfold tcMaxWindupTicks
  dsimp only
  split_ifs <;> omega

theorem cidleSkip_le (c : Cidle) (cap : ℤ) : cidleSkip c cap ≤ cap := by
  unfold cidleSkip
  dsimp only
  split_ifs <;> omega

end Board

namespace System

/-- A sleep under way: it was bounded by both counters, and the one in force now is good for
the rest of it. -/
structure Asleep (b : Board κ ν) (s : System κ ν) (p : Plan κ) : Prop where
  irr : s.primary.hw.irr = false
  nticks_ge : 4 ≤ p.nticks
  nticks_lt : p.nticks < 2^31
  sample_ge : s.primary.hw.now ≤ p.sample
  reprogram_ge : p.sample ≤ p.reprogram
  reprogram_lt : p.reprogram < s.primary.hw.now + b.tval
  now_ge : s.primary.hw.now ≤ s.now
  now_le : s.now ≤ p.latest b.toRates
  safe : b.Safe s.clock.hands.counter (p.latest b.toRates - s.windupAt)
  known : ∀ k, k = p.active ∨ k = p.selected → p.nticks ≤ tcHalfWrapTicks b.hz (b.tc k)

/-- The time since the last windup is at most what the ticks have not been credited. -/
structure Sound (b : Board κ ν) (s : System κ ν) : Prop where
  inTick : s.primary.InTick b.toRates
  windup_le : s.windupAt ≤ s.now
  age : s.primary.hw.now ≤ s.windupAt + s.primary.uncredited b.toRates s.primary.hw.now +
    s.primary.hw.irr.toNat * b.tval
  awake : s.plan = none → s.now = s.primary.hw.now
  asleep : ∀ p, s.plan = some p → Asleep b s p

omit [DecidableEq κ] in
theorem Sound.advance_le (h : Sound b s) (hroomy : (b.tc s.clock.hands.counter).frequency * 3 ≤
      (b.tc s.clock.hands.counter).mask * b.hz) :
    s.advance b ≤ (b.tc s.clock.hands.counter).mask := by
  cases hplan : s.plan with
  | none =>
    have hage := h.age
    have hnow := h.awake hplan
    have hfrac := h.inTick.frac_lt
    have hrunning := h.inTick.running
    have hirr := Bool.toNat_le s.primary.hw.irr
    have htick : s.primary.hw.irr.toNat * b.tval ≤ 1 * b.tval := Nat.mul_le_mul_right _ hirr
    apply (Board.safe_of_ticks hroomy _).total_sub_le
    unfold Lapic.Machine.uncredited at hage
    omega
  | some p =>
    have hasleep := h.asleep p hplan
    have hle := hasleep.now_le
    exact (hasleep.safe.mono (by omega)).total_sub_le

omit [DecidableEq κ] in
theorem Sound.now_ge (h : Sound b s) : s.primary.hw.now ≤ s.now := by
  cases hplan : s.plan with
  | none => exact Nat.le_of_eq (h.awake hplan).symm
  | some p => exact (h.asleep p hplan).now_ge

/-- A windup that puts `k` in force now does so for the rest of a sleep. -/
def Bounded (b : Board κ ν) (s : System κ ν) (k : κ) : Prop :=
  ∀ p ∈ s.plan, k = p.active ∨ k = p.selected ∨ b.Safe k (p.latest b.toRates - s.now)

instance (b : Board κ ν) (s : System κ ν) (k : κ) : Decidable (s.Bounded b k) :=
  inferInstanceAs (Decidable (∀ p ∈ s.plan, _))

omit [DecidableEq κ] in
theorem Asleep.safe_known (h : Asleep b s p) (hk : k = p.active ∨ k = p.selected) :
    b.Safe k (p.latest b.toRates - s.now) := by
  apply Board.safe_of_ticks (mul_two_le_of_halfWrap b.hz_lt (h.known k hk))
  have hticks := Nat.mul_le_mul_right b.tval h.nticks_ge
  have hreprogram := h.reprogram_lt
  have hnow := h.now_ge
  rw [Nat.mul_assoc,Plan.latest,Nat.mul_comm b.tval]
  omega

theorem Sound.windup (h : Sound b s) (hclear : s.Bounded b s.clock.timecounter) :
    Sound b (s.windup b) := by
  have hnow := h.now_ge
  constructor
  · exact h.inTick
  · exact Nat.le_refl _
  · simp only [System.windup]
    omega
  · exact h.awake
  · intro p hplan
    have hasleep := h.asleep p hplan
    refine { hasleep with safe := ?_ }
    change b.Safe s.clock.timecounter _
    rcases hclear p hplan with hk | hk | hsafe
    · exact hasleep.safe_known (.inl hk)
    · exact hasleep.safe_known (.inr hk)
    · exact hsafe

theorem sound_windup_awake (hin : s.primary.InTick b.toRates) (hplan : s.plan = none)
    (hnow : s.now = s.primary.hw.now) : Sound b (s.windup b) := by
  constructor
  · exact hin
  · exact Nat.le_refl _
  · simp only [System.windup]
    omega
  · exact fun _ => hnow
  · intro p hp
    simp [System.windup,hplan] at hp

section

omit [DecidableEq κ]

theorem Sound.congr (h : Sound b s) (hprimary : t.primary = s.primary) (hnow : t.now = s.now)
    (hplan : t.plan = s.plan) (hwindup : t.windupAt = s.windupAt)
    (hhands : t.clock.hands = s.clock.hands) : Sound b t := by
  constructor
  · rw [hprimary]
    exact h.inTick
  · rw [hnow,hwindup]
    exact h.windup_le
  · rw [hprimary,hwindup]
    exact h.age
  · rw [hplan,hnow,hprimary]
    exact h.awake
  · intro p hp
    have hasleep := h.asleep p (hplan ▸ hp)
    constructor
    · rw [hprimary]
      exact hasleep.irr
    · exact hasleep.nticks_ge
    · exact hasleep.nticks_lt
    · rw [hprimary]
      exact hasleep.sample_ge
    · exact hasleep.reprogram_ge
    · rw [hprimary]
      exact hasleep.reprogram_lt
    · rw [hprimary,hnow]
      exact hasleep.now_ge
    · rw [hnow]
      exact hasleep.now_le
    · rw [hhands,hwindup]
      exact hasleep.safe
    · exact hasleep.known

theorem tcPick_eq (b : Board κ ν) (s : System κ ν) : ∃ k, s.tcPick b = s.select k := by
  unfold tcPick
  cases s.counters with
  | nil => exact ⟨s.clock.timecounter,rfl⟩
  | cons k ks => exact ⟨_,rfl⟩

end

theorem tcTicktock_eq (b : Board κ ν) (s : System κ ν) : ∃ s' : System κ ν,
    s'.primary = s.primary ∧ s'.now = s.now ∧ s'.plan = s.plan ∧ s.tcTicktock b = s'.windup b := by
  unfold tcTicktock
  dsimp only
  split_ifs
  · obtain ⟨k,hk⟩ := tcPick_eq b { s with bad := false }
    exact ⟨System.select { s with bad := false } k,rfl,rfl,rfl,by rw [hk]⟩
  · exact ⟨{ s with bad := false },rfl,rfl,rfl,rfl⟩
  · exact ⟨s,rfl,rfl,rfl,rfl⟩

theorem sound_tcTicktock (hin : s.primary.InTick b.toRates) (hplan : s.plan = none)
    (hnow : s.now = s.primary.hw.now) : Sound b (s.tcTicktock b) := by
  obtain ⟨s',hprimary,hnow',hplan',heq⟩ := tcTicktock_eq b s
  rw [heq]
  apply sound_windup_awake
  · rw [hprimary]
    exact hin
  · rw [hplan',hplan]
  · rw [hnow',hprimary,hnow]

section

omit [DecidableEq κ]

theorem Sound.sleep (h : Sound b s) (hplan : s.plan = none) (hirr : s.primary.hw.irr = false)
    {n sample reprogram : ℕ} (hn : 4 ≤ n) (hmax : n ≤ tcMaxWindupTicks b s.clock)
    (hsample : s.now ≤ sample) (hreprogram : sample ≤ reprogram)
    (hlt : reprogram < s.now + b.tval) :
    Sound b { s with
      plan := some ⟨n,sample,reprogram,s.clock.hands.counter,s.clock.timecounter⟩ } := by
  obtain ⟨hactive,hselected,hint⟩ := tcMaxWindupTicks_le b s.clock
  have hnow := h.awake hplan
  constructor
  · exact h.inTick
  · exact h.windup_le
  · exact h.age
  · exact nofun
  · intro p hp
    cases hp
    constructor
    · exact hirr
    · exact hn
    · exact Nat.lt_of_le_of_lt hmax hint
    · exact hnow ▸ hsample
    · exact hreprogram
    · exact hnow ▸ hlt
    · exact h.now_ge
    · simp only [Plan.latest]
      omega
    · apply Board.safe_of_ticks (mul_two_le_of_halfWrap b.hz_lt (Nat.le_trans hmax hactive))
      have hage := h.age
      have hfrac := h.inTick.frac_lt
      have hrunning := h.inTick.running
      have hticks := Nat.mul_le_mul_right b.tval hn
      simp only [hirr,Bool.toNat_false,Nat.zero_mul,Lapic.Machine.uncredited] at hage
      simp only [Plan.latest]
      rw [Nat.mul_assoc,Nat.mul_comm b.tval]
      omega
    · rintro k (rfl | rfl)
      · exact Nat.le_trans hmax hactive
      · exact Nat.le_trans hmax hselected

theorem Asleep.possible (h : Asleep b s p) (hin : s.primary.InTick b.toRates)
    (hwake : p.reprogram ≤ s.now) : (p.sleep s.now).Possible b.toRates s.primary.hw := by
  have hn := h.nticks_ge
  have hn' := h.nticks_lt
  have hsample := h.sample_ge
  have hreprogram := h.reprogram_ge
  have hlt := h.reprogram_lt
  have hrunning := hin.running
  have hpos := b.tval_pos
  simp only [Lapic.Sleep.Possible,Plan.sleep]
  omega

theorem Asleep.fits (h : Asleep b s p) (hin : s.primary.InTick b.toRates) :
    (p.sleep s.now).Fits b.toRates s.primary := by
  have hn := h.nticks_lt
  have hle := h.now_le
  have hreprogram := h.reprogram_lt
  have hsample := h.sample_ge
  have htval := b.tval_le
  constructor
  · have hspan : s.now - p.sample < 2^33 := by
      simp only [Plan.latest] at hle
      omega
    calc b.ratio * (s.now - p.sample)
        < 2^31 * 2^33 := Nat.mul_lt_mul_of_le_of_lt b.ratio_le hspan (by decide)
      _ = 2^64 := by decide
  · have hfrac := hin.frac_lt
    have hstarted := hin.started
    have hrunning := hin.running
    have hticks : b.tval * p.nticks ≤ b.tval * (2^31 - 1) := Nat.mul_le_mul_left _ (by omega)
    have hcounted : (p.sleep s.now).counted b.toRates s.primary s.now ≤
        s.primary.uncredited b.toRates s.now := by
      unfold Lapic.Sleep.counted
      split <;> omega
    apply Nat.lt_of_le_of_lt hcounted
    simp only [Plan.latest] at hle
    simp only [Lapic.Machine.uncredited]
    omega

theorem Sound.wake_hw (h : Sound b s) (hplan : s.plan = some p) (hwake : p.reprogram ≤ s.now) :
    let m := s.primary.cidleIdleTickless b.toRates (p.sleep s.now)
    m.InTick b.toRates ∧ s.now = m.hw.now := by
  have hasleep := h.asleep p hplan
  obtain ⟨hhw,hfrac,-⟩ := Lapic.cidleIdleTickless_spec h.inTick
    (hasleep.possible h.inTick hwake) (hasleep.fits h.inTick) hasleep.irr
  refine ⟨?_,by rw [hhw]; rfl⟩
  constructor
  · rw [hhw]
  · simp [hhw]
  · simpa [hhw] using b.tval_pos
  · rw [hfrac]
    exact Nat.mod_lt _ b.tval_pos

theorem Sound.wake_idle (h : Sound b s) (hplan : s.plan = some p) (hwake : p.reprogram ≤ s.now)
    (hidle : (s.primary.cidleIdleTickless b.toRates (p.sleep s.now)).cpu.ticks =
      s.primary.cpu.ticks) :
    Sound b { s with
      primary := s.primary.cidleIdleTickless b.toRates (p.sleep s.now)
      plan := none } := by
  have hasleep := h.asleep p hplan
  obtain ⟨hin,hnow⟩ := h.wake_hw hplan hwake
  obtain ⟨hhw,hfrac,hticks⟩ := Lapic.cidleIdleTickless_spec h.inTick
    (hasleep.possible h.inTick hwake) (hasleep.fits h.inTick) hasleep.irr
  -- nothing was pending and less than a tick was counted, so all of it is carried
  have hpending : ¬(p.sleep s.now).Pending b.toRates s.primary := by
    intro hpending
    simp only [hpending,decide_true,Bool.toNat_true] at hticks
    omega
  have hfresh : ¬(p.sleep s.now).Stale s.primary := by
    intro hstale
    exact hpending (.inl (Nat.le_trans hstale hasleep.reprogram_ge))
  have hcounted : (p.sleep s.now).counted b.toRates s.primary s.now =
      s.primary.uncredited b.toRates s.now := if_neg hfresh
  have hrounded : Lapic.rounded b.tval (s.primary.uncredited b.toRates s.now) false =
      s.primary.uncredited b.toRates s.now := if_neg (by simp)
  have hread : (p.sleep s.now).read = s.now := rfl
  simp only [hpending,decide_false,Bool.toNat_false,hread,hcounted,hrounded] at hfrac hticks
  have hshort : s.primary.uncredited b.toRates s.now < b.tval := by
    have hdiv : s.primary.uncredited b.toRates s.now / b.tval = 0 := by
      rw [hidle,Nat.max_zero] at hticks
      exact Nat.left_eq_add.mp hticks
    rcases Nat.div_eq_zero_iff.mp hdiv with hzero | hlt
    · exact absurd hzero (Nat.ne_of_gt b.tval_pos)
    · exact hlt
  rw [Nat.mod_eq_of_lt hshort] at hfrac
  constructor
  · exact hin
  · exact h.windup_le
  · have hage := h.age
    have hstarted := h.inTick.started
    have hge := h.now_ge
    simp only [hasleep.irr,Bool.toNat_false,Nat.zero_mul] at hage
    simp only [Lapic.Machine.uncredited] at hage hfrac ⊢
    rw [hfrac,hhw]
    simp only [Plan.sleep]
    omega
  · exact fun _ => hnow
  · exact nofun

end

theorem sound_tcTicktocks (n : ℕ) (hin : s.primary.InTick b.toRates) (hplan : s.plan = none)
    (hnow : s.now = s.primary.hw.now) : Sound b ((tcTicktock b)^[n + 1] s) := by
  induction n generalizing s with
  | zero => exact sound_tcTicktock hin hplan hnow
  | succ n ih =>
    obtain ⟨s',hprimary,hnow',hplan',heq⟩ := tcTicktock_eq b s
    rw [Function.iterate_succ_apply,heq]
    apply ih
    · change s'.primary.InTick b.toRates
      rw [hprimary]
      exact hin
    · exact hplan'.trans hplan
    · change s'.now = s'.primary.hw.now
      rw [hnow',hprimary,hnow]

theorem Sound.wake (h : Sound b s) (hplan : s.plan = some p) (hwake : p.reprogram ≤ s.now) :
    Sound b (s.wake b p) := by
  obtain ⟨hin,hnow⟩ := h.wake_hw hplan hwake
  have hidle := h.wake_idle hplan hwake
  have hasleep := h.asleep p hplan
  obtain ⟨-,-,hticks⟩ := Lapic.cidleIdleTickless_spec h.inTick
    (hasleep.possible h.inTick hwake) (hasleep.fits h.inTick) hasleep.irr
  unfold System.wake
  dsimp only
  cases hn : (s.primary.cidleIdleTickless b.toRates (p.sleep s.now)).cpu.ticks -
      s.primary.cpu.ticks with
  | zero => exact hidle (by omega)
  | succ n => exact sound_tcTicktocks n hin rfl hnow

section

omit [DecidableEq κ]

theorem Sound.pass_awake (h : Sound b s) (hplan : s.plan = none) {d : ℕ}
    (hd : s.now + d < s.primary.hw.nextBoundary) :
    Sound b { s with
      primary := { s.primary with hw := s.primary.hw.passTo b.toRates (s.now + d) }
      now := s.now + d } := by
  have hpass : s.primary.hw.passTo b.toRates (s.now + d) =
      { s.primary.hw with now := s.now + d } := by
    simp [Lapic.Hw.passTo,Lapic.Hw.expiry,h.inTick.periodic,Nat.not_le.mpr hd]
  have hnow := h.awake hplan
  have hstarted := h.inTick.started
  rw [hpass]
  constructor
  · exact ⟨h.inTick.periodic,by simp only; omega,hd,h.inTick.frac_lt⟩
  · exact Nat.le_trans h.windup_le (Nat.le_add_right _ _)
  · have hage := h.age
    simp only [Lapic.Machine.uncredited] at hage ⊢
    omega
  · exact fun _ => rfl
  · intro p hp
    simp [hplan] at hp

theorem Sound.pass_asleep (h : Sound b s) (hplan : s.plan = some p) {d : ℕ}
    (hd : s.now + d ≤ p.latest b.toRates) : Sound b { s with now := s.now + d } := by
  constructor
  · exact h.inTick
  · exact Nat.le_trans h.windup_le (Nat.le_add_right _ _)
  · exact h.age
  · intro hnone
    simp [hplan] at hnone
  · intro p' hp
    obtain rfl : p = p' := Option.some.inj (hplan.symm.trans hp)
    have hasleep := h.asleep p hplan
    exact { hasleep with
      now_ge := Nat.le_trans hasleep.now_ge (Nat.le_add_right _ _)
      now_le := hd }

theorem Sound.expire (h : Sound b s) (hplan : s.plan = none) (hirr : s.primary.hw.irr = false) :
    Sound b { s with
      primary := { s.primary with hw := s.primary.hw.passTo b.toRates s.primary.hw.nextBoundary }
      now := s.primary.hw.nextBoundary } := by
  have hpass : s.primary.hw.passTo b.toRates s.primary.hw.nextBoundary =
      ⟨s.primary.hw.nextBoundary,s.primary.hw.nextBoundary + b.tval,s.primary.hw.deadline,true,
        false⟩ := by
    simp [Lapic.Hw.passTo,Lapic.Hw.expiry,h.inTick.periodic]
  have hnow := h.awake hplan
  have hstarted := h.inTick.started
  have hwindup := h.windup_le
  have hrunning := h.inTick.running
  rw [hpass]
  constructor
  · exact ⟨rfl,Nat.le_refl _,by simpa using b.tval_pos,h.inTick.frac_lt⟩
  · simp only
    omega
  · have hage := h.age
    simp only [hirr,Bool.toNat_false,Bool.toNat_true,Lapic.Machine.uncredited] at hage ⊢
    omega
  · exact fun _ => rfl
  · intro p hp
    simp [hplan] at hp

end

/-- A windup on another CPU puts in force only what the sleep of the primary CPU leaves room
for. -/
def Event.Clear (b : Board κ ν) (s : System κ ν) : Event κ ν → Prop
  | .setclock _ => s.Bounded b s.clock.timecounter
  | .init k quality => (s.enlist b k quality).Prefers b k → s.Bounded b k
  | .detach k => s.clock.timecounter = k →
    s.Bounded b (System.tcPick b { s with counters := s.counters.erase k }).clock.timecounter
  | .pass _ | .expire | .serve | .sleep _ _ _ | .wake | .sysctl _ | .gonebad _ => True

instance (b : Board κ ν) (s : System κ ν) : ∀ e : Event κ ν, Decidable (e.Clear b s)
  | .setclock _ => inferInstanceAs (Decidable (s.Bounded b _))
  | .init _ _ | .detach _ => inferInstanceAs (Decidable (_ → s.Bounded b _))
  | .pass _ | .expire | .serve | .sleep _ _ _ | .wake | .sysctl _ | .gonebad _ => isTrue trivial

theorem Sound.init (h : Sound b s) {quality : ℤ} (hclear : Event.Clear b s (.init k quality)) :
    Sound b (s.tcInit b k quality) := by
  unfold tcInit
  dsimp only
  split
  · rename_i hprefers
    exact Sound.windup (h.congr rfl rfl rfl rfl rfl) (hclear hprefers)
  · exact h.congr rfl rfl rfl rfl rfl

theorem Sound.detach (h : Sound b s) (hclear : Event.Clear b s (.detach k)) :
    Sound b (s.tcDetach b k) := by
  unfold tcDetach
  dsimp only
  split
  · rename_i hk
    have hbounded := hclear hk
    obtain ⟨j,hj⟩ := tcPick_eq b { s with counters := s.counters.erase k }
    rw [hj] at hbounded ⊢
    exact Sound.windup (h.congr rfl rfl rfl rfl rfl) hbounded
  · exact h.congr rfl rfl rfl rfl rfl

theorem Sound.step (s : System κ ν) (e : Event κ ν) (t : System κ ν) (h : Sound b s)
    (hclear : e.Clear b s) (hstep : step b s e = some t) : Sound b t := by
  cases e with
  | pass d =>
    simp only [System.step] at hstep
    split at hstep <;> rename_i hplan
    · obtain ⟨hd,rfl⟩ := of_guard hstep
      exact h.pass_awake hplan hd
    · obtain ⟨hd,rfl⟩ := of_guard hstep
      exact h.pass_asleep hplan hd
  | expire =>
    obtain ⟨hidle,rfl⟩ := of_unless hstep
    obtain ⟨hplan,hirr⟩ := not_or.mp hidle
    exact h.expire (not_isSome_iff_eq_none.mp hplan) (Bool.not_eq_true _ ▸ hirr)
  | serve =>
    obtain ⟨⟨hplan,hirr⟩,rfl⟩ := of_guard hstep
    have hplan := isNone_iff_eq_none.mp hplan
    have henable : s.primary.enableIntr b.toRates =
        ⟨{ s.primary.hw with irr := false },Lapic.lapicClockintr b.tval s.primary.cpu⟩ :=
      if_pos hirr
    rw [henable]
    have hin := h.inTick
    exact sound_tcTicktock ⟨hin.periodic,hin.started,hin.running,hin.frac_lt⟩ hplan
      (h.awake hplan)
  | sleep c sample reprogram =>
    obtain ⟨⟨hplan,hirr,hskip,hsample,hreprogram,hlt⟩,⟨⟩⟩ :=
      ite_none_right_eq_some.mp hstep
    have hmin := b.minskip_ge
    have hmax := cidleSkip_le c (tcMaxWindupTicks b s.clock)
    exact h.sleep (isNone_iff_eq_none.mp hplan) hirr (by omega) (by omega) hsample
      hreprogram hlt
  | wake =>
    simp only [System.step] at hstep
    split at hstep <;> rename_i hplan
    · simp at hstep
    · obtain ⟨hwake,rfl⟩ := of_guard hstep
      exact h.wake hplan hwake
  | sysctl k =>
    obtain ⟨-,rfl⟩ := of_guard hstep
    exact h.congr rfl rfl rfl rfl rfl
  | setclock base =>
    obtain ⟨⟩ := hstep
    exact Sound.windup (h.congr rfl rfl rfl rfl rfl) hclear
  | init k quality =>
    obtain ⟨-,rfl⟩ := of_unless hstep
    exact h.init hclear
  | detach k =>
    obtain ⟨-,rfl⟩ := of_guard hstep
    exact h.detach hclear
  | gonebad k =>
    obtain ⟨⟩ := hstep
    exact h.congr rfl rfl rfl rfl rfl

structure Boot (b : Board κ ν) (s : System κ ν) : Prop where
  primary_eq : s.primary = Lapic.boot b.toRates
  now_eq : s.now = 0
  plan_eq : s.plan = none
  windupAt_eq : s.windupAt = 0

omit [DecidableEq κ] in
theorem Boot.sound (h : Boot b s) : Sound b s := by
  constructor
  · rw [h.primary_eq]
    exact Lapic.boot_inTick b.toRates
  · simp [h.windupAt_eq]
  · simp [h.primary_eq,Lapic.boot]
  · simp [h.now_eq,h.primary_eq,Lapic.boot]
  · simp [h.plan_eq]

/-- If no windup on another CPU puts a counter in force that wraps before the end of the primary
CPU's sleep, unplanned for it, a counter in force that takes three ticks to count through its mask
has not wrapped since the last windup. -/
theorem advance_below_wrap (hboot : Boot b s) {es : List (Event κ ν)}
    (hclear : Along (step b) (fun s e => e.Clear b s) s es) (hrun : exec (step b) s es = some t)
    (hroomy : (b.tc t.clock.hands.counter).frequency * 3 ≤
      (b.tc t.clock.hands.counter).mask * b.hz) :
    t.advance b < (b.tc t.clock.hands.counter).mask + 1 := by
  have h := exec_invariant_along (Sound b) Sound.step hboot.sound hclear hrun
  exact Nat.lt_succ_of_le (h.advance_le hroomy)

/-- A machine with a timer of 24 MHz, ticks of 10 ms, and two counters: an HPET and one of
24 bits at 50 MHz, which wraps in 33 ticks. -/
def board : Board Bool Unit where
  tval := 240000
  lapicPerSecond := 24000000
  ratio := 100
  tval_pos := by decide
  tval_le := by decide
  lapicPerSecond_pos := by decide
  ratio_pos := by decide
  product_le := by decide
  hz := 100
  tc
    | false => .wide 14318180 (by decide)
    | true => .narrow 50000000 (by decide)
  phase := fun _ => 0
  update := fun _ adjustment sec => ((),adjustment,sec)
  minskip := 4
  hz_lt := by decide
  tick_le := by decide
  ratio_le := by decide
  minskip_ge := by decide

def started (counters : List Bool) : System Bool Unit where
  primary := Lapic.boot board.toRates
  now := 0
  plan := none
  clock := ⟨⟨false,0,scaleOf 0 14318180,0,⟨1,0⟩,0⟩,false,⟨0,0⟩,()⟩
  windupAt := 0
  counters := counters
  quality := fun _ => 1000
  bad := false

theorem started_boot (counters : List Bool) : Boot board (started counters) :=
  ⟨rfl,rfl,rfl,rfl⟩

/-- A wake that credits nothing, the fast counter selected and put in force by the next tick, and a
sleep under its bound. -/
def fastRun : List (Event Bool Unit) :=
  [.sleep ⟨100,0,100⟩ 0 0,.pass 100000,.sysctl true,.wake,.expire,.serve,
    .sleep ⟨100,0,100⟩ 340000 340000,.pass (16 * 240000)]

theorem advance_below_wrap_fastRun :
    ∃ t, exec (step board) (started [true,false]) fastRun = some t ∧
    t.clock.hands.counter = true ∧ t.advance board < 2^24 := by
  have hrun := (some_get (x := exec (step board) (started [true,false]) fastRun)
    (by decide +kernel)).symm
  exact ⟨_,hrun,by decide +kernel,
    advance_below_wrap (started_boot _) (by decide +kernel) hrun (by decide +kernel)⟩

/-- A better counter that attaches while the primary CPU sleeps for a second turns over before the
CPU wakes. -/
theorem init_under_sleep_wraps : (exec (step board) (started [false])
      [.sleep ⟨100,0,100⟩ 0 0,.pass 240000,.init true 2000,.pass (99 * 240000)]).map
        (fun t => (t.clock.hands.counter,decide (2^24 ≤ t.advance board))) =
    some (true,true) := by
  decide +kernel

end System
end NanoBSD.Timecounter
