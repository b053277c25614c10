import NanoBSD.Lpschedd.Daemon

/-! # The order of the package power limits

PL1 caps what the machine does for long and PL2 what it does for a moment, so PL2 should
never be below PL1. The daemon sees to it by the order of its writes: PL1 goes down
first on the way to battery, PL2 goes up first on the way back and at exit. That rests
on the first write of each pair, whose outcome it does not look at, and on PL1 being
among the limits it keeps.
-/
namespace NanoBSD.Lpschedd
variable (c : Conf) {mw : ℤ}

/-! ## Steps of the register -/

theorem hwpRawToMw_eq (raw : ℕ) : hwpRawToMw raw = 125 * raw := by
  unfold hwpRawToMw Hwp.hwpRawToMw
  omega

theorem hwpMwToRaw_eq (mw : ℤ) : hwpMwToRaw mw = (mw.toNat * 8 + 500) / 1000 := rfl

theorem hwpMwToRaw_hwpRawToMw (raw : ℕ) : hwpMwToRaw (hwpRawToMw raw) = raw := by
  rw [hwpRawToMw_eq,hwpMwToRaw_eq]
  omega

theorem hwpMwToRaw_le {raw : ℕ} (h : mw ≤ hwpRawToMw raw) : hwpMwToRaw mw ≤ raw := by
  rw [hwpRawToMw_eq] at h
  rw [hwpMwToRaw_eq]
  omega

def Near (x y : ℤ) : Prop := y - 125 < x ∧ x < y + 125

theorem near_hwpMwToRaw (h : 0 ≤ mw) : Near (hwpRawToMw (hwpMwToRaw mw)) mw := by
  rw [hwpRawToMw_eq,hwpMwToRaw_eq]
  constructor <;> omega

theorem eq_of_near {a b : ℕ} (h : Near (hwpRawToMw a) (hwpRawToMw b)) : a = b := by
  rw [hwpRawToMw_eq,hwpRawToMw_eq] at h
  obtain ⟨h1,h2⟩ := h
  omega

/-! ## What changes the register -/
section Writes
variable {c} {boot : Register} {w : World} {fails : Bool} {val : ℤ}

def Same (w w' : World) : Prop := w'.reg = w.reg ∧ w'.past = w.past
theorem Same.refl (w : World) : Same w w := ⟨rfl,rfl⟩

theorem Same.trans {w₁ w₂ w₃ : World} (h : Same w₁ w₂) (h' : Same w₂ w₃) : Same w₁ w₃ :=
  ⟨h'.1.trans h.1,h'.2.trans h.2⟩

theorem setKnob_same (fails : Bool) (turn : Knobs → Knobs) (w : World) :
    Same w (setKnob c fails turn w) := by
  unfold setKnob
  split_ifs
  · exact .refl w
  · exact ⟨rfl,rfl⟩

theorem verifyEpp_same (fails : Call → Bool) (hw : ℤ) (cur : Option Profile) (w : World) :
    Same w (verifyEpp c fails hw cur w) := by
  cases cur with
  | none => exact .refl w
  | some p =>
    show Same w (if fails .getEppHw then w else _)
    split_ifs
    · exact .refl w
    · exact .refl w
    · exact setKnob_same ..

theorem applyProfile_same (fails : Call → Bool) (p : Profile) (w : World) :
    Same w (applyProfile c fails p w) :=
  ((setKnob_same ..).trans (setKnob_same ..)).trans (setKnob_same ..)

theorem restoreKnobs_same (fails : Call → Bool) (w : World) : Same w (restoreKnobs c fails w) :=
  (((setKnob_same ..).trans (setKnob_same ..)).trans (setKnob_same ..)).trans (setKnob_same ..)

theorem shift_same (d : Daemon) (x : Sample) (want : Profile) :
    Same d.world (d.shift c x want).world := by
  unfold Daemon.shift
  split
  · exact applyProfile_same ..
  · split_ifs
    · exact applyProfile_same ..
    · exact .refl _
    · exact applyProfile_same ..
    · exact .refl _
    · exact .refl _

theorem latches_same (d : Daemon) (x : Sample) : Same d.world (d.latches c x).world := by
  unfold Daemon.latches
  split_ifs <;> exact .refl _

theorem check_same (d : Daemon) (x : Sample) :
    Same (if d.due x then applyPl c x.fails (d.acNext x) d.world else d.world)
      (d.check c x).world := by
  unfold Daemon.check
  split_ifs
  · exact verifyEpp_same ..
  · exact .refl _

theorem pass_same (d : Daemon) (x : Sample) :
    Same (if d.due x then applyPl c x.fails (d.acNext x) d.world else d.world) (d.pass c x).world :=
  ((check_same d x).trans (latches_same ..)).trans (shift_same ..)

theorem hwpSysctlPl_eq (r : Register) (field : Pl) (val : ℤ) : hwpSysctlPl r field val =
      if r.lock = false ∧ 3000 ≤ val ∧ val ≤ 64000 then some (r.put field val) else none := by
  unfold hwpSysctlPl
  by_cases hok : r.lock = false ∧ 3000 ≤ val ∧ val ≤ 64000
  · rw [if_pos hok,if_neg (by simp [hok.1]),if_neg (by omega)]
  · rw [if_neg hok]
    split_ifs with hlock hval
    · rfl
    · rfl
    · exact absurd ⟨Bool.not_eq_true _ ▸ hlock,by omega,by omega⟩ hok

theorem setPl_cases (fails : Bool) (field : Pl) (val : ℤ) (w : World) :
    setPl c fails field val w = w ∨
    c.dryrun = false ∧ 3000 ≤ val ∧
      setPl c fails field val w = { w with reg := w.reg.put field val, past := w.reg :: w.past } := by
  unfold setPl
  rw [hwpSysctlPl_eq]
  split_ifs with hskip hok
  · exact .inl rfl
  · exact .inr ⟨Bool.eq_false_iff.mpr fun h => hskip (.inl h),hok.2.1,rfl⟩
  · exact .inl rfl

theorem setPl_of_succeeds {field : Pl} (hdry : c.dryrun = false)
    (h : setSucceeds c fails w.reg field val) :
    setPl c fails field val w = { w with reg := w.reg.put field val, past := w.reg :: w.past } := by
  obtain h | ⟨hfails,hsome⟩ := h
  · exact absurd h (by simp [hdry])
  · rw [hwpSysctlPl_eq] at hsome
    unfold setPl
    rw [hwpSysctlPl_eq]
    split_ifs at hsome with hok
    · rw [if_neg (by simp [hdry,hfails]),if_pos hok]
    · cases hsome

end Writes

/-! ## Limits that are left alone -/
section Kept
variable {c} {boot : Register} {w w' : World} {fails : Bool}

theorem applyPl2_cases (fails : Call → Bool) (ac : Option Bool) (want : ℤ) (w : World) :
    applyPl2 c fails ac want w = w ∧
      (c.keeps .pl2 = false ∨ fails .getPl2 ∨ Near (w.reg.mw .pl2) (want2 c ac want)) ∨
    c.keeps .pl2 ∧ applyPl2 c fails ac want w =
      setPl c (fails .setPl2) .pl2 (want2 c ac want) w := by
  unfold applyPl2
  by_cases hkeeps : c.keeps .pl2
  · rw [if_neg (by simp [hkeeps])]
    dsimp only
    split_ifs with hget hnear
    · exact .inl ⟨rfl,.inr (.inl hget)⟩
    · exact .inl ⟨rfl,.inr (.inr hnear)⟩
    · exact .inr ⟨hkeeps,rfl⟩
  · rw [if_pos (by simp [hkeeps])]
    exact .inl ⟨rfl,.inl (Bool.not_eq_true _ ▸ hkeeps)⟩

theorem applyPl1_cases (fails : Call → Bool) (want : ℤ) (w : World) :
    applyPl1 c fails want w = w ∧ Near (w.reg.mw .pl1) want ∨
    applyPl1 c fails want w = setPl c (fails .setPl1) .pl1 want w := by
  unfold applyPl1
  dsimp only
  generalize (if fails .getPl1Enabled then true else w.reg.pl1Enable) = en
  split_ifs with hwrite
  · exact .inr rfl
  · exact .inl ⟨rfl,by omega,by omega⟩

/-- A limit that the daemon does not keep, or only pretends to write, is as it was. -/
structure Kept (c : Conf) (boot : Register) (w : World) : Prop where
  lock : w.reg.lock = boot.lock
  pl1 : c.dryrun ∨ c.keeps .pl1 = false → w.reg.pl1 = boot.pl1
  pl2 : c.dryrun ∨ c.keeps .pl2 = false → w.reg.pl2 = boot.pl2

section
variable (h : Kept c boot w)
include h

theorem Kept.same (hsame : Same w w') : Kept c boot w' := by
  obtain ⟨hlock,hpl1,hpl2⟩ := h
  rw [← hsame.1] at hlock hpl1 hpl2
  exact ⟨hlock,hpl1,hpl2⟩

theorem Kept.setPl {field : Pl} (hkeeps : c.keeps field) (fails : Bool)
    (val : ℤ) : Kept c boot (setPl c fails field val w) := by
  obtain heq | ⟨hdry,-,heq⟩ := setPl_cases (c := c) fails field val w
  · exact heq.symm ▸ h
  · rw [heq]
    have hnot : ¬(c.dryrun ∨ c.keeps field = false) := by simp [hdry,hkeeps]
    cases field with
    | pl1 => exact ⟨h.lock,fun h' => absurd h' hnot,h.pl2⟩
    | pl2 => exact ⟨h.lock,h.pl1,fun h' => absurd h' hnot⟩

theorem Kept.applyPl2 (fails : Call → Bool) (ac : Option Bool) (want : ℤ) :
    Kept c boot (applyPl2 c fails ac want w) := by
  obtain ⟨heq,-⟩ | ⟨hkeeps,heq⟩ := applyPl2_cases (c := c) fails ac want w
  · exact heq.symm ▸ h
  · exact heq.symm ▸ h.setPl hkeeps _ _

theorem Kept.applyPl1 (hkeeps : c.keeps .pl1) (fails : Call → Bool) (want : ℤ) :
    Kept c boot (applyPl1 c fails want w) := by
  obtain ⟨heq,-⟩ | heq := applyPl1_cases (c := c) fails want w
  · exact heq.symm ▸ h
  · exact heq.symm ▸ h.setPl hkeeps _ _

theorem Kept.applyPl (fails : Call → Bool) (ac : Option Bool) :
    Kept c boot (applyPl c fails ac w) := by
  unfold Lpschedd.applyPl
  split_ifs with hkeeps
  · exact h.applyPl2 fails ac 0
  · exact h
  · exact (h.applyPl1 (by simpa using hkeeps) fails _).applyPl2 fails ac _
  · exact h.applyPl2 fails ac _
  · exact (h.applyPl2 fails ac _).applyPl1 (by simpa using hkeeps) fails _

theorem Kept.restorePl (fails : Bool) (field : Pl) (val : ℤ) :
    Kept c boot (restorePl c fails field val w) := by
  unfold Lpschedd.restorePl
  split_ifs with hkeeps
  · exact h.setPl hkeeps _ _
  · exact h

end

theorem Kept.step {d d' : Daemon} {e : Event} (h : Kept c boot d.world)
    (hstep : step c d e = some d') : Kept c boot d'.world := by
  cases e with
  | pass x =>
    obtain ⟨-,rfl⟩ := of_unless hstep
    refine Kept.same ?_ (pass_same d x)
    split_ifs
    · exact h.applyPl x.fails _
    · exact h
  | quit fails =>
    obtain ⟨-,rfl⟩ := of_unless hstep
    exact ((h.same (restoreKnobs_same fails d.world)).restorePl _ _ _).restorePl _ _ _

structure Knows (c : Conf) (boot : Register) : Prop where
  boot1 : c.keeps .pl1 → c.pl1Boot = boot.mw .pl1
  boot2 : c.keeps .pl2 → c.pl2Boot = boot.mw .pl2

theorem readBoot_knows (boot : Register) (fails1 fails2 : Bool) :
    Knows (c.readBoot boot fails1 fails2) boot := by
  constructor <;> intro hkeeps <;> have hpos := (of_decide_eq_true hkeeps).2 <;>
    unfold Conf.readBoot at hpos ⊢ <;> dsimp only at hpos ⊢ <;> split_ifs at hpos ⊢
  · rfl
  · exact absurd hpos (Int.lt_irrefl 0)
  · rfl
  · exact absurd hpos (Int.lt_irrefl 0)

theorem restorePl2_eq (hknows : Knows c boot) (hkept : Kept c boot w)
    (hok : c.keeps .pl2 → setSucceeds c fails w.reg .pl2 c.pl2Boot) :
    (restorePl c fails .pl2 c.pl2Boot w).reg.pl2 = boot.pl2 := by
  by_cases hidle : c.dryrun ∨ c.keeps .pl2 = false
  · exact (hkept.restorePl fails .pl2 c.pl2Boot).pl2 hidle
  · obtain ⟨hdry,hkeeps⟩ := not_or.mp hidle
    replace hkeeps : c.keeps .pl2 = true := Bool.not_eq_false _ ▸ hkeeps
    rw [restorePl,if_pos hkeeps,setPl_of_succeeds (Bool.not_eq_true _ ▸ hdry) (hok hkeeps),
      hknows.boot2 hkeeps]
    exact hwpMwToRaw_hwpRawToMw boot.pl2

theorem restorePl1_eq (hknows : Knows c boot) (hkept : Kept c boot w)
    (hok : c.keeps .pl1 → setSucceeds c fails w.reg .pl1 c.pl1Boot) :
    (restorePl c fails .pl1 c.pl1Boot w).reg.pl1 = boot.pl1 := by
  by_cases hidle : c.dryrun ∨ c.keeps .pl1 = false
  · exact (hkept.restorePl fails .pl1 c.pl1Boot).pl1 hidle
  · obtain ⟨hdry,hkeeps⟩ := not_or.mp hidle
    replace hkeeps : c.keeps .pl1 = true := Bool.not_eq_false _ ▸ hkeeps
    rw [restorePl,if_pos hkeeps,setPl_of_succeeds (Bool.not_eq_true _ ▸ hdry) (hok hkeeps),
      hknows.boot1 hkeeps]
    exact hwpMwToRaw_hwpRawToMw boot.pl1

theorem restorePl1_pl2 (fails : Bool) (val : ℤ) (w : World) :
    (restorePl c fails .pl1 val w).reg.pl2 = w.reg.pl2 := by
  unfold restorePl
  split_ifs
  · obtain heq | ⟨-,-,heq⟩ := setPl_cases (c := c) fails .pl1 val w
    · rw [heq]
    · rw [heq]
      rfl
  · rfl

theorem cleanup_restores (hknows : Knows c boot) (hkept : Kept c boot w) {fails : Call → Bool}
    (hok : cleanupSucceeds c fails w) :
    (cleanup c fails w).reg.pl1 = boot.pl1 ∧ (cleanup c fails w).reg.pl2 = boot.pl2 := by
  have hsame := restoreKnobs_same (c := c) fails w
  have hkept' := hkept.same hsame
  refine ⟨restorePl1_eq hknows (hkept'.restorePl _ _ _) hok.2,?_⟩
  unfold cleanup
  rw [restorePl1_pl2]
  exact restorePl2_eq hknows hkept' fun hkeeps => hsame.1.symm ▸ hok.1 hkeeps

end Kept

/-! ## The order of the limits -/
section Order
variable {c} {boot : Register} {w w' : World}

/-- The limits the daemon wants on battery. -/
def low1 (c : Conf) : ℤ := want1 c (some false)

@[inherit_doc low1]
def low2 (c : Conf) : ℤ := want2 c (some false) (if c.keeps .pl1 then low1 c else 0)

/-- The boot values are in order, and the daemon knows them. -/
structure Fits (c : Conf) (boot : Register) : Prop extends Knows c boot where
  ordered : boot.pl1 ≤ boot.pl2

theorem Fits.mw_le (hfits : Fits c boot) : boot.mw .pl1 ≤ boot.mw .pl2 := by
  have hle := hfits.ordered
  show hwpRawToMw boot.pl1 ≤ hwpRawToMw boot.pl2
  rw [hwpRawToMw_eq,hwpRawToMw_eq]
  omega

def Ample (c : Conf) (boot : Register) : Prop := boot.mw .pl1 ≤ low2 c

/-- The register is open, PL1 is kept along with PL2, and the module takes the PL1 of
battery and the PL2 of boot. -/
structure Tame (c : Conf) (boot : Register) : Prop where
  keeps : c.keeps .pl1
  lock : boot.lock = false
  low : 3000 ≤ low1 c
  high : boot.mw .pl2 ≤ 64000

/-- The calls that the order of the writes rests on do not fail: PL1's write on battery,
and PL2's read and write elsewhere. -/
def Heeded (d : Daemon) : Event → Prop
  | .pass x =>
    if onBattery (d.acNext x) then x.fails .setPl1 = false
    else x.fails .getPl2 = false ∧ x.fails .setPl2 = false
  | .quit fails => fails .setPl2 = false

/-- PL1 is at most its boot value; PL2 is at its boot value, or both are at those of battery, unless
there is room for any PL1. -/
structure Held (c : Conf) (boot : Register) (w : World) : Prop where
  pl1 : w.reg.pl1 ≤ boot.pl1
  pl2 : w.reg.pl2 = boot.pl2 ∨ Near (w.reg.mw .pl2) (low2 c) ∧
    (Ample c boot ∨ c.keeps .pl1 ∧ Near (w.reg.mw .pl1) (low1 c))
  past : ∀ r ∈ w.past, Ordered r

theorem Held.same (h : Held c boot w) (hsame : Same w w') : Held c boot w' := by
  obtain ⟨hpl1,hpl2,hpast⟩ := h
  rw [← hsame.1] at hpl1 hpl2
  rw [← hsame.2] at hpast
  exact ⟨hpl1,hpl2,hpast⟩

theorem le_want2 (ac : Option Bool) (want : ℤ) : want ≤ want2 c ac want := by
  unfold want2
  dsimp only
  split_ifs <;> omega

theorem Held.ordered (hfits : Fits c boot) (h : Held c boot w) : Ordered w.reg := by
  have hboot := hfits.ordered
  have hpl1 := h.pl1
  unfold Ordered
  show hwpRawToMw w.reg.pl1 ≤ hwpRawToMw w.reg.pl2 + 125
  obtain heq | ⟨hnear,hroom⟩ := h.pl2
  · rw [hwpRawToMw_eq,hwpRawToMw_eq,heq]
    omega
  · replace hnear : Near (hwpRawToMw w.reg.pl2) (low2 c) := hnear
    rw [hwpRawToMw_eq] at hnear ⊢
    rw [hwpRawToMw_eq]
    obtain ⟨hlow,-⟩ := hnear
    obtain hample | ⟨hkeeps,hnear1⟩ := hroom
    · replace hample : hwpRawToMw boot.pl1 ≤ low2 c := hample
      rw [hwpRawToMw_eq] at hample
      omega
    · replace hnear1 : Near (hwpRawToMw w.reg.pl1) (low1 c) := hnear1
      rw [hwpRawToMw_eq] at hnear1
      obtain ⟨-,hhigh⟩ := hnear1
      have hle : low1 c ≤ low2 c := by
        unfold low2
        rw [if_pos hkeeps]
        exact le_want2 _ _
      omega

theorem want1_bounds (hkeeps : c.keeps .pl1) (ac : Option Bool) :
    0 < want1 c ac ∧ want1 c ac ≤ c.pl1Boot := by
  obtain ⟨hbat,hboot⟩ := of_decide_eq_true hkeeps
  unfold want1
  split_ifs <;> omega

variable {ac : Option Bool}

theorem want1_ac (h : onBattery ac = false) : want1 c ac = c.pl1Boot := by
  unfold want1
  rw [if_neg (by simp [h])]

variable {want : ℤ}

theorem want2_ac (h : onBattery ac = false) (hle : want ≤ c.pl2Boot) :
    want2 c ac want = c.pl2Boot := by
  simp only [want2,h,Bool.false_eq_true,if_false]
  exact if_neg (Int.not_lt.mpr hle)

theorem Held.setPl1 (hfits : Fits c boot) (h : Held c boot w) (hkeeps : c.keeps .pl1)
    (hle : want ≤ c.pl1Boot) (hpos : 0 ≤ want)
    (hroom : c.dryrun = false → w.reg.pl2 = boot.pl2 ∨ Ample c boot ∨ want = low1 c)
    (fails : Bool) :
    Held c boot (setPl c fails .pl1 want w) := by
  obtain heq | ⟨hdry,-,heq⟩ := setPl_cases (c := c) fails .pl1 want w
  · exact heq.symm ▸ h
  · rw [heq]
    refine ⟨hwpMwToRaw_le ?_,?_,?_⟩
    · show want ≤ boot.mw .pl1
      rw [← hfits.boot1 hkeeps]
      exact hle
    · obtain hboot | ⟨hnear,-⟩ := h.pl2
      · exact .inl hboot
      · obtain hboot | hample | rfl := hroom hdry
        · exact .inl hboot
        · exact .inr ⟨hnear,.inl hample⟩
        · exact .inr ⟨hnear,.inr ⟨hkeeps,near_hwpMwToRaw hpos⟩⟩
    · exact List.forall_mem_cons.mpr ⟨h.ordered hfits,h.past⟩

theorem Held.setPl2 (hfits : Fits c boot) (h : Held c boot w) (hpos : 0 ≤ want)
    (hroom : c.dryrun = false → want = boot.mw .pl2 ∨ want = low2 c ∧
      (Ample c boot ∨ c.keeps .pl1 ∧ Near (w.reg.mw .pl1) (low1 c))) (fails : Bool) :
    Held c boot (setPl c fails .pl2 want w) := by
  obtain heq | ⟨hdry,-,heq⟩ := setPl_cases (c := c) fails .pl2 want w
  · exact heq.symm ▸ h
  · rw [heq]
    refine ⟨h.pl1,?_,List.forall_mem_cons.mpr ⟨h.ordered hfits,h.past⟩⟩
    obtain rfl | ⟨rfl,hlow⟩ := hroom hdry
    · exact .inl (hwpMwToRaw_hwpRawToMw boot.pl2)
    · exact .inr ⟨near_hwpMwToRaw hpos,hlow⟩

theorem Held.applyPl1_battery (hfits : Fits c boot) (h : Held c boot w) (hkeeps : c.keeps .pl1)
    (fails : Call → Bool) : Held c boot (applyPl1 c fails (low1 c) w) := by
  obtain ⟨heq,-⟩ | heq := applyPl1_cases (c := c) fails (low1 c) w
  · exact heq.symm ▸ h
  · have hbounds := want1_bounds hkeeps (some false)
    rw [heq]
    exact h.setPl1 hfits hkeeps hbounds.2 (Int.le_of_lt hbounds.1) (fun _ => .inr (.inr rfl)) _

variable {fails : Call → Bool}

section
variable (hfits : Fits c boot)
include hfits

theorem near_applyPl1 (htame : Tame c boot) (hdry : c.dryrun = false)
    (hlock : w.reg.lock = boot.lock) (hset : fails .setPl1 = false) :
    Near ((applyPl1 c fails (low1 c) w).reg.mw .pl1) (low1 c) := by
  obtain ⟨heq,hnear⟩ | heq := applyPl1_cases (c := c) fails (low1 c) w
  · rw [heq]
    exact hnear
  · obtain ⟨hpos,hle⟩ := want1_bounds htame.keeps (some false)
    have hboot := hfits.mw_le
    have hhigh : low1 c ≤ 64000 := by
      have h1 := hfits.boot1 htame.keeps
      have h2 := htame.high
      unfold low1
      omega
    have hok : setSucceeds c (fails .setPl1) w.reg .pl1 (low1 c) := by
      refine .inr ⟨hset,?_⟩
      rw [hwpSysctlPl_eq,if_pos ⟨hlock.trans htame.lock,htame.low,hhigh⟩]
      rfl
    rw [heq,setPl_of_succeeds hdry hok]
    exact near_hwpMwToRaw (Int.le_of_lt hpos)

theorem Held.applyPl2_battery (h : Held c boot w) (fails : Call → Bool)
    (hroom : c.dryrun = false → c.keeps .pl2 →
      Ample c boot ∨ c.keeps .pl1 ∧ Near (w.reg.mw .pl1) (low1 c)) :
    Held c boot (applyPl2 c fails (some false) (if c.keeps .pl1 then low1 c else 0) w) := by
  obtain ⟨heq,-⟩ | ⟨hkeeps,heq⟩ := applyPl2_cases (c := c) fails (some false)
    (if c.keeps .pl1 then low1 c else 0) w
  · exact heq.symm ▸ h
  · rw [heq]
    refine h.setPl2 hfits (Int.le_trans ?_ (le_want2 _ _)) (fun hdry => .inr ⟨rfl,hroom hdry hkeeps⟩) _
    split_ifs with h1
    · exact Int.le_of_lt (want1_bounds h1 _).1
    · exact Int.le_refl 0

theorem Held.applyPl2_ac (h : Held c boot w) (hac : onBattery ac = false)
    (hle : want ≤ boot.mw .pl2) (fails : Call → Bool) :
    Held c boot (applyPl2 c fails ac want w) := by
  obtain ⟨heq,-⟩ | ⟨hkeeps,heq⟩ := applyPl2_cases (c := c) fails ac want w
  · exact heq.symm ▸ h
  · have hboot := hfits.boot2 hkeeps
    have hpos := (of_decide_eq_true hkeeps).2
    rw [heq,want2_ac hac (hboot ▸ hle)]
    exact h.setPl2 hfits (Int.le_of_lt hpos) (fun _ => .inl hboot) _

theorem setPl2_boot (htame : Tame c boot) (hdry : c.dryrun = false) (hkeeps : c.keeps .pl2)
    (hlock : w.reg.lock = boot.lock) :
    (setPl c false .pl2 c.pl2Boot w).reg.pl2 = boot.pl2 := by
  have hboot := hfits.boot2 hkeeps
  have hlow : 3000 ≤ boot.mw .pl2 := by
    have hle := (want1_bounds htame.keeps (some false)).2
    have h1 := hfits.boot1 htame.keeps
    have h2 := hfits.mw_le
    have h3 : 3000 ≤ want1 c (some false) := htame.low
    omega
  have hok : setSucceeds c false w.reg .pl2 c.pl2Boot := by
    refine .inr ⟨rfl,?_⟩
    rw [hwpSysctlPl_eq,hboot,if_pos ⟨hlock.trans htame.lock,hlow,htame.high⟩]
    rfl
  rw [setPl_of_succeeds hdry hok,hboot]
  exact hwpMwToRaw_hwpRawToMw boot.pl2

theorem applyPl2_ac_boot (htame : Tame c boot) (hdry : c.dryrun = false) (hkept : Kept c boot w)
    (hget : fails .getPl2 = false) (hset : fails .setPl2 = false) (hac : onBattery ac = false)
    (hle : want ≤ boot.mw .pl2) : (applyPl2 c fails ac want w).reg.pl2 = boot.pl2 := by
  by_cases hkeeps : c.keeps .pl2
  · have hboot := hfits.boot2 hkeeps
    have hwant : want2 c ac want = c.pl2Boot := want2_ac hac (hboot ▸ hle)
    obtain ⟨heq,hno | hno | hnear⟩ | ⟨-,heq⟩ := applyPl2_cases (c := c) fails ac want w
    · exact absurd hkeeps (by simp [hno])
    · exact absurd hno (by simp [hget])
    · rw [heq]
      rw [hwant,hboot] at hnear
      exact eq_of_near hnear
    · rw [heq,hset,hwant]
      exact setPl2_boot hfits htame hdry hkeeps hkept.lock
  · have hno : c.keeps .pl2 = false := Bool.not_eq_true _ ▸ hkeeps
    obtain ⟨heq,-⟩ | ⟨hyes,-⟩ := applyPl2_cases (c := c) fails ac want w
    · exact heq.symm ▸ hkept.pl2 (.inr hno)
    · exact absurd hyes hkeeps

end

/-- There is room for any PL1: nothing is written, PL2 is left alone, or it is ample. -/
def Roomy (c : Conf) (boot : Register) : Prop := c.dryrun ∨ c.keeps .pl2 = false ∨ Ample c boot

/-- Where PL2 is written at all there is room by its value, or the setting is tame. -/
theorem Roomy.ample {Q : Prop} (h : Roomy c boot ∨ Q) (hdry : c.dryrun = false)
    (hkeeps : c.keeps .pl2) : Ample c boot ∨ Q := by
  obtain (hr | hr | hr) | hq := h
  · exact absurd hr (by simp [hdry])
  · exact absurd hkeeps (by simp [hr])
  · exact .inl hr
  · exact .inr hq

theorem Held.applyPl_battery (hfits : Fits c boot) (hkept : Kept c boot w) (h : Held c boot w)
    (hset : Roomy c boot ∨ Tame c boot ∧ fails .setPl1 = false) :
    Held c boot (applyPl c fails (some false) w) := by
  unfold Lpschedd.applyPl
  cases hkeeps : c.keeps .pl1 with
  | false =>
    have hlow := h.applyPl2_battery hfits fails fun hdry hkeeps2 => ?_
    · rwa [hkeeps] at hlow
    · obtain hample | ⟨htame,-⟩ := Roomy.ample hset hdry hkeeps2
      · exact .inl hample
      · exact .inr ⟨htame.keeps,absurd htame.keeps (by simp [hkeeps])⟩
  | true =>
    have hdown := h.applyPl1_battery hfits hkeeps fails
    have hlow := hdown.applyPl2_battery hfits fails fun hdry hkeeps2 => ?_
    · rw [hkeeps] at hlow
      show Held c boot (if fails .getPl1 then w else _)
      split_ifs
      · exact h
      · exact hlow
    · obtain hample | ⟨htame,hok⟩ := Roomy.ample hset hdry hkeeps2
      · exact .inl hample
      · exact .inr ⟨hkeeps,near_applyPl1 hfits htame hdry hkept.lock hok⟩

theorem Held.applyPl_ac (hfits : Fits c boot) (hkept : Kept c boot w) (h : Held c boot w)
    (hac : onBattery ac = false)
    (hset : Roomy c boot ∨ Tame c boot ∧ fails .getPl2 = false ∧ fails .setPl2 = false) :
    Held c boot (applyPl c fails ac w) := by
  unfold Lpschedd.applyPl
  cases hkeeps : c.keeps .pl1 with
  | false =>
    refine h.applyPl2_ac hfits hac ?_ fails
    show 0 ≤ hwpRawToMw boot.pl2
    rw [hwpRawToMw_eq]
    omega
  | true =>
    have hle : c.pl1Boot ≤ boot.mw .pl2 := by
      rw [hfits.boot1 hkeeps]
      exact hfits.mw_le
    have hup := h.applyPl2_ac hfits hac hle fails
    simp only [hac,Bool.not_true,Bool.false_eq_true,if_false,want1_ac hac]
    split_ifs
    · exact hup
    · obtain ⟨heq,-⟩ | heq := applyPl1_cases (c := c) fails c.pl1Boot
        (applyPl2 c fails ac c.pl1Boot w)
      · exact heq.symm ▸ hup
      · have hpos := (of_decide_eq_true hkeeps).2
        rw [heq]
        refine hup.setPl1 hfits hkeeps (Int.le_refl _) (Int.le_of_lt hpos) (fun hdry => ?_) _
        by_cases hkeeps2 : c.keeps .pl2
        · obtain hample | ⟨htame,hget,hwrite⟩ := Roomy.ample hset hdry hkeeps2
          · exact .inr (.inl hample)
          · exact .inl (applyPl2_ac_boot hfits htame hdry hkept hget hwrite hac hle)
        · exact .inl ((hkept.applyPl2 fails ac c.pl1Boot).pl2 (.inr (Bool.not_eq_true _ ▸ hkeeps2)))

theorem Held.cleanup (hfits : Fits c boot) (hkept : Kept c boot w) (h : Held c boot w)
    (hset : Roomy c boot ∨ Tame c boot ∧ fails .setPl2 = false) :
    Held c boot (cleanup c fails w) := by
  have hkept' := hkept.same (restoreKnobs_same (c := c) fails w)
  have h' := h.same (restoreKnobs_same (c := c) fails w)
  have hup : Held c boot (restorePl c (fails .setPl2) .pl2 c.pl2Boot (restoreKnobs c fails w)) := by
    unfold restorePl
    split_ifs with hkeeps2
    · have hpos := (of_decide_eq_true hkeeps2).2
      exact h'.setPl2 hfits (Int.le_of_lt hpos) (fun _ => .inl (hfits.boot2 hkeeps2)) _
    · exact h'
  unfold Lpschedd.cleanup
  by_cases hkeeps : c.keeps .pl1
  · have hpos := (of_decide_eq_true hkeeps).2
    rw [restorePl,if_pos hkeeps]
    refine hup.setPl1 hfits hkeeps (Int.le_refl _) (Int.le_of_lt hpos) (fun hdry => ?_) _
    by_cases hkeeps2 : c.keeps .pl2
    · obtain hample | ⟨htame,hwrite⟩ := Roomy.ample hset hdry hkeeps2
      · exact .inr (.inl hample)
      · rw [restorePl,if_pos hkeeps2,hwrite]
        exact .inl (setPl2_boot hfits htame hdry hkeeps2 hkept'.lock)
    · exact .inl ((hkept'.restorePl _ .pl2 _).pl2 (.inr (Bool.not_eq_true _ ▸ hkeeps2)))
  · rw [restorePl,if_neg hkeeps]
    exact hup

theorem Held.step (hfits : Fits c boot) {d d' : Daemon} {e : Event} (hkept : Kept c boot d.world)
    (h : Held c boot d.world) (hset : Roomy c boot ∨ Tame c boot ∧ Heeded d e)
    (hstep : step c d e = some d') : Held c boot d'.world := by
  cases e with
  | pass x =>
    obtain ⟨-,rfl⟩ := of_unless hstep
    refine Held.same ?_ (pass_same d x)
    split_ifs
    · unfold Heeded at hset
      dsimp only at hset
      cases hac : onBattery (d.acNext x) with
      | true =>
        rw [if_pos hac] at hset
        have hnext : d.acNext x = some false := of_decide_eq_true hac
        rw [hnext]
        exact h.applyPl_battery hfits hkept hset
      | false =>
        rw [if_neg (by simp [hac])] at hset
        exact h.applyPl_ac hfits hkept hac hset
    · exact h
  | quit fails =>
    obtain ⟨-,rfl⟩ := of_unless hstep
    exact h.cleanup hfits hkept hset

/-- Where PL1 was not above PL2 at boot, and there is room for any PL1 or the calls that the order
of the writes rests on succeed, PL2 is never below PL1. If the writes at exit succeed, both limits
are as at boot. -/
theorem limits_in_order (opts : Conf) (boot : Register) (fails1 fails2 : Bool) (knobs : Knobs)
    (ac : Option Bool) {es : List Event} {d : Daemon} :
    let c := opts.readBoot boot fails1 fails2
    exec (step c) (start boot knobs ac) es = some d →
    (boot.pl1 ≤ boot.pl2 →
      (Roomy c boot ∨ Tame c boot ∧ Along (step c) Heeded (start boot knobs ac) es) →
      ∀ r ∈ d.points, Ordered r) ∧
    (∀ fails d', step c d (.quit fails) = some d' → cleanupSucceeds c fails d.world →
      d'.world.reg.mw .pl1 = boot.mw .pl1 ∧ d'.world.reg.mw .pl2 = boot.mw .pl2) := by
  intro c hrun
  have hknows : Knows c boot := readBoot_knows boot fails1 fails2
  have hstart : Kept c boot (start boot knobs ac).world := ⟨rfl,fun _ => rfl,fun _ => rfl⟩
  have hkept := exec_invariant (fun d => Kept c boot d.world)
    (fun _ _ _ h hstep => h.step hstep) hstart hrun
  refine ⟨fun hboot hset => ?_,fun fails d' hquit hok => ?_⟩
  · have hfits : Fits c boot := ⟨hknows,hboot⟩
    have hheld : Held c boot (start boot knobs ac).world := ⟨Nat.le_refl _,.inl rfl,by nofun⟩
    have hend : Kept c boot d.world ∧ Held c boot d.world := by
      obtain hroomy | ⟨htame,hall⟩ := hset
      · exact exec_invariant (fun d => Kept c boot d.world ∧ Held c boot d.world)
          (fun _ _ _ h hstep => ⟨h.1.step hstep,h.2.step hfits h.1 (.inl hroomy) hstep⟩)
          ⟨hstart,hheld⟩ hrun
      · exact exec_invariant_along (fun d => Kept c boot d.world ∧ Held c boot d.world)
          (fun _ _ _ h hheed hstep =>
            ⟨h.1.step hstep,h.2.step hfits h.1 (.inr ⟨htame,hheed⟩) hstep⟩)
          ⟨hstart,hheld⟩ hall hrun
    exact List.forall_mem_cons.mpr ⟨hend.2.ordered hfits,hend.2.past⟩
  · obtain ⟨-,rfl⟩ := of_unless hquit
    obtain ⟨h1,h2⟩ := cleanup_restores hknows hkept hok
    exact ⟨congrArg hwpRawToMw h1,congrArg hwpRawToMw h2⟩

end Order

/-! ## Runs -/
section Runs

instance (d : Daemon) : (e : Event) → Decidable (Heeded d e)
  | .pass x => inferInstanceAs (Decidable (if onBattery (d.acNext x) then _ else _))
  | .quit fails => inferInstanceAs (Decidable (fails .setPl2 = false))

instance (r : Register) : Decidable (Ordered r) := inferInstanceAs (Decidable (_ ≤ _))
def stock : Knobs := ⟨0,0,0,128⟩
def boot15 : Register := ⟨120,true,160,true,false⟩
def quiet (ac : Bool) (fails : Call → Bool) : Sample := ⟨some ac,0,0,20000,0,0,0,240,fails⟩
def noneFails : Call → Bool := fun _ => false

/-- To battery, back and out, with limits for battery of 10 W and 12 W. -/
theorem batteryAndBack_in_order :
    ∃ d, exec (step (Conf.readBoot { pl2Bat := 12000 } boot15 false false))
      (start boot15 stock (some true))
      [.pass (quiet false noneFails),.pass (quiet true noneFails),.quit noneFails] = some d ∧
    d.points.length = 7 ∧ (∀ r ∈ d.points, Ordered r) := by
  obtain ⟨d,hrun,hlen⟩ : ∃ d, exec (step (Conf.readBoot { pl2Bat := 12000 } boot15 false false))
      (start boot15 stock (some true)) [.pass (quiet false noneFails),.pass (quiet true
      noneFails),.quit noneFails] = some d ∧ d.points.length = 7 := by decide +kernel
  refine ⟨d,hrun,hlen,?_⟩
  exact (limits_in_order _ boot15 false false stock (some true) hrun).1 (by decide)
    (.inr ⟨⟨by decide +kernel,rfl,by decide +kernel,by decide +kernel⟩,by decide +kernel⟩)

/-- PL2 is below PL1 if PL1 is left alone; if the module refuses the PL1 of battery; if PL1's write
fails on the way to battery, or PL2's on the way back; and if it was so at boot. -/
theorem limits_out_of_order :
    (∃ d, exec (step (Conf.readBoot { pl1Bat := 0, pl2Bat := 8000 } boot15 false false))
      (start boot15 stock (some true)) [.pass (quiet false noneFails)] = some d ∧
      ¬Ordered d.world.reg) ∧
    (∃ d, exec (step (Conf.readBoot { pl1Bat := 2000, pl2Bat := 5000 } boot15 false false))
      (start boot15 stock (some true)) [.pass (quiet false noneFails)] = some d ∧
      ¬Ordered d.world.reg) ∧
    (∃ d, exec (step (Conf.readBoot { pl2Bat := 12000 } boot15 false false))
      (start boot15 stock (some true)) [.pass (quiet false (· = .setPl1))] = some d ∧
      ¬Ordered d.world.reg) ∧
    (∃ d, exec (step (Conf.readBoot { pl2Bat := 12000 } boot15 false false))
      (start boot15 stock (some true))
      [.pass (quiet false noneFails),.pass (quiet true (· = .setPl2))] = some d ∧
      ¬Ordered d.world.reg) ∧
    (∃ d, exec (step (Conf.readBoot {} ⟨160,true,120,true,false⟩ false false))
      (start ⟨160,true,120,true,false⟩ stock (some true)) [] = some d ∧
      ¬Ordered d.world.reg) := by
  decide +kernel

end Runs
end NanoBSD.Lpschedd
