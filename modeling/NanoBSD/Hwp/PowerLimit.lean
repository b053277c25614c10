import Mathlib.Data.Nat.Bitwise

/-! # The package power limits

`machdep.hwp.pl1` and `pl2` show and set the two limits of `MSR_PKG_POWER_LIMIT`, each a
field of 15 bits with its enable bit above it. The unit is a fraction `1 / 2^pu` of a watt
that the machine reports. A value in milliwatts is scaled and shifted into the register
without a mask, and with a fine unit the accepted range is wider than the field.
-/
namespace NanoBSD.Hwp

inductive Errno
  | EIO
  | EPERM
  | EINVAL
deriving DecidableEq

inductive Limit
  | pl1
  | pl2
deriving DecidableEq

/-- The lowest bit of `PL1_POWER` and `PL2_POWER`; the enable bit is 15 above it. -/
def Limit.low : Limit → ℕ
  | .pl1 => 0
  | .pl2 => 32

def Limit.power (l : Limit) : BitVec 64 := 0x7fff#64 <<< l.low
def Limit.enable (l : Limit) : BitVec 64 := 0x8000#64 <<< l.low
def Limit.field (l : Limit) (lim : BitVec 64) : ℕ := ((lim &&& l.power) >>> l.low).toNat

def Limit.install (l : Limit) (raw : ℕ) (lim : BitVec 64) : BitVec 64 :=
  lim &&& ~~~l.power ||| (BitVec.ofNat 64 raw <<< l.low ||| l.enable)

def plLock : ℕ := 63
def hwpRawToMw (pu raw : ℕ) : ℕ := raw * 1000 / 2 ^ pu
def hwpMwToRaw (pu mw : ℕ) : ℕ := (mw * 2 ^ pu + 500) / 1000

open Errno in
/-- `hwp_sysctl_pl`: the value shown and the register afterwards. `msr` is `none` if it cannot be
read. -/
def hwpSysctlPl (pu : ℕ) (l : Limit) (msr : Option (BitVec 64)) (newp : Option ℤ) :
    Except Errno (ℕ × BitVec 64) :=
  match msr with
  | none => .error EIO
  | some lim =>
    match newp with
    | none => .ok (hwpRawToMw pu (l.field lim),lim)
    | some val =>
      if lim.getLsbD plLock then .error EPERM
      else if val < 3000 ∨ val > 64000 then .error EINVAL
      else .ok (hwpRawToMw pu (l.field lim),l.install (hwpMwToRaw pu val.toNat) lim)

section Field
variable (l : Limit) {raw : ℕ} (lim : BitVec 64)

theorem Limit.getLsbD_power (i : ℕ) : l.power.getLsbD i = decide (l.low ≤ i ∧ i < l.low + 15) := by
  have hones : (0x7fff#64) = BitVec.ofNat 64 (2 ^ 15 - 1) := rfl
  have hle : l.low + 15 ≤ 64 := by cases l <;> decide
  rw [Limit.power,hones,BitVec.getLsbD_shiftLeft,BitVec.getLsbD_ofNat,Nat.testBit_two_pow_sub_one,
    Bool.eq_iff_iff]
  simp only [Bool.and_eq_true,Bool.not_eq_true',decide_eq_true_eq,decide_eq_false_iff_not]
  omega

theorem Limit.getLsbD_enable (i : ℕ) : l.enable.getLsbD i = decide (i = l.low + 15) := by
  have hone : (0x8000#64) = BitVec.ofNat 64 (2 ^ 15) := rfl
  have hle : l.low + 15 < 64 := by cases l <;> decide
  rw [Limit.enable,hone,BitVec.getLsbD_shiftLeft,BitVec.getLsbD_ofNat,Nat.testBit_two_pow,
    Bool.eq_iff_iff]
  simp only [Bool.and_eq_true,Bool.not_eq_true',decide_eq_true_eq,decide_eq_false_iff_not]
  omega

theorem Limit.getLsbD_install (hraw : raw < 2 ^ 15) (i : ℕ) (hi : i < 64) :
    (l.install raw lim).getLsbD i = if i < l.low ∨ l.low + 15 < i then lim.getLsbD i
      else if i = l.low + 15 then true else raw.testBit (i - l.low) := by
  -- the scaled value ends below the enable bit
  have hhigh (k : ℕ) (hk : 15 ≤ k) : raw.testBit k = false :=
    Nat.testBit_eq_false_of_lt (Nat.lt_of_lt_of_le hraw (Nat.pow_le_pow_right (by decide) hk))
  rw [Limit.install,BitVec.getLsbD_or,BitVec.getLsbD_or,BitVec.getLsbD_and,BitVec.getLsbD_not,
    l.getLsbD_power,l.getLsbD_enable,BitVec.getLsbD_shiftLeft,BitVec.getLsbD_ofNat]
  split_ifs with hout hen
  · have hno : ¬(l.low ≤ i ∧ i < l.low + 15) := by omega
    have hne : i ≠ l.low + 15 := by omega
    rcases hout with hlow | hlow
    · simp [hi,hlow,hno,hne]
    · simp [hi,hhigh (i - l.low) (by omega),hno,hne]
  · simp [hen]
  · have hin : l.low ≤ i ∧ i < l.low + 15 := by omega
    simp [hi,hin,hen,Nat.not_lt.mpr hin.1,Nat.lt_of_le_of_lt (Nat.sub_le i l.low) hi]

theorem Limit.field_install (raw : ℕ) : l.field (l.install raw lim) = raw % 2 ^ 15 := by
  have hle : l.low + 15 ≤ 64 := by cases l <;> decide
  have hbits : (l.install raw lim &&& l.power) >>> l.low = BitVec.ofNat 64 (raw % 2 ^ 15) := by
    refine BitVec.eq_of_getLsbD_eq fun i hi => ?_
    rw [BitVec.getLsbD_ushiftRight,BitVec.getLsbD_and,Limit.install,BitVec.getLsbD_or,
      BitVec.getLsbD_or,BitVec.getLsbD_and,BitVec.getLsbD_not,l.getLsbD_power,l.getLsbD_enable,
      BitVec.getLsbD_shiftLeft,BitVec.getLsbD_ofNat,BitVec.getLsbD_ofNat,Nat.testBit_mod_two_pow]
    by_cases hin : i < 15
    · have hne : i ≠ 15 := by omega
      simp [hi,hin,hne,show l.low + i < 64 by omega]
    · simp [hin]
  rw [Limit.field,hbits,BitVec.toNat_ofNat]
  exact Nat.mod_eq_of_lt (Nat.lt_trans (Nat.mod_lt _ (by decide)) (by decide))

theorem Limit.field_install_of_ne {l' : Limit} (hne : l ≠ l') (hraw : raw < 2 ^ 15) :
    l'.field (l.install raw lim) = l'.field lim := by
  have hlow : l.low + 32 = l'.low ∨ l'.low + 32 = l.low := by
    cases l <;> cases l' <;> simp_all [Limit.low]
  have hbits : l.install raw lim &&& l'.power = lim &&& l'.power := by
    refine BitVec.eq_of_getLsbD_eq fun i hi => ?_
    rw [BitVec.getLsbD_and,BitVec.getLsbD_and,l'.getLsbD_power,l.getLsbD_install lim hraw i hi]
    split_ifs with hout
    · rfl
    all_goals
      have hno : ¬(l'.low ≤ i ∧ i < l'.low + 15) := by omega
      simp [hno]
  rw [Limit.field,hbits,Limit.field]

end Field

theorem hwpRawToMw_bounds (pu raw : ℕ) :
    hwpRawToMw pu raw * 2 ^ pu ≤ raw * 1000 ∧
      raw * 1000 < hwpRawToMw pu raw * 2 ^ pu + 2 ^ pu := by
  have hshow := Nat.div_add_mod (raw * 1000) (2 ^ pu)
  have hlt := Nat.mod_lt (raw * 1000) (Nat.two_pow_pos pu)
  rw [Nat.mul_comm] at hshow
  unfold hwpRawToMw
  omega

theorem hwpMwToRaw_bounds (pu mw : ℕ) :
    hwpMwToRaw pu mw * 1000 ≤ mw * 2 ^ pu + 500 ∧ mw * 2 ^ pu < hwpMwToRaw pu mw * 1000 + 500 := by
  unfold hwpMwToRaw
  omega

/-- A write changes the field and its enable bit only and is read back within half a power unit and
a milliwatt, just if its scaled value fits the field. -/
theorem pl_write_exact (pu : ℕ) (l : Limit) (lim : BitVec 64) (mw : ℕ) (hpu : pu ≤ 15)
    (hlock : lim.getLsbD plLock = false) (hmin : 3000 ≤ mw) (hmax : mw ≤ 64000) :
    (∃ old lim' mw', hwpSysctlPl pu l (some lim) (some mw) = .ok (old,lim') ∧
      (∀ i < 64, i < l.low ∨ l.low + 15 < i → lim'.getLsbD i = lim.getLsbD i) ∧
      lim'.getLsbD (l.low + 15) = true ∧
      hwpSysctlPl pu l (some lim') none = .ok (mw',lim') ∧
      mw' * 2 ^ pu ≤ mw * 2 ^ pu + 500 + 2 ^ pu ∧ mw * 2 ^ pu ≤ mw' * 2 ^ pu + 500 + 2 ^ pu) ↔
    hwpMwToRaw pu mw < 2 ^ 15 := by
  have hle : l.low + 15 < 64 := by cases l <;> decide
  have hwrite : hwpSysctlPl pu l (some lim) (some mw) =
      .ok (hwpRawToMw pu (l.field lim),l.install (hwpMwToRaw pu mw) lim) := by
    have hrange : ¬((mw : ℤ) < 3000 ∨ (mw : ℤ) > 64000) := by omega
    simp only [hwpSysctlPl,hlock,Bool.false_eq_true,if_false,if_neg hrange,Int.toNat_natCast]
  have hread : hwpSysctlPl pu l (some (l.install (hwpMwToRaw pu mw) lim)) none =
      .ok (hwpRawToMw pu (hwpMwToRaw pu mw % 2 ^ 15),l.install (hwpMwToRaw pu mw) lim) := by
    simp only [hwpSysctlPl,l.field_install]
  obtain ⟨hraw,hraw'⟩ := hwpMwToRaw_bounds pu mw
  constructor
  · rintro ⟨old,lim',mw',hwrite',-,-,hread',-,hunder⟩
    obtain ⟨-,rfl⟩ := Prod.mk.inj (Except.ok.inj (hwrite.symm.trans hwrite'))
    obtain ⟨rfl,-⟩ := Prod.mk.inj (Except.ok.inj (hread.symm.trans hread'))
    -- what does not fit is cut off, which is more than the rounding can make up for
    by_contra hbig
    have hcut := (hwpRawToMw_bounds pu (hwpMwToRaw pu mw % 2 ^ 15)).1
    have hunit : 2 ^ pu ≤ 2 ^ 15 := Nat.pow_le_pow_right (by decide) hpu
    omega
  · intro hfits
    rw [Nat.mod_eq_of_lt hfits] at hread
    obtain ⟨hshow,hshow'⟩ := hwpRawToMw_bounds pu (hwpMwToRaw pu mw)
    refine ⟨_,_,_,hwrite,fun i hi hout => ?_,?_,hread,by omega,by omega⟩
    · rw [l.getLsbD_install lim hfits i hi,if_pos hout]
    · rw [l.getLsbD_install lim hfits _ hle,if_neg (by omega),if_pos rfl]

theorem pl_write_exact_eighth :
    ∃ old lim' mw', hwpSysctlPl 3 .pl2 (some 0x42_8160#64) (some 15000) = .ok (old,lim') ∧
      (∀ i < 64, i < 32 ∨ 32 + 15 < i → lim'.getLsbD i = (0x42_8160#64).getLsbD i) ∧
      lim'.getLsbD (32 + 15) = true ∧ hwpSysctlPl 3 .pl2 (some lim') none = .ok (mw',lim') ∧
      mw' * 2 ^ 3 ≤ 15000 * 2 ^ 3 + 500 + 2 ^ 3 ∧ 15000 * 2 ^ 3 ≤ mw' * 2 ^ 3 + 500 + 2 ^ 3 :=
  (pl_write_exact 3 .pl2 0x42_8160#64 15000 (by decide) (by decide) (by decide)
    (by decide)).mpr (by decide)

/-- With units of a 1024th of a watt, 64 W does not fit: the power field is left empty and bit 16 is
set. -/
theorem pl_write_overflows :
    hwpSysctlPl 10 .pl1 (some 0) (some 64000) = .ok (0,0x18000#64) ∧
    (0#64).getLsbD 16 = false ∧ (0x18000#64).getLsbD 16 = true ∧
    hwpSysctlPl 10 .pl1 (some 0x18000#64) none = .ok (0,0x18000#64) := by
  decide

end NanoBSD.Hwp
