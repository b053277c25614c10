import Mathlib.Data.Int.ModEq
import Mathlib.Tactic.Ring

/-! # The hands of the timecounter

`tc_windup` and the reading of the clock in `kern_tc.c`. Time is a binary fixed-point number
of two 64-bit words, a counter is up to 32 bits wide, and the hands keep the time of the last
windup with the count it was taken at. A reading of the clock and a windup are atomic here, so
the ring of hands and its generations are left out, as are the cached time stamps except for
the second that the NTP code was last run for.
-/
namespace NanoBSD.Timecounter

structure Bintime where
  sec : ℕ
  frac : ℕ
  deriving DecidableEq, Repr

namespace Bintime

def addx (bt : Bintime) (x : ℕ) : Bintime :=
  let frac := (bt.frac + x) % 2^64
  { sec := if frac < bt.frac then (bt.sec + 1) % 2^64 else bt.sec
    frac := frac }

def add (bt bt2 : Bintime) : Bintime :=
  let bt := bt.addx bt2.frac
  { bt with sec := (bt.sec + bt2.sec) % 2^64 }

def addscaled (bt : Bintime) (scale delta : ℕ) : Bintime :=
  let x := (scale >>> 32) * delta % 2^64
  let bt := { bt with sec := (bt.sec + (x >>> 32)) % 2^64 }
  let bt := bt.addx ((x <<< 32) % 2^64)
  bt.addx ((scale &&& 0xffffffff) * delta % 2^64)

def Fits (bt : Bintime) : Prop := bt.sec < 2^64 ∧ bt.frac < 2^64
instance (bt : Bintime) : Decidable bt.Fits := inferInstanceAs (Decidable (_ ∧ _))
def toNat (bt : Bintime) : ℕ := bt.sec * 2^64 + bt.frac

theorem addx_spec {bt : Bintime} {x : ℕ} (h : bt.Fits) (hx : x < 2^64) :
    (bt.addx x).Fits ∧ (bt.addx x).toNat = (bt.toNat + x) % 2^128 := by
  obtain ⟨hsec,hfrac⟩ := h
  unfold addx Fits toNat
  dsimp only
  split <;> omega

theorem addscaled_spec {bt : Bintime} {scale delta : ℕ} (h : bt.Fits) (hscale : scale < 2^64)
    (hdelta : delta < 2^32) : (bt.addscaled scale delta).Fits ∧
      (bt.addscaled scale delta).toNat = (bt.toNat + scale * delta) % 2^128 := by
  have hlow : scale &&& 0xffffffff = scale % 2^32 := Nat.and_two_pow_sub_one_eq_mod scale 32
  have hx : scale / 2^32 * delta < 2^64 :=
    calc scale / 2^32 * delta
        < 2^32 * 2^32 := Nat.mul_lt_mul'' (Nat.div_lt_of_lt_mul (by omega)) hdelta
      _ = 2^64 := by norm_num
  have hy : scale % 2^32 * delta < 2^64 :=
    calc scale % 2^32 * delta
        < 2^32 * 2^32 := Nat.mul_lt_mul'' (Nat.mod_lt _ (by decide)) hdelta
      _ = 2^64 := by norm_num
  have hproduct : scale * delta = scale / 2^32 * delta * 2^32 + scale % 2^32 * delta := by
    conv_lhs => rw [← Nat.div_add_mod' scale (2^32)]
    ring
  simp only [addscaled,hlow,Nat.shiftRight_eq_div_pow,Nat.shiftLeft_eq,hproduct,
    Nat.mod_eq_of_lt hx,Nat.mod_eq_of_lt hy]
  -- the high half in whole seconds, then its fraction, then the low half
  generalize scale / 2^32 * delta = x at hx ⊢
  generalize scale % 2^32 * delta = y at hy ⊢
  have hsec : Fits { bt with sec := (bt.sec + x / 2^32) % 2^64 } :=
    ⟨Nat.mod_lt _ (by decide),h.2⟩
  obtain ⟨hfits,hvalue⟩ := addx_spec hsec (Nat.mod_lt (x * 2^32) (show 0 < 2^64 by decide))
  obtain ⟨hfits',hvalue'⟩ := addx_spec hfits hy
  refine ⟨hfits',?_⟩
  rw [hvalue',hvalue]
  simp only [toNat]
  omega

end Bintime

structure Counter where
  bits : ℕ
  frequency : ℕ
  getTimecount : ℕ → ℕ
  bits_le : bits ≤ 32
  frequency_pos : 0 < frequency
  getTimecount_mod : ∀ n, getTimecount n % 2^bits = n % 2^bits
  getTimecount_lt : ∀ n, getTimecount n < 2^32

def Counter.wide (frequency : ℕ) (h : 0 < frequency) : Counter where
  bits := 32
  frequency := frequency
  getTimecount n := n % 2^32
  bits_le := Nat.le_refl _
  frequency_pos := h
  getTimecount_mod n := Nat.mod_mod n _
  getTimecount_lt n := Nat.mod_lt n (by decide)

def Counter.narrow (frequency : ℕ) (h : 0 < frequency) : Counter where
  bits := 24
  frequency := frequency
  getTimecount n := n % 2^24
  bits_le := by decide
  frequency_pos := h
  getTimecount_mod n := Nat.mod_mod n _
  getTimecount_lt n := Nat.lt_trans (Nat.mod_lt n (by decide)) (by decide)

def Counter.mask (tc : Counter) : ℕ := 2^tc.bits - 1

structure Timehands (κ : Type) where
  counter : κ
  adjustment : ℤ
  scale : ℕ
  offsetCount : ℕ
  offset : Bintime
  microtime : ℕ

/-- The hands, the selected counter `timecounter`, the time base and the state of the NTP
code. -/
structure Clock (κ ν : Type) where
  hands : Timehands κ
  timecounter : κ
  timebase : Bintime
  ntp : ν

/-- `ntp_update_second`, whatever it computes: from its state, the adjustment and the second
to the new ones. -/
abbrev Ntp (ν : Type) : Type := ν → ℤ → ℕ → ν × ℤ × ℕ

def secondsSince (a b : ℕ) : ℤ :=
  let d : ℕ := (a + 2^64 - b) % 2^32
  if d < 2^31 then d else d - 2^32

section Windup
variable {κ ν : Type} (update : Ntp ν)

structure Seconds (ν : Type) where
  ntp : ν
  adjustment : ℤ
  sec : ℕ
  base : ℕ
  updated : Bool

def Seconds.large (s : Seconds ν) : Seconds ν :=
  let (ntp,adjustment,sec) := update s.ntp s.adjustment s.sec
  { ntp := ntp
    adjustment := adjustment
    sec := sec
    base := if sec ≠ s.sec then (s.base + sec + 2^64 - s.sec) % 2^64 else s.base
    updated := true }

def crossSecond (first : ℕ) (s : ν × ℤ × ℕ) (t : ℕ) : ν × ℤ × ℕ :=
  let (ntp,adjustment,adj) := s
  let seen := (first + t + adj) % 2^64
  let (ntp,adjustment,sec) := update ntp adjustment seen
  (ntp,adjustment,if sec ≠ seen then (adj + sec + 2^64 - seen) % 2^64 else adj)

def Seconds.process (first : ℕ) (s : Seconds ν) : Seconds ν :=
  let i := secondsSince s.sec first
  if 200 < i then (s.large update).large update
  else if 0 < i then
    let (ntp,adjustment,adj) :=
      ((List.range i.toNat).map (· + 1)).foldl (crossSecond update first) (s.ntp,s.adjustment,0)
    { ntp := ntp
      adjustment := adjustment
      sec := (s.sec + adj) % 2^64
      base := (s.base + adj) % 2^64
      updated := true }
  else s

def scaleOf (adjustment : ℤ) (frequency : ℕ) : ℕ :=
  let scale := ((2^63 + adjustment.tdiv 1024 * 2199) % 2^64).toNat
  scale / frequency * 2 % 2^64

variable (tc : κ → Counter)

def tcDelta (count : κ → ℕ) (th : Timehands κ) : ℕ :=
  (count th.counter + 2^64 - th.offsetCount) % 2^64 &&& (tc th.counter).mask

def binuptime (count : κ → ℕ) (th : Timehands κ) : Bintime :=
  th.offset.addscaled th.scale (tcDelta tc count th)

variable [DecidableEq κ]

def tcWindup (count : κ → ℕ) (c : Clock κ ν) : Clock κ ν :=
  let tho := c.hands
  let delta := tcDelta tc count tho
  let offset := tho.offset.addscaled tho.scale delta
  let bt := offset.add c.timebase
  let s := Seconds.process update tho.microtime
    ⟨c.ntp,tho.adjustment,bt.sec,c.timebase.sec,false⟩
  let switched := tho.counter ≠ c.timecounter
  { hands :=
      { counter := c.timecounter
        adjustment := s.adjustment
        scale :=
          if s.updated ∨ switched then scaleOf s.adjustment (tc c.timecounter).frequency
          else tho.scale
        offsetCount :=
          if switched then count c.timecounter else (tho.offsetCount + delta) % 2^64
        offset := offset
        microtime := s.sec }
    timecounter := c.timecounter
    timebase := { c.timebase with sec := s.base }
    ntp := s.ntp }

end Windup

section Delta
variable {κ : Type} {tc : κ → Counter} {th : Timehands κ} {total : κ → ℕ} {mark : ℕ}

theorem scaleOf_lt (adjustment : ℤ) (frequency : ℕ) : scaleOf adjustment frequency < 2^64 :=
  Nat.mod_lt _ (by decide)

theorem tcDelta_eq (hoffset : th.offsetCount < 2^64)
    (hmark : th.offsetCount % 2^(tc th.counter).bits = mark % 2^(tc th.counter).bits)
    (hle : mark ≤ total th.counter) (hlt : total th.counter - mark < 2^(tc th.counter).bits) :
    tcDelta tc (fun k => (tc k).getTimecount (total k)) th = total th.counter - mark := by
  have hdvd : 2^(tc th.counter).bits ∣ 2^64 :=
    Nat.pow_dvd_pow 2 (Nat.le_trans (tc th.counter).bits_le (by decide))
  have hread := (tc th.counter).getTimecount_mod (total th.counter)
  unfold tcDelta Counter.mask
  rw [Nat.and_two_pow_sub_one_eq_mod,Nat.mod_mod_of_dvd _ hdvd,← Nat.mod_eq_of_lt hlt]
  -- add the offset on both sides
  apply Nat.ModEq.add_right_cancel' th.offsetCount
  calc (tc th.counter).getTimecount (total th.counter) + 2^64 - th.offsetCount + th.offsetCount
      ≡ (tc th.counter).getTimecount (total th.counter) + 2^64 [MOD 2^(tc th.counter).bits] := by
        rw [Nat.sub_add_cancel (by omega)]
    _ ≡ total th.counter + 0 [MOD 2^(tc th.counter).bits] :=
        Nat.ModEq.add hread (Nat.modEq_zero_iff_dvd.mpr hdvd)
    _ ≡ total th.counter - mark + mark [MOD 2^(tc th.counter).bits] := by
        rw [Nat.sub_add_cancel hle,Nat.add_zero]
    _ ≡ total th.counter - mark + th.offsetCount [MOD 2^(tc th.counter).bits] :=
        Nat.ModEq.add_left _ hmark.symm

end Delta
end NanoBSD.Timecounter
