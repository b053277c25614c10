import Mathlib.Tactic.Common

/-! # Sets of numbers as bitmaps, searched for the greatest

The words have 32 bits with the smallest number in the most significant bit, so the lowest
bit that is set in a word is the greatest number in it, and a scan down the words from the
one of an upper bound finds the greatest number of all.
-/
namespace NanoBSD
open Function

structure Greatest (P : ℕ → Prop) (m : ℕ) : Prop where
  upper : ∀ p, P p → p ≤ m
  attained : (∃ p, P p) → P m
  none_eq : (∀ p, ¬P p) → m = 0

namespace Greatest
variable {P Q : ℕ → Prop} {m e : ℕ}

theorem congr (h : Greatest P m) (hPQ : ∀ p, P p ↔ Q p) : Greatest Q m := by
  obtain rfl : P = Q := funext fun p => propext (hPQ p)
  exact h

theorem insert (h : Greatest P m) (e : ℕ) :
    Greatest (fun p => p = e ∨ P p) (if m < e then e else m) := by
  have hle : m ≤ (if m < e then e else m) ∧ e ≤ (if m < e then e else m) := by
    split <;> omega
  constructor
  · rintro p (rfl | hp)
    · exact hle.2
    · exact Nat.le_trans (h.upper p hp) hle.1
  · intro _
    split_ifs with hlt
    · exact .inl rfl
    · by_cases hex : ∃ p, P p
      · exact .inr (h.attained hex)
      · have hm := h.none_eq fun p hp => hex ⟨p,hp⟩
        exact .inl (by omega)
  · intro hnone
    exact absurd (.inl rfl) (hnone e)

theorem erase_of_ne (h : Greatest P m) (he : P e) (hne : e ≠ m) :
    Greatest (fun p => p ≠ e ∧ P p) m := by
  have hm : P m := h.attained ⟨e,he⟩
  constructor
  · exact fun p hp => h.upper p hp.2
  · exact fun _ => ⟨hne.symm,hm⟩
  · exact fun hnone => absurd ⟨hne.symm,hm⟩ (hnone m)

end Greatest

def ffs (w : BitVec 32) : ℕ := ((List.range 32).find? fun b => w.getLsbD b).elim 0 (· + 1)

theorem ffs_spec {w : BitVec 32} (h : w ≠ 0#32) : 32 - ffs w < 32 ∧ w.getMsbD (32 - ffs w) = true ∧
      ∀ j, 32 - ffs w < j → w.getMsbD j = false := by
  unfold ffs
  cases hfind : (List.range 32).find? fun b => w.getLsbD b with
  | none =>
    rw [List.find?_eq_none] at hfind
    refine absurd (BitVec.eq_of_getLsbD_eq fun b hb => ?_) h
    simpa using hfind b (List.mem_range.mpr hb)
  | some b =>
    obtain ⟨hset,hmem,hleast⟩ := List.find?_range_eq_some.mp hfind
    have hb : b < 32 := List.mem_range.mp hmem
    have hidx : 32 - 1 - (32 - (b + 1)) = b := by omega
    simp only [Option.elim_some]
    refine ⟨by omega,?_,?_⟩
    · rw [BitVec.getMsbD_eq_getLsbD,hidx,hset,decide_eq_true (by omega),Bool.and_true]
    · intro j hj
      rw [BitVec.getMsbD_eq_getLsbD]
      by_cases hlt : j < 32
      · have hclear := hleast (32 - 1 - j) (by omega)
        simpa using fun _ => hclear
      · simp [hlt]

abbrev Bitmap : Type := ℕ → BitVec 32

namespace Bitmap
variable {b : Bitmap} {p q i : ℕ}

def bit (p : ℕ) : BitVec 32 := 0x80000000#32 >>> (p &&& 31)
def mark (b : Bitmap) (p : ℕ) : Bitmap := update b (p >>> 5) (b (p >>> 5) ||| bit p)

def unmark (b : Bitmap) (p : ℕ) : Bitmap :=
  update b (p >>> 5) (b (p >>> 5) &&& ~~~bit p)

def Marked (b : Bitmap) (p : ℕ) : Prop := (b (p / 32)).getMsbD (p % 32) = true
instance (b : Bitmap) (p : ℕ) : Decidable (b.Marked p) := inferInstanceAs (Decidable (_ = true))

def scan (b : Bitmap) : ℕ → ℕ
  | 0 => if b 0 ≠ 0#32 then (0 <<< 5) + (32 - ffs (b 0)) else 0
  | i + 1 => if b (i + 1) ≠ 0#32 then ((i + 1) <<< 5) + (32 - ffs (b (i + 1))) else scan b i

theorem bit_getMsbD (p : ℕ) {j : ℕ} (hj : j < 32) : (bit p).getMsbD j = decide (j = p % 32) := by
  have hmsb : ∀ m < 32, (0x80000000#32).getMsbD m = decide (m = 0) := by decide
  have hp : p &&& 31 = p % 32 := Nat.and_two_pow_sub_one_eq_mod p 5
  have hlt : p % 32 < 32 := Nat.mod_lt p (by decide)
  rw [bit,hp,BitVec.getMsbD_ushiftRight,hmsb (j - p % 32) (by omega),decide_eq_true hj,Bool.true_and]
  rw [Bool.eq_iff_iff]
  simp only [Bool.and_eq_true,Bool.not_eq_true',decide_eq_false_iff_not,decide_eq_true_eq]
  omega

theorem shiftRight_five (p : ℕ) : p >>> 5 = p / 32 := Nat.shiftRight_eq_div_pow p 5

theorem marked_mark : (b.mark p).Marked q ↔ q = p ∨ b.Marked q := by
  unfold Marked mark
  rw [shiftRight_five]
  have hlt : q % 32 < 32 := Nat.mod_lt q (by decide)
  by_cases hword : q / 32 = p / 32
  · rw [hword,update_self,BitVec.getMsbD_or,Bool.or_eq_true,bit_getMsbD p hlt,
      decide_eq_true_eq,or_comm]
    exact or_congr_left ⟨fun _ => by omega,fun h => by omega⟩
  · rw [update_of_ne hword]
    exact (or_iff_right fun h => hword (congrArg (· / 32) h)).symm

theorem marked_unmark : (b.unmark p).Marked q ↔ q ≠ p ∧ b.Marked q := by
  unfold Marked unmark
  rw [shiftRight_five]
  have hlt : q % 32 < 32 := Nat.mod_lt q (by decide)
  by_cases hword : q / 32 = p / 32
  · rw [hword,update_self,BitVec.getMsbD_and,BitVec.getMsbD_not,bit_getMsbD p hlt,
      decide_eq_true hlt,Bool.true_and,Bool.and_eq_true,Bool.not_eq_true',decide_eq_false_iff_not,
      and_comm]
    exact and_congr_left' (not_congr ⟨fun _ => by omega,fun h => by omega⟩)
  · rw [update_of_ne hword]
    exact (and_iff_right fun h => hword (congrArg (· / 32) h)).symm

theorem greatest_word (h : b i ≠ 0#32) :
    Greatest (fun p => p < 32 * (i + 1) ∧ b.Marked p) (i <<< 5 + (32 - ffs (b i))) := by
  obtain ⟨hlt,hset,hclear⟩ := ffs_spec h
  have hshift : i <<< 5 = 32 * i := by rw [Nat.shiftLeft_eq,Nat.mul_comm]
  rw [hshift]
  generalize 32 - ffs (b i) = k at hlt hset hclear
  have hmarked : b.Marked (32 * i + k) := by
    unfold Marked
    rwa [Nat.mul_add_div (by decide),Nat.div_eq_of_lt hlt,Nat.mul_add_mod,Nat.mod_eq_of_lt hlt]
  have hmem : 32 * i + k < 32 * (i + 1) ∧ b.Marked (32 * i + k) := ⟨by omega,hmarked⟩
  constructor
  · rintro q ⟨hq,hmarked⟩
    by_contra hlt'
    unfold Marked at hmarked
    have hword : q / 32 = i := by omega
    rw [hword,hclear (q % 32) (by omega)] at hmarked
    contradiction
  · exact fun _ => hmem
  · exact fun hnone => absurd hmem (hnone _)

theorem not_marked_of_word (h : b i = 0#32) (hq : q / 32 = i) : ¬b.Marked q := by
  unfold Marked
  rw [hq,h]
  simp

theorem scan_greatest (b : Bitmap) (i : ℕ) :
    Greatest (fun p => p < 32 * (i + 1) ∧ b.Marked p) (b.scan i) := by
  induction i with
  | zero =>
    unfold scan
    split_ifs with h
    · exact greatest_word h
    · have hnone : ∀ p, ¬(p < 32 * (0 + 1) ∧ b.Marked p) := fun p hp =>
        not_marked_of_word (not_not.mp h) (Nat.div_eq_of_lt (by omega)) hp.2
      exact ⟨fun p hp => absurd hp (hnone p),fun ⟨p,hp⟩ => absurd hp (hnone p),fun _ => rfl⟩
  | succ i ih =>
    unfold scan
    split_ifs with h
    · exact greatest_word h
    · apply ih.congr
      intro p
      constructor
      · exact fun hp => ⟨by omega,hp.2⟩
      · intro hp
        refine ⟨?_,hp.2⟩
        by_contra hge
        exact not_marked_of_word (not_not.mp h) (by omega) hp.2

end Bitmap
end NanoBSD
