import Mathlib.Algebra.Group.Nat.Defs
import Mathlib.Tactic.Common

/-! # A window over a set of numbers

A circular bitmap keeps the last `m` words of an unbounded one, word `q` in place `q % m`.
The window is moved up by clearing the places of the words it comes to.
-/
namespace NanoBSD.Window
open Function
variable {w m : ℕ}

/-- The words up to `top` that are kept show which numbers have the property `A`. -/
def Shows (m : ℕ) (B : ℕ → BitVec w) (top : ℕ) (A : ℕ → Prop) : Prop :=
  ∀ q ≤ top, top < q + m → ∀ b < w, (B (q % m)).getLsbD b = true ↔ A (q * w + b)

def clear (m top : ℕ) : ℕ → (ℕ → BitVec w) → ℕ → BitVec w
  | 0, B => B
  | k + 1, B => update (clear m top k B) ((top + k + 1) % m) 0

def mark (m : ℕ) (B : ℕ → BitVec w) (x : ℕ) : ℕ → BitVec w :=
  update B (x / w % m) (B (x / w % m) ||| 1#w <<< (x % w))

section Clear
variable {B : ℕ → BitVec w} {top top' k : ℕ} {A : ℕ → Prop}

theorem clear_of_eq {i j : ℕ} (hj : j < k) (hi : (top + j + 1) % m = i) :
    clear m top k B i = 0 := by
  induction k with
  | zero => omega
  | succ k ih =>
    rw [clear]
    by_cases hik : i = (top + k + 1) % m
    · rw [hik,update_self]
    · rw [update_of_ne hik]
      refine ih ?_
      rcases Nat.lt_succ_iff_lt_or_eq.mp hj with h | rfl
      · exact h
      · exact absurd hi.symm hik

theorem clear_of_ne {i : ℕ} (hi : ∀ j < k, (top + j + 1) % m ≠ i) : clear m top k B i = B i := by
  induction k with
  | zero => rfl
  | succ k ih =>
    rw [clear,update_of_ne (hi k (Nat.lt_succ_self k)).symm]
    exact ih fun j hj => hi j (Nat.lt_succ_of_lt hj)

theorem place_inj {p q : ℕ} (hpq : p ≤ q) (hlt : q < p + m) (h : p % m = q % m) : p = q := by
  have hd : (q - p) % m = 0 := Nat.sub_mod_eq_zero_of_mod_eq h.symm
  rw [Nat.mod_eq_of_lt (by omega)] at hd
  omega

theorem Shows.clear (h : Shows m B top A) (hm : 0 < m) (htop : top ≤ top')
    (hA : ∀ x, A x → x / w ≤ top) : Shows m (clear m top (min (top' - top) m) B) top' A := by
  intro q hq hlt b hb
  by_cases hold : q ≤ top
  · rw [clear_of_ne fun j hj hplace => ?_]
    · exact h q hold (by omega) b hb
    · have := place_inj (p := q) (by omega) (by omega) hplace.symm
      omega
  · have hplace : (top + (q - top - 1) % m + 1) % m = q % m := by
      conv_rhs => rw [show q = top + (q - top - 1) + 1 by omega]
      rw [Nat.add_mod,Nat.add_mod top,Nat.mod_mod,← Nat.add_mod top,← Nat.add_mod]
    have hk : (q - top - 1) % m < min (top' - top) m := by
      have h1 := Nat.mod_lt (q - top - 1) hm
      have h2 := Nat.mod_le (q - top - 1) m
      omega
    rw [clear_of_eq hk hplace]
    refine ⟨fun hbit => by simp at hbit,fun hx => absurd (hA _ hx) ?_⟩
    rw [Nat.mul_comm,Nat.mul_add_div (by omega),Nat.div_eq_of_lt hb]
    omega

end Clear

section Mark
variable {B : ℕ → BitVec w} {top x : ℕ} {A : ℕ → Prop}

theorem Shows.test (h : Shows m B top A) (hw : 0 < w) (hle : x / w ≤ top)
    (hlt : top < x / w + m) : (B (x / w % m)).getLsbD (x % w) = true ↔ A x := by
  have hx := h (x / w) hle hlt (x % w) (Nat.mod_lt x hw)
  rwa [Nat.div_add_mod'] at hx

theorem mark_bit {b : ℕ} (hb : b < w) (v : BitVec w) :
    (v ||| 1#w <<< x).getLsbD b = true ↔ v.getLsbD b = true ∨ b = x := by
  rw [BitVec.getLsbD_or,Bool.or_eq_true,BitVec.getLsbD_shiftLeft,BitVec.getLsbD_one]
  refine or_congr_right ?_
  simp only [Bool.and_eq_true,Bool.not_eq_true',decide_eq_true_eq,decide_eq_false_iff_not]
  omega

theorem Shows.mark (h : Shows m B top A) (hw : 0 < w) (hle : x / w ≤ top)
    (hlt : top < x / w + m) : Shows m (mark m B x) top fun y => A y ∨ y = x := by
  intro q hq hqt b hb
  have hsplit : q * w + b = x ↔ q = x / w ∧ b = x % w := by
    constructor
    · rintro rfl
      rw [Nat.mul_comm,Nat.mul_add_div hw,Nat.div_eq_of_lt hb,Nat.mul_add_mod,Nat.mod_eq_of_lt hb]
      exact ⟨rfl,rfl⟩
    · rintro ⟨rfl,rfl⟩
      exact Nat.div_add_mod' x w
  unfold Window.mark
  by_cases hplace : q % m = x / w % m
  · have hqx : q = x / w := by
      rcases Nat.le_total q (x / w) with hle' | hle'
      · exact place_inj hle' (by omega) hplace
      · exact (place_inj hle' (by omega) hplace.symm).symm
    rw [hplace,update_self,mark_bit hb,← hplace,h q hq hqt b hb]
    exact or_congr_right (hsplit.trans (and_iff_right hqx)).symm
  · rw [update_of_ne hplace,h q hq hqt b hb]
    exact ⟨.inl,fun hx => hx.resolve_right fun hx => hplace (by rw [(hsplit.mp hx).1])⟩

end Mark
end NanoBSD.Window
