import Mathlib.Data.Set.Card

/-! # Counts of participants

A counter that is raised and lowered by the participants of a protocol is the number of those
whose local state `f x` has a property `Q`, of which there are finitely many although the
participants need not be.
-/
namespace NanoBSD
open Function
variable {θ α : Type}

def Tally (f : θ → α) (Q : α → Prop) (n : ℕ) : Prop := {x | Q (f x)}.encard = n

namespace Tally
variable {f : θ → α} {Q : α → Prop} {n : ℕ} {x : θ} {v : α}

theorem of_forall_not (h : ∀ x, ¬Q (f x)) : Tally f Q 0 := by
  have hempty : {x | Q (f x)} = ∅ := Set.eq_empty_iff_forall_notMem.mpr h
  unfold Tally
  rw [hempty,Set.encard_empty]
  rfl

theorem not_zero (h : Tally f Q n) (hx : Q (f x)) : n ≠ 0 := by
  rintro rfl
  exact Set.eq_empty_iff_forall_notMem.mp (Set.encard_eq_zero.mp h) x hx

variable [DecidableEq θ]

theorem of_list {l : List θ} [DecidablePred Q] (hnodup : l.Nodup) (hall : ∀ x, x ∈ l) :
    Tally f Q (l.countP fun x => Q (f x)) := by
  have heq : {x | Q (f x)} = ((l.filter fun x => Q (f x)).toFinset : Set θ) := by
    ext x
    simp [hall]
  unfold Tally
  rw [heq,Set.encard_coe_eq_coe_finsetCard,List.toFinset_card_of_nodup (hnodup.filter _),
    List.countP_eq_length_filter]

theorem keep (h : Tally f Q n) (hv : Q v ↔ Q (f x)) : Tally (update f x v) Q n := by
  have heq : {y | Q (update f x v y)} = {y | Q (f y)} := by
    ext y
    by_cases hy : y = x
    · subst hy
      simp [hv]
    · simp [hy]
  unfold Tally
  rw [heq]
  exact h

theorem join (h : Tally f Q n) (hv : Q v) (hx : ¬Q (f x)) : Tally (update f x v) Q (n + 1) := by
  have heq : {y | Q (update f x v y)} = insert x {y | Q (f y)} := by
    ext y
    by_cases hy : y = x <;> simp [hy,hv]
  have hout : x ∉ {y | Q (f y)} := hx
  unfold Tally
  rw [heq,Set.encard_insert_of_notMem hout,h]
  rfl

theorem quit (h : Tally f Q n) (hv : ¬Q v) (hx : Q (f x)) : Tally (update f x v) Q (n - 1) := by
  have heq : {y | Q (update f x v y)} = {y | Q (f y)} \ {x} := by
    ext y
    by_cases hy : y = x <;> simp [hy,hv]
  have hin : x ∈ {y | Q (f y)} := hx
  have hsum := Set.encard_sdiff_singleton_add_one hin
  have hcount : ((n - 1 : ℕ) : ℕ∞) + 1 = n := by
    exact_mod_cast Nat.sub_add_cancel (Nat.pos_of_ne_zero (h.not_zero hx))
  unfold Tally at h ⊢
  rw [h,← hcount] at hsum
  rw [heq]
  exact ENat.add_left_injective_of_ne_top (by simp) hsum

end Tally
end NanoBSD
