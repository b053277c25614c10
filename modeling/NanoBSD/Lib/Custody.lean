import Mathlib.Data.List.Basic

/-! # References in places

References are numbered as they are taken. Each is kept in one place at a time, may be handed
from place to place, and is dropped from the place it is in. When all places are empty, each
reference that was taken has been dropped once.
-/
namespace NanoBSD
open Function

/-- The reference in each place of `ι`, the number of references taken so far, and those that
were dropped, the last one first. -/
@[ext]
structure Custody (ι : Type) where
  place : ι → Option ℕ
  taken : ℕ
  dropped : List ℕ

namespace Custody
variable {ι : Type} [DecidableEq ι]

def take (c : Custody ι) (i : ι) : Custody ι :=
  { c with place := update c.place i (some c.taken), taken := c.taken + 1 }

def hand (c : Custody ι) (i j : ι) : Custody ι :=
  { c with place := update (update c.place i none) j (c.place i) }

def drop (c : Custody ι) (i : ι) (n : ℕ) : Custody ι :=
  { c with place := update c.place i none, dropped := n :: c.dropped }

structure Inv (c : Custody ι) : Prop where
  apart : ∀ i j n, c.place i = some n → c.place j = some n → i = j
  live : ∀ i n, c.place i = some n → n ∉ c.dropped
  nodup : c.dropped.Nodup
  kept : ∀ n, n < c.taken ↔ n ∈ c.dropped ∨ ∃ i, c.place i = some n

namespace Inv
variable {c : Custody ι} {i j : ι} {n : ℕ}

theorem take (h : c.Inv) (hi : c.place i = none) : (c.take i).Inv := by
  have hnew (j : ι) : c.place j ≠ some c.taken := fun hj =>
    absurd ((h.kept c.taken).mpr (.inr ⟨j,hj⟩)) (Nat.lt_irrefl _)
  have hfresh : c.taken ∉ c.dropped := fun hd =>
    absurd ((h.kept c.taken).mpr (.inl hd)) (Nat.lt_irrefl _)
  refine ⟨?_,?_,h.nodup,?_⟩
  all_goals simp only [Custody.take,update_apply]
  · grind [h.apart]
  · grind [h.live]
  · intro n
    rw [Nat.lt_succ_iff_lt_or_eq,h.kept]
    constructor
    · rintro ((hd | ⟨j,hj⟩) | rfl)
      · exact .inl hd
      · exact .inr ⟨j,by grind⟩
      · exact .inr ⟨i,if_pos rfl⟩
    · rintro (hd | ⟨j,hj⟩)
      · exact .inl (.inl hd)
      · grind

theorem hand (h : c.Inv) (hj : c.place j = none) : (c.hand i j).Inv := by
  refine ⟨?_,?_,h.nodup,?_⟩
  all_goals simp only [Custody.hand,update_apply]
  · grind [h.apart]
  · grind [h.live]
  · intro n
    rw [h.kept]
    refine or_congr_right ⟨?_,?_⟩
    · rintro ⟨k,hk⟩
      by_cases hki : k = i
      · exact ⟨j,by grind⟩
      · exact ⟨k,by grind⟩
    · rintro ⟨k,hk⟩
      by_cases hkj : k = j
      · exact ⟨i,by grind⟩
      · exact ⟨k,by grind⟩

theorem drop (h : c.Inv) (hi : c.place i = some n) : (c.drop i n).Inv := by
  have hlive := h.live i n hi
  refine ⟨?_,?_,List.nodup_cons.mpr ⟨hlive,h.nodup⟩,?_⟩
  all_goals simp only [Custody.drop,update_apply,List.mem_cons]
  · grind [h.apart]
  · intro j m hj
    have happart := h.apart i j n hi
    have hm := h.live j m
    grind
  · intro m
    rw [h.kept]
    constructor
    · rintro (hd | ⟨j,hj⟩)
      · exact .inl (.inr hd)
      · by_cases hji : j = i
        · exact .inl (.inl (by grind))
        · exact .inr ⟨j,by grind⟩
    · rintro ((rfl | hd) | ⟨j,hj⟩)
      · exact .inr ⟨i,hi⟩
      · exact .inl hd
      · exact .inr ⟨j,by grind⟩

end Inv
end Custody
end NanoBSD
