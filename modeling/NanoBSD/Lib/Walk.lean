import Mathlib.Data.Fintype.Pigeonhole

/-! # Walks along a partial successor function

`walk next k a` follows `next` for `k` steps from `a`. On a finite type a walk
either ends within as many steps as there are elements, or repeats a position
within that many steps; in the second case the positions `k` and `2 * k` agree
for some small positive `k`, which is what a slow and a fast pointer detect.
-/
namespace NanoBSD
variable {α : Type*} (next : α → Option α)

def walk : ℕ → α → Option α
  | 0, a => some a
  | k + 1, a => (walk k a).bind next

def EndsAt (a c : α) : Prop := ∃ k, walk next k a = some c ∧ next c = none
@[simp] theorem walk_zero (a : α) : walk next 0 a = some a := rfl
theorem walk_succ (k : ℕ) (a : α) : walk next (k + 1) a = (walk next k a).bind next := rfl

theorem walk_add (i j : ℕ) (a : α) : walk next (i + j) a = (walk next i a).bind (walk next j) := by
  induction j with
  | zero => cases walk next i a <;> simp
  | succ j ih =>
    rw [← Nat.add_assoc,walk_succ,ih]
    cases walk next i a <;> rfl

theorem walk_one_add (k : ℕ) (a : α) : walk next (k + 1) a = (next a).bind (walk next k) := by
  rw [Nat.add_comm,walk_add]
  rfl

variable {next} {i j d : ℕ} {a c : α}

theorem walk_none_of_le (h : walk next i a = none) (hij : i ≤ j) : walk next j a = none := by
  obtain ⟨d,rfl⟩ := Nat.exists_eq_add_of_le hij
  rw [walk_add,h]
  rfl

theorem walk_isSome_of_le (h : (walk next j a).isSome) (hij : i ≤ j) : (walk next i a).isSome := by
  by_contra hn
  rw [Option.not_isSome_iff_eq_none] at hn
  rw [walk_none_of_le hn hij] at h
  exact absurd h (by simp)

theorem walk_add_period (h : walk next i a = walk next (i + d) a)
    {k : ℕ} (hk : i ≤ k) (q : ℕ) : walk next (k + d * q) a = walk next k a := by
  have hone : ∀ k, i ≤ k → walk next (k + d) a = walk next k a := by
    intro k hk
    obtain ⟨r,rfl⟩ := Nat.exists_eq_add_of_le hk
    rw [Nat.add_right_comm,walk_add,← h,← walk_add]
  induction q with
  | zero => rfl
  | succ q ih => rw [Nat.mul_succ,← Nat.add_assoc,hone _ (hk.trans (Nat.le_add_right _ _)),ih]

theorem walk_isSome_of_repeat (hd : 0 < d) (hi : (walk next i a).isSome)
    (h : walk next i a = walk next (i + d) a) (k : ℕ) : (walk next k a).isSome := by
  have hp := walk_add_period h (le_refl i) k
  rw [← hp] at hi
  refine walk_isSome_of_le hi ?_
  have := Nat.le_mul_of_pos_left k hd
  omega

theorem EndsAt.unique {c' : α} (h : EndsAt next a c) (h' : EndsAt next a c') : c = c' := by
  obtain ⟨k,hk,hc⟩ := h
  obtain ⟨j,hj,hc'⟩ := h'
  have hend : ∀ {x : α} {m : ℕ}, walk next m a = some x → next x = none → walk next (m + 1) a = none := by
    intro x m hm hx
    rw [walk_succ,hm]
    exact hx
  rcases lt_trichotomy k j with hkj | rfl | hjk
  · rw [walk_none_of_le (hend hk hc) hkj] at hj
    cases hj
  · rw [hk] at hj
    exact Option.some.inj hj
  · rw [walk_none_of_le (hend hj hc') hjk] at hk
    cases hk

theorem EndsAt.last (h : EndsAt next a c) : EndsAt next c c := by
  obtain ⟨_,_,hc⟩ := h
  exact ⟨0,rfl,hc⟩

section Finite
variable [Fintype α] {a : α}

/-- Pigeonhole: a walk alive after `card α` steps has visited a position twice. -/
theorem exists_repeat (h : (walk next (Fintype.card α) a).isSome) :
    ∃ i d, 0 < d ∧ i + d ≤ Fintype.card α ∧ walk next i a = walk next (i + d) a := by
  have hlive : ∀ i : Fin (Fintype.card α + 1), (walk next i a).isSome := fun i =>
    walk_isSome_of_le h (Nat.lt_succ_iff.mp i.isLt)
  obtain ⟨i,j,hne,he⟩ := Fintype.exists_ne_map_eq_of_card_lt
    (fun i : Fin (Fintype.card α + 1) => (walk next i a).get (hlive i)) (by simp)
  have hw : walk next i a = walk next j a := by
    rw [← Option.some_get (hlive i),← Option.some_get (hlive j),he]
  rcases Nat.lt_or_gt_of_ne (fun h => hne (Fin.ext h)) with hij | hji
  · exact ⟨i,j - i,by omega,by have := j.isLt; omega,by rwa [Nat.add_sub_cancel' hij.le]⟩
  · exact ⟨j,i - j,by omega,by have := i.isLt; omega,by rw [Nat.add_sub_cancel' hji.le]; exact hw.symm⟩

/-- If the walk does not end, a slow and a fast pointer meet within `card α` rounds. -/
theorem exists_meeting (next : α → Option α) (a : α) (h : (walk next (Fintype.card α) a).isSome) :
    ∃ k, 0 < k ∧ k ≤ Fintype.card α ∧ walk next k a = walk next (2 * k) a := by
  obtain ⟨i,d,hd,hle,he⟩ := exists_repeat h
  -- The first multiple of the period past the entry of the cycle.
  have hlt : i < d * (i / d + 1) := by
    have := Nat.lt_div_mul_add hd (a := i)
    rw [Nat.mul_succ,Nat.mul_comm]
    exact this
  have hup : d * (i / d + 1) ≤ i + d := by
    have := Nat.mul_div_le i d
    rw [Nat.mul_succ]
    omega
  refine ⟨d * (i / d + 1),by omega,by omega,?_⟩
  rw [Nat.two_mul]
  exact (walk_add_period he hlt.le (i / d + 1)).symm

theorem walk_isSome_of_card (h : (walk next (Fintype.card α) a).isSome) (k : ℕ) :
    (walk next k a).isSome := by
  obtain ⟨i,d,hd,hle,he⟩ := exists_repeat h
  exact walk_isSome_of_repeat hd (walk_isSome_of_le h (by omega)) he k

theorem walk_card_eq_none {k : ℕ} (h : walk next k a = none) :
    walk next (Fintype.card α) a = none := by
  by_contra hne
  have hlive := walk_isSome_of_card (Option.isSome_iff_ne_none.mpr hne) k
  rw [h] at hlive
  cases hlive

end Finite
end NanoBSD
