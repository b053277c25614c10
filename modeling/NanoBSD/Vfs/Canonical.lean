import NanoBSD.Lib.Walk

/-! # Canonical mounts

`canonicalMount` follows `mnt_lower` to its end after a slow and a fast pointer
have ruled out a cycle. The loops carry fuel; on a finite set of mounts the fuel
given is always enough, so the answer is that of the C function.
-/
namespace NanoBSD.VfsS2idle
open Option
variable {M : Type} [DecidableEq M]

/-- The cycle check: `true` when the two pointers meet, `false` when the fast one runs off the
chain, `none` while the loop runs. -/
def chase (lower : M → Option M) : ℕ → Option M → Option M → Option Bool
  | 0, _, _ => none
  | fuel + 1, slow, fast =>
    if (fast.bind lower).isSome then
      let slow := slow.bind lower
      let fast := (fast.bind lower).bind lower
      if slow = fast then some true else chase lower fuel slow fast
    else some false

/-- The loop `while (mp->mnt_lower != NULL) mp = mp->mnt_lower`. -/
def follow (lower : M → Option M) : ℕ → M → Option M
  | 0, _ => none
  | fuel + 1, mp =>
    match lower mp with
    | none => some mp
    | some mp => follow lower fuel mp

def canonicalMount [Fintype M] (lower : M → Option M) (mp : M) : Option M :=
  match chase lower (Fintype.card M + 1) (some mp) (some mp) with
  | some false => follow lower (Fintype.card M + 1) mp
  | _ => none

/-- The same with a number of rounds for each loop; `none` while a loop still runs. -/
def canonicalMountIn (lower : M → Option M) (fuel : ℕ) (mp : M) : Option (Option M) :=
  match chase lower fuel (some mp) (some mp) with
  | none => none
  | some true => some none
  | some false => (follow lower fuel mp).map some

variable {lower : M → Option M} {fuel : ℕ}

theorem chase_walk (fuel k : ℕ) (mp : M) :
    chase lower (fuel + 1) (walk lower k mp) (walk lower (2 * k) mp) =
      if (walk lower (2 * k + 1) mp).isSome then
        if walk lower (k + 1) mp = walk lower (2 * (k + 1)) mp then some true
        else chase lower fuel (walk lower (k + 1) mp) (walk lower (2 * (k + 1)) mp)
      else some false := rfl

theorem chase_running (k : ℕ) (mp : M)
    (h : chase lower fuel (walk lower k mp) (walk lower (2 * k) mp) = none) (m : ℕ)
    (hkm : k < m) (hm : m ≤ k + fuel) :
    (walk lower (2 * m - 1) mp).isSome ∧ walk lower m mp ≠ walk lower (2 * m) mp := by
  induction fuel generalizing k with
  | zero => omega
  | succ fuel ih =>
    rw [chase_walk] at h
    split at h
    · rename_i halive
      split at h
      · cases h
      · rename_i hne
        rcases Nat.lt_or_ge (k + 1) m with hlt | hge
        · exact ih (k + 1) h hlt (by omega)
        · obtain rfl : m = k + 1 := by omega
          exact ⟨halive,hne⟩
    · cases h

theorem chase_true (k : ℕ) (mp : M)
    (h : chase lower fuel (walk lower k mp) (walk lower (2 * k) mp) = some true) (j : ℕ) :
    (walk lower j mp).isSome := by
  induction fuel generalizing k with
  | zero => cases h
  | succ fuel ih =>
    rw [chase_walk] at h
    split at h
    · rename_i halive
      split at h
      · rename_i heq
        have hlive : (walk lower (k + 1) mp).isSome := walk_isSome_of_le halive (by omega)
        have hmeet : walk lower (k + 1) mp = walk lower (k + 1 + (k + 1)) mp := by
          rw [heq,Nat.two_mul]
        exact walk_isSome_of_repeat (Nat.succ_pos k) hlive hmeet j
      · exact ih (k + 1) h
    · cases h

theorem chase_false (k : ℕ) (mp : M)
    (h : chase lower fuel (walk lower k mp) (walk lower (2 * k) mp) = some false) :
    ∃ j, walk lower j mp = none := by
  induction fuel generalizing k with
  | zero => cases h
  | succ fuel ih =>
    rw [chase_walk] at h
    split at h
    · split at h
      · cases h
      · exact ih (k + 1) h
    · rename_i hend
      exact ⟨2 * k + 1,not_isSome_iff_eq_none.mp hend⟩

theorem chase_more {fuel' : ℕ} {slow fast : Option M} {b : Bool}
    (h : chase lower fuel slow fast = some b) (hle : fuel ≤ fuel') :
    chase lower fuel' slow fast = some b := by
  induction fuel generalizing fuel' slow fast with
  | zero => cases h
  | succ fuel ih =>
    obtain ⟨rest,rfl⟩ := Nat.exists_eq_add_of_le' (Nat.lt_of_lt_of_le (Nat.succ_pos fuel) hle)
    rw [chase] at h ⊢
    split_ifs at h ⊢ with hlive
    · dsimp only at h ⊢
      split_ifs at h ⊢ with hmeet
      · exact h
      · exact ih h (Nat.le_of_succ_le_succ hle)
    · exact h

section

variable {fuel : ℕ} {mp c : M}

omit [DecidableEq M]

theorem follow_more {fuel' : ℕ} (h : follow lower fuel mp = some c)
    (hle : fuel ≤ fuel') : follow lower fuel' mp = some c := by
  induction fuel generalizing fuel' mp with
  | zero => cases h
  | succ fuel ih =>
    obtain ⟨rest,rfl⟩ := Nat.exists_eq_add_of_le' (Nat.lt_of_lt_of_le (Nat.succ_pos fuel) hle)
    rw [follow] at h ⊢
    cases hl : lower mp with
    | none =>
      rw [hl] at h
      exact h
    | some l =>
      rw [hl] at h
      exact ih h (Nat.le_of_succ_le_succ hle)

theorem follow_eq_some (h : follow lower fuel mp = some c) : EndsAt lower mp c := by
  induction fuel generalizing mp with
  | zero => cases h
  | succ fuel ih =>
    rw [follow] at h
    cases hl : lower mp with
    | none =>
      rw [hl] at h
      cases h
      exact ⟨0,rfl,hl⟩
    | some l =>
      rw [hl] at h
      obtain ⟨k,hk,hc⟩ := ih h
      exact ⟨k + 1,by rw [walk_one_add,hl]; exact hk,hc⟩

theorem follow_isSome (fuel : ℕ) (mp : M) (h : walk lower fuel mp = none) :
    (follow lower fuel mp).isSome := by
  induction fuel generalizing mp with
  | zero => cases h
  | succ fuel ih =>
    rw [follow]
    cases hl : lower mp with
    | none => rfl
    | some l =>
      rw [walk_one_add,hl] at h
      exact ih l h

end

section Finite
variable [Fintype M] {mp c : M}

omit [DecidableEq M] in
theorem follow_answers {j : ℕ} (h : walk lower j mp = none) :
    (follow lower (Fintype.card M + 1) mp).isSome :=
  follow_isSome _ mp (walk_none_of_le (walk_card_eq_none h) (Nat.le_succ _))

theorem chase_terminates (lower : M → Option M) (mp : M) :
    chase lower (Fintype.card M + 1) (some mp) (some mp) ≠ none := by
  intro h
  have hrun := fun m => chase_running 0 mp h m
  cases hend : walk lower (Fintype.card M) mp with
  | none =>
    have hlive := (hrun (Fintype.card M + 1) (by omega) (by omega)).1
    rw [walk_none_of_le hend (by omega)] at hlive
    cases hlive
  | some c =>
    obtain ⟨k,hk,hle,hmeet⟩ := exists_meeting lower mp (by rw [hend]; rfl)
    exact (hrun k hk (by omega)).2 hmeet

theorem canonicalMount_eq_some_iff : canonicalMount lower mp = some c ↔ EndsAt lower mp c := by
  constructor
  · intro h
    unfold canonicalMount at h
    split at h
    · exact follow_eq_some h
    · cases h
  · intro h
    have hend : ∃ j, walk lower j mp = none := by
      obtain ⟨k,hk,hc⟩ := h
      exact ⟨k + 1,by rw [walk_succ,hk]; exact hc⟩
    obtain ⟨j,hj⟩ := hend
    obtain ⟨c',hc'⟩ := isSome_iff_exists.mp (follow_answers hj)
    unfold canonicalMount
    cases hch : chase lower (Fintype.card M + 1) (some mp) (some mp) with
    | none => exact absurd hch (chase_terminates lower mp)
    | some b =>
      cases b with
      | true =>
        have hlive := chase_true 0 mp hch j
        rw [hj] at hlive
        cases hlive
      | false =>
        simp only []
        rw [hc',EndsAt.unique (follow_eq_some hc') h]

theorem canonicalMount_eq_none_iff :
    canonicalMount lower mp = none ↔ ∀ k, (walk lower k mp).isSome := by
  constructor
  · intro h k
    by_contra hk
    obtain ⟨c,hc⟩ := isSome_iff_exists.mp
      (follow_answers (not_isSome_iff_eq_none.mp hk))
    cases h.symm.trans (canonicalMount_eq_some_iff.mpr (follow_eq_some hc))
  · intro hlive
    cases hcan : canonicalMount lower mp with
    | none => rfl
    | some c =>
      obtain ⟨k,hk,hc⟩ := canonicalMount_eq_some_iff.mp hcan
      have hnext := hlive (k + 1)
      rw [walk_succ,hk,bind_some,hc] at hnext
      cases hnext

/-- With more rounds than mounts the function returns: `NULL` exactly if the chain below the mount
never ends, else its last mount. -/
theorem canonicalMountIn_returns (lower : M → Option M) (mp : M) :
    ∃ r, (∀ fuel, Fintype.card M < fuel → canonicalMountIn lower fuel mp = some r) ∧
      (r = none ↔ ∀ k, (walk lower k mp).isSome) ∧ ∀ c, r = some c ↔ EndsAt lower mp c := by
  refine ⟨canonicalMount lower mp,fun fuel hfuel => ?_,canonicalMount_eq_none_iff,
    fun c => canonicalMount_eq_some_iff⟩
  unfold canonicalMountIn canonicalMount
  cases hch : chase lower (Fintype.card M + 1) (some mp) (some mp) with
  | none => exact absurd hch (chase_terminates lower mp)
  | some b =>
    rw [chase_more hch hfuel]
    cases b with
    | true => rfl
    | false =>
      obtain ⟨j,hj⟩ := chase_false 0 mp hch
      obtain ⟨c,hc⟩ := isSome_iff_exists.mp (follow_answers hj)
      dsimp only
      rw [hc,follow_more hc hfuel]
      rfl

theorem canonicalMount_idem (h : canonicalMount lower mp = some c) :
    canonicalMount lower c = some c :=
  canonicalMount_eq_some_iff.mpr (canonicalMount_eq_some_iff.mp h).last

end Finite
end NanoBSD.VfsS2idle
