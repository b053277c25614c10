import Mathlib.Data.List.Nodup

/-! # Lists searched by a key

A list in which no key occurs twice is a finite map from keys to elements. A list gone
through once for each key, in the order of the keys, is sorted by key.
-/
namespace List
variable {α κ : Type} [DecidableEq κ] (key : α → κ)

theorem find_key {l : List α} (hn : (l.map key).Nodup) {a : α} (h : a ∈ l) :
    l.find? (fun b => key b = key a) = some a := by
  induction l with
  | nil => cases h
  | cons b l ih =>
    rw [map_cons,nodup_cons] at hn
    rcases mem_cons.mp h with rfl | h
    · simp
    · have hne : key b ≠ key a := fun he => hn.1 (he ▸ mem_map_of_mem h)
      rw [find?_cons_of_neg (by simpa using hne)]
      exact ih hn.2 h

theorem find_key_none {l : List α} {k : κ} (h : k ∉ l.map key) :
    l.find? (fun b => key b = k) = none := by
  apply find?_eq_none.mpr
  intro b hb he
  exact h (mem_map.mpr ⟨b,hb,by simpa using he⟩)

def byKey (ks : List κ) (l : List α) : List α := ks.flatMap fun k => l.filter fun a => key a = k

variable {key} {ks : List κ} {l : List α} {a : α}

@[simp] theorem mem_byKey : a ∈ byKey key ks l ↔ a ∈ l ∧ key a ∈ ks := by
  simp only [byKey,mem_flatMap,mem_filter,decide_eq_true_eq]
  constructor
  · rintro ⟨_,hk,ha,rfl⟩
    exact ⟨ha,hk⟩
  · rintro ⟨ha,hk⟩
    exact ⟨_,hk,ha,rfl⟩

theorem nodup_byKey (hks : ks.Nodup) (hl : l.Nodup) : (byKey key ks l).Nodup := by
  refine nodup_flatMap.mpr ⟨fun k _ => hl.filter _,hks.imp ?_⟩
  intro k k' hne a ha ha'
  simp only [mem_filter,decide_eq_true_eq] at ha ha'
  exact hne (ha.2.symm.trans ha'.2)

theorem pairwise_byKey {R : κ → κ → Prop} (hks : ks.Pairwise R) :
    (byKey key ks l).Pairwise fun a b => key a = key b ∨ R (key a) (key b) := by
  refine pairwise_flatMap.mpr ⟨fun k _ => ?_,hks.imp ?_⟩
  · apply pairwise_of_forall_mem_list
    intro a ha b hb
    simp only [mem_filter,decide_eq_true_eq] at ha hb
    exact .inl (ha.2.trans hb.2.symm)
  · intro k k' hR a ha b hb
    simp only [mem_filter,decide_eq_true_eq] at ha hb
    rw [ha.2,hb.2]
    exact .inr hR

end List
