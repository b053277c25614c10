import Mathlib.Data.List.Basic

/-! # Handing out in order what waits in slots

Elements wait in slots and are handed out one by one. If what is handed out next comes
before everything that still waits, the elements come out in order.
-/
namespace NanoBSD
open Function List
variable {α ι : Type} {R : α → α → Prop} {out : List α} {slots : ι → List α}

structure InOrder (R : α → α → Prop) (out : List α) (slots : ι → List α) : Prop where
  sorted : out.Pairwise R
  ahead : ∀ j, ∀ f ∈ slots j, ∀ d ∈ out, R d f
  slot : ∀ j, (slots j).Pairwise R

namespace InOrder

theorem empty : InOrder R [] (fun _ : ι => []) :=
  ⟨List.Pairwise.nil,fun _ _ hf => absurd hf not_mem_nil,fun _ => List.Pairwise.nil⟩

theorem sorted_snoc (h : InOrder R out slots) {m : α} (hm : ∀ d ∈ out, R d m) :
    (out ++ [m]).Pairwise R :=
  pairwise_append.mpr ⟨h.sorted,pairwise_singleton R m,fun d hd _ hf =>
    mem_singleton.mp hf ▸ hm d hd⟩

theorem pass (h : InOrder R out slots) {m : α} (hm : ∀ d ∈ out, R d m)
    (hempty : ∀ j, slots j = []) : InOrder R (out ++ [m]) slots where
  sorted := h.sorted_snoc hm
  ahead j f hf := by simp [hempty j] at hf
  slot := h.slot

variable [DecidableEq ι]

theorem hand (h : InOrder R out slots) {j : ι} {m : α} {ms : List α} (hj : slots j = m :: ms)
    (hmin : ∀ i, i ≠ j → ∀ f ∈ slots i, R m f) : InOrder R (out ++ [m]) (update slots j ms) := by
  have hslot := h.slot j
  rw [hj] at hslot
  obtain ⟨hfirst,hrest⟩ := pairwise_cons.mp hslot
  refine ⟨h.sorted_snoc fun d hd => h.ahead j m (by simp [hj]) d hd,?_,?_⟩
  · intro i f hf d hd
    rw [mem_append,mem_singleton] at hd
    by_cases hij : i = j
    · subst hij
      rw [update_self] at hf
      rcases hd with hd | rfl
      · exact h.ahead i f (by simp [hj,hf]) d hd
      · exact hfirst f hf
    · rw [update_of_ne hij] at hf
      rcases hd with hd | rfl
      · exact h.ahead i f hf d hd
      · exact hmin i hij f hf
  · refine (forall_update_iff slots fun _ l => l.Pairwise R).mpr ⟨hrest,fun i _ => h.slot i⟩

theorem store (h : InOrder R out slots) {j : ι} {f : α} (hout : ∀ d ∈ out, R d f)
    (hslot : ∀ g ∈ slots j, R g f) : InOrder R out (update slots j (slots j ++ [f])) := by
  refine ⟨h.sorted,?_,?_⟩
  · refine (forall_update_iff slots fun _ l => ∀ g ∈ l, ∀ d ∈ out, R d g).mpr
      ⟨fun g hg => ?_,fun i _ => h.ahead i⟩
    rcases mem_append.mp hg with hg | hg
    · exact h.ahead j g hg
    · exact mem_singleton.mp hg ▸ hout
  · refine (forall_update_iff slots fun _ l => l.Pairwise R).mpr ⟨?_,fun i _ => h.slot i⟩
    exact pairwise_append.mpr ⟨h.slot j,pairwise_singleton R f,fun g hg _ hf =>
      mem_singleton.mp hf ▸ hslot g hg⟩

end InOrder

/-! ## How many wait in the first slots -/

def waiting (slots : ℕ → List α) : ℕ → ℕ
  | 0 => 0
  | z + 1 => waiting slots z + (slots z).length

variable {slots : ℕ → List α} {z j : ℕ}

theorem waiting_update_of_le {l : List α} (h : z ≤ j) :
    waiting (update slots j l) z = waiting slots z := by
  induction z with
  | zero => rfl
  | succ z ih => rw [waiting,waiting,ih (by omega),update_of_ne (by omega)]

theorem waiting_update (slots : ℕ → List α) (l : List α) (h : j < z) :
    waiting (update slots j l) z + (slots j).length = waiting slots z + l.length := by
  induction z with
  | zero => omega
  | succ z ih =>
    rw [waiting,waiting]
    by_cases hj : j = z
    · subst hj
      rw [update_self,waiting_update_of_le (Nat.le_refl j)]
      omega
    · rw [update_of_ne (Ne.symm hj)]
      have := ih (by omega)
      omega

theorem waiting_eq_zero : waiting slots z = 0 ↔ ∀ j < z, slots j = [] := by
  induction z with
  | zero => simp [waiting]
  | succ z ih =>
    rw [waiting,Nat.add_eq_zero_iff,ih,length_eq_zero_iff]
    constructor
    · rintro ⟨hlt,hz⟩ j hj
      rcases Nat.lt_succ_iff_lt_or_eq.mp hj with hj | rfl
      · exact hlt j hj
      · exact hz
    · intro h
      exact ⟨fun j hj => h j (Nat.lt_succ_of_lt hj),h z (Nat.lt_succ_self z)⟩

end NanoBSD
