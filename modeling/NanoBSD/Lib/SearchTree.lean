import Mathlib.Tactic.Common

/-! # Search trees with a comparison

A tree is searched from the root with a comparison of elements. Its walk is the list of its
elements from left to right. What an insertion does to the walk of a tree does not depend
on the shape of the tree, provided the walk is in order.
-/
namespace NanoBSD
open List
variable {α : Type}

inductive SearchTree (α : Type)
  | leaf
  | node (l : SearchTree α) (a : α) (r : SearchTree α)

namespace SearchTree

def walk : SearchTree α → List α
  | leaf => []
  | node l a r => l.walk ++ a :: r.walk

def insert (cmp : α → α → Ordering) (x : α) : SearchTree α → Option (SearchTree α)
  | leaf => some (node leaf x leaf)
  | node l a r =>
    match cmp x a with
    | .lt => (insert cmp x l).map fun l => node l a r
    | .gt => (insert cmp x r).map fun r => node l a r
    | .eq => none

variable {cmp : α → α → Ordering} {before : α → α → Prop} {x : α} {t t' : SearchTree α}

theorem insert_isSome (h : ∀ a ∈ t.walk, cmp x a ≠ .eq) : (t.insert cmp x).isSome := by
  induction t with
  | leaf => rfl
  | node l a r ihl ihr =>
    rw [insert]
    cases hcmp : cmp x a with
    | lt =>
      rw [Option.isSome_map]
      exact ihl fun b hb => h b (mem_append_left _ hb)
    | gt =>
      rw [Option.isSome_map]
      exact ihr fun b hb => h b (mem_append_right _ (mem_cons_of_mem a hb))
    | eq => exact absurd hcmp (h a (mem_append_right _ mem_cons_self))

theorem walk_insert (hsorted : t.walk.Pairwise before) (h : t.insert cmp x = some t')
    (hlt : ∀ a, cmp x a = .lt → before x a) (hgt : ∀ a, cmp x a = .gt → before a x)
    (htrans : ∀ a b c, before a b → before b c → before a c) :
    ∃ pre post, t.walk = pre ++ post ∧ t'.walk = pre ++ x :: post ∧
      (∀ a ∈ pre, before a x) ∧ ∀ a ∈ post, before x a := by
  induction t generalizing t' with
  | leaf =>
    cases h
    exact ⟨[],[],rfl,rfl,by simp,by simp⟩
  | node l a r ihl ihr =>
    obtain ⟨hl,har,hla⟩ := pairwise_append.mp hsorted
    obtain ⟨ha,hr⟩ := pairwise_cons.mp har
    rw [insert] at h
    cases hcmp : cmp x a with
    | eq =>
      rw [hcmp] at h
      cases h
    | lt =>
      rw [hcmp] at h
      obtain ⟨l',hl',rfl⟩ := Option.map_eq_some_iff.mp h
      obtain ⟨pre,post,hw,hw',hpre,hpost⟩ := ihl hl hl'
      refine ⟨pre,post ++ a :: r.walk,by simp [walk,hw],by simp [walk,hw'],hpre,fun b hb => ?_⟩
      rcases mem_append.mp hb with hb | hb
      · exact hpost b hb
      · rcases mem_cons.mp hb with rfl | hb
        · exact hlt b hcmp
        · exact htrans x a b (hlt a hcmp) (ha b hb)
    | gt =>
      rw [hcmp] at h
      obtain ⟨r',hr',rfl⟩ := Option.map_eq_some_iff.mp h
      obtain ⟨pre,post,hw,hw',hpre,hpost⟩ := ihr hr hr'
      refine ⟨l.walk ++ a :: pre,post,by simp [walk,hw],by simp [walk,hw'],fun b hb => ?_,hpost⟩
      rcases mem_append.mp hb with hb | hb
      · exact htrans b a x (hla b hb a mem_cons_self) (hgt a hcmp)
      · rcases mem_cons.mp hb with rfl | hb
        · exact hgt b hcmp
        · exact hpre b hb

end SearchTree
end NanoBSD
