import Mathlib.Tactic.Common

/-! # The last answer in a history

A history is a list of events, the newest one at the end.
-/
namespace NanoBSD
variable {α β : Type} (f : α → Option β)

def latest (l : List α) : Option β := (l.filterMap f).getLast?

theorem latest_append (l m : List α) : latest f (l ++ m) = (latest f m).or (latest f l) := by
  rw [latest,List.filterMap_append,List.getLast?_append]
  rfl

theorem latest_of_none {l : List α} (h : ∀ a ∈ l, f a = none) : latest f l = none := by
  rw [latest,List.filterMap_eq_nil_iff.mpr h]
  rfl

def Fresh (old new : List α) (b : β) : Prop := ∃ l, new = old ++ l ∧ latest f l = some b

namespace Fresh
variable {f} {old mid new : List α} {b : β}

theorem concat (old : List α) {a : α} (h : f a = some b) : Fresh f old (old ++ [a]) b :=
  ⟨[a],rfl,by simp [latest,h]⟩

theorem after (h : Fresh f old mid b) (hl : ∃ l, new = mid ++ l ∧ ∀ a ∈ l, f a = none) :
    Fresh f old new b := by
  obtain ⟨l,rfl,hb⟩ := h
  obtain ⟨m,rfl,hm⟩ := hl
  refine ⟨l ++ m,List.append_assoc _ _ _,?_⟩
  rw [latest_append,latest_of_none f hm,hb]
  rfl

theorem before (h : Fresh f mid new b) (hl : ∃ l, mid = old ++ l) : Fresh f old new b := by
  obtain ⟨l,rfl⟩ := hl
  obtain ⟨m,rfl,hb⟩ := h
  refine ⟨l ++ m,List.append_assoc _ _ _,?_⟩
  rw [latest_append,hb]
  rfl

end Fresh
end NanoBSD
