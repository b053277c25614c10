import Mathlib.Data.List.Nodup

/-! # The holders of a power resource

A resource keeps a list of references, one for each device, with the uses the device
has for it. No device is listed twice and no reference is without a use.
-/
namespace NanoBSD.AcpiPower
open List

inductive Kind where
  | state
  | wake
deriving DecidableEq, Repr

structure Uses where
  state : Bool
  wake : Bool
deriving DecidableEq, Repr

namespace Uses

def none : Uses := ⟨false,false⟩
def both : Uses := ⟨true,true⟩

def only : Kind → Uses
  | .state => ⟨true,false⟩
  | .wake => ⟨false,true⟩

def union (u v : Uses) : Uses := ⟨u.state || v.state,u.wake || v.wake⟩
def inter (u v : Uses) : Uses := ⟨u.state && v.state,u.wake && v.wake⟩
def diff (u v : Uses) : Uses := ⟨u.state && !v.state,u.wake && !v.wake⟩

@[simp] theorem none_union (u : Uses) : none.union u = u := by
  cases u
  simp [none,union]

@[simp] theorem none_diff (u : Uses) : none.diff u = none := by simp [none,diff]

theorem union_only_ne_none (u : Uses) (k : Kind) : u.union (only k) ≠ none := by
  cases k <;> simp [union,only,none]

end Uses

structure Ref (H : Type) where
  device : H
  uses : Uses
deriving DecidableEq, Repr

section List
variable {H : Type} [DecidableEq H]

def lookup : List (Ref H) → H → Uses
  | [], _ => .none
  | ref :: refs, d => if ref.device = d then ref.uses else lookup refs d

def Ref.change (d : H) (g : Uses → Uses) (ref : Ref H) : Ref H :=
  if ref.device = d then { ref with uses := g ref.uses } else ref

@[simp] theorem Ref.change_device (d : H) (g : Uses → Uses) (ref : Ref H) :
    (ref.change d g).device = ref.device := by
  unfold Ref.change
  split <;> rfl

@[simp] theorem map_change_device (d : H) (g : Uses → Uses) (refs : List (Ref H)) :
    (refs.map (Ref.change d g)).map Ref.device = refs.map Ref.device := by
  simp [Function.comp_def]

variable {refs : List (Ref H)} {d : H}

theorem lookup_of_not_mem (h : d ∉ refs.map Ref.device) : lookup refs d = .none := by
  induction refs with
  | nil => rfl
  | cons ref refs ih =>
    simp only [map_cons,mem_cons,not_or] at h
    rw [lookup,if_neg (Ne.symm h.1)]
    exact ih h.2

theorem lookup_of_mem {ref : Ref H} (hn : (refs.map Ref.device).Nodup)
    (h : ref ∈ refs) : lookup refs ref.device = ref.uses := by
  induction refs with
  | nil => cases h
  | cons r refs ih =>
    rw [map_cons,nodup_cons] at hn
    rcases mem_cons.mp h with rfl | h
    · simp [lookup]
    · have hne : r.device ≠ ref.device := fun he => hn.1 (he ▸ mem_map_of_mem h)
      rw [lookup,if_neg hne]
      exact ih hn.2 h

theorem lookup_map_change_of_ne (refs : List (Ref H)) {e : H} (g : Uses → Uses) (he : e ≠ d) :
    lookup (refs.map (Ref.change d g)) e = lookup refs e := by
  induction refs with
  | nil => rfl
  | cons ref refs ih =>
    simp only [map_cons,lookup,Ref.change_device,ih]
    split
    · rename_i hr
      rw [Ref.change,if_neg (fun hre => he (hr.symm.trans hre))]
    · rfl

theorem lookup_map_change (g : Uses → Uses) (e : H)
    (h : d ∈ refs.map Ref.device ∨ g .none = .none) :
    lookup (refs.map (Ref.change d g)) e = if e = d then g (lookup refs d) else lookup refs e := by
  by_cases he : e = d
  · subst he
    rw [if_pos rfl]
    induction refs with
    | nil =>
      rcases h with h | h
      · cases h
      · exact h.symm
    | cons ref refs ih =>
      simp only [map_cons,lookup,Ref.change_device]
      by_cases hd : ref.device = e
      · rw [if_pos hd,if_pos hd,Ref.change,if_pos hd]
      · rw [if_neg hd,if_neg hd]
        apply ih
        exact h.imp_left (fun hmem => (mem_cons.mp hmem).resolve_left (Ne.symm hd))
  · rw [if_neg he]
    exact lookup_map_change_of_ne refs g he

theorem lookup_filter (hn : (refs.map Ref.device).Nodup) (e : H) :
    lookup (refs.filter fun ref => ref.uses ≠ .none) e = lookup refs e := by
  induction refs with
  | nil => rfl
  | cons ref refs ih =>
    rw [map_cons,nodup_cons] at hn
    by_cases hu : ref.uses = .none
    · rw [filter_cons_of_neg (by simp [hu]),ih hn.2,lookup]
      split
      · rename_i he
        subst he
        rw [lookup_of_not_mem hn.1,hu]
      · rfl
    · rw [filter_cons_of_pos (by simp [hu]),lookup,lookup,ih hn.2]

end List

structure Holders (H : Type) where
  refs : List (Ref H)
  nodup : (refs.map Ref.device).Nodup
  used : ∀ ref ∈ refs, ref.uses ≠ .none

namespace Holders
variable {H : Type}

def empty : Holders H := ⟨[],nodup_nil,by simp⟩

variable [DecidableEq H] {p : Holders H} {d : H}

def uses (p : Holders H) (d : H) : Uses := lookup p.refs d

/-- `power_reference` with `create`, followed by `ref->uses |= use`. A device that is
not listed yet is put in front. -/
def add (p : Holders H) (d : H) (k : Kind) : Holders H where
  refs :=
    if d ∈ p.refs.map Ref.device then p.refs.map (Ref.change d fun u => u.union (.only k))
    else ⟨d,.only k⟩ :: p.refs
  nodup := by
    split
    · rw [map_change_device]
      exact p.nodup
    · rename_i hd
      exact nodup_cons.mpr ⟨hd,p.nodup⟩
  used := by
    intro ref href
    split at href
    · obtain ⟨old,hold,rfl⟩ := mem_map.mp href
      unfold Ref.change
      split
      · exact Uses.union_only_ne_none _ _
      · exact p.used old hold
    · rcases mem_cons.mp href with rfl | href
      · cases k <;> simp [Uses.only,Uses.none]
      · exact p.used ref href

/-- `ref->uses &= ~use` for one device; a reference left without a use is unlinked. -/
def drop (p : Holders H) (d : H) (u : Uses) : Holders H where
  refs := (p.refs.map (Ref.change d fun v => v.diff u)).filter fun ref => ref.uses ≠ .none
  nodup := by
    have hsub := filter_sublist (l := p.refs.map (Ref.change d fun v => v.diff u))
      (p := fun ref => decide (ref.uses ≠ .none))
    have hmap := hsub.map Ref.device
    rw [map_change_device] at hmap
    exact p.nodup.sublist hmap
  used := by
    intro ref href
    simpa using (mem_filter.mp href).2

def sole (p : Holders H) (d : H) (u : Uses) : Bool :=
  (p.uses d).diff u == .none && p.refs.length == 1

theorem uses_add (p : Holders H) (d e : H) (k : Kind) :
    (p.add d k).uses e = if e = d then (p.uses d).union (.only k) else p.uses e := by
  simp only [uses,add]
  split
  · rename_i hd
    exact lookup_map_change _ e (.inl hd)
  · rename_i hd
    rw [lookup_of_not_mem hd]
    by_cases he : e = d
    · simp [lookup,he]
    · simp [lookup,he,Ne.symm he]

theorem uses_drop (p : Holders H) (d e : H) (u : Uses) :
    (p.drop d u).uses e = if e = d then (p.uses d).diff u else p.uses e := by
  have hn : ((p.refs.map (Ref.change d fun v => v.diff u)).map Ref.device).Nodup := by
    rw [map_change_device]
    exact p.nodup
  simp only [uses,drop]
  rw [lookup_filter hn,lookup_map_change _ e (.inr (Uses.none_diff u))]

theorem uses_of_mem {ref : Ref H} (h : ref ∈ p.refs) : p.uses ref.device = ref.uses :=
  lookup_of_mem p.nodup h

theorem mem_of_uses (h : p.uses d ≠ .none) :
    ∃ ref ∈ p.refs, ref.device = d ∧ ref.uses = p.uses d := by
  have hmem : d ∈ p.refs.map Ref.device := by
    by_contra hd
    exact h (lookup_of_not_mem hd)
  obtain ⟨ref,href,rfl⟩ := mem_map.mp hmem
  exact ⟨ref,href,rfl,(uses_of_mem href).symm⟩

theorem sole_uses {u : Uses} (h : p.sole d u = true)
    (hd : p.uses d ≠ .none) {e : H} (he : e ≠ d) : p.uses e = .none := by
  simp only [sole,Bool.and_eq_true,beq_iff_eq] at h
  obtain ⟨ref,hone⟩ := length_eq_one_iff.mp h.2
  obtain ⟨r,hr,hrd,_⟩ := mem_of_uses hd
  by_contra hue
  obtain ⟨q,hq,hqe,_⟩ := mem_of_uses hue
  rw [hone,mem_singleton] at hr hq
  exact he (hqe.symm.trans ((congrArg Ref.device (hq.trans hr.symm)).trans hrd))

end Holders
end NanoBSD.AcpiPower
