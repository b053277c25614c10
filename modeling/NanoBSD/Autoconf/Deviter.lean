import Mathlib.Data.List.Range
import NanoBSD.Lib.Keyed

/-! # Walks of the device tree

`deviter_next` goes through the list `alldevs` once for each depth, from the leaves to the
root or from the root to the leaves, and hands out the devices of that depth. A walk
therefore meets every device once, and a walk that begins at the root meets a device after
its parent.
-/
namespace NanoBSD.Autoconf
open List

/-- The attached devices. `depth` is `dv_depth`, which `config_devalloc` sets to one more
than the parent's. -/
structure DeviceTree (D : Type) where
  alldevs : List D
  nodup : alldevs.Nodup
  parent : D → Option D
  depth : D → ℕ
  depth_parent : ∀ {d p}, parent d = some p → depth d = depth p + 1
  /-- `cd_name` of the device's driver and `dv_unit`. -/
  driver : D → String
  unit : D → ℕ

def DeviceTree.xname {D : Type} (t : DeviceTree D) (d : D) : String :=
  t.driver d ++ toString (t.unit d)

inductive Flags
  | rootFirst | leavesFirst
  deriving DecidableEq, Repr

def Flags.stride : Flags → ℤ
  | .leavesFirst => -1
  | .rootFirst => 1

/-- `deviter_t`. The cursor `di_prev` is the part of `alldevs` still to come. -/
structure Deviter (D : Type) where
  flags : Flags
  prev : List D
  curdepth : ℤ
  maxdepth : ℤ

namespace Deviter
variable {D : Type} (t : DeviceTree D)

def deepest : ℕ := t.alldevs.foldl (fun m d => max m (t.depth d)) 0

def init (flags : Flags) : Deviter D :=
  match flags with
  | .leavesFirst => { flags, prev := t.alldevs, curdepth := deepest t, maxdepth := 0 }
  | .rootFirst => { flags, prev := t.alldevs, curdepth := 0, maxdepth := deepest t }

def left (di : Deviter D) : ℕ :=
  match di.flags with
  | .leavesFirst => (di.curdepth + 1).toNat
  | .rootFirst => (di.maxdepth + 1 - di.curdepth).toNat

def reinit (di : Deviter D) : Deviter D :=
  { di with prev := t.alldevs, curdepth := di.curdepth + di.flags.stride }

theorem left_reinit (di : Deviter D) : (di.reinit t).left = di.left - 1 := by
  rcases di with ⟨_ | _,_,_,_⟩ <;> simp only [left,reinit,Flags.stride] <;> omega

def next (di : Deviter D) : Option D × Deviter D :=
  if 0 < di.left then
    match _hprev : di.prev with
    | [] => next (di.reinit t)
    | d :: rest =>
      if (t.depth d : ℤ) = di.curdepth then (some d,{ di with prev := rest })
      else next { di with prev := rest }
  else (none,di)
termination_by (di.left,di.prev.length)
decreasing_by
  · apply Prod.Lex.left
    rw [left_reinit]
    omega
  · apply Prod.Lex.right'
    · exact Nat.le_refl _
    · simp [_hprev]

def depths (stride : ℤ) : ℕ → ℤ → List ℤ
  | 0, _ => []
  | n + 1, c => c :: depths stride n (c + stride)

/-- The devices an iterator has yet to hand out: the rest of this depth, then the depths
after it. -/
def ahead (di : Deviter D) : List D :=
  match di.left with
  | 0 => []
  | n + 1 => di.prev.filter (fun d => (t.depth d : ℤ) = di.curdepth) ++
      byKey (fun d => (t.depth d : ℤ))
        (depths di.flags.stride n (di.curdepth + di.flags.stride)) t.alldevs

variable {t} {di : Deviter D}

theorem ahead_reinit (hprev : di.prev = []) : (di.reinit t).ahead t = di.ahead t := by
  unfold ahead
  rw [left_reinit]
  rcases di.left with _ | _ | n
  · rfl
  · simp [hprev,byKey,depths]
  · simp only [hprev,byKey,depths,reinit,filter_nil,nil_append,flatMap_cons]
    rfl

theorem next_spec (t : DeviceTree D) (di : Deviter D) :
    match di.ahead t with
    | [] => (di.next t).1 = none
    | d :: rest => (di.next t).1 = some d ∧ (di.next t).2.ahead t = rest := by
  fun_induction next t di with
  | case1 di hleft hprev ih => rwa [← ahead_reinit hprev]
  | case2 di hleft d rest hprev hdepth =>
    obtain ⟨n,hn⟩ := Nat.exists_eq_add_of_lt hleft
    have hleft' : ({ di with prev := rest } : Deviter D).left = di.left := rfl
    simp only [ahead,hleft',hn,Nat.zero_add,hprev,filter_cons,hdepth,decide_true,↓reduceIte,
      cons_append,and_self]
  | case3 di hleft d rest hprev hdepth ih =>
    have hsame : ({ di with prev := rest } : Deviter D).ahead t = di.ahead t := by
      have hleft' : ({ di with prev := rest } : Deviter D).left = di.left := rfl
      simp only [ahead,hleft',hprev,filter_cons,hdepth,decide_false,Bool.false_eq_true,↓reduceIte]
    rwa [← hsame]
  | case4 di hleft =>
    have hzero : di.left = 0 := by omega
    simp [ahead,hzero]

theorem length_next {d : D} {di' : Deviter D} (h : di.next t = (some d,di')) :
    (di'.ahead t).length < (di.ahead t).length := by
  have hspec := next_spec t di
  rw [h] at hspec
  cases hahead : di.ahead t with
  | nil => simp [hahead] at hspec
  | cons e rest =>
    rw [hahead] at hspec
    simp [hspec.2]

/-- The devices of the loop `for (d = deviter_first(&di); d != NULL; d = deviter_next(&di))`. -/
def visits (t : DeviceTree D) (di : Deviter D) : List D :=
  match _h : di.next t with
  | (none,_) => []
  | (some d,di') => d :: visits t di'
termination_by (di.ahead t).length
decreasing_by exact length_next _h

theorem visits_eq_ahead (t : DeviceTree D) (di : Deviter D) : di.visits t = di.ahead t := by
  fun_induction visits t di with
  | case1 di di' h =>
    have hspec := next_spec t di
    rw [h] at hspec
    cases hahead : di.ahead t with
    | nil => rfl
    | cons e rest => simp [hahead] at hspec
  | case2 di d di' h ih =>
    have hspec := next_spec t di
    rw [h] at hspec
    cases hahead : di.ahead t with
    | nil => simp [hahead] at hspec
    | cons e rest =>
      rw [hahead] at hspec
      obtain ⟨hd,hrest⟩ := hspec
      rw [ih,hrest,Option.some.inj hd]

theorem depths_eq_map (stride : ℤ) (n : ℕ) (c : ℤ) :
    depths stride n c = (range n).map fun i : ℕ => c + stride * i := by
  induction n generalizing c with
  | zero => rfl
  | succ n ih =>
    rw [depths,ih,range_succ_eq_map,map_cons,map_map]
    congr 1
    · simp
    · apply map_congr_left
      intro i _
      simp only [Function.comp_apply,Nat.succ_eq_add_one,Int.natCast_add,Int.natCast_one,Int.mul_add]
      omega

theorem le_deepest {d : D} (h : d ∈ t.alldevs) : t.depth d ≤ deepest t := by
  have hmax : ∀ (l : List D) (m : ℕ), m ≤ l.foldl (fun m d => max m (t.depth d)) m ∧
      ∀ e ∈ l, t.depth e ≤ l.foldl (fun m d => max m (t.depth d)) m := by
    intro l
    induction l with
    | nil => simp
    | cons a l ih =>
      intro m
      obtain ⟨hm,hl⟩ := ih (max m (t.depth a))
      refine ⟨Nat.le_trans (Nat.le_max_left ..) hm,?_⟩
      rintro e (_ | ⟨_,he⟩)
      · exact Nat.le_trans (Nat.le_max_right ..) hm
      · exact hl e he
  exact (hmax t.alldevs 0).2 d h

end Deviter

namespace DeviceTree
variable {D : Type} (t : DeviceTree D) {flags : Flags} {d : D}
open Deviter

def walk (flags : Flags) : List D := (Deviter.init t flags).visits t

def levels : Flags → List ℤ
  | .leavesFirst => depths (-1) (deepest t + 1) (deepest t)
  | .rootFirst => depths 1 (deepest t + 1) 0

theorem walk_eq (flags : Flags) :
    t.walk flags = byKey (fun d => (t.depth d : ℤ)) (t.levels flags) t.alldevs := by
  rw [walk,visits_eq_ahead]
  cases flags with
  | leavesFirst =>
    have hleft : (init t .leavesFirst).left = deepest t + 1 := by simp only [left,init]; omega
    simp only [ahead,hleft,levels,depths,byKey,flatMap_cons]
    rfl
  | rootFirst =>
    have hleft : (init t .rootFirst).left = deepest t + 1 := by simp only [left,init]; omega
    simp only [ahead,hleft,levels,depths,byKey,flatMap_cons]
    rfl

theorem mem_levels (h : d ∈ t.alldevs) (flags : Flags) : (t.depth d : ℤ) ∈ t.levels flags := by
  have hle := le_deepest h
  cases flags with
  | leavesFirst =>
    rw [levels,depths_eq_map,mem_map]
    exact ⟨deepest t - t.depth d,mem_range.mpr (by omega),by omega⟩
  | rootFirst =>
    rw [levels,depths_eq_map,mem_map]
    exact ⟨t.depth d,mem_range.mpr (by omega),by omega⟩

theorem nodup_levels (flags : Flags) : (t.levels flags).Nodup := by
  cases flags with
  | leavesFirst =>
    rw [levels,depths_eq_map]
    exact nodup_range.map fun i j hij => by
      change (deepest t : ℤ) + -1 * i = deepest t + -1 * j at hij
      omega
  | rootFirst =>
    rw [levels,depths_eq_map]
    exact nodup_range.map fun i j hij => by
      change (0 : ℤ) + 1 * i = 0 + 1 * j at hij
      omega

@[simp] theorem mem_walk : d ∈ t.walk flags ↔ d ∈ t.alldevs := by
  rw [walk_eq,mem_byKey]
  exact and_iff_left_of_imp fun h => t.mem_levels h flags

theorem nodup_walk (flags : Flags) : (t.walk flags).Nodup := by
  rw [walk_eq]
  exact nodup_byKey (t.nodup_levels flags) t.nodup

theorem walk_rootFirst : (t.walk .rootFirst).Pairwise fun a b => t.parent a ≠ some b := by
  have hlevels : (t.levels .rootFirst).Pairwise (· < ·) := by
    rw [levels,depths_eq_map,pairwise_map]
    exact pairwise_lt_range.imp fun h => by omega
  rw [walk_eq]
  refine (pairwise_byKey hlevels).imp ?_
  intro a b hab hparent
  have hdepth := t.depth_parent hparent
  omega

end DeviceTree
end NanoBSD.Autoconf
