import Mathlib.Tactic.Common

/-! # Critical sections as scripts

What a thread still has to do under a lock: atomic actions, reads of the state the lock
protects, answers from outside, and points at which it lets the lock go and takes it again. An
action has a contract: what it needs of the protected state and what it may make of it. The
weakest precondition of a script is then what has to hold of the state for all its actions to be
called properly and for the state to be in order whenever the lock is free.
-/
namespace NanoBSD

inductive Script (ν α : Type)
  | done
  | act (a : α) (k : Script ν α)
  | read (f : ν → Bool) (k : Bool → Script ν α)
  | ask (k : Bool → Script ν α)
  | pause (k : Script ν α)

structure Contract (ν α : Type) where
  pre : α → ν → Prop
  post : α → ν → ν → Prop

namespace Script
variable {ν α : Type}

def wp (C : Contract ν α) (Q : ν → Prop) : Script ν α → ν → Prop
  | done, v => Q v
  | act a k, v => C.pre a v ∧ ∀ w, C.post a v w → k.wp C Q w
  | read f k, v => (k (f v)).wp C Q v
  | ask k, v => ∀ b, (k b).wp C Q v
  | pause k, v => Q v ∧ ∀ w, Q w → k.wp C Q w

def branch (f : ν → Bool) (yes no : Script ν α) : Script ν α :=
  read f fun b => bif b then yes else no

def choose (yes no : Script ν α) : Script ν α := ask fun b => bif b then yes else no

variable {C : Contract ν α} {Q : ν → Prop} {v : ν} {a : α} {k yes no : Script ν α}

@[simp] theorem wp_read {f : ν → Bool} {k : Bool → Script ν α} :
    wp C Q (read f k) v ↔ wp C Q (k (f v)) v := Iff.rfl

theorem wp_act (hpre : C.pre a v)
    (hk : ∀ w, C.post a v w → wp C Q k w) : wp C Q (act a k) v := ⟨hpre,hk⟩

theorem wp_act_of_eq {w : ν} (hpre : C.pre a v)
    (hpost : C.post a v = (· = w)) (hk : wp C Q k w) : wp C Q (act a k) v :=
  ⟨hpre,fun u hu => (congrFun hpost u).mp hu ▸ hk⟩

theorem wp_branch {f : ν → Bool} (hyes : f v = true → wp C Q yes v)
    (hno : f v = false → wp C Q no v) : wp C Q (branch f yes no) v := by
  unfold branch
  rw [wp_read]
  cases h : f v with
  | false => exact hno h
  | true => exact hyes h

theorem wp_choose (hyes : wp C Q yes v) (hno : wp C Q no v) : wp C Q (choose yes no) v := by
  intro b
  cases b with
  | false => exact hno
  | true => exact hyes

theorem wp_pause (hv : Q v) (hk : ∀ w, Q w → wp C Q k w) :
    wp C Q (pause k) v := ⟨hv,hk⟩

end Script
end NanoBSD
