import NanoBSD.Lib.Run
import NanoBSD.Vfs.Gate
import Mathlib.Algebra.Order.BigOperators.Group.Finset
import Mathlib.Data.Fintype.BigOperators

/-! # Mount operations against suspend and resume sessions

Each call of a gate function is one step of one thread here, and a session is the
sequence `suspend`, then either `suspendFailed`, or `suspended` and later `resume`
and `resumed`. The invariant ties the counter and the owner to the positions of all
threads.
-/
namespace NanoBSD.VfsS2idle
open Prog Function
variable {T : Type}

inductive Phase where
  | idle
  | suspending
  | opened
  | resuming
deriving DecidableEq, Repr

/-- The gate, with the mount operations and the session each thread is in. -/
structure Admission (T : Type) where
  gate : Gate T
  ops : T → ℕ
  phase : T → Phase
  panicked : Bool

inductive Act (T : Type) where
  | init
  | mountEnter (t : T)
  | mountExit (t : T)
  | suspend (t : T)
  | suspended (t : T)
  | suspendFailed (t : T)
  | resume (t : T)
  | resumed (t : T)

def Admission.call (w : Admission T) (x : Prog (Gate T) Trap Unit)
    (done : Admission T → Admission T) : Admission T :=
  match x w.gate with
  | (.ok _,g) => done { w with gate := g }
  | (.error (.errno _),g) => { w with gate := g }
  | (.error .kassert,g) => { w with gate := g, panicked := true }

variable [DecidableEq T]

def Admission.setOps (t : T) (n : ℕ) (w : Admission T) : Admission T :=
  { w with ops := update w.ops t n }

def Admission.setPhase (t : T) (p : Phase) (w : Admission T) : Admission T :=
  { w with phase := update w.phase t p }

/-- A mount operation ends only where one was entered, and a session moves on only from its phase.
Entering is always allowed. -/
def Admission.step (w : Admission T) : Act T → Option (Admission T)
  | .init => if w.gate.ready then none else some { w with gate := { w.gate with ready := true } }
  | .mountEnter t => some (w.call mountEnter (Admission.setOps t (w.ops t + 1)))
  | .mountExit t =>
    if w.ops t = 0 then none else some (w.call mountExit (Admission.setOps t (w.ops t - 1)))
  | .suspend t => some (w.call (barrierEnter t) (Admission.setPhase t .suspending))
  | .suspended t => if w.phase t = .suspending then some (w.setPhase t .opened) else none
  | .suspendFailed t =>
    if w.phase t = .suspending then some (w.call (barrierExit t) (Admission.setPhase t .idle))
    else none
  | .resume t => if w.phase t = .opened then some (w.setPhase t .resuming) else none
  | .resumed t =>
    if w.phase t = .resuming then some (w.call (barrierExit t) (Admission.setPhase t .idle))
    else none

structure Admission.Fresh (w : Admission T) : Prop where
  mountops : w.gate.mountops = 0
  owner : w.gate.owner = none
  ops : ∀ t, w.ops t = 0
  phase : ∀ t, w.phase t = .idle
  panicked : w.panicked = false

variable [Fintype T]

/-- The counter counts the operations, the owner is the thread in a session, and the
two exclude each other. -/
structure Admission.Valid (w : Admission T) : Prop where
  counter : w.gate.mountops = ∑ t, w.ops t
  bounded : w.gate.mountops ≤ sizeMax
  owner : ∀ t, w.gate.owner = some t ↔ w.phase t ≠ .idle
  exclusive : w.gate.owner ≠ none → w.gate.mountops = 0
  running : w.panicked = false

namespace Admission
variable {w : Admission T} {t : T} {w' : Admission T}

omit [DecidableEq T] in
theorem Fresh.valid (h : w.Fresh) : w.Valid where
  counter := by simp [h.mountops,h.ops]
  bounded := by simp [h.mountops]
  owner := fun t => by simp [h.owner,h.phase]
  exclusive := fun ho => absurd h.owner ho
  running := h.panicked

omit [DecidableEq T] [Fintype T] in
theorem call_of_wp {x : Prog (Gate T) Trap Unit} {done : Admission T → Admission T}
    {P : Admission T → Prop}
    (h : x.wp (fun _ g => P (done { w with gate := g }))
      (fun e g => (∃ n, e = .errno n) ∧ P { w with gate := g }) w.gate) : P (w.call x done) := by
  unfold wp at h
  unfold call
  split at h <;> rename_i hx
  · rw [hx]
    exact h
  · obtain ⟨⟨n,rfl⟩,hP⟩ := h
    rw [hx]
    exact hP

omit [DecidableEq T] in
theorem Valid.ops_pos (h : w.Valid) (ht : w.ops t ≠ 0) : w.gate.mountops ≠ 0 := by
  rw [h.counter]
  intro hz
  exact ht (Finset.sum_eq_zero_iff.mp hz t (Finset.mem_univ t))

omit [DecidableEq T] in
theorem Valid.owner_none (h : w.Valid) (hm : w.gate.mountops ≠ 0) : w.gate.owner = none := by
  by_contra ho
  exact hm (h.exclusive ho)

theorem sum_update (f : T → ℕ) (t : T) (n : ℕ) :
    (∑ u, update f t n u) + f t = (∑ u, f u) + n := by
  rw [Finset.sum_update_of_mem (Finset.mem_univ t),← Finset.add_sum_erase _ f (Finset.mem_univ t),
    Finset.sdiff_singleton_eq_erase]
  omega

theorem Valid.setPhase (h : w.Valid) {p : Phase} (ht : w.phase t ≠ .idle) (hp : p ≠ .idle) :
    (w.setPhase t p).Valid := by
  refine { h with owner := fun u => ?_ }
  by_cases hu : u = t
  · subst hu
    simp only [Admission.setPhase,update_self]
    exact ⟨fun _ => hp,fun _ => (h.owner u).mpr ht⟩
  · simp only [Admission.setPhase,update_of_ne hu]
    exact h.owner u

theorem Valid.mountEnter (h : w.Valid) (t : T) :
    (w.call VfsS2idle.mountEnter (Admission.setOps t (w.ops t + 1))).Valid := by
  refine call_of_wp (mountEnter_wp w.gate (fun _ ho hmax => ?_) (fun n => ⟨⟨n,rfl⟩,h⟩))
  -- The refusal at the largest value keeps the increment from wrapping.
  have hbound := h.bounded
  have hlt : w.gate.mountops + 1 ≤ sizeMax := by omega
  have hmod : (w.gate.mountops + 1) % 2 ^ 64 = w.gate.mountops + 1 :=
    Nat.mod_eq_of_lt (by unfold sizeMax at hlt; omega)
  have hsum := sum_update w.ops t (w.ops t + 1)
  have hcount := h.counter
  refine { h with counter := ?_, bounded := ?_, exclusive := ?_ }
  · simp only [Admission.setOps,hmod]
    omega
  · simp only [Admission.setOps,hmod]
    exact hlt
  · exact fun hne => absurd ho hne

theorem Valid.mountExit (h : w.Valid) (ht : w.ops t ≠ 0) :
    (w.call VfsS2idle.mountExit (Admission.setOps t (w.ops t - 1))).Valid := by
  have hm := h.ops_pos ht
  refine call_of_wp (mountExit_wp w.gate (h.owner_none hm) hm ?_)
  have hsum := sum_update w.ops t (w.ops t - 1)
  have hcount := h.counter
  have hbound := h.bounded
  refine { h with counter := ?_, bounded := ?_, exclusive := ?_ }
  · simp only [Admission.setOps]
    omega
  · simp only [Admission.setOps]
    omega
  · exact fun hne => absurd (h.owner_none hm) hne

theorem Valid.barrierEnter (h : w.Valid) (t : T) :
    (w.call (VfsS2idle.barrierEnter t) (Admission.setPhase t .suspending)).Valid := by
  refine call_of_wp (barrierEnter_wp t w.gate (fun _ ho hm => ?_) (fun n => ⟨⟨n,rfl⟩,h⟩))
  refine { h with owner := fun u => ?_, exclusive := fun _ => hm }
  by_cases hu : u = t
  · subst hu
    simp [Admission.setPhase]
  · have hidle := h.owner u
    rw [ho] at hidle
    simpa [Admission.setPhase,update_of_ne hu,Ne.symm hu] using hidle

theorem Valid.barrierExit (h : w.Valid) (ht : w.phase t ≠ .idle) :
    (w.call (VfsS2idle.barrierExit t) (Admission.setPhase t .idle)).Valid := by
  have ho := (h.owner t).mpr ht
  refine call_of_wp (barrierExit_wp t w.gate ho (h.exclusive (by rw [ho]; simp)) ?_)
  refine { h with owner := fun u => ?_, exclusive := fun hne => absurd rfl hne }
  by_cases hu : u = t
  · subst hu
    simp [Admission.setPhase]
  · have hidle := h.owner u
    rw [ho] at hidle
    simpa [Admission.setPhase,update_of_ne hu,Ne.symm hu] using hidle

theorem Valid.step {a : Act T} (h : w.Valid) (hs : w.step a = some w') : w'.Valid := by
  cases a with
  | init =>
    simp only [Admission.step] at hs
    split at hs
    · cases hs
    · cases hs
      exact { h with }
  | mountEnter t =>
    cases hs
    exact h.mountEnter t
  | mountExit t =>
    simp only [Admission.step] at hs
    split at hs
    · cases hs
    · rename_i ht
      cases hs
      exact h.mountExit ht
  | suspend t =>
    cases hs
    exact h.barrierEnter t
  | suspended | resume =>
    obtain ⟨ht,rfl⟩ := Option.ite_some_none_eq_some.mp hs
    exact h.setPhase (by rw [ht]; decide) (by decide)
  | suspendFailed | resumed =>
    obtain ⟨ht,rfl⟩ := Option.ite_some_none_eq_some.mp hs
    exact h.barrierExit (by rw [ht]; decide)

theorem Fresh.run_valid {as : List (Act T)} (h : w.Fresh)
    (hrun : exec Admission.step w as = some w') : w'.Valid :=
  exec_invariant Admission.Valid (fun _ _ _ hv hs => hv.step hs) h.valid hrun

end Admission
end NanoBSD.VfsS2idle
