import NanoBSD.Lib.Prog
import Mathlib.Algebra.Group.Nat.Defs

/-! # The admission gate of mount operations and all-mount suspension

Each function below is the critical section of one gate function of
`kern/vfs_s2idle.c`; the lock makes it one atomic step. Kernel assertions are
kept: a failed one stops the routine with its own trap.
-/
namespace NanoBSD.VfsS2idle
open Prog

inductive Errno where
  | ENOENT
  | ENXIO
  | EBUSY
  | ENOMEM
  | EWOULDBLOCK
  | ELOOP
  | other (code : ℕ)
deriving DecidableEq, Repr

inductive Trap where
  | errno (e : Errno)
  | kassert
deriving DecidableEq, Repr

def sizeMax : ℕ := 2 ^ 64 - 1

structure Gate (T : Type) where
  ready : Bool
  mountops : ℕ
  owner : Option T
deriving DecidableEq, Repr

variable {T : Type}

def mountEnter : Prog (Gate T) Trap Unit := do
  let g ← read id
  if !g.ready then raise (.errno Errno.ENXIO)
  else if g.owner.isSome || g.mountops == sizeMax then raise (.errno .EBUSY)
  else update fun g => { g with mountops := (g.mountops + 1) % 2 ^ 64 }

def mountExit : Prog (Gate T) Trap Unit := do
  let g ← read id
  if g.owner.isSome then raise .kassert
  else if g.mountops == 0 then raise .kassert
  else update fun g => { g with mountops := g.mountops - 1 }

def barrierEnter (curlwp : T) : Prog (Gate T) Trap Unit := do
  let g ← read id
  if !g.ready then raise (.errno Errno.ENXIO)
  else if g.owner.isSome || g.mountops != 0 then raise (.errno .EBUSY)
  else update fun g => { g with owner := some curlwp }

def barrierExit [DecidableEq T] (curlwp : T) : Prog (Gate T) Trap Unit := do
  let g ← read id
  if g.owner != some curlwp then raise .kassert
  else if g.mountops != 0 then raise .kassert
  else update fun g => { g with owner := none }

variable {Q : Unit → Gate T → Prop} {E : Trap → Gate T → Prop}

/-- A refused mount operation leaves the gate alone; an admitted one finds no owner and adds one to
a counter that cannot wrap. -/
theorem mountEnter_wp (g : Gate T)
    (hok : g.ready = true → g.owner = none → g.mountops ≠ sizeMax →
      Q () { g with mountops := (g.mountops + 1) % 2 ^ 64 })
    (herr : ∀ e, E (.errno e) g) : mountEnter.wp Q E g := by
  simp only [mountEnter,wp_bind,wp_read,id]
  by_cases hr : g.ready = true
  · simp only [hr,Bool.not_true,Bool.false_eq_true,↓reduceIte]
    by_cases hb : (g.owner.isSome || g.mountops == sizeMax) = true
    · simp only [hb,↓reduceIte,wp_raise]
      exact herr _
    · simp only [hb,Bool.false_eq_true,↓reduceIte,wp_update]
      simp only [Bool.or_eq_true,beq_iff_eq,not_or,Option.not_isSome_iff_eq_none] at hb
      exact hok hr hb.1 hb.2
  · simp only [hr,Bool.not_false,↓reduceIte,wp_raise]
    exact herr _

theorem mountExit_wp (g : Gate T) (ho : g.owner = none) (hm : g.mountops ≠ 0)
    (hok : Q () { g with mountops := g.mountops - 1 }) : mountExit.wp Q E g := by
  have ho' : g.owner.isSome = false := by rw [ho]; rfl
  simp only [mountExit,wp_bind,wp_read,id,ho',Bool.false_eq_true,↓reduceIte,beq_iff_eq,hm,wp_update]
  exact hok

theorem barrierEnter_wp (curlwp : T) (g : Gate T)
    (hok : g.ready = true → g.owner = none → g.mountops = 0 →
      Q () { g with owner := some curlwp })
    (herr : ∀ e, E (.errno e) g) : (barrierEnter curlwp).wp Q E g := by
  simp only [barrierEnter,wp_bind,wp_read,id]
  by_cases hr : g.ready = true
  · simp only [hr,Bool.not_true,Bool.false_eq_true,↓reduceIte]
    by_cases hb : (g.owner.isSome || g.mountops != 0) = true
    · simp only [hb,↓reduceIte,wp_raise]
      exact herr _
    · simp only [hb,Bool.false_eq_true,↓reduceIte,wp_update]
      simp only [Bool.or_eq_true,bne_iff_ne,ne_eq,not_or,Option.not_isSome_iff_eq_none,
        not_not] at hb
      exact hok hr hb.1 hb.2
  · simp only [hr,Bool.not_false,↓reduceIte,wp_raise]
    exact herr _

theorem barrierExit_wp [DecidableEq T] (curlwp : T) (g : Gate T)
    (ho : g.owner = some curlwp) (hm : g.mountops = 0)
    (hok : Q () { g with owner := none }) : (barrierExit curlwp).wp Q E g := by
  have ho' : (g.owner != some curlwp) = false := by rw [ho]; exact bne_self_eq_false _
  have hm' : (g.mountops != 0) = false := by rw [hm]; rfl
  simp only [barrierExit,wp_bind,wp_read,id,ho',hm',Bool.false_eq_true,↓reduceIte,wp_update]
  exact hok

end NanoBSD.VfsS2idle
