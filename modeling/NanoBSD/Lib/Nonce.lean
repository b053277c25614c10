import Mathlib.Data.List.Basic

/-! # Counters under keys

Slots that are given a fresh key and a counter that starts at zero, are opened for use, and are
closed again to be given another key. A user of an open slot first takes the value of its counter,
which the counter then leaves behind, and uses it with the key later. If a key is never given
twice and nobody is left in a slot when it is closed, no value is used twice under one key.
-/
namespace NanoBSD
open Function

/-- A slot has no key that counts, a new key, also a counter at zero, or is in use. -/
inductive Phase
  | blank
  | keyed
  | ready
  | used
  deriving DecidableEq, Repr

/-- The slots `ι`, the value that each user in `θ` has taken, the keys given so far and the pairs
of keys and values that were used. -/
@[ext]
structure Book (ι θ κ : Type) where
  phase : ι → Phase
  key : ι → Option κ
  counter : ι → ℕ
  token : θ → Option (ι × ℕ)
  given : List κ
  log : List (Option κ × ℕ)

namespace Book
variable {ι θ κ : Type} [DecidableEq ι] [DecidableEq θ]

def close (b : Book ι θ κ) (i : ι) : Book ι θ κ :=
  { b with phase := update b.phase i .blank }

def give (b : Book ι θ κ) (i : ι) (x : κ) : Book ι θ κ :=
  { b with
    phase := update b.phase i .keyed
    key := update b.key i (some x)
    given := x :: b.given }

def reset (b : Book ι θ κ) (i : ι) : Book ι θ κ :=
  { b with
    phase := update b.phase i (if b.phase i = .keyed then .ready else b.phase i)
    counter := update b.counter i 0 }

def start (b : Book ι θ κ) (i : ι) : Book ι θ κ :=
  { b with phase := update b.phase i .used }

def take (b : Book ι θ κ) (t : θ) (i : ι) : Book ι θ κ :=
  { b with
    counter := update b.counter i (b.counter i + 1)
    token := update b.token t (some (i,b.counter i)) }

def spend (b : Book ι θ κ) (t : θ) (i : ι) (c : ℕ) : Book ι θ κ :=
  { b with
    token := update b.token t none
    log := (b.key i,c) :: b.log }

structure Inv (b : Book ι θ κ) : Prop where
  logged : ∀ y c, (y,c) ∈ b.log → ∃ x ∈ b.given, y = some x
  owned : ∀ i, b.phase i ≠ .blank → ∃ x ∈ b.given, b.key i = some x
  distinct : ∀ i j, b.phase i ≠ .blank → b.phase j ≠ .blank → b.key i = b.key j → i = j
  unused : ∀ i, b.phase i = .keyed ∨ b.phase i = .ready → ∀ c, (b.key i,c) ∉ b.log
  zero : ∀ i, b.phase i = .ready → b.counter i = 0
  below : ∀ i c, b.phase i = .used → (b.key i,c) ∈ b.log → c < b.counter i
  taken : ∀ t i c, b.token t = some (i,c) →
    b.phase i = .used ∧ c < b.counter i ∧ (b.key i,c) ∉ b.log
  apart : ∀ t u y, b.token t = some y → b.token u = some y → t = u
  nodup : b.log.Nodup

namespace Inv
variable {b : Book ι θ κ} {i : ι} {t : θ} {x : κ} {c : ℕ}

section

omit [DecidableEq θ]

theorem close (h : b.Inv) (hfree : ∀ t c, b.token t ≠ some (i,c)) : (b.close i).Inv := by
  refine ⟨h.logged,?_,?_,?_,?_,?_,?_,h.apart,h.nodup⟩
  all_goals simp only [Book.close,update_apply]
  · grind [h.owned]
  · grind [h.distinct]
  · grind [h.unused]
  · grind [h.zero]
  · intro j c
    have hlt := h.below j c
    grind
  · intro u j c hu
    have htaken := h.taken u j c hu
    grind

theorem give (h : b.Inv) (hused : b.phase i ≠ .used) (hx : x ∉ b.given) : (b.give i x).Inv := by
  have hnew (c : ℕ) : (some x,c) ∉ b.log := fun hc => by
    obtain ⟨y,hy,he⟩ := h.logged _ c hc
    cases he
    exact hx hy
  have hother (j : ι) (hj : b.phase j ≠ .blank) : b.key j ≠ some x := fun he => by
    obtain ⟨y,hy,he'⟩ := h.owned j hj
    cases he.symm.trans he'
    exact hx hy
  refine ⟨?_,?_,?_,?_,?_,?_,?_,h.apart,h.nodup⟩
  all_goals simp only [Book.give,update_apply,List.mem_cons]
  · grind [h.logged]
  · grind [h.owned]
  · grind [h.distinct]
  · grind [h.unused]
  · grind [h.zero]
  · intro j c
    have hlt := h.below j c
    grind
  · intro u j c hu
    have htaken := h.taken u j c hu
    grind

theorem reset (h : b.Inv) (hused : b.phase i ≠ .used) : (b.reset i).Inv := by
  refine ⟨h.logged,?_,?_,?_,?_,?_,?_,h.apart,h.nodup⟩
  all_goals simp only [Book.reset,update_apply]
  · grind [h.owned]
  · grind [h.distinct]
  · grind [h.unused]
  · grind [h.zero]
  · intro j c
    have hlt := h.below j c
    grind
  · intro u j c hu
    have htaken := h.taken u j c hu
    grind

theorem start (h : b.Inv) (hready : b.phase i = .ready) : (b.start i).Inv := by
  refine ⟨h.logged,?_,?_,?_,?_,?_,?_,h.apart,h.nodup⟩
  all_goals simp only [Book.start,update_apply]
  · grind [h.owned]
  · grind [h.distinct]
  · grind [h.unused]
  · grind [h.zero]
  · intro j c
    have hlt := h.below j c
    grind [h.unused]
  · intro u j c hu
    have htaken := h.taken u j c hu
    grind

end

theorem take (h : b.Inv) (hused : b.phase i = .used) : (b.take t i).Inv := by
  refine ⟨h.logged,h.owned,h.distinct,h.unused,?_,?_,?_,?_,h.nodup⟩
  all_goals simp only [Book.take,update_apply]
  · grind [h.zero]
  · intro j c
    have hlt := h.below j c
    grind
  · intro u j c hu
    have htaken := h.taken u j c
    have hlt := h.below j c
    grind
  · intro u v y hu hv
    have hapart := h.apart u v y
    have htaken := h.taken u i
    have htaken' := h.taken v i
    grind

omit [DecidableEq ι] in
theorem spend (h : b.Inv) (ht : b.token t = some (i,c)) : (b.spend t i c).Inv := by
  obtain ⟨hused,hlt,hnew⟩ := h.taken t i c ht
  obtain ⟨x,hx,hkey⟩ := h.owned i (by simp [hused])
  refine ⟨?_,h.owned,h.distinct,?_,h.zero,?_,?_,?_,?_⟩
  all_goals simp only [Book.spend,update_apply,List.mem_cons]
  · grind [h.logged]
  · grind [h.unused,h.distinct]
  · intro j c'
    have hlt := h.below j c'
    have hsame := h.distinct j i
    grind
  · intro u j c' hu
    have htaken := h.taken u j c'
    have hsame := h.distinct j i
    have hapart := h.apart u t
    grind
  · grind [h.apart]
  · exact List.nodup_cons.mpr ⟨hnew,h.nodup⟩

end Inv
end Book
end NanoBSD
