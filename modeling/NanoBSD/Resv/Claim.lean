import NanoBSD.Resv.Poll

/-! # The claim on the callback

The pollers share one callback. The claim on it is taken when a poller records itself and finds
it free, and given up by the callback, which notifies everybody on the select queue. In between
either the callback is queued on a fence that is not signalled, or the poller with the claim owes
it: it will queue the callback or run it.
-/
namespace NanoBSD.Resv
open Function
variable {π φ : Type}

structure Claim (π φ : Type) where
  claimed : Bool
  queued : Option φ
  signaled : φ → Bool
  sel : π → Sel
  owes : π → Bool

namespace Claim

def cb (c : Claim π φ) : Claim π φ :=
  { c with claimed := false, queued := none, sel := fun p => (c.sel p).notify }

variable [DecidableEq π] [DecidableEq φ]

inductive Step (c : Claim π φ) : Claim π φ → Prop
  | claim (p : π) (hp : c.claimed = false) :
    Step c { c with
      claimed := true
      sel := update c.sel p .recorded
      owes := update c.owes p true }
  | record (p : π) (hp : c.claimed = true) :
    Step c { c with sel := update c.sel p .recorded }
  | queue (p : π) (f : φ) (hp : c.owes p = true) (hf : c.signaled f = false) :
    Step c { c with queued := some f, owes := update c.owes p false }
  | simulate (p : π) (hp : c.owes p = true) :
    Step c { c.cb with owes := update c.owes p false }
  | signal (f : φ) (hf : c.queued ≠ some f) :
    Step c { c with signaled := update c.signaled f true }
  | complete (f : φ) (hf : c.queued = some f) :
    Step c { c.cb with signaled := update c.signaled f true }
  | forget (p : π) : Step c { c with sel := update c.sel p .off }

structure Inv (c : Claim π φ) : Prop where
  queued : ∀ {f}, c.queued = some f →
    c.claimed = true ∧ c.signaled f = false ∧ ∀ p, c.owes p = false
  owes : ∀ {p}, c.owes p = true → c.claimed = true ∧ ∀ q, c.owes q = true → q = p
  claimed : c.claimed = true → c.queued ≠ none ∨ ∃ p, c.owes p = true
  recorded : ∀ {p}, c.sel p = .recorded → c.claimed = true

variable {c c' : Claim π φ}

omit [DecidableEq π] [DecidableEq φ] in
theorem notify_ne_recorded (x : Sel) : x.notify ≠ .recorded := by cases x <;> simp [Sel.notify]

theorem Inv.step (h : c.Inv) (hstep : c.Step c') : c'.Inv := by
  cases hstep with
  | claim p hp =>
    have hnone (q : π) : c.owes q = false := by
      by_contra hq
      rw [Bool.not_eq_false] at hq
      simp [(h.owes hq).1] at hp
    have hfree : c.queued = none := by
      by_contra hq
      obtain ⟨f,hf⟩ := Option.ne_none_iff_exists'.mp hq
      simp [(h.queued hf).1] at hp
    constructor
    · intro f hf
      simp [hfree] at hf
    · intro q hq
      refine ⟨rfl,fun r hr => ?_⟩
      have hown {q : π} (hq : update c.owes p true q = true) : q = p := by
        by_contra hne
        simp [hne,hnone q] at hq
      exact (hown hr).trans (hown hq).symm
    · exact fun _ => Or.inr ⟨p,update_self p true c.owes⟩
    · exact fun _ => rfl
  | record p hp => exact { h with recorded := fun _ => hp }
  | queue p f hp hf =>
    obtain ⟨hclaimed,huniq⟩ := h.owes hp
    have hnone (q : π) : update c.owes p false q = false := by
      by_cases hq : q = p
      · simp [hq]
      · by_contra hne
        rw [update_of_ne hq,Bool.not_eq_false] at hne
        exact hq (huniq q hne)
    constructor
    · rintro g ⟨⟩
      exact ⟨hclaimed,hf,hnone⟩
    · intro q hq
      exact absurd (hnone q) (by simp [show update c.owes p false q = true from hq])
    · exact fun _ => Or.inl (by simp)
    · exact fun hq => h.recorded hq
  | simulate p hp =>
    obtain ⟨-,huniq⟩ := h.owes hp
    constructor
    · rintro g ⟨⟩
    · intro q hq
      by_cases hqp : q = p
      · simp [hqp] at hq
      · exact absurd (huniq q (by simpa [hqp,cb] using hq)) hqp
    · rintro ⟨⟩
    · intro q hq
      exact absurd hq (notify_ne_recorded _)
  | signal f hf =>
    refine { h with queued := fun {g} hg => ?_ }
    have hne : g ≠ f := fun hgf => hf (hgf ▸ hg)
    simpa [hne] using h.queued hg
  | complete f hf =>
    have hnone := (h.queued hf).2.2
    constructor
    · rintro g ⟨⟩
    · intro q hq
      exact absurd (hnone q) (by simp [show c.owes q = true from hq])
    · rintro ⟨⟩
    · intro q hq
      exact absurd hq (notify_ne_recorded _)
  | forget p =>
    refine { h with recorded := fun {q} hq => ?_ }
    by_cases hqp : q = p
    · simp [hqp] at hq
    · exact h.recorded (p := q) (by simpa [hqp] using hq)

end Claim
end NanoBSD.Resv
