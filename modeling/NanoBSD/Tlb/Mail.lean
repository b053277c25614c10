import NanoBSD.Lib.Tally

/-! # The mailbox of the shootdown interrupts

There is one mailbox for all CPUs. A CPU that finds it free puts its packet there with the number
of targets, interrupts each of them, and waits. A target that takes its interrupt finds the
packet, counts itself off, and the last one frees the mailbox and then tells the sender. Between
these two the mailbox may have been taken again, by another sender.
-/
namespace NanoBSD.Tlb
open Function
variable {κ : Type}

/-- Where a target is: it has taken the interrupt, has the packet of `src`, is the last one and is
to free the mailbox, or is to tell the sender. -/
inductive Hand (κ : Type)
  | none
  | entered
  | copied (src : κ)
  | clearing (src : κ)
  | marking (src : κ)

/-- Where a sender is: it has the mailbox, it has still to interrupt the targets in a list, or it
has interrupted all of them. -/
inductive Out (κ : Type)
  | none
  | post
  | send (rest : List κ)
  | wait

def Hand.owes : Hand κ → Bool
  | .entered | .copied _ => true
  | _ => false

def Out.sent : Out κ → Bool
  | .send _ | .wait => true
  | _ => false

/-- Whose packet is in the mailbox, the number of targets; and of each CPU the pending interrupt,
whether it is a target that has not counted itself off, whether its packet is done, and where it is.
-/
structure Mail (κ : Type) where
  src : Option κ
  pendcount : ℕ
  ipi : κ → Bool
  due : κ → Bool
  done : κ → Bool
  hand : κ → Hand κ
  out : κ → Out κ

namespace Mail
variable [DecidableEq κ]

structure Inv (s : Mail κ) : Prop where
  free : s.src = none → ∀ c, s.due c = false
  posted : ∀ {i}, s.src = some i → s.done i = false ∧
    (s.out i = .post ∧ (∀ c, s.due c = false) ∨ (s.out i).sent = true)
  count : Tally s.due (· = true) s.pendcount
  post : ∀ {i}, s.out i = .post → s.src = some i
  send : ∀ {i rest}, s.out i = .send rest → rest.Nodup ∧ ∀ d ∈ rest,
    s.src = some i ∧ s.due d = true ∧ s.ipi d = false ∧ (s.hand d).owes = false
  ipi : ∀ {c}, s.ipi c = true → s.due c = true ∧ (s.hand c).owes = false
  owes : ∀ {c}, (s.hand c).owes = true → s.due c = true
  copied : ∀ {c src}, s.hand c = .copied src → s.src = some src
  clearing : ∀ {c src}, s.hand c = .clearing src → s.src = some src ∧ (s.out src).sent = true ∧
    (∀ d, s.due d = false) ∧ ∀ {d src'}, s.hand d = .clearing src' → d = c
  marking : ∀ {c src}, s.hand c = .marking src → s.src ≠ some src ∧ (s.out src).sent = true ∧
    s.done src = false ∧ ∀ {d}, s.hand d = .marking src → d = c

namespace Inv
variable {s s' : Mail κ} {i c : κ} {l : List κ}

variable (h : s.Inv)
include h

theorem acquire (hi : s.out i = .none) (hsrc : s.src = none) :
    Inv { s with
      src := some i, done := update s.done i false
      out := update s.out i .post } :=
  have hdue := h.free hsrc
  { h with
    free := nofun
    posted := by grind
    post := by grind [h.post]
    send := by grind [h.send]
    copied := by grind [h.copied]
    clearing := by grind [h.clearing]
    marking := by grind [h.marking,Out.sent] }

theorem posts {n : ℕ} {target : κ → Bool} (hi : s.out i = .post) (hn : Tally target (· = true) n)
    (hrest : l.Nodup) (hdue : ∀ d ∈ l, target d = true) :
    Inv { s with pendcount := n, due := target, out := update s.out i (.send l) } :=
  have hsrc : s.src = some i := h.post hi
  have hnone (c : κ) : s.due c = false := by
    rcases (h.posted hsrc).2 with ⟨-,hnone⟩ | hsent
    · exact hnone c
    · simp [hi,Out.sent] at hsent
  -- nobody has anything left from the packet before
  have hipi (c : κ) : s.ipi c = false :=
    Bool.eq_false_iff.mpr fun hc => by simpa [hnone] using h.ipi hc
  have howes (c : κ) : (s.hand c).owes = false :=
    Bool.eq_false_iff.mpr fun hc => by simpa [hnone] using h.owes hc
  { h with
    free := by simp [hsrc]
    posted := by grind [h.posted,Out.sent]
    count := hn
    post := by grind [h.post]
    send := by grind [h.send]
    ipi := by simp [hipi]
    owes := by simp [howes]
    clearing := by grind [h.clearing,Out.sent]
    marking := by grind [h.marking,Out.sent] }

theorem pass {d : κ} (hi : s.out i = .send (d :: l)) :
    Inv { s with
      ipi := update s.ipi d true, out := update s.out i (.send l) } :=
  have hnext := h.send hi
  { h with
    posted := by grind [h.posted,Out.sent]
    post := by grind [h.post]
    send := by grind [h.send]
    ipi := by grind [h.ipi]
    clearing := by grind [h.clearing,Out.sent]
    marking := by grind [h.marking,Out.sent] }

theorem sent (hi : s.out i = .send []) :
    Inv { s with out := update s.out i .wait } :=
  have hnext : (s.out i).sent = true := by rw [hi]; rfl
  { h with
    posted := by grind [h.posted,Out.sent]
    post := by grind [h.post]
    send := by grind [h.send]
    clearing := by grind [h.clearing,Out.sent]
    marking := by grind [h.marking,Out.sent] }

theorem finish (hdone : s.done i = true) :
    Inv { s with out := update s.out i .none } :=
  { h with
    posted := by grind [h.posted,Out.sent]
    post := by grind [h.post]
    send := by grind [h.send]
    clearing := by grind [h.clearing,h.posted,Out.sent]
    marking := by grind [h.marking,Out.sent] }

theorem take (hipi : s.ipi c = true) (hc : s.hand c = .none) :
    Inv { s with
      ipi := update s.ipi c false, hand := update s.hand c .entered } :=
  have hdue := (h.ipi hipi).1
  have hidle : ∀ src, s.hand c ≠ .clearing src ∧ s.hand c ≠ .marking src := by simp [hc]
  { h with
    send := by grind [h.send]
    ipi := by grind [h.ipi]
    owes := by grind [h.owes]
    copied := by grind [h.copied]
    clearing := by grind [h.clearing]
    marking := by grind [h.marking] }

theorem copy (hc : s.hand c = .entered) (hsrc : s.src = some i) :
    Inv { s with hand := update s.hand c (.copied i) } :=
  have hdue : s.due c = true := h.owes (by rw [hc]; rfl)
  { h with
    send := by grind [h.send,Hand.owes]
    ipi := by grind [h.ipi,Hand.owes]
    owes := by grind [h.owes]
    copied := by grind [h.copied]
    clearing := by grind [h.clearing]
    marking := by grind [h.marking] }

theorem ack (hc : s.hand c = .copied i) :
    Inv { s with
      pendcount := s.pendcount - 1, due := update s.due c false
      hand := update s.hand c (if s.pendcount - 1 = 0 then .clearing i else .none) } :=
  have hdue : s.due c = true := h.owes (by rw [hc]; rfl)
  have hsrc : s.src = some i := h.copied hc
  have hcount : Tally (update s.due c false) (· = true) (s.pendcount - 1) :=
    h.count.quit (by simp) hdue
  have hlast (hzero : s.pendcount - 1 = 0) (d : κ) : update s.due c false d = false :=
    Bool.eq_false_iff.mpr fun hd => hcount.not_zero hd hzero
  have hout : (s.out i).sent = true :=
    (h.posted hsrc).2.resolve_left fun hpost => by simp [hpost.2] at hdue
  have hclear (d src' : κ) : s.hand d ≠ .clearing src' :=
    fun hd => by simp [(h.clearing hd).2.2.1 c] at hdue
  { h with
    free := by grind
    posted := by grind [h.posted]
    count := hcount
    send := by grind [h.send,Hand.owes]
    ipi := by grind [h.ipi,Hand.owes]
    owes := by grind [h.owes,Hand.owes]
    copied := by grind [h.copied]
    clearing := by grind
    marking := by grind [h.marking] }

theorem clear {src : κ} (hc : s.hand c = .clearing src) :
    Inv { s with src := none, hand := update s.hand c (.marking src) } :=
  have hclear := h.clearing hc
  have hdone := (h.posted hclear.1).1
  have hpost (i : κ) : s.out i ≠ .post := by
    intro hi
    obtain rfl : src = i := Option.some.inj (hclear.1.symm.trans (h.post hi))
    simp [hi,Out.sent] at hclear
  have howes (d : κ) : (s.hand d).owes = false :=
    Bool.eq_false_iff.mpr fun hd => by simpa [hclear.2.2.1] using h.owes hd
  have hmark (d : κ) : s.hand d ≠ .marking src := fun hd => (h.marking hd).1 hclear.1
  { h with
    free := fun _ => hclear.2.2.1
    posted := nofun
    post := fun hi => absurd hi (hpost _)
    send := by grind [h.send]
    ipi := by grind [h.ipi]
    owes := by grind [Hand.owes]
    copied := by grind [Hand.owes]
    clearing := by grind
    marking := by
      have := @h.marking
      grind }

theorem mark (hc : s.hand c = .marking i) :
    Inv { s with
      done := update s.done i true, hand := update s.hand c .none } :=
  have hmark := h.marking hc
  { h with
    posted := by grind [h.posted]
    send := by grind [h.send,Hand.owes]
    ipi := by grind [h.ipi,Hand.owes]
    owes := by grind [h.owes,Hand.owes]
    copied := by grind [h.copied]
    clearing := by grind [h.clearing]
    marking := by grind [h.marking] }

end Inv
end Mail
end NanoBSD.Tlb
