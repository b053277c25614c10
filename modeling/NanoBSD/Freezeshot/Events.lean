import NanoBSD.Lib.Run
import Mathlib.Logic.Function.Basic

/-! # The event queue of freezeshot

Events of the pointer and the keyboard wait in a ring of fixed size. If it is full, a motion
event is dropped, and any other takes the place of the newest one in the ring, whatever it is.
-/
namespace NanoBSD.Freezeshot
open Function List
variable {δ : Type}

inductive EventType
  | motion
  | button
  | key
deriving DecidableEq

structure FzEvent (δ : Type) where
  type : EventType
  data : δ
deriving DecidableEq

def FzEvent.lasting (ev : FzEvent δ) : Bool := ev.type ≠ .motion
def fzQueue : ℕ := 64

structure Fz (δ : Type) where
  queue : ℕ → FzEvent δ
  qhead : ℕ
  qlen : ℕ

def Fz.put (fz : Fz δ) (ev : FzEvent δ) : Fz δ :=
  { fz with
    queue := update fz.queue ((fz.qhead + fz.qlen) % fzQueue) ev
    qlen := fz.qlen + 1 }

def Fz.unput (fz : Fz δ) : Fz δ := { fz with qlen := fz.qlen - 1 }

def fzPush (fz : Fz δ) (ev : FzEvent δ) : Fz δ :=
  if fz.qlen = fzQueue then if ev.lasting then fz.unput.put ev else fz else fz.put ev

def Fz.rest (fz : Fz δ) : Fz δ :=
  { fz with qhead := (fz.qhead + 1) % fzQueue, qlen := fz.qlen - 1 }

/-- The queue with the events that came in and, in `taken`, those handed out. -/
structure Session (δ : Type) where
  fz : Fz δ
  pushed : List (FzEvent δ)
  taken : List (FzEvent δ)

inductive Act (δ : Type)
  | push (ev : FzEvent δ)
  | next

/-- With an empty queue `fz_next_event` waits for a push, or fails. -/
def step (s : Session δ) : Act δ → Option (Session δ)
  | .push ev => some { s with fz := fzPush s.fz ev, pushed := s.pushed ++ [ev] }
  | .next =>
    if s.fz.qlen = 0 then none
    else some { s with fz := s.fz.rest, taken := s.taken ++ [s.fz.queue s.fz.qhead] }

def start (queue : ℕ → FzEvent δ) : Session δ := ⟨⟨queue,0,0⟩,[],[]⟩

def Fz.waiting (fz : Fz δ) : List (FzEvent δ) :=
  (List.range fz.qlen).map fun k => fz.queue ((fz.qhead + k) % fzQueue)

def Session.seen (s : Session δ) : List (FzEvent δ) := s.taken ++ s.fz.waiting

/-- A lasting event that finds the queue full finds a motion event at its end. -/
def Yields (s : Session δ) : Act δ → Prop
  | .push ev => s.fz.qlen = fzQueue → ev.lasting = true →
      ∀ last ∈ s.fz.waiting.getLast?, last.lasting = false
  | .next => True

section Waiting
variable {fz : Fz δ} {ev : FzEvent δ} {s t : Session δ} {a : Act δ}

theorem waiting_put (h : fz.qlen < fzQueue) : (fz.put ev).waiting = fz.waiting ++ [ev] := by
  show (List.range (fz.qlen + 1)).map _ = _
  rw [range_succ,map_append,map_singleton]
  congr 1
  · refine map_congr_left fun k hk => update_of_ne ?_ _ _
    rw [mem_range] at hk
    show (fz.qhead + k) % 64 ≠ (fz.qhead + fz.qlen) % 64
    unfold fzQueue at h
    omega
  · exact congrArg (fun e => [e]) (update_self ..)

theorem waiting_unput : fz.unput.waiting = fz.waiting.dropLast := by
  unfold Fz.waiting Fz.unput
  cases fz.qlen with
  | zero => rfl
  | succ n =>
    rw [range_succ,map_append,map_singleton,dropLast_concat]
    rfl

theorem waiting_rest (hhead : fz.qhead < fzQueue) (hlen : fz.qlen ≠ 0) :
    fz.queue fz.qhead :: fz.rest.waiting = fz.waiting := by
  obtain ⟨n,hn⟩ := Nat.exists_eq_succ_of_ne_zero hlen
  unfold Fz.waiting
  rw [hn,range_succ_eq_map,map_cons,map_map,Nat.add_zero,Nat.mod_eq_of_lt hhead,
    Fz.rest,hn]
  refine congrArg _ (map_congr_left fun k _ => congrArg fz.queue ?_)
  show ((fz.qhead + 1) % 64 + k) % 64 = (fz.qhead + (k + 1)) % 64
  omega

structure Fz.Fits (fz : Fz δ) : Prop where
  head : fz.qhead < fzQueue
  len : fz.qlen ≤ fzQueue

theorem step_push (h : s.fz.Fits) (hstep : step s (.push ev) = some t) :
    t.fz.Fits ∧ t.pushed = s.pushed ++ [ev] ∧ (t.seen = s.seen ++ [ev] ∨
      ev.lasting = false ∧ t.seen = s.seen ∨ s.fz.qlen = fzQueue ∧ ev.lasting = true ∧
        t.seen = s.taken ++ s.fz.waiting.dropLast ++ [ev]) := by
  cases hstep
  unfold Session.seen fzPush
  dsimp only
  split_ifs with hfull hlast
  · have hroom : s.fz.unput.qlen < fzQueue := by
      show s.fz.qlen - 1 < fzQueue
      rw [hfull]
      decide
    refine ⟨⟨h.head,hroom⟩,rfl,.inr (.inr ⟨hfull,hlast,?_⟩)⟩
    rw [waiting_put hroom,waiting_unput,append_assoc]
  · exact ⟨h,rfl,.inr (.inl ⟨by simpa using hlast,rfl⟩)⟩
  · have hroom : s.fz.qlen < fzQueue := Nat.lt_of_le_of_ne h.len hfull
    exact ⟨⟨h.head,hroom⟩,rfl,.inl (by rw [waiting_put hroom,append_assoc])⟩

theorem step_next (h : s.fz.Fits) (hstep : step s .next = some t) :
    t.fz.Fits ∧ t.pushed = s.pushed ∧ t.seen = s.seen := by
  obtain ⟨hlen,rfl⟩ := of_unless hstep
  refine ⟨⟨Nat.mod_lt _ (by decide),Nat.le_trans (Nat.sub_le ..) h.len⟩,rfl,?_⟩
  unfold Session.seen
  rw [← waiting_rest h.head hlen,append_assoc,singleton_append]

def Kept (s : Session δ) : Prop :=
  s.seen.filter FzEvent.lasting = s.pushed.filter FzEvent.lasting

structure Inv (s : Session δ) : Prop where
  fits : s.fz.Fits
  order : s.seen.Sublist s.pushed

theorem filter_dropLast {l : List (FzEvent δ)} (h : ∀ last ∈ l.getLast?, last.lasting = false) :
    l.dropLast.filter FzEvent.lasting = l.filter FzEvent.lasting := by
  obtain rfl | ⟨l,e,rfl⟩ := eq_nil_or_concat l
  · rfl
  · simp [h e (by simp)]

theorem Inv.step (h : Inv s) (hstep : step s a = some t) :
    Inv t ∧ (Yields s a → Kept s → Kept t) := by
  unfold Kept
  cases a with
  | push ev =>
    obtain ⟨hfits,hpushed,heq | ⟨hev,heq⟩ | ⟨hfull,hev,heq⟩⟩ := step_push h.fits hstep
    all_goals refine ⟨⟨hfits,?_⟩,fun ha hkept => ?_⟩ <;> rw [heq,hpushed]
    · exact h.order.append (.refl _)
    · rw [filter_append,filter_append,hkept]
    · exact h.order.trans (sublist_append_left _ _)
    · simp [hkept,hev]
    · refine (List.Sublist.trans ?_ h.order).append (.refl _)
      exact (List.Sublist.refl _).append (dropLast_sublist _)
    · simp only [← hkept,Session.seen,filter_append,filter_dropLast (ha hfull hev)]
  | next =>
    obtain ⟨hfits,hpushed,hseen⟩ := step_next h.fits hstep
    rw [hseen,hpushed]
    exact ⟨⟨hfits,by rw [hseen,hpushed]; exact h.order⟩,fun _ => id⟩

end Waiting

/-- Events are handed out in order; and as long as a lasting event that finds the queue full finds a
motion event at its end, none is lost. -/
theorem events_in_order {queue : ℕ → FzEvent δ} {acts : List (Act δ)} {s : Session δ}
    (hrun : exec step (start queue) acts = some s) :
    s.seen.Sublist s.pushed ∧ (Along step Yields (start queue) acts → Kept s) := by
  have hstart : Inv (start queue) := ⟨⟨Nat.zero_lt_succ _,Nat.zero_le _⟩,.refl _⟩
  refine ⟨(exec_invariant Inv (fun _ _ _ h hs => (h.step hs).1) hstart hrun).order,fun hall => ?_⟩
  exact (exec_invariant_along (fun s => Inv s ∧ Kept s) (fun _ _ _ h ha hs =>
    ⟨(h.1.step hs).1,(h.1.step hs).2 ha h.2⟩) ⟨hstart,rfl⟩ hall hrun).2

instance [DecidableEq δ] (s : Session δ) : ∀ a, Decidable (Yields s a)
  | .push _ => inferInstanceAs (Decidable (_ → _ → ∀ last ∈ _, _))
  | .next => isTrue trivial

/-- 63 keys and a motion event fill the queue, and a button takes the place of the motion event. -/
def buttonLast : List (Act Unit) :=
  List.replicate 63 (.push ⟨.key,()⟩) ++ [.push ⟨.motion,()⟩,.push ⟨.button,()⟩]

theorem events_in_order_buttonLast : ∃ s, exec step (start fun _ => ⟨.motion,()⟩) buttonLast = some s ∧
    s.fz.waiting = List.replicate 63 ⟨.key,()⟩ ++ [⟨.button,()⟩] ∧ s.seen.Sublist s.pushed ∧
    Kept s := by
  obtain ⟨s,hrun,hwaiting⟩ : ∃ s, exec step (start fun _ => ⟨.motion,()⟩) buttonLast = some s ∧
      s.fz.waiting = List.replicate 63 ⟨.key,()⟩ ++ [⟨.button,()⟩] := by decide +kernel
  obtain ⟨horder,hkept⟩ := events_in_order hrun
  exact ⟨s,hrun,hwaiting,horder,hkept (by decide +kernel)⟩

/-- A motion event and 63 keys fill the queue; the next key takes the place of the last one. -/
theorem key_lost : ∃ acts : List (Act Unit), ∃ s,
    exec step (start fun _ => ⟨.motion,()⟩) acts = some s ∧
    Along step (fun s _ => s.fz.qlen < fzQueue ∨ ⟨.motion,()⟩ ∈ s.fz.waiting)
      (start fun _ => ⟨.motion,()⟩) acts ∧ ¬Kept s := by
  refine ⟨.push ⟨.motion,()⟩ :: List.replicate 64 (.push ⟨.key,()⟩),_,rfl,?_,?_⟩
  · decide +kernel
  · unfold Kept
    decide +kernel

end NanoBSD.Freezeshot
