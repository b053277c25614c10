import Mathlib.Logic.Function.Basic

/-! # Who has the callback

At most one party has the callback: a poller with the claim, which may have published a fence
for it; the queue of the published fence; or the signal of that fence, which is about to run it.
Nobody has it exactly when the claim is free. All that the parties see follows from who has it.
-/
namespace NanoBSD.Resv
open Function

inductive Stage (φ : Type)
  | out
  | free
  | posted (f : φ)
  deriving DecidableEq, Repr

@[ext]
structure Arm (ι φ : Type) where
  claimed : Bool
  fence : Option φ
  queue : φ → Bool
  running : φ → Bool
  stage : ι → Stage φ

inductive Holder (ι φ : Type)
  | nobody
  | free (i : ι)
  | posted (i : ι) (f : φ)
  | queue (f : φ)
  | running (f : φ)

namespace Holder
variable {ι φ : Type} [DecidableEq ι] [DecidableEq φ]

def claimed : Holder ι φ → Bool
  | nobody => false
  | _ => true

def Publishes : Holder ι φ → Option φ → Prop
  | nobody, _ => True
  | free _, o => o = none
  | posted _ f, o | queue f, o | running f, o => o = some f

def queues : Holder ι φ → φ → Bool
  | queue f => update (fun _ => false) f true
  | _ => fun _ => false

def runs : Holder ι φ → φ → Bool
  | running f => update (fun _ => false) f true
  | _ => fun _ => false

def stage : Holder ι φ → ι → Stage φ
  | free i => update (fun _ => .out) i .free
  | posted i f => update (fun _ => .out) i (.posted f)
  | _ => fun _ => .out

variable {x : Holder ι φ} {i : ι} {f : φ}

omit [DecidableEq ι] [DecidableEq φ] in
theorem of_unclaimed (hx : x.claimed = false) : x = .nobody := by
  cases x <;> first | rfl | cases hx

omit [DecidableEq ι] in
theorem of_queues (hx : x.queues f = true) : x = .queue f := by
  cases x with
  | queue g => simp_all [queues,update_apply]
  | _ => cases hx

omit [DecidableEq ι] in
theorem of_runs (hx : x.runs f = true) : x = .running f := by
  cases x with
  | running g => simp_all [runs,update_apply]
  | _ => cases hx

omit [DecidableEq φ] in
theorem of_stage_free (hx : x.stage i = .free) : x = .free i := by
  cases x with
  | free j => simp_all [stage,update_apply]
  | posted j g =>
    simp only [stage,update_apply] at hx
    split at hx <;> cases hx
  | _ => cases hx

omit [DecidableEq φ] in
theorem of_stage_posted (hx : x.stage i = .posted f) : x = .posted i f := by
  cases x with
  | posted j g =>
    simp only [stage,update_apply] at hx
    split at hx <;> cases hx
    rename_i hij
    rw [hij]
  | free j =>
    simp only [stage,update_apply] at hx
    split at hx <;> cases hx
  | _ => cases hx

end Holder

namespace Arm
variable {ι φ : Type} [DecidableEq ι] [DecidableEq φ]

/-- The steps of the protocol. A party that removes the callback from a queue has it then. -/
inductive Step (c : Arm ι φ) : Arm ι φ → Prop
  | claim (i : ι) (hc : c.claimed = false) :
    Step c { c with claimed := true, fence := none, stage := update c.stage i .free }
  | post (i : ι) (f : φ) (hi : c.stage i = .free) :
    Step c { c with fence := some f, stage := update c.stage i (.posted f) }
  | back (i : ι) (f : φ) (hi : c.stage i = .posted f) :
    Step c { c with fence := none, stage := update c.stage i .free }
  | add (i : ι) (f : φ) (hi : c.stage i = .posted f) :
    Step c { c with
      queue := update c.queue f true
      stage := update c.stage i .out }
  | simulate (i : ι) (hi : c.stage i = .free) :
    Step c { c with claimed := false, stage := update c.stage i .out }
  | dequeue (f : φ) (hf : c.queue f = true) :
    Step c { c with
      queue := update c.queue f false
      running := update c.running f true }
  | run (f : φ) (hf : c.running f = true) :
    Step c { c with claimed := false, running := update c.running f false }
  | remove (i : ι) (f : φ) (hf : c.queue f = true) :
    Step c { c with
      queue := update c.queue f false
      stage := update c.stage i (.posted f) }
  | clear (i : ι) (f : φ) (hi : c.stage i = .posted f) :
    Step c { c with claimed := false, stage := update c.stage i .out }
  | drop (hc : c.claimed = false) : Step c { c with fence := none }

structure With (c : Arm ι φ) (x : Holder ι φ) : Prop where
  claimed : c.claimed = x.claimed
  fence : x.Publishes c.fence
  queue : c.queue = x.queues
  running : c.running = x.runs
  stage : c.stage = x.stage

def Inv (c : Arm ι φ) : Prop := ∃ x, c.With x

variable {c c' : Arm ι φ} {f : φ} {i : ι}

theorem Inv.step (h : c.Inv) (hstep : c.Step c') : c'.Inv := by
  obtain ⟨x,hclaimed,hfence,hqueue,hrunning,hstage⟩ := h
  cases hstep with
  | claim i hc =>
    obtain rfl := Holder.of_unclaimed (hclaimed ▸ hc)
    exact ⟨.free i,rfl,rfl,hqueue,hrunning,by rw [hstage]; rfl⟩
  | post i f hi =>
    obtain rfl := Holder.of_stage_free (hstage ▸ hi)
    exact ⟨.posted i f,hclaimed,rfl,hqueue,hrunning,by simp [hstage,Holder.stage]⟩
  | back i f hi =>
    obtain rfl := Holder.of_stage_posted (hstage ▸ hi)
    exact ⟨.free i,hclaimed,rfl,hqueue,hrunning,by simp [hstage,Holder.stage]⟩
  | add i f hi =>
    obtain rfl := Holder.of_stage_posted (hstage ▸ hi)
    exact ⟨.queue f,hclaimed,hfence,by rw [hqueue]; rfl,hrunning,by simp [hstage,Holder.stage]⟩
  | simulate i hi =>
    obtain rfl := Holder.of_stage_free (hstage ▸ hi)
    exact ⟨.nobody,rfl,trivial,hqueue,hrunning,by simp [hstage,Holder.stage]⟩
  | dequeue f hf =>
    obtain rfl := Holder.of_queues (hqueue ▸ hf)
    exact ⟨.running f,hclaimed,hfence,by simp [hqueue,Holder.queues],by rw [hrunning]; rfl,hstage⟩
  | run f hf =>
    obtain rfl := Holder.of_runs (hrunning ▸ hf)
    exact ⟨.nobody,rfl,trivial,hqueue,by simp [hrunning,Holder.runs],hstage⟩
  | remove i f hf =>
    obtain rfl := Holder.of_queues (hqueue ▸ hf)
    exact ⟨.posted i f,hclaimed,hfence,by simp [hqueue,Holder.queues],hrunning,by rw [hstage]; rfl⟩
  | clear i f hi =>
    obtain rfl := Holder.of_stage_posted (hstage ▸ hi)
    exact ⟨.nobody,rfl,trivial,hqueue,hrunning,by simp [hstage,Holder.stage]⟩
  | drop hc =>
    obtain rfl := Holder.of_unclaimed (hclaimed ▸ hc)
    exact ⟨.nobody,hclaimed,trivial,hqueue,hrunning,hstage⟩

/-! ## What follows -/

theorem Inv.queue (h : c.Inv) (hf : c.queue f = true) :
    c.fence = some f ∧ ∀ g, c.queue g = true → g = f := by
  obtain ⟨x,-,hfence,hqueue,-,-⟩ := h
  obtain rfl := Holder.of_queues (hqueue ▸ hf)
  refine ⟨hfence,fun g hg => ?_⟩
  cases Holder.of_queues (hqueue ▸ hg)
  rfl

theorem Inv.free (h : c.Inv) (hi : c.stage i = .free) : c.claimed = true ∧ c.fence = none := by
  obtain ⟨x,hclaimed,hfence,-,-,hstage⟩ := h
  obtain rfl := Holder.of_stage_free (hstage ▸ hi)
  exact ⟨hclaimed,hfence⟩

theorem Inv.posted (h : c.Inv) (hi : c.stage i = .posted f) :
    c.claimed = true ∧ c.fence = some f := by
  obtain ⟨x,hclaimed,hfence,-,-,hstage⟩ := h
  obtain rfl := Holder.of_stage_posted (hstage ▸ hi)
  exact ⟨hclaimed,hfence⟩

theorem Inv.unclaimed (h : c.Inv) (hc : c.claimed = false) :
    (∀ f, c.queue f = false ∧ c.running f = false) ∧ ∀ i, c.stage i = .out := by
  obtain ⟨x,hclaimed,-,hqueue,hrunning,hstage⟩ := h
  obtain rfl := Holder.of_unclaimed (hclaimed ▸ hc)
  exact ⟨fun f => ⟨by rw [hqueue]; rfl,by rw [hrunning]; rfl⟩,fun i => by rw [hstage]; rfl⟩

theorem Inv.alone (h : c.Inv) {j : ι} (hi : c.stage i ≠ .out) (hij : j ≠ i) : c.stage j = .out := by
  obtain ⟨x,-,-,-,-,hstage⟩ := h
  rw [hstage] at hi ⊢
  cases x with
  | free k | posted k =>
    by_cases hk : i = k
    · simp [Holder.stage,← hk,hij]
    · simp [Holder.stage,hk] at hi
  | _ => rfl

theorem Inv.claimed (h : c.Inv) (hout : ∀ i, c.stage i = .out) (hc : c.claimed = true) :
    ∃ f, c.fence = some f ∧ (c.queue f = true ∨ c.running f = true) := by
  obtain ⟨x,hclaimed,hfence,hqueue,hrunning,hstage⟩ := h
  rw [hclaimed] at hc
  cases x with
  | nobody => cases hc
  | free i | posted i =>
    have hi := hout i
    simp [hstage,Holder.stage] at hi
  | queue f => exact ⟨f,hfence,.inl (by simp [hqueue,Holder.queues])⟩
  | running f => exact ⟨f,hfence,.inr (by simp [hrunning,Holder.runs])⟩

end Arm
end NanoBSD.Resv
