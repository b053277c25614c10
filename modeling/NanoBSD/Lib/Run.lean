import Mathlib.Data.Option.Basic
import Mathlib.Tactic.Common

/-! # Runs of a step function

A machine is a partial step function over labelled actions; an action that is not
enabled has no result. What every step keeps holds along a run, and a machine whose
steps are mirrored by another one inherits what holds along the runs of the other.
-/
namespace NanoBSD
open Option
variable {σ τ α β : Type}

/-- The state after a list of actions, if all of them are enabled in turn. -/
def exec (step : σ → α → Option σ) : σ → List α → Option σ
  | s, [] => some s
  | s, a :: as => (step s a).bind fun t => exec step t as

variable {step : σ → α → Option σ} {mirror : τ → β → Option τ} {s t : σ}

theorem of_guard {p : Prop} [Decidable p] (h : (if p then some s else none) = some t) :
    p ∧ s = t := by
  simpa only [ite_none_right_eq_some,Option.some.injEq] using h

theorem of_unless {p : Prop} [Decidable p] (h : (if p then none else some s) = some t) :
    ¬p ∧ s = t := by
  simpa only [ite_none_left_eq_some,Option.some.injEq] using h

variable {as : List α} {P : σ → Prop}

theorem exec_cons_eq_some {a : α} :
    exec step s (a :: as) = some t ↔ ∃ u, step s a = some u ∧ exec step u as = some t :=
  bind_eq_some_iff

theorem exec_append (s : σ) (as bs : List α) :
    exec step s (as ++ bs) = (exec step s as).bind fun t => exec step t bs := by
  induction as generalizing s with
  | nil => rfl
  | cons a as ih =>
    simp only [List.cons_append,exec]
    cases step s a with
    | none => rfl
    | some t => exact ih t

theorem any_iff_exists_some {o : Option σ} [DecidablePred P] :
    o.any (fun t => decide (P t)) = true ↔ ∃ t, o = some t ∧ P t := by
  simp only [any_eq_true,decide_eq_true_eq]

instance decidableExistsSome {o : Option σ} {P : σ → Prop} [DecidablePred P] :
    Decidable (∃ t, o = some t ∧ P t) :=
  decidable_of_iff _ any_iff_exists_some

/-- Every action of a run meets `P` in the state it is taken in. -/
def Along (step : σ → α → Option σ) (P : σ → α → Prop) : σ → List α → Prop
  | _, [] => True
  | s, a :: as => P s a ∧ ∀ t ∈ step s a, Along step P t as

instance decidableAlong {P : σ → α → Prop} [∀ s a, Decidable (P s a)] :
    ∀ s as, Decidable (Along step P s as)
  | _, [] => isTrue trivial
  | s, a :: as =>
    have (t : σ) : Decidable (Along step P t as) := decidableAlong t as
    inferInstanceAs (Decidable (P s a ∧ ∀ t ∈ step s a, Along step P t as))

theorem Along.append {P : σ → α → Prop} {bs : List α}
    (h : Along step P s (as ++ bs)) (hrun : exec step s as = some t) :
    Along step P s as ∧ Along step P t bs := by
  induction as generalizing s with
  | nil =>
    obtain rfl : s = t := Option.some.inj hrun
    exact ⟨trivial,h⟩
  | cons a as ih =>
    obtain ⟨u,hu,hrest⟩ := exec_cons_eq_some.mp hrun
    refine ⟨⟨h.1,fun v hv => ?_⟩,(ih (h.2 u hu) hrest).2⟩
    obtain rfl : u = v := Option.some.inj (hu.symm.trans hv)
    exact (ih (h.2 u hu) hrest).1

theorem along_of_forall {Q : α → Prop} (h : ∀ a ∈ as, Q a) (s : σ) :
    Along step (fun _ a => Q a) s as := by
  induction as generalizing s with
  | nil => trivial
  | cons a as ih =>
    exact ⟨h a List.mem_cons_self,fun t _ => ih (fun b hb => h b (List.mem_cons_of_mem a hb)) t⟩

theorem exec_invariant_along (I : σ → Prop) {P : σ → α → Prop}
    (hstep : ∀ s a t, I s → P s a → step s a = some t → I t) (hs : I s) (hall : Along step P s as)
    (hrun : exec step s as = some t) : I t := by
  induction as generalizing s with
  | nil =>
    obtain rfl : s = t := Option.some.inj hrun
    exact hs
  | cons a as ih =>
    obtain ⟨u,hu,hrest⟩ := exec_cons_eq_some.mp hrun
    exact ih (hstep s a u hs hall.1 hu) (hall.2 u hu) hrest

/-- A property that every step keeps holds along every run. -/
theorem exec_invariant (I : σ → Prop) (hstep : ∀ s a t, I s → step s a = some t → I t)
    (hs : I s) (hrun : exec step s as = some t) : I t :=
  exec_invariant_along I (fun s a t h _ => hstep s a t h) hs
    (along_of_forall (fun _ _ => trivial) s) hrun

/-- The property `P` holds at the start of a run and after each of its steps. -/
def Throughout (step : σ → α → Option σ) (P : σ → Prop) : σ → List α → Prop
  | s, [] => P s
  | s, a :: as => P s ∧ ∀ t ∈ step s a, Throughout step P t as

instance decidableThroughout {P : σ → Prop} [DecidablePred P] :
    ∀ s as, Decidable (Throughout step P s as)
  | s, [] => inferInstanceAs (Decidable (P s))
  | s, a :: as =>
    have (t : σ) : Decidable (Throughout step P t as) := decidableThroughout t as
    inferInstanceAs (Decidable (P s ∧ ∀ t ∈ step s a, Throughout step P t as))

theorem Throughout.start (h : Throughout step P s as) : P s := by
  cases as with
  | nil => exact h
  | cons a as => exact h.1

theorem Throughout.mono {Q : σ → Prop} (h : Throughout step P s as) (hPQ : ∀ s, P s → Q s) :
    Throughout step Q s as := by
  induction as generalizing s with
  | nil => exact hPQ s h
  | cons a as ih => exact ⟨hPQ s h.1,fun t ht => ih (h.2 t ht)⟩

theorem throughout_of_forall (h : ∀ s, P s) (s : σ) (as : List α) : Throughout step P s as := by
  induction as generalizing s with
  | nil => exact h s
  | cons a as ih => exact ⟨h s,fun t _ => ih t⟩

theorem exec_invariant_throughout (I : σ → Prop)
    (hstep : ∀ s a t, I s → P s → P t → step s a = some t → I t)
    (hs : I s) (hall : Throughout step P s as) (hrun : exec step s as = some t) : I t := by
  induction as generalizing s with
  | nil =>
    obtain rfl : s = t := Option.some.inj hrun
    exact hs
  | cons a as ih =>
    obtain ⟨u,hu,hrest⟩ := exec_cons_eq_some.mp hrun
    have hnext := hall.2 u hu
    exact ih (hstep s a u hs hall.1 hnext.start hu) hnext hrest

/-- If each step is mirrored by a few steps of another machine, so is each run. -/
theorem exec_simulation (I : σ → Prop) (abs : σ → τ) (hstep : ∀ s a t, I s → step s a = some t →
      I t ∧ ∃ bs, exec mirror (abs s) bs = some (abs t))
    (hs : I s) (hrun : exec step s as = some t) :
    I t ∧ ∃ bs, exec mirror (abs s) bs = some (abs t) := by
  induction as generalizing s with
  | nil =>
    obtain rfl : s = t := Option.some.inj hrun
    exact ⟨hs,[],rfl⟩
  | cons a as ih =>
    obtain ⟨u,hu,hrest⟩ := exec_cons_eq_some.mp hrun
    obtain ⟨hIu,bs,hbs⟩ := hstep s a u hs hu
    obtain ⟨hIt,cs,hcs⟩ := ih hIu hrest
    exact ⟨hIt,bs ++ cs,by rw [exec_append,hbs]; exact hcs⟩

def viewed (step : σ → α → Option σ) (view : σ → α → List β) : σ → List α → List β
  | _, [] => []
  | s, a :: as => view s a ++ (step s a).elim [] fun t => viewed step view t as

theorem viewed_append (view : σ → α → List β) (h : exec step s as = some t) (bs : List α) :
    viewed step view s (as ++ bs) = viewed step view s as ++ viewed step view t bs := by
  induction as generalizing s with
  | nil =>
    obtain rfl : s = t := Option.some.inj h
    rfl
  | cons a as ih =>
    obtain ⟨u,hu,hrest⟩ := exec_cons_eq_some.mp h
    simp only [List.cons_append,viewed,hu,elim_some,ih hrest,List.append_assoc]

/-- A machine refines another one if the other can always follow what its steps show. -/
theorem exec_refines (R : σ → τ → Prop) {view : σ → α → List β}
    (hstep : ∀ s a t k, R s k → step s a = some t →
      ∃ k', exec mirror k (view s a) = some k' ∧ R t k')
    {k : τ} (hs : R s k) (hrun : exec step s as = some t) :
    ∃ k', exec mirror k (viewed step view s as) = some k' ∧ R t k' := by
  induction as generalizing s k with
  | nil =>
    obtain rfl : s = t := Option.some.inj hrun
    exact ⟨k,rfl,hs⟩
  | cons a as ih =>
    obtain ⟨u,hu,hrest⟩ := exec_cons_eq_some.mp hrun
    obtain ⟨l,hl,hul⟩ := hstep s a u k hs hu
    obtain ⟨k',hk',htk⟩ := ih hul hrest
    refine ⟨k',?_,htk⟩
    simp only [viewed,hu,elim_some,exec_append,hl,bind_some]
    exact hk'

end NanoBSD
