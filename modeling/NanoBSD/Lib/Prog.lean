import Mathlib.Tactic.Common

/-! # Routines with state and an error exit

A routine either returns a value or stops with an error. The state it has reached
is kept in both cases, so an error path sees exactly what was done before it. The
weakest precondition has one postcondition for each of the two exits.
-/
namespace NanoBSD

/-- A routine over the state `σ` that may stop with an error of type `ε`. -/
def Prog (σ ε α : Type) : Type := σ → Except ε α × σ

namespace Prog
variable {σ ε δ α β : Type}

protected def pure (a : α) : Prog σ ε α := fun s => (.ok a,s)

protected def bind (x : Prog σ ε α) (f : α → Prog σ ε β) : Prog σ ε β := fun s =>
  match x s with
  | (.ok a,t) => f a t
  | (.error e,t) => (.error e,t)

instance : Monad (Prog σ ε) where
  pure := Prog.pure
  bind := Prog.bind

def raise (e : ε) : Prog σ ε α := fun s => (.error e,s)
def read (f : σ → α) : Prog σ ε α := fun s => (.ok (f s),s)
def update (f : σ → σ) : Prog σ ε Unit := fun s => (.ok (),f s)
def attempt (x : Prog σ ε α) : Prog σ δ (Except ε α) := fun s => (.ok (x s).1,(x s).2)

def focus {τ : Type} (get : σ → τ) (put : τ → σ → σ) (x : Prog τ ε α) : Prog σ ε α := fun s =>
  ((x (get s)).1,put (x (get s)).2 s)

def forDown : ℕ → (ℕ → Prog σ ε Unit) → Prog σ ε Unit
  | 0, _ => pure ()
  | n + 1, f => do
    f n
    forDown n f

def forUp : ℕ → (ℕ → Prog σ ε Unit) → Prog σ ε Unit
  | 0, _ => pure ()
  | n + 1, f => do
    forUp n f
    f n

def forEach : List α → (α → Prog σ ε Unit) → Prog σ ε Unit
  | [], _ => pure ()
  | a :: as, f => do
    f a
    forEach as f

/-- What has to hold before `x` for a normal return to satisfy `Q` and an error
exit to satisfy `E`. -/
def wp (x : Prog σ ε α) (Q : α → σ → Prop) (E : ε → σ → Prop) (s : σ) : Prop :=
  match x s with
  | (.ok a,t) => Q a t
  | (.error e,t) => E e t

section Rules
variable {Q Q' : α → σ → Prop} {E E' : ε → σ → Prop} {s : σ} {x : Prog σ ε α}

theorem wp_mono (h : x.wp Q E s) (hQ : ∀ a t, Q a t → Q' a t)
    (hE : ∀ e t, E e t → E' e t) : x.wp Q' E' s := by
  unfold wp at h ⊢
  cases hx : x s with
  | mk r t =>
    rw [hx] at h
    cases r with
    | ok a => exact hQ a t h
    | error e => exact hE e t h

theorem wp_conseq (h : x.wp Q E s) (hQ : ∀ a t, Q a t → Q' a t) : x.wp Q' E s :=
  wp_mono h hQ fun _ _ he => he

theorem wp_partial (h : x.wp Q E s) (hQ : ∀ a t, Q a t → Q' a t) :
    x.wp Q' (fun _ _ => True) s := wp_mono h hQ fun _ _ _ => trivial

theorem wp_and (h : x.wp Q E s) (h' : x.wp Q' E' s) :
    x.wp (fun a t => Q a t ∧ Q' a t) (fun e t => E e t ∧ E' e t) s := by
  unfold wp at h h' ⊢
  cases hx : x s with
  | mk r t =>
    rw [hx] at h h'
    cases r with
    | ok | error => exact ⟨h,h'⟩

theorem wp_imp {p : Prop} (h : p → x.wp Q E s) :
    x.wp (fun a t => p → Q a t) (fun e t => p → E e t) s := by
  unfold wp at h ⊢
  split <;> rename_i he <;> rw [he] at h <;> exact h

theorem wp_self (x : Prog σ ε α) (s : σ) :
    x.wp (fun a t => x s = (.ok a,t)) (fun e t => x s = (.error e,t)) s := by
  unfold wp
  split <;> assumption

theorem wp_state {R : σ → Prop} (h : x.wp (fun _ => R) (fun _ => R) s) : R (x s).2 := by
  unfold wp at h
  split at h <;> rename_i he <;> rw [he] <;> exact h

theorem wp_value {a : α} (h : x.wp (fun b _ => b = a) (fun _ _ => False) s) : (x s).1 = .ok a := by
  unfold wp at h
  split at h
  · rename_i he
    rw [he,h]
  · exact h.elim

theorem wp_ok (h : x.wp Q E s) {a : α} {t : σ} (he : x s = (.ok a,t)) : Q a t := by
  unfold wp at h
  rwa [he] at h

theorem wp_error (h : x.wp Q E s) {e : ε} {t : σ} (he : x s = (.error e,t)) : E e t := by
  unfold wp at h
  rwa [he] at h

@[simp] theorem wp_pure (a : α) : (pure a : Prog σ ε α).wp Q E s ↔ Q a s := Iff.rfl
@[simp] theorem wp_raise (e : ε) : (raise e : Prog σ ε α).wp Q E s ↔ E e s := Iff.rfl
@[simp] theorem wp_read (f : σ → α) : (read f : Prog σ ε α).wp Q E s ↔ Q (f s) s := Iff.rfl

@[simp] theorem wp_update (f : σ → σ) {R : Unit → σ → Prop} :
    (update f : Prog σ ε Unit).wp R E s ↔ R () (f s) := Iff.rfl

@[simp] theorem wp_bind (x : Prog σ ε β) (f : β → Prog σ ε α) :
    (x >>= f).wp Q E s ↔ x.wp (fun b => (f b).wp Q E) E s := by
  change (Prog.bind x f).wp Q E s ↔ _
  unfold wp Prog.bind
  cases x s with
  | mk r t => cases r <;> rfl

theorem wp_ite {c : Prop} [Decidable c] {y : Prog σ ε α} (hx : c → x.wp Q E s)
    (hy : ¬c → y.wp Q E s) : (if c then x else y).wp Q E s := by
  split
  · exact hx ‹_›
  · exact hy ‹_›

@[simp] theorem wp_attempt (x : Prog σ ε β) {R : Except ε β → σ → Prop} {F : δ → σ → Prop} :
    (attempt x : Prog σ δ (Except ε β)).wp R F s ↔
      x.wp (fun b => R (.ok b)) (fun e => R (.error e)) s := by
  unfold wp attempt
  cases x s with
  | mk r t => cases r <;> rfl

@[simp] theorem wp_focus {τ : Type} (get : σ → τ) (put : τ → σ → σ) (x : Prog τ ε α) :
    (focus get put x).wp Q E s ↔
      x.wp (fun a t => Q a (put t s)) (fun e t => E e (put t s)) (get s) := by
  unfold wp focus
  cases x (get s) with
  | mk r t => cases r <;> rfl

theorem wp_forDown (I : ℕ → σ → Prop) (n : ℕ) (f : ℕ → Prog σ ε Unit) (hs : I n s)
    (hf : ∀ i < n, ∀ t, I (i + 1) t → (f i).wp (fun _ => I i) E t) :
    (forDown n f).wp (fun _ => I 0) E s := by
  induction n generalizing s with
  | zero => exact hs
  | succ n ih =>
    simp only [forDown,wp_bind]
    refine wp_conseq (hf n (Nat.lt_succ_self n) s hs) ?_
    intro _ t ht
    exact ih ht (fun i hi => hf i (Nat.lt_succ_of_lt hi))

theorem wp_forUp (I : ℕ → σ → Prop) (n : ℕ) (f : ℕ → Prog σ ε Unit) (hs : I 0 s)
    (hf : ∀ i < n, ∀ t, I i t → (f i).wp (fun _ => I (i + 1)) E t) :
    (forUp n f).wp (fun _ => I n) E s := by
  induction n with
  | zero => exact hs
  | succ n ih =>
    simp only [forUp,wp_bind]
    refine wp_conseq (ih (fun i hi => hf i (Nat.lt_succ_of_lt hi))) ?_
    intro _ t ht
    exact hf n (Nat.lt_succ_self n) t ht

theorem wp_forEach_append (as bs : List β) (f : β → Prog σ ε Unit) {Q : Unit → σ → Prop} :
    (forEach (as ++ bs) f).wp Q E s ↔ (forEach as f).wp (fun _ => (forEach bs f).wp Q E) E s := by
  induction as generalizing s with
  | nil => exact Iff.rfl
  | cons a as ih =>
    have hsame := funext fun t => propext (ih (s := t))
    simp only [List.cons_append,forEach,wp_bind,hsame]

end Rules

/-- Both exits of a routine are related to its start. A preorder goes through every control
structure. -/
def Keeps (R : σ → σ → Prop) (x : Prog σ ε α) : Prop := ∀ s, R s (x s).2

section Keeps
variable {R : σ → σ → Prop} {x : Prog σ ε α} {f : α → Prog σ ε β}

theorem Keeps.wp (h : Keeps R x) (s : σ) : x.wp (fun _ t => R s t) (fun _ t => R s t) s := by
  have hs := h s
  unfold Prog.wp
  split <;> rename_i he <;> rw [he] at hs <;> exact hs

theorem Keeps.mono {R' : σ → σ → Prop} (h : Keeps R x)
    (hR : ∀ s t, R s t → R' s t) : Keeps R' x := fun s => hR _ _ (h s)

theorem Keeps.update {f : σ → σ} (h : ∀ s, R s (f s)) : Keeps R (update f : Prog σ ε Unit) := h

theorem Keeps.attempt (h : Keeps R x) :
    Keeps R (attempt x : Prog σ δ (Except ε α)) := h

theorem Keeps.read_bind (g : σ → α) (hf : ∀ a, Keeps R (f a)) :
    Keeps R (read g >>= f) := fun s => hf (g s) s

theorem Keeps.ite {c : Prop} [Decidable c] {y : Prog σ ε α} (hx : Keeps R x) (hy : Keeps R y) :
    Keeps R (if c then x else y) := by
  split
  · exact hx
  · exact hy

variable [IsPreorder σ R]

theorem Keeps.pure (a : α) : Keeps R (pure a : Prog σ ε α) := refl_of R
theorem Keeps.raise (e : ε) : Keeps R (raise e : Prog σ ε α) := refl_of R

theorem Keeps.bind (hx : Keeps R x) (hf : ∀ a, Keeps R (f a)) : Keeps R (x >>= f) := by
  intro s
  change R s (Prog.bind x f s).2
  have hs := hx s
  unfold Prog.bind
  split <;> rename_i he <;> rw [he] at hs
  · exact trans_of R hs (hf _ _)
  · exact hs

theorem Keeps.forEach (as : List β) {f : β → Prog σ ε Unit} (hf : ∀ a ∈ as, Keeps R (f a)) :
    Keeps R (forEach as f) := by
  induction as with
  | nil => exact Keeps.pure ()
  | cons a as ih =>
    apply Keeps.bind (hf a (by simp))
    intro _
    exact ih fun b hb => hf b (List.mem_cons_of_mem _ hb)

end Keeps
end Prog
end NanoBSD
