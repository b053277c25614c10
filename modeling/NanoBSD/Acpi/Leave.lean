import NanoBSD.Acpi.Board
import NanoBSD.Acpi.Release

/-! # What a routine leaves alone

Most steps of a transition concern one resource. `Leaves T` says that the resources of
`T` keep their references and are not switched, and that no device record changes.
-/
namespace NanoBSD.AcpiPower
open Prog
variable {H : Type} [DecidableEq H]

/-- Device records, the references of the resources in `T` and their power are the same. -/
structure Leaves (T : H → Prop) (σ σ' : Power H) : Prop where
  devices : σ'.devices = σ.devices
  holders : ∀ r, T r → σ'.holders r = σ.holders r
  log : ∃ new, σ'.log = σ.log ++ new ∧ ∀ e ∈ new, ∀ r, T r → e.switchOf r = none

namespace Leaves
variable {T : H → Prop} {σ σ' σ'' : Power H}

theorem refl (σ : Power H) : Leaves T σ σ := ⟨rfl,fun _ _ => rfl,[],by simp⟩

theorem trans (h : Leaves T σ σ') (h' : Leaves T σ' σ'') : Leaves T σ σ'' where
  devices := h'.devices.trans h.devices
  holders r hr := (h'.holders r hr).trans (h.holders r hr)
  log := Logs.trans h.log h'.log

theorem record {e : Event H} (he : ∀ r, T r → e.switchOf r = none) : Leaves T σ (σ.record e) :=
  ⟨rfl,fun _ _ => rfl,[e],rfl,by simpa using he⟩

end Leaves

instance (T : H → Prop) : IsPreorder (Power H) (Leaves T) where
  refl := Leaves.refl
  trans _ _ _ := Leaves.trans

section Frames
variable {A : Aml H} {T : H → Prop} {α : Type} {q : H}

theorem ask_leaves {answer : List (Event H) → Except Status α} {event : Except Status α → Event H}
    (h : ∀ a r, T r → (event a).switchOf r = none) : Keeps (Leaves T) (ask answer event) :=
  fun _ => Leaves.record (h _)

theorem mapHolders_leaves (hq : ¬T q) (g : Holders H → Holders H) :
    Keeps (Leaves T) (update (Power.mapHolders q g) : Prog (Power H) Status Unit) := by
  intro σ
  refine ⟨rfl,?_,[],by simp [update,Power.mapHolders]⟩
  intro r hr
  have hne : r ≠ q := fun he => hq (he ▸ hr)
  exact Power.mapHolders_holders_of_ne hne g σ

theorem powerSta_leaves (q : H) : Keeps (Leaves T) (powerSta A q) := by
  unfold powerSta
  refine Keeps.bind (ask_leaves fun _ _ _ => rfl) fun value => ?_
  exact Keeps.ite (Keeps.raise _) (Keeps.pure _)

theorem evaluateObject_leaves {name : Name}
    (h : ∀ a held b r, T r → (Event.method q name a held b).switchOf r = none) :
    Keeps (Leaves T) (evaluateObject A q name) :=
  Keeps.read_bind _ fun held => Keeps.read_bind _ fun b => ask_leaves fun a => h a held b

theorem powerMethod_leaves (hq : ¬T q) (on : Bool) : Keeps (Leaves T) (powerMethod A q on) := by
  have hne : ∀ {r}, T r → q ≠ r := fun hr he => hq (he ▸ hr)
  have hother : ∀ a held b r, T r →
      (Event.method q (if on then .ON else .OFF) a held b).switchOf r = none := by
    intro a held b r hr
    cases on <;> cases a <;> simp [Event.switchOf,hne hr]
  unfold powerMethod
  refine Keeps.bind (evaluateObject_leaves hother).attempt fun rv => ?_
  refine Keeps.bind (powerSta_leaves q).attempt fun sr => ?_
  cases rv with
  | error status => exact Keeps.raise _
  | ok _ =>
    cases sr with
    | error status => exact Keeps.raise _
    | ok sta => exact Keeps.ite (Keeps.pure _) (Keeps.raise _)

theorem powerAcquire_leaves (hq : ¬T q) (d : H) (k : Kind) :
    Keeps (Leaves T) (powerAcquire A q d k) := by
  unfold powerAcquire
  apply Keeps.read_bind
  intro first
  refine Keeps.bind (mapHolders_leaves hq _) fun _ => ?_
  apply Keeps.ite (powerMethod_leaves hq true)
  refine Keeps.bind (powerSta_leaves q) fun sta => ?_
  exact Keeps.ite (powerMethod_leaves hq true) (Keeps.pure _)

theorem powerRelease_leaves (hq : ¬T q) (d : H) (u : Uses) :
    Keeps (Leaves T) (powerRelease A q d u) := by
  unfold powerRelease
  apply Keeps.read_bind
  intro p
  refine Keeps.ite (Keeps.pure _) ?_
  refine Keeps.bind ?_ fun _ => mapHolders_leaves hq _
  unfold confirmRelease
  apply Keeps.ite (powerMethod_leaves hq false)
  refine Keeps.bind (powerSta_leaves q) fun sta => ?_
  exact Keeps.ite (Keeps.pure _) (Keeps.raise _)

theorem powerResource_leaves (q : H) : Keeps (Leaves T) (powerResource A q) := by
  unfold powerResource
  apply Keeps.read_bind
  intro known
  refine Keeps.ite (Keeps.pure _) ?_
  refine Keeps.bind (ask_leaves fun _ _ _ => rfl) fun obj => ?_
  cases obj with
  | power order =>
    intro σ
    exact ⟨by simp [update],by simp [update],[],by simp [update]⟩
  | package | other => exact Keeps.raise _

theorem packageElements_leaves (elements : List (Except Status H)) (set : List H) :
    Keeps (Leaves T) (packageElements A elements set) := by
  induction elements generalizing set with
  | nil => exact Keeps.pure _
  | cons element elements ih =>
    cases element with
    | error status => exact Keeps.raise _
    | ok r => exact Keeps.bind (powerResource_leaves r) fun _ => ih _

theorem powerPackage_leaves (h : H) (n : ℕ) (set : List H) :
    Keeps (Leaves T) (powerPackage A h n set) := by
  unfold powerPackage
  refine Keeps.bind (ask_leaves fun _ _ _ => rfl).attempt fun rv => ?_
  split
  · exact Keeps.pure _
  · exact Keeps.raise _
  · refine Keeps.bind (ask_leaves fun _ _ _ => rfl) fun obj => ?_
    split
    · exact packageElements_leaves _ _
    · exact Keeps.raise _

theorem checkParent_leaves (h : H) (n : ℕ) : Keeps (Leaves T) (checkParent A h n) := by
  have hnode : Keeps (Leaves T) (matchNode A h) := fun _ => Leaves.record fun _ _ => rfl
  unfold checkParent
  refine Keeps.bind hnode fun node => ?_
  split
  · apply Keeps.read_bind
    intro adState
    exact Keeps.ite (Keeps.raise _) (Keeps.pure _)
  · exact Keeps.pure _

theorem enterState_leaves (h : H) (n : ℕ) (flags : BitVec 32) :
    Keeps (Leaves T) (enterState A h n flags) := by
  unfold enterState
  refine Keeps.ite ?_ (Keeps.pure _)
  unfold powerPs
  refine Keeps.bind (ask_leaves fun _ _ _ => rfl).attempt fun rv => ?_
  split
  · exact Keeps.pure _
  · exact Keeps.raise _
  · exact evaluateObject_leaves fun _ _ _ _ _ => rfl

end Frames

theorem anyOff_leaves {A : Aml H} {T : H → Prop} (set : List H) (cold : Bool) :
    Keeps (Leaves T) (anyOff A set cold) := by
  induction set generalizing cold with
  | nil => exact Keeps.pure _
  | cons r set ih => exact Keeps.bind (powerSta_leaves r) fun sta => ih _

theorem forEach_at {f : H → Prog (Power H) Status Unit} {r : H} {rs : List H} (hn : rs.Nodup)
    (hmem : r ∈ rs) (hf : ∀ q, q ≠ r → Keeps (Leaves fun p => p = r) (f q)) {Q : Power H → Prop}
    {σ : Power H}
    (hr : ∀ τ, Leaves (fun p => p = r) σ τ → (f r).wp (fun _ => Q) (fun _ _ => True) τ)
    (hQ : ∀ τ τ', Leaves (fun p => p = r) τ τ' → Q τ → Q τ') :
    (forEach rs f).wp (fun _ => Q) (fun _ _ => True) σ := by
  obtain ⟨before,after,rfl⟩ := List.append_of_mem hmem
  rw [List.nodup_append,List.nodup_cons] at hn
  obtain ⟨-,⟨hafter,-⟩,hdisj⟩ := hn
  have hne : ∀ q ∈ before, q ≠ r := fun q hq => hdisj q hq r (by simp)
  rw [wp_forEach_append]
  have hbefore : Keeps (Leaves fun p => p = r) (forEach before f) :=
    Keeps.forEach before fun q hq => hf q (hne q hq)
  refine wp_partial (hbefore.wp σ) ?_
  intro _ σ₁ h₁
  simp only [forEach,wp_bind]
  refine wp_partial (hr σ₁ h₁) ?_
  intro _ σ₂ h₂
  have hrest : Keeps (Leaves fun p => p = r) (forEach after f) :=
    Keeps.forEach after fun q hq => hf q fun he => hafter (he ▸ hq)
  exact wp_partial (hrest.wp σ₂) (fun _ _ h₃ => hQ _ _ h₃ h₂)

end NanoBSD.AcpiPower
