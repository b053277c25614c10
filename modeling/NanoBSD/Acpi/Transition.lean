import NanoBSD.Acpi.Release
import NanoBSD.Lib.History

/-! # A device transition

What `acpi_power_set_flags` has done at each of its stages: the target set is the
package evaluated last, every target resource has answered that it is on, `_PSx` has
returned, and only then holds outside the target go.
-/
namespace NanoBSD.AcpiPower
open Prog List
variable {H : Type} [DecidableEq H]

def Event.staOf (r : H) : Event H → Option (Except Status ℕ)
  | .integer q .STA answer => if q = r then some answer else none
  | _ => none

@[simp] theorem Event.integer_staOf (r : H) (answer : Except Status ℕ) :
    (Event.integer r .STA answer).staOf r = some answer := if_pos rfl

def listed (elements : List (Except Status H)) : List H := elements.filterMap Except.toOption

omit [DecidableEq H] in
@[simp] theorem listed_nil : listed ([] : List (Except Status H)) = [] := rfl

omit [DecidableEq H] in
@[simp] theorem listed_cons_ok (r : H) (elements : List (Except Status H)) :
    listed (.ok r :: elements) = r :: listed elements := rfl

def Event.packageOf (h : H) (n : ℕ) : Event H → Option (List H)
  | .handle q (.PR m) (.error .NOT_FOUND) => if q = h ∧ m = n then some [] else none
  | .object q (some (.PR m)) (.ok (.package elements)) =>
    if q = h ∧ m = n then some (listed elements) else none
  | _ => none

def Event.Describing : Event H → Prop
  | .object _ none _ => True
  | _ => False

def Event.Entering (h : H) : Event H → Prop
  | .handle q (.PS _) _ => q = h
  | .method q (.PS _) _ _ _ => q = h
  | _ => False

section Frames

variable {e : Event H} {method : Name} {r q : H}

theorem Event.Switching.packageOf
    (he : e.Switching method r) (h : H) (n : ℕ) : e.packageOf h n = none := by
  cases e <;> first | rfl | exact he.elim

theorem Event.Switching.staOf (he : e.Switching method q) (hq : q ≠ r) : e.staOf r = none := by
  cases e with
  | integer p name answer =>
    cases name <;> first | exact he.elim | skip
    cases he
    exact if_neg hq
  | _ => rfl

theorem Event.Entering.packageOf (he : e.Entering q) (h : H) (n : ℕ) : e.packageOf h n = none := by
  cases e with
  | handle p name answer => cases name <;> first | rfl | exact he.elim
  | object p name answer => exact he.elim
  | _ => rfl

theorem Event.Entering.staOf (he : e.Entering q) (r : H) : e.staOf r = none := by
  cases e <;> first | rfl | exact he.elim

theorem Event.Describing.packageOf (he : e.Describing) (h : H) (n : ℕ) :
    e.packageOf h n = none := by
  cases e with
  | object q name answer =>
    cases name with
    | none => rfl
    | some _ => exact he.elim
  | _ => exact he.elim

omit [DecidableEq H] in
theorem Event.Entering.notOff (he : e.Entering q) : e.NotOff := by
  cases e with
  | method p name answer held b => cases name <;> first | exact he.elim | trivial
  | _ => trivial

omit [DecidableEq H] in
theorem Event.Describing.passive (he : e.Describing) : e.Passive := by
  cases e <;> first | exact he.elim | trivial

end Frames

section Packages
variable (A : Aml H)

theorem powerResource_wp (h : H) (σ : Power H) : (powerResource A h).wp
      (fun _ σ' => Grows Nobody Event.Describing σ σ' ∧ σ'.Known h)
      (fun _ σ' => Grows Nobody Event.Describing σ σ') σ := by
  unfold powerResource
  rw [wp_bind,wp_read]
  split
  · rename_i hk
    refine ⟨Grows.refl σ,?_⟩
    obtain ⟨res,hres,he⟩ := any_eq_true.mp hk
    exact mem_map.mpr ⟨res,hres,by simpa using he⟩
  · rw [wp_bind]
    apply ask_wp
    · intro obj _
      split
      · exact ⟨(Grows.record trivial).trans (Grows.addResource _ _),
          (Power.addResource_known _ _ _ _).mpr (.inl rfl)⟩
      · exact Grows.record trivial
    · intro status _
      exact Grows.record trivial

theorem packageElements_wp (elements : List (Except Status H)) (set : List H) (σ : Power H) :
    (packageElements A elements set).wp (fun set' σ' => Grows Nobody Event.Describing σ σ' ∧
        (∀ r, r ∈ set' ↔ r ∈ set ∨ r ∈ listed elements) ∧ ∀ r ∈ listed elements, σ'.Known r)
      (fun _ σ' => Grows Nobody Event.Describing σ σ') σ := by
  induction elements generalizing set σ with
  | nil => exact ⟨Grows.refl σ,by simp,by simp⟩
  | cons element elements ih =>
    cases element with
    | error status => exact Grows.refl σ
    | ok r =>
      simp only [packageElements,wp_bind]
      refine wp_conseq (powerResource_wp A r σ) ?_
      rintro _ σ₁ ⟨h₁,hr⟩
      refine wp_mono (ih _ σ₁) ?_ (fun _ _ h => h₁.trans h)
      rintro set' σ₂ ⟨h₂,hset,hknown⟩
      refine ⟨h₁.trans h₂,?_,?_⟩
      · intro q
        rw [hset]
        rw [listed_cons_ok,mem_cons,mem_insert_iff]
        tauto
      · intro q hq
        rcases mem_cons.mp hq with rfl | hq
        · exact h₂.known _ hr
        · exact hknown q hq

theorem powerPackage_wp (h : H) (n : ℕ) (σ : Power H) : (powerPackage A h n []).wp
      (fun set σ' => Grows Nobody Event.Passive σ σ' ∧ (∀ r ∈ set, σ'.Known r) ∧
        ∃ hs, Fresh (Event.packageOf h n) σ.log σ'.log hs ∧ ∀ r, r ∈ set ↔ r ∈ hs)
      (fun _ σ' => Grows Nobody Event.Passive σ σ') σ := by
  unfold powerPackage
  rw [wp_bind,wp_attempt]
  apply ask_wp
  · intro _ _
    have h₁ : Grows Nobody Event.Passive σ (σ.record (.handle h (.PR n) (.ok ()))) :=
      Grows.record trivial
    dsimp only
    rw [wp_bind]
    apply ask_wp
    · intro obj _
      have h₂ := h₁.trans (Grows.record (e := .object h (some (.PR n)) (.ok obj)) trivial)
      cases obj with
      | power order => exact h₂
      | other => exact h₂
      | package elements =>
        refine wp_mono (packageElements_wp A elements [] _) ?_ ?_
        · rintro set σ' ⟨h₃,hset,hknown⟩
          have hmem : ∀ r, r ∈ set ↔ r ∈ listed elements := by simpa using hset
          refine ⟨h₂.trans (h₃.mono (fun _ _ h => h) (fun _ h => h.passive)),?_,listed elements,?_,hmem⟩
          · exact fun r hr => hknown r ((hmem r).mp hr)
          · obtain ⟨new,hl,hnew⟩ := h₃.log
            have hread : (Event.object h (some (.PR n)) (.ok (.package elements))).packageOf h n =
                some (listed elements) := by simp [Event.packageOf]
            have hpkg := Fresh.concat (σ.record (.handle h (.PR n) (.ok ()))).log hread
            exact (hpkg.before ⟨_,rfl⟩).after ⟨new,hl,fun e he => (hnew e he).packageOf h n⟩
        · intro _ σ' h₃
          exact h₂.trans (h₃.mono (fun _ _ h => h) (fun _ h => h.passive))
    · intro status _
      exact h₁.trans (Grows.record trivial)
  · intro status _
    cases status with
    | NOT_FOUND =>
      refine ⟨Grows.record trivial,by simp,[],?_,by simp⟩
      exact Fresh.concat σ.log (by simp [Event.packageOf])
    | _ => exact Grows.record trivial

end Packages

/-- Who may gain holds before the release phase: the device itself, and any device while
discovery runs for the first time. -/
def Gaining (σ : Power H) (h d : H) (k : Kind) : Prop := k = .state ∧ (d = h ∨ σ.discovered = false)

/-- The target set is the package of the state evaluated since `σ`; D3cold has none. -/
def Listed (h : H) (n : ℕ) (σ : Power H) (target : List H) (σ' : Power H) : Prop :=
  if n = ACPI_STATE_D3_COLD then target = []
  else ∃ hs, Fresh (Event.packageOf h n) σ.log σ'.log hs ∧ ∀ r, r ∈ target ↔ r ∈ hs

/-- The device holds the resource, whose last answer since `σ` is that it is on. -/
def Powered (h : H) (σ : Power H) (r : H) (σ' : Power H) : Prop :=
  (σ'.hold r h).has .state = true ∧ Fresh (Event.staOf r) σ.log σ'.log (.ok 1)

section Frames
variable {h : H} {σ τ σ' : Power H} {n : ℕ} {target : List H} {r : H}

theorem Listed.after (hl : Listed h n σ target τ)
    (hlog : ∃ new, σ'.log = τ.log ++ new ∧ ∀ e ∈ new, e.packageOf h n = none) :
    Listed h n σ target σ' := by
  unfold Listed at hl ⊢
  split at hl
  · rwa [if_pos ‹_›]
  · rw [if_neg ‹_›]
    obtain ⟨hs,hfresh,hmem⟩ := hl
    exact ⟨hs,hfresh.after hlog,hmem⟩

theorem Listed.before (hl : Listed h n τ target σ')
    (hlog : ∃ new, τ.log = σ.log ++ new) : Listed h n σ target σ' := by
  unfold Listed at hl ⊢
  split at hl
  · rwa [if_pos ‹_›]
  · rw [if_neg ‹_›]
    obtain ⟨hs,hfresh,hmem⟩ := hl
    exact ⟨hs,hfresh.before hlog,hmem⟩

theorem Powered.before (hp : Powered h τ r σ') (hlog : ∃ new, τ.log = σ.log ++ new) :
    Powered h σ r σ' := ⟨hp.1,hp.2.before hlog⟩

theorem Powered.after (hp : Powered h σ r τ)
    (hkeep : (τ.hold r h).has .state = true → (σ'.hold r h).has .state = true)
    (hlog : ∃ new, σ'.log = τ.log ++ new ∧ ∀ e ∈ new, e.staOf r = none) : Powered h σ r σ' :=
  ⟨hkeep hp.1,hp.2.after hlog⟩

theorem Grows.extends {D : H → Kind → Prop} {P : Event H → Prop} (hg : Grows D P σ τ) :
    ∃ new, τ.log = σ.log ++ new := by
  obtain ⟨new,he,-⟩ := hg.log
  exact ⟨new,he⟩

end Frames

section Stages
variable (A : Aml H) {r : H} {σ : Power H}

theorem reserve_wp (h : H) (σ : Power H) : (reserve A h).wp
      (fun _ σ' => Grows (Gaining σ h) Event.Passive σ σ' ∧ σ'.discovered = true)
      (fun _ σ' => Grows (Gaining σ h) Event.Passive σ σ') σ := by
  have hdis : ∀ d k, Discovering σ d k → Gaining σ h d k := fun _ _ hk => ⟨hk.2,.inr hk.1⟩
  have hself : Gaining σ h h .state := ⟨rfl,.inl rfl⟩
  unfold reserve
  rw [wp_bind]
  refine wp_mono (powerDiscover_wp A σ) ?_ (fun _ _ hg => hg.mono hdis fun _ he => he)
  rintro _ σ₁ ⟨h₁,hd₁⟩
  have h₁ := h₁.mono hdis fun _ he => he
  refine wp_mono ((powerSeed_growing A hself).wp σ₁) ?_ (fun _ _ hg => h₁.trans hg)
  intro _ σ₂ h₂
  exact ⟨h₁.trans h₂,h₂.discovered hd₁⟩

theorem prepareSet_wp (h : H) (n : ℕ) (σ : Power H) : (prepareSet A h n).wp
      (fun target σ' => Grows (Gaining σ h) Event.Passive σ σ' ∧ σ'.discovered = true ∧
        (∀ r ∈ target, σ'.Known r) ∧ Listed h n σ target σ')
      (fun _ σ' => Grows (Gaining σ h) Event.Passive σ σ') σ := by
  unfold prepareSet
  rw [wp_bind]
  refine wp_conseq (reserve_wp A h σ) ?_
  rintro _ σ₂ ⟨h₂,hd₂⟩
  rw [wp_bind]
  refine wp_mono ((checkParent_growing A h n).wp σ₂) ?_ (fun _ _ hg => h₂.trans hg)
  intro _ σ₃ h₃
  have hd₃ : σ₃.discovered = true := h₃.discovered hd₂
  have h₃ := h₂.trans h₃
  by_cases hn : n = ACPI_STATE_D3_COLD
  · rw [if_neg (not_not_intro hn)]
    exact ⟨h₃,hd₃,by simp,by simp [Listed,hn]⟩
  · rw [if_pos hn]
    refine wp_mono (powerPackage_wp A h n σ₃) ?_ ?_
    · rintro target σ₄ ⟨h₄,hknown,hs,hfresh,hmem⟩
      refine ⟨h₃.trans (h₄.mono (fun _ _ hf => hf.elim) fun _ he => he),h₄.discovered hd₃,hknown,?_⟩
      rw [Listed,if_neg hn]
      exact ⟨hs,hfresh.before h₃.extends,hmem⟩
    · intro _ σ₄ h₄
      exact h₃.trans (h₄.mono (fun _ _ hf => hf.elim) fun _ he => he)

theorem powerMethod_powered {d : H} {τ : Power H} (hhold : (τ.hold r d).has .state = true)
    (hlog : ∃ new, τ.log = σ.log ++ new) :
    (powerMethod A r true).wp (fun _ σ' => Powered d σ r σ') (fun _ _ => True) τ := by
  refine wp_partial (powerMethod_wp A r true τ) ?_
  rintro _ σ' rfl
  refine Powered.before ?_ hlog
  exact ⟨hhold,(Fresh.concat _ (Event.integer_staOf r _)).before ⟨_,rfl⟩⟩

theorem powerAcquire_powered (d : H) (hr : σ.Known r) :
    (powerAcquire A r d .state).wp (fun _ σ' => Powered d σ r σ') (fun _ _ => True) σ := by
  unfold powerAcquire
  simp only [wp_bind,wp_read,wp_update]
  have hhold : ((σ.mapHolders r fun p => p.add d .state).hold r d).has .state = true := by
    rw [Power.mapHolders_add_hold hr]
    simp
  split
  · exact powerMethod_powered A hhold ⟨[],by simp [Power.mapHolders]⟩
  · rw [wp_bind]
    refine wp_partial (powerSta_wp A r _) ?_
    rintro sta σ₁ ⟨hle,rfl⟩
    split
    · exact powerMethod_powered A hhold ⟨_,rfl⟩
    · have hone : sta = 1 := by omega
      subst hone
      exact ⟨hhold,Fresh.concat _ (Event.integer_staOf r _)⟩

theorem powerAcquire_wp (d : H) (hr : σ.Known r) : (powerAcquire A r d .state).wp
      (fun _ σ' => Grows (Only d .state) (Event.Switching .ON r) σ σ' ∧ Powered d σ r σ')
      (fun _ σ' => Grows (Only d .state) (Event.Switching .ON r) σ σ') σ := by
  have hgrow := (powerAcquire_growing A r (D := Only d .state) ⟨rfl,rfl⟩).wp σ
  exact wp_mono (wp_and hgrow (powerAcquire_powered A d hr)) (fun _ _ hq => hq) (fun _ _ he => he.1)

theorem acquires_wp (h : H) (target : List H) (rs : List H) (hn : rs.Nodup)
    (hknown : ∀ r ∈ rs, σ.Known r) :
    (forEach rs fun r => if r ∈ target then powerAcquire A r h .state else pure ()).wp
      (fun _ σ' => Grows (Only h .state) (fun e => ∃ r ∈ rs, e.Switching .ON r) σ σ' ∧
        ∀ r ∈ rs, r ∈ target → Powered h σ r σ')
      (fun _ σ' => Grows (Only h .state) (fun e => ∃ r ∈ rs, e.Switching .ON r) σ σ') σ := by
  induction rs generalizing σ with
  | nil => exact ⟨Grows.refl σ,by simp⟩
  | cons r rs ih =>
    obtain ⟨hr,hn⟩ := nodup_cons.mp hn
    have hone : ∀ e, Event.Switching .ON r e → ∃ q ∈ r :: rs, e.Switching .ON q := fun e he =>
      ⟨r,by simp,he⟩
    have hrest : ∀ e : Event H, (∃ q ∈ rs, e.Switching .ON q) → ∃ q ∈ r :: rs, e.Switching .ON q := by
      rintro e ⟨q,hq,he⟩
      exact ⟨q,mem_cons_of_mem _ hq,he⟩
    simp only [forEach,wp_bind]
    by_cases ht : r ∈ target
    · rw [if_pos ht]
      refine wp_mono (powerAcquire_wp A h (hknown r (by simp))) ?_
        (fun _ _ hg => hg.mono (fun _ _ hd => hd) hone)
      rintro _ σ₁ ⟨h₁,hp⟩
      have hk₁ : ∀ q ∈ rs, σ₁.Known q := fun q hq => h₁.known q (hknown q (mem_cons_of_mem _ hq))
      have h₁' := h₁.mono (fun _ _ hd => hd) hone
      refine wp_mono (ih hn hk₁) ?_ (fun _ _ hg => h₁'.trans (hg.mono (fun _ _ hd => hd) hrest))
      rintro _ σ₂ ⟨h₂,hps⟩
      refine ⟨h₁'.trans (h₂.mono (fun _ _ hd => hd) hrest),?_⟩
      intro q hq hqt
      rcases mem_cons.mp hq with rfl | hq
      · -- The later acquisitions do not evaluate this resource.
        obtain ⟨new,hl,hnew⟩ := h₂.log
        refine hp.after (h₂.keep _ _ _) ⟨new,hl,?_⟩
        intro e he
        obtain ⟨p,hp,hsw⟩ := hnew e he
        exact hsw.staOf (fun hpq => hr (hpq ▸ hp))
      · exact (hps q hq hqt).before h₁.extends
    · rw [if_neg ht,wp_pure]
      refine wp_mono (ih hn fun q hq => hknown q (mem_cons_of_mem _ hq)) ?_
        (fun _ _ hg => hg.mono (fun _ _ hd => hd) hrest)
      rintro _ σ₂ ⟨h₂,hps⟩
      refine ⟨h₂.mono (fun _ _ hd => hd) hrest,?_⟩
      intro q hq hqt
      rcases mem_cons.mp hq with rfl | hq
      · exact absurd hqt ht
      · exact hps q hq hqt

theorem acquireSet_wp (h : H) {target : List H} (hk : ∀ r ∈ target, σ.Known r) :
    (acquireSet A h target).wp
      (fun _ σ' => Grows (Only h .state) (fun e => ∃ r, e.Switching .ON r) σ σ' ∧
        ∀ r ∈ target, Powered h σ r σ')
      (fun _ σ' => Grows (Only h .state) (fun e => ∃ r, e.Switching .ON r) σ σ') σ := by
  have hweak : ∀ e : Event H, (∃ r ∈ σ.resources.map Resource.handle, e.Switching .ON r) →
      ∃ r, e.Switching .ON r := fun _ ⟨r,_,he⟩ => ⟨r,he⟩
  unfold acquireSet
  rw [wp_bind,wp_read]
  refine wp_mono (acquires_wp A h target _ σ.unique fun _ hr => hr) ?_
    (fun _ _ hg => hg.mono (fun _ _ hd => hd) hweak)
  rintro _ σ' ⟨hg,hp⟩
  exact ⟨hg.mono (fun _ _ hd => hd) hweak,fun r hr => hp r (hk r hr) hr⟩

def psName (n : ℕ) : Name := .PS (if n = ACPI_STATE_D3_COLD then ACPI_STATE_D3 else n)

/-- `_PSx` was skipped on request, is absent, or has succeeded since `σ`. -/
def Entered (h : H) (n : ℕ) (flags : BitVec 32) (σ σ' : Power H) : Prop :=
  flags &&& ACPI_POWER_NOPS3 ≠ 0 ∨ ∃ new, σ'.log = σ.log ++ new ∧
    (.handle h (psName n) (.error .NOT_FOUND) ∈ new ∨
      ∃ held discovered, .method h (psName n) (.ok ()) held discovered ∈ new)

theorem enterState_wp (h : H) (n : ℕ) (flags : BitVec 32) (σ : Power H) :
    (enterState A h n flags).wp
      (fun _ σ' => Grows Nobody (Event.Entering h) σ σ' ∧ Entered h n flags σ σ')
      (fun _ σ' => Grows Nobody (Event.Entering h) σ σ') σ := by
  unfold enterState
  split
  · unfold powerPs
    change Prog.wp (attempt (getHandle A h (psName n)) >>= _) _ _ _
    rw [wp_bind,wp_attempt]
    apply ask_wp
    · intro _ _
      have h₁ : Grows Nobody (Event.Entering h) σ (σ.record (.handle h (psName n) (.ok ()))) :=
        Grows.record rfl
      refine wp_mono (evaluateObject_wp A h (psName n) _) ?_ ?_
      · rintro _ σ' rfl
        have hlog := congrArg Power.log (Power.record_record (.handle h (psName n) (.ok ()))
          (σ.evaluation h (psName n) (.ok ())) σ)
        refine ⟨h₁.trans (Grows.record rfl),.inr ⟨_,hlog,.inr ⟨(σ.holders h).refs,σ.discovered,?_⟩⟩⟩
        exact mem_cons_of_mem _ (mem_singleton_self _)
      · rintro status σ' rfl
        exact h₁.trans (Grows.record rfl)
    · intro status _
      cases status with
      | NOT_FOUND => exact ⟨Grows.record rfl,.inr ⟨_,rfl,.inl (by simp)⟩⟩
      | _ => exact Grows.record rfl
  · rename_i hf
    exact ⟨Grows.refl σ,.inl hf⟩

omit [DecidableEq H] in
theorem Entered.before {h : H} {n : ℕ} {flags : BitVec 32} {τ σ' : Power H}
    (he : Entered h n flags τ σ') (hlog : ∃ new, τ.log = σ.log ++ new) :
    Entered h n flags σ σ' := by
  apply he.imp_right
  rintro ⟨new,hl,hcase⟩
  obtain ⟨old,hold⟩ := hlog
  refine ⟨old ++ new,by rw [hl,hold,append_assoc],?_⟩
  apply hcase.imp (mem_append_right _)
  rintro ⟨held,b,hmem⟩
  exact ⟨held,b,mem_append_right _ hmem⟩

structure PoweredUp (h : H) (n : ℕ) (flags : BitVec 32) (σ : Power H) (target : List H)
    (σ' : Power H) : Prop where
  grows : Grows (Gaining σ h) Event.NotOff σ σ'
  discovered : σ'.discovered = true
  listed : Listed h n σ target σ'
  powered : ∀ r ∈ target, Powered h σ r σ'
  entered : Entered h n flags σ σ'

theorem powerUp_wp (h : H) (n : ℕ) (flags : BitVec 32) (σ : Power H) : (powerUp A h n flags).wp
      (PoweredUp h n flags σ) (fun _ σ' => Grows (Gaining σ h) Event.NotOff σ σ') σ := by
  have hself : ∀ d k, Only h .state d k → Gaining σ h d k := fun _ _ ⟨hd,hk⟩ => ⟨hk,.inl hd⟩
  have hon : ∀ e : Event H, (∃ r, e.Switching .ON r) → e.NotOff := fun _ ⟨_,he⟩ => he.notOff
  unfold powerUp
  rw [wp_bind]
  refine wp_mono (prepareSet_wp A h n σ) ?_ (fun _ _ hg => hg.notOff)
  rintro target σ₁ ⟨hprep,hd,hknown,hlisted⟩
  have h₁ := hprep.notOff
  rw [wp_bind]
  refine wp_mono (acquireSet_wp A h hknown) ?_ (fun _ _ hg => h₁.trans (hg.mono hself hon))
  rintro _ σ₂ ⟨h₂,hp⟩
  have h₁₂ := h₁.trans (h₂.mono hself hon)
  rw [wp_bind]
  have hps := fun {τ : Power H} (hg : Grows Nobody (Event.Entering h) σ₂ τ) =>
    h₁₂.trans (hg.mono (fun _ _ hf => hf.elim) fun _ he => he.notOff)
  refine wp_mono (enterState_wp A h n flags σ₂) ?_ (fun _ _ hg => hps hg)
  rintro _ σ₃ ⟨h₃,hentered⟩
  obtain ⟨new₂,hl₂,hnew₂⟩ := h₂.log
  obtain ⟨new₃,hl₃,hnew₃⟩ := h₃.log
  constructor
  case grows => exact hps h₃
  case discovered => exact h₃.discovered (h₂.discovered hd)
  case listed =>
    have hl := hlisted.after ⟨new₂,hl₂,fun e he => (hnew₂ e he).choose_spec.packageOf h n⟩
    exact hl.after ⟨new₃,hl₃,fun e he => (hnew₃ e he).packageOf h n⟩
  case powered =>
    intro r hr
    have hq := (hp r hr).before h₁.extends
    exact hq.after (h₃.keep _ _ _) ⟨new₃,hl₃,fun e he => (hnew₃ e he).staOf r⟩
  case entered => exact hentered.before h₁₂.extends

theorem transition_wp (h : H) (n : ℕ) (flags : BitVec 32) (σ : Power H) :
    (transition A h n flags).wp
      (fun _ σ' => ∃ target τ ρ, PoweredUp h n flags σ target τ ∧
        Sheds (fun r => r ∉ target) h (.only .state) τ ρ ∧
        (∀ r, r ∉ target → (ρ.hold r h).has .state = false) ∧
        σ' = ρ.mapDevice h fun dev => { dev with state := n, failed := false })
      (fun _ σ' => Grows (Gaining σ h) Event.NotOff σ σ' ∨
        ∃ target τ, powerUp A h n flags σ = (.ok target,τ) ∧ PoweredUp h n flags σ target τ ∧
          Sheds (fun r => r ∉ target) h (.only .state) τ σ') σ := by
  unfold transition
  rw [wp_bind]
  refine wp_mono (wp_and (powerUp_wp A h n flags σ) (wp_self _ σ)) ?_ (fun _ _ hg => .inl hg.1)
  rintro target τ ⟨hup,hself⟩
  rw [wp_bind]
  refine wp_mono (releaseSet_wp A h target hup.discovered) ?_
    (fun _ _ hs => .inr ⟨target,τ,hself,hup,hs⟩)
  rintro _ ρ ⟨hs,hoff⟩
  exact ⟨target,τ,ρ,hup,hs,hoff,rfl⟩

end Stages
end NanoBSD.AcpiPower
