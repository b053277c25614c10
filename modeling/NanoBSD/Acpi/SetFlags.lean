import NanoBSD.Acpi.Board
import NanoBSD.Acpi.Transition
import Mathlib.Data.Prod.Basic

/-! # What `acpi_power_set_flags` leaves behind

A successful call leaves the device with holds on exactly its target. A failing call
gives up a hold only if the target was powered up and the resource confirmed the release.
Neither touches the holds of other devices, except that the first call discovers them.
-/
namespace NanoBSD.AcpiPower
open Prog
variable {H : Type} [DecidableEq H]

def Accepted (state : ℤ) (flags : BitVec 32) : Prop :=
  (0 ≤ state ∧ state ≤ ACPI_STATE_D3_COLD) ∧
    flags &&& ~~~ACPI_POWER_NOPS3 = 0 ∧ (flags = 0 ∨ state = ACPI_STATE_D3_COLD)

/-- A device's wake holds and all holds of others are the same, but for device-state holds that
others gain until discovery has completed. -/
structure Undisturbed (h : H) (σ σ' : Power H) : Prop where
  wake : ∀ r, (σ'.hold r h).has .wake = (σ.hold r h).has .wake
  others : ∀ r d, d ≠ h → σ'.hold r d = σ.hold r d ∨
    (σ.discovered = false ∧ σ'.hold r d = (σ.hold r d).union (.only .state))

structure Settled (h : H) (n : ℕ) (σ σ' : Power H) : Prop extends Undisturbed h σ σ' where
  target : ∃ target, Listed h n σ target σ' ∧ ∀ r, (σ'.hold r h).has .state = true ↔ r ∈ target
  powered : ∀ r, (σ'.hold r h).has .state = true → Fresh (Event.staOf r) σ.log σ'.log (.ok 1)
  recorded : σ'.Recorded h
  state : (σ'.device h).state = n
  failed : (σ'.device h).failed = false

structure Aborted (A : Aml H) (h : H) (n : ℕ) (flags : BitVec 32) (σ σ' : Power H) : Prop
    extends Undisturbed h σ σ' where
  dropped : ∀ r, (σ.hold r h).has .state = true → (σ'.hold r h).has .state = false →
    ∃ target τ new, powerUp A h n flags (σ.ensureDevice h) = (.ok target,τ) ∧
      PoweredUp h n flags σ target τ ∧ r ∉ target ∧ σ'.log = τ.log ++ new ∧
      Confirmed h (.only .state) r new σ'
  recorded : σ'.Recorded h
  state : (σ'.device h).state = ACPI_STATE_ERROR
  failed : (σ'.device h).failed = true

theorem Uses.gain_state {u v : Uses} {c : Prop} (hkeep : ∀ k, u.has k = true → v.has k = true)
    (hgain : ∀ k, v.has k = true → u.has k = true ∨ (k = .state ∧ c)) :
    v = u ∨ (c ∧ v = u.union (.only .state)) := by
  have hks := hkeep .state
  have hkw := hkeep .wake
  have hgs := hgain .state
  have hgw := hgain .wake
  clear hkeep hgain
  rcases u with ⟨_ | _,_ | _⟩ <;> rcases v with ⟨_ | _,_ | _⟩ <;> simp_all [has,union,only]

theorem Undisturbed.of_stages {h : H} {P : Event H → Prop} {T : H → Prop} {σ τ ρ : Power H}
    (hg : Grows (Gaining σ h) P σ τ) (hs : Sheds T h (.only .state) τ ρ) : Undisturbed h σ ρ where
  wake r := by
    apply Bool.eq_iff_iff.mpr
    constructor
    · intro hk
      exact (hg.gain r h .wake (hs.keep r h .wake hk)).resolve_right (fun hx => by cases hx.1)
    · intro hk
      exact (hs.shed r h .wake (hg.keep r h .wake hk)).resolve_right (fun hx => by simp at hx)
  others r d hd := by
    apply Uses.gain_state
    · intro k hk
      exact (hs.shed r d k (hg.keep r d k hk)).resolve_right (fun hx => hd hx.2.1)
    · intro k hk
      apply (hg.gain r d k (hs.keep r d k hk)).imp_right
      rintro ⟨hkind,hcase⟩
      exact ⟨hkind,hcase.resolve_left hd⟩

section Frames
variable {A : Aml H} {h : H} {n : ℕ} {flags : BitVec 32} {σ τ σ' : Power H}
  {answer : Option (Node H)}

theorem Undisturbed.after (hu : Undisturbed h σ τ) (hr : ∀ r d, σ'.hold r d = τ.hold r d) :
    Undisturbed h σ σ' where
  wake r := by rw [hr,hu.wake]
  others r d hd := by
    rw [hr]
    exact hu.others r d hd

theorem noteState_wp (h : H) (v : ℤ) (σ : Power H) : (noteState A h v).wp
      (fun _ σ' => ∃ answer, σ'.resources = σ.resources ∧ σ'.devices = σ.devices ∧
        σ'.log = σ.log ++ [.node h answer]) (fun _ _ => False) σ := by
  unfold noteState
  rw [wp_bind]
  change Prog.wp _ _ _ (σ.record _)
  split
  · exact ⟨_,rfl,rfl,rfl⟩
  · exact ⟨_,rfl,rfl,rfl⟩

theorem Grows.of_ensureDevice
    (hg : Grows (Gaining (σ.ensureDevice h) h) Event.NotOff (σ.ensureDevice h) τ) :
    Grows (Gaining σ h) Event.NotOff σ τ := by
  have hsame : ∀ d k, Gaining (σ.ensureDevice h) h d k → Gaining σ h d k := by simp [Gaining]
  exact (ensureDevice_growing h σ).trans (hg.mono hsame fun _ he => he)

theorem PoweredUp.of_ensureDevice {target : List H}
    (hup : PoweredUp h n flags (σ.ensureDevice h) target τ) : PoweredUp h n flags σ target τ := by
  have hdev : Grows (Gaining σ h) Event.NotOff σ (σ.ensureDevice h) := ensureDevice_growing h σ
  exact {
    grows := hup.grows.of_ensureDevice
    discovered := hup.discovered
    listed := hup.listed.before hdev.extends
    powered := fun r hr => (hup.powered r hr).before hdev.extends
    entered := hup.entered.before hdev.extends }

theorem Power.hold_congr (hr : σ'.resources = τ.resources) (r d : H) :
    σ'.hold r d = τ.hold r d := by
  unfold Power.hold Power.holders
  rw [hr]

theorem Power.device_congr (hd : σ'.devices = τ.devices) (d : H) : σ'.device d = τ.device d := by
  unfold Power.device
  rw [hd]

theorem Settled.after (hs : Settled h n σ τ) (hr : σ'.resources = τ.resources)
    (hd : σ'.devices = τ.devices) (hl : σ'.log = τ.log ++ [.node h answer]) : Settled h n σ σ' := by
  have hhold := Power.hold_congr hr
  have hdev := Power.device_congr hd h
  obtain ⟨target,hlisted,hmem⟩ := hs.target
  constructor
  case toUndisturbed => exact hs.toUndisturbed.after hhold
  case target =>
    refine ⟨target,hlisted.after ⟨_,hl,by simp [Event.packageOf]⟩,?_⟩
    intro r
    rw [hhold,hmem]
  case powered =>
    intro r hk
    rw [hhold] at hk
    exact (hs.powered r hk).after ⟨_,hl,by simp [Event.staOf]⟩
  case recorded =>
    rw [Power.Recorded,hd]
    exact hs.recorded
  case state => rw [hdev,hs.state]
  case failed => rw [hdev,hs.failed]

theorem Aborted.after (ha : Aborted A h n flags σ τ) (hr : σ'.resources = τ.resources)
    (hd : σ'.devices = τ.devices)
    (hl : σ'.log = τ.log ++ [.node h answer]) : Aborted A h n flags σ σ' := by
  have hhold := Power.hold_congr hr
  have hdev := Power.device_congr hd h
  constructor
  case toUndisturbed => exact ha.toUndisturbed.after hhold
  case dropped =>
    intro r ht hf
    rw [hhold] at hf
    obtain ⟨target,ρ,new,hself,hup,hout,hnew,hconf⟩ := ha.dropped r ht hf
    refine ⟨target,ρ,new ++ [.node h answer],hself,hup,hout,by rw [hl,hnew,List.append_assoc],?_⟩
    apply hconf.after
    · intro e he
      rwa [hhold]
    · intro e k hk _
      rwa [hhold]
  case recorded =>
    rw [Power.Recorded,hd]
    exact ha.recorded
  case state => rw [hdev,ha.state]
  case failed => rw [hdev,ha.failed]

end Frames

section Call
variable (A : Aml H) {h : H} {n : ℕ} {flags : BitVec 32} {σ : Power H} {τ : Power H} {state : ℤ}

theorem Settled.of_stages {target : List H} {ρ : Power H} (hup : PoweredUp h n flags σ target τ)
    (hs : Sheds (fun r => r ∉ target) h (.only .state) τ ρ)
    (hoff : ∀ r, r ∉ target → (ρ.hold r h).has .state = false) (hrec : ρ.Recorded h) :
    Settled h n σ (ρ.mapDevice h fun dev => { dev with state := n, failed := false }) := by
  obtain ⟨new,hl,hnew,-⟩ := hs.log
  have hmem : ∀ r, (ρ.hold r h).has .state = true ↔ r ∈ target := by
    intro r
    constructor
    · intro hk
      by_contra hr
      rw [hoff r hr] at hk
      cases hk
    · intro hr
      exact (hs.shed r h .state (hup.powered r hr).1).resolve_right fun hx => hx.1 hr
  have hdev := Power.mapDevice_device hrec fun dev => { dev with state := n, failed := false }
  constructor
  case toUndisturbed => exact (Undisturbed.of_stages hup.grows hs).after fun _ _ => rfl
  case target =>
    refine ⟨target,hup.listed.after ⟨new,hl,?_⟩,hmem⟩
    intro e he
    obtain ⟨-,r,-,hsw⟩ := hnew e he
    exact hsw.packageOf h n
  case powered =>
    intro r hk
    have hr := (hmem r).mp hk
    refine (hup.powered r hr).2.after ⟨new,hl,?_⟩
    intro e he
    obtain ⟨-,q,hq,hsw⟩ := hnew e he
    exact hsw.staOf fun hqr => hq (hqr ▸ hr)
  case recorded => exact (Power.mapDevice_recorded _ _ _ _).mpr hrec
  case state => rw [hdev]
  case failed => rw [hdev]

theorem Aborted.mark {A : Aml H} (hu : Undisturbed h σ τ)
    (hdrop : ∀ r, (σ.hold r h).has .state = true → (τ.hold r h).has .state = false →
      ∃ target ρ new, powerUp A h n flags (σ.ensureDevice h) = (.ok target,ρ) ∧
        PoweredUp h n flags σ target ρ ∧ r ∉ target ∧ τ.log = ρ.log ++ new ∧
        Confirmed h (.only .state) r new τ) (hrec : τ.Recorded h) :
    Aborted A h n flags σ
      (τ.mapDevice h fun dev => { dev with state := ACPI_STATE_ERROR, failed := true }) := by
  have hdev := Power.mapDevice_device hrec
    fun dev => { dev with state := ACPI_STATE_ERROR, failed := true }
  constructor
  case toUndisturbed => exact hu.after fun _ _ => rfl
  case dropped => exact hdrop
  case recorded => exact (Power.mapDevice_recorded _ _ _ _).mpr hrec
  case state => rw [hdev]
  case failed => rw [hdev]

theorem tryTransition_wp (h : H) (n : ℕ) (flags : BitVec 32) (σ : Power H) :
    (tryTransition A h n flags).wp
      (fun ok σ' => if ok then Settled h n σ σ' else Aborted A h n flags σ σ')
      (fun _ _ => False) (σ.ensureDevice h) := by
  have hrec : (σ.ensureDevice h).Recorded h := (Power.ensureDevice_recorded _ _ _).mpr (.inl rfl)
  unfold tryTransition
  rw [wp_bind,wp_attempt]
  refine wp_mono (transition_wp A h n flags _) ?_ ?_
  · rintro _ σ' ⟨target,τ,ρ,hup,hs,hoff,rfl⟩
    have hρ : ρ.Recorded h := by
      rw [Power.Recorded,hs.devices]
      exact hup.grows.recorded h hrec
    exact Settled.of_stages hup.of_ensureDevice hs hoff hρ
  · rintro status σ' (hg | ⟨target,τ,hself,hup,hs⟩)
    · have hg' := hg.of_ensureDevice
      refine Aborted.mark (Undisturbed.of_stages hg' (Sheds.refl (T := fun _ => True) σ')) ?_
        (hg.recorded h hrec)
      intro r ht hf
      rw [hg'.keep r h .state ht] at hf
      cases hf
    · have hup' := hup.of_ensureDevice
      refine Aborted.mark (Undisturbed.of_stages hup'.grows hs) ?_ ?_
      · intro r ht hf
        have hτ := hup'.grows.keep r h .state ht
        obtain ⟨new,hl,-,hconf⟩ := hs.log
        have hout : r ∉ target := by
          rcases hs.shed r h .state hτ with hk | hk
          · rw [hk] at hf
            cases hf
          · exact hk.1
        exact ⟨target,τ,new,hself,hup',hout,hl,hconf r .state hτ hf⟩
      · rw [Power.Recorded,hs.devices]
        exact hup.grows.recorded h hrec

variable {flags : BitVec 32}

theorem acpiPowerSetFlags_eq (h : H) (hacc : Accepted state flags) :
    acpiPowerSetFlags A (some h) state flags = (do
      powerDevice h
      let rv ← tryTransition A h state.toNat flags
      let dev ← read fun σ => σ.device h
      noteState A h dev.state
      pure rv) := by
  obtain ⟨hstate,hmask,hflags⟩ := hacc
  have hrange : ¬(state < ACPI_STATE_D0 ∨ ACPI_STATE_D3_COLD < state) := by
    simp only [ACPI_STATE_D0,ACPI_STATE_D3_COLD] at hstate ⊢
    omega
  have hvalid : ¬(flags &&& ~~~ACPI_POWER_NOPS3 ≠ 0 ∨ (flags ≠ 0 ∧ state ≠ ACPI_STATE_D3_COLD)) := by
    rintro (hbad | ⟨hne,hns⟩)
    · exact hbad hmask
    · exact hflags.elim hne hns
  simp only [acpiPowerSetFlags,if_neg hrange,if_neg hvalid]

theorem acpiPowerSetFlags_wp (h : H) (hacc : Accepted state flags) (σ : Power H) :
    (acpiPowerSetFlags A (some h) state flags).wp
      (fun ok σ' => if ok then Settled h state.toNat σ σ' else Aborted A h state.toNat flags σ σ')
      (fun _ _ => False) σ := by
  rw [acpiPowerSetFlags_eq A h hacc]
  simp only [powerDevice,wp_bind,wp_update]
  refine wp_conseq (tryTransition_wp A h state.toNat flags σ) ?_
  intro ok σ₁ h₁
  rw [wp_bind,wp_read,wp_bind]
  refine wp_conseq (noteState_wp h _ σ₁) ?_
  rintro _ σ₂ ⟨answer,hr,hd,hl⟩
  rw [wp_pure]
  cases ok with
  | true => exact Settled.after h₁ hr hd hl
  | false => exact Aborted.after h₁ hr hd hl

theorem acpiPowerSetFlags_refused {handle : Option H}
    (hrefused : ∀ h, handle = some h → ¬Accepted state flags) (σ : Power H) :
    acpiPowerSetFlags A handle state flags σ = (.ok false,σ) := by
  cases handle with
  | none => rfl
  | some h =>
    have hbad := hrefused h rfl
    unfold acpiPowerSetFlags
    dsimp only
    split
    · rfl
    · rename_i hrange
      split
      · rfl
      · rename_i hvalid
        refine absurd ⟨?_,?_,?_⟩ hbad
        · simp only [ACPI_STATE_D0,ACPI_STATE_D3_COLD] at hrange ⊢
          omega
        · by_contra hm
          exact hvalid (.inl hm)
        · by_contra hf
          push Not at hf
          exact hvalid (.inr hf)

theorem acpiPowerSetFlags_settled {handle : Option H} {state : ℤ} {flags : BitVec 32}
    {σ σ' : Power H}
    (hok : acpiPowerSetFlags A handle state flags σ = (.ok true,σ')) :
    ∃ h, handle = some h ∧ Accepted state flags ∧ Settled h state.toNat σ σ' := by
  by_cases hex : ∃ h, handle = some h ∧ Accepted state flags
  · obtain ⟨h,rfl,hacc⟩ := hex
    have hs := wp_ok (acpiPowerSetFlags_wp A h hacc σ) hok
    exact ⟨h,rfl,hacc,hs⟩
  · push Not at hex
    rw [acpiPowerSetFlags_refused A hex] at hok
    cases hok

theorem acpiPowerSetFlags_settled_calm :
    ∃ h, some 1 = some h ∧ Accepted 3 0 ∧ Settled h 3 (Power.boot fun _ => 0)
      (acpiPowerSetFlags calmBoard.aml (some 1) 3 0 (Power.boot fun _ => 0)).2 := by
  have hok : (acpiPowerSetFlags calmBoard.aml (some 1) 3 0 (Power.boot fun _ => 0)).1 = .ok true := by
    decide +kernel
  exact acpiPowerSetFlags_settled calmBoard.aml (Prod.fst_eq_iff.mp hok)

/-- A failing call was refused at once, or leaves the device marked and gives up a hold only after
the target was powered up and the release confirmed. -/
theorem acpiPowerSetFlags_aborted {handle : Option H} {state : ℤ} {flags : BitVec 32}
    {σ σ' : Power H}
    (hfail : acpiPowerSetFlags A handle state flags σ = (.ok false,σ')) :
    (σ' = σ ∧ ∀ h, handle = some h → ¬Accepted state flags) ∨
      ∃ h, handle = some h ∧ Accepted state flags ∧ Aborted A h state.toNat flags σ σ' := by
  by_cases hex : ∃ h, handle = some h ∧ Accepted state flags
  · obtain ⟨h,rfl,hacc⟩ := hex
    have ha := wp_ok (acpiPowerSetFlags_wp A h hacc σ) hfail
    exact .inr ⟨h,rfl,hacc,ha⟩
  · push Not at hex
    rw [acpiPowerSetFlags_refused A hex] at hfail
    cases hfail
    exact .inl ⟨rfl,hex⟩

def stuckBoard : Board ℕ := twoDevices (fun h name => h = 10 ∧ name = .OFF) ([1],none)

theorem acpiPowerSetFlags_aborted_stuck :
    let σ' := (acpiPowerSetFlags stuckBoard.aml (some 1) 4 0 (Power.boot fun _ => 0)).2
    (σ' = Power.boot (fun _ => 0) ∧ ∀ h, some 1 = some h → ¬Accepted 4 0) ∨
      ∃ h, some 1 = some h ∧ Accepted 4 0 ∧
        Aborted stuckBoard.aml h 4 0 (Power.boot fun _ => 0) σ' :=
  acpiPowerSetFlags_aborted stuckBoard.aml rfl

def brokenWalkBoard : Board ℕ := twoDevices (fun _ _ => false) ([2],some .ERROR)

/-- A call for device 1 that fails in discovery leaves device 2 with a new hold. -/
theorem failing_call_reserves_for_sibling :
    Reached brokenWalkBoard.aml (Power.boot fun _ => 0) ∧
    (acpiPowerSetFlags brokenWalkBoard.aml (some 1) 0 0 (Power.boot fun _ => 0)).1 = .ok false ∧
    (Power.boot fun _ => 0 : Power ℕ).hold 10 2 = .none ∧
    (acpiPowerSetFlags brokenWalkBoard.aml (some 1) 0 0 (Power.boot fun _ => 0)).2.hold 10 2 =
      .only .state :=
  ⟨⟨_,[],rfl⟩,rfl,rfl,rfl⟩

end Call
end NanoBSD.AcpiPower
