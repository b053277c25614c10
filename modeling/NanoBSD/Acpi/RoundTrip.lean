import NanoBSD.Acpi.Leave
import NanoBSD.Acpi.SetFlags

/-! # Reading back a state that was set

On a board that tells the truth, `acpi_power_get` infers D3cold from an unpowered resource
of `_PR0` whatever state was set. Which of these resources a transition leaves on is
decided by the target package and by the holds that exist when it starts.
-/
namespace NanoBSD.AcpiPower
open Prog List
variable {H : Type} [DecidableEq H] {σ : Power H}

def Power.lastUse (σ : Power H) (r h : H) : Bool :=
  (σ.hold r h).state && (σ.holders r).sole h (.only .state)

theorem Power.lastUse_congr {σ' : Power H} {r : H} (hr : σ'.holders r = σ.holders r) (h : H) :
    σ'.lastUse r h = σ.lastUse r h := by
  unfold Power.lastUse Power.hold
  rw [hr]

theorem Uses.inter_state (u : Uses) : u.inter (.only .state) = .none ↔ u.state = false := by
  rcases u with ⟨_ | _,_ | _⟩ <;> simp [inter,only,none]

namespace Board
variable (b : Board H) {r : H} {σ σ' : Power H} {log : List (Event H)} {e : Event H}

theorem powered_of_leaves {T : H → Prop} (h : Leaves T σ σ') (hr : T r) :
    b.powered σ'.log r = b.powered σ.log r := by
  obtain ⟨new,hl,hnew⟩ := h.log
  rw [powered,powered,hl,latest_append,latest_of_none _ fun e he => hnew e he r hr]
  rfl

theorem powered_of_grows {D : H → Kind → Prop} (h : Grows D Event.Passive σ σ')
    (r : H) : b.powered σ'.log r = b.powered σ.log r := by
  obtain ⟨new,hl,hnew⟩ := h.log
  have hnone : ∀ e ∈ new, e.switchOf r = none := by
    intro e he
    have hp := hnew e he
    cases e <;> first | rfl | exact hp.elim
  rw [powered,powered,hl,latest_append,latest_of_none _ hnone]
  rfl

theorem powered_of_switch {on : Bool}
    (he : e.switchOf r = some on) : b.powered (log ++ [e]) r = on := by
  rw [powered,latest_append]
  simp [latest,he]

theorem powered_of_none (he : e.switchOf r = none) :
    b.powered (log ++ [e]) r = b.powered log r := by
  rw [powered,latest_append,latest_of_none _ (by simpa using he)]
  rfl

theorem powerSta_truth (hr : b.rail r = true) (σ : Power H) : (powerSta b.aml r).wp
      (fun sta σ' => sta = (if b.powered σ.log r then 1 else 0) ∧
        σ' = σ.record (.integer r .STA (.ok sta))) (fun _ _ => False) σ := by
  have hanswer : b.aml.integer σ.log r .STA = .ok (if b.powered σ.log r then 1 else 0) := by
    simp [aml,hr]
  have hle : ¬1 < (if b.powered σ.log r then 1 else 0) := by
    split <;> omega
  unfold powerSta evalInteger
  rw [wp_bind]
  apply ask_wp_ok hanswer
  rw [if_neg hle]
  exact ⟨rfl,rfl⟩

theorem powerMethod_power (r : H) (on : Bool) (σ : Power H) :
    (powerMethod b.aml r on).wp (fun _ σ' => b.powered σ'.log r = on) (fun _ _ => True) σ := by
  refine wp_partial (powerMethod_wp b.aml r on σ) ?_
  rintro _ σ' rfl
  have hsw : (σ.evaluation r (if on then .ON else .OFF) (.ok ())).switchOf r = some on := by
    cases on <;> simp [Power.evaluation,Event.switchOf]
  change b.powered ((σ.log ++ [_]) ++ [_]) r = on
  rw [b.powered_of_none rfl,b.powered_of_switch hsw]

theorem powerAcquire_power (hr : b.rail r = true) (d : H) (k : Kind) (σ : Power H) :
    (powerAcquire b.aml r d k).wp (fun _ σ' => b.powered σ'.log r = true) (fun _ _ => True) σ := by
  unfold powerAcquire
  simp only [wp_bind,wp_read,wp_update]
  split
  · exact b.powerMethod_power r true _
  · rw [wp_bind]
    refine wp_partial (b.powerSta_truth hr _) ?_
    rintro sta σ₁ ⟨hsta,rfl⟩
    split
    · exact b.powerMethod_power r true _
    · rename_i hne
      rw [wp_pure]
      change b.powered (_ ++ [_]) r = true
      rw [b.powered_of_none rfl]
      by_contra hoff
      exact hne (hsta.trans (if_neg hoff))

theorem powerRelease_power (hr : b.rail r = true) (h : H) (σ : Power H) :
    (powerRelease b.aml r h (.only .state)).wp
      (fun _ σ' => b.powered σ'.log r = (b.powered σ.log r && !σ.lastUse r h))
      (fun _ _ => True) σ := by
  unfold powerRelease
  rw [wp_bind,wp_read]
  split
  · rename_i hnone
    have hstate : (σ.hold r h).state = false := (Uses.inter_state _).mp hnone
    simp [Power.lastUse,hstate]
  · rename_i hsome
    have hstate : (σ.hold r h).state = true := by
      by_contra hf
      rw [Bool.not_eq_true] at hf
      exact hsome ((Uses.inter_state _).mpr hf)
    rw [wp_bind]
    cases hs : (σ.holders r).sole h (.only .state) with
    | true =>
      refine wp_partial (b.powerMethod_power r false σ) ?_
      intro _ σ' hoff
      simpa [Power.lastUse,hstate,hs,Power.mapHolders] using hoff
    | false =>
      simp only [confirmRelease,Bool.false_eq_true,if_false,wp_bind]
      refine wp_partial (b.powerSta_truth hr σ) ?_
      rintro sta σ₁ ⟨hsta,rfl⟩
      split
      · simp only [Power.lastUse,hs,Bool.and_false,Bool.not_false,Bool.and_true]
        exact b.powered_of_none rfl
      · trivial

end Board

theorem seedPresent_seeds (A : Aml H) {h : H} (hrec : σ.Recorded h) :
    (seedPresent A h).wp (fun _ σ' => (σ'.device h).seeded = true) (fun _ _ => True) σ := by
  unfold seedPresent
  rw [wp_bind]
  have hpsc := (powerPsc_growing (D := Only h .state) A h).attempt (δ := Status)
  refine wp_partial (hpsc.wp σ) ?_
  intro psc σ₁ h₁
  rw [wp_bind,wp_update]
  have hrec₁ := (Power.mapDevice_recorded h (Device.note psc) σ₁ h).mpr (h₁.recorded h hrec)
  dsimp only
  rw [wp_bind]
  refine wp_partial ((seedPackages_growing (D := Only h .state) A h _ _).wp _) ?_
  intro set σ₂ h₂
  rw [wp_bind]
  refine wp_partial ((seedReserve_growing (D := Only h .state) A ⟨rfl,rfl⟩ set false).wp σ₂) ?_
  intro off σ₃ h₃
  rw [wp_update,Power.mapDevice_device (h₃.recorded h (h₂.recorded h hrec₁))]
  unfold Device.seal
  split <;> rfl

namespace Board
variable (b : Board H) {σ : Power H} {r : H} {log : List (Event H)} {n : ℕ}

theorem acquireSet_power (hr : b.rail r = true) (h : H) {target : List H}
    (hk : ∀ q ∈ target, σ.Known q) : (acquireSet b.aml h target).wp
      (fun _ σ' => (r ∈ target → b.powered σ'.log r = true) ∧
        (r ∉ target → Leaves (fun p => p = r) σ σ')) (fun _ _ => True) σ := by
  unfold acquireSet
  rw [wp_bind,wp_read]
  by_cases ht : r ∈ target
  · have hloop := forEach_at (Q := fun σ' => b.powered σ'.log r = true) (σ := σ) σ.unique (hk r ht)
      (f := fun q => if q ∈ target then powerAcquire b.aml q h .state else pure ())
      (fun q hq => Keeps.ite (powerAcquire_leaves (T := fun p => p = r) hq _ _) (Keeps.pure _))
      (fun τ _ => by
        rw [if_pos ht]
        exact b.powerAcquire_power hr h .state τ)
      (fun τ τ' hl hon => (b.powered_of_leaves hl rfl).trans hon)
    exact wp_partial hloop (fun _ _ hon => ⟨fun _ => hon,fun hout => absurd ht hout⟩)
  · have hloop : Keeps (Leaves fun p => p = r) (forEach (σ.resources.map Resource.handle)
        fun q => if q ∈ target then powerAcquire b.aml q h .state else pure ()) := by
      apply Keeps.forEach
      intro q _
      split
      · rename_i hq
        have hqr : q ≠ r := fun he => ht (he ▸ hq)
        exact powerAcquire_leaves (T := fun p => p = r) hqr _ _
      · exact Keeps.pure _
    exact wp_partial (hloop.wp σ) (fun _ _ hl => ⟨fun hin => absurd hin ht,fun _ => hl⟩)

theorem releaseLoop_leaves (h : H) (target l : List H) (hl : ∀ q ∈ l, q ∉ target → q ≠ r) :
    Keeps (Leaves fun p => p = r) (forEach l fun q =>
      if q ∈ target then pure () else powerRelease b.aml q h (.only .state)) := by
  apply Keeps.forEach
  intro q hq
  split
  · exact Keeps.pure _
  · rename_i hout
    exact powerRelease_leaves (T := fun p => p = r) (hl q hq hout) _ _

theorem releaseSet_power (hr : b.rail r = true) (h : H) (target : List H) (σ : Power H) :
    (releaseSet b.aml h target).wp (fun _ σ' => b.powered σ'.log r =
        (b.powered σ.log r && (decide (r ∈ target) || !σ.lastUse r h))) (fun _ _ => True) σ := by
  unfold releaseSet
  rw [wp_bind,wp_read]
  by_cases ht : r ∈ target
  · have hloop := b.releaseLoop_leaves h target (σ.resources.map Resource.handle).reverse
      fun q _ hq (he : q = r) => hq (he ▸ ht)
    refine wp_partial (hloop.wp σ) ?_
    intro _ σ' hl
    simp [b.powered_of_leaves hl rfl,ht]
  · by_cases hk : σ.Known r
    · have hloop := forEach_at (r := r) (σ := σ)
        (f := fun q => if q ∈ target then pure () else powerRelease b.aml q h (.only .state))
        (Q := fun σ' => b.powered σ'.log r = (b.powered σ.log r && !σ.lastUse r h))
        (nodup_reverse.mpr σ.unique) (mem_reverse.mpr hk)
        (fun q hq => Keeps.ite (Keeps.pure _) (powerRelease_leaves (T := fun p => p = r) hq _ _))
        (fun τ hl => by
          rw [if_neg ht,← Power.lastUse_congr (hl.holders r rfl),← b.powered_of_leaves hl rfl]
          exact b.powerRelease_power hr h τ)
        (fun τ τ' hl hval => (b.powered_of_leaves hl rfl).trans hval)
      refine wp_partial hloop ?_
      intro _ σ' hval
      simpa [ht] using hval
    · -- Nobody holds an unknown resource and the loop does not reach it.
      have hunused : σ.lastUse r h = false := by
        rw [Power.lastUse,Power.hold,Power.holders_of_unknown hk]
        rfl
      have hloop := b.releaseLoop_leaves h target _ fun q hq _ (he : q = r) =>
        hk (he ▸ mem_reverse.mp hq)
      refine wp_partial (hloop.wp σ) ?_
      intro _ σ' hl
      simp [b.powered_of_leaves hl rfl,hunused]

def Absent (h : H) : Prop := b.rail h = true ∨ ∃ sta, b.status h = some sta ∧ sta &&& 3 ≠ 3
def Seeded (h : H) (σ : Power H) : Prop := (σ.device h).seeded = true ∨ b.Absent h

variable {h : H}

theorem integer_status {sta : ℕ}
    (hsta : b.aml.integer log h .STA = .ok sta) : sta &&& 3 ≠ 3 ↔ b.Absent h := by
  simp only [aml] at hsta
  split at hsta
  · rename_i hr
    have hle : sta = 1 ∨ sta = 0 := by
      cases hsta
      split
      · exact .inl rfl
      · exact .inr rfl
    have hne : sta &&& 3 ≠ 3 := by
      rcases hle with rfl | rfl <;> decide
    exact iff_of_true hne (.inl hr)
  · rename_i hr
    split at hsta
    · rename_i v hv
      cases hsta
      simp [Absent,hr,hv]
    · cases hsta

theorem integer_status_error {status : Status}
    (hsta : b.aml.integer log h .STA = .error status) : ¬b.Absent h := by
  rintro (hr | ⟨sta,hst,-⟩)
  · simp [aml,hr] at hsta
  · simp only [aml,hst] at hsta
    split at hsta <;> cases hsta

theorem powerInteger_status (h : H) (σ : Power H) : (powerInteger b.aml h .STA).wp
      (fun sta σ' => (sta &&& 3 ≠ 3 ↔ b.Absent h) ∧ Leaves (fun _ => True) σ σ')
      (fun _ _ => ¬b.Absent h) σ := by
  unfold powerInteger
  rw [wp_bind]
  apply ask_wp
  · intro _ _
    rw [wp_bind,wp_attempt]
    apply ask_wp
    · intro sta hsta
      exact ⟨b.integer_status hsta,
        (Leaves.record fun _ _ => rfl).trans (Leaves.record fun _ _ => rfl)⟩
    · intro status hstatus
      have hpresent := b.integer_status_error hstatus
      cases status <;> exact hpresent
  · intro status hhandle
    rintro (hr | ⟨sta,hst,-⟩)
    · simp [aml,hr] at hhandle
    · simp [aml,hst] at hhandle

theorem powerSeed_seeds (hrec : σ.Recorded h) :
    (powerSeed b.aml h).wp (fun _ σ' => b.Seeded h σ') (fun _ _ => True) σ := by
  have hpresent : ∀ τ : Power H, τ.Recorded h →
      (seedPresent b.aml h).wp (fun _ σ' => b.Seeded h σ') (fun _ _ => True) τ := fun τ hτ =>
    wp_partial (seedPresent_seeds b.aml hτ) (fun _ _ hs => .inl hs)
  unfold powerSeed
  rw [wp_bind,wp_read]
  split
  · rename_i hs
    exact .inl hs
  · rw [wp_bind,wp_attempt]
    have hgrow := (powerInteger_growing (D := Nobody) b.aml h .STA).wp σ
    refine wp_mono (wp_and (b.powerInteger_status h σ) hgrow) ?_ ?_
    · rintro sta σ₁ ⟨⟨hsta,-⟩,hg⟩
      dsimp only
      split
      · rename_i hne
        exact .inr (hsta.mp hne)
      · exact hpresent σ₁ (hg.recorded h hrec)
    · rintro status σ₁ ⟨-,hg⟩
      cases status with
      | NOT_FOUND => exact hpresent σ₁ (hg.recorded h hrec)
      | _ => trivial

theorem powerSeed_idle (hs : b.Seeded h σ) :
    (powerSeed b.aml h).wp (fun _ σ' => Leaves (fun _ => True) σ σ') (fun _ _ => False) σ := by
  unfold powerSeed
  rw [wp_bind,wp_read]
  split
  · exact Leaves.refl σ
  · rename_i hns
    have habsent : b.Absent h := hs.resolve_left hns
    rw [wp_bind,wp_attempt]
    refine wp_mono (b.powerInteger_status h σ) ?_ ?_
    · rintro sta σ₁ ⟨hsta,hl⟩
      dsimp only
      rw [if_pos (hsta.mpr habsent)]
      exact hl
    · intro status σ₁ hpresent
      exact absurd habsent hpresent

theorem powerResource_ok (hr : b.rail r = true) (σ : Power H) :
    (powerResource b.aml r).wp (fun _ _ => True) (fun _ _ => False) σ := by
  have hanswer : b.aml.object σ.log r none = .ok (.power (b.order r)) := by simp [aml,hr]
  unfold powerResource
  rw [wp_bind,wp_read]
  split
  · trivial
  · rw [wp_bind]
    exact ask_wp_ok hanswer trivial

theorem packageElements_ok {l : List H} (hl : ∀ r ∈ l, b.rail r = true) (set : List H)
    (σ : Power H) :
    (packageElements b.aml (l.map .ok) set).wp (fun set' _ => ∀ r, r ∈ set' ↔ r ∈ set ∨ r ∈ l)
      (fun _ _ => False) σ := by
  induction l generalizing set σ with
  | nil => simp [packageElements]
  | cons r l ih =>
    simp only [map_cons,packageElements,wp_bind]
    refine wp_conseq (b.powerResource_ok (hl r (by simp)) σ) ?_
    intro _ σ₁ _
    refine wp_conseq (ih (fun q hq => hl q (mem_cons_of_mem _ hq)) _ σ₁) ?_
    intro set' _ hset q
    rw [hset,mem_cons,mem_insert_iff]
    tauto

theorem powerPackage_ok (h : H) (n : ℕ) (σ : Power H) :
    (powerPackage b.aml h n []).wp (fun set _ => ∀ r, r ∈ set ↔ r ∈ b.rails h n)
      (fun _ _ => False) σ := by
  unfold powerPackage
  rw [wp_bind,wp_attempt]
  cases hp : b.packages h n with
  | none =>
    have hanswer : b.aml.handle σ.log h (.PR n) = .error .NOT_FOUND := by simp [aml,hp]
    apply ask_wp_error hanswer
    simp [rails,hp]
  | some l =>
    have hanswer : b.aml.handle σ.log h (.PR n) = .ok () := by simp [aml,hp]
    have hobject : ∀ log, b.aml.object log h (some (.PR n)) = .ok (.package (l.map .ok)) := by
      simp [aml,hp]
    apply ask_wp_ok hanswer
    dsimp only
    rw [wp_bind]
    apply ask_wp_ok (hobject _)
    refine wp_conseq (b.packageElements_ok (b.rails_only h n l hp) [] _) ?_
    intro set _ hset
    simpa [rails,hp] using hset

def target (h : H) (n : ℕ) : List H := if n = ACPI_STATE_D3_COLD then [] else b.rails h n

/-- The state in which a transition starts: the holds of discovery and of the device
itself are in place. -/
def reserved (h : H) (σ : Power H) : Power H := (reserve b.aml h (σ.ensureDevice h)).2

theorem Seeded.of_devices {σ' : Power H} (hs : b.Seeded h σ)
    (hd : σ'.devices = σ.devices) : b.Seeded h σ' := by
  rw [Seeded,Power.device_congr hd]
  exact hs

theorem Seeded.mapDevice (hs : b.Seeded h σ) (hrec : σ.Recorded h)
    {g : Device H → Device H} (hg : ∀ dev, (g dev).seeded = dev.seeded) :
    b.Seeded h (σ.mapDevice h g) := by
  rw [Seeded,Power.mapDevice_device hrec]
  exact hs.imp_left (hg _).trans

theorem reserve_seeds (hrec : σ.Recorded h) : (reserve b.aml h).wp
      (fun _ σ' => b.Seeded h σ' ∧ σ' = (reserve b.aml h σ).2 ∧ σ'.Recorded h ∧
        ∀ r, b.powered σ'.log r = b.powered σ.log r) (fun _ _ => True) σ := by
  have hseeds : (reserve b.aml h).wp (fun _ σ' => b.Seeded h σ') (fun _ _ => True) σ := by
    unfold reserve
    rw [wp_bind]
    refine wp_partial (powerDiscover_wp b.aml σ) ?_
    rintro _ σ₁ ⟨h₁,-⟩
    exact b.powerSeed_seeds (h₁.recorded h hrec)
  refine wp_partial (wp_and hseeds (wp_and (wp_self _ σ) (reserve_wp b.aml h σ))) ?_
  rintro _ σ' ⟨hs,hself,hg,-⟩
  exact ⟨hs,by rw [hself],hg.recorded h hrec,b.powered_of_grows hg⟩

theorem prepareSet_power (n : ℕ) (hrec : σ.Recorded h) : (prepareSet b.aml h n).wp
      (fun target σ' => (∀ r, r ∈ target ↔ r ∈ b.target h n) ∧ b.Seeded h σ' ∧ σ'.Recorded h ∧
        ∀ r, b.powered σ'.log r = b.powered σ.log r ∧
          σ'.holders r = (reserve b.aml h σ).2.holders r) (fun _ _ => True) σ := by
  unfold prepareSet
  rw [wp_bind]
  refine wp_partial (b.reserve_seeds hrec) ?_
  rintro _ σ₁ ⟨hseeded,hself,hrec₁,hpower⟩
  have hdone : ∀ {τ : Power H}, Leaves (fun _ => True) σ₁ τ → b.Seeded h τ ∧ τ.Recorded h ∧
      ∀ r, b.powered τ.log r = b.powered σ.log r ∧
        τ.holders r = (reserve b.aml h σ).2.holders r := by
    intro τ hl
    refine ⟨hseeded.of_devices b hl.devices,?_,?_⟩
    · rw [Power.Recorded,hl.devices]
      exact hrec₁
    · intro r
      rw [b.powered_of_leaves hl trivial,hpower,hl.holders r trivial,← hself]
      exact ⟨rfl,rfl⟩
  rw [wp_bind]
  have hparent : Keeps (Leaves fun _ => True) (checkParent b.aml h n) := checkParent_leaves h n
  refine wp_partial (hparent.wp σ₁) ?_
  intro _ σ₂ h₂
  by_cases hn : n = ACPI_STATE_D3_COLD
  · rw [if_neg (not_not_intro hn),wp_pure,Board.target,if_pos hn]
    exact ⟨fun _ => Iff.rfl,hdone h₂⟩
  · rw [if_pos hn,Board.target,if_neg hn]
    have hpkg : Keeps (Leaves fun _ => True) (powerPackage b.aml h n []) := powerPackage_leaves h n []
    refine wp_partial (wp_and (b.powerPackage_ok h n σ₂) (hpkg.wp σ₂)) ?_
    rintro target σ₃ ⟨htarget,h₃⟩
    exact ⟨htarget,hdone (h₂.trans h₃)⟩

theorem transition_power (r : H) (n : ℕ) (flags : BitVec 32) (hrec : σ.Recorded h) :
    (transition b.aml h n flags).wp (fun _ σ' => b.Seeded h σ' ∧ (b.rail r = true →
        b.powered σ'.log r = (decide (r ∈ b.target h n) ||
          (b.powered σ.log r && !(reserve b.aml h σ).2.lastUse r h)))) (fun _ _ => True) σ := by
  unfold transition powerUp
  rw [wp_bind,wp_bind]
  refine wp_partial (wp_and (b.prepareSet_power n hrec) (prepareSet_wp b.aml h n σ)) ?_
  rintro target σ₁ ⟨⟨htarget,hseeded,hrec₁,hsame⟩,-,-,hknown,-⟩
  obtain ⟨hpower,hholders⟩ := hsame r
  -- None of the later stages touches the device records.
  have hacq : Keeps (Leaves fun _ => False) (acquireSet b.aml h target) :=
    Keeps.read_bind _ fun rs => Keeps.forEach rs fun q _ =>
      Keeps.ite (powerAcquire_leaves id _ _) (Keeps.pure _)
  have hrel : Keeps (Leaves fun _ => False) (releaseSet b.aml h target) :=
    Keeps.read_bind _ fun rs => Keeps.forEach _ fun q _ =>
      Keeps.ite (Keeps.pure _) (powerRelease_leaves id _ _)
  have hent : Keeps (Leaves fun _ => True) (enterState b.aml h n flags) := enterState_leaves h n flags
  rw [wp_bind]
  have hpower₂ := wp_imp fun hr => b.acquireSet_power (r := r) hr h hknown
  refine wp_partial (wp_and hpower₂ (hacq.wp σ₁)) ?_
  rintro _ σ₂ ⟨hpower₂,hd₂⟩
  rw [wp_bind]
  refine wp_partial (hent.wp σ₂) ?_
  intro _ σ₃ h₃
  rw [wp_pure,wp_bind]
  have hpower₄ := wp_imp fun hr => b.releaseSet_power (r := r) hr h target σ₃
  refine wp_partial (wp_and hpower₄ (hrel.wp σ₃)) ?_
  rintro _ σ₄ ⟨hpower₄,hd₄⟩
  have hdev : σ₄.devices = σ₁.devices := hd₄.devices.trans (h₃.devices.trans hd₂.devices)
  have hpower₃ := b.powered_of_leaves h₃ (r := r) trivial
  have huse₃ := Power.lastUse_congr (h₃.holders r trivial) h
  rw [wp_update]
  constructor
  · have hrec₄ : σ₄.Recorded h := by
      rw [Power.Recorded,hdev]
      exact hrec₁
    exact Seeded.mapDevice b (hseeded.of_devices b hdev) hrec₄ fun _ => rfl
  · intro hr
    obtain ⟨hin,hout⟩ := hpower₂ hr
    change b.powered σ₄.log r = _
    rw [hpower₄ hr,hpower₃,huse₃]
    simp only [← htarget]
    by_cases ht : r ∈ target
    · simp [ht,hin ht]
    · have hl := hout ht
      rw [b.powered_of_leaves hl rfl,hpower,Power.lastUse_congr (hl.holders r rfl),
        Power.lastUse_congr hholders]
      simp [ht]

theorem acpiPowerSetFlags_power (r : H) {state : ℤ} {flags : BitVec 32}
    (hacc : Accepted state flags) (σ : Power H) : (acpiPowerSetFlags b.aml (some h) state flags).wp
      (fun ok σ' => ok = true → b.Seeded h σ' ∧ (b.rail r = true →
        b.powered σ'.log r = (decide (r ∈ b.target h state.toNat) ||
          (b.powered σ.log r && !(b.reserved h σ).lastUse r h)))) (fun _ _ => True) σ := by
  have hrec : (σ.ensureDevice h).Recorded h := (Power.ensureDevice_recorded _ _ _).mpr (.inl rfl)
  rw [acpiPowerSetFlags_eq b.aml h hacc]
  simp only [powerDevice,wp_bind,wp_update]
  unfold tryTransition
  rw [wp_bind,wp_attempt]
  refine wp_mono (b.transition_power r state.toNat flags hrec) ?_ ?_
  · rintro _ σ₁ ⟨hseeded,hpower⟩
    dsimp only
    rw [wp_pure,wp_bind,wp_read,wp_bind]
    refine wp_partial (noteState_wp h _ σ₁) ?_
    rintro _ σ₂ ⟨answer,-,hd,hl⟩ -
    refine ⟨hseeded.of_devices b hd,fun hr => ?_⟩
    rw [hl,b.powered_of_none rfl,hpower hr,Power.ensureDevice_log]
    rfl
  · intro status σ₁ _
    dsimp only
    simp only [markFailed,wp_bind,wp_update,wp_pure,wp_read]
    refine wp_partial (noteState_wp h _ _) ?_
    rintro _ σ₂ - ⟨⟩

omit [DecidableEq H] in
theorem rail_of_rails (hr : r ∈ b.rails h n) : b.rail r = true := by
  unfold rails at hr
  cases hp : b.packages h n with
  | none =>
    rw [hp] at hr
    cases hr
  | some l =>
    rw [hp] at hr
    exact b.rails_only h n l hp r hr

theorem anyOff_truth {set : List H} (hset : ∀ r ∈ set, b.rail r = true) (cold : Bool)
    (σ : Power H) :
    (anyOff b.aml set cold).wp
      (fun cold' _ => cold' = true ↔ cold = true ∨ ∃ r ∈ set, b.powered σ.log r = false)
      (fun _ _ => False) σ := by
  induction set generalizing cold σ with
  | nil => simp [anyOff]
  | cons r set ih =>
    simp only [anyOff,wp_bind]
    refine wp_conseq (b.powerSta_truth (hset r (by simp)) σ) ?_
    rintro sta σ₁ ⟨hsta,rfl⟩
    refine wp_conseq (ih (fun q hq => hset q (mem_cons_of_mem _ hq)) _ _) ?_
    intro cold' _ hcold
    have hoff : (sta == 0) = true ↔ b.powered σ.log r = false := by
      rw [hsta]
      cases b.powered σ.log r <;> simp
    have hsame : ∀ q, b.powered (σ.record (.integer r .STA (.ok sta))).log q = b.powered σ.log q :=
      fun q => b.powered_of_none rfl
    simp only [hcold,hsame,Bool.or_eq_true,hoff,mem_cons,exists_eq_or_imp,or_assoc]

theorem acpiPowerGet_report (hrec : σ.Recorded h)
    (hseeded : b.Seeded h σ) (hstate : (σ.device h).state = n)
    (hfailed : (σ.device h).failed = false) :
    (acpiPowerGet b.aml (some h)).wp
      (fun rv _ => rv = (true,if ∃ r ∈ b.rails h ACPI_STATE_D0, b.powered σ.log r = false then
        (ACPI_STATE_D3_COLD : ℤ) else n)) (fun _ _ => False) σ := by
  have hnew : σ.ensureDevice h = σ := dif_pos hrec
  have hcurrent : (currentState b.aml h).wp
      (fun state _ => state = if ∃ r ∈ b.rails h ACPI_STATE_D0, b.powered σ.log r = false then
        (ACPI_STATE_D3_COLD : ℤ) else n)
      (fun _ _ => False) σ := by
    unfold currentState
    rw [wp_bind]
    refine wp_conseq (b.powerSeed_idle hseeded) ?_
    intro _ σ₁ h₁
    rw [wp_bind]
    have hpkg : Keeps (Leaves fun _ => True) (powerPackage b.aml h ACPI_STATE_D0 []) :=
      powerPackage_leaves h _ []
    refine wp_mono (wp_and (b.powerPackage_ok h ACPI_STATE_D0 σ₁) (hpkg.wp σ₁)) ?_
      (fun _ _ hf => hf.1)
    rintro set σ₂ ⟨hset,h₂⟩
    have hrails : ∀ r ∈ set, b.rail r = true := fun r hr => b.rail_of_rails ((hset r).mp hr)
    have hoff : Keeps (Leaves fun _ => True) (anyOff b.aml set false) := anyOff_leaves set false
    have hpower : ∀ r, b.powered σ₂.log r = b.powered σ.log r := fun r =>
      b.powered_of_leaves (h₁.trans h₂) trivial
    rw [wp_bind]
    refine wp_mono (wp_and (b.anyOff_truth hrails false σ₂) (hoff.wp σ₂)) ?_ (fun _ _ hf => hf.1)
    rintro cold σ₃ ⟨hcold,h₃⟩
    simp only [hpower,hset,Bool.false_eq_true,false_or] at hcold
    have hdev := Power.device_congr ((h₁.trans h₂).trans h₃).devices h
    split
    · rename_i hc
      rw [wp_bind,wp_update,wp_pure,if_pos (hcold.mp hc)]
    · rename_i hc
      have hwarm : ¬∃ r ∈ b.rails h ACPI_STATE_D0, b.powered σ.log r = false := fun hex => hc (hcold.mpr hex)
      have hknown : (n : ℤ) ≠ ACPI_STATE_ERROR := by
        unfold ACPI_STATE_ERROR
        omega
      rw [wp_bind,wp_read,hdev,hfailed,hstate,if_neg Bool.false_ne_true,if_pos hknown,wp_pure,
        if_neg hwarm]
  unfold acpiPowerGet
  simp only [powerDevice,wp_bind,wp_update,hnew,wp_attempt]
  refine wp_mono hcurrent ?_ (fun _ _ hf => hf.elim)
  rintro state σ₁ hval
  rw [wp_bind]
  refine wp_conseq (noteState_wp h _ σ₁) ?_
  intro _ σ₂ _
  rw [wp_pure,hval]
  rfl

/-- The getter reports a state that was set exactly if it is D3cold or no resource of `_PR0` outside
the target is off already or loses its last use. -/
theorem acpiPowerGet_after_set_iff {h : H} {state : ℤ} {σ σ' : Power H}
    (hset : acpiPowerSet b.aml (some h) state σ = (.ok true,σ')) :
    (acpiPowerGet b.aml (some h) σ').1 = .ok (true,state) ↔
      state = ACPI_STATE_D3_COLD ∨ ∀ r ∈ b.rails h ACPI_STATE_D0, r ∈ b.rails h state.toNat ∨
        (b.powered σ.log r = true ∧ (b.reserved h σ).lastUse r h = false) := by
  have hacc : Accepted state 0 := by
    by_contra hbad
    have hrefused : acpiPowerSetFlags b.aml (some h) state 0 σ = (.ok false,σ) :=
      acpiPowerSetFlags_refused b.aml (fun _ _ => hbad) σ
    rw [acpiPowerSet,hrefused] at hset
    cases hset
  have hsettled : Settled h state.toNat σ σ' := wp_ok (acpiPowerSetFlags_wp b.aml h hacc σ) hset
  have hpower := fun r => wp_ok (b.acpiPowerSetFlags_power r hacc σ) hset rfl
  have hseeded := (hpower h).1
  have hnat : (state.toNat : ℤ) = state := Int.toNat_of_nonneg hacc.1.1
  have hreport := wp_value
    (b.acpiPowerGet_report hsettled.recorded hseeded hsettled.state hsettled.failed)
  by_cases hcold : state = ACPI_STATE_D3_COLD
  · rw [hreport,hnat,hcold,ite_self]
    exact iff_of_true rfl (.inl rfl)
  have htarget : b.target h state.toNat = b.rails h state.toNat := by
    refine if_neg fun he => hcold ?_
    rw [← hnat,he]
  -- Seen from one resource of `_PR0`, the condition says that it is on.
  have hon : ∀ r ∈ b.rails h ACPI_STATE_D0, b.powered σ'.log r = true ↔ (r ∈ b.rails h state.toNat ∨
      (b.powered σ.log r = true ∧ (b.reserved h σ).lastUse r h = false)) := by
    intro r hr
    rw [(hpower r).2 (b.rail_of_rails hr),htarget]
    simp
  rw [hreport,hnat]
  by_cases hoff : ∃ r ∈ b.rails h ACPI_STATE_D0, b.powered σ'.log r = false
  · rw [if_pos hoff]
    refine iff_of_false ?_ ?_
    · intro he
      cases he
      exact hcold rfl
    · rintro (hc | hall)
      · exact hcold hc
      · obtain ⟨r,hr,hf⟩ := hoff
        rw [(hon r hr).mpr (hall r hr)] at hf
        cases hf
  · rw [if_neg hoff]
    refine iff_of_true rfl (.inr ?_)
    intro r hr
    apply (hon r hr).mp
    by_contra hf
    exact hoff ⟨r,hr,by simpa using hf⟩

end Board

theorem acpiPowerGet_after_set_calm :
    (acpiPowerGet calmBoard.aml (some 1)
        (acpiPowerSet calmBoard.aml (some 1) 3 (Power.boot fun _ => 0)).2).1 = .ok (true,3) ↔
      (3 : ℤ) = ACPI_STATE_D3_COLD ∨ ∀ r ∈ calmBoard.rails 1 ACPI_STATE_D0,
        r ∈ calmBoard.rails 1 (3 : ℤ).toNat ∨
          (calmBoard.powered (Power.boot fun _ => 0 : Power ℕ).log r = true ∧
            (calmBoard.reserved 1 (Power.boot fun _ => 0)).lastUse r 1 = false) := by
  have hok : (acpiPowerSet calmBoard.aml (some 1) 3 (Power.boot fun _ => 0)).1 = .ok true := by
    decide +kernel
  exact calmBoard.acpiPowerGet_after_set_iff (Prod.fst_eq_iff.mp hok)

def loneBoard : Board ℕ := twoDevices (fun _ _ => false) ([1],none)

/-- Device 1 is set to D3, which switches resource 10 of `_PR0` off and resource 11 of `_PR3` on,
and D3cold is read back. -/
theorem acpiPowerGet_forgets_D3 :
    Reached loneBoard.aml (Power.boot fun _ => 0) ∧
    (acpiPowerSet loneBoard.aml (some 1) 3 (Power.boot fun _ => 0)).1 = .ok true ∧
    loneBoard.powered (acpiPowerSet loneBoard.aml (some 1) 3 (Power.boot fun _ => 0)).2.log 11 = true ∧
    (acpiPowerGet loneBoard.aml (some 1)
      (acpiPowerSet loneBoard.aml (some 1) 3 (Power.boot fun _ => 0)).2).1 =
        .ok (true,ACPI_STATE_D3_COLD) :=
  ⟨⟨_,[],rfl⟩,by decide +kernel,by decide +kernel,by decide +kernel⟩

end NanoBSD.AcpiPower
