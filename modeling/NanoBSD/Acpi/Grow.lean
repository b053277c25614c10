import NanoBSD.Acpi.Ledger

/-! # Routines that only add holds

`Grows D P` relates two states when holds were added only for the devices and uses
in `D`, none was removed, and every new event satisfies `P`.
-/
namespace NanoBSD.AcpiPower
open Prog List
variable {H : Type} [DecidableEq H] {P : Event H → Prop} {e : Event H}

def Logs (P : Event H → Prop) (σ σ' : Power H) : Prop :=
  ∃ new, σ'.log = σ.log ++ new ∧ ∀ e ∈ new, P e

omit [DecidableEq H] in
theorem Logs.refl (σ : Power H) : Logs P σ σ := ⟨[],by simp,by simp⟩

omit [DecidableEq H] in
theorem Logs.trans {σ σ' σ'' : Power H} (h : Logs P σ σ') (h' : Logs P σ' σ'') : Logs P σ σ'' := by
  obtain ⟨new,hl,hnew⟩ := h
  obtain ⟨new',hl',hnew'⟩ := h'
  refine ⟨new ++ new',by rw [hl',hl,append_assoc],?_⟩
  intro e he
  rcases mem_append.mp he with he | he
  · exact hnew e he
  · exact hnew' e he

structure Grows (D : H → Kind → Prop) (P : Event H → Prop) (σ σ' : Power H) : Prop where
  keep : ∀ r d k, (σ.hold r d).has k = true → (σ'.hold r d).has k = true
  gain : ∀ r d k, (σ'.hold r d).has k = true → (σ.hold r d).has k = true ∨ D d k
  known : ∀ r, σ.Known r → σ'.Known r
  recorded : ∀ d, σ.Recorded d → σ'.Recorded d
  discovered : σ.discovered = true → σ'.discovered = true
  log : ∃ new, σ'.log = σ.log ++ new ∧ ∀ e ∈ new, P e

def Event.NotOff : Event H → Prop
  | .method _ .OFF _ _ _ => False
  | _ => True

def Event.Passive : Event H → Prop
  | .method _ _ _ _ _ => False
  | _ => True

omit [DecidableEq H] in
theorem Event.Passive.notOff (h : e.Passive) : e.NotOff := by
  cases e <;> first | exact h.elim | trivial

/-- The evaluations of a resource by a routine that may call one method of it: `_ON` for
`power_acquire`, `_OFF` for `power_release`. -/
def Event.Switching (method : Name) (r : H) : Event H → Prop
  | .method q name _ _ _ => q = r ∧ name = method
  | .integer q .STA _ => q = r
  | _ => False

omit [DecidableEq H] in
theorem Event.Switching.notOff {r : H} (h : e.Switching .ON r) : e.NotOff := by
  cases e with
  | method _ name _ _ _ =>
    obtain ⟨-,rfl⟩ := h
    trivial
  | _ => trivial

def Only (d : H) (k : Kind) (e : H) (j : Kind) : Prop := e = d ∧ j = k
def Nobody (_ : H) (_ : Kind) : Prop := False

namespace Grows
variable {D D' : H → Kind → Prop} {P P' : Event H → Prop} {σ σ' σ'' : Power H}

theorem mono (hD : ∀ d k, D d k → D' d k) (hP : ∀ e, P e → P' e) (h : Grows D P σ σ') :
    Grows D' P' σ σ' where
  keep := h.keep
  gain r d k hk := (h.gain r d k hk).imp_right (hD d k)
  known := h.known
  recorded := h.recorded
  discovered := h.discovered
  log := by
    obtain ⟨new,he,hnew⟩ := h.log
    exact ⟨new,he,fun e hmem => hP e (hnew e hmem)⟩

theorem notOff (h : Grows D Event.Passive σ σ') : Grows D Event.NotOff σ σ' :=
  h.mono (fun _ _ hd => hd) fun _ => Event.Passive.notOff

theorem refl (σ : Power H) : Grows D P σ σ where
  keep _ _ _ h := h
  gain _ _ _ h := .inl h
  known _ h := h
  recorded _ h := h
  discovered h := h
  log := ⟨[],by simp⟩

theorem trans (h : Grows D P σ σ') (h' : Grows D P σ' σ'') : Grows D P σ σ'' where
  keep r d k hk := h'.keep r d k (h.keep r d k hk)
  gain r d k hk := by
    rcases h'.gain r d k hk with hk | hk
    · exact h.gain r d k hk
    · exact .inr hk
  known r hr := h'.known r (h.known r hr)
  recorded d hd := h'.recorded d (h.recorded d hd)
  discovered hd := h'.discovered (h.discovered hd)
  log := Logs.trans h.log h'.log

theorem of_eq (hr : σ'.resources = σ.resources) (hdev : ∀ d, σ.Recorded d → σ'.Recorded d)
    (hd : σ.discovered = true → σ'.discovered = true)
    (hl : σ'.log = σ.log) : Grows D P σ σ' := by
  have hh : ∀ r, σ'.holders r = σ.holders r := by
    intro r
    unfold Power.holders
    rw [hr]
  constructor
  case keep =>
    intro r d k hk
    rwa [Power.hold,hh]
  case gain =>
    intro r d k hk
    rw [Power.hold,hh] at hk
    exact .inl hk
  case known =>
    intro r hk
    rwa [Power.Known,hr]
  case recorded => exact hdev
  case discovered => exact hd
  case log => exact ⟨[],by simp [hl]⟩

theorem record {e : Event H} (he : P e) : Grows D P σ (σ.record e) where
  keep _ _ _ h := h
  gain _ _ _ h := .inl h
  known _ h := h
  recorded _ h := h
  discovered h := h
  log := ⟨[e],rfl,by simpa using he⟩

theorem addResource (h : H) (order : ℕ) : Grows D P σ (σ.addResource h order) where
  keep r d k hk := by simpa [Power.hold] using hk
  gain r d k hk := by
    left
    simpa [Power.hold] using hk
  known r hr := (Power.addResource_known _ _ _ _).mpr (.inr hr)
  recorded d hd := by simpa [Power.Recorded] using hd
  discovered hd := by simpa using hd
  log := ⟨[],by simp⟩

theorem addHold {r d : H} {k : Kind} (hD : D d k) :
    Grows D P σ (σ.mapHolders r fun p => p.add d k) := by
  by_cases hr : σ.Known r
  · constructor
    case keep =>
      intro q e j hj
      rw [Power.mapHolders_add_hold hr]
      split
      · rename_i he
        obtain ⟨rfl,rfl⟩ := he
        simp [hj]
      · exact hj
    case gain =>
      intro q e j hj
      rw [Power.mapHolders_add_hold hr] at hj
      split at hj
      · rename_i he
        obtain ⟨rfl,rfl⟩ := he
        simp only [Uses.union_has,Uses.only_has,Bool.or_eq_true,decide_eq_true_eq] at hj
        apply hj.imp_right
        rintro rfl
        exact hD
      · exact .inl hj
    case known => exact fun q hq => (Power.mapHolders_known _ _ _ _).mpr hq
    case recorded => exact fun _ => id
    case discovered => exact id
    case log => exact ⟨[],by simp [Power.mapHolders]⟩
  · have hsame : (σ.mapHolders r fun p => p.add d k).resources = σ.resources := by
      apply (map_congr_left _).trans (map_id _)
      intro res hres
      exact if_neg (fun he => hr (mem_map.mpr ⟨res,hres,he⟩))
    exact of_eq hsame (fun _ => id) id rfl

end Grows

instance (D : H → Kind → Prop) (P : Event H → Prop) : IsPreorder (Power H) (Grows D P) where
  refl := Grows.refl
  trans _ _ _ := Grows.trans

section Routines
variable (A : Aml H) {D : H → Kind → Prop}

section Primitives
variable {α : Type} {P : Event H → Prop}

theorem ask_growing {answer : List (Event H) → Except Status α} {event : Except Status α → Event H}
    (h : ∀ a, P (event a)) : Keeps (Grows D P) (ask answer event) := fun _ => Grows.record (h _)

theorem consult_growing {answer : List (Event H) → α} {event : α → Event H}
    (h : ∀ a, P (event a)) : Keeps (Grows D P) (consult answer event) := fun _ => Grows.record (h _)

theorem mapDevice_growing (h : H) (g : Device H → Device H) :
    Keeps (Grows D P) (update (Power.mapDevice h g) : Prog (Power H) Status Unit) :=
  fun _ => Grows.of_eq rfl (fun _ => (Power.mapDevice_recorded _ _ _ _).mpr) id rfl

theorem ensureDevice_growing (h : H) :
    Keeps (Grows D P) (update (Power.ensureDevice h) : Prog (Power H) Status Unit) :=
  fun _ => Grows.of_eq (by simp [update])
    (fun d hd => (Power.ensureDevice_recorded _ _ _).mpr (.inr hd)) (by simp [update])
    (by simp [update])

theorem addHold_growing (r : H) {d : H} {k : Kind} (hD : D d k) :
    Keeps (Grows D P) (update (Power.mapHolders r fun p => p.add d k) : Prog (Power H) Status Unit) :=
  fun _ => Grows.addHold hD

end Primitives

variable {P : Event H → Prop} {r h : H}

theorem powerSta_growing (hP : ∀ a, P (.integer r .STA a)) : Keeps (Grows D P) (powerSta A r) := by
  unfold powerSta
  apply Keeps.bind (ask_growing hP)
  intro value
  exact Keeps.ite (Keeps.raise _) (Keeps.pure _)

theorem evaluateObject_growing {name : Name}
    (hP : ∀ a held b, P (.method h name a held b)) : Keeps (Grows D P) (evaluateObject A h name) :=
  Keeps.read_bind _ fun held => Keeps.read_bind _ fun b => ask_growing fun a => hP a held b

theorem powerMethod_growing {on : Bool} (hsta : ∀ a, P (.integer r .STA a))
    (hP : ∀ a held b, P (.method r (if on then .ON else .OFF) a held b)) :
    Keeps (Grows D P) (powerMethod A r on) := by
  unfold powerMethod
  apply Keeps.bind (evaluateObject_growing A hP).attempt
  intro rv
  apply Keeps.bind (powerSta_growing A hsta).attempt
  intro sr
  cases rv with
  | error status => exact Keeps.raise _
  | ok _ =>
    cases sr with
    | error status => exact Keeps.raise _
    | ok sta => exact Keeps.ite (Keeps.pure _) (Keeps.raise _)

theorem powerAcquire_growing (r : H) {d : H} {k : Kind} (hD : D d k) :
    Keeps (Grows D (Event.Switching .ON r)) (powerAcquire A r d k) := by
  have hsta : ∀ a, Event.Switching .ON r (.integer r .STA a) := fun _ => rfl
  have hon : Keeps (Grows D (Event.Switching .ON r)) (powerMethod A r true) :=
    powerMethod_growing A hsta (fun _ _ _ => ⟨rfl,rfl⟩)
  unfold powerAcquire
  apply Keeps.read_bind
  intro first
  refine Keeps.bind (addHold_growing r hD) fun _ => ?_
  apply Keeps.ite hon
  apply Keeps.bind (powerSta_growing A hsta)
  intro sta
  exact Keeps.ite hon (Keeps.pure _)

theorem powerResource_growing (hP : ∀ a, P (.object h none a)) :
    Keeps (Grows D P) (powerResource A h) := by
  unfold powerResource
  apply Keeps.read_bind
  intro known
  split
  · exact Keeps.pure _
  · apply Keeps.bind (ask_growing hP)
    intro obj
    split
    · exact Keeps.update fun _ => Grows.addResource _ _
    · exact Keeps.raise _

theorem packageElements_growing (hP : ∀ h a, P (.object h none a))
    (elements : List (Except Status H)) (set : List H) :
    Keeps (Grows D P) (packageElements A elements set) := by
  induction elements generalizing set with
  | nil => exact Keeps.pure _
  | cons element elements ih =>
    cases element with
    | error status => exact Keeps.raise _
    | ok r =>
      apply Keeps.bind (powerResource_growing A (hP r))
      intro _
      exact ih _

theorem powerPackage_growing (h : H) (state : ℕ) (set : List H) :
    Keeps (Grows D Event.Passive) (powerPackage A h state set) := by
  unfold powerPackage
  apply Keeps.bind (ask_growing fun _ => trivial).attempt
  intro rv
  split
  · exact Keeps.pure _
  · exact Keeps.raise _
  · apply Keeps.bind (ask_growing fun _ => trivial)
    intro obj
    split
    · exact packageElements_growing A (fun _ _ => trivial) _ _
    · exact Keeps.raise _

theorem powerInteger_growing (h : H) (name : Name) :
    Keeps (Grows D Event.Passive) (powerInteger A h name) := by
  unfold powerInteger
  apply Keeps.bind (ask_growing fun _ => trivial)
  intro _
  apply Keeps.bind (ask_growing fun _ => trivial).attempt
  intro rv
  split
  · exact Keeps.pure _
  · exact Keeps.raise _
  · exact Keeps.raise _

theorem powerPsc_growing (h : H) : Keeps (Grows D Event.Passive) (powerPsc A h) := by
  unfold powerPsc
  apply Keeps.bind (powerInteger_growing A h .PSC).attempt
  intro rv
  split
  · exact Keeps.ite (Keeps.raise _) (Keeps.pure _)
  · apply Keeps.bind (consult_growing fun _ => trivial)
    intro node
    split
    · exact Keeps.raise _
    · apply Keeps.read_bind
      intro adState
      exact Keeps.ite (Keeps.pure _) (Keeps.raise _)
  · exact Keeps.raise _

theorem seedPackages_growing (h : H) (states : List ℕ) (set : List H) :
    Keeps (Grows D Event.Passive) (seedPackages A h states set) := by
  induction states generalizing set with
  | nil => exact Keeps.pure _
  | cons state states ih =>
    apply Keeps.bind (powerPackage_growing A h state set)
    intro set'
    exact ih set'

theorem seedReserve_growing (hD : D h .state) (set : List H) (off : Bool) :
    Keeps (Grows D Event.Passive) (seedReserve A h set off) := by
  induction set generalizing off with
  | nil => exact Keeps.pure _
  | cons r set ih =>
    apply Keeps.bind (powerSta_growing A fun _ => trivial)
    intro sta
    apply Keeps.ite (ih true)
    refine Keeps.bind (addHold_growing r hD) fun _ => ?_
    exact ih off

theorem seedPresent_growing (hD : D h .state) :
    Keeps (Grows D Event.Passive) (seedPresent A h) := by
  unfold seedPresent
  apply Keeps.bind (powerPsc_growing A h).attempt
  intro psc
  refine Keeps.bind (mapDevice_growing _ _) fun _ => ?_
  refine Keeps.bind (seedPackages_growing A h _ _) fun set => ?_
  refine Keeps.bind (seedReserve_growing A hD set _) fun off => ?_
  exact mapDevice_growing _ _

theorem powerSeed_growing (hD : D h .state) : Keeps (Grows D Event.Passive) (powerSeed A h) := by
  unfold powerSeed
  apply Keeps.read_bind
  intro seeded
  split
  · exact Keeps.pure _
  · apply Keeps.bind (powerInteger_growing A h .STA).attempt
    intro rv
    split
    · exact Keeps.ite (Keeps.pure _) (seedPresent_growing A hD)
    · exact seedPresent_growing A hD
    · exact Keeps.raise _

/-- Discovery may reserve device-state holds for any device, but only the first time. -/
def Discovering (σ : Power H) (_ : H) (k : Kind) : Prop := σ.discovered = false ∧ k = .state

theorem powerDiscoverOne_growing (h : H) (names : List ℕ) :
    Keeps (Grows (fun _ k => k = .state) Event.Passive) (discoverOne A h names) := by
  induction names with
  | nil => exact Keeps.pure _
  | cons n names ih =>
    apply Keeps.bind (ask_growing fun _ => trivial).attempt
    intro rv
    split
    · apply Keeps.bind (ensureDevice_growing h)
      intro _
      exact powerSeed_growing A rfl
    · exact ih
    · exact Keeps.raise _

theorem powerDiscover_wp (σ : Power H) : (powerDiscover A).wp
      (fun _ σ' => Grows (Discovering σ) Event.Passive σ σ' ∧ σ'.discovered = true)
      (fun _ σ' => Grows (Discovering σ) Event.Passive σ σ') σ := by
  unfold powerDiscover
  rw [wp_bind,wp_read]
  split
  · rename_i hd
    exact ⟨Grows.refl σ,hd⟩
  · rename_i hd
    have hfirst : ∀ d k, k = Kind.state → Discovering σ d k := fun _ _ hk =>
      ⟨by simpa using hd,hk⟩
    rw [wp_bind]
    have hwalk : Keeps (Grows (Discovering σ) Event.Passive) (walkNamespace A) :=
      consult_growing fun _ => trivial
    refine wp_conseq (hwalk.wp σ) ?_
    intro visit σ₁ h₁
    rw [wp_bind]
    have hloop : Keeps (Grows (Discovering σ) Event.Passive) (forEach visit.1 (powerDiscoverOne A)) :=
      Keeps.forEach _ fun d _ => (powerDiscoverOne_growing A d _).mono fun _ _ h => h.mono hfirst fun _ h => h
    refine wp_mono (hloop.wp σ₁) ?_ (fun _ _ h => h₁.trans h)
    intro _ σ₂ h₂
    split
    · exact h₁.trans h₂
    · exact ⟨(h₁.trans h₂).trans (Grows.of_eq rfl (fun _ => id) (fun _ => rfl) rfl),rfl⟩

theorem noteState_growing (h : H) (v : ℤ) : Keeps (Grows D Event.Passive) (noteState A h v) := by
  unfold noteState
  apply Keeps.bind (consult_growing fun _ => trivial)
  intro node
  split
  · exact Keeps.update fun _ => Grows.of_eq rfl (fun _ => id) id rfl
  · exact Keeps.pure _

theorem checkParent_growing (h : H) (state : ℕ) :
    Keeps (Grows D Event.Passive) (checkParent A h state) := by
  unfold checkParent
  apply Keeps.bind (consult_growing fun _ => trivial)
  intro node
  split
  · apply Keeps.read_bind
    intro adState
    exact Keeps.ite (Keeps.raise _) (Keeps.pure _)
  · exact Keeps.pure _

end Routines
end NanoBSD.AcpiPower
