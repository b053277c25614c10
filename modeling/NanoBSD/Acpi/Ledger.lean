import NanoBSD.Acpi.Calls
import NanoBSD.Lib.Keyed

/-! # The ledger of holds

For each resource and each device the ledger says for which uses the device holds the
resource. Everything but `power_release` can only add to it, and never evaluates `_OFF`.
-/
namespace NanoBSD.AcpiPower
open Prog List

def Uses.has (u : Uses) : Kind → Bool
  | .state => u.state
  | .wake => u.wake

namespace Uses

@[simp] theorem none_has (k : Kind) : none.has k = false := by cases k <;> rfl

theorem ext_has {u v : Uses} (h : ∀ k, u.has k = v.has k) : u = v := by
  have hs := h .state
  have hw := h .wake
  cases u
  cases v
  simp_all [has]

theorem eq_none_iff {u : Uses} : u = none ↔ ∀ k, u.has k = false := by
  constructor
  · rintro rfl k
    exact none_has k
  · intro h
    apply ext_has
    simpa using h

@[simp] theorem only_has (k j : Kind) : (only k).has j = decide (k = j) := by
  cases k <;> cases j <;> rfl

@[simp] theorem union_has (u v : Uses) (k : Kind) : (u.union v).has k = (u.has k || v.has k) := by
  cases k <;> rfl

@[simp] theorem inter_has (u v : Uses) (k : Kind) : (u.inter v).has k = (u.has k && v.has k) := by
  cases k <;> rfl

@[simp] theorem diff_has (u v : Uses) (k : Kind) : (u.diff v).has k = (u.has k && !v.has k) := by
  cases k <;> rfl

end Uses

section Resources
variable {H : Type} [DecidableEq H]

namespace Power

def Known (σ : Power H) (r : H) : Prop := r ∈ σ.resources.map Resource.handle
def Recorded (σ : Power H) (h : H) : Prop := h ∈ σ.devices.map Device.handle
def hold (σ : Power H) (r d : H) : Uses := (σ.holders r).uses d

variable {σ : Power H}

theorem holders_of_mem {res : Resource H} (h : res ∈ σ.resources) :
    σ.holders res.handle = res.holders := by
  rw [holders,find_key Resource.handle σ.unique h]

theorem holders_of_unknown {r : H} (h : ¬σ.Known r) : σ.holders r = .empty := by
  rw [holders,find_key_none Resource.handle h]

omit [DecidableEq H] in
@[simp] theorem record_known (e : Event H) (σ : Power H) (r : H) :
    (σ.record e).Known r ↔ σ.Known r := Iff.rfl

@[simp] theorem ensureDevice_resources (h : H) (σ : Power H) :
    (σ.ensureDevice h).resources = σ.resources := by
  unfold ensureDevice
  split <;> rfl

@[simp] theorem ensureDevice_log (h : H) (σ : Power H) : (σ.ensureDevice h).log = σ.log := by
  unfold ensureDevice
  split <;> rfl

@[simp] theorem ensureDevice_discovered (h : H) (σ : Power H) :
    (σ.ensureDevice h).discovered = σ.discovered := by
  unfold ensureDevice
  split <;> rfl

theorem ensureDevice_recorded (h : H) (σ : Power H) (d : H) :
    (σ.ensureDevice h).Recorded d ↔ d = h ∨ σ.Recorded d := by
  unfold ensureDevice
  split
  · rename_i hmem
    constructor
    · exact Or.inr
    · rintro (rfl | hd)
      · exact hmem
      · exact hd
  · exact mem_cons

@[simp] theorem mapDevice_recorded (h : H) (g : Device H → Device H) (σ : Power H) (d : H) :
    (σ.mapDevice h g).Recorded d ↔ σ.Recorded d := by
  have hsame : (σ.mapDevice h g).devices.map Device.handle = σ.devices.map Device.handle := by
    simp only [mapDevice,map_map]
    apply map_congr_left
    intro dev _
    simp only [Function.comp_apply]
    split <;> rfl
  unfold Recorded
  rw [hsame]

theorem mapDevice_device {h : H} (hr : σ.Recorded h) (g : Device H → Device H) :
    (σ.mapDevice h g).device h = { g (σ.device h) with handle := h } := by
  obtain ⟨dev,hdev,rfl⟩ := mem_map.mp hr
  have hmem := mem_map_of_mem
    (f := fun d : Device H => if d.handle = dev.handle then { g d with handle := d.handle } else d) hdev
  have hfind := find_key Device.handle (σ.mapDevice dev.handle g).uniqueDevices hmem
  simp only [if_true] at hfind
  simp [device,hfind,find_key Device.handle σ.uniqueDevices hdev]

theorem addResource_known (h : H) (order : ℕ) (σ : Power H) (r : H) :
    (σ.addResource h order).Known r ↔ r = h ∨ σ.Known r := by
  unfold addResource
  split
  · rename_i hmem
    constructor
    · exact Or.inr
    · rintro (rfl | hr)
      · exact hmem
      · exact hr
  · have hperm := (insertResource_perm ⟨h,order,.empty⟩ σ.resources).map Resource.handle
    exact hperm.mem_iff.trans mem_cons

@[simp] theorem addResource_log (h : H) (order : ℕ) (σ : Power H) :
    (σ.addResource h order).log = σ.log := by
  unfold addResource
  split <;> rfl

@[simp] theorem addResource_devices (h : H) (order : ℕ) (σ : Power H) :
    (σ.addResource h order).devices = σ.devices := by
  unfold addResource
  split <;> rfl

@[simp] theorem addResource_discovered (h : H) (order : ℕ) (σ : Power H) :
    (σ.addResource h order).discovered = σ.discovered := by
  unfold addResource
  split <;> rfl

@[simp] theorem addResource_holders (h : H) (order : ℕ) (σ : Power H) (r : H) :
    (σ.addResource h order).holders r = σ.holders r := by
  by_cases hk : (σ.addResource h order).Known r
  · obtain ⟨res,hres,rfl⟩ := mem_map.mp hk
    rw [holders_of_mem hres]
    unfold addResource at hres
    split at hres
    · rw [holders_of_mem hres]
    · rename_i hmem
      rcases mem_cons.mp ((insertResource_perm _ _).mem_iff.mp hres) with rfl | hres
      · rw [holders_of_unknown hmem]
      · rw [holders_of_mem hres]
  · have hr : ¬σ.Known r := fun h => hk ((addResource_known _ _ _ _).mpr (.inr h))
    rw [holders_of_unknown hk,holders_of_unknown hr]

@[simp] theorem mapHolders_handles (r : H) (g : Holders H → Holders H) (σ : Power H) :
    (σ.mapHolders r g).resources.map Resource.handle = σ.resources.map Resource.handle := by
  simp only [mapHolders,map_map]
  apply map_congr_left
  intro res _
  simp only [Function.comp_apply]
  split <;> rfl

@[simp] theorem mapHolders_known (r : H) (g : Holders H → Holders H) (σ : Power H) (q : H) :
    (σ.mapHolders r g).Known q ↔ σ.Known q := by
  unfold Known
  rw [mapHolders_handles]

theorem mapHolders_holders_of_known (r : H) (g : Holders H → Holders H) {q : H} (hq : σ.Known q) :
    (σ.mapHolders r g).holders q = if q = r then g (σ.holders q) else σ.holders q := by
  obtain ⟨res,hres,rfl⟩ := mem_map.mp hq
  have hmem := mem_map_of_mem
    (f := fun res => if res.handle = r then { res with holders := g res.holders } else res) hres
  have hh := holders_of_mem (σ := σ.mapHolders r g) hmem
  rw [holders_of_mem hres]
  by_cases hr : res.handle = r
  · simpa [hr] using hh
  · simpa [hr] using hh

theorem mapHolders_holders_of_ne {r q : H} (hne : q ≠ r) (g : Holders H → Holders H) (σ : Power H) :
    (σ.mapHolders r g).holders q = σ.holders q := by
  by_cases hq : σ.Known q
  · rw [mapHolders_holders_of_known r g hq,if_neg hne]
  · rw [holders_of_unknown hq,holders_of_unknown (fun hk => hq ((mapHolders_known r g σ q).mp hk))]

theorem mapHolders_holders (r : H) (g : Holders H → Holders H) (σ : Power H) (q : H)
    (h : σ.Known r ∨ g .empty = .empty) :
    (σ.mapHolders r g).holders q = if q = r then g (σ.holders r) else σ.holders q := by
  split
  · rename_i hqr
    subst hqr
    by_cases hq : σ.Known q
    · rw [mapHolders_holders_of_known q g hq,if_pos rfl]
    · rw [holders_of_unknown (fun hk => hq ((mapHolders_known q g σ q).mp hk)),
        holders_of_unknown hq,h.resolve_left hq]
  · rename_i hne
    exact mapHolders_holders_of_ne hne g σ

theorem mapHolders_add_hold {r : H} (h : σ.Known r) (d : H) (k : Kind) (q e : H) :
    (σ.mapHolders r fun p => p.add d k).hold q e =
      if q = r ∧ e = d then (σ.hold r d).union (.only k) else σ.hold q e := by
  rw [hold,mapHolders_holders _ _ _ _ (.inl h)]
  by_cases hq : q = r
  · subst hq
    rw [if_pos rfl,Holders.uses_add]
    simp [hold]
  · simp [hq,hold]

theorem mapHolders_drop_hold (σ : Power H) (r d : H) (u : Uses) (q e : H) :
    (σ.mapHolders r fun p => p.drop d u).hold q e =
      if q = r ∧ e = d then (σ.hold r d).diff u else σ.hold q e := by
  rw [hold,mapHolders_holders _ _ _ _ (.inr rfl)]
  by_cases hq : q = r
  · subst hq
    rw [if_pos rfl,Holders.uses_drop]
    simp [hold]
  · simp [hq,hold]

end Power
end Resources
end NanoBSD.AcpiPower
