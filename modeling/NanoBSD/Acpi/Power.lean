import NanoBSD.Acpi.Holders
import NanoBSD.Lib.Prog
import Mathlib.Data.Int.Notation

/-! # Power resources and device power states

The model follows `dev/acpi/acpi_power.c`. AML is outside this code: an oracle answers
every evaluation from the whole history of evaluations and answers, so a method may
fail, misreport or change its mind at any time. Each public function runs under
`power_lock` and is one routine here.
-/
namespace NanoBSD.AcpiPower
open Prog List

inductive Status where
  | NOT_FOUND
  | BAD_VALUE
  | TYPE
  | ERROR
  | ABORT_METHOD
  | BAD_PARAMETER
  | other (code : ℕ)
deriving DecidableEq, Repr

/-- The objects this code evaluates; `PR n` and `PS n` are `_PRn` and `_PSn`. -/
inductive Name where
  | STA
  | PSC
  | ON
  | OFF
  | PR (n : ℕ)
  | PS (n : ℕ)
deriving DecidableEq, Repr

/-- What `acpi_eval_struct` returns. The elements of a package stand for the answers of
`acpi_eval_reference_handle`. -/
inductive Object (H : Type) where
  | power (order : ℕ)
  | package (elements : List (Except Status H))
  | other
deriving DecidableEq

/-- The part of `struct acpi_devnode` read here: the parent and whether it has
`ACPI_DEVICE_POWER`. -/
structure Node (H : Type) where
  parent : Option (H × Bool)
deriving DecidableEq

/-- The calls out of this code, with their answers. A method call also notes who held the object and
whether discovery was complete. -/
inductive Event (H : Type) where
  | handle (h : H) (name : Name) (answer : Except Status Unit)
  | integer (h : H) (name : Name) (answer : Except Status ℕ)
  | method (h : H) (name : Name) (answer : Except Status Unit) (held : List (Ref H))
      (discovered : Bool)
  | object (h : H) (name : Option Name) (answer : Except Status (Object H))
  | walk (answer : List H × Option Status)
  | node (h : H) (answer : Option (Node H))
deriving DecidableEq

/-- The answers of AML, the namespace and the device tree. A namespace walk visits some
devices and may then fail by itself. -/
structure Aml (H : Type) where
  handle : List (Event H) → H → Name → Except Status Unit
  integer : List (Event H) → H → Name → Except Status ℕ
  method : List (Event H) → H → Name → Except Status Unit
  object : List (Event H) → H → Option Name → Except Status (Object H)
  walk : List (Event H) → List H × Option Status
  node : List (Event H) → H → Option (Node H)

structure Resource (H : Type) where
  handle : H
  order : ℕ
  holders : Holders H

structure Device (H : Type) where
  handle : H
  state : ℤ
  seeded : Bool
  failed : Bool
deriving DecidableEq, Repr

def ACPI_STATE_ERROR : ℤ := -1
def ACPI_STATE_D0 : ℕ := 0
def ACPI_STATE_D3 : ℕ := 3
def ACPI_STATE_D3_COLD : ℕ := 4
def ACPI_POWER_NOPS3 : BitVec 32 := 1#32

section Order
variable {H : Type}

def insertResource (res : Resource H) : List (Resource H) → List (Resource H)
  | [] => [res]
  | next :: l => if next.order ≤ res.order then next :: insertResource res l else res :: next :: l

theorem insertResource_perm (res : Resource H) (l : List (Resource H)) :
    (insertResource res l).Perm (res :: l) := by
  induction l with
  | nil => exact List.Perm.refl _
  | cons next l ih =>
    rw [insertResource]
    split
    · exact (ih.cons next).trans (List.Perm.swap res next l)
    · exact List.Perm.refl _

theorem insertResource_sorted {res : Resource H} {l : List (Resource H)}
    (h : l.Pairwise fun a b => a.order ≤ b.order) :
    (insertResource res l).Pairwise fun a b => a.order ≤ b.order := by
  induction l with
  | nil => exact pairwise_singleton _ _
  | cons next l ih =>
    obtain ⟨hnext,hl⟩ := pairwise_cons.mp h
    rw [insertResource]
    split
    · rename_i hle
      refine pairwise_cons.mpr ⟨fun b hb => ?_,ih hl⟩
      rcases mem_cons.mp ((insertResource_perm res l).mem_iff.mp hb) with rfl | hb
      · exact hle
      · exact hnext b hb
    · rename_i hgt
      refine pairwise_cons.mpr ⟨fun b hb => ?_,h⟩
      rcases mem_cons.mp hb with rfl | hb
      · omega
      · have := hnext b hb
        omega

end Order

/-- The resource list in `ResourceOrder` and the device records, each handle listed once. -/
structure Power (H : Type) where
  resources : List (Resource H)
  sorted : resources.Pairwise fun a b => a.order ≤ b.order
  unique : (resources.map Resource.handle).Nodup
  devices : List (Device H)
  uniqueDevices : (devices.map Device.handle).Nodup
  discovered : Bool
  adState : H → ℤ
  log : List (Event H)

namespace Power
variable {H : Type}

def boot (adState : H → ℤ) : Power H :=
  ⟨[],List.Pairwise.nil,nodup_nil,[],nodup_nil,false,adState,[]⟩

def record (e : Event H) (σ : Power H) : Power H := { σ with log := σ.log ++ [e] }

variable [DecidableEq H]

def addResource (h : H) (order : ℕ) (σ : Power H) : Power H :=
  if hmem : h ∈ σ.resources.map Resource.handle then σ
  else { σ with
    resources := insertResource ⟨h,order,.empty⟩ σ.resources
    sorted := insertResource_sorted σ.sorted
    unique := by
      have hperm := (insertResource_perm ⟨h,order,.empty⟩ σ.resources).map Resource.handle
      exact hperm.nodup_iff.mpr (nodup_cons.mpr ⟨hmem,σ.unique⟩) }

def mapHolders (r : H) (g : Holders H → Holders H) (σ : Power H) : Power H :=
  { σ with
    resources := σ.resources.map fun res =>
      if res.handle = r then { res with holders := g res.holders } else res
    sorted := by
      refine pairwise_map.mpr (σ.sorted.imp ?_)
      intro a b hab
      split <;> split <;> exact hab
    unique := by
      rw [map_map,map_congr_left (g := Resource.handle) ?_]
      · exact σ.unique
      · intro res _
        simp only [Function.comp_apply]
        split <;> rfl }

def holders (σ : Power H) (r : H) : Holders H :=
  match σ.resources.find? (fun res => res.handle = r) with
  | some res => res.holders
  | none => .empty

def device (σ : Power H) (h : H) : Device H :=
  (σ.devices.find? fun dev => dev.handle = h).getD ⟨h,ACPI_STATE_ERROR,false,false⟩

def ensureDevice (h : H) (σ : Power H) : Power H :=
  if hmem : h ∈ σ.devices.map Device.handle then σ
  else { σ with
    devices := ⟨h,ACPI_STATE_ERROR,false,false⟩ :: σ.devices
    uniqueDevices := nodup_cons.mpr ⟨hmem,σ.uniqueDevices⟩ }

def mapDevice (h : H) (g : Device H → Device H) (σ : Power H) : Power H :=
  { σ with
    devices := σ.devices.map fun dev =>
      if dev.handle = h then { g dev with handle := dev.handle } else dev
    uniqueDevices := by
      rw [map_map,map_congr_left (g := Device.handle) ?_]
      · exact σ.uniqueDevices
      · intro dev _
        simp only [Function.comp_apply]
        split <;> rfl }

def removeDevice (h : H) (σ : Power H) : Power H :=
  { σ with
    devices := σ.devices.filter fun dev => dev.handle ≠ h
    uniqueDevices := σ.uniqueDevices.sublist (filter_sublist.map _) }

def setAdState (h : H) (v : ℤ) (σ : Power H) : Power H :=
  { σ with adState := Function.update σ.adState h v }

end Power

section Queries
variable {H : Type} [DecidableEq H] (A : Aml H)

def ask {α : Type} (answer : List (Event H) → Except Status α)
    (event : Except Status α → Event H) : Prog (Power H) Status α :=
  fun σ => (answer σ.log,σ.record (event (answer σ.log)))

def consult {α : Type} (answer : List (Event H) → α) (event : α → Event H) :
    Prog (Power H) Status α :=
  fun σ => (.ok (answer σ.log),σ.record (event (answer σ.log)))

section Answer
variable {α : Type} {answer : List (Event H) → Except Status α} {event : Except Status α → Event H}
  {Q : α → Power H → Prop} {E : Status → Power H → Prop} {σ : Power H}

omit [DecidableEq H] in
theorem ask_wp (hQ : ∀ a, answer σ.log = .ok a → Q a (σ.record (event (.ok a))))
    (hE : ∀ e, answer σ.log = .error e → E e (σ.record (event (.error e)))) :
    (ask answer event).wp Q E σ := by
  unfold wp ask
  cases h : answer σ.log with
  | ok a => exact hQ a h
  | error e => exact hE e h

omit [DecidableEq H] in
theorem ask_wp_ok {a : α} (ha : answer σ.log = .ok a) (hQ : Q a (σ.record (event (.ok a)))) :
    (ask answer event).wp Q E σ := by
  unfold wp ask
  rw [ha]
  exact hQ

omit [DecidableEq H] in
theorem ask_wp_error {e : Status} (he : answer σ.log = .error e)
    (hE : E e (σ.record (event (.error e)))) : (ask answer event).wp Q E σ := by
  unfold wp ask
  rw [he]
  exact hE

end Answer

def getHandle (h : H) (name : Name) : Prog (Power H) Status Unit :=
  ask (fun log => A.handle log h name) (.handle h name)

def evalInteger (h : H) (name : Name) : Prog (Power H) Status ℕ :=
  ask (fun log => A.integer log h name) (.integer h name)

def evalStruct (h : H) (name : Option Name) : Prog (Power H) Status (Object H) :=
  ask (fun log => A.object log h name) (.object h name)

def evaluateObject (h : H) (name : Name) : Prog (Power H) Status Unit := do
  let held ← read fun σ => (σ.holders h).refs
  let discovered ← read Power.discovered
  ask (fun log => A.method log h name) (fun answer => .method h name answer held discovered)

def matchNode (h : H) : Prog (Power H) Status (Option (Node H)) :=
  consult (fun log => A.node log h) (.node h)

def walkNamespace : Prog (Power H) Status (List H × Option Status) := consult A.walk .walk

end Queries
end NanoBSD.AcpiPower
