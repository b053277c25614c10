import NanoBSD.Acpi.Calls
import NanoBSD.Lib.History

/-! # Boards whose firmware tells the truth

On a board the `_PRn` packages and the device status are fixed, and `_STA` of a power
resource reflects the last `_ON` or `_OFF` that succeeded. Everything else, such as which
methods fail, is left open.
-/
namespace NanoBSD.AcpiPower
variable {H : Type} [DecidableEq H]

def Event.switchOf (r : H) : Event H → Option Bool
  | .method q .ON (.ok _) _ _ => if q = r then some true else none
  | .method q .OFF (.ok _) _ _ => if q = r then some false else none
  | _ => none

/-- Which handles are power resources, their order and state at boot, the packages, which list power
resources only, and the devices' status. -/
structure Board (H : Type) where
  rail : H → Bool
  order : H → ℕ
  booted : H → Bool
  packages : H → ℕ → Option (List H)
  rails_only : ∀ h n l, packages h n = some l → ∀ r ∈ l, rail r = true
  status : H → Option ℕ
  rest : Aml H

namespace Board

def rails (b : Board H) (h : H) (n : ℕ) : List H := (b.packages h n).getD []

def powered (b : Board H) (log : List (Event H)) (r : H) : Bool :=
  (latest (Event.switchOf r) log).getD (b.booted r)

def aml (b : Board H) : Aml H where
  handle log h
    | .PR n => if (b.packages h n).isSome then .ok () else .error .NOT_FOUND
    | .STA => if b.rail h || (b.status h).isSome then .ok () else .error .NOT_FOUND
    | name => b.rest.handle log h name
  integer log h
    | .STA =>
      if b.rail h then .ok (if b.powered log h then 1 else 0)
      else match b.status h with
        | some sta => .ok sta
        | none => .error .NOT_FOUND
    | name => b.rest.integer log h name
  method := b.rest.method
  object log h
    | none => if b.rail h then .ok (.power (b.order h)) else .ok .other
    | some (.PR n) =>
      match b.packages h n with
      | some l => .ok (.package (l.map .ok))
      | none => .error .NOT_FOUND
    | some name => b.rest.object log h (some name)
  walk := b.rest.walk
  node := b.rest.node

end Board

def plainFirmware (fails : ℕ → Name → Bool) (walk : List ℕ × Option Status) : Aml ℕ where
  handle _ _ name := if name = .PS 0 ∨ name = .PS 3 then .ok () else .error .NOT_FOUND
  integer _ _ _ := .error .NOT_FOUND
  method _ h name := if fails h name then .error .ERROR else .ok ()
  object _ _ _ := .error .NOT_FOUND
  walk _ := walk
  node _ _ := none

/-- Devices 1 and 2 share the resource 10 in D0; device 1 needs 11 instead in D3. -/
def twoDevices (fails : ℕ → Name → Bool) (walk : List ℕ × Option Status) : Board ℕ where
  rail h := h = 10 ∨ h = 11
  order h := h
  booted h := h = 10
  packages h n :=
    if n = 0 ∧ (h = 1 ∨ h = 2) then some [10]
    else if n = 3 ∧ h = 1 then some [11]
    else none
  rails_only h n l hl r hr := by
    split at hl
    · cases hl
      simp_all
    · split at hl
      · cases hl
        simp_all
      · cases hl
  status _ := none
  rest := plainFirmware fails walk

def calmBoard : Board ℕ := twoDevices (fun _ _ => false) ([1,2],none)

end NanoBSD.AcpiPower
