import NanoBSD.Acpi.Power
import NanoBSD.Lib.Run

/-! # The functions of `acpi_power.c`

Resources are named by their handles. A `power_set` is the list of handles it points to,
the last one added in front.
-/
namespace NanoBSD.AcpiPower
open Prog
variable {H : Type} [DecidableEq H] (A : Aml H)

def powerSta (r : H) : Prog (Power H) Status ℕ := do
  let value ← evalInteger A r .STA
  if 1 < value then raise .BAD_VALUE else pure value

/-- A failing method may have acted, so `_STA` is evaluated in any case. -/
def powerMethod (r : H) (on : Bool) : Prog (Power H) Status Unit := do
  let rv ← attempt (evaluateObject A r (if on then .ON else .OFF))
  let sr ← attempt (powerSta A r)
  match rv,sr with
  | .error status,_ => raise status
  | .ok _,.error status => raise status
  | .ok _,.ok sta => if sta = (if on then 1 else 0) then pure () else raise .ERROR

def powerResource (h : H) : Prog (Power H) Status Unit := do
  if ← read (fun σ => σ.resources.any (fun res => res.handle = h)) then pure ()
  else
    match ← evalStruct A h none with
    | .power order => update (Power.addResource h order)
    | _ => raise .TYPE

def powerAcquire (r device : H) (use : Kind) : Prog (Power H) Status Unit := do
  let first ← read fun σ => (σ.holders r).refs.isEmpty
  -- The hold is kept on failure: the method may have switched the resource on in part.
  update (Power.mapHolders r fun p => p.add device use)
  if first then powerMethod A r true
  else do
    let sta ← powerSta A r
    if sta = 0 then powerMethod A r true else pure ()

def confirmRelease (r : H) (last : Bool) : Prog (Power H) Status Unit :=
  if last then powerMethod A r false
  else do
    let sta ← powerSta A r
    if sta = 1 then pure () else raise .ERROR

def powerRelease (r device : H) (use : Uses) : Prog (Power H) Status Unit := do
  let p ← read fun σ => σ.holders r
  if (p.uses device).inter use = .none then pure ()
  else do
    confirmRelease A r (p.sole device use)
    update (Power.mapHolders r fun p => p.drop device use)

def packageElements : List (Except Status H) → List H → Prog (Power H) Status (List H)
  | [], set => pure set
  | .error status :: _, _ => raise status
  | .ok r :: elements, set => do
    powerResource A r
    packageElements elements (set.insert r)

/-- Absent and empty packages are valid; evaluation and type errors are not. -/
def powerPackage (h : H) (state : ℕ) (set : List H) : Prog (Power H) Status (List H) := do
  match ← attempt (getHandle A h (.PR state)) with
  | .error .NOT_FOUND => pure set
  | .error status => raise status
  | .ok _ =>
    match ← evalStruct A h (some (.PR state)) with
    | .package elements => packageElements A elements set
    | _ => raise .TYPE

def powerDevice (h : H) : Prog (Power H) Status Unit := update (Power.ensureDevice h)

/-- An absent object is told apart from an error inside its AML. -/
def powerInteger (h : H) (name : Name) : Prog (Power H) Status ℕ := do
  getHandle A h name
  match ← attempt (evalInteger A h name) with
  | .ok value => pure value
  | .error .NOT_FOUND => raise .ERROR
  | .error status => raise status

def powerPsc (h : H) : Prog (Power H) Status ℕ := do
  match ← attempt (powerInteger A h .PSC) with
  | .ok value => if ACPI_STATE_D3 < value then raise .BAD_VALUE else pure value
  | .error .NOT_FOUND => do
    match ← matchNode A h with
    | none => raise .NOT_FOUND
    | some _ => do
      let adState ← read fun σ => σ.adState h
      if 0 ≤ adState ∧ adState ≤ ACPI_STATE_D3_COLD then pure adState.toNat
      else raise .NOT_FOUND
  | .error status => raise status

def seedPackages (h : H) : List ℕ → List H → Prog (Power H) Status (List H)
  | [], set => pure set
  | state :: states, set => do
    let set ← powerPackage A h state set
    seedPackages h states set

def seedReserve (h : H) : List H → Bool → Prog (Power H) Status Bool
  | [], off => pure off
  | r :: set, off => do
    let sta ← powerSta A r
    if sta = 0 then seedReserve h set true
    else do
      update (Power.mapHolders r fun p => p.add h .state)
      seedReserve h set off

def seedRange : Except Status ℕ → ℕ × ℕ
  | .ok state => (state,if state = ACPI_STATE_D3_COLD then ACPI_STATE_D3 else state)
  | .error _ => (ACPI_STATE_D0,ACPI_STATE_D3)

def Device.note (psc : Except Status ℕ) (dev : Device H) : Device H :=
  match psc with
  | .ok state => { dev with state := state }
  | .error _ => dev

/-- The end of `power_seed`. A recorded D0 cannot override an unpowered _PR0. -/
def Device.seal (psc : Except Status ℕ) (off : Bool) (dev : Device H) : Device H :=
  if off ∧ seedRange psc = (ACPI_STATE_D0,ACPI_STATE_D0) then
    { dev with state := ACPI_STATE_D3_COLD, seeded := true }
  else { dev with seeded := true }

def seedPresent (h : H) : Prog (Power H) Status Unit := do
  let psc ← attempt (powerPsc A h)
  update (Power.mapDevice h (Device.note psc))
  let (first,last) := seedRange psc
  let set ← seedPackages A h (List.range' first (last + 1 - first)) []
  let off ← seedReserve A h set false
  update (Power.mapDevice h (Device.seal psc off))

def powerSeed (h : H) : Prog (Power H) Status Unit := do
  if ← read (fun σ => (σ.device h).seeded) then pure ()
  else
    match ← attempt (powerInteger A h .STA) with
    | .ok sta => if sta &&& 3 ≠ 3 then pure () else seedPresent A h
    | .error .NOT_FOUND => seedPresent A h
    | .error status => raise status

def discoverOne (h : H) : List ℕ → Prog (Power H) Status Unit
  | [] => pure ()
  | n :: names => do
    match ← attempt (getHandle A h (.PR n)) with
    | .ok _ => do
      powerDevice h
      powerSeed A h
    | .error .NOT_FOUND => discoverOne h names
    | .error status => raise status

def powerDiscoverOne (h : H) : Prog (Power H) Status Unit := discoverOne A h [0,1,2,3]

def powerDiscover : Prog (Power H) Status Unit := do
  if ← read Power.discovered then pure ()
  else do
    let visit ← walkNamespace A
    forEach visit.1 (powerDiscoverOne A)
    match visit.2 with
    | some status => raise status
    | none => update fun σ => { σ with discovered := true }

def markFailed (h : H) : Prog (Power H) Status Unit :=
  update (Power.mapDevice h fun dev => { dev with state := ACPI_STATE_ERROR, failed := true })

def noteState (h : H) (state : ℤ) : Prog (Power H) Status Unit := do
  match ← matchNode A h with
  | some _ => update (Power.setAdState h state)
  | none => pure ()

def acpiPowerRegister (handle : Option H) : Prog (Power H) Status Bool :=
  match handle with
  | none => pure false
  | some h => do
    powerDevice h
    let rv ← attempt (powerSeed A h)
    pure rv.isOk

def releaseAll (h : H) : Prog (Power H) Status Unit := do
  powerDiscover A
  let rs ← read fun σ => σ.resources.map Resource.handle
  forEach rs.reverse fun r => powerRelease A r h .both

def acpiPowerDeregister (handle : Option H) : Prog (Power H) Status Unit :=
  match handle with
  | none => pure ()
  | some h => do
    match ← attempt (releaseAll A h) with
    | .ok _ => update (Power.removeDevice h)
    | .error _ => do
      powerDevice h
      markFailed h

def anyOff : List H → Bool → Prog (Power H) Status Bool
  | [], cold => pure cold
  | r :: set, cold => do
    let sta ← powerSta A r
    anyOff set (cold || sta == 0)

def currentState (h : H) : Prog (Power H) Status ℤ := do
  powerSeed A h
  let set ← powerPackage A h ACPI_STATE_D0 []
  let cold ← anyOff A set false
  if cold then do
    update (Power.mapDevice h fun dev => { dev with state := ACPI_STATE_D3_COLD })
    pure ACPI_STATE_D3_COLD
  else do
    let dev ← read fun σ => σ.device h
    if dev.failed then raise .ERROR
    else if dev.state ≠ ACPI_STATE_ERROR then pure dev.state
    else do
      let state ← powerPsc A h
      pure state

def acpiPowerGet (handle : Option H) : Prog (Power H) Status (Bool × ℤ) :=
  match handle with
  | none => pure (false,ACPI_STATE_ERROR)
  | some h => do
    powerDevice h
    let rv ← attempt (currentState A h)
    let current := match rv with
      | .ok state => state
      | .error _ => ACPI_STATE_ERROR
    noteState A h current
    pure (rv.isOk,current)

def powerPs (h : H) (state : ℕ) : Prog (Power H) Status Unit := do
  let name := Name.PS (if state = ACPI_STATE_D3_COLD then ACPI_STATE_D3 else state)
  match ← attempt (getHandle A h name) with
  | .error .NOT_FOUND => pure ()
  | .error status => raise status
  | .ok _ => evaluateObject A h name

def checkParent (h : H) (state : ℕ) : Prog (Power H) Status Unit := do
  match ← matchNode A h with
  | some ⟨some (parent,true)⟩ => do
    let adState ← read fun σ => σ.adState parent
    if state < adState then raise .ABORT_METHOD else pure ()
  | _ => pure ()

/-- The holds that exist before a transition starts: those of every device that discovery
finds, and those of the device itself. -/
def reserve (h : H) : Prog (Power H) Status Unit := do
  powerDiscover A
  powerSeed A h

/-- Everything before the first acquisition; the result is the target set. -/
def prepareSet (h : H) (state : ℕ) : Prog (Power H) Status (List H) := do
  reserve A h
  checkParent A h state
  if state ≠ ACPI_STATE_D3_COLD then powerPackage A h state [] else pure []

def acquireSet (h : H) (target : List H) : Prog (Power H) Status Unit := do
  let rs ← read fun σ => σ.resources.map Resource.handle
  forEach rs fun r => if r ∈ target then powerAcquire A r h .state else pure ()

def releaseSet (h : H) (target : List H) : Prog (Power H) Status Unit := do
  let rs ← read fun σ => σ.resources.map Resource.handle
  forEach rs.reverse fun r => if r ∈ target then pure () else powerRelease A r h (.only .state)

def enterState (h : H) (state : ℕ) (flags : BitVec 32) : Prog (Power H) Status Unit :=
  if flags &&& ACPI_POWER_NOPS3 = 0 then powerPs A h state else pure ()

def powerUp (h : H) (state : ℕ) (flags : BitVec 32) : Prog (Power H) Status (List H) := do
  let target ← prepareSet A h state
  acquireSet A h target
  enterState A h state flags
  pure target

def transition (h : H) (state : ℕ) (flags : BitVec 32) : Prog (Power H) Status Unit := do
  let target ← powerUp A h state flags
  releaseSet A h target
  update (Power.mapDevice h fun dev => { dev with state := state, failed := false })

def tryTransition (h : H) (state : ℕ) (flags : BitVec 32) : Prog (Power H) Status Bool := do
  match ← attempt (transition A h state flags) with
  | .ok _ => pure true
  | .error _ => do
    markFailed h
    pure false

def acpiPowerSetFlags (handle : Option H) (state : ℤ) (flags : BitVec 32) :
    Prog (Power H) Status Bool :=
  match handle with
  | none => pure false
  | some h =>
    if state < ACPI_STATE_D0 ∨ ACPI_STATE_D3_COLD < state then pure false
    else if flags &&& ~~~ACPI_POWER_NOPS3 ≠ 0 ∨ (flags ≠ 0 ∧ state ≠ ACPI_STATE_D3_COLD) then
      pure false
    else do
      powerDevice h
      let rv ← tryTransition A h state.toNat flags
      let dev ← read fun σ => σ.device h
      noteState A h dev.state
      pure rv

def acpiPowerSet (handle : Option H) (state : ℤ) : Prog (Power H) Status Bool :=
  acpiPowerSetFlags A handle state 0

def acpiPowerRes (handle device : Option H) (on : Bool) : Prog (Power H) Status Unit :=
  match handle,device with
  | some r,some d => do
    powerDiscover A
    powerResource A r
    if on then powerAcquire A r d .wake else powerRelease A r d (.only .wake)
  | _,_ => raise .BAD_PARAMETER

inductive Call (H : Type) where
  | register (handle : Option H)
  | deregister (handle : Option H)
  | get (handle : Option H)
  | setFlags (handle : Option H) (state : ℤ) (flags : BitVec 32)
  | res (handle device : Option H) (on : Bool)

def Call.run (σ : Power H) : Call H → Power H
  | .register handle => (acpiPowerRegister A handle σ).2
  | .deregister handle => (acpiPowerDeregister A handle σ).2
  | .get handle => (acpiPowerGet A handle σ).2
  | .setFlags handle state flags => (acpiPowerSetFlags A handle state flags σ).2
  | .res handle device on => (acpiPowerRes A handle device on σ).2

/-- Between two calls the rest of the kernel may change the state kept in device nodes. -/
inductive Move (H : Type) where
  | call (c : Call H)
  | adState (h : H) (v : ℤ)

def Move.step (σ : Power H) : Move H → Option (Power H)
  | .call c => some (c.run A σ)
  | .adState h v => some (σ.setAdState h v)

def Reached (σ : Power H) : Prop :=
  ∃ adState moves, exec (Move.step A) (Power.boot adState) moves = some σ

end NanoBSD.AcpiPower
