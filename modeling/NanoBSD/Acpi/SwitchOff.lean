import NanoBSD.Acpi.Board
import NanoBSD.Acpi.Transition

/-! # When a resource is switched off

Along every run, whatever the evaluated methods answer, `_OFF` is evaluated only by a
call that releases the last use of the resource.
-/
namespace NanoBSD.AcpiPower
open Prog
variable {H : Type} [DecidableEq H]

def Call.releases : Call H → Option (H × Uses)
  | .deregister (some h) => some (h,.both)
  | .setFlags (some h) _ _ => some (h,.only .state)
  | .res (some _) (some d) false => some (d,.only .wake)
  | _ => none

def Call.Entitled (c : Call H) (e : Event H) : Prop :=
  e.NotOff ∨ ∃ d u, c.releases = some (d,u) ∧ e.OffSafe d u

section Logs
variable {σ σ' : Power H}

theorem Grows.entitled {D : H → Kind → Prop} (c : Call H) (h : Grows D Event.NotOff σ σ') :
    Logs c.Entitled σ σ' := by
  obtain ⟨new,hl,hnew⟩ := h.log
  exact ⟨new,hl,fun e he => .inl (hnew e he)⟩

theorem Sheds.entitled {T : H → Prop} {d : H} {u : Uses} {c : Call H}
    (hc : c.releases = some (d,u)) (h : Sheds T d u σ σ') : Logs c.Entitled σ σ' := by
  obtain ⟨new,hl,hnew,-⟩ := h.log
  exact ⟨new,hl,fun e he => .inr ⟨d,u,hc,(hnew e he).1⟩⟩

instance (P : Event H → Prop) : IsPreorder (Power H) (Logs P) where
  refl := Logs.refl
  trans _ _ _ := Logs.trans

theorem growing_entitled {α : Type} {x : Prog (Power H) Status α}
    (hx : Keeps (Grows Nobody Event.Passive) x) (c : Call H) : Keeps (Logs c.Entitled) x :=
  fun σ => (hx σ).notOff.entitled c

end Logs

section Calls
variable (A : Aml H)

theorem anyOff_growing {D : H → Kind → Prop} (set : List H) (cold : Bool) :
    Keeps (Grows D Event.Passive) (anyOff A set cold) := by
  induction set generalizing cold with
  | nil => exact Keeps.pure _
  | cons r set ih =>
    apply Keeps.bind (powerSta_growing A fun _ => trivial)
    intro sta
    exact ih _

theorem currentState_growing (h : H) :
    Keeps (Grows (Only h .state) Event.Passive) (currentState A h) := by
  unfold currentState
  apply Keeps.bind (powerSeed_growing A ⟨rfl,rfl⟩)
  intro _
  apply Keeps.bind (powerPackage_growing A h _ _)
  intro set
  apply Keeps.bind (anyOff_growing A set _)
  intro cold
  apply Keeps.ite
  · apply Keeps.bind (mapDevice_growing _ _)
    intro _
    exact Keeps.pure _
  · apply Keeps.read_bind
    intro dev
    refine Keeps.ite (Keeps.raise _) (Keeps.ite (Keeps.pure _) ?_)
    exact Keeps.bind (powerPsc_growing A h) fun state => Keeps.pure _

theorem acpiPowerRegister_growing (h : H) :
    Keeps (Grows (Only h .state) Event.Passive) (acpiPowerRegister A (some h)) := by
  unfold acpiPowerRegister
  apply Keeps.bind (ensureDevice_growing h)
  intro _
  apply Keeps.bind (powerSeed_growing A ⟨rfl,rfl⟩).attempt
  intro rv
  exact Keeps.pure _

theorem acpiPowerGet_growing (h : H) :
    Keeps (Grows (Only h .state) Event.Passive) (acpiPowerGet A (some h)) := by
  unfold acpiPowerGet
  apply Keeps.bind (ensureDevice_growing h)
  intro _
  apply Keeps.bind (currentState_growing A h).attempt
  intro rv
  apply Keeps.bind (noteState_growing A h _)
  intro _
  exact Keeps.pure _

theorem acpiPowerDeregister_entitled (h : H) (σ : Power H) :
    Logs (Call.deregister (some h)).Entitled σ (acpiPowerDeregister A (some h) σ).2 := by
  apply wp_state
  unfold acpiPowerDeregister
  rw [wp_bind,wp_attempt]
  have hlog : ∀ σ', (∃ τ, Grows (Discovering σ) Event.Passive σ τ ∧ Sheds (fun _ => True) h .both τ σ') →
      Logs (Call.deregister (some h)).Entitled σ σ' := by
    rintro σ' ⟨τ,hg,hs⟩
    exact (hg.notOff.entitled _).trans (hs.entitled rfl)
  refine wp_mono (releaseAll_wp A h σ) ?_ ?_
  · intro _ σ' hq
    exact hlog σ' hq
  · intro status σ' hq
    obtain ⟨new,hl,hnew⟩ := hlog σ' hq
    exact ⟨new,by simpa [markFailed,Power.mapDevice] using hl,hnew⟩

theorem transition_entitled (h : H) (n : ℕ) (state : ℤ) (flags : BitVec 32) :
    Keeps (Logs (Call.setFlags (some h) state flags).Entitled) (transition A h n flags) := by
  intro σ
  apply wp_state
  refine wp_mono (transition_wp A h n flags σ) ?_ ?_
  · rintro _ σ' ⟨target,τ,ρ,hup,hs,-,rfl⟩
    have hlog := (hup.grows.entitled (.setFlags (some h) state flags)).trans (hs.entitled rfl)
    exact hlog
  · rintro status σ' (hg | ⟨target,τ,-,hup,hs⟩)
    · exact hg.entitled _
    · exact (hup.grows.entitled _).trans (hs.entitled rfl)

theorem acpiPowerSetFlags_entitled (h : H) (state : ℤ) (flags : BitVec 32) :
    Keeps (Logs (Call.setFlags (some h) state flags).Entitled)
      (acpiPowerSetFlags A (some h) state flags) := by
  unfold acpiPowerSetFlags
  dsimp only
  split
  · exact Keeps.pure _
  split
  · exact Keeps.pure _
  refine Keeps.bind (growing_entitled (ensureDevice_growing h) _) fun _ => ?_
  apply Keeps.bind
  · unfold tryTransition
    apply Keeps.bind (transition_entitled A h _ state flags).attempt
    intro rv
    cases rv with
    | ok _ => exact Keeps.pure _
    | error status =>
      exact Keeps.bind (growing_entitled (mapDevice_growing _ _) _) fun _ => Keeps.pure _
  intro rv
  apply Keeps.read_bind
  intro dev
  exact Keeps.bind (growing_entitled (noteState_growing A h _) _) fun _ => Keeps.pure _

theorem acpiPowerRes_entitled (r d : H) (on : Bool) (σ : Power H) :
    Logs (Call.res (some r) (some d) on).Entitled σ (acpiPowerRes A (some r) (some d) on σ).2 := by
  apply wp_state
  unfold acpiPowerRes
  dsimp only
  rw [wp_bind]
  refine wp_mono (powerDiscover_wp A σ) ?_ (fun _ _ hg => hg.notOff.entitled _)
  rintro _ σ₁ ⟨h₁,hd⟩
  have hg₁ : Logs (Call.res (some r) (some d) on).Entitled σ σ₁ := h₁.notOff.entitled _
  have hres : Keeps (Grows Nobody Event.NotOff) (powerResource A r) := powerResource_growing A fun _ => trivial
  rw [wp_bind]
  refine wp_mono (hres.wp σ₁) ?_ (fun _ _ hg => hg₁.trans (hg.entitled _))
  intro _ σ₂ h₂
  have hg₂ : Logs (Call.res (some r) (some d) on).Entitled σ σ₂ := hg₁.trans (h₂.entitled _)
  cases on with
  | true =>
    have hacq : Keeps (Grows (Only d .wake) Event.NotOff) (powerAcquire A r d .wake) :=
      (powerAcquire_growing A r ⟨rfl,rfl⟩).mono fun _ _ h => h.mono (fun _ _ h => h) fun _ he => he.notOff
    exact wp_mono (hacq.wp σ₂) (fun _ _ hg => hg₂.trans (hg.entitled _))
      (fun _ _ hg => hg₂.trans (hg.entitled _))
  | false =>
    have hrel := powerRelease_wp A (T := fun _ => True) (r := r) trivial d (.only .wake)
      (h₂.discovered hd)
    exact wp_mono hrel (fun _ _ hs => hg₂.trans (hs.1.entitled rfl))
      (fun _ _ hs => hg₂.trans (hs.entitled rfl))

theorem Call.run_entitled (c : Call H) (σ : Power H) : Logs c.Entitled σ (c.run A σ) := by
  cases c with
  | register handle =>
    cases handle with
    | none => exact Logs.refl σ
    | some h => exact (acpiPowerRegister_growing A h σ).notOff.entitled _
  | deregister handle =>
    cases handle with
    | none => exact Logs.refl σ
    | some h => exact acpiPowerDeregister_entitled A h σ
  | get handle =>
    cases handle with
    | none => exact Logs.refl σ
    | some h => exact (acpiPowerGet_growing A h σ).notOff.entitled _
  | setFlags handle state flags =>
    cases handle with
    | none => exact Logs.refl σ
    | some h => exact acpiPowerSetFlags_entitled A h state flags σ
  | res handle device on =>
    cases handle with
    | none => exact Logs.refl σ
    | some r =>
      cases device with
      | none => exact Logs.refl σ
      | some d => exact acpiPowerRes_entitled A r d on σ

theorem event_of_run {moves : List (Move H)} {σ₀ σ : Power H}
    (hrun : exec (Move.step A) σ₀ moves = some σ) {e : Event H} (he : e ∈ σ.log) :
    e ∈ σ₀.log ∨ ∃ before c after τ new, moves = before ++ .call c :: after ∧
      exec (Move.step A) σ₀ before = some τ ∧ (c.run A τ).log = τ.log ++ new ∧ e ∈ new ∧
      c.Entitled e := by
  induction moves generalizing σ₀ with
  | nil =>
    obtain rfl : σ₀ = σ := Option.some.inj hrun
    exact .inl he
  | cons move moves ih =>
    obtain ⟨τ,hτ,hrest⟩ := exec_cons_eq_some.mp hrun
    rcases ih hrest with hold | ⟨before,c,after,ρ,new,rfl,hρ,hnew⟩
    · cases move with
      | adState h v =>
        obtain rfl : σ₀.setAdState h v = τ := Option.some.inj hτ
        exact .inl hold
      | call c =>
        obtain rfl : c.run A σ₀ = τ := Option.some.inj hτ
        obtain ⟨new,hl,hent⟩ := c.run_entitled A σ₀
        rw [hl] at hold
        rcases List.mem_append.mp hold with hold | hmem
        · exact .inl hold
        · exact .inr ⟨[],c,moves,σ₀,new,rfl,rfl,hl,hmem,hent e hmem⟩
    · refine .inr ⟨move :: before,c,after,ρ,new,rfl,?_,hnew⟩
      exact exec_cons_eq_some.mpr ⟨τ,hτ,hρ⟩

/-- When `_OFF` is evaluated, discovery is complete and the running call releases every recorded
hold of the resource. -/
theorem off_by_last_holder {adState : H → ℤ} {moves : List (Move H)} {σ : Power H}
    (hrun : exec (Move.step A) (Power.boot adState) moves = some σ) {r : H}
    {answer : Except Status Unit} {held : List (Ref H)} {discovered : Bool}
    (hoff : .method r .OFF answer held discovered ∈ σ.log) :
    ∃ before c after τ new d u, moves = before ++ .call c :: after ∧
      exec (Move.step A) (Power.boot adState) before = some τ ∧
      (c.run A τ).log = τ.log ++ new ∧ .method r .OFF answer held discovered ∈ new ∧
      c.releases = some (d,u) ∧ discovered = true ∧
      ∀ ref ∈ held, ref.device = d ∧ ref.uses.diff u = .none := by
  rcases event_of_run A hrun hoff with hnil | ⟨before,c,after,τ,new,hmoves,hτ,hl,hmem,hent⟩
  · cases hnil
  rcases hent with hnot | ⟨d,u,hrel,hdis,hheld⟩
  · exact hnot.elim
  · exact ⟨before,c,after,τ,new,d,u,hmoves,hτ,hl,hmem,hrel,hdis,hheld⟩

end Calls

/-- Device 2 gives the shared resource up first, then device 1 switches it off. -/
def partingMoves : List (Move ℕ) :=
  [.call (.setFlags (some 2) 4 0),.call (.setFlags (some 1) 4 0)]

def partingRun : Power ℕ :=
  Call.run calmBoard.aml (Call.run calmBoard.aml (Power.boot fun _ => 0) (.setFlags (some 2) 4 0))
    (.setFlags (some 1) 4 0)

theorem off_by_last_holder_parting :
    ∃ before c after τ new d u, partingMoves = before ++ .call c :: after ∧
      exec (Move.step calmBoard.aml) (Power.boot fun _ => 0) before = some τ ∧
      (c.run calmBoard.aml τ).log = τ.log ++ new ∧
      .method 10 .OFF (.ok ()) [⟨1,.only .state⟩] true ∈ new ∧
      c.releases = some (d,u) ∧ true = true ∧
      ∀ ref ∈ [(⟨1,.only .state⟩ : Ref ℕ)], ref.device = d ∧ ref.uses.diff u = .none := by
  have hrun : exec (Move.step calmBoard.aml) (Power.boot fun _ => 0) partingMoves = some partingRun := rfl
  have hoff : .method 10 .OFF (.ok ()) [⟨1,.only .state⟩] true ∈ partingRun.log := by
    decide +kernel
  exact off_by_last_holder calmBoard.aml hrun hoff

end NanoBSD.AcpiPower
