import NanoBSD.Lib.Tally
import NanoBSD.Hdaudio.Runtime

/-! # The hardware is accessed in D0 only

Three things put the PCI function in D3: the worker, which then sets `sc_rt_suspended`, the
PCI bus, and the first half of the power cycle at resume. As long as the runtime and the
system path keep apart, whoever sends a verb knows that none of the three holds.
-/
namespace NanoBSD.Hdaudio
variable {κ : Type} {p pmf : Pmf} {r : Waker κ} {c : κ}

def Pmf.Needs : Pmf → Prop
  | .fgSuspending | .resuming | .marking | .fgResuming => True
  | _ => False

theorem Pmf.needs_of_accesses (h : p.accesses = true) : p.Needs := by
  cases p <;> trivial

structure Inv (s : State κ) : Prop where
  users : Tally s.client (· = .holding) s.rtUsers
  unused : s.rtSuspended = true → s.rtUsers = 0
  asleep : s.d3 = true → s.rtSuspended = true ∨ s.pmf = .down ∨ s.pmf = .pausing
  locked : ∀ c, s.lock = some c → c.accesses = true → s.d3 = false
  working : s.lock = some .suspending → s.pmf.Clear ∧ s.rtSuspended = false ∧ s.rtUsers = 0
  waking : ∀ c, s.lock = some (.resuming (.use c)) ∨ s.lock = some (.reviving (.use c)) →
    s.client c ≠ .holding
  reviving : ∀ r, s.lock = some (.reviving r) → s.rtSuspended = false
  cycling : ∀ b, s.lock = some (.cycling b) → s.pmf = .cycle
  needed : s.pmf.Needs → s.d3 = false
  sound : s.fault = false

theorem attached_inv : Inv (attached : State κ) := by
  refine ⟨Tally.of_forall_not (by simp [attached]),?_,?_,?_,?_,?_,?_,?_,?_,rfl⟩ <;> simp [attached]

variable {s t : State κ} {e : Event κ}

section
variable (h : Inv s)
include h

theorem Inv.access (hd3 : s.d3 = false) : Inv s.access :=
  ⟨h.users,h.unused,h.asleep,h.locked,h.working,h.waking,h.reviving,h.cycling,h.needed,
    by simp [State.access,hd3,h.sound]⟩

theorem Inv.timer (armed queued : Bool) : Inv { s with armed, queued } :=
  ⟨h.users,h.unused,h.asleep,h.locked,h.working,h.waking,h.reviving,h.cycling,h.needed,h.sound⟩

theorem Inv.move (hdown : s.pmf ≠ .down) (hpause : s.pmf ≠ .pausing)
    (hcycle : ∀ b, s.lock ≠ some (.cycling b)) (hclear : s.lock = some .suspending → pmf.Clear)
    (hneeds : pmf.Needs → s.d3 = false) : Inv { s with pmf } := by
  refine ⟨h.users,h.unused,?_,h.locked,?_,h.waking,h.reviving,?_,hneeds,h.sound⟩
  · intro hd3
    rcases h.asleep hd3 with hs | hs | hs
    · exact .inl hs
    · exact absurd hs hdown
    · exact absurd hs hpause
  · exact fun hl => ⟨hclear hl,(h.working hl).2⟩
  · exact fun b hb => absurd hb (hcycle b)

theorem Inv.unlock (armed : Bool) : Inv { s with armed, lock := none } := by
  refine ⟨h.users,h.unused,h.asleep,?_,?_,?_,?_,?_,h.needed,h.sound⟩ <;> simp

theorem Inv.powerUp (hr : ∀ c, r = .use c → s.client c ≠ .holding) : Inv (s.powerUp r) := by
  refine ⟨h.users,h.unused,by simp [State.powerUp],fun _ _ _ => rfl,by simp [State.powerUp],?_,
    by simp [State.powerUp],by simp [State.powerUp],fun _ => rfl,h.sound⟩
  intro c hc
  apply hr c
  simpa [State.powerUp] using hc

theorem Inv.resumed (hl : s.lock = some (.resuming r)) :
    Inv { s with rtSuspended := false, lock := some (.reviving r) } := by
  have hd3 := h.locked _ hl rfl
  refine ⟨h.users,by simp,by simp [hd3],fun _ _ _ => hd3,by simp,?_,fun _ _ => rfl,by simp,
    h.needed,h.sound⟩
  intro c hc
  apply h.waking c
  rw [hl]
  simpa using hc

theorem Inv.unsuspended (hup : s.rtSuspended = false) (hdown : s.pmf ≠ .down)
    (hpause : s.pmf ≠ .pausing) : s.d3 = false := by
  by_contra hd3
  rcases h.asleep (by simpa using hd3) with hs | hs | hs
  · cases hup.symm.trans hs
  · exact hdown hs
  · exact hpause hs

theorem Inv.work (husers : s.rtUsers = 0) (hup : s.rtSuspended = false)
    (hclear : s.pmf.Clear) (queued : Bool) :
    Inv { s with queued, lock := some .suspending } := by
  refine ⟨h.users,h.unused,h.asleep,?_,fun _ => ⟨hclear,hup,husers⟩,by simp,by simp,by simp,
    h.needed,h.sound⟩
  intro _ _ _
  exact h.unsuspended hup (fun hs => by rw [hs] at hclear; exact hclear)
    fun hs => by rw [hs] at hclear; exact hclear

end

theorem Pmf.Clear.not_needs (h : p.Clear) : ¬p.Needs := by
  cases p <;> first | exact h.elim | exact id

section
variable (h : Inv s)
include h

theorem Inv.suspended (hl : s.lock = some .suspending) :
    Inv { s with d3 := true, rtSuspended := true, lock := none } := by
  obtain ⟨hclear,_,husers⟩ := h.working hl
  exact ⟨h.users,fun _ => husers,fun _ => .inl rfl,by simp,by simp,by simp,by simp,by simp,
    fun hneeds => absurd hneeds hclear.not_needs,h.sound⟩

theorem Inv.restoring (hl : s.lock = some .suspending) :
    Inv { s with lock := some .restoring } :=
  ⟨h.users,h.unused,h.asleep,fun _ _ _ => h.locked _ hl rfl,by simp,by simp,by simp,by simp,
    h.needed,h.sound⟩

theorem Inv.powerOff (hpmf : pmf = .down ∨ pmf = .pausing) :
    Inv { s with d3 := true, lock := none, pmf } := by
  refine ⟨h.users,h.unused,fun _ => .inr hpmf,by simp,by simp,by simp,by simp,by simp,?_,h.sound⟩
  rcases hpmf with rfl | rfl <;> exact fun hneeds => hneeds.elim

theorem Inv.powerOn (hworking : s.lock ≠ some .suspending)
    (hcycle : ∀ b, s.lock ≠ some (.cycling b)) : Inv { s with d3 := false, pmf } :=
  ⟨h.users,h.unused,by simp,fun _ _ _ => rfl,fun hl => absurd hl hworking,h.waking,h.reviving,
    fun b hb => absurd hb (hcycle b),fun _ => rfl,h.sound⟩

theorem Inv.cycleOn :
    Inv { s with d3 := false, lock := some (.cycling true), pmf := .cycle } :=
  ⟨h.users,h.unused,by simp,fun _ _ _ => rfl,by simp,by simp,by simp,fun _ _ => rfl,fun _ => rfl,
    h.sound⟩

theorem Inv.cycleBegin (hpmf : s.pmf = .cycle) :
    Inv { s with armed := false, lock := some (.cycling false) } := by
  refine ⟨h.users,h.unused,h.asleep,?_,by simp,by simp,by simp,fun _ _ => hpmf,h.needed,h.sound⟩
  rintro _ ⟨⟩ hacc
  cases hacc

theorem Inv.cycleEnd (hl : s.lock = some (.cycling true)) :
    Inv { s with lock := none, pmf := .marking } := by
  have hd3 := h.locked _ hl rfl
  exact ⟨h.users,h.unused,by simp [hd3],by simp,by simp,by simp,by simp,by simp,fun _ => hd3,
    h.sound⟩

theorem Inv.pmfResumed (hpmf : s.pmf = .marking) (hl : s.lock = none) (armed : Bool) :
    Inv { s with rtSuspended := false, armed, pmf := .fgResuming } := by
  have hd3 : s.d3 = false := h.needed (by rw [hpmf]; trivial)
  exact ⟨h.users,by simp,by simp [hd3],by simp [hl],by simp [hl],by simp [hl],fun _ _ => rfl,
    by simp [hl],fun _ => hd3,h.sound⟩

theorem Inv.client_awake (hc : s.client c = .holding) (hdown : s.pmf ≠ .down)
    (hpause : s.pmf ≠ .pausing) : s.d3 = false := by
  by_contra hd3
  rcases h.asleep (by simpa using hd3) with hs | hs | hs
  · exact h.users.not_zero hc (h.unused hs)
  · exact hdown hs
  · exact hpause hs

theorem Inv.not_cycling (hpmf : s.pmf ≠ .cycle) (b : Bool) :
    s.lock ≠ some (.cycling b) := fun hb => hpmf (h.cycling b hb)

theorem Inv.not_working (hpmf : ¬s.pmf.Clear) : s.lock ≠ some .suspending :=
  fun hl => hpmf (h.working hl).1

theorem Inv.fgSuspend (hpmf : s.pmf = .up ∨ s.pmf = .suspending) (hl : s.lock = none) :
    Inv { s with pmf := if s.rtSuspended then .suspending else .fgSuspending } := by
  have hdown : s.pmf ≠ .down := by rcases hpmf with hp | hp <;> simp [hp]
  have hpause : s.pmf ≠ .pausing := by rcases hpmf with hp | hp <;> simp [hp]
  refine h.move hdown hpause (by simp [hl]) (by simp [hl]) fun hneeds => ?_
  split at hneeds
  · exact hneeds.elim
  · rename_i hup
    exact h.unsuspended (by simpa using hup) hdown hpause

end

variable [DecidableEq κ]

theorem Inv.hold (h : Inv s) (hc : s.client c ≠ .holding) (hup : s.rtSuspended = false) :
    Inv (s.hold c) := by
  refine ⟨h.users.join rfl hc,by simp [State.hold,hup],h.asleep,?_,?_,?_,?_,?_,h.needed,h.sound⟩ <;>
    simp [State.hold]

theorem Inv.drop (h : Inv s) {as : Client} {arm : Bool} (hl : s.lock = none)
    (hc : s.client c = .holding) (has : as ≠ .holding) : Inv (s.drop c as arm) := by
  have hlock : (s.drop c as arm).lock = none := hl
  refine ⟨h.users.quit has hc,?_,h.asleep,?_,?_,?_,?_,?_,h.needed,h.sound⟩
  · intro hs
    have hzero := h.unused hs
    simp [State.drop,hzero]
  all_goals simp [hlock]

theorem Inv.closeParked (h : Inv s) (hc : s.client c = .parked) :
    Inv { s with client := Function.update s.client c .out } := by
  refine ⟨h.users.keep (by simp [hc]),h.unused,h.asleep,h.locked,h.working,?_,h.reviving,
    h.cycling,h.needed,h.sound⟩
  intro d hd
  by_cases hdc : d = c
  · subst hdc
    simp
  · simpa [hdc] using h.waking d hd

theorem Inv.step (h : Inv s) (hapart : Apart s e) (hstep : Hdaudio.step s e = some t) : Inv t := by
  cases e with
  | use c =>
    obtain ⟨⟨hl,hc⟩,rfl⟩ := of_guard hstep
    split
    · exact h.powerUp fun d hd => by cases hd; exact hc
    · rename_i hup
      exact h.hold hc (by simpa using hup)
  | resumed ok =>
    unfold Hdaudio.step at hstep
    dsimp only at hstep
    split at hstep
    · rename_i r hl
      cases hstep
      split
      · exact h.resumed hl
      · exact h.unlock s.armed
    · cases hstep
  | revived =>
    unfold Hdaudio.step at hstep
    dsimp only at hstep
    split at hstep
    · rename_i c hl
      cases hstep
      exact h.hold (h.waking c (.inr hl)) (h.reviving _ hl)
    · cases hstep
      exact h.unlock s.armed
    · cases hstep
  | release c arm | idleSleep c arm =>
    obtain ⟨⟨hl,hc⟩,rfl⟩ := of_guard hstep
    exact h.drop hl hc (by simp)
  | closeParked c =>
    obtain ⟨hc,rfl⟩ := of_guard hstep
    exact h.closeParked hc
  | powerSave on =>
    obtain ⟨_,rfl⟩ := of_guard hstep
    split
    · exact h.timer _ s.queued
    · split
      · exact (h.timer false s.queued).powerUp nofun
      · exact h.timer false s.queued
  | timeout =>
    obtain ⟨_,rfl⟩ := of_guard hstep
    exact h.timer false true
  | work on due =>
    obtain ⟨_,rfl⟩ := of_guard hstep
    split
    · rename_i hidle
      split
      · rename_i hdue
        exact h.work hidle.1 hidle.2.1 (hapart hidle.1 hidle.2.1 hidle.2.2 hdue) false
      · exact h.timer true false
    · exact h.timer s.armed false
  | suspended ok =>
    obtain ⟨hl,rfl⟩ := of_guard hstep
    split
    · exact h.suspended hl
    · exact h.restoring hl
  | restored =>
    obtain ⟨_,rfl⟩ := of_guard hstep
    exact h.unlock true
  | fgSuspend =>
    obtain ⟨hpmf,rfl⟩ := of_guard hstep
    exact h.fgSuspend hpmf hapart
  | fgSuspended | fgResumed =>
    obtain ⟨hpmf,rfl⟩ := of_guard hstep
    exact h.move (by simp [hpmf]) (by simp [hpmf]) (h.not_cycling (by simp [hpmf]))
      (fun _ => trivial) fun hneeds => hneeds.elim
  | ctlSuspend =>
    obtain ⟨hpmf,rfl⟩ := of_guard hstep
    refine h.move ?_ ?_ (h.not_cycling ?_) (fun _ => trivial) fun hneeds => hneeds.elim
    all_goals rcases hpmf with hp | hp <;> simp [hp]
  | busD3 =>
    obtain ⟨_,rfl⟩ := of_guard hstep
    have hoff := h.powerOff (.inl rfl)
    have hl : s.lock = none := hapart
    rw [← hl] at hoff
    exact hoff
  | busD0 =>
    obtain ⟨hpmf,rfl⟩ := of_guard hstep
    exact h.powerOn (h.not_working (by rw [hpmf]; exact id)) (h.not_cycling (by simp [hpmf]))
  | ctlResumed ok =>
    obtain ⟨hpmf,rfl⟩ := of_guard hstep
    have hd3 : s.d3 = false := h.needed (by rw [hpmf]; trivial)
    exact h.move (by simp [hpmf]) (by simp [hpmf]) (h.not_cycling (by simp [hpmf]))
      (fun hl => absurd hl (h.not_working (by rw [hpmf]; exact id))) fun _ => hd3
  | cycleBegin =>
    obtain ⟨⟨hpmf,_⟩,rfl⟩ := of_guard hstep
    exact h.cycleBegin hpmf
  | cycleOff ok =>
    obtain ⟨hl,rfl⟩ := of_guard hstep
    split
    · exact h.powerOff (.inr rfl)
    · have hon := h.cycleOn
      rw [← h.cycling _ hl] at hon
      exact hon
  | cycleOn =>
    obtain ⟨_,rfl⟩ := of_guard hstep
    exact h.cycleOn
  | cycleEnd =>
    obtain ⟨hl,rfl⟩ := of_guard hstep
    exact h.cycleEnd hl
  | pmfResumed arm =>
    obtain ⟨⟨hpmf,hl⟩,rfl⟩ := of_guard hstep
    exact h.pmfResumed hpmf hl _
  | fgResume =>
    obtain ⟨hpmf,rfl⟩ := of_guard hstep
    obtain ⟨hl,hup⟩ := hapart
    exact h.move (by simp [hpmf]) (by simp [hpmf]) (by simp [hl]) (by simp [hl])
      fun _ => h.unsuspended hup (by simp [hpmf]) (by simp [hpmf])
  | clientAccess c =>
    obtain ⟨hc,rfl⟩ := of_guard hstep
    exact h.access (h.client_awake hc hapart.1 hapart.2)
  | lockAccess =>
    obtain ⟨hl,rfl⟩ := of_guard hstep
    obtain ⟨c,hc,hacc⟩ := (Option.any_eq_true _ _).mp hl
    exact h.access (h.locked c hc hacc)
  | pmfAccess =>
    obtain ⟨hpmf,rfl⟩ := of_guard hstep
    exact h.access (h.needed (Pmf.needs_of_accesses hpmf))

theorem accessed_awake {es : List (Event κ)} (hrun : exec step attached es = some s)
    (hapart : Along step Apart attached es) : s.fault = false :=
  (exec_invariant_along Inv (fun _ _ _ h ha hstep => h.step ha hstep) attached_inv hapart hrun).sound

/-- A runtime suspend, a use that wakes the controller, an idle stop, and a system suspend and
resume with a runtime suspend in between. -/
def bothPaths : List (Event Unit) :=
  [.use (),.clientAccess (),.idleSleep () true,.timeout,.work true true,.lockAccess,.suspended true,
   .use (),.lockAccess,.resumed true,.lockAccess,.revived,.clientAccess (),.release () true,
   .timeout,.work true true,.suspended true,.fgSuspend,.ctlSuspend,.busD3,.busD0,.pmfAccess,
   .ctlResumed true,.cycleBegin,.cycleOff true,.cycleOn,.lockAccess,.cycleEnd,.pmfResumed true,
   .pmfAccess,.fgResumed]

theorem accessed_awake_bothPaths : ∃ s, exec step attached bothPaths = some s ∧
    Along step Apart attached bothPaths ∧ s.fault = false := by
  obtain ⟨s,hrun⟩ := Option.isSome_iff_exists.mp
    (show (exec step attached bothPaths).isSome = true by decide +kernel)
  have hapart : Along step Apart attached bothPaths := by decide +kernel
  exact ⟨s,hrun,hapart,accessed_awake hrun hapart⟩

/-- What the holder of `sc_rt_lock` relies on, whatever the system path does. -/
def State.Due (s : State κ) : Option (Section κ) → Prop
  | some .suspending => s.rtUsers = 0
  | some (.resuming (.use c)) => s.client c ≠ .holding
  | some (.reviving (.use c)) => s.client c ≠ .holding ∧ s.rtSuspended = false
  | _ => True

structure Held (s : State κ) : Prop where
  users : Tally s.client (· = .holding) s.rtUsers
  unused : s.rtSuspended = true → s.rtUsers = 0
  due : s.Due s.lock

theorem Held.hold (h : Held s) (hc : s.client c ≠ .holding) (hup : s.rtSuspended = false) :
    Held (s.hold c) :=
  ⟨h.users.join rfl hc,fun hs => absurd (hup.symm.trans hs) nofun,trivial⟩

theorem Held.step (h : Held s) (hstep : Hdaudio.step s e = some t) : Held t := by
  have hdue := h.due
  cases e with
  | use c =>
    obtain ⟨⟨_,hc⟩,rfl⟩ := of_guard hstep
    split_ifs with hs
    · exact ⟨h.users,h.unused,hc⟩
    · exact h.hold hc (Bool.eq_false_iff.mpr hs)
  | resumed ok =>
    unfold Hdaudio.step at hstep
    dsimp only at hstep
    split at hstep <;> cases hstep
    rename_i r hl
    rw [hl] at hdue
    split_ifs
    · cases r with
      | use c => exact ⟨h.users,nofun,hdue,rfl⟩
      | sysctl => exact ⟨h.users,nofun,trivial⟩
    · exact ⟨h.users,h.unused,trivial⟩
  | revived =>
    unfold Hdaudio.step at hstep
    dsimp only at hstep
    split at hstep <;> cases hstep
    · rename_i c hl
      rw [hl] at hdue
      exact h.hold hdue.1 hdue.2
    · exact ⟨h.users,h.unused,trivial⟩
  | release c arm | idleSleep c arm =>
    obtain ⟨⟨hl,hc⟩,rfl⟩ := of_guard hstep
    exact ⟨h.users.quit (by simp) hc,fun hs => absurd (h.unused hs) (h.users.not_zero hc),
      by simp [State.drop,State.Due,hl]⟩
  | closeParked c =>
    obtain ⟨hc,rfl⟩ := of_guard hstep
    refine ⟨h.users.keep (by simp [hc]),h.unused,?_⟩
    unfold State.Due at hdue ⊢
    dsimp only
    split <;> grind
  | suspended ok =>
    obtain ⟨hl,rfl⟩ := of_guard hstep
    rw [hl] at hdue
    split_ifs
    · exact ⟨h.users,fun _ => hdue,trivial⟩
    · exact ⟨h.users,h.unused,trivial⟩
  | work on due =>
    obtain ⟨_,rfl⟩ := of_guard hstep
    split_ifs with hidle
    · exact ⟨h.users,h.unused,hidle.1⟩
    all_goals exact ⟨h.users,h.unused,hdue⟩
  | pmfResumed arm =>
    obtain ⟨⟨_,hl⟩,rfl⟩ := of_guard hstep
    exact ⟨h.users,nofun,by simp [State.Due,hl]⟩
  | _ =>
    -- the lock stays, or changes hands with nothing to rely on
    obtain ⟨_,rfl⟩ := of_guard hstep
    try split_ifs
    all_goals first
      | exact ⟨h.users,h.unused,hdue⟩
      | exact ⟨h.users,h.unused,trivial⟩

/-- However the two paths interleave the uses are counted, and while a client uses the controller it
is not runtime suspended. -/
theorem used_not_suspended {es : List (Event κ)} (hrun : exec step attached es = some s) :
    {c | s.client c = .holding}.encard = s.rtUsers ∧
      ∀ c, s.client c = .holding → s.rtSuspended = false := by
  have h : Held s := exec_invariant Held (fun _ _ _ h => h.step)
    ⟨attached_inv.users,nofun,trivial⟩ hrun
  refine ⟨h.users,fun c hc => Bool.eq_false_iff.mpr fun hs => ?_⟩
  exact h.users.not_zero hc (h.unused hs)

theorem used_not_suspended_bothPaths : ∃ s, exec step attached bothPaths = some s ∧
    {c | s.client c = .holding}.encard = s.rtUsers ∧
      ∀ c, s.client c = .holding → s.rtSuspended = false := by
  obtain ⟨s,hrun⟩ := Option.isSome_iff_exists.mp
    (show (exec step attached bothPaths).isSome = true by decide +kernel)
  exact ⟨s,hrun,used_not_suspended hrun⟩

def idle : List (Event Unit) := [.use (),.release () true]

/-- Accesses in D3: the idle timer fires after the bus; a function group reads the flag while the
worker is at it; function groups are resumed without the controller; a user comes after the bus, or
within the resume's power cycle. -/
def hazards : List (List (Event Unit)) :=
  [idle ++ [.fgSuspend,.fgSuspended,.ctlSuspend,.busD3,.timeout,.work true true,.lockAccess],
   idle ++ [.timeout,.work true true,.fgSuspend,.suspended true,.pmfAccess],
   idle ++ [.timeout,.work true true,.suspended true,.fgSuspend,.fgResume,.pmfAccess],
   [.fgSuspend,.fgSuspended,.ctlSuspend,.busD3,.use (),.clientAccess ()],
   [.fgSuspend,.fgSuspended,.ctlSuspend,.busD3,.busD0,.ctlResumed true,.cycleBegin,.cycleOff true,
    .use (),.clientAccess ()]]

theorem accessed_asleep : hazards ≠ [] ∧
    ∀ es ∈ hazards, ∃ s, exec step attached es = some s ∧ s.fault = true := by
  decide +kernel

end NanoBSD.Hdaudio
