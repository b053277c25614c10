import Mathlib.Data.Int.Notation
import NanoBSD.Lib.Run

/-! # The wake latch of the freeze

A lid or button handler that calls `acpi_freeze_wakeup` looks at `acpi_freeze_active` and
then sets `acpi_freeze_wake`. The s2idle thread sets both flags itself some time after the
request was accepted, so an event that is looked at in between leaves no trace. Everything
handled once the latch is armed ends the hold.
-/
namespace NanoBSD.S2idle.Wake
open Function

/-- Where the s2idle thread is: in `acpi_freeze_thread` and, from `entering` to `resuming`,
in `acpi_enter_freeze`. -/
inductive Pc
  | waiting
  | taken
  | testing
  | entering
  | clearing
  | arming
  | preparing
  | aborting
  | holding (elapsed : ℕ)
  | ending
  | resuming
  | finishing
  deriving DecidableEq, Repr

inductive Caller
  | lidOpen | button | sysctl
  deriving DecidableEq, Repr

/-- The flags, the thread and the handlers `ι` that have seen `acpi_freeze_active` and not yet set
`acpi_freeze_wake`. The last three fields look back: a freeze still holds, and since it was accepted
a wake event was handled, or a press reported. -/
structure State (ι : Type) where
  req : Bool
  busy : Bool
  mode : ℤ
  active : Bool
  wake : Bool
  pc : Pc
  latching : ι → Bool
  accepted : Bool
  handled : Bool
  reported : Bool

inductive Event (ι : Type)
  /-- `acpi_freeze_mode` is written by either of the two sysctls. -/
  | setMode (mode : ℤ)
  /-- `sysctl_hw_acpi_freeze` accepts a request; `sysctl_hw_acpi_s0freeze` makes one. -/
  | request
  | requestTest
  | take
  | readMode
  | tested
  | enter (s0 : Bool)
  | clear
  | arm
  | prepared (ok : Bool)
  | abort
  | hold (timeout : ℤ)
  | disarm
  | resumed
  | finish
  | wakeup (i : ι) (caller : Caller)
  | latch (i : ι)

variable {ι : Type}

def boot : State ι where
  req := false
  busy := false
  mode := 0
  active := false
  wake := false
  pc := .waiting
  latching := fun _ => false
  accepted := false
  handled := false
  reported := false

/-- The test of `acpi_freeze_wakeup` and what its caller does with a `false`. -/
def State.wakeup [DecidableEq ι] (s : State ι) (i : ι) (caller : Caller) : State ι :=
  { s with
    latching := update s.latching i s.active
    handled := s.handled || decide (caller ≠ .sysctl)
    reported := s.reported || (decide (caller = .button) && !s.active) }

def step [DecidableEq ι] (s : State ι) : Event ι → Option (State ι)
  | .setMode mode => some { s with mode }
  | .request =>
    if s.busy ∨ s.req then none
    else some { s with
      req := true, busy := true, accepted := true, handled := false, reported := false }
  | .requestTest => some { s with req := true }
  | .take =>
    if s.pc = .waiting ∧ s.req then some { s with req := false, busy := true, pc := .taken }
    else none
  | .readMode =>
    if s.pc = .taken then some { s with pc := if s.mode ≠ 0 then .testing else .entering } else none
  | .tested => if s.pc = .testing then some { s with pc := .finishing } else none
  | .enter s0 =>
    if s.pc = .entering then some { s with pc := if s0 then .clearing else .finishing } else none
  | .clear => if s.pc = .clearing then some { s with wake := false, pc := .arming } else none
  | .arm => if s.pc = .arming then some { s with active := true, pc := .preparing } else none
  | .prepared ok =>
    if s.pc = .preparing then some { s with pc := if ok then .holding 0 else .aborting } else none
  | .abort =>
    if s.pc = .aborting then some { s with active := false, accepted := false, pc := .resuming }
    else none
  | .hold timeout =>
    match s.pc with
    | .holding elapsed =>
      if s.wake = false ∧ (timeout ≤ 0 ∨ (elapsed : ℤ) < timeout) then
        some { s with pc := .holding (elapsed + 1) }
      else some { s with accepted := false, pc := .ending }
    | _ => none
  | .disarm => if s.pc = .ending then some { s with active := false, pc := .resuming } else none
  | .resumed => if s.pc = .resuming then some { s with pc := .finishing } else none
  | .finish =>
    if s.pc = .finishing then some { s with busy := false, accepted := false, pc := .waiting }
    else none
  | .wakeup i caller => if s.latching i then none else some (s.wakeup i caller)
  | .latch i =>
    if s.latching i then some { s with wake := true, latching := update s.latching i false }
    else none

def Pc.Armed : Pc → Prop
  | .preparing | .aborting | .holding _ | .ending => True
  | _ => False

/-- Once a lid-open or button press was handled, the latch is set or about to be, and no press was
reported. -/
def Latched (s : State ι) : Prop :=
  s.accepted = true →
    (s.handled = true → s.wake = true ∨ ∃ i, s.latching i = true) ∧ s.reported = false

def State.inProgress (s : State ι) : Bool := s.busy || s.active

/-- A lid-open or a button press that comes between the acceptance of a freeze and its end
finds the latch armed. -/
def Timely (s : State ι) : Event ι → Prop
  | .wakeup _ caller => caller ≠ .sysctl → s.accepted = true → s.active = true
  | _ => True

structure Inv (s : State ι) : Prop where
  armed : s.active = true ↔ s.pc.Armed
  running : s.pc ≠ .waiting → s.busy = true
  ended : s.pc = .ending → s.accepted = false
  progress : s.accepted = true → s.inProgress = true
  handled : s.accepted = true → s.handled = true → s.active = true
  latched : Latched s

theorem boot_inv : Inv (boot : State ι) := by
  constructor <;> simp [boot,Pc.Armed,Latched]

variable {s t : State ι} {e : Event ι}

theorem latched_of_unaccepted (h : s.accepted = false) : Latched s := by
  intro ha
  rw [h] at ha
  cases ha

theorem Inv.move (h : Inv s) {pc : Pc} (hrun : s.pc ≠ .waiting) (harmed : pc.Armed ↔ s.pc.Armed)
    (hend : pc ≠ .ending) : Inv { s with pc } :=
  ⟨h.armed.trans harmed.symm,fun _ => h.running hrun,fun he => absurd he hend,h.progress,h.handled,
    h.latched⟩

theorem Inv.clear (h : Inv s) (hpc : s.pc = .clearing) :
    Inv { s with wake := false, pc := .arming } := by
  have hidle : s.active = false := by
    have harmed := h.armed
    rw [hpc] at harmed
    simpa [Pc.Armed] using harmed
  refine ⟨?_,fun _ => h.running (by rw [hpc]; simp),by simp,h.progress,h.handled,?_⟩
  · simp [hidle,Pc.Armed]
  · intro ha
    refine ⟨fun hhandled => ?_,(h.latched ha).2⟩
    have hactive := h.handled ha hhandled
    rw [hidle] at hactive
    cases hactive

theorem Inv.arm (h : Inv s) (hpc : s.pc = .arming) :
    Inv { s with active := true, pc := .preparing } := by
  refine ⟨?_,fun _ => h.running (by rw [hpc]; simp),by simp,?_,fun _ _ => rfl,h.latched⟩
  · simp [Pc.Armed]
  · simp [State.inProgress]

theorem inv_of_left {accepted active busy : Bool} {pc : Pc} (hacc : accepted = false)
    (harmed : active = true ↔ pc.Armed) (hbusy : pc ≠ .waiting → busy = true) :
    Inv { s with active, busy, accepted, pc } := by
  subst hacc
  exact ⟨harmed,hbusy,fun _ => rfl,nofun,nofun,latched_of_unaccepted rfl⟩

theorem Inv.request (h : Inv s) (hfree : ¬(s.busy = true ∨ s.req = true)) : Inv { s with
    req := true, busy := true, accepted := true, handled := false, reported := false } := by
  have hwait : s.pc = .waiting := by
    by_contra hrun
    exact hfree (.inl (h.running hrun))
  refine ⟨h.armed,fun _ => rfl,?_,fun _ => rfl,nofun,?_⟩
  · intro he
    rw [hwait] at he
    cases he
  · exact fun _ => ⟨nofun,rfl⟩

variable [DecidableEq ι]

theorem Inv.wakeup (h : Inv s) {i : ι} {caller : Caller}
    (htimely : Timely s (.wakeup i caller)) : Inv (s.wakeup i caller) := by
  refine ⟨h.armed,h.running,h.ended,h.progress,?_,?_⟩
  · intro ha hhandled
    simp only [State.wakeup,Bool.or_eq_true,decide_eq_true_eq] at hhandled
    exact hhandled.elim (h.handled ha) fun hc => htimely hc ha
  · intro ha
    obtain ⟨hold,hrep⟩ := h.latched ha
    by_cases hc : caller = .sysctl
    · -- A sysctl that finds the latch unarmed changes nothing.
      refine ⟨fun hhandled => ?_,by simpa [State.wakeup,hc] using hrep⟩
      have hhandled' : s.handled = true := by simpa [State.wakeup,hc] using hhandled
      exact .inr ⟨i,by simpa [State.wakeup] using h.handled ha hhandled'⟩
    · have hactive := htimely hc ha
      exact ⟨fun _ => .inr ⟨i,by simpa [State.wakeup] using hactive⟩,
        by simp [State.wakeup,hactive,hrep]⟩

theorem Inv.latch (h : Inv s) (i : ι) :
    Inv { s with wake := true, latching := update s.latching i false } :=
  ⟨h.armed,h.running,h.ended,h.progress,h.handled,fun ha => ⟨fun _ => .inl rfl,(h.latched ha).2⟩⟩

theorem Inv.step (h : Inv s) (htimely : Timely s e) (hstep : Wake.step s e = some t) : Inv t := by
  cases e with
  | setMode mode | requestTest =>
    cases hstep
    exact ⟨h.armed,h.running,h.ended,h.progress,h.handled,h.latched⟩
  | request =>
    obtain ⟨hfree,rfl⟩ := of_unless hstep
    exact h.request hfree
  | take =>
    obtain ⟨⟨hpc,_⟩,rfl⟩ := of_guard hstep
    refine ⟨?_,fun _ => rfl,by simp,fun _ => rfl,h.handled,h.latched⟩
    rw [h.armed,hpc]
    exact Iff.rfl
  | readMode | enter | prepared =>
    obtain ⟨hpc,rfl⟩ := of_guard hstep
    split <;> exact h.move (by rw [hpc]; simp) (by rw [hpc]; exact Iff.rfl) (by simp)
  | tested | resumed =>
    obtain ⟨hpc,rfl⟩ := of_guard hstep
    exact h.move (by rw [hpc]; simp) (by rw [hpc]; exact Iff.rfl) (by simp)
  | clear =>
    obtain ⟨hpc,rfl⟩ := of_guard hstep
    exact h.clear hpc
  | arm =>
    obtain ⟨hpc,rfl⟩ := of_guard hstep
    exact h.arm hpc
  | abort =>
    obtain ⟨hpc,rfl⟩ := of_guard hstep
    exact inv_of_left rfl (by simp [Pc.Armed]) fun _ => h.running (by rw [hpc]; simp)
  | hold timeout =>
    unfold Wake.step at hstep
    dsimp only at hstep
    split at hstep
    · rename_i elapsed hpc
      split at hstep <;> cases hstep
      · exact h.move (by rw [hpc]; simp) (by rw [hpc]; exact Iff.rfl) (by simp)
      · have hactive : s.active = true := h.armed.mpr (by rw [hpc]; trivial)
        exact inv_of_left rfl (by simp [hactive,Pc.Armed]) fun _ => h.running (by rw [hpc]; simp)
    · cases hstep
  | disarm =>
    obtain ⟨hpc,rfl⟩ := of_guard hstep
    exact inv_of_left (h.ended hpc) (by simp [Pc.Armed]) fun _ => h.running (by rw [hpc]; simp)
  | finish =>
    obtain ⟨hpc,rfl⟩ := of_guard hstep
    have hactive : s.active = true ↔ Pc.waiting.Armed := by
      rw [h.armed,hpc]
      exact Iff.rfl
    exact inv_of_left rfl hactive fun hne => absurd rfl hne
  | wakeup i caller =>
    obtain ⟨_,rfl⟩ := of_unless hstep
    exact h.wakeup htimely
  | latch i =>
    obtain ⟨_,rfl⟩ := of_guard hstep
    exact h.latch i

theorem reachable_inv {es : List (Event ι)} (hrun : exec step boot es = some s)
    (htimely : Along step Timely boot es) : Inv s :=
  exec_invariant_along Inv (fun _ _ _ h ht hstep => h.step ht hstep) boot_inv htimely hrun

theorem hold_ends {elapsed : ℕ} (hpc : s.pc = .holding elapsed) (hwake : s.wake = true)
    (timeout : ℤ) : step s (.hold timeout) = some { s with accepted := false, pc := .ending } := by
  simp [step,hpc,hwake]

theorem wakes_latched {es : List (Event ι)} (hrun : exec step boot es = some s)
    (htimely : Along step Timely boot es) :
    Latched s ∧ ∀ elapsed timeout, s.pc = .holding elapsed → s.accepted = true →
      s.handled = true → (∀ i, s.latching i = false) →
        step s (.hold timeout) = some { s with accepted := false, pc := .ending } := by
  have hinv := reachable_inv hrun htimely
  refine ⟨hinv.latched,?_⟩
  intro elapsed timeout hpc ha hhandled hquiet
  rcases (hinv.latched ha).1 hhandled with hwake | ⟨i,hi⟩
  · exact hold_ends hpc hwake timeout
  · rw [hquiet i] at hi
    cases hi

instance decidableTimely (s : State ι) : ∀ e, Decidable (Timely s e)
  | .wakeup _ _ => inferInstanceAs (Decidable (_ → _))
  | .setMode _ | .request | .requestTest | .take | .readMode | .tested | .enter _ | .clear | .arm
  | .prepared _ | .abort | .hold _ | .disarm | .resumed | .finish | .latch _ => isTrue trivial

def pressPreparing : List (Event Unit) :=
  [.request,.take,.readMode,.enter true,.clear,.arm,.wakeup () .button,.prepared true,.latch ()]

theorem wakes_latched_preparing : ∃ s, exec step boot pressPreparing = some s ∧
    Along step Timely boot pressPreparing ∧ s.accepted = true ∧ s.handled = true ∧
      s.reported = false ∧ step s (.hold 0) = some { s with accepted := false, pc := .ending } := by
  obtain ⟨s,hrun,ha,hh,hpc,hl⟩ : ∃ s, exec step boot pressPreparing = some s ∧ s.accepted = true ∧
      s.handled = true ∧ s.pc = .holding 0 ∧ s.latching () = false := by decide +kernel
  have htimely : Along step Timely boot pressPreparing := by decide +kernel
  obtain ⟨hlatched,hends⟩ := wakes_latched hrun htimely
  exact ⟨s,hrun,htimely,ha,hh,(hlatched ha).2,hends 0 0 hpc ha hh fun _ => hl⟩

/-- A button press after the request was accepted and before the thread armed the latch. -/
def pressEarly : List (Event Unit) :=
  [.request,.wakeup () .button,.take,.readMode,.enter true,.clear,.arm,.prepared true]

/-- The press is reported, and the hold waits for another event. -/
theorem early_press_lost : ∃ s, exec step boot pressEarly = some s ∧ ¬Latched s ∧
    s.accepted = true ∧ s.handled = true ∧ s.reported = true ∧ (∀ i, s.latching i = false) ∧
      step s (.hold 0) = some { s with pc := .holding 1 } := by
  obtain ⟨s,hrun,ha,hh,hr,hpc,hw,hl⟩ : ∃ s, exec step boot pressEarly = some s ∧ s.accepted = true ∧
      s.handled = true ∧ s.reported = true ∧ s.pc = .holding 0 ∧ s.wake = false ∧ s.latching () =
      false := by decide +kernel
  refine ⟨s,hrun,?_,ha,hh,hr,fun _ => hl,?_⟩
  · intro hlatched
    rw [(hlatched ha).2] at hr
    cases hr
  · simp [step,hpc,hw]

end NanoBSD.S2idle.Wake
