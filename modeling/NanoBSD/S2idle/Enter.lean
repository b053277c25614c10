import NanoBSD.Lib.Prog
import NanoBSD.Autoconf.Deviter

/-! # Entering and leaving the freeze

`acpi_enter_freeze` switches the display away, freezes userspace, suspends the filesystems,
suspends some devices and takes power resources off, holds, and undoes all of it. Each of
its calls may fail. The rest of the kernel is a state `W` that the calls change in any way
they like; the trace of a run notes every call together with the state it was made in.
-/
namespace NanoBSD.S2idle
open Prog Autoconf
variable {D W : Type}

inductive SleepState
  | s0 | s1 | s2 | s3 | s4 | s5
  deriving DecidableEq, Repr

/-- The calls `acpi_enter_freeze` makes. `turn` is the moment a recorded device comes up in
the second walk. -/
inductive Action (D : Type)
  | wsdisplayHandlex (on : Bool)
  | freezeUserspace (freeze : Bool)
  | kpause
  | vfsSuspendAll
  | vfsResumeAll
  | deviceSuspend (d : D)
  | turn (d : D)
  | deviceResume (d : D)
  | wakedevPrepare
  | wakedevCommit
  | powerdown (d3 : Bool)
  | lps0Enter
  | lps0Exit
  | cstcfg (clear : Bool)
  | ltrIgnore
  | ltrRestore
  | hold

/-- The rest of the kernel. A call answers a number, `0` for no error or for `false`, and
leaves some state. -/
structure Platform (D W : Type) where
  /-- `acpi_softc` is set. -/
  attached : Bool
  /-- `acpi_freeze_fsbarrier`, `acpi_freeze_storage` and `acpi_freeze_keep_net`. -/
  fsbarrier : W → ℤ
  storage : W → Bool
  keepNet : W → Bool
  isActive : W → D → Bool
  call : Action D → W → ℤ × W
  /-- What happens elsewhere before a device of a walk is looked at. -/
  meanwhile : W → W

/-- The state that outlives the call. `frozen` and `barrier` say that userspace is
suspended and that the filesystems are. -/
structure Machine (W : Type) where
  world : W
  sleepState : SleepState
  freezeActive : Bool
  s0idle : ℤ
  frozen : Bool
  barrier : Bool

/-- The machine with the array `suspended` of the call and its trace. -/
structure Frame (D W : Type) extends Machine W where
  suspended : List D
  trace : List (W × Action D)

def Frame.start (m : Machine W) : Frame D W := { m with suspended := [], trace := [] }

section Code
variable (P : Platform D W) (t : DeviceTree D)

def ancestorKeep (suspendStorage : Bool) (d : D) : Option Bool :=
  if t.driver d = "dwiic" then some false
  else if t.driver d = "nvme" then some !suspendStorage
  else
    match _h : t.parent d with
    | none => none
    | some p => ancestorKeep suspendStorage p
termination_by t.depth d
decreasing_by
  rw [t.depth_parent _h]
  omega

def named (name n : String) : Bool := name.toList.isPrefixOf n.toList

def displayStack : List String :=
  ["i915drmkms","intelfb","wsdisplay","iwx","xhci","hpet","uhub","ugen","uhidev","audio",
    "hdafg","hdaudio","spkr","midi"]

def acpiS2idleKeep (keepNet suspendStorage : Bool) (d : D) : Bool :=
  match ancestorKeep t suspendStorage d with
  | some keep => keep
  | none =>
    if keepNet ∧ named "iwx" (t.xname d) then true
    else !displayStack.any fun name => named name (t.xname d)

def Frame.did (f : Frame D W) (a : Action D) : Frame D W :=
  { f with world := (P.call a f.world).2, trace := f.trace ++ [(f.world,a)] }

def call (a : Action D) : Prog (Frame D W) Unit ℤ := fun f =>
  (.ok (P.call a f.world).1,f.did P a)

def acpiS0FreezeUserspace (freeze : Bool) : Prog (Frame D W) Unit Unit := do
  let _ ← call P (.freezeUserspace freeze)
  update fun f => { f with frozen := freeze }

def vfsSuspendAll : Prog (Frame D W) Unit ℤ := do
  let error ← call P .vfsSuspendAll
  update fun f => { f with barrier := error = 0 }
  pure error

/-- A policy of `0` does without the barrier. -/
def suspendFilesystems (policy : ℤ) : Prog (Frame D W) Unit ℤ :=
  if policy = 0 then pure 0 else vfsSuspendAll P

def vfsResumeAll : Prog (Frame D W) Unit Unit := do
  let _ ← call P .vfsResumeAll
  update fun f => { f with barrier := false }

/-- One round of the first walk; the error exit is its `break`. -/
def suspendRound (suspendStorage : Bool) (d : D) : Prog (Frame D W) Unit Unit := do
  update fun f => { f with world := P.meanwhile f.world }
  let keep ← read fun f => acpiS2idleKeep t (P.keepNet f.world) suspendStorage d
  let active ← read fun f => P.isActive f.world d
  if !active || keep then pure ()
  else
    let n ← read fun f => f.suspended.length
    if n = 128 then raise ()
    else
      update fun f => { f with suspended := f.suspended ++ [d] }
      let ok ← call P (.deviceSuspend d)
      if ok = 0 then raise () else pure ()

def parentActive (w : W) (d : D) : Bool := (t.parent d).all (P.isActive w)

def resumeRound [DecidableEq D] (d : D) : Prog (Frame D W) Unit Unit := do
  update fun f => { f with world := P.meanwhile f.world }
  let recorded ← read fun f => decide (d ∈ f.suspended)
  if !recorded then pure ()
  else
    update fun f => { f with trace := f.trace ++ [(f.world,.turn d)] }
    let up ← read fun f => parentActive P t f.world d
    if !up then pure ()
    else
      let _ ← call P (.deviceResume d)
      pure ()

def holdSuspended : Prog (Frame D W) Unit Unit := do
  let _ ← call P .wakedevPrepare
  let _ ← call P (.powerdown true)
  update fun f => { f with sleepState := .s3 }
  let _ ← call P .lps0Enter
  let _ ← call P (.cstcfg true)
  let ltrChanged ← call P .ltrIgnore
  let _ ← call P .hold
  update fun f => { f with freezeActive := false }
  if ltrChanged = 0 then pure ()
  else
    let _ ← call P .ltrRestore
    pure ()
  let _ ← call P (.cstcfg false)
  let _ ← call P .lps0Exit
  let _ ← call P .wakedevCommit
  let _ ← call P (.powerdown false)
  pure ()

def resumeUserspace (fsbarrierHeld : Bool) : Prog (Frame D W) Unit Unit := do
  if fsbarrierHeld then vfsResumeAll P else pure ()
  acpiS0FreezeUserspace P false
  let _ ← call P (.wsdisplayHandlex true)
  update fun f => { f with sleepState := .s0 }

def resumeDevices [DecidableEq D] (s0idleSave : ℤ) (fsbarrierHeld : Bool) :
    Prog (Frame D W) Unit Unit := do
  forEach (t.walk .rootFirst) (resumeRound P t)
  update fun f => { f with s0idle := s0idleSave }
  resumeUserspace P fsbarrierHeld

def freezeDevices [DecidableEq D] (suspendStorage fsbarrierHeld : Bool) :
    Prog (Frame D W) Unit Unit := do
  let s0idleSave ← read fun f => f.s0idle
  update fun f => { f with s0idle := 1 }
  let walked ← attempt (forEach (t.walk .leavesFirst) (suspendRound P t suspendStorage))
  match walked with
  | .error _ => update fun f => { f with freezeActive := false }
  | .ok _ => holdSuspended P
  resumeDevices P t s0idleSave fsbarrierHeld

def acpiEnterFreeze [DecidableEq D] : Prog (Frame D W) Unit Unit := do
  let policy ← read fun f => P.fsbarrier f.world
  let storageRequested ← read fun f => P.storage f.world
  let sleepState ← read fun f => f.sleepState
  if P.attached = false ∨ sleepState ≠ .s0 then raise ()
  else
    update fun f => { f with freezeActive := true }
    let refused ← call P (.wsdisplayHandlex false)
    if refused ≠ 0 then
      update fun f => { f with freezeActive := false }
      raise ()
    else
      acpiS0FreezeUserspace P true
      let _ ← call P .kpause
      let fsError ← suspendFilesystems P policy
      let fsbarrierHeld := decide (policy ≠ 0 ∧ fsError = 0)
      if fsError ≠ 0 ∧ 2 ≤ policy then
        update fun f => { f with freezeActive := false }
        resumeUserspace P false
        raise ()
      else
        freezeDevices P t (storageRequested && fsbarrierHeld) fsbarrierHeld

end Code

section Rules
variable {P : Platform D W} {t : DeviceTree D} {f : Frame D W} {R : Unit → Frame D W → Prop}
variable {E : Unit → Frame D W → Prop} {g : Frame D W} {d : D} {l : List D}

@[simp] theorem wp_call {a : Action D} {Q : ℤ → Frame D W → Prop} :
    (call P a).wp Q E f ↔ Q (P.call a f.world).1 (f.did P a) := Iff.rfl

def Tried (l : List D) (f g : Frame D W) : Prop :=
  ∃ tried : List (W × D), (tried.map Prod.snd).Sublist l ∧
    g = { f with
      world := g.world
      suspended := f.suspended ++ tried.map Prod.snd
      trace := f.trace ++ tried.map fun e => (e.1,.deviceSuspend e.2) }

theorem Tried.nil (hg : g = { f with world := g.world }) (l : List D) :
    Tried l f g := by
  refine ⟨[],List.nil_sublist l,?_⟩
  simpa using hg

theorem Tried.one {w : W} (hg : g = { f with
    world := g.world, suspended := f.suspended ++ [d], trace := f.trace ++ [(w,.deviceSuspend d)] }) :
    Tried (d :: l) f g :=
  ⟨[(w,d)],by simp,hg⟩

theorem Tried.cons {h : Frame D W} (h₁ : Tried [d] f g)
    (h₂ : Tried l g h) : Tried (d :: l) f h := by
  obtain ⟨a,ha,hg⟩ := h₁
  obtain ⟨b,hb,hh⟩ := h₂
  refine ⟨a ++ b,?_,?_⟩
  · rw [List.map_append]
    exact ha.append hb
  · rw [hh,hg]
    simp

theorem suspendRound_wp (suspendStorage : Bool) (d : D) (l : List D) :
    (suspendRound P t suspendStorage d).wp (fun _ => Tried [d] f)
      (fun _ => Tried (d :: l) f) f := by
  simp only [suspendRound,wp_bind,wp_update,wp_read]
  apply wp_ite
  · intro _
    exact Tried.nil rfl _
  · intro _
    simp only [wp_bind,wp_read]
    apply wp_ite
    · intro _
      exact Tried.nil rfl _
    · intro _
      simp only [wp_bind,wp_update,wp_call]
      apply wp_ite
      · intro _
        exact Tried.one rfl
      · intro _
        exact Tried.one rfl

theorem suspendWalk_wp (suspendStorage : Bool) (l : List D) (f : Frame D W) :
    (forEach l (suspendRound P t suspendStorage)).wp (fun _ => Tried l f)
      (fun _ => Tried l f) f := by
  induction l generalizing f with
  | nil => exact Tried.nil rfl _
  | cons d l ih =>
    simp only [forEach,wp_bind]
    refine wp_conseq (suspendRound_wp suspendStorage d l) ?_
    intro _ g hg
    exact wp_mono (ih g) (fun _ _ h => hg.cons h) fun _ _ h => hg.cons h

def turnOf (P : Platform D W) (t : DeviceTree D) (e : W × D) : List (W × Action D) :=
  if parentActive P t e.1 e.2 then [(e.1,.turn e.2),(e.1,.deviceResume e.2)]
  else [(e.1,.turn e.2)]

variable [DecidableEq D]

theorem resumeRound_wp (d : D) :
    (resumeRound P t d).wp (fun _ g => ∃ turns : List (W × D),
      turns.map Prod.snd = [d].filter (fun d => d ∈ f.suspended) ∧
      g = { f with world := g.world, trace := f.trace ++ turns.flatMap (turnOf P t) }) E f := by
  simp only [resumeRound,wp_bind,wp_update,wp_read]
  apply wp_ite
  · intro hout
    have hout' : d ∉ f.suspended := by simpa using hout
    refine ⟨[],by simp [hout'],?_⟩
    simp
  · intro hin
    have hin' : d ∈ f.suspended := by simpa using hin
    simp only [wp_bind,wp_update,wp_read]
    apply wp_ite
    · intro hup
      have hup' : parentActive P t (P.meanwhile f.world) d = false := by simpa using hup
      refine ⟨[(P.meanwhile f.world,d)],by simp [hin'],?_⟩
      simp [turnOf,hup']
    · intro hup
      have hup' : parentActive P t (P.meanwhile f.world) d = true := by simpa using hup
      refine ⟨[(P.meanwhile f.world,d)],by simp [hin'],?_⟩
      simp [turnOf,hup',Frame.did]

theorem resumeWalk_wp (l : List D) (f : Frame D W) :
    (forEach l (resumeRound P t)).wp (fun _ g => ∃ turns : List (W × D),
      turns.map Prod.snd = l.filter (fun d => d ∈ f.suspended) ∧
      g = { f with world := g.world, trace := f.trace ++ turns.flatMap (turnOf P t) }) E f := by
  induction l generalizing f with
  | nil => exact ⟨[],rfl,by simp⟩
  | cons d l ih =>
    simp only [forEach,wp_bind]
    refine wp_conseq (resumeRound_wp d) ?_
    rintro _ g ⟨a,ha,hg⟩
    refine wp_conseq (ih g) ?_
    rintro _ h ⟨b,hb,hh⟩
    have hsame : g.suspended = f.suspended := by rw [hg]
    refine ⟨a ++ b,?_,?_⟩
    · rw [List.map_append,ha,hb,hsame,← List.filter_append]
      rfl
    · rw [hh,hg]
      simp

end Rules
end NanoBSD.S2idle
