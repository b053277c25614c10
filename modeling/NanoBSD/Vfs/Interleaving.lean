import NanoBSD.Vfs.Admission
import NanoBSD.Vfs.ResumeAll

/-! # The gate functions under every interleaving

A gate function is several steps of its thread: it checks that the gate is ready,
takes `vfs_s2idle_lock`, tests the gate, writes it and drops the lock. The lock keeps
the outcome of a test valid until the write, so each call appears as one step of the
machine of `Admission` and all threads together keep its invariant.
-/
namespace NanoBSD.VfsS2idle
open Prog Function Option
variable {T : Type}

inductive Call where
  | mountEnter
  | mountExit
  | barrierEnter
  | failExit
  | resumeExit
deriving DecidableEq, Repr

inductive Stage where
  | waiting
  | locked
  | tested (r : Except Trap Unit)
  | written

/-- The admission state, the holder of the lock, and the calls in progress. -/
structure Threads (T : Type) where
  admission : Admission T
  mutex : Option T
  calls : T → Option (Call × Stage)

inductive Move (T : Type) where
  | init
  | call (t : T) (c : Call)
  | lock (t : T)
  | test (t : T)
  | write (t : T)
  | unlock (t : T)
  | suspended (t : T)
  | resume (t : T)

variable [DecidableEq T]

namespace Call

def test (t : T) (g : Gate T) : Call → Except Trap Unit
  | .mountEnter =>
    if g.owner.isSome || g.mountops == sizeMax then .error (.errno .EBUSY) else .ok ()
  | .mountExit =>
    if g.owner.isSome then .error .kassert
    else if g.mountops == 0 then .error .kassert
    else .ok ()
  | .barrierEnter =>
    if g.owner.isSome || g.mountops != 0 then .error (.errno .EBUSY) else .ok ()
  | .failExit | .resumeExit =>
    if g.owner != some t then .error .kassert
    else if g.mountops != 0 then .error .kassert
    else .ok ()

def write (t : T) (g : Gate T) : Call → Gate T
  | .mountEnter => { g with mountops := (g.mountops + 1) % 2 ^ 64 }
  | .mountExit => { g with mountops := g.mountops - 1 }
  | .barrierEnter => { g with owner := some t }
  | .failExit | .resumeExit => { g with owner := none }

def prog (t : T) : Call → Prog (Gate T) Trap Unit
  | .mountEnter => VfsS2idle.mountEnter
  | .mountExit => VfsS2idle.mountExit
  | .barrierEnter => VfsS2idle.barrierEnter t
  | .failExit | .resumeExit => VfsS2idle.barrierExit t

def done (t : T) (w : Admission T) : Call → Admission T
  | .mountEnter => w.setOps t (w.ops t + 1)
  | .mountExit => w.setOps t (w.ops t - 1)
  | .barrierEnter => w.setPhase t .suspending
  | .failExit | .resumeExit => w.setPhase t .idle

def act (t : T) : Call → Act T
  | .mountEnter => .mountEnter t
  | .mountExit => .mountExit t
  | .barrierEnter => .suspend t
  | .failExit => .suspendFailed t
  | .resumeExit => .resumed t

/-- What a caller has made sure of: the gate is ready, an operation was entered, or the
session is in the right phase. -/
def allowed (t : T) (w : Admission T) : Call → Bool
  | .mountEnter | .barrierEnter => w.gate.ready
  | .mountExit => w.ops t != 0
  | .failExit => w.phase t == .suspending
  | .resumeExit => w.phase t == .resuming

def isEnter : Call → Bool
  | .mountEnter | .barrierEnter => true
  | _ => false

variable {t : T} {w : Admission T} {c : Call}

theorem prog_eq (h : c.allowed t w = true) : c.prog t w.gate =
      (c.test t w.gate,if c.test t w.gate = .ok () then c.write t w.gate else w.gate) := by
  have hread : ∀ f : Gate T → Prog (Gate T) Trap Unit, (read id >>= f) w.gate = f w.gate w.gate :=
    fun _ => rfl
  cases c
  all_goals
    simp only [allowed] at h
    simp only [prog,test,VfsS2idle.mountEnter,VfsS2idle.mountExit,VfsS2idle.barrierEnter,
      VfsS2idle.barrierExit,hread,h,Bool.not_true,Bool.false_eq_true,↓reduceIte]
    split
    · rfl
  · rfl
  · split <;> rfl
  · rfl
  · split <;> rfl
  · split <;> rfl

def outcome (t : T) (w : Admission T) (c : Call) : Admission T :=
  match c.test t w.gate with
  | .ok _ => c.done t { w with gate := c.write t w.gate }
  | .error (.errno _) => w
  | .error .kassert => { w with panicked := true }

theorem act_step (h : c.allowed t w = true) : w.step (c.act t) = some (c.outcome t w) := by
  have hcall : ∀ d : Admission T → Admission T,
      (∀ g, d { w with gate := g } = c.done t { w with gate := g }) →
      w.call (c.prog t) d = c.outcome t w := by
    intro d hd
    unfold Admission.call outcome
    rw [prog_eq h]
    cases c.test t w.gate with
    | ok u => exact hd _
    | error e => cases e <;> rfl
  cases c <;> simp only [allowed,bne_iff_ne,ne_eq,beq_iff_eq] at h <;>
    simp only [act,Admission.step,h,↓reduceIte,Option.some.injEq] <;>
    exact hcall _ (fun _ => rfl)

theorem allowed_done {u : T} (hne : u ≠ t) (w : Admission T) (c d : Call) :
    d.allowed u (c.done t { w with gate := c.write t w.gate }) = d.allowed u w := by
  cases c <;> cases d <;>
    simp [allowed,done,write,Admission.setOps,Admission.setPhase,update_of_ne hne]

end Call

namespace Threads

def setCall (k : Threads T) (t : T) (c : Option (Call × Stage)) : Threads T :=
  { k with calls := Function.update k.calls t c }

/-- One step of one thread. A thread inside a gate function does nothing else, and one
whose assertion failed does nothing at all. -/
def step (k : Threads T) : Move T → Option (Threads T)
  | .init => (k.admission.step .init).map fun w => { k with admission := w }
  | .call t c =>
    if (k.calls t).isSome then none
    else if c.allowed t k.admission then some (k.setCall t (some (c,.waiting)))
    else if c.isEnter then some k
    else none
  | .lock t =>
    match k.calls t,k.mutex with
    | some (c,.waiting),none => some { k.setCall t (some (c,.locked)) with mutex := some t }
    | _,_ => none
  | .test t =>
    match k.calls t with
    | some (c,.locked) =>
      let r := c.test t k.admission.gate
      some { k.setCall t (some (c,.tested r)) with
        admission := { k.admission with
          panicked := k.admission.panicked || r matches .error .kassert } }
    | _ => none
  | .write t =>
    match k.calls t with
    | some (c,.tested (.ok _)) =>
      some { k.setCall t (some (c,.written)) with
        admission := c.done t { k.admission with gate := c.write t k.admission.gate } }
    | some (c,.tested (.error (.errno _))) => some (k.setCall t (some (c,.written)))
    | _ => none
  | .unlock t =>
    match k.calls t with
    | some (_,.written) => some { k.setCall t none with mutex := none }
    | _ => none
  | .suspended t =>
    if (k.calls t).isSome then none
    else (k.admission.step (.suspended t)).map fun w => { k with admission := w }
  | .resume t =>
    if (k.calls t).isSome then none
    else (k.admission.step (.resume t)).map fun w => { k with admission := w }

def Inside (x : Option (Call × Stage)) : Bool :=
  match x with
  | none | some (_,.waiting) => false
  | _ => true

def Pending (x : Option (Call × Stage)) (c : Call) : Prop :=
  ∃ st, x = some (c,st) ∧ st ≠ .written

/-- The lock is held by the thread in a critical section; the outcome of a test is current, and what
a caller made sure of holds. -/
structure Locked (k : Threads T) : Prop where
  mutex : ∀ t, k.mutex = some t ↔ Inside (k.calls t) = true
  tested : ∀ t c r, k.calls t = some (c,.tested r) → r = c.test t k.admission.gate
  allowed : ∀ t c, Pending (k.calls t) c → c.allowed t k.admission = true

variable {k : Threads T} {t : T} {x : Option (Call × Stage)} {w : Admission T} {p : Phase}
  {k' : Threads T}

theorem Locked.alone (h : k.Locked) (ht : Inside (k.calls t) = true) {u : T} (hu : u ≠ t) :
    Inside (k.calls u) = false := by
  rw [← Bool.not_eq_true,← h.mutex u,(h.mutex t).mpr ht]
  exact fun he => hu (Option.some.inj he).symm

theorem Locked.mutex_update (h : k.Locked) (hx : Inside x = Inside (k.calls t)) (u : T) :
    k.mutex = some u ↔ Inside (update k.calls t x u) = true := by
  by_cases hu : u = t
  · subst hu
    rw [update_self,hx]
    exact h.mutex u
  · rw [update_of_ne hu]
    exact h.mutex u

theorem Locked.update (h : k.Locked) {m : Option T}
    (hm : ∀ u, m = some u ↔ Inside (update k.calls t x u) = true)
    (hgate : ∀ u ≠ t, Inside (k.calls u) = true → ∀ c : Call,
      c.test u w.gate = c.test u k.admission.gate)
    (hothers : ∀ u ≠ t, ∀ c : Call, c.allowed u w = c.allowed u k.admission)
    (htested : ∀ c r, x = some (c,.tested r) → r = c.test t w.gate)
    (hallowed : ∀ c, Pending x c → c.allowed t w = true) : Locked ⟨w,m,update k.calls t x⟩ := by
  refine ⟨hm,fun u c r hu => ?_,fun u c hu => ?_⟩
  · by_cases hut : u = t
    · subst hut
      simp only [update_self] at hu
      exact htested c r hu
    · simp only [update_of_ne hut] at hu
      exact (h.tested u c r hu).trans (hgate u hut (by rw [hu]; rfl) c).symm
  · by_cases hut : u = t
    · subst hut
      simp only [update_self] at hu
      exact hallowed c hu
    · simp only [update_of_ne hut] at hu
      exact (hothers u hut c).trans (h.allowed u c hu)

theorem Locked.admission (h : k.Locked) (hgate : ∀ t (c : Call),
      c.test t w.gate = c.test t k.admission.gate)
    (hallowed : ∀ t c, Pending (k.calls t) c → c.allowed t k.admission = true →
      c.allowed t w = true) : Locked { k with admission := w } := by
  refine ⟨h.mutex,fun t c r ht => ?_,fun t c ht => hallowed t c ht (h.allowed t c ht)⟩
  exact (h.tested t c r ht).trans (hgate t c).symm

theorem allowed_setPhase (ht : k.calls t = none) (u : T) (c : Call)
    (hu : Pending (k.calls u) c) : c.allowed u (k.admission.setPhase t p) =
      c.allowed u k.admission := by
  have hne : u ≠ t := by
    rintro rfl
    obtain ⟨st,hst,_⟩ := hu
    rw [ht] at hst
    cases hst
  cases c <;> simp [Call.allowed,Admission.setPhase,update_of_ne hne]

variable {c : Call}

section
variable (h : k.Locked)
include h

theorem Locked.call (hnone : k.calls t = none)
    (hall : c.allowed t k.admission = true) : Locked (k.setCall t (some (c,.waiting))) := by
  refine h.update (h.mutex_update (by rw [hnone]; rfl)) (fun _ _ _ _ => rfl) (fun _ _ _ => rfl)
    (fun _ _ hr => by cases hr) ?_
  rintro _ ⟨_,hst,_⟩
  cases hst
  exact hall

theorem Locked.lock (hc : k.calls t = some (c,.waiting))
    (hm : k.mutex = none) : Locked { k.setCall t (some (c,.locked)) with mutex := some t } := by
  refine h.update (fun u => ?_) (fun _ _ _ _ => rfl) (fun _ _ _ => rfl) (fun _ _ hr => by cases hr) ?_
  · by_cases hu : u = t
    · subst hu
      simp [Inside]
    · have hout := h.mutex u
      rw [hm] at hout
      simpa [update_of_ne hu,Ne.symm hu] using hout
  · rintro _ ⟨_,hst,_⟩
    cases hst
    exact h.allowed t c ⟨_,hc,by simp⟩

theorem Locked.test (hc : k.calls t = some (c,.locked)) (panicked : Bool) :
    Locked { k.setCall t (some (c,.tested (c.test t k.admission.gate))) with
      admission := { k.admission with panicked := panicked } } := by
  have hsame : ∀ u (d : Call), d.allowed u { k.admission with panicked := panicked } =
      d.allowed u k.admission := by
    intro u d
    cases d <;> rfl
  refine h.update (h.mutex_update (by rw [hc]; rfl)) (fun _ _ _ _ => rfl) (fun u _ d => hsame u d)
    ?_ ?_
  · rintro _ _ hst
    cases hst
    rfl
  · rintro _ ⟨_,hst,_⟩
    cases hst
    rw [hsame]
    exact h.allowed t c ⟨_,hc,by simp⟩

theorem Locked.write {r : Except Trap Unit} (hc : k.calls t = some (c,.tested r))
    (hw : ∀ u ≠ t, ∀ d : Call, d.allowed u w = d.allowed u k.admission) :
    Locked { k.setCall t (some (c,.written)) with admission := w } := by
  refine h.update (h.mutex_update (by rw [hc]; rfl)) (fun u hu hin => ?_) hw
    (fun _ _ hr => by cases hr) ?_
  · -- No other thread is between its test and its write.
    rw [h.alone (by rw [hc]; rfl) hu] at hin
    cases hin
  · rintro _ ⟨_,hst,hne⟩
    cases hst
    exact absurd rfl hne

theorem Locked.unlock (hc : k.calls t = some (c,.written)) :
    Locked { k.setCall t none with mutex := none } := by
  refine h.update (fun u => ?_) (fun _ _ _ _ => rfl) (fun _ _ _ => rfl) (fun _ _ hr => by cases hr) ?_
  · by_cases hu : u = t
    · subst hu
      simp [Inside]
    · have hout := h.alone (by rw [hc]; rfl) hu
      simp [update_of_ne hu,hout]
  · rintro _ ⟨_,hst,_⟩
    cases hst

theorem Locked.session {a : Act T} {q : Phase}
    (ha : k.admission.step a = if k.admission.phase t = p then some (k.admission.setPhase t q)
      else none)
    (hs : (if (k.calls t).isSome then none
      else (k.admission.step a).map fun w => { k with admission := w }) = some k') :
    k'.Locked ∧ ∃ bs, exec Admission.step k.admission bs = some k'.admission := by
  split at hs
  · cases hs
  · rename_i hnone
    have hnone : k.calls t = none := by simpa using hnone
    obtain ⟨w,hw,rfl⟩ := map_eq_some_iff.mp hs
    refine ⟨?_,[a],by simp [exec,hw]⟩
    rw [ha] at hw
    obtain ⟨_,rfl⟩ := ite_some_none_eq_some.mp hw
    exact h.admission (fun _ _ => rfl)
      (fun u c hu hall => (allowed_setPhase hnone u c hu).trans hall)

theorem Locked.step {a : Move T} (hs : k.step a = some k') :
    k'.Locked ∧ ∃ bs, exec Admission.step k.admission bs = some k'.admission := by
  cases a with
  | init =>
    obtain ⟨w,hw,rfl⟩ := map_eq_some_iff.mp hs
    refine ⟨?_,[.init],by simp [exec,hw]⟩
    simp only [Admission.step] at hw
    split at hw
    · cases hw
    · cases hw
      refine h.admission (fun t c => by cases c <;> rfl) (fun t c _ hall => ?_)
      cases c <;> first | rfl | exact hall
  | call t c =>
    simp only [Threads.step] at hs
    split at hs
    · cases hs
    · rename_i hnone
      have hnone : k.calls t = none := by simpa using hnone
      split at hs
      · rename_i hall
        cases hs
        exact ⟨h.call hnone hall,[],rfl⟩
      · split at hs
        · cases hs
          exact ⟨h,[],rfl⟩
        · cases hs
  | lock t =>
    simp only [Threads.step] at hs
    split at hs
    · rename_i c hc hm
      cases hs
      exact ⟨h.lock hc hm,[],rfl⟩
    · cases hs
  | test t =>
    simp only [Threads.step] at hs
    split at hs
    · rename_i c hc
      cases hs
      refine ⟨h.test hc _,?_⟩
      have hact := Call.act_step (h.allowed t c ⟨_,hc,by simp⟩)
      cases hr : c.test t k.admission.gate with
      | ok u => exact ⟨[],by simp [exec]⟩
      | error e =>
        cases e with
        | errno n => exact ⟨[],by simp [exec]⟩
        | kassert => exact ⟨[c.act t],by simp [exec,hact,Call.outcome,hr]⟩
    · cases hs
  | write t =>
    simp only [Threads.step] at hs
    split at hs
    · rename_i c u hc
      cases hs
      have hact := Call.act_step (h.allowed t c ⟨_,hc,by simp⟩)
      refine ⟨h.write hc (fun u hu d => Call.allowed_done hu k.admission c d),[c.act t],?_⟩
      simp [exec,hact,Call.outcome,← h.tested t c _ hc]
    · rename_i c n hc
      cases hs
      exact ⟨h.write hc (fun _ _ _ => rfl),[],rfl⟩
    · cases hs
  | unlock t =>
    simp only [Threads.step] at hs
    split at hs
    · rename_i c hc
      cases hs
      exact ⟨h.unlock hc,[],rfl⟩
    · cases hs
  | suspended | resume => exact h.session rfl hs

end

structure Fresh (k : Threads T) : Prop where
  admission : k.admission.Fresh
  mutex : k.mutex = none
  calls : ∀ t, k.calls t = none

theorem Fresh.locked (h : k.Fresh) : k.Locked := by
  refine ⟨fun t => ?_,fun t c r ht => ?_,fun t c ht => ?_⟩
  · simp [h.mutex,h.calls,Inside]
  · rw [h.calls] at ht
    cases ht
  · obtain ⟨_,hst,_⟩ := ht
    rw [h.calls] at hst
    cases hst

/-- However threads interleave, no mount operation is active while the barrier has an owner, at most
one session is open, the counter is that of active operations, and no assertion fails. -/
theorem Fresh.run_safe [Fintype T] {k' : Threads T} {as : List (Move T)} (h : k.Fresh)
    (hrun : exec Threads.step k as = some k') :
    (k'.admission.gate.owner ≠ none → ∀ t, k'.admission.ops t = 0) ∧
    (∀ t u, k'.admission.phase t ≠ .idle → k'.admission.phase u ≠ .idle → t = u) ∧
    k'.admission.gate.mountops = ∑ t, k'.admission.ops t ∧
    k'.admission.panicked = false := by
  obtain ⟨_,bs,hbs⟩ := exec_simulation Locked Threads.admission
    (fun _ _ _ hk hs => hk.step hs) h.locked hrun
  have hv := h.admission.run_valid hbs
  refine ⟨fun ho t => ?_,fun t u ht hu => ?_,hv.counter,hv.running⟩
  · by_contra ht
    exact hv.ops_pos ht (hv.exclusive ho)
  · have hot := (hv.owner t).mpr ht
    rw [(hv.owner u).mpr hu] at hot
    exact (Option.some.inj hot).symm

def gateCall (t : T) (c : Call) : List (Move T) := [.call t c,.lock t,.test t,.write t,.unlock t]
def twoThreads : Threads (Fin 2) := ⟨⟨⟨true,0,none⟩,fun _ => 0,fun _ => .idle,false⟩,none,fun _ => none⟩

/-- A session is refused during a mount operation and admitted after it. -/
def sessionMoves : List (Move (Fin 2)) :=
  gateCall 0 .mountEnter ++ gateCall 1 .barrierEnter ++ gateCall 0 .mountExit ++
    gateCall 1 .barrierEnter ++ [.suspended 1] ++ gateCall 0 .mountEnter

theorem Fresh.run_safe_session : ∃ k, exec Threads.step twoThreads sessionMoves = some k ∧
    k.admission.phase 1 = .opened ∧ (k.admission.gate.owner ≠ none → ∀ t, k.admission.ops t = 0) ∧
    (∀ t u, k.admission.phase t ≠ .idle → k.admission.phase u ≠ .idle → t = u) ∧
    k.admission.gate.mountops = ∑ t, k.admission.ops t ∧ k.admission.panicked = false := by
  have hrun : (exec Threads.step twoThreads sessionMoves).map (fun k => k.admission.phase 1) =
      some .opened := by decide
  obtain ⟨k,hk,hphase⟩ := map_eq_some_iff.mp hrun
  exact ⟨k,hk,hphase,Fresh.run_safe ⟨⟨rfl,rfl,fun _ => rfl,fun _ => rfl,rfl⟩,rfl,fun _ => rfl⟩ hk⟩

end Threads

section Calls
variable {w : Admission T} {t : T}

theorem Admission.suspend_admitted (hr : w.gate.ready = true) (ho : w.gate.owner = none)
    (hm : w.gate.mountops = 0) :
    ∃ w', w.step (.suspend t) = some w' ∧ w'.gate = { w.gate with owner := some t } ∧
      w'.ops = w.ops ∧ w'.phase t = .suspending := by
  have hact := Call.act_step (c := .barrierEnter) (t := t) (w := w) hr
  simp only [Call.act,Call.outcome,Call.test,ho,hm,isSome_none,bne_self_eq_false,Bool.or_self,
    Bool.false_eq_true,↓reduceIte] at hact
  exact ⟨_,hact,by simp [Call.done,Call.write,Admission.setPhase,hm],rfl,update_self ..⟩

theorem Admission.suspend_refused
    (h : ¬ (w.gate.ready = true ∧ w.gate.owner = none ∧ w.gate.mountops = 0)) :
    w.step (.suspend t) = some w := by
  by_cases hr : w.gate.ready = true
  · have hact := Call.act_step (c := .barrierEnter) (t := t) (w := w) hr
    have hbusy : (w.gate.owner.isSome || w.gate.mountops != 0) = true := by
      by_contra hno
      simp only [Bool.or_eq_true,bne_iff_ne,ne_eq,not_or,not_isSome_iff_eq_none,
        not_not] at hno
      exact h ⟨hr,hno.1,hno.2⟩
    simpa [Call.act,Call.outcome,Call.test,hbusy] using hact
  · simp [Admission.step,Admission.call,VfsS2idle.barrierEnter,bind,Prog.bind,Prog.read,hr,raise]

theorem Admission.step_suspended (h : w.phase t = .suspending) :
    w.step (.suspended t) = some (w.setPhase t .opened) := if_pos h

theorem Admission.exit_admitted {c : Call} (hc : c = .failExit ∨ c = .resumeExit)
    (hall : c.allowed t w = true) (ho : w.gate.owner = some t) (hm : w.gate.mountops = 0) :
    ∃ w', w.step (c.act t) = some w' ∧ w'.gate = { w.gate with owner := none } ∧
      w'.ops = w.ops := by
  have hact := Call.act_step hall
  rcases hc with rfl | rfl <;>
  · simp only [Call.outcome,Call.test,ho,hm,bne_self_eq_false,Bool.false_eq_true,↓reduceIte] at hact
    exact ⟨_,hact,rfl,rfl⟩

variable {M L : Type} [DecidableEq M] [DecidableEq L] [Fintype M]
variable {K : MountTable M L} {F : Faults M L T} {s : Sys M L T} {f : Frame M L T}
  {r : Except Trap Unit}

/-- On the gate, `vfs_suspend_all` is a refused or admitted `barrier_enter`, then nothing until a
failure gives the barrier back. -/
theorem vfsSuspendAll_admission {mpp : Option (List (Entry M))} {nmpp : ℕ} (hw : w.gate = s.gate)
    (h : vfsSuspendAll K F t (Frame.start s mpp nmpp) = (r,f)) :
    ∃ as w', exec Admission.step w (.suspend t :: as) = some w' ∧ w'.gate = f.sys.gate ∧
      w'.ops = w.ops ∧ (r = .ok () → as = [.suspended t]) ∧
      (r ≠ .ok () → as = [] ∨ as = [.suspendFailed t]) := by
  cases r with
  | ok u =>
    have hacc := (wp_ok (vfsSuspendAll_wp mpp nmpp) h).account
    obtain ⟨w₁,hstep,hgate,hops,hphase⟩ := Admission.suspend_admitted (t := t) (hw ▸ hacc.ready)
      (hw ▸ hacc.admitted.1) (hw ▸ hacc.admitted.2)
    refine ⟨[.suspended t],_,exec_cons_eq_some.mpr ⟨_,hstep,exec_cons_eq_some.mpr
      ⟨_,Admission.step_suspended hphase,rfl⟩⟩,?_,hops,fun _ => rfl,fun hne => absurd rfl hne⟩
    change w₁.gate = f.sys.gate
    rw [hgate,hw]
    exact hacc.gate.symm
  | error e =>
    obtain ⟨_,hback⟩ := wp_error (vfsSuspendAll_wp mpp nmpp) h
    by_cases hadm : w.gate.ready = true ∧ w.gate.owner = none ∧ w.gate.mountops = 0
    · obtain ⟨w₁,hstep,hgate,hops,hphase⟩ :=
        Admission.suspend_admitted (t := t) hadm.1 hadm.2.1 hadm.2.2
      obtain ⟨w₂,hexit,hgate₂,hops₂⟩ := Admission.exit_admitted (w := w₁) (t := t) (c := .failExit)
        (.inl rfl) (by simp [Call.allowed,hphase]) (by rw [hgate]) (by rw [hgate]; exact hadm.2.2)
      refine ⟨[.suspendFailed t],w₂,exec_cons_eq_some.mpr ⟨_,hstep,exec_cons_eq_some.mpr
        ⟨_,hexit,rfl⟩⟩,?_,hops₂.trans hops,(fun hok => by cases hok),fun _ => .inr rfl⟩
      rw [hback.gate,hgate₂,hgate,← hw,← hadm.2.1]
    · refine ⟨[],w,exec_cons_eq_some.mpr ⟨w,Admission.suspend_refused hadm,rfl⟩,?_,rfl,
        (fun hok => by cases hok),fun _ => .inl rfl⟩
      rw [hback.gate,hw]

/-- Resuming an open session gives the barrier back and touches nothing else of the gate. -/
theorem vfsResumeAll_admission (hw : w.gate = f.sys.gate) (hopen : w.phase t = .opened)
    (h : Session K t s f) {g : Frame M L T}
    (hrun : vfsResumeAll K t f.mpp f.nmpp (Frame.start f.sys none 0) = (r,g)) :
    ∃ w', exec Admission.step w [.resume t,.resumed t] = some w' ∧ w'.gate = g.sys.gate ∧
      w'.ops = w.ops := by
  have hresume : w.step (.resume t) = some (w.setPhase t .resuming) := by
    simp [Admission.step,hopen]
  have howner : (w.setPhase t .resuming).gate.owner = some t := by
    change w.gate.owner = some t
    rw [hw,h.account.gate]
  have hops : (w.setPhase t .resuming).gate.mountops = 0 := by
    change w.gate.mountops = 0
    rw [hw,h.account.gate]
    exact h.account.admitted.2
  obtain ⟨w₂,hexit,hgate,hops₂⟩ := Admission.exit_admitted (c := .resumeExit) (t := t) (.inr rfl)
    (by simp [Call.allowed,Admission.setPhase]) howner hops
  refine ⟨w₂,exec_cons_eq_some.mpr ⟨_,hresume,exec_cons_eq_some.mpr ⟨_,hexit,rfl⟩⟩,?_,hops₂⟩
  have hback := h.vfsResumeAll_wp (E := fun _ _ => False)
  cases r with
  | error e => exact (wp_error hback hrun).elim
  | ok u =>
    rw [(wp_ok hback hrun).1.gate,hgate]
    change { w.gate with owner := none } = s.gate
    rw [hw,h.account.gate,← h.account.admitted.1]

def idleGate : Admission Unit := ⟨idleSys.gate,fun _ => 0,fun _ => .idle,false⟩

theorem vfsSuspendAll_admission_layered : ∃ w', exec Admission.step idleGate
    [.suspend (),.suspended ()] = some w' ∧ w'.gate = layeredRun.2.sys.gate := by
  have hok : layeredRun.1 = .ok () := by decide +kernel
  have hcall := Prod.fst_eq_iff.mp hok
  obtain ⟨as,w',hrun,hgate,-,has,-⟩ := vfsSuspendAll_admission (w := idleGate) rfl hcall
  exact ⟨w',has rfl ▸ hrun,hgate⟩

end Calls
end NanoBSD.VfsS2idle
