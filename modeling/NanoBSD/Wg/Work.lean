import NanoBSD.Lib.Run
import Mathlib.Data.Finset.Insert

/-! # The work item of a peer

Timers, packets and tasks ask for work by setting bits of `wgp_tasks`, and a thread of the
workqueue runs `wg_peer_work` for the peer's single work item. The queue is per CPU and not
serialized, so several threads may be in the function for one peer. The bits are under
`wgp_intr_lock`, and each critical section of it is one step; `wgp_lock` is held while tasks
run.
-/
namespace NanoBSD.Wg
open Function Option List

inductive Task
  | sendInitMessage
  | retryHandshake
  | establishSession
  | endpointChanged
  | sendKeepaliveMessage
  | destroyPrevSession
  | persistentKeepalive
  deriving DecidableEq, Repr

def Task.all : List Task :=
  [.sendInitMessage,.retryHandshake,.establishSession,.endpointChanged,.sendKeepaliveMessage,
    .destroyPrevSession,.persistentKeepalive]

/-- Where a thread is in `wg_peer_work`: about to look at the bits, in front of `wgp_lock` with the
bits it took, under it with the tasks left, or within `wg_task_endpoint_changed`, which lets go of
it. -/
inductive Worker
  | idle
  | entered
  | waiting (todo : List Task)
  | running (todo : List Task)
  | draining (todo : List Task)
  deriving DecidableEq, Repr

/-- The tasks asked for, the number of entries of the item in the workqueue, the thread that
holds `wgp_lock`, and the threads. -/
structure Work (κ : Type) where
  tasks : Finset Task
  queued : ℕ
  holder : Option κ
  worker : κ → Worker

namespace Work
variable {κ : Type}

def fresh : Work κ := ⟨∅,0,none,fun _ => .idle⟩

def schedulePeerTask (w : Work κ) (task : Task) : Work κ :=
  { w with
    queued := if w.tasks = ∅ then w.queued + 1 else w.queued
    tasks := insert task w.tasks }

/-! ## Requests -/

variable {w v u : Work κ} {k : κ}

def Asked (w v : Work κ) : Prop :=
  ∃ tasks : List Task, .persistentKeepalive ∉ tasks ∧ v = tasks.foldl schedulePeerTask w

theorem Asked.refl (w : Work κ) : w.Asked w := ⟨[],not_mem_nil,rfl⟩

theorem Asked.trans (h : w.Asked v) (h' : v.Asked u) : w.Asked u := by
  obtain ⟨as,has,rfl⟩ := h
  obtain ⟨bs,hbs,rfl⟩ := h'
  exact ⟨as ++ bs,not_mem_append has hbs,foldl_append.symm⟩

theorem asked_schedulePeerTask {task : Task} (h : task ≠ .persistentKeepalive) :
    w.Asked (w.schedulePeerTask task) :=
  ⟨[task],fun hmem => h (mem_singleton.mp hmem).symm,rfl⟩

theorem Asked.induction {I : Work κ → Prop} (h : w.Asked v) (hw : I w)
    (hstep : ∀ w task, task ≠ .persistentKeepalive → I w → I (w.schedulePeerTask task)) : I v := by
  obtain ⟨tasks,hne,rfl⟩ := h
  induction tasks generalizing w with
  | nil => exact hw
  | cons task tasks ih =>
    have hhead : task ≠ .persistentKeepalive := fun he => hne (he ▸ mem_cons_self)
    exact ih (hstep w task hhead hw) (fun hmem => hne (mem_cons_of_mem task hmem))

theorem Asked.worker (h : w.Asked v) : v.worker = w.worker :=
  h.induction (I := fun v => v.worker = w.worker) rfl fun _ _ _ hw => hw

theorem Asked.holder (h : w.Asked v) : v.holder = w.holder :=
  h.induction (I := fun v => v.holder = w.holder) rfl fun _ _ _ hw => hw

def Live (w : Work κ) : Prop := w.tasks ≠ ∅ → 0 < w.queued ∨ ∃ k, w.worker k ≠ .idle
theorem live_of_worker (h : w.worker k ≠ .idle) : w.Live := fun _ => .inr ⟨k,h⟩

theorem Live.schedulePeerTask (h : w.Live) (task : Task) : (w.schedulePeerTask task).Live := by
  intro _
  by_cases htasks : w.tasks = ∅
  · refine .inl ?_
    simp only [Work.schedulePeerTask,if_pos htasks]
    exact Nat.succ_pos w.queued
  · simp only [Work.schedulePeerTask,if_neg htasks]
    exact h htasks

theorem Live.asked (h : w.Live) (hask : w.Asked v) : v.Live :=
  hask.induction h fun _ task _ h => h.schedulePeerTask task

/-! ## Threads -/

variable [DecidableEq κ] {x : Worker} {xs ys : List Task}

def setWorker (w : Work κ) (k : κ) (x : Worker) : Work κ :=
  { w with worker := Function.update w.worker k x }

def start (w : Work κ) (k : κ) : Option (Work κ) :=
  if w.worker k = .idle ∧ 0 < w.queued then
    some { w.setWorker k .entered with queued := w.queued - 1 }
  else none

def take (w : Work κ) (k : κ) : Option (Work κ) :=
  if w.worker k = .entered then
    if w.tasks = ∅ then some (w.setWorker k .idle)
    else some { w.setWorker k (.waiting (Task.all.filter (· ∈ w.tasks))) with tasks := ∅ }
  else none

def lock (w : Work κ) (k : κ) : Option (Work κ) :=
  if w.holder = none then
    match w.worker k with
    | .waiting todo | .draining todo => some { w.setWorker k (.running todo) with holder := some k }
    | _ => none
  else none

def drain (w : Work κ) (k : κ) : Option (Work κ) :=
  match w.worker k with
  | .running (.endpointChanged :: todo) =>
    some { w.setWorker k (.draining todo) with holder := none }
  | _ => none

def finish (w : Work κ) (k : κ) : Option (Work κ) :=
  match w.worker k with
  | .running (_ :: todo) => some (w.setWorker k (.running todo))
  | _ => none

def unlock (w : Work κ) (k : κ) : Option (Work κ) :=
  if w.worker k = .running [] then some { w.setWorker k .entered with holder := none } else none

inductive Event (κ : Type)
  | schedule (task : Task)
  | start (k : κ)
  | take (k : κ)
  | lock (k : κ)
  | drain (k : κ)
  | finish (k : κ)
  | unlock (k : κ)
  deriving DecidableEq, Repr

def step (w : Work κ) : Event κ → Option (Work κ)
  | .schedule task => some (w.schedulePeerTask task)
  | .start k => w.start k
  | .take k => w.take k
  | .lock k => w.lock k
  | .drain k => w.drain k
  | .finish k => w.finish k
  | .unlock k => w.unlock k

theorem start_eq_some : w.start k = some v ↔ (w.worker k = .idle ∧ 0 < w.queued) ∧
    v = { w.setWorker k .entered with queued := w.queued - 1 } := by
  rw [start,ite_none_right_eq_some,some_inj,eq_comm (a := v)]

theorem take_cases (h : w.take k = some v) : w.worker k = .entered ∧
    ((w.tasks = ∅ ∧ v = w.setWorker k .idle) ∨ (w.tasks ≠ ∅ ∧
      v = { w.setWorker k (.waiting (Task.all.filter (· ∈ w.tasks))) with tasks := ∅ })) := by
  obtain ⟨hk,h⟩ := ite_none_right_eq_some.mp h
  refine ⟨hk,?_⟩
  by_cases htasks : w.tasks = ∅
  · rw [if_pos htasks] at h
    exact .inl ⟨htasks,(Option.some.inj h).symm⟩
  · rw [if_neg htasks] at h
    exact .inr ⟨htasks,(Option.some.inj h).symm⟩

theorem lock_cases (h : w.lock k = some v) : w.holder = none ∧ ∃ todo,
    (w.worker k = .waiting todo ∨ w.worker k = .draining todo) ∧
      v = { w.setWorker k (.running todo) with holder := some k } := by
  obtain ⟨hholder,h⟩ := ite_none_right_eq_some.mp h
  refine ⟨hholder,?_⟩
  split at h <;> cases h
  · exact ⟨_,.inl ‹_›,rfl⟩
  · exact ⟨_,.inr ‹_›,rfl⟩

theorem drain_cases (h : w.drain k = some v) : ∃ todo,
    w.worker k = .running (.endpointChanged :: todo) ∧
      v = { w.setWorker k (.draining todo) with holder := none } := by
  unfold drain at h
  split at h <;> cases h
  exact ⟨_,‹_›,rfl⟩

theorem finish_cases (h : w.finish k = some v) : ∃ task todo,
    w.worker k = .running (task :: todo) ∧ v = w.setWorker k (.running todo) := by
  unfold finish at h
  split at h <;> cases h
  exact ⟨_,_,‹_›,rfl⟩

theorem unlock_eq_some : w.unlock k = some v ↔
    w.worker k = .running [] ∧ v = { w.setWorker k .entered with holder := none } := by
  rw [unlock,ite_none_right_eq_some,some_inj,eq_comm (a := v)]

/-! ## Lost requests -/

theorem live_of_update (hv : v.worker = update w.worker k x) (hx : x ≠ .idle) : v.Live := by
  refine live_of_worker (k := k) ?_
  rwa [hv,update_self]

theorem Live.step {e : Event κ} (h : w.Live) (hstep : w.step e = some v) : v.Live := by
  cases e with
  | schedule task =>
    cases hstep
    exact h.schedulePeerTask task
  | start k =>
    obtain ⟨-,rfl⟩ := start_eq_some.mp hstep
    exact live_of_update (w := w) (k := k) (x := .entered) rfl (by decide)
  | take k =>
    obtain ⟨-,⟨htasks,rfl⟩ | ⟨-,rfl⟩⟩ := take_cases hstep
    · exact fun hne => absurd htasks hne
    · exact fun hne => absurd rfl hne
  | lock k =>
    obtain ⟨-,todo,-,rfl⟩ := lock_cases hstep
    exact live_of_update (w := w) (k := k) rfl (by simp)
  | drain k =>
    obtain ⟨todo,-,rfl⟩ := drain_cases hstep
    exact live_of_update (w := w) (k := k) rfl (by simp)
  | finish k =>
    obtain ⟨task,todo,-,rfl⟩ := finish_cases hstep
    exact live_of_update (w := w) (k := k) rfl (by simp)
  | unlock k =>
    obtain ⟨-,rfl⟩ := unlock_eq_some.mp hstep
    exact live_of_update (w := w) (k := k) (x := .entered) rfl (by decide)

def Event.Moves : Event κ → Prop
  | .schedule _ => False
  | .finish _ => False
  | _ => True

theorem step_eq_none {e : Event κ} (hqueued : w.queued = 0) (hidle : ∀ k, w.worker k = .idle)
    (hmoves : e.Moves) : w.step e = none := by
  cases e with
  | schedule | finish => exact hmoves.elim
  | start k => simp [step,start,hqueued]
  | take k => simp [step,take,hidle k]
  | lock k => simp [step,lock,hidle k]
  | drain k => simp [step,drain,hidle k]
  | unlock k => simp [step,unlock,hidle k]

/-! ## The lock -/

def Held (w : Work κ) : Prop := ∀ k todo, w.worker k = .running todo → w.holder = some k

omit [DecidableEq κ] in
theorem Held.exclusive (h : w.Held) {j : κ} (hj : w.worker j = .running xs)
    (hk : w.worker k = .running ys) : j = k :=
  Option.some.inj ((h j xs hj).symm.trans (h k ys hk))

omit [DecidableEq κ] in
theorem Held.asked (h : w.Held) (hask : w.Asked v) : v.Held := by
  intro k todo hk
  rw [hask.holder]
  exact h k todo (hask.worker ▸ hk)

theorem held_of_update (hv : v.worker = update w.worker k x)
    (hk : ∀ todo, x = .running todo → v.holder = some k)
    (hother : ∀ j todo, j ≠ k → w.worker j = .running todo → v.holder = some j) : v.Held := by
  intro j todo hj
  rw [hv] at hj
  by_cases hjk : j = k
  · subst hjk
    exact hk todo ((update_self ..).symm.trans hj)
  · rw [update_of_ne hjk] at hj
    exact hother j todo hjk hj

theorem Held.setRunning (h : w.Held) (hk : w.worker k = .running xs) :
    (w.setWorker k (.running ys)).Held :=
  held_of_update (k := k) rfl (fun _ _ => h k xs hk) fun j todo _ hj => h j todo hj

theorem Held.release (h : w.Held) (hk : w.worker k = .running xs)
    (hx : ∀ todo, x ≠ .running todo) (hv : v.worker = update w.worker k x) : v.Held :=
  held_of_update hv (fun todo he => absurd he (hx todo))
    fun _ _ hjk hj => absurd (h.exclusive hj hk) hjk

theorem Held.step {e : Event κ} (h : w.Held) (hstep : w.step e = some v) : v.Held := by
  cases e with
  | schedule task =>
    cases hstep
    exact h
  | start k =>
    obtain ⟨-,rfl⟩ := start_eq_some.mp hstep
    exact held_of_update (k := k) (x := .entered) rfl nofun fun j todo _ hj => h j todo hj
  | take k =>
    obtain ⟨-,⟨-,rfl⟩ | ⟨-,rfl⟩⟩ := take_cases hstep
    · exact held_of_update (k := k) (x := .idle) rfl nofun fun j todo _ hj => h j todo hj
    · exact held_of_update (k := k) (x := .waiting _) rfl nofun fun j todo _ hj => h j todo hj
  | lock k =>
    obtain ⟨hfree,todo,-,rfl⟩ := lock_cases hstep
    exact held_of_update (k := k) (x := .running todo) rfl (fun _ _ => rfl)
      fun j xs _ hj => nomatch hfree.symm.trans (h j xs hj)
  | drain k =>
    obtain ⟨todo,hk,rfl⟩ := drain_cases hstep
    exact h.release hk (x := .draining todo) nofun rfl
  | finish k =>
    obtain ⟨task,todo,hk,rfl⟩ := finish_cases hstep
    exact h.setRunning hk
  | unlock k =>
    obtain ⟨hk,rfl⟩ := unlock_eq_some.mp hstep
    exact h.release hk (x := .entered) nofun rfl

/-! ## Entries of the item -/

/-- The item has at most one entry, and none when no task is asked for: then the next
`wg_schedule_peer_task` adds one. -/
structure Single (w : Work κ) : Prop where
  queued_le : w.queued ≤ 1
  queued_eq : w.tasks = ∅ → w.queued = 0

section

omit [DecidableEq κ]

theorem Single.fresh : Single (Work.fresh : Work κ) := ⟨Nat.zero_le 1,fun _ => rfl⟩

theorem Single.schedulePeerTask (h : Single w) (task : Task) :
    Single (w.schedulePeerTask task) where
  queued_le := by
    unfold Work.schedulePeerTask
    split_ifs with htasks
    · exact Nat.le_of_eq (congrArg (· + 1) (h.queued_eq htasks))
    · exact h.queued_le
  queued_eq := fun hempty => absurd hempty (Finset.insert_ne_empty task w.tasks)

theorem Single.congr (h : Single w) (htasks : v.tasks = w.tasks) (hqueued : v.queued = w.queued) :
    Single v where
  queued_le := hqueued ▸ h.queued_le
  queued_eq := fun hv => hqueued.trans (h.queued_eq (htasks.symm.trans hv))

end

theorem Single.start (h : Single w) (hstart : w.start k = some v) : Single v := by
  obtain ⟨⟨-,hpos⟩,rfl⟩ := start_eq_some.mp hstart
  have hle := h.queued_le
  exact ⟨Nat.le_trans (Nat.sub_le _ _) hle,fun _ => Nat.sub_eq_zero_of_le hle⟩

/-- The worker does not take bits for which the item has been queued again. -/
def Event.Clear (w : Work κ) : Event κ → Prop
  | .take _ => w.tasks ≠ ∅ → w.queued = 0
  | _ => True

instance Event.decidableClear (w : Work κ) : (e : Event κ) → Decidable (e.Clear w)
  | .take _ => inferInstanceAs (Decidable (_ → _))
  | .schedule _ | .start _ | .lock _ | .drain _ | .finish _ | .unlock _ => isTrue trivial

theorem Single.take (h : Single w) (hclear : w.tasks ≠ ∅ → w.queued = 0)
    (htake : w.take k = some v) : Single v := by
  obtain ⟨-,⟨-,rfl⟩ | ⟨htasks,rfl⟩⟩ := take_cases htake
  · exact h.congr rfl rfl
  · exact ⟨h.queued_le,fun _ => hclear htasks⟩

theorem Single.step (h : Single w) {e : Event κ} (hclear : e.Clear w)
    (hstep : w.step e = some v) : Single v := by
  cases e with
  | schedule task =>
    cases hstep
    exact h.schedulePeerTask task
  | start k => exact h.start hstep
  | take k => exact h.take hclear hstep
  | lock k =>
    obtain ⟨-,todo,-,rfl⟩ := lock_cases hstep
    exact h.congr rfl rfl
  | drain k =>
    obtain ⟨todo,-,rfl⟩ := drain_cases hstep
    exact h.congr rfl rfl
  | finish k =>
    obtain ⟨task,todo,-,rfl⟩ := finish_cases hstep
    exact h.congr rfl rfl
  | unlock k =>
    obtain ⟨-,rfl⟩ := unlock_eq_some.mp hstep
    exact h.congr rfl rfl

/-- The item is never enqueued while queued, if no worker takes bits for which it was queued again:
a call that finds the bits clear finds the item off the queue. -/
theorem enqueued_once {es : List (Event κ)}
    (hclear : Along step (fun u e => e.Clear u) (fresh : Work κ) es)
    (hrun : exec step fresh es = some w) :
    w.queued ≤ 1 ∧ ∀ task, (w.schedulePeerTask task).queued ≤ 1 := by
  have h : Single w := exec_invariant_along Single (fun _ _ _ h => h.step) Single.fresh hclear hrun
  exact ⟨h.queued_le,fun task => (h.schedulePeerTask task).queued_le⟩

def twoRounds : List (Event Unit) :=
  [.schedule .sendInitMessage,.start (),.take (),.lock (),.finish (),.unlock (),.take (),
    .schedule .retryHandshake,.start (),.take (),.lock ()]

theorem enqueued_once_two_rounds : ∃ w, exec step fresh twoRounds = some w ∧
    w.worker () = .running [.retryHandshake] ∧
    (w.queued ≤ 1 ∧ ∀ task, (w.schedulePeerTask task).queued ≤ 1) := by
  have hrun := (some_get (x := exec step (fresh : Work Unit) twoRounds)
    (by decide +kernel)).symm
  exact ⟨_,hrun,by decide +kernel,enqueued_once (by decide +kernel) hrun⟩

/-- A task is asked for while the worker runs another, the worker takes it in its next round, and
the third request finds the bits clear with the item queued. -/
theorem enqueued_twice : ∃ w, exec step (fresh : Work Unit)
    [.schedule .sendInitMessage,.start (),.take (),.lock (),.schedule .retryHandshake,
      .finish (),.unlock (),.take ()] = some w ∧
    w.tasks = ∅ ∧ w.queued = 1 ∧ (w.schedulePeerTask .sendKeepaliveMessage).queued = 2 := by
  have hrun := (some_get (x := exec step (fresh : Work Unit)
    [.schedule .sendInitMessage,.start (),.take (),.lock (),.schedule .retryHandshake,
      .finish (),.unlock (),.take ()]) (by decide +kernel)).symm
  exact ⟨_,hrun,by decide +kernel⟩

end Work
end NanoBSD.Wg
