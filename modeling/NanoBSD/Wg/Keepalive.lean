import NanoBSD.Wg.Frame

/-! # The persistent keepalive of a published peer

`wg_init` sets `IFF_RUNNING` and then arms the keepalive timer; `wg_stop` clears the flag and
then cancels the timer, without waiting for a worker. The worker reads the flag, sends if the
interval is over, and arms the timer, in three steps under `wgp_lock`, which the two do not
take. A firing is one step: what the function of a timer does is the critical section of
`wg_schedule_peer_task`.
-/
namespace NanoBSD.Wg
open Function

def Worker.next : Worker → Option Task
  | .running (task :: _) => some task
  | _ => none

/-- Where `wg_init` and `wg_stop` are, which exclude each other. -/
inductive Admin
  | rest
  | arming
  | cancelling
  deriving DecidableEq, Repr

/-- Where a thread is in `wg_task_persistent_keepalive`: past the test of the flag, made after
`firings` firings, or about to arm the timer after `idle` seconds without a packet. -/
inductive Progress
  | checked (firings : ℕ)
  | sent (idle : UInt32)
  deriving DecidableEq, Repr

/-- A peer with the threads in its keepalive task, the firings of the keepalive timer, and for each
sending of the task the firings before its test of the flag. -/
structure Link (κ : Type) where
  peer : Peer κ
  admin : Admin
  doing : κ → Option Progress
  firings : ℕ
  sends : List ℕ

namespace Link
variable {κ : Type}

/-- `up` and `arm` are `wg_init`, `down` and `cancel` `wg_stop`; `check`, `send` and `rearm` are the
keepalive task, and `work` is a step elsewhere. -/
inductive Event (κ : Type)
  | pass (seconds ticks : ℕ)
  | input (i : Peer.Input)
  | up
  | arm
  | down
  | cancel
  | fire (t : TimerName)
  | work (e : Peer.WorkerEvent κ)
  | check (k : κ)
  | send (k : κ) (error : Bool) (d : Delivery)
  | rearm (k : κ)
  deriving DecidableEq, Repr

def setPeer (s : Link κ) (p : Peer κ) : Link κ := { s with peer := p }

def fire (P : Params) (s : Link κ) (t : TimerName) : Option (Link κ) :=
  match (s.peer.timer t).pending with
  | some due =>
    if due ≤ s.peer.ticks then
      some { s with
        peer := (s.peer.calloutStop t).callback P t
        firings := if t = .persistentKeepalive then s.firings + 1 else s.firings }
    else none
  | none => none

variable [DecidableEq κ]

def setDoing (s : Link κ) (k : κ) (x : Option Progress) : Link κ :=
  { s with doing := update s.doing k x }

def leave (s : Link κ) (k : κ) : Option (Link κ) :=
  (s.peer.work.finish k).map fun w => (s.setPeer (s.peer.setWork w)).setDoing k none

def check (s : Link κ) (k : κ) : Option (Link κ) :=
  if (s.peer.work.worker k).next = some .persistentKeepalive ∧ s.doing k = none then
    if s.peer.persistentKeepalive = 0 ∨ s.peer.ifRunning = false then s.leave k
    else some (s.setDoing k (some (.checked s.firings)))
  else none

def send (P : Params) (s : Link κ) (k : κ) (error : Bool) (d : Delivery) : Option (Link κ) :=
  match s.doing k with
  | some (.checked n) =>
    if s.peer.persistentKeepalive ≤ s.peer.keepaliveIdle then
      some { (s.setPeer (s.peer.keepaliveSend P error d)).setDoing k (some (.sent 0)) with
        sends := n :: s.sends }
    else some (s.setDoing k (some (.sent s.peer.keepaliveIdle)))
  | _ => none

def rearm (P : Params) (s : Link κ) (k : κ) : Option (Link κ) :=
  match s.doing k with
  | some (.sent idle) => (s.setPeer (s.peer.keepaliveArm P idle)).leave k
  | _ => none

def work (P : Params) (s : Link κ) (e : Peer.WorkerEvent κ) : Option (Link κ) :=
  match e with
  | .run k _ _ =>
    if (s.peer.work.worker k).next = some .persistentKeepalive then none
    else (s.peer.workerStep P e).map s.setPeer
  | _ => (s.peer.workerStep P e).map s.setPeer

def step (P : Params) (s : Link κ) : Event κ → Option (Link κ)
  | .pass seconds ticks =>
    some (s.setPeer { s.peer with
      uptime := s.peer.uptime + seconds, ticks := s.peer.ticks + ticks })
  | .input i => if s.peer.Admits i then some (s.setPeer (s.peer.input P i)) else none
  | .up =>
    if s.admin = .rest then
      some { s with peer := { s.peer with ifRunning := true }, admin := .arming }
    else none
  | .arm =>
    if s.admin = .arming then
      some { s with peer := s.peer.persistentKeepaliveAll P true, admin := .rest }
    else none
  | .down =>
    if s.admin = .rest ∧ s.peer.ifRunning then
      some { s with peer := { s.peer with ifRunning := false }, admin := .cancelling }
    else none
  | .cancel =>
    if s.admin = .cancelling then
      some { s with peer := s.peer.persistentKeepaliveAll P false, admin := .rest }
    else none
  | .fire t => s.fire P t
  | .work e => s.work P e
  | .check k => s.check k
  | .send k error d => s.send P k error d
  | .rearm k => s.rearm P k

/-- A peer as it is published, with its timer armed if the interface runs. -/
structure Published (P : Params) (s : Link κ) : Prop where
  fresh : s.peer.work = .fresh
  interval : 1 ≤ s.peer.persistentKeepalive ∧ s.peer.persistentKeepalive ≤ 65535
  timer : s.peer.ifRunning = true →
    (s.peer.timer .persistentKeepalive).pending = some (s.peer.ticks + P.hz)
  admin : s.admin = .rest
  doing : ∀ k, s.doing k = none
  firings : s.firings = 0
  sends : s.sends = []

/-! ## The steps of the task -/

variable {P : Params} {s : Link κ} {k : κ} {error : Bool} {d : Delivery} {task : Task}
  {todo : List Task}

@[simp] theorem setDoing_peer (x : Option Progress) : (s.setDoing k x).peer = s.peer := rfl

theorem setDoing_self (s : Link κ) (x : Option Progress) : (s.setDoing k x).doing k = x := by
  simp only [setDoing,update_self]

theorem setDoing_of_ne {j : κ} (h : j ≠ k) (x : Option Progress) :
    (s.setDoing k x).doing j = s.doing j := by
  simp only [setDoing,update_of_ne h]

theorem leave_eq (hk : s.peer.work.worker k = .running (task :: todo)) :
    s.leave k = some ((s.setPeer (s.peer.setWork
      (s.peer.work.setWorker k (.running todo)))).setDoing k none) := by
  simp [leave,Work.finish,hk]

theorem rearm_eq {idle : UInt32}
    (hdoing : s.doing k = some (.sent idle)) (hk : s.peer.work.worker k = .running (task :: todo)) :
    s.rearm P k = some ((s.setPeer ((s.peer.keepaliveArm P idle).setWork
      (s.peer.work.setWorker k (.running todo)))).setDoing k none) := by
  have hleave : (s.setPeer (s.peer.keepaliveArm P idle)).leave k = _ := leave_eq hk
  simp only [rearm,hdoing,hleave]
  rfl

theorem send_eq {n : ℕ} (hdoing : s.doing k = some (.checked n)) :
    s.send P k error d = some (if s.peer.persistentKeepalive ≤ s.peer.keepaliveIdle then
      { (s.setPeer (s.peer.keepaliveSend P error d)).setDoing k (some (.sent 0)) with
        sends := n :: s.sends }
    else s.setDoing k (some (.sent s.peer.keepaliveIdle))) := by
  simp only [send,hdoing]
  split_ifs <;> rfl

/-- The three steps of the task make up `wg_task_persistent_keepalive`. -/
theorem task_of_steps
    (hk : s.peer.work.worker k = .running (.persistentKeepalive :: todo))
    (hdoing : s.doing k = none)
    (hgo : ¬(s.peer.persistentKeepalive = 0 ∨ s.peer.ifRunning = false)) : ∃ t,
    exec (step P) s [.check k,.send k error d,.rearm k] = some t ∧ t.doing = s.doing ∧
      t.peer = (s.peer.taskPersistentKeepalive P error d).setWork
        ((s.peer.taskPersistentKeepalive P error d).work.setWorker k (.running todo)) := by
  have hcheck : s.step P (.check k) = some (s.setDoing k (some (.checked s.firings))) := by
    simp [step,check,hk,Worker.next,hdoing,hgo]
  have hsend : (s.setDoing k (some (.checked s.firings))).send P k error d = _ :=
    send_eq (setDoing_self s _)
  rw [setDoing_peer] at hsend
  have hback : update s.doing k none = s.doing := by
    rw [← hdoing,update_eq_self]
  by_cases hdue : s.peer.persistentKeepalive ≤ s.peer.keepaliveIdle
  · have hworker : (s.peer.keepaliveSend P error d).work.worker k =
        .running (.persistentKeepalive :: todo) := by
      rw [(Peer.kept_keepaliveSend (T := fun _ => True) trivial).asked.worker,hk]
    rw [if_pos hdue] at hsend
    refine ⟨_,exec_cons_eq_some.mpr ⟨_,hcheck,exec_cons_eq_some.mpr ⟨_,hsend,
      exec_cons_eq_some.mpr ⟨_,rearm_eq (setDoing_self _ _) hworker,rfl⟩⟩⟩,?_,?_⟩
    · simpa [setDoing,setPeer] using hback
    · rw [Peer.taskPersistentKeepalive,if_neg hgo,if_pos hdue]
      rfl
  · rw [if_neg hdue] at hsend
    refine ⟨_,exec_cons_eq_some.mpr ⟨_,hcheck,exec_cons_eq_some.mpr ⟨_,hsend,
      exec_cons_eq_some.mpr ⟨_,rearm_eq (setDoing_self _ _) hk,rfl⟩⟩⟩,?_,?_⟩
    · simpa [setDoing,setPeer] using hback
    · rw [Peer.taskPersistentKeepalive,if_neg hgo,if_neg hdue]
      rfl

end Link
end NanoBSD.Wg
