import NanoBSD.Wg.Frame
import Mathlib.Data.Fintype.Basic

/-! # A peer from its allocation to its end

Packets, timers and worker threads act on a peer in any order and with any time in between,
until `wg_destroy_peer` has waited for all of them. A timer expires in one step and its
function runs in another; `callout_halt` cancels a timer and waits for its function.
-/
namespace NanoBSD.Wg

inductive Stage
  | alive
  | closed
  | haltedHandshake
  | haltedDtor
  | haltedKeepalive
  | drained
  deriving DecidableEq, Repr

def Stage.nextHalt : Stage → Option (TimerName × Stage)
  | .closed => some (.handshakeTimeout,.haltedHandshake)
  | .haltedHandshake => some (.sessionDtor,.haltedDtor)
  | .haltedDtor => some (.persistentKeepalive,.haltedKeepalive)
  | _ => none

structure System (κ : Type) where
  peer : Peer κ
  stage : Stage

/-- `expire` and `callback` are the two steps of a firing; `close`, `halt` and `wait` are the
steps of `wg_destroy_peer`. -/
inductive Event (κ : Type)
  | pass (seconds ticks : ℕ)
  | input (i : Peer.Input)
  | ifInit
  | ifStop
  | expire (t : TimerName)
  | callback (t : TimerName)
  | work (e : Peer.WorkerEvent κ)
  | close
  | halt
  | wait
  deriving DecidableEq, Repr

namespace Peer
variable {κ : Type}

def expire (p : Peer κ) (t : TimerName) : Option (Peer κ) :=
  match p.timer t with
  | ⟨some due,false⟩ => if due ≤ p.ticks then some (p.setTimer t ⟨none,true⟩) else none
  | _ => none

def runCallback (P : Params) (p : Peer κ) (t : TimerName) : Option (Peer κ) :=
  if (p.timer t).running then
    let q := p.callback P t
    some (q.setTimer t { q.timer t with running := false })
  else none

def calloutHalt (p : Peer κ) (t : TimerName) : Option (Peer κ) :=
  if (p.timer t).running then none else some (p.calloutStop t)

end Peer

namespace System
variable {κ : Type}

def setPeer (s : System κ) (p : Peer κ) : System κ := { s with peer := p }

def setRunning (P : Params) (s : System κ) (on : Bool) : System κ :=
  let p := { s.peer with ifRunning := on }
  s.setPeer (if s.stage = .alive then p.persistentKeepaliveAll P on else p)

variable [DecidableEq κ] [Fintype κ]

def step (P : Params) (s : System κ) : Event κ → Option (System κ)
  | .pass seconds ticks =>
    some (s.setPeer { s.peer with
      uptime := s.peer.uptime + seconds, ticks := s.peer.ticks + ticks })
  | .input i =>
    if s.stage = .alive ∧ s.peer.Admits i then some (s.setPeer (s.peer.input P i)) else none
  | .ifInit => some (s.setRunning P true)
  | .ifStop => if s.peer.ifRunning then some (s.setRunning P false) else none
  | .expire t => (s.peer.expire t).map s.setPeer
  | .callback t => (s.peer.runCallback P t).map s.setPeer
  | .work e => (s.peer.workerStep P e).map s.setPeer
  | .close =>
    if s.stage = .alive ∧ s.peer.work.holder = none then
      some ⟨{ s.peer with pending := false, persistentKeepalive := 0 },.closed⟩
    else none
  | .halt =>
    match s.stage.nextHalt with
    | some (t,next) => (s.peer.calloutHalt t).map fun p => ⟨p,next⟩
    | none => none
  | .wait =>
    if s.stage = .haltedKeepalive ∧ s.peer.work.queued = 0 ∧ ∀ k, s.peer.work.worker k = .idle then
      some { s with stage := .drained }
    else none

/-- The task that a thread is about to run meets `Q`; `error` says that the send of a handshake
message will fail. -/
def OnTask (Q : System κ → Bool → Task → Prop) (s : System κ) : Event κ → Prop
  | .work (.run k error _) =>
    match s.peer.work.worker k with
    | .running (task :: _) => Q s error task
    | _ => True
  | _ => True

omit [DecidableEq κ] [Fintype κ] in
theorem onTask_run {Q : System κ → Bool → Task → Prop} {s : System κ} {k : κ} {error : Bool}
    {d : Delivery} {task : Task} {todo : List Task}
    (hk : s.peer.work.worker k = .running (task :: todo)) :
    OnTask Q s (.work (.run k error d)) ↔ Q s error task := by
  simp only [OnTask,hk]

instance decidableOnTask {Q : System κ → Bool → Task → Prop}
    [∀ s error task, Decidable (Q s error task)] (s : System κ) :
    (e : Event κ) → Decidable (OnTask Q s e)
  | .work (.run k error d) =>
    match hk : s.peer.work.worker k with
    | .running (task :: _) => decidable_of_iff (Q s error task) (onTask_run hk).symm
    | .running [] | .idle | .entered | .waiting _ | .draining _ =>
      isTrue (by simp only [OnTask,hk])
  | .work (.start _) | .work (.take _) | .work (.lock _) | .work (.unlock _)
  | .pass _ _ | .input _ | .ifInit | .ifStop | .expire _ | .callback _ | .close | .halt
  | .wait => isTrue trivial

end System

structure Peer.Fresh {κ : Type} (p : Peer κ) : Prop where
  stable : p.stable.state = .unknown
  unstable : p.unstable.state = .unknown
  work : p.work = .fresh
  log : p.log = []

namespace System

def added : System Unit := ⟨.added Unit true,.alive⟩
theorem added_fresh : added.peer.Fresh := ⟨rfl,rfl,rfl,rfl⟩

def oneRound : List (Event Unit) :=
  [.work (.start ()),.work (.take ()),.work (.lock ()),.work (.run () false .sent),
    .work (.unlock ()),.work (.take ())]

end System
end NanoBSD.Wg
