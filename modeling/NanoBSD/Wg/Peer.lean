import NanoBSD.Wg.Work
import Mathlib.Algebra.Group.Nat.Defs

/-! # A peer of `wg(4)`

The sessions of one peer, its timers and what the receive path, the transmit path and the
worker's tasks do to them. A session's keys and windows and the contents of messages are left
out: a received message is one that has passed all checks that need no session state, and the
outcome of a send is given. `time_uptime` and the ticks of the callouts are separate clocks.
-/
namespace NanoBSD.Wg

structure Params where
  hz : ℕ
  rekeyAfterMessages : UInt64
  rejectAfterMessages : UInt64
  rekeyAfterTime : UInt32
  rejectAfterTime : UInt32
  rekeyAttemptTime : UInt32
  rekeyTimeout : UInt32
  keepaliveTimeout : UInt32

def Params.protocol (hz : ℕ) : Params where
  hz := hz
  rekeyAfterMessages := UInt64.ofNat (2^60)
  rejectAfterMessages := UInt64.ofNat (2^64 - 1 - 2^13)
  rekeyAfterTime := 120
  rejectAfterTime := 180
  rekeyAttemptTime := 90
  rekeyTimeout := 5
  keepaliveTimeout := 10

inductive SessionState
  | unknown
  | initActive
  | initPassive
  | established
  | destroying
  deriving DecidableEq, Repr

structure Session where
  state : SessionState
  timeEstablished : UInt32
  timeLastDataSent : UInt32
  isInitiator : Bool
  forceRekey : Bool
  sendCounter : UInt64
  deriving DecidableEq, Repr

namespace Session

def fresh : Session := ⟨.unknown,0,0,false,false,0⟩
def age (s : Session) (now : UInt32) : UInt32 := now - s.timeEstablished

def hitLimits (P : Params) (now : UInt32) (s : Session) : Bool :=
  P.rejectAfterTime < s.age now ∨ P.rejectAfterMessages < s.sendCounter

def destroy (s : Session) : Session :=
  { s with state := .unknown, sendCounter := 0, forceRekey := false }

def retire (s : Session) : Session :=
  if s.state = .established then { s with state := .destroying }
  else { s with sendCounter := 0, state := .unknown }

def needToSendInitMessage (P : Params) (now : UInt32) (s : Session) : Bool :=
  s.isInitiator ∧ s.timeLastDataSent = 0 ∧
    P.rejectAfterTime - P.keepaliveTimeout - P.rekeyTimeout ≤ s.age now

end Session

/-- A callout: the tick at which it is due if it is pending, and whether its function runs. -/
structure Timer where
  pending : Option ℕ
  running : Bool
  deriving DecidableEq, Repr

def Timer.quiet : Timer := ⟨none,false⟩

inductive TimerName
  | handshakeTimeout
  | sessionDtor
  | persistentKeepalive
  deriving DecidableEq, Repr

inductive Delivery
  | noBuffer
  | failed
  | sent
  deriving DecidableEq, Repr

/-- A message of transport data was encrypted: its session as the message found it, before it
took its counter, and the time. -/
structure Encryption where
  session : Session
  now : UInt32
  deriving DecidableEq, Repr

structure Peer (κ : Type) where
  uptime : ℕ
  ticks : ℕ
  stable : Session
  unstable : Session
  endpointAvailable : Bool
  endpointChanging : Bool
  pending : Bool
  handshakeStartTime : ℕ
  persistentKeepalive : UInt32
  lastSent : UInt32
  ifRunning : Bool
  timer : TimerName → Timer
  work : Work κ
  panicked : Bool
  log : List Encryption

/-- A peer with an endpoint and a keepalive interval of 25 seconds, as it is added. -/
def Peer.added (κ : Type) (ifRunning : Bool) : Peer κ where
  uptime := 1000
  ticks := 100000
  stable := .fresh
  unstable := .fresh
  endpointAvailable := true
  endpointChanging := false
  pending := false
  handshakeStartTime := 0
  persistentKeepalive := 25
  lastSent := 0
  ifRunning := ifRunning
  timer := fun _ => .quiet
  work := .fresh
  panicked := false
  log := []

inductive Slot
  | stable
  | unstable
  deriving DecidableEq, Repr

namespace Peer
variable {κ : Type}

def now (p : Peer κ) : UInt32 := UInt32.ofNat p.uptime

def session (p : Peer κ) : Slot → Session
  | .stable => p.stable
  | .unstable => p.unstable

def setSession (p : Peer κ) (slot : Slot) (s : Session) : Peer κ :=
  match slot with
  | .stable => { p with stable := s }
  | .unstable => { p with unstable := s }

def schedulePeerTask (p : Peer κ) (task : Task) : Peer κ :=
  { p with work := p.work.schedulePeerTask task }

def setTimer (p : Peer κ) (t : TimerName) (x : Timer) : Peer κ :=
  { p with timer := Function.update p.timer t x }

def calloutSchedule (p : Peer κ) (t : TimerName) (toTicks : ℕ) : Peer κ :=
  p.setTimer t { p.timer t with pending := some (p.ticks + toTicks) }

def calloutStop (p : Peer κ) (t : TimerName) : Peer κ :=
  p.setTimer t { p.timer t with pending := none }

/-! ## Transport data -/

def encrypt (p : Peer κ) : Peer κ :=
  { p with
    stable := { p.stable with sendCounter := p.stable.sendCounter + 1 }
    log := ⟨p.stable,p.now⟩ :: p.log }

def stampSent (p : Peer κ) : Peer κ :=
  { p with
    stable := { p.stable with timeLastDataSent := max p.now 1 }
    lastSent := p.now }

def forceRekey (p : Peer κ) : Peer κ :=
  schedulePeerTask { p with stable := { p.stable with forceRekey := true } } .sendInitMessage

def checkRekeyAfterTime (P : Params) (p : Peer κ) : Peer κ :=
  if p.stable.isInitiator ∧ P.rekeyAfterTime ≤ p.stable.age p.now then p.forceRekey else p

def checkRekeyAfterMessages (P : Params) (p : Peer κ) : Peer κ :=
  if P.rekeyAfterMessages ≤ p.stable.sendCounter then p.forceRekey else p

def sendDataMsg (P : Params) (d : Delivery) (p : Peer κ) : Peer κ :=
  match d with
  | .noBuffer => p
  | .failed => p.encrypt
  | .sent => (p.encrypt.stampSent.checkRekeyAfterTime P).checkRekeyAfterMessages P

def wgintr (P : Params) (d : Delivery) (p : Peer κ) : Peer κ :=
  if p.stable.state ≠ .established then
    if p.pending then p
    else schedulePeerTask { p with pending := true } .sendInitMessage
  else if p.stable.hitLimits P p.now then
    if p.pending then p else forceRekey { p with pending := true }
  else p.sendDataMsg P d

/-! ## Handshakes -/

def initiate (P : Params) (error : Bool) (p : Peer κ) : Peer κ :=
  if error then
    { p with
      unstable := { p.unstable with state := .initActive }.destroy
      pending := false }
  else
    let start := if p.handshakeStartTime = 0 then p.uptime else p.handshakeStartTime
    calloutSchedule
      { p with unstable := { p.unstable with state := .initActive }, handshakeStartTime := start }
      .handshakeTimeout (min P.rekeyTimeout.toNat ((2^31 - 1) / P.hz) * P.hz)

def sendHandshakeMsgInit (P : Params) (error : Bool) (p : Peer κ) : Peer κ :=
  match p.unstable.state with
  | .unknown => p.initiate P error
  | .initActive => p
  | .initPassive => p
  | .established => { p with panicked := true }
  | .destroying => initiate P error { p with unstable := p.unstable.destroy }

def kickOff (P : Params) (d : Delivery) (p : Peer κ) : Peer κ :=
  if p.pending then sendDataMsg P d { p with pending := false }
  else if p.stable.isInitiator then p.sendDataMsg P d
  else p

def swapSessions (P : Params) (d : Delivery) (p : Peer κ) : Peer κ :=
  { kickOff P d { p with stable := p.unstable, unstable := p.stable, handshakeStartTime := 0 } with
    unstable := p.stable.retire }

def updateEndpoint (moved : Bool) (p : Peer κ) : Peer κ :=
  if moved ∧ p.endpointChanging = false then
    schedulePeerTask { p with endpointChanging := true, endpointAvailable := true } .endpointChanged
  else p

def scheduleSessionDtorTimer (P : Params) (p : Peer κ) : Peer κ :=
  if (p.timer .sessionDtor).pending.isSome then p
  else p.calloutSchedule .sessionDtor (P.rejectAfterTime * UInt32.ofNat P.hz).toNat

def stampEstablished (P : Params) (slot : Slot) (p : Peer κ) : Peer κ :=
  scheduleSessionDtorTimer P
    (p.setSession slot { p.session slot with timeEstablished := p.now })

def respond (P : Params) (moved : Bool) (p : Peer κ) : Peer κ :=
  let q := (p.updateEndpoint moved).stampEstablished P .unstable
  { q with unstable := { q.unstable with sendCounter := 0, state := .initPassive } }

def handleMsgInit (P : Params) (priority moved : Bool) (p : Peer κ) : Peer κ :=
  match p.unstable.state with
  | .unknown => p.respond P moved
  | .initActive =>
    if priority then p else respond P moved { p with unstable := p.unstable.destroy }
  | .initPassive => respond P moved { p with unstable := p.unstable.destroy }
  | .established => { p with panicked := true }
  | .destroying => respond P moved { p with unstable := p.unstable.destroy }

def handleMsgResp (P : Params) (slot : Slot) (moved : Bool) (d : Delivery) (p : Peer κ) : Peer κ :=
  if (p.session slot).state ≠ .initActive then p
  else
    let q := (p.updateEndpoint moved).stampEstablished P slot
    let r := q.setSession slot { q.session slot with
      timeLastDataSent := 0, isInitiator := true, sendCounter := 0, state := .established }
    (r.calloutStop .handshakeTimeout).swapSessions P d

def askAfterData (P : Params) (s : Session) (p : Peer κ) : Peer κ :=
  let q := if s.needToSendInitMessage P p.now then p.schedulePeerTask .sendInitMessage else p
  if P.keepaliveTimeout ≤ p.now - s.timeLastDataSent then q.schedulePeerTask .sendKeepaliveMessage
  else q

def handleMsgData (P : Params) (slot : Slot) (moved : Bool) (p : Peer κ) : Peer κ :=
  let s := p.session slot
  if s.state = .unknown ∨ s.state = .initActive then p
  else if P.rejectAfterTime ≤ s.age p.now then p
  else if s.state = .initPassive then (p.updateEndpoint moved).schedulePeerTask .establishSession
  else (p.updateEndpoint moved).askAfterData P s

/-! ## Tasks -/

def taskSendInitMessage (P : Params) (error : Bool) (p : Peer κ) : Peer κ :=
  if p.endpointAvailable = false then p
  else if p.stable.state = .established ∧ p.stable.forceRekey = false then p
  else p.sendHandshakeMsgInit P error

def taskRetryHandshake (P : Params) (error : Bool) (p : Peer κ) : Peer κ :=
  if p.unstable.state ≠ .initActive then p
  else
    let q := { p with unstable := p.unstable.destroy }
    if P.rekeyAttemptTime.toNat < p.uptime - p.handshakeStartTime then
      { q with handshakeStartTime := 0, pending := false }
    else q.taskSendInitMessage P error

def taskEstablishSession (P : Params) (d : Delivery) (p : Peer κ) : Peer κ :=
  if p.unstable.state ≠ .initPassive then p
  else
    swapSessions P d { p with
      unstable := { p.unstable with
        timeLastDataSent := 0, isInitiator := false, state := .established } }

def taskSendKeepaliveMessage (P : Params) (d : Delivery) (p : Peer κ) : Peer κ :=
  if p.stable.state ≠ .established then p else p.sendDataMsg P d

def expired (P : Params) (p : Peer κ) (s : Session) : Bool := P.rejectAfterTime ≤ s.age p.now

def dropUnstable (P : Params) (p : Peer κ) : Peer κ :=
  if p.unstable.state = .destroying ∧ p.expired P p.unstable then
    { p with unstable := p.unstable.destroy }
  else p

def dropStable (P : Params) (p : Peer κ) : Peer κ :=
  if p.stable.state = .established ∧ p.expired P p.stable then
    { p with stable := p.stable.destroy }
  else p

def taskDestroyPrevSession (P : Params) (p : Peer κ) : Peer κ :=
  let q := (p.dropUnstable P).dropStable P
  if q.unstable.state = .unknown ∧ q.stable.state = .unknown then q.calloutStop .sessionDtor else q

def keepaliveIdle (p : Peer κ) : UInt32 :=
  if p.persistentKeepalive < p.now - p.lastSent then p.persistentKeepalive else p.now - p.lastSent

def keepaliveSend (P : Params) (error : Bool) (d : Delivery) (p : Peer κ) : Peer κ :=
  if p.stable.state = .established ∧ p.stable.hitLimits P p.now = false then p.sendDataMsg P d
  else
    let s :=
      if p.stable.state = .established then { p.stable with forceRekey := true } else p.stable
    { taskSendInitMessage P error { p with stable := s } with lastSent := p.now }

def keepaliveArm (P : Params) (idle : UInt32) (p : Peer κ) : Peer κ :=
  p.calloutSchedule .persistentKeepalive
    (UInt32.ofNat P.hz * (p.persistentKeepalive - idle)).toNat

def taskPersistentKeepalive (P : Params) (error : Bool) (d : Delivery) (p : Peer κ) : Peer κ :=
  if p.persistentKeepalive = 0 ∨ p.ifRunning = false then p
  else if p.persistentKeepalive ≤ p.keepaliveIdle then
    (p.keepaliveSend P error d).keepaliveArm P 0
  else p.keepaliveArm P p.keepaliveIdle

/-- A task of `wg_peer_work`. `wg_task_endpoint_changed` does nothing here: what it does it
does without the lock. -/
def runTask (P : Params) (error : Bool) (d : Delivery) (p : Peer κ) : Task → Peer κ
  | .sendInitMessage => p.taskSendInitMessage P error
  | .retryHandshake => p.taskRetryHandshake P error
  | .establishSession => p.taskEstablishSession P d
  | .endpointChanged => p
  | .sendKeepaliveMessage => p.taskSendKeepaliveMessage P d
  | .destroyPrevSession => p.taskDestroyPrevSession P
  | .persistentKeepalive => p.taskPersistentKeepalive P error d

/-! ## Timers -/

def callback (P : Params) (p : Peer κ) : TimerName → Peer κ
  | .handshakeTimeout => p.schedulePeerTask .retryHandshake
  | .sessionDtor => (p.scheduleSessionDtorTimer P).schedulePeerTask .destroyPrevSession
  | .persistentKeepalive => p.schedulePeerTask .persistentKeepalive

def persistentKeepaliveAll (P : Params) (arm : Bool) (p : Peer κ) : Peer κ :=
  if p.persistentKeepalive = 0 then p
  else if arm then p.calloutSchedule .persistentKeepalive P.hz
  else p.calloutStop .persistentKeepalive

/-! ## Packets and threads -/

inductive Input
  | init (priority moved : Bool)
  | resp (slot : Slot) (moved : Bool) (d : Delivery)
  | data (slot : Slot) (moved : Bool)
  | packet (d : Delivery)
  deriving DecidableEq, Repr

def input (P : Params) (p : Peer κ) : Input → Peer κ
  | .init priority moved => p.handleMsgInit P priority moved
  | .resp slot moved d => p.handleMsgResp P slot moved d
  | .data slot moved => p.handleMsgData P slot moved
  | .packet d => p.wgintr P d

/-- The handlers of handshake messages hold `wgp_lock`, and the one of responses waits for the
function of the handshake timer. -/
def Admits (p : Peer κ) : Input → Prop
  | .init _ _ => p.work.holder = none
  | .resp _ _ _ => p.work.holder = none ∧ (p.timer .handshakeTimeout).running = false
  | .data _ _ => True
  | .packet _ => True

inductive WorkerEvent (κ : Type)
  | start (k : κ)
  | take (k : κ)
  | lock (k : κ)
  | run (k : κ) (error : Bool) (d : Delivery)
  | unlock (k : κ)
  deriving DecidableEq, Repr

variable [DecidableEq κ]

instance (p : Peer κ) : (i : Input) → Decidable (p.Admits i)
  | .init _ _ => inferInstanceAs (Decidable (_ = _))
  | .resp _ _ _ => inferInstanceAs (Decidable (_ ∧ _))
  | .data _ _ | .packet _ => isTrue trivial

def setWork (p : Peer κ) (w : Work κ) : Peer κ := { p with work := w }

def relock (p : Peer κ) (k : κ) (w : Work κ) : Peer κ :=
  match p.work.worker k with
  | .draining _ => { p with work := w, endpointChanging := false }
  | _ => p.setWork w

/-- The next task of a thread. `wg_task_endpoint_changed` lets go of the lock;
`wg_task_destroy_prev_session` waits for the destructor timer. -/
def runNext (P : Params) (p : Peer κ) (k : κ) (error : Bool) (d : Delivery) : Option (Peer κ) :=
  match p.work.worker k with
  | .running (task :: todo) =>
    if task = .endpointChanged ∧ p.endpointChanging then (p.work.drain k).map p.setWork
    else if task = .destroyPrevSession ∧ (p.timer .sessionDtor).running then none
    else
      let q := p.runTask P error d task
      some (q.setWork (q.work.setWorker k (.running todo)))
  | _ => none

def workerStep (P : Params) (p : Peer κ) : WorkerEvent κ → Option (Peer κ)
  | .start k => (p.work.start k).map p.setWork
  | .take k => (p.work.take k).map p.setWork
  | .lock k => (p.work.lock k).map (p.relock k)
  | .run k error d => p.runNext P k error d
  | .unlock k => (p.work.unlock k).map p.setWork

end Peer
end NanoBSD.Wg
