import NanoBSD.Lib.Script
import NanoBSD.Wg.Peer

/-! # The critical sections of a peer

What the handlers of handshake messages and the worker's tasks do under `wgp_lock`, action by
action, so that other threads may come between any two of them. The two session slots of a peer
are told apart by a `Bool`, and the peer points to the stable one. What the code finds in a
message, on the clock, in `wgs_force_rekey`, in the pending packet, or from a send, is an answer
from outside. The keys and the send counter of a session, which senders use without the lock,
are not part of this state.
-/
namespace NanoBSD.Wg.Sessions
open Function

/-- The life of a session in a slot, for which the code has no field: `absent` when no pointer to it
can be followed, `linked` once its index is taken, `keyed` with new keys, `ready` with its counter
reset, and `used` from when it is established until its references have drained. -/
inductive Life
  | absent
  | linked
  | keyed
  | ready
  | used
  deriving DecidableEq, Repr

/-- The fields of a `wg_session` that only the holder of `wgp_lock` writes; `listed`, for being in
`wg_sessions_byindex`, and `life` are auxiliary. -/
structure Session where
  state : SessionState
  localIndex : UInt32
  isInitiator : Bool
  listed : Bool
  life : Life
  deriving DecidableEq, Repr

def Session.fresh : Session := ⟨.unknown,0,false,false,.absent⟩

structure Peer where
  session : Bool → Session
  stable : Bool
  handshakeStartTime : ℕ
  lastSentMac1Valid : Bool

inductive Site
  | lookupSessionByIndex
  | destroySession
  | getSessionIndex
  | putSessionIndex
  | fillMsgInit
  | sendHandshakeMsgInit
  | fillMsgResp
  | sendHandshakeMsgResp
  | handleMsgInit
  | swapSessions
  | handleMsgResp
  | handleMsgCookie
  | taskRetryHandshake
  | taskEstablishSession
  | taskDestroyPrevSession
  deriving DecidableEq, Repr

namespace Peer

def fresh : Peer := ⟨fun _ => .fresh,true,0,false⟩
def unstable (v : Peer) : Bool := !v.stable
def state (v : Peer) (σ : Bool) : SessionState := (v.session σ).state

def set (v : Peer) (σ : Bool) (x : Session) : Peer :=
  { v with session := update v.session σ x }

variable (v : Peer) (x : Session)

theorem stable_ne_unstable : v.stable ≠ v.unstable := by simp [unstable]

theorem eq_stable_or_eq_unstable (σ : Bool) : σ = v.stable ∨ σ = v.unstable :=
  (Decidable.em (σ = v.stable)).imp_right Bool.eq_not.mpr

@[simp] theorem update_unstable_stable (f : Bool → Session) :
    update f v.unstable x v.stable = f v.stable :=
  update_of_ne v.stable_ne_unstable ..

@[simp] theorem update_stable_unstable (f : Bool → Session) :
    update f v.stable x v.unstable = f v.unstable :=
  update_of_ne v.stable_ne_unstable.symm ..

end Peer

/-- What the holder of `wgp_lock` does in one go. `quiesce` is `pserialize_perform`, with `some σ`
followed by `psref_target_destroy`; `assertPending` is the assertion of `wg_handle_msg_cookie`. -/
inductive Act
  | assert (site : Site) (f : Peer → Bool)
  | assertPending (σ : Bool)
  | thmapPut (σ : Bool)
  | thmapDel (σ : Bool)
  | quiesce (o : Option Bool)
  | zeroIndex (σ : Bool)
  | clearStates (σ : Bool)
  | calculateKeys (σ : Bool)
  | setState (σ : Bool) (state : SessionState)
  | setInitiator (σ b : Bool)
  | publish (σ : Bool)
  | startHandshake
  | endHandshake
  | setMac1Valid (b : Bool)
  | sendData (σ : Bool)

def Life.cleared : Life → Life
  | .keyed => .ready
  | l => l

namespace Peer

def aim (v : Peer) (σ : Bool) (i : UInt32) : Peer :=
  v.set σ { v.session σ with localIndex := i }

def link (v : Peer) (σ : Bool) (i : UInt32) : Peer :=
  v.set σ { v.session σ with localIndex := i, listed := true, life := .linked }

def drained (v : Peer) (σ : Bool) : Peer := v.set σ { v.session σ with life := .absent }

def startAt (v : Peer) (now : ℕ) : Peer :=
  { v with
    handshakeStartTime := if v.handshakeStartTime = 0 then now else v.handshakeStartTime }

end Peer

/-- What an action makes of the peer, if that is all it does and depends on nothing else. -/
def Act.apply : Act → Peer → Peer
  | thmapDel σ, v => v.set σ { v.session σ with listed := false }
  | zeroIndex σ, v => v.set σ { v.session σ with localIndex := 0 }
  | clearStates σ, v => v.set σ { v.session σ with life := (v.session σ).life.cleared }
  | calculateKeys σ, v => v.set σ { v.session σ with life := .keyed }
  | setState σ state, v =>
    v.set σ { v.session σ with
      state := state
      life := if state = .established then .used else (v.session σ).life }
  | setInitiator σ b, v => v.set σ { v.session σ with isInitiator := b }
  | publish σ, v => { v with stable := σ }
  | endHandshake, v => { v with handshakeStartTime := 0 }
  | setMac1Valid b, v => { v with lastSentMac1Valid := b }
  | _, v => v

abbrev Section := Script Peer Act

/-! ## Sessions -/

def destroySession (σ : Bool) (k : Section) : Section :=
  .act (.assert .destroySession fun v => v.state σ ≠ .unknown) <|
  .act (.thmapDel σ) <|
  .act (.quiesce (some σ)) <|
  .act (.zeroIndex σ) <|
  .act (.clearStates σ) <|
  .act (.setState σ .unknown) k

def getSessionIndex (σ : Bool) (k : Section) : Section :=
  .act (.assert .getSessionIndex fun v => σ = v.unstable) <|
  .act (.assert .getSessionIndex fun v => v.state σ = .unknown) <|
  .act (.thmapPut σ) k

def putSessionIndex (σ : Bool) (k : Section) : Section :=
  .act (.assert .putSessionIndex fun v => v.state σ ≠ .unknown) <|
  .act (.assert .putSessionIndex fun v => v.state σ ≠ .established) <|
  destroySession σ k

def sendDataMsg (σ : Bool) (k : Section) : Section := .choose (.act (.sendData σ) k) k
def sendKeepaliveMsg (σ : Bool) (k : Section) : Section := sendDataMsg σ k

/-! ## Handshakes -/

def fillMsgInit (σ : Bool) (k : Section) : Section :=
  .act (.assert .fillMsgInit fun v => σ = v.unstable) <|
  .act (.assert .fillMsgInit fun v => v.state σ = .initActive) <|
  .act (.setMac1Valid true) k

def initiate (σ : Bool) (k : Section) : Section :=
  .act (.assert .sendHandshakeMsgInit fun v => v.state σ = .unknown) <|
  getSessionIndex σ <|
  .act (.setState σ .initActive) <|
  fillMsgInit σ <|
  .choose (putSessionIndex σ k) (.act .startHandshake k)

def sendHandshakeMsgInit (k : Section) : Section :=
  .read Peer.unstable fun σ =>
  .branch (fun v => v.state σ = .initActive ∨ v.state σ = .initPassive) k <|
  -- "unstable session can't be established"
  .act (.assert .sendHandshakeMsgInit fun v => v.state σ ≠ .established) <|
  .branch (fun v => v.state σ = .destroying)
    (putSessionIndex σ <|
      .act (.assert .sendHandshakeMsgInit fun v => v.state σ = .unknown) <|
      initiate σ k)
    (initiate σ k)

def fillMsgResp (σ : Bool) (k : Section) : Section :=
  .act (.assert .fillMsgResp fun v => σ = v.unstable) <|
  .act (.assert .fillMsgResp fun v => v.state σ = .unknown) <|
  .act (.setMac1Valid true) k

def sendHandshakeMsgResp (σ : Bool) (k : Section) : Section :=
  .act (.assert .sendHandshakeMsgResp fun v => σ = v.unstable) <|
  .act (.assert .sendHandshakeMsgResp fun v => v.state σ = .unknown) <|
  fillMsgResp σ k

def respond (σ : Bool) (k : Section) : Section :=
  .act (.assert .handleMsgInit fun v => v.state σ = .unknown) <|
  getSessionIndex σ <|
  sendHandshakeMsgResp σ <|
  .act (.calculateKeys σ) <|
  .act (.clearStates σ) <|
  .act (.setState σ .initPassive) k

def startOver (σ : Bool) (k : Section) : Section :=
  putSessionIndex σ <|
  .act (.assert .handleMsgInit fun v => v.state σ = .unknown) <|
  respond σ k

/-- `wg_handle_msg_init` under the lock. The answers are whether the message passes its checks,
and `wg_initiator_priority`. -/
def handleMsgInit (k : Section) : Section :=
  .choose
    (.read Peer.unstable fun σ =>
      -- "unstable session can't be established"
      .act (.assert .handleMsgInit fun v => v.state σ ≠ .established) <|
      .branch (fun v => v.state σ = .unknown) (respond σ k) <|
      .branch (fun v => v.state σ = .initActive) (.choose k (startOver σ k)) (startOver σ k))
    k

def retirePrev (σ : Bool) (k : Section) : Section :=
  .branch (fun v => v.state σ = .established)
    (.act (.setState σ .destroying) k)
    (.act (.assert .swapSessions fun v => v.state σ = .unknown) <|
      .act (.zeroIndex σ) <|
      .act (.clearStates σ) <|
      .act (.setState σ .unknown) k)

def swapSessions (k : Section) : Section :=
  .read Peer.unstable fun wgs =>
  .act (.assert .swapSessions fun v => v.state wgs = .established) <|
  .read Peer.stable fun prev =>
  .act (.assert .swapSessions fun v => v.state prev = .established ∨ v.state prev = .unknown) <|
  .act (.publish wgs) <|
  .act .endHandshake <|
  .act (.setMac1Valid false) <|
  .choose (sendDataMsg wgs (retirePrev prev k)) <|
  .branch (fun v => (v.session wgs).isInitiator) (sendKeepaliveMsg wgs (retirePrev prev k))
    (retirePrev prev k)

/-- `wg_handle_msg_resp` under the lock, for the session named. The answer is whether the message
passes its checks. -/
def handleMsgResp (σ : Bool) (k : Section) : Section :=
  .branch (fun v => v.state σ = .initActive)
    (.choose
      (.act (.assert .handleMsgResp fun v => v.state σ = .initActive) <|
        .act (.setInitiator σ true) <|
        .act (.calculateKeys σ) <|
        .act (.clearStates σ) <|
        .act (.setState σ .established) <|
        swapSessions <|
        .act (.assert .handleMsgResp fun v => σ = v.stable) k)
      k)
    k

def handleMsgCookie (σ : Bool) (k : Section) : Section :=
  .branch Peer.lastSentMac1Valid (.act (.assertPending σ) k) k

/-! ## Tasks -/

/-- The answers are `wgp_endpoint_available` and `wgs_force_rekey`. -/
def taskSendInitMessage (k : Section) : Section :=
  .choose
    (.read Peer.stable fun σ =>
      .branch (fun v => v.state σ = .established)
        (.choose (sendHandshakeMsgInit k) k)
        (sendHandshakeMsgInit k))
    k

/-- The answer is whether it is time to give up. -/
def taskRetryHandshake (k : Section) : Section :=
  .read Peer.unstable fun σ =>
  .branch (fun v => v.state σ = .initActive)
    (.act (.assert .taskRetryHandshake fun v => v.handshakeStartTime ≠ 0) <|
      putSessionIndex σ <|
      .choose (.act .endHandshake k) (taskSendInitMessage k))
    k

def taskEstablishSession (k : Section) : Section :=
  .read Peer.unstable fun σ =>
  .branch (fun v => v.state σ = .initPassive)
    (.act (.setInitiator σ false) <|
      .act (.setState σ .established) <|
      swapSessions <|
      .act (.assert .taskEstablishSession fun v => σ = v.stable) k)
    k

/-- The answer is `wgp_endpoint_changing`. The references to the old endpoint are waited for
without the lock. -/
def taskEndpointChanged (k : Section) : Section :=
  .choose (.act (.quiesce none) (.pause k)) k

def taskSendKeepaliveMessage (k : Section) : Section :=
  .read Peer.stable fun σ =>
  .branch (fun v => v.state σ = .established) (sendKeepaliveMsg σ k) k

/-- The second half of `wg_task_destroy_prev_session`; the answer is whether the stable session
is too old. -/
def destroyStable (k : Section) : Section :=
  .read Peer.stable fun σ =>
  .act (.assert .taskDestroyPrevSession fun v => v.state σ ≠ .initActive) <|
  .act (.assert .taskDestroyPrevSession fun v => v.state σ ≠ .initPassive) <|
  .act (.assert .taskDestroyPrevSession fun v => v.state σ ≠ .destroying) <|
  .branch (fun v => v.state σ = .established)
    (.choose
      (.act (.setState σ .destroying) <|
        putSessionIndex σ <|
        .act (.assert .taskDestroyPrevSession fun v => v.state σ = .unknown) k)
      k)
    k

/-- The answer is whether the unstable session is too old. -/
def taskDestroyPrevSession (k : Section) : Section :=
  .read Peer.unstable fun σ =>
  .act (.assert .taskDestroyPrevSession fun v => v.state σ ≠ .established) <|
  .branch (fun v => v.state σ = .destroying)
    (.choose
      (putSessionIndex σ <|
        .act (.assert .taskDestroyPrevSession fun v => v.state σ = .unknown) <|
        destroyStable k)
      (destroyStable k))
    (destroyStable k)

/-- The answers are whether a keepalive is due, and `wg_session_hit_limits`. -/
def taskPersistentKeepalive (k : Section) : Section :=
  .choose
    (.read Peer.stable fun σ =>
      .branch (fun v => v.state σ = .established)
        (.choose (taskSendInitMessage k) (sendKeepaliveMsg σ k))
        (taskSendInitMessage k))
    k

def runTask : Task → Section → Section
  | .sendInitMessage => taskSendInitMessage
  | .retryHandshake => taskRetryHandshake
  | .establishSession => taskEstablishSession
  | .endpointChanged => taskEndpointChanged
  | .sendKeepaliveMessage => taskSendKeepaliveMessage
  | .destroyPrevSession => taskDestroyPrevSession
  | .persistentKeepalive => taskPersistentKeepalive

/-- What `wg_peer_work` does under the lock for the bits it took. -/
def peerWork (tasks : Finset Task) : Section :=
  (Task.all.filter (· ∈ tasks)).foldr runTask .done

end NanoBSD.Wg.Sessions
