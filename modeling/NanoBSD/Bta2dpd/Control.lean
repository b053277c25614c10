import Mathlib.Data.Int.Notation
import NanoBSD.Lib.Run

/-! # The Bluetooth audio daemon

`bta2dpd` answers the AVDTP messages of the peer and moves audio between a file and the media
channel from four callbacks of its event loop. One number, `state`, stands for the progress
of the setup below 7 and for the state of the stream from there on.
-/
namespace NanoBSD.Bta2dpd

inductive Signal
  | discover | getCapabilities | setConfiguration | openStream | start | close | suspend | abort
  | other (id : ℕ)
  deriving DecidableEq, Repr

def Signal.ofByte (b : UInt8) : Signal :=
  match (b &&& 0x3f).toNat with
  | 1 => .discover
  | 2 => .getCapabilities
  | 3 => .setConfiguration
  | 6 => .openStream
  | 7 => .start
  | 8 => .close
  | 9 => .suspend
  | 10 => .abort
  | id => .other id

inductive MessageType
  | command | generalReject | responseAccept | responseReject
  deriving DecidableEq, Repr

def MessageType.ofByte (b : UInt8) : MessageType :=
  match (b &&& 3).toNat with
  | 0 => .command
  | 1 => .generalReject
  | 2 => .responseAccept
  | _ => .responseReject

structure Message where
  type : MessageType
  signal : Signal
  deriving DecidableEq, Repr

/-- `ENOMEM`, by which `avdtpCheckResponse` says that there is no message. -/
def eNomem : UInt8 := 12

/-- `avdtpCheckResponse`. The third byte of a message of three is returned as the error, so the
message is lost if it is `ENOMEM`. -/
def checkResponse : List UInt8 → Option Message
  | [] | [_] => none
  | [b₀,b₁,b₂] => if b₂ = eNomem then none else some ⟨.ofByte b₀,.ofByte b₁⟩
  | b₀ :: b₁ :: _ => some ⟨.ofByte b₀,.ofByte b₁⟩

inductive Sent
  | accept (g : Signal)
  | reject (g : Signal)
  | command (g : Signal)
  deriving DecidableEq, Repr

inductive Exchange
  | start | suspend
  deriving DecidableEq, Repr

/-- The options, and the first file that could be opened. -/
structure Config where
  asSpeaker : Bool
  dontStop : Bool
  runasDaemon : Bool
  silenceMs : ℤ
  numfiles : ℕ
  startFile : ℕ

/-- The daemon's variables and pending events. `sent` went out on the control channel, `last` is the
last START or SUSPEND accepted, and `media` has `last` at each packet to the media channel. -/
structure State where
  state : ℕ
  sc : Option ℕ
  ctlEv : Bool
  recvEv : Bool
  interruptEv : Bool
  retryEv : Bool
  watchEv : Bool
  retryMs : ℕ
  silentSince : UInt64
  suspendAsked : Bool
  currentFile : ℕ
  exited : Bool
  sent : List Sent
  last : Option Exchange
  media : List (Option Exchange)

def connected : State where
  state := 0
  sc := none
  ctlEv := true
  recvEv := false
  interruptEv := false
  retryEv := false
  watchEv := false
  retryMs := 0
  silentSince := 0
  suspendAsked := false
  currentFile := 0
  exited := false
  sent := [.command .discover]
  last := none
  media := []

@[simp] def stStreaming : ℕ := 7
@[simp] def stSuspended : ℕ := 8
@[simp] def stStarting : ℕ := 9

/-- The results of the system calls and of `avdtpAutoConfigSBC` in one call of `do_ctlreq`. -/
structure Answers where
  fits : Bool
  socket : Option ℕ
  bound : Bool
  linkMode : Bool
  connected : Bool
  accepted : Option ℕ

/-- `stream`: the source ended early, a packet went out or was given up as the channel is
full, or the write failed. -/
inductive Streamed
  | short
  | sent (silent : Bool)
  | dropped (silent : Bool)
  | failed
  deriving DecidableEq, Repr

inductive Watched
  | ended
  | again
  | data (buf : List ℤ)
  deriving DecidableEq, Repr

inductive Event
  | control (buf : List UInt8) (a : Answers)
  | interrupt (r : Streamed) (now : UInt64) (opens : ℕ → Bool)
  | retry
  | watch (r : Watched)
  | recv (ok : Bool)

namespace State

def send (s : State) (m : Sent) : State := { s with sent := s.sent ++ [m] }
def agree (s : State) (x : Exchange) : State := { s with last := some x }

def streamSuspend (c : Config) (s : State) : State :=
  if c.asSpeaker then { s with state := stSuspended }
  else { s with state := stSuspended, interruptEv := false, retryEv := false, watchEv := true }

def streamResume (c : Config) (s : State) : State :=
  if c.asSpeaker then { s with state := stStreaming }
  else
    { s with
      state := stStreaming, watchEv := false, retryMs := 0, silentSince := 0
      suspendAsked := false, interruptEv := true }

def closeStream (c : Config) (s : State) : State :=
  if c.asSpeaker then { s with recvEv := false, sc := none, state := 0 }
  else
    { s with interruptEv := false, watchEv := false, retryEv := false, sc := none, state := 0 }

def suspend (c : Config) (s : State) : State :=
  if s.state = stStreaming then s.streamSuspend c else s

def start (c : Config) (s : State) : State :=
  if s.state = stSuspended ∨ s.state = stStarting then s.streamResume c
  else if s.state < 6 then { s with state := 6 }
  else s

def command (c : Config) (s : State) : Signal → State
  | .abort => (s.send (.accept .abort)).closeStream c
  | .close => (s.send (.accept .close)).closeStream c
  | .discover => { s.send (.accept .discover) with state := 1 }
  | .getCapabilities => { s.send (.accept .getCapabilities) with state := 2 }
  | .setConfiguration => { s.send (.accept .setConfiguration) with state := 3 }
  | .openStream =>
    { s.send (.accept .openStream) with state := if s.state < 5 then 5 else s.state }
  | .suspend => ((s.send (.accept .suspend)).agree .suspend).suspend c
  | .start => ((s.send (.accept .start)).agree .start).start c
  | .other id => s.send (.reject (.other id))

/-- A response. A START that the peer refused is taken like one it accepted. -/
def response (c : Config) (s : State) (accept fits : Bool) : Signal → State
  | .discover => s.send (.command .getCapabilities)
  | .getCapabilities =>
    { s.send (.command (if fits then .setConfiguration else .discover)) with state := 3 }
  | .setConfiguration =>
    if s.state = 3 ∧ c.asSpeaker = false then
      { s.send (.command .openStream) with state := 4 }
    else { s with state := 4 }
  | .openStream => { s with state := if s.state = 4 then 5 else s.state }
  | .suspend => if accept then (s.agree .suspend).suspend c else s
  | .start => if accept then (s.agree .start).start c else s.start c
  | .close => s.send (.reject .close)
  | .abort => s.send (.reject .abort)
  | .other id => s.send (.reject (.other id))

def connectMedia (c : Config) (s : State) (a : Answers) : State :=
  match a.socket with
  | none => { s with sc := none }
  | some fd =>
    if !a.bound then { s with sc := none }
    else if !a.linkMode then { s with sc := some fd, exited := true }
    else if !a.connected then { s with sc := none }
    else if c.asSpeaker then { s with sc := some fd }
    else { s.send (.command .start) with sc := some fd }

def openedConnection (c : Config) (s : State) (a : Answers) : State :=
  if c.asSpeaker then
    match a.accepted with
    | none => { s with sc := none, exited := true }
    | some fd => { s with sc := some fd, recvEv := true, state := stStreaming }
  else { s with interruptEv := true, state := stStreaming }

def setup (c : Config) (s : State) (a : Answers) : State :=
  if s.state = 6 then s.openedConnection c a
  else if s.state = 5 ∧ (c.asSpeaker ∨ s.sc = none) then s.connectMedia c a
  else s

def doCtlreq (c : Config) (s : State) (buf : List UInt8) (a : Answers) : State :=
  match checkResponse buf with
  | none => { s.closeStream c with ctlEv := false }
  | some m =>
    if m.type = .command then (s.command c m.signal).setup c a
    else (s.response c (m.type = .responseAccept) a.fits m.signal).setup c a

def checkSilence (c : Config) (s : State) (silent : Bool) (now : UInt64) : State :=
  if !silent then { s with silentSince := 0, suspendAsked := false }
  else if c.silenceMs ≤ 0 ∨ s.suspendAsked then s
  else if s.silentSince = 0 then { s with silentSince := now }
  else if UInt64.ofNat c.silenceMs.toNat ≤ now - s.silentSince then
    { s.send (.command .suspend) with suspendAsked := true }
  else s

def streamed (c : Config) (s : State) (silent : Bool) (now : UInt64) : State :=
  if s.state = stStreaming then { s.checkSilence c silent now with retryMs := 0 }
  else { s with retryMs := 0 }

/-- The loop at `next_file`: the first of the next `n` files that opens, or the last one. -/
def nextFile (opens : ℕ → Bool) : ℕ → ℕ → ℕ × Bool
  | 0, cur => (cur,false)
  | n + 1, cur => if opens (cur + 1) then (cur + 1,true) else nextFile opens n (cur + 1)

def streamFailed (c : Config) (s : State) (opens : ℕ → Bool) : State :=
  if c.dontStop then
    { s with
      interruptEv := false, retryEv := true
      retryMs := if s.retryMs = 0 then 10 else min (s.retryMs * 2) 1000 }
  else
    let f := nextFile opens (c.numfiles - 1 - s.currentFile) s.currentFile
    if f.2 then { s with currentFile := f.1, interruptEv := true }
    else { s with currentFile := f.1, interruptEv := false, exited := !c.runasDaemon }

def doInterrupt (c : Config) (s : State) (r : Streamed) (now : UInt64) (opens : ℕ → Bool) :
    State :=
  let s := { s with currentFile := if s.currentFile = 0 then c.startFile else s.currentFile }
  match r with
  | .sent silent => { s with media := s.media ++ [s.last] }.streamed c silent now
  | .dropped silent => s.streamed c silent now
  | .short | .failed => s.streamFailed c opens

def doRetry (s : State) : State :=
  if s.state = stStreaming then { s with interruptEv := true } else s

def doWatch (s : State) : Watched → State
  | .ended => { s with watchEv := false }
  | .again => s
  | .data buf =>
    if (∀ x ∈ buf, x = 0) ∨ s.state ≠ stSuspended then s
    else { s.send (.command .start) with watchEv := false, state := stStarting }

def doRecv (c : Config) (s : State) (ok : Bool) : State :=
  if ok then s else { s with recvEv := false, exited := !c.runasDaemon }

end State

def Streamed.reaches : Streamed → Bool
  | .sent _ | .dropped _ => true
  | .short | .failed => false

/-- One callback of the event loop. The timer of `retry_ev` goes off once; the other events
stay until they are deleted. -/
def step (c : Config) (s : State) : Event → Option State
  | .control buf a => if s.exited = false ∧ s.ctlEv then some (s.doCtlreq c buf a) else none
  | .interrupt r now opens =>
    if s.exited = false ∧ s.interruptEv ∧ (r.reaches → s.sc ≠ none) then
      some (s.doInterrupt c r now opens)
    else none
  | .retry =>
    if s.exited = false ∧ s.retryEv then some { s with retryEv := false }.doRetry else none
  | .watch r => if s.exited = false ∧ s.watchEv then some (s.doWatch r) else none
  | .recv ok => if s.exited = false ∧ s.recvEv then some (s.doRecv c ok) else none

end NanoBSD.Bta2dpd
