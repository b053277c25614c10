import NanoBSD.Wg.Critical

/-! # Handlers, workers and senders of `wg(4)` side by side

Any number of threads on any number of peers: the handlers of received messages, the worker with
its tasks, and senders. A session is found through `wg_sessions_byindex` or as the stable
session of a peer, inside a `pserialize` read section that ends with a passive reference to it.
Handshakes and tasks run under `wgp_lock` and may wait there for read sections to end and for
references to drain; senders take counters and encrypt without the lock. A task may run at any
time, whether or not it was asked for, and adding and removing peers is left out. A failed
assertion stops the system.
-/
namespace NanoBSD.Wg.Sessions
open Function
variable {θ π κ : Type}

inductive Handler
  | resp
  | cookie
  | data
  deriving DecidableEq, Repr

/-- Where a thread is. Read sections are numbered. `wg_lookup_session_by_index` is at `lookup`
before `thmap_get` and at `found` after it; `wg_get_stable_session` is at `load` before it reads the
pointer, `loaded` before the state, `checked` after it. A `sender` has the reference and is
`sending` with a counter taken; at `held` the reference is left. `want` is in front of `wgp_lock`,
`locked` under it, with a section to run and perhaps a reference `ref`; the holder may wait for the
read sections `snap`, for references to `drain`, or have taken a counter (`shipping`). -/
inductive Pc (π : Type)
  | idle
  | lookup (h : Handler) (i : UInt32) (n : ℕ)
  | found (h : Handler) (i : UInt32) (n : ℕ) (p : π) (σ : Bool)
  | load (n : ℕ) (p : π)
  | loaded (n : ℕ) (p : π) (σ : Bool)
  | checked (n : ℕ) (p : π) (σ : Bool)
  | sender (p : π) (σ : Bool)
  | sending (p : π) (σ : Bool) (c : ℕ)
  | held (p : π) (σ : Bool)
  | want (p : π) (ref : Option Bool) (k : Section)
  | locked (p : π) (ref : Option Bool) (k : Section)
  | await (p : π) (ref : Option Bool) (o : Option Bool) (snap : List ℕ) (k : Section)
  | drain (p : π) (ref : Option Bool) (σ : Bool) (k : Section)
  | shipping (p : π) (ref : Option Bool) (σ : Bool) (c : ℕ) (k : Section)

structure Keys (κ : Type) where
  tkeySend : Option κ
  sendCounter : ℕ
  deriving DecidableEq, Repr

/-- All of `wg(4)`. `active` are the read sections not ended, `sections` the number begun; `derived`
are the sending keys so far, and `log` has the key and counter of each message of transport data. -/
structure State (θ π κ : Type) where
  uptime : ℕ
  table : UInt32 → Option (π × Bool)
  peer : π → Peer
  keys : π → Bool → Keys κ
  lock : π → Option θ
  refs : π → Bool → ℕ
  active : List ℕ
  sections : ℕ
  thread : θ → Pc π
  derived : List κ
  log : List (Option κ × ℕ)
  panicked : Option Site

/-- What starts a thread: a good init message, the worker with some tasks, a message that names a
session by its index, or a packet to send. -/
inductive Call (π : Type)
  | init (p : π)
  | work (p : π) (tasks : Finset Task)
  | receive (h : Handler) (i : UInt32)
  | send (p : π)

/-- What a step gets from outside: an answer, a random index, or a derived key. -/
inductive Input (κ : Type)
  | go
  | answer (b : Bool)
  | index (i : UInt32)
  | key (x : κ)
  deriving DecidableEq, Repr

inductive Event (θ π κ : Type)
  | tick
  | call (t : θ) (c : Call π)
  | step (t : θ) (x : Input κ)

namespace State

def init : State θ π κ where
  uptime := 1
  table := fun _ => none
  peer := fun _ => .fresh
  keys := fun _ _ => ⟨none,0⟩
  lock := fun _ => none
  refs := fun _ _ => 0
  active := []
  sections := 0
  thread := fun _ => .idle
  derived := []
  log := []
  panicked := none

def panic (s : State θ π κ) (site : Site) : State θ π κ := { s with panicked := some site }

def leave (s : State θ π κ) (n : ℕ) : State θ π κ :=
  { s with active := s.active.filter (· ≠ n) }

variable [DecidableEq θ] [DecidableEq π]

def setThread (s : State θ π κ) (t : θ) (x : Pc π) : State θ π κ :=
  { s with thread := update s.thread t x }

def setPeer (s : State θ π κ) (p : π) (v : Peer) : State θ π κ :=
  { s with peer := update s.peer p v }

def setKeys (s : State θ π κ) (p : π) (σ : Bool) (x : Keys κ) : State θ π κ :=
  { s with keys := update s.keys p (update (s.keys p) σ x) }

def setRefs (s : State θ π κ) (p : π) (σ : Bool) (n : ℕ) : State θ π κ :=
  { s with refs := update s.refs p (update (s.refs p) σ n) }

def enter (s : State θ π κ) (t : θ) (x : ℕ → Pc π) : State θ π κ :=
  { s.setThread t (x s.sections) with
    active := s.sections :: s.active
    sections := s.sections + 1 }

def acquire (s : State θ π κ) (n : ℕ) (p : π) (σ : Bool) : State θ π κ :=
  (s.leave n).setRefs p σ (s.refs p σ + 1)

def incSendCounter (s : State θ π κ) (p : π) (σ : Bool) : State θ π κ :=
  s.setKeys p σ { s.keys p σ with sendCounter := ((s.keys p σ).sendCounter + 1) % 2^64 }

def encrypt (s : State θ π κ) (p : π) (σ : Bool) (c : ℕ) : State θ π κ :=
  { s with log := ((s.keys p σ).tkeySend,c) :: s.log }

def received (p : π) (σ : Bool) : Handler → Pc π
  | .resp => .want p (some σ) (handleMsgResp σ .done)
  | .cookie => .want p (some σ) (handleMsgCookie σ .done)
  | .data => .held p σ

def act (s : State θ π κ) (t : θ) (p : π) (ref : Option Bool) (k : Section) :
    Act → Input κ → Option (State θ π κ)
  | .assert site f, .go =>
    some (if f (s.peer p) then s.setThread t (.locked p ref k) else s.panic site)
  | .assertPending σ, .go =>
    some (if (s.peer p).state σ = .initActive ∨ (s.peer p).state σ = .initPassive then
        s.setThread t (.locked p ref k)
      else s.panic .handleMsgCookie)
  | .thmapPut σ, .index i =>
    some (if s.table i = none then
        { (s.setPeer p ((s.peer p).link σ i)).setThread t (.locked p ref k) with
          table := update s.table i (some (p,σ)) }
      else s.setPeer p ((s.peer p).aim σ i))
  | .thmapPut _, _ => none
  | .thmapDel σ, .go =>
    let i := ((s.peer p).session σ).localIndex
    some (if s.table i = some (p,σ) then
        { (s.setPeer p (Act.apply (.thmapDel σ) (s.peer p))).setThread t (.locked p ref k) with
          table := update s.table i none }
      else s.panic .destroySession)
  | .quiesce o, .go => some (s.setThread t (.await p ref o s.active k))
  | .clearStates σ, .go =>
    some (((s.setPeer p (Act.apply (.clearStates σ) (s.peer p))).setKeys p σ
      { s.keys p σ with sendCounter := 0 }).setThread t (.locked p ref k))
  | .calculateKeys σ, .key x =>
    some { ((s.setPeer p (Act.apply (.calculateKeys σ) (s.peer p))).setKeys p σ
        { s.keys p σ with tkeySend := some x }).setThread t (.locked p ref k) with
      derived := x :: s.derived }
  | .calculateKeys _, _ => none
  | .startHandshake, .go =>
    some ((s.setPeer p ((s.peer p).startAt s.uptime)).setThread t (.locked p ref k))
  | .sendData σ, .go =>
    some ((s.incSendCounter p σ).setThread t (.shipping p ref σ (s.keys p σ).sendCounter k))
  | a, .go => some ((s.setPeer p (a.apply (s.peer p))).setThread t (.locked p ref k))
  | _, _ => none

def advance (s : State θ π κ) (t : θ) : Pc π → Input κ → Option (State θ π κ)
  | .lookup h i n, .go =>
    some (match s.table i with
      | none => (s.leave n).setThread t .idle
      | some (p,σ) => s.setThread t (.found h i n p σ))
  | .found h i n p σ, .go =>
    some (if ((s.peer p).session σ).localIndex = i then
        (s.acquire n p σ).setThread t (received p σ h)
      else s.panic .lookupSessionByIndex)
  | .load n p, .go => some (s.setThread t (.loaded n p (s.peer p).stable))
  | .loaded n p σ, .go =>
    some (if (s.peer p).state σ = .established then s.setThread t (.checked n p σ)
      else (s.leave n).setThread t .idle)
  | .checked n p σ, .go => some ((s.acquire n p σ).setThread t (.sender p σ))
  -- the limits of the session or the lack of a buffer may keep the packet back
  | .sender p σ, .answer b =>
    some (if b then (s.incSendCounter p σ).setThread t (.sending p σ (s.keys p σ).sendCounter)
      else s.setThread t (.held p σ))
  | .sending p σ c, .go => some ((s.encrypt p σ c).setThread t (.held p σ))
  | .held p σ, .go => some ((s.setRefs p σ (s.refs p σ - 1)).setThread t .idle)
  | .want p ref k, .go =>
    if s.lock p = none then
      some { s.setThread t (.locked p ref k) with lock := update s.lock p (some t) }
    else none
  | .locked p ref .done, .go =>
    some { s.setThread t (ref.elim .idle (.held p)) with lock := update s.lock p none }
  | .locked p ref (.act a k), x => s.act t p ref k a x
  | .locked p ref (.read f k), .go => some (s.setThread t (.locked p ref (k (f (s.peer p)))))
  | .locked p ref (.ask k), .answer b => some (s.setThread t (.locked p ref (k b)))
  | .locked p ref (.pause k), .go =>
    some { s.setThread t (.want p ref k) with lock := update s.lock p none }
  | .await p ref o snap k, .go =>
    if ∀ n ∈ snap, n ∉ s.active then
      some (s.setThread t (o.elim (.locked p ref k) fun σ => .drain p ref σ k))
    else none
  | .drain p ref σ k, .go =>
    if s.refs p σ = 0 then
      some ((s.setPeer p ((s.peer p).drained σ)).setThread t (.locked p ref k))
    else none
  | .shipping p ref σ c k, .go => some ((s.encrypt p σ c).setThread t (.locked p ref k))
  | _, _ => none

def call (s : State θ π κ) (t : θ) : Call π → State θ π κ
  | .init p => s.setThread t (.want p none (handleMsgInit .done))
  | .work p tasks => s.setThread t (.want p none (peerWork tasks))
  | .receive h i => s.enter t (.lookup h i)
  | .send p => s.enter t fun n => .load n p

end State

def Pc.isIdle : Pc π → Bool
  | .idle => true
  | _ => false

def step [DecidableEq θ] [DecidableEq π] (s : State θ π κ) (e : Event θ π κ) :
    Option (State θ π κ) :=
  if s.panicked.isSome then none
  else match e with
    | .tick => some { s with uptime := s.uptime + 1 }
    | .call t c => if (s.thread t).isIdle then some (s.call t c) else none
    | .step t x => s.advance t (s.thread t) x

/-! ## Runs with one peer -/

def goes (t : Bool) (n : ℕ) : List (Event Bool Unit ℕ) := List.replicate n (.step t .go)

/-- The worker sends an init message for the index `i`; with `rekey` an established session is to be
replaced. -/
def initiates (t : Bool) (i : UInt32) (rekey : Bool) : List (Event Bool Unit ℕ) :=
  .call t (.work () {.sendInitMessage}) :: goes t 1 ++ .step t (.answer true) :: goes t 2 ++
    (if rekey then [.step t (.answer true)] else []) ++ goes t 7 ++ .step t (.index i) ::
    goes t 4 ++ .step t (.answer false) :: goes t 2

/-- The first response to the init message with the index `i` comes in, and a keepalive is
sent. -/
def responded (t : Bool) (i : UInt32) (key : ℕ) : List (Event Bool Unit ℕ) :=
  .call t (.receive .resp i) :: goes t 4 ++ .step t (.answer true) :: goes t 2 ++
    .step t (.key key) :: goes t 9 ++ .step t (.answer false) :: goes t 1 ++
    .step t (.answer true) :: goes t 10

def handshake : List (Event Bool Unit ℕ) := initiates true 7 false ++ responded false 7 100

end NanoBSD.Wg.Sessions
