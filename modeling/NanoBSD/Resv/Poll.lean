import NanoBSD.Lib.Run

/-! # Polling a reservation object

`linux_dma_resv.c`: `dma_resv_do_poll` looks for an unsignalled fence among the shared fences
and the exclusive fence of a reservation object. If it finds one it records the caller on the
select queue and claims the one callback that all pollers share, unless another poller has it,
and then looks again; with the claim it queues the callback on the first fence that is still
unsignalled, or runs the callback itself when there is none.

Every access to shared state is a step of its own; what happens under `rp_lock` is one step. A
read ticket is the number of writes before it, and the fences after each write are kept, because
a reader whose ticket is no longer valid may still load from the list that it has a pointer to.
The lifetimes of fences are left out: `dma_fence_get_rcu` fails whenever the event says so. By
the contract of `dma_fence_add_callback` it fails exactly when the fence is already signalled,
and otherwise the callback runs once, as part of the signal.
-/
namespace NanoBSD.Resv
open Function
variable {π φ : Type}

inductive Wish
  | pollin
  | pollout
  deriving DecidableEq, Repr

structure Mask where
  pollin : Bool
  pollout : Bool
  deriving DecidableEq, Repr

def Mask.empty : Mask := ⟨false,false⟩

def Mask.has (m : Mask) : Wish → Bool
  | .pollin => m.pollin
  | .pollout => m.pollout

structure Robj (φ : Type) where
  excl : Option φ
  shared : List φ

def Robj.fences (r : Robj φ) : Wish → List φ
  | .pollin => r.excl.toList
  | .pollout => r.excl.toList ++ r.shared

/-- Whether a caller is on `rp_selq`, and if so, whether there was a `selnotify` since. -/
inductive Sel
  | off
  | recorded
  | notified
  deriving DecidableEq, Repr

def Sel.notify : Sel → Sel
  | .recorded => .notified
  | x => x

/-- `struct dma_resv_poll`: `rp_claimed`, `rp_fence`, and the fence that `rp_fcb` is queued on. -/
structure Rpoll (φ : Type) where
  claimed : Bool
  fence : Option φ
  queued : Option φ

/-- Where a call of `dma_resv_do_poll` is, with its read ticket `v`. `i` runs over the shared fences
and is `none` for the exclusive one. -/
inductive Pc (φ : Type)
  | idle
  | top
  | shared (v : ℕ)
  | test (v i : ℕ)
  | arm (v i : ℕ)
  | publish (v : ℕ) (i : Option ℕ) (f : φ)
  | add (v : ℕ) (i : Option ℕ) (f : φ)
  | unpublish (v : ℕ) (i : Option ℕ)
  | excl (v : ℕ)
  | exclTest (v : ℕ) (f : φ)
  | record
  | finish (v : ℕ)
  | returned (v : ℕ)
  deriving DecidableEq, Repr

structure Poller (φ : Type) where
  pc : Pc φ
  events : Mask
  revents : Mask
  recorded : Bool
  claimed : Bool
  callback : Bool
  deriving DecidableEq, Repr

structure State (π φ : Type) where
  version : ℕ
  past : ℕ → Robj φ
  signaled : φ → Bool
  rp : Rpoll φ
  sel : π → Sel
  poller : π → Poller φ

def State.init : State π φ where
  version := 0
  past _ := { excl := none, shared := [] }
  signaled _ := false
  rp := { claimed := false, fence := none, queued := none }
  sel _ := .off
  poller _ :=
    { pc := .idle, events := .empty, revents := .empty, recorded := false
      claimed := false, callback := false }

namespace Poller

/-- After an unsignalled fence was found: record the caller, or give events up because the
callback is requested already, or request it. -/
def found (x : Poller φ) (left : Mask) (next arm : Pc φ) : Poller φ :=
  if !x.recorded then { x with pc := .record }
  else if !x.claimed || x.callback then { x with revents := left, pc := next }
  else { x with pc := arm }

def foundShared (x : Poller φ) (v : ℕ) : Poller φ :=
  x.found { x.revents with pollout := false } (.excl v) (.arm v 0)

def foundExcl (x : Poller φ) (v : ℕ) (f : φ) : Poller φ :=
  x.found .empty (.finish v) (.publish v none f)

def queued (x : Poller φ) (v : ℕ) : Option ℕ → Poller φ
  | some _ =>
    { x with revents := { x.revents with pollout := false }, callback := true, pc := .excl v }
  | none => { x with revents := .empty, callback := true, pc := .finish v }

end Poller

namespace State

variable [DecidableEq π] [DecidableEq φ] (s : State π φ)

def setPoller (p : π) (x : Poller φ) : State π φ :=
  { s with poller := update s.poller p x }

def goto (p : π) (pc : Pc φ) : State π φ := s.setPoller p { s.poller p with pc := pc }
def setFence (f : Option φ) : State π φ := { s with rp := { s.rp with fence := f } }

def poll (p : π) (events : Mask) : State π φ :=
  { s with sel := update s.sel p .off }.setPoller p
    { pc := if events = Mask.empty then .idle else .top
      events := events, revents := events, recorded := false, claimed := false
      callback := false }

def pollCb : State π φ :=
  { s with
    sel := fun p => (s.sel p).notify
    rp := { s.rp with claimed := false, queued := none } }

def record (p : π) : State π φ :=
  let x := s.poller p
  let s := { s with sel := update s.sel p .recorded }
  if s.rp.claimed then s.setPoller p { x with recorded := true, pc := .top }
  else
    { s with rp := { s.rp with claimed := true, fence := none } }.setPoller p
      { x with recorded := true, claimed := true, pc := .top }

/-- An entry of the shared list that a reader with the ticket `v` has; it may be the one of a
later write. -/
def sharedEntry (v w i : ℕ) : Option φ :=
  if v ≤ w ∧ w ≤ s.version then (s.past w).shared[i]? else none

/-- The next step of a call. A load of a shared fence sees the write `w`; `gone` says that
`dma_fence_get_rcu` fails. -/
def advance (p : π) (w : ℕ) (gone : Bool) : Option (State π φ) :=
  let x := s.poller p
  match x.pc with
  | .idle => none
  | .returned _ => none
  | .top =>
    some (s.goto p (if x.events.pollout then .shared s.version else .excl s.version))
  | .shared v => some (s.goto p (if s.version = v then .test v 0 else .top))
  | .test v i =>
    if i < (s.past v).shared.length then
      (s.sharedEntry v w i).map fun f =>
        if gone then s.goto p .top
        else if s.signaled f then s.goto p (.test v (i + 1))
        else s.setPoller p (x.foundShared v)
    else some (s.goto p (.excl v))
  | .arm v i =>
    if i < (s.past v).shared.length then
      (s.sharedEntry v w i).map fun f => s.goto p (if gone then .top else .publish v (some i) f)
    else some (s.goto p (.excl v))
  | .publish v i f => some ((s.setFence (some f)).goto p (.add v i f))
  | .add v i f =>
    -- dma_fence_add_callback
    if s.signaled f then some (s.goto p (.unpublish v i))
    else some ({ s with rp := { s.rp with queued := some f } }.setPoller p (x.queued v i))
  | .unpublish v i =>
    some ((s.setFence none).goto p
      (match i with
      | some i => .arm v (i + 1)
      | none => .finish v))
  | .excl v =>
    if s.version = v then
      match (s.past v).excl with
      | none => some (s.goto p (.finish v))
      | some f => some (s.goto p (if gone then .top else .exclTest v f))
    else some (s.goto p .top)
  | .exclTest v f =>
    some (if s.signaled f then s.goto p (.finish v) else s.setPoller p (x.foundExcl v f))
  | .record => some (s.record p)
  | .finish v =>
    some (if x.claimed && !x.callback then s.pollCb.goto p (.returned v)
      else s.goto p (.returned v))

def signal (f : φ) : State π φ :=
  let t := { s with signaled := update s.signaled f true }
  if s.rp.queued = some f then t.pollCb else t

def write (r : Robj φ) : State π φ :=
  { s with version := s.version + 1, past := update s.past (s.version + 1) r }

end State

inductive Event (π φ : Type)
  | poll (p : π) (events : Mask)
  | advance (p : π) (w : ℕ) (gone : Bool)
  | signal (f : φ)
  | write (r : Robj φ)

def Pc.away : Pc φ → Bool
  | .idle | .returned _ => true
  | _ => false

variable [DecidableEq π] [DecidableEq φ]

def step (s : State π φ) : Event π φ → Option (State π φ)
  | .poll p events => if (s.poller p).pc.away then some (s.poll p events) else none
  | .advance p w gone => s.advance p w gone
  | .signal f => if s.signaled f then none else some (s.signal f)
  | .write r => some (s.write r)

end NanoBSD.Resv
