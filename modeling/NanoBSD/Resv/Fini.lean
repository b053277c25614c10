import NanoBSD.Resv.Poll
import Mathlib.Data.Fintype.Defs

/-! # The poll state until it is torn down

`linux_dma_resv.c` again, with what the wakeups do not depend on: the reference that is taken
for `rp_fence`, the queues of the fences, the assertions of `dma_resv_poll_arm` and
`dma_resv_poll_fini`, and a signal in its steps. A signal sets the flag of the fence with its
lock held, takes the callback off the queue and runs it before it lets the lock go;
`dma_fence_remove_callback` waits for the lock. Which fences a poller looks at, and what it
returns, is as in `State.advance`.

References are numbered in the order in which they are taken.
-/
namespace NanoBSD.Resv
open Function
variable {π φ : Type}

/-- Where `dma_resv_poll_fini` is: before it starts; about to take the callback off the fence in
`rp_fence`; about to clear the claim, having taken it off; about to drop the reference; before its
assertion; after it. -/
inductive Fini (φ : Type)
  | off
  | remove (f : φ)
  | clear (f : φ)
  | put (f : φ)
  | check
  | done
  deriving DecidableEq, Repr

/-- The pollers with their locals `held` and `stale`, the queues `rp_fcb` is on, the fences whose
lock a signal has, those whose signal is to run the callback, and the reference in `rp_fence`.
`queued` of `poll` is not used. -/
structure Whole (π φ : Type) where
  poll : State π φ
  queue : φ → Bool
  locked : φ → Bool
  running : φ → Bool
  ref : Option (φ × ℕ)
  held : π → Option (φ × ℕ)
  stale : π → Option (φ × ℕ)
  taken : ℕ
  dropped : List ℕ
  fini : Fini φ
  panicked : Bool

namespace Whole

def init : Whole π φ where
  poll := .init
  queue _ := false
  locked _ := false
  running _ := false
  ref := none
  held _ := none
  stale _ := none
  taken := 0
  dropped := []
  fini := .off
  panicked := false

variable [DecidableEq π] [DecidableEq φ] (s : Whole π φ)

def assert (b : Bool) (t : Whole π φ) : Whole π φ := if b then t else { s with panicked := true }

def putHeld (p : π) (n : ℕ) : Whole π φ :=
  { s with held := update s.held p none, dropped := n :: s.dropped }

def putStale (p : π) (n : ℕ) : Whole π φ :=
  { s with stale := update s.stale p none, dropped := n :: s.dropped }

def getHeld (p : π) (f : φ) : Whole π φ :=
  { s with held := update s.held p (some (f,s.taken)), taken := s.taken + 1 }

/-- The next step of a call. Where the call is in `dma_resv_poll_arm` or has a reference to put,
the other steps have to wait. -/
def advance (p : π) (w : ℕ) (gone : Bool) : Option (Whole π φ) :=
  match s.stale p with
  | some (_,n) => some (s.putStale p n)
  | none =>
    match (s.poll.poller p).pc, s.held p with
    | .publish _ _ f, none => some (s.getHeld p f)
    | .publish _ _ _, some x =>
      (s.poll.advance p w gone).map fun t =>
        s.assert (s.poll.rp.claimed && s.poll.rp.fence.isNone) { s with poll := t, ref := some x }
    | .add _ _ f, some _ =>
      (s.poll.advance p w gone).map fun t =>
        if s.poll.signaled f then { s with poll := t }
        else { s with
          poll := t
          queue := update s.queue f true
          held := update s.held p none }
    | .unpublish _ _, some x =>
      (s.poll.advance p w gone).map fun t =>
        s.assert (s.poll.rp.claimed && s.poll.rp.fence == some x.1) { s with poll := t, ref := none }
    | .record, none =>
      (s.poll.advance p w gone).map fun t =>
        if s.poll.rp.claimed then { s with poll := t }
        else { s with poll := t, stale := update s.stale p s.ref, ref := none }
    -- `held` is a variable of dma_resv_poll_arm
    | .add _ _ _, none | .unpublish _ _, none => none
    | _, some (_,n) => some (s.putHeld p n)
    | _, none => (s.poll.advance p w gone).map fun t => { s with poll := t }

def signal (f : φ) : Whole π φ :=
  { s with
    poll := { s.poll with signaled := update s.poll.signaled f true }
    locked := update s.locked f true }

def dequeue (f : φ) : Whole π φ :=
  { s with queue := update s.queue f false, running := update s.running f true }

def run (f : φ) : Whole π φ :=
  { s with poll := s.poll.pollCb, running := update s.running f false }

def unlock (f : φ) : Whole π φ := { s with locked := update s.locked f false }

def pollFini : Option (Whole π φ) :=
  match s.fini with
  | .off => some { s with fini := s.poll.rp.fence.elim .check .remove }
  | .remove f =>
    -- dma_fence_remove_callback
    if s.locked f then none
    else if s.queue f then
      some { s with queue := update s.queue f false, fini := .clear f }
    else some { s with fini := .put f }
  | .clear f =>
    some { s with poll := { s.poll with rp := { s.poll.rp with claimed := false } }, fini := .put f }
  | .put _ =>
    s.ref.map fun x =>
      { s with poll := s.poll.setFence none, ref := none, dropped := x.2 :: s.dropped
               fini := .check }
  | .check => some (s.assert (!s.poll.rp.claimed) { s with fini := .done })
  | .done => none

end Whole

/-- What can happen: as before, but a signal and the teardown go in steps. -/
inductive Act (π φ : Type)
  | poll (p : π) (events : Mask)
  | advance (p : π) (w : ℕ) (gone : Bool)
  | write (r : Robj φ)
  | signal (f : φ)
  | dequeue (f : φ)
  | run (f : φ)
  | unlock (f : φ)
  | fini

namespace Whole
variable [DecidableEq π] [DecidableEq φ]

def step (s : Whole π φ) (a : Act π φ) : Option (Whole π φ) :=
  if s.panicked then none
  else match a with
    | .poll p events =>
      if (s.poll.poller p).pc.away then some { s with poll := s.poll.poll p events } else none
    | .advance p w gone => s.advance p w gone
    | .write r => some { s with poll := s.poll.write r }
    | .signal f => if s.poll.signaled f then none else some (s.signal f)
    | .dequeue f => if s.locked f && s.queue f then some (s.dequeue f) else none
    | .run f => if s.running f then some (s.run f) else none
    | .unlock f =>
      if s.locked f && !s.queue f && !s.running f then some (s.unlock f) else none
    | .fini => s.pollFini

/-- `dma_resv_poll_fini` is called when no poller is active, and there is none after that. -/
def Fits (s : Whole π φ) : Act π φ → Prop
  | .fini => s.fini = .off → ∀ p, (s.poll.poller p).pc.away = true
  | .poll _ _ => s.fini = .off
  | _ => True

instance [Fintype π] (s : Whole π φ) : (a : Act π φ) → Decidable (s.Fits a)
  | .fini => inferInstanceAs (Decidable (_ → ∀ _, _))
  | .poll _ _ => inferInstanceAs (Decidable (_ = _))
  | .advance _ _ _ | .write _ | .signal _ | .dequeue _ | .run _ | .unlock _ => isTrue trivial

end Whole
end NanoBSD.Resv
