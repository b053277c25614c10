import NanoBSD.Lib.Queues
import NanoBSD.Lib.Run
import Mathlib.Algebra.Group.Nat.Defs

/-! # Tasklets

`linux_tasklet.c`: a tasklet is a word of state bits and a disable count. Scheduling it sets
`SCHEDULED` and links it to a queue of the current CPU; the soft interrupt of that queue takes
the list, locks each tasklet with `RUNNING` and runs it. A disabled tasklet is parked off the
queues, and whoever clears `PARKED` afterwards queues it again.

Every access to a state word, a count or a queue is a step of its own. A compare-and-swap loop
takes effect in the step of the swap that succeeds, or of the load that ends the loop; a
busy-wait is a step that is not enabled until the wait is over. The memory is sequentially
consistent.
-/
namespace NanoBSD.Tasklet
open Function
variable {κ θ τ : Type}

inductive Kind
  | normal
  | hi
  deriving DecidableEq, Repr

/-- `tl_state`: the bits `RUNNING`, `SCHEDULED` and `PARKED`, and the queue that `HI` names. -/
structure Word where
  running : Bool
  scheduled : Bool
  parked : Bool
  kind : Kind
  deriving DecidableEq, Repr

def uintMax : ℕ := 2 ^ 32 - 1

/-- Where `tasklet_softintr` is: the tasklet in its hands, if any, and the local list `th`. -/
inductive Handler (τ : Type)
  | idle
  | start
  | loop (th : List τ)
  | popped (t : τ) (th : List τ)
  | putBack (t : τ) (th : List τ)
  | locked (t : τ) (th : List τ)
  | park (t : τ) (th : List τ)
  | unlock (t : τ) (th : List τ)
  | check (t : τ) (th : List τ)
  | unpark (t : τ) (th : List τ)
  | requeue (k : Kind) (t : τ) (th : List τ)
  | kick (k : Kind) (th : List τ)
  | clear (t : τ) (th : List τ)
  | func (t : τ) (th : List τ)
  deriving DecidableEq, Repr

/-- The three ways to disable a tasklet: `tasklet_disable_nosync`, `tasklet_disable` and
`__tasklet_disable_sync_once`. -/
inductive Mode
  | nosync
  | sync
  | syncOnce
  deriving DecidableEq, Repr

/-- Where a caller is. `tasklet_schedule` goes from `enqueue` to `kick`. A disable and its enable
are one caller: `waiting` in `tasklet_unlock_wait`, `disabled` after the call, `unparking` when the
count comes to zero; `__tasklet_enable_sync_once` goes on to `tasklet_kill`. -/
inductive Caller (κ τ : Type)
  | idle
  | enqueue (k : Kind) (t : τ)
  | kick (i : κ × Kind) (t : τ) (kill : Bool)
  | waiting (t : τ)
  | disabled (waited : Bool) (t : τ)
  | unparking (t : τ) (kill : Bool)
  | requeue (k : Kind) (t : τ) (kill : Bool)
  | killing (t : τ)
  | reaping (t : τ)
  deriving DecidableEq, Repr

/-- The tasklets, the queue and the soft interrupt of each CPU and kind, and the callers. The last
three fields look back: the kind of the last scheduling, and how often a tasklet was parked and
queued again. -/
structure State (κ θ τ : Type) where
  word : τ → Word
  disablecount : τ → ℕ
  queue : κ × Kind → List τ
  pending : κ × Kind → Bool
  softint : κ × Kind → Handler τ
  caller : θ → Caller κ τ
  asked : τ → Kind
  parks : τ → ℕ
  requeues : τ → ℕ

def State.init : State κ θ τ where
  word _ := { running := false, scheduled := false, parked := false, kind := .normal }
  disablecount _ := 0
  queue _ := []
  pending _ := false
  softint _ := .idle
  caller _ := .idle
  asked _ := .normal
  parks _ := 0
  requeues _ := 0

namespace State

variable [DecidableEq κ] [DecidableEq θ] [DecidableEq τ] (s : State κ θ τ)

def setWord (t : τ) (w : Word) : State κ θ τ := { s with word := update s.word t w }

def setCount (t : τ) (n : ℕ) : State κ θ τ :=
  { s with disablecount := update s.disablecount t n }

def setQueue (i : κ × Kind) (l : List τ) : State κ θ τ :=
  { s with queue := update s.queue i l }

def setPending (i : κ × Kind) (b : Bool) : State κ θ τ :=
  { s with pending := update s.pending i b }

def setSoftint (i : κ × Kind) (h : Handler τ) : State κ θ τ :=
  { s with softint := update s.softint i h }

def setCaller (x : θ) (a : Caller κ τ) : State κ θ τ :=
  { s with caller := update s.caller x a }

def noteAsked (t : τ) (k : Kind) : State κ θ τ := { s with asked := update s.asked t k }

def notePark (t : τ) : State κ θ τ :=
  { s with parks := update s.parks t (s.parks t + 1) }

def noteRequeue (t : τ) : State κ θ τ :=
  { s with requeues := update s.requeues t (s.requeues t + 1) }

def enqueue (i : κ × Kind) (t : τ) : State κ θ τ := s.setQueue i (s.queue i ++ [t])

def queueSchedule (x : θ) (k : Kind) (t : τ) : State κ θ τ :=
  if (s.word t).scheduled then s
  else
    ((s.setWord t { s.word t with scheduled := true, kind := k }).noteAsked t k).setCaller x
      (.enqueue k t)

/-- A disable up to its wait; a count of `UINT_MAX` fails the assertion. -/
def disable (x : θ) (m : Mode) (t : τ) : Option (State κ θ τ) :=
  if s.disablecount t + 1 < uintMax then
    some ((s.setCount t (s.disablecount t + 1)).setCaller x
      (match m with
      | .nosync => .disabled false t
      | .sync => .waiting t
      | .syncOnce => if s.disablecount t + 1 = 1 then .waiting t else .disabled false t))
  else none

/-- `__tasklet_enable`, or `__tasklet_enable_sync_once`, up to the unpark. -/
def enable (x : θ) (kill : Bool) (t : τ) : State κ θ τ :=
  (s.setCount t (s.disablecount t - 1)).setCaller x
    (if s.disablecount t - 1 = 0 then .unparking t kill else .idle)

def afterUnpark (t : τ) (kill : Bool) : Caller κ τ := if kill then .killing t else .idle

def proceed (x : θ) (c : κ) : Option (State κ θ τ) :=
  match s.caller x with
  | .idle => none
  | .enqueue k t => some ((s.enqueue (c,k) t).setCaller x (.kick (c,k) t false))
  | .kick i t kill => some ((s.setPending i true).setCaller x (afterUnpark t kill))
  | .waiting t => if (s.word t).running then none else some (s.setCaller x (.disabled true t))
  | .disabled _ _ => none
  | .unparking t kill =>
    if (s.word t).parked then
      some ((s.setWord t { s.word t with parked := false }).setCaller x
        (.requeue (s.word t).kind t kill))
    else some (s.setCaller x (afterUnpark t kill))
  | .requeue k t kill =>
    some (((s.enqueue (c,k) t).noteRequeue t).setCaller x (.kick (c,k) t kill))
  | .killing t => if (s.word t).scheduled then none else some (s.setCaller x (.reaping t))
  | .reaping t => if (s.word t).running then none else some (s.setCaller x .idle)

def softintr (i : κ × Kind) : Option (State κ θ τ) :=
  match s.softint i with
  | .idle => none
  | .start => some ((s.setQueue i []).setSoftint i (.loop (s.queue i)))
  | .loop [] => some (s.setSoftint i .idle)
  | .loop (t :: th) => some (s.setSoftint i (.popped t th))
  | .popped t th =>
    -- tasklet_trylock
    if (s.word t).running then some (s.setSoftint i (.putBack t th))
    else some ((s.setWord t { s.word t with running := true }).setSoftint i (.locked t th))
  | .putBack t th => some ((s.enqueue i t).setSoftint i (.kick i.2 th))
  | .locked t th =>
    some (s.setSoftint i (if s.disablecount t = 0 then .clear t th else .park t th))
  | .park t th =>
    some (((s.setWord t { s.word t with parked := true }).notePark t).setSoftint i (.unlock t th))
  | .unlock t th =>
    some ((s.setWord t { s.word t with running := false }).setSoftint i (.check t th))
  | .check t th => some (s.setSoftint i (if s.disablecount t = 0 then .unpark t th else .loop th))
  | .unpark t th =>
    if (s.word t).parked then
      some ((s.setWord t { s.word t with parked := false }).setSoftint i
        (.requeue (s.word t).kind t th))
    else some (s.setSoftint i (.loop th))
  | .requeue k t th =>
    some (((s.enqueue (i.1,k) t).noteRequeue t).setSoftint i (.kick k th))
  | .kick k th => some ((s.setPending (i.1,k) true).setSoftint i (.loop th))
  | .clear t th =>
    some ((s.setWord t { s.word t with scheduled := false }).setSoftint i (.func t th))
  | .func t th =>
    some ((s.setWord t { s.word t with running := false }).setSoftint i (.loop th))

end State

/-- What can happen: a caller starts a call or goes on with it, and the soft interrupt of a
queue is dispatched or goes on. -/
inductive Event (κ θ τ : Type)
  | schedule (x : θ) (k : Kind) (t : τ)
  | disable (x : θ) (m : Mode) (t : τ)
  | enable (x : θ) (kill : Bool)
  | proceed (x : θ) (c : κ)
  | dispatch (i : κ × Kind)
  | softintr (i : κ × Kind)
  deriving Repr

variable [DecidableEq κ] [DecidableEq θ] [DecidableEq τ]

def step (s : State κ θ τ) : Event κ θ τ → Option (State κ θ τ)
  | .schedule x k t => if s.caller x = .idle then some (s.queueSchedule x k t) else none
  | .disable x m t => if s.caller x = .idle then s.disable x m t else none
  | .enable x kill =>
    match s.caller x with
    | .disabled _ t => some (s.enable x kill t)
    | _ => none
  | .proceed x c => s.proceed x c
  | .dispatch i =>
    if s.pending i ∧ s.softint i = .idle then
      some ((s.setPending i false).setSoftint i .start)
    else none
  | .softintr i => s.softintr i

end NanoBSD.Tasklet
