import Mathlib.Tactic.IntervalCases
import NanoBSD.Lib.Queues
import NanoBSD.Lib.Run

/-! # The callout wheel

The callouts of one CPU, after `kern_timeout.c`: a worklist and a wheel of four levels with
256 buckets each. Tick values are 32-bit words; the distance of two of them is read as a
signed number. A callout is scheduled onto the worklist; the soft interrupt runs it from
there if it is due and otherwise files it in the bucket for its distance, and the clock
interrupt moves whole buckets back to the worklist.
-/
namespace NanoBSD.Timeout

def delta (a b : ℕ) : ℤ :=
  let d : ℕ := (a + 2^32 - b) % 2^32
  if d < 2^31 then d else d - 2^32

def maskWheel (wheel time : ℕ) : ℕ := time / 256^wheel % 256

def bucket (rel : ℤ) (abs : ℕ) : ℕ :=
  if rel ≤ 2^16 then
    if rel ≤ 2^8 then maskWheel 0 abs else maskWheel 1 abs + 256
  else if rel ≤ 2^24 then maskWheel 2 abs + 2 * 256 else maskWheel 3 abs + 3 * 256

/-- A callout with its flags; `func` is the function with its argument. -/
structure Callout (φ : Type) where
  time : ℕ
  func : Option φ
  pending : Bool
  fired : Bool
  invoking : Bool
  precise : Bool
  slack : Bool
  deferrable : Bool

structure Governor where
  enabled : Bool
  coalesceMs : ℕ
  mstohz : ℕ → ℕ
  getticks : ℕ

def lpschedCoalesce {φ : Type} (g : Governor) (c : Callout φ) (toTicks now : ℕ) : ℕ :=
  let abs := (toTicks + now) % 2^32
  if (¬g.enabled ∨ g.coalesceMs = 0) ∨ toTicks = 0 then abs
  else if c.precise then abs
  else if ¬c.slack then abs
  else
    let grid := g.mstohz g.coalesceMs
    if grid ≤ 1 then abs
    else if toTicks < 2 * grid then abs
    else
      let rem := (g.getticks + toTicks) % 2^32 % grid
      (abs + if rem ≠ 0 then grid - rem else 0) % 2^32

def Governor.Off (g : Governor) : Prop := ¬g.enabled ∨ g.coalesceMs = 0

theorem lpschedCoalesce_off {φ : Type} {g : Governor} (h : g.Off) (c : Callout φ)
    (toTicks now : ℕ) : lpschedCoalesce g c toTicks now = (toTicks + now) % 2^32 :=
  if_pos (.inl h)

inductive Place where
  | todo
  | wheel (i : ℕ)
  deriving DecidableEq, Repr

/-- `struct callout_cpu` with its callouts. `lwp` is set while the handler runs, `active` inside a
callout, `softint` while it is scheduled. -/
structure State (ι φ : Type) where
  ticks : ℕ
  queues : Queues Place ι
  callout : ι → Callout φ
  lwp : Bool
  active : Option ι
  softint : Bool
  late : ℕ
  nextGen : ℕ
  nextNone : Bool
  nextTime : ℕ
  policyGen : ℕ
  deferrableEnabled : Bool
  governor : Governor

variable {ι φ : Type} [DecidableEq ι]

namespace State

def todo (s : State ι φ) : List ι := s.queues .todo

def setCallout (s : State ι φ) (c : ι) (co : Callout φ) : State ι φ :=
  { s with callout := Function.update s.callout c co }

@[simp] theorem setCallout_queues (s : State ι φ) (c : ι) (co : Callout φ) :
    (s.setCallout c co).queues = s.queues := rfl

@[simp] theorem setCallout_callout (s : State ι φ) (c : ι) (co : Callout φ) :
    (s.setCallout c co).callout = Function.update s.callout c co := rfl

@[simp] theorem setCallout_deferrableEnabled (s : State ι φ) (c : ι) (co : Callout φ) :
    (s.setCallout c co).deferrableEnabled = s.deferrableEnabled := rfl

def calloutScheduleLocked (s : State ι φ) (c : ι) (toTicks : ℕ) : State ι φ :=
  let co := { s.callout c with fired := false, invoking := false }
  let time := lpschedCoalesce s.governor co toTicks s.ticks
  if co.pending then
    -- moved later, it stays in its bucket and is filed again from there
    let s := s.setCallout c { co with time := time }
    if delta time co.time < 0 then { s with queues := (s.queues.remove c).insert c .todo }
    else s
  else
    let s := s.setCallout c { co with time := time, pending := true }
    { s with queues := s.queues.insert c .todo }

def calloutReset (s : State ι φ) (c : ι) (toTicks : ℕ) (func : φ) : State ι φ :=
  (s.setCallout c { s.callout c with func := some func }).calloutScheduleLocked c toTicks

def calloutStop (s : State ι φ) (c : ι) : Bool × State ι φ :=
  let co := s.callout c
  let queues := if co.pending then s.queues.remove c else s.queues
  (co.fired,{ s.setCallout c { co with pending := false, fired := false } with queues := queues })

def moveBucket (q : Queues Place ι) (wheel time : ℕ) : Queues Place ι :=
  q.append .todo (.wheel (maskWheel wheel time + wheel * 256))

def moveBuckets (q : Queues Place ι) (ticks : ℕ) : Queues Place ι :=
  let q := moveBucket q 0 ticks
  if maskWheel 0 ticks = 0 then
    let q := moveBucket q 1 ticks
    if maskWheel 1 ticks = 0 then
      let q := moveBucket q 2 ticks
      if maskWheel 2 ticks = 0 then moveBucket q 3 ticks else q
    else q
  else q

def calloutHardclock (s : State ι φ) : State ι φ :=
  let ticks := (s.ticks + 1) % 2^32
  let queues := moveBuckets s.queues ticks
  { s with
    ticks := ticks
    queues := queues
    softint := s.softint || !(queues .todo).isEmpty }

def calloutNextHonoured (s : State ι φ) (c : ι) : Prop :=
  ¬s.deferrableEnabled ∨ ¬(s.callout c).deferrable

instance (s : State ι φ) (c : ι) : Decidable (s.calloutNextHonoured c) :=
  inferInstanceAs (Decidable (_ ∨ _))

/-- A callout went into the wheel: keep the cached earliest one exact or early. -/
def calloutNextNote (s : State ι φ) (c : ι) : State ι φ :=
  if s.nextGen ≠ s.policyGen ∨ ¬s.calloutNextHonoured c then s
  else if s.nextNone ∨ delta (s.callout c).time s.nextTime < 0 then
    { s with nextNone := false, nextTime := (s.callout c).time }
  else s

/-- One round of the loop of `callout_softclock`, up to the call of the function. -/
def softclockNext (s : State ι φ) : Option (State ι φ) :=
  match s.todo with
  | [] => none
  | c :: _ =>
    let co := s.callout c
    let queues := s.queues.remove c
    let rel := delta co.time s.ticks
    if 0 < rel then
      let queues := queues.insert c (.wheel (bucket rel co.time))
      some ({ s with queues := queues }.calloutNextNote c)
    else
      let s := s.setCallout c { co with pending := false, fired := true, invoking := true }
      some { s with
        queues := queues
        late := if rel < 0 then s.late + 1 else s.late
        active := some c }

end State

/-- The calls on one CPU. A pass of the soft interrupt is `enter`, rounds `next` with a `ret` after
each function called, and `leave`, with anything else in between. -/
inductive Op (ι φ : Type) where
  | schedule (c : ι) (toTicks : ℕ)
  | reset (c : ι) (toTicks : ℕ) (func : φ)
  | stop (c : ι)
  | hardclock
  | enter
  | next
  | ret
  | leave
  deriving DecidableEq, Repr

def Op.Requests (c : ι) (toTicks : ℕ) : Op ι φ → Prop
  | .schedule d n | .reset d n _ => d = c ∧ n = toTicks
  | _ => False

/-- `to_ticks` is a nonnegative `int`, and a scheduled callout has a function. -/
def step (s : State ι φ) : Op ι φ → Option (State ι φ)
  | .schedule c toTicks =>
    if toTicks < 2^31 ∧ (s.callout c).func.isSome then some (s.calloutScheduleLocked c toTicks)
    else none
  | .reset c toTicks func =>
    if toTicks < 2^31 then some (s.calloutReset c toTicks func) else none
  | .stop c => some (s.calloutStop c).2
  | .hardclock => some s.calloutHardclock
  | .enter =>
    if s.softint ∧ ¬s.lwp then some { s with softint := false, lwp := true } else none
  | .next => if s.lwp ∧ s.active.isNone then s.softclockNext else none
  | .ret => if s.active.isSome then some { s with active := none } else none
  | .leave =>
    if s.lwp ∧ s.active.isNone ∧ s.todo.isEmpty then some { s with lwp := false } else none

section Queues
variable {q : Queues Place ι} {c : ι}

namespace State

section

omit [DecidableEq ι]

@[simp] theorem insert_todo_wheel (q : Queues Place ι) (c : ι) (i : ℕ) :
    q.insert c .todo (.wheel i) = q (.wheel i) := by
  simp [Queues.insert]

theorem mem_moveBucket_wheel {wheel time i : ℕ} : c ∈ moveBucket q wheel time (.wheel i) ↔
    i ≠ maskWheel wheel time + wheel * 256 ∧ c ∈ q (.wheel i) := by
  rw [moveBucket,Queues.mem_append (by simp)]
  simp

theorem mem_moveBuckets_wheel {ticks i : ℕ} (h : c ∈ moveBuckets q ticks (.wheel i)) :
    c ∈ q (.wheel i) ∧ ∀ wheel < 4, (∀ j < wheel, maskWheel j ticks = 0) →
      i ≠ maskWheel wheel ticks + wheel * 256 := by
  -- each digit that is not zero ends the chain of levels
  unfold moveBuckets at h
  dsimp only at h
  split_ifs at h with h0 h1 h2 <;> simp only [mem_moveBucket_wheel] at h
  all_goals
    refine ⟨by tauto,fun wheel hwheel hlower => ?_⟩
    interval_cases wheel <;> grind

theorem moveBucket_todo (q : Queues Place ι) (wheel time : ℕ) : moveBucket q wheel time .todo =
    q .todo ++ q (.wheel (maskWheel wheel time + wheel * 256)) := by
  simp [moveBucket,Queues.append]

theorem moveBuckets_todo (q : Queues Place ι) (ticks : ℕ) :
    ∃ l, moveBuckets q ticks .todo = q .todo ++ l := by
  unfold moveBuckets
  dsimp only
  split_ifs <;> simp only [moveBucket_todo,List.append_assoc] <;> exact ⟨_,rfl⟩

theorem placed_moveBuckets {P : ι → Prop} (h : q.Placed P) (ticks : ℕ) :
    (moveBuckets q ticks).Placed P := by
  have hmove {q : Queues Place ι} (h : q.Placed P) (wheel : ℕ) :
      (moveBucket q wheel ticks).Placed P := h.append (by simp)
  unfold moveBuckets
  dsimp only
  split_ifs
  · exact hmove (hmove (hmove (hmove h 0) 1) 2) 3
  · exact hmove (hmove (hmove h 0) 1) 2
  · exact hmove (hmove h 0) 1
  · exact hmove h 0

end
end State
end Queues

section Softclock
variable {s t : State ι φ} {c : ι}

omit [DecidableEq ι] in
theorem State.calloutNextNote_eq (s : State ι φ) (c : ι) : ∃ none time,
    s.calloutNextNote c = { s with nextNone := none, nextTime := time } := by
  unfold calloutNextNote
  split
  · exact ⟨s.nextNone,s.nextTime,rfl⟩
  · split
    · exact ⟨_,_,rfl⟩
    · exact ⟨s.nextNone,s.nextTime,rfl⟩

theorem State.softclockNext_cases (h : s.softclockNext = some t) : ∃ c rest, s.todo = c :: rest ∧
    ((0 < delta (s.callout c).time s.ticks ∧ ∃ none time, t = { s with
        queues := (s.queues.remove c).insert c
          (.wheel (bucket (delta (s.callout c).time s.ticks) (s.callout c).time))
        nextNone := none
        nextTime := time }) ∨
      (¬0 < delta (s.callout c).time s.ticks ∧ ∃ late, t =
        { s.setCallout c
            { s.callout c with pending := false, fired := true, invoking := true } with
          queues := s.queues.remove c
          late := late
          active := some c })) := by
  unfold softclockNext at h
  cases htodo : s.todo with
  | nil => simp [htodo] at h
  | cons c rest =>
    refine ⟨c,rest,rfl,?_⟩
    simp only [htodo] at h
    split at h <;> rename_i hrel
    · obtain ⟨none,time,hnote⟩ := State.calloutNextNote_eq { s with
        queues := (s.queues.remove c).insert c
          (.wheel (bucket (delta (s.callout c).time s.ticks) (s.callout c).time)) } c
      rw [hnote] at h
      exact .inl ⟨hrel,none,time,(Option.some.inj h).symm⟩
    · exact .inr ⟨hrel,_,(Option.some.inj h).symm⟩

end Softclock

structure Fresh (s : State ι φ) : Prop where
  ticks_lt : s.ticks < 2^32
  queues_eq : s.queues = fun _ => []
  idle : ∀ c, (s.callout c).pending = false

def quiet : State ι φ where
  ticks := 0
  queues := fun _ => []
  callout := fun _ => ⟨0,none,false,false,false,false,false,false⟩
  lwp := false
  active := none
  softint := false
  late := 0
  nextGen := 0
  nextNone := false
  nextTime := 0
  policyGen := 1
  deferrableEnabled := true
  governor := ⟨false,0,fun _ => 0,0⟩

omit [DecidableEq ι] in
theorem quiet_fresh : Fresh (quiet : State ι φ) := ⟨Nat.two_pow_pos 32,rfl,fun _ => rfl⟩

end NanoBSD.Timeout
