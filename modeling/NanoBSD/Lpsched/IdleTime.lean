import NanoBSD.Lib.Run
import Mathlib.Algebra.Group.Nat.Defs

/-! # The idle time of each CPU and its readers

`lpsched_set_idle_depth` opens and closes the idle intervals of its own CPU under a
generation that is odd while the record changes, and `lpsched_sysctl_cpu_idle` takes the
records of all CPUs under that generation, against one sample of the counter. Every load,
store and sample is a step of its own. The time stamp counter is the same on all CPUs and
does not come round. Readers write nothing, so one reader with a list of its reports stands
for all reads that do not overlap.
-/
namespace NanoBSD.Lpsched

structure LpschedIdle where
  gen : ℕ
  since : ℕ
  cc : ℕ
  deriving DecidableEq, Repr

/-- Where a CPU is in `lpsched_set_idle_depth`. An interval is opened by `opening`, `opened`,
`sampled`, `stored`, and closed by the others; the generation is incremented into the second of each
and out of the last. -/
inductive Writer
  | rest
  | opening
  | opened
  | sampled (t : ℕ)
  | stored
  | closing (now : ℕ)
  | closed (now : ℕ)
  | added
  | cleared
  deriving DecidableEq, Repr

structure Cpu where
  li : LpschedIdle
  writer : Writer
  deriving DecidableEq, Repr

inductive Attempt
  | start
  | gen (g1 : ℕ)
  | since (g1 since : ℕ)
  | cc (g1 since cc : ℕ)
  deriving DecidableEq, Repr

structure Reading where
  now : ℕ
  c : ℕ
  buf : ℕ → ℕ
  attempt : Attempt

inductive Reader
  | away
  | admitted
  | reading (r : Reading)

structure Report where
  now : ℕ
  idle : ℕ → ℕ

def Report.nowUs (mhz : ℕ) (r : Report) : ℕ := r.now / mhz
def Report.idleUs (mhz : ℕ) (r : Report) (c : ℕ) : ℕ := r.idle c / mhz

structure State where
  tsc : ℕ
  cpu : ℕ → Cpu
  idleAcct : Bool
  idleHooked : Bool
  reader : Reader
  reports : List Report

def State.boot : State where
  tsc := 0
  cpu := fun _ => ⟨⟨0,0,0⟩,.rest⟩
  idleAcct := true
  idleHooked := false
  reader := .away
  reports := []

def charge (now since cc : ℕ) : ℕ := if since ≠ 0 ∧ since < now then cc + (now - since) else cc

/-- The call of `lpsched_set_idle_depth`, up to its first store. -/
def Cpu.setIdleDepth (k : Cpu) (tsc : ℕ) (idleAcct active : Bool) : Cpu :=
  if active then
    if k.li.since ≠ 0 then { k with writer := .closing tsc } else k
  else
    if idleAcct ∧ k.li.since = 0 then { k with writer := .opening } else k

def Cpu.bumpGen (k : Cpu) (w : Writer) : Cpu :=
  ⟨{ k.li with gen := (k.li.gen + 1) % 2^32 },w⟩

def Cpu.next (k : Cpu) (tsc : ℕ) : Option Cpu :=
  match k.writer with
  | .rest => none
  | .opening => some (k.bumpGen .opened)
  | .opened => some { k with writer := .sampled tsc }
  | .sampled t => some ⟨{ k.li with since := t ||| 1 },.stored⟩
  | .stored => some (k.bumpGen .rest)
  | .closing now => some (k.bumpGen (.closed now))
  | .closed now => some ⟨{ k.li with cc := charge now k.li.since k.li.cc },.added⟩
  | .added => some ⟨{ k.li with since := 0 },.cleared⟩
  | .cleared => some (k.bumpGen .rest)

def Reading.next (r : Reading) (li : LpschedIdle) : Reading :=
  match r.attempt with
  | .start => { r with attempt := .gen li.gen }
  | .gen g1 => { r with attempt := .since g1 li.since }
  | .since g1 since => { r with attempt := .cc g1 since li.cc }
  | .cc g1 since cc =>
    if g1 ≠ li.gen ∨ g1 % 2 ≠ 0 then { r with attempt := .start }
    else
      { r with
        c := r.c + 1
        buf := Function.update r.buf r.c (charge r.now since cc)
        attempt := .start }

/-- Time passes, `lpsched_set_idle_depth` is called on a CPU or goes on, and so does the sysctl. -/
inductive Event
  | tick (d : ℕ)
  | setAcct (on : Bool)
  | setHooked (on : Bool)
  | setIdleDepth (c : ℕ) (active : Bool)
  | write (c : ℕ)
  | call
  | read
  deriving DecidableEq, Repr

namespace State

def setCpu (s : State) (c : ℕ) (k : Cpu) : State := { s with cpu := Function.update s.cpu c k }

def readNext (n : ℕ) (s : State) : Option State :=
  match s.reader with
  | .away => none
  | .admitted => some { s with reader := .reading ⟨s.tsc,0,fun _ => 0,.start⟩ }
  | .reading r =>
    if r.c < n then some { s with reader := .reading (r.next (s.cpu r.c).li) }
    else some { s with reader := .away, reports := ⟨r.now,r.buf⟩ :: s.reports }

def step (n : ℕ) (s : State) : Event → Option State
  | .tick d => some { s with tsc := s.tsc + d }
  | .setAcct on => some { s with idleAcct := on }
  | .setHooked on => some { s with idleHooked := on }
  | .setIdleDepth c active =>
    if (s.cpu c).writer = .rest then
      some (s.setCpu c ((s.cpu c).setIdleDepth s.tsc s.idleAcct active))
    else none
  | .write c => ((s.cpu c).next s.tsc).map (s.setCpu c)
  | .call =>
    match s.reader with
    | .away => if s.idleHooked ∧ s.idleAcct then some { s with reader := .admitted } else some s
    | _ => none
  | .read => s.readNext n

end State
end NanoBSD.Lpsched
