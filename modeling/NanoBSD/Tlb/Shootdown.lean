import NanoBSD.Lib.Run

/-! # TLB shootdowns

`x86_tlb.c` and the part of `pmap.c` that loads and releases pmaps, with `machdep.tlb_lazyskip`
on and SVS off. A CPU that removes translations of user pmaps collects them in its packet with
the CPUs that use the pmaps, and `pmap_tlb_shootnow` interrupts those CPUs and waits. A CPU that
has gone lazy is marked instead and left alone: it flushes when it claims its pmap back.

Every access to shared state is a step of its own, and so is every flush. The interrupt handler
comes in between any two steps of its CPU, which then waits for it. The TLB of a CPU holds
translations of the page tables in its `%cr3`; it may load one at any time, as long as the
translation is there. The CPU sets are scanned one CPU at a time. The memory is sequentially
consistent.
-/
namespace NanoBSD.Tlb
open Function
variable {κ π μ ν : Type}

inductive TlbState
  | valid
  | lazy
  | stale
  | flush
  deriving DecidableEq, Repr

def tpMaxva : ℕ := 16

/-- `pmap_tlb_packet_t`: the addresses to invalidate, or `TP_ALLVA`, and `TP_SET_NOSKIP`. -/
structure Packet (ν : Type) where
  all : Bool
  vas : List ν
  noskip : Bool
  deriving DecidableEq, Repr

namespace Packet

def clear : Packet ν := { all := false, vas := [], noskip := false }
def isEmpty (tp : Packet ν) : Bool := !tp.all && tp.vas.isEmpty

def add (tp : Packet ν) : Option ν → Packet ν
  | some va =>
    if !tp.all && decide (tp.vas.length < tpMaxva) then { tp with vas := tp.vas ++ [va] }
    else { tp with all := true }
  | none => { tp with all := true }

def covers [DecidableEq ν] (tp : Packet ν) (va : ν) : Bool := tp.all || tp.vas.contains va

end Packet

/-- What does not change: the CPUs in the order of `CPU_INFO_FOREACH`, and the pmap and the
address of each translation. -/
structure Platform (κ π μ ν : Type) where
  cpus : List κ
  nodup : cpus.Nodup
  complete : ∀ c, c ∈ cpus
  pmapOf : μ → π
  vaOf : μ → ν

/-- Where a CPU is outside the handler: at work, in `pmap_load1`, `pmap_reactivate`,
`pmap_tlb_shootdown`, or `pmap_tlb_shootnow`, where `here` is `local`, `n` is `rcpucount` and `ts`
the copy of the packet. -/
inductive Pc (κ π ν : Type)
  | run
  | clearOld (p : π)
  | storeValid (p : π)
  | setNew (p : π)
  | setPmap (p : π)
  | loadCr3 (p : π)
  | readState
  | claim (old : TlbState)
  | check (old : TlbState)
  | setBit
  | flush
  | merge (p : π) (va : Option ν) (rest : List κ)
  | skip (here : Bool) (n : ℕ) (rest : List κ)
  | skipCas (here : Bool) (n : ℕ) (c : κ) (rest : List κ)
  | decide (here : Bool) (n : ℕ)
  | acquire (here : Bool) (n : ℕ) (ts : Packet ν)
  | post (here : Bool) (n : ℕ) (ts : Packet ν)
  | send (here : Bool) (ts : Packet ν) (rest : List κ)
  | invalidate (here : Bool) (ts : Packet ν)
  | wait (ts : Packet ν)
  deriving DecidableEq, Repr

/-- Where a CPU is in `pmap_tlb_intr`, with the CPU `src` whose packet it has copied. -/
inductive Handler (κ ν : Type)
  | idle
  | entered
  | copied (src : κ) (copy : Packet ν)
  | clearing (src : κ) (copy : Packet ν)
  | marking (src : κ) (copy : Packet ν)
  | invalidate (copy : Packet ν)
  | look
  | leave
  | stale
  deriving DecidableEq, Repr

/-- A CPU: its TLB state, `ci_pmap`, `%cr3`, its place in `pm_cpus` of each pmap, its TLB, the
pending interrupt, and its packet with the CPU set and `TP_DONE`. `due` is not in the source: the
CPU is a target that has not acknowledged the packet. -/
structure Cpu (κ π μ ν : Type) where
  tlbstate : TlbState
  pmap : π
  cr3 : π
  inCpus : π → Bool
  tlb : μ → Bool
  pc : Pc κ π ν
  handler : Handler κ ν
  ipi : Bool
  due : Bool
  tp : Packet ν
  cpuset : κ → Bool
  done : Bool

/-- A translation is entered into a page table, cleared by a CPU, put into its packet, and retired
when the CPU's `pmap_tlb_shootnow` has returned. -/
inductive Stage (κ : Type)
  | absent
  | live
  | cleared (c : κ)
  | queued (c : κ)
  | retired
  deriving DecidableEq, Repr

structure State (κ π μ ν : Type) where
  cpu : κ → Cpu κ π μ ν
  packet : Option (κ × Packet ν)
  pendcount : ℕ
  stage : μ → Stage κ

def State.init [DecidableEq π] (p₀ : κ → π) : State κ π μ ν where
  cpu c :=
    { tlbstate := .valid, pmap := p₀ c, cr3 := p₀ c, inCpus := fun p => p = p₀ c
      tlb := fun _ => false, pc := .run, handler := .idle, ipi := false, due := false
      tp := .clear, cpuset := fun _ => false, done := false }
  packet := none
  pendcount := 0
  stage _ := .absent

section Local

variable [DecidableEq π] [DecidableEq ν] (pf : Platform κ π μ ν) (x : Cpu κ π μ ν)

def Cpu.setState (st : TlbState) : Cpu κ π μ ν := { x with tlbstate := st }
def Cpu.goto (pc : Pc κ π ν) : Cpu κ π μ ν := { x with pc := pc }
def Cpu.setIn (p : π) (b : Bool) : Cpu κ π μ ν := { x with inCpus := update x.inCpus p b }
def Cpu.tlbflush : Cpu κ π μ ν := { x with tlb := fun _ => false }

def Cpu.invalidate (tp : Packet ν) : Cpu κ π μ ν :=
  { x with tlb := fun m => x.tlb m && !tp.covers (pf.vaOf m) }

def Cpu.mmu : Option (Cpu κ π μ ν) :=
  match x.pc with
  | .clearOld p => some ((x.setIn x.pmap false).goto (.storeValid p))
  | .storeValid p => some ((x.setState .valid).goto (.setNew p))
  | .setNew p => some ((x.setIn p true).goto (.setPmap p))
  | .setPmap p => some ({ x with pmap := p }.goto (.loadCr3 p))
  | .loadCr3 p => some ({ x with cr3 := p }.tlbflush.goto .run)
  | .readState => some (x.goto (.claim x.tlbstate))
  | .claim old =>
    some (if x.tlbstate = old then (x.setState .valid).goto (.check old) else x.goto .readState)
  | .check old =>
    some (x.goto
      (if x.inCpus x.pmap then if old = .flush then .flush else .run else .setBit))
  | .setBit => some ((x.setIn x.pmap true).goto .flush)
  | .flush => some (x.tlbflush.goto .run)
  | _ => none

def Cpu.intrTail : Option (Cpu κ π μ ν) :=
  match x.handler with
  | .invalidate copy => some { x.invalidate pf copy with handler := .look }
  | .look => some { x with handler := if x.tlbstate = .lazy then .leave else .idle }
  | .leave => some { x.setIn x.pmap false with handler := .stale }
  | .stale => some { x.setState .stale with handler := .idle }
  | _ => none

def Cpu.load (p : π) : Cpu κ π μ ν := x.goto (if p = x.pmap then .readState else .clearOld p)

def Cpu.mapPtes (p : π) : Cpu κ π μ ν :=
  if p = x.pmap then if x.tlbstate = .valid then x else x.goto .readState else x.goto (.clearOld p)

def Cpu.unmapPtes (own : Bool) : Option (Cpu κ π μ ν) :=
  if x.tlbstate = .valid then some (if own then x else x.setState .lazy) else none

def Cpu.deactivate : Option (Cpu κ π μ ν) :=
  if x.tp.isEmpty then some (if x.tlbstate = .valid then x.setState .lazy else x) else none

end Local

namespace State

variable [DecidableEq κ] [DecidableEq π] [DecidableEq μ] [DecidableEq ν]
  (pf : Platform κ π μ ν) (s : State κ π μ ν)

def set (c : κ) (x : Cpu κ π μ ν) : State κ π μ ν := { s with cpu := update s.cpu c x }

def setStage (m : μ) (g : Stage κ) : State κ π μ ν :=
  { s with stage := update s.stage m g }

def shot (c : κ) (p : π) (va : Option ν) (m : μ) : Prop :=
  s.stage m = .cleared c ∧ pf.pmapOf m = p ∧ (va = none ∨ va = some (pf.vaOf m))

instance (c : κ) (p : π) (va : Option ν) (m : μ) : Decidable (s.shot pf c p va m) :=
  inferInstanceAs (Decidable (_ ∧ _ ∧ _))

def enqueued (c : κ) (p : π) (va : Option ν) : State κ π μ ν :=
  { s with stage := fun m => if s.shot pf c p va m then .queued c else s.stage m }

def retire (c : κ) : State κ π μ ν :=
  { s with stage := fun m => if s.stage m = .queued c then .retired else s.stage m }

def shootnow (c : κ) : State κ π μ ν :=
  let x := s.cpu c
  if x.tp.isEmpty then s
  else
    let here := x.cpuset c
    let n := pf.cpus.countP x.cpuset - here.toNat
    s.set c (x.goto (if n ≠ 0 ∧ x.tp.noskip = false then .skip here n pf.cpus else .decide here n))

def skipped (c d : κ) (here : Bool) (n : ℕ) (rest : List κ) : State κ π μ ν :=
  let x := s.cpu c
  s.set c ({ x with cpuset := update x.cpuset d false }.goto (.skip here (n - 1) rest))

def advance (c : κ) : Option (State κ π μ ν) :=
  let x := s.cpu c
  match x.pc with
  | .run => none
  | .merge p va (d :: rest) =>
    let y := { x with cpuset := update x.cpuset d (x.cpuset d || (s.cpu d).inCpus p) }
    some (s.set c (y.goto (.merge p va rest)))
  | .merge p va [] => some ((s.enqueued pf c p va).set c (x.goto .run))
  | .skip here n [] => some (s.set c (x.goto (.decide here n)))
  | .skip here n (d :: rest) =>
    if d = c ∨ x.cpuset d = false then some (s.set c (x.goto (.skip here n rest)))
    else
      match (s.cpu d).tlbstate with
      | .lazy => some (s.set c (x.goto (.skipCas here n d rest)))
      | .flush => some (s.skipped c d here n rest)
      | _ => some (s.set c (x.goto (.skip here n rest)))
  | .skipCas here n d rest =>
    match (s.cpu d).tlbstate with
    | .lazy => some ((s.set d ((s.cpu d).setState .flush)).skipped c d here n rest)
    | .flush => some (s.skipped c d here n rest)
    | _ => some (s.set c (x.goto (.skip here n rest)))
  | .decide here n =>
    if n = 0 then
      let y := { x.invalidate pf x.tp with cpuset := fun _ => false, tp := .clear }
      some ((s.retire c).set c (y.goto .run))
    else some (s.set c (x.goto (.acquire here n x.tp)))
  | .acquire here n ts =>
    match s.packet with
    | none => some ({ s with packet := some (c,ts) }.set c ({ x with done := false }.goto (.post here n ts)))
    | some _ => none
  | .post here n ts =>
    let t := { s with
      pendcount := n
      cpu := fun d => { s.cpu d with due := decide (d ≠ c) && x.cpuset d } }
    some (t.set c ((t.cpu c).goto (.send here ts pf.cpus)))
  | .send here ts (d :: rest) =>
    let t := if d ≠ c ∧ x.cpuset d = true then s.set d { s.cpu d with ipi := true } else s
    some (t.set c (x.goto (.send here ts rest)))
  | .send here ts [] =>
    some (s.set c ({ x with cpuset := fun _ => false, tp := .clear }.goto (.invalidate here ts)))
  | .invalidate here ts =>
    some (s.set c ((if here then x.invalidate pf ts else x).goto (.wait ts)))
  | .wait _ => if x.done then some ((s.retire c).set c (x.goto .run)) else none
  | _ => x.mmu.map (s.set c)

def intr (c : κ) : Option (State κ π μ ν) :=
  let x := s.cpu c
  match x.handler with
  | .entered => s.packet.map fun tp => s.set c { x with handler := .copied tp.1 tp.2 }
  | .copied src copy =>
    some ({ s with pendcount := s.pendcount - 1 }.set c
      { x with
        due := false
        handler := if s.pendcount - 1 = 0 then .clearing src copy else .invalidate copy })
  | .clearing src copy =>
    some ({ s with packet := none }.set c { x with handler := .marking src copy })
  | .marking src copy =>
    let t := s.set src { s.cpu src with done := true }
    some (t.set c { t.cpu c with handler := .invalidate copy })
  | _ => (x.intrTail pf).map (s.set c)

end State

/-- Translations come and go, TLBs are filled; a CPU starts an operation on pmaps or goes on with
it; and an interrupt comes in or goes on. -/
inductive Event (κ π μ ν : Type)
  | enter (m : μ)
  | fill (c : κ) (m : μ)
  | clear (c : κ) (m : μ)
  | shootdown (c : κ) (p : π) (va : Option ν) (noskip : Bool)
  | shootnow (c : κ)
  | load (c : κ) (p : π)
  | mapPtes (c : κ) (p : π)
  | unmapPtes (c : κ) (own : Bool)
  | deactivate (c : κ)
  | advance (c : κ)
  | ipi (c : κ)
  | intr (c : κ)

def Cpu.open (x : Cpu κ π μ ν) : Prop := x.handler = .idle
def Cpu.free (x : Cpu κ π μ ν) : Prop := x.handler = .idle ∧ x.pc = .run

variable [DecidableEq κ] [DecidableEq π] [DecidableEq μ] [DecidableEq ν]

instance (x : Cpu κ π μ ν) : Decidable x.open := inferInstanceAs (Decidable (_ = _))
instance (x : Cpu κ π μ ν) : Decidable x.free := inferInstanceAs (Decidable (_ ∧ _))

def step (pf : Platform κ π μ ν) (s : State κ π μ ν) :
    Event κ π μ ν → Option (State κ π μ ν)
  | .enter m => if s.stage m = .absent then some (s.setStage m .live) else none
  | .fill c m =>
    let x := s.cpu c
    if s.stage m = .live ∧ pf.pmapOf m = x.cr3 then
      some (s.set c { x with tlb := update x.tlb m true })
    else none
  | .clear c m =>
    if (s.cpu c).free ∧ s.stage m = .live then some (s.setStage m (.cleared c)) else none
  | .shootdown c p va noskip =>
    let x := s.cpu c
    if x.free then
      let tp := { x.tp.add va with noskip := x.tp.noskip || noskip }
      some (s.set c ({ x with tp := tp }.goto (.merge p va pf.cpus)))
    else none
  | .shootnow c => if (s.cpu c).free then some (s.shootnow pf c) else none
  | .load c p => if (s.cpu c).free then some (s.set c ((s.cpu c).load p)) else none
  | .mapPtes c p => if (s.cpu c).free then some (s.set c ((s.cpu c).mapPtes p)) else none
  | .unmapPtes c own =>
    if (s.cpu c).free then ((s.cpu c).unmapPtes own).map (s.set c) else none
  | .deactivate c => if (s.cpu c).free then (s.cpu c).deactivate.map (s.set c) else none
  | .advance c => if (s.cpu c).open then s.advance pf c else none
  | .ipi c =>
    let x := s.cpu c
    if x.ipi = true ∧ x.open then some (s.set c { x with ipi := false, handler := .entered })
    else none
  | .intr c => s.intr pf c

end NanoBSD.Tlb
