import Mathlib.Data.Rat.Init
import Mathlib.Algebra.Group.Nat.Defs
import NanoBSD.Hwp.PowerLimit
import NanoBSD.Lib.Run

/-! # The power governor and the package power limits

The daemon's main loop picks a profile from the supply, the load and the last input, and
keeps the two package power limits of the supply: the long-term PL1 and the burst limit
PL2. The limits are fields of one register in steps of 1/8 W, which the kernel module
reads and writes in milliwatts; a write can fail, for a reason of its own or because the
module refuses the value. The daemon looks at no outcome of a write.

Loads, clock readings, the supply and which calls fail are answers. What the register
held before each write is kept, so that a run shows it at every point.
-/
namespace NanoBSD.Lpschedd

/-! ## The register and its sysctl nodes -/

abbrev Pl := Hwp.Limit

/-- The fields of `MSR_PKG_POWER_LIMIT`. -/
structure Register where
  pl1 : ℕ
  pl1Enable : Bool
  pl2 : ℕ
  pl2Enable : Bool
  lock : Bool
deriving DecidableEq

def hwpRawToMw (raw : ℕ) : ℤ := Hwp.hwpRawToMw 3 raw
def hwpMwToRaw (mw : ℤ) : ℕ := Hwp.hwpMwToRaw 3 mw.toNat

def Register.mw (r : Register) : Pl → ℤ
  | .pl1 => hwpRawToMw r.pl1
  | .pl2 => hwpRawToMw r.pl2

def Register.put (r : Register) (field : Pl) (val : ℤ) : Register :=
  match field with
  | .pl1 => { r with pl1 := hwpMwToRaw val, pl1Enable := true }
  | .pl2 => { r with pl2 := hwpMwToRaw val, pl2Enable := true }

def hwpSysctlPl (r : Register) (field : Pl) (val : ℤ) : Option Register :=
  if r.lock then none
  else if val < 3000 ∨ val > 64000 then none
  else some (r.put field val)

def Register.of (lim : BitVec 64) : Register where
  pl1 := Hwp.Limit.pl1.field lim
  pl1Enable := lim.getLsbD 15
  pl2 := Hwp.Limit.pl2.field lim
  pl2Enable := lim.getLsbD 47
  lock := lim.getLsbD Hwp.plLock

/-- The fields change as those of the register do. -/
theorem hwpSysctlPl_of (lim : BitVec 64) (field : Pl) (val : ℤ) :
    hwpSysctlPl (.of lim) field val =
      (Hwp.hwpSysctlPl 3 field (some lim) (some val)).toOption.map fun x => .of x.2 := by
  unfold hwpSysctlPl Hwp.hwpSysctlPl
  dsimp only
  rw [show (Register.of lim).lock = lim.getLsbD Hwp.plLock from rfl]
  split_ifs with hlock hval
  · rfl
  · rfl
  · have hfits : Hwp.hwpMwToRaw 3 val.toNat < 2 ^ 15 := by
      unfold Hwp.hwpMwToRaw
      omega
    have hbits := Hwp.Limit.getLsbD_install field lim hfits
    have hself := Hwp.Limit.field_install field lim (Hwp.hwpMwToRaw 3 val.toNat)
    have hother {l' : Hwp.Limit} (hne : field ≠ l') :=
      Hwp.Limit.field_install_of_ne field lim hne hfits
    rw [Nat.mod_eq_of_lt hfits] at hself
    change some _ = some (Register.of (field.install (Hwp.hwpMwToRaw 3 val.toNat) lim))
    cases field <;> simp only [Register.of,Register.put,Hwp.plLock,hself,hother,hbits,ne_eq,
      Nat.reduceLT,reduceCtorEq,not_false_eq_true] <;> rfl

/-! ## The daemon -/

inductive Call
  | getPl1
  | getPl1Enabled
  | setPl1
  | getPl2
  | setPl2
  | getEppHw
  | rewriteEpp
  | setCoalesceMs
  | setPack
  | setEpp
  | setEnabled
  | getIdleMs
deriving DecidableEq

structure Conf where
  dryrun : Bool := false
  boostMs : ℤ := 1000
  interactiveMs : ℤ := 10000
  loadHi : ℚ := 1 / 4
  loadLo : ℚ := 3 / 20
  pl1Bat : ℤ := 10000
  pl1Boot : ℤ := 0
  pl2Bat : ℤ := 0
  pl2Boot : ℤ := 0
  origEpp : ℤ := 128

def oneHi : ℚ := 17 / 20
def oneLo : ℚ := 3 / 5

inductive Profile
  | perf
  | balanced
  | load
  | batch
  | powersave
deriving DecidableEq

namespace Profile

def rank : Profile → ℕ
  | perf => 0
  | balanced => 1
  | load => 2
  | batch => 3
  | powersave => 4

def epp : Profile → ℤ
  | perf => 32
  | balanced => 128
  | load => 192
  | batch => 224
  | powersave => 240

def pack : Profile → ℤ
  | powersave => 2
  | _ => 0

def coalesceMs : Profile → ℤ
  | balanced => 20
  | powersave => 50
  | _ => 0

end Profile

structure Knobs where
  enabled : ℤ
  pack : ℤ
  coalesceMs : ℤ
  epp : ℤ

structure World where
  reg : Register
  past : List Register
  knobs : Knobs

/-- The daemon's variables. The supply is unknown until it could be read; `lastAc` and `cur` have no
value before the first pass. -/
structure Daemon where
  world : World
  ac : Option Bool
  lastAc : Option (Option Bool) := none
  plChecked : ℕ := 0
  cur : Option Profile := none
  pending : Bool := false
  pendingSince : ℕ := 0
  loadLatched : Bool := false
  oneLatched : Bool := false
  exited : Bool := false

def onBattery (ac : Option Bool) : Bool := ac = some false

variable (c : Conf)

def setPl (fails : Bool) (field : Pl) (val : ℤ) (w : World) : World :=
  if c.dryrun ∨ fails then w
  else match hwpSysctlPl w.reg field val with
    | none => w
    | some reg => { w with reg := reg, past := w.reg :: w.past }

def setKnob (fails : Bool) (turn : Knobs → Knobs) (w : World) : World :=
  if c.dryrun ∨ fails then w else { w with knobs := turn w.knobs }

def Conf.keeps : Pl → Bool
  | .pl1 => decide (0 < c.pl1Bat ∧ 0 < c.pl1Boot)
  | .pl2 => decide (0 < c.pl2Bat ∧ 0 < c.pl2Boot)

def want1 (ac : Option Bool) : ℤ :=
  if onBattery ac then (if c.pl1Bat < c.pl1Boot then c.pl1Bat else c.pl1Boot) else c.pl1Boot

def want2 (ac : Option Bool) (want1 : ℤ) : ℤ :=
  let want :=
    if onBattery ac then (if c.pl2Bat < c.pl2Boot then c.pl2Bat else c.pl2Boot) else c.pl2Boot
  if want < want1 then want1 else want

def applyPl2 (fails : Call → Bool) (ac : Option Bool) (want1 : ℤ) (w : World) : World :=
  if !c.keeps .pl2 then w
  else if fails .getPl2 then w
  else
    let want := want2 c ac want1
    let cur := w.reg.mw .pl2
    if cur > want - 125 ∧ cur < want + 125 then w
    else setPl c (fails .setPl2) .pl2 want w

def applyPl1 (fails : Call → Bool) (want : ℤ) (w : World) : World :=
  let cur := w.reg.mw .pl1
  let en := if fails .getPl1Enabled then true else w.reg.pl1Enable
  if !en ∨ cur ≤ want - 125 ∨ cur ≥ want + 125 then setPl c (fails .setPl1) .pl1 want w else w

def applyPl (fails : Call → Bool) (ac : Option Bool) (w : World) : World :=
  if !c.keeps .pl1 then applyPl2 c fails ac 0 w
  else if onBattery ac then
    -- going to battery lowers PL1 first
    if fails .getPl1 then w
    else applyPl2 c fails ac (want1 c ac) (applyPl1 c fails (want1 c ac) w)
  else
    -- coming back raises PL2 first
    if fails .getPl1 then applyPl2 c fails ac (want1 c ac) w
    else applyPl1 c fails (want1 c ac) (applyPl2 c fails ac (want1 c ac) w)

def verifyEpp (fails : Call → Bool) (hw : ℤ) (cur : Option Profile) (w : World) : World :=
  match cur with
  | none => w
  | some p =>
    if fails .getEppHw then w
    else if hw = p.epp then w
    else setKnob c (fails .rewriteEpp) (fun k => { k with epp := p.epp }) w

/-- `apply_profile`: coalesce before pack, both before the preference. -/
def applyProfile (fails : Call → Bool) (p : Profile) (w : World) : World :=
  setKnob c (fails .setEpp) (fun k => { k with epp := p.epp })
    (setKnob c (fails .setPack) (fun k => { k with pack := p.pack })
      (setKnob c (fails .setCoalesceMs) (fun k => { k with coalesceMs := p.coalesceMs }) w))

/-- A latch with a band: it drops below `lo` and catches above `hi`. -/
def latch (latched : Bool) (lo hi x : ℚ) : Bool :=
  if latched ∧ x < lo then false else if !latched ∧ x > hi then true else latched

/-- `decide`, once the latches are set; with the supply unknown it does no harm. -/
def choose (ac : Option Bool) (loadLatched oneLatched : Bool) (idleMs : ℤ) : Profile :=
  if !onBattery ac then .perf
  else if idleMs < c.boostMs then .balanced
  else if loadLatched then (if idleMs < c.interactiveMs then .load else .batch)
  else if oneLatched ∧ idleMs < c.interactiveMs then .load
  else .powersave

/-- What one pass of the loop finds. The clock is read up to three times. -/
structure Sample where
  acFile : Option Bool
  busy : ℚ
  busyMax : ℚ
  idleMs : ℤ
  nowCheck : ℕ
  nowChecked : ℕ
  nowPending : ℕ
  eppHw : ℤ
  fails : Call → Bool

def Daemon.acNext (d : Daemon) (x : Sample) : Option Bool :=
  if x.acFile.isSome then x.acFile else d.ac
def elapsed (now since : ℕ) : ℕ := (now + 2 ^ 64 - since) % 2 ^ 64

/-- Whether a pass looks at the limits: the supply changed, or they were not looked at
for 30 s. -/
def Daemon.due (d : Daemon) (x : Sample) : Bool :=
  decide (some (d.acNext x) ≠ d.lastAc ∨ elapsed x.nowCheck d.plChecked ≥ 30000)

def Daemon.check (d : Daemon) (x : Sample) : Daemon :=
  if d.due x then
    { d with
      ac := d.acNext x
      world := verifyEpp c x.fails x.eppHw d.cur (applyPl c x.fails (d.acNext x) d.world)
      lastAc := some (d.acNext x)
      plChecked := x.nowChecked }
  else { d with ac := d.acNext x }

/-- The second half: up at once, down when the condition held for half a second. -/
def Daemon.shift (d : Daemon) (x : Sample) (want : Profile) : Daemon :=
  match d.cur with
  | none => { d with cur := some want, pending := false, world := applyProfile c x.fails want d.world }
  | some cur =>
    if want.rank < cur.rank then
      { d with cur := some want, pending := false, world := applyProfile c x.fails want d.world }
    else if want.rank > cur.rank then
      if !d.pending then { d with pending := true, pendingSince := x.nowPending }
      else if elapsed x.nowPending d.pendingSince ≥ 500 then
        { d with cur := some want, pending := false, world := applyProfile c x.fails want d.world }
      else d
    else { d with pending := false }

/-- The latches of `decide`; on AC they are left as they are. -/
def Daemon.latches (d : Daemon) (x : Sample) : Daemon :=
  if onBattery d.ac then
    { d with
      loadLatched := latch d.loadLatched c.loadLo c.loadHi x.busy
      oneLatched := latch d.oneLatched oneLo oneHi x.busyMax }
  else d

def Daemon.pass (d : Daemon) (x : Sample) : Daemon :=
  let d := (d.check c x).latches c x
  let idleMs := if x.fails .getIdleMs then 0 else x.idleMs
  d.shift c x (choose c d.ac d.loadLatched d.oneLatched idleMs)

def restoreKnobs (fails : Call → Bool) (w : World) : World :=
  setKnob c (fails .setEpp) (fun k => { k with epp := c.origEpp })
    (setKnob c (fails .setCoalesceMs) (fun k => { k with coalesceMs := 0 })
      (setKnob c (fails .setPack) (fun k => { k with pack := 0 })
        (setKnob c (fails .setEnabled) (fun k => { k with enabled := 0 }) w)))

def restorePl (fails : Bool) (field : Pl) (boot : ℤ) (w : World) : World :=
  if c.keeps field then setPl c fails field boot w else w

def cleanup (fails : Call → Bool) (w : World) : World :=
  restorePl c (fails .setPl1) .pl1 c.pl1Boot
    (restorePl c (fails .setPl2) .pl2 c.pl2Boot (restoreKnobs c fails w))

inductive Event
  | pass (x : Sample)
  | quit (fails : Call → Bool)

def step (d : Daemon) : Event → Option Daemon
  | .pass x => if d.exited then none else some (d.pass c x)
  | .quit fails =>
    if d.exited then none else some { d with world := cleanup c fails d.world, exited := true }

def Conf.readBoot (boot : Register) (fails1 fails2 : Bool) : Conf :=
  { c with
    pl1Boot := if 0 < c.pl1Bat ∧ !fails1 then boot.mw .pl1 else 0
    pl2Boot := if 0 < c.pl2Bat ∧ !fails2 then boot.mw .pl2 else 0 }

def start (boot : Register) (knobs : Knobs) (ac : Option Bool) : Daemon where
  world := ⟨boot,[],knobs⟩
  ac := ac

def Daemon.points (d : Daemon) : List Register := d.world.reg :: d.world.past
def Ordered (r : Register) : Prop := r.mw .pl1 ≤ r.mw .pl2 + 125

def setSucceeds (fails : Bool) (r : Register) (field : Pl) (val : ℤ) : Prop :=
  c.dryrun ∨ fails = false ∧ (hwpSysctlPl r field val).isSome

def cleanupSucceeds (fails : Call → Bool) (w : World) : Prop :=
  (c.keeps .pl2 → setSucceeds c (fails .setPl2) w.reg .pl2 c.pl2Boot) ∧
  (c.keeps .pl1 → setSucceeds c (fails .setPl1)
    (restorePl c (fails .setPl2) .pl2 c.pl2Boot (restoreKnobs c fails w)).reg .pl1 c.pl1Boot)

end NanoBSD.Lpschedd
