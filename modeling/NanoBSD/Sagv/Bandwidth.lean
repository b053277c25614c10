import Mathlib.Algebra.Ring.Nat
import Mathlib.Tactic.Common

/-! # The bandwidth check of `intel_bw.c`

The memory runs at one of the QGV points the firmware offers; what a point provides depends
on how many planes are active. `intel_bw_atomic_check` admits a display configuration and
computes which points it must not run at. Generations from 11 on are modelled. There are
eight points at most, so the masks have the eight bits of the fields they are kept in.
-/
namespace NanoBSD.Sagv
open Function List

inductive Pipe where
  | A | B | C | D
  deriving DecidableEq, Repr

def Pipe.all : List Pipe := [.A,.B,.C,.D]

inductive Mode where
  | STOCK | AUTO | OFF
  deriving DecidableEq, Repr

structure BwInfo where
  numQgvPoints : ℕ
  numPlanes : ℕ
  deratedbw : ℕ → ℕ

structure Dev where
  gen : ℕ
  maxBw : List BwInfo
  sagvBlockTimeUs : ℤ

def Dev.numQgvPoints (dev : Dev) : ℕ := (dev.maxBw.head?).elim 0 BwInfo.numQgvPoints

/-- `icl_get_bw_info` leaves `sagv_status` not controlled below two points. -/
def hasSagv (dev : Dev) : Bool := decide (2 ≤ dev.numQgvPoints)
def UINT_MAX : ℕ := 2^32 - 1

def derated (numPlanes qgvPoint : ℕ) : List BwInfo → ℕ
  | [] => 0
  | bi :: rest =>
    if bi.numQgvPoints ≤ qgvPoint then UINT_MAX
    else if bi.numPlanes ≤ numPlanes then bi.deratedbw qgvPoint
    else derated numPlanes qgvPoint rest

def iclMaxBw (dev : Dev) (numPlanes qgvPoint : ℕ) : ℕ :=
  derated (max 1 numPlanes) qgvPoint dev.maxBw

/-! ## The bandwidth state of a commit -/

/-- `struct intel_bw_state`; the active pipes are read below generation 11 only. -/
structure BwState where
  dataRate : Pipe → ℕ
  numActivePlanes : Pipe → ℕ
  pipeSagvReject : Pipe → Bool
  mode : Mode
  qgvPointsMask : BitVec 8
  offMask : BitVec 8

structure Crtc where
  pipe : Pipe
  dataRate : ℕ
  activePlanes : ℕ
  canEnableSagv : Bool

structure Commit where
  modparam : ℤ
  crtcs : List Crtc

def bwNumActivePlanes (bw : BwState) : ℕ := (Pipe.all.map bw.numActivePlanes).sum
def bwDataRate (bw : BwState) : ℕ := (Pipe.all.map bw.dataRate).foldl (fun a r => (a + r) % 2^32) 0
def requiredRate (bw : BwState) : ℕ := (bwDataRate bw + 999) % 2^32 / 1000
def blockTimeOk (dev : Dev) : Bool := decide (0 < dev.sagvBlockTimeUs ∧ dev.sagvBlockTimeUs ≤ 1000)

def canEnableSagv (dev : Dev) (bw : BwState) : Bool :=
  if 12 ≤ dev.gen ∧ (bw.mode ≠ .AUTO ∨ hasSagv dev = false ∨ blockTimeOk dev = false) then false
  else Pipe.all.all fun p => !bw.pipeSagvReject p

def clampMode (v : ℤ) : Mode := if v ≤ 0 then .STOCK else if v = 1 then .AUTO else .OFF

def computeSagvMask (c : Commit) (bw : BwState) : BwState :=
  c.crtcs.foldl (fun bw crtc =>
    { bw with mode := clampMode c.modparam,
              pipeSagvReject := update bw.pipeSagvReject crtc.pipe !crtc.canEnableSagv }) bw

/-! ## The check -/

def crtcChanged (old : BwState) (crtc : Crtc) : Bool :=
  !(old.dataRate crtc.pipe == crtc.dataRate && old.numActivePlanes crtc.pipe == crtc.activePlanes)

def setCrtc (old bw : BwState) (crtc : Crtc) : BwState :=
  if crtcChanged old crtc then
    { bw with dataRate := update bw.dataRate crtc.pipe crtc.dataRate,
              numActivePlanes := update bw.numActivePlanes crtc.pipe crtc.activePlanes }
  else bw

def BIT (i : ℕ) : BitVec 8 := BitVec.twoPow 8 i
def Dev.mask (dev : Dev) : BitVec 8 := BitVec.ofNat 8 (2 ^ dev.numQgvPoints - 1)

structure Scan where
  maxBwPoint : ℕ
  maxBw : ℕ
  allowedPoints : BitVec 8

def scanPoint (dev : Dev) (planes rate : ℕ) (acc : Scan) (i : ℕ) : Scan :=
  let maxDataRate := iclMaxBw dev planes i
  let acc := if acc.maxBw < maxDataRate then { acc with maxBwPoint := i, maxBw := maxDataRate } else acc
  if rate ≤ maxDataRate then { acc with allowedPoints := acc.allowedPoints ||| BIT i } else acc

def scan (dev : Dev) (planes rate n : ℕ) : Scan :=
  (List.range n).foldl (scanPoint dev planes rate) ⟨0,0,0#8⟩

def admitPoints (dev : Dev) (pinned : Bool) (new : BwState) : Option BwState :=
  let s := scan dev (bwNumActivePlanes new) (requiredRate new) dev.numQgvPoints
  if s.allowedPoints = 0#8 then none
  else if 12 ≤ dev.gen ∧ new.mode = .STOCK ∧ pinned = false ∧ s.allowedPoints ≠ dev.mask then none
  else
    let allowed := if canEnableSagv dev new then s.allowedPoints else BIT s.maxBwPoint
    some { new with offMask := ~~~BIT s.maxBwPoint &&& dev.mask,
                    qgvPointsMask := ~~~allowed &&& dev.mask }

def bwAtomicCheck (dev : Dev) (pinned : Bool) (old new : BwState) (crtcs : List Crtc) :
    Option BwState :=
  if dev.numQgvPoints = 0 then some new
  else
    let new := crtcs.foldl (setCrtc old) new
    if crtcs.any (crtcChanged old) || canEnableSagv dev old != canEnableSagv dev new ||
        decide (old.mode ≠ new.mode) then admitPoints dev pinned new
    else some new

/-- A commit without a CRTC has no new bandwidth state; here that is the old one. -/
def atomicCheck (dev : Dev) (pinned : Bool) (old : BwState) (c : Commit) : Option BwState :=
  bwAtomicCheck dev pinned old (computeSagvMask c old) c.crtcs

/-! ## What a configuration needs and what is admitted -/

def needs (bw : BwState) : ℕ := ((Pipe.all.map bw.dataRate).sum + 999) / 1000

/-- The sum of the rates fits an `unsigned int`, with room for rounding up. -/
def Fits (bw : BwState) : Prop := (Pipe.all.map bw.dataRate).sum + 999 < 2^32
instance (bw : BwState) : Decidable (Fits bw) := inferInstanceAs (Decidable (_ < _))

def Carries (dev : Dev) (bw : BwState) (p : ℕ) : Prop :=
  needs bw ≤ iclMaxBw dev (bwNumActivePlanes bw) p

def bestPoint (dev : Dev) (planes : ℕ) : ℕ := (scan dev planes 0 dev.numQgvPoints).maxBwPoint

variable {bw new old : BwState} {n : ℕ} {pinned : Bool}

theorem requiredRate_eq (h : Fits bw) : requiredRate bw = needs bw := by
  simp only [Fits,Pipe.all,map_cons,map_nil,sum_cons,sum_nil] at h
  simp only [requiredRate,bwDataRate,needs,Pipe.all,map_cons,map_nil,sum_cons,
    sum_nil,foldl_cons,foldl_nil]
  omega

theorem getLsbD_BIT {i j : ℕ} (hi : i < 8) : (BIT i).getLsbD j = decide (i = j) := by
  simp [BIT,hi]

variable {dev : Dev}

theorem getLsbD_mask {p : ℕ} (hle : dev.numQgvPoints ≤ 8) :
    dev.mask.getLsbD p = decide (p < dev.numQgvPoints) := by
  simp only [Dev.mask,BitVec.getLsbD_ofNat,Nat.testBit_two_pow_sub_one]
  by_cases hp : p < dev.numQgvPoints
  · have : p < 8 := by omega
    simp [hp,this]
  · simp [hp]

structure Scanned (dev : Dev) (planes rate n : ℕ) (s : Scan) : Prop where
  upper : ∀ p < n, iclMaxBw dev planes p ≤ s.maxBw
  point : 0 < s.maxBw → s.maxBwPoint < n ∧ s.maxBw = iclMaxBw dev planes s.maxBwPoint
  zero : s.maxBw = 0 → s.maxBwPoint = 0
  allowed : ∀ p, s.allowedPoints.getLsbD p = decide (p < n ∧ rate ≤ iclMaxBw dev planes p)

theorem scan_succ (dev : Dev) (planes rate n : ℕ) :
    scan dev planes rate (n + 1) = scanPoint dev planes rate (scan dev planes rate n) n := by
  simp [scan,range_succ]

theorem Scanned.step {planes rate : ℕ} {s : Scan} (h : Scanned dev planes rate n s)
    (hn : n < 8) : Scanned dev planes rate (n + 1) (scanPoint dev planes rate s n) := by
  obtain ⟨hup,hpt,hz,hal⟩ := h
  have hsplit : ∀ p, p < n + 1 ↔ p < n ∨ p = n := fun p => by omega
  have hallowed : ∀ p, (if rate ≤ iclMaxBw dev planes n then s.allowedPoints ||| BIT n
      else s.allowedPoints).getLsbD p = decide (p < n + 1 ∧ rate ≤ iclMaxBw dev planes p) := by
    intro p
    by_cases hpn : p = n
    · subst hpn
      split
      · rename_i hr
        rw [BitVec.getLsbD_or,hal,getLsbD_BIT hn]
        simp [hr]
      · rename_i hr
        rw [hal]
        simp [hr]
    · have hlt : p < n + 1 ↔ p < n := by omega
      split
      · rw [BitVec.getLsbD_or,hal,getLsbD_BIT hn]
        simp [hlt,Ne.symm hpn]
      · rw [hal]
        simp [hlt]
  by_cases hm : s.maxBw < iclMaxBw dev planes n
  · have hs : scanPoint dev planes rate s n = ⟨n,iclMaxBw dev planes n,
        if rate ≤ iclMaxBw dev planes n then s.allowedPoints ||| BIT n else s.allowedPoints⟩ := by
      simp only [scanPoint,if_pos hm]
      split <;> rfl
    rw [hs]
    refine ⟨fun p hp => ?_,fun _ => ⟨Nat.lt_succ_self n,rfl⟩,fun h0 => ?_,hallowed⟩
    · rcases (hsplit p).mp hp with hp | rfl
      · exact Nat.le_trans (hup p hp) (Nat.le_of_lt hm)
      · exact Nat.le_refl _
    · dsimp only at h0
      omega
  · have hs : scanPoint dev planes rate s n = ⟨s.maxBwPoint,s.maxBw,
        if rate ≤ iclMaxBw dev planes n then s.allowedPoints ||| BIT n else s.allowedPoints⟩ := by
      simp only [scanPoint,if_neg hm]
      split <;> rfl
    rw [hs]
    refine ⟨fun p hp => ?_,fun h0 => ?_,hz,hallowed⟩
    · rcases (hsplit p).mp hp with hp | rfl
      · exact hup p hp
      · exact Nat.le_of_not_lt hm
    · exact ⟨Nat.lt_succ_of_lt (hpt h0).1,(hpt h0).2⟩

theorem scanned (dev : Dev) (planes rate : ℕ) (hn : n ≤ 8) :
    Scanned dev planes rate n (scan dev planes rate n) := by
  induction n with
  | zero => exact ⟨by simp,by simp [scan],by simp [scan],by simp [scan]⟩
  | succ n ih =>
    rw [scan_succ]
    exact (ih (by omega)).step (by omega)

theorem scan_maxBwPoint (dev : Dev) (planes rate rate' n : ℕ) :
    (scan dev planes rate n).maxBwPoint = (scan dev planes rate' n).maxBwPoint ∧
      (scan dev planes rate n).maxBw = (scan dev planes rate' n).maxBw := by
  induction n with
  | zero => exact ⟨rfl,rfl⟩
  | succ n ih =>
    have hproj : ∀ r (s : Scan),
        (scanPoint dev planes r s n).maxBwPoint =
          (if s.maxBw < iclMaxBw dev planes n then n else s.maxBwPoint) ∧
        (scanPoint dev planes r s n).maxBw =
          (if s.maxBw < iclMaxBw dev planes n then iclMaxBw dev planes n else s.maxBw) := by
      intro r s
      unfold scanPoint
      dsimp only
      split <;> split <;> exact ⟨rfl,rfl⟩
    rw [scan_succ,scan_succ,(hproj rate _).1,(hproj rate _).2,(hproj rate' _).1,
      (hproj rate' _).2,ih.1,ih.2]
    exact ⟨rfl,rfl⟩

theorem bestPoint_eq (dev : Dev) (planes rate : ℕ) :
    (scan dev planes rate dev.numQgvPoints).maxBwPoint = bestPoint dev planes :=
  (scan_maxBwPoint dev planes rate 0 dev.numQgvPoints).1

section Points
variable {dev : Dev} (hle : dev.numQgvPoints ≤ 8) {planes p : ℕ}
include hle

theorem bestPoint_lt (planes : ℕ) (hpos : 0 < dev.numQgvPoints) :
    bestPoint dev planes < dev.numQgvPoints := by
  have h := scanned dev planes 0 hle
  rcases Nat.eq_zero_or_pos (scan dev planes 0 dev.numQgvPoints).maxBw with h0 | h0
  · rw [bestPoint,h.zero h0]
    exact hpos
  · exact (h.point h0).1

theorem le_bestPoint (hp : p < dev.numQgvPoints) :
    iclMaxBw dev planes p ≤ iclMaxBw dev planes (bestPoint dev planes) := by
  have h := scanned dev planes 0 hle
  rcases Nat.eq_zero_or_pos (scan dev planes 0 dev.numQgvPoints).maxBw with h0 | h0
  · have := h.upper p hp
    omega
  · exact (h.point h0).2 ▸ h.upper p hp

theorem eq_bestPoint (hp : p < dev.numQgvPoints)
    (h : (~~~BIT (bestPoint dev planes) &&& dev.mask).getLsbD p = false) :
    p = bestPoint dev planes := by
  have hb := bestPoint_lt hle planes (Nat.zero_lt_of_lt hp)
  have hp8 : p < 8 := by omega
  have hb8 : bestPoint dev planes < 8 := by omega
  rw [BitVec.getLsbD_and,BitVec.getLsbD_not,getLsbD_BIT hb8,getLsbD_mask hle] at h
  by_contra hne
  simp [hp,hp8,Ne.symm hne] at h

theorem allowed_of_unmasked {allowed : BitVec 8} (hp : p < dev.numQgvPoints)
    (h : (~~~allowed &&& dev.mask).getLsbD p = false) : allowed.getLsbD p = true := by
  have hp8 : p < 8 := by omega
  rw [BitVec.getLsbD_and,BitVec.getLsbD_not,getLsbD_mask hle,decide_eq_true hp,
    decide_eq_true hp8,Bool.true_and,Bool.and_true] at h
  simpa using h

end Points

structure Admitted (dev : Dev) (pinned : Bool) (bw : BwState) : Prop where
  best : Carries dev bw (bestPoint dev (bwNumActivePlanes bw))
  offMask : bw.offMask = ~~~BIT (bestPoint dev (bwNumActivePlanes bw)) &&& dev.mask
  managed : ∀ p < dev.numQgvPoints, bw.qgvPointsMask.getLsbD p = false → Carries dev bw p
  stock : 12 ≤ dev.gen → bw.mode = .STOCK → pinned = false → ∀ p < dev.numQgvPoints, Carries dev bw p

theorem bestPoint_carries (hle : dev.numQgvPoints ≤ 8) (hfits : Fits bw)
    (h : (scan dev (bwNumActivePlanes bw) (requiredRate bw) dev.numQgvPoints).allowedPoints ≠ 0#8) :
    Carries dev bw (bestPoint dev (bwNumActivePlanes bw)) := by
  have hs := scanned dev (bwNumActivePlanes bw) (requiredRate bw) hle
  obtain ⟨p,hp⟩ : ∃ p, (scan dev (bwNumActivePlanes bw) (requiredRate bw)
      dev.numQgvPoints).allowedPoints.getLsbD p = true := by
    by_contra hnone
    push Not at hnone
    refine h (BitVec.eq_of_getLsbD_eq fun i _ => ?_)
    simpa using hnone i
  obtain ⟨hlt,hr⟩ := of_decide_eq_true ((hs.allowed p).symm.trans hp)
  rw [requiredRate_eq hfits] at hr
  exact Nat.le_trans hr (le_bestPoint hle hlt)

theorem admitPoints_spec
    (hle : dev.numQgvPoints ≤ 8) (h : admitPoints dev pinned new = some bw) (hfits : Fits bw) :
    Admitted dev pinned bw := by
  unfold admitPoints at h
  obtain ⟨hne,h⟩ := Option.ite_none_left_eq_some.mp h
  obtain ⟨hstock,⟨⟩⟩ := Option.ite_none_left_eq_some.mp h
  replace hfits : Fits new := hfits
  have hs := scanned dev (bwNumActivePlanes new) (requiredRate new) hle
  have hallowed : ∀ p, (scan dev (bwNumActivePlanes new) (requiredRate new)
      dev.numQgvPoints).allowedPoints.getLsbD p = true → Carries dev new p := by
    intro p hp
    have hr := (of_decide_eq_true ((hs.allowed p).symm.trans hp)).2
    rw [requiredRate_eq hfits] at hr
    exact hr
  have hbest := bestPoint_carries hle hfits hne
  refine ⟨hbest,?_,?_,?_⟩
  · simp only [bestPoint_eq,bwNumActivePlanes]
  · intro p hp hmask
    have hin := allowed_of_unmasked hle hp hmask
    split at hin
    · exact hallowed p hin
    · have hb : bestPoint dev (bwNumActivePlanes new) < 8 :=
        Nat.lt_of_lt_of_le (bestPoint_lt hle _ (Nat.zero_lt_of_lt hp)) hle
      rw [bestPoint_eq,getLsbD_BIT hb] at hin
      exact of_decide_eq_true hin ▸ hbest
  · intro hgen hmode hpin p hp
    have hall : (scan dev (bwNumActivePlanes new) (requiredRate new)
        dev.numQgvPoints).allowedPoints = dev.mask := by
      by_contra hnot
      exact hstock ⟨hgen,hmode,hpin,hnot⟩
    refine hallowed p ?_
    rw [hall,getLsbD_mask hle]
    exact decide_eq_true hp

structure Unchanged (old new : BwState) : Prop where
  dataRate : new.dataRate = old.dataRate
  numActivePlanes : new.numActivePlanes = old.numActivePlanes
  mode : new.mode = old.mode
  qgvPointsMask : new.qgvPointsMask = old.qgvPointsMask

theorem computeSagvMask_keeps (c : Commit) (bw : BwState) :
    (computeSagvMask c bw).dataRate = bw.dataRate ∧
    (computeSagvMask c bw).numActivePlanes = bw.numActivePlanes ∧
    (computeSagvMask c bw).qgvPointsMask = bw.qgvPointsMask := by
  unfold computeSagvMask
  induction c.crtcs generalizing bw with
  | nil => exact ⟨rfl,rfl,rfl⟩
  | cons crtc crtcs ih => exact ih _

theorem setCrtcs_of_not_changed {crtcs : List Crtc}
    (h : crtcs.any (crtcChanged old) = false) (bw : BwState) :
    crtcs.foldl (setCrtc old) bw = bw := by
  induction crtcs with
  | nil => rfl
  | cons crtc crtcs ih =>
    rw [any_cons,Bool.or_eq_false_iff] at h
    have hone : setCrtc old bw crtc = bw := by simp [setCrtc,h.1]
    rw [foldl_cons,hone,ih h.2]

theorem atomicCheck_spec {c : Commit} (hpos : 0 < dev.numQgvPoints) (hle : dev.numQgvPoints ≤ 8)
    (h : atomicCheck dev pinned old c = some new) (hfits : Fits new) :
    Unchanged old new ∨ Admitted dev pinned new := by
  unfold atomicCheck bwAtomicCheck at h
  rw [if_neg (Nat.ne_of_gt hpos)] at h
  dsimp only at h
  split at h
  · exact Or.inr (admitPoints_spec hle h hfits)
  · rename_i hsame
    cases h
    simp only [Bool.or_eq_true,decide_eq_true_eq,not_or,Bool.not_eq_true,Decidable.not_not] at hsame
    obtain ⟨⟨hcrtcs,-⟩,hmode⟩ := hsame
    rw [setCrtcs_of_not_changed hcrtcs] at hmode ⊢
    obtain ⟨hrate,hplanes,hmask⟩ := computeSagvMask_keeps c old
    exact Or.inl ⟨hrate,hplanes,hmode.symm,hmask⟩

theorem Unchanged.carries (h : Unchanged old new) (p : ℕ) :
    Carries dev new p ↔ Carries dev old p := by
  simp only [Carries,needs,bwNumActivePlanes,h.dataRate,h.numActivePlanes]

end NanoBSD.Sagv
