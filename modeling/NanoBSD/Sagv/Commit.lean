import NanoBSD.Lib.Run
import NanoBSD.Sagv.Bandwidth

/-! # Commits under the QGV masks

A commit that passes the check restricts points before the planes are updated and allows
points again afterwards. Commits are carried out one after another; every request to the
pcode succeeds. While the planes are updated both configurations may be displayed.
-/
namespace NanoBSD.Sagv
open NanoBSD Option

def sagvStock (dev : Dev) (bw : BwState) : Bool := decide (12 ≤ dev.gen ∧ bw.mode = .STOCK)

def sagvStockChanged (dev : Dev) (old new : BwState) : Bool :=
  sagvStock dev old != sagvStock dev new

/-- `bw` is the committed state, `next` that of the commit being carried out, and `mask`
the last request to the pcode. -/
structure State where
  bw : BwState
  next : Option BwState
  pinned : Bool
  mask : Option (BitVec 8)

def State.restrict (s : State) (mask : BitVec 8) : State := { s with mask := some mask }

def sagvPrePlaneUpdate (dev : Dev) (new : BwState) (s : State) : State :=
  if hasSagv dev = false then s
  else if sagvStockChanged dev s.bw new then { s.restrict new.offMask with pinned := true }
  else if sagvStock dev new then s
  else if new.qgvPointsMask = s.bw.qgvPointsMask then s
  else if s.bw.qgvPointsMask ||| new.qgvPointsMask = 0#8 then s
  else s.restrict (s.bw.qgvPointsMask ||| new.qgvPointsMask)

def sagvPostPlaneUpdate (dev : Dev) (new : BwState) (s : State) : State :=
  if hasSagv dev = false then s
  else if sagvStock dev new then s
  else if sagvStockChanged dev s.bw new then
    if new.qgvPointsMask = new.offMask then s else s.restrict new.qgvPointsMask
  else if new.qgvPointsMask = s.bw.qgvPointsMask then s
  else s.restrict new.qgvPointsMask

inductive Act where
  | commit (c : Commit)
  | finish

def State.begin (dev : Dev) (new : BwState) (s : State) : State :=
  { sagvPrePlaneUpdate dev new s with next := some new }

def State.finish (dev : Dev) (new : BwState) (s : State) : State :=
  { sagvPostPlaneUpdate dev new s with bw := new, next := none }

def step (dev : Dev) (s : State) : Act → Option State
  | .commit c =>
    if s.next.isSome then none
    else match atomicCheck dev s.pinned s.bw c with
      | none => some s
      | some new => some (s.begin dev new)
  | .finish => s.next.map fun new => s.finish dev new

/-- `intel_bw_init`, and the configuration read out at boot: no request has been sent. -/
def boot (dataRate numActivePlanes : Pipe → ℕ) : State :=
  ⟨⟨dataRate,numActivePlanes,fun _ => false,.STOCK,0#8,0#8⟩,none,false,none⟩

def State.shown (s : State) : List BwState := s.bw :: s.next.toList

/-- The points the firmware may use: all of them if no request was sent. -/
def State.usable (dev : Dev) (s : State) (p : ℕ) : Prop :=
  p < dev.numQgvPoints ∧ (s.mask.getD 0#8).getLsbD p = false

def Safe (dev : Dev) (s : State) : Prop := ∀ p, s.usable dev p → ∀ bw ∈ s.shown, Carries dev bw p

/-- A commit that starts or ends in the stock mode after a pin leaves the best point where
it is, and its rates add up without overflow. -/
def Steady (dev : Dev) (s : State) : Act → Prop
  | .commit c => ∀ new ∈ atomicCheck dev s.pinned s.bw c, Fits new ∧
      (s.pinned = true → (sagvStock dev s.bw || sagvStock dev new) = true →
        bestPoint dev (bwNumActivePlanes new) = bestPoint dev (bwNumActivePlanes s.bw))
  | .finish => True

/-! ## The invariant -/

structure Rest (dev : Dev) (s : State) : Prop where
  idle : s.next = none
  best : Carries dev s.bw (bestPoint dev (bwNumActivePlanes s.bw))
  managed : sagvStock dev s.bw = false → s.mask.getD 0#8 = s.bw.qgvPointsMask ∧
    ∀ p < dev.numQgvPoints, s.bw.qgvPointsMask.getLsbD p = false → Carries dev s.bw p
  pin : 12 ≤ dev.gen → sagvStock dev s.bw = false → s.pinned = true
  stock : sagvStock dev s.bw = true → s.pinned = false → ∀ p < dev.numQgvPoints, Carries dev s.bw p
  pinned : sagvStock dev s.bw = true → s.pinned = true →
    s.mask.getD 0#8 = ~~~BIT (bestPoint dev (bwNumActivePlanes s.bw)) &&& dev.mask

structure Updating (dev : Dev) (s : State) (new : BwState) : Prop where
  next : s.next = some new
  before : ∀ p, s.usable dev p → Carries dev s.bw p
  after : ∀ p, s.usable dev p → Carries dev new p
  rest : Rest dev (s.finish dev new)

section Rest
variable {dev : Dev} {s : State} (hle : dev.numQgvPoints ≤ 8)
include hle

theorem Rest.carries (h : Rest dev s) {p : ℕ} (hp : s.usable dev p) : Carries dev s.bw p := by
  obtain ⟨hlt,hmask⟩ := hp
  cases hst : sagvStock dev s.bw with
  | false =>
    obtain ⟨heq,hall⟩ := h.managed hst
    exact hall p hlt (heq ▸ hmask)
  | true =>
    cases hpin : s.pinned with
    | false => exact h.stock hst hpin p hlt
    | true =>
      rw [h.pinned hst hpin] at hmask
      exact eq_bestPoint hle hlt hmask ▸ h.best

end Rest

variable {dev : Dev} {s : State}

theorem sagvStock_iff {bw : BwState} :
    sagvStock dev bw = true ↔ 12 ≤ dev.gen ∧ bw.mode = .STOCK := decide_eq_true_iff

/-! ## One commit -/

section Commit
variable {dev : Dev} {s : State} {new : BwState} (hsagv : hasSagv dev = true)
include hsagv

theorem begin_finish_of_silent (hch : sagvStockChanged dev s.bw new = false)
    (h : sagvStock dev new = true ∨ new.qgvPointsMask = s.bw.qgvPointsMask) :
    s.begin dev new = { s with next := some new } ∧
      (s.begin dev new).finish dev new = { s with bw := new, next := none } := by
  have hpre : sagvPrePlaneUpdate dev new s = s := by
    rcases h with h | h <;> simp [sagvPrePlaneUpdate,hsagv,hch,h]
  constructor
  · rw [State.begin,hpre]
  · rw [State.begin,hpre]
    rcases h with h | h <;> simp [State.finish,sagvPostPlaneUpdate,hsagv,hch,h]

theorem begin_of_changed (hch : sagvStockChanged dev s.bw new = true) :
    s.begin dev new = ⟨s.bw,some new,true,some new.offMask⟩ := by
  simp [State.begin,sagvPrePlaneUpdate,hsagv,hch,State.restrict]

theorem finish_of_changed (hch : sagvStockChanged dev s.bw new = true)
    (hmask : s.mask = some new.offMask) : s.finish dev new = ⟨new,none,s.pinned,
      some (if sagvStock dev new then new.offMask else new.qgvPointsMask)⟩ := by
  cases hst : sagvStock dev new with
  | true => simp [State.finish,sagvPostPlaneUpdate,hsagv,hst,hmask]
  | false =>
    by_cases heq : new.qgvPointsMask = new.offMask
    · simp [State.finish,sagvPostPlaneUpdate,hsagv,hst,hch,heq,hmask]
    · simp [State.finish,sagvPostPlaneUpdate,hsagv,hst,hch,heq,State.restrict]

theorem begin_finish_of_managed (hch : sagvStockChanged dev s.bw new = false)
    (hst : sagvStock dev new = false) (hne : new.qgvPointsMask ≠ s.bw.qgvPointsMask) :
    s.begin dev new = ⟨s.bw,some new,s.pinned,some (s.bw.qgvPointsMask ||| new.qgvPointsMask)⟩ ∧
      (s.begin dev new).finish dev new = ⟨new,none,s.pinned,some new.qgvPointsMask⟩ := by
  have hor : s.bw.qgvPointsMask ||| new.qgvPointsMask ≠ 0#8 := by
    intro h0
    obtain ⟨hold,hnew⟩ := BitVec.or_eq_zero_iff.mp h0
    exact hne (hnew.trans hold.symm)
  have hbegin : s.begin dev new =
      ⟨s.bw,some new,s.pinned,some (s.bw.qgvPointsMask ||| new.qgvPointsMask)⟩ := by
    simp [State.begin,sagvPrePlaneUpdate,hsagv,hch,hst,hne,hor,State.restrict]
  refine ⟨hbegin,?_⟩
  rw [hbegin]
  simp [State.finish,sagvPostPlaneUpdate,hsagv,hch,hst,hne,State.restrict]

end Commit

section Commit
variable {dev : Dev} {s : State} {new : BwState} (hsagv : hasSagv dev = true)
  (hle : dev.numQgvPoints ≤ 8)
include hsagv hle

variable (h : Rest dev s)
include h

theorem updating_of_unchanged (hun : Unchanged s.bw new) : Updating dev (s.begin dev new) new := by
  have hstock : sagvStock dev new = sagvStock dev s.bw := by simp [sagvStock,hun.mode]
  have hch : sagvStockChanged dev s.bw new = false := by simp [sagvStockChanged,hstock]
  have hplanes : bwNumActivePlanes new = bwNumActivePlanes s.bw := by
    simp [bwNumActivePlanes,hun.numActivePlanes]
  obtain ⟨hbegin,hfinish⟩ := begin_finish_of_silent hsagv hch (.inr hun.qgvPointsMask)
  have hold : ∀ p, s.usable dev p → Carries dev s.bw p := fun p hp => h.carries hle hp
  constructor
  · rw [hbegin]
  · rw [hbegin]
    exact hold
  · rw [hbegin]
    exact fun p hp => (hun.carries p).mpr (hold p hp)
  · rw [hfinish]
    obtain ⟨-,hbest,hman,hpin,hst,hpinned⟩ := h
    refine ⟨rfl,?_,?_,?_,?_,?_⟩
    · dsimp only
      rw [hplanes]
      exact (hun.carries _).mpr hbest
    · dsimp only
      rw [hstock,hun.qgvPointsMask]
      exact fun hs => ⟨(hman hs).1,fun p hp hm => (hun.carries p).mpr ((hman hs).2 p hp hm)⟩
    · dsimp only
      rw [hstock]
      exact hpin
    · dsimp only
      rw [hstock]
      exact fun hs hp p hlt => (hun.carries p).mpr (hst hs hp p hlt)
    · dsimp only
      rw [hstock,hplanes]
      exact hpinned

theorem updating_stock (hA : Admitted dev s.pinned new) (hold : sagvStock dev s.bw = true)
    (hnew : sagvStock dev new = true) (hbest : s.pinned = true →
      bestPoint dev (bwNumActivePlanes new) = bestPoint dev (bwNumActivePlanes s.bw)) :
    Updating dev (s.begin dev new) new := by
  have hch : sagvStockChanged dev s.bw new = false := by simp [sagvStockChanged,hold,hnew]
  obtain ⟨hgen,hmode⟩ := sagvStock_iff.mp hnew
  obtain ⟨hbegin,hfinish⟩ := begin_finish_of_silent hsagv hch (.inl hnew)
  have hpinned : s.pinned = true →
      s.mask.getD 0#8 = ~~~BIT (bestPoint dev (bwNumActivePlanes new)) &&& dev.mask := by
    intro hp
    rw [hbest hp]
    exact h.pinned hold hp
  constructor
  · rw [hbegin]
  · rw [hbegin]
    exact fun p hp => h.carries hle hp
  · rw [hbegin]
    rintro p ⟨hlt,hmask⟩
    cases hp : s.pinned with
    | false => exact hA.stock hgen hmode hp p hlt
    | true =>
      replace hmask : (s.mask.getD 0#8).getLsbD p = false := hmask
      rw [hpinned hp] at hmask
      exact eq_bestPoint hle hlt hmask ▸ hA.best
  · rw [hfinish]
    refine ⟨rfl,hA.best,?_,?_,fun _ => hA.stock hgen hmode,fun _ => hpinned⟩
    · intro hs
      cases hnew.symm.trans hs
    · intro _ hs
      cases hnew.symm.trans hs

theorem updating_changed (hA : Admitted dev s.pinned new)
    (hch : sagvStockChanged dev s.bw new = true) (hbest : s.pinned = true →
      bestPoint dev (bwNumActivePlanes new) = bestPoint dev (bwNumActivePlanes s.bw)) :
    Updating dev (s.begin dev new) new := by
  have hgen : 12 ≤ dev.gen := by
    by_contra hlt
    simp [sagvStockChanged,sagvStock,hlt] at hch
  have hbegin := begin_of_changed hsagv hch
  have hfinish : (s.begin dev new).finish dev new = ⟨new,none,true,
      some (if sagvStock dev new then new.offMask else new.qgvPointsMask)⟩ := by
    rw [hbegin]
    exact finish_of_changed hsagv hch rfl
  have hone : ∀ p, (s.begin dev new).usable dev p → p < dev.numQgvPoints ∧
      p = bestPoint dev (bwNumActivePlanes new) := by
    rw [hbegin]
    rintro p ⟨hlt,hmask⟩
    replace hmask : new.offMask.getLsbD p = false := hmask
    rw [hA.offMask] at hmask
    exact ⟨hlt,eq_bestPoint hle hlt hmask⟩
  constructor
  · rw [hbegin]
  · intro p hp
    obtain ⟨hlt,rfl⟩ := hone p hp
    rw [hbegin]
    cases hpin : s.pinned with
    | true =>
      rw [hbest hpin]
      exact h.best
    | false =>
      refine h.stock ?_ hpin _ hlt
      by_contra hns
      cases (h.pin hgen (Bool.not_eq_true _ ▸ hns)).symm.trans hpin
  · intro p hp
    obtain ⟨-,rfl⟩ := hone p hp
    exact hA.best
  · rw [hfinish]
    refine ⟨rfl,hA.best,?_,fun _ _ => rfl,?_,?_⟩
    · intro hs
      dsimp only at hs ⊢
      rw [hs]
      exact ⟨rfl,hA.managed⟩
    · intro _ hp
      cases hp
    · intro hs _
      dsimp only at hs ⊢
      rw [hs,← hA.offMask]
      rfl

theorem updating_managed (hA : Admitted dev s.pinned new) (hold : sagvStock dev s.bw = false)
    (hnew : sagvStock dev new = false) :
    Updating dev (s.begin dev new) new := by
  have hch : sagvStockChanged dev s.bw new = false := by simp [sagvStockChanged,hold,hnew]
  obtain ⟨hmask,hcar⟩ := h.managed hold
  have hstock : ∀ {P : Prop}, sagvStock dev new = true → P := fun hs => by cases hnew.symm.trans hs
  have hpin : 12 ≤ dev.gen → sagvStock dev new = false → s.pinned = true := fun hg _ => h.pin hg hold
  by_cases hne : new.qgvPointsMask = s.bw.qgvPointsMask
  · obtain ⟨hbegin,hfinish⟩ := begin_finish_of_silent hsagv hch (.inr hne)
    constructor
    · rw [hbegin]
    · rw [hbegin]
      exact fun p hp => h.carries hle hp
    · rw [hbegin]
      rintro p ⟨hlt,hm⟩
      replace hm : (s.mask.getD 0#8).getLsbD p = false := hm
      rw [hmask,← hne] at hm
      exact hA.managed p hlt hm
    · rw [hfinish]
      exact ⟨rfl,hA.best,fun _ => ⟨hmask.trans hne.symm,hA.managed⟩,hpin,hstock,hstock⟩
  · obtain ⟨hbegin,hfinish⟩ := begin_finish_of_managed hsagv hch hnew hne
    have hboth : ∀ p, (s.begin dev new).usable dev p → p < dev.numQgvPoints ∧
        s.bw.qgvPointsMask.getLsbD p = false ∧ new.qgvPointsMask.getLsbD p = false := by
      rw [hbegin]
      rintro p ⟨hlt,hm⟩
      refine ⟨hlt,?_⟩
      replace hm : (s.bw.qgvPointsMask ||| new.qgvPointsMask).getLsbD p = false := hm
      rwa [BitVec.getLsbD_or,Bool.or_eq_false_iff] at hm
    constructor
    · rw [hbegin]
    · intro p hp
      obtain ⟨hlt,hm,-⟩ := hboth p hp
      rw [hbegin]
      exact hcar p hlt hm
    · intro p hp
      obtain ⟨hlt,-,hm⟩ := hboth p hp
      exact hA.managed p hlt hm
    · rw [hfinish]
      exact ⟨rfl,hA.best,fun _ => ⟨rfl,hA.managed⟩,hpin,hstock,hstock⟩

theorem commit_updating {c : Commit} (hnew : atomicCheck dev s.pinned s.bw c = some new)
    (hst : Steady dev s (.commit c)) :
    Updating dev (s.begin dev new) new := by
  obtain ⟨hfits,hbest⟩ := hst new hnew
  have hpos : 0 < dev.numQgvPoints := by
    have := of_decide_eq_true hsagv
    omega
  rcases atomicCheck_spec hpos hle hnew hfits with hun | hA
  · exact updating_of_unchanged hsagv hle h hun
  · cases hold : sagvStock dev s.bw <;> cases hs : sagvStock dev new
    · exact updating_managed hsagv hle h hA hold hs
    · exact updating_changed hsagv hle h hA (by simp [sagvStockChanged,hold,hs])
        fun hp => hbest hp (by simp [hold,hs])
    · exact updating_changed hsagv hle h hA (by simp [sagvStockChanged,hold,hs])
        fun hp => hbest hp (by simp [hold,hs])
    · exact updating_stock hsagv hle h hA hold hs fun hp => hbest hp (by simp [hold,hs])

end Commit

/-! ## Runs of commits -/

def Inv (dev : Dev) (s : State) : Prop := Rest dev s ∨ ∃ new, Updating dev s new

theorem Inv.safe (hle : dev.numQgvPoints ≤ 8) (h : Inv dev s) : Safe dev s := by
  intro p hp bw hbw
  rcases h with h | ⟨new,h⟩
  · simp only [State.shown,h.idle,toList_none,List.mem_singleton] at hbw
    subst hbw
    exact h.carries hle hp
  · simp only [State.shown,h.next,toList_some,List.mem_cons,List.not_mem_nil,or_false] at hbw
    rcases hbw with rfl | rfl
    · exact h.before p hp
    · exact h.after p hp

theorem Inv.step {t : State} {a : Act} (h2 : 2 ≤ dev.numQgvPoints) (hle : dev.numQgvPoints ≤ 8)
    (h : Inv dev s) (hst : Steady dev s a) (ht : step dev s a = some t) : Inv dev t := by
  cases a with
  | commit c =>
    obtain ⟨hidle,ht⟩ := ite_none_left_eq_some.mp ht
    rcases h with h | ⟨new,h⟩
    · cases hc : atomicCheck dev s.pinned s.bw c with
      | none =>
        rw [hc] at ht
        cases ht
        exact .inl h
      | some new =>
        rw [hc] at ht
        cases ht
        exact .inr ⟨new,commit_updating (decide_eq_true h2) hle h hc hst⟩
    · exact absurd (by simp [h.next]) hidle
  | finish =>
    obtain ⟨new,hnext,rfl⟩ := map_eq_some_iff.mp ht
    rcases h with h | ⟨new',h⟩
    · cases h.idle.symm.trans hnext
    · obtain rfl : new' = new := Option.some.inj (h.next.symm.trans hnext)
      exact .inl h.rest

theorem Rest.boot {rates planes : Pipe → ℕ} (h2 : 2 ≤ dev.numQgvPoints) (hle : dev.numQgvPoints ≤ 8)
    (hboot : ∀ p < dev.numQgvPoints, Carries dev (boot rates planes).bw p) :
    Rest dev (boot rates planes) where
  idle := rfl
  best := hboot _ (bestPoint_lt hle _ (by omega))
  managed _ := ⟨rfl,fun p hp _ => hboot p hp⟩
  pin hgen hs := by simp [sagvStock,hgen,Sagv.boot] at hs
  stock _ _ := hboot
  pinned _ hp := by cases hp

/-- In a run of commits each point that the firmware may use provides the bandwidth displayed, if
the best point does not move with the number of planes at a commit from or to the stock mode after a
pin. -/
theorem commits_safe {dev : Dev} {rates planes : Pipe → ℕ} {as : List Act} {s : State}
    (h2 : 2 ≤ dev.numQgvPoints) (hle : dev.numQgvPoints ≤ 8)
    (hboot : ∀ p < dev.numQgvPoints, Carries dev (boot rates planes).bw p)
    (hsteady : Along (step dev) (Steady dev) (boot rates planes) as)
    (hrun : exec (step dev) (boot rates planes) as = some s) : Safe dev s := by
  refine Inv.safe hle ?_
  exact exec_invariant_along (Inv dev) (fun s a t h hP ht => h.step h2 hle hP ht)
    (.inl (Rest.boot h2 hle hboot)) hsteady hrun

section Example

def cappedTable : Dev :=
  ⟨12,[⟨2,2,fun p => if p = 0 then 17735 else 19088⟩,⟨2,1,fun _ => 20480⟩],10⟩

def onePipe (modparam : ℤ) (rate planes : ℕ) : Act := .commit ⟨modparam,[⟨.A,rate,planes,true⟩]⟩
def blank : State := boot (fun _ => 0) (fun _ => 0)

/-- From stock to auto and back, with two planes throughout. -/
def twoPlanes : List Act :=
  [onePipe 0 17000000 2,.finish,onePipe 1 18000000 2,.finish,onePipe 0 17500000 2,.finish,
    onePipe 0 19000000 2]

instance (dev : Dev) (s : State) (a : Act) : Decidable (Steady dev s a) :=
  match a with
  | .commit c => inferInstanceAs (Decidable (∀ new ∈ atomicCheck dev s.pinned s.bw c, _ ∧ _))
  | .finish => isTrue trivial

theorem twoPlanes_safe :
    ∃ s, exec (step cappedTable) blank twoPlanes = some s ∧ s.pinned = true ∧
      s.mask = some 1#8 ∧ Safe cappedTable s := by
  obtain ⟨s,hrun,hpin,hmask⟩ : ∃ s, exec (step cappedTable) blank twoPlanes = some s ∧
      s.pinned = true ∧ s.mask = some 1#8 := by decide +kernel
  have hboot : ∀ p < cappedTable.numQgvPoints, Carries cappedTable blank.bw p := by
    unfold Carries
    decide
  have hsteady : Along (step cappedTable) (Steady cappedTable) blank twoPlanes := by
    decide +kernel
  exact ⟨s,hrun,hpin,hmask,commits_safe (by decide) (by decide) hboot hsteady hrun⟩

/-- One plane, from stock to off and back, pins the first of two equal points. A second plane is
admitted for the rate of the other, and nothing is sent. -/
def pinnedThenPlanes : List Act :=
  [onePipe 2 1000000 1,.finish,onePipe 0 1000000 1,.finish,onePipe 0 18000000 2,.finish]

theorem pinnedThenPlanes_unsafe :
    ∃ s, exec (step cappedTable) blank pinnedThenPlanes = some s ∧ s.next = none ∧
      s.mask = some 2#8 ∧ s.usable cappedTable 0 ∧ needs s.bw = 18000 ∧
      iclMaxBw cappedTable (bwNumActivePlanes s.bw) 0 = 17735 ∧ ¬Safe cappedTable s := by
  obtain ⟨s,hrun,hnext,hmask,hneeds,hbw⟩ :
      ∃ s, exec (step cappedTable) blank pinnedThenPlanes = some s ∧ s.next.isNone = true ∧
        s.mask = some 2#8 ∧ needs s.bw = 18000 ∧
        iclMaxBw cappedTable (bwNumActivePlanes s.bw) 0 = 17735 := by decide +kernel
  rw [isNone_iff_eq_none] at hnext
  have husable : s.usable cappedTable 0 := by
    refine ⟨by decide,?_⟩
    rw [hmask]
    decide
  refine ⟨s,hrun,hnext,hmask,husable,hneeds,hbw,fun hsafe => ?_⟩
  have hcarry := hsafe 0 husable s.bw List.mem_cons_self
  rw [Carries,hneeds,hbw] at hcarry
  omega

end Example
end NanoBSD.Sagv
