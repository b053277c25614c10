import NanoBSD.Tlb.Shootdown

/-! # What a CPU owes to its TLB

A CPU may keep a translation that is gone from the page tables as long as it is bound to drop it
before it uses the pmap again: the handler has a packet with the address, or a shootdown has left
the mark `TLBSTATE_FLUSH`, or the CPU is not in `pm_cpus` and flushes when it comes back, or it is
just about to flush. The steps that a CPU takes on its own keep that promise, and a CPU that has
the pmap in use has none to keep.
-/
namespace NanoBSD.Tlb
variable {κ π μ ν : Type}

def Pc.willFlush : Pc κ π ν → Bool
  | .check .flush | .flush => true
  | _ => false

def Pc.plain : Pc κ π ν → Bool
  | .clearOld _ | .storeValid _ | .setNew _ | .setPmap _ | .loadCr3 _ | .check _ | .setBit
  | .flush => false
  | _ => true

def Handler.packet : Handler κ ν → Option (Packet ν)
  | .copied _ copy | .clearing _ copy | .marking _ copy | .invalidate copy => some copy
  | _ => none

namespace Cpu

/-- The page tables in use are those of the pmap on the CPU, and a CPU in the state
`TLBSTATE_VALID` is told of all shootdowns. -/
def Settled (x : Cpu κ π μ ν) : Prop :=
  x.pmap = x.cr3 ∧ (x.tlbstate = .valid → x.inCpus x.cr3 = true)

def Shape (x : Cpu κ π μ ν) : Prop :=
  match x.pc with
  | .clearOld p => x.Settled ∧ p ≠ x.cr3
  | .storeValid p => x.pmap = x.cr3 ∧ x.inCpus x.cr3 = false ∧ p ≠ x.cr3
  | .setNew p =>
    x.pmap = x.cr3 ∧ x.tlbstate = .valid ∧ x.inCpus x.cr3 = false ∧ p ≠ x.cr3
  | .setPmap p => x.tlbstate = .valid ∧ x.inCpus x.cr3 = false ∧ x.inCpus p = true
  | .loadCr3 p => x.pmap = p ∧ x.tlbstate = .valid ∧ x.inCpus x.cr3 = false ∧ x.inCpus p = true
  | .check _ | .setBit => x.pmap = x.cr3 ∧ x.tlbstate = .valid
  | .flush => x.pmap = x.cr3 ∧ x.tlbstate = .valid ∧ x.inCpus x.cr3 = true
  | _ => x.Settled

def core (x : Cpu κ π μ ν) :
    TlbState × π × π × (π → Bool) × (μ → Bool) × Handler κ ν :=
  (x.tlbstate,x.pmap,x.cr3,x.inCpus,x.tlb,x.handler)

variable [DecidableEq ν] (pf : Platform κ π μ ν)

def Drops (x : Cpu κ π μ ν) (m : μ) : Prop :=
  (∃ copy ∈ x.handler.packet, copy.covers (pf.vaOf m) = true) ∨ x.tlbstate = .flush ∨
    x.inCpus x.cr3 = false ∨ x.pc.willFlush = true

structure Ok (x : Cpu κ π μ ν) : Prop where
  shape : x.Shape
  tlb : ∀ {m}, x.tlb m = true → pf.pmapOf m = x.cr3
  leave : x.handler = .leave ∨ x.handler = .stale → x.tlbstate = .lazy ∨ x.tlbstate = .flush
  stale : x.handler = .stale → x.inCpus x.cr3 = false

def Keeps (x x' : Cpu κ π μ ν) : Prop :=
  ∀ m, x'.tlb m = true → x.tlb m = true ∧ (x.Drops pf m → x'.Drops pf m)

variable {pf} {x x' : Cpu κ π μ ν}

omit [DecidableEq ν] in
theorem shape_of_plain (h : x.pc.plain = true) : x.Shape ↔ x.Settled := by
  unfold Shape
  cases hpc : x.pc <;> simp_all [Pc.plain]

omit [DecidableEq ν] in
theorem Shape.pmap_eq (h : x.Shape) (hstate : x.tlbstate ≠ .valid) : x.pmap = x.cr3 := by
  unfold Shape at h
  cases hpc : x.pc <;> simp_all [Settled]

theorem Ok.not_drops (h : x.Ok pf) (hpc : x.pc = .run) (hidle : x.handler = .idle)
    (hvalid : x.tlbstate = .valid) (m : μ) : ¬x.Drops pf m := by
  have hin : x.inCpus x.cr3 = true := ((shape_of_plain (by rw [hpc]; rfl)).mp h.shape).2 hvalid
  rintro (⟨copy,hcopy,-⟩ | hflush | hout | hwill)
  · simp [hidle,Handler.packet] at hcopy
  · simp [hvalid] at hflush
  · simp [hin] at hout
  · simp [hpc,Pc.willFlush] at hwill

theorem Keeps.refl (x : Cpu κ π μ ν) : x.Keeps pf x := fun _ hm => ⟨hm,id⟩

theorem Keeps.trans {x'' : Cpu κ π μ ν} (h : x.Keeps pf x') (h' : x'.Keeps pf x'') :
    x.Keeps pf x'' := fun m hm => by
  obtain ⟨hm',hdrop'⟩ := h' m hm
  obtain ⟨hm,hdrop⟩ := h m hm'
  exact ⟨hm,hdrop' ∘ hdrop⟩

section Local

variable (h : x.Ok pf)
include h

theorem Ok.clearOld {p : π} (hpc : x.pc = .run) (hp : p ≠ x.pmap) :
    (x.goto (.clearOld p)).Ok pf ∧ x.Keeps pf (x.goto (.clearOld p)) := by
  have hsettled : x.Settled := (shape_of_plain (by rw [hpc]; rfl)).mp h.shape
  refine ⟨{ h with shape := ⟨hsettled,hsettled.1 ▸ hp⟩ },fun m hm => ⟨hm,?_⟩⟩
  rintro (hcopy | hflush | hout | hwill)
  · exact .inl hcopy
  · exact .inr (.inl hflush)
  · exact .inr (.inr (.inl hout))
  · simp [hpc,Pc.willFlush] at hwill

theorem Ok.setLazy (hpc : x.pc = .run) (hidle : x.handler = .idle) (hvalid : x.tlbstate = .valid) :
    (x.setState .lazy).Ok pf ∧ x.Keeps pf (x.setState .lazy) := by
  have hplain : x.pc.plain = true := by rw [hpc]; rfl
  have hsettled : x.Settled := (shape_of_plain hplain).mp h.shape
  have hshape : (x.setState .lazy).Shape :=
    (shape_of_plain (x := x.setState .lazy) hplain).mpr ⟨hsettled.1,by simp [setState]⟩
  refine ⟨{ shape := hshape, tlb := h.tlb, leave := ?_, stale := ?_ },
    fun m hm => ⟨hm,fun hx => absurd hx (h.not_drops hpc hidle hvalid m)⟩⟩
  · simp [setState,hidle]
  · simp [setState,hidle]

theorem Ok.setFlush (hlazy : x.tlbstate = .lazy) :
    (x.setState .flush).Ok pf ∧ x.Keeps pf (x.setState .flush) := by
  refine ⟨{ h with shape := ?_, leave := fun _ => .inr rfl },
    fun m hm => ⟨hm,fun _ => .inr (.inl rfl)⟩⟩
  have hshape := h.shape
  unfold Shape at hshape ⊢
  cases hpc : x.pc <;> simp_all [setState,Settled]

theorem Ok.invalidate (tp : Packet ν) :
    (x.invalidate pf tp).Ok pf ∧ x.Keeps pf (x.invalidate pf tp) :=
  ⟨{ h with tlb := fun hm => h.tlb (Bool.and_eq_true _ _ ▸ hm).1 },
    fun _ hm => ⟨(Bool.and_eq_true _ _ ▸ hm).1,id⟩⟩

omit [DecidableEq ν] in
theorem Ok.fill [DecidableEq μ] {m : μ} (hm : pf.pmapOf m = x.cr3) :
    ({ x with tlb := Function.update x.tlb m true } : Cpu κ π μ ν).Ok pf :=
  { h with
    tlb := fun {n} hn => by
      by_cases hnm : n = m
      · exact hnm ▸ hm
      · exact h.tlb (by simpa [hnm] using hn) }

theorem Ok.setHandler {hd : Handler κ ν} (hleave : hd ≠ .leave) (hstale : hd ≠ .stale)
    (hpacket : x.handler.packet = none ∨ hd.packet = x.handler.packet) :
    ({ x with handler := hd } : Cpu κ π μ ν).Ok pf ∧
      x.Keeps pf ({ x with handler := hd } : Cpu κ π μ ν) := by
  refine ⟨{ h with leave := fun hl => ?_, stale := fun hl => absurd hl hstale },fun m hm => ⟨hm,?_⟩⟩
  · exact (hl.elim hleave hstale).elim
  · rintro (⟨copy,hcopy,hcov⟩ | hrest)
    · rcases hpacket with hnone | hsame
      · simp [hnone] at hcopy
      · exact .inl ⟨copy,hsame ▸ hcopy,hcov⟩
    · exact .inr hrest

theorem Ok.shift {y : Cpu κ π μ ν} (hcore : y.core = x.core)
    (hpc : y.pc = x.pc ∨ x.pc.plain = true ∧ y.pc.plain = true) : y.Ok pf ∧ x.Keeps pf y := by
  obtain ⟨st,pm,cr,ic,tl,pc,hd,ipi,due,tp,cs,dn⟩ := x
  obtain ⟨st',pm',cr',ic',tl',pc',hd',ipi',due',tp',cs',dn'⟩ := y
  simp only [core,Prod.mk.injEq] at hcore
  obtain ⟨rfl,rfl,rfl,rfl,rfl,rfl⟩ := hcore
  rcases hpc with rfl | ⟨hplain,hplain'⟩
  · exact ⟨⟨h.shape,h.tlb,h.leave,h.stale⟩,fun m hm => ⟨hm,id⟩⟩
  · have hsettled : Settled _ := (shape_of_plain hplain).mp h.shape
    refine ⟨⟨(shape_of_plain hplain').mpr hsettled,h.tlb,h.leave,h.stale⟩,fun m hm => ⟨hm,?_⟩⟩
    rintro (hcopy | hflush | hout | hwill)
    · exact .inl hcopy
    · exact .inr (.inl hflush)
    · exact .inr (.inr (.inl hout))
    · cases pc <;> simp_all [Pc.willFlush,Pc.plain]

end Local

variable [DecidableEq π]

theorem mmu_step (h : x.Ok pf) (hidle : x.handler = .idle) (hstep : x.mmu = some x') :
    x'.Ok pf ∧ x'.handler = .idle ∧ x.Keeps pf x' := by
  have hshape := h.shape
  unfold Shape at hshape
  unfold mmu at hstep
  have hnone (m : μ) : ¬∃ copy ∈ x.handler.packet, copy.covers (pf.vaOf m) = true := by
    simp [hidle,Handler.packet]
  -- the TLB stays, and the promise is kept for a reason that does not depend on the translation
  have hok {y : Cpu κ π μ ν} (hy : y.Shape) (hh : y.handler = x.handler) (hc : y.cr3 = x.cr3)
      (ht : y.tlb = x.tlb)
      (hd : x.tlbstate = .flush ∨ x.inCpus x.cr3 = false ∨ x.pc.willFlush = true →
        y.tlbstate = .flush ∨ y.inCpus y.cr3 = false ∨ y.pc.willFlush = true) :
      y.Ok pf ∧ y.handler = .idle ∧ x.Keeps pf y :=
    ⟨{ shape := hy
       tlb := fun hm => hc ▸ h.tlb (ht ▸ hm)
       leave := fun hl => by simp [hh,hidle] at hl
       stale := fun hl => by simp [hh,hidle] at hl },hh.trans hidle,
      fun m hm => ⟨ht ▸ hm,fun hx => .inr (hd (hx.resolve_left (hnone m)))⟩⟩
  -- the TLB is empty
  have hflush {y : Cpu κ π μ ν} (hy : y.Shape) (hh : y.handler = x.handler)
      (ht : ∀ m, y.tlb m = false) : y.Ok pf ∧ y.handler = .idle ∧ x.Keeps pf y :=
    ⟨{ shape := hy
       tlb := fun hm => by simp [ht] at hm
       leave := fun hl => by simp [hh,hidle] at hl
       stale := fun hl => by simp [hh,hidle] at hl },hh.trans hidle,fun m hm => by simp [ht] at hm⟩
  generalize hpc : x.pc = pc at hshape hstep
  cases pc with
  | clearOld p =>
    cases hstep
    refine hok ?_ rfl rfl rfl fun _ => .inr (.inl ?_)
    · simp [Shape,goto,setIn,hshape.1.1,hshape.2]
    · simp [goto,setIn,hshape.1.1]
  | storeValid p =>
    cases hstep
    refine hok ?_ rfl rfl rfl fun _ => .inr (.inl hshape.2.1)
    simpa [Shape,goto,setState] using hshape
  | setNew p =>
    cases hstep
    refine hok ?_ rfl rfl rfl fun _ => .inr (.inl ?_)
    · simp [Shape,goto,setIn,hshape.2.1,hshape.2.2.1,hshape.2.2.2.symm]
    · simp [goto,setIn,hshape.2.2.1,hshape.2.2.2.symm]
  | setPmap p =>
    cases hstep
    refine hok ?_ rfl rfl rfl fun _ => .inr (.inl hshape.2.1)
    simpa [Shape,goto] using hshape
  | loadCr3 p =>
    cases hstep
    exact hflush ⟨hshape.1,fun _ => hshape.2.2.2⟩ rfl fun _ => rfl
  | readState =>
    cases hstep
    exact hok hshape rfl rfl rfl (by simp [goto,hpc,Pc.willFlush])
  | claim old =>
    cases hstep
    split
    · rename_i hold
      refine hok ⟨hshape.1,rfl⟩ rfl rfl rfl ?_
      rintro (hf | hout | hw)
      · -- the mark is in `old` now
        refine .inr (.inr ?_)
        rw [← hold,hf]
        rfl
      · exact .inr (.inl hout)
      · simp [hpc,Pc.willFlush] at hw
    · exact hok hshape rfl rfl rfl (by simp [goto,hpc,Pc.willFlush])
  | check old =>
    cases hstep
    split_ifs with hin hold
    · exact hok ⟨hshape.1,hshape.2,hshape.1 ▸ hin⟩ rfl rfl rfl fun _ => .inr (.inr rfl)
    · refine hok ⟨hshape.1,fun _ => hshape.1 ▸ hin⟩ rfl rfl rfl ?_
      rintro (hf | hout | hw)
      · simp [hshape.2] at hf
      · simp [← hshape.1,hin] at hout
      · rw [hpc] at hw
        cases old <;> first | exact absurd rfl hold | cases hw
    · exact hok hshape rfl rfl rfl fun _ => .inr (.inl (by simpa [goto,← hshape.1] using hin))
  | setBit =>
    cases hstep
    refine hok ?_ rfl rfl rfl fun _ => .inr (.inr rfl)
    simp [Shape,goto,setIn,hshape.1,hshape.2]
  | flush =>
    cases hstep
    exact hflush ⟨hshape.1,fun _ => hshape.2.2⟩ rfl fun _ => rfl
  | _ => cases hstep

theorem intrTail_step (h : x.Ok pf) (hstep : x.intrTail pf = some x') :
    x'.Ok pf ∧ x.Keeps pf x' := by
  unfold intrTail at hstep
  generalize hh : x.handler = y at hstep
  cases y with
  | invalidate copy =>
    cases hstep
    refine ⟨{ shape := h.shape, tlb := fun hm => ?_, leave := ?_, stale := ?_ },fun m hm => ?_⟩
    · exact h.tlb (Bool.and_eq_true _ _ ▸ hm).1
    · simp
    · simp
    · have hmem : x.tlb m = true ∧ copy.covers (pf.vaOf m) = false := by
        simpa [invalidate] using hm
      refine ⟨hmem.1,fun hx => .inr (hx.resolve_left ?_)⟩
      rintro ⟨copy',hcopy,hcov⟩
      obtain rfl : copy = copy' := by simpa [hh,Handler.packet] using hcopy
      simp [hmem.2] at hcov
  | look =>
    cases hstep
    refine ⟨{ h with leave := fun hl => ?_, stale := fun hl => ?_ },fun m hm => ⟨hm,fun hx => ?_⟩⟩
    · by_cases hlazy : x.tlbstate = .lazy
      · exact .inl hlazy
      · simp [hlazy] at hl
    · by_cases hlazy : x.tlbstate = .lazy <;> simp [hlazy] at hl
    · refine .inr (hx.resolve_left ?_)
      simp [hh,Handler.packet]
  | leave =>
    cases hstep
    have hstate := h.leave (.inl hh)
    have hne : x.tlbstate ≠ .valid := by rcases hstate with h | h <;> simp [h]
    have hpmap : x.pmap = x.cr3 := h.shape.pmap_eq hne
    have hout : (x.setIn x.pmap false).inCpus x.cr3 = false := by simp [setIn,hpmap]
    refine ⟨{ shape := ?_, tlb := h.tlb, leave := fun _ => hstate, stale := fun _ => hout },
      fun m hm => ⟨hm,fun _ => .inr (.inr (.inl hout))⟩⟩
    have hshape := h.shape
    unfold Shape at hshape ⊢
    cases hpc : x.pc <;> simp_all [setIn,Settled]
  | stale =>
    cases hstep
    have hout := h.stale hh
    have hne : x.tlbstate ≠ .valid := by rcases h.leave (.inr hh) with h | h <;> simp [h]
    refine ⟨{ shape := ?_, tlb := h.tlb, leave := by simp, stale := by simp },
      fun m hm => ⟨hm,fun _ => .inr (.inr (.inl hout))⟩⟩
    have hshape := h.shape
    unfold Shape at hshape ⊢
    cases hpc : x.pc <;> simp_all [setState,Settled]
  | _ => cases hstep

end Cpu
end NanoBSD.Tlb
