import NanoBSD.Tlb.Promise
import NanoBSD.Tlb.Mail

/-! # Packets on their way

A translation that a CPU has put into its packet is owed by the CPUs in its CPU set, and then by
the targets of the packet in the mailbox that have not acknowledged it, until they have dropped it
or are bound to.
-/
namespace NanoBSD.Tlb
open Function
variable {κ π μ ν : Type} {pc : Pc κ π ν} {c : κ}

def Handler.hand : Handler κ ν → Hand κ
  | .entered => .entered
  | .copied src _ => .copied src
  | .clearing src _ => .clearing src
  | .marking src _ => .marking src
  | _ => .none

def Pc.copy : Pc κ π ν → Option (Packet ν)
  | .post _ _ ts | .send _ ts _ | .invalidate _ ts | .wait ts => some ts
  | _ => none

/-- The packet is in the mailbox and the targets are known; the CPU may still have to drop the
translations itself. -/
def Pc.flight : Pc κ π ν → Option (Bool × Packet ν)
  | .send here ts _ | .invalidate here ts => some (here,ts)
  | .wait ts => some (false,ts)
  | _ => none

def Pc.aside : Pc κ π ν → Bool
  | .merge .. | .post .. | .send .. | .invalidate .. | .wait .. => false
  | _ => true

theorem Pc.copy_of_aside (h : pc.aside = true) : pc.copy = none := by
  cases pc <;> simp_all [aside,copy]

theorem Pc.flight_eq_none (h : pc.copy = none) : pc.flight = none := by
  cases pc <;> simp_all [copy,flight]

theorem Pc.copy_of_flight {here : Bool} {ts : Packet ν}
    (h : pc.flight = some (here,ts)) : pc.copy = some ts := by
  cases pc <;> simp_all [copy,flight]

namespace Packet

variable [DecidableEq ν] {tp : Packet ν} {va : ν} {oa : Option ν}

theorem covers_add_self (h : oa = none ∨ oa = some va) : (tp.add oa).covers va = true := by
  rcases h with rfl | rfl
  · simp [add,covers]
  · simp only [add]
    split_ifs <;> simp [covers]

theorem covers_add (h : tp.covers va = true) : (tp.add oa).covers va = true := by
  cases oa with
  | none => simp [add,covers]
  | some w =>
    simp only [add]
    split_ifs
    · simp only [covers,Bool.or_eq_true,List.contains_iff_mem] at h ⊢
      exact h.imp_right (List.mem_append_left _)
    · simp [covers]

end Packet

section View

variable [DecidableEq κ] {c : κ}

def Cpu.targets (c : κ) (x : Cpu κ π μ ν) (d : κ) : Bool := decide (d ≠ c) && x.cpuset d

def Cpu.out (c : κ) (x : Cpu κ π μ ν) : Out κ :=
  match x.pc with
  | .post .. => .post
  | .send _ _ rest => .send (rest.filter (x.targets c))
  | .invalidate .. | .wait _ => .wait
  | _ => .none

def State.mail (s : State κ π μ ν) : Mail κ where
  src := s.packet.map Prod.fst
  pendcount := s.pendcount
  ipi c := (s.cpu c).ipi
  due c := (s.cpu c).due
  done c := (s.cpu c).done
  hand c := (s.cpu c).handler.hand
  out c := (s.cpu c).out c

def Cpu.Aims (c : κ) (x : Cpu κ π μ ν) (here : Bool) (n : ℕ) : Prop :=
  here = x.cpuset c ∧ Tally (x.targets c) (· = true) n

def Cpu.Tidy (c : κ) (x : Cpu κ π μ ν) : Prop :=
  match x.pc with
  | .skip here n _ | .decide here n => x.Aims c here n
  | .skipCas here n d _ => x.Aims c here n ∧ d ≠ c ∧ x.cpuset d = true
  | .acquire here n ts | .post here n ts => x.Aims c here n ∧ ts = x.tp
  | _ => True

theorem Cpu.out_eq_none {x : Cpu κ π μ ν} (h : x.pc.copy = none) : x.out c = .none := by
  unfold out
  cases hpc : x.pc <;> simp_all [Pc.copy]

theorem Cpu.flight_of_sent {x : Cpu κ π μ ν} (h : (x.out c).sent = true) :
    ∃ here ts, x.pc.flight = some (here,ts) := by
  unfold out at h
  cases hpc : x.pc <;> simp_all [Pc.flight,Out.sent]

end View

namespace State
variable [DecidableEq κ] {s : State κ π μ ν} {c d : κ} {x : Cpu κ π μ ν}

@[simp] theorem cpu_set_self : (s.set c x).cpu c = x := by simp [set]
theorem cpu_set_of_ne (h : d ≠ c) : (s.set c x).cpu d = s.cpu d := by simp [set,h]

theorem forall_set {P : κ → Cpu κ π μ ν → Prop} (hc : P c x) (h : ∀ d, P d (s.cpu d)) (d : κ) :
    P d ((s.set c x).cpu d) := by
  by_cases hd : d = c
  · subst hd
    rwa [cpu_set_self]
  · rw [cpu_set_of_ne hd]
    exact h d

theorem mail_set : (s.set c x).mail =
    { s.mail with
      ipi := update s.mail.ipi c x.ipi
      due := update s.mail.due c x.due
      done := update s.mail.done c x.done
      hand := update s.mail.hand c x.handler.hand
      out := update s.mail.out c (x.out c) } := by
  have hget {α : Type} (g : κ → Cpu κ π μ ν → α) :
      (fun d => g d ((s.set c x).cpu d)) = update (fun d => g d (s.cpu d)) c (g c x) :=
    funext (Function.apply_update g s.cpu c x)
  simp only [mail]
  rw [hget fun _ y => y.ipi,hget fun _ y => y.due,hget fun _ y => y.done,
    hget fun _ y => y.handler.hand,hget Cpu.out]
  rfl

@[simp] theorem update_ipi : update s.mail.ipi c (s.cpu c).ipi = s.mail.ipi :=
  update_eq_self c s.mail.ipi

@[simp] theorem update_due : update s.mail.due c (s.cpu c).due = s.mail.due :=
  update_eq_self c s.mail.due

@[simp] theorem update_done : update s.mail.done c (s.cpu c).done = s.mail.done :=
  update_eq_self c s.mail.done

@[simp] theorem update_hand :
    update s.mail.hand c (s.cpu c).handler.hand = s.mail.hand :=
  update_eq_self c s.mail.hand

@[simp] theorem update_out : update s.mail.out c ((s.cpu c).out c) = s.mail.out :=
  update_eq_self c s.mail.out

@[simp] theorem mail_src : s.mail.src = s.packet.map Prod.fst := rfl
@[simp] theorem mail_pendcount : s.mail.pendcount = s.pendcount := rfl

@[simp] theorem mail_mk (p : Option (κ × Packet ν)) (n : ℕ) (g : μ → Stage κ) :
    ({ cpu := s.cpu, packet := p, pendcount := n, stage := g } : State κ π μ ν).mail =
      { s.mail with src := p.map Prod.fst, pendcount := n } := rfl

theorem mail_set_hand (hdone : x.done = (s.cpu c).done) (hout : x.out c = (s.cpu c).out c) :
    (s.set c x).mail =
      { s.mail with
        ipi := update s.mail.ipi c x.ipi
        due := update s.mail.due c x.due
        hand := update s.mail.hand c x.handler.hand } := by
  rw [mail_set,hdone,hout,update_done,update_out]

theorem mail_set_done (b : Bool) : (s.set c { s.cpu c with done := b }).mail =
    { s.mail with done := update s.mail.done c b } := by
  have hout : Cpu.out c { s.cpu c with done := b } = (s.cpu c).out c := rfl
  rw [mail_set,hout,update_ipi,update_due,update_hand,update_out]

theorem mail_set_ipi (b : Bool) : (s.set c { s.cpu c with ipi := b }).mail =
    { s.mail with ipi := update s.mail.ipi c b } := by
  have hout : Cpu.out c { s.cpu c with ipi := b } = (s.cpu c).out c := rfl
  rw [mail_set_hand (by rfl) hout,update_due,update_hand]

theorem mail_set_out (pc : Pc κ π ν) : (s.set c ((s.cpu c).goto pc)).mail =
    { s.mail with out := update s.mail.out c (((s.cpu c).goto pc).out c) } := by
  rw [mail_set]
  simp only [Cpu.goto,update_ipi,update_due,update_done,update_hand]

theorem mail_set_eq (hipi : x.ipi = (s.cpu c).ipi) (hdue : x.due = (s.cpu c).due)
    (hdone : x.done = (s.cpu c).done) (hhand : x.handler.hand = (s.cpu c).handler.hand)
    (hout : x.out c = (s.cpu c).out c) : (s.set c x).mail = s.mail := by
  rw [mail_set_hand hdone hout,hipi,hdue,hhand,update_ipi,update_due,update_hand]

/-- What `c` has of the translations in the packet of `i` goes: `c` is in the CPU set, or a target
that has not acknowledged, or `i` itself. -/
def Owed (s : State κ π μ ν) (i c : κ) : Prop :=
  match (s.cpu i).pc.flight with
  | some (here,_) => s.mail.src = some i ∧ (s.cpu c).due = true ∨ c = i ∧ here = true
  | none => (s.cpu i).cpuset c = true

end State

def Cpu.covers [DecidableEq ν] (x : Cpu κ π μ ν) (va : ν) : Bool :=
  match x.pc.flight with
  | some (_,ts) => ts.covers va
  | none => x.tp.covers va

namespace State
variable [DecidableEq κ] [DecidableEq ν] (pf : Platform κ π μ ν)

/-- What `pmap_tlb_shootdown` on `i` has done for a translation: the packet has the address, and the
CPUs looked at that do not drop it anyway are in the CPU set. -/
def Merging (s : State κ π μ ν) (i : κ) (m : μ) : Prop :=
  ∀ p va rest, (s.cpu i).pc = .merge p va rest → s.shot pf i p va m →
    (s.cpu i).tp.covers (pf.vaOf m) = true ∧
      ∀ d ∉ rest, (s.cpu d).tlb m = true → (s.cpu i).cpuset d = true ∨ (s.cpu d).Drops pf m

structure Safe (s : State κ π μ ν) : Prop where
  covered : ∀ {m i}, s.stage m = .queued i → (s.cpu i).covers (pf.vaOf m) = true
  queued : ∀ {m i d}, s.stage m = .queued i → (s.cpu d).tlb m = true →
    s.Owed i d ∨ (s.cpu d).Drops pf m
  retired : ∀ {m d}, s.stage m = .retired → (s.cpu d).tlb m = true → (s.cpu d).Drops pf m
  merging : ∀ i m, s.Merging pf i m

structure Inv (s : State κ π μ ν) : Prop where
  ok : ∀ c, (s.cpu c).Ok pf
  tidy : ∀ c, (s.cpu c).Tidy c
  mail : s.mail.Inv
  content : ∀ {i ts}, s.packet = some (i,ts) → (s.cpu i).pc.copy = some ts
  copied : ∀ {c src copy}, (s.cpu c).handler = .copied src copy → s.packet = some (src,copy)
  safe : s.Safe pf

variable {pf} {s s' : State κ π μ ν} {c : κ} {x : Cpu κ π μ ν} {i : κ}

omit [DecidableEq ν] in
theorem Owed.mono {d : κ} (h : s.Owed i d) (hflight : (s'.cpu i).pc.flight = (s.cpu i).pc.flight)
    (hset : (s.cpu i).cpuset d = true → (s'.cpu i).cpuset d = true)
    (hdue : s.mail.src = some i → (s.cpu d).due = true →
      s'.mail.src = some i ∧ (s'.cpu d).due = true) : s'.Owed i d := by
  unfold Owed at h ⊢
  rw [hflight]
  split at h
  · exact h.imp_left fun h => hdue h.1 h.2
  · exact hset h

variable (pf) in
/-- The steps that load no translation but live ones and keep the promises. -/
def Keeps (s s' : State κ π μ ν) : Prop :=
  ∀ d m, s.stage m ≠ .live → (s'.cpu d).tlb m = true →
    (s.cpu d).tlb m = true ∧ ((s.cpu d).Drops pf m → (s'.cpu d).Drops pf m)

theorem keeps_set (h : (s.cpu c).Keeps pf x) : s.Keeps pf (s.set c x) :=
  fun d m _ => forall_set (P := fun d y => (s.cpu d).Keeps pf y) h (fun d => .refl (s.cpu d)) d m

omit [DecidableEq κ] in
theorem Merging.keep {m : μ} (h : s.Merging pf i m) (hstage : s'.stage = s.stage)
    (hkeep : s.Keeps pf s')
    (hpc : ∀ {p va rest}, (s'.cpu i).pc = .merge p va rest → (s.cpu i).pc = .merge p va rest ∧
      (s'.cpu i).tp = (s.cpu i).tp ∧ (s'.cpu i).cpuset = (s.cpu i).cpuset) : s'.Merging pf i m := by
  intro p va rest hpc' hshot
  obtain ⟨hpc,htp,hset⟩ := hpc hpc'
  have hcleared : s.stage m = .cleared i := hstage ▸ hshot.1
  obtain ⟨hcov,hmerged⟩ := h p va rest hpc ⟨hcleared,hshot.2⟩
  refine ⟨htp ▸ hcov,fun d hd hm => ?_⟩
  obtain ⟨hold,hdrop⟩ := hkeep _ _ (by simp [hcleared]) hm
  rw [hset]
  exact (hmerged d hd hold).imp_right hdrop

theorem Safe.merging_set {t : State κ π μ ν} (h : s.Safe pf) (hstage : t.stage = s.stage)
    (hkeep : s.Keeps pf t)
    (hcpu : ∀ i, i ≠ c → t.cpu i = s.cpu i) (hc : ∀ m, t.Merging pf c m) (i : κ) (m : μ) :
    t.Merging pf i m := by
  by_cases hi : i = c
  · exact hi ▸ hc m
  · have hcpu := hcpu i hi
    exact (h.merging i m).keep hstage hkeep fun hm => ⟨hcpu ▸ hm,hcpu ▸ rfl,hcpu ▸ rfl⟩

theorem Safe.frame (h : s.Safe pf) (hstage : s'.stage = s.stage) (hkeep : s.Keeps pf s')
    (howed : ∀ {i d m}, s.stage m = .queued i → (s'.cpu d).tlb m = true → s.Owed i d →
      s'.Owed i d ∨ (s'.cpu d).Drops pf m)
    (hcov : ∀ {i m}, s.stage m = .queued i → (s.cpu i).covers (pf.vaOf m) = true →
      (s'.cpu i).covers (pf.vaOf m) = true) (hmerging : ∀ i m, s'.Merging pf i m) : s'.Safe pf where
  covered hq := hcov (hstage ▸ hq) (h.covered (hstage ▸ hq))
  queued hq hm := by
    rw [hstage] at hq
    obtain ⟨hold,hdrop⟩ := hkeep _ _ (by simp [hq]) hm
    rcases h.queued hq hold with ho | hd
    · exact howed hq hm ho
    · exact .inr (hdrop hd)
  retired hr hm := by
    rw [hstage] at hr
    obtain ⟨hold,hdrop⟩ := hkeep _ _ (by simp [hr]) hm
    exact hdrop (h.retired hr hold)
  merging := hmerging

end State

structure Cpu.Calm [DecidableEq κ] [DecidableEq ν] (pf : Platform κ π μ ν) (c : κ)
    (x x' : Cpu κ π μ ν) : Prop where
  ok : x'.Ok pf
  tidy : x'.Tidy c
  pc : x'.pc = x.pc ∨ x'.pc.flight = x.pc.flight ∧ ∀ p va rest, x'.pc ≠ .merge p va rest
  packet : x.pc.flight = none → x'.tp = x.tp ∧ x'.cpuset = x.cpuset

namespace Cpu.Calm
variable [DecidableEq κ] [DecidableEq ν] {pf : Platform κ π μ ν} {c : κ} {x x' : Cpu κ π μ ν}

theorem flight (h : x.Calm pf c x') : x'.pc.flight = x.pc.flight :=
  h.pc.elim (congrArg Pc.flight) And.left

theorem merge (h : x.Calm pf c x') {p : π} {va : Option ν} {rest : List κ}
    (hm : x'.pc = .merge p va rest) :
    x.pc = .merge p va rest ∧ x'.tp = x.tp ∧ x'.cpuset = x.cpuset := by
  rcases h.pc with hpc | ⟨-,hpc⟩
  · rw [hm] at hpc
    exact ⟨hpc.symm,h.packet (by rw [← hpc]; rfl)⟩
  · exact absurd hm (hpc p va rest)

theorem covers (h : x.Calm pf c x') (va : ν) : x'.covers va = x.covers va := by
  unfold Cpu.covers
  rw [h.flight]
  split
  · rfl
  · rename_i hnone
    rw [(h.packet hnone).1]

theorem refl (hok : x.Ok pf) (htidy : x.Tidy c) : x.Calm pf c x :=
  ⟨hok,htidy,.inl rfl,fun _ => ⟨rfl,rfl⟩⟩

theorem of_handler {y : Cpu κ π μ ν} (hok : x.Ok pf) (htidy : x.Tidy c)
    (hsame : y = { x with
      ipi := y.ipi, due := y.due, done := y.done, handler := y.handler })
    (hhandler : y.handler = x.handler ∨ y.handler ≠ .leave ∧ y.handler ≠ .stale ∧
      (x.handler.packet = none ∨ y.handler.packet = x.handler.packet)) :
    x.Calm pf c y ∧ x.Keeps pf y := by
  have hok' : y.Ok pf ∧ x.Keeps pf y := by
    rcases hhandler with hh | ⟨hleave,hstale,hpacket⟩
    · exact hok.shift (by rw [hsame,hh]; rfl) (.inl (by rw [hsame]))
    · obtain ⟨hok,hkeeps⟩ := hok.setHandler hleave hstale hpacket
      obtain ⟨hok',hkeeps'⟩ := hok.shift (y := y) (by rw [hsame]; rfl) (.inl (by rw [hsame]))
      exact ⟨hok',hkeeps.trans hkeeps'⟩
  refine ⟨⟨hok'.1,?_,.inl (by rw [hsame]),fun _ => by rw [hsame]; exact ⟨rfl,rfl⟩⟩,hok'.2⟩
  rw [hsame]
  exact htidy

end Cpu.Calm

structure Cpu.Still [DecidableEq κ] [DecidableEq ν] (pf : Platform κ π μ ν) (c : κ)
    (x x' : Cpu κ π μ ν) : Prop extends x.Calm pf c x' where
  keeps : x.Keeps pf x'
  copy : x'.pc.copy = x.pc.copy
  due : x'.due = x.due
  copied : ∀ src copy, x'.handler = .copied src copy → x.handler = .copied src copy

variable {x : Cpu κ π μ ν} {pf : Platform κ π μ ν}

theorem Cpu.Still.refl [DecidableEq κ] [DecidableEq ν]
    (hok : x.Ok pf) (htidy : x.Tidy c) : x.Still pf c x :=
  ⟨.refl hok htidy,.refl x,rfl,rfl,fun _ _ => id⟩

namespace State.Inv
variable [DecidableEq κ] [DecidableEq ν] {pf : Platform κ π μ ν} {s s' : State κ π μ ν} {c : κ}
  {x : Cpu κ π μ ν} {i d src : κ} {ts copy : Packet ν}

section
variable (h : s.Inv pf)
include h

theorem calm {t : State κ π μ ν} (hstage : t.stage = s.stage) (hkeep : s.Keeps pf t)
    (hcalm : ∀ i, (s.cpu i).Calm pf i (t.cpu i)) (hmail : t.mail.Inv)
    (hcontent : ∀ {i ts}, t.packet = some (i,ts) → (t.cpu i).pc.copy = some ts)
    (hcopied : ∀ {d src copy}, (t.cpu d).handler = .copied src copy → t.packet = some (src,copy))
    (hdue : ∀ {i d m}, s.stage m = .queued i → s.mail.src = some i → (s.cpu d).due = true →
      t.mail.src = some i ∧ (t.cpu d).due = true ∨ (t.cpu d).Drops pf m) : t.Inv pf where
  ok i := (hcalm i).ok
  tidy i := (hcalm i).tidy
  mail := hmail
  content := hcontent
  copied := hcopied
  safe := by
    refine h.safe.frame hstage hkeep ?_ ?_ fun i m => ?_
    · intro i d m hq _ howed
      unfold Owed at howed ⊢
      rw [(hcalm i).flight]
      split at howed
      · rcases howed with ⟨hsrc,hd⟩ | hhere
        · exact (hdue hq hsrc hd).imp_left .inl
        · exact .inl (.inr hhere)
      · rename_i hnone
        refine .inl ?_
        rwa [((hcalm i).packet hnone).2]
    · intro i m _ hcov
      rwa [(hcalm i).covers]
    · exact (h.safe.merging i m).keep hstage hkeep (hcalm i).merge

theorem still (hstage : s'.stage = s.stage) (hpacket : s'.packet = s.packet)
    (hstill : ∀ i, (s.cpu i).Still pf i (s'.cpu i)) (hmail : s'.mail.Inv) : s'.Inv pf := by
  refine h.calm hstage (fun i m _ => (hstill i).keeps m) (fun i => (hstill i).toCalm) hmail ?_ ?_ ?_
  · intro i ts hp
    rw [(hstill i).copy]
    exact h.content (hpacket ▸ hp)
  · intro d src copy hd
    rw [hpacket]
    exact h.copied ((hstill d).copied src copy hd)
  · intro i d m _ hi hd
    refine .inl ⟨?_,(hstill d).due.trans hd⟩
    rwa [mail_src,hpacket]

theorem content_set (hc : ∀ ts, s.packet = some (c,ts) → x.pc.copy = some ts)
    (hp : s.packet = some (i,ts)) :
    ((s.set c x).cpu i).pc.copy = some ts := by
  by_cases hi : i = c
  · subst hi
    rw [cpu_set_self]
    exact hc ts hp
  · rw [cpu_set_of_ne hi]
    exact h.content hp

theorem covers_of_due {m : μ}
    (hp : s.packet = some (i,ts)) (hd : (s.cpu d).due = true) (hq : s.stage m = .queued i) :
    ts.covers (pf.vaOf m) = true := by
  have hsent : ((s.cpu i).out i).sent = true := by
    rcases (h.mail.posted (i := i) (by simp [hp])).2 with ⟨-,hnone⟩ | hsent
    · have := hnone d
      simp [State.mail,hd] at this
    · exact hsent
  obtain ⟨here,ts',hflight⟩ := Cpu.flight_of_sent hsent
  obtain rfl : ts' = ts := by simpa [Pc.copy_of_flight hflight] using h.content hp
  simpa [Cpu.covers,hflight] using h.safe.covered hq

theorem content_keep (hp : s.packet = some (i,ts))
    (hc : x.pc.copy = (s.cpu c).pc.copy) : ((s.set c x).cpu i).pc.copy = some ts :=
  h.content_set (fun _ hp => hc.trans (h.content hp)) hp

theorem copied_set (hd : ((s.set c x).cpu d).handler = .copied src copy)
    (hc : x.handler = .copied src copy → s.packet = some (src,copy)) : s.packet = some (src,copy) :=
  forall_set (P := fun _ y => y.handler = .copied src copy → s.packet = some (src,copy))
    hc (fun _ => h.copied) d hd

theorem copied_keep
    (hd : ((s.set c x).cpu d).handler = .copied src copy) (hc : x.handler = (s.cpu c).handler) :
    s.packet = some (src,copy) :=
  h.copied_set hd (hc ▸ h.copied)

end

omit [DecidableEq ν] in
theorem due_set (hd : (s.cpu d).due = true) (hc : x.due = (s.cpu c).due) :
    ((s.set c x).cpu d).due = true :=
  forall_set (P := fun d y => (s.cpu d).due = true → y.due = true) (hc ▸ id) (fun _ => id) d hd

theorem mail_keep (h : s.Inv pf) (hipi : x.ipi = (s.cpu c).ipi) (hdue : x.due = (s.cpu c).due)
    (hdone : x.done = (s.cpu c).done) (hhand : x.handler.hand = (s.cpu c).handler.hand)
    (hout : x.out c = (s.cpu c).out c) : (s.set c x).mail.Inv :=
  mail_set_eq hipi hdue hdone hhand hout ▸ h.mail

theorem turn (h : s.Inv pf) {p : Option (κ × Packet ν)} {n : ℕ}
    (hkeep : s.Keeps pf (s.set c x)) (hcalm : (s.cpu c).Calm pf c x)
    (hmail : (State.set { s with packet := p, pendcount := n } c x).mail.Inv)
    (hcontent : ∀ {i ts}, p = some (i,ts) → ((s.set c x).cpu i).pc.copy = some ts)
    (hcopied : ∀ {d src copy}, ((s.set c x).cpu d).handler = .copied src copy →
      p = some (src,copy))
    (hdue : ∀ {i d m}, s.stage m = .queued i → s.mail.src = some i → (s.cpu d).due = true →
      p.map Prod.fst = some i ∧ ((s.set c x).cpu d).due = true ∨
        ((s.set c x).cpu d).Drops pf m) :
    (State.set { s with packet := p, pendcount := n } c x).Inv pf :=
  h.calm (t := State.set { s with packet := p, pendcount := n } c x) rfl hkeep
    (forall_set (P := fun i y => (s.cpu i).Calm pf i y) hcalm fun i => .refl (h.ok i) (h.tidy i))
    hmail hcontent hcopied hdue

theorem quiet (h : s.Inv pf) (hkeep : s.Keeps pf (s.set c x)) (hcalm : (s.cpu c).Calm pf c x)
    (hipi : x.ipi = (s.cpu c).ipi) (hdue : x.due = (s.cpu c).due) (hdone : x.done = (s.cpu c).done)
    (hhandler : x.handler = (s.cpu c).handler ∨
      (s.cpu c).handler.hand = .none ∧ x.handler.hand = .none)
    (hcopy : x.pc.copy = (s.cpu c).pc.copy) (hout : x.out c = (s.cpu c).out c) :
    (s.set c x).Inv pf := by
  have hhand : x.handler.hand = (s.cpu c).handler.hand := by
    rcases hhandler with hh | ⟨hh,hh'⟩
    · rw [hh]
    · rw [hh,hh']
  refine h.turn hkeep hcalm (h.mail_keep hipi hdue hdone hhand hout)
    (fun hp => h.content_keep hp hcopy) (fun hd => h.copied_set hd fun hc => ?_)
    fun _ hi hd => .inl ⟨hi,due_set hd hdue⟩
  rcases hhandler with hh | ⟨-,hh⟩
  · exact h.copied (hh ▸ hc)
  · simp [hc,Handler.hand] at hh

end State.Inv

def Cpu.side (x : Cpu κ π μ ν) :
    Bool × Bool × Bool × Packet ν × (κ → Bool) × Handler κ ν :=
  (x.ipi,x.due,x.done,x.tp,x.cpuset,x.handler)

variable {s : State κ π μ ν}

theorem State.Inv.relabel [DecidableEq κ] [DecidableEq ν] (h : s.Inv pf) {g : μ → Stage κ}
    (hqueued : ∀ {m i}, g m = .queued i → s.stage m = .queued i ∨
      (s.cpu i).covers (pf.vaOf m) = true ∧
        ∀ d, (s.cpu d).tlb m = true → s.Owed i d ∨ (s.cpu d).Drops pf m)
    (hretired : ∀ {m}, g m = .retired → s.stage m = .retired ∨
      ∀ d, (s.cpu d).tlb m = true → (s.cpu d).Drops pf m)
    (hcleared : ∀ {m i}, g m = .cleared i → s.stage m = .cleared i ∨ (s.cpu i).pc = .run) :
    ({ s with stage := g } : State κ π μ ν).Inv pf :=
  { h with
    safe :=
      { covered := fun hq => (hqueued hq).elim h.safe.covered And.left
        queued := fun hq hm => (hqueued hq).elim (fun hq => h.safe.queued hq hm) fun hq => hq.2 _ hm
        retired := fun hr hm => (hretired hr).elim (fun hr => h.safe.retired hr hm) fun hr => hr _ hm
        merging := fun i m p va rest hpc hshot => by
          rcases hcleared hshot.1 with hc | hrun
          · exact h.safe.merging i m p va rest hpc ⟨hc,hshot.2⟩
          · have hpc : (s.cpu i).pc = .merge p va rest := hpc
            simp [hrun] at hpc } }

theorem State.Inv.conclude [DecidableEq κ] [DecidableEq ν] (h : s.Inv pf)
    (hok : x.Ok pf ∧ (s.cpu c).Keeps pf x) (hpc : x.pc = .run)
    (hhandler : x.handler = (s.cpu c).handler) (hdue : x.due = (s.cpu c).due)
    (hmail : (s.set c x).mail.Inv) (hpacket : ∀ ts, s.packet ≠ some (c,ts))
    (hgone : ∀ {m d}, s.stage m = .queued c → ((s.set c x).cpu d).tlb m = true →
      ((s.set c x).cpu d).Drops pf m) : ((s.retire c).set c x).Inv pf := by
  have hkeep := keeps_set hok.2
  have htidy : x.Tidy c := by simp [Cpu.Tidy,hpc]
  have hqueued {m : μ} {i : κ} (hq : (s.retire c).stage m = .queued i) :
      s.stage m = .queued i ∧ i ≠ c := by
    simp only [retire] at hq
    split_ifs at hq with hc
    exact ⟨hq,fun hi => hc (hi ▸ hq)⟩
  refine { ok := forall_set (P := fun _ y => y.Ok pf) hok.1 h.ok
           tidy := forall_set (P := fun d y => y.Tidy d) htidy h.tidy
           mail := hmail
           content := h.content_set fun ts hp => absurd hp (hpacket ts)
           copied := fun hd => h.copied_keep hd hhandler
           safe :=
            { covered := fun {m i} hq => ?_
              queued := fun {m i d} hq hm => ?_
              retired := fun {m d} hr hm => ?_
              merging := fun i m p va rest hm hshot => ?_ } }
  · obtain ⟨hq,hi⟩ := hqueued hq
    rw [cpu_set_of_ne hi]
    exact h.safe.covered hq
  · obtain ⟨hq,hi⟩ := hqueued hq
    obtain ⟨hold,hdrop⟩ := hkeep d m (by simp [hq]) hm
    refine (h.safe.queued hq hold).imp (fun howed => howed.mono ?_ ?_ ?_) hdrop
    · rw [cpu_set_of_ne hi]
      rfl
    · rw [cpu_set_of_ne hi]
      exact id
    · exact fun hsrc hd => ⟨hsrc,due_set hd hdue⟩
  · change (if s.stage m = .queued c then _ else s.stage m) = _ at hr
    split_ifs at hr with hc
    · exact hgone hc hm
    · obtain ⟨hold,hdrop⟩ := hkeep d m (by simp [hr]) hm
      exact hdrop (h.safe.retired hr hold)
  · have hc : (if s.stage m = .queued c then .retired else s.stage m) = Stage.cleared i := hshot.1
    split_ifs at hc
    have hmerging : ∀ m, (s.set c x).Merging pf c m := fun m p va rest hm => by
      rw [cpu_set_self,hpc] at hm
      cases hm
    exact h.safe.merging_set (t := s.set c x) rfl hkeep (fun _ => cpu_set_of_ne) hmerging i m p va
      rest hm ⟨hc,hshot.2⟩

theorem State.Inv.own [DecidableEq κ] [DecidableEq ν] (h : s.Inv pf)
    (hok : x.Ok pf ∧ (s.cpu c).Keeps pf x) (htidy : x.Tidy c)
    (hside : (x.ipi,x.due,x.done,x.handler) =
      ((s.cpu c).ipi,(s.cpu c).due,(s.cpu c).done,(s.cpu c).handler))
    (hcopy : (s.cpu c).pc.copy = none) (hcopy' : x.pc.copy = none)
    (hset : ∀ d m, (s.cpu c).cpuset d = true → x.cpuset d = true ∨ ((s.set c x).cpu d).Drops pf m)
    (hcov : ∀ va, (s.cpu c).tp.covers va = true → x.tp.covers va = true)
    (hmerging : ∀ m, (s.set c x).Merging pf c m) : (s.set c x).Inv pf := by
  simp only [Prod.mk.injEq] at hside
  obtain ⟨hipi,hdue,hdone,hhandler⟩ := hside
  have hkeep := keeps_set hok.2
  have hmail : (s.set c x).mail = s.mail := by
    refine mail_set_eq hipi hdue hdone (congrArg Handler.hand hhandler) ?_
    rw [Cpu.out_eq_none hcopy,Cpu.out_eq_none hcopy']
  have hflight (i : κ) : ((s.set c x).cpu i).pc.flight = (s.cpu i).pc.flight := by
    refine forall_set (P := fun i y => y.pc.flight = (s.cpu i).pc.flight) ?_ (fun _ => rfl) i
    rw [Pc.flight_eq_none hcopy,Pc.flight_eq_none hcopy']
  refine { ok := forall_set (P := fun _ y => y.Ok pf) hok.1 h.ok
           tidy := forall_set (P := fun d y => y.Tidy d) htidy h.tidy
           mail := hmail ▸ h.mail
           content := h.content_set fun ts hp => by simp [h.content hp] at hcopy
           copied := fun hd => h.copied_keep hd hhandler
           safe := h.safe.frame rfl hkeep ?_ ?_ (h.safe.merging_set rfl hkeep
            (fun _ => cpu_set_of_ne) hmerging) }
  · intro i d m _ _ howed
    have hmono (hd : (s.cpu i).cpuset d = true → ((s.set c x).cpu i).cpuset d = true) :
        (s.set c x).Owed i d :=
      howed.mono (hflight i) hd fun hi hd => ⟨hi,due_set hd hdue⟩
    by_cases hi : i = c
    · subst hi
      have hin : (s.cpu i).cpuset d = true := by
        simpa [Owed,Pc.flight_eq_none hcopy] using howed
      refine (hset d m hin).imp_left fun hd => hmono fun _ => ?_
      rwa [cpu_set_self]
    · exact .inl (hmono (by rw [cpu_set_of_ne hi]; exact id))
  · intro i m _
    refine forall_set (P := fun i y => (s.cpu i).covers (pf.vaOf m) = true →
      y.covers (pf.vaOf m) = true) ?_ (fun _ => id) i
    simpa only [Cpu.covers,Pc.flight_eq_none hcopy,Pc.flight_eq_none hcopy'] using hcov (pf.vaOf m)

theorem State.Inv.aside [DecidableEq κ] [DecidableEq ν] (h : s.Inv pf)
    (hside : x.side = (s.cpu c).side)
    (hpc : (s.cpu c).pc.aside = true) (hpc' : x.pc.aside = true)
    (hok : x.Ok pf ∧ (s.cpu c).Keeps pf x) (htidy : x.Tidy c) : (s.set c x).Inv pf := by
  simp only [Cpu.side,Prod.mk.injEq] at hside
  obtain ⟨hipi,hdue,hdone,htp,hset,hhandler⟩ := hside
  have hcopy := Pc.copy_of_aside hpc
  have hcopy' := Pc.copy_of_aside hpc'
  refine h.quiet (keeps_set hok.2) ⟨hok.1,htidy,.inr ⟨?_,?_⟩,fun _ => ⟨htp,hset⟩⟩ hipi hdue hdone
    (.inl hhandler) (hcopy'.trans hcopy.symm) ?_
  · rw [Pc.flight_eq_none hcopy,Pc.flight_eq_none hcopy']
  · rintro p va rest hm
    simp [hm,Pc.aside] at hpc'
  · rw [Cpu.out_eq_none hcopy,Cpu.out_eq_none hcopy']

end NanoBSD.Tlb
