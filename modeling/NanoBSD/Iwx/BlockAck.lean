import NanoBSD.Iwx.Reorder
import NanoBSD.Lib.Run

/-! # A Block Ack session against a correct recipient window

The firmware keeps the recipient's window: it flags frames before the window and frames it
has already received, and reports the start of the window with each frame it passes on. The
subframes of an A-MSDU come one after another; the gap timer may expire between any two
events.
-/
namespace NanoBSD.Iwx
open NanoBSD Option List

/-! ## The recipient's window -/

structure Recipient where
  start : ℕ
  got : List ℕ

def advance (got : List ℕ) : ℕ → ℕ → ℕ
  | 0, w => w
  | fuel + 1, w => if w ∈ got then advance got fuel (w + 1) else w

def Recipient.isOld (r : Recipient) (n : ℕ) : Bool := decide (n < r.start ∨ r.start + 2048 ≤ n)

def Recipient.receive (size : ℕ) (r : Recipient) (n : ℕ) : Recipient :=
  ⟨advance (n :: r.got) size (max r.start (n + 1 - size)),n :: r.got⟩

def Recipient.request (r : Recipient) (n : ℕ) : Recipient :=
  if r.isOld n then r else { r with start := n }

theorem advance_bounds (got : List ℕ) (fuel w : ℕ) :
    w ≤ advance got fuel w ∧ advance got fuel w ≤ w + fuel := by
  induction fuel generalizing w with
  | zero => exact ⟨Nat.le_refl w,Nat.le_refl w⟩
  | succ fuel ih =>
    unfold advance
    have := ih (w + 1)
    split <;> omega

variable {size : ℕ}

theorem receive_bounds {n : ℕ} {r : Recipient} (hn : n < r.start + size) :
    r.start ≤ (r.receive size n).start ∧ (r.receive size n).start ≤ r.start + size := by
  have h := advance_bounds (n :: r.got) size (max r.start (n + 1 - size))
  have hmax : max r.start (n + 1 - size) = r.start := by omega
  rw [hmax] at h
  simpa only [Recipient.receive,hmax] using h

/-! ## The machine -/

/-- An A-MSDU whose last subframe is still to come: its number, the next subframe, and the
start of the window before it came. -/
structure Partial where
  num : ℕ
  next : ℕ
  base : ℕ

structure State where
  rx : RxBa
  fw : Recipient
  cur : Option Partial

inductive Event where
  | mpdu (n : ℕ) (amsdu last : Bool) (ends : Frame → Bool)
  | sub (last : Bool) (ends : Frame → Bool)
  | bar (n : ℕ) (ends : Frame → Bool)
  | release (ends : Frame → Bool)
  | timer (ends : Frame → Bool)

def State.mpdu (size n : ℕ) (amsdu last : Bool) (ends : Frame → Bool) (s : State) : State :=
  if s.fw.isOld n || decide (n ∈ s.fw.got) then
    { s with rx := rxReorder size ends
              ⟨s.fw.start % 4096,s.fw.isOld n,decide (n ∈ s.fw.got),amsdu,last⟩ ⟨n,0⟩ s.rx }
  else
    let fw := s.fw.receive size n
    ⟨rxReorder size ends ⟨fw.start % 4096,false,false,amsdu,last⟩ ⟨n,0⟩ s.rx,fw,
      if amsdu && !last then some ⟨n,1,s.fw.start⟩ else none⟩

def State.sub (size : ℕ) (last : Bool) (ends : Frame → Bool) (c : Partial) (s : State) : State :=
  { s with rx := rxReorder size ends ⟨s.fw.start % 4096,false,false,true,last⟩ ⟨c.num,c.next⟩ s.rx,
           cur := if last then none else some { c with next := c.next + 1 } }

def step (size : ℕ) (s : State) : Event → Option State
  | .mpdu n amsdu last ends => if s.cur.isSome then none else some (s.mpdu size n amsdu last ends)
  | .sub last ends => s.cur.map fun c => s.sub size last ends c
  | .bar n ends =>
    if s.cur.isSome then none
    else some { s with rx := rxBar size ends ((s.fw.request n).start % 4096) (s.fw.isOld n) s.rx,
                       fw := s.fw.request n }
  | .release ends =>
    if s.cur.isSome then none
    else some { s with rx := rxFrameRelease size ends (s.fw.start % 4096) s.rx }
  | .timer ends => some { s with rx := reorderTimerExpired size ends s.rx }

def start (n : ℕ) : State := ⟨initReorderBuffer (n % 4096),⟨n,[]⟩,none⟩

/-- The session needs frames that are not beyond the window, that the firmware flags if a younger
one was handed up, and that are not before the window until one in it was seen. -/
def Timely (size : ℕ) (s : State) : Event → Prop
  | .mpdu n _ _ _ =>
    if s.fw.isOld n then s.rx.valid = true
    else n ∉ s.fw.got → n < s.fw.start + size ∧ ∀ d ∈ s.rx.up, d.Older ⟨n,0⟩
  | .sub _ _ => ∀ c ∈ s.cur, ∀ d ∈ s.rx.up, d.Older ⟨c.num,c.next⟩
  | _ => True

/-! ## The invariant -/

structure InPart (size w : ℕ) (c : Partial) (s : RxBa) : Prop where
  live : Live size s
  slots : Within size c.base s.entries
  lower : c.base ≤ w
  upper : w ≤ c.base + size
  window : c.base ≤ c.num ∧ c.num < c.base + size
  subs : ∀ j, ∀ f ∈ s.entries j, f.num = c.num → f.sub < c.next
  place : Place size c.base w c.num s

structure Inv (size : ℕ) (s : State) : Prop where
  got : ∀ j, ∀ f ∈ s.rx.entries j, f.num ∈ s.fw.got
  rest : s.cur = none → AtRest size s.fw.start s.rx
  part : ∀ c, s.cur = some c → c.num ∈ s.fw.got ∧ InPart size s.fw.start c s.rx

def Safe (size : ℕ) (s : State) : Prop := Ended s.rx ∨ Inv size s

theorem AtRest.congr {w : ℕ} {s t : RxBa} (h : AtRest size w s) (ha : t.alive = s.alive)
    (hh : t.headSn = s.headSn) (hn : t.numStored = s.numStored) (he : t.entries = s.entries)
    (hu : t.up = s.up) : AtRest size w t := by
  obtain ⟨⟨hal,hin,hc⟩,hs,hd⟩ := h
  refine ⟨⟨ha.trans hal,?_,?_⟩,?_,?_⟩
  · rw [he,hu]
    exact hin
  · rw [hn,he]
    exact hc
  · rw [he]
    exact hs
  · rw [hh,he,hu]
    exact hd

section Step
variable {size : ℕ} (hdvd : size ∣ 4096) (hpos : 0 < size) (hsz : size ≤ 64) {w n base : ℕ}
  {s : RxBa} {c : Partial} {m : Frame} {amsdu last : Bool} {fw : Recipient}

include hpos hsz in
theorem AtRest.ready {b : ℕ} (h : AtRest size w s) (hwb : w ≤ b) (hbw : b < w + 2048) :
    Ready size b s := by
  obtain ⟨a,hhead,hlo,hhi,hmin,-⟩ := h.head
  refine .inl ⟨a,hhead,fun j f hf => ?_,by omega,by omega⟩
  obtain ⟨hm,hin⟩ := h.slots j f hf
  exact ⟨hm,hmin j f hf,by omega⟩

theorem AtRest.incoming {w' : ℕ} (h : AtRest size w s) (hw : w ≤ w') (hw' : w' ≤ w + size)
    (hn : w ≤ n ∧ n < w + size) (hlate : ∀ d ∈ s.up, d.Older ⟨n,0⟩)
    (hnew : ∀ j, ∀ f ∈ s.entries j, f.num ≠ n) : Incoming size w w' ⟨n,0⟩ s := by
  obtain ⟨a,hhead,hlo,hhi,hmin,hrest⟩ := h.head
  have han : a ≤ n := by
    rcases hrest with rfl | ⟨d,hd,rfl⟩
    · exact hn.1
    · rcases hlate d hd with hlt | ⟨-,hlt⟩
      · exact hlt
      · exact absurd hlt (Nat.not_lt_zero _)
  exact ⟨h.live,h.slots,hw,hw',hn,hlate,fun j f hf he => absurd he (hnew j f hf),
    .inl ⟨a,hhead,hlo,hhi,hmin,.inl han⟩⟩

theorem InPart.incoming (h : InPart size w c s)
    (hlate : ∀ d ∈ s.up, d.Older ⟨c.num,c.next⟩) : Incoming size c.base w ⟨c.num,c.next⟩ s :=
  ⟨h.live,h.slots,h.lower,h.upper,h.window,hlate,h.subs,h.place⟩

theorem Incoming.setValid (h : Incoming size base w m s) :
    Incoming size base w m { s with valid := true } :=
  ⟨⟨h.live.alive,h.live.inOrder,h.live.count⟩,h.slots,h.lower,h.upper,h.window,h.late,h.subs,
    h.place⟩

variable {ends : Frame → Bool}

theorem rxReorder_eq {nssn : ℕ}
    (h : s.alive = true) : rxReorder size ends ⟨nssn,false,false,amsdu,last⟩ m s =
      reorder size ends ⟨nssn,false,false,amsdu,last⟩ m { s with valid := true } := by
  simp [rxReorder,h]

include hdvd hpos hsz in
theorem incoming_step (amsdu last : Bool) (ends : Frame → Bool)
    (h : Incoming size base fw.start m s) (hgot : ∀ j, ∀ f ∈ s.entries j, f.num ∈ fw.got)
    (hm : m.num ∈ fw.got) :
    Safe size ⟨rxReorder size ends ⟨fw.start % 4096,false,false,amsdu,last⟩ m s,fw,
      if amsdu && !last then some ⟨m.num,m.sub + 1,base⟩ else none⟩ := by
  rw [rxReorder_eq h.live.alive]
  have hv := h.setValid
  have hgot' : ∀ {t : RxBa}, (∀ j, ∀ f ∈ t.entries j, f ∈ s.entries j ∨ f = m) →
      ∀ j, ∀ f ∈ t.entries j, f.num ∈ fw.got := by
    intro t ht j f hf
    rcases ht j f hf with hf | rfl
    · exact hgot j f hf
    · exact hm
  cases hpart : amsdu && !last with
  | false =>
    have hwhole : (Desc.mk (fw.start % 4096) false false amsdu last).whole = true := by
      cases amsdu <;> cases last <;> simp_all [Desc.whole]
    obtain hend | ⟨hrest,hsub⟩ := reorder_whole ends hdvd hpos hsz rfl hv hwhole
    · exact .inl hend
    · exact .inr ⟨hgot' hsub,fun _ => hrest,nofun⟩
  | true =>
    have hwhole : (Desc.mk (fw.start % 4096) false false amsdu last).whole = false := by
      cases amsdu <;> cases last <;> simp_all [Desc.whole]
    obtain hend | ⟨⟨hlive,hslots,hplace⟩,hsub⟩ :=
      reorder_part ends hdvd hpos hsz rfl hv hwhole
    · exact .inl hend
    · refine .inr ⟨hgot' hsub,nofun,fun c hc => ?_⟩
      cases hc
      refine ⟨hm,hlive,hslots,h.lower,h.upper,h.window,fun j f hf he => ?_,hplace⟩
      rcases hsub j f hf with hf | rfl
      · exact Nat.lt_succ_of_lt (h.subs j f hf he)
      · exact Nat.lt_succ_self _

include hdvd hpos hsz in
theorem mpdu_step {s : State} (h : Inv size s) (hcur : s.cur = none)
    (ht : Timely size s (.mpdu n amsdu last ends)) :
    Safe size (s.mpdu size n amsdu last ends) := by
  have hrest := h.rest hcur
  unfold State.mpdu
  by_cases hflag : (s.fw.isOld n || decide (n ∈ s.fw.got)) = true
  · -- Flagged frames are dropped.
    rw [if_pos hflag]
    have hdrop : rxReorder size ends
        ⟨s.fw.start % 4096,s.fw.isOld n,decide (n ∈ s.fw.got),amsdu,last⟩ ⟨n,0⟩ s.rx =
          { s.rx with valid := true } := by
      have hv : s.rx.valid = false → s.fw.isOld n = false := by
        intro hv
        by_contra hold
        rw [Timely,if_pos (by simpa using hold),hv] at ht
        cases ht
      cases hvalid : s.rx.valid
      · have hold := hv hvalid
        rw [hold,Bool.false_or] at hflag
        simp [rxReorder,hrest.live.alive,hold,hflag]
      · rw [Bool.or_comm] at hflag
        simp [rxReorder,hrest.live.alive,hvalid,hflag]
    rw [hdrop]
    refine .inr ⟨h.got,fun _ => hrest.congr rfl rfl rfl rfl rfl,fun c hc => ?_⟩
    cases hcur.symm.trans hc
  · rw [if_neg hflag]
    simp only [Bool.or_eq_true,decide_eq_true_eq,not_or] at hflag
    obtain ⟨hold,hnew⟩ := hflag
    rw [Timely,if_neg hold] at ht
    obtain ⟨hn,hlate⟩ := ht hnew
    have hlo : s.fw.start ≤ n := by
      simp only [Recipient.isOld,decide_eq_true_eq] at hold
      omega
    obtain ⟨hw,hw'⟩ := receive_bounds (r := s.fw) hn
    have hin := hrest.incoming hw hw' ⟨hlo,hn⟩ hlate fun j f hf he => hnew (he ▸ h.got j f hf)
    exact incoming_step hdvd hpos hsz amsdu last ends hin
      (fun j f hf => mem_cons_of_mem n (h.got j f hf)) mem_cons_self

include hdvd hpos hsz in
theorem sub_step {s : State} (h : Inv size s) (hcur : s.cur = some c)
    (ht : Timely size s (.sub last ends)) :
    Safe size (s.sub size last ends c) := by
  obtain ⟨hgot,hpart⟩ := h.part c hcur
  have hin := hpart.incoming (ht c hcur)
  have hstep := incoming_step hdvd hpos hsz true last ends hin h.got hgot
  cases last
  · exact hstep
  · exact hstep

include hdvd hpos hsz in
theorem release_step {s : State} {rx : RxBa} (h : Inv size s) (hcur : s.cur = none)
    (hlo : s.fw.start ≤ fw.start) (hhi : fw.start < s.fw.start + 2048) (hgot : fw.got = s.fw.got)
    (hrx : AtRest size s.fw.start rx) (hent : rx.entries = s.rx.entries) :
    Safe size ⟨releaseFrames size ends (fw.start % 4096) rx,fw,s.cur⟩ := by
  obtain hend | ⟨hrest,hsub⟩ := release_rest ends hdvd hpos
    (hrx.ready hpos hsz hlo hhi) hrx.live hrx.slots hlo
  · exact .inl hend
  · refine .inr ⟨fun j f hf => ?_,fun _ => hrest,fun c hc => ?_⟩
    · have hf' := hsub j f hf
      rw [hent] at hf'
      exact hgot ▸ h.got j f hf'
    · cases hcur.symm.trans hc

theorem request_bounds (r : Recipient) (n : ℕ) :
    r.start ≤ (r.request n).start ∧ (r.request n).start < r.start + 2048 ∧
      (r.request n).got = r.got := by
  unfold Recipient.request
  split
  · exact ⟨Nat.le_refl _,by omega,rfl⟩
  · rename_i hold
    simp only [Recipient.isOld,decide_eq_true_eq] at hold
    exact ⟨by dsimp only; omega,by dsimp only; omega,rfl⟩

include hdvd hpos hsz in
theorem AtRest.timer (ends : Frame → Bool) (h : AtRest size w s) :
    Ended (reorderTimerExpired size ends s) ∨ AtRest size w (reorderTimerExpired size ends s) ∧
      ∀ j, (reorderTimerExpired size ends s).entries j = [] := by
  obtain ⟨a,hhead,hlo,hhi,hmin,hrest⟩ := h.head
  have hwin : Within size a s.entries := fun j f hf =>
    ⟨(h.slots j f hf).1,hmin j f hf,by have := (h.slots j f hf).2; omega⟩
  obtain hend | ⟨hlive,hh,hempty,hplace⟩ :=
    timer_spec ends hdvd hpos hsz h.live hhead hwin
  · exact .inl hend
  · refine .inr ⟨⟨hlive,within_of_empty hempty,?_⟩,hempty⟩
    have hnone : ∀ a', ∀ j, ∀ f ∈ (reorderTimerExpired size ends s).entries j, a' ≤ f.num := by
      intro a' j f hf
      simp [hempty j] at hf
    rcases hplace with hsame | ⟨j,d,hd,hup,hhd⟩
    · exact ⟨a,hsame,hlo,hhi,hnone a,hrest.imp_right fun ⟨d,hd,he⟩ => ⟨d,hh.up d hd,he⟩⟩
    · have := (h.slots j d hd).2
      exact ⟨d.num + 1,hhd,by omega,by omega,hnone _,.inr ⟨d,hup,rfl⟩⟩

include hdvd hpos hsz in
theorem InPart.timer (ends : Frame → Bool) (h : InPart size w c s) :
    Ended (reorderTimerExpired size ends s) ∨ InPart size w c (reorderTimerExpired size ends s) ∧
      ∀ j, ∀ f ∈ (reorderTimerExpired size ends s).entries j, f ∈ s.entries j := by
  rcases h.place with ⟨a,hhead,hlo,hhi,hmin,-⟩ | ⟨hw,hone⟩
  · have hwin : Within size a s.entries := fun j f hf =>
      ⟨(h.slots j f hf).1,hmin j f hf,by have := (h.slots j f hf).2; omega⟩
    obtain hend | ⟨hlive,hh,hempty,hplace⟩ :=
      timer_spec ends hdvd hpos hsz h.live hhead hwin
    · exact .inl hend
    · have hnone : ∀ {P : Frame → Prop}, ∀ j, ∀ f ∈ (reorderTimerExpired size ends s).entries j,
          P f := by
        intro P j f hf
        simp [hempty j] at hf
      refine .inr ⟨⟨hlive,within_of_empty hempty,h.lower,h.upper,h.window,hnone,.inl ?_⟩,
        fun j f hf => hh.mem hf⟩
      rcases hplace with hsame | ⟨j,d,hd,-,hhd⟩
      · exact ⟨a,hsame,hlo,hhi,hnone,.inr hempty⟩
      · have := (h.slots j d hd).2
        exact ⟨d.num + 1,hhd,by omega,by omega,hnone,.inr hempty⟩
  · have hslots : ∀ i, i ≠ c.num % size → s.entries i = [] := by
      intro i hi
      by_contra hne
      obtain ⟨f,hf⟩ := exists_mem_of_ne_nil _ hne
      exact hi (hone i f hf ▸ (h.slots i f hf).1.symm)
    obtain hend | ⟨hlive,hh⟩ := timer_single ends hpos h.live hslots
    · exact .inl hend
    · exact .inr ⟨⟨hlive,fun j f hf => h.slots j f (hh.mem hf),h.lower,h.upper,h.window,
        fun j f hf => h.subs j f (hh.mem hf),.inr ⟨hw,fun j f hf => hone j f (hh.mem hf)⟩⟩,
        fun j f hf => hh.mem hf⟩

include hdvd hpos hsz in
theorem timer_step {s : State} (h : Inv size s) :
    Safe size { s with rx := reorderTimerExpired size ends s.rx } := by
  cases hcur : s.cur with
  | none =>
    obtain hend | ⟨hrest,hempty⟩ := (h.rest hcur).timer hdvd hpos hsz ends
    · exact .inl hend
    · refine .inr ⟨fun j f hf => ?_,fun _ => hrest,fun c hc => ?_⟩
      · simp [hempty j] at hf
      · cases hc
  | some c =>
    obtain ⟨hgot,hpart⟩ := h.part c hcur
    obtain hend | ⟨hpart',hsub⟩ := hpart.timer hdvd hpos hsz ends
    · exact .inl hend
    · refine .inr ⟨fun j f hf => h.got j f (hsub j f hf),nofun,fun c' hc => ?_⟩
      cases hc
      exact ⟨hgot,hpart'⟩

include hdvd hpos hsz in
theorem Inv.step {s t : State} {e : Event} (h : Inv size s) (ht : Timely size s e)
    (hstep : step size s e = some t) : Safe size t := by
  cases e with
  | mpdu n amsdu last ends =>
    obtain ⟨hcur,rfl⟩ := of_unless hstep
    exact mpdu_step hdvd hpos hsz h (not_isSome_iff_eq_none.mp hcur) ht
  | sub last ends =>
    obtain ⟨c,hcur,rfl⟩ := map_eq_some_iff.mp hstep
    exact sub_step hdvd hpos hsz h hcur ht
  | bar n ends =>
    obtain ⟨hcur,rfl⟩ := of_unless hstep
    replace hcur := not_isSome_iff_eq_none.mp hcur
    have hrest := h.rest hcur
    obtain ⟨hlo,hhi,hgot⟩ := request_bounds s.fw n
    unfold rxBar
    rw [if_neg (by simp [hrest.live.alive])]
    by_cases hold : s.rx.valid = false ∧ s.fw.isOld n = true
    · have hsame : s.fw.request n = s.fw := by simp [Recipient.request,hold.2]
      rw [if_pos hold,hsame]
      exact .inr h
    · rw [if_neg hold]
      exact release_step hdvd hpos hsz h hcur hlo hhi hgot (hrest.congr rfl rfl rfl rfl rfl) rfl
  | release ends =>
    obtain ⟨hcur,rfl⟩ := of_unless hstep
    replace hcur := not_isSome_iff_eq_none.mp hcur
    have hrest := h.rest hcur
    unfold rxFrameRelease
    rw [if_pos hrest.live.alive]
    exact release_step hdvd hpos hsz h hcur (Nat.le_refl _) (by omega) rfl hrest rfl
  | timer ends =>
    cases hstep
    exact timer_step hdvd hpos hsz h

end Step

theorem Ended.step {s t : State} {e : Event} (h : Ended s.rx)
    (hstep : Iwx.step size s e = some t) : Ended t.rx := by
  have halive := h.alive
  cases e with
  | mpdu n amsdu last ends =>
    obtain ⟨-,rfl⟩ := of_unless hstep
    unfold State.mpdu
    split
    · simpa [rxReorder,halive] using h
    · simpa [rxReorder,halive] using h
  | sub last ends =>
    obtain ⟨c,-,rfl⟩ := map_eq_some_iff.mp hstep
    simpa [State.sub,rxReorder,halive] using h
  | bar n ends =>
    obtain ⟨-,rfl⟩ := of_unless hstep
    simpa [rxBar,halive] using h
  | release ends =>
    obtain ⟨-,rfl⟩ := of_unless hstep
    simpa [rxFrameRelease,halive] using h
  | timer ends =>
    cases hstep
    have hsame : reorderTimerExpired size ends s.rx = { s.rx with timer := false } := by
      simp [reorderTimerExpired,halive]
    rw [hsame]
    exact ⟨halive,h.sorted⟩

theorem Inv.start (size n : ℕ) : Inv size (start n) where
  got j f hf := absurd hf not_mem_nil
  rest _ := by
    refine ⟨⟨rfl,InOrder.empty,?_⟩,within_of_empty fun _ => rfl,n,rfl,Nat.le_refl n,
      Nat.le_add_right n size,fun j f hf => absurd hf not_mem_nil,.inl rfl⟩
    exact (waiting_eq_zero.mpr fun _ _ => rfl).symm
  part c hc := by cases hc

theorem Safe.sorted {s : State} (h : Safe size s) : s.rx.up.Pairwise Frame.Older := by
  rcases h with h | h
  · exact h.sorted
  · cases hcur : s.cur with
    | none => exact (h.rest hcur).live.inOrder.sorted
    | some c => exact (h.part c hcur).2.live.inOrder.sorted

section Example

instance (size : ℕ) (s : State) (e : Event) : Decidable (Timely size s e) :=
  match e with
  | .mpdu n _ _ _ => inferInstanceAs (Decidable (if s.fw.isOld n = true then _ else _))
  | .sub _ _ => inferInstanceAs (Decidable (∀ c ∈ s.cur, _))
  | .bar _ _ | .release _ | .timer _ => isTrue trivial

end Example

/-! ## What is stored -/
section Stored
open Function
variable {size : ℕ} {ends : Frame → Bool} {s : RxBa} {j nssn : ℕ}

structure Counts (size : ℕ) (s : RxBa) : Prop where
  count : s.numStored = waiting s.entries size
  ended : s.alive = false → s.numStored = 0

structure Stored (size : ℕ) (s : RxBa) : Prop extends Counts size s where
  timer : s.numStored ≠ 0 → s.timer = true

theorem rxFrame_counts (m : Frame) (h : Counts size s) : Counts size (rxFrame ends m s) := by
  unfold rxFrame
  split_ifs
  · exact ⟨(waiting_eq_zero.mpr fun _ _ => rfl).symm,fun _ => rfl⟩
  · exact ⟨h.count,h.ended⟩

theorem handSlot_counts (h : Counts size s) (halive : s.alive = true) (hj : j < size)
    {l : List Frame} (hl : s.entries j = l) : Counts size (handSlot ends j l s) := by
  induction l generalizing s with
  | nil => exact h
  | cons m ms ih =>
    have hcount := waiting_update s.entries ms hj
    rw [hl,length_cons,← h.count] at hcount
    let u : RxBa := { s with entries := update s.entries j ms, numStored := s.numStored - 1 }
    have hu : u.numStored = waiting u.entries size := by dsimp only [u]; omega
    have hnext : Counts size (rxFrame ends m u) :=
      rxFrame_counts m ⟨hu,fun hdead => absurd (hdead.symm.trans halive) nofun⟩
    unfold handSlot
    dsimp only
    split_ifs with hgo
    · refine ih hnext hgo ?_
      obtain ⟨hdead,-⟩ | hsame := rxFrame_cases ends m u
      · cases hgo.symm.trans hdead
      · rw [hsame]
        exact update_self ..
    · exact hnext

theorem releaseLoop_counts (h : Counts size s) (halive : s.alive = true) (hpos : 0 < size)
    (fuel ssn : ℕ) : Counts size (releaseLoop size ends nssn fuel ssn s) := by
  induction fuel generalizing s ssn with
  | zero => exact h
  | succ fuel ih =>
    have hslot : Counts size (handSlot ends (ssn % size) _ s) :=
      handSlot_counts h halive (Nat.mod_lt ssn hpos) rfl
    unfold releaseLoop
    dsimp only
    split_ifs with _ hgo
    · exact ih hslot hgo _
    · exact hslot
    · exact h

theorem releaseFrames_stored (h : Counts size s) (halive : s.alive = true) (hpos : 0 < size) :
    Stored size (releaseFrames size ends nssn s) := by
  have hloop : Counts size (releaseLoop size ends nssn 2048 s.headSn s) :=
    releaseLoop_counts h halive hpos _ _
  unfold releaseFrames
  dsimp only
  split_ifs with hgo
  · exact ⟨⟨hloop.count,hloop.ended⟩,fun hn => decide_eq_true hn⟩
  · exact ⟨hloop,fun hn => absurd (hloop.ended (Bool.eq_false_iff.mpr hgo)) hn⟩

theorem rxFrame_stored (m : Frame) (h : Stored size s) : Stored size (rxFrame ends m s) := by
  refine ⟨rxFrame_counts m h.toCounts,?_⟩
  unfold rxFrame
  split_ifs
  · exact fun hn => absurd rfl hn
  · exact h.timer

theorem rxReorder_stored (hpos : 0 < size) (d : Desc) (m : Frame) (h : Stored size s) :
    Stored size (rxReorder size ends d m s) := by
  have hadd := waiting_update s.entries (s.entries (m.sn % size) ++ [m]) (Nat.mod_lt m.sn hpos)
  rw [length_append,length_singleton,← h.count] at hadd
  unfold rxReorder reorder
  split_ifs with halive
  · exact h
  · exact rxFrame_stored m h
  · exact ⟨⟨h.count,h.ended⟩,h.timer⟩
  all_goals
    have hstore : Counts size (RxBa.store size m { s with valid := true }) :=
      ⟨by dsimp only [RxBa.store]; omega,fun hdead => absurd hdead halive⟩
  all_goals first
    | exact rxFrame_stored m ⟨⟨h.count,h.ended⟩,h.timer⟩
    | exact releaseFrames_stored hstore (Bool.not_eq_false _ ▸ halive) hpos
    | exact ⟨⟨hstore.count,hstore.ended⟩,fun _ => rfl⟩

theorem exists_slot (hj : j < size) (a : ℕ) : ∃ i < size, (a + i) % size = j := by
  have hpos : 0 < size := Nat.zero_lt_of_lt hj
  have hlt := Nat.mod_lt a hpos
  refine ⟨(j + (size - a % size)) % size,Nat.mod_lt _ hpos,?_⟩
  rw [Nat.add_mod_mod,← Nat.mod_add_mod,show a % size + (j + (size - a % size)) = j + size by omega,
    Nat.add_mod_right,Nat.mod_eq_of_lt hj]

theorem timer_stored (hpos : 0 < size) (h : Stored size s) :
    Stored size (reorderTimerExpired size ends s) := by
  have hcounts : Counts size { s with timer := false } := ⟨h.count,h.ended⟩
  have hlast := last_spec (p := fun i => s.entries ((s.headSn + i) % size) ≠ []) size
  unfold reorderTimerExpired lastStored
  dsimp only
  split_ifs with hgo
  · split at hlast <;> rename_i heq <;> rw [heq]
    · exact releaseFrames_stored hcounts hgo.1 hpos
    · -- a stored frame is in some slot
      refine absurd (h.count.trans (waiting_eq_zero.mpr fun j hj => ?_)) hgo.2
      obtain ⟨i,hi,rfl⟩ := exists_slot hj s.headSn
      exact not_not.mp (hlast i hi)
  · exact ⟨hcounts,fun hn => absurd ⟨Bool.not_eq_false _ ▸ fun hdead => hn (h.ended hdead),hn⟩ hgo⟩

theorem Stored.step {s t : State} {e : Event} (h : Stored size s.rx) (hpos : 0 < size)
    (hstep : step size s e = some t) : Stored size t.rx := by
  cases e with
  | mpdu n amsdu last ends =>
    obtain ⟨-,rfl⟩ := of_unless hstep
    unfold State.mpdu
    split_ifs <;> exact rxReorder_stored hpos _ _ h
  | sub last ends =>
    obtain ⟨c,-,rfl⟩ := map_eq_some_iff.mp hstep
    exact rxReorder_stored hpos _ _ h
  | bar n ends =>
    obtain ⟨-,rfl⟩ := of_unless hstep
    dsimp only [rxBar]
    split_ifs with halive
    · exact h
    · exact h
    · exact releaseFrames_stored ⟨h.count,h.ended⟩ (Bool.not_eq_false _ ▸ halive) hpos
  | release ends =>
    obtain ⟨-,rfl⟩ := of_unless hstep
    dsimp only [rxFrameRelease]
    split_ifs with halive
    · exact releaseFrames_stored h.toCounts halive hpos
    · exact h
  | timer ends =>
    cases hstep
    exact timer_stored hpos h

end Stored
end NanoBSD.Iwx
