import NanoBSD.Resv.Claim

/-! # Who wakes a poller

A call of `dma_resv_do_poll` that returns without an event has recorded its caller, and a caller
that has not been notified since can rely on the claim. This does not make the callback run at
the signal that the caller waits for: the callback may be queued on a fence that another event
waits for, or one that has been replaced.
-/
namespace NanoBSD.Resv
open Function Option
variable {π φ : Type} {pc : Pc φ}

def Poller.owes (x : Poller φ) : Bool := x.claimed && !x.callback && !x.pc.away

def Poller.Lacks (x : Poller φ) (e : Wish) : Prop :=
  x.events.has e = true ∧ x.revents.has e = false

instance (x : Poller φ) (e : Wish) : Decidable (x.Lacks e) :=
  inferInstanceAs (Decidable (_ ∧ _))

def Pc.arming : Pc φ → Bool
  | .arm _ _ | .publish _ _ _ | .add _ _ _ | .unpublish _ _ => true
  | _ => false

def Pc.posted : Pc φ → Bool
  | .add _ _ _ | .unpublish _ _ => true
  | _ => false

def Pc.inArm : Pc φ → Bool
  | .publish _ _ _ => true
  | pc => pc.posted

theorem Pc.not_posted (h : pc.inArm = false) : pc.posted = false := by
  cases pc <;> simp_all [Pc.inArm,Pc.posted]

theorem Pc.not_posted_of_away (h : pc.away = true) : pc.posted = false := by
  cases pc <;> simp_all [Pc.away,Pc.posted]

def Pc.ticket : Pc φ → Option ℕ
  | .shared v | .test v _ | .arm v _ | .publish v _ _ | .add v _ _ | .unpublish v _ | .excl v
  | .exclTest v _ | .finish v | .returned v => some v
  | .idle | .top | .record => none

def Pc.shares : Pc φ → Bool
  | .shared _ | .test _ _ | .arm _ _ | .publish _ (some _) _ | .add _ (some _) _
  | .unpublish _ (some _) => true
  | _ => false

def Pc.carried : Pc φ → Option φ
  | .publish _ _ f | .add _ _ f | .exclTest _ f => some f
  | _ => none

structure Poller.Ok (x : Poller φ) (version : ℕ) (sel : Sel) : Prop where
  lacks : ∀ {e}, x.Lacks e → x.recorded = true
  claimed : x.claimed = true → x.recorded = true
  callback : x.callback = true → x.claimed = true
  recorded : x.recorded = true → sel ≠ .off
  record : x.pc = .record → x.recorded = false
  arming : x.pc.arming = true → x.claimed = true ∧ x.callback = false
  ticket : ∀ {v}, x.pc.ticket = some v → v ≤ version

namespace Poller.Ok
variable {x : Poller φ} {version : ℕ} {sel : Sel} {v : ℕ}

variable (h : x.Ok version sel)
include h

theorem goto {pc : Pc φ} (hrec : pc ≠ .record)
    (harm : pc.arming = true → x.claimed = true ∧ x.callback = false)
    (hticket : ∀ {v}, pc.ticket = some v → v ≤ version) : { x with pc := pc }.Ok version sel :=
  { h with
    record := fun hpc => absurd hpc hrec
    arming := harm
    ticket := hticket }

theorem found {l : Mask} {next arm : Pc φ} (hv : v ≤ version)
    (hnext : next.ticket = some v ∧ next.arming = false ∧ next ≠ .record)
    (harm : arm.ticket = some v ∧ arm ≠ .record) : (x.found l next arm).Ok version sel := by
  have hticket {pc : Pc φ} (hpc : pc.ticket = some v) {u : ℕ} (hu : pc.ticket = some u) :
      u ≤ version := Option.some.inj (hpc.symm.trans hu) ▸ hv
  unfold Poller.found
  split_ifs with hrec hcall
  · exact { h with
      record := fun _ => by simpa using hrec
      arming := fun harming => by simp [Pc.arming] at harming
      ticket := fun hu => by simp [Pc.ticket] at hu }
  · have hrecorded : x.recorded = true := by simpa using hrec
    exact { h with
      lacks := fun _ => hrecorded
      record := fun hpc => absurd hpc hnext.2.2
      arming := fun harming => by simp [hnext.2.1] at harming
      ticket := hticket hnext.1 }
  · have hown : x.claimed = true ∧ x.callback = false := by simpa using hcall
    exact h.goto harm.2 (fun _ => hown) (hticket harm.1)

theorem queued (i : Option ℕ) (hv : v ≤ version)
    (hclaimed : x.claimed = true) : (x.queued v i).Ok version sel := by
  have hticket {u : ℕ} (hu : some v = some u) : u ≤ version := Option.some.inj hu ▸ hv
  cases i <;> exact { h with
    lacks := fun _ => h.claimed hclaimed
    callback := fun _ => hclaimed
    record := nofun
    arming := fun harm => by simp [Poller.queued,Pc.arming] at harm
    ticket := hticket }

theorem mono {version' : ℕ} {sel' : Sel} (hv : version ≤ version')
    (hsel : sel ≠ .off → sel' ≠ .off) : x.Ok version' sel' :=
  { h with
    recorded := fun hrec => hsel (h.recorded hrec)
    ticket := fun hu => Nat.le_trans (h.ticket hu) hv }

end Poller.Ok

namespace State

/-- The pollers and the callback, as the claim protocol sees them. -/
def view (s : State π φ) : Claim π φ where
  claimed := s.rp.claimed
  queued := s.rp.queued
  signaled := s.signaled
  sel := s.sel
  owes p := (s.poller p).owes

variable [DecidableEq π] {s s' : State π φ} {p : π} {w : ℕ} {gone : Bool}

theorem view_setPoller (x : Poller φ) : (s.setPoller p x).view =
    { s.view with owes := update s.view.owes p x.owes } := by
  have howes : (fun q => (update s.poller p x q).owes) =
      update s.view.owes p x.owes := Function.comp_update Poller.owes s.poller p x
  simp only [view,setPoller,howes]

theorem view_setPoller_same {x : Poller φ} (hx : x.owes = (s.poller p).owes) :
    (s.setPoller p x).view = s.view := by
  have howes : update s.view.owes p x.owes = s.view.owes := by
    rw [hx]
    exact update_eq_self p s.view.owes
  rw [view_setPoller,howes]

def Locals (s : State π φ) : Prop := ∀ p, (s.poller p).Ok s.version (s.sel p)

structure Inv (s : State π φ) : Prop where
  locals : ∀ p, (s.poller p).Ok s.version (s.sel p)
  claim : s.view.Inv

theorem active_of_advance (hstep : s.advance p w gone = some s') :
    (s.poller p).pc.away = false := by
  cases hpc : (s.poller p).pc with
  | idle | returned => simp [advance,hpc] at hstep
  | _ => rfl

/-- A call that goes on keeps its events, comes to the shared fences if they are asked for, and has
the fence it had or loads one where it is. -/
structure Sources (s : State π φ) (p : π) (x : Poller φ) : Prop where
  events : x.events = (s.poller p).events
  shares : x.pc.shares = true → (s.poller p).pc.shares = true ∨ x.events.has .pollout = true
  carried : ∀ f ∈ x.pc.carried, f ∈ (s.poller p).pc.carried ∨
    ∃ v ≤ s.version, (s.past v).excl = some f ∨ (s.poller p).pc.shares = true ∧ f ∈ (s.past v).shared

def GoesOn (s : State π φ) (p : π) (s' : State π φ) : Prop :=
  ∃ x fence, x.Ok s.version (s.sel p) ∧ x.owes = (s.poller p).owes ∧ x.pc.away = false ∧
    ((s.poller p).pc.inArm = false → fence = s.rp.fence ∧ x.pc.posted = false) ∧
    s.Sources p x ∧ s' = (s.setFence fence).setPoller p x

/-- A step of a call goes on, queues the callback, records the caller, or returns. -/
theorem advance_cases (hok : (s.poller p).Ok s.version (s.sel p))
    (hstep : s.advance p w gone = some s') :
    s.GoesOn p s' ∨ (∃ v i f, (s.poller p).pc = .add v i f ∧ s.signaled f = false ∧
      s' = { s with rp := { s.rp with queued := some f } }.setPoller p ((s.poller p).queued v i)) ∨
    ((s.poller p).pc = .record ∧ s' = s.record p) ∨
    ∃ v, (s.poller p).pc = .finish v ∧
      s' = if (s.poller p).claimed && !(s.poller p).callback then s.pollCb.goto p (.returned v)
        else s.goto p (.returned v) := by
  have haway := active_of_advance hstep
  obtain ⟨pc,hpc⟩ : ∃ pc, (s.poller p).pc = pc := ⟨_,rfl⟩
  have hticket {v : ℕ} : pc.ticket = some v → v ≤ s.version := hpc ▸ hok.ticket
  have hown : pc.arming = true → (s.poller p).claimed = true ∧ (s.poller p).callback = false :=
    hpc ▸ hok.arming
  have hgoto {g : Pc φ} (fence : Option φ) (hg : g.away = false ∧ g ≠ .record)
      (hticket : ∀ {v}, g.ticket = some v → v ≤ s.version)
      (harm : g.arming = true → pc.arming = true)
      (hout : pc.inArm = false → fence = s.rp.fence ∧ g.posted = false)
      (hsrc : s.Sources p { s.poller p with pc := g }) :
      s.GoesOn p ((s.setFence fence).goto p g) :=
    ⟨_,fence,hok.goto hg.2 (fun h => hown (harm h)) hticket,by simp [Poller.owes,haway,hg.1],hg.1,
      hpc ▸ hout,hsrc,rfl⟩
  have htop := hgoto (g := .top) s.rp.fence ⟨rfl,by simp⟩ nofun nofun (fun _ => ⟨rfl,rfl⟩)
    ⟨rfl,nofun,nofun⟩
  -- to a place with the same ticket
  have hon {g : Pc φ} (htk : pc.ticket = g.ticket) (hg : g.away = false ∧ g ≠ .record)
      (harm : g.arming = true → pc.arming = true) (hposted : g.posted = false) :=
    hgoto s.rp.fence hg (fun hu => hticket (htk.trans hu)) harm fun _ => ⟨rfl,hposted⟩
  have hshares (h : pc.shares = true) : (s.poller p).pc.shares = true := hpc ▸ h
  have hfound {v : ℕ} {left : Mask} {next arm : Pc φ} (hv : pc.ticket = some v)
      (hnext : next.ticket = some v ∧ next.arming = false ∧ next ≠ .record ∧ next.away = false)
      (harm : arm.ticket = some v ∧ arm ≠ .record ∧ arm.away = false)
      (hout : next.posted = false ∧ arm.posted = false)
      (hnone : next.shares = false ∧ next.carried = none)
      (hsrc : s.Sources p { s.poller p with pc := arm }) :
      s.GoesOn p (s.setPoller p ((s.poller p).found left next arm)) := by
    have hok' := hok.found (l := left) (hticket hv) ⟨hnext.1,hnext.2.1,hnext.2.2.1⟩
      ⟨harm.1,harm.2.1⟩
    unfold Poller.found at hok' ⊢
    split_ifs at hok' ⊢
    · exact ⟨_,s.rp.fence,hok',by rw [Poller.owes,Poller.owes,haway]; rfl,rfl,fun _ => ⟨rfl,rfl⟩,
        ⟨rfl,nofun,nofun⟩,rfl⟩
    · exact ⟨_,s.rp.fence,hok',by simp [Poller.owes,haway,hnext],hnext.2.2.2,fun _ => ⟨rfl,hout.1⟩,
        ⟨rfl,by simp [hnone],by simp [hnone]⟩,rfl⟩
    · exact ⟨_,s.rp.fence,hok',by simp [Poller.owes,haway,harm],harm.2.2,fun _ => ⟨rfl,hout.2⟩,
        hsrc,rfl⟩
  unfold advance at hstep
  dsimp only at hstep
  rw [hpc] at hstep
  cases pc with
  | idle | returned v => cases hstep
  | record =>
    cases hstep
    exact .inr (.inr (.inl ⟨hpc,rfl⟩))
  | finish v =>
    cases hstep
    exact .inr (.inr (.inr ⟨v,hpc,rfl⟩))
  | top =>
    cases hstep
    have hnow {g : Pc φ} (hg : g.away = false ∧ g ≠ .record) (htk : g.ticket = some s.version) :=
      hgoto s.rp.fence hg fun hu => Nat.le_of_eq (Option.some.inj (hu.symm.trans htk))
    refine .inl ?_
    split
    · rename_i hout
      exact hnow ⟨rfl,by simp⟩ rfl nofun (fun _ => ⟨rfl,rfl⟩) ⟨rfl,fun _ => .inr hout,nofun⟩
    · exact hnow ⟨rfl,by simp⟩ rfl nofun (fun _ => ⟨rfl,rfl⟩) ⟨rfl,nofun,nofun⟩
  | shared v =>
    cases hstep
    refine .inl ?_
    split
    · exact hon rfl ⟨rfl,by simp⟩ nofun rfl ⟨rfl,fun _ => .inl (hshares rfl),nofun⟩
    · exact htop
  | test v i =>
    refine .inl ?_
    dsimp only at hstep
    split at hstep
    · obtain ⟨f,-,rfl⟩ := map_eq_some_iff.mp hstep
      split_ifs
      · exact htop
      · exact hon rfl ⟨rfl,by simp⟩ nofun rfl ⟨rfl,fun _ => .inl (hshares rfl),nofun⟩
      · exact hfound rfl ⟨rfl,rfl,by simp,rfl⟩ ⟨rfl,by simp,rfl⟩ ⟨rfl,rfl⟩ ⟨rfl,rfl⟩
          ⟨rfl,fun _ => .inl (hshares rfl),nofun⟩
    · cases hstep
      exact hon rfl ⟨rfl,by simp⟩ nofun rfl ⟨rfl,nofun,nofun⟩
  | arm v i =>
    refine .inl ?_
    dsimp only at hstep
    split at hstep
    · obtain ⟨f,hf,rfl⟩ := map_eq_some_iff.mp hstep
      obtain ⟨⟨-,hle⟩,hentry⟩ := ite_none_right_eq_some.mp hf
      split_ifs
      · exact htop
      · refine hon rfl ⟨rfl,by simp⟩ (fun _ => rfl) rfl ⟨rfl,fun _ => .inl (hshares rfl),?_⟩
        rintro g ⟨⟩
        exact .inr ⟨w,hle,.inr ⟨hshares rfl,List.mem_of_getElem? hentry⟩⟩
    · cases hstep
      exact hon rfl ⟨rfl,by simp⟩ (fun _ => rfl) rfl ⟨rfl,nofun,nofun⟩
  | publish v i f =>
    cases hstep
    refine .inl (hgoto (some f) ⟨rfl,by simp⟩ hticket (fun _ => rfl) nofun
      ⟨rfl,fun h => .inl (hshares ?_),fun g hg => .inl (by rwa [hpc])⟩)
    cases i <;> exact h
  | add v i f =>
    dsimp only at hstep
    split at hstep
    · cases hstep
      refine .inl (hgoto s.rp.fence ⟨rfl,by simp⟩ hticket (fun _ => rfl) nofun
        ⟨rfl,fun h => .inl (hshares ?_),nofun⟩)
      cases i <;> exact h
    · rename_i hf
      cases hstep
      exact .inr (.inl ⟨v,i,f,hpc,Bool.not_eq_true _ ▸ hf,rfl⟩)
  | unpublish v i =>
    cases hstep
    refine .inl ?_
    cases i with
    | none => exact hgoto none ⟨rfl,by simp⟩ hticket (fun _ => rfl) nofun ⟨rfl,nofun,nofun⟩
    | some i =>
      exact hgoto none ⟨rfl,by simp⟩ hticket (fun _ => rfl) nofun
        ⟨rfl,fun _ => .inl (hshares rfl),nofun⟩
  | excl v =>
    refine .inl ?_
    dsimp only at hstep
    split at hstep
    · split at hstep
      · cases hstep
        exact hon rfl ⟨rfl,by simp⟩ nofun rfl ⟨rfl,nofun,nofun⟩
      · rename_i f hf
        cases hstep
        split
        · exact htop
        · refine hon rfl ⟨rfl,by simp⟩ nofun rfl ⟨rfl,nofun,?_⟩
          rintro g ⟨⟩
          exact .inr ⟨v,hticket rfl,.inl hf⟩
    · cases hstep
      exact htop
  | exclTest v f =>
    cases hstep
    refine .inl ?_
    split
    · exact hon rfl ⟨rfl,by simp⟩ nofun rfl ⟨rfl,nofun,nofun⟩
    · exact hfound rfl ⟨rfl,rfl,by simp,rfl⟩ ⟨rfl,by simp,rfl⟩ ⟨rfl,rfl⟩ ⟨rfl,rfl⟩
        ⟨rfl,nofun,fun g hg => .inl (by rwa [hpc])⟩

namespace Locals

section
omit [DecidableEq π]

theorem queue (h : s.Locals) {v : ℕ} {i : Option ℕ} {f : φ} (hpc : (s.poller p).pc = .add v i f) :
    ((s.poller p).queued v i).Ok s.version (s.sel p) := by
  have hown := (h p).arming (by rw [hpc]; rfl)
  exact (h p).queued i ((h p).ticket (by rw [hpc]; rfl)) hown.1

theorem unclaimed (h : s.Locals) (hpc : (s.poller p).pc = .record) :
    (s.poller p).claimed = false ∧ (s.poller p).callback = false := by
  have hclaimed : (s.poller p).claimed = false := by
    by_contra hne
    simpa [(h p).record hpc] using (h p).claimed (Bool.not_eq_false _ ▸ hne)
  refine ⟨hclaimed,?_⟩
  by_contra hne
  simpa [hclaimed] using (h p).callback (Bool.not_eq_false _ ▸ hne)

theorem notify_ne_off {x : Sel} (h : x ≠ .off) : x.notify ≠ .off := by
  cases x <;> simp_all [Sel.notify]

theorem pollCb (h : s.Locals) : s.pollCb.Locals :=
  fun q => (h q).mono (Nat.le_refl _) notify_ne_off

theorem write (h : s.Locals) (r : Robj φ) : (s.write r).Locals :=
  fun q => (h q).mono (Nat.le_succ _) id

theorem init : (State.init : State π φ).Locals := fun p =>
  { lacks := fun {e} he => by cases e <;> simp [Poller.Lacks,State.init,Mask.empty,Mask.has] at he
    claimed := nofun
    callback := nofun
    recorded := nofun
    record := fun _ => rfl
    arming := fun harm => by simp [State.init,Pc.arming] at harm
    ticket := fun hu => by simp [State.init,Pc.ticket] at hu }

end

theorem setPoller (h : s.Locals) {x : Poller φ} (hx : x.Ok s.version (s.sel p)) :
    (s.setPoller p x).Locals := by
  intro q
  by_cases hq : q = p
  · subst hq
    simpa [State.setPoller] using hx
  · simpa [State.setPoller,hq] using h q

theorem record (h : s.Locals) (hpc : (s.poller p).pc = .record) : (s.record p).Locals := by
  -- the caller is on the queue now, and nobody else's place on it has changed
  have hlocals (b : Bool) (q : π) :
      (update s.poller p { s.poller p with recorded := true, claimed := b, pc := .top } q).Ok
        s.version (update s.sel p .recorded q) := by
    by_cases hq : q = p
    · subst hq
      simp only [update_self]
      exact {
        lacks := fun _ => rfl
        claimed := fun _ => rfl
        callback := fun hc => by simp [(h.unclaimed hpc).2] at hc
        recorded := fun _ => by simp
        record := nofun
        arming := fun harm => by simp [Pc.arming] at harm
        ticket := fun hu => by simp [Pc.ticket] at hu }
    · simpa [hq] using h q
  unfold State.record
  dsimp only
  split
  · exact hlocals (s.poller p).claimed
  · exact hlocals true

theorem returned (h : s.Locals) {v : ℕ} (hpc : (s.poller p).pc = .finish v) :
    (s.goto p (.returned v)).Locals := by
  refine h.setPoller ((h p).goto (by simp) (fun harm => by simp [Pc.arming] at harm) ?_)
  intro u hu
  exact (h p).ticket (by rw [hpc]; exact hu)

theorem finish (h : s.Locals) {v : ℕ} (hpc : (s.poller p).pc = .finish v) :
    Locals (if (s.poller p).claimed && !(s.poller p).callback then s.pollCb.goto p (.returned v)
      else s.goto p (.returned v)) := by
  split
  · exact (h.returned hpc).pollCb
  · exact h.returned hpc

theorem advance {w : ℕ} {gone : Bool} (h : s.Locals) (hstep : s.advance p w gone = some s') :
    s'.Locals := by
  rcases advance_cases (h p) hstep with
    ⟨x,fence,hok,-,-,-,-,rfl⟩ | ⟨v,i,f,hpc,-,rfl⟩ | ⟨hpc,rfl⟩ | ⟨v,hpc,rfl⟩
  · exact setPoller (s := s.setFence fence) h hok
  · exact setPoller (s := { s with rp := { s.rp with queued := some f } }) h (h.queue hpc)
  · exact h.record hpc
  · exact h.finish hpc

theorem poll (h : s.Locals) (events : Mask) : (s.poll p events).Locals := by
  intro q
  by_cases hq : q = p
  · subst hq
    simp only [State.poll,State.setPoller,update_self]
    exact {
      lacks := fun {e} he => by simp [Poller.Lacks,he.1] at he
      claimed := nofun
      callback := nofun
      recorded := nofun
      record := fun _ => rfl
      arming := fun harm => by split at harm <;> simp [Pc.arming] at harm
      ticket := fun hu => by split at hu <;> simp [Pc.ticket] at hu }
  · simpa [State.poll,State.setPoller,hq] using h q

end Locals

namespace Inv

theorem setPoller (h : s.Inv) {x : Poller φ} (hok : x.Ok s.version (s.sel p))
    (howes : x.owes = (s.poller p).owes) : (s.setPoller p x).Inv where
  locals := Locals.setPoller h.locals hok
  claim := (view_setPoller_same howes).symm ▸ h.claim

omit [DecidableEq π] in
theorem setFence (h : s.Inv) (f : Option φ) : (s.setFence f).Inv := ⟨h.locals,h.claim⟩

variable [DecidableEq φ] {v : ℕ}

section
variable (h : s.Inv)
include h

theorem queue {i : Option ℕ} {f : φ} (hpc : (s.poller p).pc = .add v i f)
    (hf : s.signaled f = false) :
    ({ s with rp := { s.rp with queued := some f } }.setPoller p ((s.poller p).queued v i)).Inv := by
  have hown := (h.locals p).arming (by rw [hpc]; rfl)
  have howes : ((s.poller p).queued v i).owes = false := by
    cases i <;> simp [Poller.queued,Poller.owes]
  refine ⟨Locals.setPoller (s := { s with rp := { s.rp with queued := some f } }) h.locals
    (Locals.queue h.locals hpc),?_⟩
  rw [view_setPoller,howes]
  refine h.claim.step (.queue p f ?_ hf)
  simp [view,Poller.owes,hown,hpc,Pc.away]

theorem record (hpc : (s.poller p).pc = .record) : (s.record p).Inv := by
  refine ⟨Locals.record h.locals hpc,?_⟩
  obtain ⟨hclaimed,hcallback⟩ := Locals.unclaimed h.locals hpc
  unfold State.record
  dsimp only
  split
  · rename_i hheld
    rw [view_setPoller_same (by simp [Poller.owes,hclaimed])]
    exact h.claim.step (.record p hheld)
  · rename_i hfree
    have howes : Poller.owes { s.poller p with
        recorded := true, claimed := true, pc := (.top : Pc φ) } = true := by
      simp [Poller.owes,hcallback,Pc.away]
    rw [view_setPoller,howes]
    exact h.claim.step (.claim p (Bool.not_eq_true _ ▸ hfree))

theorem finish (hpc : (s.poller p).pc = .finish v) :
    Inv (if (s.poller p).claimed && !(s.poller p).callback then s.pollCb.goto p (.returned v)
      else s.goto p (.returned v)) := by
  refine ⟨Locals.finish h.locals hpc,?_⟩
  have howes : Poller.owes { s.poller p with pc := (.returned v : Pc φ) } = false := by
    simp [Poller.owes,Pc.away]
  split
  · rename_i hown
    unfold State.goto
    rw [view_setPoller]
    change Claim.Inv { s.view.cb with
      owes := update s.view.owes p
        (Poller.owes { s.poller p with pc := (.returned v : Pc φ) }) }
    rw [howes]
    refine h.claim.step (.simulate p ?_)
    simpa [view,Poller.owes,hpc,Pc.away] using hown
  · rename_i hnot
    unfold State.goto
    rw [view_setPoller_same]
    · exact h.claim
    · rw [howes]
      simpa [Poller.owes,hpc,Pc.away] using hnot

theorem advance {w : ℕ} {gone : Bool} (hstep : s.advance p w gone = some s') : s'.Inv := by
  rcases advance_cases (h.locals p) hstep with
    ⟨x,fence,hok,howes,-,-,-,rfl⟩ | ⟨v,i,f,hpc,hf,rfl⟩ | ⟨hpc,rfl⟩ | ⟨v,hpc,rfl⟩
  · exact (h.setFence fence).setPoller hok howes
  · exact h.queue hpc hf
  · exact h.record hpc
  · exact h.finish hpc

theorem poll (events : Mask) (haway : (s.poller p).pc.away = true) : (s.poll p events).Inv := by
  refine ⟨Locals.poll h.locals events,?_⟩
  unfold State.poll
  rw [view_setPoller_same (by simp [Poller.owes,haway])]
  exact h.claim.step (.forget p)

theorem signal (f : φ) : (s.signal f).Inv := by
  unfold State.signal
  dsimp only
  split
  · rename_i hf
    exact ⟨Locals.pollCb h.locals,h.claim.step (.complete f hf)⟩
  · rename_i hf
    exact ⟨h.locals,h.claim.step (.signal f hf)⟩

omit [DecidableEq π] [DecidableEq φ] in
theorem write (r : Robj φ) : (s.write r).Inv := ⟨Locals.write h.locals r,h.claim⟩

theorem step {e : Event π φ} (hstep : step s e = some s') : s'.Inv := by
  cases e with
  | poll p events =>
    obtain ⟨haway,rfl⟩ := of_guard hstep
    exact h.poll events haway
  | advance p w gone => exact h.advance hstep
  | signal f =>
    obtain ⟨-,rfl⟩ := of_unless hstep
    exact h.signal f
  | write r =>
    cases hstep
    exact h.write r

end

omit [DecidableEq π] [DecidableEq φ] in
theorem init : (State.init : State π φ).Inv where
  locals := Locals.init
  claim :=
    { queued := nofun
      owes := fun hp => by simp [view,State.init,Poller.owes] at hp
      claimed := nofun
      recorded := fun hp => by cases hp }

theorem of_exec {es : List (Event π φ)} (hrun : exec Resv.step State.init es = some s) : s.Inv :=
  exec_invariant Inv (fun _ _ _ h hstep => h.step hstep) init hrun

omit [DecidableEq π] [DecidableEq φ] in
theorem relies (h : s.Inv) (hp : s.sel p = .recorded) :
    (∃ f, s.rp.queued = some f ∧ s.signaled f = false) ∨ ∃ q, (s.poller q).owes = true := by
  rcases h.claim.claimed (h.claim.recorded hp) with hq | hq
  · obtain ⟨f,hf⟩ := ne_none_iff_exists'.mp hq
    exact Or.inl ⟨f,hf,(h.claim.queued hf).2.1⟩
  · exact Or.inr hq

end Inv
end State
end NanoBSD.Resv
