import NanoBSD.Lib.Custody
import NanoBSD.Resv.Arming
import NanoBSD.Resv.Fini
import NanoBSD.Resv.Wakeup

/-! # The callback and the references of the poll state

The machine of the pollers, the signals and the teardown seen in two ways: as the protocol that
hands the callback around, in which the teardown is one more party, and as the places in which
the references for `rp_fence` are kept.
-/
namespace NanoBSD.Resv
open Function Option
variable {π φ : Type}

def Poller.stage (x : Poller φ) (h : Option (φ × ℕ)) : Stage φ :=
  if x.owes then (if x.pc.posted then h.elim .free fun y => .posted y.1 else .free) else .out

def Fini.stage : Fini φ → Stage φ
  | .clear f => .posted f
  | _ => .out

inductive Place (π : Type)
  | rp
  | held (p : π)
  | stale (p : π)
  deriving DecidableEq, Repr

namespace Whole

def arm (s : Whole π φ) : Arm (Option π) φ where
  claimed := s.poll.rp.claimed
  fence := s.poll.rp.fence
  queue := s.queue
  running := s.running
  stage i := i.elim s.fini.stage fun p => (s.poll.poller p).stage (s.held p)

/-- While the fence of a call is published, its reference is that in `rp_fence`. -/
def place (s : Whole π φ) : Place π → Option ℕ
  | .rp => s.ref.map Prod.snd
  | .held p => if (s.poll.poller p).pc.posted then none else (s.held p).map Prod.snd
  | .stale p => (s.stale p).map Prod.snd

def custody (s : Whole π φ) : Custody (Place π) where
  place := s.place
  taken := s.taken
  dropped := s.dropped

/-- The variable `held` of a call and the reference in `rp_fence`. -/
def Posts (pc : Pc φ) (held ref : Option (φ × ℕ)) : Prop :=
  match pc with
  | .publish _ _ f => ∀ y ∈ held, y.1 = f
  | .add _ _ f => held = ref ∧ ∃ n, ref = some (f,n)
  | .unpublish _ _ => held = ref ∧ ∃ f n, ref = some (f,n)
  | _ => True

def Ends (s : Whole π φ) : Fini φ → Prop
  | .off | .clear _ => True
  | .remove f => s.poll.rp.fence = some f
  | .put f => s.poll.rp.claimed = false ∧ s.poll.rp.fence = some f
  | .check | .done => s.poll.rp.claimed = false ∧ s.poll.rp.fence = none

variable [DecidableEq π] [DecidableEq φ]

structure Inv (s : Whole π φ) : Prop where
  locals : s.poll.Locals
  arm : s.arm.Inv
  custody : s.custody.Inv
  fence : s.poll.rp.fence = s.ref.map Prod.fst
  posts : ∀ p, Posts (s.poll.poller p).pc (s.held p) s.ref
  away : ∀ p, (s.poll.poller p).pc.away = true → s.held p = none ∧ s.stale p = none
  locked : ∀ f, s.running f = true → s.locked f = true
  quiet : s.fini ≠ .off → ∀ p, (s.poll.poller p).pc.away = true
  ends : s.Ends s.fini
  sound : s.panicked = false

variable {s s' : Whole π φ} {p : π} {w : ℕ} {gone : Bool}

section

omit [DecidableEq π] [DecidableEq φ]

theorem stage_of_not_posted {x : Poller φ} (hx : x.pc.posted = false) (k : Option (φ × ℕ)) :
    x.stage k = if x.owes then .free else .out := by
  simp [Poller.stage,hx]

variable {pc : Pc φ} {k r : Option (φ × ℕ)}

theorem stage_of_posted (hlocals : s.poll.Locals) (hpc : (s.poll.poller p).pc = pc)
    (hposted : pc.posted = true) {f : φ} {n : ℕ} (hheld : s.held p = some (f,n)) :
    s.arm.stage (some p) = .posted f := by
  have hown := (hlocals p).arming (by rw [hpc]; cases pc <;> first | rfl | cases hposted)
  have haway : pc.away = false := by cases pc <;> first | rfl | cases hposted
  simp [arm,Poller.stage,Poller.owes,hown,hpc,hposted,hheld,haway]

theorem Posts.held (h : Posts pc k r) (hpc : pc.posted = true) : k = r ∧ ∃ f n, r = some (f,n) := by
  cases pc <;> try cases hpc
  · exact ⟨h.1,_,h.2⟩
  · exact h

theorem Posts.of_not_posted {r' : Option (φ × ℕ)} (h : Posts pc k r)
    (hpc : pc.posted = false) : Posts pc k r' := by
  cases pc <;> first | exact h | cases hpc

theorem posts_none (hpc : pc.posted = false) (r : Option (φ × ℕ)) : Posts pc none r := by
  cases pc <;> simp_all [Posts,Pc.posted]

end

namespace Inv

theorem off (h : s.Inv) (hp : (s.poll.poller p).pc.away = false) : s.fini = .off := by
  by_contra hfini
  have haway := h.quiet hfini p
  rw [hp] at haway
  cases haway

theorem not_posted (h : s.Inv) {q : π} (hq : s.arm.stage (some q) = .out) :
    (s.poll.poller q).pc.posted = false := by
  by_contra hne
  obtain ⟨hheld,f,n,href⟩ := (h.posts q).held (Bool.not_eq_false _ ▸ hne)
  rw [stage_of_posted h.locals rfl (Bool.not_eq_false _ ▸ hne) (hheld.trans href)] at hq
  cases hq

theorem others (h : s.Inv) (hp : s.arm.stage (some p) ≠ .out) (q : π) (hq : q ≠ p) :
    (s.poll.poller q).pc.posted = false :=
  h.not_posted (h.arm.alone hp fun he => hq (Option.some.inj he))

variable {x : Poller φ} {k : Option (φ × ℕ)} {c : Arm (Option π) φ} {y : φ × ℕ} {n v : ℕ}

omit [DecidableEq π] [DecidableEq φ] in
theorem keeps {c : Custody (Place π)} (hc : c.Inv) (hrp : s'.place .rp = c.place .rp)
    (hheld : ∀ q, s'.place (.held q) = c.place (.held q))
    (hstale : ∀ q, s'.place (.stale q) = c.place (.stale q)) (htaken : s'.taken = c.taken)
    (hdropped : s'.dropped = c.dropped) : s'.custody.Inv := by
  have hcustody : s'.custody = c := by
    refine Custody.ext (funext fun z => ?_) htaken hdropped
    cases z with
    | rp => exact hrp
    | held q => exact hheld q
    | stale q => exact hstale q
  exact hcustody ▸ hc

section Called

variable (h : s.Inv) (hpoller : s'.poll.poller = update s.poll.poller p x)
  (hheld : s'.held = update s.held p k)

include hpoller hheld

omit [DecidableEq φ] in
theorem keepsCall {c : Custody (Place π)} (hc : c.Inv) (hrp : s'.place .rp = c.place .rp)
    (hown : (if x.pc.posted then none else k.map Prod.snd) = c.place (.held p))
    (hothers : ∀ q ≠ p, s.place (.held q) = c.place (.held q))
    (hstale : ∀ q, s'.place (.stale q) = c.place (.stale q)) (htaken : s'.taken = c.taken)
    (hdropped : s'.dropped = c.dropped) : s'.custody.Inv := by
  refine keeps hc hrp (fun q => ?_) hstale htaken hdropped
  by_cases hq : q = p
  · rw [hq,← hown]
    simp [Whole.place,hpoller,hheld]
  · rw [← hothers q hq]
    simp [Whole.place,hpoller,hheld,hq]

variable (hfini : s'.fini = s.fini)

include hfini

omit [DecidableEq φ] in
theorem arm_stage : s'.arm.stage = update s.arm.stage (some p) (x.stage k) := by
  funext i
  cases i with
  | none => simp [Whole.arm,hfini]
  | some q => by_cases hq : q = p <;> simp [Whole.arm,hpoller,hheld,hq]

include h

theorem arms (hstep : s.arm.Step c)
    (hstage : update s.arm.stage (some p) (x.stage k) = c.stage)
    (hclaimed : s'.poll.rp.claimed = c.claimed) (hfence : s'.poll.rp.fence = c.fence)
    (hqueue : s'.queue = c.queue) (hrunning : s'.running = c.running) : s'.arm.Inv := by
  have harm : s'.arm = c :=
    Arm.ext hclaimed hfence hqueue hrunning ((arm_stage hpoller hheld hfini).trans hstage)
  exact harm ▸ h.arm.step hstep

theorem armsKeep (hstage : x.stage k = s.arm.stage (some p))
    (hclaimed : s'.poll.rp.claimed = s.poll.rp.claimed)
    (hfence : s'.poll.rp.fence = s.poll.rp.fence) (hqueue : s'.queue = s.queue)
    (hrunning : s'.running = s.running) : s'.arm.Inv := by
  have harm : s'.arm = s.arm := by
    refine Arm.ext hclaimed hfence hqueue hrunning ?_
    rw [arm_stage hpoller hheld hfini,hstage,update_eq_self]
  exact harm ▸ h.arm

theorem call (hoff : s.fini = .off) (hlocals : s'.poll.Locals) (harm : s'.arm.Inv)
    (hcustody : s'.custody.Inv) (hfence : s'.poll.rp.fence = s'.ref.map Prod.fst)
    (hposts : Posts x.pc k s'.ref)
    (hothers : s'.ref = s.ref ∨ ∀ q ≠ p, (s.poll.poller q).pc.posted = false)
    (haway : x.pc.away = true → k = none ∧ s'.stale p = none)
    (hstale : ∀ q ≠ p, s'.stale q = s.stale q) (hrunning : s'.running = s.running)
    (hlocked : s'.locked = s.locked) (hpanicked : s'.panicked = s.panicked) : s'.Inv where
  locals := hlocals
  arm := harm
  custody := hcustody
  fence := hfence
  posts := by
    intro q
    rw [hpoller,hheld]
    by_cases hq : q = p
    · rw [hq,update_self,update_self]
      exact hposts
    · rw [update_of_ne hq,update_of_ne hq]
      rcases hothers with href | hnone
      · exact href ▸ h.posts q
      · exact (h.posts q).of_not_posted (hnone q hq)
  away := by
    intro q
    rw [hpoller,hheld]
    by_cases hq : q = p
    · rw [hq,update_self,update_self]
      exact haway
    · rw [update_of_ne hq,update_of_ne hq,hstale q hq]
      exact h.away q
  locked := hrunning ▸ hlocked ▸ h.locked
  quiet hne := absurd (hfini.trans hoff) hne
  ends := by
    rw [hfini,hoff]
    trivial
  sound := hpanicked.trans h.sound

end Called

theorem stay (h : s.Inv) {t : State π φ} (hoff : s.fini = .off) (hlocals : t.Locals)
    (hpoller : t.poller = update s.poll.poller p x) (hrp : t.rp = s.poll.rp)
    (hstage : x.stage (s.held p) = s.arm.stage (some p))
    (hplace : (if x.pc.posted then none else (s.held p).map Prod.snd) = s.place (.held p))
    (hposts : Posts x.pc (s.held p) s.ref)
    (haway : x.pc.away = true → s.held p = none ∧ s.stale p = none) :
    Whole.Inv { s with poll := t } := by
  have hkeep : s.held = update s.held p (s.held p) := (update_eq_self ..).symm
  exact h.call hpoller hkeep rfl hoff hlocals
    (h.armsKeep hpoller hkeep rfl hstage (by rw [hrp]) (by rw [hrp]) rfl rfl)
    (keepsCall hpoller hkeep h.custody rfl hplace (fun _ _ => rfl) (fun _ => rfl) rfl rfl)
    (hrp ▸ h.fence) hposts (.inl rfl) haway (fun _ _ => rfl) rfl rfl rfl

theorem active_of_stale (h : s.Inv) (hstale : s.stale p = some y) :
    (s.poll.poller p).pc.away = false := by
  by_contra hne
  rw [(h.away p (Bool.not_eq_false _ ▸ hne)).2] at hstale
  cases hstale

theorem active_of_held (h : s.Inv) (hheld : s.held p = some y) :
    (s.poll.poller p).pc.away = false := by
  by_contra hne
  rw [(h.away p (Bool.not_eq_false _ ▸ hne)).1] at hheld
  cases hheld

theorem ref_none (h : s.Inv) (hfence : s.poll.rp.fence = none) : s.ref = none :=
  map_eq_none_iff.mp (h.fence.symm.trans hfence)

variable {f : φ}

theorem putStale (h : s.Inv) (hstale : s.stale p = some (f,n)) : (s.putStale p n).Inv := by
  have hactive := h.active_of_stale hstale
  have hplace : s.custody.place (.stale p) = some n := by simp [Whole.custody,Whole.place,hstale]
  refine h.call (update_eq_self ..).symm (update_eq_self ..).symm rfl (h.off hactive)
    h.locals h.arm (keeps (h.custody.drop hplace) rfl (fun _ => rfl) ?_ rfl rfl) h.fence (h.posts p)
    (.inl rfl) ?_ ?_ rfl rfl rfl
  · intro q
    by_cases hq : q = p <;> simp [Whole.custody,Whole.place,Custody.drop,Whole.putStale,hq]
  · exact fun haway => (by cases hactive.symm.trans haway)
  · exact fun q hq => update_of_ne hq ..

theorem setHeld (h : s.Inv) (hactive : (s.poll.poller p).pc.away = false)
    (hposted : (s.poll.poller p).pc.posted = false) (hposts : Posts (s.poll.poller p).pc k s.ref)
    (hpoll : s'.poll = s.poll) (hheld : s'.held = update s.held p k) (hcustody : s'.custody.Inv)
    (hqueue : s'.queue = s.queue) (hrunning : s'.running = s.running)
    (hlocked : s'.locked = s.locked) (href : s'.ref = s.ref) (hstale : s'.stale = s.stale)
    (hfini : s'.fini = s.fini) (hpanicked : s'.panicked = s.panicked) : s'.Inv := by
  have hpoller : s'.poll.poller = update s.poll.poller p (s.poll.poller p) := by
    rw [hpoll,update_eq_self]
  have harm : s'.arm.Inv := by
    refine h.armsKeep hpoller hheld hfini ?_ (by rw [hpoll]) (by rw [hpoll]) hqueue hrunning
    exact (stage_of_not_posted hposted k).trans (stage_of_not_posted hposted (s.held p)).symm
  refine h.call hpoller hheld hfini (h.off hactive) (hpoll ▸ h.locals) harm hcustody
    (by rw [hpoll,href,h.fence]) (href ▸ hposts) (.inl href) ?_ (fun _ _ => by rw [hstale]) hrunning
    hlocked hpanicked
  exact fun haway => (by cases hactive.symm.trans haway)

theorem putHeld (h : s.Inv) (hheld : s.held p = some (f,n))
    (hin : (s.poll.poller p).pc.inArm = false) : (s.putHeld p n).Inv := by
  have hposted := Pc.not_posted hin
  have hplace : s.custody.place (.held p) = some n := by
    simp [Whole.custody,Whole.place,hheld,hposted]
  refine h.setHeld (h.active_of_held hheld) hposted ?_ rfl rfl
    (keeps (h.custody.drop hplace) rfl ?_ (fun _ => rfl) rfl rfl) rfl rfl rfl rfl rfl rfl rfl
  · exact posts_none hposted _
  · intro q
    by_cases hq : q = p <;> simp [Whole.custody,Whole.place,Custody.drop,Whole.putHeld,hq]

variable {i : Option ℕ}

theorem getHeld (h : s.Inv)
    (hpc : (s.poll.poller p).pc = .publish v i f) (hheld : s.held p = none) :
    (s.getHeld p f).Inv := by
  have hposted : (s.poll.poller p).pc.posted = false := by rw [hpc]; rfl
  have hplace : s.custody.place (.held p) = none := by simp [Whole.custody,Whole.place,hheld]
  refine h.setHeld (by rw [hpc]; rfl) hposted ?_ rfl rfl
    (keeps (h.custody.take hplace) rfl ?_ (fun _ => rfl) rfl rfl) rfl rfl rfl rfl rfl rfl rfl
  · rw [hpc]
    rintro _ ⟨⟩
    rfl
  · intro q
    by_cases hq : q = p <;>
      simp [Whole.custody,Whole.place,Custody.take,Whole.getHeld,hq,hposted]

omit [DecidableEq π] [DecidableEq φ] in
theorem stage_free (hlocals : s.poll.Locals) (harming : (s.poll.poller p).pc.arming = true)
    (hposted : (s.poll.poller p).pc.posted = false) : s.arm.stage (some p) = .free := by
  have hown := (hlocals p).arming harming
  have haway : (s.poll.poller p).pc.away = false := by
    cases hpc : (s.poll.poller p).pc <;> simp_all [Pc.arming,Pc.away]
  simp [Whole.arm,Poller.stage,Poller.owes,hown,hposted,haway]

variable {t : State π φ}

theorem publish (h : s.Inv) {x : φ × ℕ} (hpc : (s.poll.poller p).pc = .publish v i f)
    (hheld : s.held p = some x) (hstep : s.poll.advance p w gone = some t) :
    (s.assert (s.poll.rp.claimed && s.poll.rp.fence.isNone)
      { s with poll := t, ref := some x }).Inv := by
  have hposted : (s.poll.poller p).pc.posted = false := by rw [hpc]; rfl
  have hown := (h.locals p).arming (by rw [hpc]; rfl)
  have hfree := stage_free h.locals (p := p) (by rw [hpc]; rfl) hposted
  obtain ⟨hclaimed,hnone⟩ := h.arm.free hfree
  have hlocals := h.locals.advance hstep
  obtain ⟨n,rfl⟩ : ∃ n, x = (f,n) := by
    have hposts := h.posts p
    rw [hpc] at hposts
    exact ⟨x.2,Prod.ext (hposts x hheld) rfl⟩
  obtain rfl : (s.poll.setFence (some f)).goto p (.add v i f) = t := by
    simpa [State.advance,hpc] using hstep
  have hassert : (s.poll.rp.claimed && s.poll.rp.fence.isNone) = true := by
    rw [show s.poll.rp.claimed = true from hclaimed,show s.poll.rp.fence = none from hnone]
    rfl
  have hsame : s.held = update s.held p (some (f,n)) := by
    rw [← hheld,update_eq_self]
  have hplace : s.custody.place .rp = none := by
    simp [Whole.custody,Whole.place,h.ref_none hnone]
  rw [Whole.assert,if_pos hassert]
  refine h.call rfl hsame rfl (h.off (by rw [hpc]; rfl)) hlocals
    (h.arms rfl hsame rfl (.post (some p) f hfree) ?_ rfl rfl rfl rfl)
    (keepsCall rfl hsame (h.custody.hand (i := .held p) hplace) ?_ ?_ ?_ (fun _ => rfl) rfl rfl) rfl
    ⟨rfl,n,rfl⟩ (.inr (h.others (by simp [hfree]))) (fun haway => by cases haway) (fun _ _ => rfl)
    rfl rfl rfl
  · simp [Poller.stage,Poller.owes,State.setFence,hown,Pc.posted,Pc.away]
  · simp [Whole.custody,Whole.place,Custody.hand,hposted,hheld]
  · simp [Custody.hand,Pc.posted]
  · exact fun q hq => by simp [Custody.hand,Whole.custody,hq]

omit [DecidableEq π] [DecidableEq φ] in
theorem posted_stage (howes : x.owes = true)
    (hx : x.pc.posted = true) : x.stage (some (f,n)) = .posted f := by
  simp [Poller.stage,howes,hx]

theorem add (h : s.Inv) {x : φ × ℕ} (hpc : (s.poll.poller p).pc = .add v i f)
    (hheld : s.held p = some x) (hstep : s.poll.advance p w gone = some t) :
    Inv (if s.poll.signaled f then { s with poll := t }
      else { s with
        poll := t
        queue := update s.queue f true
        held := update s.held p none }) := by
  have hlocals := h.locals.advance hstep
  have hown := (h.locals p).arming (by rw [hpc]; rfl)
  have hposts := h.posts p
  rw [hpc] at hposts
  obtain ⟨hsame,n,href⟩ := hposts
  rw [hsame,href] at hheld
  obtain rfl : (f,n) = x := Option.some.inj hheld
  have hstage := stage_of_posted h.locals hpc rfl (hsame.trans href)
  have hoff := h.off (p := p) (by rw [hpc]; rfl)
  split
  · rename_i hsig
    obtain rfl : s.poll.goto p (.unpublish v i) = t := by
      simpa [State.advance,hpc,hsig] using hstep
    refine h.stay hoff hlocals rfl rfl ?_ ?_ ⟨hsame,f,n,href⟩ fun haway => by cases haway
    · rw [hstage,hsame,href]
      exact posted_stage (by simp [Poller.owes,hown,Pc.away]) rfl
    · simp [Whole.place,hpc,Pc.posted]
  · rename_i hsig
    obtain rfl : { s.poll with rp := { s.poll.rp with queued := some f } }.setPoller p
        ((s.poll.poller p).queued v i) = t := by
      simpa [State.advance,hpc,hsig] using hstep
    have hout : ((s.poll.poller p).queued v i).stage none = .out ∧
        ((s.poll.poller p).queued v i).pc.posted = false := by
      cases i <;> exact ⟨by simp [Poller.stage,Poller.owes,Poller.queued],rfl⟩
    refine h.call rfl rfl rfl hoff hlocals
      (h.arms rfl rfl rfl (.add (some p) f hstage) ?_ rfl rfl rfl rfl)
      (keepsCall rfl rfl h.custody rfl ?_ (fun _ _ => rfl) (fun _ => rfl) rfl rfl) h.fence ?_
      (.inl rfl) ?_ (fun _ _ => rfl) rfl rfl rfl
    · rw [hout.1]
    · rw [hout.2]
      simp [Whole.custody,Whole.place,hpc,Pc.posted]
    · cases i <;> trivial
    · cases i <;> exact fun haway => by cases haway

theorem unpublish (h : s.Inv) {x : φ × ℕ} (hpc : (s.poll.poller p).pc = .unpublish v i)
    (hheld : s.held p = some x) (hstep : s.poll.advance p w gone = some t) :
    (s.assert (s.poll.rp.claimed && s.poll.rp.fence == some x.1)
      { s with poll := t, ref := none }).Inv := by
  have hlocals := h.locals.advance hstep
  have hown := (h.locals p).arming (by rw [hpc]; rfl)
  have hposts := h.posts p
  rw [hpc] at hposts
  obtain ⟨hsame,f,n,href⟩ := hposts
  rw [hsame,href] at hheld
  obtain rfl : (f,n) = x := Option.some.inj hheld
  have hstage := stage_of_posted h.locals hpc rfl (hsame.trans href)
  obtain ⟨hclaimed,hfence⟩ := h.arm.posted hstage
  obtain ⟨g,hg,rfl⟩ : ∃ g : Pc φ, (g = .finish v ∨ ∃ j, g = .arm v j) ∧
      (s.poll.setFence none).goto p g = t := by
    cases i with
    | none => exact ⟨.finish v,.inl rfl,by simpa [State.advance,hpc] using hstep⟩
    | some j => exact ⟨.arm v (j + 1),.inr ⟨_,rfl⟩,by simpa [State.advance,hpc] using hstep⟩
  have hnot : g.posted = false ∧ g.away = false ∧ ∀ k r, Posts g k r := by
    rcases hg with rfl | ⟨j,rfl⟩ <;> exact ⟨rfl,rfl,fun _ _ => trivial⟩
  have hassert : (s.poll.rp.claimed && s.poll.rp.fence == some f) = true := by
    rw [show s.poll.rp.claimed = true from hclaimed,show s.poll.rp.fence = some f from hfence]
    simp
  have hkeep : s.held = update s.held p (some (f,n)) := by
    rw [← href,← hsame,update_eq_self]
  have hplace : s.custody.place (.held p) = none := by
    simp [Whole.custody,Whole.place,hpc,Pc.posted]
  rw [Whole.assert,if_pos hassert]
  refine h.call rfl hkeep rfl (h.off (by rw [hpc]; rfl)) hlocals
    (h.arms rfl hkeep rfl (.back (some p) f hstage) ?_ rfl rfl rfl rfl)
    (keepsCall rfl hkeep (h.custody.hand (i := .rp) hplace) ?_ ?_ ?_ ?_ rfl rfl) rfl (hnot.2.2 _ _)
    (.inr (h.others (by simp [hstage]))) ?_ (fun _ _ => rfl) rfl rfl rfl
  · simp [Poller.stage,Poller.owes,State.setFence,hown,hnot]
  · simp [Whole.custody,Whole.place,Custody.hand]
  · simp [Whole.custody,Whole.place,Custody.hand,hnot,href]
  · exact fun q hq => by simp [Custody.hand,Whole.custody,hq]
  · exact fun q => by simp [Whole.custody,Whole.place,Custody.hand]
  · exact fun haway => (by cases hnot.2.1.symm.trans haway)

theorem record (h : s.Inv) (hpc : (s.poll.poller p).pc = .record) (hstale : s.stale p = none)
    (hheld : s.held p = none) (hstep : s.poll.advance p w gone = some t) :
    Inv (if s.poll.rp.claimed then { s with poll := t }
      else { s with poll := t, stale := update s.stale p s.ref, ref := none }) := by
  have hlocals := h.locals.advance hstep
  have hunclaimed := h.locals.unclaimed hpc
  have hkeep : s.held = update s.held p none := by
    rw [← hheld,update_eq_self]
  have hoff := h.off (p := p) (by rw [hpc]; rfl)
  obtain rfl : s.poll.record p = t := by simpa [State.advance,hpc] using hstep
  unfold State.record at hlocals ⊢
  split
  · rename_i hclaimed
    simp only [hclaimed,if_true] at hlocals ⊢
    refine h.stay hoff hlocals rfl rfl ?_ ?_ trivial fun haway => by cases haway
    · simp [Whole.arm,Poller.stage,Poller.owes,hunclaimed]
    · simp [Whole.place,hheld]
  · rename_i hclaimed
    have hfree : s.poll.rp.claimed = false := Bool.not_eq_true _ ▸ hclaimed
    simp only [hfree,Bool.false_eq_true,if_false] at hlocals ⊢
    have hplace : s.custody.place (.stale p) = none := by simp [Whole.custody,Whole.place,hstale]
    refine h.call rfl hkeep rfl hoff hlocals
      (h.arms rfl hkeep rfl (.claim (some p) hfree) ?_ rfl rfl rfl rfl)
      (keepsCall rfl hkeep (h.custody.hand (i := .rp) hplace) ?_ ?_ ?_ ?_ rfl rfl) rfl trivial
      (.inr fun q _ => h.not_posted ((h.arm.unclaimed hfree).2 _)) (fun haway => by cases haway)
      (fun q hq => update_of_ne hq ..) rfl rfl rfl
    · simp [Poller.stage,Poller.owes,hunclaimed,Pc.posted,Pc.away]
    · simp [Whole.custody,Whole.place,Custody.hand]
    · simp [Whole.custody,Whole.place,Custody.hand,hheld]
    · exact fun q hq => by simp [Custody.hand,Whole.custody]
    · intro q
      by_cases hq : q = p <;> simp [Whole.custody,Whole.place,Custody.hand,hq]

theorem rest (h : s.Inv) (hin : (s.poll.poller p).pc.inArm = false)
    (hrec : (s.poll.poller p).pc ≠ .record) (hstale : s.stale p = none) (hheld : s.held p = none)
    (hstep : s.poll.advance p w gone = some t) : Inv { s with poll := t } := by
  have hlocals := h.locals.advance hstep
  have hposted := Pc.not_posted hin
  have hoff := h.off (State.active_of_advance hstep)
  have hplace (b : Bool) : (if b then none else (s.held p).map Prod.snd) = s.place (.held p) := by
    simp [Whole.place,hheld]
  rcases State.advance_cases (h.locals p) hstep with
    ⟨x,fence,-,howes,haway,hsame,-,rfl⟩ | ⟨v,i,f,hpc,-,-⟩ | ⟨hpc,-⟩ | ⟨v,hpc,rfl⟩
  · obtain ⟨rfl,hx⟩ := hsame hin
    refine h.stay hoff hlocals rfl rfl ?_ (hplace _) (hheld ▸ posts_none hx _)
      fun _ => ⟨hheld,hstale⟩
    rw [stage_of_not_posted hx,howes]
    exact (stage_of_not_posted hposted (s.held p)).symm
  · simp [hpc,Pc.inArm,Pc.posted] at hin
  · exact absurd hpc hrec
  · have hout (k : Option (φ × ℕ)) :
        Poller.stage { s.poll.poller p with pc := (.returned v : Pc φ) } k = .out := by
      simp [Poller.stage,Poller.owes,Pc.away]
    split at hlocals
    · rename_i hown
      rw [if_pos hown]
      have hfree : s.arm.stage (some p) = .free := by
        refine (stage_of_not_posted hposted (s.held p)).trans (if_pos ?_)
        simpa [Poller.owes,hpc,Pc.away] using hown
      have hkeep : s.held = update s.held p (s.held p) := (update_eq_self ..).symm
      exact h.call rfl hkeep rfl hoff hlocals
        (h.arms rfl hkeep rfl (.simulate (some p) hfree)
          (congrArg (update s.arm.stage (some p)) (hout _)) rfl rfl rfl rfl)
        (keepsCall rfl hkeep h.custody rfl (hplace _) (fun _ _ => rfl) (fun _ => rfl) rfl rfl) h.fence
        trivial (.inl rfl) (fun _ => ⟨hheld,hstale⟩) (fun _ _ => rfl) rfl rfl rfl
    · rename_i hown
      rw [if_neg hown]
      refine h.stay hoff hlocals rfl rfl ?_ (hplace _) trivial fun _ => ⟨hheld,hstale⟩
      refine (hout _).trans ((stage_of_not_posted hposted (s.held p)).trans (if_neg ?_)).symm
      simpa [Poller.owes,hpc,Pc.away] using hown

theorem advance (h : s.Inv) (hstep : s.advance p w gone = some s') : s'.Inv := by
  unfold Whole.advance at hstep
  cases hstale : s.stale p with
  | some y =>
    simp only [hstale] at hstep
    cases hstep
    exact h.putStale hstale
  | none =>
    simp only [hstale] at hstep
    cases hpc : (s.poll.poller p).pc <;> cases hheld : s.held p <;> simp only [hpc,hheld] at hstep
    case publish.none v i f =>
      cases hstep
      exact h.getHeld hpc hheld
    case publish.some v i f x =>
      obtain ⟨t,ht,rfl⟩ := map_eq_some_iff.mp hstep
      exact h.publish hpc hheld ht
    case add.some v i f x =>
      obtain ⟨t,ht,rfl⟩ := map_eq_some_iff.mp hstep
      exact h.add hpc hheld ht
    case unpublish.some v i x =>
      obtain ⟨t,ht,rfl⟩ := map_eq_some_iff.mp hstep
      exact h.unpublish hpc hheld ht
    case record.none =>
      obtain ⟨t,ht,rfl⟩ := map_eq_some_iff.mp hstep
      exact h.record hpc hstale hheld ht
    case add.none | unpublish.none => cases hstep
    all_goals first
      | cases hstep
        exact h.putHeld hheld (by rw [hpc]; rfl)
      | obtain ⟨t,ht,rfl⟩ := map_eq_some_iff.mp hstep
        exact h.rest (by rw [hpc]; rfl) (by simp [hpc]) hstale hheld ht

/-! ## Polls, signals and the teardown -/

section
variable (h : s.Inv)
include h

theorem poll (hoff : s.fini = .off) (events : Mask)
    (haway : (s.poll.poller p).pc.away = true) : Inv { s with poll := s.poll.poll p events } := by
  have hposted := Pc.not_posted_of_away haway
  refine h.stay hoff (h.locals.poll events) rfl rfl ?_ ?_ ?_ fun _ => h.away p haway
  · refine Eq.trans ?_ (stage_of_not_posted hposted (s.held p)).symm
    simp [Poller.stage,Poller.owes,haway]
  · simp [Whole.place,(h.away p haway).1]
  · dsimp only
    split <;> trivial

theorem write (r : Robj φ) : Inv { s with poll := s.poll.write r } :=
  { h with locals := h.locals.write r }

theorem signal (f : φ) : (s.signal f).Inv :=
  { h with
    locked := fun g hg => by
      by_cases hgf : g = f
      · simp [Whole.signal,hgf]
      · simpa [Whole.signal,hgf] using h.locked g hg }

theorem dequeue (hlocked : s.locked f = true) (hf : s.queue f = true) : (s.dequeue f).Inv :=
  { h with
    arm := h.arm.step (.dequeue f hf)
    locked := fun g hg => by
      by_cases hgf : g = f
      · exact hgf ▸ hlocked
      · exact h.locked g (by simpa [Whole.dequeue,hgf] using hg) }

theorem unlock (hf : s.running f = false) : (s.unlock f).Inv :=
  { h with
    locked := fun g hg => by
      have hgf : g ≠ f := fun he => by
        rw [he] at hg
        cases hf.symm.trans hg
      simpa [Whole.unlock,hgf] using h.locked g hg }

theorem run (hf : s.running f = true) : (s.run f).Inv :=
  { h with
    locals := h.locals.pollCb
    arm := h.arm.step (.run f hf)
    locked := fun g hg => h.locked g (by
      by_cases hgf : g = f
      · rwa [hgf]
      · simpa [Whole.run,hgf] using hg)
    ends := by
      have hends := h.ends
      cases hfini : s.fini <;> rw [hfini] at hends <;>
        simp_all [Ends,Whole.run,State.pollCb] }

theorem fini (hc : c.Inv) (hpoller : s'.poll.poller = s.poll.poller) (hlocals : s'.poll.Locals)
    (hclaimed : s'.poll.rp.claimed = c.claimed) (hrpfence : s'.poll.rp.fence = c.fence)
    (hqueue : s'.queue = c.queue) (hrunning : s'.running = c.running)
    (hstage : update s.arm.stage none s'.fini.stage = c.stage) (hcustody : s'.custody.Inv)
    (hfence : s'.poll.rp.fence = s'.ref.map Prod.fst) (hheld : s'.held = s.held)
    (hstale : s'.stale = s.stale) (hlocked : ∀ f, s'.running f = true → s'.locked f = true)
    (hquiet : ∀ p, (s.poll.poller p).pc.away = true) (hends : s'.Ends s'.fini)
    (hpanicked : s'.panicked = s.panicked) : s'.Inv where
  locals := hlocals
  arm := by
    have harm : s'.arm = c := by
      refine Arm.ext hclaimed hrpfence hqueue hrunning (Eq.trans ?_ hstage)
      funext i
      cases i <;> simp [Whole.arm,hpoller,hheld]
    exact harm ▸ hc
  custody := hcustody
  fence := hfence
  posts p := by
    rw [hpoller]
    exact ((hheld ▸ h.posts p).of_not_posted (Pc.not_posted_of_away (hquiet p)))
  away p := by
    rw [hpoller,hheld,hstale]
    exact h.away p
  locked := hlocked
  quiet _ p := hpoller ▸ hquiet p
  ends := hends
  sound := hpanicked.trans h.sound

theorem claimed_of_quiet (hquiet : ∀ p, (s.poll.poller p).pc.away = true)
    (hfini : s.fini.stage = .out) (hclaimed : s.poll.rp.claimed = true) :
    ∃ f, s.poll.rp.fence = some f ∧ (s.queue f = true ∨ s.running f = true) := by
  refine h.arm.claimed (fun i => ?_) hclaimed
  cases i with
  | none => exact hfini
  | some p => simp [Whole.arm,Poller.stage,Poller.owes,hquiet p]

theorem pollFini (hquiet : s.fini = .off → ∀ p, (s.poll.poller p).pc.away = true)
    (hstep : s.pollFini = some s') : s'.Inv := by
  have haway : ∀ p, (s.poll.poller p).pc.away = true := by
    by_cases hoff : s.fini = .off
    · exact hquiet hoff
    · exact h.quiet hoff
  have hends := h.ends
  -- the party of the teardown stays where it is
  have hstay {x y : Fini φ} (hx : s.fini = x) (hy : y.stage = x.stage) :
      update s.arm.stage none y.stage = s.arm.stage := by
    rw [hy,← hx]
    exact update_eq_self none s.arm.stage
  unfold Whole.pollFini at hstep
  generalize hfini : s.fini = x at hends hstep
  cases x with
  | off =>
    cases hstep
    have hout : (s.poll.rp.fence.elim Fini.check Fini.remove).stage = .out := by
      cases s.poll.rp.fence <;> rfl
    refine h.fini h.arm rfl h.locals rfl rfl rfl rfl (hstay hfini hout) h.custody h.fence rfl rfl
      h.locked haway ?_ rfl
    cases hfence : s.poll.rp.fence with
    | some f => exact hfence
    | none =>
      refine ⟨?_,hfence⟩
      by_contra hclaimed
      obtain ⟨f,hf,-⟩ := h.claimed_of_quiet haway (by rw [hfini]; rfl) (Bool.not_eq_false _ ▸ hclaimed)
      cases hfence.symm.trans hf
  | remove f =>
    obtain ⟨hlock,hstep⟩ := ite_none_left_eq_some.mp hstep
    split at hstep
    · rename_i hqueue
      cases hstep
      exact h.fini (h.arm.step (.remove none f hqueue)) rfl h.locals rfl rfl rfl rfl rfl h.custody
        h.fence rfl rfl h.locked haway trivial rfl
    · rename_i hqueue
      cases hstep
      refine h.fini h.arm rfl h.locals rfl rfl rfl rfl (hstay hfini rfl) h.custody h.fence rfl rfl
        h.locked haway ⟨?_,hends⟩ rfl
      by_contra hclaimed
      obtain ⟨g,hg,hon⟩ := h.claimed_of_quiet haway (by rw [hfini]; rfl)
        (Bool.not_eq_false _ ▸ hclaimed)
      obtain rfl : f = g := Option.some.inj (hends.symm.trans hg)
      rcases hon with hon | hon
      · exact hqueue hon
      · exact hlock (h.locked f hon)
  | clear f =>
    cases hstep
    have hstage : s.arm.stage none = .posted f := by simp [Whole.arm,hfini,Fini.stage]
    exact h.fini (h.arm.step (.clear none f hstage)) rfl h.locals rfl rfl rfl rfl rfl h.custody h.fence
      rfl rfl h.locked haway ⟨rfl,(h.arm.posted hstage).2⟩ rfl
  | put f =>
    obtain ⟨x,hx,rfl⟩ := map_eq_some_iff.mp hstep
    have hplace : s.custody.place .rp = some x.2 := by simp [Whole.custody,Whole.place,hx]
    exact h.fini (h.arm.step (.drop hends.1)) rfl h.locals rfl rfl rfl rfl (hstay hfini rfl)
      (keeps (h.custody.drop hplace) rfl (fun _ => rfl) (fun _ => rfl) rfl rfl) rfl rfl rfl
      h.locked haway ⟨hends.1,rfl⟩ rfl
  | check =>
    have hassert : (!s.poll.rp.claimed) = true := by rw [hends.1]; rfl
    rw [Whole.assert,if_pos hassert] at hstep
    cases hstep
    exact h.fini h.arm rfl h.locals rfl rfl rfl rfl (hstay hfini rfl) h.custody h.fence rfl rfl
      h.locked haway hends rfl
  | done => cases hstep

theorem step {a : Act π φ} (hfits : s.Fits a) (hstep : s.step a = some s') : s'.Inv := by
  obtain ⟨-,hstep⟩ := ite_none_left_eq_some.mp hstep
  cases a with
  | poll p events =>
    obtain ⟨haway,rfl⟩ := of_guard hstep
    exact h.poll hfits events haway
  | advance p w gone => exact h.advance hstep
  | write r =>
    cases hstep
    exact h.write r
  | signal f =>
    obtain ⟨-,rfl⟩ := of_unless hstep
    exact h.signal f
  | dequeue f =>
    obtain ⟨hf,rfl⟩ := of_guard hstep
    obtain ⟨hlocked,hqueue⟩ := Bool.and_eq_true_iff.mp hf
    exact h.dequeue hlocked hqueue
  | run f =>
    obtain ⟨hf,rfl⟩ := of_guard hstep
    exact h.run hf
  | unlock f =>
    obtain ⟨hf,rfl⟩ := of_guard hstep
    exact h.unlock (by simpa using (Bool.and_eq_true_iff.mp hf).2)
  | fini => exact h.pollFini hfits hstep

end

theorem init : (Whole.init : Whole π φ).Inv where
  locals := State.Locals.init
  arm := ⟨.nobody,rfl,trivial,rfl,rfl,funext fun i => by cases i <;> rfl⟩
  custody :=
    { apart := fun i j n hi => by cases i <;> cases hi
      live := fun i n hi => by cases i <;> cases hi
      nodup := List.nodup_nil
      kept := fun n => ⟨fun hn => absurd hn (Nat.not_lt_zero n),fun hn => by
        rcases hn with hn | ⟨i,hi⟩
        · cases hn
        · cases i <;> cases hi⟩ }
  fence := rfl
  posts _ := trivial
  away _ _ := ⟨rfl,rfl⟩
  locked _ hf := by cases hf
  quiet hne := absurd rfl hne
  ends := trivial
  sound := rfl

end Inv

def Kept (s : Whole π φ) (n : ℕ) : Prop := ∃ z, s.place z = some n

/-- The callback is queued on at most one fence, that in `rp_fence`, and the assertions hold. Each
reference taken for `rp_fence` is in one place until it is dropped, once; after the teardown all
have been dropped, and the callback is nowhere. -/
theorem callback_and_references {as : List (Act π φ)}
    (has : Along step Fits (Whole.init : Whole π φ) as) (hrun : exec step .init as = some s) :
    s.panicked = false ∧
      (∀ f, s.queue f = true → s.poll.rp.fence = some f ∧ ∀ g, s.queue g = true → g = f) ∧
      s.dropped.Nodup ∧ (∀ n, n < s.taken ↔ n ∈ s.dropped ∨ s.Kept n) ∧
      (∀ n, s.Kept n → n ∉ s.dropped) ∧
      (∀ z z' n, s.place z = some n → s.place z' = some n → z = z') ∧
      (s.fini = .done → (∀ f, s.queue f = false ∧ s.running f = false) ∧
        ∀ n, n < s.taken → n ∈ s.dropped) := by
  have h : s.Inv := exec_invariant_along Inv (fun _ _ _ h hfits hstep => h.step hfits hstep)
    .init has hrun
  refine ⟨h.sound,fun f hf => h.arm.queue hf,h.custody.nodup,h.custody.kept,?_,h.custody.apart,?_⟩
  · rintro n ⟨z,hz⟩
    exact h.custody.live z n hz
  · intro hdone
    have hends := h.ends
    rw [hdone] at hends
    refine ⟨(h.arm.unclaimed hends.1).1,fun n hn => ?_⟩
    rcases (h.custody.kept n).mp hn with hd | ⟨z,hz⟩
    · exact hd
    · have haway (p : π) := h.away p (h.quiet (by simp [hdone]) p)
      cases z <;> simp [custody,place,haway,h.ref_none hends.2] at hz

/-- A poller waits for the fence `false`, is woken by its signal, waits for the fence `true`, and
gives up. Then comes the teardown. -/
def twoPolls : List (Act Bool Bool) :=
  .write ⟨some false,[]⟩ :: .poll true ⟨true,false⟩ :: List.replicate 11 (.advance true 0 false) ++
    [.signal false,.dequeue false,.run false,.unlock false] ++
    .write ⟨some true,[]⟩ :: .poll true ⟨true,false⟩ :: List.replicate 12 (.advance true 0 false) ++
    List.replicate 5 .fini

theorem twoPolls_callback_and_references :
    ∃ s, exec step .init twoPolls = some s ∧ s.fini = .done ∧ s.taken = 2 ∧
      s.panicked = false ∧ s.queue true = false ∧ 0 ∈ s.dropped ∧ 1 ∈ s.dropped := by
  obtain ⟨s,hrun,hdone,htaken⟩ : ∃ s, exec step .init twoPolls = some s ∧ s.fini = .done ∧ s.taken =
      2 := by decide +kernel
  have hfits : Along step Fits .init twoPolls := by decide +kernel
  obtain ⟨hsound,-,-,-,-,-,hafter⟩ := callback_and_references hfits hrun
  obtain ⟨hqueue,hdropped⟩ := hafter hdone
  exact ⟨s,hrun,hdone,htaken,hsound,(hqueue true).1,hdropped 0 (by simp [htaken]),
    hdropped 1 (by simp [htaken])⟩

end Whole
end NanoBSD.Resv
