import NanoBSD.Lib.Tally
import NanoBSD.Wg.Concurrent
import NanoBSD.Wg.Handshake

/-! # Who may use a session

The invariants of all threads together. The holder of `wgp_lock` can run the rest of its section
to the end, and a peer whose lock is free is settled. The table and the sessions agree on the
local indices. A thread that has a reference to a session, or inside a read section a pointer
to it from the table or to one it has seen established, keeps the session from being reused: the
pointers are gone when the grace period is over, and the references when they have drained. A
stable pointer that is loaded and not yet checked keeps nothing: the session behind it may be a new
one by the time its state is read.
-/
namespace NanoBSD.Wg.Sessions
open Function
variable {θ π κ : Type}

/-! ## What a thread has -/

namespace Pc

def holds : Pc π → Option π
  | locked p _ _ | await p _ _ _ _ | drain p _ _ _ | shipping p _ _ _ _ => some p
  | _ => none

def refers : Pc π → Option (π × Bool)
  | sender p σ | sending p σ _ | held p σ => some (p,σ)
  | want p ref _ | locked p ref _ | await p ref _ _ _ | drain p ref _ _ | shipping p ref _ _ _ =>
    ref.map fun σ => (p,σ)
  | _ => none

/-- The session found by its index, or seen established, in a read section. Of the stable session
of `loaded` neither is known yet. -/
def points : Pc π → Option (π × Bool)
  | found _ _ _ p σ | checked _ p σ => some (p,σ)
  | _ => none

def section? : Pc π → Option ℕ
  | lookup _ _ n | found _ _ n _ _ | load n _ | loaded n _ _ | checked n _ _ => some n
  | _ => none

end Pc

def Peer.Severed (v : Peer) (σ : Bool) : Prop :=
  (v.session σ).listed = false ∧ v.state σ ≠ .established

def Pc.Goal : Pc π → Peer → Prop
  | .locked _ ref k, v => Runs ref k v
  | .await _ ref o _ k, v => (∀ σ ∈ o, v.Severed σ) ∧ Runs ref k (o.elim v v.drained)
  | .drain _ ref σ k, v => v.Severed σ ∧ Runs ref k (v.drained σ)
  | .shipping _ ref σ _ k, v => (v.session σ).life = .used ∧ Runs ref k v
  | _, _ => True

/-! ## What an action does to a session -/

/-- A session that can be found is not absent, and one that can be sent on is used. -/
structure Session.Coherent (x : Session) : Prop where
  listed : x.listed = true → x.life ≠ .absent
  used : x.state = .established → x.life = .used

structure Session.Grows (x y : Session) : Prop where
  alive : x.life ≠ .absent → y.life ≠ .absent
  index : x.life ≠ .absent → y.localIndex = x.localIndex
  used : x.life = .used → y.life = .used

theorem Session.Grows.refl (x : Session) : x.Grows x := ⟨id,fun _ => rfl,id⟩
def Peer.Coherent (v : Peer) : Prop := ∀ σ, (v.session σ).Coherent
def Peer.Grows (v w : Peer) : Prop := ∀ σ, (v.session σ).Grows (w.session σ)

section Effects
variable {v w : Peer} {σ : Bool} {ref : Option Bool} {a : Act}

theorem Peer.Grows.refl (v : Peer) : v.Grows v := fun σ => .refl (v.session σ)

theorem Peer.Coherent.set (h : v.Coherent) {x : Session} (hx : x.Coherent) :
    (v.set σ x).Coherent := by
  intro τ
  by_cases hτ : τ = σ
  · subst hτ
    simpa [Peer.set] using hx
  · simpa [Peer.set,hτ] using h τ

theorem Peer.Grows.set {x : Session} (hx : (v.session σ).Grows x) : v.Grows (v.set σ x) := by
  intro τ
  by_cases hτ : τ = σ
  · subst hτ
    simpa [Peer.set] using hx
  · simpa [Peer.set,hτ] using Session.Grows.refl _

theorem Peer.Coherent.drained (h : v.Coherent) (hσ : v.Severed σ) : (v.drained σ).Coherent :=
  h.set ⟨fun hl => by simp [hσ.1] at hl,fun he => absurd he hσ.2⟩

theorem Life.cleared_ne_absent {l : Life} (h : l ≠ .absent) : l.cleared ≠ .absent := by
  cases l <;> simp_all [cleared]

theorem Peer.Coherent.post (h : v.Coherent) (hpre : (contract ref).pre a v)
    (hpost : (contract ref).post a v w) : w.Coherent := by
  cases a with
  | thmapPut σ =>
    obtain ⟨i,rfl⟩ := hpost
    refine h.set ⟨by simp,fun he => ?_⟩
    have hused := (h σ).used he
    rw [show (v.session σ).life = .absent from hpre] at hused
    cases hused
  | quiesce o =>
    obtain rfl := hpost
    cases o with
    | none => exact h
    | some σ => exact h.drained (hpre σ rfl)
  | startHandshake =>
    obtain ⟨now,-,rfl⟩ := hpost
    exact h
  | thmapDel σ =>
    obtain rfl := hpost
    exact h.set ⟨by simp,(h σ).used⟩
  | zeroIndex σ | setInitiator σ =>
    obtain rfl := hpost
    exact h.set ⟨(h σ).listed,(h σ).used⟩
  | clearStates σ =>
    obtain rfl := hpost
    exact h.set ⟨fun hl => Life.cleared_ne_absent ((h σ).listed hl),
      fun he => absurd ((h σ).used he) hpre⟩
  | calculateKeys σ =>
    obtain rfl := hpost
    exact h.set ⟨by simp,fun he => absurd ((h σ).used he) hpre⟩
  | setState σ state =>
    obtain rfl := hpost
    refine h.set ⟨fun hl => ?_,fun he => if_pos he⟩
    by_cases he : state = .established
    · simp [he]
    · simpa [he] using (h σ).listed hl
  | assert | assertPending | publish | endHandshake | setMac1Valid | sendData =>
    obtain rfl := hpost
    exact h

theorem Peer.grows_post (hpre : (contract ref).pre a v) (hpost : (contract ref).post a v w)
    (hquiesce : ∀ σ, a ≠ .quiesce (some σ)) : v.Grows w := by
  cases a with
  | thmapPut σ =>
    obtain ⟨i,rfl⟩ := hpost
    have habsent : (v.session σ).life = .absent := hpre
    exact .set ⟨by simp,fun hl => absurd habsent hl,by simp [habsent]⟩
  | quiesce o =>
    obtain rfl := hpost
    cases o with
    | none => exact .refl v
    | some σ => exact absurd rfl (hquiesce σ)
  | startHandshake =>
    obtain ⟨now,-,rfl⟩ := hpost
    exact .refl v
  | thmapDel | setInitiator =>
    obtain rfl := hpost
    exact .set ⟨id,fun _ => rfl,id⟩
  | zeroIndex σ =>
    obtain rfl := hpost
    exact .set ⟨id,fun hl => absurd hpre hl,id⟩
  | clearStates σ =>
    obtain rfl := hpost
    exact .set ⟨Life.cleared_ne_absent,fun _ => rfl,fun hu => absurd hu hpre⟩
  | calculateKeys σ =>
    obtain rfl := hpost
    exact .set ⟨by simp,fun _ => rfl,fun hu => absurd hu hpre⟩
  | setState σ state =>
    obtain rfl := hpost
    refine .set ⟨fun hl => ?_,fun _ => rfl,fun hu => ?_⟩
    · by_cases he : state = .established <;> simp [he,hl]
    · by_cases he : state = .established <;> simp [he,hu]
  | assert | assertPending | publish | endHandshake | setMac1Valid | sendData =>
    obtain rfl := hpost
    exact fun _ => .refl _

end Effects

/-! ## The lock -/

/-- Who holds the lock of a peer can go on from what the peer is like, and a peer whose lock is
free is settled. -/
structure Disciplined (s : State θ π κ) : Prop where
  owner : ∀ t p, s.lock p = some t ↔ (s.thread t).holds = some p
  free : ∀ p, s.lock p = none → (s.peer p).Settled
  goal : ∀ t p, (s.thread t).holds = some p → (s.thread t).Goal (s.peer p)
  ready : ∀ t p ref k, s.thread t = .want p ref k → Resumes ref k

def Indexed (s : State θ π κ) : Prop :=
  ∀ i p σ, s.table i = some (p,σ) ↔
    ((s.peer p).session σ).listed = true ∧ ((s.peer p).session σ).localIndex = i

/-- The sessions a thread points or refers to are not absent, and it has found the index it
looked for. -/
structure Pc.Anchored (x : Pc π) (peer : π → Peer) : Prop where
  refer : ∀ p σ, x.refers = some (p,σ) → ((peer p).session σ).life ≠ .absent
  point : ∀ p σ, x.points = some (p,σ) → ((peer p).session σ).life ≠ .absent
  index : ∀ h i n p σ, x = .found h i n p σ → ((peer p).session σ).localIndex = i

structure Anchored (s : State θ π κ) : Prop where
  coherent : ∀ p, (s.peer p).Coherent
  thread : ∀ t, (s.thread t).Anchored s.peer

structure Sectioned (s : State θ π κ) : Prop where
  active : ∀ t n, (s.thread t).section? = some n → n ∈ s.active
  begun : ∀ t n, (s.thread t).section? = some n → n < s.sections
  apart : ∀ t u n, (s.thread t).section? = some n → (s.thread u).section? = some n → t = u

/-- A thread that waits for a session to be let go allows a pointer to it in the read section `n` if
it waits for this section, and none once it waits for references. -/
def Pc.Allows : Pc π → π → Bool → ℕ → Prop
  | .await p _ (some τ) snap _, q, σ, n => (q,σ) = (p,τ) → n ∈ snap
  | .drain p _ τ _, q, σ, _ => (q,σ) ≠ (p,τ)
  | _, _, _, _ => True

def Graced (s : State θ π κ) : Prop :=
  ∀ t u q σ n, (s.thread t).points = some (q,σ) → (s.thread t).section? = some n →
    (s.thread u).Allows q σ n

def Counted (s : State θ π κ) : Prop :=
  ∀ p σ, Tally s.thread (fun x => x.refers = some (p,σ)) (s.refs p σ)

variable [DecidableEq θ] [DecidableEq π] {s s' : State θ π κ} {t : θ} {p : π} {x : Pc π} {w : Peer}
  {σ : Bool}

/-- The thread `t` goes on to `x`, and the peer `p` becomes `w`. What has become of the table,
the keys and the log is left open. -/
structure Resumed (s : State θ π κ) (t : θ) (p : π) (x : Pc π) (w : Peer) (s' : State θ π κ) :
    Prop where
  thread : s'.thread = update s.thread t x
  peer : s'.peer = update s.peer p w
  lock : s'.lock = s.lock
  refs : s'.refs = s.refs
  active : s'.active = s.active
  sections : s'.sections = s.sections
  uptime : s'.uptime = s.uptime

/-- The thread `t` goes on to `x`, and the peers and the table stay. -/
structure Moved (s : State θ π κ) (t : θ) (x : Pc π) (s' : State θ π κ) : Prop where
  thread : s'.thread = update s.thread t x
  peer : s'.peer = s.peer
  table : s'.table = s.table
  uptime : s'.uptime = s.uptime

section
variable (h : Disciplined s)
include h

omit [DecidableEq π] in
theorem Disciplined.change (hthread : s'.thread = update s.thread t x)
    (howner : ∀ q, s'.lock q = some t ↔ x.holds = some q)
    (hothers : ∀ u ≠ t, ∀ q, s'.lock q = some u ↔ s.lock q = some u)
    (hpeer : ∀ u ≠ t, ∀ q, s.lock q = some u → s'.peer q = s.peer q)
    (hfree : ∀ q, s'.lock q = none → (s'.peer q).Settled)
    (hgoal : ∀ q, x.holds = some q → x.Goal (s'.peer q))
    (hready : ∀ q ref k, x = .want q ref k → Resumes ref k) : Disciplined s' := by
  refine ⟨?_,hfree,?_,?_⟩ <;> rw [hthread]
  · refine (forall_update_iff s.thread fun u y => ∀ q, s'.lock q = some u ↔ y.holds = some q).mpr
      ⟨howner,fun u hu q => ?_⟩
    rw [hothers u hu q,h.owner u q]
  · refine (forall_update_iff s.thread fun _ y => ∀ q, y.holds = some q → y.Goal (s'.peer q)).mpr
      ⟨hgoal,fun u hu q hq => ?_⟩
    rw [hpeer u hu q ((h.owner u q).mpr hq)]
    exact h.goal u q hq
  · exact (forall_update_iff s.thread
      fun _ y => ∀ q ref k, y = .want q ref k → Resumes ref k).mpr ⟨hready,fun u _ => h.ready u⟩

omit [DecidableEq θ] [DecidableEq π] in
theorem Disciplined.owner_unique (ht : (s.thread t).holds = some p) {u : θ}
    (hu : s.lock p = some u) : u = t :=
  Option.some.inj (hu.symm.trans ((h.owner t p).mpr ht))

theorem Disciplined.resumed (hr : Resumed s t p x w s') (ht : (s.thread t).holds = some p)
    (hx : x.holds = some p) (hgoal : x.Goal w) :
    Disciplined s' := by
  refine h.change hr.thread ?_ ?_ ?_ ?_ ?_ ?_
  · intro q
    rw [hr.lock,h.owner t q,ht,hx]
  · intro u _ q
    rw [hr.lock]
  · intro u hu q hq
    rw [hr.peer]
    refine update_of_ne ?_ ..
    rintro rfl
    exact hu (h.owner_unique ht hq)
  · intro q hq
    rw [hr.lock] at hq
    have hne : q ≠ p := by
      rintro rfl
      rw [(h.owner t q).mpr ht] at hq
      cases hq
    rw [hr.peer,update_of_ne hne]
    exact h.free q hq
  · intro q hq
    obtain rfl : p = q := Option.some.inj (hx.symm.trans hq)
    rwa [hr.peer,update_self]
  · rintro q ref k rfl
    cases hx

omit [DecidableEq π] in
theorem Disciplined.moved (hm : Moved s t x s') (hlock : s'.lock = s.lock)
    (ht : (s.thread t).holds = none) (hx : x.holds = none)
    (hready : ∀ q ref k, x = .want q ref k → Resumes ref k) : Disciplined s' := by
  refine h.change hm.thread ?_ ?_ ?_ ?_ ?_ hready
  · intro q
    rw [hlock,h.owner t q,ht,hx]
  · intro u _ q
    rw [hlock]
  · intro u _ q _
    rw [hm.peer]
  · intro q hq
    rw [hm.peer]
    exact h.free q (hlock ▸ hq)
  · intro q hq
    rw [hx] at hq
    cases hq

theorem Disciplined.lock {ref : Option Bool} {k : Section} (ht : s.thread t = .want p ref k)
    (hfree : s.lock p = none) (hm : Moved s t (.locked p ref k) s')
    (hlock : s'.lock = update s.lock p (some t)) : Disciplined s' := by
  have hnone : ∀ q, s.lock q ≠ some t := by
    intro q hq
    rw [h.owner t q,ht] at hq
    cases hq
  refine h.change hm.thread ?_ ?_ ?_ ?_ ?_ ?_
  · intro q
    rw [hlock]
    by_cases hq : q = p
    · simp [hq,Pc.holds]
    · simp [hq,Pc.holds,hnone q,Ne.symm hq]
  · intro u hu q
    rw [hlock]
    by_cases hq : q = p
    · simp [hq,hfree,Ne.symm hu]
    · rw [update_of_ne hq]
  · intro u _ q _
    rw [hm.peer]
  · intro q hq
    have hne : q ≠ p := by
      rintro rfl
      rw [hlock,update_self] at hq
      cases hq
    rw [hlock,update_of_ne hne] at hq
    rw [hm.peer]
    exact h.free q hq
  · intro q hq
    obtain rfl : p = q := Option.some.inj hq
    rw [hm.peer]
    exact h.ready t p ref k ht _ (h.free p hfree)
  · rintro q ref' k' hx
    cases hx

theorem Disciplined.unlock (ht : (s.thread t).holds = some p) (hm : Moved s t x s')
    (hx : x.holds = none) (hsettled : (s.peer p).Settled)
    (hready : ∀ q ref k, x = .want q ref k → Resumes ref k)
    (hlock : s'.lock = update s.lock p none) : Disciplined s' := by
  refine h.change hm.thread ?_ ?_ ?_ ?_ ?_ hready
  · intro q
    rw [hlock,hx]
    by_cases hq : q = p
    · simp [hq]
    · simp [hq,h.owner t q,ht,Ne.symm hq]
  · intro u hu q
    rw [hlock]
    by_cases hq : q = p
    · subst hq
      simpa using fun hl => hu (h.owner_unique ht hl)
    · rw [update_of_ne hq]
  · intro u _ q _
    rw [hm.peer]
  · intro q hq
    rw [hm.peer]
    by_cases hqp : q = p
    · exact hqp ▸ hsettled
    · rw [hlock,update_of_ne hqp] at hq
      exact h.free q hq
  · intro q hq
    rw [hx] at hq
    cases hq

end

/-! ## The table -/

section

variable {σ : Bool}

omit [DecidableEq θ]

theorem session_of_update {y : Session} (hpeer : s'.peer = update s.peer p ((s.peer p).set σ y))
    (q : π) (τ : Bool) :
    (s'.peer q).session τ = if (q,τ) = (p,σ) then y else (s.peer q).session τ := by
  rw [hpeer]
  by_cases hq : q = p
  · subst hq
    by_cases hτ : τ = σ <;> simp [Peer.set,hτ]
  · simp [hq]

theorem Indexed.resumed (h : Indexed s) (htable : s'.table = s.table)
    (hpeer : s'.peer = update s.peer p w)
    (hlisted : ∀ σ, (w.session σ).listed = ((s.peer p).session σ).listed)
    (hindex : ∀ σ, (w.session σ).listed = true →
      (w.session σ).localIndex = ((s.peer p).session σ).localIndex) : Indexed s' := by
  intro i q σ
  rw [htable,hpeer]
  by_cases hq : q = p
  · subst hq
    rw [h i q σ,update_self,← hlisted σ]
    exact and_congr_right fun hl => by rw [hindex σ hl]
  · rw [update_of_ne hq]
    exact h i q σ

theorem Indexed.put (h : Indexed s) {i : UInt32} (hfree : s.table i = none)
    (hσ : ((s.peer p).session σ).listed = false) (htable : s'.table = update s.table i (some (p,σ)))
    (hpeer : s'.peer = update s.peer p ((s.peer p).link σ i)) : Indexed s' := by
  intro j q τ
  rw [htable,session_of_update hpeer]
  by_cases hx : (q,τ) = (p,σ)
  · obtain ⟨rfl,rfl⟩ := Prod.mk.inj hx
    have hno := h j q τ
    by_cases hj : j = i
    · simp [hj]
    · simpa [hj,hσ,Ne.symm hj] using hno
  · rw [if_neg hx,← h j q τ]
    by_cases hj : j = i
    · subst hj
      simpa [hfree,eq_comm] using hx
    · rw [update_of_ne hj]

theorem Indexed.del (h : Indexed s)
    (hentry : s.table ((s.peer p).session σ).localIndex = some (p,σ))
    (htable : s'.table = update s.table ((s.peer p).session σ).localIndex none)
    (hpeer : s'.peer = update s.peer p (Act.apply (.thmapDel σ) (s.peer p))) : Indexed s' := by
  intro j q τ
  rw [htable,session_of_update hpeer]
  by_cases hj : j = ((s.peer p).session σ).localIndex
  · rw [hj,update_self]
    by_cases hx : (q,τ) = (p,σ)
    · simp [hx]
    · rw [if_neg hx,← h _ q τ,hentry]
      simpa [eq_comm] using hx
  · rw [update_of_ne hj,h j q τ]
    by_cases hx : (q,τ) = (p,σ)
    · cases hx
      simp [Ne.symm hj]
    · rw [if_neg hx]

end

omit [DecidableEq π] in
theorem Indexed.moved (h : Indexed s) (hm : Moved s t x s') : Indexed s' := by
  intro i q σ
  rw [hm.table,hm.peer]
  exact h i q σ

/-! ## References -/

omit [DecidableEq θ] in
theorem update_update_of_ne {α : Type} (f : π → Bool → α) {q : π} {τ : Bool} (y : α)
    (h : (q,τ) ≠ (p,σ)) : update f p (update (f p) σ y) q τ = f q τ := by
  by_cases hq : q = p
  · subst hq
    have hτ : τ ≠ σ := fun he => h (by rw [he])
    simp [hτ]
  · simp [hq]

section Counted
variable (h : Counted s) (hthread : s'.thread = update s.thread t x)
include h hthread

omit [DecidableEq π] in
theorem Counted.keep
    (hrefs : s'.refs = s.refs) (hx : x.refers = (s.thread t).refers) : Counted s' := by
  intro q τ
  rw [hthread,hrefs]
  exact (h q τ).keep (by rw [hx])

theorem Counted.acquire (hrefs : s'.refs = update s.refs p (update (s.refs p) σ (s.refs p σ + 1)))
    (ht : (s.thread t).refers = none) (hx : x.refers = some (p,σ)) : Counted s' := by
  intro q τ
  rw [hthread,hrefs]
  by_cases hq : (q,τ) = (p,σ)
  · obtain ⟨rfl,rfl⟩ := Prod.mk.inj hq
    simpa using (h q τ).join hx (by simp [ht])
  · rw [update_update_of_ne s.refs _ hq]
    exact (h q τ).keep (by simpa [hx,ht,eq_comm] using hq)

theorem Counted.release (hrefs : s'.refs = update s.refs p (update (s.refs p) σ (s.refs p σ - 1)))
    (ht : (s.thread t).refers = some (p,σ)) (hx : x.refers = none) : Counted s' := by
  intro q τ
  rw [hthread,hrefs]
  by_cases hq : (q,τ) = (p,σ)
  · obtain ⟨rfl,rfl⟩ := Prod.mk.inj hq
    simpa using (h q τ).quit (by simp [hx]) ht
  · rw [update_update_of_ne s.refs _ hq]
    exact (h q τ).keep (by simpa [hx,ht,eq_comm] using hq)

end Counted

/-! ## Pointers -/

section

omit [DecidableEq π]

theorem Pc.points_of_holds (hx : x.holds = some p) : x.points = none := by
  cases x <;> first | rfl | cases hx

theorem Pc.section?_of_holds (hx : x.holds = some p) : x.section? = none := by
  cases x <;> first | rfl | cases hx

theorem Pc.allows_of_points {y : π × Bool} (hx : x.points = some y) (q : π) (σ : Bool) (n : ℕ) :
    x.Allows q σ n := by
  cases x <;> trivial

variable {peer : π → Peer}

theorem Pc.Anchored.grows (h : x.Anchored peer) {peer' : π → Peer}
    (hgrows : ∀ q, (peer q).Grows (peer' q)) : x.Anchored peer' where
  refer q σ hq := (hgrows q σ).alive (h.refer q σ hq)
  point q σ hq := (hgrows q σ).alive (h.point q σ hq)
  index a i n q σ hq :=
    ((hgrows q σ).index (h.point q σ (by rw [hq]; rfl))).trans (h.index a i n q σ hq)

theorem Anchored.moved (h : Anchored s) (hm : Moved s t x s') (hx : x.Anchored s.peer) :
    Anchored s' := by
  refine ⟨fun q => hm.peer ▸ h.coherent q,?_⟩
  rw [hm.thread,hm.peer]
  exact (forall_update_iff s.thread fun _ y => y.Anchored s.peer).mpr
    ⟨hx,fun u _ => h.thread u⟩

theorem Pc.Anchored.holder {y : Pc π} (h : y.Anchored peer) (hx : x.holds = some p)
    (href : x.refers = y.refers) : x.Anchored peer where
  refer q σ hq := h.refer q σ (href ▸ hq)
  point q σ hq := by
    rw [Pc.points_of_holds hx] at hq
    cases hq
  index a i n q σ hq := by
    rw [hq] at hx
    cases hx

end

theorem Anchored.resumed (h : Anchored s) (hr : Resumed s t p x w s') (hx : x.holds = some p)
    (href : x.refers = (s.thread t).refers) (hcoherent : w.Coherent)
    (hgrows : (s.peer p).Grows w) : Anchored s' := by
  have hall : ∀ q, (s.peer q).Grows (update s.peer p w q) :=
    (forall_update_iff s.peer fun q v => (s.peer q).Grows v).mpr
      ⟨hgrows,fun q _ => .refl _⟩
  refine ⟨?_,?_⟩ <;> rw [hr.peer]
  · exact (forall_update_iff s.peer fun _ v => v.Coherent).mpr
      ⟨hcoherent,fun q _ => h.coherent q⟩
  · rw [hr.thread]
    exact (forall_update_iff s.thread fun _ y => y.Anchored _).mpr
      ⟨((h.thread t).holder hx href).grows hall,fun u _ => (h.thread u).grows hall⟩

section

omit [DecidableEq π]

theorem Graced.change (h : Graced s) (hthread : s'.thread = update s.thread t x)
    (hpoint : ∀ u ≠ t, ∀ q σ n, x.points = some (q,σ) → x.section? = some n →
      (s.thread u).Allows q σ n) (hwait : ∀ u ≠ t, ∀ q σ n, (s.thread u).points = some (q,σ) →
      (s.thread u).section? = some n → x.Allows q σ n) : Graced s' := by
  intro u v q σ n hu hn
  rw [hthread] at hu hn ⊢
  by_cases hut : u = t <;> by_cases hvt : v = t
  · subst hut hvt
    rw [update_self] at hu ⊢
    exact Pc.allows_of_points hu q σ n
  · subst hut
    rw [update_self] at hu hn
    rw [update_of_ne hvt]
    exact hpoint v hvt q σ n hu hn
  · subst hvt
    rw [update_of_ne hut] at hu hn
    rw [update_self]
    exact hwait u hut q σ n hu hn
  · rw [update_of_ne hut] at hu hn
    rw [update_of_ne hvt]
    exact h u v q σ n hu hn

variable (h : Sectioned s) (hthread : s'.thread = update s.thread t x)
include h hthread

theorem Sectioned.change (hactive : ∀ u ≠ t, ∀ n, (s.thread u).section? = some n → n ∈ s'.active)
    (hbegun : s.sections ≤ s'.sections) (hx : ∀ n, x.section? = some n →
      n ∈ s'.active ∧ n < s'.sections ∧ ∀ u ≠ t, (s.thread u).section? ≠ some n) :
    Sectioned s' := by
  refine ⟨?_,?_,?_⟩ <;> rw [hthread]
  · exact (forall_update_iff s.thread fun _ y => ∀ n, y.section? = some n → n ∈ s'.active).mpr
      ⟨fun n hn => (hx n hn).1,hactive⟩
  · exact (forall_update_iff s.thread fun _ y => ∀ n, y.section? = some n → n < s'.sections).mpr
      ⟨fun n hn => (hx n hn).2.1,fun u _ n hn => (h.begun u n hn).trans_le hbegun⟩
  · intro u v n hu hv
    by_cases hut : u = t <;> by_cases hvt : v = t
    · rw [hut,hvt]
    · subst hut
      rw [update_self] at hu
      rw [update_of_ne hvt] at hv
      exact absurd hv ((hx n hu).2.2 v hvt)
    · subst hvt
      rw [update_of_ne hut] at hu
      rw [update_self] at hv
      exact absurd hu ((hx n hv).2.2 u hut)
    · rw [update_of_ne hut] at hu
      rw [update_of_ne hvt] at hv
      exact h.apart u v n hu hv

theorem Sectioned.stay (hactive : s'.active = s.active) (hsections : s'.sections = s.sections)
    (hx : x.section? = (s.thread t).section?) : Sectioned s' := by
  refine h.change hthread ?_ hsections.ge fun n hn => ?_
  · exact fun u _ n hn => hactive ▸ h.active u n hn
  · rw [hx] at hn
    exact ⟨hactive ▸ h.active t n hn,hsections ▸ h.begun t n hn,
      fun u hu hun => hu (h.apart u t n hun hn)⟩

theorem Sectioned.leave {n : ℕ} (hactive : s'.active = s.active.filter (· ≠ n))
    (hsections : s'.sections = s.sections) (ht : (s.thread t).section? = some n)
    (hx : x.section? = none) : Sectioned s' := by
  refine h.change hthread ?_ hsections.ge fun m hm => ?_
  · intro u hu m hm
    have hne : m ≠ n := by
      rintro rfl
      exact hu (h.apart u t m hm ht)
    rw [hactive]
    exact List.mem_filter.mpr ⟨h.active u m hm,by simpa using hne⟩
  · rw [hx] at hm
    cases hm

theorem Sectioned.enter (hactive : s'.active = s.sections :: s.active)
    (hsections : s'.sections = s.sections + 1)
    (hx : x.section? = some s.sections) : Sectioned s' := by
  refine h.change hthread ?_ (by omega) fun n hn => ?_
  · exact fun u _ n hn => hactive ▸ List.mem_cons_of_mem _ (h.active u n hn)
  · obtain rfl : s.sections = n := Option.some.inj (hx.symm.trans hn)
    refine ⟨hactive ▸ List.mem_cons_self,by omega,fun u _ hun => ?_⟩
    exact absurd (h.begun u s.sections hun) (lt_irrefl _)

end
end NanoBSD.Wg.Sessions
