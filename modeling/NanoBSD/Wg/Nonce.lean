import NanoBSD.Lib.Nonce
import NanoBSD.Wg.Settled

/-! # No counter is used twice under a key

The slots of all peers as the slots of a `Book`: a slot is open from the time its session is
established until its references have drained. Whoever takes a counter of a session without the
lock got to it when it was established and has kept it since by a pointer in a read section or by
a reference, so the slot has not been given another key meanwhile.
-/
namespace NanoBSD.Wg.Sessions
open Function
variable {θ π κ : Type}

def Life.phase : Life → Phase
  | .absent | .linked => .blank
  | .keyed => .keyed
  | .ready => .ready
  | .used => .used

theorem Life.phase_cleared (l : Life) :
    l.cleared.phase = if l.phase = .keyed then .ready else l.phase := by
  cases l <;> rfl

def Pc.taken? : Pc π → Option ((π × Bool) × ℕ)
  | .sending p σ c | .shipping p _ σ c _ => some ((p,σ),c)
  | _ => none

def Pc.sends? : Pc π → Option (π × Bool)
  | .checked _ p σ | .sender p σ | .sending p σ _ => some (p,σ)
  | _ => none

def State.book (s : State θ π κ) : Book (π × Bool) θ κ where
  phase y := ((s.peer y.1).session y.2).life.phase
  key y := (s.keys y.1 y.2).tkeySend
  counter y := (s.keys y.1 y.2).sendCounter
  token t := (s.thread t).taken?
  given := s.derived
  log := s.log

def Sends (s : State θ π κ) : Prop :=
  ∀ t y, (s.thread t).sends? = some y → ((s.peer y.1).session y.2).life = .used

def Pc.takes? : Pc π → Input κ → Option (π × Bool)
  | .sender p σ, .answer true => some (p,σ)
  | .locked p _ (.act (.sendData σ) _), .go => some (p,σ)
  | _, _ => none

def Input.key? : Input κ → Option κ
  | .key c => some c
  | _ => none

/-- A key that is derived is new, and a counter that is taken does not come round: fewer than
`2^64` messages are sent under it. -/
def Fits (s : State θ π κ) : Event θ π κ → Prop
  | .step t x =>
    (∀ y ∈ (s.thread t).takes? x, (s.keys y.1 y.2).sendCounter + 1 < 2^64) ∧
      ∀ c ∈ x.key?, c ∉ s.derived
  | .tick | .call _ _ => True

instance [DecidableEq κ] (s : State θ π κ) : (e : Event θ π κ) → Decidable (Fits s e)
  | .step t x =>
    have : Decidable (∀ y ∈ (s.thread t).takes? x, (s.keys y.1 y.2).sendCounter + 1 < 2^64) :=
      inferInstance
    have : Decidable (∀ c ∈ x.key?, c ∉ s.derived) := inferInstance
    inferInstanceAs (Decidable (_ ∧ _))
  | .tick | .call _ _ => isTrue trivial

variable [DecidableEq θ] [DecidableEq π] {s s' : State θ π κ} {t : θ} {p : π} {x : Pc π} {σ : Bool}
variable {ref : Option Bool} {k : Section} {a : Act} {y : Session} {w : Peer} {e : Input κ}

/-! ## The book -/

omit [DecidableEq θ] in
theorem book_phase (hpeer : s'.peer = update s.peer p ((s.peer p).set σ y)) :
    s'.book.phase = update s.book.phase (p,σ) y.life.phase := by
  funext z
  simp only [State.book,session_of_update hpeer,update_apply]
  split <;> rfl

omit [DecidableEq π] in
theorem book_token (hthread : s'.thread = update s.thread t x) :
    s'.book.token = update s.book.token t x.taken? := by
  funext u
  simp only [State.book,hthread,update_apply]
  split <;> rfl

omit [DecidableEq θ] in
theorem book_key {y : Keys κ} (hkeys : s'.keys = update s.keys p (update (s.keys p) σ y)) :
    s'.book.key = update s.book.key (p,σ) y.tkeySend ∧
      s'.book.counter = update s.book.counter (p,σ) y.sendCounter := by
  have hsame (z : π × Bool) : s'.keys z.1 z.2 = if z = (p,σ) then y else s.keys z.1 z.2 := by
    rw [hkeys]
    by_cases hz : z = (p,σ)
    · simp [hz]
    · rw [update_update_of_ne s.keys y hz,if_neg hz]
  constructor <;> funext z <;> simp only [State.book,hsame,update_apply] <;> split <;> rfl

omit [DecidableEq π] in
theorem book_token_keep (hthread : s'.thread = update s.thread t x)
    (hx : x.taken? = (s.thread t).taken?) : s'.book.token = s.book.token := by
  rw [book_token hthread,hx]
  exact update_eq_self ..

def Peer.SamePhase (v w : Peer) : Prop :=
  ∀ σ, (w.session σ).life.phase = (v.session σ).life.phase

omit [DecidableEq θ] in
theorem book_phase_keep (hpeer : s'.peer = update s.peer p w)
    (hw : (s.peer p).SamePhase w) : s'.book.phase = s.book.phase := by
  funext z
  simp only [State.book,hpeer]
  by_cases hz : z.1 = p
  · rw [hz,update_self]
    exact hw z.2
  · rw [update_of_ne hz]

omit [DecidableEq θ] [DecidableEq π] in
theorem Peer.samePhase_set {v : Peer}
    (hy : y.life.phase = (v.session σ).life.phase) : v.SamePhase (v.set σ y) := by
  intro τ
  by_cases hτ : τ = σ <;> simp [Peer.set,hτ,hy]

/-! ## Steps -/

omit [DecidableEq π] in
theorem Sends.change (h : Sends s) (hthread : s'.thread = update s.thread t x)
    (hkeep : ∀ u ≠ t, ∀ y, (s.thread u).sends? = some y →
      ((s.peer y.1).session y.2).life = .used → ((s'.peer y.1).session y.2).life = .used)
    (hx : ∀ y, x.sends? = some y → ((s'.peer y.1).session y.2).life = .used) : Sends s' := by
  unfold Sends
  rw [hthread]
  exact (Function.forall_update_iff s.thread fun _ z => ∀ y, z.sends? = some y →
    ((s'.peer y.1).session y.2).life = .used).mpr
      ⟨hx,fun u hu y hy => hkeep u hu y hy (h u y hy)⟩

omit [DecidableEq π] in
theorem Sends.moved (h : Sends s) (hthread : s'.thread = update s.thread t x)
    (hpeer : s'.peer = s.peer)
    (hx : ∀ y, x.sends? = some y → ((s.peer y.1).session y.2).life = .used) : Sends s' := by
  refine h.change hthread ?_ ?_ <;> rw [hpeer]
  · exact fun _ _ _ _ hu => hu
  · exact hx

theorem Sends.resumed (h : Sends s) (hthread : s'.thread = update s.thread t x)
    (hpeer : s'.peer = update s.peer p w) (hgrows : (s.peer p).Grows w)
    (hx : x.sends? = none) : Sends s' := by
  refine h.change hthread ?_ (by simp [hx])
  intro u _ y _ hy
  rw [hpeer]
  by_cases hp : y.1 = p
  · rw [hp] at hy ⊢
    rw [update_self]
    exact (hgrows y.2).used hy
  · rwa [update_of_ne hp]

structure Fresh (s : State θ π κ) : Prop where
  sends : Sends s
  book : s.book.Inv

theorem Fresh.resumed (h : Fresh s) (hthread : s'.thread = update s.thread t x)
    (hpeer : s'.peer = update s.peer p w) (hgrows : (s.peer p).Grows w)
    (hphase : (s.peer p).SamePhase w) (hx : x.sends? = none)
    (htaken : x.taken? = (s.thread t).taken?) (hkeys : s'.keys = s.keys)
    (hderived : s'.derived = s.derived) (hlog : s'.log = s.log) : Fresh s' := by
  refine ⟨h.sends.resumed hthread hpeer hgrows hx,?_⟩
  have hbook : s'.book = s.book := Book.ext (book_phase_keep hpeer hphase)
    (by simp only [State.book,hkeys]) (by simp only [State.book,hkeys])
    (book_token_keep hthread htaken) hderived hlog
  exact hbook ▸ h.book

section Moved
variable (h : Fresh s) (hthread : s'.thread = update s.thread t x) (hpeer : s'.peer = s.peer)
  (hx : ∀ y, x.sends? = some y → ((s.peer y.1).session y.2).life = .used)
include h hthread hpeer hx

omit [DecidableEq π] in
theorem Fresh.moved (htaken : x.taken? = (s.thread t).taken?) (hkeys : s'.keys = s.keys)
    (hderived : s'.derived = s.derived) (hlog : s'.log = s.log) : Fresh s' := by
  refine ⟨h.sends.moved hthread hpeer hx,?_⟩
  have hbook : s'.book = s.book := Book.ext (by simp only [State.book,hpeer])
    (by simp only [State.book,hkeys]) (by simp only [State.book,hkeys])
    (book_token_keep hthread htaken) hderived hlog
  exact hbook ▸ h.book

theorem Fresh.take (hused : ((s.peer p).session σ).life = .used)
    (hbound : (s.keys p σ).sendCounter + 1 < 2^64)
    (htaken : x.taken? = some ((p,σ),(s.keys p σ).sendCounter))
    (hkeys : s'.keys = (s.incSendCounter p σ).keys) (hderived : s'.derived = s.derived)
    (hlog : s'.log = s.log) : Fresh s' := by
  refine ⟨h.sends.moved hthread hpeer hx,?_⟩
  obtain ⟨hkey,hcounter⟩ := book_key hkeys
  have hbook : s'.book = s.book.take t (p,σ) := by
    refine Book.ext (by simp only [State.book,hpeer]; rfl) ?_ ?_ ?_ hderived hlog
    · rw [hkey]
      exact update_eq_self ..
    · rw [hcounter,Nat.mod_eq_of_lt hbound]
      rfl
    · rw [book_token hthread,htaken]
      rfl
  rw [hbook]
  refine h.book.take ?_
  simp only [State.book,hused,Life.phase]

omit [DecidableEq π] in
theorem Fresh.encrypt {c : ℕ} (ht : (s.thread t).taken? = some ((p,σ),c)) (htaken : x.taken? = none)
    (hkeys : s'.keys = s.keys) (hderived : s'.derived = s.derived)
    (hlog : s'.log = ((s.keys p σ).tkeySend,c) :: s.log) : Fresh s' := by
  refine ⟨h.sends.moved hthread hpeer hx,?_⟩
  have hbook : s'.book = s.book.spend t (p,σ) c := by
    refine Book.ext (by simp only [State.book,hpeer]; rfl) (by simp only [State.book,hkeys]; rfl)
      (by simp only [State.book,hkeys]; rfl) ?_ hderived hlog
    rw [book_token hthread,htaken]
    rfl
  rw [hbook]
  exact h.book.spend ht

end Moved

theorem Fresh.entry (h : Fresh s) {z : Keys κ} {b : Book (π × Bool) θ κ}
    (hthread : s'.thread = update s.thread t x)
    (hpeer : s'.peer = update s.peer p ((s.peer p).set σ y))
    (hgrows : (s.peer p).Grows ((s.peer p).set σ y)) (hx : x.sends? = none)
    (htaken : x.taken? = (s.thread t).taken?) (hb : b.Inv)
    (hphase : b.phase = update s.book.phase (p,σ) y.life.phase)
    (hkeys : s'.keys = update s.keys p (update (s.keys p) σ z))
    (hkey : b.key = update s.book.key (p,σ) z.tkeySend)
    (hcounter : b.counter = update s.book.counter (p,σ) z.sendCounter)
    (htoken : b.token = s.book.token) (hderived : s'.derived = b.given) (hlog : s'.log = b.log) :
    Fresh s' := by
  refine ⟨h.sends.resumed hthread hpeer hgrows hx,?_⟩
  have hbook : s'.book = b := Book.ext ((book_phase hpeer).trans hphase.symm)
    ((book_key hkeys).1.trans hkey.symm) ((book_key hkeys).2.trans hcounter.symm)
    ((book_token_keep hthread htaken).trans htoken.symm) hderived hlog
  exact hbook ▸ hb

omit [DecidableEq θ] [DecidableEq π] in
theorem Life.phase_ne_used {l : Life} (hl : l ≠ .used) : l.phase ≠ .used := by
  cases l <;> simp_all [Life.phase]

theorem Fresh.act (h : Fresh s) (hinv : Inv s) (ht : s.thread t = .locked p ref (.act a k))
    (hfits : Fits s (.step t e)) (hstep : s.act t p ref k a e = some s') : Fresh s' := by
  obtain ⟨hpre,hk⟩ := hinv.runs ht
  have htaken : (Pc.locked p ref k).taken? = (s.thread t).taken? := by rw [ht]; rfl
  have hstay : Fresh (s.setThread t (.locked p ref k)) :=
    h.moved rfl rfl (by simp [Pc.sends?]) htaken rfl rfl rfl
  -- an action that changes a session, but not as far as the book is concerned
  have hplain {u : State θ π κ} {w : Peer}
      (hthread : u.thread = update s.thread t (.locked p ref k))
      (hpeer : u.peer = update s.peer p w)
      (hpost : (contract ref).post a (s.peer p) w) (hquiesce : ∀ σ, a ≠ .quiesce (some σ))
      (hphase : (s.peer p).SamePhase w) (hkeys : u.keys = s.keys)
      (hderived : u.derived = s.derived) (hlog : u.log = s.log) : Fresh u :=
    h.resumed hthread hpeer (Peer.grows_post hpre hpost hquiesce) hphase rfl htaken hkeys hderived
      hlog
  cases a <;> cases e <;> try cases hstep
  case assert.go site f =>
    have hf : f (s.peer p) = true := hpre
    rw [if_pos hf]
    exact hstay
  case assertPending.go σ =>
    split
    · exact hstay
    · exact ⟨h.sends,h.book⟩
  case thmapPut.index σ i =>
    have habsent : ((s.peer p).session σ).life = .absent := hpre
    split
    · exact hplain rfl rfl ⟨i,rfl⟩ (by simp) (Peer.samePhase_set (by rw [habsent]; rfl)) rfl rfl rfl
    · refine h.resumed (update_eq_self t s.thread).symm rfl ?_ (Peer.samePhase_set rfl)
        (by rw [ht]; rfl) rfl rfl rfl rfl
      exact .set ⟨id,fun hl => absurd habsent hl,id⟩
  case thmapDel.go σ =>
    simp only [if_pos ((hinv.table _ p σ).mpr ⟨hpre,rfl⟩)]
    exact hplain rfl rfl rfl (by simp) (Peer.samePhase_set rfl) rfl rfl rfl
  case quiesce.go o => exact h.moved rfl rfl (by simp [Pc.sends?]) (by rw [ht]; rfl) rfl rfl rfl
  case zeroIndex.go | setInitiator.go =>
    exact hplain rfl rfl rfl (by simp) (Peer.samePhase_set rfl) rfl rfl rfl
  case publish.go σ | endHandshake.go | setMac1Valid.go b =>
    exact hplain rfl rfl rfl (by simp) (fun _ => rfl) rfl rfl rfl
  case startHandshake.go =>
    exact hplain rfl rfl ⟨s.uptime,hinv.clock,rfl⟩ (by simp) (fun _ => rfl) rfl rfl rfl
  case clearStates.go σ =>
    refine h.entry rfl rfl (Peer.grows_post hpre rfl (by simp)) rfl htaken
      (h.book.reset (i := (p,σ)) (Life.phase_ne_used hpre)) ?_ rfl ?_ rfl rfl rfl rfl
    · exact congrArg (update s.book.phase (p,σ)) (Life.phase_cleared _).symm
    · exact (update_eq_self ..).symm
  case calculateKeys.key σ c =>
    refine h.entry rfl rfl (Peer.grows_post hpre rfl (by simp)) rfl htaken
      (h.book.give (i := (p,σ)) (Life.phase_ne_used hpre) (hfits.2 c rfl)) rfl rfl rfl ?_ rfl rfl rfl
    exact (update_eq_self ..).symm
  case setState.go σ state =>
    by_cases hstate : state = .established
    · have hready : ((s.peer p).session σ).life = .ready := hpre hstate
      subst hstate
      exact h.entry (z := s.keys p σ) rfl rfl (Peer.grows_post hpre rfl (by simp)) rfl htaken
        (h.book.start (i := (p,σ)) (by simp only [State.book,hready,Life.phase])) rfl
        (by simp [State.setPeer,State.setThread]) (update_eq_self ..).symm
        (update_eq_self ..).symm rfl rfl rfl
    · refine hplain rfl rfl rfl (by simp) (Peer.samePhase_set ?_) rfl rfl rfl
      simp only [if_neg hstate]
  case sendData.go σ =>
    exact h.take rfl rfl (by simp [Pc.sends?]) hpre (hfits.1 (p,σ) (by rw [ht]; rfl)) rfl rfl rfl rfl

theorem Fresh.drain (h : Fresh s) (hinv : Inv s) (ht : s.thread t = .drain p ref σ k)
    (hrefs : s.refs p σ = 0) :
    Fresh ((s.setPeer p ((s.peer p).drained σ)).setThread t (.locked p ref k)) := by
  have hheld : (s.thread t).holds = some p := by rw [ht]; rfl
  have hrefer (u : θ) : (s.thread u).refers ≠ some (p,σ) := by
    intro hu
    exact (hinv.count p σ).not_zero hu hrefs
  have hfree (u : θ) (c : ℕ) : (s.thread u).taken? ≠ some ((p,σ),c) := by
    intro hu
    cases hx : s.thread u <;> rw [hx] at hu <;> cases hu
    case sending => exact hrefer u (by rw [hx]; rfl)
    case shipping =>
      -- it would hold the lock as well
      obtain rfl := hinv.lock.owner_unique hheld ((hinv.lock.owner u p).mpr (by rw [hx]; rfl))
      rw [hx] at ht
      cases ht
  have hsends (u : θ) : (s.thread u).sends? ≠ some (p,σ) := by
    intro hu
    cases hx : s.thread u <;> rw [hx] at hu <;> cases hu
    case checked n =>
      have hallows := hinv.grace u t p σ n (by rw [hx]; rfl) (by rw [hx]; rfl)
      rw [ht] at hallows
      exact hallows rfl
    all_goals exact hrefer u (by rw [hx]; rfl)
  refine ⟨h.sends.change rfl ?_ (by simp [Pc.sends?]),?_⟩
  · intro u _ y hu hy
    have hne : y ≠ (p,σ) := fun he => hsends u (he ▸ hu)
    rw [session_of_update rfl,if_neg hne]
    exact hy
  · obtain ⟨s',hs'⟩ : ∃ s', s' = (s.setPeer p ((s.peer p).drained σ)).setThread t (.locked p ref k) :=
      ⟨_,rfl⟩
    have hpeer : s'.peer = update s.peer p ((s.peer p).drained σ) := by rw [hs']; rfl
    have hthread : s'.thread = update s.thread t (.locked p ref k) := by rw [hs']; rfl
    have hbook : s'.book = s.book.close (p,σ) :=
      Book.ext (book_phase hpeer) (by rw [hs']; rfl) (by rw [hs']; rfl)
        (book_token_keep hthread (by rw [ht]; rfl)) (by rw [hs']; rfl) (by rw [hs']; rfl)
    rw [← hs',hbook]
    exact h.book.close hfree

theorem Fresh.advance_holder (h : Fresh s) (hinv : Inv s) (hfits : Fits s (.step t e))
    (ht : (s.thread t).holds = some p)
    (hstep : s.advance t (s.thread t) e = some s') : Fresh s' := by
  generalize hx : s.thread t = z at hstep
  have hz : z.holds = some p := hx ▸ ht
  have htaken : z.taken? = (s.thread t).taken? := congrArg Pc.taken? hx.symm
  cases z with
  | locked q ref k =>
    cases k with
    | act a k => exact h.act hinv hx hfits hstep
    | done =>
      cases e <;> try cases hstep
      cases ref <;> exact h.moved rfl rfl (by simp [Pc.sends?]) htaken rfl rfl rfl
    | _ =>
      cases e <;> try cases hstep
      exact h.moved rfl rfl (by simp [Pc.sends?]) htaken rfl rfl rfl
  | await q ref o snap k =>
    cases e <;> try cases hstep
    obtain ⟨-,rfl⟩ := of_guard hstep
    cases o <;> exact h.moved rfl rfl (by simp [Pc.sends?]) htaken rfl rfl rfl
  | drain q ref σ k =>
    cases e <;> try cases hstep
    obtain ⟨hrefs,rfl⟩ := of_guard hstep
    exact h.drain hinv hx hrefs
  | shipping q ref σ c k =>
    cases e <;> try cases hstep
    exact h.encrypt rfl rfl (by simp [Pc.sends?]) htaken.symm rfl rfl rfl rfl
  | _ => cases hz

omit [DecidableEq θ] [DecidableEq π] in
theorem Pc.received_taken (p : π) (σ : Bool) (a : Handler) :
    (State.received p σ a).taken? = none ∧ (State.received p σ a).sends? = none := by
  cases a <;> exact ⟨rfl,rfl⟩

theorem Fresh.advance_free (h : Fresh s) (hinv : Inv s) (hfits : Fits s (.step t e))
    (ht : (s.thread t).holds = none) (hstep : s.advance t (s.thread t) e = some s') : Fresh s' := by
  have hsends := h.sends t
  generalize hx : s.thread t = z at hstep hsends
  have hz : z.holds = none := hx ▸ ht
  have htaken : z.taken? = (s.thread t).taken? := congrArg Pc.taken? hx.symm
  cases z <;> cases e <;> try cases hstep
  case lookup.go =>
    split <;> exact h.moved rfl rfl (by simp [Pc.sends?]) htaken rfl rfl rfl
  case found.go a i n q τ =>
    obtain ⟨hnone,hsent⟩ := Pc.received_taken q τ a
    split
    · exact h.moved rfl rfl (by simp [hsent]) (hnone.trans htaken) rfl rfl rfl
    · exact ⟨h.sends,h.book⟩
  case load.go | held.go => exact h.moved rfl rfl (by simp [Pc.sends?]) htaken rfl rfl rfl
  case loaded.go n q τ =>
    split
    · rename_i hest
      refine h.moved rfl rfl ?_ htaken rfl rfl rfl
      rintro _ ⟨⟩
      exact (hinv.anchor.coherent q τ).used hest
    · exact h.moved rfl rfl (by simp [Pc.sends?]) htaken rfl rfl rfl
  case checked.go n q τ => exact h.moved rfl rfl hsends htaken rfl rfl rfl
  case sender.answer q τ b =>
    cases b with
    | true =>
      exact h.take rfl rfl hsends (hsends _ rfl) (hfits.1 (q,τ) (by rw [hx]; rfl)) rfl rfl rfl rfl
    | false => exact h.moved rfl rfl (by simp [Pc.sends?]) htaken rfl rfl rfl
  case sending.go q τ c =>
    exact h.encrypt rfl rfl (by simp [Pc.sends?]) htaken.symm rfl rfl rfl rfl
  case want.go q ref k =>
    obtain ⟨-,rfl⟩ := of_guard hstep
    exact h.moved rfl rfl (by simp [Pc.sends?]) htaken rfl rfl rfl
  all_goals cases hz

theorem Fresh.step (h : Fresh s) (hinv : Inv s) {e : Event θ π κ} (hfits : Fits s e)
    (hstep : step s e = some s') : Fresh s' := by
  obtain ⟨-,hstep⟩ := Option.ite_none_left_eq_some.mp hstep
  cases e with
  | tick =>
    cases hstep
    exact ⟨h.sends,h.book⟩
  | call t c =>
    obtain ⟨hidle,rfl⟩ := of_guard hstep
    have hx := Pc.eq_idle hidle
    cases c <;> exact h.moved rfl rfl (by simp [Pc.sends?]) (by rw [hx]; rfl) rfl rfl rfl
  | step t e =>
    cases hheld : (s.thread t).holds with
    | none => exact h.advance_free hinv hfits hheld hstep
    | some p => exact h.advance_holder hinv hfits hheld hstep

omit [DecidableEq θ] [DecidableEq π] in
theorem Fresh.init : Fresh (State.init : State θ π κ) where
  sends t y hy := by cases hy
  book := by constructor <;> simp [State.book,State.init,Peer.fresh,Session.fresh,Life.phase,Pc.taken?]

/-- No counter is used twice under a key, however senders, handshakes and workers interleave, if no
key is derived twice and no counter comes round. -/
theorem no_nonce_reuse {es : List (Event θ π κ)}
    (hes : Along step Fits (State.init : State θ π κ) es) (hrun : exec step .init es = some s) :
    s.log.Nodup := by
  refine (exec_invariant_along (fun s => Inv s ∧ Fresh s) ?_ ⟨.init,.init⟩ hes hrun).2.book.nodup
  rintro u e v ⟨hu,hfresh⟩ hfits hstep
  exact ⟨hu.step hstep,hfresh.step hu hfits hstep⟩

def sendPacket (t : Bool) : List (Event Bool Unit ℕ) :=
  .call t (.send ()) :: goes t 3 ++ .step t (.answer true) :: goes t 2

/-- After a handshake two packets are sent, a new session takes the place of the first, which is
three steps shorter than where there was none, and another packet is sent under its key. -/
def rekeyed : List (Event Bool Unit ℕ) :=
  handshake ++ sendPacket true ++ sendPacket false ++ initiates true 8 true ++
    (responded false 8 101).take 28 ++ sendPacket true

theorem rekeyed_no_nonce_reuse :
    ∃ s, exec step .init rekeyed = some s ∧
      s.log = [(some 101,1),(some 101,0),(some 100,2),(some 100,1),(some 100,0)] ∧
      s.log.Nodup := by
  obtain ⟨s,hrun,hs⟩ : ∃ s, exec step .init rekeyed = some s ∧ s.log = [(some 101,1),(some
      101,0),(some 100,2),(some 100,1),(some 100,0)] := by decide +kernel
  have hfits : Along step Fits .init rekeyed := by decide +kernel
  exact ⟨s,hrun,hs,no_nonce_reuse hfits hrun⟩

end NanoBSD.Wg.Sessions
