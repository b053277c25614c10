import NanoBSD.Wg.Settled

/-! # Cookies for established sessions, and a wait in a circle

Two places where the handlers of received messages and the worker do not fit together. A peer
remembers whether it has sent a mac1, but not for which of its two sessions: a cookie reply that
names the established session while a new handshake is under way fails the assertion of
`wg_handle_msg_cookie`. And the handlers of responses and cookie replies wait for `wgp_lock`
with a reference to a session, while the holder of the lock may be waiting for the references
of this session to drain.
-/
namespace NanoBSD.Wg.Sessions
open Function
variable {θ π κ : Type} [DecidableEq θ] [DecidableEq π]
variable {s s' : State θ π κ} {t : θ} {p : π} {ref : Option Bool} {k : Section} {σ : Bool}

/-! ## Cookie replies -/

def Pc.cookie? : Pc π → Option (π × Bool)
  | .locked p _ (.act (.assertPending σ) _) => some (p,σ)
  | _ => none

def NamesUnstable (s : State θ π κ) : Event θ π κ → Prop
  | .step t _ => ∀ y ∈ (s.thread t).cookie?, y.2 = (s.peer y.1).unstable
  | .tick | .call _ _ => True

instance (s : State θ π κ) : (e : Event θ π κ) → Decidable (NamesUnstable s e)
  | .step t _ => inferInstanceAs (Decidable (∀ y ∈ (s.thread t).cookie?, _))
  | .tick | .call _ _ => isTrue trivial

omit [DecidableEq θ] [DecidableEq π] in
/-- For a cookie reply that names the unstable session, under the lock, the session is in a
handshake: the reference keeps it from being unknown, and a mac1 from being old. -/
theorem Inv.pending (h : Inv s) (ht : s.thread t = .locked p ref (.act (.assertPending σ) k))
    (hσ : σ = (s.peer p).unstable) :
    (s.peer p).state σ = .initActive ∨ (s.peer p).state σ = .initPassive := by
  subst hσ
  obtain ⟨⟨rfl,hset,hmac1⟩,-⟩ := h.runs ht
  have halive := (h.anchor.thread t).refer p _ (by rw [ht]; rfl)
  rw [(hset.session _).life] at halive
  have hest := hset.unstable
  have hdestr := hset.mac1 hmac1
  cases hstate : (s.peer p).state (s.peer p).unstable with
  | unknown =>
    rw [Peer.state] at hstate
    rw [hstate] at halive
    exact absurd rfl halive
  | initActive => exact .inl rfl
  | initPassive => exact .inr rfl
  | established => exact absurd hstate hest
  | destroying => exact absurd hstate hdestr

/-- As long as cookie replies name sessions of handshakes, the assertion about them holds. -/
theorem cookie_names_handshake {es : List (Event θ π κ)}
    (hes : Along step NamesUnstable (State.init : State θ π κ) es)
    (hrun : exec step .init es = some s) : s.panicked ≠ some .handleMsgCookie := by
  refine (exec_invariant_along (fun s => Inv s ∧ s.panicked ≠ some .handleMsgCookie) ?_
    ⟨.init,by simp [State.init]⟩ hes hrun).2
  rintro u e v ⟨hu,-⟩ hnames hstep
  refine ⟨hu.step hstep,?_⟩
  rcases hu.panicked hstep with hnone | ⟨-,htrips⟩
  · simp [hnone]
  · cases e with
    | step t x =>
      obtain ⟨p,ref,σ,k,ht,hactive,hpassive⟩ := htrips
      have hunstable := hnames (p,σ) (by rw [ht]; rfl)
      exact absurd (hu.pending ht hunstable) (not_or.mpr ⟨hactive,hpassive⟩)
    | _ => exact htrips.elim

def cookieReply (i : UInt32) (n : ℕ) : List (Event Bool Unit ℕ) :=
  handshake ++ initiates true 8 true ++ .call false (.receive .cookie i) :: goes false n

theorem handshake_cookie_fits :
    ∃ s, exec step .init (cookieReply 8 7) = some s ∧ (s.peer ()).lastSentMac1Valid = true ∧
      s.panicked ≠ some .handleMsgCookie := by
  obtain ⟨s,hrun,hs⟩ : ∃ s, exec step .init (cookieReply 8 7) = some s ∧ (s.peer
      ()).lastSentMac1Valid := by decide +kernel
  have hnames : Along step NamesUnstable .init (cookieReply 8 7) := by decide +kernel
  exact ⟨s,hrun,hs,cookie_names_handshake hnames hrun⟩

/-- The assertion fails for a cookie reply that names the established session. -/
theorem established_cookie_panics :
    ∃ s, exec step .init (cookieReply 7 5) = some s ∧ (s.peer ()).state false = .established ∧
      (s.peer ()).lastSentMac1Valid = true ∧ s.panicked = some .handleMsgCookie := by
  obtain ⟨s,hrun,hs⟩ : ∃ s, exec step .init (cookieReply 7 5) = some s ∧ (s.peer ()).state false =
      .established ∧ (s.peer ()).lastSentMac1Valid = true ∧ s.panicked = some .handleMsgCookie := by
      decide +kernel
  exact ⟨s,hrun,hs⟩

/-! ## Waiting in a circle -/

def Pc.blocked? : Pc π → Option (π × Bool)
  | .want p (some σ) _ => some (p,σ)
  | _ => none

def Pc.drains? : Pc π → Option (π × Bool)
  | .drain p _ σ _ => some (p,σ)
  | _ => none

def Pc.awaits? : Pc π → Option (π × Bool)
  | .await p _ (some σ) _ _ => some (p,σ)
  | _ => none

/-- Somebody waits for the lock with a reference to a session, and the holder of the lock waits
for the references to this session. -/
def Deadlocked (s : State θ π κ) : Prop :=
  ∃ t u y, (s.thread t).blocked? = some y ∧ (s.thread u).drains? = some y

/-- When the grace period of a session ends, nobody is between the lookup of the session and the
lock. -/
def Clear (s : State θ π κ) : Event θ π κ → Prop
  | .step t _ => ∀ y ∈ (s.thread t).awaits?, ∀ u, (s.thread u).blocked? ≠ some y
  | .tick | .call _ _ => True

instance [Fintype θ] (s : State θ π κ) : (e : Event θ π κ) → Decidable (Clear s e)
  | .step t _ => inferInstanceAs (Decidable (∀ y ∈ (s.thread t).awaits?, _))
  | .tick | .call _ _ => isTrue trivial

structure Leads (x y : Pc π) : Prop where
  drains : ∀ z, y.drains? = some z → x.awaits? = some z
  blocked : ∀ z, y.blocked? = some z → x.points = some z ∨ x.holds = some z.1

omit [DecidableEq π] in
theorem Leads.of_calm {x y : Pc π} (hd : y.drains? = none) (hb : y.blocked? = none) :
    Leads x y where
  drains z hz := by
    rw [hd] at hz
    cases hz
  blocked z hz := by
    rw [hb] at hz
    cases hz

omit [DecidableEq π] in
theorem update_thread_self (s : State θ π κ) (t : θ) :
    s.thread = update s.thread t (s.thread t) := (update_eq_self t s.thread).symm

theorem act_leads {a : Act} {e : Input κ} (ht : s.thread t = .locked p ref (.act a k))
    (hstep : s.act t p ref k a e = some s') :
    ∃ y, s'.thread = update s.thread t y ∧ Leads (s.thread t) y := by
  have hcalm : Leads (s.thread t) (s.thread t) := .of_calm (by rw [ht]; rfl) (by rw [ht]; rfl)
  cases a <;> cases e <;> try cases hstep
  case assert.go | assertPending.go | thmapDel.go =>
    split
    · exact ⟨_,rfl,.of_calm rfl rfl⟩
    · exact ⟨_,update_thread_self s t,hcalm⟩
  case thmapPut.index =>
    split
    · exact ⟨_,rfl,.of_calm rfl rfl⟩
    · exact ⟨_,update_thread_self s t,hcalm⟩
  all_goals exact ⟨_,rfl,.of_calm rfl rfl⟩

theorem advance_leads {e : Input κ} (hstep : s.advance t (s.thread t) e = some s') :
    ∃ y, s'.thread = update s.thread t y ∧ Leads (s.thread t) y := by
  cases hx : s.thread t <;> rw [hx] at hstep
  case locked q ref k =>
    cases k with
    | act a k => exact hx ▸ act_leads hx hstep
    | done =>
      cases e <;> cases hstep
      exact ⟨_,rfl,.of_calm (by cases ref <;> rfl) (by cases ref <;> rfl)⟩
    | pause k =>
      cases e <;> cases hstep
      refine ⟨_,rfl,⟨nofun,fun z hz => .inr ?_⟩⟩
      cases ref with
      | none => cases hz
      | some σ =>
        cases hz
        rfl
    | _ =>
      cases e <;> cases hstep
      exact ⟨_,rfl,.of_calm rfl rfl⟩
  case found a i n q τ =>
    cases e <;> try cases hstep
    split
    · refine ⟨_,rfl,⟨fun z hz => (by cases a <;> cases hz),fun z hz => .inl ?_⟩⟩
      cases a with
      | data => cases hz
      | resp | cookie =>
        cases hz
        rfl
    · exact ⟨_,hx ▸ update_thread_self s t,.of_calm rfl rfl⟩
  case await q ref o snap k =>
    cases e <;> try cases hstep
    obtain ⟨-,rfl⟩ := of_guard hstep
    cases o with
    | none => exact ⟨_,rfl,.of_calm rfl rfl⟩
    | some σ => exact ⟨_,rfl,⟨fun z hz => hz,nofun⟩⟩
  case lookup | loaded | sender =>
    cases e <;> try cases hstep
    split <;> exact ⟨_,rfl,.of_calm rfl rfl⟩
  case want | drain =>
    cases e <;> try cases hstep
    obtain ⟨-,rfl⟩ := of_guard hstep
    exact ⟨_,rfl,.of_calm rfl rfl⟩
  all_goals
    cases e <;> cases hstep
    try exact ⟨_,rfl,.of_calm rfl rfl⟩

omit [DecidableEq π] in
theorem call_thread (s : State θ π κ) (t : θ) (c : Call π) :
    ∃ y, (s.call t c).thread = update s.thread t y ∧ y.drains? = none ∧ y.blocked? = none := by
  cases c <;> exact ⟨_,rfl,rfl,rfl⟩

omit [DecidableEq π] in
theorem Inv.not_deadlocked (h : Inv s) (hno : ¬Deadlocked s) {y : Pc π}
    (hthread : s'.thread = update s.thread t y) (hleads : Leads (s.thread t) y)
    (hclear : ∀ z ∈ (s.thread t).awaits?, ∀ u, (s.thread u).blocked? ≠ some z) :
    ¬Deadlocked s' := by
  rintro ⟨u,v,z,hu,hv⟩
  rw [hthread] at hu hv
  by_cases hvt : v = t
  · -- the grace period has just ended
    subst hvt
    rw [update_self] at hv
    by_cases hut : u = v
    · subst hut
      rw [update_self] at hu
      cases y <;> first | cases hu | cases hv
    · rw [update_of_ne hut] at hu
      exact hclear z (hleads.drains z hv) u hu
  · rw [update_of_ne hvt] at hv
    by_cases hut : u = t
    · subst hut
      rw [update_self] at hu
      cases hx : s.thread v with
      | drain q ref τ k =>
        rw [hx] at hv
        cases hv
        rcases hleads.blocked _ hu with hpoint | hheld
        · obtain ⟨n,hn⟩ := Pc.section?_of_points hpoint
          have hallows := h.grace u v q τ n hpoint hn
          rw [hx] at hallows
          exact hallows rfl
        · have howner := (h.lock.owner v q).mpr (by rw [hx]; rfl)
          exact hvt (h.lock.owner_unique hheld howner)
      | _ =>
        rw [hx] at hv
        cases hv
    · rw [update_of_ne hut] at hu
      exact hno ⟨u,v,z,hu,hv⟩

/-- If no handler is between its lookup of a session and the lock when the session's grace period
ends, nobody waits for the lock with a reference that its holder waits for. -/
theorem no_wait_in_circle {es : List (Event θ π κ)}
    (hes : Along step Clear (State.init : State θ π κ) es)
    (hrun : exec step .init es = some s) : ¬Deadlocked s := by
  refine (exec_invariant_along (fun s => Inv s ∧ ¬Deadlocked s) ?_ ⟨.init,?_⟩ hes hrun).2
  · rintro u e v ⟨hu,hno⟩ hclear hstep
    refine ⟨hu.step hstep,?_⟩
    obtain ⟨-,hstep⟩ := Option.ite_none_left_eq_some.mp hstep
    cases e with
    | tick =>
      cases hstep
      exact hno
    | call t c =>
      obtain ⟨hidle,rfl⟩ := of_guard hstep
      obtain ⟨y,hthread,hd,hb⟩ := call_thread u t c
      refine hu.not_deadlocked hno hthread (.of_calm hd hb) ?_
      rw [Pc.eq_idle hidle]
      rintro z ⟨⟩
    | step t x =>
      obtain ⟨y,hthread,hleads⟩ := advance_leads hstep
      exact hu.not_deadlocked hno hthread hleads hclear
  · rintro ⟨t,u,y,ht,-⟩
    cases ht

/-- A message comes in for the session of a handshake that the worker is about to retry. -/
def retryWith (h : Handler) : List (Event Bool Unit ℕ) :=
  initiates true 7 false ++ .call false (.receive h 7) :: goes false 2 ++
    .call true (.work () {.retryHandshake}) :: goes true 10

theorem data_no_wait_in_circle :
    ∃ s, exec step .init (retryWith .data) = some s ∧
      (s.thread true).drains? = some ((),false) ∧ s.refs () false = 1 ∧ ¬Deadlocked s := by
  have hclear : Along step Clear .init (retryWith .data) := by decide +kernel
  obtain ⟨s,hrun,hdrain,hrefs⟩ : ∃ s, exec step .init (retryWith .data) = some s ∧ (s.thread
      true).drains? = some ((),false) ∧ s.refs () false = 1 := by decide +kernel
  exact ⟨s,hrun,hdrain,hrefs,no_wait_in_circle hclear hrun⟩

/-- The handler of a response waits for the lock, and the worker that holds it waits for the
handler's reference. -/
theorem resp_waits_in_circle : ∃ s, exec step .init (retryWith .resp) = some s ∧ Deadlocked s := by
  obtain ⟨s,hrun,hblocked,hdrains⟩ : ∃ s, exec step .init (retryWith .resp) = some s ∧ (s.thread
      false).blocked? = some ((),false) ∧ (s.thread true).drains? = some ((),false) := by
      decide +kernel
  exact ⟨s,hrun,false,true,((),false),hblocked,hdrains⟩

end NanoBSD.Wg.Sessions
