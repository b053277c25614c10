import NanoBSD.Wg.Critical

/-! # What a peer is like when its lock is free

The contract of the actions under `wgp_lock`, and that every handler and every task of the
worker, entered with the sessions in order, meets it and leaves them in order: the assertions on
the way hold, and the temporary states inside, such as an index taken by a session that is still
unknown, are over when the lock is released.
-/
namespace NanoBSD.Wg.Sessions
open Script Function

def Life.of : SessionState → Life
  | .unknown => .absent
  | .initActive => .linked
  | .initPassive => .ready
  | .established => .used
  | .destroying => .used

/-- The state of a session tells whether it is in the table, and how far it has come. -/
structure Session.Settled (x : Session) : Prop where
  listed : x.listed = true ↔ x.state ≠ .unknown
  life : x.life = .of x.state

structure Peer.Settled (v : Peer) : Prop where
  stable : v.state v.stable = .unknown ∨ v.state v.stable = .established
  unstable : v.state v.unstable ≠ .established
  session : ∀ σ, (v.session σ).Settled
  start : ∀ σ, v.state σ = .initActive → v.handshakeStartTime ≠ 0
  mac1 : v.lastSentMac1Valid = true → v.state v.unstable ≠ .destroying

/-- The contract of a thread with a reference to `ref`, if any. The assertion of
`wg_handle_msg_cookie` is not part of it. -/
def contract (ref : Option Bool) : Contract Peer Act where
  pre
    | .assert _ f, v => f v = true
    | .assertPending σ, v => ref = some σ ∧ v.Settled ∧ v.lastSentMac1Valid = true
    | .thmapPut σ, v => (v.session σ).life = .absent
    | .thmapDel σ, v => (v.session σ).listed = true
    | .quiesce o, v => ∀ σ ∈ o, (v.session σ).listed = false ∧ v.state σ ≠ .established
    | .zeroIndex σ, v => (v.session σ).life = .absent
    | .clearStates σ, v => (v.session σ).life ≠ .used
    | .calculateKeys σ, v => (v.session σ).life ≠ .used
    | .setState σ state, v => state = .established → (v.session σ).life = .ready
    | .sendData σ, v => (v.session σ).life = .used
    | _, _ => True
  post
    | .thmapPut σ, v, w => ∃ i, w = v.link σ i
    | .quiesce o, v, w => w = o.elim v v.drained
    | .startHandshake, v, w => ∃ now ≠ 0, w = v.startAt now
    | a, v, w => w = a.apply v

def Runs (ref : Option Bool) (k : Section) (v : Peer) : Prop := k.wp (contract ref) Peer.Settled v

variable {ref : Option Bool} {k : Section} {v : Peer} {σ : Bool} {w : Peer} {x : Session}

/-! ## Sessions -/

theorem runs_assert {site : Site} {f : Peer → Bool} (hf : f v = true) (hk : Runs ref k v) :
    Runs ref (.act (.assert site f) k) v := wp_act_of_eq hf rfl hk

def Session.destroyed (x : Session) : Session :=
  { x with state := .unknown, localIndex := 0, listed := false, life := .absent }

theorem Session.settled_destroyed (x : Session) : x.destroyed.Settled where
  listed := by simp [destroyed]
  life := rfl

theorem runs_destroySession (hlisted : (v.session σ).listed = true)
    (hunknown : v.state σ ≠ .unknown) (hest : v.state σ ≠ .established)
    (hk : Runs ref k (v.set σ (v.session σ).destroyed)) : Runs ref (destroySession σ k) v := by
  refine runs_assert (by simpa using hunknown) ?_
  refine wp_act_of_eq hlisted rfl ?_
  refine wp_act_of_eq ?_ rfl ?_
  · rintro τ ⟨⟩
    simpa [Act.apply,Peer.set,Peer.state] using hest
  refine wp_act_of_eq ?_ rfl ?_
  · simp [contract,Act.apply,Peer.drained,Peer.set]
  refine wp_act_of_eq ?_ rfl ?_
  · simp [contract,Act.apply,Peer.drained,Peer.set]
  refine wp_act_of_eq (by simp [contract]) rfl ?_
  simp only [Act.apply,Option.elim_some,Peer.drained,Peer.set,Life.cleared,update_self,
    update_idem,reduceCtorEq,if_false]
  exact hk

theorem runs_putSessionIndex (hx : (v.session σ).Settled) (hunknown : v.state σ ≠ .unknown)
    (hest : v.state σ ≠ .established) (hk : Runs ref k (v.set σ (v.session σ).destroyed)) :
    Runs ref (putSessionIndex σ k) v := by
  refine runs_assert (by simpa using hunknown) ?_
  refine runs_assert (by simpa using hest) ?_
  exact runs_destroySession (hx.listed.mpr hunknown) hunknown hest hk

theorem runs_getSessionIndex (hx : (v.session v.unstable).Settled)
    (hunknown : v.state v.unstable = .unknown) (hk : ∀ i, Runs ref k (v.link v.unstable i)) :
    Runs ref (getSessionIndex v.unstable k) v := by
  refine runs_assert (by simp) ?_
  refine runs_assert (by simpa using hunknown) ?_
  refine wp_act (hx.life.trans (congrArg Life.of hunknown)) ?_
  rintro _ ⟨i,rfl⟩
  exact hk i

theorem runs_sendDataMsg (hlife : (v.session σ).life = .used) (hk : Runs ref k v) :
    Runs ref (sendDataMsg σ k) v := by
  refine wp_choose ?_ hk
  exact wp_act_of_eq hlife rfl hk

/-! ## Handshakes -/

theorem Peer.settled_of (hs : (v.session v.stable).Settled) (hu : (v.session v.unstable).Settled)
    (hstable : v.state v.stable = .unknown ∨ v.state v.stable = .established)
    (hunstable : v.state v.unstable ≠ .established)
    (hstart : v.state v.unstable = .initActive → v.handshakeStartTime ≠ 0)
    (hmac1 : v.lastSentMac1Valid = true → v.state v.unstable ≠ .destroying) : v.Settled := by
  refine ⟨hstable,hunstable,?_,?_,hmac1⟩
  · intro σ
    rcases v.eq_stable_or_eq_unstable σ with rfl | rfl
    · exact hs
    · exact hu
  · intro σ hσ
    rcases v.eq_stable_or_eq_unstable σ with rfl | rfl
    · rcases hstable with h | h <;> rw [h] at hσ <;> cases hσ
    · exact hstart hσ

theorem Peer.Settled.ofUnstable (h : v.Settled) (hptr : w.stable = v.stable)
    (hsession : w.session = update v.session v.unstable x) (hx : x.Settled)
    (hest : x.state ≠ .established) (hstart : x.state = .initActive → w.handshakeStartTime ≠ 0)
    (hmac1 : w.lastSentMac1Valid = true → x.state ≠ .destroying) : w.Settled := by
  have hunst : w.unstable = v.unstable := congrArg not hptr
  have hself : w.session w.unstable = x := by rw [hunst,hsession,update_self]
  have hkeep : w.session w.stable = v.session v.stable := by
    rw [hptr,hsession,Peer.update_unstable_stable]
  refine Peer.settled_of ?_ ?_ ?_ ?_ ?_ ?_
  · exact hkeep ▸ h.session v.stable
  · exact hself.symm ▸ hx
  all_goals simp only [Peer.state,hself,hkeep]
  · exact h.stable
  · exact hest
  · exact hstart
  · exact hmac1

def Resumes (ref : Option Bool) (k : Section) : Prop := ∀ v : Peer, v.Settled → Runs ref k v

theorem Peer.Settled.ofDestroyed (h : v.Settled) (hptr : w.stable = v.stable)
    (hsession : w.session = update v.session v.unstable x.destroyed) : w.Settled :=
  h.ofUnstable hptr hsession (Session.settled_destroyed x) (by simp [Session.destroyed])
    (by simp [Session.destroyed]) (by simp [Session.destroyed])

theorem Peer.Settled.destroyUnstable (h : v.Settled) :
    (v.set v.unstable (v.session v.unstable).destroyed).Settled := h.ofDestroyed rfl rfl

theorem Peer.startAt_ne_zero {now : ℕ} (hnow : now ≠ 0) :
    (v.startAt now).handshakeStartTime ≠ 0 := by
  by_cases hzero : v.handshakeStartTime = 0 <;> simp [startAt,hzero,hnow]

theorem runs_initiate (h : v.Settled) (hunknown : v.state v.unstable = .unknown)
    (hk : Resumes ref k) : Runs ref (initiate v.unstable k) v := by
  refine runs_assert (by simpa using hunknown) ?_
  refine runs_getSessionIndex (h.session _) hunknown fun i => ?_
  refine wp_act_of_eq (by simp [contract]) rfl ?_
  simp only [Act.apply,Peer.link,Peer.set,update_self,update_idem,reduceCtorEq,
    if_false]
  refine runs_assert (by simp [Peer.unstable]) ?_
  refine runs_assert (by simp [Peer.state]) ?_
  refine wp_act_of_eq trivial rfl ?_
  refine wp_choose ?_ ?_
  · -- the send failed, and the index is given back
    refine runs_putSessionIndex ?_ ?_ ?_ (hk _ ?_)
    · exact ⟨by simp [Act.apply],by simp [Act.apply,Life.of]⟩
    · simp [Act.apply,Peer.state]
    · simp [Act.apply,Peer.state]
    · exact h.ofDestroyed rfl (update_idem ..)
  · refine wp_act trivial ?_
    rintro _ ⟨now,hnow,rfl⟩
    exact hk _ (h.ofUnstable rfl rfl ⟨by simp,rfl⟩ (by simp) (fun _ => Peer.startAt_ne_zero hnow)
      (by simp))

theorem runs_sendHandshakeMsgInit (h : v.Settled) (hk : Resumes ref k) :
    Runs ref (sendHandshakeMsgInit k) v := by
  refine wp_read.mpr ?_
  refine wp_branch (fun _ => hk v h) fun hidle => ?_
  refine runs_assert (by simpa using h.unstable) ?_
  refine wp_branch (fun hdestr => ?_) fun hdestr => ?_
  · have hstate : v.state v.unstable = .destroying := by simpa using hdestr
    refine runs_putSessionIndex (h.session _) (by simp [hstate]) (by simp [hstate]) ?_
    refine runs_assert (by simp [Peer.state,Peer.set,Session.destroyed]) ?_
    exact runs_initiate h.destroyUnstable (by simp [Peer.state,Peer.set,Peer.unstable,Session.destroyed]) hk
  · have hest := h.unstable
    refine runs_initiate h ?_ hk
    cases hstate : v.state v.unstable <;> simp_all

theorem runs_respond (h : v.Settled) (hunknown : v.state v.unstable = .unknown)
    (hk : Resumes ref k) : Runs ref (respond v.unstable k) v := by
  refine runs_assert (by simpa using hunknown) ?_
  refine runs_getSessionIndex (h.session _) hunknown fun i => ?_
  have hstate : (v.link v.unstable i).state v.unstable = .unknown := by
    simpa [Peer.link,Peer.set,Peer.state] using hunknown
  refine runs_assert (by simp [Peer.link,Peer.set,Peer.unstable]) ?_
  refine runs_assert (by simpa using hstate) ?_
  refine runs_assert (by simp [Peer.link,Peer.set,Peer.unstable]) ?_
  refine runs_assert (by simpa using hstate) ?_
  refine wp_act_of_eq trivial rfl ?_
  refine wp_act_of_eq ?_ rfl ?_
  · simp [contract,Act.apply,Peer.link,Peer.set]
  refine wp_act_of_eq ?_ rfl ?_
  · simp [contract,Act.apply,Peer.set]
  refine wp_act_of_eq (by simp [contract]) rfl ?_
  simp only [Act.apply,Peer.link,Peer.set,Life.cleared,update_self,update_idem,
    reduceCtorEq,if_false]
  exact hk _ (h.ofUnstable rfl rfl ⟨by simp,rfl⟩ (by simp) (by simp) (by simp))

theorem runs_startOver (h : v.Settled) (hunknown : v.state v.unstable ≠ .unknown)
    (hk : Resumes ref k) : Runs ref (startOver v.unstable k) v := by
  have hstate : (v.set v.unstable (v.session v.unstable).destroyed).state v.unstable = .unknown := by
    simp [Peer.state,Peer.set,Session.destroyed]
  refine runs_putSessionIndex (h.session _) hunknown h.unstable ?_
  refine runs_assert (by simpa using hstate) ?_
  exact runs_respond h.destroyUnstable hstate hk

theorem runs_handleMsgInit (h : v.Settled) (hk : Resumes ref k) : Runs ref (handleMsgInit k) v := by
  refine wp_choose ?_ (hk v h)
  refine wp_read.mpr ?_
  refine runs_assert (by simpa using h.unstable) ?_
  refine wp_branch (fun hu => ?_) fun hu => ?_
  · exact runs_respond h (by simpa using hu) hk
  have hover := runs_startOver h (by simpa using hu) hk
  refine wp_branch (fun _ => ?_) fun _ => hover
  exact wp_choose (hk v h) hover

def Session.retired (x : Session) : Session :=
  if x.state = .established then { x with state := .destroying }
  else { x with state := .unknown, localIndex := 0 }

theorem runs_retirePrev (hx : (v.session σ).Settled)
    (hstate : v.state σ = .unknown ∨ v.state σ = .established)
    (hk : Runs ref k (v.set σ (v.session σ).retired)) : Runs ref (retirePrev σ k) v := by
  refine wp_branch (fun hest => ?_) fun hest => ?_
  · have hest : (v.session σ).state = .established := of_decide_eq_true hest
    refine wp_act_of_eq (by simp [contract]) rfl ?_
    unfold Runs at hk
    simpa [Act.apply,Session.retired,hest] using hk
  · have hunknown : v.state σ = .unknown := hstate.resolve_right (by simpa using hest)
    have hlife : (v.session σ).life = .absent := hx.life.trans (congrArg Life.of hunknown)
    refine runs_assert (by simpa using hunknown) ?_
    refine wp_act_of_eq hlife rfl ?_
    refine wp_act_of_eq ?_ rfl ?_
    · simp [contract,Act.apply,Peer.set,hlife]
    refine wp_act_of_eq (by simp [contract]) rfl ?_
    rw [Peer.state] at hunknown
    unfold Runs at hk
    simpa [Act.apply,Peer.set,Session.retired,hunknown,hlife,Life.cleared] using hk

theorem Session.Settled.retired (hx : x.Settled)
    (hstate : x.state = .unknown ∨ x.state = .established) :
    x.retired.Settled ∧ (x.retired.state = .unknown ∨ x.retired.state = .destroying) := by
  obtain ⟨hlisted,hlife⟩ := hx
  rcases hstate with h | h
  · exact ⟨⟨by simp_all [Session.retired],by simp_all [Session.retired]⟩,by simp [Session.retired,h]⟩
  · exact ⟨⟨by simp_all [Session.retired],by simp_all [Session.retired,Life.of]⟩,
      by simp [Session.retired,h]⟩

def Peer.swapped (v : Peer) : Peer := ⟨v.session,v.unstable,0,false⟩

theorem Peer.settled_swapped (hu : (v.session v.unstable).Settled)
    (hest : v.state v.unstable = .established) (hs : (v.session v.stable).Settled)
    (hprev : v.state v.stable = .unknown ∨ v.state v.stable = .established) :
    (v.swapped.set v.stable (v.session v.stable).retired).Settled := by
  obtain ⟨hret,hstate⟩ := hs.retired hprev
  obtain ⟨w,hw⟩ : ∃ w, w = v.swapped.set v.stable (v.session v.stable).retired := ⟨_,rfl⟩
  have hnew : w.session w.stable = v.session v.unstable := by
    rw [hw]
    exact v.update_stable_unstable _ _
  have hold : w.session w.unstable = (v.session v.stable).retired := by
    have hflip : w.unstable = v.stable := by
      rw [hw]
      exact Bool.not_not _
    rw [hflip,hw]
    exact update_self ..
  rw [← hw]
  refine Peer.settled_of ?_ ?_ (.inr ?_) ?_ ?_ ?_
  · rwa [hnew]
  · rwa [hold]
  · rwa [state,hnew]
  · rw [state,hold]
    rcases hstate with h | h <;> simp [h]
  · rw [state,hold]
    rcases hstate with h | h <;> simp [h]
  · rw [hw]
    intro hmac1
    cases hmac1

theorem runs_swapSessions (h : v.Settled) (hx : x.Settled) (hest : x.state = .established)
    (hk : ∀ w : Peer, w.Settled → w.stable = v.unstable → Runs ref k w) :
    Runs ref (swapSessions k) (v.set v.unstable x) := by
  obtain ⟨u,hu⟩ : ∃ u, u = v.set v.unstable x := ⟨_,rfl⟩
  have hptr : u.unstable = v.unstable := by
    rw [hu]
    rfl
  have hnew : u.session u.unstable = x := by
    rw [hptr,hu]
    exact update_self ..
  have hold : u.session u.stable = v.session v.stable := by
    rw [hu]
    exact v.update_unstable_stable _ _
  rw [← hu]
  have hsettled : (u.session u.unstable).Settled := hnew ▸ hx
  have hstate : u.state u.unstable = .established := by rw [Peer.state,hnew,hest]
  have hlife : (u.session u.unstable).life = .used := hsettled.life.trans (congrArg Life.of hstate)
  have hsettled' : (u.session u.stable).Settled := hold ▸ h.session v.stable
  have hprev : u.state u.stable = .unknown ∨ u.state u.stable = .established := by
    rw [Peer.state,hold]
    exact h.stable
  have hrest : Runs ref (retirePrev u.stable k) u.swapped :=
    runs_retirePrev hsettled' hprev (hk _ (Peer.settled_swapped hsettled hstate hsettled' hprev) hptr)
  refine wp_read.mpr ?_
  refine runs_assert (by simpa using hstate) ?_
  refine wp_read.mpr ?_
  refine runs_assert (by simpa using hprev.symm) ?_
  refine wp_act_of_eq trivial rfl ?_
  refine wp_act_of_eq trivial rfl ?_
  refine wp_act_of_eq trivial rfl ?_
  refine wp_choose (runs_sendDataMsg hlife hrest) ?_
  exact wp_branch (fun _ => runs_sendDataMsg hlife hrest) fun _ => hrest

theorem runs_handleMsgResp (h : v.Settled) (hk : Resumes ref k) :
    Runs ref (handleMsgResp σ k) v := by
  refine wp_branch (fun hstate => ?_) fun _ => hk v h
  refine wp_choose ?_ (hk v h)
  have hactive : v.state σ = .initActive := of_decide_eq_true hstate
  -- only the unstable session can be waiting for a response
  obtain rfl : σ = v.unstable := by
    refine (v.eq_stable_or_eq_unstable σ).resolve_left ?_
    rintro rfl
    rcases h.stable with hs | hs <;> rw [hactive] at hs <;> cases hs
  have hx := h.session v.unstable
  have hlife : (v.session v.unstable).life = .linked :=
    hx.life.trans (congrArg Life.of hactive)
  have hlisted : (v.session v.unstable).listed = true :=
    hx.listed.mpr (by rw [← Peer.state,hactive]; simp)
  refine runs_assert hstate ?_
  refine wp_act_of_eq trivial rfl ?_
  refine wp_act_of_eq ?_ rfl ?_
  · simp [contract,Act.apply,Peer.set,hlife]
  refine wp_act_of_eq ?_ rfl ?_
  · simp [contract,Act.apply,Peer.set]
  refine wp_act_of_eq ?_ rfl ?_
  · simp [contract,Act.apply,Peer.set,Life.cleared]
  simp only [Act.apply,Peer.set,update_self,update_idem,if_true]
  refine runs_swapSessions h ⟨by simp [hlisted],rfl⟩ rfl fun w hw hptr => ?_
  exact runs_assert (by simp [hptr]) (hk w hw)

theorem runs_handleMsgCookie (h : v.Settled) (hk : Resumes (some σ) k) :
    Runs (some σ) (handleMsgCookie σ k) v :=
  wp_branch (fun hmac1 => wp_act_of_eq ⟨rfl,h,hmac1⟩ rfl (hk v h)) fun _ => hk v h

/-! ## Tasks -/

theorem resumes_taskSendInitMessage (hk : Resumes ref k) : Resumes ref (taskSendInitMessage k) := by
  intro v h
  have hsend := runs_sendHandshakeMsgInit h hk
  refine wp_choose ?_ (hk v h)
  refine wp_read.mpr ?_
  exact wp_branch (fun _ => wp_choose hsend (hk v h)) fun _ => hsend

theorem resumes_taskRetryHandshake (hk : Resumes ref k) : Resumes ref (taskRetryHandshake k) := by
  intro v h
  refine wp_read.mpr ?_
  refine wp_branch (fun hstate => ?_) fun _ => hk v h
  have hactive : v.state v.unstable = .initActive := of_decide_eq_true hstate
  refine runs_assert (by simpa using h.start v.unstable hactive) ?_
  refine runs_putSessionIndex (h.session _) (by simp [hactive]) h.unstable ?_
  have hgone := h.destroyUnstable
  refine wp_choose ?_ (resumes_taskSendInitMessage hk _ hgone)
  exact wp_act_of_eq trivial rfl (hk _ (h.ofDestroyed rfl rfl))

theorem resumes_taskEstablishSession (hk : Resumes ref k) :
    Resumes ref (taskEstablishSession k) := by
  intro v h
  refine wp_read.mpr ?_
  refine wp_branch (fun hstate => ?_) fun _ => hk v h
  have hpassive : v.state v.unstable = .initPassive := of_decide_eq_true hstate
  have hx := h.session v.unstable
  have hlife : (v.session v.unstable).life = .ready := hx.life.trans (congrArg Life.of hpassive)
  have hlisted : (v.session v.unstable).listed = true :=
    hx.listed.mpr (by rw [← Peer.state,hpassive]; simp)
  refine wp_act_of_eq trivial rfl ?_
  refine wp_act_of_eq ?_ rfl ?_
  · simp [contract,Act.apply,Peer.set,hlife]
  simp only [Act.apply,Peer.set,update_self,update_idem,if_true]
  refine runs_swapSessions h ⟨by simp [hlisted],rfl⟩ rfl fun w hw hptr => ?_
  exact runs_assert (by simp [hptr]) (hk w hw)

theorem resumes_taskEndpointChanged (hk : Resumes ref k) : Resumes ref (taskEndpointChanged k) := by
  intro v h
  refine wp_choose ?_ (hk v h)
  exact wp_act_of_eq (by simp [contract]) rfl (wp_pause h hk)

theorem runs_sendKeepaliveMsg (h : v.Settled) (hest : v.state v.stable = .established)
    (hk : Resumes ref k) : Runs ref (sendKeepaliveMsg v.stable k) v :=
  runs_sendDataMsg ((h.session _).life.trans (congrArg Life.of hest)) (hk v h)

theorem resumes_taskSendKeepaliveMessage (hk : Resumes ref k) :
    Resumes ref (taskSendKeepaliveMessage k) := by
  intro v h
  refine wp_read.mpr ?_
  exact wp_branch (fun hest => runs_sendKeepaliveMsg h (of_decide_eq_true hest) hk) fun _ => hk v h

theorem resumes_taskPersistentKeepalive (hk : Resumes ref k) :
    Resumes ref (taskPersistentKeepalive k) := by
  intro v h
  have hinit := resumes_taskSendInitMessage hk v h
  refine wp_choose ?_ (hk v h)
  refine wp_read.mpr ?_
  refine wp_branch (fun hest => ?_) fun _ => hinit
  exact wp_choose hinit (runs_sendKeepaliveMsg h (of_decide_eq_true hest) hk)

theorem Peer.Settled.dropStable (h : v.Settled) (hx : x.Settled)
    (hstate : x.state = .unknown) : (v.set v.stable x).Settled := by
  have hnew : (v.set v.stable x).session v.stable = x := update_self ..
  have hold : (v.set v.stable x).session v.unstable = v.session v.unstable :=
    v.update_stable_unstable ..
  refine Peer.settled_of ?_ ?_ (.inl ?_) ?_ ?_ ?_
  · exact hnew.symm ▸ hx
  · exact hold.symm ▸ h.session _
  · exact (congrArg Session.state hnew).trans hstate
  · exact fun he => h.unstable ((congrArg Session.state hold).symm.trans he)
  · exact fun he => h.start _ ((congrArg Session.state hold).symm.trans he)
  · exact fun hmac1 he => h.mac1 hmac1 ((congrArg Session.state hold).symm.trans he)

theorem resumes_destroyStable (hk : Resumes ref k) : Resumes ref (destroyStable k) := by
  intro v h
  refine wp_read.mpr ?_
  refine runs_assert (by rcases h.stable with hs | hs <;> simp [hs]) ?_
  refine runs_assert (by rcases h.stable with hs | hs <;> simp [hs]) ?_
  refine runs_assert (by rcases h.stable with hs | hs <;> simp [hs]) ?_
  refine wp_branch (fun hstate => ?_) fun _ => hk v h
  refine wp_choose ?_ (hk v h)
  have hest : v.state v.stable = .established := of_decide_eq_true hstate
  have hx := h.session v.stable
  have hlife : (v.session v.stable).life = .used := hx.life.trans (congrArg Life.of hest)
  have hlisted : (v.session v.stable).listed = true :=
    hx.listed.mpr (by rw [← Peer.state,hest]; simp)
  refine wp_act_of_eq (by simp [contract]) rfl ?_
  simp only [Act.apply,reduceCtorEq,if_false]
  refine runs_putSessionIndex ?_ ?_ ?_ ?_
  · simpa [Peer.set] using ⟨by simp [hlisted],hlife⟩
  · simp [Peer.state,Peer.set]
  · simp [Peer.state,Peer.set]
  refine runs_assert (by simp [Peer.state,Peer.set,Session.destroyed]) (hk _ ?_)
  simp only [Peer.set,update_self,update_idem]
  exact h.dropStable (Session.settled_destroyed _) rfl

theorem resumes_taskDestroyPrevSession (hk : Resumes ref k) :
    Resumes ref (taskDestroyPrevSession k) := by
  intro v h
  have hrest := resumes_destroyStable hk
  refine wp_read.mpr ?_
  refine runs_assert (by simpa using h.unstable) ?_
  refine wp_branch (fun hstate => ?_) fun _ => hrest v h
  refine wp_choose ?_ (hrest v h)
  have hdestr : v.state v.unstable = .destroying := of_decide_eq_true hstate
  refine runs_putSessionIndex (h.session _) (by simp [hdestr]) h.unstable ?_
  refine runs_assert (by simp [Peer.state,Peer.set,Session.destroyed]) ?_
  exact hrest _ h.destroyUnstable

theorem resumes_runTask (task : Task) (hk : Resumes ref k) : Resumes ref (runTask task k) :=
  match task with
  | .sendInitMessage => resumes_taskSendInitMessage hk
  | .retryHandshake => resumes_taskRetryHandshake hk
  | .establishSession => resumes_taskEstablishSession hk
  | .endpointChanged => resumes_taskEndpointChanged hk
  | .sendKeepaliveMessage => resumes_taskSendKeepaliveMessage hk
  | .destroyPrevSession => resumes_taskDestroyPrevSession hk
  | .persistentKeepalive => resumes_taskPersistentKeepalive hk

theorem resumes_done : Resumes ref .done := fun _ h => h

theorem resumes_peerWork (tasks : Finset Task) : Resumes ref (peerWork tasks) := by
  unfold peerWork
  induction Task.all.filter (· ∈ tasks) with
  | nil => exact resumes_done
  | cons task rest ih => exact resumes_runTask task ih

end NanoBSD.Wg.Sessions
