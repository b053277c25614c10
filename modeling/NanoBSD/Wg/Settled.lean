import NanoBSD.Wg.Discipline

/-! # Sessions are in order

The invariants of `NanoBSD.Wg.Discipline` are kept by every step of every thread, whichever way
the threads take turns. So a peer whose lock is free is always settled, and no assertion about
the state of a session fails, with the exception of the one in `wg_handle_msg_cookie`.
-/
namespace NanoBSD.Wg.Sessions
open Function
variable {θ π κ : Type} [DecidableEq θ] [DecidableEq π]
variable {s s' : State θ π κ} {t : θ} {p : π} {x : Pc π} {w : Peer}

/-! ## The invariant -/

structure Inv (s : State θ π κ) : Prop where
  lock : Disciplined s
  table : Indexed s
  anchor : Anchored s
  sections : Sectioned s
  grace : Graced s
  count : Counted s
  clock : s.uptime ≠ 0

theorem Inv.resumed (h : Inv s) (ht : (s.thread t).holds = some p) (hr : Resumed s t p x w s')
    (hx : x.holds = some p) (href : x.refers = (s.thread t).refers) (hgoal : x.Goal w)
    (hcoherent : w.Coherent) (hgrows : (s.peer p).Grows w) (htable : Indexed s')
    (hwait : ∀ u ≠ t, ∀ q σ n, (s.thread u).points = some (q,σ) →
      (s.thread u).section? = some n → x.Allows q σ n) : Inv s' where
  lock := h.lock.resumed hr ht hx hgoal
  table := htable
  anchor := h.anchor.resumed hr hx href hcoherent hgrows
  sections := h.sections.stay hr.thread hr.active hr.sections
    ((Pc.section?_of_holds hx).trans (Pc.section?_of_holds ht).symm)
  grace := by
    refine h.grace.change hr.thread ?_ hwait
    intro u _ q σ n hq
    rw [Pc.points_of_holds hx] at hq
    cases hq
  count := h.count.keep hr.thread hr.refs href
  clock := hr.uptime ▸ h.clock

variable {ref : Option Bool} {k : Section} {a : Act} {σ : Bool}

omit [DecidableEq θ] [DecidableEq π] in
theorem Inv.runs (h : Inv s) (ht : s.thread t = .locked p ref k) : Runs ref k (s.peer p) := by
  have hgoal := h.lock.goal t p (by rw [ht]; rfl)
  rwa [ht] at hgoal

theorem Inv.finish (h : Inv s) (ht : s.thread t = .locked p ref (.act a k))
    (hpost : (contract ref).post a (s.peer p) w) (hquiesce : ∀ σ, a ≠ .quiesce (some σ))
    (hr : Resumed s t p (.locked p ref k) w s') (htable : Indexed s') : Inv s' := by
  obtain ⟨hpre,hk⟩ := h.runs ht
  refine h.resumed (by rw [ht]; rfl) hr rfl (by rw [ht]; rfl) (hk w hpost)
    ((h.anchor.coherent p).post hpre hpost) (Peer.grows_post hpre hpost hquiesce) htable ?_
  exact fun _ _ _ _ _ _ _ => trivial

omit [DecidableEq θ] [DecidableEq π] in
theorem Inv.aside (h : Inv s) {now : ℕ} (hnow : now ≠ 0) (o : Option Site) :
    Inv { s with uptime := now, panicked := o } where
  lock := ⟨h.lock.owner,h.lock.free,h.lock.goal,h.lock.ready⟩
  table := h.table
  anchor := ⟨h.anchor.coherent,h.anchor.thread⟩
  sections := ⟨h.sections.active,h.sections.begun,h.sections.apart⟩
  grace := h.grace
  count := h.count
  clock := hnow

omit [DecidableEq θ] in
theorem Indexed.apply (h : Indexed s) (htable : s'.table = s.table)
    (hpeer : s'.peer = update s.peer p (a.apply (s.peer p))) (hdel : ∀ σ, a ≠ .thmapDel σ)
    (hzero : ∀ σ, a = .zeroIndex σ → ((s.peer p).session σ).listed = false) : Indexed s' := by
  refine h.resumed htable hpeer ?_ ?_
  · intro τ
    cases a with
    | thmapDel σ => exact absurd rfl (hdel σ)
    | zeroIndex σ | clearStates σ | calculateKeys σ | setState σ | setInitiator σ =>
      by_cases hτ : τ = σ <;> simp [Act.apply,Peer.set,hτ]
    | _ => rfl
  · intro τ hl
    cases a with
    | thmapDel σ => exact absurd rfl (hdel σ)
    | zeroIndex σ =>
      by_cases hτ : τ = σ
      · subst hτ
        simp [Act.apply,Peer.set,hzero τ rfl] at hl
      · simp [Act.apply,Peer.set,hτ]
    | clearStates σ | calculateKeys σ | setState σ | setInitiator σ =>
      by_cases hτ : τ = σ <;> simp [Act.apply,Peer.set,hτ]
    | _ => rfl

theorem resumed_setThread (s : State θ π κ) (t : θ) (p : π) (x : Pc π) :
    Resumed s t p x (s.peer p) (s.setThread t x) :=
  ⟨rfl,(update_eq_self p s.peer).symm,rfl,rfl,rfl,rfl,rfl⟩

theorem Inv.advance (h : Inv s) (ht : (s.thread t).holds = some p)
    (hr : Resumed s t p x (s.peer p) s') (htable : s'.table = s.table) (hx : x.holds = some p)
    (href : x.refers = (s.thread t).refers) (hgoal : x.Goal (s.peer p))
    (hwait : ∀ u ≠ t, ∀ q σ n, (s.thread u).points = some (q,σ) →
      (s.thread u).section? = some n → x.Allows q σ n) : Inv s' :=
  h.resumed ht hr hx href hgoal (h.anchor.coherent p) (.refl _)
    (h.table.resumed htable hr.peer (fun _ => rfl) fun _ _ => rfl) hwait

theorem Inv.aim (h : Inv s) (ht : s.thread t = .locked p ref (.act (.thmapPut σ) k))
    (i : UInt32) : Inv (s.setPeer p ((s.peer p).aim σ i)) := by
  obtain ⟨hpre,hk⟩ := h.runs ht
  have habsent : ((s.peer p).session σ).life = .absent := hpre
  have hr : Resumed s t p (s.thread t) ((s.peer p).aim σ i)
      (s.setPeer p ((s.peer p).aim σ i)) :=
    ⟨(update_eq_self t s.thread).symm,rfl,rfl,rfl,rfl,rfl,rfl⟩
  have hheld : (s.thread t).holds = some p := by rw [ht]; rfl
  have hcoh := h.anchor.coherent p
  refine h.resumed hheld hr hheld rfl ?_ ?_ ?_ ?_ ?_
  · rw [ht]
    refine ⟨?_,?_⟩
    · simpa [contract,Peer.aim,Peer.set] using habsent
    · rintro w ⟨j,rfl⟩
      simpa [Peer.link,Peer.aim,Peer.set] using hk _ ⟨j,rfl⟩
  · exact hcoh.set ⟨(hcoh σ).listed,(hcoh σ).used⟩
  · exact .set ⟨id,fun hl => absurd habsent hl,id⟩
  · refine h.table.resumed rfl rfl ?_ ?_
    · intro τ
      by_cases hτ : τ = σ <;> simp [Peer.aim,Peer.set,hτ]
    · intro τ hl
      by_cases hτ : τ = σ
      · subst hτ
        simp only [Peer.aim,Peer.set,update_self] at hl
        exact absurd habsent ((hcoh τ).listed hl)
      · simp [Peer.aim,Peer.set,hτ]
  · intro u _ q τ n _ _
    rw [ht]
    trivial

variable {e : Input κ}

theorem Inv.act (h : Inv s) (ht : s.thread t = .locked p ref (.act a k))
    (hstep : s.act t p ref k a e = some s') : Inv s' := by
  obtain ⟨hpre,hk⟩ := h.runs ht
  have hheld : (s.thread t).holds = some p := by rw [ht]; rfl
  have hunlisted {σ : Bool} (hl : ((s.peer p).session σ).life = .absent) :
      ((s.peer p).session σ).listed = false :=
    Bool.eq_false_iff.mpr fun he => (h.anchor.coherent p σ).listed he hl
  have hstay (hpost : (contract ref).post a (s.peer p) (s.peer p)) :
      Inv (s.setThread t (.locked p ref k)) :=
    h.advance hheld (resumed_setThread ..) rfl rfl (by rw [ht]; rfl) (hk _ hpost)
      fun _ _ _ _ _ _ _ => trivial
  -- an action that changes the peer and not the table
  have hchange {u : State θ π κ} (hpost : (contract ref).post a (s.peer p) (a.apply (s.peer p)))
      (hr : Resumed s t p (.locked p ref k) (a.apply (s.peer p)) u) (htable : u.table = s.table)
      (hquiesce : ∀ σ, a ≠ .quiesce (some σ)) (hdel : ∀ σ, a ≠ .thmapDel σ)
      (hzero : ∀ σ, a = .zeroIndex σ → ((s.peer p).session σ).listed = false) : Inv u :=
    h.finish ht hpost hquiesce hr (h.table.apply htable hr.peer hdel hzero)
  cases a <;> cases e <;> try cases hstep
  case assert.go site f =>
    have hf : f (s.peer p) = true := hpre
    rw [if_pos hf]
    exact hstay rfl
  case assertPending.go σ =>
    split
    · exact hstay rfl
    · exact h.aside h.clock _
  case thmapPut.index σ i =>
    split
    · rename_i hfree
      exact h.finish ht ⟨i,rfl⟩ (by simp) ⟨rfl,rfl,rfl,rfl,rfl,rfl,rfl⟩
        (h.table.put hfree (hunlisted hpre) rfl rfl)
    · exact h.aim ht i
  case thmapDel.go σ =>
    have hentry : s.table ((s.peer p).session σ).localIndex = some (p,σ) :=
      (h.table _ p σ).mpr ⟨hpre,rfl⟩
    simp only [if_pos hentry]
    exact h.finish ht rfl (by simp) ⟨rfl,rfl,rfl,rfl,rfl,rfl,rfl⟩ (h.table.del hentry rfl rfl)
  case quiesce.go o =>
    refine h.advance hheld (resumed_setThread ..) rfl rfl (by rw [ht]; rfl) ⟨hpre,hk _ rfl⟩ ?_
    intro u _ q τ n _ hn
    cases o with
    | none => trivial
    | some σ => exact fun _ => h.sections.active u n hn
  case startHandshake.go =>
    exact h.finish ht ⟨s.uptime,h.clock,rfl⟩ (by simp) ⟨rfl,rfl,rfl,rfl,rfl,rfl,rfl⟩
      (h.table.resumed rfl rfl (fun _ => rfl) fun _ _ => rfl)
  case sendData.go σ =>
    exact h.advance hheld ⟨rfl,(update_eq_self p s.peer).symm,rfl,rfl,rfl,rfl,rfl⟩ rfl
      rfl (by rw [ht]; rfl) ⟨hpre,hk _ rfl⟩ fun _ _ _ _ _ _ _ => trivial
  case zeroIndex.go σ =>
    refine hchange rfl ⟨rfl,rfl,rfl,rfl,rfl,rfl,rfl⟩ rfl (by simp) (by simp) ?_
    rintro _ ⟨⟩
    exact hunlisted hpre
  all_goals
    exact hchange rfl ⟨rfl,rfl,rfl,rfl,rfl,rfl,rfl⟩ rfl (by simp) (by simp) (by simp)

omit [DecidableEq θ] [DecidableEq π] in
theorem Pc.allows_of_holds (hx : x.holds = none) (q : π) (σ : Bool) (n : ℕ) : x.Allows q σ n := by
  cases x <;> trivial

section

omit [DecidableEq π]

theorem Inv.moved (h : Inv s) (hm : Moved s t x s') (hlock : Disciplined s')
    (hanchor : x.Anchored s.peer) (hsections : Sectioned s') (hcount : Counted s')
    (hpoint : ∀ u ≠ t, ∀ q σ n, x.points = some (q,σ) → x.section? = some n →
      (s.thread u).Allows q σ n) (hwait : ∀ q σ n, x.Allows q σ n) : Inv s' where
  lock := hlock
  table := h.table.moved hm
  anchor := h.anchor.moved hm hanchor
  sections := hsections
  grace := h.grace.change hm.thread hpoint fun _ _ q σ n _ _ => hwait q σ n
  count := hcount
  clock := hm.uptime ▸ h.clock

theorem Inv.walk (h : Inv s) (hm : Moved s t x s') (hlock : s'.lock = s.lock)
    (ht : (s.thread t).holds = none) (hx : x.holds = none)
    (hready : ∀ q ref k, x = .want q ref k → Resumes ref k)
    (hrefer : ∀ q σ, x.refers = some (q,σ) → ((s.peer q).session σ).life ≠ .absent)
    (hpoint : x.points = none) (hsections : Sectioned s') (hcount : Counted s') : Inv s' := by
  refine h.moved hm (h.lock.moved hm hlock ht hx hready) ⟨hrefer,?_,?_⟩ hsections hcount ?_
    (Pc.allows_of_holds hx)
  · intro q σ hq
    rw [hpoint] at hq
    cases hq
  · rintro a i n q σ rfl
    cases hpoint
  · intro u _ q σ n hq
    rw [hpoint] at hq
    cases hq

theorem Inv.keep (h : Inv s) (hm : Moved s t x s') (hlock : s'.lock = s.lock)
    (hrefs : s'.refs = s.refs) (hactive : s'.active = s.active)
    (hsections : s'.sections = s.sections) (ht : (s.thread t).holds = none) (hx : x.holds = none)
    (hready : ∀ q ref k, x ≠ .want q ref k) (hrefer : x.refers = (s.thread t).refers)
    (hpoint : x.points = none) (hsection : x.section? = (s.thread t).section?) : Inv s' :=
  h.walk hm hlock ht hx (fun q ref k he => absurd he (hready q ref k))
    (fun q σ hq => (h.anchor.thread t).refer q σ (hrefer ▸ hq)) hpoint
    (h.sections.stay hm.thread hactive hsections hsection) (h.count.keep hm.thread hrefs hrefer)

theorem Inv.giveUp (h : Inv s) {n : ℕ} (ht : (s.thread t).holds = none)
    (hrefer : (s.thread t).refers = none) (hsection : (s.thread t).section? = some n) :
    Inv ((s.leave n).setThread t .idle) :=
  h.walk ⟨rfl,rfl,rfl,rfl⟩ rfl ht rfl (by simp) (by simp [Pc.refers]) rfl
    (h.sections.leave rfl rfl rfl hsection rfl) (h.count.keep rfl rfl hrefer.symm)

theorem Inv.get (h : Inv s) {y : π × Bool} (hm : Moved s t x s') (hlock : s'.lock = s.lock)
    (ht : (s.thread t).holds = none) (hx : x.holds = none) (hrefer : x.refers = none)
    (hready : ∀ q ref k, x = .want q ref k → Resumes ref k) (hpoint : x.points = some y)
    (hsevered : ¬(s.peer y.1).Severed y.2) (halive : ((s.peer y.1).session y.2).life ≠ .absent)
    (hindex : ∀ a i n q σ, x = .found a i n q σ → ((s.peer q).session σ).localIndex = i)
    (hsections : Sectioned s') (hcount : Counted s') : Inv s' := by
  refine h.moved hm (h.lock.moved hm hlock ht hx hready) ⟨?_,?_,hindex⟩ hsections hcount ?_
    (Pc.allows_of_holds hx)
  · intro q σ hq
    rw [hrefer] at hq
    cases hq
  · intro q σ hq
    obtain rfl : y = (q,σ) := Option.some.inj (hpoint.symm.trans hq)
    exact halive
  · intro u _ q σ n hq _
    obtain rfl : y = (q,σ) := Option.some.inj (hpoint.symm.trans hq)
    -- nobody waits for a session that can be found
    cases hu : s.thread u with
    | await p' ref' o snap k' =>
      cases o with
      | none => trivial
      | some τ =>
        intro heq
        cases heq
        have hgoal := h.lock.goal u q (by rw [hu]; rfl)
        rw [hu] at hgoal
        exact absurd (hgoal.1 σ rfl) hsevered
    | drain p' ref' τ k' =>
      intro heq
      cases heq
      have hgoal := h.lock.goal u q (by rw [hu]; rfl)
      rw [hu] at hgoal
      exact hsevered hgoal.1
    | _ => trivial

end

omit [DecidableEq θ] [DecidableEq π] in
theorem Pc.section?_of_points {y : π × Bool} (hx : x.points = some y) :
    ∃ n, x.section? = some n := by
  cases x <;> first | exact ⟨_,rfl⟩ | cases hx

omit [DecidableEq θ] in
theorem Pc.Anchored.of_ne {peer : π → Peer} (h : x.Anchored peer) {y : Session}
    (hrefer : x.refers ≠ some (p,σ)) (hpoint : x.points ≠ some (p,σ)) :
    x.Anchored (update peer p ((peer p).set σ y)) := by
  have hsame (q : π) (τ : Bool) (hne : (q,τ) ≠ (p,σ)) :
      (update peer p ((peer p).set σ y) q).session τ = (peer q).session τ := by
    by_cases hq : q = p
    · subst hq
      have hτ : τ ≠ σ := fun he => hne (by rw [he])
      simp [Peer.set,hτ]
    · simp [hq]
  refine ⟨?_,?_,?_⟩
  · intro q τ hq
    rw [hsame q τ fun he => hrefer (he ▸ hq)]
    exact h.refer q τ hq
  · intro q τ hq
    rw [hsame q τ fun he => hpoint (he ▸ hq)]
    exact h.point q τ hq
  · intro a i n q τ hq
    rw [hsame q τ fun he => hpoint (by rw [hq,← he]; rfl)]
    exact h.index a i n q τ hq

theorem Inv.drain (h : Inv s) (ht : s.thread t = .drain p ref σ k) (hrefs : s.refs p σ = 0) :
    Inv ((s.setPeer p ((s.peer p).drained σ)).setThread t (.locked p ref k)) := by
  have hheld : (s.thread t).holds = some p := by rw [ht]; rfl
  have hgoal := h.lock.goal t p hheld
  rw [ht] at hgoal
  obtain ⟨hsevered,hk⟩ := hgoal
  have hrefer (u : θ) : (s.thread u).refers ≠ some (p,σ) := by
    intro hu
    exact (h.count p σ).not_zero hu hrefs
  have hpoint (u : θ) : (s.thread u).points ≠ some (p,σ) := by
    intro hu
    obtain ⟨n,hn⟩ := Pc.section?_of_points hu
    have hallows := h.grace u t p σ n hu hn
    rw [ht] at hallows
    exact hallows rfl
  have hr : Resumed s t p (.locked p ref k) ((s.peer p).drained σ)
      ((s.setPeer p ((s.peer p).drained σ)).setThread t (.locked p ref k)) :=
    ⟨rfl,rfl,rfl,rfl,rfl,rfl,rfl⟩
  have hsame : (Pc.locked p ref k).refers = (s.thread t).refers := by rw [ht]; rfl
  refine ⟨h.lock.resumed hr hheld rfl hk,?_,⟨?_,?_⟩,?_,?_,h.count.keep hr.thread rfl hsame,h.clock⟩
  · refine h.table.resumed rfl rfl ?_ ?_ <;> intro τ <;>
      by_cases hτ : τ = σ <;> simp [Peer.drained,Peer.set,hτ]
  · exact (Function.forall_update_iff s.peer fun _ v => v.Coherent).mpr
      ⟨(h.anchor.coherent p).drained hsevered,fun q _ => h.anchor.coherent q⟩
  · refine (Function.forall_update_iff s.thread fun _ y => y.Anchored _).mpr ⟨?_,fun u _ => ?_⟩
    · exact ((h.anchor.thread t).of_ne (hrefer t) (hpoint t)).holder rfl hsame
    · exact (h.anchor.thread u).of_ne (hrefer u) (hpoint u)
  · exact h.sections.stay rfl rfl rfl (by rw [ht]; rfl)
  · refine h.grace.change rfl ?_ fun _ _ _ _ _ _ _ => trivial
    intro u _ q τ n hq
    cases hq

/-! ## Steps -/

theorem resumes_handleMsgInit : Resumes ref (handleMsgInit .done) :=
  fun _ h => runs_handleMsgInit h resumes_done

omit [DecidableEq π] in
theorem resumes_received {a : Handler} {q : π}
    (hx : State.received p σ a = .want q ref k) : Resumes ref k := by
  cases a with
  | resp =>
    obtain ⟨-,rfl,rfl⟩ := hx
    exact fun _ h => runs_handleMsgResp h resumes_done
  | cookie =>
    obtain ⟨-,rfl,rfl⟩ := hx
    exact fun _ h => runs_handleMsgCookie h resumes_done
  | data => cases hx

omit [DecidableEq π] in
theorem refers_received (p : π) (σ : Bool) (a : Handler) :
    (State.received p σ a).refers = some (p,σ) := by cases a <;> rfl

theorem Inv.acquire (h : Inv s) {n : ℕ} (hpoint : (s.thread t).points = some (p,σ))
    (hsection : (s.thread t).section? = some n) (ht : (s.thread t).holds = none)
    (hrefer : (s.thread t).refers = none) (hx : x.holds = none) (hxpoint : x.points = none)
    (hxsection : x.section? = none) (hxrefer : x.refers = some (p,σ))
    (hready : ∀ q ref k, x = .want q ref k → Resumes ref k) :
    Inv ((s.acquire n p σ).setThread t x) := by
  refine h.walk ⟨rfl,rfl,rfl,rfl⟩ rfl ht hx hready ?_ hxpoint ?_ ?_
  · intro q τ hq
    obtain ⟨rfl,rfl⟩ := Prod.mk.inj (Option.some.inj (hxrefer.symm.trans hq))
    exact (h.anchor.thread t).point p σ hpoint
  · exact h.sections.leave rfl rfl rfl hsection hxsection
  · exact h.count.acquire rfl rfl hrefer hxrefer

theorem Inv.unlock (h : Inv s) (ht : (s.thread t).holds = some p) (hsettled : (s.peer p).Settled)
    (hx : x.holds = none) (hpoint : x.points = none) (hsection : x.section? = none)
    (href : x.refers = (s.thread t).refers)
    (hready : ∀ q ref k, x = .want q ref k → Resumes ref k) :
    Inv { s.setThread t x with lock := update s.lock p none } := by
  have hm : Moved s t x { s.setThread t x with lock := update s.lock p none } :=
    ⟨rfl,rfl,rfl,rfl⟩
  refine h.moved hm (h.lock.unlock ht hm hx hsettled hready rfl) ⟨?_,?_,?_⟩ ?_ ?_ ?_
    (Pc.allows_of_holds hx)
  · intro q τ hq
    exact (h.anchor.thread t).refer q τ (href ▸ hq)
  · intro q τ hq
    rw [hpoint] at hq
    cases hq
  · rintro a i n q τ rfl
    cases hpoint
  · exact h.sections.stay rfl rfl rfl (hsection.trans (Pc.section?_of_holds ht).symm)
  · exact h.count.keep rfl rfl href
  · intro u _ q τ n hq
    rw [hpoint] at hq
    cases hq

theorem Inv.lock_step (h : Inv s) (ht : s.thread t = .want p ref k) (hfree : s.lock p = none) :
    Inv { s.setThread t (.locked p ref k) with lock := update s.lock p (some t) } := by
  have hm : Moved s t (.locked p ref k)
      { s.setThread t (.locked p ref k) with lock := update s.lock p (some t) } :=
    ⟨rfl,rfl,rfl,rfl⟩
  have href : (Pc.locked p ref k).refers = (s.thread t).refers := by rw [ht]; rfl
  refine h.moved hm (h.lock.lock ht hfree hm rfl) ((h.anchor.thread t).holder rfl href) ?_ ?_ ?_ ?_
  · exact h.sections.stay rfl rfl rfl (by rw [ht]; rfl)
  · exact h.count.keep rfl rfl href
  · intro u _ q τ n hq
    cases hq
  · exact fun _ _ _ => trivial

theorem Inv.advance_locked (h : Inv s) (ht : s.thread t = .locked p ref k)
    (hstep : s.advance t (.locked p ref k) e = some s') : Inv s' := by
  have hheld : (s.thread t).holds = some p := by rw [ht]; rfl
  have hruns := h.runs ht
  cases k with
  | act a k => exact h.act ht hstep
  | read f k =>
    cases e <;> try cases hstep
    exact h.advance hheld (resumed_setThread ..) rfl rfl (by rw [ht]; rfl) hruns
      fun _ _ _ _ _ _ _ => trivial
  | ask k =>
    cases e <;> try cases hstep
    exact h.advance hheld (resumed_setThread ..) rfl rfl (by rw [ht]; rfl) (hruns _)
      fun _ _ _ _ _ _ _ => trivial
  | done =>
    cases e <;> try cases hstep
    refine h.unlock hheld hruns ?_ ?_ ?_ ?_ ?_
    · cases ref <;> rfl
    · cases ref <;> rfl
    · cases ref <;> rfl
    · rw [ht]
      cases ref <;> rfl
    · intro q ref' k' hx
      cases ref <;> cases hx
  | pause k =>
    cases e <;> try cases hstep
    refine h.unlock hheld hruns.1 rfl rfl rfl (by rw [ht]; rfl) ?_
    rintro q ref' k' ⟨⟩
    exact hruns.2

theorem Inv.advance_holder (h : Inv s) (ht : (s.thread t).holds = some p)
    (hstep : s.advance t (s.thread t) e = some s') : Inv s' := by
  have hgoal := h.lock.goal t p ht
  generalize hx : s.thread t = y at hstep hgoal
  have hy : y.holds = some p := hx ▸ ht
  have href : y.refers = (s.thread t).refers := congrArg Pc.refers hx.symm
  cases y with
  | locked p' ref k => exact h.advance_locked hx hstep
  | await p' ref o snap k =>
    cases hy
    cases e <;> try cases hstep
    obtain ⟨hended,rfl⟩ := of_guard hstep
    cases o with
    | none =>
      exact h.advance ht (resumed_setThread ..) rfl rfl href hgoal.2 fun _ _ _ _ _ _ _ => trivial
    | some σ =>
      refine h.advance ht (resumed_setThread ..) rfl rfl href ⟨hgoal.1 σ rfl,hgoal.2⟩ ?_
      -- a read section with a pointer to the session is one that has been waited for
      intro u _ q τ n hpoint hn heq
      have hallows := h.grace u t q τ n hpoint hn
      rw [hx] at hallows
      exact hended n (hallows heq) (h.sections.active u n hn)
  | drain p' ref σ k =>
    cases e <;> try cases hstep
    obtain ⟨hrefs,rfl⟩ := of_guard hstep
    exact h.drain hx hrefs
  | shipping p' ref σ c k =>
    cases hy
    cases e <;> try cases hstep
    exact h.advance ht ⟨rfl,(update_eq_self p s.peer).symm,rfl,rfl,rfl,rfl,rfl⟩ rfl rfl href hgoal.2
      fun _ _ _ _ _ _ _ => trivial
  | _ => cases hy

theorem Inv.advance_free (h : Inv s) (ht : (s.thread t).holds = none)
    (hstep : s.advance t (s.thread t) e = some s') : Inv s' := by
  have hanchor := h.anchor.thread t
  generalize hx : s.thread t = y at hstep
  have hy : y.holds = none := hx ▸ ht
  have href : (s.thread t).refers = y.refers := congrArg Pc.refers hx
  have hpoint : (s.thread t).points = y.points := congrArg Pc.points hx
  have hsection : (s.thread t).section? = y.section? := congrArg Pc.section? hx
  cases y with
  | idle => cases hstep
  | lookup a i n =>
    cases e <;> try cases hstep
    split
    · exact h.giveUp ht href hsection
    · rename_i q τ hentry
      obtain ⟨hlisted,hindex⟩ := (h.table i q τ).mp hentry
      refine h.get (y := (q,τ)) ⟨rfl,rfl,rfl,rfl⟩ rfl ht rfl rfl (by simp) rfl
        (fun hs => by simp [hs.1] at hlisted) ((h.anchor.coherent q τ).listed hlisted) ?_
        (h.sections.stay rfl rfl rfl hsection.symm) (h.count.keep rfl rfl href.symm)
      rintro _ _ _ _ _ ⟨⟩
      exact hindex
  | found a i n q τ =>
    cases e <;> try cases hstep
    rw [if_pos (hanchor.index a i n q τ hx)]
    refine h.acquire hpoint hsection ht href ?_ ?_ ?_ (refers_received q τ a)
      fun _ _ _ => resumes_received
    all_goals cases a <;> rfl
  | loaded n q τ =>
    cases e <;> try cases hstep
    split
    · rename_i hest
      have hused := (h.anchor.coherent q τ).used hest
      exact h.get (y := (q,τ)) ⟨rfl,rfl,rfl,rfl⟩ rfl ht rfl rfl (by simp) rfl
        (fun hs => hs.2 hest) (by simp [hused]) (by simp)
        (h.sections.stay rfl rfl rfl hsection.symm) (h.count.keep rfl rfl href.symm)
    · exact h.giveUp ht href hsection
  | checked n q τ =>
    cases e <;> try cases hstep
    exact h.acquire hpoint hsection ht href rfl rfl rfl rfl (by simp)
  | sender q τ =>
    cases e <;> try cases hstep
    split <;> exact h.keep ⟨rfl,rfl,rfl,rfl⟩ rfl rfl rfl rfl ht rfl (by simp) href.symm rfl
      hsection.symm
  | load | sending =>
    cases e <;> try cases hstep
    exact h.keep ⟨rfl,rfl,rfl,rfl⟩ rfl rfl rfl rfl ht rfl (by simp) href.symm rfl hsection.symm
  | held q τ =>
    cases e <;> try cases hstep
    exact h.walk ⟨rfl,rfl,rfl,rfl⟩ rfl ht rfl (by simp) (by simp [Pc.refers]) rfl
      (h.sections.stay rfl rfl rfl hsection.symm) (h.count.release rfl rfl href rfl)
  | want q ref k =>
    cases e <;> try cases hstep
    obtain ⟨hfree,rfl⟩ := of_guard hstep
    exact h.lock_step hx hfree
  | _ => cases hy

omit [DecidableEq π] in
theorem Inv.call (h : Inv s) (ht : s.thread t = .idle) (c : Call π) : Inv (s.call t c) := by
  have hheld : (s.thread t).holds = none := by rw [ht]; rfl
  have href : none = (s.thread t).refers := by rw [ht]; rfl
  have hwant (q : π) {k : Section} (hk : Resumes none k) : Inv (s.setThread t (.want q none k)) := by
    refine h.walk ⟨rfl,rfl,rfl,rfl⟩ rfl hheld rfl ?_ (by simp [Pc.refers]) rfl
      (h.sections.stay rfl rfl rfl (by rw [ht]; rfl)) (h.count.keep rfl rfl href)
    rintro _ _ _ ⟨⟩
    exact hk
  cases c with
  | init q => exact hwant q resumes_handleMsgInit
  | work q tasks => exact hwant q (resumes_peerWork tasks)
  | receive | send =>
    exact h.walk ⟨rfl,rfl,rfl,rfl⟩ rfl hheld rfl (by simp) (by simp [Pc.refers]) rfl
      (h.sections.enter rfl rfl rfl rfl) (h.count.keep rfl rfl href)

omit [DecidableEq π] in
theorem Pc.eq_idle (hx : x.isIdle = true) : x = .idle := by
  cases x <;> first | rfl | cases hx

theorem Inv.step (h : Inv s) {e : Event θ π κ} (hstep : step s e = some s') : Inv s' := by
  obtain ⟨-,hstep⟩ := Option.ite_none_left_eq_some.mp hstep
  cases e with
  | tick =>
    cases hstep
    exact h.aside (Nat.succ_ne_zero _) s.panicked
  | call t c =>
    obtain ⟨hidle,rfl⟩ := of_guard hstep
    exact h.call (Pc.eq_idle hidle) c
  | step t e =>
    cases ht : (s.thread t).holds with
    | none => exact h.advance_free ht hstep
    | some p => exact h.advance_holder ht hstep

omit [DecidableEq θ] [DecidableEq π] in
theorem Inv.init : Inv (State.init : State θ π κ) where
  lock := by
    refine ⟨by simp [State.init,Pc.holds],?_,by simp [State.init,Pc.holds],by simp [State.init]⟩
    intro p _
    exact ⟨.inl rfl,by simp [State.init,Peer.fresh,Peer.state,Session.fresh],
      fun σ => ⟨by simp [State.init,Peer.fresh,Session.fresh],rfl⟩,
      by simp [State.init,Peer.fresh,Peer.state,Session.fresh],by simp [State.init,Peer.fresh]⟩
  table := by simp [Indexed,State.init,Peer.fresh,Session.fresh]
  anchor := by
    refine ⟨fun p σ => ⟨by simp [State.init,Peer.fresh,Session.fresh],
      by simp [State.init,Peer.fresh,Session.fresh]⟩,fun t => ⟨?_,?_,?_⟩⟩
    all_goals simp [State.init,Pc.refers,Pc.points]
  sections := by
    refine ⟨?_,?_,?_⟩
    all_goals simp [State.init,Pc.section?]
  grace := by simp [Graced,State.init,Pc.points]
  count p σ := Tally.of_forall_not (by simp [State.init,Pc.refers])
  clock := by simp [State.init]

theorem inv_exec {es : List (Event θ π κ)} (hrun : exec step .init es = some s) : Inv s :=
  exec_invariant Inv (fun _ _ _ h hstep => h.step hstep) .init hrun

/-! ## Assertions -/

def Trips (s : State θ π κ) : Event θ π κ → Prop
  | .step t _ => ∃ p ref σ k, s.thread t = .locked p ref (.act (.assertPending σ) k) ∧
      (s.peer p).state σ ≠ .initActive ∧ (s.peer p).state σ ≠ .initPassive
  | _ => False

theorem Inv.panicked_act (h : Inv s) (hnone : s.panicked = none)
    (ht : s.thread t = .locked p ref (.act a k)) (hstep : s.act t p ref k a e = some s') :
    s'.panicked = none ∨ s'.panicked = some .handleMsgCookie ∧ Trips s (.step t e) := by
  obtain ⟨hpre,-⟩ := h.runs ht
  cases a <;> cases e <;> try cases hstep
  case assert.go site f =>
    have hf : f (s.peer p) = true := hpre
    rw [if_pos hf]
    exact .inl hnone
  case assertPending.go σ =>
    split
    · exact .inl hnone
    · rename_i hno
      exact .inr ⟨rfl,p,ref,σ,k,ht,not_or.mp hno⟩
  case thmapDel.go σ =>
    simp only [if_pos ((h.table _ p σ).mpr ⟨hpre,rfl⟩)]
    exact .inl hnone
  case thmapPut.index σ i => split <;> exact .inl hnone
  all_goals exact .inl hnone

theorem Inv.panicked (h : Inv s) {e : Event θ π κ} (hstep : Sessions.step s e = some s') :
    s'.panicked = none ∨ s'.panicked = some .handleMsgCookie ∧ Trips s e := by
  obtain ⟨hpanic,hstep⟩ := Option.ite_none_left_eq_some.mp hstep
  have hnone : s.panicked = none := Option.not_isSome_iff_eq_none.mp hpanic
  cases e with
  | tick =>
    cases hstep
    exact .inl hnone
  | call t c =>
    obtain ⟨-,rfl⟩ := of_guard hstep
    cases c <;> exact .inl hnone
  | step t e =>
    simp only at hstep
    cases hx : s.thread t <;> rw [hx] at hstep
    case locked p ref k =>
      cases k with
      | act a k => exact h.panicked_act hnone hx hstep
      | _ =>
        cases e <;> cases hstep
        exact .inl hnone
    case found a i n q τ =>
      cases e <;> try cases hstep
      rw [if_pos ((h.anchor.thread t).index a i n q τ hx)]
      exact .inl hnone
    case lookup | loaded | sender =>
      cases e <;> try cases hstep
      split <;> exact .inl hnone
    case want | await | drain =>
      cases e <;> try cases hstep
      obtain ⟨-,rfl⟩ := of_guard hstep
      exact .inl hnone
    all_goals cases e <;> cases hstep <;> exact .inl hnone

/-- With the lock of a peer free, its stable session is unknown or established, its unstable one not
established, its sessions are in the table exactly if not unknown, each under its own index, and a
handshake begun has a start time. No assertion of the handshakes and tasks fails. -/
theorem sessions_settled {es : List (Event θ π κ)} (hrun : exec step .init es = some s) :
    (∀ p, s.lock p = none →
      ((s.peer p).state (s.peer p).stable = .unknown ∨
        (s.peer p).state (s.peer p).stable = .established) ∧
      (s.peer p).state (s.peer p).unstable ≠ .established ∧
      (∀ σ, s.table ((s.peer p).session σ).localIndex = some (p,σ) ↔
        (s.peer p).state σ ≠ .unknown) ∧
      ∀ σ, (s.peer p).state σ = .initActive → (s.peer p).handshakeStartTime ≠ 0) ∧
    (∀ i p σ, s.table i = some (p,σ) → ((s.peer p).session σ).localIndex = i) ∧
    (∀ p q σ τ, s.lock p = none → s.lock q = none →
      (s.peer p).state σ ≠ .unknown → (s.peer q).state τ ≠ .unknown →
      ((s.peer p).session σ).localIndex = ((s.peer q).session τ).localIndex → (p,σ) = (q,τ)) ∧
    ∀ site, s.panicked = some site → site = .handleMsgCookie := by
  have h := inv_exec hrun
  have htable (p : π) (σ : Bool) (hp : s.lock p = none) :
      s.table ((s.peer p).session σ).localIndex = some (p,σ) ↔ (s.peer p).state σ ≠ .unknown := by
    rw [h.table _ p σ,and_iff_left rfl]
    exact ((h.lock.free p hp).session σ).listed
  refine ⟨?_,?_,?_,?_⟩
  · intro p hp
    have hset := h.lock.free p hp
    exact ⟨hset.stable,hset.unstable,fun σ => htable p σ hp,hset.start⟩
  · intro i p σ hi
    exact ((h.table i p σ).mp hi).2
  · intro p q σ τ hp hq hσ hτ heq
    have hentry := (htable p σ hp).mpr hσ
    rw [heq,(htable q τ hq).mpr hτ] at hentry
    exact (Option.some.inj hentry).symm
  · refine exec_invariant (fun s => Inv s ∧ ∀ site, s.panicked = some site → site = .handleMsgCookie)
      ?_ ⟨.init,by simp [State.init]⟩ hrun |>.2
    rintro u e v ⟨hu,-⟩ hstep
    refine ⟨hu.step hstep,fun site hsite => ?_⟩
    rcases hu.panicked hstep with hnone | ⟨hsome,-⟩
    · rw [hnone] at hsite
      cases hsite
    · exact Option.some.inj (hsite.symm.trans hsome)

theorem handshake_settled :
    ∃ s, exec step .init handshake = some s ∧ s.lock () = none ∧
      (s.peer ()).state false = .established ∧
      s.table ((s.peer ()).session false).localIndex = some ((),false) ∧
      ∀ site, s.panicked = some site → site = .handleMsgCookie := by
  obtain ⟨s,hrun,hlock,hstate⟩ : ∃ s, exec step .init handshake = some s ∧ s.lock () = none ∧
      (s.peer ()).state false = .established := by decide +kernel
  obtain ⟨hpeer,-,-,hpanic⟩ := sessions_settled hrun
  obtain ⟨-,-,htable,-⟩ := hpeer () hlock
  exact ⟨s,hrun,hlock,hstate,(htable false).mpr (by simp [hstate]),hpanic⟩

/-- A session about to get a new index or to lose its old one is not referred to by any thread, and
none has found it by its index or seen it established in a read section it is still in. References
are counted. -/
theorem reused_unreferenced {es : List (Event θ π κ)} (hrun : exec step .init es = some s) :
    (∀ t p ref a k σ, s.thread t = .locked p ref (.act a k) → a = .thmapPut σ ∨ a = .zeroIndex σ →
      ∀ u, (s.thread u).refers ≠ some (p,σ) ∧ (s.thread u).points ≠ some (p,σ)) ∧
    ∀ p σ, {t | (s.thread t).refers = some (p,σ)}.encard = s.refs p σ := by
  have h := inv_exec hrun
  refine ⟨?_,h.count⟩
  intro t p ref a k σ ht ha u
  have habsent : ((s.peer p).session σ).life = .absent := by
    obtain ⟨hpre,-⟩ := h.runs ht
    rcases ha with rfl | rfl <;> exact hpre
  exact ⟨fun hu => (h.anchor.thread u).refer p σ hu habsent,
    fun hu => (h.anchor.thread u).point p σ hu habsent⟩

theorem handshake_referenced :
    ∃ s, exec step .init (handshake ++ .call true (.send ()) :: goes true 3) = some s ∧
      {t | (s.thread t).refers = some ((),false)}.encard = 1 := by
  obtain ⟨s,hrun,hrefs⟩ : ∃ s, exec step .init
      (handshake ++ .call true (.send ()) :: goes true 3) = some s ∧ s.refs () false = 1 := by
    decide +kernel
  exact ⟨s,hrun,by simpa [hrefs] using (reused_unreferenced hrun).2 () false⟩

end NanoBSD.Wg.Sessions
