import NanoBSD.Wg.System

/-! # No message on a session past its limits

The transmit path and the persistent keepalive look at the limits of the session before they
send, and a session is new when the response that establishes it is handled. The passive
keepalive and the task that establishes a session as responder send without a look.
-/
namespace NanoBSD.Wg
open Option

/-- Every message was encrypted within the limits; the stable session is established or unknown, and
an unstable one that waits for a packet has sent none. -/
structure Safe (P : Params) (log : List Encryption) (stable : SessionState)
    (unstable : Session) : Prop where
  within : ∀ e ∈ log, e.session.hitLimits P e.now = false
  stable : stable = .unknown ∨ stable = .established
  passive : unstable.state = .initPassive → unstable.sendCounter = 0

variable {P : Params} {s : Session}

theorem Safe.setUnstable {log : List Encryption} {stable : SessionState}
    {unstable : Session} (h : Safe P log stable unstable)
    (hs : s.state = .initPassive → s.sendCounter = 0) : Safe P log stable s :=
  ⟨h.within,h.stable,hs⟩

theorem Session.hitLimits_eq_false {now : UInt32}
    (hage : ¬P.rejectAfterTime < s.age now) (hcounter : s.sendCounter = 0) :
    s.hitLimits P now = false := by
  simp [hitLimits,hage,hcounter]

namespace Peer
variable {κ : Type} {p q : Peer κ} {P : Params} {d : Delivery} {error moved : Bool} {slot : Slot}

def Guarded (P : Params) (p : Peer κ) : Prop := Safe P p.log p.stable.state p.unstable

def outline (p : Peer κ) : List Encryption × SessionState × Session :=
  (p.log,p.stable.state,p.unstable)

theorem Guarded.of_outline (h : Guarded P p) (ho : q.outline = p.outline) : Guarded P q := by
  simp only [outline,Prod.mk.injEq] at ho
  obtain ⟨hlog,hstable,hunstable⟩ := ho
  unfold Guarded
  rwa [hlog,hstable,hunstable]

/-! ## Messages -/

theorem outline_checkRekeyAfterTime : (p.checkRekeyAfterTime P).outline = p.outline := by
  unfold checkRekeyAfterTime
  split_ifs <;> rfl

theorem outline_checkRekeyAfterMessages : (p.checkRekeyAfterMessages P).outline = p.outline := by
  unfold checkRekeyAfterMessages
  split_ifs <;> rfl

theorem Guarded.encrypt (h : Guarded P p) (hlimits : p.stable.hitLimits P p.now = false) :
    Guarded P p.encrypt :=
  ⟨List.forall_mem_cons.mpr ⟨hlimits,h.within⟩,h.stable,h.passive⟩

theorem Guarded.sendDataMsg (h : Guarded P p) (hlimits : p.stable.hitLimits P p.now = false) :
    Guarded P (p.sendDataMsg P d) := by
  cases d with
  | noBuffer => exact h
  | failed => exact h.encrypt hlimits
  | sent =>
    have hstamp : Guarded P p.encrypt.stampSent := h.encrypt hlimits
    exact (hstamp.of_outline outline_checkRekeyAfterTime).of_outline outline_checkRekeyAfterMessages

theorem Guarded.wgintr (h : Guarded P p) : Guarded P (p.wgintr P d) := by
  unfold Peer.wgintr
  split_ifs with _ _ hlimits
  · exact h
  · exact h
  · exact h
  · exact h
  · exact h.sendDataMsg (Bool.eq_false_of_not_eq_true hlimits)

/-! ## Handshakes -/

section
variable (h : Guarded P p)
include h

theorem Guarded.initiate : Guarded P (p.initiate P error) := by
  unfold Peer.initiate
  by_cases herror : error = true
  · rw [if_pos herror]
    exact Safe.setUnstable h nofun
  · rw [if_neg herror]
    exact Safe.setUnstable h nofun

theorem Guarded.destroy : Guarded P { p with unstable := p.unstable.destroy } :=
  Safe.setUnstable h nofun

theorem Guarded.sendHandshakeMsgInit : Guarded P (p.sendHandshakeMsgInit P error) := by
  unfold Peer.sendHandshakeMsgInit
  split
  exacts [h.initiate,h,h,h,h.destroy.initiate]

theorem Guarded.kickOff (hlimits : p.pending = true ∨ p.stable.isInitiator = true →
      p.stable.hitLimits P p.now = false) : Guarded P (p.kickOff P d) := by
  unfold Peer.kickOff
  split_ifs with hpending hinitiator
  · have hcleared : Guarded P { p with pending := false } := h
    exact hcleared.sendDataMsg (hlimits (.inl hpending))
  · exact h.sendDataMsg (hlimits (.inr hinitiator))
  · exact h

/-- The new stable session must be within the limits if there is something to send on it. -/
theorem Guarded.swapSessions (hestablished : p.unstable.state = .established)
    (hlimits : p.pending = true ∨ p.unstable.isInitiator = true →
      p.unstable.hitLimits P p.now = false) : Guarded P (p.swapSessions P d) := by
  have hretire : p.stable.retire.state = .initPassive → p.stable.retire.sendCounter = 0 := by
    unfold Session.retire
    split_ifs <;> exact nofun
  have hpublished : Guarded P { p with
      stable := p.unstable, unstable := p.stable, handshakeStartTime := 0 } := by
    refine ⟨h.within,.inr hestablished,fun hpassive => ?_⟩
    obtain hs | hs := h.stable <;> cases hs.symm.trans hpassive
  exact Safe.setUnstable (hpublished.kickOff hlimits) hretire

theorem Guarded.updateEndpoint : Guarded P (p.updateEndpoint moved) := by
  unfold Peer.updateEndpoint
  split_ifs <;> exact h

end

theorem outline_scheduleSessionDtorTimer : (p.scheduleSessionDtorTimer P).outline = p.outline := by
  unfold scheduleSessionDtorTimer
  split_ifs <;> rfl

theorem Guarded.stampEstablished (h : Guarded P p) :
    Guarded P (p.stampEstablished P .unstable) := by
  have hset : Guarded P (p.setSession .unstable { p.unstable with timeEstablished := p.now }) :=
    Safe.setUnstable h h.passive
  exact hset.of_outline outline_scheduleSessionDtorTimer

theorem Guarded.respond (h : Guarded P p) : Guarded P (p.respond P moved) :=
  Safe.setUnstable h.updateEndpoint.stampEstablished fun _ => rfl

theorem Guarded.handleMsgInit {priority : Bool} (h : Guarded P p) :
    Guarded P (p.handleMsgInit P priority moved) := by
  unfold Peer.handleMsgInit
  split
  · exact h.respond
  · split_ifs
    exacts [h,h.destroy.respond]
  · exact h.destroy.respond
  · exact h
  · exact h.destroy.respond

theorem age_stampEstablished :
    (p.stampEstablished P .unstable).unstable.age (p.stampEstablished P .unstable).now = 0 := by
  have hunstable : (p.stampEstablished P .unstable).unstable.timeEstablished = p.now :=
    congrArg (fun o => o.2.2.timeEstablished) outline_scheduleSessionDtorTimer
  have hkept : Kept (fun _ => True) p (p.stampEstablished P .unstable) :=
    kept_stampEstablished trivial
  rw [Session.age,hunstable,now,now,hkept.uptime,UInt32.sub_self]

theorem Guarded.handleMsgResp (h : Guarded P p) : Guarded P (p.handleMsgResp P slot moved d) := by
  unfold Peer.handleMsgResp
  split_ifs with hstate
  · exact h
  cases slot with
  | stable =>
    obtain hs | hs := h.stable <;> cases hs.symm.trans (not_not.mp hstate)
  | unstable =>
    have hq : Guarded P ((p.updateEndpoint moved).stampEstablished P .unstable) :=
      h.updateEndpoint.stampEstablished
    refine Guarded.swapSessions (Safe.setUnstable hq nofun) rfl fun _ => ?_
    refine Session.hitLimits_eq_false ?_ rfl
    exact fun hlt => UInt32.not_lt_zero (age_stampEstablished ▸ hlt)

theorem Guarded.askAfterData {s : Session} (h : Guarded P p) : Guarded P (p.askAfterData P s) := by
  unfold Peer.askAfterData
  split_ifs <;> exact h

theorem Guarded.handleMsgData (h : Guarded P p) : Guarded P (p.handleMsgData P slot moved) := by
  unfold Peer.handleMsgData
  dsimp only
  split_ifs
  exacts [h,h,h.updateEndpoint,h.updateEndpoint.askAfterData]

theorem Guarded.input {i : Input} (h : Guarded P p) : Guarded P (p.input P i) := by
  cases i with
  | init priority moved => exact h.handleMsgInit
  | resp slot moved d => exact h.handleMsgResp
  | data slot moved => exact h.handleMsgData
  | packet d => exact h.wgintr

/-! ## Tasks -/

theorem Guarded.taskSendInitMessage (h : Guarded P p) :
    Guarded P (p.taskSendInitMessage P error) := by
  unfold Peer.taskSendInitMessage
  split_ifs
  exacts [h,h,h.sendHandshakeMsgInit]

theorem Guarded.taskRetryHandshake (h : Guarded P p) :
    Guarded P (p.taskRetryHandshake P error) := by
  unfold Peer.taskRetryHandshake
  split_ifs
  exacts [h,h.destroy,h.destroy.taskSendInitMessage]

theorem Guarded.taskDestroyPrevSession (h : Guarded P p) :
    Guarded P (p.taskDestroyPrevSession P) := by
  have hunstable : Guarded P (p.dropUnstable P) := by
    unfold dropUnstable
    split_ifs
    exacts [Safe.setUnstable h nofun,h]
  have hstable : Guarded P ((p.dropUnstable P).dropStable P) := by
    unfold dropStable
    split_ifs
    exacts [⟨hunstable.within,.inl rfl,hunstable.passive⟩,hunstable]
  unfold Peer.taskDestroyPrevSession
  dsimp only
  split_ifs <;> exact hstable

theorem Guarded.keepaliveSend (h : Guarded P p) : Guarded P (p.keepaliveSend P error d) := by
  unfold Peer.keepaliveSend
  by_cases hsend : p.stable.state = .established ∧ p.stable.hitLimits P p.now = false
  · rw [if_pos hsend]
    exact h.sendDataMsg hsend.2
  · rw [if_neg hsend]
    have hs : Guarded P { p with stable := if p.stable.state = .established
        then { p.stable with forceRekey := true } else p.stable } := by
      split_ifs <;> exact h
    exact hs.taskSendInitMessage

theorem Guarded.taskPersistentKeepalive (h : Guarded P p) :
    Guarded P (p.taskPersistentKeepalive P error d) := by
  unfold Peer.taskPersistentKeepalive
  split_ifs
  exacts [h,h.keepaliveSend,h]

def SendsWithin (P : Params) (p : Peer κ) : Task → Prop
  | .sendKeepaliveMessage => p.stable.state = .established → p.stable.hitLimits P p.now = false
  | .establishSession =>
    p.unstable.state = .initPassive → p.pending = true → ¬P.rejectAfterTime < p.unstable.age p.now
  | _ => True

instance (p : Peer κ) : (task : Task) → Decidable (p.SendsWithin P task)
  | .sendKeepaliveMessage | .establishSession => inferInstanceAs (Decidable (_ → _))
  | .sendInitMessage | .retryHandshake | .endpointChanged | .destroyPrevSession
  | .persistentKeepalive => isTrue trivial

theorem Guarded.taskEstablishSession (h : Guarded P p)
    (hwithin : p.SendsWithin P .establishSession) : Guarded P (p.taskEstablishSession P d) := by
  unfold Peer.taskEstablishSession
  split_ifs with hstate
  · exact h
  have hpassive := not_not.mp hstate
  refine Guarded.swapSessions (Safe.setUnstable h nofun) rfl fun hsend => ?_
  have hpending : p.pending = true := hsend.resolve_right nofun
  exact Session.hitLimits_eq_false (hwithin hpassive hpending) (h.passive hpassive)

theorem Guarded.runTask {task : Task} (h : Guarded P p) (hwithin : p.SendsWithin P task) :
    Guarded P (p.runTask P error d task) := by
  cases task with
  | sendInitMessage => exact h.taskSendInitMessage
  | retryHandshake => exact h.taskRetryHandshake
  | establishSession => exact h.taskEstablishSession hwithin
  | endpointChanged => exact h
  | sendKeepaliveMessage =>
    unfold Peer.runTask Peer.taskSendKeepaliveMessage
    split_ifs with hstate
    exacts [h,h.sendDataMsg (hwithin (not_not.mp hstate))]
  | destroyPrevSession => exact h.taskDestroyPrevSession
  | persistentKeepalive => exact h.taskPersistentKeepalive

theorem Guarded.callback {t : TimerName} (h : Guarded P p) : Guarded P (p.callback P t) := by
  cases t with
  | handshakeTimeout => exact h
  | sessionDtor => exact h.of_outline outline_scheduleSessionDtorTimer
  | persistentKeepalive => exact h

end Peer

namespace System
variable {κ : Type} {P : Params} {s t : System κ} [DecidableEq κ]

def WithinLimits (P : Params) : System κ → Event κ → Prop :=
  OnTask fun s _ task => s.peer.SendsWithin P task

instance (P : Params) (s : System κ) (e : Event κ) : Decidable (WithinLimits P s e) :=
  decidableOnTask s e

omit [DecidableEq κ] in
theorem guarded_setRunning {on : Bool} (h : s.peer.Guarded P) :
    (s.setRunning P on).peer.Guarded P := by
  simp only [setRunning,setPeer,Peer.persistentKeepaliveAll]
  split_ifs <;> exact h

theorem guarded_work {e : Peer.WorkerEvent κ} {q : Peer κ} (h : s.peer.Guarded P)
    (hwithin : WithinLimits P s (.work e)) (hwork : s.peer.workerStep P e = some q) :
    q.Guarded P := by
  obtain ⟨we,w,changing,-,-,rfl⟩ | ⟨k,error,d,task,todo,rfl,hk,rfl⟩ := Peer.workerStep_cases hwork
  · exact h
  · exact Peer.Guarded.runTask h ((onTask_run hk).mp hwithin)

variable [Fintype κ]

theorem guarded_step {e : Event κ} (h : s.peer.Guarded P) (hwithin : WithinLimits P s e)
    (hstep : s.step P e = some t) : t.peer.Guarded P := by
  cases e with
  | pass seconds ticks =>
    cases hstep
    exact h
  | input i =>
    obtain ⟨-,rfl⟩ := of_guard hstep
    exact h.input
  | ifInit =>
    cases hstep
    exact guarded_setRunning h
  | ifStop =>
    obtain ⟨-,rfl⟩ := of_guard hstep
    exact guarded_setRunning h
  | expire x =>
    obtain ⟨q,hq,rfl⟩ := map_eq_some_iff.mp hstep
    unfold Peer.expire at hq
    split at hq
    · obtain ⟨-,rfl⟩ := of_guard hq
      exact h
    · cases hq
  | callback x =>
    obtain ⟨q,hq,rfl⟩ := map_eq_some_iff.mp hstep
    obtain ⟨-,rfl⟩ := of_guard hq
    exact h.callback
  | work e =>
    obtain ⟨q,hq,rfl⟩ := map_eq_some_iff.mp hstep
    exact guarded_work h hwithin hq
  | close | wait =>
    obtain ⟨-,rfl⟩ := of_guard hstep
    exact h
  | halt =>
    simp only [step] at hstep
    split at hstep
    · obtain ⟨q,hq,rfl⟩ := map_eq_some_iff.mp hstep
      obtain ⟨-,rfl⟩ := of_unless hq
      exact h
    · cases hstep

/-- No message is encrypted past the limits of its session, if the session is within them when the
passive keepalive runs on it and when it is established as responder with a packet waiting. -/
theorem encrypted_within_limits (hfresh : s.peer.Fresh) {es : List (Event κ)}
    (hwithin : Along (step P) (WithinLimits P) s es) (hrun : exec (step P) s es = some t) :
    ∀ e ∈ t.peer.log, e.session.hitLimits P e.now = false := by
  have hstart : s.peer.Guarded P := by
    refine ⟨?_,.inl hfresh.stable,fun hpassive => ?_⟩
    · rw [hfresh.log]
      exact fun e he => absurd he List.not_mem_nil
    · cases hfresh.unstable.symm.trans hpassive
  have h : t.peer.Guarded P :=
    exec_invariant_along (fun u => u.peer.Guarded P) (fun _ _ _ => guarded_step) hstart hwithin hrun
  exact h.within

/-- A packet makes the peer initiate a session, and a packet comes back when nothing has been
sent for a while. -/
def initiatedRun : List (Event Unit) :=
  .input (.packet .sent) :: oneRound ++
    [.input (.resp .unstable false .sent),.pass 170 17000,.input (.data .stable false)]

def keepaliveRun (seconds : ℕ) : List (Event Unit) :=
  initiatedRun ++ [.pass seconds (100 * seconds),.work (.start ()),.work (.take ()),
    .work (.lock ()),.work (.run () false .sent)]

theorem encrypted_within_limits_soon : ∃ t,
    exec (step (.protocol 100)) added (keepaliveRun 5) = some t ∧ t.peer.log.length = 2 ∧
      ∀ e ∈ t.peer.log, e.session.hitLimits (.protocol 100) e.now = false := by
  have hrun := (some_get (x := exec (step (.protocol 100)) added (keepaliveRun 5))
    (by decide +kernel)).symm
  exact ⟨_,hrun,by decide +kernel,encrypted_within_limits added_fresh (by decide +kernel) hrun⟩

/-- The peer initiates a session, and a packet to it waits when its first packet comes. -/
def respondedRun : List (Event Unit) :=
  [.input (.init false false),.input (.data .unstable false),.input (.packet .sent),
    .pass 200 20000,.work (.start ()),.work (.take ()),.work (.lock ()),
    .work (.run () false .sent),.work (.run () false .sent)]

/-- A passive keepalive on a session 190 seconds old, its task being run 20 seconds late, and a
packet on a session established 200 seconds after its keys were made. -/
theorem encrypted_past_limits :
    (∃ t, exec (step (.protocol 100)) added (keepaliveRun 20) = some t ∧
      ∃ e ∈ t.peer.log, e.session.age e.now = 190 ∧
        e.session.hitLimits (.protocol 100) e.now = true) ∧
    ∃ t, exec (step (.protocol 100)) added respondedRun = some t ∧
      ∃ e ∈ t.peer.log, e.session.age e.now = 200 ∧
        e.session.hitLimits (.protocol 100) e.now = true := by
  have hkeepalive := (some_get (x := exec (step (.protocol 100)) added (keepaliveRun 20))
    (by decide +kernel)).symm
  have hresponded := (some_get (x := exec (step (.protocol 100)) added respondedRun)
    (by decide +kernel)).symm
  exact ⟨⟨_,hkeepalive,by decide +kernel⟩,_,hresponded,by decide +kernel⟩

end System
end NanoBSD.Wg
