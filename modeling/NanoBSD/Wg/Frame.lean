import NanoBSD.Wg.Peer

/-! # What the paths of a peer leave alone

The receive path, the transmit path and the tasks ask for tasks other than the persistent
keepalive, and each of them sets few timers. None of them changes the clocks, the interval or
the state of the interface, or what a worker is doing.
-/
namespace NanoBSD.Wg
open Option

namespace Peer
variable {κ : Type} {p q r : Peer κ} {P : Params} {d : Delivery} {error moved : Bool}
  {T : TimerName → Prop} {task : Task} {slot : Slot}

/-- From `p` to `q` only timers in `T` were set, and only tasks other than the persistent
keepalive asked for. -/
structure Kept (T : TimerName → Prop) (p q : Peer κ) : Prop where
  asked : p.work.Asked q.work
  timer : ∀ t, ¬T t → q.timer t = p.timer t
  persistentKeepalive : q.persistentKeepalive = p.persistentKeepalive
  ifRunning : q.ifRunning = p.ifRunning
  uptime : q.uptime = p.uptime
  ticks : q.ticks = p.ticks

theorem Kept.refl (p : Peer κ) : Kept T p p :=
  ⟨Work.Asked.refl p.work,fun _ _ => rfl,rfl,rfl,rfl,rfl⟩

theorem Kept.trans (h : Kept T p q) (h' : Kept T q r) : Kept T p r where
  asked := h.asked.trans h'.asked
  timer := fun t ht => (h'.timer t ht).trans (h.timer t ht)
  persistentKeepalive := h'.persistentKeepalive.trans h.persistentKeepalive
  ifRunning := h'.ifRunning.trans h.ifRunning
  uptime := h'.uptime.trans h.uptime
  ticks := h'.ticks.trans h.ticks

def frame (p : Peer κ) : Work κ × (TimerName → Timer) × UInt32 × Bool × ℕ × ℕ :=
  (p.work,p.timer,p.persistentKeepalive,p.ifRunning,p.uptime,p.ticks)

theorem Kept.of_frame (h : q.frame = p.frame) : Kept T p q := by
  simp only [frame,Prod.mk.injEq] at h
  obtain ⟨hwork,htimer,hkeepalive,hrunning,huptime,hticks⟩ := h
  exact ⟨hwork ▸ Work.Asked.refl p.work,fun t _ => congrFun htimer t,hkeepalive,hrunning,huptime,
    hticks⟩

theorem Kept.after (h : Kept T q r) (hframe : q.frame = p.frame) : Kept T p r :=
  (Kept.of_frame hframe).trans h

theorem Kept.before (h : Kept T p q) (hframe : r.frame = q.frame) : Kept T p r :=
  h.trans (Kept.of_frame hframe)

theorem kept_schedulePeerTask (h : task ≠ .persistentKeepalive) :
    Kept T p (p.schedulePeerTask task) :=
  ⟨Work.asked_schedulePeerTask h,fun _ _ => rfl,rfl,rfl,rfl,rfl⟩

theorem kept_setTimer {t : TimerName} (ht : T t) (x : Timer) : Kept T p (p.setTimer t x) where
  asked := Work.Asked.refl p.work
  timer := by
    rintro t' ht'
    have hne : t' ≠ t := fun he => ht' (he ▸ ht)
    exact Function.update_of_ne hne x p.timer
  persistentKeepalive := rfl
  ifRunning := rfl
  uptime := rfl
  ticks := rfl

theorem kept_forceRekey : Kept T p p.forceRekey :=
  (kept_schedulePeerTask (by decide)).after rfl

theorem kept_sendDataMsg : Kept T p (p.sendDataMsg P d) := by
  cases d with
  | noBuffer => exact Kept.refl p
  | failed => exact Kept.of_frame rfl
  | sent =>
    have hstamp : Kept T p p.encrypt.stampSent := Kept.of_frame rfl
    have htime : ∀ q : Peer κ, Kept T q (q.checkRekeyAfterTime P) := fun q => by
      unfold checkRekeyAfterTime
      split_ifs
      exacts [kept_forceRekey,Kept.refl q]
    have hmessages : ∀ q : Peer κ, Kept T q (q.checkRekeyAfterMessages P) := fun q => by
      unfold checkRekeyAfterMessages
      split_ifs
      exacts [kept_forceRekey,Kept.refl q]
    exact (hstamp.trans (htime _)).trans (hmessages _)

theorem kept_wgintr : Kept T p (p.wgintr P d) := by
  unfold wgintr
  split_ifs
  · exact Kept.refl p
  · exact (kept_schedulePeerTask (by decide)).after rfl
  · exact Kept.refl p
  · exact kept_forceRekey.after rfl
  · exact kept_sendDataMsg

theorem kept_initiate (hT : T .handshakeTimeout) : Kept T p (p.initiate P error) := by
  unfold initiate
  by_cases herror : error = true
  · rw [if_pos herror]
    exact Kept.of_frame rfl
  · rw [if_neg herror]
    exact (kept_setTimer hT _).after rfl

theorem kept_sendHandshakeMsgInit (hT : T .handshakeTimeout) :
    Kept T p (p.sendHandshakeMsgInit P error) := by
  unfold sendHandshakeMsgInit
  split
  · exact kept_initiate hT
  · exact Kept.refl p
  · exact Kept.refl p
  · exact Kept.of_frame rfl
  · exact (kept_initiate hT).after rfl

theorem kept_kickOff : Kept T p (p.kickOff P d) := by
  unfold kickOff
  split_ifs
  · exact kept_sendDataMsg.after rfl
  · exact kept_sendDataMsg
  · exact Kept.refl p

theorem kept_swapSessions : Kept T p (p.swapSessions P d) := by
  have hkick : Kept T p (kickOff P d { p with
      stable := p.unstable, unstable := p.stable, handshakeStartTime := 0 }) :=
    kept_kickOff.after rfl
  exact hkick.before rfl

theorem kept_updateEndpoint : Kept T p (p.updateEndpoint moved) := by
  unfold updateEndpoint
  split_ifs
  · exact (kept_schedulePeerTask (by decide)).after rfl
  · exact Kept.refl p

theorem kept_scheduleSessionDtorTimer (hT : T .sessionDtor) :
    Kept T p (p.scheduleSessionDtorTimer P) := by
  unfold scheduleSessionDtorTimer
  split_ifs
  exacts [Kept.refl p,kept_setTimer hT _]

theorem kept_setSession (s : Session) : Kept T p (p.setSession slot s) := by
  cases slot <;> exact Kept.of_frame rfl

theorem kept_stampEstablished (hT : T .sessionDtor) : Kept T p (p.stampEstablished P slot) :=
  (kept_setSession _).trans (kept_scheduleSessionDtorTimer hT)

theorem kept_respond (hT : T .sessionDtor) : Kept T p (p.respond P moved) :=
  (kept_updateEndpoint.trans (kept_stampEstablished hT)).before rfl

theorem kept_handleMsgInit {priority : Bool} (hT : T .sessionDtor) :
    Kept T p (p.handleMsgInit P priority moved) := by
  have hdestroy : Kept T p (respond P moved { p with unstable := p.unstable.destroy }) :=
    (kept_respond hT).after rfl
  unfold handleMsgInit
  split
  · exact kept_respond hT
  · split_ifs
    exacts [Kept.refl p,hdestroy]
  · exact hdestroy
  · exact Kept.of_frame rfl
  · exact hdestroy

theorem kept_handleMsgResp (hT : T .sessionDtor) (hT' : T .handshakeTimeout) :
    Kept T p (p.handleMsgResp P slot moved d) := by
  unfold handleMsgResp
  split_ifs
  · exact Kept.refl p
  · have hq : Kept T p ((p.updateEndpoint moved).stampEstablished P slot) :=
      kept_updateEndpoint.trans (kept_stampEstablished hT)
    exact ((hq.trans (kept_setSession _)).trans (kept_setTimer hT' _)).trans kept_swapSessions

theorem kept_askAfterData {s : Session} : Kept T p (p.askAfterData P s) := by
  unfold askAfterData
  split_ifs
  · exact (kept_schedulePeerTask (by decide)).trans (kept_schedulePeerTask (by decide))
  · exact kept_schedulePeerTask (by decide)
  · exact kept_schedulePeerTask (by decide)
  · exact Kept.refl p

theorem kept_handleMsgData : Kept T p (p.handleMsgData P slot moved) := by
  unfold handleMsgData
  dsimp only
  split_ifs
  · exact Kept.refl p
  · exact Kept.refl p
  · exact kept_updateEndpoint.trans (kept_schedulePeerTask (by decide))
  · exact kept_updateEndpoint.trans kept_askAfterData

theorem kept_taskSendInitMessage (hT : T .handshakeTimeout) :
    Kept T p (p.taskSendInitMessage P error) := by
  unfold taskSendInitMessage
  split_ifs
  exacts [Kept.refl p,Kept.refl p,kept_sendHandshakeMsgInit hT]

theorem kept_taskRetryHandshake (hT : T .handshakeTimeout) :
    Kept T p (p.taskRetryHandshake P error) := by
  have hq : Kept T p { p with unstable := p.unstable.destroy } :=
    Kept.of_frame rfl
  unfold taskRetryHandshake
  split_ifs
  · exact Kept.refl p
  · exact Kept.of_frame rfl
  · exact hq.trans (kept_taskSendInitMessage hT)

theorem kept_taskEstablishSession : Kept T p (p.taskEstablishSession P d) := by
  unfold taskEstablishSession
  split_ifs
  · exact Kept.refl p
  · exact kept_swapSessions.after rfl

theorem kept_taskSendKeepaliveMessage : Kept T p (p.taskSendKeepaliveMessage P d) := by
  unfold taskSendKeepaliveMessage
  split_ifs
  exacts [Kept.refl p,kept_sendDataMsg]

theorem kept_dropUnstable : Kept T p (p.dropUnstable P) := by
  unfold dropUnstable
  split_ifs
  exacts [Kept.of_frame rfl,Kept.refl p]

theorem kept_dropStable : Kept T p (p.dropStable P) := by
  unfold dropStable
  split_ifs
  exacts [Kept.of_frame rfl,Kept.refl p]

theorem kept_taskDestroyPrevSession (hT : T .sessionDtor) :
    Kept T p (p.taskDestroyPrevSession P) := by
  have hq : Kept T p ((p.dropUnstable P).dropStable P) := kept_dropUnstable.trans kept_dropStable
  unfold taskDestroyPrevSession
  dsimp only
  split_ifs
  exacts [hq.trans (kept_setTimer hT _),hq]

theorem kept_keepaliveSend (hT : T .handshakeTimeout) : Kept T p (p.keepaliveSend P error d) := by
  unfold keepaliveSend
  by_cases h : p.stable.state = .established ∧ p.stable.hitLimits P p.now = false
  · rw [if_pos h]
    exact kept_sendDataMsg
  · rw [if_neg h]
    have hinit : ∀ s, Kept T p (taskSendInitMessage P error { p with stable := s }) :=
      fun s => (kept_taskSendInitMessage hT).after rfl
    exact (hinit _).before rfl

theorem kept_taskPersistentKeepalive (hT : T .handshakeTimeout) (hT' : T .persistentKeepalive) :
    Kept T p (p.taskPersistentKeepalive P error d) := by
  unfold taskPersistentKeepalive
  split_ifs
  · exact Kept.refl p
  · exact (kept_keepaliveSend hT).trans (kept_setTimer hT' _)
  · exact kept_setTimer hT' _


/-! ## Inputs, tasks and threads -/

theorem kept_input {i : Input} (hT : T .sessionDtor) (hT' : T .handshakeTimeout) :
    Kept T p (p.input P i) := by
  cases i with
  | init priority moved => exact kept_handleMsgInit hT
  | resp slot moved d => exact kept_handleMsgResp hT hT'
  | data slot moved => exact kept_handleMsgData
  | packet d => exact kept_wgintr

theorem kept_runTask (hT : T .handshakeTimeout) (hT' : T .sessionDtor)
    (hkeepalive : task = .persistentKeepalive → T .persistentKeepalive) :
    Kept T p (p.runTask P error d task) := by
  cases task with
  | sendInitMessage => exact kept_taskSendInitMessage hT
  | retryHandshake => exact kept_taskRetryHandshake hT
  | establishSession => exact kept_taskEstablishSession
  | endpointChanged => exact Kept.refl p
  | sendKeepaliveMessage => exact kept_taskSendKeepaliveMessage
  | destroyPrevSession => exact kept_taskDestroyPrevSession hT'
  | persistentKeepalive => exact kept_taskPersistentKeepalive hT (hkeepalive rfl)

variable [DecidableEq κ]

theorem runNext_cases {k : κ} (h : p.runNext P k error d = some q) : ∃ task todo,
    p.work.worker k = .running (task :: todo) ∧ ((∃ w, p.work.drain k = some w ∧ q = p.setWork w) ∨
        q = (p.runTask P error d task).setWork
          ((p.runTask P error d task).work.setWorker k (.running todo))) := by
  unfold runNext at h
  split at h
  · refine ⟨_,_,‹_›,?_⟩
    split_ifs at h
    · obtain ⟨w,hw,rfl⟩ := map_eq_some_iff.mp h
      exact .inl ⟨w,hw,rfl⟩
    · exact .inr (Option.some.inj h).symm
  · cases h

theorem workerStep_cases {e : WorkerEvent κ} (h : p.workerStep P e = some q) :
    (∃ we w changing, we.Moves ∧ p.work.step we = some w ∧
      q = { p with work := w, endpointChanging := changing }) ∨
    ∃ k error d task todo, e = .run k error d ∧ p.work.worker k = .running (task :: todo) ∧
      q = (p.runTask P error d task).setWork
        ((p.runTask P error d task).work.setWorker k (.running todo)) := by
  cases e with
  | start k =>
    obtain ⟨w,hw,rfl⟩ := map_eq_some_iff.mp h
    exact .inl ⟨.start k,w,p.endpointChanging,trivial,hw,rfl⟩
  | take k =>
    obtain ⟨w,hw,rfl⟩ := map_eq_some_iff.mp h
    exact .inl ⟨.take k,w,p.endpointChanging,trivial,hw,rfl⟩
  | lock k =>
    obtain ⟨w,hw,rfl⟩ := map_eq_some_iff.mp h
    unfold relock
    split
    · exact .inl ⟨.lock k,w,false,trivial,hw,rfl⟩
    · exact .inl ⟨.lock k,w,p.endpointChanging,trivial,hw,rfl⟩
  | run k error d =>
    obtain ⟨task,todo,hk,⟨w,hw,rfl⟩ | rfl⟩ := runNext_cases h
    · exact .inl ⟨.drain k,w,p.endpointChanging,trivial,hw,rfl⟩
    · exact .inr ⟨k,error,d,task,todo,rfl,hk,rfl⟩
  | unlock k =>
    obtain ⟨w,hw,rfl⟩ := map_eq_some_iff.mp h
    exact .inl ⟨.unlock k,w,p.endpointChanging,trivial,hw,rfl⟩

end Peer
end NanoBSD.Wg
