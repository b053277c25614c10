import NanoBSD.Wg.System

/-! # What is left of a peer when its work is drained

`wg_destroy_peer` halts the three timers and then waits for the work item. Tasks that were
asked for before run in between, and the tasks that initiate a handshake set the handshake
timer again.
-/
namespace NanoBSD.Wg
open Option

namespace Peer
variable {κ : Type} {p q : Peer κ} {P : Params} {d : Delivery} {error : Bool} {t : TimerName}
  {x : TimerName}

/-! ## Tasks that set a timer -/

def WantsInit (p : Peer κ) : Prop :=
  p.endpointAvailable = true ∧ ¬(p.stable.state = .established ∧ p.stable.forceRekey = false)

def SendsInit (P : Params) (p : Peer κ) : Task → Prop
  | .sendInitMessage =>
    p.WantsInit ∧ (p.unstable.state = .unknown ∨ p.unstable.state = .destroying)
  | .retryHandshake =>
    p.WantsInit ∧ p.unstable.state = .initActive ∧
      ¬P.rekeyAttemptTime.toNat < p.uptime - p.handshakeStartTime
  | _ => False

instance (p : Peer κ) : Decidable p.WantsInit := inferInstanceAs (Decidable (_ ∧ _))

instance (p : Peer κ) : (task : Task) → Decidable (p.SendsInit P task)
  | .sendInitMessage | .retryHandshake => inferInstanceAs (Decidable (_ ∧ _))
  | .establishSession | .endpointChanged | .sendKeepaliveMessage | .destroyPrevSession
  | .persistentKeepalive => inferInstanceAs (Decidable False)

theorem sendHandshakeMsgInit_timer
    (h : (p.unstable.state = .unknown ∨ p.unstable.state = .destroying) → error = true) :
    (p.sendHandshakeMsgInit P error).timer = p.timer := by
  unfold sendHandshakeMsgInit
  split
  · obtain rfl := h (.inl ‹_›)
    rfl
  · rfl
  · rfl
  · rfl
  · obtain rfl := h (.inr ‹_›)
    rfl

theorem taskSendInitMessage_timer (h : p.SendsInit P .sendInitMessage → error = true) :
    (p.taskSendInitMessage P error).timer = p.timer := by
  unfold taskSendInitMessage
  split_ifs with hendpoint hkeep
  · rfl
  · rfl
  · exact sendHandshakeMsgInit_timer fun hstate =>
      h ⟨⟨Bool.eq_true_of_not_eq_false hendpoint,hkeep⟩,hstate⟩

theorem taskRetryHandshake_timer (h : p.SendsInit P .retryHandshake → error = true) :
    (p.taskRetryHandshake P error).timer = p.timer := by
  unfold taskRetryHandshake
  split_ifs with hstate htime
  · rfl
  · rfl
  · exact taskSendInitMessage_timer fun hsends => h ⟨hsends.1,not_not.mp hstate,htime⟩

theorem taskDestroyPrevSession_quiet (h : p.timer t = .quiet) :
    (p.taskDestroyPrevSession P).timer t = .quiet := by
  by_cases ht : t = .sessionDtor
  · have hq : Kept (fun _ => False) p ((p.dropUnstable P).dropStable P) :=
      kept_dropUnstable.trans kept_dropStable
    subst ht
    unfold taskDestroyPrevSession
    dsimp only
    split_ifs
    · simp only [calloutStop,setTimer,Function.update_self,hq.timer _ not_false,h]
      rfl
    · rw [hq.timer _ not_false,h]
  · rw [(kept_taskDestroyPrevSession (T := (· = .sessionDtor)) rfl).timer t ht,h]

theorem runTask_quiet {task : Task} (hclosed : p.persistentKeepalive = 0)
    (hsends : p.SendsInit P task → error = true) (h : p.timer t = .quiet) :
    (p.runTask P error d task).timer t = .quiet := by
  cases task with
  | sendInitMessage => exact (congrFun (taskSendInitMessage_timer hsends) t).trans h
  | retryHandshake => exact (congrFun (taskRetryHandshake_timer hsends) t).trans h
  | establishSession =>
    exact ((kept_taskEstablishSession (T := fun _ => False)).timer t not_false).trans h
  | endpointChanged => exact h
  | sendKeepaliveMessage =>
    exact ((kept_taskSendKeepaliveMessage (T := fun _ => False)).timer t not_false).trans h
  | destroyPrevSession => exact taskDestroyPrevSession_quiet h
  | persistentKeepalive =>
    have hidle : p.taskPersistentKeepalive P error d = p := if_pos (.inl hclosed)
    simpa only [runTask,hidle] using h

theorem callback_live (h : p.work.Live) : (p.callback P x).work.Live := by
  cases x with
  | handshakeTimeout | persistentKeepalive => exact h.schedulePeerTask _
  | sessionDtor =>
    have hask := (kept_scheduleSessionDtorTimer (p := p) (P := P) (T := fun _ => True) trivial).asked
    exact (h.asked hask).schedulePeerTask _

theorem callback_persistentKeepalive :
    (p.callback P x).persistentKeepalive = p.persistentKeepalive := by
  cases x with
  | handshakeTimeout => rfl
  | sessionDtor => exact (kept_scheduleSessionDtorTimer (T := fun _ => True) trivial).persistentKeepalive
  | persistentKeepalive => rfl

theorem callback_timer {y : TimerName} (hy : y ≠ x) : (p.callback P x).timer y = p.timer y := by
  cases x with
  | handshakeTimeout => rfl
  | sessionDtor => exact (kept_scheduleSessionDtorTimer (T := (· = .sessionDtor)) rfl).timer y hy
  | persistentKeepalive => rfl

theorem workerStep_eq_none [DecidableEq κ] {e : WorkerEvent κ} (hqueued : p.work.queued = 0)
    (hidle : ∀ k, p.work.worker k = .idle) : p.workerStep P e = none := by
  refine eq_none_iff_forall_ne_some.mpr fun q hq => ?_
  obtain ⟨we,w,-,hask,hstep,-⟩ | ⟨k,_,_,task,todo,-,hk,-⟩ := workerStep_cases hq
  · cases (Work.step_eq_none hqueued hidle hask).symm.trans hstep
  · cases (hidle k).symm.trans hk

end Peer

/-! ## The stages -/

def Stage.halted : Stage → List TimerName
  | .alive => []
  | .closed => []
  | .haltedHandshake => [.handshakeTimeout]
  | .haltedDtor => [.sessionDtor,.handshakeTimeout]
  | .haltedKeepalive => [.persistentKeepalive,.sessionDtor,.handshakeTimeout]
  | .drained => [.persistentKeepalive,.sessionDtor,.handshakeTimeout]

variable {stage : Stage} {t : TimerName}

theorem Stage.nextHalt_cases {next : Stage} (h : stage.nextHalt = some (t,next)) :
    next.halted = t :: stage.halted ∧ stage ≠ .alive ∧ next ≠ .drained := by
  cases stage <;> cases h <;> decide

theorem Stage.handshake_mem_halted (h : t ∈ stage.halted) : .handshakeTimeout ∈ stage.halted := by
  cases stage with
  | alive => cases h
  | closed => cases h
  | haltedHandshake | haltedDtor | haltedKeepalive | drained => decide

theorem Stage.mem_halted_drained (t : TimerName) : t ∈ Stage.drained.halted := by
  cases t <;> decide

namespace System
variable {κ : Type} {P : Params} {s t : System κ}

structure Settled (s : System κ) : Prop where
  live : s.peer.work.Live
  closed : s.stage ≠ .alive → s.peer.persistentKeepalive = 0
  quiet : ∀ x ∈ s.stage.halted, s.peer.timer x = .quiet
  idle : s.stage = .drained → s.peer.work.queued = 0 ∧ ∀ k, s.peer.work.worker k = .idle

variable [DecidableEq κ]

/-- A task run after the handshake timer has been halted sends no handshake initiation, unless
the send fails. -/
def Clear (P : Params) : System κ → Event κ → Prop :=
  OnTask fun s error task =>
    .handshakeTimeout ∈ s.stage.halted → s.peer.SendsInit P task → error = true

instance (P : Params) (s : System κ) (e : Event κ) : Decidable (Clear P s e) :=
  decidableOnTask s e

section

omit [DecidableEq κ]

theorem settled_of_alive (halive : s.stage = .alive) (hlive : s.peer.work.Live) : Settled s where
  live := hlive
  closed := fun hne => absurd halive hne
  quiet := fun _ hx => absurd (halive ▸ hx) List.not_mem_nil
  idle := fun hdrained => nomatch halive.symm.trans hdrained

variable {x : TimerName}

theorem Settled.notMem_of_ne (h : Settled s) (hx : s.peer.timer x ≠ .quiet) :
    x ∉ s.stage.halted := mt (h.quiet x) hx

variable {q : Peer κ}

theorem Settled.of_timer (h : Settled s) (hx : x ∉ s.stage.halted)
    (hlive : q.work.Live) (hkeepalive : q.persistentKeepalive = s.peer.persistentKeepalive)
    (htimer : ∀ y, y ≠ x → q.timer y = s.peer.timer y) : Settled (s.setPeer q) where
  live := hlive
  closed := fun hne => hkeepalive.trans (h.closed hne)
  quiet := fun y hy => (htimer y fun he => hx (he ▸ hy)).trans (h.quiet y hy)
  idle := fun hdrained => absurd (hdrained ▸ Stage.mem_halted_drained x) hx

theorem Settled.expire (h : Settled s)
    (hexpire : s.peer.expire x = some q) : Settled (s.setPeer q) := by
  unfold Peer.expire at hexpire
  split at hexpire
  · obtain ⟨-,rfl⟩ := of_guard hexpire
    refine h.of_timer (h.notMem_of_ne (x := x) ?_) h.live rfl fun y hy => Function.update_of_ne hy _ _
    simp [*,Timer.quiet]
  · cases hexpire

theorem Settled.runCallback (h : Settled s)
    (hrun : s.peer.runCallback P x = some q) : Settled (s.setPeer q) := by
  obtain ⟨hrunning,rfl⟩ := of_guard hrun
  refine h.of_timer (h.notMem_of_ne (x := x) fun hquiet => ?_) ?_ ?_ fun y hy => ?_
  · simp [hquiet,Timer.quiet] at hrunning
  · exact Peer.callback_live h.live
  · exact Peer.callback_persistentKeepalive
  · exact (Function.update_of_ne hy _ _).trans (Peer.callback_timer hy)

theorem Settled.setRunning (h : Settled s) (on : Bool) : Settled (s.setRunning P on) := by
  unfold System.setRunning
  split_ifs with halive
  · refine settled_of_alive halive ?_
    simp only [setPeer,Peer.persistentKeepaliveAll]
    split_ifs <;> exact h.live
  · exact ⟨h.live,h.closed,h.quiet,h.idle⟩

theorem Settled.halt (h : Settled s) {next : Stage}
    (hnext : s.stage.nextHalt = some (x,next)) (hhalt : s.peer.calloutHalt x = some q) :
    Settled ⟨q,next⟩ := by
  obtain ⟨hhalted,halive,hdrained⟩ := Stage.nextHalt_cases hnext
  obtain ⟨hrunning,rfl⟩ := of_unless hhalt
  refine ⟨h.live,fun _ => h.closed halive,fun y hy => ?_,fun h' => absurd h' hdrained⟩
  by_cases hyx : y = x
  · subst hyx
    simp [Peer.calloutStop,Peer.setTimer,Timer.quiet,Bool.eq_false_of_not_eq_true hrunning]
  · have hmem : y ∈ s.stage.halted := List.mem_of_ne_of_mem hyx (hhalted ▸ hy)
    exact (Function.update_of_ne hyx _ _).trans (h.quiet y hmem)

end

theorem Settled.work (h : Settled s) {e : Peer.WorkerEvent κ} {q : Peer κ}
    (hclear : Clear P s (.work e)) (hwork : s.peer.workerStep P e = some q) :
    Settled (s.setPeer q) := by
  have hbusy : s.stage ≠ .drained := fun hdrained => by
    obtain ⟨hqueued,hidle⟩ := h.idle hdrained
    cases (Peer.workerStep_eq_none hqueued hidle).symm.trans hwork
  obtain ⟨we,w,changing,-,hstep,rfl⟩ | ⟨k,error,d,task,todo,rfl,hk,rfl⟩ :=
    Peer.workerStep_cases hwork
  · exact ⟨h.live.step hstep,h.closed,h.quiet,fun hdrained => absurd hdrained hbusy⟩
  · have hkept : Peer.Kept (fun _ => True) s.peer (s.peer.runTask P error d task) :=
      Peer.kept_runTask trivial trivial fun _ => trivial
    refine ⟨Work.live_of_update rfl (by simp),fun hne => ?_,fun x hx => ?_,
      fun hdrained => absurd hdrained hbusy⟩
    · exact hkept.persistentKeepalive.trans (h.closed hne)
    · have hne : s.stage ≠ .alive := fun halive => absurd (halive ▸ hx) List.not_mem_nil
      have hsends := (onTask_run hk).mp hclear (Stage.handshake_mem_halted hx)
      exact Peer.runTask_quiet (h.closed hne) hsends (h.quiet x hx)

variable [Fintype κ]

theorem Settled.step (h : Settled s) {e : Event κ} (hclear : Clear P s e)
    (hstep : s.step P e = some t) : Settled t := by
  cases e with
  | pass seconds ticks =>
    cases hstep
    exact ⟨h.live,h.closed,h.quiet,h.idle⟩
  | input i =>
    obtain ⟨⟨halive,-⟩,rfl⟩ := of_guard hstep
    have hkept : Peer.Kept (fun _ => True) s.peer (s.peer.input P i) :=
      Peer.kept_input trivial trivial
    exact settled_of_alive halive (h.live.asked hkept.asked)
  | ifInit =>
    cases hstep
    exact h.setRunning true
  | ifStop =>
    obtain ⟨-,rfl⟩ := of_guard hstep
    exact h.setRunning false
  | expire x =>
    obtain ⟨q,hq,rfl⟩ := map_eq_some_iff.mp hstep
    exact h.expire hq
  | callback x =>
    obtain ⟨q,hq,rfl⟩ := map_eq_some_iff.mp hstep
    exact h.runCallback hq
  | work e =>
    obtain ⟨q,hq,rfl⟩ := map_eq_some_iff.mp hstep
    exact h.work hclear hq
  | close =>
    obtain ⟨-,rfl⟩ := of_guard hstep
    exact ⟨h.live,fun _ => rfl,fun x hx => absurd hx List.not_mem_nil,nofun⟩
  | halt =>
    simp only [System.step] at hstep
    split at hstep
    · obtain ⟨q,hq,rfl⟩ := map_eq_some_iff.mp hstep
      exact h.halt ‹_› hq
    · cases hstep
  | wait =>
    obtain ⟨⟨hstage,hqueued,hidle⟩,rfl⟩ := of_guard hstep
    refine ⟨h.live,fun _ => h.closed (by simp [hstage]),fun x hx => h.quiet x ?_,
      fun _ => ⟨hqueued,hidle⟩⟩
    rw [hstage]
    exact hx

/-- Once `workqueue_wait` has returned, no timer is pending or running, no task asked for or run,
and nothing acts on the peer, if no task has initiated a handshake since the handshake timer was
halted. -/
theorem quiet_when_drained (hfresh : s.peer.Fresh) (halive : s.stage = .alive)
    {es : List (Event κ)} (hclear : Along (step P) (Clear P) s es)
    (hrun : exec (step P) s es = some t) (hdrained : t.stage = .drained) :
    (∀ x, t.peer.timer x = .quiet) ∧ t.peer.work.tasks = ∅ ∧ t.peer.work.queued = 0 ∧
      (∀ k, t.peer.work.worker k = .idle) ∧ (∀ x, t.peer.expire x = none) ∧
      (∀ x, t.peer.runCallback P x = none) ∧ ∀ e, t.peer.workerStep P e = none := by
  have hstart : Settled s := settled_of_alive halive (by
    rw [hfresh.work]
    exact fun hne => absurd rfl hne)
  have h : Settled t :=
    exec_invariant_along Settled (fun _ _ _ h => h.step) hstart hclear hrun
  have hquiet : ∀ x, t.peer.timer x = .quiet :=
    fun x => h.quiet x (hdrained ▸ Stage.mem_halted_drained x)
  obtain ⟨hqueued,hidle⟩ := h.idle hdrained
  refine ⟨hquiet,?_,hqueued,hidle,fun x => ?_,fun x => ?_,fun e => ?_⟩
  · by_contra htasks
    obtain hpos | ⟨k,hk⟩ := h.live htasks
    · omega
    · exact hk (hidle k)
  · simp [Peer.expire,hquiet,Timer.quiet]
  · simp [Peer.runCallback,hquiet,Timer.quiet]
  · exact Peer.workerStep_eq_none hqueued hidle

def closing : List (Event Unit) := [.close,.halt,.halt,.halt]

theorem quiet_when_drained_after_round : ∃ t, exec (step (.protocol 100)) added
      ([.ifInit,.input (.packet .sent)] ++ oneRound ++ closing ++ [.wait]) = some t ∧
    t.stage = .drained ∧ t.peer.unstable.state = .initActive ∧
    ((∀ x, t.peer.timer x = .quiet) ∧ t.peer.work.tasks = ∅ ∧ t.peer.work.queued = 0 ∧
      (∀ k, t.peer.work.worker k = .idle) ∧ (∀ x, t.peer.expire x = none) ∧
      (∀ x, t.peer.runCallback (.protocol 100) x = none) ∧
      ∀ e, t.peer.workerStep (.protocol 100) e = none) := by
  have hrun := (some_get (x := exec (step (.protocol 100)) added
    ([.ifInit,.input (.packet .sent)] ++ oneRound ++ closing ++ [.wait])) (by decide +kernel)).symm
  exact ⟨_,hrun,by decide +kernel,by decide +kernel,
    quiet_when_drained added_fresh rfl (by decide +kernel) hrun (by decide +kernel)⟩

/-- The task of a packet to send is queued when the timers are halted: it initiates a handshake,
whose timer is pending when the wait is over. -/
theorem timer_pending_when_drained : ∃ t, exec (step (.protocol 100)) added
      ([.input (.packet .sent)] ++ closing ++ oneRound ++ [.wait]) = some t ∧
    t.stage = .drained ∧ (t.peer.timer .handshakeTimeout).pending = some 100500 := by
  have hrun := (some_get (x := exec (step (.protocol 100)) added
    ([.input (.packet .sent)] ++ closing ++ oneRound ++ [.wait])) (by decide +kernel)).symm
  exact ⟨_,hrun,by decide +kernel⟩

end System
end NanoBSD.Wg
