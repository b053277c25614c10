import NanoBSD.Wg.Keepalive

/-! # The chain of keepalives

While the interface runs, the timer is pending, or its task is asked for or taken by a thread,
or `wg_init` is about to arm the timer. After `wg_stop` only a thread that was past its test of
the flag can arm the timer once more.
-/
namespace NanoBSD.Wg
open Function Option

def Worker.todo : Worker → List Task
  | .idle => []
  | .entered => []
  | .waiting todo => todo
  | .running todo => todo
  | .draining todo => todo

theorem Worker.next_eq_some {x : Worker} {task : Task} (h : x.next = some task) :
    ∃ todo, x = .running (task :: todo) := by
  unfold next at h
  split at h <;> cases h
  exact ⟨_,rfl⟩

namespace Work
variable {κ : Type} {w v : Work κ} {k : κ}

def AsksKeepalive (w : Work κ) : Prop :=
  .persistentKeepalive ∈ w.tasks ∨ ∃ k, .persistentKeepalive ∈ (w.worker k).todo

theorem AsksKeepalive.schedulePeerTask (h : w.AsksKeepalive) (task : Task) :
    (w.schedulePeerTask task).AsksKeepalive :=
  h.imp_left (Finset.mem_insert_of_mem ·)

theorem AsksKeepalive.asked (h : w.AsksKeepalive) (hask : w.Asked v) : v.AsksKeepalive :=
  hask.induction h fun _ task _ h => h.schedulePeerTask task

variable [DecidableEq κ] {e : Event κ}

theorem AsksKeepalive.setWorker (h : w.AsksKeepalive) {x : Worker}
    (hx : .persistentKeepalive ∈ (w.worker k).todo → .persistentKeepalive ∈ x.todo)
    (htasks : v.tasks = w.tasks) (hv : v.worker = update w.worker k x) : v.AsksKeepalive := by
  obtain h | ⟨j,hj⟩ := h
  · exact .inl (htasks ▸ h)
  · by_cases hjk : j = k
    · subst hjk
      exact .inr ⟨j,by rw [hv,update_self]; exact hx hj⟩
    · exact .inr ⟨j,by rwa [hv,update_of_ne hjk]⟩

theorem AsksKeepalive.move (h : w.AsksKeepalive) (hmoves : e.Moves)
    (hstep : w.step e = some v) : v.AsksKeepalive := by
  cases e with
  | schedule | finish => exact hmoves.elim
  | start k =>
    obtain ⟨⟨hk,-⟩,rfl⟩ := start_eq_some.mp hstep
    exact h.setWorker (k := k) (x := .entered) (by simp [hk,Worker.todo]) rfl rfl
  | take k =>
    obtain ⟨hk,⟨-,rfl⟩ | ⟨-,rfl⟩⟩ := take_cases hstep
    · exact h.setWorker (k := k) (x := .idle) (by simp [hk,Worker.todo]) rfl rfl
    · obtain h | ⟨j,hj⟩ := h
      · refine .inr ⟨k,?_⟩
        simp [Work.setWorker,Worker.todo,h,Task.all]
      · have hjk : j ≠ k := fun he => by simp [he,hk,Worker.todo] at hj
        refine .inr ⟨j,?_⟩
        simpa only [Work.setWorker,update_of_ne hjk] using hj
  | lock k =>
    obtain ⟨-,todo,hk,rfl⟩ := lock_cases hstep
    refine h.setWorker (k := k) (x := .running todo) (fun hmem => ?_) rfl rfl
    obtain hk | hk := hk <;> rwa [hk] at hmem
  | drain k =>
    obtain ⟨todo,hk,rfl⟩ := drain_cases hstep
    exact h.setWorker (k := k) (x := .draining todo) (by simp [hk,Worker.todo]) rfl rfl
  | unlock k =>
    obtain ⟨hk,rfl⟩ := unlock_eq_some.mp hstep
    exact h.setWorker (k := k) (x := .entered) (by simp [hk,Worker.todo]) rfl rfl

theorem worker_of_move {task : Task} (hmoves : e.Moves) (hstep : w.step e = some v)
    (hnext : (w.worker k).next = some task)
    (hne : task ≠ .endpointChanged) : v.worker k = w.worker k := by
  obtain ⟨todo,hk⟩ := Worker.next_eq_some hnext
  cases e with
  | schedule | finish => exact hmoves.elim
  | start j =>
    obtain ⟨⟨hj,-⟩,rfl⟩ := start_eq_some.mp hstep
    exact update_of_ne (fun he => by rw [he,hj] at hk; cases hk) _ _
  | take j =>
    obtain ⟨hj,⟨-,rfl⟩ | ⟨-,rfl⟩⟩ := take_cases hstep
    all_goals exact update_of_ne (fun he => by rw [he,hj] at hk; cases hk) _ _
  | lock j =>
    obtain ⟨-,todo,hj | hj,rfl⟩ := lock_cases hstep
    all_goals exact update_of_ne (fun he => by rw [he,hj] at hk; cases hk) _ _
  | drain j =>
    obtain ⟨todo,hj,rfl⟩ := drain_cases hstep
    refine update_of_ne (fun he => ?_) _ _
    rw [he,hj] at hk
    cases hk
    exact hne rfl
  | unlock j =>
    obtain ⟨hj,rfl⟩ := unlock_eq_some.mp hstep
    exact update_of_ne (fun he => by rw [he,hj] at hk; cases hk) _ _

end Work

namespace Peer
variable {κ : Type} {p : Peer κ} {P : Params} {iv : UInt32}

theorem keepaliveIdle_le : p.keepaliveIdle ≤ p.persistentKeepalive := by
  unfold keepaliveIdle
  split_ifs with h
  · exact UInt32.le_refl _
  · exact UInt32.not_lt.mp h

theorem keepaliveTicks_le {idle : UInt32} (h : idle ≤ iv) :
    (UInt32.ofNat P.hz * (iv - idle)).toNat ≤ P.hz * iv.toNat := by
  rw [UInt32.toNat_mul,UInt32.toNat_sub_of_le _ _ h,UInt32.toNat_ofNat']
  calc P.hz % 2^32 * (iv.toNat - idle.toNat) % 2^32
      ≤ P.hz % 2^32 * (iv.toNat - idle.toNat) := Nat.mod_le _ _
    _ ≤ P.hz * iv.toNat := Nat.mul_le_mul (Nat.mod_le _ _) (Nat.sub_le _ _)

theorem hz_le (h : iv ≠ 0) : P.hz ≤ P.hz * iv.toNat :=
  Nat.le_mul_of_pos_right P.hz (Nat.pos_of_ne_zero fun hzero => h (UInt32.toNat_inj.mp hzero))

theorem kept_callback {x : TimerName} (hx : x ≠ .persistentKeepalive) :
    Kept (· ≠ .persistentKeepalive) p (p.callback P x) := by
  cases x with
  | handshakeTimeout => exact kept_schedulePeerTask (by decide)
  | sessionDtor =>
    exact (kept_scheduleSessionDtorTimer (by decide)).trans (kept_schedulePeerTask (by decide))
  | persistentKeepalive => exact absurd rfl hx

end Peer

namespace Link
variable {κ : Type} {P : Params} {s t : Link κ} {k : κ} {n : ℕ} {admin : Admin} {error : Bool}
  {d : Delivery}

def Pending (P : Params) (s : Link κ) : Prop :=
  ∃ due ∈ (s.peer.timer .persistentKeepalive).pending,
    due ≤ s.peer.ticks + P.hz * s.peer.persistentKeepalive.toNat

structure Chain (P : Params) (s : Link κ) : Prop where
  interval : s.peer.persistentKeepalive ≠ 0
  live : s.peer.work.Live
  held : s.peer.work.Held
  inTask : ∀ k, s.doing k ≠ none → (s.peer.work.worker k).next = some .persistentKeepalive
  idle_le : ∀ k idle, s.doing k = some (.sent idle) → idle ≤ s.peer.persistentKeepalive
  checked_le : ∀ k n, s.doing k = some (.checked n) → n ≤ s.firings
  sends_le : ∀ n ∈ s.sends, n ≤ s.firings
  stopped : s.admin = .cancelling → s.peer.ifRunning = false
  covered : s.peer.ifRunning = true →
    s.Pending P ∨ s.peer.work.AsksKeepalive ∨ s.admin = .arming

theorem Chain.kept (h : Chain P s) {q : Peer κ}
    (hkept : Peer.Kept (· ≠ .persistentKeepalive) s.peer q) : Chain P (s.setPeer q) := by
  have htimer := hkept.timer .persistentKeepalive (fun hne => hne rfl)
  have hkeepalive := hkept.persistentKeepalive
  refine
    { interval := hkeepalive ▸ h.interval
      live := h.live.asked hkept.asked
      held := h.held.asked hkept.asked
      inTask := fun k hk => ?_
      idle_le := fun k idle hk => ?_
      checked_le := h.checked_le
      sends_le := h.sends_le
      stopped := fun hadmin => hkept.ifRunning.trans (h.stopped hadmin)
      covered := fun hrunning => ?_ }
  · simpa only [setPeer,hkept.asked.worker] using h.inTask k hk
  · simpa only [setPeer,hkeepalive] using h.idle_le k idle hk
  · obtain hpending | hasks | harming := h.covered (hkept.ifRunning.symm.trans hrunning)
    · refine .inl ?_
      simpa only [Pending,setPeer,htimer,hkeepalive,hkept.ticks] using hpending
    · exact .inr (.inl (hasks.asked hkept.asked))
    · exact .inr (.inr harming)

theorem Chain.pass (h : Chain P s) (seconds ticks : ℕ) :
    Chain P (s.setPeer { s.peer with
      uptime := s.peer.uptime + seconds, ticks := s.peer.ticks + ticks }) :=
  { h with
    covered := fun hrunning => (h.covered hrunning).imp_left fun ⟨due,hdue,hle⟩ =>
      ⟨due,hdue,Nat.le_trans hle (Nat.add_le_add_right (Nat.le_add_right _ _) _)⟩ }

theorem pending_calloutSchedule (hn : n ≤ P.hz * s.peer.persistentKeepalive.toNat) :
    Pending P { s with peer := s.peer.calloutSchedule .persistentKeepalive n, admin := admin } :=
  ⟨s.peer.ticks + n,by simp [Peer.calloutSchedule,Peer.setTimer],
    Nat.add_le_add_left hn s.peer.ticks⟩

theorem Chain.arm (h : Chain P s) (hn : n ≤ P.hz * s.peer.persistentKeepalive.toNat)
    (hadmin : admin = .cancelling → s.admin = .cancelling) :
    Chain P { s with peer := s.peer.calloutSchedule .persistentKeepalive n, admin := admin } :=
  { h with
    stopped := fun ha => h.stopped (hadmin ha)
    covered := fun _ => .inl (pending_calloutSchedule hn) }

theorem Chain.up (h : Chain P s) :
    Chain P { s with peer := { s.peer with ifRunning := true }, admin := .arming } :=
  { h with
    stopped := nofun
    covered := fun _ => .inr (.inr rfl) }

theorem Chain.down (h : Chain P s) :
    Chain P { s with peer := { s.peer with ifRunning := false }, admin := .cancelling } :=
  { h with
    stopped := fun _ => rfl
    covered := nofun }

theorem Chain.cancel (h : Chain P s) (hadmin : s.admin = .cancelling) :
    Chain P { s with peer := s.peer.calloutStop .persistentKeepalive, admin := .rest } :=
  { h with
    stopped := nofun
    covered := fun hrunning => nomatch (h.stopped hadmin).symm.trans hrunning }

theorem Chain.fire (h : Chain P s) {x : TimerName} (hfire : s.fire P x = some t) : Chain P t := by
  unfold Link.fire at hfire
  split at hfire
  · obtain ⟨-,rfl⟩ := of_guard hfire
    by_cases hx : x = .persistentKeepalive
    · subst hx
      exact
        { h with
          live := h.live.schedulePeerTask _
          checked_le := fun k n hk => Nat.le_succ_of_le (h.checked_le k n hk)
          sends_le := fun n hn => Nat.le_succ_of_le (h.sends_le n hn)
          covered := fun _ => .inr (.inl (.inl (Finset.mem_insert_self _ _))) }
    · rw [if_neg hx]
      exact h.kept ((Peer.kept_setTimer hx _).trans (Peer.kept_callback hx))
  · cases hfire

variable [DecidableEq κ]

theorem Chain.setDoing (h : Chain P s) {x : Progress}
    (hnext : (s.peer.work.worker k).next = some .persistentKeepalive)
    (hidle : ∀ idle, x = .sent idle → idle ≤ s.peer.persistentKeepalive)
    (hchecked : ∀ n, x = .checked n → n ≤ s.firings) : Chain P (s.setDoing k (some x)) := by
  refine
    { h with
      inTask := fun j hj => ?_
      idle_le := fun j idle hj => ?_
      checked_le := fun j n hj => ?_ }
  all_goals by_cases hjk : j = k
  · exact hjk ▸ hnext
  · exact h.inTask j (setDoing_of_ne hjk _ ▸ hj)
  · subst hjk
    exact hidle idle (Option.some.inj ((setDoing_self s _).symm.trans hj))
  · exact h.idle_le j idle ((setDoing_of_ne hjk _).symm.trans hj)
  · subst hjk
    exact hchecked n (Option.some.inj ((setDoing_self s _).symm.trans hj))
  · exact h.checked_le j n ((setDoing_of_ne hjk _).symm.trans hj)

theorem Chain.leave (h : Chain P s) (hleave : s.leave k = some t)
    (hcovered : s.peer.ifRunning = true → s.Pending P ∨ s.admin = .arming) : Chain P t := by
  obtain ⟨w,hw,rfl⟩ := map_eq_some_iff.mp hleave
  obtain ⟨task,todo,hk,rfl⟩ := Work.finish_cases hw
  have hne : ∀ {j x}, ((s.setPeer (s.peer.setWork (s.peer.work.setWorker k
      (.running todo)))).setDoing k none).doing j = some x → j ≠ k := fun hj he => by
    subst he
    cases (setDoing_self _ none).symm.trans hj
  refine
    { h with
      live := Work.live_of_update (k := k) (x := .running todo) rfl (by simp)
      held := h.held.setRunning hk
      inTask := fun j hj => ?_
      idle_le := fun j idle hj => ?_
      checked_le := fun j n hj => ?_
      covered := fun hrunning => (hcovered hrunning).imp_right .inr }
  · obtain ⟨x,hx⟩ := ne_none_iff_exists'.mp hj
    have hjk := hne hx
    rw [setDoing_of_ne hjk] at hj
    have hworker : (s.peer.work.setWorker k (.running todo)).worker j = s.peer.work.worker j :=
      update_of_ne hjk _ _
    exact (congrArg Worker.next hworker).trans (h.inTask j hj)
  · exact h.idle_le j idle ((setDoing_of_ne (hne hj) _).symm.trans hj)
  · exact h.checked_le j n ((setDoing_of_ne (hne hj) _).symm.trans hj)

theorem Chain.check (h : Chain P s) (hcheck : s.check k = some t) : Chain P t := by
  obtain ⟨⟨hnext,-⟩,hcheck⟩ := ite_none_right_eq_some.mp hcheck
  split_ifs at hcheck with hstop
  · have hstopped := hstop.resolve_left h.interval
    exact h.leave hcheck fun hrunning => nomatch hstopped.symm.trans hrunning
  · cases hcheck
    exact h.setDoing hnext nofun fun n hn => by
      cases hn
      exact Nat.le_refl _

theorem Chain.send (h : Chain P s) (hsend : s.send P k error d = some t) : Chain P t := by
  unfold Link.send at hsend
  split at hsend
  · next n hdoing =>
    have hnext := h.inTask k (by simp [hdoing])
    split_ifs at hsend
    · cases hsend
      have hkept : Peer.Kept (· ≠ .persistentKeepalive) s.peer (s.peer.keepaliveSend P error d) :=
        Peer.kept_keepaliveSend (by decide)
      have hsent : Chain P ((s.setPeer (s.peer.keepaliveSend P error d)).setDoing k
          (some (.sent 0))) := by
        refine (h.kept hkept).setDoing ?_ ?_ fun n hn => by cases hn
        · simpa only [setPeer,hkept.asked.worker] using hnext
        · intro idle hidle
          cases hidle
          exact UInt32.zero_le
      exact { hsent with
        sends_le := List.forall_mem_cons.mpr ⟨h.checked_le k n hdoing,h.sends_le⟩ }
    · cases hsend
      refine h.setDoing hnext (fun idle hidle => ?_) fun n hn => by cases hn
      cases hidle
      exact Peer.keepaliveIdle_le
  · cases hsend

theorem Chain.rearm (h : Chain P s) (hrearm : s.rearm P k = some t) : Chain P t := by
  unfold Link.rearm at hrearm
  split at hrearm
  · next idle hdoing =>
    have hticks := Peer.keepaliveTicks_le (P := P) (h.idle_le k idle hdoing)
    have harmed : Chain P (s.setPeer (s.peer.keepaliveArm P idle)) := h.arm hticks id
    exact harmed.leave hrearm fun _ => .inl (pending_calloutSchedule hticks)
  · cases hrearm

variable {e : Peer.WorkerEvent κ}

theorem work_cases (h : s.work P e = some t) :
    (∃ we w changing, we.Moves ∧ s.peer.work.step we = some w ∧
      t = s.setPeer { s.peer with work := w, endpointChanging := changing }) ∨
    ∃ q k task todo, task ≠ .persistentKeepalive ∧
      Peer.Kept (· ≠ .persistentKeepalive) s.peer q ∧ q.work.worker k = .running (task :: todo) ∧
      t = s.setPeer (q.setWork (q.work.setWorker k (.running todo))) := by
  have hstep : ∃ q, s.peer.workerStep P e = some q ∧ t = s.setPeer q ∧ ∀ k error d,
      e = .run k error d → (s.peer.work.worker k).next ≠ some .persistentKeepalive := by
    unfold Link.work at h
    split at h
    · split_ifs at h with hnext
      obtain ⟨q,hq,rfl⟩ := map_eq_some_iff.mp h
      refine ⟨q,hq,rfl,fun k error d he => ?_⟩
      cases he
      exact hnext
    · next hother =>
      obtain ⟨q,hq,rfl⟩ := map_eq_some_iff.mp h
      exact ⟨q,hq,rfl,fun k error d he => absurd he (hother k error d)⟩
  obtain ⟨q,hq,rfl,hnext⟩ := hstep
  obtain ⟨we,w,changing,hmoves,hw,rfl⟩ | ⟨k,error,d,task,todo,he,hk,rfl⟩ :=
    Peer.workerStep_cases hq
  · exact .inl ⟨we,w,changing,hmoves,hw,rfl⟩
  · have hne : task ≠ .persistentKeepalive := fun htask =>
      hnext k error d he (by rw [hk,htask]; rfl)
    have hkept : Peer.Kept (· ≠ .persistentKeepalive) s.peer (s.peer.runTask P error d task) :=
      Peer.kept_runTask (by decide) (by decide) fun htask => absurd htask hne
    exact .inr ⟨_,k,task,todo,hne,hkept,hkept.asked.worker ▸ hk,rfl⟩

theorem Chain.finish (h : Chain P s) {task : Task} {todo : List Task}
    (hne : task ≠ .persistentKeepalive) (hk : s.peer.work.worker k = .running (task :: todo)) :
    Chain P (s.setPeer (s.peer.setWork (s.peer.work.setWorker k (.running todo)))) := by
  refine
    { h with
      live := Work.live_of_update (k := k) (x := .running todo) rfl (by simp)
      held := h.held.setRunning hk
      inTask := fun j hj => ?_
      covered := fun hrunning => (h.covered hrunning).imp_right (Or.imp_left fun hasks => ?_) }
  · have hnext := h.inTask j hj
    have hjk : j ≠ k := fun he => by
      rw [he,hk] at hnext
      exact hne (Option.some.inj hnext)
    exact (congrArg Worker.next (update_of_ne hjk _ _)).trans hnext
  · refine hasks.setWorker (k := k) (x := .running todo) (fun hmem => ?_) rfl rfl
    rw [hk] at hmem
    exact List.mem_of_ne_of_mem (Ne.symm hne) hmem

theorem Chain.work (h : Chain P s) (hwork : s.work P e = some t) : Chain P t := by
  obtain ⟨we,w,changing,hmoves,hw,rfl⟩ | ⟨q,k,task,todo,hne,hkept,hk,rfl⟩ := work_cases hwork
  · exact
      { h with
        live := h.live.step hw
        held := h.held.step hw
        inTask := fun k hk => by
          have hnext := h.inTask k hk
          exact (congrArg Worker.next
            (Work.worker_of_move hmoves hw hnext (by decide))).trans hnext
        covered := fun hrunning =>
          (h.covered hrunning).imp_right (Or.imp_left fun hasks => hasks.move hmoves hw) }
  · exact (h.kept hkept).finish hne hk

theorem Chain.step (h : Chain P s) {e : Event κ} (hstep : s.step P e = some t) : Chain P t := by
  cases e with
  | pass seconds ticks =>
    cases hstep
    exact h.pass seconds ticks
  | input i =>
    obtain ⟨-,rfl⟩ := of_guard hstep
    exact h.kept (Peer.kept_input (by decide) (by decide))
  | up =>
    obtain ⟨-,rfl⟩ := of_guard hstep
    exact h.up
  | arm =>
    obtain ⟨-,rfl⟩ := of_guard hstep
    rw [Peer.persistentKeepaliveAll,if_neg h.interval,if_pos rfl]
    exact h.arm (Peer.hz_le h.interval) nofun
  | down =>
    obtain ⟨-,rfl⟩ := of_guard hstep
    exact h.down
  | cancel =>
    obtain ⟨hadmin,rfl⟩ := of_guard hstep
    rw [Peer.persistentKeepaliveAll,if_neg h.interval,if_neg Bool.false_ne_true]
    exact h.cancel hadmin
  | fire x => exact h.fire hstep
  | work e => exact h.work hstep
  | check k => exact h.check hstep
  | send k error d => exact h.send hstep
  | rearm k => exact h.rearm hstep

omit [DecidableEq κ] in
theorem Published.interval_ne (h : Published P s) : s.peer.persistentKeepalive ≠ 0 :=
  fun hzero => by simpa [hzero] using h.interval.1

omit [DecidableEq κ] in
theorem Published.chain (h : Published P s) : Chain P s where
  interval := h.interval_ne
  live := by
    rw [h.fresh]
    exact fun hne => absurd rfl hne
  held := by
    rw [h.fresh]
    exact fun k todo hk => nomatch hk
  inTask := fun k hk => absurd (h.doing k) hk
  idle_le := fun k idle hk => nomatch (h.doing k).symm.trans hk
  checked_le := fun k n hk => nomatch (h.doing k).symm.trans hk
  sends_le := by
    rw [h.sends]
    exact fun n hn => absurd hn List.not_mem_nil
  stopped := fun hadmin => nomatch h.admin.symm.trans hadmin
  covered := fun hrunning =>
    .inl ⟨_,h.timer hrunning,Nat.add_le_add_left (Peer.hz_le h.interval_ne) _⟩

/-! ## After `wg_stop` -/

/-- Stopped after `N` firings: the timer is pending or a thread is past its test of the flag, but
not both, and only before the next firing. -/
structure Stopped (N : ℕ) (s : Link κ) : Prop where
  down : s.peer.ifRunning = false
  admin : s.admin = .rest
  firings_le : s.firings ≤ N + 1
  pending : (s.peer.timer .persistentKeepalive).pending ≠ none →
    s.firings ≤ N ∧ ∀ k, s.doing k = none
  doing : ∀ k, s.doing k ≠ none → s.firings ≤ N
  checked_le : ∀ k n, s.doing k = some (.checked n) → n ≤ N
  sends_le : ∀ n ∈ s.sends, n ≤ N

variable {N : ℕ}

section

variable {q : Peer κ}

omit [DecidableEq κ]

theorem Stopped.setPeer (h : Stopped N s)
    (htimer : q.timer .persistentKeepalive = s.peer.timer .persistentKeepalive)
    (hrunning : q.ifRunning = s.peer.ifRunning) : Stopped N (s.setPeer q) :=
  { h with
    down := hrunning.trans h.down
    pending := fun hne => h.pending (htimer ▸ hne) }

theorem Stopped.kept (h : Stopped N s)
    (hkept : Peer.Kept (· ≠ .persistentKeepalive) s.peer q) : Stopped N (s.setPeer q) :=
  h.setPeer (hkept.timer .persistentKeepalive fun hne => hne rfl) hkept.ifRunning

theorem Stopped.fire (h : Stopped N s) {x : TimerName} (hfire : s.fire P x = some t) :
    Stopped N t := by
  unfold Link.fire at hfire
  split at hfire
  · next due hdue =>
    obtain ⟨-,rfl⟩ := of_guard hfire
    by_cases hx : x = .persistentKeepalive
    · subst hx
      obtain ⟨hle,hdoing⟩ := h.pending (by simp [hdue])
      exact
        { h with
          firings_le := Nat.succ_le_succ hle
          pending := fun hne => absurd (by
            simp [Peer.callback,Peer.schedulePeerTask,Peer.calloutStop,Peer.setTimer]) hne
          doing := fun k hk => absurd (hdoing k) hk }
    · rw [if_neg hx]
      exact h.kept ((Peer.kept_setTimer hx _).trans (Peer.kept_callback hx))
  · cases hfire

end

section
variable (h : Stopped N s)
include h

theorem Stopped.work (hwork : s.work P e = some t) : Stopped N t := by
  obtain ⟨we,w,changing,-,-,rfl⟩ | ⟨q,k,task,todo,-,hkept,-,rfl⟩ := work_cases hwork
  · exact h.setPeer rfl rfl
  · exact (h.kept hkept).setPeer rfl rfl

theorem Stopped.leave (hleave : s.leave k = some t) : Stopped N t := by
  obtain ⟨w,hw,rfl⟩ := map_eq_some_iff.mp hleave
  have hdoing : ∀ j, ((s.setPeer (s.peer.setWork w)).setDoing k none).doing j ≠ none →
      ((s.setPeer (s.peer.setWork w)).setDoing k none).doing j = s.doing j := fun j hj => by
    have hjk : j ≠ k := fun he => hj (he ▸ setDoing_self _ none)
    exact setDoing_of_ne hjk _
  refine
    { h with
      pending := fun hne => ⟨(h.pending hne).1,fun j => ?_⟩
      doing := fun j hj => h.doing j (hdoing j hj ▸ hj)
      checked_le := fun j n hj => h.checked_le j n ((hdoing j (by simp [hj])).symm.trans hj) }
  by_contra hj
  exact hj ((hdoing j hj).trans ((h.pending hne).2 j))

theorem Stopped.check (hcheck : s.check k = some t) : Stopped N t := by
  obtain ⟨-,hcheck⟩ := ite_none_right_eq_some.mp hcheck
  rw [if_pos (.inr h.down)] at hcheck
  exact h.leave hcheck

theorem Stopped.setDoing {x : UInt32} (hk : s.doing k ≠ none) :
    Stopped N (s.setDoing k (some (.sent x))) := by
  refine
    { h with
      pending := fun hne => absurd ((h.pending hne).2 k) hk
      doing := fun _ _ => h.doing k hk
      checked_le := fun j n hj => ?_ }
  by_cases hjk : j = k
  · subst hjk
    cases (setDoing_self s _).symm.trans hj
  · exact h.checked_le j n ((setDoing_of_ne hjk _).symm.trans hj)

theorem Stopped.send (hsend : s.send P k error d = some t) : Stopped N t := by
  unfold Link.send at hsend
  split at hsend
  · next n hdoing =>
    have hk : s.doing k ≠ none := by simp [hdoing]
    split_ifs at hsend
    · cases hsend
      have hkept : Peer.Kept (· ≠ .persistentKeepalive) s.peer (s.peer.keepaliveSend P error d) :=
        Peer.kept_keepaliveSend (by decide)
      exact { (h.kept hkept).setDoing (k := k) (x := 0) hk with
        sends_le := List.forall_mem_cons.mpr ⟨h.checked_le k n hdoing,h.sends_le⟩ }
    · cases hsend
      exact h.setDoing hk
  · cases hsend

theorem Stopped.rearm (hchain : Chain P s) (hrearm : s.rearm P k = some t) : Stopped N t := by
  unfold Link.rearm at hrearm
  split at hrearm
  · next idle hdoing =>
    have hk : s.doing k ≠ none := by simp [hdoing]
    obtain ⟨w,hw,rfl⟩ := map_eq_some_iff.mp hrearm
    have hnone : ∀ j, ((s.setPeer ((s.peer.keepaliveArm P idle).setWork w)).setDoing k
        none).doing j = none := fun j => by
      by_cases hjk : j = k
      · exact hjk ▸ setDoing_self _ none
      rw [setDoing_of_ne hjk]
      by_contra hj
      obtain ⟨xs,hxs⟩ := Worker.next_eq_some (hchain.inTask j hj)
      obtain ⟨ys,hys⟩ := Worker.next_eq_some (hchain.inTask k hk)
      exact hjk (hchain.held.exclusive hxs hys)
    exact
      { h with
        pending := fun _ => ⟨h.doing k hk,hnone⟩
        doing := fun j hj => absurd (hnone j) hj
        checked_le := fun j n hj => nomatch (hnone j).symm.trans hj }
  · cases hrearm

theorem Stopped.step (hchain : Chain P s) {e : Event κ} (hup : e ≠ .up)
    (hstep : s.step P e = some t) : Stopped N t := by
  cases e with
  | pass seconds ticks =>
    cases hstep
    exact h.setPeer rfl rfl
  | input i =>
    obtain ⟨-,rfl⟩ := of_guard hstep
    exact h.kept (Peer.kept_input (by decide) (by decide))
  | up => exact absurd rfl hup
  | arm | cancel =>
    obtain ⟨hadmin,-⟩ := ite_none_right_eq_some.mp hstep
    cases h.admin.symm.trans hadmin
  | down =>
    obtain ⟨⟨-,hrunning⟩,-⟩ := ite_none_right_eq_some.mp hstep
    cases h.down.symm.trans hrunning
  | fire x => exact h.fire hstep
  | work e => exact h.work hstep
  | check k => exact h.check hstep
  | send k error d => exact h.send hstep
  | rearm k => exact h.rearm hchain hstep

end

theorem Chain.stopped_of_cancel (h : Chain P s) (hcancel : s.step P .cancel = some t) :
    Stopped t.firings t := by
  obtain ⟨hadmin,rfl⟩ := of_guard hcancel
  rw [Peer.persistentKeepaliveAll,if_neg h.interval,if_neg Bool.false_ne_true]
  exact
    { down := h.stopped hadmin
      admin := rfl
      firings_le := Nat.le_succ _
      pending := fun hne => absurd (by simp [Peer.calloutStop,Peer.setTimer]) hne
      doing := fun _ _ => Nat.le_refl _
      checked_le := h.checked_le
      sends_le := h.sends_le }

/-! ## The chain -/

def TaskQueued (s : Link κ) : Prop :=
  .persistentKeepalive ∈ s.peer.work.tasks ∧
    (0 < s.peer.work.queued ∨ ∃ k, s.peer.work.worker k ≠ .idle)

def TaskRunning (s : Link κ) : Prop :=
  ∃ k, .persistentKeepalive ∈ (s.peer.work.worker k).todo

/-- While the interface runs, the timer is pending and due within the interval, its task is queued
or running, or `wg_init` is about to arm it. After a last `wg_stop` it goes off at most once, and
what the task still sends is for a firing before. -/
theorem keepalive_chain (hpublished : Published P s) {es : List (Event κ)}
    (hrun : exec (step P) s es = some t) :
    (t.peer.ifRunning = true →
      t.Pending P ∨ t.TaskQueued ∨ t.TaskRunning ∨ t.admin = .arming) ∧
    ∀ u later v, t.step P .cancel = some u → .up ∉ later → exec (step P) u later = some v →
      v.firings ≤ u.firings + 1 ∧ ∀ n ∈ v.sends, n ≤ u.firings := by
  have h : Chain P t := exec_invariant (Chain P) (fun _ _ _ h => h.step) hpublished.chain hrun
  refine ⟨fun hrunning => ?_,fun u later v hcancel hup hlater => ?_⟩
  · obtain hpending | (htasks | htaken) | harming := h.covered hrunning
    · exact .inl hpending
    · exact .inr (.inl ⟨htasks,h.live (Finset.ne_empty_of_mem htasks)⟩)
    · exact .inr (.inr (.inl htaken))
    · exact .inr (.inr (.inr harming))
  · have hstart : Chain P u ∧ Stopped u.firings u := ⟨h.step hcancel,h.stopped_of_cancel hcancel⟩
    have hnever : ∀ e ∈ later, e ≠ .up := fun e he heq => hup (heq ▸ he)
    have hall : Along (step P) (fun _ e => e ≠ .up) u later := along_of_forall hnever u
    have hend : Chain P v ∧ Stopped u.firings v :=
      exec_invariant_along (fun r => Chain P r ∧ Stopped u.firings r)
        (fun _ _ _ hr he hs => ⟨hr.1.step hs,hr.2.step hr.1 he hs⟩) hstart hall hlater
    exact ⟨hend.2.firings_le,hend.2.sends_le⟩

def quietLink : Link Unit := ⟨.added Unit false,.rest,fun _ => none,0,[]⟩

theorem quietLink_published : Published (.protocol 100) quietLink :=
  ⟨rfl,by decide,nofun,rfl,fun _ => rfl,rfl,rfl⟩

/-- The interface comes up, the timer goes off, a thread passes its test of the flag, and the
interface goes down. -/
def strayRun : List (Event Unit) :=
  [.up,.arm,.pass 1 100,.fire .persistentKeepalive,.work (.start ()),.work (.take ()),
    .work (.lock ()),.check (),.down]

theorem keepalive_chain_stray : ∃ t, exec (step (.protocol 100)) quietLink strayRun = some t ∧
    t.firings = 1 ∧ t.doing () = some (.checked 1) ∧
    ((t.peer.ifRunning = true →
      t.Pending (.protocol 100) ∨ t.TaskQueued ∨ t.TaskRunning ∨ t.admin = .arming) ∧
    ∀ u later v, t.step (.protocol 100) .cancel = some u → .up ∉ later →
      exec (step (.protocol 100)) u later = some v →
      v.firings ≤ u.firings + 1 ∧ ∀ n ∈ v.sends, n ≤ u.firings) := by
  have hrun := (some_get (x := exec (step (.protocol 100)) quietLink strayRun)
    (by decide +kernel)).symm
  exact ⟨_,hrun,by decide +kernel,by decide +kernel,keepalive_chain quietLink_published hrun⟩

/-- The thread sends and arms the timer after the stop, and the firing that follows finds the
interface stopped: the bound is attained. -/
example : ((exec (step (.protocol 100)) quietLink (strayRun ++
      [.cancel,.send () false .sent,.rearm (),.work (.unlock ()),.work (.take ()),.pass 25 2500,
        .fire .persistentKeepalive,.work (.start ()),.work (.take ()),.work (.lock ()),
        .check ()])).map fun v => (v.firings,v.sends,(v.peer.timer .persistentKeepalive).pending)) =
    some (2,[1],none) := by
  decide +kernel

end Link
end NanoBSD.Wg
