import Mathlib.Data.Finset.Card
import NanoBSD.Xhci.Moves

/-! # An idle suspend writes the port of a quiet device

A suspend decides on what it knows under the lock, and everything that happens between
two of its sections has to be visible at the next one. Doorbells are deferred from the
moment the slot counts as suspended, and the other pipes are seen by their number. What
the last check before the write of U3 does not see is a transfer of the control pipe,
which no counter tells and which leaves a trace only when it completes.
-/
namespace NanoBSD.Xhci
open Function
variable {n : ℕ} {s t : State n} {ev : Event n} {i : Fin n} {r : Core × Cell} {b : Bus n}
  {p q : Pm n} {k k' : Core} {o : Owner} {pc : Pc} {e : Env} {c : Cell}

/-! ## The flags and the system suspend -/
namespace Pm

def paused : Pm n → Bool
  | .pausing | .halted | .drained | .blocked | .asleep | .resuming | .broken | .ringing _ | .rung => true
  | _ => false

def suspender : Pm n → Bool
  | .blocked | .asleep | .resuming => true
  | _ => false

def settled : Pm n → Bool
  | .drained | .blocked | .asleep | .resuming | .broken | .ringing _ | .rung => true
  | _ => false

def shut : Pm n → Bool
  | .blocked | .asleep | .resuming | .broken | .ringing _ | .rung => true
  | _ => false

theorem paused_of_settled (h : p.settled = true) : p.paused = true := by
  cases p <;> first | rfl | cases h

theorem paused_of_shut (h : p.shut = true) : p.paused = true := by
  cases p <;> first | rfl | cases h

end Pm

def Core.Idle (k : Core) : Prop := k.owner = none ∧ k.worker = .idle ∧ k.queued = false

structure Core.Manned (k : Core) (p : Pm n) : Prop where
  busy : ∀ o, k.owner = some o → o.who = .task → k.worker = .busy
  fresh : k.link = .unbound ∨ k.link = .binding → k.Idle
  settled : p.settled = true → k.link = .bound → k.Idle

/-- The flags follow the system suspend, and in a drained pause bound slots are left alone. -/
structure Regime (s : State n) : Prop where
  paused : s.env.paused = s.pm.paused
  suspender : s.env.suspender = s.pm.suspender
  failed : s.env.resumeFailed = true → s.pm = .broken ∨ s.pm = .resuming
  bus : s.pm.shut = true → s.bus = .free
  slot : ∀ i, (s.core i).Manned s.pm

theorem Core.Manned.same (h : k.Manned p) (hq : q.settled = true → p.settled = true)
    (hl : k'.link = k.link) (ho : k'.owner = k.owner) (hw : k'.worker = k.worker)
    (hqu : k'.queued = k.queued) : k'.Manned q := by
  constructor
  · rw [ho,hw]
    exact h.busy
  · unfold Core.Idle
    rw [hl,ho,hw,hqu]
    exact h.fresh
  · unfold Core.Idle
    rw [hl,ho,hw,hqu]
    exact fun hs => h.settled (hq hs)

theorem Core.Manned.active (h : k.Manned p) (hno : ¬k.Idle) :
    ¬(k.link = .unbound ∨ k.link = .binding) ∧ ¬(p.settled = true ∧ k.link = .bound) :=
  ⟨fun hf => hno (h.fresh hf),fun hs => hno (h.settled hs.1 hs.2)⟩

theorem Core.Manned.of_active (hno : ¬(k.link = .unbound ∨ k.link = .binding) ∧
    ¬(p.settled = true ∧ k.link = .bound)) (hl : k'.link = k.link)
    (hbusy : ∀ o, k'.owner = some o → o.who = .task → k'.worker = .busy) : k'.Manned p :=
  ⟨hbusy,fun hf => absurd (hl ▸ hf) hno.1,fun hs hb => absurd ⟨hs,hl ▸ hb⟩ hno.2⟩

theorem Core.Manned.nudge (h : k.Manned p) (hp : p.settled = false) (hk : Nudged k k') :
    k'.Manned p := by
  obtain rfl | ⟨hl,want,queued,rfl⟩ := hk
  · exact h
  · exact .of_active ⟨by simp [hl],by simp [hp]⟩ rfl h.busy

theorem rtKick_nudged (e : Env) (want : Want) (k : Core) : Nudged k (rtKick e want k) := by
  unfold rtKick
  split_ifs with hgo
  · exact .inr ⟨hgo.2.2,_,_,rfl⟩
  · exact .inl rfl

theorem rtKick_manned {want : Want} (h : k.Manned p) (hq : q.settled = p.settled)
    (he : e.paused = p.paused) : (rtKick e want k).Manned q := by
  have hsame : (q.settled = true → p.settled = true) := fun hs => hq ▸ hs
  cases hs : q.settled with
  | false => exact (h.same hsame rfl rfl rfl rfl).nudge hs (rtKick_nudged e want k)
  | true =>
    have hpaused : e.paused = true := he.trans (Pm.paused_of_settled (hsame hs))
    rw [rtKick,if_neg (by simp [hpaused])]
    exact h.same hsame rfl rfl rfl rfl

theorem advanced_manned (h : k.Manned p) (ho : k.owner = some o)
    (hadv : Advanced e k c o r) : r.1.Manned p := by
  have hno := h.active fun hidle => by simp [hidle.1] at ho
  refine .of_active hno hadv.frame.1 ?_
  obtain hrel | ⟨⟨pc,hpc⟩,hw,-⟩ := hadv.owner
  · rw [hrel]
    intro o' ho'
    cases ho'
  · rw [hpc,hw]
    intro o' ho' htask
    cases ho'
    exact h.busy o ho htask

theorem rtDoorbell_eq (e : Env) (d : ℕ) (k : Core) :
    rtDoorbell e d k = { k with
      dbpending := (rtDoorbell e d k).dbpending
      resuming := (rtDoorbell e d k).resuming
      held := (rtDoorbell e d k).held
      rung := (rtDoorbell e d k).rung } := by
  unfold rtDoorbell
  split_ifs <;> rfl

theorem Turned.manned (hs : Regime s) (h : Turned s i ev r b p) : r.1.Manned p := by
  have hi := hs.slot i
  have hid : s.pm.settled = true → s.pm.settled = true := id
  cases h with
  | owner a ho => exact advanced_manned hi ho (advance_advanced _ _ _ _ a)
  | pop hq hw =>
    exact .of_active (hi.active fun hidle => by simp [hidle.2.2] at hq) rfl
      fun o ho ht => by simpa [hw] using hi.busy o ho ht
  | task hw =>
    have hno := hi.active fun hidle => by simp [hidle.2.1] at hw
    rcases rtTask_cases s.env (s.slots i) with ⟨-,htask⟩ | ⟨-,want,htask,-⟩ <;> rw [htask]
    · refine .of_active hno rfl fun o ho ht => ?_
      have hbusy := hi.busy o ho ht
      rw [hw] at hbusy
      cases hbusy
    · exact .of_active hno rfl fun _ _ _ => rfl
  | wakeForOpen hl hp ho hsus =>
    have hpm : s.pm.settled ≠ true := fun hset => by
      have := hs.paused.trans (Pm.paused_of_settled hset)
      simp [hp] at this
    refine .of_active (k := s.core i) ⟨by simp [hl],fun h => hpm h.1⟩ rfl fun o ho' ht => ?_
    cases ho'
    cases ht
  | pipeOpened d own hd hnew hl hk | pipeClosed d own hd hrung hheld hl hk =>
    subst hk
    exact hi.same hid rfl rfl rfl rfl
  | pipeGone | complete | abort | stir | wake => exact hi.same hid rfl rfl rfl rfl
  | doorbell | restart =>
    rw [rtDoorbell_eq]
    exact hi.same hid rfl rfl rfl rfl
  | kick => exact rtKick_manned hi rfl hs.paused
  | bind root hl hbus =>
    have hidle := hi.fresh (.inl hl)
    exact ⟨nofun,fun _ => ⟨rfl,hidle.2.1,rfl⟩,nofun⟩
  | bound hl hk =>
    have hidle := hi.fresh (.inr hl)
    rw [hk]
    exact ⟨hi.busy,fun hf => (by rcases hf with hf | hf <;> cases hf),fun _ _ => hidle⟩
  | unbind hl =>
    exact ⟨hi.busy,fun hf => (by rcases hf with hf | hf <;> cases hf),nofun⟩
  | unbound hl hq hw ho => exact ⟨hi.busy,fun _ => ⟨ho,hw,hq⟩,nofun⟩
  | failKick hpm | unparkKick hpm => exact rtKick_manned hi (by rw [hpm]; rfl) hs.paused
  | ring hpm hl =>
    rw [rtRingPending_eq]
    exact hi.same (fun _ => by rw [hpm]; rfl) rfl rfl rfl rfl

theorem place_slot (s : State n) (i j : Fin n) (r : Core × Cell) :
    (s.place i r).slots j = if j = i then ⟨r.1,r.2.dl⟩ else s.slots j :=
  update_apply _ _ _ _

theorem place_core (s : State n) (i j : Fin n) (r : Core × Cell) :
    (s.place i r).core j = if j = i then r.1 else s.core j := by
  unfold State.core
  rw [place_slot]
  split_ifs <;> rfl

theorem forall_place_slot {P : Fin n → Core → Deadline → Prop}
    (h : ∀ j, j ≠ i → P j (s.core j) (s.slots j).toDeadline) (hi : P i r.1 r.2.dl) (j : Fin n) :
    P j ((s.place i r).core j) ((s.place i r).slots j).toDeadline := by
  rw [place_core,place_slot]
  split_ifs with hj
  · exact hj ▸ hi
  · exact h j hj

theorem forall_place {P : Fin n → Core → Prop} (h : ∀ j, P j (s.core j)) (hi : P i r.1) :
    ∀ j, P j ((s.place i r).core j) :=
  forall_place_slot (P := fun j k _ => P j k) (fun j _ => h j) hi

def Pm.Like (p q : Pm n) : Prop :=
  p.paused = q.paused ∧ p.suspender = q.suspender ∧ p.settled = q.settled ∧ p.shut = q.shut ∧
    (q = .broken ∨ q = .resuming → p = q)

theorem Turned.pm_like (h : Turned s i ev r b p) : p.Like s.pm := by
  unfold Pm.Like
  cases h with
  | failKick hpm | unparkKick hpm | ring hpm => simp [hpm,Pm.paused,Pm.suspender,Pm.settled,Pm.shut]
  | _ => exact ⟨rfl,rfl,rfl,rfl,fun _ => rfl⟩

theorem Turned.bus_free (hs : Regime s) (h : Turned s i ev r b p) (hshut : s.pm.shut = true) :
    b = .free := by
  have hfree := hs.bus hshut
  have hpaused := hs.paused.trans (Pm.paused_of_shut hshut)
  cases h with
  | doorbell d hbus => exact if_neg (by simp [rtDoorbellResumes,hpaused])
  | kick | stir => rfl
  | wake resumes hbus =>
    rw [hfree] at hbus
    cases hbus
  | _ => exact hfree

theorem Looked.pm_like (h : Looked s b p) : p.Like s.pm := by
  unfold Pm.Like
  cases h with
  | failKick hpm | failSkip hpm | ringSkip hpm | ringDone hpm | unparkKick hpm | unparkSkip hpm =>
    simp [hpm,Pm.paused,Pm.suspender,Pm.settled,Pm.shut]
  | _ => exact ⟨rfl,rfl,rfl,rfl,fun _ => rfl⟩

theorem Looked.bus_free (hs : Regime s) (h : Looked s b p) (hshut : s.pm.shut = true) :
    b = .free := by
  have hfree := hs.bus hshut
  have hpaused := hs.paused.trans (Pm.paused_of_shut hshut)
  cases h with
  | portchange i hbus hp => simp [hp] at hpaused
  | lookAway | asleepAway => rfl
  | lookAsleep i hbus | lookAwake i hbus | asleepWake i hbus =>
    rw [hfree] at hbus
    cases hbus
  | _ => exact hfree

theorem Core.Manned.pm (h : k.Manned p)
    (hq : q.settled = true → p.settled = true) : k.Manned q := h.same hq rfl rfl rfl rfl

theorem Regime.nudge (hs : Regime s) (henv : t.env = s.env) (hbus : t.bus = s.bus)
    (hpm : t.pm = s.pm) (hk : ∀ i, t.core i = s.core i ∨
      s.env.paused = false ∧ Nudged (s.core i) (t.core i)) : Regime t := by
  refine ⟨?_,?_,?_,?_,fun i => ?_⟩
  · rw [henv,hpm]
    exact hs.paused
  · rw [henv,hpm]
    exact hs.suspender
  · rw [henv,hpm]
    exact hs.failed
  · rw [hbus,hpm]
    exact hs.bus
  · rw [hpm]
    obtain heq | ⟨hp,hn⟩ := hk i
    · rw [heq]
      exact hs.slot i
    · refine (hs.slot i).nudge (Bool.eq_false_iff.mpr fun hset => ?_) hn
      have hpaused := hs.paused.trans (Pm.paused_of_settled hset)
      simp [hp] at hpaused

theorem reconcile_nudged (s : State n) (flags : Flags) (i : Fin n) :
    (s.reconcile flags).core i = s.core i ∨
    s.env.paused = false ∧ Nudged (s.core i) ((s.reconcile flags).core i) := by
  unfold State.core
  obtain h | ⟨hon,u,h⟩ := reconcile_slot s i flags
  · exact .inl (congrArg Slot.toCore h)
  · rw [h]
    exact .inr ⟨hon.2,reconcileCore_nudged flags _⟩

theorem callout_nudged (s : State n) (i : Fin n) :
    s.callout.core i = s.core i ∨ s.env.paused = false ∧ Nudged (s.core i) (s.callout.core i) := by
  unfold State.core
  obtain h | ⟨hon,a,h⟩ := callout_slot s i
  · exact .inl (congrArg Slot.toCore h)
  · rw [h]
    exact .inr ⟨hon.2,a.visit_nudged s.env _⟩

theorem Regime.reconcile (hs : Regime s) (flags : Flags) : Regime (s.reconcile flags) :=
  hs.nudge (reconcile_env s flags) (reconcile_bus s flags) (reconcile_pm s flags)
    (reconcile_nudged s flags)

theorem Regime.callout (hs : Regime s) : Regime s.callout :=
  hs.nudge (callout_env s) (callout_bus s) (callout_pm s) (callout_nudged s)

theorem Regime.reconcileAwake (hs : Regime s) (flags : Flags) (hp : s.pm.paused = false)
    (hsus : s.pm.suspender = false) (hpm : ¬(s.pm = .broken ∨ s.pm = .resuming)) :
    Regime { s.reconcile flags with pm := .awake } := by
  have hrec := hs.reconcile flags
  constructor
  · exact (reconcile_env s flags ▸ hs.paused).trans hp
  · exact (reconcile_env s flags ▸ hs.suspender).trans hsus
  · exact fun hf => absurd (hs.failed (reconcile_env s flags ▸ hf)) hpm
  · exact nofun
  · exact fun i => (hrec.slot i).pm nofun

theorem Knob.apply_flags {k : Knob} {e e' : Env} (h : k.apply e = some e') :
    e'.paused = e.paused ∧ e'.suspender = e.suspender ∧ e'.resumeFailed = e.resumeFailed ∧
    e'.dying = e.dying ∧ e'.now = e.now := by
  cases k with
  | autosuspend val =>
    obtain ⟨-,rfl⟩ := of_guard h
    exact ⟨rfl,rfl,rfl,rfl,rfl⟩
  | hid | deferrable val =>
    cases h
    exact ⟨rfl,rfl,rfl,rfl,rfl⟩

theorem Core.Manned.drain (h : k.Manned p)
    (hd : (k.link = .bound → k.queued = false ∧ k.worker = .idle) ∧
      ∀ o, k.owner = some o → o.who ≠ .opener) : k.Manned (n := n) .drained := by
  refine ⟨h.busy,h.fresh,fun _ hl => ?_⟩
  obtain ⟨hq,hw⟩ := hd.1 hl
  refine ⟨Option.eq_none_iff_forall_ne_some.mpr fun o ho => ?_,hw,hq⟩
  cases hwho : o.who with
  | task =>
    have hbusy := h.busy o ho hwho
    rw [hw] at hbusy
    cases hbusy
  | opener => exact hd.2 o ho hwho

theorem resumedCore_eq (e : Env) (k : Core) :
    resumedCore e k = { k with
      suspended := (resumedCore e k).suspended
      resuming := (resumedCore e k).resuming
      want := (resumedCore e k).want
      lastbusy := (resumedCore e k).lastbusy } := by
  unfold resumedCore
  split_ifs <;> rfl

theorem resumedCore_manned (e : Env) (h : k.Manned p)
    (hq : q.settled = true → p.settled = true) : (resumedCore e k).Manned q := by
  rw [resumedCore_eq]
  exact h.same hq rfl rfl rfl rfl

theorem Moved.regime (h : Moved s ev t) (hs : Regime s) : Regime t := by
  have hslot (q : Pm n) (hq : q.settled = true → s.pm.settled = true) (i : Fin n) :
      (s.core i).Manned q := (hs.slot i).pm hq
  have hno (hpm : ¬(s.pm = .broken ∨ s.pm = .resuming)) (q : Pm n) :
      s.env.resumeFailed = true → q = .broken ∨ q = .resuming := fun hf => absurd (hs.failed hf) hpm
  have hp {q : Pm n} {b : Bool} (hpm : s.pm = q) (hb : q.paused = b) : s.env.paused = b :=
    hs.paused.trans (hpm ▸ hb)
  have hsus {q : Pm n} {b : Bool} (hpm : s.pm = q) (hb : q.suspender = b) : s.env.suspender = b :=
    hs.suspender.trans (hpm ▸ hb)
  have hbus {q : Pm n} (hpm : s.pm = q) (hq : q.shut = true) : s.bus = .free := hs.bus (hpm ▸ hq)
  have hset {q : Pm n} (hpm : s.pm = q) (i : Fin n) : (s.core i).Manned q := hpm ▸ hs.slot i
  cases h with
  | turn h =>
    obtain ⟨hp,hsus,hset,hshut,hbroken⟩ := h.pm_like
    refine ⟨hs.paused.trans hp.symm,hs.suspender.trans hsus.symm,fun hf => ?_,
      fun hsh => h.bus_free hs (hshut ▸ hsh),?_⟩
    · exact (hbroken (hs.failed hf)).symm ▸ hs.failed hf
    · exact forall_place (P := fun _ k => k.Manned _) (hslot _ (hset ▸ id)) (h.manned hs)
  | look h =>
    obtain ⟨hp,hsus,hset,hshut,hbroken⟩ := h.pm_like
    exact ⟨hs.paused.trans hp.symm,hs.suspender.trans hsus.symm,
      fun hf => (hbroken (hs.failed hf)).symm ▸ hs.failed hf,
      fun hsh => h.bus_free hs (hshut ▸ hsh),hslot _ (hset ▸ id)⟩
  | callout => exact hs.callout
  | reconcile wake hk => exact ⟨(hs.reconcile _).paused,(hs.reconcile _).suspender,
      (hs.reconcile _).failed,(hs.reconcile _).bus,(hs.reconcile _).slot⟩
  | failed hpm | unparked hpm =>
    exact hs.reconcileAwake _ (by rw [hpm]; rfl) (by rw [hpm]; rfl) (by simp [hpm])
  | store k hk =>
    obtain ⟨hp,hsus,hf,-⟩ := Knob.apply_flags hk
    exact ⟨hp.trans hs.paused,hsus.trans hs.suspender,fun h => hs.failed (hf ▸ h),hs.bus,hs.slot⟩
  | tick | deactivate | detach => exact ⟨hs.paused,hs.suspender,hs.failed,hs.bus,hs.slot⟩
  | pause hpm | unpause hpm => exact ⟨rfl,hsus hpm rfl,hno (by simp [hpm]) _,nofun,hslot _ nofun⟩
  | halt hpm => exact ⟨hp hpm rfl,hsus hpm rfl,hno (by simp [hpm]) _,nofun,hslot _ nofun⟩
  | drain hpm hd =>
    exact ⟨hp hpm rfl,hsus hpm rfl,hno (by simp [hpm]) _,nofun,fun i => (hs.slot i).drain (hd i)⟩
  | block hpm hfree =>
    exact ⟨hp hpm rfl,rfl,hno (by simp [hpm]) _,fun _ => hfree,fun i => (hset hpm i).pm fun _ => rfl⟩
  | fail hpm => exact ⟨rfl,rfl,hno (by simp [hpm]) _,nofun,hslot _ nofun⟩
  | sleep hpm =>
    exact ⟨hp hpm rfl,hsus hpm rfl,hno (by simp [hpm]) _,fun _ => hbus hpm rfl,
      fun i => (hset hpm i).pm fun _ => rfl⟩
  | resume hpm =>
    rcases hpm with hpm | hpm <;>
      exact ⟨hp hpm rfl,rfl,fun _ => .inr rfl,fun _ => hbus hpm rfl,fun i => (hset hpm i).pm fun _ => rfl⟩
  | broke hpm =>
    exact ⟨hp hpm rfl,rfl,fun _ => .inl rfl,fun _ => hbus hpm rfl,fun i => (hset hpm i).pm fun _ => rfl⟩
  | resumed hpm =>
    exact ⟨hp hpm rfl,rfl,nofun,fun _ => hbus hpm rfl,
      fun i => resumedCore_manned s.env (hset hpm i) fun _ => rfl⟩

theorem attach_regime (now : ℤ) (hz autosuspend : ℕ) (deferrable : Bool) :
    Regime (attach n now hz autosuspend deferrable) :=
  ⟨rfl,rfl,nofun,fun _ => rfl,fun _ => ⟨nofun,fun _ => ⟨rfl,rfl,rfl⟩,nofun⟩⟩

/-! ## What an idle suspend knows -/

/-- What a suspend knows of the slot between two of its sections. -/
def Pc.Knows (k : Core) : Pc → Prop
  | .probe _ park => park = false → k.parkedDrv = false
  | .parking _ _ => k.suspended = true
  | .parkWait _ _ => k.suspended = true
  | .look _ park _ =>
    (park = true → k.suspended = true ∧ ∀ d ≠ 1, k.rung d = 0) ∧
      (park = false → k.parkedDrv = false)
  | .write _ => k.suspended = true ∧ ∀ d, k.rung d = 0
  | _ => True

/-- Transfers are on open pipes, which are counted, and the suspend knows what it should. -/
structure Core.Sound (k : Core) : Prop where
  npipes : k.link = .bound ∨ k.link = .binding → k.npipes = k.pipes.card
  opened : ∀ d, k.rung d ≠ 0 ∨ k.held d ≠ 0 → d = 1 ∨ d ∈ k.pipes
  knows : ∀ o, k.owner = some o → o.pc.Knows k

theorem Pc.Knows.mono (h : pc.Knows k) (hp : k'.parkedDrv = k.parkedDrv)
    (hs : k.suspended = true → k'.suspended = true ∧ ∀ d, k.rung d = 0 → k'.rung d = 0) :
    pc.Knows k' := by
  cases pc with
  | probe gen park => exact fun hpark => hp.trans (h hpark)
  | parking | parkWait => exact (hs h).1
  | look gen park lastbusy =>
    refine ⟨fun hpark => ?_,fun hpark => hp.trans (h.2 hpark)⟩
    obtain ⟨hsus,hrung⟩ := h.1 hpark
    exact ⟨(hs hsus).1,fun d hd => (hs hsus).2 d (hrung d hd)⟩
  | write gen => exact ⟨(hs h.1).1,fun d => (hs h.1).2 d (h.2 d)⟩
  | _ => trivial

theorem Core.Sound.same (h : k.Sound) (hl : k'.link = k.link) (hn : k'.npipes = k.npipes)
    (hpipes : k'.pipes = k.pipes) (ho : k'.owner = k.owner) (hp : k'.parkedDrv = k.parkedDrv)
    (hs : k'.suspended = k.suspended) (hrung : ∀ d, k'.rung d ≤ k.rung d)
    (hheld : ∀ d, k'.held d ≤ k.held d) : k'.Sound := by
  refine ⟨by rw [hl,hn,hpipes]; exact h.npipes,fun d hd => ?_,fun o hown => ?_⟩
  · rw [hpipes]
    have := hrung d
    have := hheld d
    exact h.opened d (by omega)
  · refine (h.knows o (ho ▸ hown)).mono hp fun hsus => ⟨hs.trans hsus,fun d hd => ?_⟩
    have := hrung d
    omega

theorem Core.Sound.goto (h : k.Sound) (hpc : pc.Knows k) : (k.goto o pc).Sound :=
  ⟨h.npipes,h.opened,fun o' ho' => by
    cases ho'
    cases pc <;> exact hpc⟩

theorem Goes.knows {pc' : Pc} (h : Goes e k pc pc') (hk : pc.Knows k) : pc'.Knows k := by
  cases h with
  | firstProbe hs hp => exact fun _ => hp
  | probeLook => exact ⟨nofun,fun _ => hk rfl⟩
  | @wakeBack r h => cases r <;> trivial
  | _ => trivial

theorem After.knows (a : After) : a.pc.Knows k := by cases a <;> trivial

theorem Core.Sound.unused {gen : ℕ} {park : Bool} {lastbusy : ℤ} (h : k.Sound)
    (hpc : (Pc.look gen park lastbusy).Knows k) (hused : usedAgain e k park lastbusy = false)
    (hctl : k.rung 1 = 0) (d : ℕ) : k.rung d = 0 := by
  rcases eq_or_ne d 1 with rfl | hd
  · exact hctl
  · cases park with
    | true => exact (hpc.1 rfl).2 d hd
    | false =>
      have hparked := hpc.2 rfl
      simp only [usedAgain,Bool.or_eq_false_iff,Bool.and_eq_false_iff,decide_eq_false_iff_not,
        not_not,hparked,Bool.not_false,Bool.true_eq_false,or_false] at hused
      have hnone : k.pipes = ∅ := by
        rw [← Finset.card_eq_zero,← h.npipes (.inl hused.1.1.1.1.1)]
        exact hused.1.2
      refine Decidable.not_not.mp fun hrung => ?_
      rcases h.opened d (.inl hrung) with h1 | hmem
      · exact hd h1
      · simp [hnone] at hmem

theorem Core.Sound.ringBells (h : k.Sound) (ds : Finset ℕ)
    (hawake : ¬(e.blocked || k.suspended || k.resuming) = true) : (k.ringBells ds).Sound := by
  have hsus : k.suspended = false := by
    revert hawake
    cases k.suspended <;> simp
  refine ⟨h.npipes,fun d hd => h.opened d ?_,fun o ho => ?_⟩
  · revert hd
    dsimp only [Core.ringBells]
    split_ifs <;> omega
  · exact (h.knows o ho).mono rfl fun hs => by simp [hsus] at hs

theorem Core.Sound.ringPending (h : k.Sound) : (rtRingPending e k).Sound := by
  unfold rtRingPending
  split_ifs with hdefer
  · exact h
  · have hrung := h.ringBells k.dbpending hdefer
    exact ⟨hrung.npipes,hrung.opened,hrung.knows⟩

def Pc.looks : Pc → Bool
  | .look _ _ _ => true
  | _ => false

theorem Core.Sound.advanced (h : k.Sound) (ho : k.owner = some o) (hadv : Advanced e k c o r)
    (hctl : o.pc.looks = true → k.rung 1 = 0) : r.1.Sound := by
  have hpc := h.knows o ho
  cases hadv with
  | goes hgo => exact h.goto (hgo.knows hpc)
  | outcome hpc => exact h.goto (o := o) trivial
  | outcomeOff | firstOwed | asleep | asleepWoken | wake | unparked | woken =>
    exact ⟨h.npipes,h.opened,fun _ ho' => by cases ho'; trivial⟩
  | release hpc => exact ⟨h.npipes,h.opened,nofun⟩
  | park hpc hl hp =>
    refine Core.Sound.goto ⟨h.npipes,h.opened,fun o' ho' => ?_⟩ rfl
    cases ho.symm.trans ho'
    rw [hpc]
    exact fun hpark => (by cases hpark)
  | parkNext hpc' =>
    rw [hpc'] at hpc
    refine ⟨h.npipes,h.opened,fun o' ho' => ?_⟩
    cases ho'
    exact hpc
  | parked hpc' =>
    rw [hpc'] at hpc
    refine ⟨h.npipes,fun d hd => h.opened d ?_,fun o' ho' => ?_⟩
    · revert hd
      dsimp only [Core.goto]
      split_ifs <;> omega
    · cases ho'
      exact ⟨fun _ => ⟨hpc,fun d hd => if_neg hd⟩,fun hpark => (by cases hpark)⟩
  | look hpc' hused =>
    rw [hpc'] at hpc
    refine ⟨h.npipes,h.opened,fun o' ho' => ?_⟩
    cases ho'
    exact ⟨rfl,h.unused hpc hused (hctl (by rw [hpc']; rfl))⟩
  | @failed r hpc =>
    refine ⟨h.npipes,h.opened,fun o' ho' => ?_⟩
    cases ho'
    exact r.knows
  | @ring r hpc => exact h.ringPending.goto r.knows

theorem Core.Sound.nudge (h : k.Sound) (hk : Nudged k k') : k'.Sound := by
  obtain rfl | ⟨hl,want,queued,rfl⟩ := hk
  · exact h
  · exact h.same rfl rfl rfl rfl rfl rfl (fun _ => Nat.le_refl _) (fun _ => Nat.le_refl _)

theorem Core.Sound.enqueue {d : ℕ} (h : k.Sound) (hd : d = 1 ∨ d ∈ k.pipes) :
    (k.enqueue d).Sound := by
  refine ⟨h.npipes,fun d' hd' => ?_,fun o ho => (h.knows o ho).mono rfl fun hs => ⟨hs,fun _ h => h⟩⟩
  rcases eq_or_ne d' d with rfl | hne
  · exact hd
  · refine h.opened d' ?_
    dsimp only [Core.enqueue] at hd'
    rwa [update_of_ne hne] at hd'

theorem Core.Sound.doorbell (d : ℕ) (h : k.Sound) : (rtDoorbell e d k).Sound := by
  unfold rtDoorbell
  split_ifs with hdefer
  · exact ⟨h.npipes,h.opened,fun o ho => (h.knows o ho).mono rfl fun hs => ⟨hs,fun _ h => h⟩⟩
  · exact h.ringBells {d} hdefer

/-- No transfer of the control pipe is under way when a suspend makes its last check. -/
def ControlDone (s : State n) : Event n → Prop
  | .owner i _ => ∀ o ∈ (s.core i).owner, o.pc.looks = true → (s.core i).rung 1 = 0
  | _ => True

instance (s : State n) : ∀ ev, Decidable (ControlDone s ev)
  | .owner i _ => inferInstanceAs (Decidable (∀ o ∈ (s.core i).owner, _))
  | .pop _ | .task _ | .wakeForOpen _ | .pipeOpened _ _ _ | .pipeClosed _ _ _ | .doorbell _ _
  | .complete _ _ | .abort _ _ _ _ | .portchange _ | .bus _ | .callout | .store _ | .reconcile
  | .tick | .bind _ _ | .bound _ | .unbind _ | .unbound _ | .deactivate | .detach | .pause
  | .halt | .drain | .block | .fail | .sleep | .resume | .restart _ _ | .resumed _ | .pm =>
    isTrue trivial

theorem Turned.sound (hk : (s.core i).Sound) (hctl : ControlDone s ev)
    (h : Turned s i ev r b p) : r.1.Sound := by
  have hle (m l : ℕ) (f : ℕ → ℕ) (d' : ℕ) : update f m (f m - l) d' ≤ f d' := by
    rcases eq_or_ne d' m with rfl | hne
    · rw [update_self]
      omega
    · rw [update_of_ne hne]
  have hrefl (f : ℕ → ℕ) (d : ℕ) : f d ≤ f d := Nat.le_refl _
  cases h with
  | owner a ho => exact hk.advanced ho (advance_advanced _ _ _ _ a) (hctl _ ho)
  | pop | wake => exact hk.same rfl rfl rfl rfl rfl rfl (hrefl _) (hrefl _)
  | task hw =>
    rcases rtTask_cases s.env (s.slots i) with ⟨-,htask⟩ | ⟨-,want,htask,-⟩ <;> rw [htask]
    · exact hk.same rfl rfl rfl rfl rfl rfl (hrefl _) (hrefl _)
    · refine ⟨hk.npipes,hk.opened,fun o ho => ?_⟩
      cases ho
      trivial
  | wakeForOpen hl hp ho hsus =>
    refine ⟨hk.npipes,hk.opened,fun o ho => ?_⟩
    cases ho
    trivial
  | @pipeOpened d own hd hnew hl _ hk' =>
    subst hk'
    refine ⟨fun hl' => ?_,fun d' hd' => ?_,
      fun o ho => (hk.knows o ho).mono rfl fun h => ⟨h,fun _ h => h⟩⟩
    · rw [Finset.card_insert_of_notMem hnew]
      exact congrArg (· + 1) (hk.npipes hl')
    · exact (hk.opened d' hd').imp_right Finset.mem_insert_of_mem
  | @pipeClosed d own hd hrung hheld hl _ hk' =>
    subst hk'
    refine ⟨fun hl' => ?_,fun d' hd' => ?_,
      fun o ho => (hk.knows o ho).mono rfl fun h => ⟨h,fun _ h => h⟩⟩
    · rw [Finset.card_erase_of_mem hd]
      exact congrArg (· - 1) (hk.npipes hl')
    · have hne : d' ≠ d := fun heq => by simp [heq,hrung,hheld] at hd'
      exact (hk.opened d' hd').imp_right (Finset.mem_erase_of_ne_of_mem hne)
  | pipeGone d own hrung hheld hl =>
    refine ⟨fun hl' => (by simp [hl] at hl'),fun d' hd' => ?_,
      fun o ho => (hk.knows o ho).mono rfl fun h => ⟨h,fun _ h => h⟩⟩
    have hne : d' ≠ d := fun heq => by simp [heq,hrung,hheld] at hd'
    exact (hk.opened d' hd').imp_right (Finset.mem_erase_of_ne_of_mem hne)
  | doorbell d hbus hl hd => exact (hk.enqueue hd).doorbell d
  | complete d hl => exact hk.same rfl rfl rfl rfl rfl rfl (hle d 1 _) (hrefl _)
  | abort d rung held => exact hk.same rfl rfl rfl rfl rfl rfl (hle d rung _) (hle d held _)
  | kick | failKick | unparkKick => exact hk.nudge (rtKick_nudged _ _ _)
  | stir resumes hbus hc => exact hk
  | bind root hl hbus =>
    exact ⟨fun _ => rfl,fun d hd => absurd rfl (hd.elim id id),nofun⟩
  | bound hl hk' =>
    subst hk'
    exact ⟨fun _ => hk.npipes (.inr hl),hk.opened,
      fun o ho => (hk.knows o ho).mono rfl fun h => ⟨h,fun _ h => h⟩⟩
  | unbind hl =>
    exact ⟨fun h => (by rcases h with h | h <;> cases h),hk.opened,
      fun o ho => (hk.knows o ho).mono rfl fun h => ⟨h,fun _ h => h⟩⟩
  | unbound hl hq hw ho =>
    refine ⟨fun h => (by rcases h with h | h <;> cases h),hk.opened,fun o ho' => ?_⟩
    have hnone : (unboundCore (s.core i)).owner = none := ho
    rw [hnone] at ho'
    cases ho'
  | ring hpm hl => exact hk.ringPending
  | restart d hpm hl => exact hk.doorbell d

theorem resumedCore_sound (e : Env) (h : k.Sound) (hown : k.link = .bound → k.owner = none) :
    (resumedCore e k).Sound := by
  unfold resumedCore
  split_ifs with hl
  · refine ⟨h.npipes,h.opened,fun o ho => ?_⟩
    rw [hown hl] at ho
    cases ho
  · exact h

theorem Moved.forall_core {P : Core → Prop} (h : Moved s ev t) (hk : ∀ i, P (s.core i))
    (hturn : ∀ {i r b p}, Turned s i ev r b p → P r.1) (hnudge : ∀ {k k'}, P k → Nudged k k' → P k')
    (hresumed : s.pm = .resuming → ∀ i, P (resumedCore s.env (s.core i))) (i : Fin n) :
    P (t.core i) := by
  cases h with
  | turn h => exact forall_place (P := fun _ k => P k) hk (hturn h) i
  | callout =>
    obtain heq | ⟨-,hn⟩ := callout_nudged s i
    · exact heq ▸ hk i
    · exact hnudge (hk i) hn
  | reconcile | failed | unparked =>
    obtain heq | ⟨-,hn⟩ := reconcile_nudged s _ i
    · exact heq ▸ hk i
    · exact hnudge (hk i) hn
  | resumed hpm => exact hresumed hpm i
  | _ => exact hk i

theorem Moved.sound (h : Moved s ev t) (hs : Regime s) (hk : ∀ i, (s.core i).Sound)
    (hctl : ControlDone s ev) : ∀ i, (t.core i).Sound :=
  h.forall_core hk (fun h => h.sound (hk _) hctl) Core.Sound.nudge fun hpm i =>
    resumedCore_sound s.env (hk i) fun hl => ((hs.slot i).settled (by rw [hpm]; rfl) hl).1

/-! ## Whole runs -/
section Run
variable {now : ℤ} {hz autosuspend : ℕ} {deferrable : Bool} {evs : List (Event n)}

theorem attach_sound (i : Fin n) : ((attach n now hz autosuspend deferrable).core i).Sound :=
  ⟨fun _ => rfl,fun _ hd => absurd rfl (hd.elim id id),nofun⟩

/-- If no control transfer is under way at the last check of a suspend, one that comes to write U3
to its port finds no transfer under way. -/
theorem u3_write_quiet (hctl : Along step ControlDone (attach n now hz autosuspend deferrable) evs)
    (hrun : exec step (attach n now hz autosuspend deferrable) evs = some t) {i : Fin n} {o : Owner}
    {gen : ℕ} (ho : (t.core i).owner = some o) (hpc : o.pc = .write gen)
    (d : ℕ) : (t.core i).rung d = 0 := by
  have hinv : Regime t ∧ ∀ i, (t.core i).Sound := by
    refine exec_invariant_along (fun s => Regime s ∧ ∀ i, (s.core i).Sound) ?_
      ⟨attach_regime now hz autosuspend deferrable,fun _ => attach_sound _⟩ hctl hrun
    intro s ev u hs hc hstep
    have hmoved := step_moved hstep
    exact ⟨hmoved.regime hs.1,hmoved.sound hs.1 hs.2 hc⟩
  have hknows := (hinv.2 i).knows o ho
  rw [hpc] at hknows
  exact hknows.2 d

/-- A device with only the control pipe is bound, starts a control transfer and is idle for the
period; then its task runs to the write of U3. -/
def idleSuspend (evs : List (Event 1)) : List (Event 1) :=
  [.bind 0 true,.bound 0] ++ evs ++ List.replicate 100 .tick ++
    [.callout,.pop 0,.task 0,.owner 0 .ok,.owner 0 .ok,.owner 0 .ok,.owner 0 .ok,.owner 0 .ok]

theorem idleSuspend_quiet :
    ∃ t : State 1, exec step (attach 1 0 100 1 true) (idleSuspend [.doorbell 0 1,.complete 0 1]) = some t ∧
      (t.core 0).owner = some ⟨.task,.write 1⟩ ∧ ∀ d, (t.core 0).rung d = 0 := by
  obtain ⟨t,hrun,ht⟩ : ∃ t, exec step (attach 1 0 100 1 true) (idleSuspend [.doorbell 0 1,.complete
      0 1]) = some t ∧ (t.core 0).owner = some ⟨.task,.write 1⟩ := by decide +kernel
  have hown := ht
  exact ⟨t,hrun,hown,u3_write_quiet (by decide +kernel) hrun hown rfl⟩

/-- A control transfer under way when the device counts as idle is no obstacle: the port is written
all the same. -/
theorem idleSuspend_underway :
    ∃ t : State 1, exec step (attach 1 0 100 1 true) (idleSuspend [.doorbell 0 1]) = some t ∧
      (t.core 0).owner = some ⟨.task,.write 1⟩ ∧ (t.core 0).rung 1 = 1 := by
  decide +kernel

end Run
end NanoBSD.Xhci
