import NanoBSD.Xhci.Suspend

/-! # No deferred doorbell is stranded

A doorbell is deferred while its slot is suspended or resuming, or while a system suspend
is in force. In the first case a transition is owned, or a request or a retry will make
the slot one; in the second the exits of the system suspend and resume have to see to it.
The exit of a resume rings what the slots that are awake have pending. The exit of a
suspend that fails only requests wakes, and the task drops a wake of a slot that is awake.
-/
namespace NanoBSD.Xhci
open List
variable {n : ℕ} {s t : State n} {ev : Event n} {i j : Fin n} {r : Core × Cell} {b b' : Bus n}
  {p p' : Pm n} {k k' : Core} {d d' : Deadline} {o : Owner} {pc pc' : Pc} {e : Env} {c : Cell}
  {flags : Flags} {x : Slot}

/-! ## Sleeping slots are on a root port -/

def Pc.rooted : Pc → Bool
  | .decide .resume _ => true
  | .decide _ _ | .outcome _ _ | .release | .check _ => false
  | _ => true

def After.fine : After → Bool
  | .outcome .ok _ => false
  | _ => true

def Pc.fine : Pc → Bool
  | .wake a | .driving a | .unparking a | .woken a | .ring a => a.fine
  | _ => true

def Core.Sleeps (k : Core) : Prop :=
  k.suspended = true ∨ k.resuming = true ∨ k.parkedDrv = true ∨
    ∃ o, k.owner = some o ∧ o.pc.rooted = true

structure Core.Rooted (k : Core) : Prop where
  root : k.link = .bound → k.Sleeps → k.root = true
  fine : ∀ o, k.owner = some o → o.pc.fine = true
  fresh : k.link = .binding → k.suspended = false ∧ k.resuming = false ∧ k.parkedDrv = false ∧
    k.dbpending = ∅ ∧ k.owner = none

/-- A port change that is about to wake a slot found it on a root port. -/
def BusRooted (s : State n) : Prop :=
  ∀ i, s.bus = .asleep i ∨ s.bus = .wake i →
    (s.core i).link ≠ .binding ∧ ((s.core i).link = .bound → (s.core i).root = true)

theorem After.pc_ne {a : After} (h : a.fine = true) (gen : ℕ) : a.pc ≠ .outcome .ok gen := by
  rintro heq
  cases a with
  | done => cases heq
  | outcome r gen' =>
    cases heq
    cases h

theorem After.fine_pc (a : After) : a.pc.fine = true := by cases a <;> rfl
theorem After.rooted_pc (a : After) : a.pc.rooted = false := by cases a <;> rfl

theorem Goes.rooted (h : Goes e k pc pc') (hroot : pc'.rooted = true) :
    pc.rooted = true ∨ k.resuming = true ∨ k.root = true := by
  cases h with
  | decideWake h =>
    rcases h with rfl | hr
    · exact .inl rfl
    · exact .inr (.inl hr)
  | checkFirst h => exact .inr (.inr h)
  | @wakeBack r h => simp [r.rooted_pc] at hroot
  | _ => first | exact .inl rfl | cases hroot

theorem Goes.fine (h : Goes e k pc pc') (hfine : pc.fine = true) : pc'.fine = true := by
  cases h with
  | @wakeBack r h => exact r.fine_pc
  | unpark hp | woken hp => exact hfine
  | _ => rfl

theorem sleeps_of_owner (ho : k.owner = some o) (hpc : o.pc.rooted = true) : k.Sleeps :=
  .inr (.inr (.inr ⟨o,ho,hpc⟩))

theorem Core.Sleeps.back (h : k'.Sleeps) (hs : k'.suspended = k.suspended)
    (hr : k'.resuming = k.resuming) (hp : k'.parkedDrv = k.parkedDrv) :
    k.Sleeps ∨ ∃ o, k'.owner = some o ∧ o.pc.rooted = true := by
  rcases h with h | h | h | ho
  · exact .inl (.inl (hs ▸ h))
  · exact .inl (.inr (.inl (hr ▸ h)))
  · exact .inl (.inr (.inr (.inl (hp ▸ h))))
  · exact .inr ho

theorem Core.Rooted.goto (h : k.Rooted) (ho : k.owner = some o) (hfine : pc.fine = true)
    (hl : k'.link = k.link) (hroot : k'.root = k.root)
    (hsleeps : (k'.goto o pc).Sleeps → k.Sleeps ∨ k.root = true) : (k'.goto o pc).Rooted := by
  refine ⟨fun hb hs => ?_,fun o1 ho1 => ?_,fun hb => ?_⟩
  · exact hroot.trans ((hsleeps hs).elim (h.root (hl.symm.trans hb)) id)
  · cases ho1
    exact hfine
  · have hnone := (h.fresh (hl.symm.trans hb)).2.2.2.2
    rw [hnone] at ho
    cases ho

theorem Core.Rooted.same (h : k.Rooted) (hl : k'.link = k.link) (hroot : k'.root = k.root)
    (ho : k'.owner = k.owner) (hs : k'.suspended = k.suspended) (hr : k'.resuming = k.resuming)
    (hp : k'.parkedDrv = k.parkedDrv) (hdb : k.link = .binding → k'.dbpending = k.dbpending) :
    k'.Rooted := by
  refine ⟨?_,by rw [ho]; exact h.fine,fun hb => ?_⟩
  · unfold Core.Sleeps
    rw [hl,hroot,ho,hs,hr,hp]
    exact h.root
  · rw [hs,hr,hp,ho,hdb (hl ▸ hb)]
    exact h.fresh (hl ▸ hb)

theorem Core.Rooted.advanced (h : k.Rooted) (ho : k.owner = some o) (hadv : Advanced e k c o r) :
    r.1.Rooted := by
  have hfine := h.fine o ho
  have hpcRoot (hpc : o.pc.rooted = true) : k.Sleeps := sleeps_of_owner ho hpc
  cases hadv with
  | goes hgo =>
    refine h.goto ho (hgo.fine hfine) rfl rfl fun hs => ?_
    obtain hold | ⟨o1,ho1,hpc⟩ := hs.back (k := k) rfl rfl rfl
    · exact .inl hold
    · cases ho1
      rcases hgo.rooted hpc with hold | hr | hroot
      · exact .inl (hpcRoot hold)
      · exact .inl (.inr (.inl hr))
      · exact .inr hroot
  | outcome hpc | outcomeOff hpc | firstOwed hpc =>
    refine h.goto ho rfl rfl rfl fun hs => (hs.back (k := k) rfl rfl rfl).imp_right ?_
    rintro ⟨o1,ho1,hpc⟩
    cases ho1
    cases hpc
  | release hpc =>
    refine ⟨fun hb hs => h.root hb ?_,nofun,fun hb => ?_⟩
    · exact (hs.back (k := k) rfl rfl rfl).resolve_right fun ⟨o1,ho1,_⟩ => (by cases ho1)
    · obtain ⟨hs,hr,hp,hdb,hnone⟩ := h.fresh hb
      exact ⟨hs,hr,hp,hdb,rfl⟩
  | park hpc | parkNext hpc | parked hpc | look hpc | asleep hpc | asleepWoken hpc =>
    exact h.goto ho rfl rfl rfl fun _ => .inl (hpcRoot (by rw [hpc]; rfl))
  | @failed r hpc =>
    refine h.goto ho r.fine_pc rfl rfl fun _ => .inl (hpcRoot ?_)
    rcases hpc with hpc | hpc <;> rw [hpc] <;> rfl
  | wake hpc | unparked hpc | woken hpc =>
    rw [hpc] at hfine
    exact h.goto ho hfine rfl rfl fun _ => .inl (hpcRoot (by rw [hpc]; rfl))
  | @ring r hpc =>
    rw [rtRingPending_eq]
    exact h.goto ho r.fine_pc rfl rfl fun _ => .inl (hpcRoot (by rw [hpc]; rfl))

theorem Core.Rooted.nudge (h : k.Rooted) (hk : Nudged k k') : k'.Rooted := by
  obtain rfl | ⟨hl,want,queued,rfl⟩ := hk
  · exact h
  · exact h.same rfl rfl rfl rfl rfl rfl fun _ => rfl

theorem Core.Rooted.doorbell (h : k.Rooted) (d : ℕ) (hl : k.link ≠ .binding) :
    (rtDoorbell e d k).Rooted := by
  unfold rtDoorbell
  split_ifs with hdefer
  · refine ⟨fun hb hs => h.root hb ?_,h.fine,fun hb => absurd hb hl⟩
    rcases hs with hs | hr | hp | ho
    · exact .inl hs
    · simp only [Bool.or_eq_true,rtDoorbellResumes,Bool.and_eq_true] at hr
      rcases hr with hr | hr
      · exact .inr (.inl hr)
      · exact .inl hr.1.2
    · exact .inr (.inr (.inl hp))
    · exact .inr (.inr (.inr ho))
  · exact h.same rfl rfl rfl rfl rfl rfl fun _ => rfl

theorem Turned.rooted (hbus : BusRooted s) (hi : (s.core i).Rooted) (h : Turned s i ev r b p) :
    r.1.Rooted := by
  cases h with
  | owner a ho => exact hi.advanced ho (advance_advanced _ _ _ _ a)
  | task hw =>
    rcases rtTask_cases s.env (s.slots i) with ⟨-,htask⟩ | ⟨⟨hl,-⟩,want,htask,hwant⟩ <;> rw [htask]
    · exact hi.same rfl rfl rfl rfl rfl rfl fun _ => rfl
    · refine ⟨fun hb hs => hi.root hb ?_,fun o1 ho1 => ?_,fun hb => ?_⟩
      · obtain hold | ⟨o1,ho1,hpc⟩ := hs.back (k := (s.slots i).toCore) rfl rfl rfl
        · exact hold
        · cases ho1
          rcases hwant with ⟨-,hwhy⟩ | ⟨rfl,-⟩
          · obtain rfl : want = .resume := by
              cases want <;> first | rfl | cases hpc
            rcases hwhy rfl with h1 | h1 | h1
            · exact .inl h1
            · exact .inr (.inl h1)
            · exact .inr (.inr (.inl h1))
          · cases hpc
      · cases ho1
        rfl
      · cases hl.symm.trans hb
  | wakeForOpen hl hp ho hsus =>
    refine ⟨fun hb _ => hi.root hl (.inl hsus),fun o1 ho1 => ?_,fun hb => ?_⟩
    · cases ho1
      rfl
    · cases hl.symm.trans hb
  | pipeOpened d own hd hnew hl hk | pipeClosed d own hd hrung hheld hl hk =>
    subst hk
    exact hi.same rfl rfl rfl rfl rfl rfl fun _ => rfl
  | pop | pipeGone | complete | abort | stir => exact hi.same rfl rfl rfl rfl rfl rfl fun _ => rfl
  | doorbell d hfree hl hd =>
    refine Core.Rooted.doorbell (k := (s.core i).enqueue d) ?_ d ?_
    · exact hi.same rfl rfl rfl rfl rfl rfl fun _ => rfl
    · rcases hl with hl | hl <;> exact fun hb => by cases hl.symm.trans hb
  | kick | failKick | unparkKick => exact hi.nudge (rtKick_nudged _ _ _)
  | wake resumes hw =>
    obtain ⟨hbind,hroot⟩ := hbus i (.inr hw)
    exact ⟨fun hb _ => hroot hb,hi.fine,fun hb => absurd hb hbind⟩
  | bind root hl hleaves =>
    exact ⟨nofun,nofun,fun _ => ⟨rfl,rfl,rfl,rfl,rfl⟩⟩
  | bound hl hk =>
    subst hk
    obtain ⟨hs,hr,hp,hdb,ho⟩ := hi.fresh hl
    refine ⟨fun _ hsl => ?_,hi.fine,nofun⟩
    rcases hsl with h1 | h1 | h1 | ⟨o1,h1,-⟩
    · cases hs.symm.trans h1
    · cases hr.symm.trans h1
    · cases hp.symm.trans h1
    · cases ho.symm.trans h1
  | unbind | unbound => exact ⟨nofun,hi.fine,nofun⟩
  | ring hpm hl =>
    rw [rtRingPending_eq]
    exact hi.same rfl rfl rfl rfl rfl rfl fun hb => by cases hl.symm.trans hb
  | restart d hpm hl =>
    exact hi.doorbell d (by rcases hl with hl | hl <;> exact fun hb => by cases hl.symm.trans hb)

theorem resumedCore_rooted (e : Env) (h : k.Rooted) : (resumedCore e k).Rooted := by
  unfold resumedCore
  split_ifs with hl
  · refine ⟨fun hb hs => h.root hb ?_,h.fine,fun hb => (by cases hl.symm.trans hb)⟩
    rcases hs with hs | hr | hp | ho
    · exact .inr (.inr (.inl hs))
    · cases hr
    · exact .inr (.inr (.inl hp))
    · exact .inr (.inr (.inr ho))
  · exact h

theorem Moved.rooted (h : Moved s ev t) (hbus : BusRooted s) (hk : ∀ i, (s.core i).Rooted) :
    ∀ i, (t.core i).Rooted :=
  h.forall_core hk (fun h => h.rooted hbus (hk _)) Core.Rooted.nudge fun _ i =>
    resumedCore_rooted s.env (hk i)

theorem Turned.link (h : Turned s i ev r b p) :
    r.1.link = (s.core i).link ∧ r.1.root = (s.core i).root ∨
    r.1.link = .binding ∧ s.bus.leaves i ∨ (s.core i).link = .binding ∨
    r.1.link = .unbinding ∨ r.1.link = .unbound := by
  cases h with
  | @owner o a ho =>
    have hframe := (advance_advanced s.env (s.core i) (s.cell i) o a).frame
    exact .inl ⟨hframe.1,hframe.2.1⟩
  | task hw =>
    rcases rtTask_cases s.env (s.slots i) with ⟨-,htask⟩ | ⟨-,want,htask,-⟩ <;> rw [htask] <;>
      exact .inl ⟨rfl,rfl⟩
  | pipeOpened d own hd hnew hl hk | pipeClosed d own hd hrung hheld hl hk =>
    subst hk
    exact .inl ⟨rfl,rfl⟩
  | doorbell | restart =>
    rw [rtDoorbell_eq]
    exact .inl ⟨rfl,rfl⟩
  | kick | failKick | unparkKick =>
    obtain heq | ⟨-,want,queued,heq⟩ := rtKick_nudged s.env .resume (s.core i) <;> rw [heq] <;>
      exact .inl ⟨rfl,rfl⟩
  | bind root hl hleaves => exact .inr (.inl ⟨rfl,hleaves⟩)
  | bound hl hk => exact .inr (.inr (.inl hl))
  | unbind => exact .inr (.inr (.inr (.inl rfl)))
  | unbound => exact .inr (.inr (.inr (.inr rfl)))
  | ring hpm hl =>
    rw [rtRingPending_eq]
    exact .inl ⟨rfl,rfl⟩
  | _ => exact .inl ⟨rfl,rfl⟩

theorem Turned.bus_eq (h : Turned s i ev r b p) (hb : b = .asleep j ∨ b = .wake j) : s.bus = b := by
  cases h with
  | doorbell => split_ifs at hb <;> simp at hb
  | kick | stir | wake => simp at hb
  | _ => rfl

theorem Turned.busRooted (h : Turned s i ev r b p) (hs : BusRooted s) :
    BusRooted { s.place i r with bus := b, pm := p } := by
  intro j hb
  have hold : s.bus = .asleep j ∨ s.bus = .wake j := by
    rw [h.bus_eq hb]
    exact hb
  change ((s.place i r).core j).link ≠ .binding ∧
    (((s.place i r).core j).link = .bound → ((s.place i r).core j).root = true)
  rw [place_core]
  split_ifs with hj
  · subst hj
    obtain ⟨hbind,hroot⟩ := hs j hold
    rcases h.link with ⟨hl,hr⟩ | ⟨-,hleaves⟩ | hl | hl | hl
    · rw [hl,hr]
      exact ⟨hbind,hroot⟩
    · rcases hold with h1 | h1 <;> simp [h1,Bus.leaves] at hleaves
    · exact absurd hl hbind
    · exact ⟨by simp [hl],by simp [hl]⟩
    · exact ⟨by simp [hl],by simp [hl]⟩
  · exact hs j hold

theorem Looked.busRooted (h : Looked s b p) (hs : BusRooted s) :
    BusRooted { s with bus := b, pm := p } := by
  intro j hb
  cases h with
  | portchange | lookAway | lookAwake | asleepAway => simp at hb
  | lookAsleep i hbus hl hr =>
    obtain rfl : i = j := by simpa using hb
    exact ⟨fun h => (by cases hl.symm.trans h),fun _ => hr⟩
  | asleepWake i hbus =>
    obtain rfl : i = j := by simpa using hb
    exact hs i (.inl hbus)
  | _ => exact hs j hb

theorem BusRooted.nudge (hs : BusRooted s) (hbus : t.bus = s.bus)
    (h : ∀ i, t.core i = s.core i ∨ Nudged (s.core i) (t.core i)) : BusRooted t := by
  intro j hb
  rw [hbus] at hb
  rcases h j with heq | heq | ⟨-,want,queued,heq⟩ <;> rw [heq] <;> exact hs j hb

theorem Moved.busRooted (h : Moved s ev t) (hs : BusRooted s) : BusRooted t := by
  cases h with
  | turn h | look h => exact h.busRooted hs
  | callout => exact hs.nudge (callout_bus s) fun i => (callout_nudged s i).imp_right And.right
  | reconcile | failed | unparked =>
    exact hs.nudge (reconcile_bus s _) fun i => (reconcile_nudged s _ i).imp_right And.right
  | resumed hpm =>
    intro j hb
    change (resumedCore s.env (s.core j)).link ≠ _ ∧
      ((resumedCore s.env (s.core j)).link = _ → (resumedCore s.env (s.core j)).root = _)
    rw [resumedCore_eq]
    exact hs j hb
  | _ => exact hs

/-! ## Who attends to a slot -/

def Pc.wakes : Pc → Bool
  | .decide .resume _ | .wake _ | .driving _ | .unparking _ | .woken _ => true
  | .parking _ _ | .parkWait _ _ | .write _ | .wait _ => true
  | .look _ park _ => park
  | _ => false

def Pc.rings : Pc → Bool
  | .ring _ => true
  | _ => false

def Core.Asked (k : Core) : Prop :=
  k.want = .resume ∧ (k.queued = true ∨ k.worker = .popped ∨ k.owner.isSome = true)

/-- The exit of a system suspend or resume has yet to kick the slot. -/
def Pm.WillKick (i : Fin n) (k : Core) : Pm n → Prop
  | .failing todo => i ∈ todo
  | .failKick j todo => j = i ∨ i ∈ todo
  | .unparking todo => i ∈ todo ∧ k.parkedDrv = true
  | .unparkKick j todo => j = i ∨ i ∈ todo ∧ k.parkedDrv = true
  | _ => False

def Attended (b : Bus n) (p : Pm n) (i : Fin n) (k : Core) : Prop :=
  k.Asked ∨ b = .kick i ∨ p.WillKick i k ∨ ∃ o, k.owner = some o ∧ o.pc.wakes = true

def Deadline.Owes (d : Deadline) : Prop := d.retryArmed = true ∧ d.retryWant = .resume

/-- A slot of a controller at work: what sleeps with doorbells pending is attended to. -/
structure Live (b : Bus n) (p : Pm n) (i : Fin n) (k : Core) (d : Deadline) : Prop where
  resuming : k.resuming = true → Attended b p i k
  asleep : k.suspended = true → k.resuming = false → k.dbpending ≠ ∅ →
    Attended b p i k ∨ d.Owes ∧ ∀ o gen, k.owner = some o → o.pc ≠ .outcome .ok gen
  deferred : k.dbpending ≠ ∅ → k.suspended = true ∨ k.resuming = true ∨
    ∃ o, k.owner = some o ∧ o.pc.rings = true

theorem rtIdleArm_owes (h : c.dl.Owes) : (rtIdleArm e k c).dl.Owes := by
  unfold rtIdleArm
  split_ifs with hlive
  · rw [rtIdleArmAwake,if_pos (by simp [h.1])]
    exact h
  · exact h

theorem rtEvent_owes {own : Bool} (h : c.dl.Owes) : (rtEvent e k own c).dl.Owes :=
  rtIdleArm_owes h

theorem rtReleaseDl_owes (h : c.dl.Owes) : (rtReleaseDl e k c).dl.Owes := by
  unfold rtReleaseDl
  split_ifs with hnone
  · exact rtIdleArm_owes h
  · rw [rtSlotRearm_dl]
    exact h

theorem rtSuspendOutcome_owes {r : Susp} {gen : ℕ} (h : c.dl.Owes) (hs : k.suspended = true)
    (hr : r ≠ .ok) : (rtSuspendOutcome e k r gen c).dl.Owes := by
  unfold rtSuspendOutcome
  by_cases hl : k.link = .bound
  · rw [if_pos hl]
    cases r with
    | ok => exact absurd rfl hr
    | busy => exact rtIdleArm_owes h
    | dormant =>
      dsimp only
      split_ifs with hgen hawake
      · exact rtIdleArm_owes h
      · simp [hs] at hawake
      · exact h
    | failed =>
      dsimp only
      rw [if_neg (by simp [hs]),rtSuspendFailed,if_pos (by simp [hs])]
      exact h
    | none => exact h
  · rw [if_neg hl]
    exact h

theorem rtResumeFailed_owes (hl : k.link = .bound) : (rtResumeFailed e k c).dl.Owes := by
  unfold rtResumeFailed rtRetry
  rw [if_pos hl]
  exact ⟨rfl,rfl⟩

theorem reconcileDl_owes (hl : k.link = .bound) (hs : k.suspended = true)
    (h : c.dl.Owes) : (reconcileDl e flags k c).dl.Owes := by
  have hreset (c : Cell) (h : c.dl.Owes) : (resetDl k c).dl.Owes := by
    unfold resetDl
    dsimp only
    rw [if_neg (by simp [hs,h.2])]
    exact h
  unfold reconcileDl
  rw [if_pos hl]
  dsimp only
  split_ifs <;> first | rw [rtSlotRearm_dl] | apply rtIdleArm_owes
  all_goals first | exact hreset _ h | exact h

theorem Pm.WillKick.same (h : p.WillKick i k) (hp : k'.parkedDrv = k.parkedDrv) :
    p.WillKick i k' := by
  cases p with
  | unparking todo => exact ⟨h.1,hp.trans h.2⟩
  | unparkKick j todo => exact h.imp_right fun hi => ⟨hi.1,hp.trans hi.2⟩
  | _ => exact h

theorem attended_of_wakes (ho : k.owner = some o) (hpc : o.pc.wakes = true) : Attended b p i k :=
  .inr (.inr (.inr ⟨o,ho,hpc⟩))

theorem Live.of_attended (h : Attended b p i k)
    (hdef : k.dbpending ≠ ∅ → k.suspended = true ∨ k.resuming = true ∨
      ∃ o, k.owner = some o ∧ o.pc.rings = true) : Live b p i k d :=
  ⟨fun _ => h,fun _ _ _ => .inl h,hdef⟩

theorem Goes.wakes (h : Goes e k pc pc') (hroot : pc.rooted = true → k.root = true)
    (hdying : e.dying = false) (hw : pc.wakes = true) : pc'.wakes = true := by
  cases h with
  | @wakeBack r hback =>
    rcases hback with hb | hb
    · simp [hroot rfl] at hb
    · simp [hdying] at hb
  | firstProbe | probeLook | lookBusy => cases hw
  | _ => first | rfl | cases hw

theorem Goes.rings (h : Goes e k pc pc') : pc.rings = false := by cases h <;> rfl

theorem Goes.ne_outcome (h : Goes e k pc pc') (hroot : pc.rooted = true → k.root = true)
    (hdying : e.dying = false) (gen : ℕ) : pc' ≠ .outcome .ok gen := by
  cases h with
  | @wakeBack r hback =>
    rcases hback with hb | hb
    · simp [hroot rfl] at hb
    · simp [hdying] at hb
  | _ => simp

theorem Attended.imp (h : Attended b p i k) (hp : k'.parkedDrv = k.parkedDrv)
    (hask : k.Asked → Attended b p i k')
    (hown : ∀ o, k.owner = some o → o.pc.wakes = true → Attended b p i k') : Attended b p i k' := by
  rcases h with h | hb | hpm | ⟨o,ho,hw⟩
  · exact hask h
  · exact .inr (.inl hb)
  · exact .inr (.inr (.inl (hpm.same hp)))
  · exact hown o ho hw

theorem Attended.goto (h : Attended b p i k) (ho : k.owner = some o)
    (hw : o.pc.wakes = true → pc.wakes = true) : Attended b p i (k.goto o pc) := by
  refine h.imp rfl (fun hask => .inl ⟨hask.1,.inr (.inr rfl)⟩) fun o1 ho1 hpc => ?_
  cases ho.symm.trans ho1
  exact attended_of_wakes rfl (hw hpc)

theorem Live.attend (h : Live b p i k d) (hatt : Attended b p i k → Attended b' p' i k')
    (hs : k'.suspended = k.suspended) (hr : k'.resuming = k.resuming)
    (hdb : k'.dbpending = k.dbpending) (ho : k'.owner = k.owner) (howes : d.Owes → d'.Owes) :
    Live b' p' i k' d' := by
  refine ⟨fun h1 => hatt (h.resuming (hr ▸ h1)),fun h1 h2 h3 => ?_,fun h1 => ?_⟩
  · rw [ho]
    exact (h.asleep (hs ▸ h1) (hr ▸ h2) (hdb ▸ h3)).imp hatt (And.imp_left howes)
  · rw [hs,hr,ho]
    exact h.deferred (hdb ▸ h1)

theorem Live.goto (h : Live b p i k d) (ho : k.owner = some o)
    (hw : o.pc.wakes = true → pc.wakes = true) (hrings : o.pc.rings = false)
    (howes : k.suspended = true → d.Owes → (∀ gen, o.pc ≠ .outcome .ok gen) →
      d'.Owes ∧ ∀ gen, pc ≠ .outcome .ok gen) : Live b p i (k.goto o pc) d' := by
  refine ⟨fun hr => (h.resuming hr).goto ho hw,fun hs hr hdb => ?_,fun hdb => ?_⟩
  · rcases h.asleep hs hr hdb with hatt | ⟨how,hne⟩
    · exact .inl (hatt.goto ho hw)
    · obtain ⟨how',hne'⟩ := howes hs how fun gen => hne o gen ho
      refine .inr ⟨how',fun o1 gen ho1 => ?_⟩
      cases ho1
      exact hne' gen
  · rcases h.deferred hdb with hs | hr | ⟨o1,ho1,hpc⟩
    · exact .inl hs
    · exact .inr (.inl hr)
    · cases ho.symm.trans ho1
      simp [hrings] at hpc

theorem Live.advanced (h : Live b p i k c.dl) (hk : k.Rooted) (hl : k.link = .bound)
    (hdying : e.dying = false) (hpaused : e.paused = false) (hblocked : e.blocked = false)
    (ho : k.owner = some o) (hadv : Advanced e k c o r) : Live b p i r.1 r.2.dl := by
  have hroot (hpc : o.pc.rooted = true) : k.root = true := hk.root hl (sleeps_of_owner ho hpc)
  have hfine := hk.fine o ho
  -- a doorbell is pending only with a slot asleep, unless the owner is about to ring it
  have hdef (hpc : o.pc.rings = false) (hdb : k.dbpending ≠ ∅) :
      k.suspended = true ∨ k.resuming = true := by
    rcases h.deferred hdb with hs | hr | ⟨o1,ho1,hr⟩
    · exact .inl hs
    · exact .inr hr
    · cases ho.symm.trans ho1
      simp [hpc] at hr
  cases hadv with
  | goes hgo =>
    exact h.goto ho (hgo.wakes hroot hdying) hgo.rings
      fun _ how _ => ⟨how,hgo.ne_outcome hroot hdying⟩
  | outcome hpc =>
    refine h.goto ho (by simp [hpc,Pc.wakes]) (by rw [hpc]; rfl) fun hs how hne => ?_
    exact ⟨rtSuspendOutcome_owes how hs fun hr => hne _ (hr ▸ hpc),by simp⟩
  | outcomeOff hpc | firstOwed hpc =>
    exact .of_attended (.inl ⟨rfl,.inr (.inr rfl)⟩) fun hdb =>
      (hdef (by rw [hpc]; rfl) hdb).imp_right .inl
  | release hpc =>
    have hatt (hatt : Attended b p i k) : Attended b p i (rtRelease e o k) := by
      refine hatt.imp rfl (fun hask => .inl ⟨hask.1,.inl ?_⟩) fun o1 ho1 hw => ?_
      · simp [rtRelease,hask.1,hl,hpaused,hdying]
      · cases ho.symm.trans ho1
        simp [hpc,Pc.wakes] at hw
    refine ⟨fun hr => hatt (h.resuming hr),fun hs hr hdb => ?_,fun hdb =>
      (hdef (by rw [hpc]; rfl) hdb).imp_right .inl⟩
    rcases h.asleep hs hr hdb with h1 | ⟨how,-⟩
    · exact .inl (hatt h1)
    · exact .inr ⟨rtReleaseDl_owes how,nofun⟩
  | park | look => exact .of_attended (attended_of_wakes rfl rfl) fun _ => .inl rfl
  | parkNext hpc | parked hpc | unparked hpc =>
    exact .of_attended (attended_of_wakes rfl rfl) fun hdb =>
      (hdef (by rw [hpc]; rfl) hdb).imp_right .inl
  | asleep hpc hdb =>
    exact ⟨nofun,fun _ _ hne => absurd hdb hne,fun hne => absurd hdb hne⟩
  | asleepWoken hpc => exact .of_attended (.inl ⟨rfl,.inr (.inr rfl)⟩) fun _ => .inr (.inl rfl)
  | wake hpc => exact .of_attended (attended_of_wakes rfl rfl) fun _ => .inr (.inl rfl)
  | @failed a hpc =>
    have hafter : a.fine = true := by rcases hpc with hpc | hpc <;> rw [hpc] at hfine <;> exact hfine
    refine ⟨nofun,fun _ _ _ => .inr ⟨rtResumeFailed_owes hl,?_⟩,fun _ => .inl rfl⟩
    intro o1 gen ho1
    cases ho1
    exact After.pc_ne hafter gen
  | woken =>
    exact ⟨nofun,nofun,fun _ => .inr (.inr ⟨_,rfl,rfl⟩)⟩
  | @ring a hpc =>
    rw [hpc] at hfine
    unfold rtRingPending
    split_ifs with hdefer
    · -- the slot was told to wake again meanwhile
      have hsr : k.suspended = true ∨ k.resuming = true := by
        simpa [hblocked] using hdefer
      refine ⟨fun hr => (h.resuming hr).goto ho (by simp [hpc,Pc.wakes]),fun hs hr hdb => ?_,
        fun _ => hsr.imp_right .inl⟩
      rcases h.asleep hs hr hdb with hatt | ⟨how,-⟩
      · exact .inl (hatt.goto ho (by simp [hpc,Pc.wakes]))
      · refine .inr ⟨how,fun o1 gen ho1 => ?_⟩
        cases ho1
        exact After.pc_ne hfine gen
    · have hsr : k.suspended = false ∧ k.resuming = false := by
        simpa [hblocked] using hdefer
      exact ⟨fun hr => (by cases hsr.2.symm.trans hr),
        fun hs => (by cases hsr.1.symm.trans hs),fun hne => absurd rfl hne⟩

theorem Live.same (h : Live b p i k d) (hs : k'.suspended = k.suspended)
    (hr : k'.resuming = k.resuming) (hp : k'.parkedDrv = k.parkedDrv)
    (hdb : k'.dbpending = k.dbpending) (hw : k'.want = k.want) (hq : k'.queued = k.queued)
    (hwk : k'.worker = k.worker) (ho : k'.owner = k.owner) (howes : d.Owes → d'.Owes) :
    Live b p i k' d' := by
  refine h.attend (fun hatt => hatt.imp hp (fun hask => .inl ?_) fun o hown hpc => ?_) hs hr hdb ho
    howes
  · unfold Core.Asked
    rw [hw,hq,hwk,ho]
    exact hask
  · exact attended_of_wakes (ho.trans hown) hpc

theorem rtKick_asked (hl : k.link = .bound) (hdying : e.dying = false)
    (hpaused : e.paused = false) :
    (rtKick e .resume k).Asked := by
  unfold rtKick
  rw [if_pos ⟨by simp [hpaused],by simp [hdying],hl⟩]
  refine ⟨?_,.inl rfl⟩
  cases k.want <;> rfl

theorem Live.kick (h : Live b p i k d) (hl : k.link = .bound) (hdying : e.dying = false)
    (hpaused : e.paused = false) : Live b' p' i (rtKick e .resume k) d := by
  refine .of_attended (.inl (rtKick_asked hl hdying hpaused)) ?_
  obtain heq | ⟨-,want,queued,heq⟩ := rtKick_nudged e .resume k <;> rw [heq] <;> exact h.deferred

theorem Live.doorbell {dci : ℕ} (h : Live .free p i k d) (hblocked : e.blocked = false)
    (hpaused : e.paused = false) :
    Live (if rtDoorbellResumes e k then .kick i else .free) p i (rtDoorbell e dci k) d := by
  have hres : rtDoorbellResumes e k = (k.suspended && !k.resuming) := by
    simp [rtDoorbellResumes,hblocked,hpaused]
  unfold rtDoorbell
  rw [hres]
  cases hr : k.resuming with
  | true =>
    simp only [hblocked,Bool.false_or,Bool.or_true,if_true,Bool.not_true,Bool.and_false,
      Bool.false_eq_true,if_false]
    refine .of_attended ?_ fun _ => .inr (.inl rfl)
    exact (h.resuming hr).imp rfl .inl fun _ ho => attended_of_wakes ho
  | false =>
    cases hs : k.suspended with
    | true =>
      simp only [hblocked,Bool.false_or,Bool.or_false,if_true,Bool.not_false,Bool.and_true]
      exact .of_attended (.inr (.inl rfl)) fun _ => .inr (.inl rfl)
    | false =>
      simp only [hblocked,Bool.or_false,Bool.false_eq_true,if_false,Bool.not_false,Bool.and_true]
      exact { h with }

theorem Live.task (h : Live b p i x.toCore x.toDeadline) (hl : x.link = .bound)
    (hdying : e.dying = false) (hpaused : e.paused = false) :
    Live b p i (rtTask e x) x.toDeadline := by
  rcases rtTask_cases e x with ⟨hskip,htask⟩ | ⟨⟨-,-,-,hnone⟩,want,htask,hwant⟩ <;> rw [htask]
  · have hown : x.owner.isSome = true := by simpa [hl,hdying,hpaused] using hskip
    refine h.attend (fun hatt => hatt.imp rfl ?_ fun _ ho => attended_of_wakes ho) rfl rfl rfl rfl id
    exact fun hask => .inl ⟨hask.1,.inr (.inr hown)⟩
  · -- the wake is not dropped for a slot that sleeps
    have hatt (hsr : x.suspended = true ∨ x.resuming = true) (h : Attended b p i x.toCore) :
        Attended b p i { x.toCore with
          worker := .busy
          want := .nothing
          owner := some ⟨.task,.decide want x.gen⟩ } := by
      refine h.imp rfl (fun hask => ?_) fun o1 ho1 _ => (by simp [hnone] at ho1)
      rcases hwant with ⟨rfl,-⟩ | ⟨-,hs,hr,-⟩
      · exact attended_of_wakes rfl (by rw [hask.1]; rfl)
      · simp [hs,hr] at hsr
    refine ⟨fun hr => hatt (.inr hr) (h.resuming hr),fun hs hr hdb => ?_,fun hdb => ?_⟩
    · rcases h.asleep hs hr hdb with h1 | ⟨how,-⟩
      · exact .inl (hatt (.inl hs) h1)
      · refine .inr ⟨how,fun o1 gen ho1 => ?_⟩
        cases ho1
        simp
    · rcases h.deferred hdb with hs | hr | ⟨o1,ho1,-⟩
      · exact .inl hs
      · exact .inr (.inl hr)
      · simp [hnone] at ho1

theorem Live.mono (h : Live b p i k d) (hb : b = .kick i → b' = .kick i)
    (hp : p.WillKick i k → p'.WillKick i k) : Live b' p' i k d :=
  h.attend (Or.imp_right (Or.imp hb (Or.imp_left hp))) rfl rfl rfl rfl id

theorem Regime.not_blocked (hs : Regime s) (hp : s.env.paused = false) : s.env.blocked = false := by
  have hpm : s.pm.paused = false := hs.paused.symm.trans hp
  have hsus : s.env.suspender = false := by
    rw [hs.suspender]
    revert hpm
    cases s.pm <;> first | exact fun _ => rfl | exact nofun
  have hfailed : s.env.resumeFailed = false := by
    refine Bool.eq_false_iff.mpr fun hf => ?_
    rcases hs.failed hf with h | h <;> rw [h] at hpm <;> cases hpm
  rw [Env.blocked,hsus,hfailed]
  rfl

theorem Turned.live (h : Turned s i ev r b p) (hs : Regime s) (hk : (s.core i).Rooted)
    (hdying : s.env.dying = false) (hpaused : s.env.paused = false) (hl' : r.1.link = .bound)
    (hi : (s.core i).link = .bound → Live s.bus s.pm i (s.core i) (s.cell i).dl) :
    Live b p i r.1 r.2.dl := by
  have hblocked := hs.not_blocked hpaused
  have hpm : s.pm.paused = false := hs.paused.symm.trans hpaused
  cases h with
  | @owner o a ho =>
    have hadv := advance_advanced s.env (s.core i) (s.cell i) o a
    have hl : (s.core i).link = .bound := hadv.frame.1.symm.trans hl'
    exact (hi hl).advanced hk hl hdying hpaused hblocked ho hadv
  | pop hq hw =>
    refine (hi hl').attend (fun hatt => hatt.imp rfl ?_ fun _ ho => attended_of_wakes ho) rfl rfl rfl rfl id
    exact fun hask => .inl ⟨hask.1,.inr (.inl rfl)⟩
  | task hw =>
    have hl := (rtTask_link s.env (s.slots i)).symm.trans hl'
    exact Live.task (hi hl) hl hdying hpaused
  | wakeForOpen => exact .of_attended (attended_of_wakes rfl rfl) fun _ => .inr (.inl rfl)
  | pipeOpened d own hd hnew hl hk' | pipeClosed d own hd hrung hheld hl hk' =>
    subst hk'
    exact (hi hl').same rfl rfl rfl rfl rfl rfl rfl rfl rtEvent_owes
  | pipeGone d own hrung hheld hl => cases hl.symm.trans hl'
  | doorbell d hfree hl hd =>
    rw [rtDoorbell_eq] at hl'
    have hold := hi hl'
    rw [hfree] at hold
    exact Live.doorbell (k := (s.core i).enqueue d) ({ hold with })
      hblocked hpaused
  | complete | abort => exact (hi hl').same rfl rfl rfl rfl rfl rfl rfl rfl id
  | kick | failKick | unparkKick =>
    have hl := (rtKick_nudged s.env .resume (s.core i)).link.symm.trans hl'
    exact (hi hl).kick hl hdying hpaused
  | @stir resumes hbus c hc =>
    subst hc
    refine ((hi hl').mono (by simp [hbus]) id).same rfl rfl rfl rfl rfl rfl rfl rfl fun how => ?_
    dsimp only
    split_ifs
    · exact rtIdleArm_owes how
    · exact how
  | wake => exact .of_attended (.inr (.inl rfl)) fun _ => .inr (.inl rfl)
  | bound hl hk' =>
    subst hk'
    obtain ⟨hsus,hres,-,hdb,-⟩ := hk.fresh hl
    exact ⟨fun h => (by cases hres.symm.trans h),
      fun h => (by cases hsus.symm.trans h),fun h => absurd hdb h⟩
  | bind | unbind | unbound => cases hl'
  | ring hpm' | restart d hpm' =>
    rw [hpm'] at hpm
    cases hpm

theorem Turned.others (h : Turned s i ev r b p) (hne : j ≠ i) :
    (s.bus = .kick j → b = .kick j) ∧ (s.pm.WillKick j k → p.WillKick j k) := by
  cases h with
  | doorbell d hbus | stir resumes hbus | wake resumes hbus =>
    exact ⟨fun h => by simp [hbus] at h,id⟩
  | kick resumes hbus => exact ⟨fun h => by simp [hbus,Ne.symm hne] at h,id⟩
  | failKick hpm | unparkKick hpm =>
    refine ⟨id,fun h => ?_⟩
    rw [hpm] at h
    exact h.resolve_left fun heq => hne heq.symm
  | ring hpm =>
    refine ⟨id,fun h => ?_⟩
    rw [hpm] at h
    exact h.elim
  | _ => exact ⟨id,id⟩

theorem Looked.live (h : Looked s b p) (hl : (s.core j).link = .bound)
    (hj : Live s.bus s.pm j (s.core j) d) : Live b p j (s.core j) d := by
  cases h with
  | portchange i hbus | lookAway i hbus | lookAsleep i hbus | lookAwake i hbus | asleepAway i hbus
  | asleepWake i hbus => exact hj.mono (fun h => by simp [hbus] at h) id
  | @failKick i todo hpm =>
    refine hj.mono id fun h => ?_
    rw [hpm] at h
    exact (mem_cons.mp h).imp_left Eq.symm
  | @failSkip i todo hpm hskip =>
    rcases eq_or_ne j i with rfl | hne
    · obtain ⟨hsus,hres⟩ := hskip hl
      exact ⟨fun h => (by cases hres.symm.trans h),
        fun h => (by cases hsus.symm.trans h),hj.deferred⟩
    · refine hj.mono id fun h => ?_
      rw [hpm] at h
      exact (mem_cons.mp h).resolve_left hne
  | ringSkip hpm | ringDone hpm =>
    refine hj.mono id fun h => ?_
    rw [hpm] at h
    exact h.elim
  | @unparkKick i todo hpm =>
    refine hj.mono id fun h => ?_
    rw [hpm] at h
    rcases mem_cons.mp h.1 with rfl | hmem
    · exact .inl rfl
    · exact .inr ⟨hmem,h.2⟩
  | @unparkSkip i todo hpm hskip =>
    refine hj.mono id fun h => ?_
    rw [hpm] at h
    rcases mem_cons.mp h.1 with rfl | hmem
    · cases (hskip hl).symm.trans h.2
    · exact ⟨hmem,h.2⟩

theorem Live.deadline (h : Live b p i k d) (howes : k.suspended = true → d.Owes → d'.Owes) :
    Live b p i k d' :=
  ⟨h.resuming,fun hs hr hdb => (h.asleep hs hr hdb).imp_right fun h => ⟨howes hs h.1,h.2⟩,h.deferred⟩

theorem Live.serve {a : Scan} {due : ℤ} {want : Want} (h : Live b p i x.toCore x.toDeadline)
    (hw : x.want = .nothing) (howes : x.Owes → want = .resume) :
    Live b p i (a.serve e x due want).1.toCore (a.serve e x due want).1.toDeadline := by
  unfold Scan.serve
  split_ifs with hdue
  · have hatt (hatt : Attended b p i x.toCore) :
        Attended b p i { x.toCore with want := x.want.max want, queued := true } :=
      hatt.imp rfl (fun hask => (by cases hw.symm.trans hask.1)) fun _ ho => attended_of_wakes ho
    refine ⟨fun hr => hatt (h.resuming hr),fun hs hr hdb => .inl ?_,h.deferred⟩
    rcases h.asleep hs hr hdb with h1 | ⟨how,-⟩
    · exact hatt h1
    · refine .inl ⟨?_,.inl rfl⟩
      change x.want.max want = .resume
      rw [hw,howes how]
      rfl
  · exact h

theorem Live.visit (a : Scan) (h : Live b p i x.toCore x.toDeadline) (hk : x.toCore.Rooted)
    (hl : x.link = .bound) :
    Live b p i (a.visit e x).1.toCore (a.visit e x).1.toDeadline := by
  unfold Scan.visit
  split_ifs with harmed hout hbusy hretry hoff
  · exact h
  · refine h.deadline fun hs _ => ?_
    have hroot := hk.root hl (.inl hs)
    simp [hl,hroot] at hout
  · exact h
  · exact h.serve (by simpa using (not_or.mp (not_or.mp hbusy).2).1) fun how => how.2
  · exact h.deadline fun _ how => absurd how.1 hretry
  · exact h.serve (by simpa using (not_or.mp (not_or.mp hbusy).2).1) fun how => absurd how.1 hretry

theorem Live.reconcile {u : Timer} (h : Live b p i k d) (hl : k.link = .bound) :
    Live b p i (reconcileCore flags k) (reconcileDl e flags k ⟨u,d⟩).dl := by
  refine Live.deadline (d := d) ?_ ?_
  · unfold reconcileCore
    rw [if_pos hl]
    refine h.attend (fun hatt => hatt.imp rfl (fun hask => .inl ⟨?_,?_⟩) fun _ ho => attended_of_wakes ho)
      rfl rfl rfl rfl id
    · dsimp only
      split_ifs
      · rfl
      · exact hask.1
    · rcases hask.2 with hq | hwk | ho
      · exact .inl (by simp [hq])
      · exact .inr (.inl hwk)
      · exact .inr (.inr ho)
  · intro hs how
    have hs' : k.suspended = true := by
      obtain heq | ⟨-,want,queued,heq⟩ := reconcileCore_nudged flags k <;> rw [heq] at hs <;> exact hs
    exact reconcileDl_owes hl hs' how

/-! ## The exit of a system resume -/

def Pm.ringsLeft : Pm n → Option (List (Fin n))
  | .ringing todo => some todo
  | .rung => some []
  | _ => none

/-- A slot after a system resume: what is not rung yet is parked or to be rung. -/
structure Core.Resumed (k : Core) (i : Fin n) (todo : List (Fin n)) : Prop where
  resuming : k.resuming = false
  parked : k.suspended = true → k.parkedDrv = true
  deferred : k.dbpending ≠ ∅ → k.suspended = true ∨ i ∈ todo

variable {todo : List (Fin n)}

theorem Core.Resumed.same (h : k.Resumed i todo) (hr : k'.resuming = k.resuming)
    (hs : k'.suspended = k.suspended) (hp : k'.parkedDrv = k.parkedDrv)
    (hdb : k'.dbpending = k.dbpending) : k'.Resumed i todo :=
  ⟨hr.trans h.resuming,fun h1 => hp.trans (h.parked (hs.symm.trans h1)),
    fun h1 => (h.deferred (hdb ▸ h1)).imp_left hs.trans⟩

theorem Core.Resumed.doorbell {d : ℕ} (h : k.Resumed i todo) (hblocked : e.blocked = false)
    (hpaused : e.paused = true) : (rtDoorbell e d k).Resumed i todo := by
  unfold rtDoorbell
  split_ifs with hdefer
  · have hs : k.suspended = true := by simpa [hblocked,h.resuming] using hdefer
    exact ⟨by simp [rtDoorbellResumes,hpaused,h.resuming],h.parked,fun _ => .inl hs⟩
  · exact h.same rfl rfl rfl rfl

theorem Core.Resumed.ring (h : k.Resumed i (i :: todo)) (hblocked : e.blocked = false) :
    (rtRingPending e k).Resumed i todo := by
  unfold rtRingPending
  split_ifs with hdefer
  · have hs : k.suspended = true := by simpa [hblocked,h.resuming] using hdefer
    exact ⟨h.resuming,h.parked,fun _ => .inl hs⟩
  · exact ⟨h.resuming,h.parked,fun hne => absurd rfl hne⟩

theorem Pm.ringsLeft_flags (h : p.ringsLeft = some todo) :
    p.settled = true ∧ p.shut = true ∧ p.suspender = false ∧ p.paused = true ∧
    ¬(p = .broken ∨ p = .resuming) := by
  cases p with
  | ringing | rung => exact ⟨rfl,rfl,rfl,rfl,by simp⟩
  | _ => cases h

theorem Turned.resumed (h : Turned s i ev r b p) (hs : Regime s) (hk : (s.core i).Rooted)
    (hpm : p.ringsLeft = some todo) (hl' : r.1.link = .bound)
    (hi : ∀ todo', s.pm.ringsLeft = some todo' → (s.core i).link = .bound →
      (s.core i).Resumed i todo') : r.1.Resumed i todo := by
  -- nobody works on the slot, and `sc_lock` is free
  have hidle (hold : s.pm.ringsLeft = some todo) (hl : (s.core i).link = .bound) :
      (s.core i).Idle := (hs.slot i).settled (Pm.ringsLeft_flags hold).1 hl
  have hfree (hold : s.pm.ringsLeft = some todo) : s.bus = .free :=
    hs.bus (Pm.ringsLeft_flags hold).2.1
  have hpaused (hold : s.pm.ringsLeft = some todo) : s.env.paused = true :=
    hs.paused.trans (Pm.ringsLeft_flags hold).2.2.2.1
  have hblocked (todo' : List (Fin n)) (hold : s.pm.ringsLeft = some todo') :
      s.env.blocked = false := by
    obtain ⟨-,-,hsus,-,hbroken⟩ := Pm.ringsLeft_flags hold
    have hf : s.env.resumeFailed = false := Bool.eq_false_iff.mpr fun h => hbroken (hs.failed h)
    rw [Env.blocked,hs.suspender,hsus,hf]
    rfl
  cases h with
  | @owner o a ho =>
    have hl := (advance_advanced s.env (s.core i) (s.cell i) o a).frame.1.symm.trans hl'
    simp [(hidle hpm hl).1] at ho
  | pop hq hw => simp [(hidle hpm hl').2.2] at hq
  | task hw =>
    have hl := (rtTask_link s.env (s.slots i)).symm.trans hl'
    simp [(hidle hpm hl).2.1] at hw
  | wakeForOpen hl hp => simp [hpaused hpm] at hp
  | pipeOpened d own hd hnew hl hk' | pipeClosed d own hd hrung hheld hl hk' =>
    subst hk'
    exact (hi _ hpm hl').same rfl rfl rfl rfl
  | pipeGone d own hrung hheld hl => cases hl.symm.trans hl'
  | doorbell d hbus hl hd =>
    rw [rtDoorbell_eq] at hl'
    have hold : ((s.core i).enqueue d).Resumed i todo := (hi _ hpm hl').same rfl rfl rfl rfl
    exact hold.doorbell (hblocked _ hpm) (hpaused hpm)
  | complete | abort | stir => exact (hi _ hpm hl').same rfl rfl rfl rfl
  | kick resumes hbus | wake resumes hbus =>
    rw [hfree hpm] at hbus
    cases hbus
  | bound hl hk' =>
    subst hk'
    obtain ⟨hsus,hres,-,hdb,-⟩ := hk.fresh hl
    exact ⟨hres,fun h => (by cases hsus.symm.trans h),fun h => absurd hdb h⟩
  | bind | unbind | unbound => cases hl'
  | failKick hpm' | unparkKick hpm' => cases hpm
  | ring hpm' hl =>
    cases hpm
    have hold : s.pm.ringsLeft = some (i :: todo) := by rw [hpm']; rfl
    exact (hi _ hold hl).ring (hblocked _ hold)
  | restart d hpm' =>
    rw [hpm'] at hpm
    cases hpm

theorem Turned.ringsLeft (h : Turned s i ev r b p) (hpm : p.ringsLeft = some todo) (hne : j ≠ i) :
    ∃ todo', s.pm.ringsLeft = some todo' ∧ (j ∈ todo' → j ∈ todo) := by
  cases h with
  | failKick | unparkKick => cases hpm
  | ring hpm' =>
    cases hpm
    exact ⟨_,by rw [hpm']; rfl,fun h => (mem_cons.mp h).resolve_left hne⟩
  | _ => exact ⟨todo,hpm,id⟩

theorem Looked.ringsLeft (h : Looked s b p) (hpm : p.ringsLeft = some todo)
    (hl : (s.core j).link = .bound) :
    ∃ todo', s.pm.ringsLeft = some todo' ∧ (j ∈ todo' → j ∈ todo) := by
  cases h with
  | failKick | failSkip | unparkKick | unparkSkip => cases hpm
  | ringSkip hpm' hskip =>
    cases hpm
    refine ⟨_,by rw [hpm']; rfl,fun h => (mem_cons.mp h).resolve_left ?_⟩
    rintro rfl
    exact hskip hl
  | ringDone hpm' =>
    cases hpm
    exact ⟨[],by rw [hpm']; rfl,id⟩
  | _ => exact ⟨todo,hpm,id⟩

theorem resumedCore_resumed (e : Env) (hl : k.link = .bound) (hi : i ∈ todo) :
    (resumedCore e k).Resumed i todo := by
  rw [resumedCore,if_pos hl]
  exact ⟨rfl,id,fun _ => .inr hi⟩

/-! ## Whole runs -/

/-- Nothing pending on a bound slot is left to itself. -/
structure Kept (s : State n) : Prop where
  regime : Regime s
  bus : BusRooted s
  rooted : ∀ i, (s.core i).Rooted
  live : s.env.dying = false → s.env.paused = false → ∀ i, (s.core i).link = .bound →
    Live s.bus s.pm i (s.core i) (s.slots i).toDeadline
  resumed : ∀ todo, s.pm.ringsLeft = some todo → ∀ i, (s.core i).link = .bound →
    (s.core i).Resumed i todo

/-- When a system suspend fails, doorbells are pending only on slots that sleep. -/
def FailsCalm (s : State n) : Event n → Prop
  | .fail => ∀ i, (s.core i).link = .bound → (s.core i).dbpending ≠ ∅ →
      (s.core i).suspended = true ∨ (s.core i).resuming = true
  | _ => True

instance (s : State n) : ∀ ev, Decidable (FailsCalm s ev)
  | .fail => inferInstanceAs (Decidable (∀ _, _))
  | .owner _ _ | .pop _ | .task _ | .wakeForOpen _ | .pipeOpened _ _ _ | .pipeClosed _ _ _
  | .doorbell _ _ | .complete _ _ | .abort _ _ _ _ | .portchange _ | .bus _ | .callout | .store _
  | .reconcile | .tick | .bind _ _ | .bound _ | .unbind _ | .unbound _ | .deactivate | .detach
  | .pause | .halt | .drain | .block | .sleep | .resume | .restart _ _ | .resumed _ | .pm =>
    isTrue trivial

theorem Kept.turn (hs : Kept s) (h : Turned s i ev r b p) :
    Kept { s.place i r with bus := b, pm := p } := by
  have hmoved : Moved s ev _ := .turn h
  refine ⟨hmoved.regime hs.regime,hmoved.busRooted hs.bus,hmoved.rooted hs.bus hs.rooted,
    fun hdying hpaused j hl => ?_,fun todo hpm j hl => ?_⟩
  · refine forall_place_slot (P := fun j k d => k.link = .bound → Live b p j k d)
      (fun j hne hl => ?_) (fun hl => ?_) j hl
    · obtain ⟨hkick,hwill⟩ := h.others (k := s.core j) hne
      exact (hs.live hdying hpaused j hl).mono hkick hwill
    · exact h.live hs.regime (hs.rooted i) hdying hpaused hl (hs.live hdying hpaused i)
  · refine forall_place_slot (P := fun j k _ => k.link = .bound → k.Resumed j todo)
      (fun j hne hl => ?_) (fun hl => ?_) j hl
    · obtain ⟨todo',hpm',hmem⟩ := h.ringsLeft hpm hne
      have hold := hs.resumed todo' hpm' j hl
      exact ⟨hold.resuming,hold.parked,fun h => (hold.deferred h).imp_right hmem⟩
    · exact h.resumed hs.regime (hs.rooted i) hpm hl fun todo' hpm' hl' => hs.resumed todo' hpm' i hl'

theorem Kept.reconcile (hs : Kept s) (flags : Flags) (hrec : Moved s ev t)
    (hcore : ∀ i, t.slots i = (s.reconcile flags).slots i) (henv : t.env = s.env)
    (hbus : t.bus = s.bus) (hpm : t.pm = p) (hkick : ∀ i k, s.pm.WillKick i k → p.WillKick i k)
    (hleft : p.ringsLeft = s.pm.ringsLeft) : Kept t := by
  refine ⟨hrec.regime hs.regime,hrec.busRooted hs.bus,hrec.rooted hs.bus hs.rooted,
    fun hdying hpaused j hl => ?_,fun todo hleft' j hl => ?_⟩
  · rw [henv] at hdying hpaused
    rw [hbus,hpm]
    unfold State.core at hl ⊢
    rw [hcore j] at hl ⊢
    rcases reconcile_slot s j flags with heq | ⟨-,u,heq⟩ <;> rw [heq] at hl ⊢
    · exact (hs.live hdying hpaused j hl).mono id (hkick j _)
    · have hl' := (reconcileCore_nudged flags (s.core j)).link.symm.trans hl
      exact ((hs.live hdying hpaused j hl').reconcile hl').mono id (hkick j _)
  · rw [hpm,hleft] at hleft'
    have hpaused := hs.regime.paused.trans (Pm.ringsLeft_flags hleft').2.2.2.1
    unfold State.core at hl ⊢
    rw [hcore j] at hl ⊢
    rcases reconcile_slot s j flags with heq | ⟨hon,-⟩
    · rw [heq] at hl ⊢
      exact hs.resumed todo hleft' j hl
    · simp [hpaused] at hon

theorem Kept.callout (hs : Kept s) : Kept s.callout := by
  have hmoved : Moved s .callout s.callout := .callout
  refine ⟨hmoved.regime hs.regime,hmoved.busRooted hs.bus,hmoved.rooted hs.bus hs.rooted,
    fun hdying hpaused j hl => ?_,fun todo hleft j hl => ?_⟩
  · rw [callout_env] at hdying hpaused
    rw [callout_bus,callout_pm]
    unfold State.core at hl ⊢
    rcases callout_slot s j with heq | ⟨-,a,heq⟩ <;> rw [heq] at hl ⊢
    · exact hs.live hdying hpaused j hl
    · have hl' := (a.visit_nudged s.env (s.slots j)).link.symm.trans hl
      exact (hs.live hdying hpaused j hl').visit a (hs.rooted j) hl'
  · rw [callout_pm] at hleft
    have hpaused := hs.regime.paused.trans (Pm.ringsLeft_flags hleft).2.2.2.1
    unfold State.core at hl ⊢
    rcases callout_slot s j with heq | ⟨hon,-⟩
    · rw [heq] at hl ⊢
      exact hs.resumed todo hleft j hl
    · simp [hpaused] at hon

theorem Moved.kept (h : Moved s ev t) (hs : Kept s) (hcalm : FailsCalm s ev) : Kept t := by
  have hregime := h.regime hs.regime
  have hbus := h.busRooted hs.bus
  have hrooted := h.rooted hs.bus hs.rooted
  have hpaused (p : Pm n) (hp : p.paused = true) (hpm : s.pm = p) : s.env.paused = true :=
    hs.regime.paused.trans (hpm ▸ hp)
  cases h with
  | turn h => exact hs.turn h
  | look h =>
    refine ⟨hregime,hbus,hrooted,fun hdying hp j hl => h.live hl (hs.live hdying hp j hl),
      fun todo hleft j hl => ?_⟩
    obtain ⟨todo',hpm',hmem⟩ := h.ringsLeft hleft hl
    have hold := hs.resumed todo' hpm' j hl
    exact ⟨hold.resuming,hold.parked,fun h => (hold.deferred h).imp_right hmem⟩
  | callout => exact hs.callout
  | reconcile wake hk =>
    exact hs.reconcile ⟨true,wake⟩ (.reconcile wake hk) (fun _ => rfl) (reconcile_env s _)
      (reconcile_bus s _) (reconcile_pm s _) (fun _ _ => id) rfl
  | failed hpm =>
    exact hs.reconcile ⟨true,false⟩ (.failed hpm) (fun _ => rfl) (reconcile_env s _)
      (reconcile_bus s _) rfl (fun _ _ h => by simp [hpm,Pm.WillKick] at h) (by rw [hpm]; rfl)
  | unparked hpm =>
    exact hs.reconcile ⟨true,false⟩ (.unparked hpm) (fun _ => rfl) (reconcile_env s _)
      (reconcile_bus s _) rfl (fun _ _ h => by simp [hpm,Pm.WillKick] at h) (by rw [hpm]; rfl)
  | store k hk =>
    obtain ⟨hp,-,-,hd,-⟩ := Knob.apply_flags hk
    exact ⟨hregime,hbus,hrooted,fun h1 h2 => hs.live (hd.symm.trans h1) (hp.symm.trans h2),hs.resumed⟩
  | tick => exact ⟨hregime,hbus,hrooted,hs.live,hs.resumed⟩
  | deactivate | detach =>
    exact ⟨hregime,hbus,hrooted,nofun,hs.resumed⟩
  | pause hpm =>
    exact ⟨hregime,hbus,hrooted,fun _ h => (by cases h),nofun⟩
  | halt hpm | drain hpm | block hpm | sleep hpm | broke hpm =>
    exact ⟨hregime,hbus,hrooted,fun _ h => (by cases h.symm.trans (hpaused _ rfl hpm)),
      nofun⟩
  | fail hpm =>
    refine ⟨hregime,hbus,hrooted,fun _ _ i hl => ?_,nofun⟩
    exact .of_attended (.inr (.inr (.inl (mem_finRange i))))
      fun hdb => (hcalm i hl hdb).imp_right .inl
  | resume hpm =>
    refine ⟨hregime,hbus,hrooted,fun _ h => ?_,nofun⟩
    have hp : s.env.paused = true := by rcases hpm with hpm | hpm <;> exact hpaused _ rfl hpm
    cases h.symm.trans hp
  | resumed hpm =>
    refine ⟨hregime,hbus,hrooted,
      fun _ h => (by cases h.symm.trans (hpaused _ rfl hpm)),fun todo h i hl => ?_⟩
    cases h
    change (resumedCore s.env (s.core i)).Resumed i _
    change (resumedCore s.env (s.core i)).link = .bound at hl
    rw [resumedCore_eq] at hl
    exact resumedCore_resumed s.env hl (mem_finRange i)
  | unpause hpm =>
    refine ⟨hregime,hbus,hrooted,fun _ _ i hl => ?_,nofun⟩
    have hold := hs.resumed [] (by rw [hpm]; rfl) i hl
    refine ⟨fun h => (by cases hold.resuming.symm.trans h),
      fun hsus _ _ => .inl (.inr (.inr (.inl ⟨mem_finRange i,hold.parked hsus⟩))),
      fun hdb => (hold.deferred hdb).imp_right nofun⟩

section Run
variable {now : ℤ} {hz autosuspend : ℕ} {deferrable : Bool} {evs : List (Event n)}

theorem attach_kept : Kept (attach n now hz autosuspend deferrable) where
  regime := attach_regime now hz autosuspend deferrable
  bus := fun _ h => by rcases h with h | h <;> cases h
  rooted := fun _ => ⟨nofun,nofun,nofun⟩
  live := nofun
  resumed := nofun

/-- If system suspends fail only with doorbells pending on slots that sleep, no doorbell is stranded
on a bound slot: the owner rings it or leaves a request or a retry, a wake is requested or about to
be, or a resume retry is armed. -/
theorem doorbell_attended
    (hcalm : Along step FailsCalm (attach n now hz autosuspend deferrable) evs)
    (hrun : exec step (attach n now hz autosuspend deferrable) evs = some t)
    (hdying : t.env.dying = false) (hpaused : t.env.paused = false) {i : Fin n}
    (hl : (t.core i).link = .bound) (hdb : (t.core i).dbpending ≠ ∅) :
    (∃ o, (t.core i).owner = some o ∧ (o.pc.wakes = true ∨ o.pc.rings = true)) ∨
    (t.core i).Asked ∨ t.bus = .kick i ∨ t.pm.WillKick i (t.core i) ∨
    ((t.slots i).retryArmed = true ∧ (t.slots i).retryWant = .resume) := by
  have hkept : Kept t := exec_invariant_along Kept
    (fun _ _ _ hs hc hstep => (step_moved hstep).kept hs hc) attach_kept hcalm hrun
  have hlive := hkept.live hdying hpaused i hl
  have hwho : Attended t.bus t.pm i (t.core i) ∨ (t.slots i).Owes ∨
      ∃ o, (t.core i).owner = some o ∧ o.pc.rings = true := by
    rcases hlive.deferred hdb with hs | hr | howner
    · cases hres : (t.core i).resuming with
      | true => exact .inl (hlive.resuming hres)
      | false => exact (hlive.asleep hs hres hdb).imp_right fun h => .inl h.1
    · exact .inl (hlive.resuming hr)
    · exact .inr (.inr howner)
  rcases hwho with (h | h | h | ⟨o,ho,hw⟩) | howes | ⟨o,ho,hr⟩
  · exact .inr (.inl h)
  · exact .inr (.inr (.inl h))
  · exact .inr (.inr (.inr (.inl h)))
  · exact .inl ⟨o,ho,.inl hw⟩
  · exact .inr (.inr (.inr (.inr howes)))
  · exact .inl ⟨o,ho,.inr hr⟩

/-- A device is suspended for being idle; a system suspend begins, a transfer is started
in it, and it fails. -/
def asleepFail : List (Event 1) :=
  idleSuspend [] ++ List.replicate 4 (.owner (.last 0) .ok) ++
    [.pause,.halt,.drain,.block,.doorbell (.last 0) 1,.fail]

theorem asleepFail_attended :
    ∃ t : State 1, exec step (attach 1 0 100 1 true) asleepFail = some t ∧
      t.env.dying = false ∧ t.env.paused = false ∧ (t.core 0).link = .bound ∧
      (t.core 0).dbpending ≠ ∅ ∧
      ((∃ o, (t.core 0).owner = some o ∧ (o.pc.wakes = true ∨ o.pc.rings = true)) ∨
        (t.core 0).Asked ∨ t.bus = .kick 0 ∨ t.pm.WillKick 0 (t.core 0) ∨
        ((t.slots 0).retryArmed = true ∧ (t.slots 0).retryWant = .resume)) := by
  obtain ⟨t,hrun,hdying,hpaused,hl,hdb⟩ : ∃ t, exec step (attach 1 0 100 1 true) asleepFail = some t
      ∧ t.env.dying = false ∧ t.env.paused = false ∧ (t.core 0).link = .bound ∧ (t.core 0).dbpending
      ≠ ∅ := by decide +kernel
  exact ⟨t,hrun,hdying,hpaused,hl,hdb,
    doorbell_attended (by decide +kernel) hrun hdying hpaused hl hdb⟩

/-- The same with a device that is awake. The exit of the system suspend requests a wake,
and the task drops the request. -/
def awakeFail : List (Event 1) :=
  [.bind (.last 0) true,.bound (.last 0),.pause,.halt,.drain,.block,.doorbell (.last 0) 1,.fail,
    .pm,.pm,.pm,.pop (.last 0),.task (.last 0),.owner (.last 0) .ok,.owner (.last 0) .ok]

/-- After that nobody owns the slot, nothing is requested and no retry is armed, with the
doorbell still pending. -/
theorem awakeFail_stranded :
    ∃ t : State 1, exec step (attach 1 0 100 1 true) awakeFail = some t ∧
      t.env.dying = false ∧ t.env.paused = false ∧ t.env.blocked = false ∧ t.bus = .free ∧
      t.pm = .awake ∧ (t.core 0).link = .bound ∧ (t.core 0).dbpending = {1} ∧
      (t.core 0).owner = none ∧ (t.core 0).worker = .idle ∧ (t.core 0).queued = false ∧
      (t.core 0).want = .nothing ∧ (t.slots 0).retryArmed = false := by
  decide +kernel

end Run
end NanoBSD.Xhci
