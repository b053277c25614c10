import NanoBSD.Xhci.Suspend

/-! # The deadline of a slot

Deadlines are counted when they are armed and cleared, and the callout has to run by the
earliest of them. What a function does to the callout is told apart from what it does to
its own slot: it changes the count by its own deadline only, and as long as others are
counted it leaves the callout serving them.
-/
namespace NanoBSD.Xhci
variable {n : ℕ} {e : Env} {t : Timer} {k k' : Core} {c c' c'' : Cell} {d d' : Deadline} {o : Owner}
  {pc pc' : Pc} {r : Core × Cell} {s : State n} {i : Fin n} {ev : Event n} {b : Bus n} {p : Pm n}
  {w : ℤ}

/-! ## The callout -/

/-- The callout runs by the time `due`, or at the next tick, and if `hard` is set not later. -/
def Serves (e : Env) (t : Timer) (due : ℤ) (hard : Bool) : Prop :=
  t.armed = true ∧ t.armedAt ≤ max due (e.now + 1) ∧ (hard = true → t.armedHard = true)

/-- The tick is at most `w` ahead. Two such ticks, and the current one, are less than half the range
of `tdiff` apart. -/
def Env.Near (w : ℤ) (e : Env) (x : ℤ) : Prop :=
  (0 < w ∧ w < 2 ^ 31) ∧ x ≤ e.now + w ∧ e.now + w < x + 2 ^ 31

def Soon (w : ℤ) (e : Env) (t : Timer) : Prop := t.armed = true → e.Near w t.armedAt

theorem Env.Near.tdiff {x y : ℤ} (hx : e.Near w x) (hy : e.Near w y) : tdiff x y = x - y := by
  unfold Env.Near at hx hy
  exact Int.bmod_eq_of_le (by omega) (by omega)

section Serves
variable {due due' : ℤ} {hard hard' : Bool}

theorem Env.Near.now (h : e.Near w due) : e.Near w e.now := by
  obtain ⟨hw,-⟩ := h
  exact ⟨hw,by omega,by omega⟩

theorem rtSchedule_armedAt (hdue : e.Near w due) :
    (rtSchedule e t due hard).armedAt = max due (e.now + 1) := by
  change e.now + max (tdiff due e.now) 1 = _
  rw [hdue.tdiff hdue.now]
  omega

theorem rtSchedule_soon (hdue : e.Near w due) : Soon w e (rtSchedule e t due hard) := by
  intro _
  rw [rtSchedule_armedAt hdue]
  unfold Env.Near at hdue ⊢
  omega

theorem rtSchedule_serves (hdue : e.Near w due) (hle : due ≤ max due' (e.now + 1))
    (hh : hard' = true → hard = true) : Serves e (rtSchedule e t due hard) due' hard' := by
  refine ⟨rfl,?_,fun h => by simp [rtSchedule,hh h]⟩
  rw [rtSchedule_armedAt hdue]
  omega

theorem rtArm_soon (ht : Soon w e t) (hdue : e.Near w due) : Soon w e (rtArm e t due hard) := by
  unfold rtArm
  split_ifs with hoff harmed
  · exact ht
  · unfold rtArmOver
    split_ifs
    · exact ht
    · exact rtSchedule_soon (ht harmed)
    · exact rtSchedule_soon hdue
  · exact rtSchedule_soon hdue

theorem rtArm_serves (hd : e.dying = false) (hp : e.paused = false) (ht : Soon w e t)
    (hdue : e.Near w due) : Serves e (rtArm e t due hard) due hard := by
  have hle : due ≤ max due (e.now + 1) := Int.le_max_left _ _
  unfold rtArm
  rw [if_neg (by simp [hd,hp])]
  split_ifs with harmed
  · unfold rtArmOver
    rw [(ht harmed).tdiff hdue]
    split_ifs with hat hsame
    · exact ⟨harmed,by omega,fun h => by simpa [h] using hsame.symm⟩
    · exact rtSchedule_serves (ht harmed) (by omega) fun h => by simp [h]
    · exact rtSchedule_serves hdue hle fun h => by simp [h]
  · exact rtSchedule_serves hdue hle fun h => by simp [h]

theorem Serves.arm (h : Serves e t due' hard') (ht : Soon w e t) (hdue : e.Near w due) :
    Serves e (rtArm e t due hard) due' hard' := by
  obtain ⟨harmed,hat,hhard⟩ := h
  unfold rtArm
  split_ifs with hoff
  · exact ⟨harmed,hat,hhard⟩
  · unfold rtArmOver
    rw [(ht harmed).tdiff hdue]
    split_ifs with hle hsame
    · exact ⟨harmed,hat,hhard⟩
    · exact rtSchedule_serves (ht harmed) hat fun h => by simp [hhard h]
    · exact rtSchedule_serves hdue (by omega) fun h => by simp [hhard h]

end Serves

theorem Serves.later {e' : Env} {due due' : ℤ} {hard : Bool} (h : Serves e t due hard)
    (hdue : due ≤ due') (hnow : e.now ≤ e'.now) : Serves e' t due' hard := by
  obtain ⟨harmed,hat,hhard⟩ := h
  exact ⟨harmed,by omega,hhard⟩

/-! ## The count -/

def due (e : Env) (lastbusy : ℤ) (d : Deadline) : ℤ :=
  if d.retryArmed then d.retryDue else lastbusy + e.period

def Timed (w : ℤ) (e : Env) (lastbusy : ℤ) (d : Deadline) : Prop :=
  d.armed = true → e.Near w (due e lastbusy d)

namespace Cell

def Fits (c : Cell) : Prop := c.dl.armed = true → 0 < c.timer.ndeadlines
def others (c : Cell) : ℕ := c.timer.ndeadlines - if c.dl.armed then 1 else 0

end Cell

/-- The deadline changes and is counted again. The callout stays as it is, or is stopped because
there is no other deadline. -/
structure Recounted (c c' : Cell) : Prop where
  fits : c.Fits → c'.Fits
  others : c.Fits → c'.others = c.others
  callout : ∃ armed n, c'.timer = { c.timer with armed := armed, ndeadlines := n } ∧
    (armed = true → c.timer.armed = true) ∧
    (c.Fits → c.others ≠ 0 → c.timer.armed = true → armed = true)

/-- The deadline is counted again, and then the callout may be armed for it. -/
inductive Retimed (e : Env) (lastbusy : ℤ) (c : Cell) : Cell → Prop
  | same {c' : Cell} (h : Recounted c c') : Retimed e lastbusy c c'
  | arm {t : Timer} {d : Deadline} {x : ℤ} (h : Recounted c ⟨t,d⟩) (harmed : d.armed = true)
      (hx : due e lastbusy d = x) (hard : Bool) : Retimed e lastbusy c ⟨rtArm e t x hard,d⟩

theorem Recounted.dl (c : Cell) (h : d.armed = c.dl.armed) : Recounted c { c with dl := d } :=
  ⟨fun hf ha => hf (h.symm.trans ha),fun _ => by simp [Cell.others,h],
    c.timer.armed,c.timer.ndeadlines,rfl,id,fun _ _ => id⟩

theorem Recounted.refl (c : Cell) : Recounted c c := .dl c rfl

theorem Recounted.trans (h : Recounted c c') (h' : Recounted c' c'') : Recounted c c'' := by
  refine ⟨fun hf => h'.fits (h.fits hf),fun hf => (h'.others (h.fits hf)).trans (h.others hf),?_⟩
  obtain ⟨armed,m,htimer,hwas,hstays⟩ := h.callout
  obtain ⟨armed',m',htimer',hwas',hstays'⟩ := h'.callout
  rw [htimer] at htimer' hwas' hstays'
  refine ⟨armed',m',htimer',fun ha => hwas (hwas' ha),fun hf ho ha => ?_⟩
  exact hstays' (h.fits hf) (by rwa [h.others hf]) (hstays hf ho ha)

theorem Recounted.soon (h : Recounted c c') (hs : Soon w e c.timer) : Soon w e c'.timer := by
  obtain ⟨armed,m,htimer,hwas,-⟩ := h.callout
  rw [htimer]
  exact fun ha => hs (hwas ha)

theorem Recounted.serves {x : ℤ} {hard : Bool} (h : Recounted c c') (hf : c.Fits)
    (ho : c.others ≠ 0) (hs : Serves e c.timer x hard) : Serves e c'.timer x hard := by
  obtain ⟨armed,m,htimer,-,hstays⟩ := h.callout
  rw [htimer]
  exact ⟨hstays hf ho hs.1,hs.2⟩

theorem rtDlClear_recounted (c : Cell) : Recounted c (rtDlClear c) := by
  unfold rtDlClear
  split_ifs with harmed
  · refine ⟨fun _ ha => (by cases ha),fun _ => ?_,_,_,rfl,fun ha => ?_,fun _ ho ha => ?_⟩
    · unfold Cell.others
      rw [if_pos harmed]
      rfl
    · exact (Bool.and_eq_true_iff.mp ha).1
    · have hn : c.timer.ndeadlines - 1 ≠ 0 := by simpa [Cell.others,harmed] using ho
      simp [ha,hn]
  · exact .refl c

theorem rtDlCount_recounted (c : Cell) (hd : d.armed = true) : Recounted c ⟨rtDlCount c,d⟩ := by
  unfold rtDlCount
  split_ifs with harmed
  · exact .dl c (hd.trans harmed.symm)
  · exact ⟨fun _ _ => Nat.succ_pos _,fun _ => by simp [Cell.others,hd,harmed],
      c.timer.armed,_,rfl,id,fun _ _ => id⟩

namespace Retimed
variable {lastbusy : ℤ}

theorem after (h : Retimed e lastbusy c' c'') (h' : Recounted c c') : Retimed e lastbusy c c'' := by
  cases h with
  | same h => exact .same (h'.trans h)
  | arm h harmed hx hard => exact .arm (h'.trans h) harmed hx hard

theorem after_dl (h : Retimed e lastbusy { c with dl := d } c') (hd : d.armed = c.dl.armed) :
    Retimed e lastbusy c c' := h.after (.dl c hd)

theorem refl (c : Cell) : Retimed e lastbusy c c := .same (.refl c)

theorem rtArm_ndeadlines (x : ℤ) (hard : Bool) :
    (rtArm e t x hard).ndeadlines = t.ndeadlines := by
  unfold rtArm rtArmOver
  split_ifs <;> rfl

theorem recount (h : Retimed e lastbusy c c') :
    (c.Fits → c'.Fits) ∧ (c.Fits → c'.others = c.others) := by
  cases h with
  | same h => exact ⟨h.fits,h.others⟩
  | arm h harmed hx hard =>
    unfold Cell.Fits Cell.others
    dsimp only
    rw [rtArm_ndeadlines]
    exact ⟨h.fits,h.others⟩

variable (h : Retimed e lastbusy c c') (hs : Soon w e c.timer) (ht : Timed w e lastbusy c'.dl)
include h hs ht

theorem soon : Soon w e c'.timer := by
  cases h with
  | same h => exact h.soon hs
  | arm h harmed hx hard => exact rtArm_soon (h.soon hs) (hx ▸ ht harmed)

theorem serves {x : ℤ} {hard : Bool} (hf : c.Fits) (ho : c.others ≠ 0)
    (hserves : Serves e c.timer x hard) : Serves e c'.timer x hard := by
  cases h with
  | same h => exact h.serves hf ho hserves
  | arm h harmed hx hard => exact (h.serves hf ho hserves).arm (h.soon hs) (hx ▸ ht harmed)

end Retimed

theorem rtIdleArm_retimed (e : Env) (k : Core) (c : Cell) :
    Retimed e k.lastbusy c (rtIdleArm e k c) := by
  unfold rtIdleArm
  split_ifs with hlive
  · refine Retimed.after_dl (d := { c.dl with dormant := false }) ?_ rfl
    unfold rtIdleArmAwake
    split_ifs with hkeep
    · exact .refl _
    · simp only [Bool.or_eq_true,not_or,Bool.not_eq_true] at hkeep
      exact .arm (rtDlCount_recounted _ rfl) rfl (if_neg (by simp [hkeep.1.1])) false
    · exact .same (rtDlClear_recounted _)
  · exact .refl c

theorem rtEvent_retimed (own : Bool) : Retimed e k.lastbusy c (rtEvent e k own c) :=
  (rtIdleArm_retimed e k _).after_dl rfl

theorem rtRetry_retimed (e : Env) (k : Core) (want : Want) (delay : ℤ) (c : Cell) (b : ℤ) :
    Retimed e b c (rtRetry e k want delay c) := by
  unfold rtRetry
  split_ifs
  · refine .arm (rtDlCount_recounted c ?_) ?_ ?_ _ <;> simp [Deadline.armed,due]
  · exact .refl c

theorem rtResumeFailed_retimed (b : ℤ) : Retimed e b c (rtResumeFailed e k c) :=
  (rtRetry_retimed e k _ _ _ b).after_dl rfl

theorem rtSuspendFailed_retimed (b : ℤ) : Retimed e b c (rtSuspendFailed e k c) := by
  unfold rtSuspendFailed
  dsimp only
  split_ifs
  · exact .same (.dl c rfl)
  · exact (rtRetry_retimed e k _ _ _ b).after_dl rfl

theorem rtSlotRearm_retimed : Retimed e k.lastbusy c (rtSlotRearm e k c) := by
  unfold rtSlotRearm
  split_ifs with hretry hidle
  · exact .arm (.refl c) (by simp [Deadline.armed,hretry]) (if_pos hretry) _
  · exact .arm (.refl c) (by simp [Deadline.armed,hidle]) (if_neg hretry) _
  · exact .refl c

theorem rtDormant_recounted : Recounted c (rtDormant c) :=
  (rtDlClear_recounted c).trans (.dl _ rfl)

theorem rtSuspendOutcome_retimed (e : Env) (k : Core) (s : Susp) (gen : ℕ) (c : Cell) :
    Retimed e k.lastbusy c (rtSuspendOutcome e k s gen c) := by
  unfold rtSuspendOutcome
  by_cases hl : k.link = .bound
  · rw [if_pos hl]
    cases s with
    | ok => exact .same (rtDlClear_recounted c)
    | busy => exact rtIdleArm_retimed e k c
    | dormant =>
      dsimp only
      split_ifs
      · exact rtIdleArm_retimed e k c
      · exact .same rtDormant_recounted
      · exact .refl c
    | failed =>
      dsimp only
      split_ifs
      · exact (rtIdleArm_retimed e k _).after_dl rfl
      · exact rtSuspendFailed_retimed _
    | none => exact .refl c
  · rw [if_neg hl]
    exact .refl c

theorem rtReleaseDl_retimed : Retimed e k.lastbusy c (rtReleaseDl e k c) := by
  unfold rtReleaseDl
  split_ifs
  · exact rtIdleArm_retimed e k c
  · exact rtSlotRearm_retimed

theorem awakeDl_retimed : Retimed e k.lastbusy c (awakeDl e k c) := by
  unfold awakeDl
  dsimp only
  split_ifs
  · exact ((rtIdleArm_retimed e k _).after (rtDlClear_recounted _)).after_dl rfl
  · exact (rtIdleArm_retimed e k _).after_dl rfl

theorem bindDl_recounted : Recounted c (bindDl c) := (rtDlClear_recounted c).trans (.dl _ rfl)

theorem resetDl_recounted (c : Cell) : Recounted c (resetDl k c) := by
  unfold resetDl
  dsimp only
  split_ifs
  · exact Recounted.trans (.dl (d := { c.dl with resFails := 0, suspFails := 0 }) c rfl)
      (rtDlClear_recounted _)
  · exact .dl c rfl

theorem reconcileDl_retimed {flags : Flags} :
    Retimed e k.lastbusy c (reconcileDl e flags k c) := by
  unfold reconcileDl
  by_cases hl : k.link = .bound
  · rw [if_pos hl]
    dsimp only
    refine Retimed.after_dl (d := { c.dl with gen := c.dl.gen + 1 }) ?_ rfl
    split_ifs
    · exact rtSlotRearm_retimed.after (resetDl_recounted _)
    · exact (rtIdleArm_retimed e k _).after (resetDl_recounted _)
    · exact rtSlotRearm_retimed
    · exact rtIdleArm_retimed e k _
  · rw [if_neg hl]
    exact .same (rtDlClear_recounted c)

theorem Advanced.retimed (h : Advanced e k c o r) : Retimed e r.1.lastbusy c r.2 := by
  cases h with
  | outcome => exact rtSuspendOutcome_retimed e k _ _ c
  | @outcomeOff gen => exact rtSuspendOutcome_retimed e k .ok gen c
  | release => exact rtReleaseDl_retimed (k := k)
  | asleep | asleepWoken => exact .same (.dl c rfl)
  | failed => exact rtResumeFailed_retimed _
  | woken => exact awakeDl_retimed (k := awake e k)
  | _ => exact .refl c

theorem Turned.retimed (h : Turned s i ev r b p) :
    Retimed s.env r.1.lastbusy (s.cell i) r.2 := by
  cases h with
  | owner a ho => exact (advance_advanced _ _ _ _ a).retimed
  | pipeOpened | pipeClosed | bound => exact rtEvent_retimed _
  | stir resumes hbus hc =>
    subst hc
    dsimp only
    split_ifs
    · exact rtEvent_retimed false
    · exact .same (.dl _ rfl)
  | bind | unbound => exact .same bindDl_recounted
  | unbind => exact .same (rtDlClear_recounted _)
  | _ => exact .refl _

/-! ## What holds of a slot and its deadline -/

def Pc.moving : Pc → Bool
  | .parking _ _ | .parkWait _ _ | .write _ | .wait _ | .outcome .ok _ => true
  | .look _ park _ => park
  | .wake _ | .driving _ | .unparking _ | .woken _ => true
  | _ => false

structure Tidy (dying : Bool) (k : Core) (d : Deadline) : Prop where
  idle : d.idleArmed = true → k.link = .bound ∧ k.root = true
  retry : d.retryArmed = true → k.link = .bound ∧ d.retryWant ≠ .nothing
  asleep : dying = false → k.suspended = true → d.idleArmed = true →
    ∃ o, k.owner = some o ∧ o.pc.moving = true

structure Core.Posed (k : Core) : Prop where
  parked : k.parkedDrv = true → k.suspended = true
  parking : ∀ o gen lastbusy, k.owner = some o → o.pc = .parking gen lastbusy → k.suspended = true
  woken : ∀ o a, k.owner = some o → o.pc = .woken a → k.parkedDrv = false

structure Sane (e : Env) (k : Core) (d : Deadline) : Prop where
  tidy : Tidy e.dying k d
  posed : k.Posed
  used : k.lastbusy ≤ e.now

/-- A slot that may become idle has a deadline, an owner or a request. -/
def Covered (e : Env) (k : Core) (d : Deadline) : Prop :=
  k.link = .bound → k.root = true → k.suspended = false → k.resuming = false →
    d.dormant = false → e.enabled = true →
    d.armed = true ∨ k.owner.isSome = true ∨
      k.want ≠ .nothing ∧ (k.queued = true ∨ k.worker = .popped ∨ e.paused = true)

/-- The callout serves the deadline of a slot, unless somebody else will. -/
def Served (e : Env) (t : Timer) (k : Core) (d : Deadline) : Prop :=
  d.armed = true → k.owner = none → k.want = .nothing → k.resuming = false →
    Serves e t (due e k.lastbusy d) (d.retryArmed && decide (d.retryWant = .resume))

theorem armed_eq_true : d.armed = true ↔ d.idleArmed = true ∨ d.retryArmed = true := by
  simp [Deadline.armed]

inductive IdleArmed (e : Env) (k : Core) (c : Cell) : Cell → Prop
  | off (h : ¬(k.link = .bound ∧ k.root = true ∧ e.dying = false)) : IdleArmed e k c c
  | kept (h : c.dl.retryArmed = true ∨ k.suspended = true ∨ k.resuming = true) :
      IdleArmed e k c { c with dl := { c.dl with dormant := false } }
  | armed {d : Deadline} (hl : k.link = .bound) (hroot : k.root = true)
      (hs : k.suspended = false) (hi : d.idleArmed = true) (hr : d.retryArmed = false) :
      IdleArmed e k c { timer := rtArm e (rtDlCount c) (k.lastbusy + e.period) false, dl := d }
  | cleared {c' : Cell} (h : e.enabled = false) (hi : c'.dl.idleArmed = false)
      (hr : c'.dl.retryArmed = false) : IdleArmed e k c c'

theorem rtDlClear_off (c : Cell) :
    (rtDlClear c).dl.idleArmed = false ∧ (rtDlClear c).dl.retryArmed = false := by
  unfold rtDlClear
  split_ifs with harmed
  · exact ⟨rfl,rfl⟩
  · simpa [armed_eq_true] using harmed

theorem rtIdleArm_cases (e : Env) (k : Core) (c : Cell) : IdleArmed e k c (rtIdleArm e k c) := by
  unfold rtIdleArm
  split_ifs with hlive
  · obtain ⟨hl,hroot,-⟩ := hlive
    unfold rtIdleArmAwake
    split_ifs with hkeep hen
    · exact .kept (by simpa [or_assoc] using hkeep)
    · simp only [Bool.or_eq_true,not_or,Bool.not_eq_true] at hkeep
      exact .armed hl hroot hkeep.1.2 rfl hkeep.1.1
    · exact .cleared (by simpa using hen) (rtDlClear_off _).1 (rtDlClear_off _).2
  · exact .off (by simpa using hlive)

variable {dying : Bool} {gen dci : ℕ}

theorem Tidy.off (hi : d.idleArmed = false) (hr : d.retryArmed = false) : Tidy dying k d :=
  ⟨fun h => (by cases hi.symm.trans h),fun h => (by cases hr.symm.trans h),
    fun _ _ h => (by cases hi.symm.trans h)⟩

theorem not_armed (hi : d.idleArmed = false) (hr : d.retryArmed = false) : d.armed ≠ true := by
  simp [Deadline.armed,hi,hr]

theorem rtIdleArm_tidy (h : Tidy dying k c.dl) : Tidy dying k (rtIdleArm e k c).dl := by
  have hcase := rtIdleArm_cases e k c
  generalize rtIdleArm e k c = c' at hcase ⊢
  cases hcase with
  | off => exact h
  | kept => exact ⟨h.idle,h.retry,h.asleep⟩
  | armed hl hroot hs hi hr =>
    exact ⟨fun _ => ⟨hl,hroot⟩,fun h => (by cases hr.symm.trans h),
      fun _ hsus => (by cases hs.symm.trans hsus)⟩
  | cleared h hi hr => exact .off hi hr

theorem rtIdleArm_armed (hd : e.dying = false) (hl : k.link = .bound) (hroot : k.root = true)
    (hs : k.suspended = false) (hr : k.resuming = false) (hen : e.enabled = true) :
    (rtIdleArm e k c).dl.armed = true := by
  have hcase := rtIdleArm_cases e k c
  generalize rtIdleArm e k c = c' at hcase ⊢
  cases hcase with
  | off h => exact absurd ⟨hl,hroot,hd⟩ h
  | kept h =>
    rcases h with h | h | h
    · exact armed_eq_true.mpr (.inr h)
    · cases hs.symm.trans h
    · cases hr.symm.trans h
  | armed hl hroot hs hi hr => exact armed_eq_true.mpr (.inl hi)
  | cleared h => cases h.symm.trans hen

theorem rtIdleArm_covered (hd : e.dying = false) : Covered e k (rtIdleArm e k c).dl :=
  fun hl hroot hs hr _ hen => .inl (rtIdleArm_armed hd hl hroot hs hr hen)

theorem rtIdleArm_served (hs : Soon w e c.timer)
    (htimed : Timed w e k.lastbusy (rtIdleArm e k c).dl) (hd : e.dying = false)
    (hp : e.paused = false) (ht : Tidy false k c.dl)
    (hold : c.dl.retryArmed = true → k.owner = none → k.want = .nothing → k.resuming = false →
      Serves e c.timer c.dl.retryDue (decide (c.dl.retryWant = .resume))) :
    Served e (rtIdleArm e k c).timer k (rtIdleArm e k c).dl := by
  have hretry (hr : c.dl.retryArmed = true) (ho : k.owner = none) (hw : k.want = .nothing)
      (hres : k.resuming = false) :
      Serves e c.timer (due e k.lastbusy c.dl)
        (c.dl.retryArmed && decide (c.dl.retryWant = .resume)) := by
    rw [due,if_pos hr,hr]
    exact hold hr ho hw hres
  have hcase := rtIdleArm_cases e k c
  generalize rtIdleArm e k c = c' at hcase htimed ⊢
  intro harmed ho hwant hres
  cases hcase with
  | off h =>
    rcases armed_eq_true.mp harmed with hi | hr
    · exact absurd ⟨(ht.idle hi).1,(ht.idle hi).2,hd⟩ h
    · exact hretry hr ho hwant hres
  | kept h =>
    rcases armed_eq_true.mp harmed with hi | hr
    · rcases h with h | h | h
      · exact hretry h ho hwant hres
      · obtain ⟨o,ho',-⟩ := ht.asleep rfl h hi
        cases ho.symm.trans ho'
      · cases hres.symm.trans h
    · exact hretry hr ho hwant hres
  | armed hl hroot hsus hi hr =>
    have hdue := htimed harmed
    rw [due,if_neg (by simp [hr])] at hdue ⊢
    rw [hr]
    refine rtArm_serves hd hp ?_ hdue
    unfold rtDlCount
    split_ifs <;> exact hs
  | cleared h hi hr => exact absurd harmed (not_armed hi hr)

theorem rtSlotRearm_served (hs : Soon w e c.timer) (htimed : Timed w e k.lastbusy c.dl)
    (hd : e.dying = false) (hp : e.paused = false) :
    Served e (rtSlotRearm e k c).timer k (rtSlotRearm e k c).dl := by
  intro harmed _ _ _
  rw [rtSlotRearm_dl] at harmed ⊢
  have hdue := htimed harmed
  unfold rtSlotRearm
  unfold due at hdue ⊢
  rcases Bool.eq_false_or_eq_true c.dl.retryArmed with hr | hr
  · rw [if_pos hr] at hdue
    rw [if_pos hr,if_pos hr,hr]
    exact rtArm_serves hd hp hs hdue
  · have hi : c.dl.idleArmed = true := (armed_eq_true.mp harmed).resolve_right (by simp [hr])
    rw [if_neg (by simp [hr])] at hdue
    rw [if_neg (by simp [hr]),if_pos hi,if_neg (by simp [hr]),hr]
    exact rtArm_serves hd hp hs hdue

theorem rtRetry_tidy {want : Want} {delay : ℤ} (hw : want ≠ .nothing) (h : Tidy dying k c.dl) :
    Tidy dying k (rtRetry e k want delay c).dl := by
  unfold rtRetry
  split_ifs with hl
  · exact ⟨nofun,fun _ => ⟨hl,hw⟩,nofun⟩
  · exact h

theorem rtDlClear_tidy (c : Cell) : Tidy dying k (rtDlClear c).dl :=
  .off (rtDlClear_off c).1 (rtDlClear_off c).2

theorem rtSuspendOutcome_tidy {x : Susp} (h : Tidy dying k c.dl) :
    Tidy dying k (rtSuspendOutcome e k x gen c).dl := by
  unfold rtSuspendOutcome
  by_cases hl : k.link = .bound
  · rw [if_pos hl]
    cases x with
    | ok => exact rtDlClear_tidy c
    | busy => exact rtIdleArm_tidy h
    | dormant =>
      dsimp only
      split_ifs
      · exact rtIdleArm_tidy h
      · exact .off (rtDlClear_off c).1 (rtDlClear_off c).2
      · exact h
    | failed =>
      dsimp only
      split_ifs
      · exact rtIdleArm_tidy ⟨h.idle,h.retry,h.asleep⟩
      · unfold rtSuspendFailed
        dsimp only
        split_ifs
        · exact ⟨h.idle,h.retry,h.asleep⟩
        · exact rtRetry_tidy (by simp) ⟨h.idle,h.retry,h.asleep⟩
    | none => exact h
  · rw [if_neg hl]
    exact h

theorem rtSuspendOutcome_ok (h : Tidy dying k c.dl) :
    (rtSuspendOutcome e k .ok gen c).dl.idleArmed = false := by
  unfold rtSuspendOutcome
  by_cases hl : k.link = .bound
  · rw [if_pos hl]
    exact (rtDlClear_off c).1
  · rw [if_neg hl]
    exact Bool.eq_false_iff.mpr fun hi => hl (h.idle hi).1

theorem rtReleaseDl_tidy (h : Tidy dying k c.dl) : Tidy dying k (rtReleaseDl e k c).dl := by
  unfold rtReleaseDl
  split_ifs
  · exact rtIdleArm_tidy h
  · rw [rtSlotRearm_dl]
    exact h

theorem Goes.moving (h : Goes e k pc pc') (hroot : k.root = true) (hdying : e.dying = false)
    (hm : pc.moving = true) : pc'.moving = true := by
  cases h with
  | wakeBack hback =>
    rcases hback with hb | hb
    · cases hb.symm.trans hroot
    · cases hdying.symm.trans hb
  | _ => first | rfl | cases hm

theorem Tidy.goto (h : Tidy dying k d) (ho : k.owner = some o) (hl : k'.link = k.link)
    (hroot : k'.root = k.root)
    (hm : dying = false → k'.suspended = true → d.idleArmed = true →
      (k.suspended = true → o.pc.moving = true) → pc.moving = true) :
    Tidy dying (k'.goto o pc) d := by
  refine ⟨fun hi => ?_,fun hr => ?_,fun hd hs hi => ⟨_,rfl,hm hd hs hi fun hs' => ?_⟩⟩
  · obtain ⟨h1,h2⟩ := h.idle hi
    exact ⟨hl.trans h1,hroot.trans h2⟩
  · obtain ⟨h1,h2⟩ := h.retry hr
    exact ⟨hl.trans h1,h2⟩
  · obtain ⟨o',ho',hpc⟩ := h.asleep hd hs' hi
    cases ho.symm.trans ho'
    exact hpc

theorem Tidy.release (h : Tidy dying k d) (ho : k.owner = some o)
    (hpc : o.pc = .release) : Tidy dying (rtRelease e o k) d := by
  refine ⟨h.idle,h.retry,fun hd hs hi => ?_⟩
  obtain ⟨o',ho',hmov⟩ := h.asleep hd hs hi
  cases ho.symm.trans ho'
  rw [hpc] at hmov
  cases hmov

theorem Tidy.advanced (h : Tidy e.dying k c.dl) (ho : k.owner = some o)
    (hadv : Advanced e k c o r) : Tidy e.dying r.1 r.2.dl := by
  cases hadv with
  | goes hgo =>
    exact h.goto ho rfl rfl fun hd hs hi hm => hgo.moving (h.idle hi).2 hd (hm hs)
  | @outcome x gen hpc =>
    refine (rtSuspendOutcome_tidy h).goto ho rfl rfl fun _ hs hi hm => ?_
    have hmov := hm hs
    rw [hpc] at hmov
    cases x with
    | ok => cases (rtSuspendOutcome_ok h).symm.trans hi
    | _ => cases hmov
  | outcomeOff hpc =>
    exact (rtSuspendOutcome_tidy h).goto ho rfl rfl fun _ _ hi _ =>
      (by cases (rtSuspendOutcome_ok h).symm.trans hi)
  | release hpc => exact (rtReleaseDl_tidy h).release ho hpc
  | firstOwed hpc =>
    refine h.goto ho rfl rfl fun _ hs _ hm => ?_
    have hmov := hm hs
    rw [hpc] at hmov
    cases hmov
  | park | parkNext | parked | look | wake | unparked =>
    exact h.goto ho rfl rfl fun _ _ _ _ => rfl
  | asleep | asleepWoken =>
    exact Tidy.goto ⟨h.idle,h.retry,h.asleep⟩ ho rfl rfl fun _ _ _ _ => rfl
  | failed hpc =>
    have hfail : Tidy e.dying k (rtResumeFailed e k c).dl :=
      rtRetry_tidy (by simp) ⟨h.idle,h.retry,h.asleep⟩
    refine hfail.goto ho rfl rfl fun _ _ hi _ => ?_
    have hl := (hfail.idle hi).1
    unfold rtResumeFailed rtRetry at hi
    rw [if_pos hl] at hi
    cases hi
  | woken hpc =>
    have hawake : Tidy e.dying (awake e k) (awakeDl e (awake e k) c).dl := by
      unfold awakeDl
      dsimp only
      refine rtIdleArm_tidy ?_
      split_ifs
      · exact rtDlClear_tidy _
      · exact ⟨h.idle,h.retry,nofun⟩
    have hgoto (pc : Pc) : Tidy e.dying ((awake e k).goto o pc) (awakeDl e (awake e k) c).dl :=
      hawake.goto ho rfl rfl nofun
    exact hgoto _
  | ring hpc =>
    rw [rtRingPending_eq]
    refine h.goto ho rfl rfl fun _ hs _ hm => ?_
    have hmov := hm hs
    rw [hpc] at hmov
    cases hmov

theorem Tidy.take (h : Tidy dying k d) (ho : k.owner = none) (hl : k'.link = k.link)
    (hroot : k'.root = k.root) (hs : k'.suspended = k.suspended) : Tidy dying k' d := by
  refine ⟨?_,?_,fun hd hsus hi => ?_⟩
  · rw [hl,hroot]
    exact h.idle
  · rw [hl]
    exact h.retry
  · obtain ⟨o,ho',-⟩ := h.asleep hd (hs.symm.trans hsus) hi
    cases ho.symm.trans ho'

theorem Core.Posed.goto (hp : k.parkedDrv = true → k.suspended = true)
    (hparking : ∀ gen lastbusy, pc = .parking gen lastbusy → k.suspended = true)
    (hwoken : ∀ a, pc = .woken a → k.parkedDrv = false) : (k.goto o pc).Posed := by
  refine ⟨hp,fun o' gen lastbusy ho' => ?_,fun o' a ho' => ?_⟩
  · cases ho'
    exact hparking gen lastbusy
  · cases ho'
    exact hwoken a

theorem Core.Posed.of_free (ho : k.owner = none) (hp : k.parkedDrv = true → k.suspended = true) :
    k.Posed :=
  ⟨hp,fun _ _ _ ho' => (by cases ho.symm.trans ho'),fun _ _ ho' => (by cases ho.symm.trans ho')⟩

theorem After.pc_cases (a : After) : a.pc = .release ∨ ∃ x gen, a.pc = .outcome x gen := by
  cases a with
  | done => exact .inl rfl
  | outcome x gen => exact .inr ⟨x,gen,rfl⟩

theorem Goes.posed (h : Goes e k pc pc') :
    (∀ gen lastbusy, pc' ≠ .parking gen lastbusy) ∧ (∀ a, pc' = .woken a → k.parkedDrv = false) := by
  cases h with
  | woken hp => exact ⟨by simp,fun _ _ => hp⟩
  | @wakeBack r _ =>
    rcases r.pc_cases with h | ⟨x,gen,h⟩ <;> rw [h] <;> exact ⟨by simp,by simp⟩
  | _ => exact ⟨by simp,by simp⟩

theorem Core.Posed.advanced (h : k.Posed) (ho : k.owner = some o) (hadv : Advanced e k c o r) :
    r.1.Posed := by
  cases hadv with
  | goes hgo =>
    exact .goto h.parked (fun gen lastbusy hpc => absurd hpc (hgo.posed.1 gen lastbusy)) hgo.posed.2
  | outcome | outcomeOff | firstOwed | asleep | asleepWoken | wake | parked =>
    exact .goto h.parked (by simp) (by simp)
  | release => exact .of_free rfl h.parked
  | park => exact .goto (fun _ => rfl) (fun _ _ _ => rfl) (by simp)
  | parkNext hpc => exact .goto (fun _ => h.parking o _ _ ho hpc) (by simp) (by simp)
  | look => exact .goto (fun _ => rfl) (by simp) (by simp)
  | @failed a hpc =>
    rcases a.pc_cases with hr | ⟨x,gen,hr⟩ <;> unfold resumeFails <;> rw [hr] <;>
      exact .goto (fun _ => rfl) (by simp) (by simp)
  | unparked => exact .goto nofun (by simp) (fun _ _ => rfl)
  | woken hpc =>
    have hp := h.woken o _ ho hpc
    exact .goto (fun hp' => (by cases hp.symm.trans hp')) (by simp) (by simp)
  | @ring a hpc =>
    rw [rtRingPending_eq]
    rcases a.pc_cases with hr | ⟨x,gen,hr⟩ <;> rw [hr] <;> exact .goto h.parked (by simp) (by simp)

theorem Advanced.lastbusy (h : Advanced e k c o r) (hk : k.lastbusy ≤ e.now) :
    r.1.lastbusy ≤ e.now := by
  cases h with
  | woken => exact Int.le_refl _
  | ring =>
    rw [rtRingPending_eq]
    exact hk
  | _ => exact hk

theorem Turned.sane (h : Turned s i ev r b p) (hi : Sane s.env (s.core i) (s.cell i).dl) :
    Sane s.env r.1 r.2.dl := by
  obtain ⟨ht,hp,hb⟩ := hi
  cases h with
  | @owner o a ho =>
    have hadv := advance_advanced s.env (s.core i) (s.cell i) o a
    exact ⟨ht.advanced ho hadv,hp.advanced ho hadv,hadv.lastbusy hb⟩
  | task hw =>
    rcases rtTask_cases s.env (s.slots i) with ⟨-,htask⟩ | ⟨⟨-,-,-,hnone⟩,want,htask,-⟩ <;> rw [htask]
    · exact ⟨{ ht with },{ hp with },hb⟩
    · refine ⟨ht.take hnone rfl rfl rfl,⟨hp.parked,fun o _ _ ho => ?_,fun o a ho => ?_⟩,hb⟩ <;>
        obtain rfl := Option.some.inj ho <;> simp
  | wakeForOpen hl _ ho hsus =>
    exact ⟨ht.take ho rfl rfl rfl,⟨hp.parked,fun _ _ _ _ _ => hsus,fun o a ho => by
      obtain rfl := Option.some.inj ho; simp⟩,hb⟩
  | pipeOpened d own hd hnew hl hk | pipeClosed d own hd hrung hheld hl hk =>
    subst hk
    exact ⟨rtIdleArm_tidy ({ ht with }),{ hp with },Int.le_refl _⟩
  | complete => exact ⟨{ ht with },{ hp with },Int.le_refl _⟩
  | doorbell | restart =>
    rw [rtDoorbell_eq]
    exact ⟨{ ht with },{ hp with },hb⟩
  | kick | failKick | unparkKick =>
    obtain heq | ⟨-,want,queued,heq⟩ := rtKick_nudged s.env .resume (s.core i) <;> rw [heq] <;>
      exact ⟨{ ht with },{ hp with },hb⟩
  | stir resumes hbus hc =>
    subst hc
    refine ⟨?_,hp,hb⟩
    dsimp only
    split_ifs
    · exact rtIdleArm_tidy ({ ht with })
    · exact { ht with }
  | bind =>
    exact ⟨.off (rtDlClear_off _).1 (rtDlClear_off _).2,.of_free rfl nofun,Int.le_refl _⟩
  | unbound hl hq hw ho =>
    exact ⟨.off (rtDlClear_off _).1 (rtDlClear_off _).2,.of_free ho nofun,hb⟩
  | bound hl hk =>
    subst hk
    refine ⟨rtIdleArm_tidy (.off ?_ ?_),{ hp with },hb⟩
    · exact Bool.eq_false_iff.mpr fun h => by cases hl.symm.trans (ht.idle h).1
    · exact Bool.eq_false_iff.mpr fun h => by cases hl.symm.trans (ht.retry h).1
  | unbind => exact ⟨rtDlClear_tidy _,{ hp with },hb⟩
  | ring hpm =>
    rw [rtRingPending_eq]
    exact ⟨{ ht with },{ hp with },hb⟩
  | _ => exact ⟨{ ht with },{ hp with },hb⟩

theorem rtReleaseDl_covered (hd : e.dying = false) :
    Covered e (rtRelease e o k) (rtReleaseDl e k c).dl := by
  unfold rtReleaseDl
  split_ifs with hnone
  · exact rtIdleArm_covered (k := rtRelease e o k) hd
  · rw [rtSlotRearm_dl]
    intro hl hroot hs hr hdormant hen
    have hl' : k.link = .bound := hl
    have hs' : k.suspended = false := hs
    have hr' : k.resuming = false := hr
    cases harmed : c.dl.armed with
    | true => exact .inl rfl
    | false =>
      have hw : k.want ≠ .nothing := fun hw => hnone ⟨by simp [harmed],by simp [hdormant],hw,
        by simp [hs'],by simp [hr']⟩
      refine .inr (.inr ⟨hw,?_⟩)
      cases hp : e.paused with
      | true => exact .inr (.inr rfl)
      | false => exact .inl (by simp [rtRelease,hw,hl',hp,hd])

theorem rtReleaseDl_served (hs : Soon w e c.timer)
    (htimed : Timed w e k.lastbusy (rtReleaseDl e k c).dl) (hd : e.dying = false)
    (hp : e.paused = false) (ht : Tidy false (rtRelease e o k) c.dl) :
    Served e (rtReleaseDl e k c).timer (rtRelease e o k) (rtReleaseDl e k c).dl := by
  unfold rtReleaseDl at htimed ⊢
  split_ifs at htimed ⊢ with hnone
  · refine rtIdleArm_served (k := rtRelease e o k) hs htimed hd hp ht fun hr => ?_
    have harmed := armed_eq_true.mpr (.inr hr)
    simp [harmed] at hnone
  · rw [rtSlotRearm_dl] at htimed
    exact rtSlotRearm_served (k := rtRelease e o k) hs htimed hd hp

theorem Advanced.covered (h : Advanced e k c o r) (hd : e.dying = false) :
    Covered e r.1 r.2.dl := by
  cases h with
  | release => exact rtReleaseDl_covered hd
  | _ => exact fun _ _ _ _ _ _ => .inr (.inl rfl)

theorem Advanced.served (h : Advanced e k c o r) (hs : Soon w e c.timer)
    (htimed : Timed w e r.1.lastbusy r.2.dl) (ho : k.owner = some o) (ht : Tidy e.dying k c.dl)
    (hd : e.dying = false) (hp : e.paused = false) :
    Served e r.2.timer r.1 r.2.dl := by
  cases h with
  | release hpc => exact rtReleaseDl_served hs htimed hd hp ((hd ▸ ht).release ho hpc)
  | _ => exact nofun

theorem Covered.same (h : Covered e k d) (hl : k'.link = k.link) (hroot : k'.root = k.root)
    (hs : k'.suspended = k.suspended) (hr : k'.resuming = false → k.resuming = false)
    (ho : k.owner.isSome = true → k'.owner.isSome = true) (hdorm : d'.dormant = d.dormant)
    (harmed : d'.armed = d.armed)
    (hw : k.want ≠ .nothing → (k.queued = true ∨ k.worker = .popped ∨ e.paused = true) →
      k'.owner.isSome = true ∨
        k'.want ≠ .nothing ∧ (k'.queued = true ∨ k'.worker = .popped ∨ e.paused = true)) :
    Covered e k' d' := by
  intro h1 h2 h3 h4 h5 h6
  rw [harmed]
  rcases h (hl.symm.trans h1) (hroot.symm.trans h2) (hs.symm.trans h3) (hr h4)
    (hdorm.symm.trans h5) h6 with h7 | h7 | ⟨h7,h8⟩
  · exact .inl h7
  · exact .inr (.inl (ho h7))
  · exact .inr (hw h7 h8)

theorem Served.mono (h : Served e t k d) (ho : k'.owner = none → k.owner = none)
    (hw : k'.want = .nothing → k.want = .nothing) (hr : k'.resuming = false → k.resuming = false)
    (hbusy : k.lastbusy ≤ k'.lastbusy) : Served e t k' d := by
  intro h1 h2 h3 h4
  refine (h h1 (ho h2) (hw h3) (hr h4)).later ?_ (Int.le_refl _)
  unfold due
  split_ifs <;> omega

theorem Served.retry (h : Served e t k d) (hr : d.retryArmed = true) (ho : k.owner = none)
    (hw : k.want = .nothing) (hres : k.resuming = false) :
    Serves e t d.retryDue (decide (d.retryWant = .resume)) := by
  have hserves := h (armed_eq_true.mpr (.inr hr)) ho hw hres
  rw [due,if_pos hr,hr] at hserves
  exact hserves

theorem rtKick_want (h : (rtKick e .resume k).want = .nothing) : rtKick e .resume k = k := by
  unfold rtKick at h ⊢
  split_ifs at h ⊢ with hgo
  · exact absurd h (by cases k.want <;> simp [Want.max])
  · rfl

theorem rtKick_covered (h : Covered e k d) : Covered e (rtKick e .resume k) d := by
  unfold rtKick
  split_ifs with hgo
  · refine fun _ _ _ _ _ _ => .inr (.inr ⟨?_,.inl rfl⟩)
    cases k.want <;> simp [Want.max]
  · exact h

theorem rtKick_served (h : Served e t k d) : Served e t (rtKick e .resume k) d := by
  intro h1 h2 h3 h4
  have heq := rtKick_want h3
  rw [heq] at h2 h3 h4 ⊢
  exact h h1 h2 h3 h4

theorem rtDoorbell_resuming (h : (rtDoorbell e dci k).resuming = false) : k.resuming = false := by
  unfold rtDoorbell at h
  split_ifs at h
  · exact (Bool.or_eq_false_iff.mp h).1
  · exact h

theorem rtDoorbell_covered (h : Covered e k d) : Covered e (rtDoorbell e dci k) d := by
  have hres (hr : (rtDoorbell e dci k).resuming = false) : k.resuming = false :=
    rtDoorbell_resuming hr
  rw [rtDoorbell_eq]
  exact h.same rfl rfl rfl hres id rfl rfl fun hw hq => .inr ⟨hw,hq⟩

theorem rtDoorbell_served (h : Served e t k d) : Served e t (rtDoorbell e dci k) d := by
  have hres (hr : (rtDoorbell e dci k).resuming = false) : k.resuming = false :=
    rtDoorbell_resuming hr
  rw [rtDoorbell_eq]
  exact h.mono id id hres (Int.le_refl _)

theorem Turned.covered (h : Turned s i ev r b p) (hd : s.env.dying = false)
    (hi : Covered s.env (s.core i) (s.cell i).dl) : Covered s.env r.1 r.2.dl := by
  cases h with
  | owner a ho => exact (advance_advanced _ _ _ _ a).covered hd
  | pop hq hw =>
    exact hi.same rfl rfl rfl id id rfl rfl fun hw _ => .inr ⟨hw,.inr (.inl rfl)⟩
  | task hw =>
    rcases rtTask_cases s.env (s.slots i) with ⟨hskip,htask⟩ | ⟨-,want,htask,-⟩ <;> rw [htask]
    · intro hl
      refine hi.same rfl rfl rfl id id rfl rfl (fun hw _ => ?_) hl
      have hl' : (s.slots i).link = .bound := hl
      rcases hskip with hskip | hskip | hskip | hskip
      · exact absurd hl' hskip
      · exact .inr ⟨hw,.inr (.inr hskip)⟩
      · cases hd.symm.trans hskip
      · exact .inl hskip
    · exact fun _ _ _ _ _ _ => .inr (.inl rfl)
  | wakeForOpen => exact fun _ _ _ _ _ _ => .inr (.inl rfl)
  | pipeOpened | pipeClosed | bound => exact rtIdleArm_covered hd
  | doorbell | restart => exact rtDoorbell_covered hi
  | kick | failKick | unparkKick => exact rtKick_covered hi
  | stir resumes hbus hc =>
    subst hc
    dsimp only
    split_ifs
    · exact rtIdleArm_covered hd
    · exact hi
  | wake => exact fun _ _ _ h => (by cases h)
  | bind | unbind | unbound => exact nofun
  | ring hpm =>
    rw [rtRingPending_eq]
    exact hi
  | _ => exact hi

theorem Turned.served (h : Turned s i ev r b p) (hs : Soon w s.env s.timer)
    (htimed : Timed w s.env r.1.lastbusy r.2.dl) (hd : s.env.dying = false)
    (hp : s.env.paused = false) (hsane : Sane s.env (s.core i) (s.cell i).dl)
    (hi : Served s.env s.timer (s.core i) (s.cell i).dl) : Served s.env r.2.timer r.1 r.2.dl := by
  have ht' := hd ▸ hsane.tidy
  cases h with
  | owner a ho => exact (advance_advanced _ _ _ _ a).served hs htimed ho hsane.tidy hd hp
  | task hwork =>
    rcases rtTask_cases s.env (s.slots i) with ⟨-,htask⟩ | ⟨-,want,htask,-⟩ <;> rw [htask]
    · exact hi
    · exact nofun
  | wakeForOpen => exact nofun
  | pipeOpened d own hd' hnew hl hk | pipeClosed d own hd' hrung hheld hl hk =>
    subst hk
    exact rtIdleArm_served hs htimed hd hp ({ ht' with }) hi.retry
  | bound hl hk =>
    subst hk
    refine rtIdleArm_served hs htimed hd hp (.off ?_ ?_) fun hr => ?_
    · exact Bool.eq_false_iff.mpr fun h => by cases hl.symm.trans (ht'.idle h).1
    · exact Bool.eq_false_iff.mpr fun h => by cases hl.symm.trans (ht'.retry h).1
    · cases hl.symm.trans (ht'.retry hr).1
  | doorbell | restart => exact rtDoorbell_served hi
  | complete => exact hi.mono id id id hsane.used
  | kick | failKick | unparkKick => exact rtKick_served hi
  | stir resumes hbus hc =>
    subst hc
    dsimp only at htimed ⊢
    split_ifs at htimed ⊢
    · exact rtIdleArm_served hs htimed hd hp ({ ht' with }) hi.retry
    · exact hi
  | wake => exact fun _ _ _ h => (by cases h)
  | bind | unbound | unbind =>
    exact fun h => absurd h (not_armed (rtDlClear_off _).1 (rtDlClear_off _).2)
  | ring hpm =>
    rw [rtRingPending_eq]
    exact hi
  | _ => exact hi

end NanoBSD.Xhci
