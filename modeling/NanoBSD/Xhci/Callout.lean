import NanoBSD.Lib.Tally
import NanoBSD.Xhci.Deadline

/-! # Deadlines and the callout

The deadlines of all slots together: their count, the reconcile that arms what is missing,
and the callout, which counts again what it leaves armed.

Between the store of a setting, or the end of a pause, and the reconcile that follows,
deadlines may be missing and the callout late.
-/
namespace NanoBSD.Xhci
open Function List
variable {n : ℕ}

/-! ## All slots -/

def Counted (t : Timer) (f : Fin n → Slot) : Prop :=
  Tally (fun i => (f i).toDeadline) (fun d => d.armed = true) t.ndeadlines

section Counted
variable {e : Env} {t : Timer} {f : Fin n → Slot} {c : Cell} {i j : Fin n} {b : ℤ}

theorem Counted.fits (h : Counted t f) (i : Fin n) : Cell.Fits ⟨t,(f i).toDeadline⟩ :=
  fun ha => Nat.pos_of_ne_zero (h.not_zero (x := i) ha)

theorem Counted.others (h : Counted t f) (hne : j ≠ i) (hj : (f j).armed = true) :
    Cell.others ⟨t,(f i).toDeadline⟩ ≠ 0 := by
  unfold Cell.others
  dsimp only
  split_ifs with hi
  · have hquit := h.quit (x := i) (v := (rtDlClear ⟨t,(f i).toDeadline⟩).dl)
      (not_armed (rtDlClear_off _).1 (rtDlClear_off _).2) hi
    refine hquit.not_zero (x := j) ?_
    rw [update_of_ne hne]
    exact hj
  · exact h.not_zero (x := j) hj

theorem Counted.recount (h : Counted t f) (hre : Retimed e b ⟨t,(f i).toDeadline⟩ c) (k : Core) :
    Counted c.timer (update f i ⟨k,c.dl⟩) := by
  have heq : (fun j => (update f i ⟨k,c.dl⟩ j).toDeadline) =
      update (fun j => (f j).toDeadline) i c.dl := comp_update Slot.toDeadline f i _
  unfold Counted
  rw [heq]
  have hfits := h.fits i
  have hothers := hre.recount.2 hfits
  have hfits' := hre.recount.1 hfits
  unfold Cell.Fits at hfits hfits'
  unfold Cell.others at hothers
  dsimp only at hothers hfits
  cases hold : (f i).armed <;> cases hnew : c.dl.armed <;>
    simp only [hold,hnew,Bool.false_eq_true,if_true,if_false] at hothers hfits hfits'
  · have hn : c.timer.ndeadlines = t.ndeadlines := by omega
    rw [hn]
    exact h.keep (by simp [hold,hnew])
  · have hpos := hfits' trivial
    have hn : c.timer.ndeadlines = t.ndeadlines + 1 := by omega
    rw [hn]
    exact h.join hnew (by simp [hold])
  · have hpos := hfits trivial
    have hn : c.timer.ndeadlines = t.ndeadlines - 1 := by omega
    rw [hn]
    exact h.quit (by simp [hnew]) hold
  · have hpos := hfits trivial
    have hpos' := hfits' trivial
    have hn : c.timer.ndeadlines = t.ndeadlines := by omega
    rw [hn]
    exact h.keep (by simp [hold,hnew])

theorem Counted.served {w : ℤ} (h : Counted t f) (hre : Retimed e b ⟨t,(f i).toDeadline⟩ c)
    (hs : Soon w e t) (ht : Timed w e b c.dl) (hne : j ≠ i)
    (hj : Served e t (f j).toCore (f j).toDeadline) :
    Served e c.timer (f j).toCore (f j).toDeadline :=
  fun ha ho hwant hr =>
    hre.serves hs ht (h.fits i) (h.others hne ha) (hj ha ho hwant hr)

end Counted

/-! ## Reconcile -/
section Reconcile
variable {e : Env} {flags : Flags} {k : Core} {c : Cell} {d : Deadline} {dying : Bool} {w : ℤ}
  {l : List (Fin n)} {t : Timer} {f : Fin n → Slot}

theorem resetDl_tidy (h : Tidy dying k c.dl) : Tidy dying k (resetDl k c).dl := by
  unfold resetDl
  dsimp only
  split_ifs
  · exact rtDlClear_tidy _
  · exact ⟨h.idle,h.retry,h.asleep⟩

theorem reconcileDl_tidy (h : Tidy dying k c.dl) : Tidy dying k (reconcileDl e flags k c).dl := by
  unfold reconcileDl
  by_cases hl : k.link = .bound
  · rw [if_pos hl]
    dsimp only
    have hnew : Tidy dying k { c.dl with gen := c.dl.gen + 1 } := ⟨h.idle,h.retry,h.asleep⟩
    split_ifs <;> first | rw [rtSlotRearm_dl] | apply rtIdleArm_tidy
    all_goals first | exact resetDl_tidy hnew | exact hnew
  · rw [if_neg hl]
    exact rtDlClear_tidy c

theorem reconcileDl_covered (hd : e.dying = false) : Covered e k (reconcileDl e flags k c).dl := by
  unfold reconcileDl
  by_cases hl : k.link = .bound
  · rw [if_pos hl]
    dsimp only
    intro _ hroot hs hr hdorm hen
    split_ifs at hdorm ⊢ with hreset hretry hretry
    · rw [rtSlotRearm_dl]
      exact .inl (armed_eq_true.mpr (.inr hretry))
    · exact .inl (rtIdleArm_armed hd hl hroot hs hr hen)
    · rw [rtSlotRearm_dl]
      exact .inl (armed_eq_true.mpr (.inr hretry))
    · exact .inl (rtIdleArm_armed hd hl hroot hs hr hen)
  · exact fun h => absurd h hl

theorem reconcileDl_served (hs : Soon w e c.timer)
    (htimed : Timed w e k.lastbusy (reconcileDl e flags k c).dl) (hd : e.dying = false)
    (hp : e.paused = false) (h : Tidy false k c.dl) :
    Served e (reconcileDl e flags k c).timer k (reconcileDl e flags k c).dl := by
  unfold reconcileDl at htimed ⊢
  by_cases hl : k.link = .bound
  · rw [if_pos hl] at htimed ⊢
    dsimp only at htimed ⊢
    have hnew : Tidy false k { c.dl with gen := c.dl.gen + 1 } := ⟨h.idle,h.retry,h.asleep⟩
    have hreset : Soon w e (resetDl k { c with dl := { c.dl with gen := c.dl.gen + 1 } }).timer :=
      (resetDl_recounted _).soon hs
    split_ifs at htimed ⊢ with hoff hretry hretry
    · rw [rtSlotRearm_dl] at htimed
      exact rtSlotRearm_served hreset htimed hd hp
    · exact rtIdleArm_served hreset htimed hd hp (resetDl_tidy hnew) fun hr => absurd hr hretry
    · rw [rtSlotRearm_dl] at htimed
      exact rtSlotRearm_served hs htimed hd hp
    · exact rtIdleArm_served hs htimed hd hp hnew fun hr => absurd hr hretry
  · rw [if_neg hl]
    exact fun h => absurd h (not_armed (rtDlClear_off _).1 (rtDlClear_off _).2)

theorem reconcileDl_core : reconcileDl e flags (reconcileCore flags k) c = reconcileDl e flags k c := by
  obtain heq | ⟨-,want,queued,heq⟩ := reconcileCore_nudged flags k <;> rw [heq]
  rfl

theorem reconcileCore_tidy (flags : Flags) (h : Tidy dying k d) :
    Tidy dying (reconcileCore flags k) d := by
  obtain heq | ⟨-,want,queued,heq⟩ := reconcileCore_nudged flags k <;> rw [heq]
  · exact h
  · exact { h with }

theorem reconcileLoop_counted (flags : Flags) (hcount : Counted t f) :
    Counted (reconcileLoop e flags l t f).1 (reconcileLoop e flags l t f).2 := by
  induction l generalizing t f with
  | nil => exact hcount
  | cons j l ih => exact ih (hcount.recount reconcileDl_retimed _)

theorem reconcileLoop_served (flags : Flags) (hd : e.dying = false) (hp : e.paused = false)
    (hl : l.Nodup) (done : Fin n → Prop) (hs : Soon w e t)
    (htimed : ∀ i, Timed w e ((reconcileLoop e flags l t f).2 i).lastbusy
      ((reconcileLoop e flags l t f).2 i).toDeadline) (hcount : Counted t f)
    (htidy : ∀ i, Tidy false (f i).toCore (f i).toDeadline)
    (hserved : ∀ i, done i → Served e t (f i).toCore (f i).toDeadline) (i : Fin n)
    (hi : done i ∨ i ∈ l) : Served e (reconcileLoop e flags l t f).1
      ((reconcileLoop e flags l t f).2 i).toCore ((reconcileLoop e flags l t f).2 i).toDeadline := by
  induction l generalizing t f done with
  | nil => exact hserved i (hi.resolve_right not_mem_nil)
  | cons j l ih =>
    obtain ⟨hj,hl⟩ := nodup_cons.mp hl
    -- the slot `j` after its turn
    let c := reconcileDl e flags (f j).toCore ⟨t,(f j).toDeadline⟩
    have hslot : (reconcileLoop e flags (j :: l) t f).2 j =
        ⟨reconcileCore flags (f j).toCore,c.dl⟩ :=
      (reconcileLoop_of_notMem e flags _ hj).trans (update_self _ _ _)
    have hcore := reconcileCore_tidy flags (htidy j)
    have hc : reconcileDl e flags (reconcileCore flags (f j).toCore) ⟨t,(f j).toDeadline⟩ = c :=
      reconcileDl_core
    have hre : Retimed e (reconcileCore flags (f j).toCore).lastbusy ⟨t,(f j).toDeadline⟩ c :=
      hc ▸ reconcileDl_retimed
    have hnear : Timed w e (reconcileCore flags (f j).toCore).lastbusy c.dl := by
      have hj := htimed j
      rwa [hslot] at hj
    have hself : Served e c.timer (reconcileCore flags (f j).toCore) c.dl :=
      hc ▸ reconcileDl_served hs (hc.symm ▸ hnear) hd hp hcore
    have htidy' : Tidy false (reconcileCore flags (f j).toCore) c.dl := hc ▸ reconcileDl_tidy hcore
    refine ih (t := c.timer) (f := update f j ⟨reconcileCore flags (f j).toCore,c.dl⟩)
      hl (fun i => done i ∨ i = j) (hre.soon hs hnear) htimed (hcount.recount hre _)
      (fun i => ?_) (fun i hi => ?_) (hi.elim (fun hi => .inl (.inl hi))
        fun hi => (mem_cons.mp hi).imp_left .inr)
    · rcases eq_or_ne i j with rfl | hne
      · rw [update_self]
        exact htidy'
      · rw [update_of_ne hne]
        exact htidy i
    · rcases eq_or_ne i j with rfl | hne
      · rw [update_self]
        exact hself
      · rw [update_of_ne hne]
        exact hcount.served hre hs hnear hne (hserved i (hi.resolve_right hne))

end Reconcile

/-! ## The callout -/
section Callout
variable {e : Env} {a : Scan} {x y : Slot} {want : Want} {at' w : ℤ} {l : List (Fin n)}
  {f : Fin n → Slot}

def Recorded (e : Env) (a : Scan) (x : Slot) : Prop :=
  x.armed = true → x.owner = none → x.want = .nothing → x.resuming = false →
    (∃ next, a.next = some next ∧ next ≤ due e x.lastbusy x.toDeadline) ∧
    (x.retryArmed = true → x.retryWant = .resume → a.hard = true)

theorem clear_armed : (a.clear x).1.armed = false := by
  have hoff := rtDlClear_off ⟨a.timer,x.toDeadline⟩
  change (rtDlClear ⟨a.timer,x.toDeadline⟩).dl.armed = false
  rw [Deadline.armed,hoff.1,hoff.2]
  rfl

theorem serve_n (harmed : x.armed = true) :
    (a.serve e x at' want).2.n = a.n + if (a.serve e x at' want).1.armed then 1 else 0 := by
  unfold Scan.serve
  by_cases hdue : 0 ≤ tdiff e.now at'
  · simp only [if_pos hdue]
    have hclear : (a.clear x).1.armed = false := clear_armed
    change a.n = a.n + if (a.clear x).1.armed then 1 else 0
    rw [hclear]
    rfl
  · simp only [if_neg hdue,harmed,if_true]

theorem visit_n : (a.visit e x).2.n = a.n + if (a.visit e x).1.armed then 1 else 0 := by
  have hclear : (a.clear x).2.n = a.n + if (a.clear x).1.armed then 1 else 0 := by
    rw [clear_armed]
    rfl
  have hserve (due : ℤ) (want : Want) (harmed : ¬(!x.armed) = true) :=
    @serve_n e a x want due (by simpa using harmed)
  generalize hr : a.visit e x = r
  unfold Scan.visit at hr
  split_ifs at hr with harmed hout hbusy hretry hoff <;> subst hr
  · simp at harmed
    simp [harmed]
  · exact hclear
  · simp at harmed
    simp [harmed]
  · exact hserve _ _ harmed
  · exact hclear
  · exact hserve _ _ harmed

theorem recorded_of_off (h : x.armed = false) : Recorded e a x :=
  fun ha => (by cases h.symm.trans ha)

theorem earlier_spec (hnext : ∀ t ∈ a.next, e.Near w t) (hnear : e.Near w at') :
    let y := a.next.elim at' fun t => if tdiff at' t < 0 then at' else t
    e.Near w y ∧ y ≤ at' ∧ ∀ t ∈ a.next, y ≤ t := by
  cases hn : a.next with
  | none => exact ⟨hnear,Int.le_refl _,nofun⟩
  | some t =>
    have ht := hnext t hn
    simp only [Option.elim_some,Option.mem_some_iff,forall_eq',hnear.tdiff ht]
    split_ifs with hlt
    · exact ⟨hnear,Int.le_refl _,by omega⟩
    · exact ⟨ht,by omega,Int.le_refl _⟩

structure Noted (w : ℤ) (e : Env) (a a' : Scan) : Prop where
  near : ∀ t ∈ a'.next, e.Near w t
  later : ∀ t, a.next = some t → ∃ t', a'.next = some t' ∧ t' ≤ t
  hard : a.hard = true → a'.hard = true

theorem Noted.refl {timer : Timer} {m : ℕ} (hnext : ∀ t ∈ a.next, e.Near w t) :
    Noted w e a { a with timer := timer, n := m } :=
  ⟨hnext,fun t ht => ⟨t,ht,Int.le_refl _⟩,id⟩

theorem serve_noted (hnext : ∀ t ∈ a.next, e.Near w t) (hnear : e.Near w at')
    (hdue : due e x.lastbusy x.toDeadline = at') (hw : x.retryArmed = true → want = x.retryWant) :
    Recorded e (a.serve e x at' want).2 (a.serve e x at' want).1 ∧
      Noted w e a (a.serve e x at' want).2 := by
  obtain ⟨hy,hle,hall⟩ := earlier_spec hnext hnear
  unfold Scan.serve
  split_ifs with hnow
  · exact ⟨recorded_of_off (clear_armed (a := a) (x := x)),.refl hnext⟩
  · refine ⟨fun _ _ _ _ => ⟨⟨_,rfl,?_⟩,fun hr hres => ?_⟩,?_,fun t ht => ⟨_,rfl,hall t ht⟩,
      fun hh => by simp [hh]⟩
    · rw [hdue]
      exact hle
    · have hr' : x.retryArmed = true := hr
      have hres' : x.retryWant = .resume := hres
      simp [hr',hw hr',hres']
    · rintro t ⟨⟩
      exact hy

theorem visit_noted (hnext : ∀ t ∈ a.next, e.Near w t)
    (htimed : Timed w e x.lastbusy x.toDeadline) :
    Recorded e (a.visit e x).2 (a.visit e x).1 ∧ Noted w e a (a.visit e x).2 := by
  have hserve {y : ℤ} {want : Want} (harmed : ¬(!x.armed) = true)
      (hy : due e x.lastbusy x.toDeadline = y) (hwant : x.retryArmed = true → want = x.retryWant) :=
    serve_noted hnext (hy ▸ htimed (by simpa using harmed)) hy hwant
  unfold Scan.visit
  split_ifs with harmed hout hbusy hretry hoff
  · exact ⟨recorded_of_off (by simpa using harmed),.refl hnext⟩
  · exact ⟨recorded_of_off clear_armed,.refl hnext⟩
  · refine ⟨fun _ ho hw hr => ?_,.refl hnext⟩
    have ho' : x.owner = none := ho
    have hw' : x.want = .nothing := hw
    have hr' : x.resuming = false := hr
    simp [ho',hw',hr'] at hbusy
  · exact hserve harmed (if_pos hretry) fun _ => rfl
  · exact ⟨recorded_of_off clear_armed,.refl hnext⟩
  · exact hserve harmed (if_neg hretry) fun hr => absurd hr hretry

theorem visit_kept_or_cleared : (a.visit e x).1 = x ∨
    (a.visit e x).1.toDeadline = (rtDlClear ⟨a.timer,x.toDeadline⟩).dl := by
  have hserve (due : ℤ) (want : Want) : (a.serve e x due want).1 = x ∨
      (a.serve e x due want).1.toDeadline = (rtDlClear ⟨a.timer,x.toDeadline⟩).dl := by
    unfold Scan.serve
    split
    · exact .inr rfl
    · exact .inl rfl
  unfold Scan.visit
  split_ifs
  · exact .inl rfl
  · exact .inr rfl
  · exact .inl rfl
  · exact hserve _ _
  · exact .inr rfl
  · exact hserve _ _

theorem visit_timed (h : Timed w e x.lastbusy x.toDeadline) :
    Timed w e (a.visit e x).1.lastbusy (a.visit e x).1.toDeadline := by
  rcases visit_kept_or_cleared (a := a) (e := e) (x := x) with hkept | hcleared
  · rw [hkept]
    exact h
  · rw [hcleared]
    exact fun harmed => (by cases clear_armed.symm.trans harmed)

theorem Recorded.noted {a' : Scan} (h : Recorded e a y) (hn : Noted w e a a') :
    Recorded e a' y := by
  intro h1 h2 h3 h4
  obtain ⟨⟨next,hnext,hle⟩,hhard⟩ := h h1 h2 h3 h4
  obtain ⟨next',hnext',hle'⟩ := hn.later next hnext
  exact ⟨⟨next',hnext',Int.le_trans hle' hle⟩,fun hr hw => hn.hard (hhard hr hw)⟩

theorem scanLoop_recorded (done : Fin n → Prop) (hnext : ∀ t ∈ a.next, e.Near w t)
    (htimed : ∀ i, Timed w e (f i).lastbusy (f i).toDeadline)
    (hdone : ∀ i, done i → Recorded e a (f i)) (i : Fin n) (hi : done i ∨ i ∈ l) :
    Recorded e (scanLoop e l f a).2 ((scanLoop e l f a).1 i) ∧
      ∀ t ∈ (scanLoop e l f a).2.next, e.Near w t := by
  induction l generalizing f a done with
  | nil => exact ⟨hdone i (hi.resolve_right not_mem_nil),hnext⟩
  | cons j l ih =>
    obtain ⟨hself,hnoted⟩ := visit_noted hnext (htimed j)
    refine ih (fun i => done i ∨ i = j) hnoted.near (fun i => ?_) (fun i hi => ?_) ?_
    · rcases eq_or_ne i j with rfl | hne
      · rw [update_self]
        exact visit_timed (htimed i)
      · rw [update_of_ne hne]
        exact htimed i
    · rcases eq_or_ne i j with rfl | hne
      · rw [update_self]
        exact hself
      · rw [update_of_ne hne]
        exact (hdone i (hi.resolve_right hne)).noted hnoted
    · rcases hi with hi | hi
      · exact .inl (.inl hi)
      · exact (mem_cons.mp hi).imp_left .inr

theorem scanLoop_n (hl : l.Nodup) :
    (scanLoop e l f a).2.n = a.n + l.countP fun i => ((scanLoop e l f a).1 i).armed := by
  induction l generalizing f a with
  | nil => rfl
  | cons j l ih =>
    obtain ⟨hj,hl⟩ := nodup_cons.mp hl
    have hhead : (scanLoop e (j :: l) f a).1 j = (a.visit e (f j)).1 :=
      (scanLoop_of_notMem e _ hj).trans (update_self _ _ _)
    rw [countP_cons,hhead]
    have hrest := ih (a := (a.visit e (f j)).2) (f := update f j (a.visit e (f j)).1) hl
    rw [visit_n] at hrest
    change (scanLoop e l (update f j (a.visit e (f j)).1) (a.visit e (f j)).2).2.n = _
    rw [hrest]
    change _ = a.n + (l.countP (fun i => ((scanLoop e l (update f j
      (a.visit e (f j)).1) (a.visit e (f j)).2).1 i).armed) + _)
    omega

theorem visit_covered (h : Covered e x.toCore x.toDeadline)
    (ht : Tidy false x.toCore x.toDeadline) :
    Covered e (a.visit e x).1.toCore (a.visit e x).1.toDeadline := by
  -- a deadline that is due becomes a request
  have hserve (due : ℤ) (want : Want) (hnone : x.want = .nothing) (hw : want ≠ .nothing) :
      Covered e (a.serve e x due want).1.toCore (a.serve e x due want).1.toDeadline := by
    unfold Scan.serve
    split_ifs
    · refine fun _ _ _ _ _ _ => .inr (.inr ⟨?_,.inl rfl⟩)
      change x.want.max want ≠ .nothing
      rw [hnone]
      exact hw
    · exact h
  unfold Scan.visit
  split_ifs with harmed hout hbusy hretry hoff
  · exact h
  · intro hl hroot
    have hl' : x.link = .bound := hl
    have hroot' : x.root = true := hroot
    simp [hl',hroot'] at hout
  · exact h
  · exact hserve _ _ (by simpa using (not_or.mp (not_or.mp hbusy).2).1) (ht.retry hretry).2
  · intro _ _ hs _ _ hen
    have hs' : x.suspended = false := hs
    simp [hs',hen] at hoff
  · exact hserve _ _ (by simpa using (not_or.mp (not_or.mp hbusy).2).1) (by simp)

theorem visit_tidy {dying : Bool} (h : Tidy dying x.toCore x.toDeadline) :
    Tidy dying (a.visit e x).1.toCore (a.visit e x).1.toDeadline := by
  rcases visit_kept_or_cleared (a := a) (e := e) (x := x) with hkept | hcleared
  · rw [hkept]
    exact h
  · rw [hcleared]
    exact rtDlClear_tidy _

theorem Recorded.served (h : Recorded e a x) (hnear : ∀ t ∈ a.next, e.Near w t) :
    Served e (a.timerAfter e) x.toCore x.toDeadline := by
  intro h1 h2 h3 h4
  obtain ⟨⟨next,hnext,hle⟩,hhard⟩ := h h1 h2 h3 h4
  unfold Scan.timerAfter
  rw [hnext]
  refine rtSchedule_serves (hnear next hnext) (by omega) fun hh => ?_
  simp only [Bool.and_eq_true,decide_eq_true_eq] at hh
  exact hhard hh.1 hh.2

theorem timerAfter_ndeadlines : (a.timerAfter e).ndeadlines = a.n := by
  unfold Scan.timerAfter
  split <;> rfl

end Callout

/-! ## Whole runs -/

def Pm.resumes : Pm n → Bool
  | .ringing _ | .rung => true
  | _ => false

/-- Every armed deadline is near, and so is the time that the callout is armed for. -/
def Timely (w : ℤ) (s : State n) : Prop :=
  Soon w s.env s.timer ∧ ∀ i, Timed w s.env (s.core i).lastbusy (s.slots i).toDeadline

instance (w : ℤ) (s : State n) : Decidable (Timely w s) :=
  inferInstanceAs (Decidable ((_ → (_ ∧ _) ∧ _ ∧ _) ∧ ∀ _, _ → (_ ∧ _) ∧ _ ∧ _))

/-- The deadlines are counted and, unless a reconcile is owed, no slot goes without. If `P` holds,
the callout serves them. -/
structure Watched (P : Prop) (s : State n) : Prop where
  regime : Regime s
  count : Counted s.timer s.slots
  sane : ∀ i, Sane s.env (s.core i) (s.slots i).toDeadline
  owed : s.pm.resumes = true → s.owed = true
  covered : s.env.dying = false → s.owed = false →
    ∀ i, Covered s.env (s.core i) (s.slots i).toDeadline
  served : P → s.env.dying = false → s.env.paused = false → s.owed = false →
    ∀ i, Served s.env s.timer (s.core i) (s.slots i).toDeadline

section Watched
variable {s t : State n} {ev : Event n} {i : Fin n} {r : Core × Cell} {b : Bus n} {p : Pm n}
  {k k' : Core} {e : Env} {P : Prop} {w : ℤ}

theorem Turned.resumes (h : Turned s i ev r b p) : p.resumes = s.pm.resumes := by
  cases h with
  | failKick hpm | unparkKick hpm | ring hpm => simp [hpm,Pm.resumes]
  | _ => rfl

theorem Looked.resumes (h : Looked s b p) : p.resumes = s.pm.resumes := by
  cases h with
  | failKick hpm | failSkip hpm | ringSkip hpm | ringDone hpm | unparkKick hpm | unparkSkip hpm =>
    simp [hpm,Pm.resumes]
  | _ => rfl

theorem Watched.turn (hs : Watched P s) (h : Turned s i ev r b p) (hsoon : P → Timely w s)
    (hthen : P → Timely w { s.place i r with bus := b, pm := p }) :
    Watched P { s.place i r with bus := b, pm := p } where
  regime := (Moved.turn h).regime hs.regime
  count := hs.count.recount h.retimed r.1
  sane := forall_place_slot (fun j _ => hs.sane j) (h.sane (hs.sane i))
  owed := fun hp => hs.owed (h.resumes ▸ hp)
  covered := fun hd ho => forall_place_slot (fun j _ => hs.covered hd ho j)
    (h.covered hd (hs.covered hd ho i))
  served := fun hP hd hp ho => by
    have hnear : Timed w s.env r.1.lastbusy r.2.dl := by
      have hi := (hthen hP).2 i
      rwa [State.core,show ({ s.place i r with bus := b, pm := p } : State n).slots i = ⟨r.1,r.2.dl⟩
        from update_self _ _ _] at hi
    exact forall_place_slot (P := fun _ k d => Served s.env r.2.timer k d)
      (fun j hne => hs.count.served h.retimed (hsoon hP).1 hnear hne (hs.served hP hd hp ho j))
      (h.served (hsoon hP).1 hnear hd hp (hs.sane i) (hs.served hP hd hp ho i))

theorem Sane.nudge {d d' : Deadline} (h : Sane e k d) (hk : Nudged k k')
    (ht : Tidy e.dying k' d') : Sane e k' d' := by
  obtain rfl | ⟨-,want,queued,rfl⟩ := hk
  · exact ⟨ht,h.posed,h.used⟩
  · exact ⟨ht,{ h.posed with },h.used⟩

theorem callout_watched (hs : Watched P s) (hsoon : P → Timely w s) :
    Watched P s.callout := by
  have hnudged (i : Fin n) : Nudged (s.core i) (s.callout.core i) :=
    (callout_nudged s i).elim .inl And.right
  have hsame : s.callout.owed = s.owed := by
    unfold State.callout
    split_ifs <;> rfl
  refine ⟨(Moved.callout).regime hs.regime,?_,fun i => ?_,?_,fun hd ho i => ?_,
    fun hP hd hp ho i => ?_⟩
  · unfold State.callout
    split_ifs with hoff
    · exact hs.count
    · unfold Counted
      dsimp only
      rw [timerAfter_ndeadlines,scanLoop_n (nodup_finRange n),Nat.zero_add]
      have htally := Tally.of_list (f := fun i => ((scanLoop s.env (List.finRange n) s.slots
          ⟨{ s.timer with armed := false },0,none,false⟩).1 i).toDeadline)
        (Q := fun d => d.armed = true) (nodup_finRange n) mem_finRange
      simpa using htally
  · rw [callout_env]
    refine (hs.sane i).nudge (hnudged i) ?_
    unfold State.core
    rcases callout_slot s i with heq | ⟨-,a,heq⟩ <;> rw [heq]
    · exact (hs.sane i).tidy
    · exact visit_tidy (hs.sane i).tidy
  · rw [callout_pm,hsame]
    exact hs.owed
  · rw [callout_env] at hd ⊢
    have hcov := hs.covered hd (hsame.symm.trans ho) i
    unfold State.core
    rcases callout_slot s i with heq | ⟨-,a,heq⟩ <;> rw [heq]
    · exact hcov
    · exact visit_covered hcov (hd ▸ (hs.sane i).tidy)
  · rw [callout_env] at hd hp ⊢
    unfold State.core State.callout
    rw [if_neg (by simp [hd,hp])]
    obtain ⟨hrec,hnear⟩ := scanLoop_recorded (l := List.finRange n) (w := w) (fun _ => False)
      (a := ⟨{ s.timer with armed := false },0,none,false⟩) nofun (hsoon hP).2 (fun _ h => h.elim) i
      (.inr (mem_finRange i))
    exact hrec.served hnear

theorem Watched.frame (hs : Watched P s) (hmoved : Moved s ev t) (hslots : t.slots = s.slots)
    (hn : t.timer.ndeadlines = s.timer.ndeadlines)
    (hdying : s.env.dying = true → t.env.dying = true) (hnow : s.env.now ≤ t.env.now)
    (hresumes : t.pm.resumes = true → t.owed = true)
    (hcov : t.owed = false → s.owed = false ∧ t.env.autosuspend = s.env.autosuspend ∧
      t.env.hz = s.env.hz ∧ (s.env.paused = true → t.env.paused = true))
    (hserv : t.env.dying = false → t.env.paused = false → t.owed = false → t.timer = s.timer) :
    Watched P t := by
  have hcore (i : Fin n) : t.core i = s.core i := by
    unfold State.core
    rw [hslots]
  have halive (hd : t.env.dying = false) : s.env.dying = false :=
    Bool.eq_false_iff.mpr fun h => (by cases hd.symm.trans (hdying h))
  refine ⟨hmoved.regime hs.regime,?_,fun i => ?_,hresumes,fun hd ho i => ?_,
    fun hP hd hp ho i => ?_⟩
  · unfold Counted
    rw [hslots,hn]
    exact hs.count
  · obtain ⟨ht,hposed,hused⟩ := hs.sane i
    rw [hcore,hslots]
    exact ⟨{ ht with asleep := fun hd => ht.asleep (halive hd) },hposed,Int.le_trans hused hnow⟩
  · obtain ⟨ho',hauto,hhz,hp⟩ := hcov ho
    rw [hcore,hslots]
    intro hl hroot hsus hres hdor hen
    have hen' : s.env.enabled = true := by
      unfold Env.enabled at hen ⊢
      rw [← hauto]
      exact hen
    exact (hs.covered (halive hd) ho' i hl hroot hsus hres hdor hen').imp_right
      (Or.imp_right (And.imp_right (Or.imp_right (Or.imp_right hp))))
  · obtain ⟨ho',hauto,hhz,hp'⟩ := hcov ho
    have hpaused : s.env.paused = false :=
      Bool.eq_false_iff.mpr fun h => (by cases hp.symm.trans (hp' h))
    have hperiod : t.env.period = s.env.period := by
      unfold Env.period
      rw [hauto,hhz]
    rw [hcore,hslots,hserv hd hp ho]
    intro harmed hown hw hres
    refine (hs.served hP (halive hd) hpaused ho' i harmed hown hw hres).later ?_ hnow
    unfold due
    rw [hperiod]

theorem Watched.reconcile (hs : Watched P s) (hsoon : P → Timely w s) (hthen : P → Timely w t)
    (flags : Flags) (hmoved : Moved s ev t) (hslots : t.slots = (s.reconcile flags).slots)
    (htimer : t.timer = (s.reconcile flags).timer) (henv : t.env = s.env)
    (howed : t.owed = (s.reconcile flags).owed)
    (hresumes : t.pm.resumes = s.pm.resumes) : Watched P t := by
  have hcore (i : Fin n) : t.core i = (s.reconcile flags).core i := by
    unfold State.core
    rw [hslots]
  have hnudged (i : Fin n) : Nudged (s.core i) (t.core i) := by
    rw [hcore]
    exact (reconcile_nudged s flags i).elim .inl And.right
  by_cases hoff : (s.env.dying || s.env.paused) = true
  · have heq : s.reconcile flags = s := if_pos hoff
    rw [heq] at hslots htimer howed
    refine hs.frame hmoved hslots (by rw [htimer]) (henv ▸ id) (by rw [henv]) ?_
      (fun ho => ⟨howed.symm.trans ho,by rw [henv],by rw [henv],henv ▸ id⟩) fun _ _ _ => htimer
    rw [hresumes,howed]
    exact hs.owed
  · obtain ⟨hd,hp⟩ : s.env.dying = false ∧ s.env.paused = false := by simpa using hoff
    have htidy (i : Fin n) : Tidy false (s.slots i).toCore (s.slots i).toDeadline :=
      hd ▸ (hs.sane i).tidy
    have hrec : s.reconcile flags = { s with
        timer := (reconcileLoop s.env flags (List.finRange n) s.timer s.slots).1
        slots := (reconcileLoop s.env flags (List.finRange n) s.timer s.slots).2
        owed := false } := if_neg hoff
    have hslot (i : Fin n) : ∃ u : Timer, t.slots i = ⟨reconcileCore flags (s.core i),
        (reconcileDl s.env flags (s.core i) ⟨u,(s.slots i).toDeadline⟩).dl⟩ := by
      rw [hslots,hrec]
      exact reconcileLoop_slot s.env flags s.timer (nodup_finRange n) (mem_finRange i)
    refine ⟨hmoved.regime hs.regime,?_,fun i => ?_,fun hpm => ?_,fun _ _ i => ?_,
      fun hP _ _ _ i => ?_⟩
    · rw [hslots,htimer,hrec]
      exact reconcileLoop_counted flags hs.count
    · obtain ⟨u,hu⟩ := hslot i
      rw [henv]
      refine (hs.sane i).nudge (hnudged i) ?_
      unfold State.core
      rw [hu,hd,← reconcileDl_core]
      exact reconcileDl_tidy (reconcileCore_tidy _ (htidy i))
    · rw [hresumes] at hpm
      -- an exit with the pause in force has the flag set
      have hpaused : s.pm.paused = true := by
        revert hpm
        cases s.pm <;> first | exact fun _ => rfl | exact nofun
      cases hp.symm.trans (hs.regime.paused.trans hpaused)
    · obtain ⟨u,hu⟩ := hslot i
      rw [henv]
      unfold State.core
      rw [hu,← reconcileDl_core]
      exact reconcileDl_covered hd
    · have htimed := (hthen hP).2
      unfold State.core at htimed
      rw [henv,hslots,hrec] at htimed
      rw [henv,htimer,hcore,hslots,hrec]
      exact reconcileLoop_served flags hd hp (nodup_finRange n) (fun _ => False)
        (hsoon hP).1 htimed hs.count htidy (fun _ h => h.elim) i (.inr (mem_finRange i))

theorem resumedCore_sane {d : Deadline} (h : Sane e k d) (hidle : k.link = .bound → k.Idle) :
    Sane e (resumedCore e k) d := by
  obtain ⟨ht,hp,hused⟩ := h
  unfold resumedCore
  split_ifs with hl
  · have hnone : k.owner = none := (hidle hl).1
    refine ⟨⟨ht.idle,ht.retry,fun hd hs hi => ?_⟩,⟨id,fun o _ _ ho => (by cases hnone.symm.trans ho),
      fun o _ ho => (by cases hnone.symm.trans ho)⟩,Int.le_refl _⟩
    -- the parked slot was asleep before, and nobody had it
    obtain ⟨o,ho,-⟩ := ht.asleep hd (hp.parked hs) hi
    cases hnone.symm.trans ho
  · exact ⟨ht,hp,hused⟩

theorem Watched.resumed (hs : Watched P s) (hpm : s.pm = .resuming) :
    Watched P { s.mapCores (resumedCore s.env) with
      env := { s.env with suspender := false, resumeFailed := false }
      pm := .ringing (List.finRange n)
      owed := true } := by
  have hidle (i : Fin n) : (s.core i).link = .bound → (s.core i).Idle :=
    (hs.regime.slot i).settled (by rw [hpm]; rfl)
  exact ⟨(Moved.resumed hpm).regime hs.regime,hs.count,
    fun i => { resumedCore_sane (hs.sane i) (hidle i) with },fun _ => rfl,fun _ h => (by cases h),
    fun _ _ _ h => (by cases h)⟩

theorem Moved.watched (h : Moved s ev t) (hs : Watched P s) (hsoon : P → Timely w s)
    (hthen : P → Timely w t) : Watched P t := by
  have hsame : s.owed = false → s.owed = false ∧ s.env.autosuspend = s.env.autosuspend ∧
      s.env.hz = s.env.hz ∧ (s.env.paused = true → s.env.paused = true) :=
    fun ho => ⟨ho,rfl,rfl,id⟩
  have hmoved := h
  cases h with
  | turn h => exact hs.turn h hsoon hthen
  | look h =>
    exact hs.frame hmoved rfl rfl id (Int.le_refl _) (fun hp => hs.owed (h.resumes ▸ hp)) hsame
      fun _ _ _ => rfl
  | callout => exact callout_watched hs hsoon
  | reconcile wake hk =>
    exact hs.reconcile hsoon hthen ⟨true,wake⟩ hmoved rfl rfl (reconcile_env s _) rfl
      (congrArg Pm.resumes (reconcile_pm s _))
  | failed hpm | unparked hpm =>
    exact hs.reconcile hsoon hthen ⟨true,false⟩ hmoved rfl rfl (reconcile_env s _) rfl (by rw [hpm]; rfl)
  | store k hk =>
    obtain ⟨-,-,-,hdying,hnow⟩ := Knob.apply_flags hk
    exact hs.frame hmoved rfl rfl (fun h => hdying.trans h) (Int.le_of_eq hnow.symm) (fun _ => rfl)
      (nofun) fun _ _ _ => rfl
  | tick =>
    exact hs.frame hmoved rfl rfl id (by change s.env.now ≤ s.env.now + 1; omega) hs.owed hsame
      fun _ _ _ => rfl
  | deactivate =>
    exact hs.frame hmoved rfl rfl (fun _ => rfl) (Int.le_refl _) hs.owed hsame fun _ _ _ => rfl
  | detach =>
    exact hs.frame hmoved rfl rfl (fun _ => rfl) (Int.le_refl _) hs.owed hsame
      fun hd => (by cases hd)
  | pause hpm =>
    exact hs.frame hmoved rfl rfl id (Int.le_refl _) nofun
      (fun ho => ⟨ho,rfl,rfl,fun _ => rfl⟩) fun _ _ _ => rfl
  | halt hpm =>
    have hpaused : s.env.paused = true := hs.regime.paused.trans (by rw [hpm]; rfl)
    exact hs.frame hmoved rfl rfl id (Int.le_refl _) nofun hsame
      fun _ hp => (by cases hp.symm.trans hpaused)
  | drain | block | sleep | resume | broke =>
    exact hs.frame hmoved rfl rfl id (Int.le_refl _) nofun hsame
      fun _ _ _ => rfl
  | fail hpm =>
    exact hs.frame hmoved rfl rfl id (Int.le_refl _) (fun _ => rfl)
      (nofun) fun _ _ _ => rfl
  | resumed hpm => exact hs.resumed hpm
  | unpause hpm =>
    have howed : s.owed = true := hs.owed (by rw [hpm]; rfl)
    exact hs.frame hmoved rfl rfl id (Int.le_refl _) (fun _ => howed)
      (fun ho => (by cases ho.symm.trans howed)) fun _ _ _ => rfl

theorem attach_watched (now : ℤ) (hz autosuspend : ℕ) (deferrable : Bool) :
    Watched P (attach n now hz autosuspend deferrable) where
  regime := attach_regime now hz autosuspend deferrable
  count := Tally.of_forall_not fun _ => Bool.false_ne_true
  sane := fun _ => ⟨.off rfl rfl,.of_free rfl nofun,Int.le_refl _⟩
  owed := nofun
  covered := nofun
  served := nofun

theorem run_watched {now : ℤ} {hz autosuspend : ℕ} {deferrable : Bool} {evs : List (Event n)}
    (hrun : exec step (attach n now hz autosuspend deferrable) evs = some t)
    (hall : Throughout step (fun s => P → Timely w s) (attach n now hz autosuspend deferrable) evs) :
    Watched P t :=
  exec_invariant_throughout (Watched P)
    (fun _ _ _ hs hsoon hthen hstep => (step_moved hstep).watched hs hsoon hthen)
    (attach_watched now hz autosuspend deferrable) hall hrun

end Watched

/-! ## Theorem -/
section Kept
variable {t : State n}

/-- `sc_rt_ndeadlines` counts the armed deadlines. With no reconcile owed, every slot of a live
controller that may become idle has a deadline, an owner or a request. As long as the ticks at hand
fit into one window, the callout outside system suspend serves every deadline that nobody else will
look at. -/
theorem deadlines_kept {now : ℤ} {hz autosuspend : ℕ} {deferrable : Bool} {evs : List (Event n)}
    (hrun : exec step (attach n now hz autosuspend deferrable) evs = some t) :
    {i | (t.slots i).armed = true}.encard = t.timer.ndeadlines ∧
      (t.env.dying = false → t.owed = false →
        ∀ i, Covered t.env (t.core i) (t.slots i).toDeadline) ∧
      ∀ w, Throughout step (Timely w) (attach n now hz autosuspend deferrable) evs →
        t.env.dying = false → t.env.paused = false → t.owed = false →
          ∀ i, Served t.env t.timer (t.core i) (t.slots i).toDeadline := by
  have h : Watched False t := run_watched (w := 1) hrun (throughout_of_forall (fun _ => False.elim) _ _)
  refine ⟨h.count,h.covered,fun w hall => ?_⟩
  exact (run_watched (P := True) hrun (hall.mono fun _ ht _ => ht)).served trivial

/-- A device is bound, and the callout serves its idle deadline. -/
theorem bound_deadline_kept :
    ∃ t : State 1, exec step (attach 1 0 100 1 true) [.bind 0 true,.bound 0] = some t ∧
      (t.env.dying = false ∧ t.env.paused = false ∧ t.owed = false) ∧
      {i | (t.slots i).armed = true}.encard = t.timer.ndeadlines ∧
      Covered t.env (t.core 0) (t.slots 0).toDeadline ∧
      Served t.env t.timer (t.core 0) (t.slots 0).toDeadline := by
  obtain ⟨t,hrun,hd,hp,ho⟩ : ∃ t, exec step (attach 1 0 100 1 true) [.bind 0 true,.bound 0] = some t
      ∧ t.env.dying = false ∧ t.env.paused = false ∧ t.owed = false := by decide +kernel
  obtain ⟨hcount,hcov,hserved⟩ := deadlines_kept hrun
  have htimely : Throughout step (Timely 100) (attach 1 0 100 1 true) [.bind 0 true,.bound 0] := by
    decide +kernel
  exact ⟨t,hrun,⟨hd,hp,ho⟩,hcount,hcov hd ho 0,hserved 100 htimely hd hp ho 0⟩

/-- Slots without a deadline, or deadlines without the callout: before the reconcile of a stored
setting or of a failed system suspend, and on a dying controller. -/
theorem deadlines_missing :
    (∃ t : State 1, exec step (attach 1 0 100 0 true)
        [.bind 0 true,.bound 0,.store (.autosuspend 1)] = some t ∧
      t.env.dying = false ∧ t.env.paused = false ∧ t.env.enabled = true ∧
      (t.core 0).link = .bound ∧ (t.core 0).root = true ∧ (t.core 0).suspended = false ∧
      (t.core 0).resuming = false ∧ (t.slots 0).dormant = false ∧ (t.slots 0).armed = false ∧
      (t.core 0).owner = none ∧ (t.core 0).want = .nothing ∧ (t.core 0).queued = false) ∧
    (∃ t : State 1, exec step (attach 1 0 100 1 true)
        [.bind 0 true,.bound 0,.pause,.halt,.drain,.block,.fail] = some t ∧
      t.env.dying = false ∧ t.env.paused = false ∧ (t.slots 0).armed = true ∧
      (t.core 0).owner = none ∧ (t.core 0).want = .nothing ∧ (t.core 0).queued = false ∧
      (t.core 0).resuming = false ∧ t.timer.armed = false) ∧
    (∃ t : State 1, exec step (attach 1 0 100 1 true)
        [.bind 0 true,.deactivate,.bound 0] = some t ∧
      t.env.enabled = true ∧ (t.core 0).link = .bound ∧ (t.core 0).root = true ∧
      (t.core 0).suspended = false ∧ (t.core 0).resuming = false ∧ (t.slots 0).dormant = false ∧
      (t.slots 0).armed = false ∧ (t.core 0).owner = none ∧ (t.core 0).want = .nothing ∧
      (t.core 0).queued = false) := by
  decide +kernel

/-- From when a system suspend has drained the slots until the pause is lifted nobody works on a
bound one, and once it has blocked the bus no doorbell or port change is between two sections. -/
theorem pause_undisturbed {now : ℤ} {hz autosuspend : ℕ} {deferrable : Bool} {evs : List (Event n)}
    (hrun : exec step (attach n now hz autosuspend deferrable) evs = some t) :
    (∀ i, t.pm.settled = true → (t.core i).link = .bound → (t.core i).Idle) ∧
    (t.pm.shut = true → t.bus = .free) := by
  have h : Regime t := exec_invariant Regime (fun _ _ _ hs hstep => (step_moved hstep).regime hs)
    (attach_regime now hz autosuspend deferrable) hrun
  exact ⟨fun i => (h.slot i).settled,h.bus⟩

/-- A slot that was suspended for being idle, in a system suspend. -/
theorem pause_undisturbed_blocked : ∃ t : State 1, exec step (attach 1 0 100 1 true)
      (idleSuspend [] ++ List.replicate 4 (.owner 0 .ok) ++ [.pause,.halt,.drain,.block]) = some t ∧
    (t.core 0).suspended = true ∧ (t.core 0).Idle ∧ t.bus = .free := by
  obtain ⟨t,hrun,hs,hl,hsettled,hshut⟩ : ∃ t : State 1, exec step (attach 1 0 100 1 true)
        (idleSuspend [] ++ List.replicate 4 (.owner 0 .ok) ++ [.pause,.halt,.drain,.block]) = some t ∧
      (t.core 0).suspended = true ∧ (t.core 0).link = .bound ∧ t.pm.settled = true ∧
      t.pm.shut = true := by decide +kernel
  obtain ⟨hidle,hfree⟩ := pause_undisturbed hrun
  exact ⟨t,hrun,hs,hidle 0 hsettled hl,hfree hshut⟩

end Kept
end NanoBSD.Xhci
