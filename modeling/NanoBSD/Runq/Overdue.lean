import NanoBSD.Runq.Order

/-! # A queue that is overdue is taken from

The stamp of a CPU's queue is written only while the accounting is on: when the queue becomes
non-empty, and when it becomes empty. A stamp that is too old does no harm, but a queue that
became non-empty without one never counts as overdue.
-/
namespace NanoBSD.Runq
open Option
variable {γ ι : Type} {tsc : ℕ} {a b : Spc ι} {accounting : Bool} {hit : Prop}

theorem lpschedUs_anti {mhz a b now : ℕ} (h : a ≤ b) :
    lpschedUs mhz b now ≤ lpschedUs mhz a now := by
  unfold lpschedUs
  split_ifs
  · exact Nat.div_le_div_right (by omega)
  · omega
  · exact Nat.zero_le _
  · exact Nat.le_refl _

/-- A step leaves the stamp, writes it for a queue that was empty, or clears it with an empty queue.
If it leaves the stamp of a queue that becomes non-empty, it enqueues there with the accounting off.
-/
def Spc.Stamped (accounting : Bool) (tsc : ℕ) (hit : Prop) (a b : Spc ι) : Prop :=
  (b.qSince = a.qSince ∧ (a.count = 0 → b.count ≠ 0 → accounting = false ∧ hit)) ∨
    (a.count = 0 ∧ b.qSince = tsc) ∨ (b.count = 0 ∧ b.qSince = 0)

theorem Spc.stamped_same
    (hstamp : b.qSince = a.qSince) (hcount : b.count = a.count) : Stamped accounting tsc hit a b :=
  .inl ⟨hstamp,fun ha hb => absurd (hcount.trans ha) hb⟩

theorem Spc.Stamped.congr {a' : Spc ι}
    (h : Stamped accounting tsc hit a' b) (hstamp : a'.qSince = a.qSince)
    (hcount : a'.count = a.count) : Stamped accounting tsc hit a b := by
  unfold Stamped at h ⊢
  rwa [hstamp,hcount] at h

namespace State
variable [DecidableEq γ] [DecidableEq ι] {P : Platform γ} {s t : State γ ι} {l : ι} {c d : γ}
  {hit : Prop}

omit [DecidableEq ι] in
theorem stamped_schedEnqueue (hhit : c = (s.lwp l).cpu → hit) :
    Spc.Stamped s.lpschedAccounting s.tsc hit (s.spc c) ((s.schedEnqueue P l).spc c) := by
  rw [schedEnqueue_spc]
  split_ifs with hc
  · rw [Spc.schedEnqueue_eq]
    by_cases hstamp : s.lpschedAccounting ∧ (s.spc c).count = 0
    · exact .inr (.inl ⟨hstamp.2,if_pos hstamp⟩)
    · refine .inl ⟨if_neg hstamp,fun hcount _ => ⟨?_,hhit hc⟩⟩
      exact Bool.eq_false_iff.mpr fun hacct => hstamp ⟨hacct,hcount⟩
  · exact Spc.stamped_same rfl rfl

theorem stamped_schedDequeue (hit : Prop) :
    Spc.Stamped s.lpschedAccounting s.tsc hit (s.spc c) ((s.schedDequeue l).spc c) := by
  rw [schedDequeue_spc]
  split_ifs with hc
  · rw [Spc.schedDequeue_eq]
    by_cases hstamp : s.lpschedAccounting ∧ (s.spc c).count - 1 = 0
    · exact .inr (.inr ⟨hstamp.2,if_pos hstamp⟩)
    · refine .inl ⟨if_neg hstamp,fun hcount hne => absurd ?_ hne⟩
      simp only [hcount]
  · exact Spc.stamped_same rfl rfl

theorem stamped_move (hd : d ≠ (s.lwp l).cpu) (target : Option γ) (hhit : c = d → hit) :
    Spc.Stamped s.lpschedAccounting s.tsc hit (s.spc c) ((s.move P l d target).spc c) := by
  have hself : ((s.schedDequeue l).setLwp l { s.lwp l with cpu := d, target := target }).lwp l =
      { s.lwp l with cpu := d, target := target } := Function.update_self ..
  by_cases hc : c = d
  · -- the queue that it leaves is another one
    subst hc
    have hspc : ((s.schedDequeue l).setLwp l { s.lwp l with cpu := c, target := target }).spc c =
        s.spc c := (schedDequeue_spc s l c).trans (if_neg hd)
    have henq := stamped_schedEnqueue (P := P) (l := l) (c := c)
      (s := (s.schedDequeue l).setLwp l { s.lwp l with cpu := c, target := target })
      fun _ => hhit rfl
    rw [hspc] at henq
    exact henq
  · have hspc : (s.move P l d target).spc c = (s.schedDequeue l).spc c := by
      unfold move
      rw [schedEnqueue_spc,hself,if_neg hc]
      rfl
    rw [hspc]
    exact stamped_schedDequeue hit

omit [DecidableEq ι] in
theorem setSpc_stamp (s : State γ ι) (c d : γ) (idle : Bool) (m : Option ι) :
    ((s.setSpc d { s.spc d with idle := idle, migrating := m }).spc c).qSince = (s.spc c).qSince ∧
      ((s.setSpc d { s.spc d with idle := idle, migrating := m }).spc c).count = (s.spc c).count := by
  by_cases hc : c = d
  · subst hc
    simp [setSpc]
  · simp [setSpc,hc]

omit [DecidableEq ι] in
theorem stamped_setSpc (d : γ) (idle : Bool) (m : Option ι) (hit : Prop) :
    Spc.Stamped s.lpschedAccounting s.tsc hit (s.spc c)
      ((s.setSpc d { s.spc d with idle := idle, migrating := m }).spc c) :=
  Spc.stamped_same (setSpc_stamp s c d idle m).1 (setSpc_stamp s c d idle m).2

end State

def Event.target (s : State γ ι) : Event γ ι → Option γ
  | .enqueue _ c => some c
  | .catchlwp cur _ _ _ _ => some cur
  | .idleMigrate c => (s.spc c).migrating.bind fun l => (s.lwp l).target
  | _ => none

/-- A queue that was empty gets its first LWP while the accounting is on, or it has a stamp
left from before. -/
def Event.Clear [DecidableEq γ] (s : State γ ι) (e : Event γ ι) : Prop :=
  ∀ c ∈ e.target s, (s.spc c).count = 0 → s.lpschedAccounting = true ∨ (s.spc c).qSince ≠ 0

instance [DecidableEq γ] (s : State γ ι) (e : Event γ ι) : Decidable (e.Clear s) :=
  inferInstanceAs (Decidable (∀ c ∈ e.target s, _))

namespace State
variable [DecidableEq γ] [DecidableEq ι] {P : Platform γ} {s t : State γ ι} {l : ι} {c d : γ}
  {e : Event γ ι}

theorem step_tsc (hstep : s.step P e = some t) : s.tsc ≤ t.tsc := by
  cases e with
  | enqueue | dequeue | migrating | alter | setPack | setBudget =>
    obtain ⟨-,rfl⟩ := of_guard hstep
    exact Nat.le_refl _
  | switch c =>
    simp only [State.step] at hstep
    split at hstep <;> cases hstep <;> exact Nat.le_refl _
  | catchlwp cur c gentle hot allowed =>
    obtain ⟨-,rfl⟩ := of_guard hstep
    rcases schedCatchlwp_cases P s cur c gentle hot allowed with heq | ⟨l,-,heq⟩
    all_goals exact Nat.le_of_eq (congrArg State.tsc heq).symm
  | idleMigrate c =>
    cases hstep
    rcases schedIdleMigrate_cases P s c with heq | ⟨l,-,heq | heq | ⟨t,-,-,heq⟩⟩
    all_goals exact Nat.le_of_eq (congrArg State.tsc heq).symm
  | pass =>
    cases hstep
    exact Nat.le_add_right _ _
  | setTarget | setIdle | setEnabled | setLatency =>
    cases hstep
    exact Nat.le_refl _

theorem Sound.stamped (h : Sound s) (hstep : s.step P e = some t) (c : γ) :
    Spc.Stamped s.lpschedAccounting s.tsc (c ∈ e.target s) (s.spc c) (t.spc c) := by
  cases e with
  | enqueue l d =>
    obtain ⟨-,rfl⟩ := of_guard hstep
    apply stamped_schedEnqueue (s := s.setLwp l { s.lwp l with cpu := d, stat := .run })
    intro hc
    simp only [setLwp,Function.update_self] at hc
    simp only [Event.target,hc,mem_def]
  | dequeue l stat =>
    obtain ⟨-,rfl⟩ := of_guard hstep
    exact stamped_schedDequeue _
  | switch d =>
    simp only [State.step] at hstep
    split at hstep <;> cases hstep
    · exact Spc.stamped_same rfl rfl
    · exact stamped_schedDequeue _
  | catchlwp cur d gentle hot allowed =>
    obtain ⟨hne,rfl⟩ := of_guard hstep
    rcases schedCatchlwp_cases P s cur d gentle hot allowed with heq | ⟨l,hl,heq⟩ <;> rw [heq]
    · exact Spc.stamped_same rfl rfl
    · have hcpu := (h.mem_iff.mp hl).2.1
      exact stamped_move (hcpu ▸ hne) _ fun hc => congrArg some hc.symm
  | idleMigrate d =>
    cases hstep
    rcases schedIdleMigrate_cases P s d with heq | ⟨l,hl,heq⟩
    · rw [heq]
      exact Spc.stamped_same rfl rfl
    · rcases heq with heq | heq | ⟨u,htarget,hne,heq⟩ <;> rw [heq]
      · exact stamped_setSpc d (s.spc d).idle none _
      · exact stamped_setSpc d (s.spc d).idle none _
      · obtain ⟨hstamp,hcount⟩ := setSpc_stamp s c d (s.spc d).idle none
        apply Spc.Stamped.congr _ hstamp hcount
        apply stamped_move (s := s.setSpc d { s.spc d with migrating := none })
        · exact (h.migrating d l hl).2 ▸ hne
        · intro hc
          simp only [Event.target,hl,htarget,hc,bind_some,mem_def]
  | migrating l =>
    obtain ⟨-,rfl⟩ := of_guard hstep
    exact stamped_setSpc _ _ _ _
  | setTarget | pass | setEnabled | setLatency =>
    cases hstep
    exact Spc.stamped_same rfl rfl
  | alter | setPack | setBudget =>
    obtain ⟨-,rfl⟩ := of_guard hstep
    exact Spc.stamped_same rfl rfl
  | setIdle d idle =>
    cases hstep
    exact stamped_setSpc d idle (s.spc d).migrating _

structure Stamps (s : State γ ι) : Prop where
  sound : Sound s
  tsc_pos : 0 < s.tsc
  le_tsc : ∀ c, (s.spc c).qSince ≤ s.tsc
  ne_zero : ∀ c, (s.spc c).count ≠ 0 → (s.spc c).qSince ≠ 0

theorem Boot.stamps (h : Boot s) : Stamps s := by
  constructor
  · exact h.sound
  · exact h.tsc_pos
  · intro c
    rw [h.qSince_eq]
    exact Nat.zero_le _
  · exact fun c hc => absurd (h.count_eq c) hc

theorem Stamps.step (h : Stamps s) (hclear : e.Clear s)
    (hstep : s.step P e = some t) : Stamps t := by
  have htsc := step_tsc hstep
  have hpos := h.tsc_pos
  constructor
  · exact h.sound.step hstep
  · omega
  · intro c
    have hle := h.le_tsc c
    rcases h.sound.stamped hstep c with ⟨heq,-⟩ | ⟨-,heq⟩ | ⟨-,heq⟩ <;> omega
  · intro c hc
    rcases h.sound.stamped hstep c with ⟨heq,hkept⟩ | ⟨-,heq⟩ | ⟨hzero,-⟩
    · rw [heq]
      by_cases hempty : (s.spc c).count = 0
      · obtain ⟨hoff,hhit⟩ := hkept hempty hc
        rcases hclear c hhit hempty with hon | hne
        · exact absurd hon (Bool.eq_false_iff.mp hoff)
        · exact hne
      · exact h.ne_zero c hempty
    · omega
    · exact absurd hzero hc

theorem Sound.count_ne_zero_iff (h : Sound s) : (s.spc c).count ≠ 0 ↔ (s.spc c).queued ≠ [] := by
  rw [(h.wf c).count_eq,ne_eq,List.length_eq_zero_iff]

theorem qSince_kept (h : Sound s) {es : List (Event γ ι)}
    (hbusy : Throughout (step P) (fun u => (u.spc c).queued ≠ []) s es)
    (hrun : exec (step P) s es = some t) : (t.spc c).qSince = (s.spc c).qSince := by
  have hkept := exec_invariant_throughout
    (fun u : State γ ι => Sound u ∧ (u.spc c).qSince = (s.spc c).qSince) ?_ ⟨h,rfl⟩ hbusy hrun
  · exact hkept.2
  · intro u e v hu hbusy hbusy' hstep
    have hsound := hu.1.step hstep
    refine ⟨hsound,?_⟩
    rcases hu.1.stamped hstep c with ⟨heq,-⟩ | ⟨hzero,-⟩ | ⟨hzero,-⟩
    · rw [heq,hu.2]
    · exact absurd hzero (hu.1.count_ne_zero_iff.mpr hbusy)
    · exact absurd hzero (hsound.count_ne_zero_iff.mpr hbusy')

omit [DecidableEq γ] [DecidableEq ι] in
theorem lpschedMinCatch_of_overdue (hacct : s.lpschedAccounting = true)
    (h : s.lpschedQueueOverdue P c = true) (cur : γ) : s.lpschedMinCatch P cur c = P.minCatch := by
  unfold lpschedMinCatch
  rw [if_pos (And.intro hacct h)]
  split_ifs <;> rfl

/-- A queue that was not empty for longer than the budget is taken from at the stock threshold, if
every queue got its first LWP with the accounting on or a stamp left. -/
theorem min_catch_of_overdue (hboot : Boot s) {es later : List (Event γ ι)} {now : State γ ι}
    (hclear : Along (step P) (fun u e => e.Clear u) s es) (hrun : exec (step P) s es = some t)
    (hbusy : Throughout (step P) (fun u => (u.spc c).queued ≠ []) t later)
    (hlater : exec (step P) t later = some now) (hacct : now.lpschedAccounting = true)
    (hover : now.waitBudgetUs < lpschedUs P.tscMhz t.tsc now.tsc) (cur : γ) :
    now.lpschedMinCatch P cur c = P.minCatch := by
  have hstamps := exec_invariant_along Stamps (fun _ _ _ h => h.step) hboot.stamps hclear hrun
  have hne := hstamps.ne_zero c (hstamps.sound.count_ne_zero_iff.mpr hbusy.start)
  have hkept := qSince_kept hstamps.sound hbusy hlater
  have hover' : now.waitBudgetUs < lpschedUs P.tscMhz (now.spc c).qSince now.tsc := by
    rw [hkept]
    exact Nat.lt_of_lt_of_le hover (lpschedUs_anti (hstamps.le_tsc c))
  apply lpschedMinCatch_of_overdue hacct
  simp only [lpschedQueueOverdue,hkept,Bool.and_eq_true,bne_iff_ne,decide_eq_true_eq]
  exact ⟨hne,hkept ▸ hover'⟩

/-- An LWP waits on the queue of the first CPU, then the accounting is off and on again. -/
def toggledRun : List (Event Bool ℕ) := [.enqueue 1 false,.setLatency false]

theorem min_catch_of_overdue_toggled : ∃ t now, exec (step twoCores) quiet toggledRun = some t ∧
    exec (step twoCores) t [.pass 1000000000 100,.setLatency true] = some now ∧
    (now.spc false).mcount = 1 ∧ now.lpschedPacking = true ∧
    now.lpschedMinCatch twoCores true false = 1 := by
  have hrun := (some_get (x := exec (step twoCores) quiet toggledRun)
    (by decide +kernel)).symm
  have hlater := (some_get (x := exec (step twoCores)
    ((exec (step twoCores) quiet toggledRun).get (by decide +kernel))
      [.pass 1000000000 100,.setLatency true]) (by decide +kernel)).symm
  exact ⟨_,_,hrun,hlater,by decide +kernel,by decide +kernel,
    min_catch_of_overdue quiet_boot (by decide +kernel) hrun (by decide +kernel) hlater
      (by decide +kernel) (by decide +kernel) true⟩

/-- The LWP is enqueued with the accounting off and waits for a second with a budget of 2 ms; an
idle CPU still demands a second LWP. -/
theorem unstamped_queue_held : ∃ t now,
    exec (step twoCores) quiet [.setLatency false,.enqueue 1 false] = some t ∧
    exec (step twoCores) t [.setLatency true,.pass 1000000000 100] = some now ∧
    Throughout (step twoCores) (fun u => (u.spc false).queued ≠ []) t
      [.setLatency true,.pass 1000000000 100] ∧
    now.lpschedPacking = true ∧ now.lpschedAccounting = true ∧ now.waitBudgetUs = 2000 ∧
    lpschedUs twoCores.tscMhz t.tsc now.tsc = 1000000 ∧ (now.spc false).mcount = 1 ∧
    now.lpschedMinCatch twoCores true false = 2 := by
  have hrun := (some_get
    (x := exec (step twoCores) quiet [.setLatency false,.enqueue 1 false]) (by decide +kernel)).symm
  have hlater := (some_get (x := exec (step twoCores)
    ((exec (step twoCores) quiet [.setLatency false,.enqueue 1 false]).get (by decide +kernel))
      [.setLatency true,.pass 1000000000 100]) (by decide +kernel)).symm
  exact ⟨_,_,hrun,hlater,by decide +kernel⟩

end State
end NanoBSD.Runq
