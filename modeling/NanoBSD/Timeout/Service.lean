import NanoBSD.Timeout.Calendar

/-! # Callouts run on time

A due callout is on the worklist, callouts join it at the tail, and every round of the soft
interrupt takes its first one: so a callout that nobody touches is called after those ahead
of it, and a pass cannot end before. The one exception is the word arithmetic: a callout found
more than half the range after its time looks like one in the future.
-/
namespace NanoBSD.Timeout
open Option List
variable {ι φ : Type} [DecidableEq ι] {s t : State ι φ} {k : Calendar ι} {c d : ι} {n : ℕ}
  {op : Op ι φ} {now due : ℕ}

def Op.Touches (c : ι) : Op ι φ → Prop
  | .schedule d _ => d = c
  | .reset d _ _ => d = c
  | .stop d => d = c
  | _ => False

def ticksIn (ops : List (Op ι φ)) : ℕ := ops.countP (· matches .hardclock)
def roundsIn (ops : List (Op ι φ)) : ℕ := ops.countP (· matches .next)

theorem schedule_time (hd : c ≠ d) (toTicks : ℕ) :
    ((s.calloutScheduleLocked d toTicks).callout c).time = (s.callout c).time := by
  unfold State.calloutScheduleLocked
  dsimp only
  split_ifs <;> simp [hd]

theorem schedule_ahead (h : Ahead n c s.todo) (hd : d ≠ c) (toTicks : ℕ) :
    Ahead n c (s.calloutScheduleLocked d toTicks).todo := by
  unfold State.calloutScheduleLocked
  dsimp only
  split_ifs
  · simpa [State.todo,Queues.insert,Queues.remove] using (h.erase hd).append [d]
  · exact h
  · simpa [State.todo,Queues.insert] using h.append [d]

theorem step_time (hstep : step s op = some t) (htouch : ¬op.Touches c) :
    (t.callout c).time = (s.callout c).time := by
  cases op with
  | schedule d toTicks =>
    obtain ⟨-,rfl⟩ := of_guard hstep
    exact schedule_time (Ne.symm htouch) toTicks
  | reset d toTicks func =>
    obtain ⟨-,rfl⟩ := of_guard hstep
    rw [State.calloutReset,schedule_time (Ne.symm htouch)]
    simp [Ne.symm htouch]
  | stop d =>
    obtain ⟨⟩ := hstep
    simp [State.calloutStop,Ne.symm htouch]
  | hardclock =>
    obtain ⟨⟩ := hstep
    rfl
  | next =>
    obtain ⟨-,hnext⟩ := ite_none_right_eq_some.mp hstep
    obtain ⟨d,rest,-,⟨-,_,_,rfl⟩ | ⟨-,_,rfl⟩⟩ := State.softclockNext_cases hnext
    · rfl
    · by_cases hd : c = d <;> simp [hd]
  | enter | ret | leave =>
    obtain ⟨-,rfl⟩ := of_guard hstep
    rfl

theorem step_ahead (hstep : step s op = some t) (htouch : ¬op.Touches c)
    (hnext : op ≠ .next) (h : Ahead n c s.todo) : op ≠ .leave ∧ Ahead n c t.todo := by
  cases op with
  | schedule d toTicks =>
    obtain ⟨-,rfl⟩ := of_guard hstep
    exact ⟨by simp,schedule_ahead h htouch toTicks⟩
  | reset d toTicks func =>
    obtain ⟨-,rfl⟩ := of_guard hstep
    have hfunc : Ahead n c (s.setCallout d { s.callout d with func := some func }).todo := h
    exact ⟨by simp,schedule_ahead hfunc htouch toTicks⟩
  | stop d =>
    obtain ⟨⟩ := hstep
    refine ⟨by simp,?_⟩
    simp only [State.todo,State.calloutStop]
    split
    · exact h.erase htouch
    · exact h
  | hardclock =>
    obtain ⟨⟩ := hstep
    obtain ⟨l,hl⟩ := State.moveBuckets_todo s.queues ((s.ticks + 1) % 2^32)
    refine ⟨by simp,?_⟩
    simp only [State.todo,State.calloutHardclock,hl]
    exact h.append l
  | next => exact absurd rfl hnext
  | enter | ret =>
    obtain ⟨-,rfl⟩ := of_guard hstep
    exact ⟨by simp,h⟩
  | leave =>
    obtain ⟨hempty,-⟩ := ite_none_right_eq_some.mp hstep
    obtain ⟨pre,post,htodo,-⟩ := h
    simp [htodo] at hempty

theorem next_ahead (hstep : step s .next = some t) (h : Ahead n c s.todo)
    (hdue : ¬0 < delta (s.callout c).time s.ticks) :
    .fire c ∈ shows s .next ∨ ∃ m, n = m + 1 ∧ Ahead m c t.todo := by
  obtain ⟨-,hnext⟩ := ite_none_right_eq_some.mp hstep
  obtain ⟨d,rest,htodo,hcase⟩ := State.softclockNext_cases hnext
  rw [htodo] at h
  rcases h.cons_cases with rfl | ⟨m,hm,hahead⟩
  · rcases hcase with ⟨hrel,-⟩ | ⟨-,_,rfl⟩
    · exact absurd hrel hdue
    · left
      simp [shows,hnext]
  · right
    refine ⟨m,hm,?_⟩
    have herase : (s.queues.remove d) .todo = rest := by
      change s.todo.erase d = rest
      rw [htodo,erase_cons_head]
    rcases hcase with ⟨-,_,_,rfl⟩ | ⟨-,_,rfl⟩
    · simpa [State.todo,Queues.insert,herase] using hahead
    · simpa [State.todo,herase] using hahead

theorem step_ticks (hstep : step s op = some t) :
    t.ticks = if op matches .hardclock then (s.ticks + 1) % 2^32 else s.ticks := by
  have hschedule (s : State ι φ) (d : ι) (toTicks : ℕ) :
      (s.calloutScheduleLocked d toTicks).ticks = s.ticks := by
    unfold State.calloutScheduleLocked
    dsimp only
    split_ifs <;> rfl
  cases op with
  | schedule d toTicks =>
    obtain ⟨-,rfl⟩ := of_guard hstep
    exact hschedule s d toTicks
  | reset d toTicks func =>
    obtain ⟨-,rfl⟩ := of_guard hstep
    exact hschedule _ d toTicks
  | stop d | hardclock =>
    obtain ⟨⟩ := hstep
    rfl
  | next =>
    obtain ⟨-,hnext⟩ := ite_none_right_eq_some.mp hstep
    obtain ⟨d,rest,-,⟨-,_,_,rfl⟩ | ⟨-,_,rfl⟩⟩ := State.softclockNext_cases hnext <;> rfl
  | enter | ret | leave =>
    obtain ⟨-,rfl⟩ := of_guard hstep
    rfl

theorem not_delta_pos (hdue : due ≤ now) (hlate : now ≤ due + 2^31) :
    ¬0 < delta (due % 2^32) (now % 2^32) := by
  unfold delta
  dsimp only
  split <;> omega

/-- A callout whose time has come is called after those ahead of it, if at most half the range of
ticks passes meanwhile. -/
theorem fires_in_turn {ops : List (Op ι φ)} (hrun : exec step s ops = some t)
    (htouch : ∀ op ∈ ops, ¬op.Touches c) (hticks : s.ticks = now % 2^32)
    (htime : (s.callout c).time = due % 2^32) (hdue : due ≤ now)
    (hlate : now + ticksIn ops ≤ due + 2^31) (hahead : Ahead n c s.todo)
    (hpass : n < roundsIn ops ∨ .leave ∈ ops) : .fire c ∈ viewed step shows s ops := by
  induction ops generalizing s now n with
  | nil => simp [roundsIn] at hpass
  | cons op ops ih =>
    obtain ⟨u,hu,hrest⟩ := exec_cons_eq_some.mp hrun
    obtain ⟨hop,hops⟩ := forall_mem_cons.mp htouch
    have htime' := (step_time hu hop).trans htime
    have hticks' := step_ticks hu
    simp only [viewed,hu,elim_some,mem_append]
    cases op with
    | next =>
      have hnow := not_delta_pos hdue (by omega)
      rw [← htime,← hticks] at hnow
      rcases next_ahead hu hahead hnow with hfire | ⟨m,rfl,hahead'⟩
      · exact .inl hfire
      · right
        apply ih hrest hops (hticks'.trans hticks) htime' hdue hlate hahead'
        simpa [roundsIn] using hpass
    | hardclock =>
      obtain ⟨-,hahead'⟩ := step_ahead hu hop (by simp) hahead
      have hcount : ticksIn (.hardclock :: ops) = ticksIn ops + 1 := by simp [ticksIn]
      right
      apply ih hrest hops _ htime' (Nat.le_succ_of_le hdue) (by omega) hahead'
      · simpa [roundsIn] using hpass
      · rw [hticks',hticks]
        simp only [if_true]
        omega
    | leave => exact absurd rfl (step_ahead hu hop (by simp) hahead).1
    | schedule d toTicks | reset d toTicks func | stop d | enter | ret =>
      obtain ⟨-,hahead'⟩ := step_ahead hu hop (by simp) hahead
      right
      apply ih hrest hops (hticks'.trans hticks) htime' hdue hlate hahead'
      simpa [roundsIn] using hpass

theorem Tracks.on_one_list (h : Tracks s k) (hpending : (s.callout c).pending) :
    ∃ p, (s.queues p).count c = 1 ∧ (∀ i, p = .wheel i → i < 1024) ∧
      ∀ p', p' ≠ p → c ∉ s.queues p' := by
  obtain ⟨p,hp⟩ := (h.placed.mem_iff c).mpr hpending
  obtain ⟨d,hd⟩ := isSome_iff_exists.mp ((h.pending_iff c).mp hpending)
  obtain ⟨e,-,-,-,hfiled⟩ := h.timed c d hd
  refine ⟨p,count_eq_one_of_mem (h.placed.nodup p) hp,?_,?_⟩
  · rintro i rfl
    exact (hfiled i hp).lt.2
  · exact fun p' hne hp' => hne (h.placed.unique hp' hp)

/-- A pending callout is on exactly one list, the calendar allows every call, and once its time has
come a callout is called by the pass of the soft interrupt that was asked for, if the pass comes to
it within half the range of ticks. -/
theorem callouts_on_time (hfresh : Fresh s) (hoff : s.governor.Off) {ops : List (Op ι φ)}
    (hrun : exec step s ops = some t) :
    (∀ c, (t.callout c).pending → ∃ p, (t.queues p).count c = 1 ∧
      (∀ i, p = .wheel i → i < 1024) ∧ ∀ p', p' ≠ p → c ∉ t.queues p') ∧
    (∃ k, exec Calendar.step ⟨s.ticks,fun _ => none⟩ (viewed step shows s ops) = some k) ∧
    ∀ c, (t.callout c).pending → t.ticks = (t.callout c).time →
      (∀ r : State ι φ, t = r.calloutHardclock → t.softint) ∧
      ∀ later u, exec step t later = some u → (∀ op ∈ later, ¬op.Touches c) →
        ticksIn later ≤ 2^31 → t.todo.idxOf c < roundsIn later ∨ .leave ∈ later →
          .fire c ∈ viewed step shows t later := by
  obtain ⟨k,hk,h⟩ := exec_refines Tracks Tracks.step (hfresh.tracks hoff) hrun
  refine ⟨fun c => h.on_one_list,⟨k,hk⟩,fun c hpending htime => ?_⟩
  have htodo := h.kept.mem_todo hpending htime
  constructor
  · rintro r rfl
    have hne : r.calloutHardclock.queues .todo ≠ [] := ne_nil_of_mem htodo
    change (r.softint || !(r.calloutHardclock.queues .todo).isEmpty) = true
    simp [hne]
  · intro later u hlater htouch hticks hpass
    exact fires_in_turn hlater htouch h.ticks_eq (htime.symm.trans h.ticks_eq) (Nat.le_refl _)
      (by omega) (ahead_idxOf htodo) hpass

def comeRound : State Unit Unit :=
  (exec step quiet [.reset () 2 (),.hardclock,.enter,.next,.leave,.hardclock]).get (by decide)

theorem exec_comeRound :
    exec step quiet [.reset () 2 (),.hardclock,.enter,.next,.leave,.hardclock] = some comeRound :=
  (some_get _).symm

theorem callouts_on_time_comeRound :
    .fire () ∈ viewed step shows comeRound [.enter,.next,.ret,.leave] := by
  obtain ⟨u,hu⟩ : ∃ u, exec step comeRound [.enter,.next,.ret,.leave] = some u :=
    isSome_iff_exists.mp (by decide +kernel)
  have hservice := (callouts_on_time quiet_fresh (.inl (by decide)) exec_comeRound).2.2 ()
    (by decide +kernel) (by decide +kernel)
  exact hservice.2 _ u hu (by simp [Op.Touches]) (by decide) (.inr (by decide))

section Late

omit [DecidableEq ι] in
theorem hardclock_todo_only (hwheel : ∀ i, s.queues (.wheel i) = []) (htodo : s.todo ≠ []) :
    s.calloutHardclock = { s with ticks := (s.ticks + 1) % 2^32, softint := true } := by
  have hmove : State.moveBuckets s.queues ((s.ticks + 1) % 2^32) = s.queues := by
    simp [State.moveBuckets,State.moveBucket,Queues.append_of_nil (hwheel _)]
  have hsoftint : (s.softint || !(s.queues .todo).isEmpty) = true := by
    have : s.queues .todo ≠ [] := htodo
    simp [this]
  simp only [State.calloutHardclock,hmove,hsoftint]

theorem hardclocks_todo_only (hwheel : ∀ i, s.queues (.wheel i) = []) (htodo : s.todo ≠ [])
    (n : ℕ) : exec step s (List.replicate (n + 1) .hardclock) =
      some { s with ticks := (s.ticks + (n + 1)) % 2^32, softint := true } := by
  induction n generalizing s with
  | zero => simp [exec,step,hardclock_todo_only hwheel htodo]
  | succ n ih =>
    have hticks : ((s.ticks + 1) % 2^32 + (n + 1)) % 2^32 = (s.ticks + (n + 1 + 1)) % 2^32 := by
      omega
    rw [replicate_succ]
    simp only [exec,step,bind_some,hardclock_todo_only hwheel htodo]
    rw [← hticks]
    exact ih hwheel htodo

/-- The callout of one tick has stayed on the worklist while the clock passed half its
range. -/
def overdue : State Unit Unit :=
  { quiet.calloutReset () 1 () with ticks := 2^31 + 2, softint := true }

theorem exec_overdue :
    exec step quiet (.reset () 1 () :: List.replicate (2^31 + 2) .hardclock) = some overdue :=
  exec_cons_eq_some.mpr ⟨quiet.calloutReset () 1 (),rfl,
    hardclocks_todo_only (fun _ => rfl) (by decide) (2^31 + 1)⟩

/-- The pass takes an overdue callout for one in the future, files it and ends. -/
theorem late_callout_is_filed : ∃ t, exec step quiet
      ((.reset () 1 () :: List.replicate (2^31 + 2) .hardclock) ++ [.enter,.next,.leave]) =
        some t ∧
    (t.callout ()).pending ∧ ¬(t.callout ()).fired ∧ t.todo = [] := by
  rw [exec_append,exec_overdue,bind_some]
  refine ⟨(exec step overdue [.enter,.next,.leave]).get (by decide +kernel),
    (some_get _).symm,?_⟩
  decide +kernel

end Late
end NanoBSD.Timeout
