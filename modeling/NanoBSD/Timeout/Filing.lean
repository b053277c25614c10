import NanoBSD.Timeout.Wheel

/-! # Buckets come round in time

A callout in a bucket is moved to the worklist at some instant between now and its time, the
multiple of the level's period at which that bucket comes round. The words that the code keeps
are read against a clock that never wraps; a bound `lo` on the time of each callout is carried
along, so that the same step lemmas serve with the requested times and without them.
-/
namespace NanoBSD.Timeout
open Function
variable {ι φ : Type} [DecidableEq ι] {now due i wheel : ℕ} {c : ι}

section Words

theorem le_of_delta (hlt : due < now + 2^31)
    (h : ¬0 < delta (due % 2^32) (now % 2^32)) : due ≤ now := by
  unfold delta at h
  dsimp only at h
  split at h <;> omega

theorem exists_of_delta_pos (hlt : due < now + 2^31) (h : 0 < delta (due % 2^32) (now % 2^32)) :
    ∃ e, due ≤ e ∧ now < e ∧ e < now + 2^31 ∧ e % 2^32 = due % 2^32 ∧
      delta (due % 2^32) (now % 2^32) = e - now := by
  unfold delta at h ⊢
  dsimp only at h ⊢
  refine ⟨now + (due % 2^32 + 2^32 - now % 2^32) % 2^32,?_⟩
  split at h <;> omega

theorem le_of_delta_nonneg {old new : ℕ} (hold : now < old) (hold' : old < now + 2^31)
    (hnew : now ≤ new) (hnew' : new < now + 2^31)
    (h : ¬delta (new % 2^32) (old % 2^32) < 0) : old ≤ new := by
  unfold delta at h
  dsimp only at h
  split at h <;> omega

end Words

def Filed (now due i : ℕ) : Prop :=
  ∃ wheel instant, wheel < 4 ∧ now < instant ∧ instant ≤ due ∧ 256^wheel ∣ instant ∧
    i = maskWheel wheel instant + wheel * 256

theorem Filed.mono {due' : ℕ} (h : Filed now due i) (hle : due ≤ due') : Filed now due' i := by
  obtain ⟨wheel,instant,hwheel,hnow,hdue,hdvd,hi⟩ := h
  exact ⟨wheel,instant,hwheel,hnow,Nat.le_trans hdue hle,hdvd,hi⟩

theorem Filed.lt (h : Filed now due i) : now < due ∧ i < 1024 := by
  obtain ⟨wheel,instant,hwheel,hnow,hdue,-,hi⟩ := h
  unfold maskWheel at hi
  omega

theorem maskWheel_mod (h : wheel < 4) (time : ℕ) :
    maskWheel wheel (time % 2^32) = maskWheel wheel time := by
  unfold maskWheel
  interval_cases wheel <;> omega

theorem filed_level (hwheel : wheel < 4) (hle : now + 256^wheel ≤ due) :
    Filed now due (maskWheel wheel (due % 2^32) + wheel * 256) := by
  have hpos : 0 < 256^wheel := Nat.pow_pos (by decide)
  have hsplit := Nat.div_add_mod' due (256^wheel)
  have hmod := Nat.mod_lt due hpos
  refine ⟨wheel,due / 256^wheel * 256^wheel,hwheel,by omega,by omega,Nat.dvd_mul_left _ _,?_⟩
  rw [maskWheel_mod hwheel,maskWheel,maskWheel,Nat.mul_div_cancel _ hpos]

theorem filed_bucket (hlt : now < due) : Filed now due (bucket (due - now) (due % 2^32)) := by
  unfold bucket
  split
  · split
    · exact filed_level (show 0 < 4 by decide) (by omega)
    · exact filed_level (show 1 < 4 by decide) (by omega)
  · split
    · exact filed_level (show 2 < 4 by decide) (by omega)
    · exact filed_level (show 3 < 4 by decide) (by omega)

theorem maskWheel_eq_zero {j time : ℕ} (hwheel : wheel < 4) (hj : j < wheel)
    (hdvd : 256^wheel ∣ time) : maskWheel j time = 0 := by
  obtain ⟨n,rfl⟩ := hdvd
  unfold maskWheel
  interval_cases wheel <;> interval_cases j <;> omega

omit [DecidableEq ι] in
theorem filed_tick {q : Queues Place ι} (h : Filed now due i)
    (hc : c ∈ State.moveBuckets q ((now + 1) % 2^32) (.wheel i)) : Filed (now + 1) due i := by
  obtain ⟨wheel,instant,hwheel,hnow,hdue,hdvd,hi⟩ := h
  refine ⟨wheel,instant,hwheel,?_,hdue,hdvd,hi⟩
  by_contra hlt
  obtain rfl : instant = now + 1 := by omega
  apply (State.mem_moveBuckets_wheel hc).2 wheel hwheel
  · intro j hj
    rw [maskWheel_mod (by omega)]
    exact maskWheel_eq_zero hwheel hj hdvd
  · rw [maskWheel_mod hwheel]
    exact hi

/-- The words of a callout stand for an instant no earlier than requested, less than half the range
away, and its bucket comes round by then. It is later only if the soft interrupt found it more than
half the range late. -/
def Timed (s : State ι φ) (now due : ℕ) (c : ι) : Prop :=
  ∃ e, due ≤ e ∧ e < now + 2^31 ∧ (s.callout c).time = e % 2^32 ∧
    ∀ i, c ∈ s.queues (.wheel i) → Filed now e i

/-- Every pending callout is linked once and has a time, no earlier than its bound, that its
bucket does not miss. -/
structure Kept (s : State ι φ) (now : ℕ) (lo : ι → ℕ) : Prop where
  placed : s.queues.Placed fun c => (s.callout c).pending
  ticks_eq : s.ticks = now % 2^32
  timed : ∀ c, (s.callout c).pending → Timed s now (lo c) c

variable {s t : State ι φ} {lo : ι → ℕ}

omit [DecidableEq ι] in
theorem Fresh.kept (h : Fresh s) (lo : ι → ℕ) : Kept s s.ticks lo where
  placed := by
    rw [h.queues_eq]
    exact Queues.placed_of_nil (fun _ => rfl) fun c => by simp [h.idle c]
  ticks_eq := (Nat.mod_eq_of_lt h.ticks_lt).symm
  timed := fun c hc => by simp [h.idle c] at hc

omit [DecidableEq ι] in
theorem Timed.frame (h : Timed s now due c) (htime : (t.callout c).time = (s.callout c).time)
    (hmem : ∀ i, c ∈ t.queues (.wheel i) → c ∈ s.queues (.wheel i)) : Timed t now due c := by
  obtain ⟨e,hdue,hlt,he,hfiled⟩ := h
  exact ⟨e,hdue,hlt,htime.trans he,fun i hi => hfiled i (hmem i hi)⟩

theorem schedule_cases (h : s.queues.Placed fun c => (s.callout c).pending) (c : ι)
    (toTicks : ℕ) : ∃ co queues,
      s.calloutScheduleLocked c toTicks = { s.setCallout c co with queues := queues } ∧
      co.time = lpschedCoalesce s.governor (s.callout c) toTicks s.ticks ∧ co.pending ∧
      co.deferrable = (s.callout c).deferrable ∧
      queues.Placed (fun d => (s.callout d).pending ∨ d = c) ∧
      ∀ i, ∀ d ∈ queues (.wheel i), d ∈ s.queues (.wheel i) ∧
        (d = c → ¬delta co.time (s.callout c).time < 0) := by
  unfold State.calloutScheduleLocked
  dsimp only
  split
  · rename_i hpending
    have hall (d : ι) : (s.callout d).pending ↔ (s.callout d).pending ∨ d = c :=
      ⟨Or.inl,fun hd => hd.elim id fun hd => hd ▸ hpending⟩
    split
    · -- moved earlier: back to the worklist
      refine ⟨_,_,rfl,rfl,hpending,rfl,(h.move hpending .todo).congr hall,fun i d hd => ?_⟩
      rw [State.insert_todo_wheel] at hd
      obtain ⟨hne,hd⟩ := h.mem_remove.mp hd
      exact ⟨hd,fun hc => absurd hc hne⟩
    · rename_i hlater
      exact ⟨_,s.queues,rfl,rfl,hpending,rfl,h.congr hall,fun i d hd => ⟨hd,fun _ => hlater⟩⟩
  · rename_i hpending
    refine ⟨_,_,rfl,rfl,rfl,rfl,h.insert hpending .todo,fun i d hd => ?_⟩
    rw [State.insert_todo_wheel] at hd
    exact ⟨hd,fun hc => absurd ((h.mem_iff c).mp ⟨_,hc ▸ hd⟩) hpending⟩

namespace Kept

omit [DecidableEq ι] in
theorem same (h : Kept s now lo) (hticks : t.ticks = s.ticks) (hqueues : t.queues = s.queues)
    (hcallout : t.callout = s.callout) : Kept t now lo where
  placed := by rw [hqueues,hcallout]; exact h.placed
  ticks_eq := hticks.trans h.ticks_eq
  timed := by
    intro c hc
    rw [hcallout] at hc
    exact (h.timed c hc).frame (by rw [hcallout]) (by rw [hqueues]; exact fun _ => id)

variable {co : Callout φ} {queues : Queues Place ι}

theorem set (h : Kept s now lo) (hplaced : queues.Placed fun d => (s.callout d).pending ∨ d = c)
    (hmem : ∀ d i, d ≠ c → d ∈ queues (.wheel i) → d ∈ s.queues (.wheel i)) (hpending : co.pending)
    (htime : co.time = due % 2^32) (hlt : due < now + 2^31)
    (hfiled : ∀ i, c ∈ queues (.wheel i) → Filed now due i) :
    Kept { s.setCallout c co with queues := queues } now (update lo c due) where
  placed := by
    apply hplaced.congr
    intro d
    by_cases hd : d = c
    · simp [hd,hpending]
    · simp [hd]
  ticks_eq := h.ticks_eq
  timed := by
    intro d hpd
    by_cases hd : d = c
    · subst hd
      rw [update_self]
      exact ⟨due,Nat.le_refl _,hlt,by simpa using htime,hfiled⟩
    · rw [update_of_ne hd]
      apply (h.timed d (by simpa [hd] using hpd)).frame
      · simp [hd]
      · exact fun i hi => hmem d i hd hi

section

omit [DecidableEq ι]

theorem ticks_lt (h : Kept s now lo) : s.ticks < 2^32 := by
  rw [h.ticks_eq]
  exact Nat.mod_lt _ (by decide)

theorem lt_of_wheel (h : Kept s now lo) {i : ℕ} (hi : c ∈ s.queues (.wheel i)) :
    ∃ e, now < e ∧ e < now + 2^31 ∧ (s.callout c).time = e % 2^32 ∧ Filed now e i := by
  obtain ⟨e,-,hlt,hword,hfiled⟩ := h.timed c ((h.placed.mem_iff c).mp ⟨_,hi⟩)
  exact ⟨e,(hfiled i hi).lt.1,hlt,hword,hfiled i hi⟩

theorem mem_todo (h : Kept s now lo) (hpending : (s.callout c).pending)
    (htime : s.ticks = (s.callout c).time) : c ∈ s.todo := by
  obtain ⟨p,hp⟩ := (h.placed.mem_iff c).mpr hpending
  cases p with
  | todo => exact hp
  | wheel i =>
    obtain ⟨e,hlt,hlt',hword,-⟩ := h.lt_of_wheel hp
    have := h.ticks_eq
    omega

end

variable (h : Kept s now lo)
include h

theorem schedule {toTicks : ℕ} (hle : now ≤ due) (hlt : due < now + 2^31)
    (htime : lpschedCoalesce s.governor (s.callout c) toTicks s.ticks = due % 2^32) :
    Kept (s.calloutScheduleLocked c toTicks) now (update lo c due) := by
  obtain ⟨co,queues,heq,hco,hpending,-,hplaced,hmem⟩ := schedule_cases h.placed c toTicks
  rw [heq]
  apply h.set hplaced (fun d i _ hd => (hmem i d hd).1) hpending (hco.trans htime) hlt
  -- moved later, it stays where it was: that bucket comes round before the new time
  intro i hi
  obtain ⟨hold,hlater⟩ := hmem i c hi
  obtain ⟨e,hnow,he,hword,hfile⟩ := h.lt_of_wheel hold
  rw [hco,htime,hword] at hlater
  exact hfile.mono (le_of_delta_nonneg hnow he hle hlt (hlater rfl))

theorem drop (hplaced : queues.Placed fun d => (s.callout d).pending ∧ d ≠ c)
    (hmem : ∀ d i, d ∈ queues (.wheel i) → d ∈ s.queues (.wheel i))
    (hpending : co.pending = false) :
    Kept { s.setCallout c co with queues := queues } now lo where
  placed := by
    apply hplaced.congr
    intro d
    by_cases hd : d = c
    · simp [hd,hpending]
    · simp [hd]
  ticks_eq := h.ticks_eq
  timed := by
    intro d hpd
    by_cases hd : d = c
    · simp [hd,hpending] at hpd
    · apply (h.timed d (by simpa [hd] using hpd)).frame
      · simp [hd]
      · exact hmem d

theorem stop (c : ι) : Kept (s.calloutStop c).2 now lo := by
  unfold State.calloutStop
  by_cases hpending : (s.callout c).pending
  · simp only [hpending,if_true]
    exact h.drop (h.placed.remove c) (fun d i hd => (h.placed.mem_remove.mp hd).2) rfl
  · simp only [hpending]
    apply h.drop _ (fun d i hd => hd) rfl
    exact h.placed.congr fun d => ⟨fun hd => ⟨hd,fun hc => hpending (hc ▸ hd)⟩,And.left⟩

theorem setCallout (hpending : co.pending = (s.callout c).pending)
    (htime : co.time = (s.callout c).time) : Kept (s.setCallout c co) now lo := by
  have hpending' (d : ι) : ((s.setCallout c co).callout d).pending = (s.callout d).pending := by
    by_cases hd : d = c <;> simp [hd,hpending]
  constructor
  · exact h.placed.congr fun d => by rw [hpending' d]
  · exact h.ticks_eq
  · intro d hd
    rw [hpending' d] at hd
    apply (h.timed d hd).frame
    · by_cases hdc : d = c <;> simp [hdc,htime]
    · exact fun _ => id

omit [DecidableEq ι] in
theorem tick : Kept s.calloutHardclock (now + 1) lo := by
  have hticks : (s.ticks + 1) % 2^32 = (now + 1) % 2^32 := by
    have := h.ticks_eq
    omega
  constructor
  · exact State.placed_moveBuckets h.placed _
  · exact hticks
  · intro c hc
    obtain ⟨e,hdue,hlt,htime,hfiled⟩ := h.timed c hc
    refine ⟨e,hdue,by omega,htime,fun i hi => ?_⟩
    simp only [State.calloutHardclock,hticks] at hi
    exact filed_tick (hfiled i (State.mem_moveBuckets_wheel hi).1) hi

theorem file (hpending : (s.callout c).pending) (hrel : 0 < delta (s.callout c).time s.ticks) :
    Kept
      { s with
        queues := (s.queues.remove c).insert c
          (.wheel (bucket (delta (s.callout c).time s.ticks) (s.callout c).time)) } now lo := by
  constructor
  · exact h.placed.move hpending _
  · exact h.ticks_eq
  · intro d hpd
    by_cases hd : d = c
    · subst hd
      obtain ⟨e,hdue,hlt,htime,-⟩ := h.timed d hpd
      rw [htime,h.ticks_eq] at hrel
      obtain ⟨e',he,hnow,hlt',hword,hdelta⟩ := exists_of_delta_pos hlt hrel
      refine ⟨e',Nat.le_trans hdue he,hlt',htime.trans hword.symm,fun i hi => ?_⟩
      rcases Queues.mem_insert.mp hi with hi | ⟨hi,-⟩
      · exact absurd rfl (h.placed.mem_remove.mp hi).1
      · obtain rfl := Place.wheel.inj hi
        rw [htime,h.ticks_eq,hdelta,← hword]
        exact filed_bucket hnow
    · apply (h.timed d hpd).frame
      · rfl
      intro i hi
      rcases Queues.mem_insert.mp hi with hi | ⟨-,hi⟩
      · exact (h.placed.mem_remove.mp hi).2
      · exact absurd hi hd

omit [DecidableEq ι] in
theorem pending_head {rest : List ι} (htodo : s.todo = c :: rest) : (s.callout c).pending := by
  apply (h.placed.mem_iff c).mp
  refine ⟨.todo,?_⟩
  change c ∈ s.todo
  simp [htodo]

theorem next (hnext : s.softclockNext = some t) : Kept t now lo := by
  obtain ⟨c,rest,htodo,hcase⟩ := State.softclockNext_cases hnext
  rcases hcase with ⟨hrel,none,time,rfl⟩ | ⟨hrel,late,rfl⟩
  · exact (h.file (h.pending_head htodo) hrel).same rfl rfl rfl
  · exact (h.drop (h.placed.remove c) (fun d i hd => (h.placed.mem_remove.mp hd).2)
      rfl).same rfl rfl rfl

theorem unrequested {op : Op ι φ} (hop : ∀ c toTicks, ¬op.Requests c toTicks)
    (hstep : step s op = some t) : ∃ now', Kept t now' lo := by
  cases op with
  | schedule c toTicks | reset c toTicks func => exact absurd ⟨rfl,rfl⟩ (hop c toTicks)
  | stop c =>
    obtain ⟨⟩ := hstep
    exact ⟨now,h.stop c⟩
  | hardclock =>
    obtain ⟨⟩ := hstep
    exact ⟨now + 1,h.tick⟩
  | next =>
    obtain ⟨-,hnext⟩ := Option.ite_none_right_eq_some.mp hstep
    exact ⟨now,h.next hnext⟩
  | enter | ret | leave =>
    obtain ⟨-,rfl⟩ := of_guard hstep
    exact ⟨now,h.same rfl rfl rfl⟩

end Kept
end NanoBSD.Timeout
