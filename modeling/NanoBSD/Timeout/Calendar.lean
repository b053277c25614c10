import NanoBSD.Timeout.Filing

/-! # The wheel keeps a calendar

What the callout facility is for: a calendar of absolute times that never wrap, in which a
callout may run only once its time has come. The wheel refines it.
-/
namespace NanoBSD.Timeout
open Function Option
variable {ι φ : Type} [DecidableEq ι]

structure Calendar (ι : Type) where
  now : ℕ
  due : ι → Option ℕ

namespace Calendar

inductive Event (ι : Type) where
  | tick
  | set (c : ι) (toTicks : ℕ)
  | clear (c : ι)
  | fire (c : ι)
  deriving DecidableEq, Repr

def step (k : Calendar ι) : Event ι → Option (Calendar ι)
  | .tick => some { k with now := k.now + 1 }
  | .set c toTicks => some { k with due := update k.due c (some (k.now + toTicks)) }
  | .clear c => some { k with due := update k.due c none }
  | .fire c =>
    if ∃ d ∈ k.due c, d ≤ k.now then some { k with due := update k.due c none }
    else none

end Calendar

def shows (s : State ι φ) : Op ι φ → List (Calendar.Event ι)
  | .schedule c toTicks => [.set c toTicks]
  | .reset c toTicks _ => [.set c toTicks]
  | .stop c => [.clear c]
  | .hardclock => [.tick]
  | .next => (s.softclockNext.bind State.active).toList.map .fire
  | .enter | .ret | .leave => []

structure Tracks (s : State ι φ) (k : Calendar ι) : Prop where
  placed : s.queues.Placed fun c => (s.callout c).pending
  ticks_eq : s.ticks = k.now % 2^32
  governor_off : s.governor.Off
  pending_iff : ∀ c, (s.callout c).pending ↔ (k.due c).isSome
  timed : ∀ c d, k.due c = some d → Timed s k.now d c

variable {s t : State ι φ} {k : Calendar ι} {c : ι}

section

omit [DecidableEq ι]

theorem Tracks.kept (h : Tracks s k) : Kept s k.now fun c => (k.due c).getD 0 where
  placed := h.placed
  ticks_eq := h.ticks_eq
  timed := by
    intro c hc
    obtain ⟨d,hd⟩ := isSome_iff_exists.mp ((h.pending_iff c).mp hc)
    simpa [hd] using h.timed c d hd

theorem Kept.tracks {now : ℕ} {lo : ι → ℕ} {due : ι → Option ℕ} (h : Kept s now lo)
    (hoff : s.governor.Off) (hpending : ∀ c, (s.callout c).pending ↔ (due c).isSome)
    (hlo : ∀ c d, due c = some d → lo c = d) : Tracks s ⟨now,due⟩ where
  placed := h.placed
  ticks_eq := h.ticks_eq
  governor_off := hoff
  pending_iff := hpending
  timed := by
    intro c d hd
    rw [← hlo c d hd]
    exact h.timed c ((hpending c).mpr (isSome_of_mem hd))

theorem Fresh.tracks (h : Fresh s) (hoff : s.governor.Off) : Tracks s ⟨s.ticks,fun _ => none⟩ := by
  apply (h.kept fun _ => 0).tracks hoff
  · simp [h.idle]
  · simp

theorem Tracks.same (h : Tracks s k) (hkept : Kept t k.now fun c => (k.due c).getD 0)
    (hgovernor : t.governor = s.governor)
    (hpending : ∀ c, (t.callout c).pending = (s.callout c).pending) : Tracks t k := by
  apply hkept.tracks
  · rw [hgovernor]
    exact h.governor_off
  · intro c
    rw [hpending c]
    exact h.pending_iff c
  · intro c d hd
    simp [hd]

end

section
variable (h : Tracks s k)
include h

theorem Tracks.schedule {toTicks : ℕ} (hlt : toTicks < 2^31) (c : ι) :
    Tracks (s.calloutScheduleLocked c toTicks)
      { k with due := update k.due c (some (k.now + toTicks)) } := by
  have htime : lpschedCoalesce s.governor (s.callout c) toTicks s.ticks =
      (k.now + toTicks) % 2^32 := by
    rw [lpschedCoalesce_off h.governor_off]
    have := h.ticks_eq
    omega
  have hkept := h.kept.schedule (Nat.le_add_right _ _) (Nat.add_lt_add_left hlt _) htime
  obtain ⟨co,queues,heq,-,hpending,-⟩ := schedule_cases h.placed c toTicks
  rw [heq] at hkept ⊢
  apply hkept.tracks h.governor_off
  · intro d
    by_cases hd : d = c
    · simp [hd,hpending]
    · simpa [hd] using h.pending_iff d
  · intro d n hn
    by_cases hd : d = c
    · simpa [hd] using hn
    · rw [update_of_ne hd] at hn ⊢
      simp [hn]

theorem Tracks.drop (hkept : Kept t k.now fun c => (k.due c).getD 0)
    (hgovernor : t.governor = s.governor)
    (hpending : ∀ d, (t.callout d).pending ↔ (s.callout d).pending ∧ d ≠ c) :
    Tracks t { k with due := update k.due c none } := by
  apply hkept.tracks
  · rw [hgovernor]
    exact h.governor_off
  · intro d
    rw [hpending d,h.pending_iff d]
    by_cases hd : d = c <;> simp [hd]
  · intro d n hn
    by_cases hd : d = c
    · simp [hd] at hn
    · rw [update_of_ne hd] at hn
      simp [hn]

theorem Tracks.stop (c : ι) :
    Tracks (s.calloutStop c).2 { k with due := update k.due c none } := by
  apply h.drop (h.kept.stop c) rfl
  intro d
  by_cases hd : d = c <;> simp [State.calloutStop,hd]

theorem Tracks.setFunc (c : ι) (func : φ) :
    Tracks (s.setCallout c { s.callout c with func := some func }) k := by
  have hkept : Kept (s.setCallout c { s.callout c with func := some func }) k.now _ :=
    h.kept.setCallout rfl rfl
  apply h.same hkept rfl
  intro d
  by_cases hd : d = c <;> simp [hd]

omit [DecidableEq ι] in
theorem Tracks.fire (hpending : (s.callout c).pending)
    (hrel : ¬0 < delta (s.callout c).time s.ticks) : ∃ d ∈ k.due c, d ≤ k.now := by
  obtain ⟨d,hd⟩ := isSome_iff_exists.mp ((h.pending_iff c).mp hpending)
  obtain ⟨e,hdue,hlt,htime,-⟩ := h.timed c d hd
  rw [htime,h.ticks_eq] at hrel
  exact ⟨d,hd,Nat.le_trans hdue (le_of_delta hlt hrel)⟩

theorem Tracks.next (hactive : s.active = none) (hnext : s.softclockNext = some t) :
    ∃ k', exec Calendar.step k (shows s .next) = some k' ∧ Tracks t k' := by
  have hkept := h.kept.next hnext
  obtain ⟨c,rest,htodo,hcase⟩ := State.softclockNext_cases hnext
  simp only [shows,hnext,bind_some]
  rcases hcase with ⟨hrel,none,time,rfl⟩ | ⟨hrel,late,rfl⟩
  · refine ⟨k,?_,h.same hkept rfl fun _ => rfl⟩
    simp only [hactive]
    rfl
  · refine ⟨{ k with due := update k.due c none },?_,h.drop hkept rfl fun d => ?_⟩
    · simpa [exec,Calendar.step] using h.fire (h.kept.pending_head htodo) hrel
    · by_cases hd : d = c <;> simp [hd]

end

theorem Tracks.step (s : State ι φ) (op : Op ι φ) (t : State ι φ) (k : Calendar ι)
    (h : Tracks s k) (hstep : step s op = some t) :
    ∃ k', exec Calendar.step k (shows s op) = some k' ∧ Tracks t k' := by
  cases op with
  | schedule c toTicks =>
    obtain ⟨hlt,rfl⟩ := of_guard hstep
    exact ⟨_,rfl,h.schedule hlt.1 c⟩
  | reset c toTicks func =>
    obtain ⟨hlt,rfl⟩ := of_guard hstep
    exact ⟨_,rfl,(h.setFunc c func).schedule hlt c⟩
  | stop c =>
    obtain ⟨⟩ := hstep
    exact ⟨_,rfl,h.stop c⟩
  | hardclock =>
    obtain ⟨⟩ := hstep
    exact ⟨_,rfl,h.kept.tick.tracks h.governor_off h.pending_iff fun c d hd => by simp [hd]⟩
  | enter | ret | leave =>
    obtain ⟨-,rfl⟩ := of_guard hstep
    exact ⟨k,rfl,h.same (h.kept.same rfl rfl rfl) rfl fun _ => rfl⟩
  | next =>
    obtain ⟨hidle,hnext⟩ := ite_none_right_eq_some.mp hstep
    exact h.next (isNone_iff_eq_none.mp hidle.2) hnext

end NanoBSD.Timeout
