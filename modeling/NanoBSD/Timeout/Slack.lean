import NanoBSD.Timeout.Service

/-! # Callouts with slack

While the governor has a slack grid, a callout whose owner allows it is delayed to the next
point of the grid on the tick count that all CPUs share. The settings of the governor and
that count change between any two calls. Requests keep their promise as long as the delayed
time is less than half the range of ticks away.
-/
namespace NanoBSD.Timeout
open Function Option List
variable {ι φ : Type} [DecidableEq ι]

def Governor.grid (g : Governor) : ℕ := g.mstohz g.coalesceMs

def Governor.Slackens (g : Governor) (c : Callout φ) (toTicks : ℕ) : Prop :=
  g.enabled ∧ g.coalesceMs ≠ 0 ∧ ¬c.precise ∧ c.slack ∧ 1 < g.grid ∧ 2 * g.grid ≤ toTicks

instance (g : Governor) (c : Callout φ) (toTicks : ℕ) : Decidable (g.Slackens c toTicks) :=
  inferInstanceAs (Decidable (_ ∧ _))

def Governor.slack (g : Governor) (c : Callout φ) (toTicks : ℕ) : ℕ :=
  let rem := (g.getticks + toTicks) % 2^32 % g.grid
  if g.Slackens c toTicks ∧ rem ≠ 0 then g.grid - rem else 0

/-- A call on the wheel, or a change of what the governor goes by; `lpsched_sysctl_coalesce`
refuses grids of more than 200 ms. -/
inductive Tuned (ι φ : Type)
  | call (op : Op ι φ)
  | govern (g : Governor)

namespace Tuned

def step (s : State ι φ) : Tuned ι φ → Option (State ι φ)
  | .call op => Timeout.step s op
  | .govern g => if g.coalesceMs ≤ 200 then some { s with governor := g } else none

def shows (s : State ι φ) : Tuned ι φ → List (Calendar.Event ι)
  | .call op => Timeout.shows s op
  | .govern _ => []

def Touches (c : ι) : Tuned ι φ → Prop
  | .call op => op.Touches c
  | .govern _ => False

def ticksIn (as : List (Tuned ι φ)) : ℕ := as.countP (· matches .call .hardclock)

/-- The delayed time of a request is less than half the range of ticks away. -/
def Roomy (s : State ι φ) : Tuned ι φ → Prop
  | .call (.schedule c toTicks) | .call (.reset c toTicks _) =>
    toTicks + s.governor.slack (s.callout c) toTicks < 2^31
  | _ => True

instance (s : State ι φ) : ∀ a : Tuned ι φ, Decidable (a.Roomy s)
  | .call (.schedule _ _) | .call (.reset _ _ _) => inferInstanceAs (Decidable (_ < _))
  | .call (.stop _) | .call .hardclock | .call .enter | .call .next | .call .ret | .call .leave
  | .govern _ => isTrue trivial

end Tuned

section Deadline
variable (g : Governor) (co : Callout φ) (toTicks now : ℕ)

theorem slack_lt (h : g.slack co toTicks ≠ 0) :
    g.slack co toTicks < g.grid ∧ 2 * g.grid ≤ toTicks := by
  unfold Governor.slack at h ⊢
  dsimp only at h ⊢
  split_ifs at h ⊢ with hrem
  · obtain ⟨⟨-,-,-,-,hgrid,hlong⟩,hrem⟩ := hrem
    omega
  · exact absurd rfl h

theorem lpschedCoalesce_slack : lpschedCoalesce g co toTicks (now % 2^32) =
    (now + toTicks + g.slack co toTicks) % 2^32 := by
  have hgrid : g.mstohz g.coalesceMs = g.grid := rfl
  unfold lpschedCoalesce Governor.slack Governor.Slackens
  simp only [hgrid]
  split_ifs <;> first | omega | simp_all

theorem delta_slack (hpos : 0 < toTicks) (hlt : toTicks < 2^31) :
    0 < delta (lpschedCoalesce g co toTicks (now % 2^32)) (now % 2^32) ↔
      toTicks + g.slack co toTicks < 2^31 := by
  have hslack := slack_lt g co toTicks
  rw [lpschedCoalesce_slack]
  unfold delta
  dsimp only
  split <;> omega

end Deadline

section Steps
variable {s t : State ι φ} {a : Tuned ι φ} {c : ι} {now toTicks : ℕ} {lo : ι → ℕ}

theorem Kept.scheduleRoomy (h : Kept s now lo) (hlt : toTicks < 2^31)
    (hroomy : toTicks + s.governor.slack (s.callout c) toTicks < 2^31) :
    ∃ lo', Kept (s.calloutScheduleLocked c toTicks) now lo' := by
  have htime := lpschedCoalesce_slack s.governor (s.callout c) toTicks now
  rw [← h.ticks_eq] at htime
  exact ⟨_,h.schedule (by omega) (by omega) htime⟩

theorem Kept.tuned (h : Kept s now lo) (hroomy : a.Roomy s) (hstep : Tuned.step s a = some t) :
    ∃ now' lo', Kept t now' lo' := by
  cases a with
  | govern g =>
    obtain ⟨-,rfl⟩ := of_guard hstep
    exact ⟨now,lo,h.same rfl rfl rfl⟩
  | call op =>
    have hcall : Timeout.step s op = some t := hstep
    cases op with
    | schedule c toTicks =>
      obtain ⟨hlt,rfl⟩ := of_guard hstep
      exact ⟨now,h.scheduleRoomy hlt.1 hroomy⟩
    | reset c toTicks func =>
      obtain ⟨hlt,rfl⟩ := of_guard hstep
      have hfunc : Kept (s.setCallout c { s.callout c with func := some func }) now lo :=
        h.setCallout rfl rfl
      refine ⟨now,hfunc.scheduleRoomy hlt ?_⟩
      rw [State.setCallout_callout,update_self]
      exact hroomy
    | stop | hardclock | next | enter | ret | leave =>
      obtain ⟨now',h'⟩ := h.unrequested (fun _ _ => id) hcall
      exact ⟨now',lo,h'⟩

theorem Tuned.step_time (hstep : Tuned.step s a = some t) (htouch : ¬a.Touches c) :
    (t.callout c).time = (s.callout c).time := by
  cases a with
  | govern g =>
    obtain ⟨-,rfl⟩ := of_guard hstep
    rfl
  | call op => exact Timeout.step_time hstep htouch

theorem Tuned.step_ticks (hstep : Tuned.step s a = some t) (hticks : s.ticks = now % 2^32) :
    t.ticks = (now + Tuned.ticksIn [a]) % 2^32 := by
  cases a with
  | govern g =>
    obtain ⟨-,rfl⟩ := of_guard hstep
    exact hticks
  | call op =>
    have h := Timeout.step_ticks hstep
    cases op with
    | hardclock =>
      have hone : Tuned.ticksIn [(.call .hardclock : Tuned ι φ)] = 1 := rfl
      rw [h,hone,hticks]
      simp only [if_true]
      omega
    | schedule | reset | stop | enter | next | ret | leave => exact h.trans hticks

theorem Tuned.shows_fire (hstep : Tuned.step s a = some t)
    (hfire : Calendar.Event.fire c ∈ Tuned.shows s a) : ¬0 < delta (s.callout c).time s.ticks := by
  cases a with
  | govern g => cases hfire
  | call op =>
    cases op with
    | next =>
      obtain ⟨hidle,hnext⟩ := ite_none_right_eq_some.mp hstep
      have hnone := isNone_iff_eq_none.mp hidle.2
      obtain ⟨d,rest,-,⟨-,_,_,rfl⟩ | ⟨hrel,_,rfl⟩⟩ := State.softclockNext_cases hnext
      · simp [Tuned.shows,Timeout.shows,hnext,hnone] at hfire
      · simp [Tuned.shows,Timeout.shows,hnext] at hfire
        exact hfire ▸ hrel
    | schedule | reset | stop | hardclock | enter | ret | leave =>
      simp [Tuned.shows,Timeout.shows] at hfire

end Steps

section Runs
variable {s t u : State ι φ} {c : ι} {now toTicks due : ℕ} {before as : List (Tuned ι φ)}

omit [DecidableEq ι] in
theorem Tuned.ticksIn_cons (a : Tuned ι φ) (as : List (Tuned ι φ)) :
    Tuned.ticksIn (a :: as) = Tuned.ticksIn [a] + Tuned.ticksIn as := by
  simp only [Tuned.ticksIn,countP_cons,countP_nil]
  omega

theorem Tuned.untouched (hrun : exec Tuned.step s as = some t)
    (htouch : ∀ a ∈ as, ¬a.Touches c) (hticks : s.ticks = now % 2^32)
    (htime : (s.callout c).time = due % 2^32) (hfar : due < now + 2^31) :
    (t.callout c).time = due % 2^32 ∧ t.ticks = (now + Tuned.ticksIn as) % 2^32 ∧
      (.fire c ∈ viewed Tuned.step Tuned.shows s as → due ≤ now + Tuned.ticksIn as) := by
  induction as generalizing s now with
  | nil =>
    cases hrun
    exact ⟨htime,hticks,fun h => absurd h not_mem_nil⟩
  | cons a as ih =>
    obtain ⟨u,hu,hrest⟩ := exec_cons_eq_some.mp hrun
    obtain ⟨ha,has⟩ := forall_mem_cons.mp htouch
    obtain ⟨htime',hticks',hfire⟩ := ih hrest has (Tuned.step_ticks hu hticks)
      ((Tuned.step_time hu ha).trans htime) (by omega)
    rw [Tuned.ticksIn_cons,← Nat.add_assoc]
    refine ⟨htime',hticks',fun h => ?_⟩
    simp only [viewed,hu,elim_some,mem_append] at h
    rcases h with h | h
    · have hdue := Tuned.shows_fire hu h
      rw [htime,hticks] at hdue
      have := le_of_delta hfar hdue
      omega
    · exact hfire h

theorem schedule_time_self (s : State ι φ) (c : ι) (toTicks : ℕ) :
    ((s.calloutScheduleLocked c toTicks).callout c).time =
      lpschedCoalesce s.governor (s.callout c) toTicks s.ticks := by
  unfold State.calloutScheduleLocked
  dsimp only
  split_ifs <;> simp only [State.setCallout_callout,update_self] <;> rfl

theorem request_time {op : Op ι φ} (hop : op.Requests c toTicks) (hstep : step s op = some t) :
    toTicks < 2^31 ∧ (t.callout c).time = lpschedCoalesce s.governor (s.callout c) toTicks s.ticks ∧
      t.ticks = s.ticks := by
  have hticks := step_ticks hstep
  cases op with
  | schedule d n =>
    obtain ⟨rfl,rfl⟩ := hop
    obtain ⟨hlt,rfl⟩ := of_guard hstep
    exact ⟨hlt.1,schedule_time_self s d n,hticks⟩
  | reset d n func =>
    obtain ⟨rfl,rfl⟩ := hop
    obtain ⟨hlt,rfl⟩ := of_guard hstep
    refine ⟨hlt,(schedule_time_self _ d n).trans ?_,hticks⟩
    rw [State.setCallout_callout,update_self]
    rfl
  | stop | hardclock | enter | next | ret | leave => exact hop.elim

omit [DecidableEq ι] in
theorem Op.Requests.roomy {op : Op ι φ} (hop : op.Requests c toTicks)
    (hroomy : (Tuned.call op).Roomy s) :
    toTicks + s.governor.slack (s.callout c) toTicks < 2^31 := by
  cases op with
  | schedule d n | reset d n func =>
    obtain ⟨rfl,rfl⟩ := hop
    exact hroomy
  | stop | hardclock | enter | next | ret | leave => exact hop.elim

/-- A request gets a slack of less than a grid, which is at most half of it, and its deadline is in
the future just if there is room for both. With room for all requests, a callout requested and left
alone is not called before the requested time and, if not called by the time with its slack, is on
the worklist and due then. -/
theorem slack_bounded (hfresh : Fresh s) {op : Op ι φ} (hop : op.Requests c toTicks)
    (hrun : exec Tuned.step s (before ++ .call op :: as) = some t)
    (htouch : ∀ a ∈ as, ¬a.Touches c) :
    ∃ u v, exec Tuned.step s before = some u ∧ Tuned.step u (.call op) = some v ∧
      exec Tuned.step v as = some t ∧
      let slack := u.governor.slack (u.callout c) toTicks
      (slack ≠ 0 → slack < u.governor.grid ∧ 2 * u.governor.grid ≤ toTicks) ∧
      (∀ now, 0 < toTicks → (0 < delta (lpschedCoalesce u.governor (u.callout c) toTicks
        (now % 2^32)) (now % 2^32) ↔ toTicks + slack < 2^31)) ∧
      (Along Tuned.step Tuned.Roomy s (before ++ .call op :: as) →
        (.fire c ∈ viewed Tuned.step Tuned.shows v as → toTicks ≤ Tuned.ticksIn as) ∧
        (Tuned.ticksIn as = toTicks + slack → (t.callout c).pending →
          c ∈ t.todo ∧ ¬0 < delta (t.callout c).time t.ticks)) := by
  rw [exec_append] at hrun
  obtain ⟨u,hu,hrun⟩ := bind_eq_some_iff.mp hrun
  obtain ⟨v,hv,hrest⟩ := exec_cons_eq_some.mp hrun
  obtain ⟨hlt,htime,hticks⟩ := request_time hop hv
  refine ⟨u,v,hu,hv,hrest,slack_lt _ _ _,fun now hpos => delta_slack _ _ _ now hpos hlt,
    fun hroomy => ?_⟩
  obtain ⟨hbefore,hroom,hafter⟩ := hroomy.append hu
  have hkeep (r : State ι φ) (a : Tuned ι φ) (r' : State ι φ) (h : ∃ now lo, Kept r now lo)
      (hr : a.Roomy r) (hstep : Tuned.step r a = some r') : ∃ now lo, Kept r' now lo := by
    obtain ⟨now,lo,h⟩ := h
    exact h.tuned hr hstep
  obtain ⟨now,lo,hkept⟩ := exec_invariant_along (fun r => ∃ now lo, Kept r now lo) hkeep
    ⟨_,fun _ => 0,hfresh.kept _⟩ hbefore hu
  obtain ⟨now',lo',hkept'⟩ := exec_invariant_along (fun r => ∃ now lo, Kept r now lo) hkeep
    (hkeep u _ v ⟨now,lo,hkept⟩ hroom hv) (hafter v hv) hrest
  have hfar := hop.roomy hroom
  rw [hkept.ticks_eq,lpschedCoalesce_slack] at htime
  obtain ⟨htime',hticks',hfire⟩ := Tuned.untouched hrest htouch (hticks.trans hkept.ticks_eq) htime
    (by omega)
  refine ⟨fun h => ?_,fun hnow hpending => ?_⟩
  · have := hfire h
    omega
  · have hdue : t.ticks = (t.callout c).time := by
      rw [hticks',htime',hnow,Nat.add_assoc]
    refine ⟨hkept'.mem_todo hpending hdue,?_⟩
    rw [htime',hticks']
    exact not_delta_pos (by omega) (by omega)

def slackQuiet : State Unit Unit :=
  { (quiet : State Unit Unit) with callout := fun _ => ⟨0,none,false,false,false,false,true,false⟩ }

def slackGovernor : Governor := ⟨true,200,fun ms => ms * 100 / 1000,5⟩

def gridTicks : List (Tuned Unit Unit) :=
  [.call .hardclock,.call .enter,.call .next,.call .leave] ++ List.replicate 54 (.call .hardclock)

theorem slack_bounded_grid :
    ∃ t u v, exec Tuned.step slackQuiet [.govern slackGovernor] = some u ∧
      Tuned.step u (.call (.reset () 40 ())) = some v ∧ exec Tuned.step v gridTicks = some t ∧
      let slack := u.governor.slack (u.callout ()) 40
      (slack ≠ 0 → slack < u.governor.grid ∧ 2 * u.governor.grid ≤ 40) ∧
      (.fire () ∈ viewed Tuned.step Tuned.shows v gridTicks → 40 ≤ Tuned.ticksIn gridTicks) ∧
      (Tuned.ticksIn gridTicks = 40 + slack → (t.callout ()).pending →
        () ∈ t.todo ∧ ¬0 < delta (t.callout ()).time t.ticks) := by
  obtain ⟨t,ht⟩ : ∃ t, exec Tuned.step slackQuiet
      ([.govern slackGovernor] ++ .call (.reset () 40 ()) :: gridTicks) = some t :=
    isSome_iff_exists.mp (by decide +kernel)
  have hop : (Op.reset () 40 () : Op Unit Unit).Requests () 40 := ⟨rfl,rfl⟩
  obtain ⟨u,v,hu,hv,hrest,hslack,-,hserved⟩ := slack_bounded ⟨by decide,rfl,fun _ => rfl⟩ hop ht
    (by simp [gridTicks,Tuned.Touches,Op.Touches])
  exact ⟨t,u,v,hu,hv,hrest,hslack,hserved (by decide +kernel)⟩

/-- The longest request of a callout that allows slack is called after one tick. -/
theorem longest_request_at_once :
    ∃ v, exec Tuned.step slackQuiet
        [.govern slackGovernor,.call (.reset () (2^31 - 1) ())] = some v ∧
      Calendar.Event.fire () ∈ viewed Tuned.step Tuned.shows v
        [.call .hardclock,.call .enter,.call .next] ∧
      Tuned.ticksIn ([.call .hardclock,.call .enter,.call .next] : List (Tuned Unit Unit)) = 1 := by
  refine ⟨(exec Tuned.step slackQuiet
    [.govern slackGovernor,.call (.reset () (2^31 - 1) ())]).get (by decide +kernel),
    (some_get _).symm,?_⟩
  decide +kernel

end Runs
end NanoBSD.Timeout
