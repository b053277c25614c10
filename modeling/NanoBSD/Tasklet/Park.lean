import NanoBSD.Lib.Queues
import NanoBSD.Lib.Tally

/-! # The parking protocol

What `linux_tasklet.c` does with `RUNNING`, `PARKED` and the disable count, without the queues:
a soft interrupt locks a tasklet, and either runs it, when it finds the count zero, or parks it
and then looks at the count again. A disable raises the count and may wait for the lock to be
free; the enable that brings the count to zero unparks. Whoever clears `PARKED` has the tasklet
to queue again.
-/
namespace NanoBSD.Tasklet
open Function
variable {ι θ τ : Type} {t : τ}

/-- Where a soft interrupt is with a tasklet: it holds the lock, also with `PARKED` set, is to look
at the count again, has the tasklet to queue again, or runs the function. -/
inductive Stage
  | locked
  | parked
  | watching
  | handed
  | running
  deriving DecidableEq, Repr

/-- Where a caller is with a tasklet: it waits for the lock, its disable returned after that or
without a wait, its enable is to unpark, or it has the tasklet to queue again. -/
inductive Phase
  | waiting
  | disabled
  | counted
  | unparking
  | handed
  deriving DecidableEq, Repr

structure Gate (ι θ τ : Type) where
  running : τ → Bool
  parked : τ → Bool
  count : τ → ℕ
  softint : ι → Option (Stage × τ)
  caller : θ → Option (Phase × τ)
  parks : τ → ℕ
  requeues : τ → ℕ

def Stage.locks : Option (Stage × τ) → List τ
  | some (.locked,t) | some (.parked,t) | some (.running,t) => [t]
  | _ => []

def Stage.hands : Option (Stage × τ) → List τ
  | some (.handed,t) => [t]
  | _ => []

def Phase.hands : Option (Phase × τ) → List τ
  | some (.handed,t) => [t]
  | _ => []

theorem Stage.mem_hands {o : Option (Stage × τ)} : t ∈ Stage.hands o ↔ o = some (.handed,t) := by
  rcases o with _ | ⟨_ | _,u⟩ <;> simp [Stage.hands,eq_comm]

theorem Phase.mem_hands {o : Option (Phase × τ)} : t ∈ Phase.hands o ↔ o = some (.handed,t) := by
  rcases o with _ | ⟨_ | _,u⟩ <;> simp [Phase.hands,eq_comm]

def Phase.Counts (t : τ) (p : Option (Phase × τ)) : Prop :=
  p = some (.waiting,t) ∨ p = some (.disabled,t) ∨ p = some (.counted,t)

namespace Gate

/-- A parked tasklet, or one that is to be queued again, is at one of these. -/
inductive Spot (ι θ τ : Type)
  | softint (i : ι)
  | caller (x : θ)
  | word (t : τ)
  deriving DecidableEq

def spots (g : Gate ι θ τ) : Queues (Spot ι θ τ) τ
  | .softint i => Stage.hands (g.softint i)
  | .caller x => Phase.hands (g.caller x)
  | .word t => if g.parked t then [t] else []

variable [DecidableEq ι] [DecidableEq θ] [DecidableEq τ]

/-- The steps of the protocol. A tasklet that is parked is at no spot before. -/
inductive Step (g : Gate ι θ τ) : Gate ι θ τ → Prop
  | lock (i : ι) (t : τ) (hi : g.softint i = none) (ht : g.running t = false) :
    Step g { g with
      running := update g.running t true
      softint := update g.softint i (some (.locked,t)) }
  | accept (i : ι) (t : τ) (hi : g.softint i = some (.locked,t)) (ht : g.count t = 0) :
    Step g { g with softint := update g.softint i (some (.running,t)) }
  | park (i : ι) (t : τ) (hi : g.softint i = some (.locked,t)) (ht : ∀ p, t ∉ g.spots p) :
    Step g { g with
      parked := update g.parked t true
      softint := update g.softint i (some (.parked,t))
      parks := update g.parks t (g.parks t + 1) }
  | unlock (i : ι) (t : τ) (hi : g.softint i = some (.parked,t)) :
    Step g { g with
      running := update g.running t false
      softint := update g.softint i (some (.watching,t)) }
  | leave (i : ι) (t : τ) (hi : g.softint i = some (.watching,t))
    (ht : g.count t ≠ 0 ∨ g.parked t = false) :
    Step g { g with softint := update g.softint i none }
  | unpark (i : ι) (t : τ) (hi : g.softint i = some (.watching,t)) (ht : g.parked t = true) :
    Step g { g with
      parked := update g.parked t false
      softint := update g.softint i (some (.handed,t)) }
  | requeue (i : ι) (t : τ) (hi : g.softint i = some (.handed,t)) :
    Step g { g with
      softint := update g.softint i none
      requeues := update g.requeues t (g.requeues t + 1) }
  | finish (i : ι) (t : τ) (hi : g.softint i = some (.running,t)) :
    Step g { g with
      running := update g.running t false
      softint := update g.softint i none }
  | disable (x : θ) (t : τ) (p : Phase) (hx : g.caller x = none)
    (hp : p = .waiting ∨ p = .counted) :
    Step g { g with
      count := update g.count t (g.count t + 1)
      caller := update g.caller x (some (p,t)) }
  | disabled (x : θ) (t : τ) (hx : g.caller x = some (.waiting,t)) (ht : g.running t = false) :
    Step g { g with caller := update g.caller x (some (.disabled,t)) }
  | enable (x : θ) (t : τ) (p : Phase) (hx : g.caller x = some (p,t))
    (hp : p = .disabled ∨ p = .counted) :
    Step g { g with
      count := update g.count t (g.count t - 1)
      caller := update g.caller x
        (if g.count t - 1 = 0 then some (.unparking,t) else none) }
  | pass (x : θ) (t : τ) (hx : g.caller x = some (.unparking,t)) (ht : g.parked t = false) :
    Step g { g with caller := update g.caller x none }
  | unparkCaller (x : θ) (t : τ) (hx : g.caller x = some (.unparking,t)) (ht : g.parked t = true) :
    Step g { g with
      parked := update g.parked t false
      caller := update g.caller x (some (.handed,t)) }
  | requeueCaller (x : θ) (t : τ) (hx : g.caller x = some (.handed,t)) :
    Step g { g with
      caller := update g.caller x none
      requeues := update g.requeues t (g.requeues t + 1) }

def Locked (g : Gate ι θ τ) : Prop :=
  Queues.Placed (Stage.locks ∘ g.softint) fun t => g.running t = true

def Counted (g : Gate ι θ τ) : Prop := ∀ t, Tally g.caller (Phase.Counts t) (g.count t)

def Synced (g : Gate ι θ τ) : Prop :=
  ∀ x t i, g.caller x = some (.disabled,t) → g.softint i ≠ some (.running,t)

def Watch (g : Gate ι θ τ) (t : τ) : Prop :=
  (∃ i, g.softint i = some (.parked,t) ∨ g.softint i = some (.watching,t)) ∨
    ∃ x, g.caller x = some (.unparking,t)

def Watched (g : Gate ι θ τ) : Prop := ∀ t, g.parked t = true → g.count t = 0 → g.Watch t

/-- A tasklet has been queued again as often as it was parked, up to the one time for which it
is still parked or on its way back. -/
def Noted (g : Gate ι θ τ) : Prop :=
  g.spots.Placed (fun t => g.parks t = g.requeues t + 1) ∧
    ∀ t, g.parks t = g.requeues t ∨ g.parks t = g.requeues t + 1

structure Inv (g : Gate ι θ τ) : Prop where
  locked : g.Locked
  counted : g.Counted
  synced : g.Synced
  watched : g.Watched
  noted : g.Noted

variable {g g' : Gate ι θ τ}

theorem locked_step (h : g.Locked) (hstep : g.Step g') : g'.Locked := by
  have hkeep {i : ι} {v : Option (Stage × τ)} (hv : Stage.locks v = Stage.locks (g.softint i)) :
      Queues.Placed (Stage.locks ∘ update g.softint i v) fun t => g.running t = true := by
    rw [comp_update,hv]
    exact (update_eq_self i (Stage.locks ∘ g.softint)).symm ▸ h
  have hrelease {i : ι} {t : τ} {v : Option (Stage × τ)} (hi : Stage.locks (g.softint i) = [t])
      (hv : Stage.locks v = []) :
      Queues.Placed (Stage.locks ∘ update g.softint i v)
        fun u => update g.running t false u = true := by
    rw [comp_update,hv]
    refine (h.leave (k := i) (c := t) (List.Perm.of_eq hi)).congr fun u => ?_
    by_cases hu : u = t <;> simp [hu]
  cases hstep with
  | lock i t hi ht =>
    change Queues.Placed (Stage.locks ∘ update g.softint i _) _
    rw [comp_update]
    refine (h.enter (k := i) (c := t) (by simp [ht]) ?_).congr fun u => ?_
    · simp [Stage.locks,hi]
    · by_cases hu : u = t <;> simp [hu]
  | accept i t hi | park i t hi | leave i t hi | unpark i t hi | requeue i t hi =>
    exact hkeep (by rw [hi]; rfl)
  | unlock i t hi | finish i t hi => exact hrelease (by rw [hi]; rfl) rfl
  | _ => exact h

theorem counted_step (h : g.Counted) (hstep : g.Step g') : g'.Counted := by
  cases hstep with
  | disable x t p hx hp =>
    intro u
    have hnone : ¬Phase.Counts u (g.caller x) := by simp [Phase.Counts,hx]
    by_cases hu : u = t
    · subst hu
      have hv : Phase.Counts u (some (p,u)) := by
        rcases hp with rfl | rfl <;> simp [Phase.Counts]
      simpa using (h u).join hv hnone
    · have hv : ¬Phase.Counts u (some (p,t)) := by simp [Phase.Counts,Ne.symm hu]
      simpa [hu] using (h u).keep (iff_of_false hv hnone)
  | enable x t p hx hp =>
    intro u
    have hv : ¬Phase.Counts u (if g.count t - 1 = 0 then some (Phase.unparking,t) else none) := by
      split <;> simp [Phase.Counts]
    by_cases hu : u = t
    · subst hu
      have hxu : Phase.Counts u (g.caller x) := by
        rw [hx]
        rcases hp with rfl | rfl <;> simp [Phase.Counts]
      simpa using (h u).quit hv hxu
    · have hxu : ¬Phase.Counts u (g.caller x) := by simp [Phase.Counts,hx,Ne.symm hu]
      simpa [hu] using (h u).keep (iff_of_false hv hxu)
  | disabled x t hx | pass x t hx | unparkCaller x t hx | requeueCaller x t hx =>
    exact fun u => (h u).keep (by simp [Phase.Counts,hx])
  | _ => exact h

theorem synced_step (h : g.Synced) (hlock : g.Locked) (hcount : g.Counted) (hstep : g.Step g') :
    g'.Synced := by
  -- a soft interrupt that does not start to run a function
  have hsoft {i : ι} {v : Option (Stage × τ)} (hv : ∀ u, v ≠ some (.running,u)) (x : θ) (u : τ)
      (j : ι) (hx : g.caller x = some (.disabled,u)) :
      update g.softint i v j ≠ some (.running,u) := by
    by_cases hj : j = i
    · subst hj
      simpa using hv u
    · simpa [hj] using h x u j hx
  -- a caller whose disable does not return just now
  have hcall {x : θ} {v : Option (Phase × τ)} (hv : ∀ u, v ≠ some (.disabled,u)) (y : θ) (u : τ)
      (j : ι) (hy : update g.caller x v y = some (.disabled,u)) :
      g.softint j ≠ some (.running,u) := by
    by_cases hyx : y = x
    · subst hyx
      exact absurd (by simpa using hy) (hv u)
    · exact h y u j (by simpa [hyx] using hy)
  cases hstep with
  | accept i t hi ht =>
    intro x u j hx
    change update g.softint i (some (.running,t)) j ≠ some (.running,u)
    have hpos : g.count u ≠ 0 := (hcount u).not_zero (.inr (.inl hx))
    by_cases hj : j = i
    · subst hj
      have hne : t ≠ u := fun htu => hpos (htu ▸ ht)
      simpa using hne
    · simpa [hj] using h x u j hx
  | disabled x t hx ht =>
    intro y u j hy
    change update g.caller x (some (.disabled,t)) y = some (.disabled,u) at hy
    by_cases hyx : y = x
    · subst hyx
      obtain rfl : t = u := by simpa using hy
      intro (hj : g.softint j = some (.running,t))
      have hmem : t ∈ (Stage.locks ∘ g.softint) j := by simp [Stage.locks,hj]
      have hrun : g.running t = true := (hlock.mem_iff t).mp ⟨j,hmem⟩
      simp [hrun] at ht
    · exact h y u j (by simpa [hyx] using hy)
  | lock | park | unlock | leave | unpark | requeue | finish => exact hsoft (by simp)
  | disable x t p _ hp => exact hcall (by rcases hp with rfl | rfl <;> simp)
  | enable x t p _ _ => exact hcall fun u => by split <;> simp
  | pass | unparkCaller | requeueCaller => exact hcall (by simp)

theorem watched_step (h : g.Watched) (hstep : g.Step g') : g'.Watched := by
  -- the others that watch go on doing so
  have hsoft {i : ι} {v : Option (Stage × τ)} {u : τ} (hu : g.Watch u)
      (hi : g.softint i ≠ some (.parked,u) ∧ g.softint i ≠ some (.watching,u)) :
      Watch { g with softint := update g.softint i v } u := by
    rcases hu with ⟨j,hj⟩ | hu
    · have hji : j ≠ i := fun hji => by
        subst hji
        exact hj.elim hi.1 hi.2
      exact .inl ⟨j,by simpa [hji] using hj⟩
    · exact .inr hu
  have hcall {x : θ} {v : Option (Phase × τ)} {u : τ} (hu : g.Watch u)
      (hx : g.caller x ≠ some (.unparking,u)) :
      Watch { g with caller := update g.caller x v } u := by
    rcases hu with hu | ⟨y,hy⟩
    · exact .inl hu
    · have hyx : y ≠ x := fun hyx => hx (hyx ▸ hy)
      exact .inr ⟨y,by simpa [hyx] using hy⟩
  intro u hpark hcount
  cases hstep with
  | lock i t hi | accept i t hi | finish i t hi | requeue i t hi =>
    exact hsoft (h u hpark hcount) (by simp [hi])
  | park i t hi _ =>
    by_cases hu : u = t
    · subst hu
      exact .inl ⟨i,.inl (update_self i _ g.softint)⟩
    · exact hsoft (h u (by simpa [hu] using hpark) hcount) (by simp [hi])
  | unlock i t hi =>
    by_cases hu : u = t
    · subst hu
      exact .inl ⟨i,.inr (update_self i _ g.softint)⟩
    · exact hsoft (h u hpark hcount) (by simp [hi,Ne.symm hu])
  | leave i t hi ht =>
    have hu : u ≠ t := fun hu => by
      subst hu
      exact ht.elim (· hcount) fun hnot => by simp [hnot] at hpark
    exact hsoft (h u hpark hcount) (by simp [hi,hu.symm])
  | unpark i t hi _ =>
    have hu : u ≠ t := fun hu => by simp [hu] at hpark
    exact hsoft (h u (by simpa [hu] using hpark) hcount) (by simp [hi,hu.symm])
  | disable x t p hx _ =>
    have hu : u ≠ t := fun hu => by simp [hu] at hcount
    exact hcall (h u hpark (by simpa [hu] using hcount)) (by simp [hx])
  | disabled x t hx | requeueCaller x t hx => exact hcall (h u hpark hcount) (by simp [hx])
  | enable x t p hx hp =>
    by_cases hu : u = t
    · subst hu
      have hzero : g.count u - 1 = 0 := by simpa using hcount
      exact .inr ⟨x,by simp [hzero]⟩
    · exact hcall (h u hpark (by simpa [hu] using hcount)) (by simp [hx,Ne.symm hu])
  | pass x t hx ht =>
    have hu : u ≠ t := fun hu => by
      subst hu
      simp [ht] at hpark
    exact hcall (h u hpark hcount) (by simp [hx,hu.symm])
  | unparkCaller x t hx _ =>
    have hu : u ≠ t := fun hu => by simp [hu] at hpark
    exact hcall (h u (by simpa [hu] using hpark) hcount) (by simp [hx,hu.symm])

section Spots

theorem spots_softint (i : ι) (v : Option (Stage × τ)) :
    spots { g with softint := update g.softint i v } =
      update g.spots (.softint i) (Stage.hands v) := by
  funext p
  cases p with
  | softint j =>
    by_cases hj : j = i
    · subst hj
      simp [spots]
    · simp [spots,hj]
  | _ => simp [spots]

theorem spots_caller (x : θ) (v : Option (Phase × τ)) :
    spots { g with caller := update g.caller x v } =
      update g.spots (.caller x) (Phase.hands v) := by
  funext p
  cases p with
  | caller y =>
    by_cases hy : y = x
    · subst hy
      simp [spots]
    · simp [spots,hy]
  | _ => simp [spots]

theorem spots_parked (t : τ) (b : Bool) :
    spots { g with parked := update g.parked t b } =
      update g.spots (.word t) (if b then [t] else []) := by
  funext p
  cases p with
  | word u =>
    by_cases hu : u = t
    · subst hu
      simp [spots]
    · simp [spots,hu]
  | _ => simp [spots]

section

variable {t : τ} {q : Queues (Spot ι θ τ) τ}

omit [DecidableEq ι] [DecidableEq θ]

theorem Noted.parked (h : g.Noted) (ht : ∀ p, t ∉ g.spots p)
    (hq : q.Placed fun u => g.parks u = g.requeues u + 1 ∨ u = t) :
    q.Placed (fun u => update g.parks t (g.parks t + 1) u = g.requeues u + 1) ∧
      ∀ u, update g.parks t (g.parks t + 1) u = g.requeues u ∨
        update g.parks t (g.parks t + 1) u = g.requeues u + 1 := by
  have heq : g.parks t = g.requeues t := (h.2 t).resolve_right fun hopen =>
    (h.1.mem_iff t).mpr hopen |>.elim ht
  refine ⟨hq.congr fun u => ?_,fun u => ?_⟩
  · by_cases hu : u = t
    · subst hu
      simp [heq]
    · simp [hu]
  · by_cases hu : u = t
    · subst hu
      simp [heq]
    · simpa [hu] using h.2 u

theorem Noted.requeued (h : g.Noted) (ht : g.parks t = g.requeues t + 1)
    (hq : q.Placed fun u => g.parks u = g.requeues u + 1 ∧ u ≠ t) :
    q.Placed (fun u => g.parks u = update g.requeues t (g.requeues t + 1) u + 1) ∧
      ∀ u, g.parks u = update g.requeues t (g.requeues t + 1) u ∨
        g.parks u = update g.requeues t (g.requeues t + 1) u + 1 := by
  refine ⟨hq.congr fun u => ?_,fun u => ?_⟩
  · by_cases hu : u = t
    · subst hu
      simp [ht]
    · simp [hu]
  · by_cases hu : u = t
    · subst hu
      simp [ht]
    · simpa [hu] using h.2 u

end

theorem noted_step (h : g.Noted) (hstep : g.Step g') : g'.Noted := by
  have hsoft {i : ι} {v : Option (Stage × τ)} (hv : Stage.hands v = Stage.hands (g.softint i)) :
      spots { g with softint := update g.softint i v } = g.spots := by
    rw [spots_softint,hv]
    exact update_eq_self (Spot.softint i) g.spots
  have hcall {x : θ} {v : Option (Phase × τ)} (hv : Phase.hands v = Phase.hands (g.caller x)) :
      spots { g with caller := update g.caller x v } = g.spots := by
    rw [spots_caller,hv]
    exact update_eq_self (Spot.caller x) g.spots
  have hkeep {q : Queues (Spot ι θ τ) τ} (hq : q = g.spots) :
      q.Placed (fun t => g.parks t = g.requeues t + 1) ∧
        ∀ t, g.parks t = g.requeues t ∨ g.parks t = g.requeues t + 1 := hq ▸ h
  have hmem {t : τ} {p : Spot ι θ τ} (hp : g.spots p = [t]) : g.parks t = g.requeues t + 1 :=
    (h.1.mem_iff t).mp ⟨p,hp ▸ List.mem_singleton_self t⟩
  -- a tasklet that is unparked goes from its word to the spot `p`
  have hunpark {t : τ} {p : Spot ι θ τ} {q : Queues (Spot ι θ τ) τ} (ht : g.parked t = true)
      (hne : p ≠ .word t) (hp : g.spots p = [])
      (hq : q = update (spots { g with parked := update g.parked t false }) p [t]) :
      q.Placed (fun t => g.parks t = g.requeues t + 1) ∧
        ∀ t, g.parks t = g.requeues t ∨ g.parks t = g.requeues t + 1 := by
    rw [hq,show _ = update g.spots (.word t) [] from spots_parked t false]
    refine ⟨h.1.transfer (c := t) hne.symm ?_ ?_,h.2⟩
    · simp [spots,ht]
    · rw [hp]
  cases hstep with
  | lock i t hi | accept i t hi | unlock i t hi | leave i t hi | finish i t hi =>
    exact hkeep (hsoft (by rw [hi]; rfl))
  | park i t hi ht =>
    have hword : g.spots (.word t) = [] := by
      cases hp : g.parked t with
      | false => simp [spots,hp]
      | true => exact absurd (by simp [spots,hp]) (ht (.word t))
    have hq : spots { g with
        parked := update g.parked t true
        softint := update g.softint i (some (.parked,t)) } =
        update g.spots (.word t) [t] := by
      rw [← hsoft (i := i) (v := some (.parked,t)) (by rw [hi]; rfl)]
      exact spots_parked (g := { g with softint := update g.softint i _ }) t true
    refine h.parked ht ?_
    refine hq.symm ▸ h.1.enter (fun hopen => ?_) ?_
    · exact ((h.1.mem_iff t).mpr hopen).elim ht
    · rw [hword]
  | unpark i t hi ht =>
    exact hunpark ht (by simp) (by simp [spots,hi,Stage.hands])
      (spots_softint (g := { g with parked := update g.parked t false }) i _)
  | requeue i t hi =>
    have hp : g.spots (.softint i) = [t] := by simp [spots,hi,Stage.hands]
    refine h.requeued (hmem hp) ?_
    exact (spots_softint (g := g) i none).symm ▸ h.1.leave (k := Spot.softint i) (List.Perm.of_eq hp)
  | disable x t p hx hp =>
    exact hkeep (hcall (by rw [hx]; rcases hp with rfl | rfl <;> rfl))
  | disabled x t hx | pass x t hx => exact hkeep (hcall (by rw [hx]; rfl))
  | enable x t p hx hp =>
    refine hkeep (hcall ?_)
    rw [hx]
    rcases hp with rfl | rfl <;> split <;> rfl
  | unparkCaller x t hx ht =>
    exact hunpark ht (by simp) (by simp [spots,hx,Phase.hands])
      (spots_caller (g := { g with parked := update g.parked t false }) x _)
  | requeueCaller x t hx =>
    have hp : g.spots (.caller x) = [t] := by simp [spots,hx,Phase.hands]
    refine h.requeued (hmem hp) ?_
    exact (spots_caller (g := g) x none).symm ▸ h.1.leave (k := Spot.caller x) (List.Perm.of_eq hp)

end Spots

theorem Inv.step (h : g.Inv) (hstep : g.Step g') : g'.Inv where
  locked := locked_step h.locked hstep
  counted := counted_step h.counted hstep
  synced := synced_step h.synced h.locked h.counted hstep
  watched := watched_step h.watched hstep
  noted := noted_step h.noted hstep

end Gate
end NanoBSD.Tasklet
