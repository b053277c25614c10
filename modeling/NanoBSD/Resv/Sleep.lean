import NanoBSD.Resv.Wakeup

/-! # Sleeping past a signal

All pollers of a reservation object share one callback on one fence. Some event that was asked for
has or had that fence, but not always the event of the caller that sleeps: if its event can be
ready while a fence of another event, or one that was replaced, is unsignalled, the caller may
sleep on.
-/
namespace NanoBSD.Resv
open Function
variable {π φ : Type}

def Event.asks : Event π φ → Wish → Bool
  | .poll _ events, e => events.has e
  | _, _ => false

def Asked (es : List (Event π φ)) (e : Wish) : Prop := es.any (·.asks e) = true

/-- The fences that a call comes to are of events that were asked for. -/
structure Poller.Sourced (asked : Wish → Prop) (had : φ → Prop) (x : Poller φ) : Prop where
  events : ∀ e, x.events.has e = true → asked e
  active : x.pc.away = false → ∃ e, asked e
  shares : x.pc.shares = true → asked .pollout
  carried : ∀ f ∈ x.pc.carried, had f

theorem Poller.Sourced.goto {asked : Wish → Prop} {had : φ → Prop} {x : Poller φ}
    (h : x.Sourced asked had) (haway : x.pc.away = false) {g : Pc φ} {m : Mask}
    (hshares : g.shares = true → asked .pollout) (hcarried : ∀ f ∈ g.carried, had f) :
    Poller.Sourced asked had { x with revents := m, pc := g } where
  events := h.events
  active _ := h.active haway
  shares := hshares
  carried := hcarried

namespace State

def Ready (s : State π φ) (e : Wish) : Prop :=
  ∀ f ∈ (s.past s.version).fences e, s.signaled f = true

/-- The fence is, or was until it was replaced, one of an event that was asked for. -/
def Had (s : State π φ) (asked : Wish → Prop) (f : φ) : Prop :=
  ∃ e, asked e ∧ ∃ v ≤ s.version, f ∈ (s.past v).fences e

/-- The event is not ready before all those fences are signalled. -/
def Last (s : State π φ) (asked : Wish → Prop) (e : Wish) : Prop :=
  s.Ready e → ∀ f, s.Had asked f → s.signaled f = true

structure Sourced (asked : Wish → Prop) (s : State π φ) : Prop where
  pollers : ∀ p, (s.poller p).Sourced asked (s.Had asked)
  queued : ∀ f ∈ s.rp.queued, s.Had asked f

variable {s s' : State π φ} {asked : Wish → Prop} {p : π}

theorem Had.write {f : φ} (h : s.Had asked f) (r : Robj φ) : (s.write r).Had asked f := by
  obtain ⟨e,he,v,hv,hf⟩ := h
  refine ⟨e,he,v,Nat.le_succ_of_le hv,?_⟩
  have hpast : (s.write r).past v = s.past v := update_of_ne (by omega) _ _
  rwa [hpast]

namespace Sourced
variable (h : s.Sourced asked)
include h

theorem pollCb : s.pollCb.Sourced asked := ⟨h.pollers,by rintro f ⟨⟩⟩

theorem write (r : Robj φ) : (s.write r).Sourced asked where
  pollers q := { h.pollers q with carried := fun f hf => ((h.pollers q).carried f hf).write r }
  queued f hf := (h.queued f hf).write r

theorem goesOn {x : Poller φ} (haway : (s.poller p).pc.away = false) (hx : s.Sources p x) :
    x.Sourced asked (s.Had asked) := by
  obtain ⟨hevents,hactive,hshares,hcarried⟩ := h.pollers p
  refine ⟨hx.events ▸ hevents,fun _ => hactive haway,fun hs => ?_,fun f hf => ?_⟩
  · exact (hx.shares hs).elim hshares fun hout => hevents _ (hx.events ▸ hout)
  · rcases hx.carried f hf with hf | ⟨v,hv,hf | ⟨hs,hf⟩⟩
    · exact hcarried f hf
    · obtain ⟨e,he⟩ := hactive haway
      exact ⟨e,he,v,hv,by cases e <;> simp [Robj.fences,hf]⟩
    · exact ⟨.pollout,hshares hs,v,hv,List.mem_append_right _ hf⟩

variable [DecidableEq π]

theorem setPoller {x : Poller φ} (hx : x.Sourced asked (s.Had asked)) :
    (s.setPoller p x).Sourced asked := by
  refine ⟨fun q => ?_,h.queued⟩
  change (update s.poller p x q).Sourced asked (s.Had asked)
  by_cases hq : q = p
  · rwa [hq,update_self]
  · rw [update_of_ne hq]
    exact h.pollers q

theorem record (haway : (s.poller p).pc.away = false) : (s.record p).Sourced asked := by
  have hgoto := (h.pollers p).goto haway (g := .top) (m := (s.poller p).revents) nofun nofun
  unfold State.record
  dsimp only
  split
  · exact setPoller (s := { s with sel := update s.sel p .recorded }) ⟨h.pollers,h.queued⟩
      { hgoto with }
  · exact setPoller (s := { s with
      sel := update s.sel p .recorded, rp := { s.rp with claimed := true, fence := none } })
      ⟨h.pollers,h.queued⟩ { hgoto with }

theorem advance {w : ℕ} {gone : Bool} (hinv : s.Inv) (hstep : s.advance p w gone = some s') :
    s'.Sourced asked := by
  have haway := active_of_advance hstep
  have hx := h.pollers p
  rcases advance_cases (hinv.locals p) hstep with
    ⟨x,fence,-,-,-,-,hsrc,rfl⟩ | ⟨v,i,f,hpc,-,rfl⟩ | ⟨-,rfl⟩ | ⟨v,-,rfl⟩
  · exact setPoller (s := s.setFence fence) ⟨h.pollers,h.queued⟩ (h.goesOn haway { hsrc with })
  · refine setPoller (s := { s with rp := { s.rp with queued := some f } }) ⟨h.pollers,?_⟩ ?_
    · have hcarried := hx.carried
      rwa [hpc] at hcarried
    · cases i with
      | none => exact { hx.goto haway (g := .finish v) (m := .empty) nofun nofun with }
      | some i => exact { hx.goto haway (g := .excl v) (m := .empty) nofun nofun with }
  · exact h.record haway
  · split
    · exact h.pollCb.setPoller (hx.goto haway nofun nofun)
    · exact h.setPoller (hx.goto haway nofun nofun)

variable [DecidableEq φ]

theorem step {e : Event π φ} (hinv : s.Inv) (he : ∀ w, e.asks w = true → asked w)
    (hstep : Resv.step s e = some s') : s'.Sourced asked := by
  cases e with
  | poll p events =>
    obtain ⟨-,rfl⟩ := of_guard hstep
    refine setPoller (s := { s with sel := update s.sel p .off }) ⟨h.pollers,h.queued⟩ ?_
    by_cases hempty : events = Mask.empty
    · exact ⟨he,by simp [hempty,Pc.away],by simp [hempty,Pc.shares],by simp [hempty,Pc.carried]⟩
    · refine ⟨he,fun _ => ?_,by simp [hempty,Pc.shares],by simp [hempty,Pc.carried]⟩
      obtain ⟨_ | _,_ | _⟩ := events
      · exact absurd rfl hempty
      · exact ⟨.pollout,he .pollout rfl⟩
      all_goals exact ⟨.pollin,he .pollin rfl⟩
  | advance p w gone => exact h.advance hinv hstep
  | signal f =>
    obtain ⟨-,rfl⟩ := of_unless hstep
    unfold State.signal
    dsimp only
    split
    · exact ⟨h.pollers,by rintro g ⟨⟩⟩
    · exact ⟨h.pollers,h.queued⟩
  | write r =>
    cases hstep
    exact h.write r

end Sourced

theorem Sourced.of_exec [DecidableEq π] [DecidableEq φ] {es : List (Event π φ)}
    (hrun : exec Resv.step State.init es = some s) : s.Sourced (Asked es) := by
  have hinit : (State.init : State π φ).Sourced (Asked es) := by
    refine ⟨fun p => ⟨fun e he => ?_,nofun,nofun,nofun⟩,by rintro f ⟨⟩⟩
    cases e <;> cases he
  have hall : ∀ a ∈ es, ∀ w, a.asks w = true → Asked es w :=
    fun a ha w hw => List.any_eq_true.mpr ⟨a,ha,hw⟩
  exact (exec_invariant_along (fun s => s.Inv ∧ s.Sourced (Asked es))
    (fun _ _ _ h ha hstep => ⟨h.1.step hstep,h.2.step h.1 ha hstep⟩) ⟨Inv.init,hinit⟩
    (along_of_forall hall _) hrun).2

end State

variable [DecidableEq π] [DecidableEq φ]

/-- In any run the callback is queued on some unsignalled fence, if not on one that counts. -/
theorem poll_relies_on_claim {es : List (Event π φ)} {s : State π φ}
    (hrun : exec step State.init es = some s) {p : π} {v : ℕ} {e : Wish}
    (hpc : (s.poller p).pc = .returned v) (hlacks : (s.poller p).Lacks e) :
    s.sel p = .notified ∨ s.sel p = .recorded ∧
      ((∃ f, s.rp.queued = some f ∧ s.signaled f = false) ∨
        ∃ q, q ≠ p ∧ (s.poller q).owes = true) := by
  have hinv := State.Inv.of_exec hrun
  have hx := hinv.locals p
  cases hsel : s.sel p with
  | off => exact absurd hsel (hx.recorded (hx.lacks hlacks))
  | notified => exact .inl rfl
  | recorded =>
    refine .inr ⟨rfl,(hinv.relies hsel).imp_right ?_⟩
    rintro ⟨q,hq⟩
    refine ⟨q,?_,hq⟩
    rintro rfl
    simp [Poller.owes,hpc,Pc.away] at hq

/-- A call that returned without an event has recorded its caller, and there was a `selnotify`
since, or the callback is queued on an unsignalled fence while the event is not ready, or another
poller with the claim is still to queue or run it. -/
theorem poll_wakes_in_time {es : List (Event π φ)} {s : State π φ}
    (hrun : exec step State.init es = some s) {p : π} {v : ℕ} {e : Wish}
    (hpc : (s.poller p).pc = .returned v) (hlacks : (s.poller p).Lacks e)
    (hlast : s.Last (Asked es) e) :
    s.sel p = .notified ∨ s.sel p = .recorded ∧
      ((∃ f, s.rp.queued = some f ∧ s.signaled f = false) ∧ ¬s.Ready e ∨
        ∃ q, q ≠ p ∧ (s.poller q).owes = true) := by
  rcases poll_relies_on_claim hrun hpc hlacks with hsel | ⟨hsel,⟨f,hf,hunsig⟩ | hq⟩
  · exact .inl hsel
  · refine .inr ⟨hsel,.inl ⟨⟨f,hf,hunsig⟩,fun hready => ?_⟩⟩
    have hhad : s.Had (Asked es) f := (State.Sourced.of_exec hrun).queued f hf
    simp [hlast hready f hhad] at hunsig
  · exact .inr ⟨hsel,.inr hq⟩

def advances (p : Bool) (n : ℕ) : List (Event Bool Bool) :=
  List.replicate n (.advance p 1 false)

/-- One caller waits for all fences and queues the callback on the shared one; another waits for the
exclusive one. -/
def bothSleep : List (Event Bool Bool) :=
  [.write { excl := some false, shared := [true] },.poll false ⟨false,true⟩] ++ advances false 13 ++
    [.poll true ⟨true,false⟩] ++ advances true 8

/-- The shared fence is signalled first. -/
theorem bothSleep_wakes_in_time :
    ∃ s, exec step State.init (bothSleep ++ [.signal true,.signal false]) = some s ∧
      s.Ready .pollin ∧ (s.poller true).Lacks .pollin ∧ s.sel true = .notified := by
  obtain ⟨s,hrun,hpc,hlacks,hready,hall,howes⟩ :
      ∃ s, exec step State.init (bothSleep ++ [.signal true,.signal false]) = some s ∧
        (s.poller true).pc = .returned 1 ∧ (s.poller true).Lacks .pollin ∧
        (∀ f ∈ (s.past s.version).fences .pollin, s.signaled f = true) ∧
        (∀ f, s.signaled f = true) ∧ ∀ q, (s.poller q).owes = false := by decide +kernel
  rcases poll_wakes_in_time hrun hpc hlacks fun _ f _ => hall f with
    hnotified | ⟨-,⟨-,hnot⟩ | ⟨q,-,hq⟩⟩
  · exact ⟨s,hrun,hready,hlacks,hnotified⟩
  · exact absurd hready hnot
  · simp [howes q] at hq

/-- If the exclusive one is, the other caller sleeps past that signal: `POLLIN` is ready, and the
callback waits for the shared fence. -/
theorem pollinBehindPollout_sleeps :
    ∃ s, exec step State.init (bothSleep ++ [.signal false]) = some s ∧
    (s.poller true).pc = .returned 1 ∧ (s.poller true).Lacks .pollin ∧ s.sel true = .recorded ∧
    s.version = 1 ∧ (∀ f ∈ (s.past 1).fences .pollin, s.signaled f = true) ∧
    s.rp.queued = some true ∧ s.signaled true = false ∧ ∀ q, (s.poller q).owes = false := by
  decide +kernel

end NanoBSD.Resv
