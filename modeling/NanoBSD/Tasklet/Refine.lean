import NanoBSD.Tasklet.Park
import NanoBSD.Tasklet.Place

/-! # Tasklets follow the parking protocol

Each step of a soft interrupt or of a caller is a step of the parking protocol, or one that the
protocol does not see. That a tasklet is in one place makes sure that it is at no spot of the
protocol when it is parked.
-/
namespace NanoBSD.Tasklet
open Function List
variable {κ θ τ : Type} {t : τ} {a : Caller κ τ}

def Handler.stage : Handler τ → Option (Stage × τ)
  | .locked t _ | .park t _ => some (.locked,t)
  | .unlock t _ => some (.parked,t)
  | .check t _ | .unpark t _ => some (.watching,t)
  | .requeue _ t _ => some (.handed,t)
  | .clear t _ | .func t _ => some (.running,t)
  | _ => none

def Caller.phase : Caller κ τ → Option (Phase × τ)
  | .waiting t => some (.waiting,t)
  | .disabled true t => some (.disabled,t)
  | .disabled false t => some (.counted,t)
  | .unparking t _ => some (.unparking,t)
  | .requeue _ t _ => some (.handed,t)
  | _ => none

theorem Handler.stage_eq_handed {h : Handler τ} :
    h.stage = some (.handed,t) ↔ ∃ k th, h = .requeue k t th := by
  cases h <;> simp [Handler.stage]

theorem Caller.phase_eq_handed : a.phase = some (.handed,t) ↔ ∃ k kill, a = .requeue k t kill := by
  cases a with
  | disabled waited u => cases waited <;> simp [Caller.phase]
  | _ => simp [Caller.phase]

theorem Caller.phase_eq_unparking :
    a.phase = some (.unparking,t) ↔ ∃ kill, a = .unparking t kill := by
  cases a with
  | disabled waited u => cases waited <;> simp [Caller.phase]
  | _ => simp [Caller.phase]

namespace State

def gate (s : State κ θ τ) : Gate (κ × Kind) θ τ where
  running t := (s.word t).running
  parked t := (s.word t).parked
  count := s.disablecount
  softint i := (s.softint i).stage
  caller x := (s.caller x).phase
  parks := s.parks
  requeues := s.requeues

variable [DecidableEq κ] [DecidableEq θ] [DecidableEq τ] {s s' : State κ θ τ} {i : κ × Kind}

section Views

variable {i : κ × Kind} {h' : Handler τ} {x : θ} {a : Caller κ τ} {t : τ}

section

omit [DecidableEq θ] [DecidableEq τ]

theorem gate_setSoftint : (s.setSoftint i h').gate =
    { s.gate with softint := update s.gate.softint i h'.stage } := by
  have hview : (fun j => (update s.softint i h' j).stage) =
      update s.gate.softint i h'.stage := comp_update Handler.stage s.softint i h'
  simp only [gate,setSoftint,hview]

theorem gate_setSoftint_same (h : h'.stage = (s.softint i).stage) :
    (s.setSoftint i h').gate = s.gate := by
  have heq : update s.gate.softint i h'.stage = s.gate.softint := by
    rw [h]
    exact update_eq_self i s.gate.softint
  rw [gate_setSoftint,heq]

end

section

omit [DecidableEq κ] [DecidableEq τ]

theorem gate_setCaller : (s.setCaller x a).gate =
    { s.gate with caller := update s.gate.caller x a.phase } := by
  have hview : (fun y => (update s.caller x a y).phase) =
      update s.gate.caller x a.phase := comp_update Caller.phase s.caller x a
  simp only [gate,setCaller,hview]

theorem gate_setCaller_same (h : a.phase = (s.caller x).phase) :
    (s.setCaller x a).gate = s.gate := by
  have heq : update s.gate.caller x a.phase = s.gate.caller := by
    rw [h]
    exact update_eq_self x s.gate.caller
  rw [gate_setCaller,heq]

end

section

omit [DecidableEq κ] [DecidableEq θ]

theorem gate_setWord (w : Word) : (s.setWord t w).gate =
    { s.gate with
      running := update s.gate.running t w.running
      parked := update s.gate.parked t w.parked } := by
  have hrun : (fun u => (update s.word t w u).running) =
      update s.gate.running t w.running := comp_update Word.running s.word t w
  have hpark : (fun u => (update s.word t w u).parked) =
      update s.gate.parked t w.parked := comp_update Word.parked s.word t w
  simp only [gate,setWord,hrun,hpark]

theorem gate_setRunning (b : Bool) : (s.setWord t { s.word t with running := b }).gate =
    { s.gate with running := update s.gate.running t b } := by
  have hpark : update s.gate.parked t (s.word t).parked = s.gate.parked :=
    update_eq_self t s.gate.parked
  rw [gate_setWord,hpark]

theorem gate_setParked (b : Bool) : (s.setWord t { s.word t with parked := b }).gate =
    { s.gate with parked := update s.gate.parked t b } := by
  have hrun : update s.gate.running t (s.word t).running = s.gate.running :=
    update_eq_self t s.gate.running
  rw [gate_setWord,hrun]

theorem gate_setScheduled (b : Bool) (k : Kind) :
    (s.setWord t { s.word t with scheduled := b, kind := k }).gate = s.gate := by
  have hrun : update s.gate.running t (s.word t).running = s.gate.running :=
    update_eq_self t s.gate.running
  have hpark : update s.gate.parked t (s.word t).parked = s.gate.parked :=
    update_eq_self t s.gate.parked
  rw [gate_setWord,hrun,hpark]

end
end Views

omit [DecidableEq κ] [DecidableEq θ] [DecidableEq τ] in
theorem Placed.off_spots (hs : s.Placed) {k : Kind} {t : τ}
    (hi : (k,t) ∈ s.contents (.softint i)) (hstage : (s.softint i).stage ≠ some (.handed,t))
    (p : Gate.Spot (κ × Kind) θ τ) : t ∉ s.gate.spots p := by
  have hkind {k' : Kind} {q : Place κ θ τ} (hq : (k',t) ∈ s.contents q) : q = .softint i := by
    have hkk : k' = k := (hs.due_of_mem hq).2.symm.trans (hs.due_of_mem hi).2
    exact hs.unique hq (hkk ▸ hi)
  intro hp
  cases p with
  | softint j =>
    obtain ⟨k',th,hj⟩ := Handler.stage_eq_handed.mp (Stage.mem_hands.mp hp)
    have hmem : (k',t) ∈ s.contents (.softint j) := by simp [contents,hj,Handler.held]
    obtain rfl : j = i := Place.softint.inj (hkind hmem)
    exact hstage (Handler.stage_eq_handed.mpr ⟨k',th,hj⟩)
  | caller x =>
    obtain ⟨k',kill,hx⟩ := Caller.phase_eq_handed.mp (Phase.mem_hands.mp hp)
    have hmem : (k',t) ∈ s.contents (.caller x) := by simp [contents,hx,Caller.held]
    exact absurd (hkind hmem) (by simp)
  | word u =>
    by_cases hpark : (s.word u).parked
    · obtain rfl : t = u := by simpa [Gate.spots,gate,hpark] using hp
      have hmem : ((s.word t).kind,t) ∈ s.contents (.parked t) := by
        simp [contents,Word.held,hpark]
      exact absurd (hkind hmem) (by simp)
    · simp [Gate.spots,gate,hpark] at hp

def Follows (s s' : State κ θ τ) : Prop := s'.gate = s.gate ∨ s.gate.Step s'.gate

theorem softintr_follows (hs : s.Placed) (hstep : s.softintr i = some s') : s.Follows s' := by
  have hsame {u : State κ θ τ} {h' : Handler τ} (hu : u.gate = s.gate)
      (hi : h'.stage = (s.softint i).stage) : s.Follows (u.setSoftint i h') := by
    have hview : (u.softint i).stage = (s.softint i).stage := congrFun (congrArg Gate.softint hu) i
    exact .inl ((gate_setSoftint_same (hi.trans hview.symm)).trans hu)
  unfold softintr at hstep
  generalize hi : s.softint i = h at hstep
  cases h with
  | idle => cases hstep
  | start | putBack t th | kick k th =>
    cases hstep
    exact hsame rfl (by rw [hi]; rfl)
  | loop th =>
    cases th with
    | nil | cons t th =>
      cases hstep
      exact hsame rfl (by rw [hi]; rfl)
  | popped t th =>
    dsimp only at hstep
    split at hstep
    · cases hstep
      exact hsame rfl (by rw [hi]; rfl)
    · rename_i hrun
      cases hstep
      refine .inr ?_
      rw [gate_setSoftint,gate_setRunning]
      exact .lock i t (by simp [gate,hi,Handler.stage]) (by simpa [gate] using hrun)
  | locked t th =>
    cases hstep
    split
    · rename_i hcount
      refine .inr ?_
      rw [gate_setSoftint]
      exact .accept i t (by simp [gate,hi,Handler.stage]) hcount
    · exact hsame rfl (by rw [hi]; rfl)
  | park t th =>
    cases hstep
    have hmem : (i.2,t) ∈ s.contents (.softint i) := by simp [contents,hi,Handler.held]
    have hoff := hs.off_spots hmem (by simp [hi,Handler.stage])
    refine .inr ?_
    rw [gate_setSoftint]
    change s.gate.Step { gate (s.setWord t _) with softint := _, parks := _ }
    rw [gate_setParked]
    exact .park i t (by simp [gate,hi,Handler.stage]) hoff
  | unlock t th =>
    cases hstep
    refine .inr ?_
    rw [gate_setSoftint,gate_setRunning]
    exact .unlock i t (by simp [gate,hi,Handler.stage])
  | check t th =>
    cases hstep
    split
    · exact hsame rfl (by rw [hi]; rfl)
    · rename_i hcount
      refine .inr ?_
      rw [gate_setSoftint]
      exact .leave i t (by simp [gate,hi,Handler.stage]) (.inl hcount)
  | unpark t th =>
    dsimp only at hstep
    split at hstep
    · rename_i hpark
      cases hstep
      refine .inr ?_
      rw [gate_setSoftint,gate_setParked]
      exact .unpark i t (by simp [gate,hi,Handler.stage]) hpark
    · rename_i hpark
      cases hstep
      refine .inr ?_
      rw [gate_setSoftint]
      exact .leave i t (by simp [gate,hi,Handler.stage]) (.inr (by simpa [gate] using hpark))
  | requeue k t th =>
    cases hstep
    refine .inr ?_
    rw [gate_setSoftint]
    exact .requeue i t (by simp [gate,hi,Handler.stage])
  | clear t th =>
    cases hstep
    exact hsame (gate_setScheduled false (s.word t).kind) (by rw [hi]; rfl)
  | func t th =>
    cases hstep
    refine .inr ?_
    rw [gate_setSoftint,gate_setRunning]
    exact .finish i t (by simp [gate,hi,Handler.stage])

theorem proceed_follows {x : θ} {c : κ} (hstep : s.proceed x c = some s') : s.Follows s' := by
  have hafter (t : τ) (kill : Bool) : (afterUnpark t kill : Caller κ τ).phase = none := by
    unfold afterUnpark
    split <;> rfl
  have hsame {u : State κ θ τ} {a : Caller κ τ} (hu : u.gate = s.gate)
      (hx : a.phase = (s.caller x).phase) : s.Follows (u.setCaller x a) := by
    have hview : (u.caller x).phase = (s.caller x).phase := congrFun (congrArg Gate.caller hu) x
    exact .inl ((gate_setCaller_same (hx.trans hview.symm)).trans hu)
  unfold proceed at hstep
  generalize hx : s.caller x = a at hstep
  cases a with
  | idle | disabled waited t => cases hstep
  | enqueue k t =>
    cases hstep
    exact hsame rfl (by rw [hx]; rfl)
  | kick i t kill =>
    cases hstep
    exact hsame rfl (by rw [hafter,hx]; rfl)
  | killing t | reaping t =>
    obtain ⟨-,rfl⟩ := of_unless hstep
    exact hsame rfl (by rw [hx]; rfl)
  | waiting t =>
    obtain ⟨hrun,rfl⟩ := of_unless hstep
    refine .inr ?_
    rw [gate_setCaller]
    exact .disabled x t (by simp [gate,hx,Caller.phase]) (by simpa [gate] using hrun)
  | unparking t kill =>
    dsimp only at hstep
    split at hstep
    · rename_i hpark
      cases hstep
      refine .inr ?_
      rw [gate_setCaller,gate_setParked]
      exact .unparkCaller x t (by simp [gate,hx,Caller.phase]) hpark
    · rename_i hpark
      cases hstep
      refine .inr ?_
      rw [gate_setCaller,hafter]
      exact .pass x t (by simp [gate,hx,Caller.phase]) (by simpa [gate] using hpark)
  | requeue k t kill =>
    cases hstep
    refine .inr ?_
    rw [gate_setCaller]
    exact .requeueCaller x t (by simp [gate,hx,Caller.phase])

end State

namespace State
variable [DecidableEq κ] [DecidableEq θ] [DecidableEq τ] {s s' : State κ θ τ} {e : Event κ θ τ}

theorem step_follows (hs : s.Placed) (hstep : step s e = some s') : s.Follows s' := by
  cases e with
  | schedule x k t =>
    obtain ⟨hx,rfl⟩ := of_guard hstep
    unfold queueSchedule
    split
    · exact .inl rfl
    · refine .inl ((gate_setCaller_same ?_).trans (gate_setScheduled true k))
      simp only [noteAsked,setWord,hx]
      rfl
  | disable x m t =>
    obtain ⟨hx,hdis⟩ := Option.ite_none_right_eq_some.mp hstep
    obtain ⟨-,rfl⟩ := of_guard hdis
    have hidle : s.gate.caller x = none := by simp [gate,hx,Caller.phase]
    refine .inr ?_
    rw [gate_setCaller]
    cases m with
    | nosync => exact .disable x t .counted hidle (.inr rfl)
    | sync => exact .disable x t .waiting hidle (.inl rfl)
    | syncOnce =>
      dsimp only
      split
      · exact .disable x t .waiting hidle (.inl rfl)
      · exact .disable x t .counted hidle (.inr rfl)
  | enable x kill =>
    simp only [step] at hstep
    cases hx : s.caller x with
    | disabled waited t =>
      simp only [hx,Option.some.injEq] at hstep
      subst hstep
      have hphase (n : ℕ) : (if n = 0 then Caller.unparking t kill else .idle : Caller κ τ).phase =
          if n = 0 then some (.unparking,t) else none := by split <;> rfl
      refine .inr ?_
      unfold enable
      rw [gate_setCaller,hphase]
      cases waited with
      | true => exact .enable x t .disabled (by simp [gate,hx,Caller.phase]) (.inl rfl)
      | false => exact .enable x t .counted (by simp [gate,hx,Caller.phase]) (.inr rfl)
    | _ => simp [hx] at hstep
  | proceed x c => exact proceed_follows hstep
  | dispatch i =>
    obtain ⟨⟨-,hi⟩,rfl⟩ := of_guard hstep
    refine .inl ((gate_setSoftint_same ?_).trans rfl)
    simp only [setPending,hi]
    rfl
  | softintr i => exact softintr_follows hs hstep

def Kinds (s : State κ θ τ) : Prop := ∀ t, (s.word t).scheduled = true → (s.word t).kind = s.asked t

omit [DecidableEq κ] [DecidableEq θ] in
theorem Kinds.setWord (h : s.Kinds) {t : τ} {w : Word}
    (hsched : w.scheduled = true → (s.word t).scheduled = true) (hkind : w.kind = (s.word t).kind) :
    (s.setWord t w).Kinds := by
  intro u hu
  by_cases hut : u = t
  · subst hut
    simp only [State.setWord,update_self] at hu ⊢
    exact hkind.trans (h u (hsched hu))
  · simp only [State.setWord,update_of_ne hut] at hu ⊢
    exact h u hu

theorem Kinds.step (h : s.Kinds) (hstep : step s e = some s') : s'.Kinds := by
  cases e with
  | schedule x k t =>
    obtain ⟨-,rfl⟩ := of_guard hstep
    unfold queueSchedule
    split
    · exact h
    · intro u hu
      by_cases hut : u = t
      · simp [State.setCaller,noteAsked,State.setWord,hut]
      · simp only [State.setCaller,noteAsked,State.setWord,update_of_ne hut] at hu ⊢
        exact h u hu
  | disable x m t =>
    obtain ⟨-,hdis⟩ := Option.ite_none_right_eq_some.mp hstep
    obtain ⟨-,rfl⟩ := of_guard hdis
    exact h
  | enable x kill =>
    simp only [Tasklet.step] at hstep
    split at hstep <;> cases hstep
    exact h
  | proceed x c =>
    simp only [Tasklet.step,proceed] at hstep
    split at hstep <;> (try split at hstep) <;> cases hstep
    all_goals first | exact h | exact h.setWord id rfl
  | dispatch i =>
    obtain ⟨-,rfl⟩ := of_guard hstep
    exact h
  | softintr i =>
    simp only [Tasklet.step,softintr] at hstep
    split at hstep <;> (try split at hstep) <;> cases hstep
    all_goals first | exact h | exact h.setWord id rfl | exact h.setWord (by simp) rfl

structure Inv (s : State κ θ τ) : Prop where
  placed : s.Placed
  kinds : s.Kinds
  parking : s.gate.Inv

omit [DecidableEq κ] [DecidableEq θ] [DecidableEq τ] in
theorem Inv.init : (State.init : State κ θ τ).Inv where
  placed := Queues.placed_of_nil (fun p => by cases p <;> rfl) fun e => by simp [due,State.init]
  kinds := fun t ht => by simp [State.init] at ht
  parking :=
    { locked := Queues.placed_of_nil (fun _ => rfl) fun t => by simp [gate,State.init]
      counted := fun t => Tally.of_forall_not fun x => by
        simp [gate,State.init,Caller.phase,Phase.Counts]
      synced := fun x t i hx => by simp [gate,State.init,Caller.phase] at hx
      watched := fun t ht => by simp [gate,State.init] at ht
      noted :=
        ⟨Queues.placed_of_nil (fun p => by cases p <;> rfl) fun t => by simp [gate,State.init],
          fun t => .inl rfl⟩ }

theorem Inv.step (h : s.Inv) (hstep : step s e = some s') : s'.Inv where
  placed := h.placed.step hstep
  kinds := h.kinds.step hstep
  parking := (step_follows h.placed hstep).elim (fun heq => heq.symm ▸ h.parking) h.parking.step

theorem Inv.of_exec {es : List (Event κ θ τ)} (hrun : exec Tasklet.step State.init es = some s) :
    s.Inv :=
  exec_invariant Inv (fun _ _ _ h hstep => h.step hstep) Inv.init hrun

end State

def Handler.Runs (t : τ) (h : Handler τ) : Prop := ∃ th, h = .func t th
def Handler.Starts (t : τ) (h : Handler τ) : Prop := ∃ th, h = .clear t th

def Handler.Parks (t : τ) (h : Handler τ) : Prop :=
  ∃ th, h = .unlock t th ∨ h = .check t th ∨ h = .unpark t th

namespace State

def tasklets (s : State κ θ τ) (p : Place κ θ τ) : List τ := (s.contents p).map Prod.snd

def Handed (s : State κ θ τ) (k : Kind) (t : τ) : Prop :=
  (∃ i th, s.softint i = .requeue k t th) ∨ ∃ x kill, s.caller x = .requeue k t kill

namespace Inv
variable {s : State κ θ τ} {t : τ} {k : Kind} {p p' : Place κ θ τ}

theorem due_iff (h : s.Inv) : (∃ p, t ∈ s.tasklets p) ↔ (s.word t).scheduled = true := by
  constructor
  · rintro ⟨p,hp⟩
    obtain ⟨⟨k,u⟩,hmem,rfl⟩ := mem_map.mp hp
    exact (h.placed.due_of_mem hmem).1
  · intro ht
    obtain ⟨p,hp⟩ := (h.placed.mem_iff ((s.word t).kind,t)).mpr ⟨ht,rfl⟩
    exact ⟨p,mem_map.mpr ⟨_,hp,rfl⟩⟩

theorem same_kind (h : s.Inv) {k' : Kind} (hp : (k,t) ∈ s.contents p)
    (hp' : (k',t) ∈ s.contents p') : k = k' :=
  (h.placed.due_of_mem hp).2.symm.trans (h.placed.due_of_mem hp').2

theorem place_unique (h : s.Inv) (hp : t ∈ s.tasklets p) (hp' : t ∈ s.tasklets p') : p = p' := by
  obtain ⟨⟨k,u⟩,hmem,rfl⟩ := mem_map.mp hp
  obtain ⟨⟨k',u'⟩,hmem',heq⟩ := mem_map.mp hp'
  obtain rfl : u' = u := heq
  obtain rfl := h.same_kind hmem hmem'
  exact h.placed.unique hmem hmem'

theorem tasklets_nodup (h : s.Inv) (p : Place κ θ τ) : (s.tasklets p).Nodup := by
  refine (h.placed.nodup p).map_on ?_
  rintro ⟨k,u⟩ hmem ⟨k',u'⟩ hmem' heq
  obtain rfl : u = u' := heq
  rw [h.same_kind hmem hmem']

theorem kind_eq_asked (h : s.Inv) (hp : (k,t) ∈ s.contents p) : k = s.asked t := by
  obtain ⟨hsched,hkind⟩ := h.placed.due_of_mem hp
  exact hkind.symm.trans (h.kinds t hsched)

theorem handed_contents (ht : s.Handed k t) : ∃ p, (k,t) ∈ s.contents p := by
  rcases ht with ⟨i,th,hi⟩ | ⟨x,kill,hx⟩
  · exact ⟨.softint i,by simp [contents,hi,Handler.held]⟩
  · exact ⟨.caller x,by simp [contents,hx,Caller.held]⟩

theorem locks_unique (h : s.Inv) {i j : κ × Kind} (hi : (s.softint i).Runs t)
    (hj : (s.softint j).Runs t) : i = j := by
  have hmem {i : κ × Kind} (hi : (s.softint i).Runs t) :
      t ∈ (Stage.locks ∘ s.gate.softint) i := by
    obtain ⟨th,hth⟩ := hi
    simp [gate,hth,Handler.stage,Stage.locks]
  exact h.parking.locked.unique (hmem hi) (hmem hj)

theorem not_started (h : s.Inv) {x : θ} (hx : s.caller x = .disabled true t) (i : κ × Kind) :
    ¬(s.softint i).Starts t ∧ ¬(s.softint i).Runs t := by
  have hphase : s.gate.caller x = some (.disabled,t) := by simp [gate,hx,Caller.phase]
  have hstage := h.parking.synced x t i hphase
  constructor
  all_goals
    rintro ⟨th,hth⟩
    exact hstage (by simp [gate,hth,Handler.stage])

theorem parked_watch (h : s.Inv) (hpark : (s.word t).parked = true)
    (hcount : s.disablecount t = 0) :
    (∃ i, (s.softint i).Parks t) ∨ ∃ x kill, s.caller x = .unparking t kill := by
  rcases h.parking.watched t hpark hcount with ⟨i,hi⟩ | ⟨x,hx⟩
  · refine .inl ⟨i,?_⟩
    change (s.softint i).stage = _ ∨ (s.softint i).stage = _ at hi
    cases hh : s.softint i <;> simp_all [Handler.stage,Handler.Parks]
  · refine .inr ⟨x,?_⟩
    exact Caller.phase_eq_unparking.mp hx

theorem spots_iff : (∃ p, t ∈ s.gate.spots p) ↔ (s.word t).parked = true ∨ ∃ k, s.Handed k t := by
  constructor
  · rintro ⟨p,hp⟩
    cases p with
    | softint i =>
      obtain ⟨k,th,hi⟩ := Handler.stage_eq_handed.mp (Stage.mem_hands.mp hp)
      exact .inr ⟨k,.inl ⟨i,th,hi⟩⟩
    | caller x =>
      obtain ⟨k,kill,hx⟩ := Caller.phase_eq_handed.mp (Phase.mem_hands.mp hp)
      exact .inr ⟨k,.inr ⟨x,kill,hx⟩⟩
    | word u =>
      by_cases hpark : (s.word u).parked
      · obtain rfl : t = u := by simpa [Gate.spots,gate,hpark] using hp
        exact .inl hpark
      · simp [Gate.spots,gate,hpark] at hp
  · rintro (hpark | ⟨k,⟨i,th,hi⟩ | ⟨x,kill,hx⟩⟩)
    · exact ⟨.word t,by simp [Gate.spots,gate,hpark]⟩
    · exact ⟨.softint i,Stage.mem_hands.mpr (Handler.stage_eq_handed.mpr ⟨k,th,hi⟩)⟩
    · exact ⟨.caller x,Phase.mem_hands.mpr (Caller.phase_eq_handed.mpr ⟨k,kill,hx⟩)⟩

theorem requeued (h : s.Inv) :
    s.parks t = s.requeues t + 1 ↔ (s.word t).parked = true ∨ ∃ k, s.Handed k t :=
  (h.parking.noted.1.mem_iff t).symm.trans spots_iff

end Inv
end State

variable [DecidableEq κ] [DecidableEq θ] [DecidableEq τ]

/-- A scheduled tasklet is in one place, its function runs on one CPU at a time and never while a
disable that has returned is in force. A parked tasklet that is not just being parked or unparked is
disabled, and is queued again once for each parking, on a queue of its kind. -/
theorem tasklet_in_order {es : List (Event κ θ τ)} {s : State κ θ τ}
    (hrun : exec step State.init es = some s) (t : τ) :
    ((s.word t).scheduled = true → ∃! p, t ∈ s.tasklets p) ∧
    (∀ p, (s.tasklets p).Nodup ∧ (t ∈ s.tasklets p → (s.word t).scheduled = true)) ∧
    (∀ i j, (s.softint i).Runs t → (s.softint j).Runs t → i = j) ∧
    (∀ x, s.caller x = .disabled true t → ∀ i, ¬(s.softint i).Starts t ∧ ¬(s.softint i).Runs t) ∧
    ((∀ i, ¬(s.softint i).Parks t) → (∀ x kill, s.caller x ≠ .unparking t kill) →
      (s.word t).parked = true → s.disablecount t ≠ 0) ∧
    (((s.word t).parked = true ∨ ∃ k, s.Handed k t) → s.parks t = s.requeues t + 1) ∧
    (¬((s.word t).parked = true ∨ ∃ k, s.Handed k t) → s.parks t = s.requeues t) ∧
    (∀ k, s.Handed k t → k = s.asked t) ∧
    (∀ i, t ∈ s.queue i → i.2 = s.asked t) := by
  have h := State.Inv.of_exec hrun
  refine ⟨fun ht => ?_,fun p => ⟨h.tasklets_nodup p,fun hp => h.due_iff.mp ⟨p,hp⟩⟩,
    fun _ _ => h.locks_unique,fun _ => h.not_started,fun hsoft hcall hpark hcount => ?_,
    h.requeued.mpr,fun hnot => ?_,fun k hk => ?_,fun i hi => ?_⟩
  · obtain ⟨p,hp⟩ := h.due_iff.mpr ht
    exact ⟨p,hp,fun q hq => h.place_unique hq hp⟩
  · rcases h.parked_watch hpark hcount with ⟨i,hi⟩ | ⟨x,kill,hx⟩
    · exact hsoft i hi
    · exact hcall x kill hx
  · exact (h.parking.noted.2 t).resolve_right fun hopen => hnot (h.requeued.mp hopen)
  · obtain ⟨p,hp⟩ := State.Inv.handed_contents hk
    exact h.kind_eq_asked hp
  · exact h.kind_eq_asked (p := .queue i) (mem_map.mpr ⟨t,hi,rfl⟩)

/-- A tasklet scheduled on the high queue, found disabled by its soft interrupt and parked, and
then enabled and queued again. -/
def parkedAndBack : List (Event Unit Bool Unit) :=
  [.schedule true .hi (),.proceed true (),.proceed true (),.disable false .sync (),
    .proceed false (),.dispatch ((),.hi),.softintr ((),.hi),.softintr ((),.hi),.softintr ((),.hi),
    .softintr ((),.hi),.softintr ((),.hi),.softintr ((),.hi),.softintr ((),.hi),.enable false false,
    .proceed false (),.proceed false ()]

theorem parkedAndBack_in_order : ∃ s, exec step State.init parkedAndBack = some s ∧
    s.queue ((),.hi) = [()] ∧ s.parks () = 1 ∧ s.requeues () = 1 ∧
    (∃! p, () ∈ s.tasklets p) ∧ s.asked () = .hi := by
  obtain ⟨s,hrun,hqueue,hparks,hrequeues,hsched⟩ : ∃ s, exec step State.init parkedAndBack = some s
      ∧ s.queue ((),.hi) = [()] ∧ s.parks () = 1 ∧ s.requeues () = 1 ∧ (s.word ()).scheduled = true
      := by decide
  obtain ⟨hplace,-,-,-,-,-,-,-,hkind⟩ := tasklet_in_order hrun ()
  exact ⟨s,hrun,hqueue,hparks,hrequeues,hplace hsched,(hkind ((),.hi) (by simp [hqueue])).symm⟩

end NanoBSD.Tasklet
