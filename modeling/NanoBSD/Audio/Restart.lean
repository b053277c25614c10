import NanoBSD.Audio.Idle

/-! # No data waits for a halted mixer

While `sc_idle_stopped` is clear the mixer runs, is being started, or has nothing to play.
While it is set, every track the mixer should be mixing has a writer that has yet to read the
flag or has read it. The hooks follow the flag.
-/
namespace NanoBSD.Audio
open Function List
variable {τ θ : Type}

structure Marks (exlock : Option (Section τ θ)) (pbusy idleStopped : Bool) (hooks : List Hook) :
    Prop where
  looking : ∀ todo, exlock = some (.looking todo) → pbusy = true ∧ idleStopped = true
  sleeping : exlock = some .sleeping → pbusy = false ∧ idleStopped = true
  recording : exlock = some .recording → idleStopped = false
  stopped : idleStopped = true → pbusy = true → ∃ todo, exlock = some (.looking todo)
  chain : hooks.IsChain (· ≠ ·)
  parked : hooks.head? = some .sleep ↔ exlock = none ∧ idleStopped = true

structure Inv (s : State τ θ) : Prop where
  popens : s.popens = s.files.length + s.closing.length
  opened : ∀ x ∈ s.files, x ∈ s.seen
  written : ∀ w x, (s.writer w).on = some x → x ∈ s.seen
  fresh : s.pbusy = false → s.idleStopped = false → ¬s.Starting → ∀ x ∈ s.files,
    (s.track x).busy = false ∧ ∀ w, (s.writer w).on = some x → s.writer w = .entering x
  covered : s.pbusy = false → s.idleStopped = true → ¬s.Starting → ∀ x ∈ s.files,
    s.Waiting x → s.Heeded
  looked : ∀ todo, s.exlock = some (.looking todo) → ∀ x ∈ s.files, x ∉ todo →
    s.Waiting x → s.Heeded
  marks : Marks s.exlock s.pbusy s.idleStopped s.hooks

theorem attached_inv : Inv (attached : State τ θ) := by
  refine ⟨rfl,?_,?_,?_,?_,?_,?_⟩
  case refine_6 => constructor <;> simp [attached]
  all_goals simp [attached,Writer.on]

variable {s t : State τ θ} {todo : List τ} {x : τ}

theorem chain_cons {l : List Hook} {a : Hook} (h : l.IsChain (· ≠ ·)) (ha : l.head? ≠ some a) :
    (a :: l).IsChain (· ≠ ·) := by
  cases l with
  | nil => exact .singleton a
  | cons b l =>
    refine isChain_cons_cons.mpr ⟨?_,h⟩
    rintro rfl
    exact ha rfl

theorem Marks.released {pbusy : Bool} {hooks : List Hook} (hchain : hooks.IsChain (· ≠ ·))
    (hawake : hooks.head? ≠ some .sleep) : Marks (none : Option (Section τ θ)) pbusy false hooks :=
  ⟨nofun,nofun,nofun,nofun,hchain,by simp [hawake]⟩

section
variable (h : Inv s)
include h

theorem Inv.awake {c : Section τ θ} (hlock : s.exlock = some c) : s.hooks.head? ≠ some .sleep := by
  intro hhead
  have hnone := (h.marks.parked.mp hhead).1
  rw [hlock] at hnone
  cases hnone

theorem Inv.callWake (hlock : s.exlock = none) :
    s.callWake.IsChain (· ≠ ·) ∧ s.callWake.head? ≠ some .sleep := by
  unfold State.callWake
  split
  · rename_i hflag
    refine ⟨?_,by simp⟩
    apply chain_cons h.marks.chain
    rw [h.marks.parked.mpr ⟨hlock,hflag⟩]
    simp
  · rename_i hflag
    exact ⟨h.marks.chain,fun hhead => hflag (h.marks.parked.mp hhead).2⟩

theorem Inv.startMixer (hlock : s.exlock = none) (hidle : s.pbusy = false) (track : τ → Track)
    (w : Option θ) : Inv (State.startMixer { s with track } w) := by
  have hwake := h.callWake hlock
  have hstart : (State.startMixer { s with track } w).Starting := ⟨w,rfl⟩
  exact { h with
    fresh := fun _ _ hno => absurd hstart hno
    covered := fun _ _ hno => absurd hstart hno
    looked := nofun
    marks := by
      refine ⟨nofun,nofun,nofun,?_,hwake.1,iff_of_false hwake.2 (by simp [State.startMixer])⟩
      intro _ hbusy
      cases hidle.symm.trans hbusy }

theorem Inv.unstopped (hlock : s.exlock = none) (hflag : s.idleStopped = true) :
    s.pbusy = false := by
  by_contra hbusy
  obtain ⟨todo,htodo⟩ := h.marks.stopped hflag (by simpa using hbusy)
  rw [hlock] at htodo
  cases htodo

theorem Inv.recordStart (hlock : s.exlock = none) (hflag : s.idleStopped = false) :
    Inv { s with hooks := s.callWake, exlock := some .recording } := by
  have hwake := h.callWake hlock
  have hno : ¬s.Starting := by simp [State.Starting,hlock]
  exact { h with
    fresh := fun hidle _ _ => h.fresh hidle hflag hno
    covered := fun _ hset => (by cases hflag.symm.trans hset)
    looked := nofun
    marks := by
      refine ⟨nofun,nofun,fun _ => hflag,?_,hwake.1,by simp [hwake.2]⟩
      exact fun hset => (by cases hflag.symm.trans hset) }

theorem Inv.recordStarted (hlock : s.exlock = some .recording) :
    Inv { s with idleStopped := false, rbusy := true, exlock := none } := by
  have hflag := h.marks.recording hlock
  have hno : ¬s.Starting := by simp [State.Starting,hlock]
  have hawake := h.awake hlock
  exact { h with
    fresh := fun hidle _ _ => h.fresh hidle hflag hno
    covered := nofun
    looked := nofun
    marks := .released h.marks.chain hawake }

theorem Inv.idleBegin (hbusy : s.pbusy = true) (hflag : s.idleStopped = false) :
    Inv { s with idleStopped := true, exlock := some (.looking s.files) } := by
  have hawake : s.hooks.head? ≠ some .sleep := fun hhead =>
    (by cases hflag.symm.trans (h.marks.parked.mp hhead).2)
  exact { h with
    fresh := nofun
    covered := fun hidle => (by cases hbusy.symm.trans hidle)
    looked := by
      intro todo he x hx hout
      cases he
      exact absurd hx hout
    marks :=
      ⟨fun _ _ => ⟨hbusy,rfl⟩,nofun,nofun,fun _ _ => ⟨_,rfl⟩,h.marks.chain,by simp [hawake]⟩ }

theorem Inv.lookBusy (hlock : s.exlock = some (.looking todo)) :
    Inv { s with idleStopped := false, exlock := none } := by
  have hbusy := (h.marks.looking todo hlock).1
  have hawake := h.awake hlock
  exact { h with
    fresh := fun hidle => (by cases hbusy.symm.trans hidle)
    covered := fun hidle => (by cases hbusy.symm.trans hidle)
    looked := nofun
    marks := .released h.marks.chain hawake }

theorem Inv.lookNext (hlock : s.exlock = some (.looking (x :: todo)))
    (hx : ¬((s.track x).isPause = false ∧ (s.track x).busy = true)) :
    Inv { s with exlock := some (.looking todo) } := by
  obtain ⟨hbusy,hflag⟩ := h.marks.looking _ hlock
  have hawake := h.awake hlock
  refine { h with fresh := ?fresh, covered := ?covered, looked := ?looked, marks := ?marks }
  case fresh | covered => exact fun hidle => (by cases hbusy.symm.trans hidle)
  case looked =>
    intro todo' he y hy hout hwait
    cases he
    refine h.looked _ hlock y hy ?_ hwait
    rintro (_ | ⟨_,hmem⟩)
    · exact hx hwait
    · exact hout hmem
  case marks =>
    exact ⟨fun _ _ => ⟨hbusy,hflag⟩,nofun,nofun,fun _ _ => ⟨_,rfl⟩,h.marks.chain,by simp [hawake]⟩

theorem Inv.halt (hlock : s.exlock = some (.looking [])) :
    Inv { s with pbusy := false, exlock := some .sleeping } := by
  obtain ⟨_,hflag⟩ := h.marks.looking _ hlock
  have hawake := h.awake hlock
  exact { h with
    fresh := fun _ hclear => (by cases hflag.symm.trans hclear)
    covered := fun _ _ _ x hx hwait => h.looked _ hlock x hx (by simp) hwait
    looked := nofun
    marks :=
      ⟨nofun,fun _ => ⟨rfl,hflag⟩,nofun,nofun,h.marks.chain,by simp [hawake]⟩ }

theorem Inv.slept (hlock : s.exlock = some .sleeping) :
    Inv { s with hooks := .sleep :: s.hooks, exlock := none } := by
  obtain ⟨hidle,hflag⟩ := h.marks.sleeping hlock
  have hno : ¬s.Starting := by simp [State.Starting,hlock]
  have hawake := h.awake hlock
  exact { h with
    fresh := fun _ hclear => (by cases hflag.symm.trans hclear)
    covered := fun _ _ _ => h.covered hidle hflag hno
    looked := nofun
    marks := by
      refine ⟨nofun,nofun,nofun,?_,?_,by simp [hflag]⟩
      · exact fun _ hbusy => (by cases hidle.symm.trans hbusy)
      · exact chain_cons h.marks.chain hawake }

end

theorem Writer.on_resume {pc : Writer τ} (h : pc.resume.on = some x) : pc.on = some x := by
  cases pc with
  | restarting y more =>
    cases more with
    | true => exact h
    | false => cases h
  | out | entering y | copying y | peeking y => exact h

section Writers
variable [DecidableEq θ] {w : θ} {x : τ} {more : Bool}

theorem Inv.setWriter (h : Inv s) {pc : Writer τ} (hon : ∀ x, pc.on = some x → x ∈ s.seen)
    (hfresh : s.pbusy = false → s.idleStopped = false → ¬s.Starting →
      ∀ x ∈ s.files, pc.on = some x → pc = .entering x)
    (hheeds : s.idleStopped = true → (s.writer w).heeds = true → pc.heeds = true) :
    Inv (s.setWriter w pc) := by
  -- Whoever would have restarted the mixer while the flag is set still does.
  have hheeded : s.idleStopped = true → s.Heeded → (s.setWriter w pc).Heeded := by
    rintro hflag ⟨v,hv⟩
    by_cases hvw : v = w
    · subst hvw
      exact ⟨v,by simpa [State.setWriter] using hheeds hflag hv⟩
    · exact ⟨v,by simpa [State.setWriter,hvw] using hv⟩
  exact { h with
    written := by
      intro v x hv
      by_cases hvw : v = w
      · subst hvw
        exact hon x (by simpa [State.setWriter] using hv)
      · exact h.written v x (by simpa [State.setWriter,hvw] using hv)
    fresh := by
      intro hidle hflag hno x hx
      obtain ⟨hempty,hwriters⟩ := h.fresh hidle hflag hno x hx
      refine ⟨hempty,fun v hv => ?_⟩
      by_cases hvw : v = w
      · subst hvw
        simp only [State.setWriter,update_self] at hv ⊢
        exact hfresh hidle hflag hno x hx hv
      · simp only [State.setWriter,update_of_ne hvw] at hv ⊢
        exact hwriters v hv
    covered := by
      intro hidle hflag hno x hx hwait
      exact hheeded hflag (h.covered hidle hflag hno x hx hwait)
    looked := by
      intro todo htodo x hx hout hwait
      exact hheeded (h.marks.looking todo htodo).2 (h.looked todo htodo x hx hout hwait) }

theorem Inv.mixerStarted (h : Inv s) {w : Option θ} (hlock : s.exlock = some (.starting w)) :
    Inv (s.mixerStarted w) := by
  have hawake := h.awake hlock
  exact { h with
    written := by
      intro v x hv
      cases w with
      | none => exact h.written v x hv
      | some w =>
        by_cases hvw : v = w
        · subst hvw
          exact h.written v x (Writer.on_resume (by simpa [State.mixerStarted] using hv))
        · exact h.written v x (by simpa [State.mixerStarted,hvw] using hv)
    fresh := nofun
    covered := nofun
    looked := nofun
    marks := .released h.marks.chain hawake }

theorem Inv.leave (h : Inv s) (hheeds : s.idleStopped = true → (s.writer w).heeds ≠ true) :
    Inv (s.setWriter w .out) :=
  h.setWriter nofun nofun fun hset hw => absurd hw (hheeds hset)

theorem Inv.peek (h : Inv s) (hw : s.writer w = .peeking x) : Inv (s.setWriter w
      (if s.idleStopped then .restarting x more else if more then .copying x else .out)) := by
  have hon : (s.writer w).on = some x := by rw [hw]; rfl
  by_cases hflag : s.idleStopped = true
  · rw [if_pos hflag]
    refine h.setWriter ?_ ?_ fun _ _ => rfl
    · intro y hy
      cases hy
      exact h.written w x hon
    · exact fun _ hclear => (by cases hflag.symm.trans hclear)
  · rw [if_neg hflag]
    cases more with
    | false => exact h.leave fun hset => absurd hset hflag
    | true =>
      refine h.setWriter ?_ ?_ fun hset => absurd hset hflag
      · intro y hy
        cases hy
        exact h.written w x hon
      · intro hidle hclear hno y hy hy'
        cases hy'
        have hentering := (h.fresh hidle hclear hno x hy).2 w hon
        rw [hw] at hentering
        cases hentering

theorem Inv.restartNot (h : Inv s) (hlock : s.exlock = none) (hw : s.writer w = .restarting x more)
    (hrun : ¬(s.pbusy = false ∧ s.idleStopped = true)) :
    Inv (s.setWriter w (Writer.restarting x more).resume) := by
  refine h.setWriter ?_ ?_ ?_
  · intro y hy
    exact h.written w y (by rw [hw]; exact Writer.on_resume hy)
  · intro hidle hclear hno y hy hy'
    have hentering := (h.fresh hidle hclear hno y hy).2 w (by rw [hw]; exact Writer.on_resume hy')
    rw [hw] at hentering
    cases hentering
  · exact fun hset => absurd ⟨h.unstopped hlock hset,hset⟩ hrun

end Writers

section Tracks
variable [DecidableEq τ] {x : τ}

theorem Inv.setTrack (h : Inv s) {t : Track}
    (hbusy : s.pbusy = false → s.idleStopped = false → ¬s.Starting → t.busy = true →
      (s.track x).busy = true)
    (hwait : s.idleStopped = true → t.isPause = false → t.busy = true → s.Waiting x) :
    Inv (s.setTrack x t) := by
  have hwaiting : s.idleStopped = true → ∀ y, (s.setTrack x t).Waiting y → s.Waiting y := by
    intro hflag y hy
    by_cases hyx : y = x
    · subst hyx
      simp only [State.Waiting,State.setTrack,update_self] at hy
      exact hwait hflag hy.1 hy.2
    · simpa [State.Waiting,State.setTrack,hyx] using hy
  exact { h with
    fresh := by
      intro hidle hflag hno y hy
      obtain ⟨hempty,hwriters⟩ := h.fresh hidle hflag hno y hy
      refine ⟨?_,hwriters⟩
      by_cases hyx : y = x
      · subst hyx
        simp only [State.setTrack,update_self]
        by_contra hne
        have hfull := hbusy hidle hflag hno (by simpa using hne)
        rw [hempty] at hfull
        cases hfull
      · simpa [State.setTrack,hyx] using hempty
    covered := by
      exact fun hidle hflag hno y hy hw => h.covered hidle hflag hno y hy (hwaiting hflag y hw)
    looked := by
      intro todo htodo y hy hout hw
      exact h.looked todo htodo y hy hout (hwaiting (h.marks.looking todo htodo).2 y hw) }

theorem Inv.openTrack (h : Inv s) {frame : ℕ} {isPause : Bool} (hlock : s.exlock = none)
    (hx : x ∉ s.seen) (hframe : 0 < frame) : Inv { s.setTrack x ⟨0,0,frame,isPause⟩ with
      files := x :: s.files, seen := x :: s.seen, popens := s.popens + 1 } := by
  have hempty : (⟨0,0,frame,isPause⟩ : Track).busy = false := by
    simp only [Track.busy,Nat.le_zero_eq,Nat.lt_irrefl,decide_false,Bool.or_false,decide_eq_false_iff_not]
    omega
  have hold : ∀ y ∈ s.files, y ≠ x := by
    rintro y hy rfl
    exact hx (h.opened y hy)
  exact { h with
    popens := by
      have hpopens := h.popens
      simp only [State.setTrack,length_cons]
      omega
    opened := by
      rintro y (_ | ⟨_,hy⟩)
      · exact mem_cons_self
      · exact mem_cons_of_mem _ (h.opened y hy)
    written := fun w y hw => mem_cons_of_mem _ (h.written w y hw)
    fresh := by
      rintro hidle hflag hno y (_ | ⟨_,hy⟩)
      · exact ⟨by simpa [State.setTrack] using hempty,fun w hw => absurd (h.written w x hw) hx⟩
      · obtain ⟨hb,hw⟩ := h.fresh hidle hflag hno y hy
        exact ⟨by simpa [State.setTrack,hold y hy] using hb,hw⟩
    covered := by
      rintro hidle hflag hno y (_ | ⟨_,hy⟩) hwait
      · simp [State.Waiting,State.setTrack,hempty] at hwait
      · exact h.covered hidle hflag hno y hy
          (by simpa [State.Waiting,State.setTrack,hold y hy] using hwait)
    looked := fun todo he => (by cases hlock.symm.trans he) }

theorem Inv.close (h : Inv s) (hx : x ∈ s.files) :
    Inv { s with files := s.files.erase x, closing := x :: s.closing } := by
  have hsub : ∀ y ∈ s.files.erase x, y ∈ s.files := fun y => mem_of_mem_erase
  have hlen := length_erase_of_mem hx
  have hpos := length_pos_of_mem hx
  exact { h with
    popens := by
      have hpopens := h.popens
      simp only [length_cons]
      omega
    opened := fun y hy => h.opened y (hsub y hy)
    fresh := fun hidle hflag hno y hy => h.fresh hidle hflag hno y (hsub y hy)
    covered := fun hidle hflag hno y hy => h.covered hidle hflag hno y (hsub y hy)
    looked := fun todo htodo y hy => h.looked todo htodo y (hsub y hy) }

theorem Inv.unlinked (h : Inv s) (hlock : s.exlock = none) (hx : x ∈ s.closing)
    (hlast : s.popens = 1 → s.idleStopped = false) : Inv (s.unlinked x) := by
  have hlen := length_erase_of_mem hx
  have hpos := length_pos_of_mem hx
  have hpopens := h.popens
  -- The flag is the same in both cases.
  have hflag : (s.unlinked x).idleStopped = s.idleStopped := by
    by_cases hone : s.popens = 1
    · simp [State.unlinked,hone,hlast hone]
    · simp [State.unlinked,hone]
  exact { h with
    popens := by
      simp only [State.unlinked]
      omega
    fresh := by
      intro hidle hclear hno y hy
      by_cases hone : s.popens = 1
      · have hfiles : s.files = [] := length_eq_zero_iff.mp (by omega)
        rw [show (s.unlinked x).files = s.files from rfl,hfiles] at hy
        cases hy
      · exact h.fresh (by simpa [State.unlinked,hone] using hidle) (hflag ▸ hclear) hno y hy
    covered := by
      intro hidle hset hno y hy hwait
      rw [hflag] at hset
      have hone : s.popens ≠ 1 := fun hone => (by cases (hlast hone).symm.trans hset)
      exact h.covered (by simpa [State.unlinked,hone] using hidle) hset hno y hy hwait
    looked := fun todo he => (by cases hlock.symm.trans he)
    marks := by
      have hlock' : (s.unlinked x).exlock = none := hlock
      rw [hflag,hlock']
      refine ⟨by simp,by simp,by simp,?_,h.marks.chain,?_⟩
      · intro hset hbusy
        have hidle := h.unstopped hlock hset
        simp [State.unlinked,hidle] at hbusy
      · have hparked := h.marks.parked
        rw [hlock] at hparked
        exact hparked }

theorem Inv.copy [DecidableEq θ] (h : Inv s) {w : θ} {t : Track} {pc : Writer τ}
    (hw : s.writer w = .copying x) (hpc : ∀ y, pc.on = some y → x = y)
    (hheeds : s.idleStopped = true → pc.heeds = true) : Inv ((s.setTrack x t).setWriter w pc) := by
  have hheeded : s.idleStopped = true → ((s.setTrack x t).setWriter w pc).Heeded := fun hset =>
    ⟨w,by simpa [State.setWriter] using hheeds hset⟩
  have hon : (s.writer w).on = some x := by rw [hw]; rfl
  refine { h with written := ?written, fresh := ?fresh, covered := ?_, looked := ?_ }
  case written =>
    intro v y hv
    by_cases hvw : v = w
    · subst hvw
      obtain rfl := hpc y (by simpa [State.setWriter] using hv)
      exact h.written v x hon
    · exact h.written v y (by simpa [State.setWriter,State.setTrack,hvw] using hv)
  case fresh =>
    intro hidle hflag hno y hy
    obtain ⟨hempty,hwriters⟩ := h.fresh hidle hflag hno y hy
    have hyx : y ≠ x := by
      rintro rfl
      have hentering := hwriters w hon
      rw [hw] at hentering
      cases hentering
    refine ⟨by simpa [State.setTrack,State.setWriter,hyx] using hempty,fun v hv => ?_⟩
    have hvw : v ≠ w := by
      rintro rfl
      exact hyx (hpc y (by simpa [State.setWriter] using hv)).symm
    simp only [State.setWriter,State.setTrack,update_of_ne hvw] at hv ⊢
    exact hwriters v hv
  · exact fun _ hset _ _ _ _ => hheeded hset
  · exact fun todo he _ _ _ _ => hheeded (h.marks.looking todo he).2

end Tracks

section Runs
variable [DecidableEq τ] [DecidableEq θ] {e : Event τ θ}

theorem Inv.step (h : Inv s) (hsteady : Steady s e) (hstep : Audio.step s e = some t) : Inv t := by
  unfold Audio.step at hstep
  cases e with
  | openTrack x frame isPause =>
    obtain ⟨⟨hlock,hx,hframe⟩,rfl⟩ := of_guard hstep
    exact h.openTrack hlock hx hframe
  | writeBegin w x =>
    obtain ⟨⟨hw,hx⟩,rfl⟩ := of_guard hstep
    refine h.setWriter ?_ ?_ ?_
    · intro y hy
      cases hy
      exact h.opened x hx
    · intro _ _ _ y _ hy
      cases hy
      rfl
    · intro _ hheeds
      rw [hw] at hheeds
      cases hheeds
  | writeEnter w =>
    dsimp only at hstep
    split at hstep
    · rename_i x hlock hw
      cases hstep
      split
      · rename_i hbusy
        refine h.setWriter ?_ ?_ ?_
        · intro y hy
          exact h.written w y (by rw [hw]; exact hy)
        · exact fun hidle => (by cases hbusy.symm.trans hidle)
        · intro _ hheeds
          rw [hw] at hheeds
          cases hheeds
      · rename_i hidle
        exact h.startMixer hlock (by simpa using hidle) s.track _
    · cases hstep
  | started =>
    dsimp only at hstep
    split at hstep
    · rename_i w hlock
      cases hstep
      exact h.mixerStarted hlock
    · cases hstep
  | copy w usrbuf outbuf =>
    dsimp only at hstep
    split at hstep
    · rename_i x hw
      cases hstep
      exact h.copy hw (fun _ => Option.some.inj) fun _ => rfl
    · cases hstep
  | fault w usrbuf =>
    dsimp only at hstep
    split at hstep
    · rename_i x hw
      obtain ⟨_,rfl⟩ := of_guard hstep
      refine h.copy hw nofun fun hset => ?_
      cases hsteady.symm.trans hset
    · cases hstep
  | giveUp w =>
    dsimp only at hstep
    split at hstep
    · rename_i x hw
      cases hstep
      exact h.leave (by rw [hw]; simp [Writer.heeds])
    · cases hstep
  | peek w more =>
    dsimp only at hstep
    split at hstep
    · rename_i x hw
      cases hstep
      exact h.peek hw
    · cases hstep
  | restart w =>
    dsimp only at hstep
    split at hstep
    · rename_i x more hlock hw
      cases hstep
      split
      · rename_i hstop
        exact h.startMixer hlock hstop.1 s.track _
      · rename_i hrun
        exact h.restartNot hlock hw hrun
    · cases hstep
  | interrupted w =>
    dsimp only at hstep
    split at hstep
    · cases hstep
      exact h.leave fun hset => (by cases hsteady.symm.trans hset)
    · cases hstep
  | mix x usrbuf outbuf =>
    obtain ⟨⟨_,hbusy⟩,rfl⟩ := of_guard hstep
    exact h.setTrack (fun _ _ _ => hbusy) fun _ hpause hfull => ⟨hpause,hbusy hfull⟩
  | pause x =>
    obtain ⟨_,rfl⟩ := of_guard hstep
    exact h.setTrack (fun _ _ _ hfull => hfull) nofun
  | unpause x =>
    obtain ⟨⟨hlock,_⟩,rfl⟩ := of_guard hstep
    dsimp only
    split
    · rename_i hstop
      exact h.startMixer hlock hstop.1 _ _
    · rename_i hrun
      refine h.setTrack (fun _ _ _ hfull => hfull) fun hset => ?_
      exact absurd ⟨h.unstopped hlock hset,hset⟩ hrun
  | recordStart =>
    obtain ⟨⟨hlock,_⟩,rfl⟩ := of_guard hstep
    exact h.recordStart hlock hsteady
  | recordStarted =>
    obtain ⟨hlock,rfl⟩ := of_guard hstep
    exact h.recordStarted hlock
  | recordStop =>
    obtain ⟨_,rfl⟩ := of_guard hstep
    exact ⟨h.popens,h.opened,h.written,h.fresh,h.covered,h.looked,h.marks⟩
  | close x =>
    dsimp only at hstep
    split at hstep
    · cases hstep
    · obtain ⟨hx,rfl⟩ := of_guard hstep
      exact h.close hx
  | unlink x =>
    obtain ⟨⟨hlock,hx⟩,rfl⟩ := of_guard hstep
    exact h.unlinked hlock hx hsteady
  | idleBegin =>
    obtain ⟨⟨_,hbusy,_,hflag⟩,rfl⟩ := of_guard hstep
    exact h.idleBegin hbusy hflag
  | look =>
    dsimp only at hstep
    split at hstep
    · rename_i x todo hlock
      cases hstep
      split
      · exact h.lookBusy hlock
      · rename_i hidle
        exact h.lookNext hlock hidle
    · cases hstep
  | halt =>
    obtain ⟨hlock,rfl⟩ := of_guard hstep
    exact h.halt hlock
  | slept =>
    obtain ⟨hlock,rfl⟩ := of_guard hstep
    exact h.slept hlock

theorem reachable_inv {es : List (Event τ θ)} (hrun : exec step attached es = some s)
    (hsteady : Along step Steady attached es) : Inv s :=
  exec_invariant_along Inv (fun _ _ _ h hs hstep => h.step hs hstep) attached_inv hsteady hrun

def Quiet (s : State τ θ) : Prop := s.exlock = none ∧ ∀ w, s.writer w = .out

def Unstranded (s : State τ θ) : Prop :=
  s.pbusy = false → ∀ x ∈ s.files, (s.track x).isPause = false → (s.track x).busy = false

theorem mixer_restarted {es : List (Event τ θ)} (hrun : exec step attached es = some s)
    (hsteady : Along step Steady attached es) :
    (Quiet s → Unstranded s) ∧ s.hooks.IsChain (· ≠ ·) := by
  have hinv := reachable_inv hrun hsteady
  refine ⟨?_,hinv.marks.chain⟩
  rintro ⟨hlock,hout⟩ hidle x hx hpause
  have hno : ¬s.Starting := by simp [State.Starting,hlock]
  cases hflag : s.idleStopped with
  | false => exact (hinv.fresh hidle hflag hno x hx).1
  | true =>
    -- The flag is set, so a track that waits has a writer on its way to the mixer.
    by_contra hbusy
    obtain ⟨w,hw⟩ := hinv.covered hidle hflag hno x hx ⟨hpause,by simpa using hbusy⟩
    rw [hout w] at hw
    cases hw

end Runs

def writing : List (Event Bool Unit) :=
  [.openTrack true 4 false,.writeBegin () true,.writeEnter (),.started]

def idleStop : List (Event Bool Unit) := [.idleBegin,.look,.halt,.slept]

/-- A copy that the idle stop missed, and a second idle stop once it was played. -/
def missedCopy : List (Event Bool Unit) :=
  writing ++ [.idleBegin,.look,.copy () 4 0,.halt,.slept,.peek () false,.restart (),.started,
    .mix true 0 0] ++ idleStop

theorem mixer_restarted_missedCopy : ∃ s, exec step attached missedCopy = some s ∧
    Along step Steady attached missedCopy ∧ Quiet s ∧ s.pbusy = false ∧
      s.hooks = [.sleep,.wake,.sleep] ∧ Unstranded s ∧ s.hooks.IsChain (· ≠ ·) := by
  obtain ⟨s,hrun,hlock,hw,hidle,hhooks⟩ : ∃ s, exec step attached missedCopy = some s ∧ s.exlock =
      none ∧ s.writer () = .out ∧ s.pbusy = false ∧ s.hooks = [.sleep,.wake,.sleep] := by
      decide +kernel
  have hsteady : Along step Steady attached missedCopy := by decide +kernel
  have hquiet : Quiet s := ⟨hlock,fun _ => hw⟩
  obtain ⟨hunstranded,hchain⟩ := mixer_restarted hrun hsteady
  exact ⟨s,hrun,hsteady,hquiet,hidle,hhooks,hunstranded hquiet,hchain⟩

/-- The record mixer clears the flag before the writer or the unpause reads it; a fault leaves
without reading it; a signal ends the wait for the lock. -/
def strandings : List (List (Event Bool Unit)) :=
  [writing ++ idleStop ++ [.recordStart,.recordStarted,.copy () 4 0,.peek () false],
   writing ++ [.copy () 4 0,.peek () false,.pause true] ++ idleStop ++
     [.recordStart,.recordStarted,.unpause true],
   writing ++ [.idleBegin,.look,.fault () 4,.halt,.slept],
   writing ++ [.idleBegin,.look,.copy () 4 0,.halt,.peek () false,.interrupted (),.slept]]

/-- The last track is closed after an idle stop and another one is stopped later. -/
def closedAsleep : List (Event Bool Unit) :=
  writing ++ [.giveUp ()] ++ idleStop ++ [.close true,.unlink true,.openTrack false 4 false,
    .writeBegin () false,.writeEnter (),.started,.giveUp ()] ++ idleStop

theorem data_stranded :
    (∀ es ∈ strandings, ∃ s, exec step attached es = some s ∧ Quiet s ∧ ¬Unstranded s) ∧
      ∃ s, exec step attached closedAsleep = some s ∧ ¬s.hooks.IsChain (· ≠ ·) := by
  have hall : ∀ es ∈ strandings, ∃ s, exec step attached es = some s ∧ s.exlock = none ∧
      s.writer () = .out ∧ s.pbusy = false ∧ true ∈ s.files ∧ (s.track true).isPause = false ∧
      (s.track true).busy = true := by decide +kernel
  refine ⟨fun es hes => ?_,by decide +kernel⟩
  obtain ⟨s,hrun,hlock,hw,hidle,hx,hpause,hbusy⟩ := hall es hes
  refine ⟨s,hrun,⟨hlock,fun _ => hw⟩,fun hun => ?_⟩
  rw [hun hidle true hx hpause] at hbusy
  cases hbusy

end NanoBSD.Audio
