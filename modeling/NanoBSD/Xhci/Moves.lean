import NanoBSD.Xhci.System

/-! # What a step can do

Most steps change one slot and the callout. They are listed apart, with the positions at
which they leave the holder of `sc_lock` and the system suspend and resume.
-/
namespace NanoBSD.Xhci
open Function Option List
variable {n : ℕ}

/-- A section on the slot `i`: what it leaves of the slot and the callout, and where the bus and the
system suspend are then. -/
inductive Turned (s : State n) (i : Fin n) : Event n → Core × Cell → Bus n → Pm n → Prop
  | owner {o : Owner} (a : Answer) (ho : (s.core i).owner = some o) :
      Turned s i (.owner i a) (advance s.env (s.core i) (s.cell i) o a) s.bus s.pm
  | pop (hq : (s.core i).queued = true) (hw : (s.core i).worker = .idle) :
      Turned s i (.pop i) ({ s.core i with queued := false, worker := .popped },s.cell i) s.bus s.pm
  | task (hw : (s.core i).worker = .popped) :
      Turned s i (.task i) (rtTask s.env (s.slots i),s.cell i) s.bus s.pm
  | wakeForOpen (hl : (s.core i).link = .bound) (hp : s.env.paused = false)
      (ho : (s.core i).owner = none) (hs : (s.core i).suspended = true) :
      Turned s i (.wakeForOpen i)
        ({ s.core i with resuming := true, owner := some ⟨.opener,.wake .done⟩ },s.cell i) s.bus s.pm
  | pipeOpened (d : ℕ) (own : Bool) (hd : d ≠ 1) (hnew : d ∉ (s.core i).pipes)
      (hl : (s.core i).link = .bound ∨ (s.core i).link = .unbinding) {k : Core}
      (hk : k = { s.core i with
        npipes := (s.core i).npipes + 1
        lastbusy := s.env.now
        pipes := insert d (s.core i).pipes }) :
      Turned s i (.pipeOpened i d own) (k,rtEvent s.env k own (s.cell i)) s.bus s.pm
  | pipeClosed (d : ℕ) (own : Bool) (hd : d ∈ (s.core i).pipes)
      (hrung : (s.core i).rung d = 0) (hheld : (s.core i).held d = 0)
      (hl : (s.core i).link = .bound) {k : Core}
      (hk : k = { s.core i with
        npipes := (s.core i).npipes - 1
        lastbusy := s.env.now
        pipes := (s.core i).pipes.erase d }) :
      Turned s i (.pipeClosed i d own) (k,rtEvent s.env k own (s.cell i)) s.bus s.pm
  | pipeGone (d : ℕ) (own : Bool) (hrung : (s.core i).rung d = 0) (hheld : (s.core i).held d = 0)
      (hl : (s.core i).link = .unbinding) :
      Turned s i (.pipeClosed i d own)
        ({ s.core i with pipes := (s.core i).pipes.erase d },s.cell i) s.bus s.pm
  | doorbell (d : ℕ) (hbus : s.bus = .free)
      (hl : (s.core i).link = .bound ∨ (s.core i).link = .unbinding)
      (hd : d = 1 ∨ d ∈ (s.core i).pipes) :
      Turned s i (.doorbell i d) (rtDoorbell s.env d ((s.core i).enqueue d),s.cell i)
        (if rtDoorbellResumes s.env (s.core i) then .kick i else .free) s.pm
  | complete (d : ℕ) (hl : (s.core i).link = .bound ∨ (s.core i).link = .unbinding) :
      Turned s i (.complete i d)
        ({ s.core i with
            lastbusy := s.env.now
            rung := update (s.core i).rung d ((s.core i).rung d - 1) },s.cell i)
        s.bus s.pm
  | abort (d rung held : ℕ) :
      Turned s i (.abort i d rung held)
        ({ s.core i with
            rung := update (s.core i).rung d ((s.core i).rung d - rung)
            held := update (s.core i).held d ((s.core i).held d - held) },s.cell i)
        s.bus s.pm
  | kick (resumes : Bool) (hbus : s.bus = .kick i) :
      Turned s i (.bus resumes) (rtKick s.env .resume (s.core i),s.cell i) .free s.pm
  | stir (resumes : Bool) (hbus : s.bus = .stir i) {c : Cell}
      (hc : c = { s.cell i with dl := { (s.cell i).dl with gen := (s.cell i).dl.gen + 1 } }) :
      Turned s i (.bus resumes)
        (s.core i,if c.dl.dormant then rtIdleArm s.env (s.core i) c else c) .free s.pm
  | wake (resumes : Bool) (hbus : s.bus = .wake i) :
      Turned s i (.bus resumes) ({ s.core i with resuming := true },s.cell i) (.kick i) s.pm
  | bind (root : Bool) (hl : (s.core i).link = .unbound) (hbus : s.bus.leaves i) :
      Turned s i (.bind i root) (bindCore s.env root (s.core i),bindDl (s.cell i)) s.bus s.pm
  | bound (hl : (s.core i).link = .binding) {k : Core} (hk : k = { s.core i with link := .bound }) :
      Turned s i (.bound i) (k,rtEvent s.env k false (s.cell i)) s.bus s.pm
  | unbind (hl : (s.core i).link = .bound) :
      Turned s i (.unbind i) ({ s.core i with link := .unbinding },rtDlClear (s.cell i)) s.bus s.pm
  | unbound (hl : (s.core i).link = .unbinding) (hq : (s.core i).queued = false)
      (hw : (s.core i).worker = .idle) (ho : (s.core i).owner = none) :
      Turned s i (.unbound i) (unboundCore (s.core i),bindDl (s.cell i)) s.bus s.pm
  | failKick {todo : List (Fin n)} (hpm : s.pm = .failKick i todo) :
      Turned s i .pm (rtKick s.env .resume (s.core i),s.cell i) s.bus (.failing todo)
  | unparkKick {todo : List (Fin n)} (hpm : s.pm = .unparkKick i todo) :
      Turned s i .pm (rtKick s.env .resume (s.core i),s.cell i) s.bus (.unparking todo)
  | ring {todo : List (Fin n)} (hpm : s.pm = .ringing (i :: todo)) (hl : (s.core i).link = .bound) :
      Turned s i .pm (rtRingPending s.env (s.core i),s.cell i) s.bus (.ringing todo)
  | restart (d : ℕ) (hpm : s.pm = .resuming)
      (hl : (s.core i).link = .bound ∨ (s.core i).link = .unbinding) :
      Turned s i (.restart i d) (rtDoorbell s.env d (s.core i),s.cell i) s.bus s.pm

/-- A look at a slot without `sc_intr_lock`, after which a thread goes on elsewhere. -/
inductive Looked (s : State n) : Bus n → Pm n → Prop
  | portchange (i : Fin n) (hbus : s.bus = .free) (hp : s.env.paused = false) :
      Looked s (.look i) s.pm
  | lookAway (i : Fin n) (hbus : s.bus = .look i) : Looked s .free s.pm
  | lookAsleep (i : Fin n) (hbus : s.bus = .look i) (hl : (s.core i).link = .bound)
      (hr : (s.core i).root = true) : Looked s (.asleep i) s.pm
  | lookAwake (i : Fin n) (hbus : s.bus = .look i) : Looked s (.stir i) s.pm
  | asleepAway (i : Fin n) (hbus : s.bus = .asleep i) : Looked s .free s.pm
  | asleepWake (i : Fin n) (hbus : s.bus = .asleep i) : Looked s (.wake i) s.pm
  | failKick {i : Fin n} {todo : List (Fin n)} (hpm : s.pm = .failing (i :: todo)) :
      Looked s s.bus (.failKick i todo)
  | failSkip {i : Fin n} {todo : List (Fin n)} (hpm : s.pm = .failing (i :: todo))
      (h : (s.core i).link = .bound → (s.core i).suspended = false ∧ (s.core i).resuming = false) :
      Looked s s.bus (.failing todo)
  | ringSkip {i : Fin n} {todo : List (Fin n)} (hpm : s.pm = .ringing (i :: todo))
      (hl : (s.core i).link ≠ .bound) : Looked s s.bus (.ringing todo)
  | ringDone (hpm : s.pm = .ringing []) : Looked s s.bus .rung
  | unparkKick {i : Fin n} {todo : List (Fin n)} (hpm : s.pm = .unparking (i :: todo)) :
      Looked s s.bus (.unparkKick i todo)
  | unparkSkip {i : Fin n} {todo : List (Fin n)} (hpm : s.pm = .unparking (i :: todo))
      (h : (s.core i).link = .bound → (s.core i).parkedDrv = false) :
      Looked s s.bus (.unparking todo)

inductive Moved (s : State n) : Event n → State n → Prop
  | turn {ev : Event n} {i : Fin n} {r : Core × Cell} {b : Bus n} {p : Pm n}
      (h : Turned s i ev r b p) : Moved s ev { s.place i r with bus := b, pm := p }
  | look {ev : Event n} {b : Bus n} {p : Pm n} (h : Looked s b p) :
      Moved s ev { s with bus := b, pm := p }
  | callout : Moved s .callout s.callout
  | reconcile (wake : Bool) (hk : s.knob = some wake) :
      Moved s .reconcile { s.reconcile ⟨true,wake⟩ with knob := none }
  | failed (hpm : s.pm = .failing []) : Moved s .pm { s.reconcile ⟨true,false⟩ with pm := .awake }
  | unparked (hpm : s.pm = .unparking []) :
      Moved s .pm { s.reconcile ⟨true,false⟩ with pm := .awake }
  | store (k : Knob) {e : Env} (hk : k.apply s.env = some e) :
      Moved s (.store k) { s with env := e, knob := some k.wakes, owed := true }
  | tick : Moved s .tick { s with env := { s.env with now := s.env.now + 1 } }
  | deactivate : Moved s .deactivate { s with env := { s.env with dying := true } }
  | detach :
      Moved s .detach
        { s with env := { s.env with dying := true }, timer := { s.timer with armed := false } }
  | pause (hpm : s.pm = .awake) :
      Moved s .pause { s with env := { s.env with paused := true }, pm := .pausing }
  | halt (hpm : s.pm = .pausing) :
      Moved s .halt { s with timer := { s.timer with armed := false }, pm := .halted }
  | drain (hpm : s.pm = .halted) (h : s.Drained) : Moved s .drain { s with pm := .drained }
  | block (hpm : s.pm = .drained) (hbus : s.bus = .free) :
      Moved s .block { s with env := { s.env with suspender := true }, pm := .blocked }
  | fail (hpm : s.pm = .blocked) :
      Moved s .fail
        { s with
          env := { s.env with suspender := false, paused := false }
          pm := .failing (List.finRange n)
          owed := true }
  | sleep (hpm : s.pm = .blocked) : Moved s .sleep { s with pm := .asleep }
  | resume (hpm : s.pm = .asleep ∨ s.pm = .broken) :
      Moved s .resume { s with env := { s.env with suspender := true }, pm := .resuming }
  | broke (hpm : s.pm = .resuming) :
      Moved s (.resumed false)
        { s with env := { s.env with suspender := false, resumeFailed := true }, pm := .broken }
  | resumed (hpm : s.pm = .resuming) :
      Moved s (.resumed true)
        { s.mapCores (resumedCore s.env) with
          env := { s.env with suspender := false, resumeFailed := false }
          pm := .ringing (List.finRange n)
          owed := true }
  | unpause (hpm : s.pm = .rung) :
      Moved s .pm
        { s with env := { s.env with paused := false }, pm := .unparking (List.finRange n) }

section Inversion
variable {s t : State n} {ev : Event n}

theorem locked_eq_false : s.locked = false ↔ s.bus = .free ∧ ∀ todo, s.pm ≠ .ringing todo := by
  unfold State.locked
  cases s.bus <;> cases s.pm <;> simp

theorem Turned.moved {i : Fin n} {k : Core} {b : Bus n} {p : Pm n}
    (h : Turned s i ev (k,s.cell i) b p) : Moved s ev { s.setCore i k with bus := b, pm := p } :=
  .turn h

theorem busNext_moved {resumes : Bool} (h : s.busNext resumes = some t) :
    Moved s (.bus resumes) t := by
  unfold State.busNext at h
  split at h
  · cases h
  · next i hbus =>
    cases h
    exact (Turned.kick resumes hbus).moved
  · next i hbus =>
    split_ifs at h with haway hs <;> cases h
    · exact .look (.lookAway i hbus)
    · simp only [ne_eq,Bool.not_eq_true',not_or,not_not,Bool.not_eq_false] at haway
      exact .look (.lookAsleep i hbus haway.1 haway.2)
    · exact .look (.lookAwake i hbus)
  · next i hbus =>
    split_ifs at h <;> cases h
    · exact .look (.asleepAway i hbus)
    · exact .look (.asleepWake i hbus)
  · next i hbus =>
    cases h
    exact .turn (.stir resumes hbus rfl)
  · next i hbus =>
    cases h
    exact (Turned.wake resumes hbus).moved

theorem pmNext_moved (h : s.pmNext = some t) : Moved s .pm t := by
  unfold State.pmNext at h
  split at h
  · next hpm =>
    cases h
    exact .failed hpm
  · next i todo hpm =>
    split_ifs at h with htest <;> cases h
    · exact .look (.failKick hpm)
    · refine .look (.failSkip hpm fun hl => ?_)
      simp only [not_and_or,not_or,Bool.not_eq_true] at htest
      exact htest.elim (absurd hl) fun hno => ⟨hno.1,hno.2.1⟩
  · next i todo hpm =>
    cases h
    exact (Turned.failKick hpm).moved
  · next hpm =>
    cases h
    exact .look (.ringDone hpm)
  · next i todo hpm =>
    split_ifs at h with hl <;> cases h
    · exact (Turned.ring hpm hl).moved
    · exact .look (.ringSkip hpm hl)
  · next hpm =>
    cases h
    exact .unpause hpm
  · next hpm =>
    cases h
    exact .unparked hpm
  · next i todo hpm =>
    split_ifs at h with htest <;> cases h
    · exact .look (.unparkKick hpm)
    · exact .look (.unparkSkip hpm fun hl => by simpa [hl] using htest)
  · next i todo hpm =>
    cases h
    exact (Turned.unparkKick hpm).moved
  · cases h

theorem step_moved (h : step s ev = some t) : Moved s ev t := by
  cases ev with
  | owner i a =>
    simp only [step] at h
    split at h
    · cases h
    · next o ho =>
      cases h
      exact .turn (.owner a ho)
  | pop i =>
    obtain ⟨⟨hq,hw⟩,rfl⟩ := of_guard h
    exact (Turned.pop hq hw).moved
  | task i =>
    obtain ⟨hw,rfl⟩ := of_guard h
    exact (Turned.task hw).moved
  | wakeForOpen i =>
    obtain ⟨⟨hl,hp,ho,hs⟩,rfl⟩ := of_guard h
    exact (Turned.wakeForOpen hl (by simpa using hp) ho hs).moved
  | pipeOpened i d own =>
    obtain ⟨⟨hl,hd,hnew,-⟩,rfl⟩ := of_guard h
    exact .turn (.pipeOpened d own hd hnew hl rfl)
  | pipeClosed i d own =>
    obtain ⟨⟨-,hl,hd,hrung,hheld,-⟩,h⟩ := ite_none_right_eq_some.mp h
    dsimp only at h
    split_ifs at h with hbound <;> cases h
    · exact .turn (.pipeClosed d own hd hrung hheld hbound rfl)
    · exact (Turned.pipeGone d own hrung hheld (hl.resolve_left hbound)).moved
  | doorbell i d =>
    obtain ⟨⟨hfree,hl,hd⟩,rfl⟩ := of_guard h
    exact (Turned.doorbell d (locked_eq_false.mp (by simpa using hfree)).1 hl hd).moved
  | complete i d =>
    obtain ⟨hl,rfl⟩ := of_guard h
    exact (Turned.complete d hl).moved
  | abort i d rung held =>
    cases h
    exact (Turned.abort d rung held).moved
  | portchange i =>
    obtain ⟨hno,rfl⟩ := of_unless h
    simp only [not_or,Bool.not_eq_true] at hno
    exact .look (.portchange i (locked_eq_false.mp hno.1).1 hno.2)
  | bus resumes => exact busNext_moved h
  | callout =>
    cases h
    exact .callout
  | store k =>
    obtain ⟨-,h⟩ := ite_none_right_eq_some.mp h
    obtain ⟨e,he,rfl⟩ := map_eq_some_iff.mp h
    exact .store k he
  | reconcile =>
    simp only [step] at h
    split at h
    · cases h
    · next wake hk =>
      cases h
      exact .reconcile wake hk
  | tick =>
    cases h
    exact .tick
  | bind i root =>
    obtain ⟨⟨hl,hbus⟩,rfl⟩ := of_guard h
    exact .turn (.bind root hl hbus)
  | bound i =>
    obtain ⟨hl,rfl⟩ := of_guard h
    exact .turn (.bound hl rfl)
  | unbind i =>
    obtain ⟨hl,rfl⟩ := of_guard h
    exact .turn (.unbind hl)
  | unbound i =>
    obtain ⟨⟨hl,hq,hw,ho⟩,rfl⟩ := of_guard h
    exact .turn (.unbound hl (by simpa using hq) hw ho)
  | deactivate =>
    cases h
    exact .deactivate
  | detach =>
    cases h
    exact .detach
  | pause =>
    obtain ⟨hpm,rfl⟩ := of_guard h
    exact .pause hpm
  | halt =>
    obtain ⟨hpm,rfl⟩ := of_guard h
    exact .halt hpm
  | drain =>
    obtain ⟨⟨hpm,hd⟩,rfl⟩ := of_guard h
    exact .drain hpm hd
  | block =>
    obtain ⟨⟨hpm,hfree⟩,rfl⟩ := of_guard h
    exact .block hpm (locked_eq_false.mp (by simpa using hfree)).1
  | fail =>
    obtain ⟨⟨hpm,-⟩,rfl⟩ := of_guard h
    exact .fail hpm
  | sleep =>
    obtain ⟨hpm,rfl⟩ := of_guard h
    exact .sleep hpm
  | resume =>
    obtain ⟨⟨hpm,-⟩,rfl⟩ := of_guard h
    exact .resume hpm
  | restart i d =>
    obtain ⟨⟨hpm,hl⟩,rfl⟩ := of_guard h
    exact (Turned.restart d hpm hl).moved
  | resumed ok =>
    obtain ⟨⟨hpm,-⟩,h⟩ := ite_none_right_eq_some.mp h
    cases ok <;> cases h
    · exact .broke hpm
    · exact .resumed hpm
  | pm => exact pmNext_moved h

end Inversion

/-! ## The owner of a transition -/

inductive Goes (e : Env) (k : Core) : Pc → Pc → Prop
  | decideWake {want : Want} {gen : ℕ} (h : want = .resume ∨ k.resuming = true) :
      Goes e k (.decide want gen) (.wake .done)
  | decideCheck {gen : ℕ} (hr : k.resuming = false) : Goes e k (.decide .suspend gen) (.check gen)
  | decideRelease {gen : ℕ} (hr : k.resuming = false) : Goes e k (.decide .nothing gen) .release
  | checkNone {gen : ℕ} : Goes e k (.check gen) (.outcome .none gen)
  | checkDormant {gen : ℕ} : Goes e k (.check gen) (.outcome .dormant gen)
  | checkFirst {gen : ℕ} (hroot : k.root = true) : Goes e k (.check gen) (.first gen)
  | firstNone {gen : ℕ} : Goes e k (.first gen) (.outcome .none gen)
  | firstBusy {gen : ℕ} : Goes e k (.first gen) (.outcome .busy gen)
  | firstProbe {gen : ℕ} (hs : k.suspended = false) (hp : k.parkedDrv = false) :
      Goes e k (.first gen) (.probe gen (decide (k.npipes ≠ 0)))
  | probeDormant {gen : ℕ} {park : Bool} : Goes e k (.probe gen park) (.outcome .dormant gen)
  | probeFailed {gen : ℕ} {park : Bool} : Goes e k (.probe gen park) (.outcome .failed gen)
  | probeNone {gen : ℕ} {park : Bool} : Goes e k (.probe gen park) (.outcome .none gen)
  | probeLook {gen : ℕ} : Goes e k (.probe gen false) (.look gen false k.lastbusy)
  | unparkable {gen : ℕ} {lastbusy : ℤ} :
      Goes e k (.parking gen lastbusy) (.wake (.outcome .failed gen))
  | parkFailed {gen : ℕ} {lastbusy : ℤ} :
      Goes e k (.parkWait gen lastbusy) (.wake (.outcome .failed gen))
  | lookBusy {gen : ℕ} {lastbusy : ℤ} : Goes e k (.look gen false lastbusy) (.outcome .busy gen)
  | lookWake {gen : ℕ} {lastbusy : ℤ} :
      Goes e k (.look gen true lastbusy) (.wake (.outcome .busy gen))
  | write {gen : ℕ} : Goes e k (.write gen) (.wait gen)
  | waitFailed {gen : ℕ} : Goes e k (.wait gen) (.wake (.outcome .failed gen))
  | wakeBack {r : After} (h : k.root = false ∨ e.dying = true) : Goes e k (.wake r) r.pc
  | unpark {r : After} (hp : k.parkedDrv = true) : Goes e k (.driving r) (.unparking r)
  | woken {r : After} (hp : k.parkedDrv = false) : Goes e k (.driving r) (.woken r)

/-- The task finds the slot taken or itself stopped, or becomes the owner; a wake is
dropped only if there is nothing to wake. -/
theorem rtTask_cases (e : Env) (x : Slot) :
    (x.link ≠ .bound ∨ e.paused = true ∨ e.dying = true ∨ x.owner.isSome = true) ∧
      rtTask e x = { x.toCore with worker := .idle } ∨
    (x.link = .bound ∧ e.paused = false ∧ e.dying = false ∧ x.owner = none) ∧
      ∃ want, rtTask e x = { x.toCore with
        worker := .busy
        want := .nothing
        owner := some ⟨.task,.decide want x.gen⟩ } ∧
      (want = x.want ∧ (want = .resume → x.suspended = true ∨ x.resuming = true ∨
          x.parkedDrv = true) ∨
        want = .nothing ∧ x.suspended = false ∧ x.resuming = false ∧ x.parkedDrv = false) := by
  by_cases hskip : x.link ≠ .bound ∨ e.paused ∨ e.dying ∨ x.owner.isSome
  · exact .inl ⟨hskip,if_pos hskip⟩
  · refine .inr ⟨by simpa using hskip,_,if_neg hskip,?_⟩
    split_ifs with hdrop
    · exact .inr ⟨rfl,by simpa using hdrop.2⟩
    · refine .inl ⟨rfl,fun hw => ?_⟩
      simpa [hw,Decidable.or_iff_not_imp_left] using hdrop

theorem rtTask_link (e : Env) (x : Slot) : (rtTask e x).link = x.link := by
  rcases rtTask_cases e x with ⟨-,h⟩ | ⟨-,_,h,-⟩ <;> rw [h]

inductive Advanced (e : Env) (k : Core) (c : Cell) (o : Owner) : Core × Cell → Prop
  | goes {pc : Pc} (h : Goes e k o.pc pc) : Advanced e k c o (k.goto o pc,c)
  | outcome {r : Susp} {gen : ℕ} (hpc : o.pc = .outcome r gen) :
      Advanced e k c o (k.goto o .release,rtSuspendOutcome e k r gen c)
  | outcomeOff {gen : ℕ} (hpc : o.pc = .outcome .ok gen) :
      Advanced e k c o
        ({ k with want := .resume }.goto o .release,rtSuspendOutcome e k .ok gen c)
  | release (hpc : o.pc = .release) : Advanced e k c o (rtRelease e o k,rtReleaseDl e k c)
  | firstOwed {gen : ℕ} (hpc : o.pc = .first gen) :
      Advanced e k c o ({ k with want := .resume }.goto o (.outcome .none gen),c)
  | park {gen : ℕ} (hpc : o.pc = .probe gen true) (hl : k.link = .bound) (hp : e.paused = false) :
      Advanced e k c o
        ({ k with suspended := true, resuming := true }.goto o (.parking gen k.lastbusy),c)
  | parkNext {gen : ℕ} {lastbusy : ℤ} (hpc : o.pc = .parking gen lastbusy) :
      Advanced e k c o ({ k with parkedDrv := true }.goto o (.parkWait gen lastbusy),c)
  | parked {gen : ℕ} {lastbusy : ℤ} (hpc : o.pc = .parkWait gen lastbusy) :
      Advanced e k c o
        ({ k with rung := fun d => if d = 1 then k.rung d else 0 }.goto o (.look gen true lastbusy),c)
  | look {gen : ℕ} {park : Bool} {lastbusy : ℤ} (hpc : o.pc = .look gen park lastbusy)
      (h : usedAgain e k park lastbusy = false) :
      Advanced e k c o ({ k with suspended := true }.goto o (.write gen),c)
  | asleep {gen : ℕ} (hpc : o.pc = .wait gen) (h : k.dbpending = ∅) :
      Advanced e k c o
        ({ k with resuming := false }.goto o (.outcome .ok gen),
          { c with dl := { c.dl with suspFails := 0 } })
  | asleepWoken {gen : ℕ} (hpc : o.pc = .wait gen) :
      Advanced e k c o
        ({ k with resuming := true, want := .resume }.goto o (.outcome .ok gen),
          { c with dl := { c.dl with suspFails := 0 } })
  | wake {r : After} (hpc : o.pc = .wake r) (hroot : k.root = true) :
      Advanced e k c o ({ k with resuming := true }.goto o (.driving r),c)
  | failed {r : After} (hpc : o.pc = .driving r ∨ o.pc = .unparking r) :
      Advanced e k c o (resumeFails e k c o r)
  | unparked {r : After} (hpc : o.pc = .unparking r) :
      Advanced e k c o ({ k with parkedDrv := false }.goto o (.woken r),c)
  | woken {r : After} (hpc : o.pc = .woken r) :
      Advanced e k c o ((awake e k).goto o (.ring r),awakeDl e (awake e k) c)
  | ring {r : After} (hpc : o.pc = .ring r) :
      Advanced e k c o ((rtRingPending e k).goto o r.pc,c)

theorem advance_advanced (e : Env) (k : Core) (c : Cell) (o : Owner) (a : Answer) :
    Advanced e k c o (advance e k c o a) := by
  unfold advance
  split
  · next want gen hpc =>
    split_ifs with hwake hwant
    · exact .goes (hpc ▸ .decideWake hwake)
    · obtain ⟨-,hr⟩ := not_or.mp hwake
      exact .goes (hpc ▸ hwant ▸ .decideCheck (by simpa using hr))
    · obtain ⟨hne,hr⟩ := not_or.mp hwake
      obtain rfl : want = .nothing := by cases want <;> simp_all
      exact .goes (hpc ▸ .decideRelease (by simpa using hr))
  · next r gen hpc =>
    split_ifs with hoff
    · obtain ⟨rfl,-⟩ := hoff
      exact .outcomeOff hpc
    · exact .outcome hpc
  · next hpc => exact .release hpc
  · next gen hpc =>
    split_ifs with hnone hdormant
    · exact .goes (hpc ▸ .checkNone)
    · exact .goes (hpc ▸ .checkDormant)
    · exact .goes (hpc ▸ .checkFirst (by simpa using (not_or.mp hnone).1))
  · next gen hpc =>
    split_ifs with hnone howed hbusy
    · exact .firstOwed hpc
    · exact .goes (hpc ▸ .firstNone)
    · exact .goes (hpc ▸ .firstBusy)
    · simp only [not_or,Bool.not_eq_true] at hnone
      exact .goes (hpc ▸ .firstProbe hnone.2.2.1 hnone.2.2.2.2)
  · next gen park hpc =>
    split_ifs with hrefused hfailed hnone hpark
    · exact .goes (hpc ▸ .probeDormant)
    · exact .goes (hpc ▸ .probeFailed)
    · exact .goes (hpc ▸ .probeNone)
    · simp only [not_or,not_not,Bool.not_eq_true] at hnone
      exact .park (hpark ▸ hpc) hnone.1 hnone.2
    · obtain rfl : park = false := by simpa using hpark
      exact .goes (hpc ▸ .probeLook)
  · next gen lastbusy hpc =>
    split_ifs
    · exact .parkNext hpc
    · exact .goes (hpc ▸ .unparkable)
  · next gen lastbusy hpc =>
    split_ifs
    · exact .parked hpc
    · exact .goes (hpc ▸ .parkFailed)
  · next gen park lastbusy hpc =>
    split_ifs with hagain
    · cases park
      · exact .goes (hpc ▸ .lookBusy)
      · exact .goes (hpc ▸ .lookWake)
    · exact .look hpc (by simpa using (not_or.mp hagain).2)
  · next gen hpc => exact .goes (hpc ▸ .write)
  · next gen hpc =>
    split_ifs with hdone hwoken
    · exact .asleepWoken hpc
    · exact .asleep hpc (by simpa using (not_or.mp hwoken).1)
    · exact .goes (hpc ▸ .waitFailed)
  · next r hpc =>
    split_ifs with hgo
    · exact .wake hpc hgo.1
    · refine .goes (hpc ▸ .wakeBack ?_)
      cases hroot : k.root
      · exact .inl rfl
      · simp only [hroot,true_and,not_or,Bool.not_eq_true',Bool.not_eq_false] at hgo
        exact .inr hgo.2
  · next r hpc =>
    split_ifs with hok hpark
    · exact .goes (hpc ▸ .unpark hpark)
    · exact .goes (hpc ▸ .woken (by simpa using hpark))
    · exact .failed (.inl hpc)
  · next r hpc =>
    split_ifs
    · exact .unparked hpc
    · exact .failed (.inr hpc)
  · next r hpc => exact .woken hpc
  · next r hpc => exact .ring hpc

section Advance
variable {e : Env} {k : Core} {c : Cell} {o : Owner} {r : Core × Cell}

theorem rtRingPending_eq (e : Env) (k : Core) :
    rtRingPending e k = { k with
      dbpending := (rtRingPending e k).dbpending
      held := (rtRingPending e k).held
      rung := (rtRingPending e k).rung } := by
  unfold rtRingPending
  split_ifs <;> rfl

theorem rtSlotRearm_dl : (rtSlotRearm e k c).dl = c.dl := by
  unfold rtSlotRearm
  split_ifs <;> rfl

theorem Advanced.frame (h : Advanced e k c o r) :
    r.1.link = k.link ∧ r.1.root = k.root ∧ r.1.npipes = k.npipes ∧ r.1.pipes = k.pipes := by
  cases h with
  | ring hpc =>
    rw [rtRingPending_eq]
    exact ⟨rfl,rfl,rfl,rfl⟩
  | _ => exact ⟨rfl,rfl,rfl,rfl⟩

theorem Advanced.owner (h : Advanced e k c o r) :
    r.1 = rtRelease e o k ∨ (∃ pc, r.1.owner = some { o with pc := pc }) ∧
      r.1.worker = k.worker ∧ r.1.queued = k.queued := by
  cases h with
  | release hpc => exact .inl rfl
  | ring hpc =>
    refine .inr ⟨⟨_,rfl⟩,?_⟩
    rw [rtRingPending_eq]
    exact ⟨rfl,rfl⟩
  | _ => exact .inr ⟨⟨_,rfl⟩,rfl,rfl⟩

end Advance

/-! ## Loops over the slots -/
section Loops
variable {f : Fin n → Slot} {l : List (Fin n)} {i : Fin n}

theorem reconcileLoop_of_notMem (e : Env) (flags : Flags) (t : Timer) (hi : i ∉ l) :
    (reconcileLoop e flags l t f).2 i = f i := by
  induction l generalizing t f with
  | nil => rfl
  | cons j l ih =>
    obtain ⟨hij,hil⟩ : i ≠ j ∧ i ∉ l := by simpa using hi
    exact (ih _ hil).trans (update_of_ne hij _ _)

theorem reconcileLoop_slot (e : Env) (flags : Flags) (t : Timer) (hl : l.Nodup) (hi : i ∈ l) :
    ∃ u : Timer, (reconcileLoop e flags l t f).2 i = ⟨reconcileCore flags (f i).toCore,
      (reconcileDl e flags (f i).toCore ⟨u,(f i).toDeadline⟩).dl⟩ := by
  induction l generalizing t f with
  | nil => cases hi
  | cons j l ih =>
    obtain ⟨hj,hl⟩ := nodup_cons.mp hl
    rcases eq_or_ne i j with rfl | hne
    · exact ⟨t,(reconcileLoop_of_notMem e flags _ hj).trans (update_self _ _ _)⟩
    · have hil : i ∈ l := (mem_cons.mp hi).resolve_left hne
      obtain ⟨u,hu⟩ := ih (reconcileDl e flags (f j).toCore ⟨t,(f j).toDeadline⟩).timer
        (f := update f j _) hl hil
      rw [update_of_ne hne] at hu
      exact ⟨u,hu⟩

theorem scanLoop_of_notMem (e : Env) (a : Scan) (hi : i ∉ l) : (scanLoop e l f a).1 i = f i := by
  induction l generalizing a f with
  | nil => rfl
  | cons j l ih =>
    obtain ⟨hij,hil⟩ : i ≠ j ∧ i ∉ l := by simpa using hi
    exact (ih _ hil).trans (update_of_ne hij _ _)

theorem scanLoop_slot (e : Env) (a : Scan) (hl : l.Nodup) (hi : i ∈ l) :
    ∃ b : Scan, (scanLoop e l f a).1 i = (b.visit e (f i)).1 := by
  induction l generalizing a f with
  | nil => cases hi
  | cons j l ih =>
    obtain ⟨hj,hl⟩ := nodup_cons.mp hl
    rcases eq_or_ne i j with rfl | hne
    · exact ⟨a,(scanLoop_of_notMem e _ hj).trans (update_self _ _ _)⟩
    · obtain ⟨b,hb⟩ := ih (a.visit e (f j)).2 (f := update f j _) hl
        ((mem_cons.mp hi).resolve_left hne)
      rw [update_of_ne hne] at hb
      exact ⟨b,hb⟩

variable (s : State n) (i : Fin n)

theorem reconcile_slot (flags : Flags) : (s.reconcile flags).slots i = s.slots i ∨
    (s.env.dying = false ∧ s.env.paused = false) ∧ ∃ u : Timer,
      (s.reconcile flags).slots i = ⟨reconcileCore flags (s.core i),
        (reconcileDl s.env flags (s.core i) ⟨u,(s.slots i).toDeadline⟩).dl⟩ := by
  unfold State.reconcile
  split_ifs with hoff
  · exact .inl rfl
  · exact .inr ⟨by simpa using hoff,
      reconcileLoop_slot s.env flags s.timer (nodup_finRange n) (mem_finRange i)⟩

theorem callout_slot : s.callout.slots i = s.slots i ∨
    (s.env.dying = false ∧ s.env.paused = false) ∧ ∃ b : Scan,
      s.callout.slots i = (b.visit s.env (s.slots i)).1 := by
  unfold State.callout
  split_ifs with hoff
  · exact .inl rfl
  · exact .inr ⟨by simpa using hoff,
      scanLoop_slot s.env _ (nodup_finRange n) (mem_finRange i)⟩

@[simp] theorem reconcile_env (flags : Flags) : (s.reconcile flags).env = s.env := by
  unfold State.reconcile
  split_ifs <;> rfl

@[simp] theorem reconcile_bus (flags : Flags) : (s.reconcile flags).bus = s.bus := by
  unfold State.reconcile
  split_ifs <;> rfl

@[simp] theorem reconcile_pm (flags : Flags) : (s.reconcile flags).pm = s.pm := by
  unfold State.reconcile
  split_ifs <;> rfl

@[simp] theorem callout_env : s.callout.env = s.env := by
  unfold State.callout
  split_ifs <;> rfl

@[simp] theorem callout_bus : s.callout.bus = s.bus := by
  unfold State.callout
  split_ifs <;> rfl

@[simp] theorem callout_pm : s.callout.pm = s.pm := by
  unfold State.callout
  split_ifs <;> rfl

def Nudged (k k' : Core) : Prop :=
  k' = k ∨ k.link = .bound ∧ ∃ want queued, k' = { k with want := want, queued := queued }

theorem Nudged.link {k k' : Core} (h : Nudged k k') : k'.link = k.link := by
  obtain rfl | ⟨-,want,queued,rfl⟩ := h <;> rfl

theorem reconcileCore_nudged (flags : Flags) (k : Core) : Nudged k (reconcileCore flags k) := by
  unfold reconcileCore
  by_cases hbound : k.link = .bound
  · simp only [if_pos hbound]
    exact .inr ⟨hbound,_,_,rfl⟩
  · simp only [if_neg hbound]
    exact .inl rfl

theorem Scan.visit_nudged (e : Env) (b : Scan) (x : Slot) :
    Nudged x.toCore (b.visit e x).1.toCore := by
  unfold Scan.visit
  split_ifs with harmed hout
  all_goals first
    | exact .inl rfl
    | skip
  all_goals
    unfold Scan.serve
    split_ifs
    · exact .inr ⟨by simpa using (not_or.mp hout).1,_,_,rfl⟩
    · exact .inl rfl

end Loops
end NanoBSD.Xhci
