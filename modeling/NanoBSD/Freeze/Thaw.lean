import NanoBSD.Freeze.Moves
import NanoBSD.Lib.Tally

/-! # Freezing and thawing user space

`acpi.c`: `acpi_s0_freeze_userspace` walks over all LWPs of user processes, first to suspend them
and later to continue them, while the LWPs run on. The freezer keeps no record of what it has
suspended: the thaw continues every suspended LWP, also those that were suspended before, and the
freeze wakes LWPs that a stop signal has caught asleep.
-/
namespace NanoBSD.Freeze
open Function Option
variable {ι π : Type}

inductive Freezer (ι : Type)
  | before
  | freeze (todo : List ι)
  | frozen
  | thaw (todo : List ι)
  | after
  deriving DecidableEq, Repr

structure State (ι π : Type) where
  proc : π → Proc
  lwp : ι → Lwp π
  freezer : Freezer ι

/-- The freezer starts a walk or takes the next LWP; an LWP is dispatched, preempted, woken up,
switches away, or goes on. -/
inductive Event (ι : Type)
  | start
  | visit
  | dispatch (l : ι)
  | preempt (l : ι)
  | wake (l : ι)
  | miSwitch (l : ι)
  | userret (l : ι) (c : Choice)
  deriving DecidableEq, Repr

variable [DecidableEq ι] [DecidableEq π]

namespace State

def setLwp (s : State ι π) (l : ι) (x : Lwp π) : State ι π :=
  { s with lwp := update s.lwp l x }

def set (s : State ι π) (l : ι) (y : Proc × Lwp π) : State ι π :=
  { s with
    proc := update s.proc (s.lwp l).proc y.1
    lwp := update s.lwp l y.2 }

def procOf (s : State ι π) (l : ι) : Proc := s.proc (s.lwp l).proc

end State

/-- The LWPs of the walk, the current LWP, whether that one is exiting, and whether `issignal` stops
an LWP of a process. -/
structure Setting (ι : Type) where
  all : List ι
  cur : ι
  exiting : Bool
  issignal : Proc → Bool

variable (c : Setting ι)

def visit (s : State ι π) : Option (State ι π) :=
  match s.freezer with
  | .freeze [] => some { s with freezer := .frozen }
  | .freeze (l :: todo) =>
    let t := { s with freezer := .freeze todo }
    if (s.procOf l).system ∨ l = c.cur then some t
    else (lwpSuspend c.exiting (s.procOf l) (s.lwp l)).map fun y => t.set l y.2
  | .thaw [] => some { s with freezer := .after }
  | .thaw (l :: todo) =>
    let t := { s with freezer := .thaw todo }
    if (s.procOf l).system ∨ l = c.cur then some t
    else (lwpContinue (s.procOf l) (s.lwp l)).map (t.set l)
  | .before | .frozen | .after => none

def step (s : State ι π) : Event ι → Option (State ι π)
  | .start =>
    match s.freezer with
    | .before => some { s with freezer := .freeze c.all }
    | .frozen => some { s with freezer := .thaw c.all }
    | .freeze _ | .thaw _ | .after => none
  | .visit => visit c s
  | .dispatch l =>
    if (s.lwp l).stat = .run then
      some (s.setLwp l { s.lwp l with stat := .onproc, running := true })
    else none
  | .preempt l =>
    if (s.lwp l).stat = .onproc ∧ (s.lwp l).pc ≠ .user ∧ (s.lwp l).pc.leaves = false then
      some (s.setLwp l { s.lwp l with stat := .run, running := false })
    else none
  | .wake l => if (s.lwp l).wchan then some (s.setLwp l (s.lwp l).wake) else none
  | .miSwitch l =>
    if (s.lwp l).running ∧ (s.lwp l).pc.leaves = true then some (s.setLwp l (s.lwp l).miSwitch)
    else none
  | .userret l i =>
    if (s.lwp l).stat = .onproc then
      (userret c.issignal (s.procOf l) (s.lwp l) i).map (s.set l)
    else none

/-! ## Whole steps -/

variable {c} {s s' : State ι π} {l : ι}

theorem setLwp_eq (s : State ι π) (l : ι) (x : Lwp π) : s.setLwp l x = s.set l (s.procOf l,x) := by
  simp [State.setLwp,State.set,State.procOf]

variable {e : Event ι}

/-- One LWP and its process change, if any, and the walk of the freezer. Only the freezer
asks an LWP to suspend itself. -/
def Changes (c : Setting ι) (s s' : State ι π) : Prop :=
  s' = { s with freezer := s'.freezer } ∨
  ∃ l y, s' = { s with freezer := s'.freezer }.set l y ∧
    Frame c.issignal (s.procOf l) y.1 (s.lwp l) y.2 ∧ Follows (s.procOf l) y.1 (s.lwp l) y.2 ∧
    ((∀ todo, s.freezer ≠ .freeze todo) → Asks (s.lwp l) y.2)

theorem step_cases (hstep : step c s e = some s') : Changes c s s' := by
  have hone {l : ι} {x : Lwp π} (hs' : s.setLwp l x = s')
      (hx : Frame c.issignal (s.procOf l) (s.procOf l) (s.lwp l) x ∧
        Follows (s.procOf l) (s.procOf l) (s.lwp l) x ∧ Asks (s.lwp l) x) : Changes c s s' := by
    subst hs'
    exact .inr ⟨l,(s.procOf l,x),setLwp_eq s l x,hx.1,hx.2.1,fun _ => hx.2.2⟩
  cases e with
  | start =>
    simp only [step] at hstep
    split at hstep <;> cases hstep <;> exact .inl rfl
  | visit =>
    simp only [step,visit] at hstep
    split at hstep <;> try cases hstep
    · exact .inl rfl
    · rename_i l todo hf
      split at hstep
      · cases hstep
        exact .inl rfl
      · obtain ⟨⟨e,p',x'⟩,hy,rfl⟩ := map_eq_some_iff.mp hstep
        obtain ⟨hframe,hfollows⟩ := lwpSuspend_spec hy
        exact .inr ⟨l,(p',x'),rfl,hframe,hfollows,fun hno => absurd hf (hno _)⟩
    · exact .inl rfl
    · rename_i l todo hf
      split at hstep
      · cases hstep
        exact .inl rfl
      · obtain ⟨⟨p',x'⟩,hy,rfl⟩ := map_eq_some_iff.mp hstep
        obtain ⟨hframe,hfollows,hasks,-⟩ := lwpContinue_spec c.issignal hy
        exact .inr ⟨l,(p',x'),rfl,hframe,hfollows,fun _ => hasks⟩
  | dispatch l =>
    obtain ⟨hstat,hs'⟩ := of_guard hstep
    exact hone hs' (queue_spec (.inl hstat) (.inr rfl))
  | preempt l =>
    obtain ⟨hstat,hs'⟩ := of_guard hstep
    exact hone hs' (queue_spec (.inr hstat.1) (.inl rfl))
  | wake l =>
    obtain ⟨-,hs'⟩ := of_guard hstep
    exact hone hs' (wake_spec _ _)
  | miSwitch l =>
    obtain ⟨-,hs'⟩ := of_guard hstep
    exact hone hs' (miSwitch_spec _ _)
  | userret l i =>
    obtain ⟨hstat,hstep⟩ := ite_none_right_eq_some.mp hstep
    obtain ⟨⟨p',x'⟩,hy,rfl⟩ := map_eq_some_iff.mp hstep
    obtain ⟨hframe,hfollows,hasks⟩ := userret_spec hstat hy
    exact .inr ⟨l,(p',x'),rfl,hframe,hfollows,fun _ => hasks⟩

/-! ## The count of LWPs that run -/

def Counted (s : State ι π) : Prop :=
  ∀ p, Tally s.lwp (fun x => x.proc = p ∧ x.stat.counts = true) (s.proc p).nrlwps

theorem Counted.set (h : Counted s) {y : Proc × Lwp π}
    (hproc : y.2.proc = (s.lwp l).proc) (hfollows : Follows (s.procOf l) y.1 (s.lwp l) y.2) :
    Counted (s.set l y) := by
  intro q
  by_cases hq : q = (s.lwp l).proc
  · subst hq
    have hcount := h (s.lwp l).proc
    simp only [State.set,update_self]
    unfold Follows at hfollows
    cases hx : (s.lwp l).stat.counts <;> cases hx' : y.2.stat.counts <;>
      simp only [hx,hx'] at hfollows <;> rw [hfollows]
    · exact hcount.keep (by simp [hx,hx'])
    · exact hcount.join ⟨hproc,hx'⟩ (by simp [hx])
    · exact hcount.quit (by simp [hx']) ⟨rfl,hx⟩
    · exact hcount.keep (by simp [hx,hx',hproc])
  · simp only [State.set,update_of_ne hq]
    refine (h q).keep ?_
    simp [hproc,Ne.symm hq]

theorem Counted.step (h : Counted s) (hstep : step c s e = some s') : Counted s' := by
  rcases step_cases hstep with hs' | ⟨l,y,hs',hframe,hfollows,-⟩ <;> rw [hs']
  · exact h
  · exact Counted.set (s := { s with freezer := s'.freezer }) h hframe.proc hfollows

/-! ## No LWP is left suspended -/

def Done (l : ι) : Freezer ι → Prop
  | .thaw todo => l ∉ todo
  | .after => True
  | _ => False

theorem done_cases (hstep : step c s e = some s') (hl : l ∈ c.all)
    (huser : (s.procOf l).system = false) (hcur : l ≠ c.cur) (hnot : ¬Done l s.freezer)
    (hdone : Done l s'.freezer) :
    ∃ y, lwpContinue (s.procOf l) (s.lwp l) = some y ∧ s'.lwp l = y.2 := by
  have hsame (hs' : s'.freezer = s.freezer) : False := hnot (hs' ▸ hdone)
  cases e with
  | start =>
    simp only [step] at hstep
    split at hstep <;> cases hstep
    · exact hdone.elim
    · exact absurd hl hdone
  | visit =>
    simp only [step,visit] at hstep
    split at hstep <;> try cases hstep
    · exact hdone.elim
    · split at hstep
      · cases hstep
        exact hdone.elim
      · obtain ⟨y,-,rfl⟩ := map_eq_some_iff.mp hstep
        exact hdone.elim
    · rename_i hf
      rw [hf] at hnot
      exact absurd List.not_mem_nil hnot
    · rename_i k todo hf
      have hk : l = k := by
        have hout : l ∉ todo := by
          split at hstep
          · cases hstep
            exact hdone
          · obtain ⟨y,-,rfl⟩ := map_eq_some_iff.mp hstep
            exact hdone
        rw [hf] at hnot
        by_contra hne
        exact hnot (List.not_mem_cons_of_ne_of_not_mem hne hout)
      subst hk
      rw [if_neg (by simp [huser,hcur])] at hstep
      obtain ⟨y,hy,rfl⟩ := map_eq_some_iff.mp hstep
      exact ⟨y,hy,update_self ..⟩
  | userret k i =>
    obtain ⟨-,hstep⟩ := ite_none_right_eq_some.mp hstep
    obtain ⟨y,-,rfl⟩ := map_eq_some_iff.mp hstep
    exact (hsame rfl).elim
  | _ =>
    obtain ⟨-,rfl⟩ := of_guard hstep
    exact (hsame rfl).elim

structure Calm (l : ι) (s : State ι π) : Prop where
  user : (s.procOf l).system = false
  wreboot : (s.lwp l).flags.wreboot = false
  held : (s.lwp l).dbgsuspend = true → (s.lwp l).stat = .stop
  done : Done l s.freezer → (s.lwp l).flags.wsuspend = false ∧ (s.lwp l).stat ≠ .suspended

theorem step_frame (hstep : step c s e = some s') (l : ι) :
    Frame c.issignal (s.procOf l) (s'.procOf l) (s.lwp l) (s'.lwp l) ∧
      ((∀ todo, s.freezer ≠ .freeze todo) → Asks (s.lwp l) (s'.lwp l)) := by
  rcases step_cases hstep with hs' | ⟨k,y,hs',hframe,-,hasks⟩ <;> rw [hs']
  · exact ⟨.refl _ _,fun _ => .refl _⟩
  · by_cases hl : l = k
    · subst hl
      simp only [State.procOf,State.set,update_self,hframe.proc]
      exact ⟨hframe,hasks⟩
    · have hlwp : ({ s with freezer := s'.freezer }.set k y).lwp l = s.lwp l :=
        update_of_ne hl ..
      refine ⟨?_,fun _ => hlwp ▸ .refl _⟩
      -- a process may have changed with another LWP
      unfold State.procOf
      rw [hlwp]
      by_cases hp : (s.lwp l).proc = (s.lwp k).proc
      · have hk : s.procOf k = s.proc (s.lwp l).proc := by rw [hp]; rfl
        simp only [State.set,hp,update_self]
        exact ⟨rfl,hframe.system.trans (by rw [hk,hp]),hframe.stopped.trans (by rw [hk,hp]),rfl,rfl,
          fun _ h => h,fun _ h => h⟩
      · simp only [State.set,update_of_ne hp]
        exact .refl _ _

theorem Calm.step (h : Calm l s) (hl : l ∈ c.all) (hcur : l ≠ c.cur)
    (hstep : step c s e = some s') : Calm l s' := by
  obtain ⟨hframe,hasks⟩ := step_frame hstep l
  refine ⟨hframe.system.trans h.user,hframe.wreboot.trans h.wreboot,?_,fun hdone => ?_⟩
  · intro hd
    have hd' := hframe.dbgsuspend.symm.trans hd
    exact hframe.held hd' (h.held hd')
  · by_cases hbefore : Done l s.freezer
    · have hno (todo : List ι) : s.freezer ≠ .freeze todo := fun hf => by
        rw [hf] at hbefore
        exact hbefore
      obtain ⟨hw,hs⟩ := h.done hbefore
      have hasks := hasks hno
      refine ⟨Bool.not_eq_true _ ▸ fun hw' => ?_,fun hs' => ?_⟩
      · cases hw.symm.trans (hasks.wsuspend hw')
      · rcases hasks.stat hs' with hs'' | hw'
        · exact hs hs''
        · cases hw.symm.trans hw'
    · obtain ⟨⟨p',x'⟩,hy,hx⟩ := done_cases hstep hl h.user hcur hbefore hdone
      obtain ⟨-,-,-,hafter⟩ := lwpContinue_spec c.issignal hy
      obtain ⟨hw,hheld,hfree⟩ := hafter h.wreboot
      rw [hx]
      refine ⟨hw,?_⟩
      cases hd : (s.lwp l).dbgsuspend with
      | false => exact hfree hd
      | true => exact hheld hd (by simp [h.held hd])

/-- After the thaw no LWP of a user process is suspended that was not when the freeze began, and
`p_nrlwps` is right all the time. An LWP that a debugger holds is stopped or suspended to begin
with. -/
theorem none_left_suspended {s₀ : State ι π} {es : List (Event ι)}
    (hbegin : s₀.freezer = .freeze c.all) (hcount : Counted s₀)
    (hheld : ∀ l, (s₀.lwp l).dbgsuspend = true →
      (s₀.lwp l).stat = .stop ∨ (s₀.lwp l).stat = .suspended)
    (hrun : exec (step c) s₀ es = some s) :
    Counted s ∧ (s.freezer = .after → ∀ l ∈ c.all, (s₀.procOf l).system = false → l ≠ c.cur →
      (s₀.lwp l).flags.wreboot = false → (s₀.lwp l).stat ≠ .suspended →
        (s.lwp l).stat ≠ .suspended) := by
  refine ⟨exec_invariant Counted (fun _ _ _ h hstep => h.step hstep) hcount hrun,?_⟩
  intro hafter l hl huser hcur hreboot hstat
  have hcalm : Calm l s₀ := by
    refine ⟨huser,hreboot,fun hd => (hheld l hd).resolve_right hstat,fun hdone => ?_⟩
    rw [hbegin] at hdone
    exact hdone.elim
  have hend : Calm l s :=
    exec_invariant (Calm l) (fun _ _ _ h hstep => h.step hl hcur hstep) hcalm hrun
  exact (hend.done (by rw [hafter]; trivial)).2

def single (x : Lwp Bool) (stopped : Bool) : State Bool Bool where
  proc p := ⟨p,stopped && !p,false,if p || x.stat.counts then 1 else 0⟩
  lwp l := if l then ⟨true,.onproc,.empty,false,false,false,true,.kernel⟩ else x
  freezer := .freeze [false]

theorem counted_single {x : Lwp Bool} (hx : x.proc = false) (stopped : Bool) :
    Counted (single x stopped) := by
  intro p
  have htally := Tally.of_list (f := (single x stopped).lwp)
    (Q := fun y => y.proc = p ∧ y.stat.counts = true) (l := [false,true]) (by decide) (by decide)
  have hn : ((single x stopped).proc p).nrlwps = [false,true].countP
      (fun l => ((single x stopped).lwp l).proc = p ∧ ((single x stopped).lwp l).stat.counts = true) := by
    cases p <;> simp [single,hx,LStat.counts,List.countP_cons]
  rw [hn]
  exact htally

def alone : Setting Bool := ⟨[false],true,false,Proc.stopped⟩
def own (n : ℕ) : List (Event Bool) := List.replicate n (.userret false .go)

/-- The LWP `false` is in user mode when the freeze begins. It reads its flags before the thaw and
takes the locks after that. -/
def lateSuspend : List (Event Bool) :=
  .visit :: own 3 ++ [.visit,.start,.visit,.visit] ++ own 3

theorem lateSuspend_none_left :
    ∃ s, exec (step alone) (single ⟨false,.onproc,.empty,false,false,false,true,.user⟩ false)
      lateSuspend = some s ∧ s.freezer = .after ∧ (s.lwp false).pc = .user ∧
        (s.lwp false).stat ≠ .suspended ∧ Counted s := by
  obtain ⟨s,hrun,hafter,huser⟩ : ∃ s, exec (step alone) (single
      ⟨false,.onproc,.empty,false,false,false,true,.user⟩ false) lateSuspend = some s ∧ s.freezer =
      .after ∧ (s.lwp false).pc = .user := by decide +kernel
  obtain ⟨hcounted,hnone⟩ := none_left_suspended rfl (counted_single rfl false) (by decide) hrun
  exact ⟨s,hrun,hafter,huser,hnone hafter false (by decide) rfl (by decide) rfl (by decide),hcounted⟩

/-! ## What the freezer does not remember -/

/-- If no LWP is suspended at first and those of stopped processes have stopped on their way to user
mode, freezing and thawing leave no LWP suspended, and none of a stopped process returns to user
mode. -/
theorem freeze_reversible {s₀ : State ι π} {es : List (Event ι)}
    (hwaits : IssignalWaits c.issignal) (hbegin : s₀.freezer = .freeze c.all)
    (hpop : ∀ l, (s₀.lwp l).flags.wreboot = false ∧ (s₀.lwp l).dbgsuspend = false)
    (hnone : ∀ l ∈ c.all, (s₀.lwp l).stat ≠ .suspended)
    (hsignals : ∀ l, (s₀.procOf l).stopped = true → (s₀.lwp l).pc.inSignals = true)
    (hrun : exec (step c) s₀ es = some s) :
    (s.freezer = .after → ∀ l ∈ c.all, (s₀.procOf l).system = false → l ≠ c.cur →
      ((s.lwp l).stat = .suspended ↔ (s₀.lwp l).stat = .suspended)) ∧
    ∀ l, (s₀.procOf l).stopped = true → (s.lwp l).pc ≠ .user := by
  refine ⟨fun hafter l hl huser hcur => ?_,fun l hstop => ?_⟩
  · have hcalm : Calm l s₀ := by
      refine ⟨huser,(hpop l).1,fun hd => (by cases (hpop l).2.symm.trans hd),fun hdone => ?_⟩
      rw [hbegin] at hdone
      exact hdone.elim
    have hend : Calm l s :=
      exec_invariant (Calm l) (fun _ _ _ h hstep => h.step hl hcur hstep) hcalm hrun
    exact iff_of_false (hend.done (by rw [hafter]; trivial)).2 (hnone l hl)
  · have hend := exec_invariant
      (fun s => (s.procOf l).stopped = true ∧ (s.lwp l).pc.inSignals = true)
      (fun u e v hu hstep => ?_) ⟨hstop,hsignals l hstop⟩ hrun
    · intro hpc
      simp [hpc,Pc.inSignals] at hend
    · have hframe := (step_frame hstep l).1
      exact ⟨hframe.stopped.trans hu.1,hframe.signals (hwaits _ hu.1) hu.2⟩

/-- A freeze and a thaw of the LWP `false`, with the steps `es` in between and `es'` afterwards. -/
def around (es es' : List (Event Bool)) : List (Event Bool) :=
  .visit :: es ++ [.visit,.start,.visit,.visit] ++ es'

/-- The LWP `false` has stopped on its way to user mode. It is woken up by the freeze and stops
again. -/
theorem stopped_freeze_reversible :
    ∃ s, exec (step alone) (single ⟨false,.stop,.empty,false,false,false,false,.signals⟩ true)
      (around [.dispatch false,.userret false .go,.miSwitch false] []) = some s ∧
        (s.lwp false).stat ≠ .suspended ∧ (s.lwp false).pc ≠ .user := by
  obtain ⟨s,hrun,hs⟩ : ∃ s, exec (step alone) (single
      ⟨false,.stop,.empty,false,false,false,false,.signals⟩ true) (around [.dispatch false,.userret
      false .go,.miSwitch false] []) = some s ∧ s.freezer = .after := by decide +kernel
  obtain ⟨hsame,hout⟩ := freeze_reversible (fun _ => id) rfl (by decide) (by decide) (by decide) hrun
  have hiff := hsame hs false (by decide) rfl (by decide)
  exact ⟨s,hrun,fun he => absurd (hiff.mp he) (by decide),hout false rfl⟩

/-- An LWP that was suspended before runs after the thaw. -/
theorem suspended_before_runs :
    ∃ s, exec (step alone)
      (single ⟨false,.suspended,{ Flags.empty with wsuspend := true },false,false,false,false,.top⟩
        false) (around [] []) = some s ∧ s.freezer = .after ∧ (s.lwp false).stat = .run := by
  decide +kernel

/-- An LWP that a stop signal has caught asleep is in user mode after the thaw. -/
theorem stopped_asleep_returns :
    ∃ s, exec (step alone) (single ⟨false,.stop,.empty,true,false,true,false,.kernel⟩ true)
      (around (.dispatch false :: own 4 ++ [.miSwitch false]) [.dispatch false,.userret false .go]) =
        some s ∧ (s.procOf false).stopped = true ∧ (s.lwp false).pc = .user := by
  decide +kernel

end NanoBSD.Freeze
