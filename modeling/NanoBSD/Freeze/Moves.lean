import NanoBSD.Freeze.Lwp

/-! # What a step does to an LWP

For each function that changes an LWP: how `p_nrlwps` follows the state of the LWP, which flags
stay, and that an LWP suspends itself only if it has been asked to.
-/
namespace NanoBSD.Freeze
variable {π : Type} {issignal : Proc → Bool} {p p' : Proc} {x x' : Lwp π}

def LStat.counts : LStat → Bool
  | .stop | .suspended | .zomb => false
  | .idl | .run | .sleep | .onproc => true

def Pc.inSignals : Pc → Bool
  | .signals | .stopping => true
  | _ => false

structure Frame (issignal : Proc → Bool) (p p' : Proc) (x x' : Lwp π) : Prop where
  proc : x'.proc = x.proc
  system : p'.system = p.system
  stopped : p'.stopped = p.stopped
  wreboot : x'.flags.wreboot = x.flags.wreboot
  dbgsuspend : x'.dbgsuspend = x.dbgsuspend
  held : x.dbgsuspend = true → x.stat = .stop → x'.stat = .stop
  signals : issignal p = true → x.pc.inSignals = true → x'.pc.inSignals = true

def Follows (p p' : Proc) (x x' : Lwp π) : Prop :=
  match x.stat.counts, x'.stat.counts with
  | false, true => p'.nrlwps = p.nrlwps + 1
  | true, false => p'.nrlwps = p.nrlwps - 1
  | _, _ => p'.nrlwps = p.nrlwps

structure Asks (x x' : Lwp π) : Prop where
  wsuspend : x'.flags.wsuspend = true → x.flags.wsuspend = true
  stat : x'.stat = .suspended → x.stat = .suspended ∨ x.flags.wsuspend = true

theorem Follows.same (h : x'.stat.counts = x.stat.counts) : Follows p p x x' := by
  unfold Follows
  rw [h]
  cases x.stat.counts <;> rfl

theorem Follows.join (hp : p'.nrlwps = p.nrlwps + 1) (hx : x.stat.counts = false)
    (hx' : x'.stat.counts = true) : Follows p p' x x' := by
  simpa [Follows,hx,hx'] using hp

theorem Follows.quit (hp : p'.nrlwps = p.nrlwps - 1) (hx : x.stat.counts = true)
    (hx' : x'.stat.counts = false) : Follows p p' x x' := by
  simpa [Follows,hx,hx'] using hp

theorem Frame.refl (p : Proc) (x : Lwp π) : Frame issignal p p x x :=
  ⟨rfl,rfl,rfl,rfl,rfl,fun _ h => h,fun _ h => h⟩

theorem Asks.refl (x : Lwp π) : Asks x x := ⟨id,.inl⟩

/-! ## `setrunnable` and its callers -/

theorem Lwp.start_eq (x : Lwp π) : x.start.proc = x.proc ∧ x.start.flags = x.flags ∧
    x.start.dbgsuspend = x.dbgsuspend ∧ x.start.pc = x.pc ∧
      x.start.stat = if x.running then .onproc else .run := by
  unfold Lwp.start
  split <;> exact ⟨rfl,rfl,rfl,rfl,rfl⟩

theorem Lwp.start_counts (x : Lwp π) : x.start.stat.counts = true := by
  rw [x.start_eq.2.2.2.2]
  split <;> rfl

theorem setrunnable_spec (h : setrunnable p x = some (p',x')) :
    Frame issignal p p' x x' ∧ Follows p p' x x' ∧ x'.stat.counts = true ∧
      (x'.flags.wsuspend = true → x.flags.wsuspend = true) := by
  obtain ⟨hdbg,h⟩ := Option.ite_none_left_eq_some.mp h
  have hheld (hd : x.dbgsuspend = true) : x.stat = .stop → x'.stat = .stop := absurd hd hdbg
  have hstart {y : Lwp π} (he : y.start = x') (hy : y.proc = x.proc ∧
      y.flags.wreboot = x.flags.wreboot ∧ y.dbgsuspend = x.dbgsuspend ∧ y.pc = x.pc) (hsys : p'.system = p.system)
      (hstop : p'.stopped = p.stopped) : Frame issignal p p' x x' := by
    obtain ⟨hproc,hflags,hd,hpc,-⟩ := y.start_eq
    subst he
    exact ⟨hproc.trans hy.1,hsys,hstop,by rw [hflags,hy.2.1],hd.trans hy.2.2.1,hheld,
      fun _ hs => by rwa [hpc,hy.2.2.2]⟩
  cases hstat : x.stat <;> rw [hstat] at h <;> cases h
  case stop =>
    refine ⟨hstart rfl ⟨rfl,rfl,rfl,rfl⟩ rfl rfl,.join rfl (by rw [hstat]; rfl) (Lwp.start_counts _),
      Lwp.start_counts _,?_⟩
    rw [(Lwp.start_eq _).2.1]
    exact id
  case suspended =>
    refine ⟨hstart rfl ⟨rfl,rfl,rfl,rfl⟩ rfl rfl,.join rfl (by rw [hstat]; rfl) (Lwp.start_counts _),
      Lwp.start_counts _,?_⟩
    rw [(Lwp.start_eq _).2.1]
    simp [Lwp.setFlags]
  case sleep | idl =>
    refine ⟨hstart rfl ⟨rfl,rfl,rfl,rfl⟩ rfl rfl,.same ?_,Lwp.start_counts _,?_⟩
    · rw [Lwp.start_counts,hstat]
      rfl
    · rw [(Lwp.start_eq _).2.1]
      exact id

theorem lwpSuspend_spec {exiting : Bool} {e : Option Errno}
    (h : lwpSuspend exiting p x = some (e,p',x')) :
    Frame issignal p p' x x' ∧ Follows p p' x x' := by
  have hsame : Frame issignal p p x x ∧ Follows p p x x := ⟨.refl p x,.same rfl⟩
  have hasked {b : Bool} : Frame issignal p p x (x.setFlags { x.flags with wsuspend := b }) ∧
      Follows p p x (x.setFlags { x.flags with wsuspend := b }) :=
    ⟨⟨rfl,rfl,rfl,rfl,rfl,fun _ h => h,fun _ h => h⟩,.same rfl⟩
  have hrunnable (h : (setrunnable p (x.setFlags { x.flags with wsuspend := true })).map
      ((none : Option Errno),·) = some (e,p',x')) :
      Frame issignal p p' x x' ∧ Follows p p' x x' := by
    obtain ⟨y,hy,he⟩ := Option.map_eq_some_iff.mp h
    cases he
    obtain ⟨hframe,hfollows,-,-⟩ := setrunnable_spec hy
    exact ⟨⟨hframe.proc,hframe.system,hframe.stopped,hframe.wreboot,hframe.dbgsuspend,hframe.held,
      hframe.signals⟩,hfollows⟩
  unfold lwpSuspend at h
  dsimp only at h
  split at h
  · cases h
    exact hsame
  · split at h
    · cases h
      exact hsame
    · cases hstat : x.stat <;> simp only [hstat] at h
      case sleep =>
        split at h
        · exact hrunnable h
        · cases h
          exact hasked
      case stop => exact hrunnable h
      case run | onproc =>
        cases h
        exact hasked
      all_goals
        cases h
        exact hsame

/-- After `lwp_continue` an LWP neither is suspended nor is to suspend itself, unless there is a
reboot or a debugger holds it. -/
theorem lwpContinue_spec (issignal : Proc → Bool) (h : lwpContinue p x = some (p',x')) :
    Frame issignal p p' x x' ∧ Follows p p' x x' ∧ Asks x x' ∧
      (x.flags.wreboot = false → x'.flags.wsuspend = false ∧
        (x.dbgsuspend = true → x.stat ≠ .suspended → x'.stat ≠ .suspended) ∧
        (x.dbgsuspend = false → x'.stat ≠ .suspended)) := by
  unfold lwpContinue at h
  dsimp only at h
  split_ifs at h with hreboot hstat
  · cases h
    exact ⟨.refl p x,.same rfl,.refl x,fun hr => (by cases hreboot.symm.trans hr)⟩
  · cases h
    refine ⟨⟨rfl,rfl,rfl,rfl,rfl,fun _ h => h,fun _ h => h⟩,.same rfl,⟨by simp [Lwp.setFlags],.inl⟩,
      fun _ => ⟨rfl,fun _ h => h,fun hdbg => ?_⟩⟩
    rcases hstat with hstat | hheld
    · exact hstat
    · cases hheld.symm.trans hdbg
  · obtain ⟨hframe,hfollows,hcounts,hwsuspend⟩ := setrunnable_spec h
    have hne : x'.stat ≠ .suspended := fun he => by simp [he,LStat.counts] at hcounts
    have hoff : x'.flags.wsuspend = false := Bool.not_eq_true _ ▸ fun hw => by
      simpa [Lwp.setFlags] using hwsuspend hw
    refine ⟨⟨hframe.proc,hframe.system,hframe.stopped,hframe.wreboot,hframe.dbgsuspend,hframe.held,
      hframe.signals⟩,hfollows,⟨fun hw => by simp [hoff] at hw,fun he => absurd he hne⟩,
      fun _ => ⟨hoff,fun _ _ => hne,fun _ => hne⟩⟩

/-! ## The steps of an LWP -/

theorem userret_spec {i : Choice} (hstat : x.stat = .onproc)
    (h : userret issignal p x i = some (p',x')) :
    Frame issignal p p' x x' ∧ Follows p p' x x' ∧ Asks x x' := by
  have hcounts : x.stat.counts = true := by rw [hstat]; rfl
  have hnot (hs : x.stat = .stop) : False := by
    rw [hstat] at hs
    cases hs
  cases i with
  | go =>
    -- the LWP goes on in the same state
    have hgo {y : Lwp π} (hy : y.proc = x.proc ∧ y.flags.wreboot = x.flags.wreboot ∧
        y.dbgsuspend = x.dbgsuspend ∧ y.stat = x.stat ∧ y.flags.wsuspend = x.flags.wsuspend)
        (hpc : issignal p = true → x.pc.inSignals = true → y.pc.inSignals = true) :
        Frame issignal p p x y ∧ Follows p p x y ∧ Asks x y :=
      ⟨⟨hy.1,rfl,rfl,hy.2.1,hy.2.2.1,fun _ hs => (hnot hs).elim,hpc⟩,
        .same (by rw [hy.2.2.2.1]),⟨fun hw => hy.2.2.2.2 ▸ hw,fun hs => .inl (hy.2.2.2.1 ▸ hs)⟩⟩
    have hquit {y : Lwp π} (hy : y.proc = x.proc ∧ y.flags = x.flags ∧ y.dbgsuspend = x.dbgsuspend ∧
        y.stat.counts = false) (hs : y.stat = .suspended → x.flags.wsuspend = true)
        (hpc : x.pc.inSignals = true → y.pc.inSignals = true) :
        Frame issignal p { p with nrlwps := p.nrlwps - 1 } x y ∧
          Follows p { p with nrlwps := p.nrlwps - 1 } x y ∧ Asks x y :=
      ⟨⟨hy.1,rfl,rfl,by rw [hy.2.1],hy.2.2.1,fun _ hs => (hnot hs).elim,fun _ => hpc⟩,
        .quit rfl hcounts hy.2.2.2,⟨fun hw => hy.2.1 ▸ hw,fun he => .inr (hs he)⟩⟩
    cases hpc : x.pc <;> simp only [userret,hpc] at h
    case signals =>
      split at h <;> cases h
      · exact hquit ⟨rfl,rfl,rfl,rfl⟩ (fun he => by cases he) fun _ => rfl
      · rename_i hstop
        exact hgo ⟨rfl,rfl,rfl,rfl,rfl⟩ fun hs => absurd hs hstop
    case suspend =>
      split at h <;> cases h
      · rename_i hw
        exact hquit ⟨rfl,rfl,rfl,rfl⟩ (fun _ => hw) fun hs => by simp [hpc,Pc.inSignals] at hs
      · exact hgo ⟨rfl,rfl,rfl,rfl,rfl⟩ fun _ hs => by simp [hpc,Pc.inSignals] at hs
    case exit =>
      cases h
      exact hquit ⟨rfl,rfl,rfl,rfl⟩ (fun he => by cases he) fun hs => by simp [hpc,Pc.inSignals] at hs
    case sleeping | stopping | switching => cases h
    all_goals
      cases h
      exact hgo ⟨rfl,rfl,rfl,rfl,rfl⟩ fun _ hs => by simp [hpc,Pc.inSignals] at hs
  | sleep b =>
    obtain ⟨hpc,⟨⟩⟩ := of_guard h
    refine ⟨⟨rfl,rfl,rfl,rfl,rfl,fun _ hs => (hnot hs).elim,
      fun _ hs => by simp [hpc,Pc.inSignals] at hs⟩,.same ?_,⟨id,nofun⟩⟩
    rw [hcounts]
    rfl
  | more =>
    obtain ⟨⟨hpc,hstop⟩,⟨⟩⟩ := of_guard h
    exact ⟨⟨rfl,rfl,rfl,rfl,rfl,fun _ hs => (hnot hs).elim,
      fun hs => (by cases hstop.symm.trans hs)⟩,.same rfl,⟨id,.inl⟩⟩

theorem queue_spec {y : LStat} {b : Bool} (hx : x.stat = .run ∨ x.stat = .onproc)
    (hy : y = .run ∨ y = .onproc) :
    Frame issignal p p x { x with stat := y, running := b } ∧
      Follows p p x { x with stat := y, running := b } ∧
      Asks x { x with stat := y, running := b } := by
  refine ⟨⟨rfl,rfl,rfl,rfl,rfl,fun _ hs => ?_,fun _ h => h⟩,.same ?_,⟨id,fun hs => ?_⟩⟩
  · rcases hx with hx | hx <;> cases hx.symm.trans hs
  · rcases hx with hx | hx <;> rcases hy with rfl | rfl <;> rw [hx] <;> rfl
  · rcases hy with rfl | rfl <;> cases hs

theorem wake_spec (p : Proc) (x : Lwp π) :
    Frame issignal p p x x.wake ∧ Follows p p x x.wake ∧ Asks x x.wake := by
  unfold Lwp.wake
  split
  · rename_i hstat
    have hcounts : x.unsleep.stat.counts = x.stat.counts := by
      rw [hstat]
      simp only [Lwp.unsleep,Lwp.runnable]
      split <;> rfl
    refine ⟨⟨rfl,rfl,rfl,rfl,rfl,fun _ hs => ?_,fun _ h => h⟩,.same hcounts,⟨id,fun hs => ?_⟩⟩
    · cases hstat.symm.trans hs
    · rw [hs,hstat] at hcounts
      cases hcounts
  · exact ⟨⟨rfl,rfl,rfl,rfl,rfl,fun _ h => h,fun _ h => h⟩,.same rfl,⟨id,.inl⟩⟩

theorem Pc.inSignals_resume {pc : Pc} (h : pc.inSignals = true) : pc.resume.inSignals = true := by
  cases pc <;> simp_all [Pc.inSignals,Pc.resume]

theorem miSwitch_spec (p : Proc) (x : Lwp π) :
    Frame issignal p p x x.miSwitch ∧ Follows p p x x.miSwitch ∧ Asks x x.miSwitch := by
  have hstat : x.miSwitch.stat = x.stat ∨ x.stat = .onproc ∧ x.miSwitch.stat = .run := by
    by_cases h : x.stat = .onproc <;> simp [Lwp.miSwitch,h]
  refine ⟨⟨rfl,rfl,rfl,rfl,rfl,fun _ hs => ?_,fun _ => Pc.inSignals_resume⟩,.same ?_,⟨id,fun hs => ?_⟩⟩
  · rcases hstat with he | ⟨he,-⟩
    · exact he.trans hs
    · cases he.symm.trans hs
  · rcases hstat with he | ⟨he,he'⟩
    · rw [he]
    · rw [he,he']
      rfl
  · rcases hstat with he | ⟨-,he⟩
    · exact .inl (he ▸ hs)
    · cases he.symm.trans hs

end NanoBSD.Freeze
