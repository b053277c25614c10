import NanoBSD.Vfs.SuspendAll

/-! # Resuming a session

`vfs_resume_all` learns what the session holds only from the array it is given. On
the array of a successful suspension it takes everything back.
-/
namespace NanoBSD.VfsS2idle
open Prog
variable {M L T : Type} [DecidableEq M] [DecidableEq L] [DecidableEq T] [Fintype M]
variable {K : MountTable M L} {F : Faults M L T} {curlwp : T} {s : Sys M L T} {f : Frame M L T}

def Frame.reopened (f : Frame M L T) : Frame M L T :=
  { Frame.start f.sys none 0 with mounts := f.mounts, capacity := f.mounts.length }

omit [DecidableEq T] in
theorem Session.reopen (h : Session K curlwp s f) : Account K curlwp s f.reopened := by
  have hholds : ∀ m, ({ f with mpp := none, nmpp := 0 } : Frame M L T).holds m =
      f.reopened.holds m := by
    intro m
    simp only [Frame.holds,h.iterMount]
    rfl
  exact { h.account with
    fstrans := fun m => (h.account.fstrans m).trans (by rw [hholds])
    refcnt := fun m => (h.account.refcnt m).trans (by rw [hholds])
    kmem := h.account.kmem.trans (by rw [h.capacity]; rfl) }

omit [Fintype M] [DecidableEq T] in
theorem Account.empty (h : Account K curlwp s f) (hm : f.mounts = []) (hi : f.iterMount = none)
    (hcap : f.capacity = 0) :
    Restored s { f with sys := { f.sys with gate := { f.sys.gate with owner := none } } } where
  mpp := h.mpp
  nmpp := h.nmpp
  gate := by simp only [h.gate,← h.admitted.1]
  fstrans := by
    funext m
    simpa [Frame.holds,hm,hi] using h.fstrans m
  refcnt := by
    funext m
    simpa [Frame.holds,hm,hi] using h.refcnt m
  flag := h.flag
  updating := by
    funext l
    simpa [hm,heldBy] using h.updating l
  suspended := by
    funext m
    simpa [hm,resumed] using h.suspended m
  global := by simpa [hm,resumed] using h.global
  kmem := by simpa [hcap] using h.kmem

theorem Session.vfsResumeAll_wp (h : Session K curlwp s f) {E : Trap → Frame M L T → Prop} :
    (vfsResumeAll K curlwp f.mpp f.nmpp).wp (fun _ g => Restored s g ∧ g.sys.trace = f.sys.trace ++
        (roots K.lower (mountsOf K.list)).dropLast.map (.resume · false) ++
        (roots K.lower (mountsOf K.list)).getLast?.toList.map (.resume · true)) E
      (Frame.start f.sys none 0) := by
  have hacc := h.reopen
  rw [vfsResumeAll,h.mpp,h.nmpp]
  by_cases hnil : f.mounts = []
  · have hlist : mountsOf K.list = [] := by rw [← h.mps,hnil]; rfl
    rw [if_neg (by simp [hnil]),if_pos (by simp [hnil]),onGate,wp_focus]
    refine barrierExit_wp curlwp f.sys.gate (by rw [h.account.gate]) ?_ ⟨?_,?_⟩
    · rw [h.account.gate]
      exact h.account.admitted.2
    · have hback := hacc.empty hnil rfl (by simp [Frame.reopened,hnil])
      exact { hback with }
    · simp [Frame.start,hlist,roots]
  · have hlen : f.mounts.length ≠ 0 := fun hz => hnil (List.length_eq_zero_iff.mp hz)
    rw [if_neg hnil,if_neg (by simp),if_neg hlen,wp_bind,wp_update,Option.getD_some,List.take_length,
      wp_bind]
    refine resumeSuspended_wp hacc.suspendedSome ?_
    rw [List.map_map]
    refine hacc.resumeAll.releaseMounts (fun v => resumed_settled v f.mounts) rfl ?_
    intro g hg htr
    refine ⟨hg,htr.trans ?_⟩
    rw [resumeAll_eq]
    simp only [Frame.reopened,h.resumed_false,h.resumed_true]
    rfl

/-- Resuming the returned array restores the state from before. The canonical mounts are resumed in
creation order, the holder of the global lock last and alone through `vfs_resume`. -/
theorem vfsResumeAll_restores {mpp : Option (List (Entry M))} {nmpp : ℕ}
    (h : vfsSuspendAll K F curlwp (Frame.start s mpp nmpp) = (.ok (),f)) :
    ∃ g others holder,
      vfsResumeAll K curlwp f.mpp f.nmpp (Frame.start f.sys none 0) = (.ok (),g) ∧
      Restored s g ∧ roots K.lower (mountsOf K.list) = others ++ holder ∧
      (f.mounts.filter fun e => e.globalLock).map Entry.mp = holder ∧ holder.length ≤ 1 ∧
      g.sys.trace = f.sys.trace ++ others.map (.resume · false) ++
        holder.map (.resume · true) := by
  have hsession : Session K curlwp s f := wp_ok (vfsSuspendAll_wp mpp nmpp) h
  have hresume := hsession.vfsResumeAll_wp (E := fun _ _ => False)
  cases hrun : vfsResumeAll K curlwp f.mpp f.nmpp (Frame.start f.sys none 0) with
  | mk r g =>
    cases r with
    | error e => exact (wp_error hresume hrun).elim
    | ok u =>
      obtain ⟨hback,htrace⟩ := wp_ok hresume hrun
      have hsplit : roots K.lower (mountsOf K.list) = (roots K.lower (mountsOf K.list)).dropLast ++
          (roots K.lower (mountsOf K.list)).getLast?.toList := by
        rcases List.eq_nil_or_concat (roots K.lower (mountsOf K.list)) with hr | ⟨cs,c,hr⟩ <;>
          simp [hr]
      refine ⟨g,_,_,rfl,hback,hsplit,hsession.globalEntry,?_,htrace⟩
      cases (roots K.lower (mountsOf K.list)).getLast? <;> simp

theorem vfsResumeAll_restores_layered : layeredRun.1 = .ok () ∧
    ∃ g others holder,
      vfsResumeAll layeredTable () layeredRun.2.mpp layeredRun.2.nmpp
        (Frame.start layeredRun.2.sys none 0) = (.ok (),g) ∧
      Restored idleSys g ∧ roots layeredTable.lower (mountsOf layeredTable.list) = others ++ holder ∧
      (layeredRun.2.mounts.filter fun e => e.globalLock).map Entry.mp = holder ∧
      holder.length ≤ 1 ∧
      g.sys.trace = layeredRun.2.sys.trace ++ others.map (.resume · false) ++
        holder.map (.resume · true) := by
  have hok : layeredRun.1 = .ok () := by decide +kernel
  exact ⟨hok,vfsResumeAll_restores (Prod.fst_eq_iff.mp hok)⟩

end NanoBSD.VfsS2idle
