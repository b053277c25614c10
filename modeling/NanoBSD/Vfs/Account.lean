import NanoBSD.Vfs.Cleanup

/-! # The account of a session

At every point between admission and return the kernel state differs from the
state before the call exactly by what the array and the iterator record as taken.
Giving back what is recorded therefore restores the state, wherever the call failed.
-/
namespace NanoBSD.VfsS2idle
open Prog Function List
variable {M L T : Type} [DecidableEq M] [DecidableEq L]

def Frame.holds (f : Frame M L T) (m : M) : ℕ :=
  (f.mounts.map Entry.mp).count m + f.iterMount.toList.count m

/-- What the call has taken so far, read off its local variables. -/
structure Account (K : MountTable M L) (curlwp : T) (s : Sys M L T) (f : Frame M L T) : Prop where
  mpp : f.mpp = none
  nmpp : f.nmpp = 0
  ready : s.gate.ready = true
  admitted : s.gate.owner = none ∧ s.gate.mountops = 0
  gate : f.sys.gate = { s.gate with owner := some curlwp }
  fstrans : ∀ m, f.sys.fstrans m = s.fstrans m + f.holds m
  refcnt : ∀ m, f.sys.refcnt m = s.refcnt m + f.holds m
  flag : f.sys.flag = s.flag
  updating : ∀ l, f.sys.updating l = (s.updating l || heldBy K f.mounts l)
  updatingFree : ∀ l, heldBy K f.mounts l = true → s.updating l = false
  updatingSome : ∀ e ∈ f.mounts, e.updatingHeld = true → (K.updating e.mp).isSome
  suspended : ∀ m, f.sys.suspended m =
    s.suspended m + (resumed false f.mounts).count m + (resumed true f.mounts).count m
  suspendedSome : ∀ e ∈ f.mounts, e.suspended = true → e.suspendMp.isSome
  global : f.sys.globalLock = (s.globalLock || !(resumed true f.mounts).isEmpty)
  globalFree : resumed true f.mounts ≠ [] → s.globalLock = false
  kmem : f.sys.kmem = s.kmem + f.capacity * entrySize

structure Restored (s : Sys M L T) (f : Frame M L T) : Prop where
  mpp : f.mpp = none
  nmpp : f.nmpp = 0
  gate : f.sys.gate = s.gate
  fstrans : f.sys.fstrans = s.fstrans
  refcnt : f.sys.refcnt = s.refcnt
  flag : f.sys.flag = s.flag
  updating : f.sys.updating = s.updating
  suspended : f.sys.suspended = s.suspended
  global : f.sys.globalLock = s.globalLock
  kmem : f.sys.kmem = s.kmem

def Sys.busy (mp : M) (s : Sys M L T) : Sys M L T := (s.fstransStart mp).vfsRef mp

@[simps] def Entry.fresh (mp : M) : Entry M := ⟨mp,none,false,false,false⟩

section Holds

section

omit [DecidableEq L]

theorem fstransDone_fstransStart (mp : M) (s : Sys M L T) :
    (s.fstransStart mp).fstransDone mp = s := by
  simp [Sys.fstransStart,Sys.fstransDone]

theorem vfsRele_vfsRef (mp : M) (s : Sys M L T) : (s.vfsRef mp).vfsRele mp = s := by
  simp [Sys.vfsRef,Sys.vfsRele]

theorem vfsRele_busy_vfsRef (mp : M) (s : Sys M L T) :
    ((s.vfsRef mp).busy mp).vfsRele mp = s.busy mp := by
  simp [Sys.vfsRef,Sys.vfsRele,Sys.busy,Sys.fstransStart]

theorem busy_counts (mp m : M) (s : Sys M L T) :
    (s.busy mp).fstrans m = s.fstrans m + [mp].count m ∧
      (s.busy mp).refcnt m = s.refcnt m + [mp].count m := by
  by_cases h : m = mp
  · subst h
    simp [Sys.busy,Sys.fstransStart,Sys.vfsRef]
  · simp [Sys.busy,Sys.fstransStart,Sys.vfsRef,update_of_ne h,Ne.symm h]

end

variable {F : Faults M L T} {s : Sys M L T} {E : Trap → Sys M L T → Prop}

omit [DecidableEq L] in
theorem vfsTrybusy_wp {mp : M} {Q : Unit → Sys M L T → Prop} (hok : Q () (s.busy mp))
    (herr : ∀ e, E (.errno e) s) : (vfsTrybusy F mp).wp Q E s := by
  simp only [vfsTrybusy,wp_bind,wp_read,id]
  cases F.fstransStart s mp with
  | true => exact herr _
  | false =>
    simp only [Bool.false_eq_true,↓reduceIte,wp_bind,wp_update]
    by_cases hgone : s.gone mp = true
    · simp only [hgone,↓reduceIte,wp_bind,wp_update,wp_raise,fstransDone_fstransStart]
      exact herr _
    · rw [if_neg hgone]
      exact hok

structure IteratorStep (s : Sys M L T) (rest : List (ListEntry M)) (skipped : Bool)
    (r : Option M × Bool × List (ListEntry M)) (t : Sys M L T) : Prop where
  sys : t = r.1.toList.foldl (fun s mp => s.busy mp) s
  skipped : skipped = true → r.2.1 = true
  complete : r.2.1 = false → mountsOf rest = r.1.toList ++ mountsOf r.2.2
  ended : r.1 = none → r.2.2 = []
  shorter : r.1 ≠ none → r.2.2.length < rest.length

omit [DecidableEq L] in
theorem iteratorNext_wp (rest : List (ListEntry M)) (skipped : Bool) :
    (iteratorNext F rest skipped).wp (IteratorStep s rest skipped) E s := by
  induction rest generalizing skipped with
  | nil => exact ⟨rfl,id,fun _ => rfl,fun _ => rfl,fun h => absurd rfl h⟩
  | cons a rest ih =>
    cases a with
    | marker =>
      refine wp_conseq (ih skipped) ?_
      intro r t h
      exact ⟨h.sys,h.skipped,h.complete,h.ended,fun hr => (h.shorter hr).trans (Nat.lt_succ_self _)⟩
    | mount mp =>
      simp only [iteratorNext,wp_bind,wp_update,wp_attempt]
      refine vfsTrybusy_wp ?_ ?_
      · simp only [wp_bind,wp_update,wp_pure,vfsRele_busy_vfsRef]
        exact ⟨rfl,id,fun _ => rfl,fun hr => (Option.some_ne_none mp hr).elim,
          fun _ => Nat.lt_succ_self _⟩
      · intro e
        simp only [wp_bind,wp_update,vfsRele_vfsRef]
        refine wp_conseq (ih true) ?_
        intro r t h
        have hskip := h.skipped rfl
        refine ⟨h.sys,fun _ => hskip,?_,h.ended,fun hr => (h.shorter hr).trans (Nat.lt_succ_self _)⟩
        intro hr
        rw [hskip] at hr
        cases hr

end Holds

section Steps
variable {K : MountTable M L} {curlwp : T} {s : Sys M L T} {f : Frame M L T}

section
variable (h : Account K curlwp s f)
include h

theorem Account.dropIter {mp : M} (hm : f.iterMount = some mp) :
    Account K curlwp s { f with sys := f.sys.unbusy mp, iterMount := none } := by
  have hun : f.sys.unbusy mp = f.sys.unbusyAll [Entry.fresh mp] := rfl
  have hholds : ∀ m, f.holds m =
      ({ f with sys := f.sys.unbusy mp, iterMount := none } : Frame M L T).holds m +
        [mp].count m := by
    intro m
    simp [Frame.holds,hm]
  rw [hun,unbusyAll_eq] at hholds ⊢
  refine { h with
    fstrans := fun m => Nat.sub_eq_of_eq_add ?_
    refcnt := fun m => Nat.sub_eq_of_eq_add ?_ }
  · rw [h.fstrans m,hholds m,Nat.add_assoc]
    rfl
  · rw [h.refcnt m,hholds m,Nat.add_assoc]
    rfl

theorem Account.counts {g : Frame M L T} {mp : M} (hsys : g.sys = f.sys.busy mp)
    (hholds : ∀ m, g.holds m = f.holds m + [mp].count m) (m : M) :
    g.sys.fstrans m = s.fstrans m + g.holds m ∧ g.sys.refcnt m = s.refcnt m + g.holds m := by
  obtain ⟨hfstrans,hrefcnt⟩ := busy_counts mp m f.sys
  rw [hsys,hholds,hfstrans,hrefcnt,h.fstrans m,h.refcnt m,Nat.add_assoc,Nat.add_assoc]
  exact ⟨rfl,rfl⟩

theorem Account.holdIter (hm : f.iterMount = none) (mp : M) (rest : List (ListEntry M)) :
    Account K curlwp s { f with
      sys := f.sys.busy mp, iterMount := some mp, iterRest := rest } := by
  have hcounts := h.counts (g := { f with
    sys := f.sys.busy mp, iterMount := some mp, iterRest := rest }) rfl
    fun m => by simp [Frame.holds,hm]
  exact { h with fstrans := fun m => (hcounts m).1, refcnt := fun m => (hcounts m).2 }

theorem Account.push (mp : M) :
    Account K curlwp s { f with
      sys := f.sys.busy mp, mounts := f.mounts ++ [Entry.fresh mp] } := by
  have hcounts := h.counts (g := { f with
    sys := f.sys.busy mp, mounts := f.mounts ++ [Entry.fresh mp] }) rfl fun m => by
      simp [Frame.holds,Nat.add_right_comm]
  have hheld : heldBy K (f.mounts ++ [Entry.fresh mp]) = heldBy K f.mounts := by
    funext l
    simp [heldBy,Entry.owns,Entry.fresh]
  have hres : ∀ v, resumed v (f.mounts ++ [Entry.fresh mp]) = resumed v f.mounts := by
    intro v
    simp [resumed,Entry.fresh,Entry.resumes]
  refine { h with
    fstrans := fun m => (hcounts m).1
    refcnt := fun m => (hcounts m).2
    updating := hheld ▸ h.updating
    updatingFree := hheld ▸ h.updatingFree
    updatingSome := ?_
    suspended := by simp only [hres]; exact h.suspended
    suspendedSome := ?_
    global := hres true ▸ h.global
    globalFree := hres true ▸ h.globalFree }
  · intro e he hu
    rcases mem_append.mp he with he | he
    · exact h.updatingSome e he hu
    · rw [mem_singleton.mp he] at hu
      cases hu
  · intro e he hu
    rcases mem_append.mp he with he | he
    · exact h.suspendedSome e he hu
    · rw [mem_singleton.mp he] at hu
      cases hu

theorem Account.realloc (newcapacity : ℕ) :
    Account K curlwp s (VfsS2idle.realloc newcapacity f) := by
  refine { h with kmem := ?_ }
  have hk := h.kmem
  simp only [VfsS2idle.realloc]
  omega

end

omit [DecidableEq M] in
theorem heldBy_middle (pre post : List (Entry M)) (e : Entry M) (l : L) :
    heldBy K (pre ++ e :: post) l = (heldBy K pre l || e.owns K l || heldBy K post l) := by
  simp [heldBy,Bool.or_assoc]

omit [DecidableEq M] in
theorem resumed_middle (v : Bool) (pre post : List (Entry M)) (e : Entry M) :
    resumed v (pre ++ e :: post) =
      resumed v pre ++ (if e.resumes v then e.suspendMp else none).toList ++ resumed v post := by
  cases h : (if e.resumes v then e.suspendMp else none) <;> simp [resumed,h]

section Middle
variable {pre post : List (Entry M)} {e : Entry M}

omit [DecidableEq M] [DecidableEq L] in
theorem forall_middle {P : Entry M → Prop} (hf : f.mounts = pre ++ e :: post)
    (h : ∀ x ∈ f.mounts, P x) {e' : Entry M} (he : P e') : ∀ x ∈ pre ++ e' :: post, P x := by
  intro x hx
  rw [hf] at h
  rcases mem_append.mp hx with hx | hx
  · exact h x (mem_append_left _ hx)
  · rcases mem_cons.mp hx with rfl | hx
    · exact he
    · exact h x (mem_append_right _ (mem_cons_of_mem _ hx))

theorem Account.setCanonical (h : Account K curlwp s f) (hf : f.mounts = pre ++ e :: post)
    (hs : e.suspended = false) (c : Option M) :
    Account K curlwp s { f with mounts := pre ++ { e with suspendMp := c } :: post } := by
  have hheld : heldBy K (pre ++ { e with suspendMp := c } :: post) = heldBy K f.mounts := by
    funext l
    rw [hf,heldBy_middle,heldBy_middle]
    rfl
  have hres : ∀ v, resumed v (pre ++ { e with suspendMp := c } :: post) = resumed v f.mounts := by
    intro v
    rw [hf,resumed_middle,resumed_middle]
    simp [Entry.resumes,hs]
  refine { h with
    fstrans := fun m => (h.fstrans m).trans (by simp [Frame.holds,hf])
    refcnt := fun m => (h.refcnt m).trans (by simp [Frame.holds,hf])
    updating := hheld ▸ h.updating
    updatingFree := hheld ▸ h.updatingFree
    updatingSome := forall_middle hf h.updatingSome (h.updatingSome e (by rw [hf]; simp))
    suspended := by simpa only [hres] using h.suspended
    suspendedSome := forall_middle hf h.suspendedSome
      (fun hu => (by cases hs.symm.trans hu))
    global := hres true ▸ h.global
    globalFree := hres true ▸ h.globalFree }

theorem Account.lock (h : Account K curlwp s f) (hf : f.mounts = pre ++ e :: post) {l : L}
    (hl : K.updating e.mp = some l) (hfree : f.sys.updating l = false) :
    Account K curlwp s { f with
      mounts := pre ++ { e with updatingHeld := true } :: post
      sys := { f.sys with updating := update f.sys.updating l true } } := by
  have hs := h.updating l
  rw [hfree] at hs
  have hheld : ∀ l', heldBy K (pre ++ { e with updatingHeld := true } :: post) l' =
      (heldBy K f.mounts l' || some l == some l') := by
    intro l'
    rw [hf,heldBy_middle,heldBy_middle]
    simp only [Entry.owns,hl,Bool.true_and]
    cases heldBy K pre l' <;> cases heldBy K post l' <;> cases e.updatingHeld <;> simp
  have hres : ∀ v, resumed v (pre ++ { e with updatingHeld := true } :: post) =
      resumed v f.mounts := by
    intro v
    rw [hf,resumed_middle,resumed_middle]
    rfl
  refine { h with
    fstrans := fun m => (h.fstrans m).trans (by simp [Frame.holds,hf])
    refcnt := fun m => (h.refcnt m).trans (by simp [Frame.holds,hf])
    updating := ?_
    updatingFree := ?_
    updatingSome := forall_middle hf h.updatingSome (fun _ => by rw [hl]; rfl)
    suspended := by simpa only [hres] using h.suspended
    suspendedSome := forall_middle hf h.suspendedSome (h.suspendedSome e (by rw [hf]; simp))
    global := hres true ▸ h.global
    globalFree := hres true ▸ h.globalFree }
  · intro l'
    rw [hheld]
    by_cases hne : l' = l
    · subst hne
      simp
    · have : (some l == some l') = false := by simp [Ne.symm hne]
      rw [this,Bool.or_false]
      exact (update_of_ne hne ..).trans (h.updating l')
  · intro l' hl'
    rw [hheld,Bool.or_eq_true] at hl'
    rcases hl' with hl' | hl'
    · exact h.updatingFree l' hl'
    · rw [← Option.some.inj (beq_iff_eq.mp hl')]
      exact (Bool.or_eq_false_iff.mp hs.symm).1

theorem Account.suspend (h : Account K curlwp s f) (hf : f.mounts = pre ++ e :: post)
    (hs : e.suspended = false) {c : M} (hc : e.suspendMp = some c) (viaGlobal held : Bool)
    (hg : viaGlobal = true → f.sys.globalLock = false) :
    Account K curlwp s { f with
      mounts := pre ++ { e with suspended := true, globalLock := viaGlobal } :: post
      sys := f.sys.suspend c viaGlobal
      globalHeld := held } := by
  have hheld : heldBy K (pre ++ { e with suspended := true, globalLock := viaGlobal } :: post) =
      heldBy K f.mounts := by
    funext l
    rw [hf,heldBy_middle,heldBy_middle]
    rfl
  have hres : ∀ v, resumed v
      (pre ++ { e with suspended := true, globalLock := viaGlobal } :: post) =
      resumed v pre ++ (if viaGlobal = v then [c] else []) ++ resumed v post := by
    intro v
    rw [resumed_middle]
    cases v <;> cases viaGlobal <;> simp [Entry.resumes,hc]
  have hold : ∀ v, resumed v f.mounts = resumed v pre ++ resumed v post := by
    intro v
    rw [hf,resumed_middle]
    simp [Entry.resumes,hs]
  refine { h with
    fstrans := fun m => (h.fstrans m).trans (by simp [Frame.holds,hf])
    refcnt := fun m => (h.refcnt m).trans (by simp [Frame.holds,hf])
    updating := hheld ▸ h.updating
    updatingFree := hheld ▸ h.updatingFree
    updatingSome := forall_middle hf h.updatingSome (h.updatingSome e (by rw [hf]; simp))
    suspended := ?_
    suspendedSome := forall_middle hf h.suspendedSome (fun _ => by rw [hc]; rfl)
    global := ?_
    globalFree := ?_ }
  · intro m
    have hm := h.suspended m
    rw [hold,hold] at hm
    simp only [hres,count_append,Sys.suspend] at hm ⊢
    by_cases hmc : m = c
    · subst hmc
      cases viaGlobal <;> simp [hm] <;> omega
    · cases viaGlobal <;> simp [update_of_ne hmc,hm,Ne.symm hmc]
  · have hm := h.global
    rw [hold] at hm
    simp only [Sys.suspend,hm,hres]
    cases viaGlobal <;> simp
  · intro hne
    cases viaGlobal with
    | true =>
      have hm := h.global
      rw [hg rfl] at hm
      exact (Bool.or_eq_false_iff.mp hm.symm).1
    | false =>
      refine h.globalFree ?_
      rw [hold]
      simpa [hres] using hne

end Middle
end Steps

section Return
variable {K : MountTable M L} {curlwp : T} {s : Sys M L T} {f : Frame M L T}

def Entry.settled (e : Entry M) : Entry M := (e.settle false).settle true

omit [DecidableEq M] in
theorem settled_fields (e : Entry M) :
    e.settled.mp = e.mp ∧ e.settled.updatingHeld = e.updatingHeld ∧ e.settled.suspended = false := by
  rcases e with ⟨mp,c,_ | _,_ | _,u⟩ <;> exact ⟨rfl,rfl,rfl⟩

omit [DecidableEq M] in
theorem resumed_settled (v : Bool) (mounts : List (Entry M)) :
    resumed v (mounts.map Entry.settled) = [] := by
  simp [resumed,Entry.resumes,settled_fields]

theorem Account.resumeAll (h : Account K curlwp s f) :
    Account K curlwp s { f with
      mounts := f.mounts.map Entry.settled
      sys := f.sys.resumeAll f.mounts } := by
  have hheld : heldBy K (f.mounts.map Entry.settled) = heldBy K f.mounts := by
    funext l
    have howns : Entry.owns K l ∘ Entry.settled = Entry.owns K l := by
      funext e
      simp [Entry.owns,settled_fields]
    rw [heldBy,any_map,howns,heldBy]
  have hholds : ∀ m, f.holds m = ({ f with
      mounts := f.mounts.map Entry.settled, sys := f.sys.resumeAll f.mounts } : Frame M L T).holds m := by
    intro m
    simp [Frame.holds,Function.comp_def,settled_fields]
  rw [resumeAll_eq] at hholds ⊢
  refine { h with
    fstrans := fun m => (h.fstrans m).trans (by rw [hholds])
    refcnt := fun m => (h.refcnt m).trans (by rw [hholds])
    updating := hheld ▸ h.updating
    updatingFree := hheld ▸ h.updatingFree
    updatingSome := ?_
    suspended := ?_
    suspendedSome := ?_
    global := ?_
    globalFree := fun hne => absurd (resumed_settled true f.mounts) hne }
  · intro _ hmem hu
    obtain ⟨e,he,rfl⟩ := mem_map.mp hmem
    rw [(settled_fields e).2.1] at hu
    rw [(settled_fields e).1]
    exact h.updatingSome e he hu
  · intro m
    have hm := h.suspended m
    simp only [resumed_settled,count_nil]
    omega
  · intro _ hmem hu
    obtain ⟨e,he,rfl⟩ := mem_map.mp hmem
    rw [(settled_fields e).2.2] at hu
    cases hu
  · have hg := h.global
    simp only [resumed_settled,isEmpty_nil,hg]
    cases hr : resumed true f.mounts with
    | nil => simp
    | cons c cs => simp [h.globalFree (by rw [hr]; simp)]

/-- With no suspension left, unlocking, unbusying, freeing the array and leaving the barrier restore
the state from before the call. -/
theorem Account.releaseMounts [DecidableEq T] (h : Account K curlwp s f)
    (hres : ∀ v, resumed v f.mounts = []) (hi : f.iterMount = none) {R : Unit → Frame M L T → Prop}
    {E : Trap → Frame M L T → Prop}
    (hR : ∀ f', Restored s f' → f'.sys.trace = f.sys.trace → R () f') :
    (VfsS2idle.releaseMounts K curlwp).wp R E f := by
  rw [VfsS2idle.releaseMounts,wp_bind]
  refine unlockUpdates_wp K h.updatingSome ?_
  rw [wp_bind]
  refine unbusyMounts_wp ?_
  simp only [freeMounts,VfsS2idle.realloc,wp_bind,wp_update,onGate,wp_focus,releaseAll_eq,
    unbusyAll_eq]
  have hmp : (f.mounts.map Entry.unlock).map Entry.mp = f.mounts.map Entry.mp := by
    simp [Function.comp_def,Entry.unlock]
  have hback {g g₀ : M → ℕ} (hg : ∀ m, g m = g₀ m + f.holds m) :
      (fun m => g m - ((f.mounts.map Entry.unlock).map Entry.mp).count m) = g₀ := by
    funext m
    rw [hg,Frame.holds,hi,hmp]
    exact Nat.add_sub_cancel ..
  refine barrierExit_wp curlwp f.sys.gate (by rw [h.gate]) (by rw [h.gate]; exact h.admitted.2) ?_
  refine hR _ ⟨h.mpp,h.nmpp,?_,?_,?_,h.flag,?_,?_,?_,?_⟩ rfl
  · rw [h.gate,← h.admitted.1]
  · exact hback h.fstrans
  · exact hback h.refcnt
  · funext l
    have hl := h.updating l
    cases hh : heldBy K f.mounts l with
    | true => simp [hl,hh,h.updatingFree l hh]
    | false => simp [hl,hh]
  · funext m
    have hm := h.suspended m
    simpa [hres] using hm
  · have hg := h.global
    simpa [hres] using hg
  · have hk := h.kmem
    simp only
    omega

end Return
end NanoBSD.VfsS2idle
