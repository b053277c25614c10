import NanoBSD.Vfs.Session

/-! # What the release loops do

Releasing never fails: each of the loops behind the labels `rollback` and `fail`
visits the array once, rewrites every entry and acts on the kernel state. It is
described by the exact state it leaves.
-/
namespace NanoBSD.VfsS2idle
open Prog Function List
variable {M L T : Type}

section Array
variable {Q : Entry M → Frame M L T → Prop} {R : Unit → Frame M L T → Prop}
variable {E : Trap → Frame M L T → Prop} {f : Frame M L T}
variable {pre post : List (Entry M)} {e : Entry M} {i : ℕ}

theorem modify_middle {α : Type} (pre post : List α) (a : α) (g : α → α) :
    (pre ++ a :: post).modify pre.length g = pre ++ g a :: post := by
  induction pre with
  | nil => rfl
  | cons b pre ih => simpa using ih

theorem entryAt_wp (hf : f.mounts = pre ++ e :: post) (hi : pre.length = i) (h : Q e f) :
    (entryAt i).wp Q E f := by
  subst hi
  have hget : f.mounts[pre.length]? = some e := by simp [hf]
  simp only [entryAt,wp_bind,wp_read,hget,wp_pure]
  exact h

theorem setEntry_wp (pre : List (Entry M)) (e : Entry M) (post : List (Entry M))
    (g : Entry M → Entry M) (hi : pre.length = i) (hf : f.mounts = pre ++ e :: post)
    (h : R () { f with mounts := pre ++ g e :: post }) :
    (setEntry i g).wp R E f := by
  subst hi
  simp only [setEntry,wp_update,hf,modify_middle]
  exact h

/-- A loop over the array whose body rewrites its entry by `g` and acts on the
kernel state by `act`. -/
theorem sweep_wp (g : Entry M → Entry M) (act : Entry M → Sys M L T → Sys M L T)
    (P : Entry M → Prop) (body : ℕ → Prog (Frame M L T) Trap Unit)
    (hbody : ∀ pre e post (f : Frame M L T), f.mounts = pre ++ e :: post → P e →
      (body pre.length).wp
        (fun _ f' => f' = { f with mounts := pre ++ g e :: post, sys := act e f.sys }) E f)
    (hP : ∀ e ∈ f.mounts, P e)
    (h : R () { f with
      mounts := f.mounts.map g
      sys := f.mounts.foldl (fun s e => act e s) f.sys }) :
    (forUp f.mounts.length body).wp R E f := by
  refine wp_conseq (wp_forUp (fun i t => ∃ a b, f.mounts = a ++ b ∧ a.length = i ∧
    t = { f with mounts := a.map g ++ b, sys := a.foldl (fun s e => act e s) f.sys })
    f.mounts.length body ⟨[],f.mounts,rfl,rfl,rfl⟩ ?_) ?_
  · rintro i hi _ ⟨a,b,hab,rfl,rfl⟩
    cases b with
    | nil =>
      rw [hab] at hi
      simp at hi
    | cons e b =>
      have hpre : (a.map g).length = a.length := length_map ..
      have hstep := hbody (a.map g) e b
        { f with mounts := a.map g ++ e :: b, sys := a.foldl (fun s e => act e s) f.sys } rfl
        (hP e (by rw [hab]; simp))
      rw [hpre] at hstep
      refine wp_conseq hstep ?_
      rintro _ _ rfl
      exact ⟨a ++ [e],b,by rw [hab]; simp,by simp,by simp⟩
  · rintro _ _ ⟨a,b,hab,hlen,rfl⟩
    have hb : b = [] := by
      rw [hab,length_append] at hlen
      exact length_eq_zero_iff.mp (by omega)
    rw [hb,append_nil] at hab
    rw [hb,← hab,append_nil]
    exact h

/-- A loop that visits the array from its end. The invariant sees the entries not
yet visited and those already rewritten. -/
theorem descend_wp (I : List (Entry M) → List (Entry M) → Frame M L T → Prop)
    (body : ℕ → Prog (Frame M L T) Trap Unit) (hs : I f.mounts [] f)
    (hbody : ∀ pre e post (t : Frame M L T), t.mounts = pre ++ e :: post → I (pre ++ [e]) post t →
      (body pre.length).wp (fun _ t => ∃ post, t.mounts = pre ++ post ∧ I pre post t) E t)
    (h : ∀ t, I [] t.mounts t → R () t) : (forDown f.mounts.length body).wp R E f := by
  refine wp_conseq (wp_forDown (fun i t => ∃ pre post, pre.length = i ∧ t.mounts = pre ++ post ∧
    I pre post t) f.mounts.length body ⟨f.mounts,[],rfl,by simp,hs⟩ ?_) ?_
  · rintro i _ t ⟨pre,post,hlen,hm,hI⟩
    obtain ⟨pre,e,rfl⟩ := eq_nil_or_concat pre |>.resolve_left (by rintro rfl; cases hlen)
    have hlen' : pre.length = i := by simpa using hlen
    subst hlen'
    refine wp_conseq (hbody pre e post t (by simp [hm]) (by simpa using hI)) ?_
    rintro _ t' ⟨post',hm',hI'⟩
    exact ⟨pre,post',rfl,hm',hI'⟩
  · rintro _ t ⟨pre,post,hlen,hm,hI⟩
    obtain rfl := length_eq_zero_iff.mp hlen
    exact h t (by rwa [hm])

end Array

section Release
variable [DecidableEq M] [DecidableEq L] (K : MountTable M L)

def Entry.unlock (e : Entry M) : Entry M := { e with updatingHeld := false }

def Entry.resumes (viaGlobal : Bool) (e : Entry M) : Bool :=
  e.suspended && e.globalLock == viaGlobal

def Entry.settle (viaGlobal : Bool) (e : Entry M) : Entry M :=
  if e.resumes viaGlobal then { e with suspended := false, globalLock := false } else e

def Sys.release (e : Entry M) (s : Sys M L T) : Sys M L T :=
  match e.updatingHeld,K.updating e.mp with
  | true,some l => { s with updating := update s.updating l false }
  | _,_ => s

def Sys.resumeEntry (viaGlobal : Bool) (e : Entry M) (s : Sys M L T) : Sys M L T :=
  match e.resumes viaGlobal,e.suspendMp with
  | true,some c => s.resume c viaGlobal
  | _,_ => s

def Sys.unbusy (mp : M) (s : Sys M L T) : Sys M L T := (s.fstransDone mp).vfsRele mp

def Sys.releaseAll (mounts : List (Entry M)) (s : Sys M L T) : Sys M L T :=
  mounts.foldl (fun s e => s.release K e) s

def Sys.resumeAll (mounts : List (Entry M)) (s : Sys M L T) : Sys M L T :=
  (mounts.map (Entry.settle false)).foldl (fun s e => s.resumeEntry true e)
    (mounts.foldl (fun s e => s.resumeEntry false e) s)

def Sys.unbusyAll (mounts : List (Entry M)) (s : Sys M L T) : Sys M L T :=
  mounts.foldl (fun s e => s.unbusy e.mp) s

variable {f : Frame M L T} {R : Unit → Frame M L T → Prop} {E : Trap → Frame M L T → Prop}

omit [DecidableEq M] in
theorem unlockUpdates_wp (hlock : ∀ e ∈ f.mounts, e.updatingHeld = true → (K.updating e.mp).isSome)
    (h : R () { f with mounts := f.mounts.map Entry.unlock, sys := f.sys.releaseAll K f.mounts }) :
    (unlockUpdates K).wp R E f := by
  simp only [unlockUpdates,wp_bind,wp_read]
  refine sweep_wp Entry.unlock (fun e s => s.release K e)
    (fun e => e.updatingHeld = true → (K.updating e.mp).isSome) _ ?_ hlock h
  intro pre e post f hf hP
  rw [wp_bind]
  refine entryAt_wp hf rfl ?_
  by_cases hu : e.updatingHeld = true
  · obtain ⟨l,hl⟩ := Option.isSome_iff_exists.mp (hP hu)
    simp only [hu,↓reduceIte,hl,wp_bind,onSys,wp_focus,mutexExit,wp_update]
    refine setEntry_wp pre e post _ rfl ?_ ?_
    · exact hf
    · simp only [Sys.release,hu,hl,Entry.unlock]
  · have hun : e.unlock = e := by
      simp only [Bool.not_eq_true] at hu
      simp only [Entry.unlock,← hu]
    simp only [Bool.not_eq_true] at hu
    simp only [hu,Bool.false_eq_true,↓reduceIte,wp_pure,hun,Sys.release,← hf]

omit [DecidableEq L] in
theorem unbusyMounts_wp (h : R () { f with sys := f.sys.unbusyAll f.mounts }) :
    unbusyMounts.wp R E f := by
  simp only [unbusyMounts,wp_bind,wp_read]
  refine sweep_wp id (fun e s => s.unbusy e.mp) (fun _ => True) _ ?_ (fun _ _ => trivial)
    (by rw [map_id]; exact h)
  intro pre e post f hf _
  rw [wp_bind]
  refine entryAt_wp hf rfl ?_
  simp only [onSys,wp_focus,vfsUnbusy,wp_bind,wp_update,id,Sys.unbusy,← hf]

omit [DecidableEq L] in
theorem resumeSuspended_wp (hcan : ∀ e ∈ f.mounts, e.suspended = true → e.suspendMp.isSome)
    (h : R () { f with
      mounts := (f.mounts.map (Entry.settle false)).map (Entry.settle true)
      sys := f.sys.resumeAll f.mounts }) :
    resumeSuspended.wp R E f := by
  simp only [resumeSuspended,wp_bind,wp_read]
  -- The first loop settles the entries without the global lock, the second the rest.
  refine sweep_wp (Entry.settle false) (fun e s => s.resumeEntry false e)
    (fun e => e.suspended = true → e.suspendMp.isSome) _ ?_ hcan ?_
  · intro pre e post f hf hP
    rw [wp_bind]
    refine entryAt_wp hf rfl ?_
    rcases e with ⟨mp,c,_ | _,_ | _,u⟩
    case true.false =>
      obtain ⟨c,rfl⟩ := Option.isSome_iff_exists.mp (hP rfl)
      simp only [Bool.not_true,Bool.or_self,Bool.false_eq_true,↓reduceIte,wp_bind,wp_update]
      refine setEntry_wp pre ⟨mp,some c,true,false,u⟩ post _ rfl ?_ rfl
      exact hf
    all_goals
      simp only [Bool.not_false,Bool.not_true,Bool.or_false,Bool.or_true,↓reduceIte,wp_pure,
        Sys.resumeEntry,Entry.settle,Entry.resumes]
      simp [← hf]
  · have hlen : f.mounts.length = (f.mounts.map (Entry.settle false)).length := by simp
    rw [hlen]
    refine sweep_wp (f := { f with mounts := f.mounts.map (Entry.settle false), sys := _ })
      (Entry.settle true) (fun e s => s.resumeEntry true e)
      (fun e => e.suspended = true → e.suspendMp.isSome) _ ?_ ?_ ?_
    · intro pre e post f hf hP
      rw [wp_bind]
      refine entryAt_wp hf rfl ?_
      rcases e with ⟨mp,c,_ | _,_ | _,u⟩
      case true.true =>
        obtain ⟨c,rfl⟩ := Option.isSome_iff_exists.mp (hP rfl)
        simp only [Bool.not_true,Bool.or_self,Bool.false_eq_true,↓reduceIte,wp_bind,wp_update]
        refine setEntry_wp pre ⟨mp,some c,true,true,u⟩ post _ rfl ?_ rfl
        exact hf
      all_goals
        simp only [Bool.not_false,Bool.not_true,Bool.or_false,Bool.or_true,↓reduceIte,wp_pure,
          Sys.resumeEntry,Entry.settle,Entry.resumes]
        simp [← hf]
    · intro _ hm hs
      obtain ⟨e,he,rfl⟩ := mem_map.mp hm
      unfold Entry.settle at hs ⊢
      split at hs
      · cases hs
      · rename_i hr
        rw [if_neg hr]
        exact hcan e he hs
    · exact h

end Release

section Effect
variable [DecidableEq M] [DecidableEq L] (K : MountTable M L)

def Entry.owns (l : L) (e : Entry M) : Bool := e.updatingHeld && K.updating e.mp == some l
def heldBy (mounts : List (Entry M)) (l : L) : Bool := mounts.any (Entry.owns K l)

def resumed (viaGlobal : Bool) (mounts : List (Entry M)) : List M :=
  mounts.filterMap fun e => if e.resumes viaGlobal then e.suspendMp else none

omit [DecidableEq M] in
theorem releaseAll_eq (mounts : List (Entry M)) (s : Sys M L T) :
    s.releaseAll K mounts = { s with updating := fun l => s.updating l && !heldBy K mounts l } := by
  induction mounts generalizing s with
  | nil => simp [Sys.releaseAll,heldBy]
  | cons e mounts ih =>
    have hcons : s.releaseAll K (e :: mounts) = (s.release K e).releaseAll K mounts := rfl
    rw [hcons,ih]
    rcases e with ⟨mp,c,a,b,_ | _⟩
    · simp [Sys.release,heldBy,Entry.owns]
    · cases hl : K.updating mp with
      | none => simp [Sys.release,heldBy,Entry.owns,hl]
      | some l =>
        simp only [Sys.release,hl,heldBy,Entry.owns,any_cons,Bool.true_and]
        congr 1
        funext l'
        by_cases h : l' = l
        · simp [h]
        · have hne : (l == l') = false := by simp [Ne.symm h]
          simp [update_of_ne h,hne]

omit [DecidableEq L] in
theorem unbusyAll_eq (mounts : List (Entry M)) (s : Sys M L T) :
    s.unbusyAll mounts = { s with
      fstrans := fun m => s.fstrans m - (mounts.map Entry.mp).count m
      refcnt := fun m => s.refcnt m - (mounts.map Entry.mp).count m } := by
  induction mounts generalizing s with
  | nil => simp [Sys.unbusyAll]
  | cons e mounts ih =>
    have hcons : s.unbusyAll (e :: mounts) = (s.unbusy e.mp).unbusyAll mounts := rfl
    rw [hcons,ih]
    simp only [Sys.unbusy,Sys.fstransDone,Sys.vfsRele,map_cons,count_cons,beq_iff_eq]
    congr 1 <;>
    · funext m
      by_cases h : m = e.mp
      · subst h
        simp only [update_self,↓reduceIte]
        omega
      · simp [update_of_ne h,Ne.symm h]

omit [DecidableEq L] in
theorem resumeLoop_eq (viaGlobal : Bool) (mounts : List (Entry M)) (s : Sys M L T) :
    mounts.foldl (fun s e => s.resumeEntry viaGlobal e) s = { s with
      suspended := fun m => s.suspended m - (resumed viaGlobal mounts).count m
      globalLock := s.globalLock && !(viaGlobal && !(resumed viaGlobal mounts).isEmpty)
      trace := s.trace ++ (resumed viaGlobal mounts).map (Event.resume · viaGlobal) } := by
  induction mounts generalizing s with
  | nil => simp [resumed]
  | cons e mounts ih =>
    rw [foldl_cons,ih]
    have hcons : resumed viaGlobal (e :: mounts) =
        (if e.resumes viaGlobal then e.suspendMp else none).toList ++ resumed viaGlobal mounts := by
      cases h : (if e.resumes viaGlobal then e.suspendMp else none) <;>
        simp [resumed,h]
    rw [hcons]
    cases hr : e.resumes viaGlobal with
    | false => simp [Sys.resumeEntry,hr]
    | true =>
      cases hc : e.suspendMp with
      | none => simp [Sys.resumeEntry,hr,hc]
      | some c =>
        simp only [Sys.resumeEntry,hr,hc,Sys.resume,↓reduceIte,Option.toList_some,
          singleton_append,count_cons,beq_iff_eq,map_cons,append_assoc]
        congr 1
        · funext m
          by_cases h : m = c
          · subst h
            simp only [update_self,↓reduceIte]
            omega
          · simp [update_of_ne h,Ne.symm h]
        · cases viaGlobal <;> simp

omit [DecidableEq M] in
theorem resumed_settle (mounts : List (Entry M)) :
    resumed true (mounts.map (Entry.settle false)) = resumed true mounts := by
  unfold resumed
  rw [filterMap_map]
  congr 1
  funext e
  rcases e with ⟨mp,c,_ | _,_ | _,u⟩ <;> rfl

omit [DecidableEq L] in
theorem resumeAll_eq (mounts : List (Entry M)) (s : Sys M L T) :
    s.resumeAll mounts = { s with
      suspended := fun m =>
        s.suspended m - (resumed false mounts).count m - (resumed true mounts).count m
      globalLock := s.globalLock && (resumed true mounts).isEmpty
      trace := s.trace ++ (resumed false mounts).map (Event.resume · false) ++
        (resumed true mounts).map (Event.resume · true) } := by
  simp only [Sys.resumeAll,resumeLoop_eq,resumed_settle]
  simp

end Effect
end NanoBSD.VfsS2idle
