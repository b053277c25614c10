import NanoBSD.Vfs.Account

/-! # The acquiring phases of a suspension

Each phase of `vfs_suspend_all` keeps the account, at every error exit too, and on
success leaves an array that is a function of the mount list.
-/
namespace NanoBSD.VfsS2idle
open Prog List
variable {M L T : Type} [DecidableEq M] [DecidableEq L]
variable {K : MountTable M L} {F : Faults M L T} {curlwp : T} {s : Sys M L T} {f : Frame M L T}
variable {E : Trap → Frame M L T → Prop}

def Refused (K : MountTable M L) (curlwp : T) (s : Sys M L T) (e : Trap) (f : Frame M L T) : Prop :=
  (∃ n, e = .errno n) ∧ Account K curlwp s f ∧ ∀ e ∈ f.mounts, e.suspended = false

omit [DecidableEq M] in
theorem resumed_of_unsuspended {mounts : List (Entry M)} (h : ∀ e ∈ mounts, e.suspended = false)
    (v : Bool) : resumed v mounts = [] := by
  refine filterMap_eq_nil_iff.mpr (fun e he => ?_)
  simp [Entry.resumes,h e he]

section Gather

variable {R : Unit → Frame M L T → Prop} {done : List M}

theorem iteratorUnbusy_wp (h : Account K curlwp s f)
    (hR : ∀ t : Sys M L T, t.trace = f.sys.trace →
      Account K curlwp s { f with sys := t, iterMount := none } →
      R () { f with sys := t, iterMount := none }) :
    iteratorUnbusy.wp R E f := by
  simp only [iteratorUnbusy,wp_bind,wp_read]
  cases hm : f.iterMount with
  | none =>
    have hf : f = { f with iterMount := none } := by rw [← hm]
    rw [wp_pure,hf]
    exact hR f.sys rfl (by rw [hf] at h; exact h)
  | some mp =>
    simp only [wp_bind,onSys,wp_focus,vfsUnbusy,wp_update]
    exact hR (f.sys.unbusy mp) rfl (h.dropIter hm)

theorem iteratorTrynextEx_wp (h : Account K curlwp s f) {R : Option M × Bool → Frame M L T → Prop}
    (hR : ∀ (t : Sys M L T) (r : Option M) (skipped : Bool) (rest : List (ListEntry M)),
      t.trace = f.sys.trace →
      Account K curlwp s { f with sys := t, iterMount := r, iterRest := rest } →
      (skipped = false → mountsOf f.iterRest = r.toList ++ mountsOf rest) →
      (r = none → rest = []) → (r ≠ none → rest.length < f.iterRest.length) →
      R (r,skipped) { f with sys := t, iterMount := r, iterRest := rest }) :
    (iteratorTrynextEx F).wp R E f := by
  rw [iteratorTrynextEx,wp_bind]
  refine iteratorUnbusy_wp h (fun t htr ht => ?_)
  simp only [wp_bind,wp_read,onSys,wp_focus]
  refine wp_conseq (iteratorNext_wp f.iterRest false) ?_
  · rintro ⟨r,skipped,rest⟩ u hstep
    simp only [wp_update,wp_pure]
    have hsys := hstep.sys
    cases r with
    | none =>
      obtain rfl : u = t := hsys
      exact hR u none skipped rest htr { ht with } hstep.complete hstep.ended
        hstep.shorter
    | some mp =>
      obtain rfl : u = t.busy mp := hsys
      exact hR (t.busy mp) (some mp) skipped rest htr (ht.holdIter rfl mp rest) hstep.complete
        hstep.ended hstep.shorter

omit [DecidableEq M] [DecidableEq L] in
theorem growMounts_wp (hsame : R () f) (hgrow : ∀ n, R () (realloc n f))
    (herr : E (.errno .ENOMEM) f) : growMounts.wp R E f := by
  simp only [growMounts,wp_bind,wp_read,id]
  split
  · generalize (if f.capacity ≠ 0 then f.capacity * 2 % 2 ^ 64 else 16) = n
    by_cases hbad : (n < f.capacity || sizeMax / entrySize < n) = true
    · rw [if_pos hbad]
      exact herr
    · rw [if_neg hbad]
      exact hgrow n
  · exact hsame

/-- The collecting loop has put the mounts `done` into the array. -/
structure Gathering (K : MountTable M L) (curlwp : T) (s : Sys M L T) (done : List M)
    (f : Frame M L T) : Prop where
  account : Account K curlwp s f
  mounts : f.mounts = done.map Entry.fresh
  trace : f.sys.trace = s.trace
  globalHeld : f.globalHeld = false

theorem Gathering.refused (h : Gathering K curlwp s done f) (n : Errno) :
    Refused K curlwp s (.errno n) f := by
  refine ⟨⟨n,rfl⟩,h.account,?_⟩
  rw [h.mounts,forall_mem_map]
  exact fun _ _ => rfl

theorem takeMount_wp (mp : M) (h : Gathering K curlwp s done f)
    (hR : ∀ g, Gathering K curlwp s (done ++ [mp]) g → g.iterRest = f.iterRest → R () g) :
    (takeMount F mp).wp R (Refused K curlwp s) f := by
  have hbusy : ∀ g : Frame M L T, Gathering K curlwp s done g → g.iterRest = f.iterRest →
      (onSys (vfsTrybusy F mp)).wp
        (fun _ g => R () { g with mounts := g.mounts ++ [Entry.fresh mp] })
        (Refused K curlwp s) g := by
    intro g hg hrest
    rw [onSys,wp_focus]
    refine vfsTrybusy_wp (hR _ ⟨hg.account.push mp,?_,hg.trace,hg.globalHeld⟩ hrest)
      (fun n => hg.refused n)
    simp [hg.mounts]
  rw [takeMount,wp_bind]
  refine growMounts_wp ?_ (fun n => ?_) (h.refused _)
  · rw [wp_bind]
    exact hbusy f h rfl
  · rw [wp_bind]
    exact hbusy (realloc n f) ⟨h.account.realloc n,h.mounts,h.trace,h.globalHeld⟩ rfl

theorem gatherMounts_wp (fuel : ℕ) (h : Gathering K curlwp s done f)
    (hlist : mountsOf K.list = done ++ mountsOf f.iterRest) (hfuel : f.iterRest.length < fuel) :
    (gatherMounts F fuel).wp (fun _ => Gathering K curlwp s (mountsOf K.list))
      (Refused K curlwp s) f := by
  induction fuel generalizing f done with
  | zero => cases hfuel
  | succ fuel ih =>
    rw [gatherMounts,wp_bind]
    refine iteratorTrynextEx_wp h.account
      (fun t r skipped rest htr hacc hcomplete hend hshort => ?_)
    have hnext : Gathering K curlwp s done { f with sys := t, iterMount := r, iterRest := rest } :=
      ⟨hacc,h.mounts,htr.trans h.trace,h.globalHeld⟩
    cases skipped with
    | true => exact hnext.refused .EBUSY
    | false =>
      rw [hcomplete rfl] at hlist
      cases r with
      | none =>
        have hdone : mountsOf K.list = done := by
          rw [hlist,hend rfl]
          exact append_nil done
        rw [hdone]
        exact hnext
      | some mp =>
        rw [if_neg Bool.false_ne_true,wp_bind]
        refine takeMount_wp mp hnext (fun g hg hrest => ?_)
        refine ih hg ?_ ?_
        · rw [hlist,hrest,Option.toList_some,append_assoc]
        · have hlt := hshort (Option.some_ne_none mp)
          rw [hrest]
          simp only
          omega

end Gather

section Resolve
variable [Fintype M]

@[simps] def Entry.resolved (lower : M → Option M) (mp : M) : Entry M :=
  ⟨mp,canonicalMount lower mp,false,false,false⟩

omit [Fintype M] in
theorem hasMount_iff {mounts : List (Entry M)} {mp : M} :
    hasMount mounts mp = true ↔ mp ∈ mounts.map Entry.mp := by
  simp [hasMount]

/-- The resolving loop has filled in the canonical mounts of `done`. -/
structure Resolving (K : MountTable M L) (curlwp : T) (s : Sys M L T) (f : Frame M L T)
    (done rest : List M) (t : Frame M L T) : Prop where
  frame : t = { f with mounts := done.map (Entry.resolved K.lower) ++ rest.map Entry.fresh }
  account : Account K curlwp s t

namespace Resolving
variable {done rest : List M} {m : M} {t : Frame M L T}

theorem mounts (h : Resolving K curlwp s f done rest t) :
    t.mounts = done.map (Entry.resolved K.lower) ++ rest.map Entry.fresh := by
  rw [h.frame]

theorem refused (h : Resolving K curlwp s f done rest t) (n : Errno) :
    Refused K curlwp s (.errno n) t ∧ t.iterMount = f.iterMount := by
  refine ⟨⟨⟨n,rfl⟩,h.account,?_⟩,by rw [h.frame]⟩
  rw [h.mounts]
  simp only [forall_mem_append,forall_mem_map]
  exact ⟨fun _ _ => rfl,fun _ _ => rfl⟩

theorem next (h : Resolving K curlwp s f done (m :: rest) t) :
    Resolving K curlwp s f (done ++ [m]) rest { t with
      mounts := done.map (Entry.resolved K.lower) ++
        Entry.resolved K.lower m :: rest.map Entry.fresh } where
  frame := by
    rw [h.frame]
    simp
  account := h.account.setCanonical h.mounts rfl (canonicalMount K.lower m)

theorem hasMount_iff_mem (h : Resolving K curlwp s f done rest t) (mp : M) :
    hasMount t.mounts mp = true ↔ mp ∈ done ++ rest := by
  rw [hasMount_iff,h.mounts]
  simp [Function.comp_def]

end Resolving

theorem canonicalMounts_wp {ms : List M} (h : Gathering K curlwp s ms f)
    {R : Unit → Frame M L T → Prop}
    (hR : Account K curlwp s { f with mounts := ms.map (Entry.resolved K.lower) } →
      (∀ m ∈ ms, ∃ c ∈ ms, canonicalMount K.lower m = some c) →
      R () { f with mounts := ms.map (Entry.resolved K.lower) }) :
    (canonicalMounts K).wp R (fun e t => Refused K curlwp s e t ∧ t.iterMount = f.iterMount) f := by
  rw [canonicalMounts,wp_bind,wp_read]
  refine wp_conseq (wp_forUp (fun i t => ∃ done rest, ms = done ++ rest ∧ done.length = i ∧
    Resolving K curlwp s f done rest t ∧ ∀ m ∈ done, ∃ c ∈ ms, canonicalMount K.lower m = some c)
    f.mounts.length _ ⟨[],ms,rfl,rfl,⟨?_,h.account⟩,by simp⟩ ?_) ?_
  · simp [← h.mounts]
  · rintro i hi t ⟨done,rest,hms,rfl,hI,hcan⟩
    cases rest with
    | nil =>
      rw [h.mounts,hms] at hi
      simp at hi
    | cons m rest =>
      have hlen : (done.map (Entry.resolved K.lower)).length = done.length := length_map ..
      have hnext := hI.next
      rw [wp_bind]
      refine entryAt_wp hI.mounts hlen ?_
      rw [Entry.fresh_mp,wp_bind]
      refine setEntry_wp _ _ _ _ hlen hI.mounts ?_
      change Prog.wp _ _ _ { t with
        mounts := done.map (Entry.resolved K.lower) ++
          Entry.resolved K.lower m :: rest.map Entry.fresh }
      cases hc : canonicalMount K.lower m with
      | none => exact hnext.refused .ELOOP
      | some c =>
        simp only [wp_bind,wp_read]
        split
        · rename_i hin
          have hmem : c ∈ ms := by
            rw [hms]
            simpa using (hnext.hasMount_iff_mem c).mp hin
          refine ⟨done ++ [m],rest,by simp [hms],by simp,hnext,?_⟩
          intro m' hm'
          rcases mem_append.mp hm' with hm' | hm'
          · exact hcan m' hm'
          · rw [mem_singleton.mp hm']
            exact ⟨c,hmem,hc⟩
        · exact hnext.refused .EBUSY
  · rintro _ t ⟨done,rest,hms,hlen,hI,hcan⟩
    obtain rfl : rest = [] := by
      rw [h.mounts,hms] at hlen
      simpa using hlen
    obtain rfl : ms = done := by simpa using hms
    have hframe : t = { f with mounts := ms.map (Entry.resolved K.lower) } := by
      simpa using hI.frame
    subst hframe
    exact hR hI.account hcan

end Resolve

section Lock

variable {e : Entry M} {l : L} {m : M}

omit [DecidableEq M] in
theorem sameUpdater_iff {mounts pre post : List (Entry M)} (hm : mounts = pre ++ e :: post)
    (he : e.updatingHeld = false) (mp : M) :
    sameUpdater K mounts pre.length mp = true ↔
      ∃ x ∈ mounts, x.updatingHeld = true ∧ K.updating x.mp = K.updating mp := by
  simp only [sameUpdater,any_eq_true,Prod.exists,mem_zipIdx_iff_getElem?,
    Bool.and_eq_true,bne_iff_ne,beq_iff_eq]
  constructor
  · rintro ⟨x,j,hj,⟨_,hx⟩,hu⟩
    exact ⟨x,mem_of_getElem? hj,hx,hu⟩
  · rintro ⟨x,hx,hheld,hu⟩
    obtain ⟨j,hj⟩ := mem_iff_getElem?.mp hx
    refine ⟨x,j,hj,⟨?_,hheld⟩,hu⟩
    rintro rfl
    rw [hm] at hj
    simp only [List.getElem?_append_right (Nat.le_refl _),Nat.sub_self,List.getElem?_cons_zero,
      Option.some.injEq] at hj
    rw [← hj,he] at hheld
    cases hheld

omit [DecidableEq M] in
theorem mutexTryenter_wp {t : Sys M L T} {Q : Bool → Sys M L T → Prop} {E : Trap → Sys M L T → Prop}
    (hok : t.updating l = false → Q true { t with updating := Function.update t.updating l true })
    (hbusy : Q false t) : (mutexTryenter F l).wp Q E t := by
  simp only [mutexTryenter,wp_bind,wp_read,id]
  by_cases hb : (t.updating l || F.mutexTryenter t l) = true
  · rw [if_pos hb]
    exact hbusy
  · rw [if_neg hb]
    simp only [Bool.or_eq_true,not_or,Bool.not_eq_true] at hb
    exact hok hb.1

/-- The updater locks of the mounts `ms`, each owned by one entry of the array. -/
structure Owned (K : MountTable M L) (ms : List M) (mounts : List (Entry M)) : Prop where
  hasLock : ∀ m ∈ ms, (K.updating m).isSome
  once : ∀ l, mounts.countP (Entry.owns K l) = if l ∈ ms.filterMap K.updating then 1 else 0

variable {ms : List M}

omit [DecidableEq M] [DecidableEq L] in
theorem hasLock_cons (h : ∀ m ∈ ms, (K.updating m).isSome)
    (hl : K.updating m = some l) : ∀ m' ∈ m :: ms, (K.updating m').isSome :=
  forall_mem_cons.mpr ⟨Option.isSome_of_eq_some hl,h⟩

omit [DecidableEq M] in
theorem Owned.share {mounts : List (Entry M)} (h : Owned K ms mounts) {x : Entry M}
    (he : e.updatingHeld = false) (hx : x ∈ mounts) (hheld : x.updatingHeld = true)
    (hl : K.updating m = some l) (hxl : K.updating x.mp = some l) :
    Owned K (m :: ms) (e :: mounts) := by
  have hin : l ∈ ms.filterMap K.updating := by
    by_contra hout
    have hzero := h.once l
    rw [if_neg hout,countP_eq_zero] at hzero
    exact hzero x hx (by simp [Entry.owns,hheld,hxl])
  refine ⟨hasLock_cons h.hasLock hl,fun l' => ?_⟩
  rw [countP_cons_of_neg (by simp [Entry.owns,he]),h.once l',filterMap_cons_some hl]
  by_cases hll : l' = l
  · simp [hll,hin]
  · simp [hll]

omit [DecidableEq M] in
theorem Owned.take {mounts : List (Entry M)} (h : Owned K ms mounts) (he : e.updatingHeld = true)
    (hl : K.updating m = some l)
    (hel : K.updating e.mp = some l) (hno : ∀ x ∈ mounts, Entry.owns K l x = false) :
    Owned K (m :: ms) (e :: mounts) := by
  have hout : l ∉ ms.filterMap K.updating := by
    intro hin
    have hone := h.once l
    rw [if_pos hin,countP_eq_zero.mpr (fun x hx => by simp [hno x hx])] at hone
    cases hone
  refine ⟨hasLock_cons h.hasLock hl,fun l' => ?_⟩
  rw [countP_cons,h.once l',filterMap_cons_some hl]
  by_cases hll : l' = l
  · subst hll
    simp [hout,Entry.owns,he,hel]
  · simp [hll,Entry.owns,hel,Ne.symm hll]

variable [Fintype M]

def Shape (K : MountTable M L) (ms : List M) (mounts : List (Entry M)) : Prop :=
  mounts.map Entry.unlock = ms.map (Entry.resolved K.lower)

omit [DecidableEq L] in
theorem Shape.unsuspended {mounts : List (Entry M)} (h : Shape K ms mounts) :
    ∀ e ∈ mounts, e.suspended = false := by
  intro e he
  have hmem : e.unlock ∈ ms.map (Entry.resolved K.lower) := h ▸ mem_map_of_mem he
  obtain ⟨m,_,hm⟩ := mem_map.mp hmem
  have hsus : e.unlock.suspended = false := by rw [← hm]; rfl
  exact hsus

omit [DecidableEq L] in
theorem Shape.cons {mounts : List (Entry M)} (h : Shape K ms mounts)
    (he : e.unlock = Entry.resolved K.lower m) : Shape K (m :: ms) (e :: mounts) := by
  simp only [Shape,map_cons] at h ⊢
  rw [h,he]

/-- The locking loop has passed the mounts `below`, whose entries are `post`, and has not
reached the mounts `above`. -/
structure Locking (K : MountTable M L) (curlwp : T) (s : Sys M L T) (f : Frame M L T)
    (above below : List M) (post : List (Entry M)) (t : Frame M L T) : Prop where
  frame : ∃ u, t = { f with
    mounts := above.map (Entry.resolved K.lower) ++ post
    sys := { f.sys with updating := u } }
  account : Account K curlwp s t
  shape : Shape K below post
  owned : Owned K below post

namespace Locking
variable {above below : List M} {post : List (Entry M)} {m : M} {t : Frame M L T}

theorem mounts (h : Locking K curlwp s f above below post t) :
    t.mounts = above.map (Entry.resolved K.lower) ++ post := by
  obtain ⟨u,rfl⟩ := h.frame
  rfl

theorem refused (h : Locking K curlwp s f above below post t) (n : Errno) :
    Refused K curlwp s (.errno n) t ∧ t.iterMount = f.iterMount := by
  refine ⟨⟨⟨n,rfl⟩,h.account,?_⟩,?_⟩
  · rw [h.mounts]
    simp only [forall_mem_append,forall_mem_map]
    exact ⟨fun _ _ => rfl,h.shape.unsuspended⟩
  · obtain ⟨u,rfl⟩ := h.frame
    rfl

theorem owner_mem (h : Locking K curlwp s f above below post t) {x : Entry M} (hx : x ∈ t.mounts)
    (hheld : x.updatingHeld = true) : x ∈ post := by
  rw [h.mounts,mem_append,mem_map] at hx
  rcases hx with ⟨_,_,rfl⟩ | hx
  · cases hheld
  · exact hx

theorem mounts_middle (h : Locking K curlwp s f (above ++ [m]) below post t) :
    t.mounts = above.map (Entry.resolved K.lower) ++ Entry.resolved K.lower m :: post := by
  rw [h.mounts]
  simp

theorem share (h : Locking K curlwp s f (above ++ [m]) below post t)
    (hsame : sameUpdater K t.mounts (above.map (Entry.resolved K.lower)).length m = true) :
    Locking K curlwp s f above (m :: below) (Entry.resolved K.lower m :: post) t := by
  obtain ⟨x,hx,hheld,hu⟩ := (sameUpdater_iff h.mounts_middle rfl m).mp hsame
  obtain ⟨l,hl⟩ := Option.isSome_iff_exists.mp (h.account.updatingSome x hx hheld)
  refine ⟨?_,h.account,h.shape.cons rfl,
    h.owned.share rfl (h.owner_mem hx hheld) hheld (hu.symm.trans hl) hl⟩
  obtain ⟨u,ht⟩ := h.frame
  exact ⟨u,by simpa using ht⟩

theorem take (h : Locking K curlwp s f (above ++ [m]) below post t)
    (hsame : ¬sameUpdater K t.mounts (above.map (Entry.resolved K.lower)).length m = true) {l : L}
    (hl : K.updating m = some l) (hfree : t.sys.updating l = false) :
    Locking K curlwp s f above (m :: below)
      ({ Entry.resolved K.lower m with updatingHeld := true } :: post) { t with
        mounts := above.map (Entry.resolved K.lower) ++
          { Entry.resolved K.lower m with updatingHeld := true } :: post
        sys := { t.sys with updating := Function.update t.sys.updating l true } } := by
  refine ⟨?_,h.account.lock h.mounts_middle hl hfree,h.shape.cons rfl,h.owned.take rfl hl hl ?_⟩
  · obtain ⟨u,rfl⟩ := h.frame
    exact ⟨_,rfl⟩
  · intro x hx
    by_contra howns
    simp only [Entry.owns,Bool.not_eq_false,Bool.and_eq_true,beq_iff_eq] at howns
    refine hsame ((sameUpdater_iff h.mounts_middle rfl m).mpr
      ⟨x,?_,howns.1,howns.2.trans hl.symm⟩)
    rw [h.mounts]
    exact mem_append_right _ hx

end Locking

theorem lockUpdates_wp (hf : f.mounts = ms.map (Entry.resolved K.lower)) (h : Account K curlwp s f)
    {R : Unit → Frame M L T → Prop}
    (hR : ∀ es u, Account K curlwp s { f with mounts := es, sys := { f.sys with updating := u } } →
      Shape K ms es → Owned K ms es →
      R () { f with mounts := es, sys := { f.sys with updating := u } }) :
    (lockUpdates K F).wp R (fun e t => Refused K curlwp s e t ∧ t.iterMount = f.iterMount) f := by
  rw [lockUpdates,wp_bind,wp_read]
  refine descend_wp (fun pre post t => ∃ above below, ms = above ++ below ∧
    pre = above.map (Entry.resolved K.lower) ∧ Locking K curlwp s f above below post t) _ ?_ ?_ ?_
  · exact ⟨ms,[],by simp,hf,⟨f.sys.updating,by simp [← hf]⟩,h,rfl,⟨by simp,by simp⟩⟩
  · rintro pre e post t _ ⟨above,below,rfl,hpre,hI⟩
    obtain ⟨above,last,rfl,rfl,hlast⟩ := map_eq_append_iff.mp hpre.symm
    obtain ⟨m,rfl,rfl⟩ := map_eq_singleton_iff.mp hlast
    rw [wp_bind]
    refine entryAt_wp hI.mounts_middle rfl ?_
    rw [wp_bind,wp_read,Entry.resolved_mp]
    by_cases hsame : sameUpdater K t.mounts (above.map (Entry.resolved K.lower)).length m = true
    · rw [if_pos hsame]
      exact ⟨_,hI.mounts_middle,above,m :: below,by simp,rfl,hI.share hsame⟩
    · rw [if_neg hsame]
      cases hl : K.updating m with
      | none => exact hI.refused .EBUSY
      | some l =>
        simp only [wp_bind,onSys,wp_focus]
        refine mutexTryenter_wp (fun hfree => ?_) (hI.refused .EBUSY)
        refine setEntry_wp _ _ _ _ rfl hI.mounts_middle ?_
        exact ⟨_,rfl,above,m :: below,by simp,rfl,hI.take hsame hl hfree⟩
  · rintro t ⟨above,below,rfl,hpre,hI⟩
    obtain rfl : above = [] := map_eq_nil_iff.mp hpre.symm
    obtain ⟨u,ht⟩ := hI.frame
    have hacc := hI.account
    rw [ht] at hacc ⊢
    exact hR _ _ hacc hI.shape hI.owned

end Lock
end NanoBSD.VfsS2idle
