import NanoBSD.Vfs.SuspendPhase

/-! # A whole suspension

A failing call gives everything back. A successful one holds every listed mount,
owns every updater lock once and has made its calls in one fixed order.
-/
namespace NanoBSD.VfsS2idle
open Prog List
variable {M L T : Type} [DecidableEq M] [DecidableEq L] [DecidableEq T] [Fintype M]
variable {K : MountTable M L} {F : Faults M L T} {curlwp : T} {s : Sys M L T} {f : Frame M L T}

/-- What a successful call leaves: the account of everything it holds, with the array
handed out to the caller. -/
structure Session (K : MountTable M L) (curlwp : T) (s : Sys M L T) (f : Frame M L T) : Prop where
  account : Account K curlwp s { f with mpp := none, nmpp := 0 }
  mpp : f.mpp = if f.mounts = [] then none else some f.mounts
  nmpp : f.nmpp = f.mounts.length
  iterMount : f.iterMount = none
  capacity : f.capacity = f.mounts.length
  array : ∃ es, Shape K (mountsOf K.list) es ∧ Owned K (mountsOf K.list) es ∧
    f.mounts = es.map (Entry.sealed K.lower (mountsOf K.list))
  closed : ∀ m ∈ mountsOf K.list, ∃ c ∈ mountsOf K.list, canonicalMount K.lower m = some c
  trace : f.sys.trace = s.trace ++
    suspendTrace K.lower (mountsOf K.list) (roots K.lower (mountsOf K.list))

section Exits
variable {R : Unit → Frame M L T → Prop}

/-- A failed call: an error code, and the state from before the call. -/
def Undone (s : Sys M L T) (e : Trap) (f : Frame M L T) : Prop := (∃ n, e = .errno n) ∧ Restored s f

omit [Fintype M] in
theorem failSuspend_wp (h : Account K curlwp s f) (hres : ∀ v, resumed v f.mounts = [])
    (hi : f.iterMount = none) (n : Errno) :
    (failSuspend K curlwp (.errno n)).wp R (Undone s) f := by
  rw [failSuspend,wp_bind]
  exact h.releaseMounts hres hi (fun f' hf' _ => ⟨⟨n,rfl⟩,hf'⟩)

omit [Fintype M] in
theorem rollback_wp (h : Account K curlwp s f) (hi : f.iterMount = none) (n : Errno) :
    (do resumeSuspended; failSuspend K curlwp (.errno n)).wp R (Undone s) f := by
  rw [wp_bind]
  refine resumeSuspended_wp h.suspendedSome ?_
  have hmap : (f.mounts.map (Entry.settle false)).map (Entry.settle true) =
      f.mounts.map Entry.settled := by
    rw [map_map]
    rfl
  rw [hmap]
  exact failSuspend_wp h.resumeAll (fun v => resumed_settled v f.mounts) hi n

end Exits

omit [DecidableEq T] [Fintype M] in
theorem Account.enter (hr : s.gate.ready = true) (ho : s.gate.owner = none)
    (hm : s.gate.mountops = 0) :
    Account K curlwp s ⟨{ s with gate := { s.gate with owner := some curlwp } },[],0,false,K.list,
      none,none,0⟩ where
  mpp := rfl
  nmpp := rfl
  ready := hr
  admitted := ⟨ho,hm⟩
  gate := rfl
  fstrans := fun _ => rfl
  refcnt := fun _ => rfl
  flag := rfl
  updating := fun _ => by simp [heldBy]
  updatingFree := fun _ h => by simp [heldBy] at h
  updatingSome := nofun
  suspended := fun _ => by simp [resumed]
  suspendedSome := nofun
  global := by simp [resumed]
  globalFree := fun h => absurd rfl h
  kmem := by simp

omit [DecidableEq T] in
theorem Gathering.empty (h : Gathering K curlwp s (mountsOf K.list) f) (hi : f.iterMount = none)
    (hempty : f.mounts.length = 0) : Session K curlwp s (realloc 0 f) := by
  have hnil : f.mounts = [] := length_eq_zero_iff.mp hempty
  have hlist : mountsOf K.list = [] := by
    have := h.mounts
    rw [hnil] at this
    exact map_eq_nil_iff.mp this.symm
  have hacc := h.account.realloc 0
  have hfree : (realloc 0 f).mounts = [] := hnil
  refine ⟨{ hacc with mpp := rfl, nmpp := rfl },?_,?_,hi,?_,⟨[],?_,?_,?_⟩,?_,?_⟩
  · rw [hfree]
    exact h.account.mpp
  · rw [hfree]
    exact h.account.nmpp
  · rw [hfree]
    rfl
  · rw [hlist]
    rfl
  · rw [hlist]
    exact ⟨by simp,by simp⟩
  · rw [hfree]
    rfl
  · simp [hlist]
  · rw [hlist]
    exact h.trace.trans (by simp [suspendTrace,roots])

omit [DecidableEq T] in
theorem Suspending.session {t : Frame M L T} (h : Suspending K curlwp s f [] f.mounts t)
    {es : List (Entry M)} (hne : es ≠ []) (hshape : Shape K (mountsOf K.list) es)
    (howned : Owned K (mountsOf K.list) es)
    (hclosed : ∀ m ∈ mountsOf K.list, ∃ c ∈ mountsOf K.list, canonicalMount K.lower m = some c)
    (hes : f.mounts = es) (hcap : f.capacity = es.length) (hi : f.iterMount = none)
    (htrace : f.sys.trace = s.trace) :
    Session K curlwp s { t with mpp := some t.mounts, nmpp := t.mounts.length } := by
  have hmps := hshape.resolved.2
  have hmounts : t.mounts = es.map (Entry.sealed K.lower (mountsOf K.list)) := by
    rw [h.mounts,hes,hmps]
    rfl
  refine ⟨{ h.account with mpp := rfl, nmpp := rfl },?_,rfl,h.iterMount.trans hi,?_,
    ⟨es,hshape,howned,hmounts⟩,hclosed,?_⟩
  · have hne' : t.mounts ≠ [] := by
      rw [hmounts]
      simpa using hne
    rw [if_neg hne']
  · rw [h.capacity,hcap,hmounts,length_map]
  · rw [h.trace,htrace,hes,hmps]

theorem suspendGathered_wp (h : Gathering K curlwp s (mountsOf K.list) f)
    (hi : f.iterMount = none) (hcap : f.capacity = f.mounts.length) (hne : f.mounts ≠ []) :
    (suspendGathered K F curlwp).wp (fun _ => Session K curlwp s) (Undone s) f := by
  have hrefused : ∀ (e : Trap) (t : Frame M L T),
      Refused K curlwp s e t ∧ t.iterMount = f.iterMount →
      (failSuspend K curlwp e).wp (fun _ => Session K curlwp s) (Undone s) t := by
    rintro e t ⟨⟨⟨n,rfl⟩,hacc,hun⟩,ht⟩
    exact failSuspend_wp hacc (resumed_of_unsuspended hun) (ht.trans hi) n
  rw [suspendGathered,wp_bind,wp_attempt,wp_bind]
  refine wp_mono (canonicalMounts_wp h (fun hacc hclosed => ?_)) (fun _ _ ht => ht) hrefused
  refine wp_mono (lockUpdates_wp rfl hacc (fun es u hacc' hshape howned => ?_)) (fun _ _ ht => ht)
    hrefused
  have hres := hshape.resolved
  have hlen : es.length = f.mounts.length := by
    have := congrArg List.length hshape
    simpa [h.mounts] using this
  rw [wp_bind,wp_attempt]
  refine wp_mono (suspendMounts_wp hacc' h.globalHeld (hres.2 ▸ K.nodup) hres.1 (fun t ht => ?_))
    (fun _ _ ht => ht) ?_
  · refine ht.session ?_ hshape howned hclosed rfl (hcap.trans hlen.symm) hi h.trace
    rintro rfl
    exact hne (length_eq_zero_iff.mp hlen.symm)
  · rintro e t ⟨⟨n,rfl⟩,hacc,ht⟩
    exact rollback_wp hacc (ht.trans hi) n

theorem vfsSuspendAll_wp (mpp : Option (List (Entry M))) (nmpp : ℕ) :
    (vfsSuspendAll K F curlwp).wp (fun _ => Session K curlwp s) (Undone s)
      (Frame.start s mpp nmpp) := by
  rw [vfsSuspendAll,wp_bind,wp_update,wp_bind,onGate,wp_focus]
  refine barrierEnter_wp curlwp s.gate (fun hr ho hm => ?_) (fun n => ?_)
  case refine_2 => exact ⟨⟨n,rfl⟩,⟨rfl,rfl,rfl,rfl,rfl,rfl,rfl,rfl,rfl,rfl⟩⟩
  have hstart : Gathering K curlwp s [] ⟨{ s with gate := { s.gate with owner := some curlwp } },
      [],0,false,K.list,none,none,0⟩ := ⟨Account.enter hr ho hm,rfl,rfl,rfl⟩
  rw [wp_bind,wp_update,wp_bind,wp_attempt]
  refine wp_mono (gatherMounts_wp (K.list.length + 1) hstart rfl (Nat.lt_succ_self _)) ?_ ?_
  · intro _ f hgath
    rw [wp_bind,iteratorDestroy]
    refine iteratorUnbusy_wp hgath.account (fun t htr ht => ?_)
    have hgath' : Gathering K curlwp s (mountsOf K.list) { f with sys := t, iterMount := none } :=
      ⟨ht,hgath.mounts,htr.trans hgath.trace,hgath.globalHeld⟩
    rw [wp_bind,wp_read]
    split
    · rename_i hempty
      exact hgath'.empty rfl hempty
    · rename_i hne
      rw [wp_bind,wp_update]
      refine suspendGathered_wp ⟨hgath'.account.realloc _,hgath'.mounts,hgath'.trace,
        hgath'.globalHeld⟩ rfl rfl ?_
      exact fun hnil => hne (length_eq_zero_iff.mpr hnil)
  · rintro e f ⟨⟨n,rfl⟩,hacc,hun⟩
    rw [wp_bind,iteratorDestroy]
    exact iteratorUnbusy_wp hacc (fun t _ ht => failSuspend_wp ht (resumed_of_unsuspended hun) rfl n)

section Trace
variable {lower : M → Option M} {ms cs : List M}

def suspensions (tr : List (Event M)) : List M :=
  tr.filterMap fun
    | .suspend mp _ => some mp
    | _ => none

def globalSuspensions (tr : List (Event M)) : List M :=
  tr.filterMap fun
    | .suspend mp true => some mp
    | _ => none

section

omit [DecidableEq M] [Fintype M]

theorem suspensions_sync (xs : List M) : suspensions (xs.map .sync) = [] := by
  simp [suspensions]

theorem suspensions_append (xs ys : List (Event M)) :
    suspensions (xs ++ ys) = suspensions xs ++ suspensions ys := filterMap_append ..

end

theorem suspendTrace_append (xs ys : List M) :
    suspendTrace lower ms (xs ++ ys) = suspendTrace lower ms ys ++ suspendTrace lower ms xs := by
  simp [suspendTrace]

theorem suspensions_suspendTrace : suspensions (suspendTrace lower ms cs) = cs.reverse := by
  induction cs with
  | nil => rfl
  | cons c cs ih =>
    have hc : suspensions (suspendEvents lower ms c) = [c] :=
      congrArg (c :: ·) (suspensions_sync _)
    rw [suspendTrace_cons,suspensions_append,ih,hc,reverse_cons]

theorem globalSuspensions_suspendTrace :
    globalSuspensions (suspendTrace lower ms cs) = (cs.filter (isLastRoot lower ms)).reverse := by
  induction cs with
  | nil => rfl
  | cons c cs ih =>
    have hc : globalSuspensions (suspendEvents lower ms c) =
        if isLastRoot lower ms c then [c] else [] := by
      cases hl : isLastRoot lower ms c <;> simp [globalSuspensions,suspendEvents,hl]
    rw [suspendTrace_cons,globalSuspensions,filterMap_append,← globalSuspensions,
      ← globalSuspensions,ih,hc,filter_cons]
    split <;> simp

theorem sync_mem_suspendTrace {m : M} (h : Event.sync m ∈ suspendTrace lower ms cs) :
    ∃ c ∈ cs, canonicalMount lower m = some c := by
  simp only [suspendTrace,mem_flatMap,mem_reverse,suspendEvents,mem_cons,
    reduceCtorEq,false_or,mem_map,Event.sync.injEq,exists_eq_right,aliases,mem_filter,
    decide_eq_true_eq] at h
  obtain ⟨c,hc,_,hm⟩ := h
  exact ⟨c,hc,hm⟩

/-- When a mount is synced, and only then, exactly its canonical mount and those created after it
have been suspended. -/
theorem sync_position {older newer : List M} {m c : M} (hms : ms.Nodup) (hm : m ∈ ms)
    (hcan : canonicalMount lower m = some c) (hcs : (older ++ c :: newer).Nodup) :
    ∃ before after, suspendTrace lower ms (older ++ c :: newer) = before ++ .sync m :: after ∧
      suspensions before = (c :: newer).reverse ∧ suspensions after = older.reverse ∧
      .sync m ∉ before ∧ .sync m ∉ after := by
  have hin : m ∈ (aliases lower ms c).reverse := by simp [aliases,hm,hcan]
  have hnodup : (aliases lower ms c).reverse.Nodup :=
    nodup_reverse.mpr (hms.filter _)
  obtain ⟨xs,ys,hsplit⟩ := append_of_mem hin
  rw [hsplit] at hnodup
  have hout : ∀ cs : List M, c ∉ cs → Event.sync m ∉ suspendTrace lower ms cs := by
    intro cs hc hmem
    obtain ⟨d,hd,hcan'⟩ := sync_mem_suspendTrace hmem
    rw [hcan] at hcan'
    exact hc (Option.some.inj hcan' ▸ hd)
  refine ⟨suspendTrace lower ms newer ++ .suspend c (isLastRoot lower ms c) :: xs.map .sync,
    ys.map .sync ++ suspendTrace lower ms older,?_,?_,?_,?_,?_⟩
  · rw [suspendTrace_append,suspendTrace_cons,suspendEvents,hsplit]
    simp
  · have hsus : suspensions (.suspend c (isLastRoot lower ms c) :: xs.map .sync) = [c] :=
      congrArg (c :: ·) (suspensions_sync xs)
    rw [suspensions_append,suspensions_suspendTrace,hsus,reverse_cons]
  · rw [suspensions_append,suspensions_sync,suspensions_suspendTrace,nil_append]
  · have hnew := hout newer (nodup_cons.mp (nodup_append.mp hcs).2.1).1
    have hxs : m ∉ xs := fun hx => (nodup_append.mp hnodup).2.2 m hx m (by simp) rfl
    simp [hnew,hxs]
  · have hold := hout older (fun hc => (nodup_append.mp hcs).2.2 c hc c (by simp) rfl)
    have hys : m ∉ ys := (nodup_cons.mp (nodup_append.mp hnodup).2.1).1
    simp [hold,hys]

end Trace

section Results
variable {mpp : Option (List (Entry M))} {nmpp : ℕ}

/-- A failing call hands out nothing and leaves the busy counts, updater locks, suspensions, the
global lock, the mount flags and the gate as they were. -/
theorem vfsSuspendAll_error {e : Trap}
    (h : vfsSuspendAll K F curlwp (Frame.start s mpp nmpp) = (.error e,f)) :
    (∃ n, e = .errno n) ∧ Restored s f :=
  wp_error (vfsSuspendAll_wp mpp nmpp) h

def layeredTable : MountTable (Fin 3) Bool where
  lower m := if m = 2 then some 0 else none
  updating m := some (m == 1)
  list := [.mount 0,.marker,.mount 1,.mount 2]
  nodup := by decide

def idleSys : Sys (Fin 3) Bool Unit where
  gate := ⟨true,0,none⟩
  fstrans _ := 0
  refcnt _ := 1
  gone _ := false
  flag _ := MNT_ASYNC
  updating _ := false
  suspended _ := 0
  globalLock := false
  kmem := 0
  trace := []

def noFaults : Faults (Fin 3) Bool Unit where
  fstransStart _ _ := false
  mutexTryenter _ _ := false
  vfsSuspend _ _ := none
  vfsSuspendctl _ _ := none
  vfsSync _ _ := none

def syncFault : Faults (Fin 3) Bool Unit :=
  { noFaults with vfsSync := fun _ m => if m = 0 then some (.other 5) else none }

theorem vfsSuspendAll_error_sync :
    (vfsSuspendAll layeredTable syncFault () (Frame.start idleSys none 3)).1 =
      .error (.errno (.other 5)) ∧
    Restored idleSys (vfsSuspendAll layeredTable syncFault () (Frame.start idleSys none 3)).2 := by
  have hfail : (vfsSuspendAll layeredTable syncFault () (Frame.start idleSys none 3)).1 =
      .error (.errno (.other 5)) := by
    decide +kernel
  exact ⟨hfail,(vfsSuspendAll_error (Prod.fst_eq_iff.mp hfail)).2⟩

/-- The state in which a successful call returns, `tr` being the calls it made. -/
structure AllSuspended (K : MountTable M L) (s : Sys M L T) (f : Frame M L T)
    (tr : List (Event M)) : Prop where
  /-- Every listed mount carries one more busy hold. -/
  fstrans : ∀ m, f.sys.fstrans m = s.fstrans m + if m ∈ mountsOf K.list then 1 else 0
  refcnt : ∀ m, f.sys.refcnt m = s.refcnt m + if m ∈ mountsOf K.list then 1 else 0
  /-- Every distinct updater lock was free and is now owned by one entry. -/
  hasLock : ∀ m ∈ mountsOf K.list, ∃ l, K.updating m = some l
  locked : ∀ l ∈ (mountsOf K.list).filterMap K.updating,
    s.updating l = false ∧ f.sys.updating l = true ∧ f.mounts.countP (Entry.owns K l) = 1
  unlocked : ∀ l ∉ (mountsOf K.list).filterMap K.updating, f.sys.updating l = s.updating l
  /-- Every canonical mount is suspended once, in reverse creation order. -/
  canonical : ∀ m ∈ mountsOf K.list, ∃ c ∈ roots K.lower (mountsOf K.list), EndsAt K.lower m c
  suspended : ∀ m, f.sys.suspended m =
    s.suspended m + if m ∈ roots K.lower (mountsOf K.list) then 1 else 0
  order : suspensions tr = (roots K.lower (mountsOf K.list)).reverse
  /-- Only the canonical mount created last has the global lock. -/
  global : globalSuspensions tr = (roots K.lower (mountsOf K.list)).getLast?.toList
  globalEntry : (f.mounts.filter fun e => e.globalLock).map Entry.mp =
    (roots K.lower (mountsOf K.list)).getLast?.toList
  globalLock : mountsOf K.list ≠ [] → s.globalLock = false ∧ f.sys.globalLock = true
  /-- Every mount is synced once, with its canonical mount and the younger ones suspended and the
  older ones not. -/
  synced : ∀ m ∈ mountsOf K.list, ∃ c older newer before after, EndsAt K.lower m c ∧
    roots K.lower (mountsOf K.list) = older ++ c :: newer ∧ tr = before ++ .sync m :: after ∧
    suspensions before = (c :: newer).reverse ∧ suspensions after = older.reverse ∧
    .sync m ∉ before ∧ .sync m ∉ after

namespace Session
variable (h : Session K curlwp s f)
include h

section

omit [DecidableEq T]

theorem mps : f.mounts.map Entry.mp = mountsOf K.list := by
  obtain ⟨es,hshape,_,hm⟩ := h.array
  rw [hm,map_map,← hshape.resolved.2]
  congr 1
  funext e
  exact sealed_mp ..

theorem owns_count (l : L) : f.mounts.countP (Entry.owns K l) =
    if l ∈ (mountsOf K.list).filterMap K.updating then 1 else 0 := by
  obtain ⟨es,_,howned,hm⟩ := h.array
  rw [hm,countP_map,← howned.once l]
  congr 1
  funext e
  simp only [Function.comp_apply,Entry.owns,Entry.sealed]
  split <;> rfl

theorem heldBy_iff (l : L) :
    heldBy K f.mounts l = true ↔ l ∈ (mountsOf K.list).filterMap K.updating := by
  have hcount := h.owns_count l
  rw [heldBy,any_eq_true,← countP_pos_iff,hcount]
  split <;> simp [*]

theorem resumed_eq (v : Bool) : resumed v f.mounts = (roots K.lower (mountsOf K.list)).filter
      fun c => isLastRoot K.lower (mountsOf K.list) c == v := by
  obtain ⟨es,hshape,_,hm⟩ := h.array
  rw [hm,resumed_sealed hshape.resolved.1,hshape.resolved.2]

theorem resumed_true : resumed true f.mounts = (roots K.lower (mountsOf K.list)).getLast?.toList :=
  (h.resumed_eq true).trans (filter_getLast (K.nodup.filter _))

theorem resumed_false : resumed false f.mounts = (roots K.lower (mountsOf K.list)).dropLast :=
  (h.resumed_eq false).trans (filter_not_getLast (K.nodup.filter _))

theorem canonical_mem {m : M} (hm : m ∈ mountsOf K.list) :
    ∃ c ∈ roots K.lower (mountsOf K.list), canonicalMount K.lower m = some c := by
  obtain ⟨c,hc,hcan⟩ := h.closed m hm
  exact ⟨c,mem_filter.mpr ⟨hc,canonicalMount_self.mp (canonicalMount_idem hcan)⟩,hcan⟩

theorem globalEntry : (f.mounts.filter fun e => e.globalLock).map Entry.mp =
    (roots K.lower (mountsOf K.list)).getLast?.toList := by
  rw [← h.resumed_true]
  obtain ⟨es,hshape,_,hm⟩ := h.array
  have hres := hshape.resolved.1
  -- An entry with the global lock is suspended under its own name.
  rw [hm,resumed,← filterMap_eq_map,← filterMap_eq_filter,filterMap_filterMap]
  refine filterMap_congr (fun x hx => ?_)
  obtain ⟨e,he,rfl⟩ := mem_map.mp hx
  by_cases hroot : (K.lower e.mp).isNone
  · have hc := (hres e he).suspendMp.trans (canonicalMount_self.mpr hroot)
    cases hl : isLastRoot K.lower (mountsOf K.list) e.mp <;>
      simp [Entry.sealed,hroot,Entry.resumes,hl,hc]
  · simp [Entry.sealed,hroot,Entry.resumes,(hres e he).suspended,(hres e he).globalLock]

theorem allSuspended : AllSuspended K s f
    (suspendTrace K.lower (mountsOf K.list) (roots K.lower (mountsOf K.list))) := by
  have hacc := h.account
  have hnodup : (roots K.lower (mountsOf K.list)).Nodup := K.nodup.filter _
  have hholds : ∀ m, ({ f with mpp := none, nmpp := 0 } : Frame M L T).holds m =
      if m ∈ mountsOf K.list then 1 else 0 := by
    intro m
    simp only [Frame.holds,h.mps,h.iterMount,Option.toList_none,count_nil,Nat.add_zero]
    exact K.nodup.count
  constructor
  case fstrans => exact fun m => (hacc.fstrans m).trans (by rw [hholds])
  case refcnt => exact fun m => (hacc.refcnt m).trans (by rw [hholds])
  case hasLock =>
    obtain ⟨es,_,howned,_⟩ := h.array
    exact fun m hm => Option.isSome_iff_exists.mp (howned.hasLock m hm)
  case locked =>
    intro l hl
    have hheld := (h.heldBy_iff l).mpr hl
    refine ⟨hacc.updatingFree l hheld,(hacc.updating l).trans ?_,(h.owns_count l).trans (if_pos hl)⟩
    simp [hheld]
  case unlocked =>
    intro l hl
    have hheld : heldBy K f.mounts l = false := by
      rw [← Bool.not_eq_true,h.heldBy_iff]
      exact hl
    exact (hacc.updating l).trans (by simp [hheld])
  case canonical =>
    intro m hm
    obtain ⟨c,hc,hcan⟩ := h.canonical_mem hm
    exact ⟨c,hc,canonicalMount_eq_some_iff.mp hcan⟩
  case suspended =>
    intro m
    rw [← hnodup.count,← count_filter_split (isLastRoot K.lower (mountsOf K.list)),← h.resumed_eq,
      ← h.resumed_eq,← Nat.add_assoc]
    exact hacc.suspended m
  case order => exact suspensions_suspendTrace
  case global =>
    have hlast := filter_getLast hnodup
    simp only [beq_true] at hlast
    have hfilter : (roots K.lower (mountsOf K.list)).filter (isLastRoot K.lower (mountsOf K.list)) =
        (roots K.lower (mountsOf K.list)).getLast?.toList := hlast
    rw [globalSuspensions_suspendTrace,hfilter]
    cases (roots K.lower (mountsOf K.list)).getLast? <;> rfl
  case globalEntry => exact h.globalEntry
  case globalLock =>
    intro hne
    obtain ⟨m,hm⟩ := exists_mem_of_ne_nil _ hne
    obtain ⟨c,hc,_⟩ := h.canonical_mem hm
    have hres : resumed true f.mounts ≠ [] := by
      rw [h.resumed_true]
      simpa using ne_nil_of_mem hc
    refine ⟨hacc.globalFree hres,hacc.global.trans ?_⟩
    simp [hres]
  case synced =>
    intro m hm
    obtain ⟨c,hc,hcan⟩ := h.canonical_mem hm
    obtain ⟨older,newer,hsplit⟩ := append_of_mem hc
    rw [hsplit] at hnodup ⊢
    obtain ⟨before,after,hpos⟩ := sync_position K.nodup hm hcan hnodup
    exact ⟨c,older,newer,before,after,canonicalMount_eq_some_iff.mp hcan,rfl,hpos⟩

end
end Session

/-- On success every listed mount is held once more, every updater lock owned once, and the
canonical mounts suspended and synced in reverse creation order. -/
theorem vfsSuspendAll_ok (h : vfsSuspendAll K F curlwp (Frame.start s mpp nmpp) = (.ok (),f)) :
    ∃ tr, f.sys.trace = s.trace ++ tr ∧ AllSuspended K s f tr := by
  have hsession : Session K curlwp s f := wp_ok (vfsSuspendAll_wp mpp nmpp) h
  exact ⟨_,hsession.trace,hsession.allSuspended⟩

def layeredRun : Except Trap Unit × Frame (Fin 3) Bool Unit :=
  vfsSuspendAll layeredTable noFaults () (Frame.start idleSys none 0)

theorem vfsSuspendAll_ok_layered : layeredRun.1 = .ok () ∧
    ∃ tr, layeredRun.2.sys.trace = idleSys.trace ++ tr ∧
      AllSuspended layeredTable idleSys layeredRun.2 tr := by
  have hok : layeredRun.1 = .ok () := by decide +kernel
  exact ⟨hok,vfsSuspendAll_ok (Prod.fst_eq_iff.mp hok)⟩

end Results
end NanoBSD.VfsS2idle
