import NanoBSD.Vfs.Acquire

/-! # The suspending phase

The mounts are visited from the youngest to the oldest. Each canonical mount is
suspended and all mounts that end at it are synced before the next one is touched.
-/
namespace NanoBSD.VfsS2idle
open Prog Function List
variable {M L T : Type} [DecidableEq M] [DecidableEq L] [Fintype M]

def roots (lower : M → Option M) (ms : List M) : List M := ms.filter fun m => (lower m).isNone

def aliases (lower : M → Option M) (ms : List M) (c : M) : List M :=
  ms.filter fun m => canonicalMount lower m = some c

/-- Whether `c` is the canonical mount created last, which takes the global lock. -/
def isLastRoot (lower : M → Option M) (ms : List M) (c : M) : Bool :=
  (roots lower ms).getLast? == some c

def suspendEvents (lower : M → Option M) (ms : List M) (c : M) : List (Event M) :=
  .suspend c (isLastRoot lower ms c) :: (aliases lower ms c).reverse.map .sync

def suspendTrace (lower : M → Option M) (ms cs : List M) : List (Event M) :=
  cs.reverse.flatMap (suspendEvents lower ms)

def Entry.sealed (lower : M → Option M) (ms : List M) (e : Entry M) : Entry M :=
  if (lower e.mp).isNone then
    { e with suspended := true, globalLock := isLastRoot lower ms e.mp }
  else e

structure Entry.Resolved (lower : M → Option M) (e : Entry M) : Prop where
  suspendMp : e.suspendMp = canonicalMount lower e.mp
  suspended : e.suspended = false
  globalLock : e.globalLock = false

section Lists
variable {lower : M → Option M} {mounts : List (Entry M)}

theorem canonicalMount_self {m : M} : canonicalMount lower m = some m ↔ (lower m).isNone := by
  rw [canonicalMount_eq_some_iff,Option.isNone_iff_eq_none]
  constructor
  · rintro ⟨_,_,h⟩
    exact h
  · intro h
    exact ⟨0,rfl,h⟩

omit [DecidableEq L] in
theorem Shape.resolved {K : MountTable M L} {ms : List M}
    (h : Shape K ms mounts) : (∀ e ∈ mounts, e.Resolved K.lower) ∧ mounts.map Entry.mp = ms := by
  constructor
  · intro e he
    have hmem : e.unlock ∈ ms.map (Entry.resolved K.lower) := h ▸ mem_map_of_mem he
    obtain ⟨m,_,hm⟩ := mem_map.mp hmem
    have hres : e.unlock.Resolved K.lower := by
      rw [← hm]
      exact ⟨rfl,rfl,rfl⟩
    exact ⟨hres.suspendMp,hres.suspended,hres.globalLock⟩
  · have hmp := congrArg (List.map Entry.mp) h
    simpa [Function.comp_def,Entry.unlock] using hmp

section

omit [Fintype M]

theorem sealed_mp (ms : List M) (e : Entry M) : (e.sealed lower ms).mp = e.mp := by
  unfold Entry.sealed
  split <;> rfl

theorem sealed_suspendMp (ms : List M) (e : Entry M) :
    (e.sealed lower ms).suspendMp = e.suspendMp := by
  unfold Entry.sealed
  split <;> rfl

theorem isLastRoot_middle {pre post : List M} {c : M} (hc : (lower c).isNone)
    (hnodup : (pre ++ c :: post).Nodup) :
    isLastRoot lower (pre ++ c :: post) c = (roots lower post).isEmpty := by
  have hsplit : roots lower (pre ++ c :: post) = roots lower pre ++ c :: roots lower post := by
    simp [roots,hc]
  unfold isLastRoot
  rw [hsplit]
  cases hr : (roots lower post).getLast? with
  | none =>
    rw [List.getLast?_eq_none_iff.mp hr]
    simp
  | some d =>
    have hd : d ∈ post := mem_of_mem_filter (mem_of_getLast? hr)
    have hne : d ≠ c := by
      rintro rfl
      have := (nodup_append.mp hnodup).2.1
      exact (nodup_cons.mp this).1 hd
    have hnil : (roots lower post).isEmpty = false := by
      cases hp : roots lower post with
      | nil => simp [hp] at hr
      | cons _ _ => rfl
    rw [hnil,List.getLast?_append_cons,List.getLast?_cons,hr]
    simpa using hne

end

omit [DecidableEq M] [Fintype M] in
theorem ne_of_nodup_concat {xs : List M} {a : M} (h : (xs.concat a).Nodup) : ∀ x ∈ xs, ¬ a = x := by
  rintro x hx rfl
  rw [concat_eq_append] at h
  exact (nodup_append.mp h).2.2 a hx a (by simp) rfl

section

variable {l : List M}

omit [Fintype M]

theorem filter_getLast (h : l.Nodup) :
    l.filter (fun a => (l.getLast? == some a) == true) = l.getLast?.toList := by
  rcases eq_nil_or_concat l with rfl | ⟨xs,a,rfl⟩
  · rfl
  · simpa using ne_of_nodup_concat h

theorem filter_not_getLast (h : l.Nodup) :
    l.filter (fun a => (l.getLast? == some a) == false) = l.dropLast := by
  rcases eq_nil_or_concat l with rfl | ⟨xs,a,rfl⟩
  · rfl
  · simpa using ne_of_nodup_concat h

theorem count_filter_split (g : M → Bool) (l : List M) (m : M) :
    (l.filter fun a => g a == false).count m + (l.filter fun a => g a == true).count m =
      l.count m := by
  induction l with
  | nil => rfl
  | cons a l ih => cases hg : g a <;> simp [hg,count_cons] at ih ⊢ <;> omega

end

/-- The entries of a finished phase record exactly the canonical mounts, the last one
with the global lock. -/
theorem resumed_sealed {es : List (Entry M)} (hres : ∀ e ∈ es, e.Resolved lower) (ms : List M)
    (v : Bool) : resumed v (es.map (Entry.sealed lower ms)) =
      (roots lower (es.map Entry.mp)).filter fun c => isLastRoot lower ms c == v := by
  induction es with
  | nil => rfl
  | cons e es ih =>
    have he := hres e (by simp)
    have ih := ih (fun x hx => hres x (mem_cons_of_mem _ hx))
    have hcons : ∀ x : Entry M, ∀ xs, resumed v (x :: xs) =
        (if x.resumes v then x.suspendMp else none).toList ++ resumed v xs :=
      fun x xs => resumed_middle v [] xs x
    rw [map_cons,hcons,ih,map_cons]
    by_cases hroot : (lower e.mp).isNone
    · have hc : e.suspendMp = some e.mp := he.suspendMp.trans (canonicalMount_self.mpr hroot)
      cases hl : isLastRoot lower ms e.mp == v <;>
        simp [Entry.sealed,hroot,Entry.resumes,hl,hc,roots]
    · simp [Entry.sealed,hroot,Entry.resumes,he.suspended,roots]

theorem aliases_eq (h : ∀ e ∈ mounts, e.suspendMp = canonicalMount lower e.mp) (c : M) :
    (mounts.filter fun e => e.suspendMp = some c).map Entry.mp =
      aliases lower (mounts.map Entry.mp) c := by
  rw [aliases,filter_map,filter_congr (fun e he => ?_)]
  simp [h e he]

end Lists

section Calls
variable {F : Faults M L T} {s : Sys M L T} {Q : Unit → Sys M L T → Prop}
variable {E : Trap → Sys M L T → Prop}

section

variable {mp : M}

omit [DecidableEq L] [Fintype M]

theorem vfsSuspend_wp (hok : s.globalLock = false → Q () (s.suspend mp true))
    (herr : ∀ n, E (.errno n) s) : (vfsSuspend F mp).wp Q E s := by
  simp only [vfsSuspend,wp_bind,wp_read,id]
  cases hg : s.globalLock with
  | true => exact herr _
  | false =>
    cases hF : F.vfsSuspend s mp with
    | some n => exact herr n
    | none => exact hok hg

theorem vfsSuspendctl_wp (hok : Q () (s.suspend mp false))
    (herr : ∀ n, E (.errno n) s) : (vfsSuspendctl F mp).wp Q E s := by
  simp only [vfsSuspendctl,wp_bind,wp_read,id]
  cases hF : F.vfsSuspendctl s mp with
  | some n => exact herr n
  | none => exact hok

end

theorem or_and_not_self (a b : BitVec 32) : (a &&& ~~~b) ||| (a &&& b) = a := by
  ext i
  simp only [BitVec.getElem_or,BitVec.getElem_and,BitVec.getElem_not]
  cases a[i] <;> cases b[i] <;> rfl

omit [DecidableEq L] [Fintype M] in
theorem syncMount_wp {mp : M} (hok : Q () { s with trace := s.trace ++ [.sync mp] })
    (herr : ∀ n, E (.errno n) s) : (syncMount F mp).wp Q E s := by
  have hflag : update (update s.flag mp (s.flag mp &&& ~~~MNT_ASYNC)) mp
      ((s.flag mp &&& ~~~MNT_ASYNC) ||| (s.flag mp &&& MNT_ASYNC)) = s.flag := by
    rw [update_idem,or_and_not_self,update_eq_self]
  simp only [syncMount,wp_bind,wp_read,wp_update,id]
  cases hF : F.vfsSync _ mp with
  | some n =>
    simp only [wp_bind,wp_update,wp_raise,update_self,hflag]
    exact herr n
  | none =>
    simp only [wp_update,update_self,hflag]
    exact hok

end Calls

section Aliases
variable {F : Faults M L T} {f : Frame M L T} {R : Unit → Frame M L T → Prop}
variable {E : Trap → Frame M L T → Prop}

def Frame.traced (f : Frame M L T) (tr : List (Event M)) : Frame M L T :=
  { f with sys := { f.sys with trace := f.sys.trace ++ tr } }

omit [DecidableEq L] [Fintype M] in
theorem syncAliases_wp (c : M) (hR : R () (f.traced
      (((f.mounts.filter fun e => e.suspendMp = some c).map Entry.mp).reverse.map .sync)))
    (hE : ∀ n tr, E (.errno n) (f.traced tr)) : (syncAliases F c).wp R E f := by
  rw [syncAliases,wp_bind,wp_read]
  refine descend_wp (fun pre post t => f.mounts = pre ++ post ∧ t = f.traced
    (((post.filter fun e => e.suspendMp = some c).map Entry.mp).reverse.map .sync)) _ ?_ ?_ ?_
  · simp [Frame.traced]
  · rintro pre e post t htm ⟨hm,rfl⟩
    rw [wp_bind]
    refine entryAt_wp htm rfl ?_
    have hm' : f.mounts = pre ++ e :: post := by simpa using hm
    split
    · rename_i hc
      rw [onSys,wp_focus]
      refine syncMount_wp ⟨e :: post,hm',hm',?_⟩ (fun n => ?_)
      · simp [Frame.traced,hc]
      · exact hE n _
    · rename_i hc
      exact ⟨e :: post,hm',hm',by simp [hc]⟩
  · rintro t ⟨hm,ht⟩
    rw [nil_append] at hm
    rw [← hm] at ht
    rwa [ht]

end Aliases

section Phase
variable {K : MountTable M L} {F : Faults M L T} {curlwp : T} {s : Sys M L T} {f : Frame M L T}

omit [Fintype M] in
theorem Account.traced (h : Account K curlwp s f) (tr : List (Event M)) :
    Account K curlwp s (f.traced tr) := { h with }

/-- The entries `pre` are still to be visited, `post` have been dealt with. -/
structure Suspending (K : MountTable M L) (curlwp : T) (s : Sys M L T) (f : Frame M L T)
    (pre post : List (Entry M)) (t : Frame M L T) : Prop where
  account : Account K curlwp s t
  entries : f.mounts = pre ++ post
  mounts : t.mounts = pre ++ post.map (Entry.sealed K.lower (f.mounts.map Entry.mp))
  globalHeld : t.globalHeld = !(roots K.lower (post.map Entry.mp)).isEmpty
  trace : t.sys.trace = f.sys.trace ++
    suspendTrace K.lower (f.mounts.map Entry.mp) (roots K.lower (post.map Entry.mp))
  capacity : t.capacity = f.capacity
  iterMount : t.iterMount = f.iterMount

def Interrupted (K : MountTable M L) (curlwp : T) (s : Sys M L T) (f : Frame M L T) (e : Trap)
    (t : Frame M L T) : Prop :=
  (∃ n, e = .errno n) ∧ Account K curlwp s t ∧ t.iterMount = f.iterMount

omit [DecidableEq L] in
theorem suspendTrace_cons (lower : M → Option M) (ms cs : List M) (c : M) :
    suspendTrace lower ms (c :: cs) = suspendTrace lower ms cs ++ suspendEvents lower ms c := by
  simp [suspendTrace]

variable {pre post : List (Entry M)} {R : Unit → Frame M L T → Prop} {e : Entry M}

omit [Fintype M] in
theorem suspendEntry_wp (hf : f.mounts = pre ++ e :: post) (h : Account K curlwp s f) {c : M}
    (hc : e.suspendMp = some c) (hs : e.suspended = false) (hg : e.globalLock = false)
    {E : Trap → Frame M L T → Prop}
    (hR : Account K curlwp s { f with
        mounts := pre ++ { e with suspended := true, globalLock := !f.globalHeld } :: post
        sys := f.sys.suspend c (!f.globalHeld)
        globalHeld := true } →
      R () { f with
        mounts := pre ++ { e with suspended := true, globalLock := !f.globalHeld } :: post
        sys := f.sys.suspend c (!f.globalHeld)
        globalHeld := true })
    (hE : ∀ n, E (.errno n) f) : (suspendEntry F pre.length c).wp R E f := by
  rcases f with ⟨t,mounts,capacity,_ | _,iterRest,iterMount,mpp,nmpp⟩
  all_goals
    rcases e with ⟨mp,canonical,suspended,globalLock,held⟩
    obtain rfl : globalLock = false := hg
    simp only [suspendEntry,wp_bind,wp_read,Bool.false_eq_true,↓reduceIte,onSys,wp_focus]
  · refine vfsSuspend_wp (fun hfree => ?_) hE
    refine setEntry_wp pre _ post _ rfl hf ?_
    rw [wp_bind]
    refine setEntry_wp pre ⟨mp,canonical,true,false,held⟩ post _ rfl ?_ ?_
    · rfl
    · exact hR (h.suspend hf hs hc true true (fun _ => hfree))
  · refine vfsSuspendctl_wp ?_ hE
    refine setEntry_wp pre _ post _ rfl hf ?_
    exact hR (h.suspend hf hs hc false true (fun hv => by cases hv))

omit [Fintype M] in
theorem map_mp_sealed (lower : M → Option M) (ms : List M) (pre post : List (Entry M)) :
    (pre ++ post.map (Entry.sealed lower ms)).map Entry.mp = (pre ++ post).map Entry.mp := by
  simp [sealed_mp,Function.comp_def]

theorem canonical_sealed {lower : M → Option M} (ms : List M)
    (h : ∀ x ∈ pre ++ post, x.suspendMp = canonicalMount lower x.mp) :
    ∀ x ∈ pre ++ post.map (Entry.sealed lower ms), x.suspendMp = canonicalMount lower x.mp := by
  rw [forall_mem_append] at h ⊢
  refine ⟨h.1,?_⟩
  intro x hx
  obtain ⟨e,he,rfl⟩ := mem_map.mp hx
  rw [sealed_mp,sealed_suspendMp]
  exact h.2 e he

theorem Suspending.step {t : Frame M L T} (hnodup : (f.mounts.map Entry.mp).Nodup)
    (hres : ∀ e ∈ f.mounts, e.Resolved K.lower) (h : Suspending K curlwp s f (pre ++ [e]) post t)
    (hR : ∀ t, Suspending K curlwp s f pre (e :: post) t → R () t) :
    (do let e ← entryAt pre.length
        if e.suspendMp = some e.mp then do
          suspendEntry F pre.length e.mp
          syncAliases F e.mp
        else pure ()).wp R (Interrupted K curlwp s f) t := by
  have hentries : f.mounts = pre ++ e :: post := by simpa using h.entries
  have hmounts := h.mounts
  rw [append_assoc,singleton_append] at hmounts
  have he := hres e (by rw [hentries]; simp)
  rw [wp_bind]
  refine entryAt_wp hmounts rfl ?_
  by_cases hroot : (K.lower e.mp).isNone
  · have hc : e.suspendMp = some e.mp := he.suspendMp.trans (canonicalMount_self.mpr hroot)
    rw [if_pos hc,wp_bind]
    refine suspendEntry_wp hmounts h.account hc he.suspended he.globalLock (fun hacc => ?_)
      (fun n => ⟨⟨n,rfl⟩,h.account,h.iterMount⟩)
    have hlast : (!t.globalHeld) = isLastRoot K.lower (f.mounts.map Entry.mp) e.mp := by
      rw [h.globalHeld,Bool.not_not,hentries,map_append,map_cons]
      refine (isLastRoot_middle hroot ?_).symm
      rwa [hentries,map_append,map_cons] at hnodup
    have hroots : roots K.lower ((e :: post).map Entry.mp) =
        e.mp :: roots K.lower (post.map Entry.mp) := by
      simp [roots,hroot]
    have hseal : e.sealed K.lower (f.mounts.map Entry.mp) =
        { e with suspended := true, globalLock := !t.globalHeld } := by
      rw [hlast,Entry.sealed,if_pos hroot]
    rw [← hseal] at hacc ⊢
    have hmps := map_mp_sealed K.lower (f.mounts.map Entry.mp) pre (e :: post)
    have hsmp := canonical_sealed (f.mounts.map Entry.mp) (hentries ▸ fun x hx => (hres x hx).suspendMp)
    rw [← hentries,map_cons] at hmps
    rw [map_cons] at hsmp
    refine syncAliases_wp e.mp (hR _ ⟨hacc.traced _,hentries,rfl,?_,?_,h.capacity,h.iterMount⟩)
      (fun n tr => ⟨⟨n,rfl⟩,hacc.traced tr,h.iterMount⟩)
    · rw [hroots]
      rfl
    · rw [hroots,suspendTrace_cons,aliases_eq hsmp,hmps]
      simp only [Frame.traced,Sys.suspend,h.trace,suspendEvents,← hlast,append_assoc,
        singleton_append]
  · have hc : e.suspendMp ≠ some e.mp := by
      rw [he.suspendMp]
      exact fun hself => hroot (canonicalMount_self.mp hself)
    have hroots : roots K.lower ((e :: post).map Entry.mp) = roots K.lower (post.map Entry.mp) := by
      simp [roots,hroot]
    rw [if_neg hc]
    refine hR t ⟨h.account,hentries,?_,?_,?_,h.capacity,h.iterMount⟩
    · rw [hmounts,map_cons,Entry.sealed,if_neg hroot]
    · rw [hroots,h.globalHeld]
    · rw [hroots,h.trace]

theorem suspendMounts_wp (h : Account K curlwp s f) (hheld : f.globalHeld = false)
    (hnodup : (f.mounts.map Entry.mp).Nodup) (hres : ∀ e ∈ f.mounts, e.Resolved K.lower)
    (hR : ∀ t, Suspending K curlwp s f [] f.mounts t → R () t) :
    (suspendMounts F).wp R (Interrupted K curlwp s f) f := by
  rw [suspendMounts,wp_bind,wp_read]
  refine descend_wp (fun pre post t => ∃ qs, Suspending K curlwp s f pre qs t) _ ?_ ?_ ?_
  · exact ⟨[],h,by simp,by simp,by simpa [roots] using hheld,by simp [suspendTrace,roots],rfl,rfl⟩
  · rintro pre e post t _ ⟨qs,hI⟩
    exact hI.step hnodup hres (fun t' ht' => ⟨_,ht'.mounts,e :: qs,ht'⟩)
  · rintro t ⟨qs,hI⟩
    obtain rfl : f.mounts = qs := by simpa using hI.entries
    exact hR t hI

end Phase
end NanoBSD.VfsS2idle
