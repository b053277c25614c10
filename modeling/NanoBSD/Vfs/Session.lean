import NanoBSD.Vfs.Canonical
import NanoBSD.Vfs.Gate

/-! # Suspending and resuming the whole mount set

The model follows `vfs_suspend_all` and `vfs_resume_all` statement by statement,
with the parts of `vfs_mount.c` they call. The file system operations of other
parts of the kernel are abstract: an oracle decides from the whole state, trace
included, whether each of them fails.
-/
namespace NanoBSD.VfsS2idle
open Prog Function

/-- An element of the kernel's mount list: a mount, or the marker of some iterator. -/
inductive ListEntry (M : Type) where
  | mount (mp : M)
  | marker
deriving DecidableEq, Repr

def ListEntry.mount? {M : Type} : ListEntry M → Option M
  | .mount mp => some mp
  | .marker => none

def mountsOf {M : Type} (list : List (ListEntry M)) : List M := list.filterMap ListEntry.mount?

/-- What a session reads of the mounts and never changes. A mount is on the list once. -/
structure MountTable (M L : Type) where
  lower : M → Option M
  updating : M → Option L
  list : List (ListEntry M)
  nodup : (mountsOf list).Nodup

/-- Calls into file systems, in order. The flag tells whether `vfs_suspend` or `vfs_resume` made the
call, with the global lock. -/
inductive Event (M : Type) where
  | suspend (mp : M) (viaGlobal : Bool)
  | sync (mp : M)
  | resume (mp : M) (viaGlobal : Bool)
deriving DecidableEq, Repr

/-- The kernel state of a session. A busy hold is one transaction and one reference; `suspended`
counts the suspensions of a mount. -/
structure Sys (M L T : Type) where
  gate : Gate T
  fstrans : M → ℕ
  refcnt : M → ℕ
  gone : M → Bool
  flag : M → BitVec 32
  updating : L → Bool
  suspended : M → ℕ
  globalLock : Bool
  kmem : ℕ
  trace : List (Event M)

/-- When the operations outside this code fail. -/
structure Faults (M L T : Type) where
  fstransStart : Sys M L T → M → Bool
  mutexTryenter : Sys M L T → L → Bool
  vfsSuspend : Sys M L T → M → Option Errno
  vfsSuspendctl : Sys M L T → M → Option Errno
  vfsSync : Sys M L T → M → Option Errno

structure Entry (M : Type) where
  mp : M
  suspendMp : Option M
  suspended : Bool
  globalLock : Bool
  updatingHeld : Bool
deriving DecidableEq, Repr

def entrySize : ℕ := 32
def MNT_ASYNC : BitVec 32 := 0x40#32

/-- The kernel state, the local variables of a call and the caller's `*mpp` and `*nmpp`. The array
is `NULL` at capacity 0. -/
structure Frame (M L T : Type) where
  sys : Sys M L T
  mounts : List (Entry M)
  capacity : ℕ
  globalHeld : Bool
  iterRest : List (ListEntry M)
  iterMount : Option M
  mpp : Option (List (Entry M))
  nmpp : ℕ

variable {M L T : Type}

section Kernel
variable [DecidableEq M] [DecidableEq L]

def Sys.fstransStart (mp : M) (s : Sys M L T) : Sys M L T :=
  { s with fstrans := update s.fstrans mp (s.fstrans mp + 1) }

def Sys.fstransDone (mp : M) (s : Sys M L T) : Sys M L T :=
  { s with fstrans := update s.fstrans mp (s.fstrans mp - 1) }

def Sys.vfsRef (mp : M) (s : Sys M L T) : Sys M L T :=
  { s with refcnt := update s.refcnt mp (s.refcnt mp + 1) }

def Sys.vfsRele (mp : M) (s : Sys M L T) : Sys M L T :=
  { s with refcnt := update s.refcnt mp (s.refcnt mp - 1) }

def vfsTrybusy (F : Faults M L T) (mp : M) : Prog (Sys M L T) Trap Unit := do
  let s ← read id
  if F.fstransStart s mp then raise (.errno .EBUSY)
  else do
    update (Sys.fstransStart mp)
    if s.gone mp then do
      update (Sys.fstransDone mp)
      raise (.errno .ENOENT)
    else update (Sys.vfsRef mp)

def vfsUnbusy (mp : M) : Prog (Sys M L T) Trap Unit := do
  update (Sys.fstransDone mp)
  update (Sys.vfsRele mp)

def mutexTryenter (F : Faults M L T) (l : L) : Prog (Sys M L T) Trap Bool := do
  let s ← read id
  if s.updating l || F.mutexTryenter s l then pure false
  else do
    update fun s => { s with updating := update s.updating l true }
    pure true

def mutexExit (l : L) : Prog (Sys M L T) Trap Unit :=
  update fun s => { s with updating := update s.updating l false }

def Sys.suspend (mp : M) (viaGlobal : Bool) (s : Sys M L T) : Sys M L T :=
  { s with
    suspended := update s.suspended mp (s.suspended mp + 1)
    globalLock := s.globalLock || viaGlobal
    trace := s.trace ++ [.suspend mp viaGlobal] }

def Sys.resume (mp : M) (viaGlobal : Bool) (s : Sys M L T) : Sys M L T :=
  { s with
    suspended := update s.suspended mp (s.suspended mp - 1)
    globalLock := s.globalLock && !viaGlobal
    trace := s.trace ++ [.resume mp viaGlobal] }

def vfsSuspend (F : Faults M L T) (mp : M) : Prog (Sys M L T) Trap Unit := do
  let s ← read id
  if s.globalLock then raise (.errno .EWOULDBLOCK)
  else
    match F.vfsSuspend s mp with
    | some e => raise (.errno e)
    | none => update (Sys.suspend mp true)

def vfsSuspendctl (F : Faults M L T) (mp : M) : Prog (Sys M L T) Trap Unit := do
  let s ← read id
  match F.vfsSuspendctl s mp with
  | some e => raise (.errno e)
  | none => update (Sys.suspend mp false)

def syncMount (F : Faults M L T) (mp : M) : Prog (Sys M L T) Trap Unit := do
  let s ← read id
  let asyncflag := s.flag mp &&& MNT_ASYNC
  update fun s => { s with flag := update s.flag mp (s.flag mp &&& ~~~MNT_ASYNC) }
  let s ← read id
  match F.vfsSync s mp with
  | some e => do
    update fun s => { s with flag := update s.flag mp (s.flag mp ||| asyncflag) }
    raise (.errno e)
  | none =>
    update fun s => { s with
      flag := update s.flag mp (s.flag mp ||| asyncflag)
      trace := s.trace ++ [.sync mp] }

/-- `_mountlist_iterator_next` without waiting: the next mount marked busy, whether any was passed
over, and what is left. -/
def iteratorNext (F : Faults M L T) : List (ListEntry M) → Bool →
    Prog (Sys M L T) Trap (Option M × Bool × List (ListEntry M))
  | [], skipped => pure (none,skipped,[])
  | .marker :: rest, skipped => iteratorNext F rest skipped
  | .mount mp :: rest, skipped => do
    update (Sys.vfsRef mp)
    match ← attempt (vfsTrybusy F mp) with
    | .ok _ => do
      update (Sys.vfsRele mp)
      pure (some mp,skipped,rest)
    | .error _ => do
      update (Sys.vfsRele mp)
      iteratorNext F rest true

end Kernel

def onSys {α : Type} (x : Prog (Sys M L T) Trap α) : Prog (Frame M L T) Trap α :=
  focus Frame.sys (fun s f => { f with sys := s }) x

def onGate {α : Type} (x : Prog (Gate T) Trap α) : Prog (Frame M L T) Trap α :=
  focus (fun f => f.sys.gate) (fun g f => { f with sys := { f.sys with gate := g } }) x

def entryAt (i : ℕ) : Prog (Frame M L T) Trap (Entry M) := do
  match ← read (fun f => f.mounts[i]?) with
  | some e => pure e
  | none => raise .kassert

def setEntry (i : ℕ) (g : Entry M → Entry M) : Prog (Frame M L T) Trap Unit :=
  update fun f => { f with mounts := f.mounts.modify i g }

section Session
variable [DecidableEq M] [DecidableEq L] [DecidableEq T] [Fintype M]
variable (K : MountTable M L) (F : Faults M L T)

def iteratorUnbusy : Prog (Frame M L T) Trap Unit := do
  match ← read Frame.iterMount with
  | some mp => do
    onSys (vfsUnbusy mp)
    update fun f => { f with iterMount := none }
  | none => pure ()

def iteratorTrynextEx : Prog (Frame M L T) Trap (Option M × Bool) := do
  iteratorUnbusy
  let rest ← read Frame.iterRest
  let r ← onSys (iteratorNext F rest false)
  update fun f => { f with iterMount := r.1, iterRest := r.2.2 }
  pure (r.1,r.2.1)

def iteratorDestroy : Prog (Frame M L T) Trap Unit := iteratorUnbusy

def realloc (newcapacity : ℕ) (f : Frame M L T) : Frame M L T :=
  { f with
    capacity := newcapacity
    sys := { f.sys with kmem := f.sys.kmem + newcapacity * entrySize - f.capacity * entrySize } }

def growMounts : Prog (Frame M L T) Trap Unit := do
  let f ← read id
  if f.mounts.length = f.capacity then
    let newcapacity := if f.capacity ≠ 0 then f.capacity * 2 % 2 ^ 64 else 16
    if newcapacity < f.capacity || sizeMax / entrySize < newcapacity then raise (.errno .ENOMEM)
    else update (realloc newcapacity)
  else pure ()

/-- Put a mount into the array, with a busy hold of its own. -/
def takeMount (mp : M) : Prog (Frame M L T) Trap Unit := do
  growMounts
  onSys (vfsTrybusy F mp)
  update fun f => { f with mounts := f.mounts ++ [⟨mp,none,false,false,false⟩] }

/-- The `for (;;)` loop that collects the mounts. Each round takes an element off the list, whose
length bounds the rounds. -/
def gatherMounts : ℕ → Prog (Frame M L T) Trap Unit
  | 0 => pure ()
  | fuel + 1 => do
    let r ← iteratorTrynextEx F
    if r.2 then raise (.errno .EBUSY)
    else
      match r.1 with
      | none => pure ()
      | some mp => do
        takeMount F mp
        gatherMounts fuel

def hasMount (mounts : List (Entry M)) (mp : M) : Bool := mounts.any (fun e => e.mp == mp)

def sameUpdater (mounts : List (Entry M)) (index : ℕ) (mp : M) : Bool :=
  mounts.zipIdx.any fun e =>
    e.2 != index && e.1.updatingHeld && K.updating e.1.mp == K.updating mp

def canonicalMounts : Prog (Frame M L T) Trap Unit := do
  let n ← read (fun f => f.mounts.length)
  forUp n fun i => do
    let e ← entryAt i
    let c := canonicalMount K.lower e.mp
    setEntry i fun e => { e with suspendMp := c }
    match c with
    | none => raise (.errno .ELOOP)
    | some c => do
      let mounts ← read Frame.mounts
      if hasMount mounts c then pure () else raise (.errno .EBUSY)

def lockUpdates : Prog (Frame M L T) Trap Unit := do
  let n ← read (fun f => f.mounts.length)
  forDown n fun i => do
    let e ← entryAt i
    let mounts ← read Frame.mounts
    if sameUpdater K mounts i e.mp then pure ()
    else
      match K.updating e.mp with
      | none => raise (.errno .EBUSY)
      | some l => do
        if ← onSys (mutexTryenter F l) then setEntry i fun e => { e with updatingHeld := true }
        else raise (.errno .EBUSY)

def syncAliases (c : M) : Prog (Frame M L T) Trap Unit := do
  let n ← read (fun f => f.mounts.length)
  forDown n fun j => do
    let e ← entryAt j
    if e.suspendMp = some c then onSys (syncMount F e.mp) else pure ()

def suspendEntry (i : ℕ) (mp : M) : Prog (Frame M L T) Trap Unit := do
  let held ← read Frame.globalHeld
  if held then onSys (vfsSuspendctl F mp) else onSys (vfsSuspend F mp)
  setEntry i fun e => { e with suspended := true }
  if held then pure ()
  else do
    setEntry i fun e => { e with globalLock := true }
    update fun f => { f with globalHeld := true }

def suspendMounts : Prog (Frame M L T) Trap Unit := do
  let n ← read (fun f => f.mounts.length)
  forDown n fun i => do
    let e ← entryAt i
    if e.suspendMp = some e.mp then do
      suspendEntry F i e.mp
      syncAliases F e.mp
    else pure ()

def unlockUpdates : Prog (Frame M L T) Trap Unit := do
  let n ← read (fun f => f.mounts.length)
  forUp n fun i => do
    let e ← entryAt i
    if e.updatingHeld then do
      match K.updating e.mp with
      | some l => onSys (mutexExit l)
      | none => raise .kassert
      setEntry i fun e => { e with updatingHeld := false }
    else pure ()

def resumeSuspended : Prog (Frame M L T) Trap Unit := do
  let n ← read (fun f => f.mounts.length)
  forUp n fun i => do
    let e ← entryAt i
    if !e.suspended || e.globalLock then pure ()
    else do
      match e.suspendMp with
      | some c => update fun f => { f with sys := f.sys.resume c false }
      | none => raise .kassert
      setEntry i fun e => { e with suspended := false }
  forUp n fun i => do
    let e ← entryAt i
    if !e.suspended || !e.globalLock then pure ()
    else do
      match e.suspendMp with
      | some c => update fun f => { f with sys := f.sys.resume c true }
      | none => raise .kassert
      setEntry i fun e => { e with suspended := false, globalLock := false }

def unbusyMounts : Prog (Frame M L T) Trap Unit := do
  let n ← read (fun f => f.mounts.length)
  forUp n fun i => do
    let e ← entryAt i
    onSys (vfsUnbusy e.mp)

def freeMounts : Prog (Frame M L T) Trap Unit := update (realloc 0)

/-- The end of a session, shared by a failing `vfs_suspend_all` and `vfs_resume_all`. -/
def releaseMounts (curlwp : T) : Prog (Frame M L T) Trap Unit := do
  unlockUpdates K
  unbusyMounts
  freeMounts
  onGate (barrierExit curlwp)

def failSuspend (curlwp : T) (e : Trap) : Prog (Frame M L T) Trap Unit := do
  releaseMounts K curlwp
  raise e

def suspendGathered (curlwp : T) : Prog (Frame M L T) Trap Unit := do
  match ← attempt (do canonicalMounts K; lockUpdates K F) with
  | .error e => failSuspend K curlwp e
  | .ok _ => do
    match ← attempt (suspendMounts F) with
    | .error e => do
      resumeSuspended
      failSuspend K curlwp e
    | .ok _ => update fun f => { f with mpp := some f.mounts, nmpp := f.mounts.length }

def vfsSuspendAll (curlwp : T) : Prog (Frame M L T) Trap Unit := do
  update fun f => { f with mpp := none, nmpp := 0 }
  onGate (barrierEnter curlwp)
  update fun f => { f with iterRest := K.list, iterMount := none }
  let gathered ← attempt (gatherMounts F (K.list.length + 1))
  iteratorDestroy
  match gathered with
  | .error e => failSuspend K curlwp e
  | .ok _ => do
    let n ← read (fun f => f.mounts.length)
    if n = 0 then freeMounts
    else do
      update (realloc n)
      suspendGathered K F curlwp

def vfsResumeAll (curlwp : T) (mounts : Option (List (Entry M))) (nmounts : ℕ) :
    Prog (Frame M L T) Trap Unit := do
  if mounts = none ∧ nmounts ≠ 0 then raise .kassert
  else if nmounts = 0 then onGate (barrierExit curlwp)
  else do
    update fun f => { f with mounts := (mounts.getD []).take nmounts, capacity := nmounts }
    resumeSuspended
    releaseMounts K curlwp

def Frame.start (s : Sys M L T) (mpp : Option (List (Entry M))) (nmpp : ℕ) : Frame M L T :=
  ⟨s,[],0,false,[],none,mpp,nmpp⟩

end Session
end NanoBSD.VfsS2idle
