import Mathlib.Data.Finset.Insert
import Mathlib.Data.Finset.Lattice.Basic
import Mathlib.Algebra.Group.Nat.Defs

/-! # Memory file descriptors and their seals

One memfd object with all that is done to it: reads and writes at any offset, changes
of its length, seals, mappings, and the stores made through the mappings. The last ones
do not pass through the file at all: a mapping reaches to the end of its last page and
stays in place when the file shrinks, so that a store may land past the end of the file.

The copies between the object and user memory and the fills with zeroes are answers:
each does as many bytes as it is told and then stops. The length of a file is an
`off_t`, and what `memfd_write` computes from an offset and a count is an unsigned
64-bit number that becomes one.
-/
namespace NanoBSD.SysMemfd
open List

inductive Errno
  | EINVAL
  | EPERM
  | EBUSY
  | EFAULT
  | EIO
deriving DecidableEq

inductive Seal
  | seal
  | shrink
  | grow
  | write
  | futureWrite
deriving DecidableEq

structure Mapping where
  off : ℕ
  len : ℕ
  write : Bool
  shared : Bool
deriving DecidableEq

/-- `struct memfd` with the contents of its object, which is longer than the file: bytes past `size`
exist, zero if never touched. -/
structure Memfd where
  size : ℕ
  seals : Finset Seal
  bytes : ℕ → UInt8
  maps : List Mapping

def memfdCreate (allowSealing : Bool) : Memfd where
  size := 0
  seals := if allowSealing then ∅ else {.seal}
  bytes := fun _ => 0
  maps := []

def Memfd.uoRefs (s : Memfd) : ℕ := 1 + s.maps.length
def Memfd.AnyWrite (s : Memfd) : Prop := .write ∈ s.seals ∨ .futureWrite ∈ s.seals
instance (s : Memfd) : Decidable s.AnyWrite := inferInstanceAs (Decidable (_ ∨ _))
def pageSize : ℕ := 4096
def roundPage (n : ℕ) : ℕ := (n + (pageSize - 1)) / pageSize * pageSize
def asOff (n : ℕ) : ℤ := Int.bmod n (2 ^ 64)

structure Moved where
  count : ℕ
  error : Option Errno
deriving DecidableEq

structure Put where
  freed : ℕ → Bool
  error : Option Errno

def ubcUiomove (bytes : ℕ → UInt8) (off : ℕ) (data : List UInt8) : ℕ → UInt8 := fun i =>
  if off ≤ i then (data[i - off]?).getD (bytes i) else bytes i

def ubcZerorange (bytes : ℕ → UInt8) (off len filled : ℕ) : ℕ → UInt8 := fun i =>
  if off ≤ i ∧ i < off + min len filled then 0 else bytes i

/-- `pgo_put` with `PGO_FREE`: a page that is gone reads as zero when it is next touched. -/
def pgoPut (bytes : ℕ → UInt8) (start stop : ℕ) (put : Put) : ℕ → UInt8 := fun i =>
  if start ≤ i ∧ i < stop ∧ put.freed (i / pageSize) then 0 else bytes i

def memfdTruncateLocked (s : Memfd) (length : ℤ) (filled : ℕ) (put : Put) : Option Errno × Memfd :=
  if length < 0 then (some .EINVAL,s)
  else if length = s.size then (none,s)
  else if .shrink ∈ s.seals ∧ length < s.size then (some .EPERM,s)
  else if .grow ∈ s.seals ∧ length > s.size then (some .EPERM,s)
  else if length > s.size then
    -- the outcome of the fill is not looked at
    (none,{ s with
      bytes := ubcZerorange s.bytes s.size (length.toNat - s.size) filled
      size := length.toNat })
  else if asOff (roundPage length.toNat) < asOff (roundPage s.size) then
    (put.error,{ s with
      bytes := pgoPut s.bytes (roundPage length.toNat) (roundPage s.size) put
      size := length.toNat })
  else (none,{ s with size := length.toNat })

def memfdRead (s : Memfd) (off : ℤ) (resid : ℕ) (moved : Moved) : Option Errno × List UInt8 :=
  if off < 0 then (some .EINVAL,[])
  else if off ≥ s.size then (none,[])
  else
    let todo := min resid (s.size - off.toNat)
    (moved.error,(List.range (min moved.count todo)).map fun k => s.bytes (off.toNat + k))

def memfdCopyIn (s : Memfd) (off : ℤ) (data : List UInt8) (todo : ℕ) (moved : Moved) :
    Option Errno × Memfd :=
  (moved.error,
    { s with bytes := ubcUiomove s.bytes off.toNat (data.take (min moved.count todo)) })

def writeEnd (off : ℤ) (resid : ℕ) : ℕ := (off.toNat + resid) % 2 ^ 64

/-- `memfd_write`; a request that reaches past the end of the file makes it grow first. -/
def memfdWrite (s : Memfd) (off : ℤ) (data : List UInt8) (filled : ℕ) (moved : Moved) :
    Option Errno × Memfd :=
  if s.AnyWrite then (some .EPERM,s)
  else if off < 0 then (some .EINVAL,s)
  else if .grow ∈ s.seals then
    if off ≥ s.size then (some .EPERM,s)
    else if writeEnd off data.length ≥ s.size then memfdCopyIn s off data (s.size - off.toNat) moved
    else memfdCopyIn s off data data.length moved
  else if writeEnd off data.length ≥ s.size then
    match memfdTruncateLocked s (asOff (writeEnd off data.length)) filled ⟨fun _ => false,none⟩ with
    | (some error,t) => (some error,t)
    | (none,t) => memfdCopyIn t off data data.length moved
  else memfdCopyIn s off data data.length moved

def memfdAddSeals (s : Memfd) (data : Finset Seal) (unknown : Bool) : Option Errno × Memfd :=
  if .seal ∈ s.seals then (some .EPERM,s)
  else if unknown then (some .EINVAL,s)
  else if .write ∉ s.seals ∧ .write ∈ data ∧ s.uoRefs > 1 then (some .EBUSY,s)
  else (none,{ s with seals := s.seals ∪ data })

def memfdMmap (s : Memfd) (off : ℤ) (size : ℕ) (write shared : Bool) : Option Errno × Memfd :=
  if off < 0 then (some .EINVAL,s)
  else if off.toNat + size > roundPage s.size then (some .EINVAL,s)
  else if s.AnyWrite ∧ write ∧ shared then (some .EPERM,s)
  else (none,{ s with maps := ⟨off.toNat,size,write,shared⟩ :: s.maps })

def Memfd.store (s : Memfd) (m : Mapping) (pos : ℕ) (byte : UInt8) : Memfd :=
  if m.write ∧ m.shared ∧ pos < m.len then
    { s with bytes := fun i => if i = m.off + pos then byte else s.bytes i }
  else s

inductive Op
  | read (off : ℤ) (resid : ℕ) (moved : Moved)
  | write (off : ℤ) (data : List UInt8) (filled : ℕ) (moved : Moved)
  | ftruncate (length : ℤ) (filled : ℕ) (put : Put)
  | addSeals (data : Finset Seal) (unknown : Bool)
  | mmap (off : ℤ) (size : ℕ) (write shared : Bool)
  | munmap (k : ℕ)
  | store (k pos : ℕ) (byte : UInt8)

def step (s : Memfd) : Op → Memfd
  | .read _ _ _ => s
  | .write off data filled moved => (memfdWrite s off data filled moved).2
  | .ftruncate length filled put => (memfdTruncateLocked s length filled put).2
  | .addSeals data unknown => (memfdAddSeals s data unknown).2
  | .mmap off size write shared => (memfdMmap s off size write shared).2
  | .munmap k => { s with maps := s.maps.eraseIdx k }
  | .store k pos byte =>
    match s.maps[k]? with
    | some m => s.store m pos byte
    | none => s

def run (s : Memfd) (os : List Op) : Memfd := os.foldl step s

def lowest (s : Memfd) : List Op → ℕ
  | [] => s.size
  | o :: os => min s.size (lowest (step s o) os)

def Op.carries : Op → ℕ → Option UInt8
  | .write off data _ moved, i =>
    if off.toNat ≤ i then (data.take moved.count)[i - off.toNat]? else none
  | _, _ => none

def Op.filled : Op → ℕ
  | .write _ _ filled _ => filled
  | .ftruncate _ filled _ => filled
  | _ => 0

/-- The bytes that an operation would have filled: those by which it makes the file longer. -/
def Op.asked (s : Memfd) : Op → ℕ
  | .write off data _ _ =>
    if s.AnyWrite ∨ off < 0 ∨ .grow ∈ s.seals then 0
    else (asOff (writeEnd off data.length)).toNat - s.size
  | .ftruncate length _ _ => if .grow ∈ s.seals then 0 else length.toNat - s.size
  | _ => 0

/-! ## Changes of length -/

/-- A change of length heeds the seals and keeps the bytes that stay in the file; what comes into it
is zero if the fill does all of it. -/
structure Resized (s t : Memfd) (filled : ℕ) : Prop where
  seals : t.seals = s.seals
  maps : t.maps = s.maps
  shrink : .shrink ∈ s.seals → s.size ≤ t.size
  grow : .grow ∈ s.seals → t.size ≤ s.size
  kept : ∀ i, i < s.size → i < t.size → t.bytes i = s.bytes i
  zeroed : t.size - s.size ≤ filled → ∀ i, s.size ≤ i → i < t.size → t.bytes i = 0

theorem Resized.refl (s : Memfd) (filled : ℕ) : Resized s s filled :=
  ⟨rfl,rfl,fun _ => Nat.le_refl _,fun _ => Nat.le_refl _,fun _ _ _ => rfl,
    fun _ _ hi hlt => absurd hlt (Nat.not_lt.mpr hi)⟩

theorem le_roundPage (n : ℕ) : n ≤ roundPage n := by
  unfold roundPage pageSize
  omega

variable {s : Memfd} {filled : ℕ}

theorem Resized.shorter {length : ℕ} {bytes : ℕ → UInt8} (hlt : length < s.size)
    (hseal : .shrink ∉ s.seals) (hbytes : ∀ i, i < length → bytes i = s.bytes i) :
    Resized s { s with bytes := bytes, size := length } filled :=
  ⟨rfl,rfl,fun h => absurd h hseal,fun _ => Nat.le_of_lt hlt,fun i _ hi => hbytes i hi,
    fun _ _ hi hi' => absurd (Nat.lt_of_lt_of_le hi' (Nat.le_of_lt hlt)) (Nat.not_lt.mpr hi)⟩

theorem memfdTruncateLocked_resized (s : Memfd) (length : ℤ) (filled : ℕ) (put : Put) :
    Resized s (memfdTruncateLocked s length filled put).2 filled := by
  unfold memfdTruncateLocked
  split_ifs with hneg heq hshrink hgrow hlarger hpages
  · exact .refl s filled
  · exact .refl s filled
  · exact .refl s filled
  · exact .refl s filled
  · refine ⟨rfl,rfl,fun _ => ?_,fun h => absurd ⟨h,hlarger⟩ hgrow,fun i hi _ => ?_,
      fun hfull i hi hlt => ?_⟩
    · show s.size ≤ length.toNat
      omega
    · exact if_neg fun h => absurd h.1 (Nat.not_le.mpr hi)
    · replace hfull : length.toNat - s.size ≤ filled := hfull
      replace hlt : i < length.toNat := hlt
      exact if_pos ⟨hi,by omega⟩
  · refine .shorter (by omega) (fun h => hshrink ⟨h,by omega⟩) fun i hi => ?_
    exact if_neg fun h => absurd (le_roundPage length.toNat) (by omega)
  · exact .shorter (by omega) (fun h => hshrink ⟨h,by omega⟩) fun _ _ => rfl

theorem memfdTruncateLocked_size (s : Memfd) (length : ℤ) (filled : ℕ) (put : Put) :
    (memfdTruncateLocked s length filled put).2.size ≤ max s.size length.toNat := by
  unfold memfdTruncateLocked
  split_ifs <;> simp

theorem memfdTruncateLocked_error {t : Memfd} {length : ℤ} {put : Put} {error : Errno}
    (h : memfdTruncateLocked s length filled put = (some error,t)) : t.size ≤ s.size := by
  unfold memfdTruncateLocked at h
  split_ifs at h with hneg heq hshrink hgrow hlarger hpages <;> obtain ⟨herr,rfl⟩ := Prod.mk.inj h
  · exact Nat.le_refl _
  · exact Nat.le_refl _
  · exact Nat.le_refl _
  · exact Nat.le_refl _
  · cases herr
  · show length.toNat ≤ s.size
    omega
  · cases herr

/-- `memfd_write` may change the length, and then copies if no seal is against it: all the data
there is, if the file has grown. -/
theorem memfdWrite_cases (s : Memfd) (off : ℤ) (data : List UInt8) (filled : ℕ) (moved : Moved) :
    ∃ u, Resized s u filled ∧
      ((memfdWrite s off data filled moved).2 = u ∧ u.size ≤ s.size ∨ ¬s.AnyWrite ∧ ∃ todo,
        (memfdWrite s off data filled moved).2 = (memfdCopyIn u off data todo moved).2 ∧
        (s.size < u.size → todo = data.length)) := by
  unfold memfdWrite
  split_ifs with hsealed hneg hgrow hpast hend hend
  · exact ⟨s,.refl s filled,.inl ⟨rfl,Nat.le_refl _⟩⟩
  · exact ⟨s,.refl s filled,.inl ⟨rfl,Nat.le_refl _⟩⟩
  · exact ⟨s,.refl s filled,.inl ⟨rfl,Nat.le_refl _⟩⟩
  · exact ⟨s,.refl s filled,.inr ⟨hsealed,_,rfl,fun h => absurd h (Nat.lt_irrefl _)⟩⟩
  · exact ⟨s,.refl s filled,.inr ⟨hsealed,_,rfl,fun _ => rfl⟩⟩
  · have hres := memfdTruncateLocked_resized s (asOff (writeEnd off data.length)) filled
      ⟨fun _ => false,none⟩
    split
    · next error t heq =>
      rw [heq] at hres
      exact ⟨t,hres,.inl ⟨rfl,memfdTruncateLocked_error heq⟩⟩
    · next t heq =>
      rw [heq] at hres
      exact ⟨t,hres,.inr ⟨hsealed,_,rfl,fun _ => rfl⟩⟩
  · exact ⟨s,.refl s filled,.inr ⟨hsealed,_,rfl,fun _ => rfl⟩⟩

theorem memfdWrite_size (s : Memfd) (off : ℤ) (data : List UInt8) (filled : ℕ) (moved : Moved) :
    (memfdWrite s off data filled moved).2.size ≤
      max s.size (asOff (writeEnd off data.length)).toNat := by
  have hle := memfdTruncateLocked_size s (asOff (writeEnd off data.length)) filled
    ⟨fun _ => false,none⟩
  unfold memfdWrite
  generalize asOff (writeEnd off data.length) = last at hle
  split_ifs
  · exact Nat.le_max_left _ _
  · exact Nat.le_max_left _ _
  · exact Nat.le_max_left _ _
  · exact Nat.le_max_left _ _
  · exact Nat.le_max_left _ _
  · split <;> next heq =>
      rw [heq] at hle
      exact hle
  · exact Nat.le_max_left _ _

/-! ## What every operation keeps -/

/-- With the seal against writing on, no mapping reaches the contents. -/
def Memfd.Guarded (s : Memfd) : Prop :=
  .write ∈ s.seals → ∀ m ∈ s.maps, ¬(m.write ∧ m.shared)

/-- How an operation takes a memfd to the next one: it changes the length, the contents,
the seals or the mappings. -/
inductive Became (s : Memfd) : Op → Memfd → Prop
  | same (o : Op) : Became s o s
  | resized {o : Op} {t : Memfd} (h : Resized s t o.filled)
      (hplain : s.size < t.size → ∀ i, o.carries i = none) : Became s o t
  | copied {off : ℤ} {data : List UInt8} {filled todo : ℕ} {moved : Moved} {u : Memfd}
      (hu : Resized s u filled) (hseal : ¬s.AnyWrite) (hall : s.size < u.size → todo = data.length) :
      Became s (.write off data filled moved) (memfdCopyIn u off data todo moved).2
  | sealed {o : Op} {data : Finset Seal} (hseal : .seal ∉ s.seals)
      (hmaps : .write ∉ s.seals → .write ∈ data → s.maps = []) :
      Became s o { s with seals := s.seals ∪ data }
  | mapped {o : Op} {maps : List Mapping}
      (hmaps : .write ∈ s.seals → ∀ m ∈ maps, m ∉ s.maps → ¬(m.write ∧ m.shared)) :
      Became s o { s with maps := maps }
  | stored {o : Op} {m : Mapping} (hm : m ∈ s.maps) (pos : ℕ) (byte : UInt8) :
      Became s o (s.store m pos byte)

theorem step_became (s : Memfd) (o : Op) : Became s o (step s o) := by
  cases o with
  | read off resid moved => exact .same _
  | write off data filled moved =>
    show Became s _ (memfdWrite s off data filled moved).2
    obtain ⟨u,hu,⟨heq,hle⟩ | ⟨hseal,todo,heq,hall⟩⟩ := memfdWrite_cases s off data filled moved
    · exact heq ▸ .resized hu fun h => absurd h (Nat.not_lt.mpr hle)
    · exact heq ▸ .copied hu hseal hall
  | ftruncate length filled put =>
    exact .resized (memfdTruncateLocked_resized s length filled put) fun _ _ => rfl
  | addSeals data unknown =>
    show Became s _ (memfdAddSeals s data unknown).2
    unfold memfdAddSeals
    split_ifs with hseal hunknown hbusy
    · exact .same _
    · exact .same _
    · exact .same _
    · refine .sealed hseal fun hnot hdata => ?_
      have hrefs : ¬s.uoRefs > 1 := fun h => hbusy ⟨hnot,hdata,h⟩
      exact length_eq_zero_iff.mp (by unfold Memfd.uoRefs at hrefs; omega)
  | mmap off size write shared =>
    show Became s _ (memfdMmap s off size write shared).2
    unfold memfdMmap
    split_ifs with hneg hlong hseal
    · exact .same _
    · exact .same _
    · exact .same _
    · refine .mapped fun hwrite m hm hnew hreach => ?_
      obtain rfl := (mem_cons.mp hm).resolve_right hnew
      exact hseal ⟨.inl hwrite,hreach⟩
  | munmap k => exact .mapped fun _ m hm hnew => absurd (mem_of_mem_eraseIdx hm) hnew
  | store k pos byte =>
    show Became s _ (match s.maps[k]? with | some m => s.store m pos byte | none => s)
    split
    · next m hm => exact .stored (mem_of_getElem? hm) pos byte
    · exact .same _

section Step
variable {s t : Memfd} {o : Op} {i : ℕ}

@[simp] theorem Memfd.store_seals (m : Mapping) (pos : ℕ) (byte : UInt8) :
    (s.store m pos byte).seals = s.seals := by
  unfold Memfd.store
  split_ifs <;> rfl

@[simp] theorem Memfd.store_size (m : Mapping) (pos : ℕ) (byte : UInt8) :
    (s.store m pos byte).size = s.size := by
  unfold Memfd.store
  split_ifs <;> rfl

@[simp] theorem Memfd.store_maps (m : Mapping) (pos : ℕ) (byte : UInt8) :
    (s.store m pos byte).maps = s.maps := by
  unfold Memfd.store
  split_ifs <;> rfl

theorem Became.seals (h : Became s o t) :
    s.seals ⊆ t.seals ∧ (.seal ∈ s.seals → t.seals = s.seals) := by
  cases h with
  | same | mapped _ => exact ⟨Finset.Subset.refl _,fun _ => rfl⟩
  | resized h _ | copied h => exact ⟨h.seals ▸ Finset.Subset.refl _,fun _ => h.seals⟩
  | sealed hseal _ => exact ⟨Finset.subset_union_left,fun h => absurd h hseal⟩
  | stored hm pos byte => exact ⟨by simp,fun _ => by simp⟩

theorem Became.size (h : Became s o t) :
    (.shrink ∈ s.seals → s.size ≤ t.size) ∧ (.grow ∈ s.seals → t.size ≤ s.size) := by
  cases h with
  | resized h | copied h => exact ⟨h.shrink,h.grow⟩
  | stored hm pos byte => exact ⟨fun _ => by simp,fun _ => by simp⟩
  | _ => exact ⟨fun _ => Nat.le_refl _,fun _ => Nat.le_refl _⟩

theorem Became.guarded (h : Became s o t) (hs : s.Guarded) : t.Guarded := by
  cases h with
  | same => exact hs
  | resized h | copied h => exact fun hw m hm => hs (h.seals ▸ hw) m (h.maps ▸ hm)
  | sealed _ hmaps =>
    intro hw m hm
    by_cases hold : .write ∈ s.seals
    · exact hs hold m hm
    · have hnil := hmaps hold ((Finset.mem_union.mp hw).resolve_left hold)
      exact absurd (hnil ▸ hm : m ∈ []) not_mem_nil
  | mapped hmaps =>
    intro hw m hm
    by_cases hold : m ∈ s.maps
    · exact hs hw m hold
    · exact hmaps hw m hm hold
  | stored hm pos byte =>
    intro hw m' hm'
    exact hs (by simpa using hw) m' (by simpa using hm')

theorem Became.bytes (h : Became s o t) (hs : s.Guarded) (hw : .write ∈ s.seals) (hi : i < s.size)
    (hi' : i < t.size) : t.bytes i = s.bytes i := by
  cases h with
  | same => rfl
  | resized h _ => exact h.kept i hi hi'
  | copied _ hseal _ => exact absurd (.inl hw) hseal
  | sealed => rfl
  | mapped => rfl
  | stored hm pos byte =>
    unfold Memfd.store
    exact congrArg (fun s : Memfd => s.bytes i) (if_neg fun h => hs hw _ hm ⟨h.1,h.2.1⟩)

theorem Became.exposed (h : Became s o t) (hfull : t.size - s.size ≤ o.filled) (hi : s.size ≤ i)
    (hi' : i < t.size) : t.bytes i = (o.carries i).getD 0 := by
  have hgrown : s.size < t.size := Nat.lt_of_le_of_lt hi hi'
  cases h with
  | resized h hplain => rw [h.zeroed hfull i hi hi',hplain hgrown i,Option.getD_none]
  | @copied off data filled todo moved u hu _ hall =>
    have hzero := hu.zeroed hfull i hi hi'
    show ubcUiomove u.bytes off.toNat (data.take (min moved.count todo)) i = _
    rw [hall hgrown,take_eq_take_min.symm]
    show (if off.toNat ≤ i then _ else _) = Option.getD (if off.toNat ≤ i then _ else none) 0
    split_ifs
    · rw [hzero]
    · rw [hzero,Option.getD_none]
  | stored hm pos byte => exact absurd hgrown (by simp)
  | _ => exact absurd hgrown (Nat.lt_irrefl _)

theorem step_size_le (s : Memfd) (o : Op) : (step s o).size - s.size ≤ o.asked s := by
  by_cases hgrow : .grow ∈ s.seals
  · have hle := (step_became s o).size.2 hgrow
    omega
  cases o with
  | write off data filled moved =>
    show (memfdWrite s off data filled moved).2.size - s.size ≤ ite _ _ _
    split_ifs with hno
    · have hsame : (memfdWrite s off data filled moved).2 = s := by
        unfold memfdWrite
        rcases hno with hno | hno | hno
        · rw [if_pos hno]
        · simp only [hno,↓reduceIte]
          split_ifs <;> rfl
        · exact absurd hno hgrow
      rw [hsame,Nat.sub_self]
    · have hle := memfdWrite_size s off data filled moved
      omega
  | ftruncate length filled put =>
    have hle := memfdTruncateLocked_size s length filled put
    simp only [step,Op.asked,hgrow,↓reduceIte]
    omega
  | addSeals data unknown =>
    simp only [step,memfdAddSeals]
    split_ifs <;> simp
  | mmap off size write shared =>
    simp only [step,memfdMmap]
    split_ifs <;> simp
  | store k pos byte =>
    simp only [step]
    split <;> simp
  | read | munmap => simp [step]

end Step

theorem memfdRead_getElem {off : ℤ} {resid k : ℕ} {moved : Moved} {byte : UInt8}
    (h : (memfdRead s off resid moved).2[k]? = some byte) :
    off.toNat + k < s.size ∧ byte = s.bytes (off.toNat + k) := by
  unfold memfdRead at h
  split_ifs at h with hneg hpast
  · cases h
  · cases h
  · dsimp only at h
    rw [List.getElem?_map] at h
    obtain ⟨j,hj,rfl⟩ := Option.map_eq_some_iff.mp h
    obtain ⟨hk,rfl⟩ := List.getElem?_eq_some_iff.mp hj
    rw [length_range] at hk
    exact ⟨by omega,by rw [getElem_range]⟩

/-! ## Whole runs -/
section Run
variable {s : Memfd}

theorem run_guarded (hs : s.Guarded) (os : List Op) : (run s os).Guarded := by
  induction os generalizing s with
  | nil => exact hs
  | cons o os ih => exact ih ((step_became s o).guarded hs)

theorem memfdCreate_guarded (allowSealing : Bool) : (memfdCreate allowSealing).Guarded :=
  fun _ _ hm => absurd hm not_mem_nil

theorem run_seals (s : Memfd) (os : List Op) :
    s.seals ⊆ (run s os).seals ∧ (.seal ∈ s.seals → (run s os).seals = s.seals) := by
  induction os generalizing s with
  | nil => exact ⟨Finset.Subset.refl _,fun _ => rfl⟩
  | cons o os ih =>
    obtain ⟨hsub,hfrozen⟩ := (step_became s o).seals
    obtain ⟨hsubs,hfrozens⟩ := ih (step s o)
    exact ⟨hsub.trans hsubs,fun h => (hfrozens (hsub h)).trans (hfrozen h)⟩

theorem run_size (s : Memfd) (os : List Op) : (.shrink ∈ s.seals → s.size ≤ (run s os).size) ∧
    (.grow ∈ s.seals → (run s os).size ≤ s.size) := by
  induction os generalizing s with
  | nil => exact ⟨fun _ => Nat.le_refl _,fun _ => Nat.le_refl _⟩
  | cons o os ih =>
    have hsub := (step_became s o).seals.1
    obtain ⟨hshrink,hgrow⟩ := (step_became s o).size
    obtain ⟨hshrinks,hgrows⟩ := ih (step s o)
    exact ⟨fun h => Nat.le_trans (hshrink h) (hshrinks (hsub h)),
      fun h => Nat.le_trans (hgrows (hsub h)) (hgrow h)⟩

theorem lowest_le (s : Memfd) (os : List Op) : lowest s os ≤ s.size := by
  cases os with
  | nil => exact Nat.le_refl _
  | cons o os => exact Nat.min_le_left _ _

theorem run_bytes (hs : s.Guarded) (hw : .write ∈ s.seals) {os : List Op} {i : ℕ}
    (hi : i < lowest s os) : (run s os).bytes i = s.bytes i := by
  induction os generalizing s with
  | nil => rfl
  | cons o os ih =>
    obtain ⟨hnow,hlater⟩ := Nat.lt_min.mp hi
    have hnext := step_became s o
    have hstay := Nat.lt_of_lt_of_le hlater (lowest_le (step s o) os)
    exact (ih (hnext.guarded hs) (hnext.seals.1 hw) hlater).trans (hnext.bytes hs hw hnow hstay)

/-- The seals only grow, and not once sealed; the size heeds them; with the seal against writing no
byte in the file changes. An operation that fills all it adds leaves there what it wrote and zeroes
elsewhere. -/
theorem seals_hold (allowSealing : Bool) (before after : List Op) :
    let s := run (memfdCreate allowSealing) before
    let t := run s after
    s.seals ⊆ t.seals ∧
    (.seal ∈ s.seals → t.seals = s.seals) ∧
    (.shrink ∈ s.seals → s.size ≤ t.size) ∧
    (.grow ∈ s.seals → t.size ≤ s.size) ∧
    (.write ∈ s.seals → ∀ i < lowest s after, t.bytes i = s.bytes i) ∧
    (∀ o : Op, o.asked s ≤ o.filled →
      ∀ (off : ℤ) (resid k : ℕ) (moved : Moved) (byte : UInt8), s.size ≤ off.toNat + k →
        (memfdRead (step s o) off resid moved).2[k]? = some byte →
        byte = (o.carries (off.toNat + k)).getD 0) := by
  intro s t
  have hs : s.Guarded := run_guarded (memfdCreate_guarded allowSealing) before
  refine ⟨(run_seals s after).1,(run_seals s after).2,(run_size s after).1,(run_size s after).2,
    fun hw i hi => run_bytes hs hw hi,fun o hfull off resid k moved byte hnew hread => ?_⟩
  obtain ⟨hlt,rfl⟩ := memfdRead_getElem hread
  exact (step_became s o).exposed (Nat.le_trans (step_size_le s o) hfull) hnew hlt

def storePastEnd : List Op :=
  [.ftruncate 10 10 ⟨fun _ => true,none⟩,.mmap 0 4096 true true,.store 0 100 7]

/-- Growing that file with a full fill, the store is gone. -/
theorem storePastEnd_filled :
    (memfdRead (step (run (memfdCreate true) storePastEnd) (.ftruncate 200 190 ⟨fun _ => true,none⟩))
      100 1 ⟨1,none⟩).2[0]? = some 0 ∧
    (run (memfdCreate true) storePastEnd).bytes 100 = 7 ∧
    ∀ byte, (memfdRead (step (run (memfdCreate true) storePastEnd)
      (.ftruncate 200 190 ⟨fun _ => true,none⟩)) 100 1 ⟨1,none⟩).2[0]? = some byte → byte = 0 :=
  ⟨by decide +kernel,by decide +kernel,fun byte h =>
    (seals_hold true storePastEnd []).2.2.2.2.2 (.ftruncate 200 190 ⟨fun _ => true,none⟩)
      (by decide +kernel) 100 1 0 ⟨1,none⟩ byte (by decide +kernel) h⟩

/-- If the fill stops before it, the file grows all the same and the store is read back. -/
theorem storePastEnd_exposed :
    let s := run (memfdCreate true) storePastEnd
    let t := step s (.ftruncate 200 50 ⟨fun _ => true,none⟩)
    s.size = 10 ∧ t.size = 200 ∧
    (memfdTruncateLocked s 200 50 ⟨fun _ => true,none⟩).1 = none ∧
    (memfdRead t 100 1 ⟨1,none⟩).2[0]? = some 7 := by
  decide +kernel

end Run

/-! ## The length after a write -/
section Wrote
variable {s u : Memfd} {off : ℤ} {data : List UInt8} {todo : ℕ} {moved : Moved}

/-- The number of bytes that `memfd_write` transfers; none if it does not come to the copy. -/
def transferred (s : Memfd) (off : ℤ) (data : List UInt8) (moved : Moved) : ℕ :=
  if s.AnyWrite then 0
  else if off < 0 then 0
  else if .grow ∈ s.seals then
    if off ≥ s.size then 0
    else if writeEnd off data.length ≥ s.size then min moved.count (s.size - off.toNat)
    else min moved.count data.length
  else if writeEnd off data.length ≥ s.size then
    if asOff (writeEnd off data.length) < 0 then 0 else min moved.count data.length
  else min moved.count data.length

/-- A write of `k` bytes leaves a size that accounts for them; outside them what comes into the file
is zero and the rest as before. -/
structure Wrote (s t : Memfd) (off : ℕ) (data : List UInt8) (k : ℕ) : Prop where
  size : t.size = if k = 0 then s.size else max s.size (off + k)
  copied : ∀ j < k, data[j]? = some (t.bytes (off + j))
  kept : ∀ i, i < off ∨ off + k ≤ i →
    t.bytes i = if s.size ≤ i ∧ i < t.size then 0 else s.bytes i

theorem Wrote.none (off : ℕ) : Wrote s s off data 0 :=
  ⟨rfl,nofun,fun _ _ => (if_neg (by omega)).symm⟩

theorem Wrote.copyIn (htodo : todo ≤ data.length)
    (hsize : u.size = if min moved.count todo = 0 then s.size
      else max s.size (off.toNat + min moved.count todo))
    (hbytes : ∀ i, u.bytes i = if s.size ≤ i ∧ i < u.size then 0 else s.bytes i) :
    Wrote s (memfdCopyIn u off data todo moved).2 off.toNat data (min moved.count todo) := by
  refine ⟨hsize,fun j hj => ?_,fun i hi => (?_ : _ = u.bytes i).trans (hbytes i)⟩
  · simp [memfdCopyIn,ubcUiomove,List.getElem?_take_of_lt hj,
      List.getElem?_eq_getElem (by omega : j < data.length)]
  · show ubcUiomove _ _ _ i = _
    unfold ubcUiomove
    split_ifs with hle
    · rw [List.getElem?_eq_none (by rw [length_take]; omega),Option.getD_none]
    · rfl

theorem Wrote.inside (htodo : todo ≤ data.length) (hin : off.toNat + todo ≤ s.size) :
    Wrote s (memfdCopyIn s off data todo moved).2 off.toNat data (min moved.count todo) :=
  .copyIn htodo (by split_ifs <;> omega) fun _ => (if_neg (by omega)).symm

end Wrote

/-- The bytes transferred account for what a write leaves just if a write that makes the file longer
transfers all of its data, and some. -/
theorem memfdWrite_wrote (s : Memfd) (off : ℤ) (data : List UInt8) (filled : ℕ) (moved : Moved)
    (hoff : off.toNat < 2 ^ 63) (hlen : data.length < 2 ^ 63)
    (hfill : off.toNat + data.length - s.size ≤ filled) :
    Wrote s (memfdWrite s off data filled moved).2 off.toNat data (transferred s off data moved) ↔
      (0 < Op.asked s (.write off data filled moved) →
        0 < data.length ∧ data.length ≤ moved.count) := by
  have hend : writeEnd off data.length = off.toNat + data.length := by
    unfold writeEnd
    omega
  have hasked : Op.asked s (.write off data filled moved) =
      if s.AnyWrite ∨ off < 0 ∨ .grow ∈ s.seals then 0
      else (asOff (off.toNat + data.length)).toNat - s.size := by
    rw [← hend]
    rfl
  have hnone (h : s.AnyWrite ∨ off < 0 ∨ .grow ∈ s.seals) :
      ¬0 < Op.asked s (.write off data filled moved) := by
    simp [hasked,h]
  have hsome (hsealed : ¬s.AnyWrite) (hneg : ¬off < 0) (hgrow : .grow ∉ s.seals) :
      Op.asked s (.write off data filled moved) =
        (asOff (off.toNat + data.length)).toNat - s.size := by
    rw [hasked,if_neg (by simp [hsealed,hneg,hgrow])]
  have hlast : asOff (off.toNat + data.length) = (off.toNat + data.length : ℕ) ∨
      asOff (off.toNat + data.length) < 0 := by
    unfold asOff
    rw [Int.bmod_def]
    omega
  unfold memfdWrite transferred
  rw [hend]
  generalize asOff (off.toNat + data.length) = last at hsome hlast
  split_ifs with hsealed hneg hgrow hpast hover hover hbig
  · exact iff_of_true (.none _) fun h => absurd h (hnone (.inl hsealed))
  · exact iff_of_true (.none _) fun h => absurd h (hnone (.inr (.inl hneg)))
  · exact iff_of_true (.none _) fun h => absurd h (hnone (.inr (.inr hgrow)))
  · exact iff_of_true (.inside (by omega) (by omega)) fun h => absurd h (hnone (.inr (.inr hgrow)))
  · exact iff_of_true (.inside (by omega) (by omega)) fun h => absurd h (hnone (.inr (.inr hgrow)))
  · rw [hsome hsealed hneg hgrow,memfdTruncateLocked,if_pos hbig]
    exact iff_of_true (.none _) fun h => by omega
  · obtain rfl : last = (off.toNat + data.length : ℕ) := hlast.resolve_right hbig
    rw [hsome hsealed hneg hgrow,memfdTruncateLocked,if_neg (by omega)]
    by_cases hsame : off.toNat + data.length = s.size
    · rw [if_pos (by omega)]
      exact iff_of_true (.inside (by omega) (by omega)) fun h => by omega
    · rw [if_neg (by omega),if_neg (by omega),if_neg fun h => hgrow h.1,if_pos (by omega)]
      constructor
      · -- the file is as long as the whole request
        intro h _
        have hsize : off.toNat + data.length = _ := h.size
        split_ifs at hsize <;> omega
      · intro hall
        obtain ⟨hpos,hcount⟩ := hall (by omega)
        refine .copyIn (Nat.le_refl _) ?_ fun i => if_congr ?_ rfl rfl
        · rw [if_neg (by omega)]
          dsimp only
          omega
        · dsimp only
          omega
  · rw [hsome hsealed hneg hgrow]
    exact iff_of_true (.inside (by omega) (by omega)) fun h => by omega

theorem memfdWrite_wrote_gap :
    Wrote (memfdCreate true) (memfdWrite (memfdCreate true) 3 [7,8] 5 ⟨2,none⟩).2 3 [7,8] 2 :=
  (memfdWrite_wrote (memfdCreate true) 3 [7,8] 5 ⟨2,none⟩ (by decide) (by decide)
    (by decide)).mpr fun _ => by decide

/-- An empty write past the end makes a file longer, and one that stops early makes it as long as
the whole request. -/
theorem memfdWrite_overgrows :
    let s := memfdCreate true
    s.size = 0 ∧ transferred s 10 [] ⟨0,none⟩ = 0 ∧ (memfdWrite s 10 [] 10 ⟨0,none⟩).2.size = 10 ∧
    transferred s 0 [1,2] ⟨1,some .EFAULT⟩ = 1 ∧
    (memfdWrite s 0 [1,2] 2 ⟨1,some .EFAULT⟩).2.size = 2 := by
  decide +kernel

end NanoBSD.SysMemfd
