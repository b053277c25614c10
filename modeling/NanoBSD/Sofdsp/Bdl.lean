import Mathlib.Algebra.Group.Nat.Defs
import Mathlib.Data.List.Chain
import Mathlib.Order.Interval.Set.Defs

/-! # The buffer descriptor list of a DSP stream

The list cuts the stream's buffer into pieces of whole pages, few enough for the controller,
and a buffer of one piece into two.
-/
namespace NanoBSD.Sofdsp
open List

def hdaudioBdlMax : ℕ := 256
def ioc : ℕ := 1

structure BdlEntry where
  addressLo : ℕ
  addressHi : ℕ
  length : ℕ
  flags : ℕ
deriving DecidableEq

/-- An entry at `addr`; all of its fields are `uint32_t`. -/
def bdlEntry (addr length flags : ℕ) : BdlEntry :=
  ⟨addr % 2 ^ 32,addr / 2 ^ 32 % 2 ^ 32,length % 2 ^ 32,flags⟩

def howmany (x y : ℕ) : ℕ := (x + (y - 1)) / y
def roundup (x y : ℕ) : ℕ := (x + (y - 1)) / y * y
def chunk (size : ℕ) : ℕ := max 4096 (roundup (howmany size hdaudioBdlMax) 4096)

theorem chunk_pos (size : ℕ) : 0 < chunk size :=
  Nat.lt_of_lt_of_le (by decide) (Nat.le_max_left ..)

def bdlLoop (a size off : ℕ) : List BdlEntry :=
  if off < size then
    bdlEntry (a + off) (min (chunk size) (size - off)) (if size ≤ off + chunk size then ioc else 0) ::
      bdlLoop a size (off + chunk size)
  else []
termination_by size - off
decreasing_by have := chunk_pos size; omega

/-- The list that `stream_setup` builds; the controller wants two entries. -/
def streamSetup (a size : ℕ) : List BdlEntry :=
  match bdlLoop a size 0 with
  | [e] => [{ e with length := size / 2 % 2 ^ 32, flags := 0 },
      bdlEntry (a + size / 2) (size - size / 2) e.flags]
  | l => l

def BdlEntry.address (e : BdlEntry) : ℕ := e.addressHi * 2 ^ 32 + e.addressLo
def BdlEntry.bytes (e : BdlEntry) : Set ℕ := Set.Ico e.address (e.address + e.length)

/-- The entries follow each other from `s` up to `t`, none is empty, and the last one, and no
other, interrupts. -/
def Tiles (t : ℕ) : ℕ → List BdlEntry → Prop
  | s, [] => s = t
  | s, e :: l => e.address = s ∧ 0 < e.length ∧ (e.flags = if l = [] then ioc else 0) ∧
      Tiles t (s + e.length) l

section Loop
variable {a size off : ℕ}

theorem address_bdlEntry {addr length flags : ℕ} (h : addr < 2 ^ 64) :
    (bdlEntry addr length flags).address = addr := by
  show addr / 2 ^ 32 % 2 ^ 32 * 2 ^ 32 + addr % 2 ^ 32 = addr
  omega

theorem bdlLoop_of_lt (h : off < size) :
    bdlLoop a size off = bdlEntry (a + off) (min (chunk size) (size - off))
      (if size ≤ off + chunk size then ioc else 0) :: bdlLoop a size (off + chunk size) := by
  rw [bdlLoop,if_pos h]

theorem bdlLoop_of_le (h : size ≤ off) : bdlLoop a size off = [] := by
  rw [bdlLoop,if_neg (Nat.not_lt.2 h)]

theorem bdlLoop_eq_nil : bdlLoop a size off = [] ↔ size ≤ off := by
  refine ⟨fun h => Nat.le_of_not_lt fun hlt => ?_,bdlLoop_of_le⟩
  rw [bdlLoop_of_lt hlt] at h
  cases h

theorem bdlLoop_tiles (hsize : size < 2 ^ 32) (ha : a + size ≤ 2 ^ 64) :
    Tiles (a + size) (a + min off size) (bdlLoop a size off) := by
  have hchunk := chunk_pos size
  fun_induction bdlLoop a size off with
  | case1 off hlt ih =>
    refine ⟨?_,?_,?_,?_⟩
    · rw [address_bdlEntry (by omega),Nat.min_eq_left hlt.le]
    · show 0 < min (chunk size) (size - off) % 2 ^ 32
      rw [Nat.mod_eq_of_lt (by omega)]
      omega
    · simp only [bdlLoop_eq_nil]
      rfl
    · show Tiles _ (a + min off size + min (chunk size) (size - off) % 2 ^ 32) _
      rw [Nat.mod_eq_of_lt (by omega)]
      rwa [show a + min off size + min (chunk size) (size - off) =
        a + min (off + chunk size) size by omega]
  | case2 off hge =>
    show a + min off size = a + size
    omega

theorem length_bdlLoop : (bdlLoop a size off).length * chunk size < size - off + chunk size := by
  have hchunk := chunk_pos size
  fun_induction bdlLoop a size off with
  | case1 off hlt ih =>
    rw [length_cons,Nat.add_mul,Nat.one_mul]
    by_cases hnext : off + chunk size ≤ size
    · omega
    · rw [bdlLoop_of_le (by omega),length_nil]
      omega
  | case2 off hge =>
    rw [length_nil]
    omega

theorem size_le_chunk : size ≤ hdaudioBdlMax * chunk size := by
  have h : size ≤ 256 * ((((size + 255) / 256) + 4095) / 4096 * 4096) := by omega
  exact h.trans (Nat.mul_le_mul_left _ (Nat.le_max_right ..))

theorem length_bdlLoop_le : (bdlLoop a size 0).length ≤ hdaudioBdlMax := by
  have hlen := @length_bdlLoop a size 0
  have hsize := @size_le_chunk size
  refine Nat.lt_succ_iff.1 (Nat.lt_of_mul_lt_mul_right (a := chunk size) ?_)
  rw [Nat.succ_mul]
  omega

theorem streamSetup_spec (h2 : 2 ≤ size) (hsize : size < 2 ^ 32) (ha : a + size ≤ 2 ^ 64) :
    Tiles (a + size) a (streamSetup a size) ∧ 2 ≤ (streamSetup a size).length ∧
      (streamSetup a size).length ≤ hdaudioBdlMax := by
  have htiles : Tiles (a + size) (a + min 0 size) (bdlLoop a size 0) := bdlLoop_tiles hsize ha
  have hlen : (bdlLoop a size 0).length ≤ hdaudioBdlMax := length_bdlLoop_le
  rw [Nat.zero_min,Nat.add_zero] at htiles
  unfold streamSetup
  generalize bdlLoop a size 0 = l at htiles hlen
  match l with
  | [] =>
    have h : a = a + size := htiles
    omega
  | [e] =>
    obtain ⟨haddr,hpos,hflags,-⟩ := htiles
    refine ⟨⟨haddr,?_,rfl,?_,?_,hflags,?_⟩,Nat.le_refl 2,?_⟩
    · show 0 < size / 2 % 2 ^ 32
      omega
    · rw [address_bdlEntry (by omega)]
      show a + size / 2 = a + size / 2 % 2 ^ 32
      omega
    · show 0 < (size - size / 2) % 2 ^ 32
      omega
    · show a + size / 2 % 2 ^ 32 + (size - size / 2) % 2 ^ 32 = a + size
      omega
    · show 2 ≤ 256
      decide
  | e :: f :: l => exact ⟨htiles,by simp only [length_cons]; omega,hlen⟩

end Loop

section Tiling
variable {s t : ℕ} {l : List BdlEntry}

theorem Tiles.le (h : Tiles t s l) : s ≤ t := by
  induction l generalizing s with
  | nil => exact Nat.le_of_eq h
  | cons e l ih => exact (Nat.le_add_right ..).trans (ih h.2.2.2)

theorem Tiles.mem_bytes (h : Tiles t s l) (x : ℕ) : (∃ e ∈ l, x ∈ e.bytes) ↔ s ≤ x ∧ x < t := by
  induction l generalizing s with
  | nil =>
    have hst : s = t := h
    refine iff_of_false (fun ⟨e,he,_⟩ => by cases he) (by omega)
  | cons e l ih =>
    obtain ⟨haddr,-,-,hl⟩ := h
    simp only [mem_cons,exists_eq_or_imp,ih hl]
    show e.address ≤ x ∧ x < e.address + e.length ∨ _ ↔ _
    have hle := hl.le
    omega

theorem Tiles.list (h : Tiles t s l) :
    (∀ e ∈ l, 0 < e.length) ∧ (l.IsChain fun e f => e.address + e.length = f.address) ∧
      (l.Pairwise fun e f => ∀ x ∈ e.bytes, x ∉ f.bytes) ∧
      (∀ e ∈ l.dropLast, e.flags = 0) ∧ ∀ e ∈ l.getLast?, e.flags = ioc := by
  induction l generalizing s with
  | nil => simp
  | cons e l ih =>
    obtain ⟨haddr,hpos,hflags,hl⟩ := h
    obtain ⟨ihpos,ihchain,ihdisj,ihdrop,ihlast⟩ := ih hl
    refine ⟨forall_mem_cons.2 ⟨hpos,ihpos⟩,?_,.cons (fun f hf x hxe hxf => ?_) ihdisj,?_⟩
    · cases l with
      | nil => exact .singleton e
      | cons f l => exact .cons_cons (by rw [haddr,hl.1]) ihchain
    · have hx := (hl.mem_bytes x).1 ⟨f,hf,hxf⟩
      have hxe : x < e.address + e.length := hxe.2
      omega
    · cases l with
      | nil => simpa using hflags
      | cons f l => exact ⟨forall_mem_cons.2 ⟨hflags,ihdrop⟩,ihlast⟩

end Tiling

theorem streamSetup_list (a size : ℕ) (h2 : 2 ≤ size) (hsize : size < 2 ^ 32)
    (ha : a + size ≤ 2 ^ 64) :
    2 ≤ (streamSetup a size).length ∧ (streamSetup a size).length ≤ hdaudioBdlMax ∧
      let l := streamSetup a size
      (∀ e ∈ l, 0 < e.length) ∧ (l.IsChain fun e f => e.address + e.length = f.address) ∧
      (l.Pairwise fun e f => ∀ x ∈ e.bytes, x ∉ f.bytes) ∧
      (∀ x, (∃ e ∈ l, x ∈ e.bytes) ↔ a ≤ x ∧ x < a + size) ∧
      (∀ e ∈ l.dropLast, e.flags = 0) ∧ ∀ e ∈ l.getLast?, e.flags = ioc := by
  obtain ⟨htiles,htwo,hmax⟩ := streamSetup_spec h2 hsize ha
  obtain ⟨hpos,hchain,hdisj,hflags⟩ := htiles.list
  exact ⟨htwo,hmax,hpos,hchain,hdisj,htiles.mem_bytes,hflags⟩

theorem streamSetup_list_page :
    let l := streamSetup 4096 4096
    2 ≤ l.length ∧ l.length ≤ hdaudioBdlMax ∧ (∀ e ∈ l, 0 < e.length) ∧
      (l.IsChain fun e f => e.address + e.length = f.address) ∧
      (l.Pairwise fun e f => ∀ x ∈ e.bytes, x ∉ f.bytes) ∧
      (∀ x, (∃ e ∈ l, x ∈ e.bytes) ↔ 4096 ≤ x ∧ x < 8192) ∧
      (∀ e ∈ l.dropLast, e.flags = 0) ∧ ∀ e ∈ l.getLast?, e.flags = ioc :=
  streamSetup_list 4096 4096 (by decide) (by decide) (by decide)

end NanoBSD.Sofdsp
