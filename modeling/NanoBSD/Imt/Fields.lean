import Mathlib.Data.Nat.Bitwise

/-! # Writing the fields of a configuration report

The touchpad driver sets switches of a feature report in place. A field is a run of bits at
any position, so it can straddle bytes and share them with other fields.
-/
namespace NanoBSD.Imt
open Function

structure HidLocation where
  pos : ℕ
  size : ℕ

def HidLocation.bit (loc : HidLocation) (i : ℕ) : ℕ := (loc.pos + i) % 2 ^ 32
abbrev Report := ℕ → BitVec 8
def Report.bit (buf : Report) (b : ℕ) : Bool := (buf (b / 8)).getLsbD (b % 8)

def putBit (loc : HidLocation) (val : BitVec 64) (buf : Report) (i : ℕ) : Report :=
  let byte := buf (loc.bit i / 8)
  let mask := BitVec.twoPow 8 (loc.bit i % 8)
  update buf (loc.bit i / 8)
    (if val &&& BitVec.twoPow 64 i ≠ 0 then byte ||| mask else byte &&& ~~~mask)

def imtPutUdata (buf : Report) (loc : HidLocation) (val : BitVec 64) : Report :=
  if loc.size = 0 ∨ 32 < loc.size then buf
  else (List.range loc.size).foldl (putBit loc val) buf

/-- `imt_set_fields` up to the report it sends; `none` outside is `EINVAL`. `read` is the report
from the device. -/
def imtSetFields (len : ℤ) (read : Option Report) (loc1 : Option HidLocation) (val1 : BitVec 64)
    (loc2 : Option HidLocation) (val2 : BitVec 64) (complete : Bool) : Option (Option Report) :=
  if len ≤ 0 ∨ 32 < len then none
  else if read.isNone ∧ complete = false then some none
  else
    let rep := read.getD fun _ => 0
    let rep := loc1.elim rep fun loc => imtPutUdata rep loc val1
    some (some (loc2.elim rep fun loc => imtPutUdata rep loc val2))

def HidLocation.Has (loc : HidLocation) (b : ℕ) : Prop := ∃ i < loc.size, loc.bit i = b

section Bits
variable {loc loc1 loc2 : HidLocation} {val val1 val2 : BitVec 64} {buf : Report} {n : ℕ}

theorem has_iff (hfit : loc.pos + loc.size ≤ 2 ^ 32) (b : ℕ) :
    loc.Has b ↔ loc.pos ≤ b ∧ b < loc.pos + loc.size := by
  unfold HidLocation.Has HidLocation.bit
  constructor
  · rintro ⟨i,hi,rfl⟩
    omega
  · rintro ⟨hle,hlt⟩
    exact ⟨b - loc.pos,by omega,by omega⟩

theorem Report.ext_bit {buf' : Report} (h : ∀ b, buf.bit b = buf'.bit b) : buf = buf' := by
  funext k
  refine BitVec.eq_of_getLsbD_eq fun j hj => ?_
  have hbit := h (8 * k + j)
  unfold Report.bit at hbit
  rwa [show (8 * k + j) / 8 = k by omega,show (8 * k + j) % 8 = j by omega] at hbit

theorem and_twoPow_ne_zero {i : ℕ} (hi : i < 64) :
    val &&& BitVec.twoPow 64 i ≠ 0 ↔ val.getLsbD i = true := by
  rw [BitVec.and_twoPow]
  split_ifs with h
  · refine iff_of_true (fun h0 => ?_) h
    have hbit := congrArg (fun v => v.getLsbD i) h0
    simp [hi] at hbit
  · exact iff_of_false (fun hne => hne rfl) h

theorem bit_putBit {i : ℕ} (hi : i < 64) (b : ℕ) :
    (putBit loc val buf i).bit b = if b = loc.bit i then val.getLsbD i else buf.bit b := by
  unfold putBit Report.bit
  dsimp only
  by_cases hbyte : b / 8 = loc.bit i / 8
  · have hb : b = loc.bit i ↔ b % 8 = loc.bit i % 8 := by omega
    rw [hbyte,update_self]
    simp only [hb,and_twoPow_ne_zero hi]
    split_ifs with hval hmod hmod <;> simp [hval,hmod,Nat.mod_lt]
  · rw [update_of_ne hbyte,if_neg fun h => hbyte (congrArg (· / 8) h)]

theorem bit_foldl (hn : n ≤ 32) :
    (∀ i < n, ((List.range n).foldl (putBit loc val) buf).bit (loc.bit i) = val.getLsbD i) ∧
      ∀ b, (∀ i < n, loc.bit i ≠ b) →
        ((List.range n).foldl (putBit loc val) buf).bit b = buf.bit b := by
  induction n with
  | zero => exact ⟨fun i hi => absurd hi (Nat.not_lt_zero i),fun b _ => rfl⟩
  | succ n ih =>
    obtain ⟨hset,hkept⟩ := ih (by omega)
    rw [List.range_succ,List.foldl_append,List.foldl_cons,List.foldl_nil]
    refine ⟨fun i hi => ?_,fun b hb => ?_⟩
    · rw [bit_putBit (by omega)]
      split_ifs with heq
      · -- within 32 bits no position comes up twice
        have hin : i = n := by
          unfold HidLocation.bit at heq
          omega
        rw [hin]
      · refine hset i (Nat.lt_of_le_of_ne (Nat.lt_succ_iff.1 hi) fun h => heq ?_)
        rw [h]
    · rw [bit_putBit (by omega),if_neg fun h => hb n n.lt_succ_self h.symm]
      exact hkept b fun i hi => hb i (by omega)

theorem imtPutUdata_eq (hpos : 1 ≤ loc.size) (hle : loc.size ≤ 32) :
    imtPutUdata buf loc val = (List.range loc.size).foldl (putBit loc val) buf :=
  if_neg (by omega)

theorem bit_of_has (hpos : 1 ≤ loc.size) (hle : loc.size ≤ 32) {i : ℕ} (hi : i < loc.size) :
    (imtPutUdata buf loc val).bit (loc.bit i) = val.getLsbD i := by
  rw [imtPutUdata_eq hpos hle]
  exact (bit_foldl hle).1 i hi

theorem bit_of_not_has (b : ℕ) (hb : ¬loc.Has b) : (imtPutUdata buf loc val).bit b = buf.bit b := by
  unfold imtPutUdata
  split_ifs with hsize
  · rfl
  · exact (bit_foldl (by omega)).2 b fun i hi h => hb ⟨i,hi,h⟩

theorem put_comm (h1 : 1 ≤ loc1.size ∧ loc1.size ≤ 32) (h2 : 1 ≤ loc2.size ∧ loc2.size ≤ 32)
    (hdis : ∀ b, ¬(loc1.Has b ∧ loc2.Has b)) :
    imtPutUdata (imtPutUdata buf loc1 val1) loc2 val2 =
      imtPutUdata (imtPutUdata buf loc2 val2) loc1 val1 := by
  refine Report.ext_bit fun b => ?_
  by_cases hb1 : loc1.Has b
  · rw [bit_of_not_has b fun hb2 => hdis b ⟨hb1,hb2⟩]
    obtain ⟨i,hi,rfl⟩ := hb1
    rw [bit_of_has h1.1 h1.2 hi,bit_of_has h1.1 h1.2 hi]
  · rw [bit_of_not_has b hb1]
    by_cases hb2 : loc2.Has b
    · obtain ⟨i,hi,rfl⟩ := hb2
      rw [bit_of_has h2.1 h2.2 hi,bit_of_has h2.1 h2.2 hi]
    · rw [bit_of_not_has b hb2,bit_of_not_has b hb2,bit_of_not_has b hb1]

end Bits

theorem imtPutUdata_field (buf : Report) (loc : HidLocation) (val : BitVec 64)
    (hpos : 1 ≤ loc.size) (hle : loc.size ≤ 32) :
    (∀ i < loc.size, (imtPutUdata buf loc val).bit (loc.bit i) = val.getLsbD i) ∧
      (∀ b, ¬loc.Has b → (imtPutUdata buf loc val).bit b = buf.bit b) ∧
      (loc.pos + loc.size ≤ 2 ^ 32 → ∀ b, loc.Has b ↔ loc.pos ≤ b ∧ b < loc.pos + loc.size) ∧
      ∀ (len : ℤ) (read : Option Report) (loc' : HidLocation) (val' : BitVec 64) (complete : Bool),
        1 ≤ loc'.size → loc'.size ≤ 32 → (∀ b, ¬(loc.Has b ∧ loc'.Has b)) →
          imtSetFields len read (some loc) val (some loc') val' complete =
            imtSetFields len read (some loc') val' (some loc) val complete := by
  refine ⟨fun i hi => bit_of_has hpos hle hi,fun b hb => bit_of_not_has b hb,has_iff,?_⟩
  intro len read loc' val' complete hpos' hle' hdis
  unfold imtSetFields
  simp only [Option.elim_some,put_comm ⟨hpos,hle⟩ ⟨hpos',hle'⟩ hdis]

theorem imtPutUdata_field_nibbles :
    let loc : HidLocation := ⟨4,4⟩
    let buf : Report := fun _ => 0xff
    (∀ i < 4, (imtPutUdata buf loc 5).bit (loc.bit i) = (5 : BitVec 64).getLsbD i) ∧
      (∀ b, ¬loc.Has b → (imtPutUdata buf loc 5).bit b = buf.bit b) ∧
      (∀ b, loc.Has b ↔ 4 ≤ b ∧ b < 8) ∧
      imtSetFields 1 none (some loc) 5 (some ⟨0,4⟩) 3 true =
        imtSetFields 1 none (some ⟨0,4⟩) 3 (some loc) 5 true := by
  intro loc buf
  obtain ⟨hin,hout,hhas,hcomm⟩ := imtPutUdata_field buf loc 5 (by decide) (by decide)
  refine ⟨hin,hout,hhas (by decide),hcomm 1 none ⟨0,4⟩ 3 true (by decide) (by decide) fun b => ?_⟩
  rw [hhas (by decide),has_iff (by decide)]
  dsimp only [loc]
  omega

end NanoBSD.Imt
