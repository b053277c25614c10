import Mathlib.Data.List.Basic

/-! # Device configuration of the Bluetooth controller

After the firmware has booted, `ubt_intel_fwload` sends the entries of a configuration
file one by one. An entry is a length byte and that many bytes, and a command carries both.
The length of a command is again a byte, one more than that of the entry.
-/
namespace NanoBSD.Ubt
open List

/-- `ubt_intel_cmd`: what is sent for an opcode and the first `plen` bytes at `params`. -/
def ubtIntelCmd (opcode : ℕ) (params : List UInt8) (plen : UInt8) : List UInt8 :=
  .ofNat (opcode % 256) :: .ofNat (opcode / 256) :: plen :: params.take plen.toNat

def cmdWriteDdc : ℕ := 0xfc8b
def maxDdc : ℕ := 4096

/-- The loop over the file from an offset on; `ok k` tells whether command number `k` is taken. The
offset grows, so `fuel` bytes are enough. -/
def writeDdc (ok : ℕ → Bool) : (fuel k : ℕ) → List UInt8 → List (List UInt8)
  | fuel + 1, k, len :: body =>
    if body.length < len.toNat then []
    else ubtIntelCmd cmdWriteDdc (len :: body) (1 + len) ::
      if ok k then writeDdc ok fuel (k + 1) (body.drop len.toNat) else []
  | _, _, _ => []

/-- The commands that `ubt_intel_fwload` sends for a file. -/
def ddcCommands (ok : ℕ → Bool) (ddc : List UInt8) : List (List UInt8) :=
  if 0 < ddc.length ∧ ddc.length ≤ maxDdc then writeDdc ok ddc.length 0 ddc else []

/-! ## Files as lists of entries -/

def entry (e : List UInt8) : List UInt8 := .ofNat e.length :: e
def sent (e : List UInt8) : List UInt8 := ubtIntelCmd cmdWriteDdc (entry e) (1 + .ofNat e.length)
def command (e : List UInt8) : List UInt8 := 0x8b :: 0xfc :: .ofNat (e.length + 1) :: entry e

def upTo (ok : ℕ → Bool) : ℕ → List (List UInt8) → List (List UInt8)
  | _, [] => []
  | k, e :: es => e :: if ok k then upTo ok (k + 1) es else []

theorem mem_of_mem_upTo {ok : ℕ → Bool} {k : ℕ} {es : List (List UInt8)} {e : List UInt8}
    (h : e ∈ upTo ok k es) : e ∈ es := by
  induction es generalizing k with
  | nil => exact h
  | cons e' es ih =>
    rw [upTo] at h
    rcases mem_cons.mp h with rfl | h
    · exact mem_cons_self
    · split_ifs at h
      · exact mem_cons_of_mem _ (ih h)
      · cases h

/-- A file: entries, and at the end nothing or an entry that runs past the end. -/
structure Holds (ddc : List UInt8) (es : List (List UInt8)) (tail : List UInt8) : Prop where
  bytes : ddc = es.flatMap entry ++ tail
  short : ∀ e ∈ es, e.length < 256
  past : ∀ len rest, tail = len :: rest → rest.length < len.toNat

theorem exists_holds (ddc : List UInt8) : ∃ es tail, Holds ddc es tail := by
  -- by the number of bytes that are left
  generalize hn : ddc.length = n
  induction n using Nat.strongRecOn generalizing ddc with
  | ind n ih =>
    cases ddc with
    | nil => exact ⟨[],[],rfl,by simp,by simp⟩
    | cons len body =>
      by_cases hpast : body.length < len.toNat
      · refine ⟨[],len :: body,rfl,by simp,fun len' rest heq => ?_⟩
        cases heq
        exact hpast
      · obtain ⟨es,tail,hrest⟩ := ih (body.drop len.toNat).length
          (by rw [← hn,length_drop,length_cons]; omega) _ rfl
        have hlen : (body.take len.toNat).length = len.toNat := by
          rw [length_take]
          omega
        refine ⟨body.take len.toNat :: es,tail,?_,fun e he => ?_,hrest.past⟩
        · rw [flatMap_cons,append_assoc,← hrest.bytes,entry,hlen,UInt8.ofNat_toNat,
            cons_append,take_append_drop]
        · rcases mem_cons.mp he with rfl | he
          · rw [hlen]
            exact len.toNat_lt
          · exact hrest.short e he

theorem plen_eq (n : ℕ) : (1 + UInt8.ofNat n) = .ofNat (n + 1) := by
  rw [UInt8.add_comm]
  exact (UInt8.ofNat_add ..).symm

theorem ubtIntelCmd_entry (e rest : List UInt8) :
    ubtIntelCmd cmdWriteDdc (entry e ++ rest) (1 + .ofNat e.length) = sent e := by
  unfold sent ubtIntelCmd
  rw [take_append_of_le_length]
  rw [plen_eq,UInt8.toNat_ofNat',entry,length_cons]
  exact Nat.mod_le _ _

theorem sent_eq_command_iff {e : List UInt8} (h : e.length < 256) :
    sent e = command e ↔ e.length ≠ 255 := by
  have htake : (UInt8.ofNat (e.length + 1)).toNat = (e.length + 1) % 256 := UInt8.toNat_ofNat'
  unfold sent ubtIntelCmd command
  rw [plen_eq,htake]
  constructor
  · intro heq h255
    rw [h255] at heq
    simp [entry] at heq
  · intro hne
    have hall : (e.length + 1) % 256 = (entry e).length := Nat.mod_eq_of_lt (by omega)
    rw [hall,take_length]
    rfl

theorem writeDdc_eq {ok : ℕ → Bool} {es : List (List UInt8)} {ddc tail : List UInt8} {fuel k : ℕ}
    (h : Holds ddc es tail) (hfuel : ddc.length ≤ fuel) :
    writeDdc ok fuel k ddc = (upTo ok k es).map sent := by
  induction es generalizing ddc fuel k with
  | nil =>
    obtain rfl : ddc = tail := h.bytes
    cases fuel with
    | zero => rfl
    | succ fuel =>
      cases ddc with
      | nil => rfl
      | cons len body => exact if_pos (h.past len body rfl)
  | cons e es ih =>
    have htoNat : (UInt8.ofNat e.length).toNat = e.length := by
      rw [UInt8.toNat_ofNat',Nat.mod_eq_of_lt (h.short e mem_cons_self)]
    have hbytes : ddc = .ofNat e.length :: (e ++ (es.flatMap entry ++ tail)) := by
      rw [h.bytes,flatMap_cons,append_assoc,entry,cons_append]
    have hrest : Holds (es.flatMap entry ++ tail) es tail :=
      ⟨rfl,fun e' he' => h.short e' (mem_cons_of_mem _ he'),h.past⟩
    cases fuel with
    | zero => simp [hbytes] at hfuel
    | succ fuel =>
      rw [hbytes,length_cons,length_append] at hfuel
      rw [hbytes,writeDdc,htoNat,if_neg (by rw [length_append]; omega),drop_left,upTo,
        map_cons]
      congr 1
      · exact ubtIntelCmd_entry e _
      · split_ifs with hok
        · exact ih hrest (by omega)
        · rfl

/-- A file is a list of entries and perhaps a broken one, and the commands are these, up to the
first refused, just if none of them has 255 bytes. -/
theorem ddcCommands_exact (ok : ℕ → Bool) (ddc : List UInt8) (hsize : ddc.length ≤ maxDdc) :
    (∃ es tail, Holds ddc es tail) ∧
    ∀ es tail, Holds ddc es tail →
      (ddcCommands ok ddc = (upTo ok 0 es).map command ↔ ∀ e ∈ upTo ok 0 es, e.length ≠ 255) := by
  refine ⟨exists_holds ddc,fun es tail h => ?_⟩
  have heq : ddcCommands ok ddc = (upTo ok 0 es).map sent := by
    have hall : writeDdc ok ddc.length 0 ddc = (upTo ok 0 es).map sent :=
      writeDdc_eq h (Nat.le_refl _)
    unfold ddcCommands
    split_ifs with hpos
    · exact hall
    · obtain rfl := length_eq_zero_iff.mp (by omega : ddc.length = 0)
      exact hall
  rw [heq,map_inj_left]
  exact forall₂_congr fun e he => sent_eq_command_iff (h.short e (mem_of_mem_upTo he))

theorem ddcCommands_exact_cut :
    ddcCommands (fun _ => true) [2,7,8,0,3,9] = [[0x8b,0xfc,3,2,7,8],[0x8b,0xfc,1,0]] :=
  ((ddcCommands_exact (fun _ => true) [2,7,8,0,3,9] (by decide)).2 [[7,8],[]] [3,9]
    ⟨rfl,by decide,by rintro _ _ ⟨⟩; decide⟩).mpr (by decide)

theorem longest_entry_dropped :
    Holds (entry (List.replicate 255 7)) [List.replicate 255 7] [] ∧
    ddcCommands (fun _ => true) (entry (List.replicate 255 7)) = [[0x8b,0xfc,0]] := by
  refine ⟨⟨?_,fun e he => ?_,nofun⟩,by decide +kernel⟩
  · rw [append_nil,flatMap_singleton]
  · rw [mem_singleton.mp he,length_replicate]
    decide

end NanoBSD.Ubt
