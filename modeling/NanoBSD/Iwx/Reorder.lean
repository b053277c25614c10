import NanoBSD.Lib.InOrder
import Mathlib.Algebra.Order.Group.Nat

/-! # The reorder buffer of a receive Block Ack session

`iwx_rx_reorder` and what it calls. A frame is named by the number the transmitter counted
up to, which the air carries modulo 4096, and by its place among the subframes of an A-MSDU.
What is handed to net80211 is kept in order in `up`; whether handing up a frame ends the
session is an input. Filters for frames that are not of the session are left out.
-/
namespace NanoBSD.Iwx
open NanoBSD Function List

structure Frame where
  num : ℕ
  sub : ℕ
  deriving DecidableEq, Repr

def Frame.sn (m : Frame) : ℕ := m.num % 4096
def IEEE80211_BA_MAX_WINSZ : ℕ := 64
def seqLt (a b : ℕ) : Bool := decide (2048 < (a + (4096 - b)) % 4096)

/-- `struct iwx_rxba_data` with its reorder buffer; `alive` while the BAID is valid. -/
structure RxBa where
  alive : Bool
  headSn : ℕ
  numStored : ℕ
  valid : Bool
  entries : ℕ → List Frame
  timer : Bool
  up : List Frame

def initReorderBuffer (ssn : ℕ) : RxBa := ⟨true,ssn,0,false,fun _ => [],false,[]⟩

def RxBa.clear (s : RxBa) : RxBa :=
  { s with alive := false, entries := fun _ => [], numStored := 0, timer := false }

section Code
variable (size : ℕ) (ends : Frame → Bool)

def rxFrame (m : Frame) (s : RxBa) : RxBa :=
  if ends m then RxBa.clear { s with up := s.up ++ [m] } else { s with up := s.up ++ [m] }

def handSlot (j : ℕ) : List Frame → RxBa → RxBa
  | [], s => s
  | m :: ms, s =>
    let s := rxFrame ends m
      { s with entries := Function.update s.entries j ms, numStored := s.numStored - 1 }
    if s.alive then handSlot j ms s else s

def releaseLoop (nssn : ℕ) : ℕ → ℕ → RxBa → RxBa
  | 0, _, s => s
  | fuel + 1, ssn, s =>
    if seqLt ssn nssn then
      let s := handSlot ends (ssn % size) (s.entries (ssn % size)) s
      if s.alive then releaseLoop nssn fuel ((ssn + 1) % 4096) s else s
    else s

/-- `iwx_release_frames`; the loop runs less than 2048 times. -/
def releaseFrames (nssn : ℕ) (s : RxBa) : RxBa :=
  let s := releaseLoop size ends nssn 2048 s.headSn s
  if s.alive then { s with headSn := nssn, timer := decide (s.numStored ≠ 0) } else s

def lastStored (s : RxBa) : Option ℕ :=
  (List.range size).foldl (fun last i =>
    if s.entries ((s.headSn + i) % size) ≠ [] then some i else last) none

/-- The interface is not shutting down; with `IWX_FLAG_SHUTDOWN` set nothing happens here. -/
def reorderTimerExpired (s : RxBa) : RxBa :=
  let s := { s with timer := false }
  if s.alive = true ∧ s.numStored ≠ 0 then
    match lastStored size s with
    | some last => releaseFrames size ends ((s.headSn + last + 1) % 4096) s
    | none => s
  else s

def rxFrameRelease (nssn : ℕ) (s : RxBa) : RxBa :=
  if s.alive then releaseFrames size ends nssn s else s

structure Desc where
  nssn : ℕ
  oldSn : Bool
  duplicate : Bool
  amsdu : Bool
  lastSubframe : Bool

def Desc.whole (d : Desc) : Bool := !d.amsdu || d.lastSubframe

def RxBa.store (m : Frame) (s : RxBa) : RxBa :=
  { s with entries := Function.update s.entries (m.sn % size) (s.entries (m.sn % size) ++ [m]),
           numStored := s.numStored + 1 }

/-- `iwx_rx_reorder` for a data frame that is neither a duplicate nor old. -/
def reorder (d : Desc) (m : Frame) (s : RxBa) : RxBa :=
  if s.numStored = 0 ∧ seqLt m.sn d.nssn then
    rxFrame ends m (if d.whole then { s with headSn := d.nssn } else s)
  else if s.numStored = 0 ∧ m.sn = s.headSn then
    rxFrame ends m (if d.whole then { s with headSn := (s.headSn + 1) % 4096 } else s)
  else if d.whole then releaseFrames size ends d.nssn (s.store size m)
  else { s.store size m with timer := true }

def rxReorder (d : Desc) (m : Frame) (s : RxBa) : RxBa :=
  if s.alive = false then s
  else if s.valid = false ∧ d.oldSn then rxFrame ends m s
  else if d.duplicate || d.oldSn then { s with valid := true }
  else reorder size ends d m { s with valid := true }

def rxBar (nssn : ℕ) (oldSn : Bool) (s : RxBa) : RxBa :=
  if s.alive = false then s
  else if s.valid = false ∧ oldSn then s
  else releaseFrames size ends nssn { s with valid := true }

end Code

/-! ## What is handed up stays in order -/

def Frame.Older (a b : Frame) : Prop := a.num < b.num ∨ a.num = b.num ∧ a.sub < b.sub
instance (a b : Frame) : Decidable (a.Older b) := inferInstanceAs (Decidable (_ ∨ _))

theorem seqLt_iff {a b : ℕ} (hab : a ≤ b + 2048) (hba : b < a + 2048) :
    seqLt (a % 4096) (b % 4096) = true ↔ a < b := by
  rw [seqLt,decide_eq_true_eq]
  omega

structure Live (size : ℕ) (s : RxBa) : Prop where
  alive : s.alive = true
  inOrder : InOrder Frame.Older s.up s.entries
  count : s.numStored = waiting s.entries size

structure Ended (s : RxBa) : Prop where
  alive : s.alive = false
  sorted : s.up.Pairwise Frame.Older

structure Handed (s t : RxBa) : Prop where
  entries : ∀ j, t.entries j = s.entries j ∨ t.entries j = []
  kept : ∀ j, ∀ f ∈ s.entries j, f ∈ t.entries j ∨ f ∈ t.up
  up : ∀ f ∈ s.up, f ∈ t.up

namespace Handed
variable {s t u : RxBa}

theorem refl (s : RxBa) : Handed s s :=
  ⟨fun _ => .inl rfl,fun _ _ hf => .inl hf,fun _ hf => hf⟩

theorem trans (h : Handed s t) (h' : Handed t u) : Handed s u where
  entries j := by
    rcases h'.entries j with h1 | h1
    · exact h1 ▸ h.entries j
    · exact .inr h1
  kept j f hf := by
    rcases h.kept j f hf with h1 | h1
    · exact h'.kept j f h1
    · exact .inr (h'.up f h1)
  up f hf := h'.up f (h.up f hf)

theorem mem (h : Handed s t) {j : ℕ} {f : Frame} (hf : f ∈ t.entries j) : f ∈ s.entries j := by
  rcases h.entries j with h1 | h1
  · exact h1 ▸ hf
  · simp [h1] at hf

end Handed

section Spec
variable {size : ℕ} (ends : Frame → Bool) {s : RxBa} {j lo b a : ℕ} {t : RxBa}

theorem rxFrame_cases (m : Frame) (s : RxBa) :
    (rxFrame ends m s).alive = false ∧ (rxFrame ends m s).up = s.up ++ [m] ∨
      rxFrame ends m s = { s with up := s.up ++ [m] } := by
  unfold rxFrame
  split
  · exact .inl ⟨rfl,rfl⟩
  · exact .inr rfl

theorem handSlot_spec (h : Live size s) (hj : j < size)
    (hmin : ∀ i, i ≠ j → ∀ f ∈ s.entries i, ∀ m ∈ s.entries j, m.Older f) :
    Ended (handSlot ends j (s.entries j) s) ∨
      Live size (handSlot ends j (s.entries j) s) ∧ Handed s (handSlot ends j (s.entries j) s) ∧
        (handSlot ends j (s.entries j) s).entries = update s.entries j [] := by
  generalize hl : s.entries j = l
  induction l generalizing s with
  | nil =>
    have hsame : update s.entries j [] = s.entries := by
      rw [← hl,update_eq_self]
    exact .inr ⟨h,Handed.refl s,hsame.symm⟩
  | cons m ms ih =>
    have hin := h.inOrder.hand hl fun i hi f hf => hmin i hi f hf m (by simp [hl])
    have hcount := waiting_update s.entries ms hj
    rw [hl,length_cons,← h.count] at hcount
    obtain ⟨hdead,hup⟩ | hgo := rxFrame_cases ends m
      { s with entries := update s.entries j ms, numStored := s.numStored - 1 }
    · left
      unfold handSlot
      dsimp only
      rw [if_neg (by simp [hdead])]
      exact ⟨hdead,hup ▸ hin.sorted⟩
    · unfold handSlot
      dsimp only
      rw [hgo,if_pos h.alive]
      have hslot : update s.entries j ms j = ms := update_self ..
      obtain hend | ⟨hlive,hh,hent⟩ := @ih { s with
          entries := update s.entries j ms, numStored := s.numStored - 1,
          up := s.up ++ [m] } ⟨h.alive,hin,by dsimp only; omega⟩
        (by
          intro i hi f hf m' hm'
          dsimp only at hf hm'
          rw [update_of_ne hi] at hf
          rw [hslot] at hm'
          exact hmin i hi f hf m' (by simp [hl,hm']))
        hslot
      · exact .inl hend
      · refine .inr ⟨hlive,⟨fun i => ?_,fun i f hf => ?_,fun f hf => hh.up f (by simp [hf])⟩,
          by rw [hent,update_idem]⟩
        · rw [hent,update_idem]
          by_cases hi : i = j
          · subst hi
            exact .inr (update_self ..)
          · exact .inl (update_of_ne hi ..)
        · by_cases hi : i = j
          · subst hi
            rw [hl] at hf
            rcases mem_cons.mp hf with rfl | hf
            · exact .inr (hh.up f (by simp))
            · exact hh.kept i f (by simpa using hf)
          · exact hh.kept i f (by simpa [update_of_ne hi] using hf)

/-- The slots hold numbers from `lo` on, less than a window apart. -/
def Within (size lo : ℕ) (entries : ℕ → List Frame) : Prop :=
  ∀ j, ∀ f ∈ entries j, f.num % size = j ∧ lo ≤ f.num ∧ f.num < lo + size

theorem eq_of_slot_eq {x y : ℕ} (h : x % size = y % size) (hx : lo ≤ x ∧ x < lo + size)
    (hy : lo ≤ y ∧ y < lo + size) : x = y := by
  rcases Nat.le_total x y with hle | hle
  · have hsub := Nat.sub_mod_eq_zero_of_mod_eq h.symm
    rw [Nat.mod_eq_of_lt (by omega)] at hsub
    omega
  · have hsub := Nat.sub_mod_eq_zero_of_mod_eq h
    rw [Nat.mod_eq_of_lt (by omega)] at hsub
    omega

theorem releaseLoop_spec (hdvd : size ∣ 4096) (hpos : 0 < size) {fuel : ℕ} (h : Live size s)
    (hwin : Within size a s.entries) (hab : a ≤ b) (hba : b < a + 2048) (hfuel : b ≤ a + fuel) :
    Ended (releaseLoop size ends (b % 4096) fuel (a % 4096) s) ∨
      Live size (releaseLoop size ends (b % 4096) fuel (a % 4096) s) ∧
      Handed s (releaseLoop size ends (b % 4096) fuel (a % 4096) s) ∧
      ∀ j, ∀ f ∈ (releaseLoop size ends (b % 4096) fuel (a % 4096) s).entries j, b ≤ f.num := by
  induction fuel generalizing s a with
  | zero =>
    obtain rfl : a = b := by omega
    exact .inr ⟨h,Handed.refl s,fun j f hf => (hwin j f hf).2.1⟩
  | succ fuel ih =>
    unfold releaseLoop
    by_cases hlt : a < b
    · rw [if_pos ((seqLt_iff (by omega) hba).mpr hlt),Nat.mod_mod_of_dvd a hdvd]
      dsimp only
      have hj : a % size < size := Nat.mod_lt a hpos
      -- A number of the slot of `a` within the window is `a` itself.
      have hslot : ∀ f ∈ s.entries (a % size), f.num = a := by
        intro f hf
        obtain ⟨hm,hin⟩ := hwin _ f hf
        exact eq_of_slot_eq hm hin ⟨Nat.le_refl a,by omega⟩
      have hmin : ∀ i, i ≠ a % size → ∀ f ∈ s.entries i, ∀ m ∈ s.entries (a % size), m.Older f := by
        intro i hi f hf m hm
        obtain ⟨hmod,hlo,-⟩ := hwin i f hf
        have hne : f.num ≠ a := fun he => hi (he ▸ hmod.symm)
        exact .inl (by rw [hslot m hm]; omega)
      obtain hend | ⟨hlive,hh,hent⟩ := handSlot_spec ends h hj hmin
      · rw [if_neg (by simp [hend.alive])]
        exact .inl hend
      · rw [if_pos hlive.alive,Nat.mod_add_mod]
        have hnext : Within size (a + 1)
            (handSlot ends (a % size) (s.entries (a % size)) s).entries := by
          intro j f hf
          obtain ⟨hm,hlo,hhi⟩ := hwin j f (hh.mem hf)
          have hne : f.num ≠ a := by
            rintro rfl
            rw [hent,← hm,update_self] at hf
            cases hf
          exact ⟨hm,by omega,by omega⟩
        obtain hend | ⟨hlive',hh',hge⟩ := ih hlive hnext (by omega) (by omega) (by omega)
        · exact .inl hend
        · exact .inr ⟨hlive',hh.trans hh',hge⟩
    · have hnot : seqLt (a % 4096) (b % 4096) ≠ true := by
        rw [ne_eq,seqLt_iff (by omega) hba]
        exact hlt
      rw [if_neg hnot]
      exact .inr ⟨h,Handed.refl s,fun j f hf => Nat.le_trans (by omega) (hwin j f hf).2.1⟩

theorem releaseLoop_single (hpos : 0 < size) (nssn fuel ssn : ℕ) (h : Live size s)
    (hone : ∀ i, i ≠ j → s.entries i = []) : Ended (releaseLoop size ends nssn fuel ssn s) ∨
      Live size (releaseLoop size ends nssn fuel ssn s) ∧
      Handed s (releaseLoop size ends nssn fuel ssn s) := by
  induction fuel generalizing s ssn with
  | zero => exact .inr ⟨h,Handed.refl s⟩
  | succ fuel ih =>
    unfold releaseLoop
    split
    · dsimp only
      have hmin : ∀ i, i ≠ ssn % size → ∀ f ∈ s.entries i, ∀ m ∈ s.entries (ssn % size),
          m.Older f := by
        intro i hi f hf m hm
        have hij : i = j := by
          by_contra hne
          simp [hone i hne] at hf
        have hsj : ssn % size = j := by
          by_contra hne
          simp [hone _ hne] at hm
        exact absurd (hij.trans hsj.symm) hi
      obtain hend | ⟨hlive,hh,-⟩ := handSlot_spec ends h (Nat.mod_lt ssn hpos) hmin
      · rw [if_neg (by simp [hend.alive])]
        exact .inl hend
      · rw [if_pos hlive.alive]
        obtain hend | ⟨hlive',hh'⟩ := ih ((ssn + 1) % 4096) hlive fun i hi => by
          rcases hh.entries i with he | he
          · exact he.trans (hone i hi)
          · exact he
        · exact .inl hend
        · exact .inr ⟨hlive',hh.trans hh'⟩
    · exact .inr ⟨h,Handed.refl s⟩

/-- Where a session is when frames before `b` are to be released: all stored is in the window from
the head, or of one number that stays. -/
def Ready (size b : ℕ) (s : RxBa) : Prop :=
  (∃ a, s.headSn = a % 4096 ∧ Within size a s.entries ∧ a ≤ b + 2048 ∧ b < a + 2048) ∨
    ∃ n, b ≤ n ∧ ∀ j, ∀ f ∈ s.entries j, f.num % size = j ∧ f.num = n

theorem releaseFrames_cases {nssn : ℕ} {P : RxBa → Prop}
    (hP : ∀ t : RxBa, P t → P { t with headSn := nssn, timer := decide (t.numStored ≠ 0) })
    (h : Ended (releaseLoop size ends nssn 2048 s.headSn s) ∨
      Live size (releaseLoop size ends nssn 2048 s.headSn s) ∧
        P (releaseLoop size ends nssn 2048 s.headSn s)) :
    Ended (releaseFrames size ends nssn s) ∨
      Live size (releaseFrames size ends nssn s) ∧ P (releaseFrames size ends nssn s) ∧
        (releaseFrames size ends nssn s).headSn = nssn := by
  unfold releaseFrames
  obtain hend | ⟨hlive,hp⟩ := h
  · left
    dsimp only
    rw [if_neg (by simp [hend.alive])]
    exact hend
  · right
    dsimp only
    rw [if_pos hlive.alive]
    exact ⟨⟨hlive.alive,hlive.inOrder,hlive.count⟩,hP _ hp,rfl⟩

theorem Handed.setHead (h : Handed s t) (head : ℕ) (timer : Bool) :
    Handed s { t with headSn := head, timer := timer } := ⟨h.entries,h.kept,h.up⟩

theorem releaseFrames_spec (hdvd : size ∣ 4096) (hpos : 0 < size) (h : Live size s)
    (hready : Ready size b s) : Ended (releaseFrames size ends (b % 4096) s) ∨
      Live size (releaseFrames size ends (b % 4096) s) ∧
      (Handed s (releaseFrames size ends (b % 4096) s) ∧
        ∀ j, ∀ f ∈ (releaseFrames size ends (b % 4096) s).entries j, b ≤ f.num) ∧
      (releaseFrames size ends (b % 4096) s).headSn = b % 4096 := by
  refine releaseFrames_cases ends (P := fun t => Handed s t ∧ ∀ j, ∀ f ∈ t.entries j, b ≤ f.num)
    (fun t ht => ⟨ht.1.setHead _ _,ht.2⟩) ?_
  rcases hready with ⟨a,hhead,hwin,hab,hba⟩ | ⟨n,hn,hone⟩
  · rw [hhead]
    rcases Nat.lt_or_ge b a with hlt | hge
    · have hnot : seqLt (a % 4096) (b % 4096) ≠ true := by
        rw [ne_eq,seqLt_iff hab hba]
        omega
      have hloop : releaseLoop size ends (b % 4096) 2048 (a % 4096) s = s := by
        rw [releaseLoop,if_neg hnot]
      rw [hloop]
      exact .inr ⟨h,Handed.refl s,fun j f hf =>
        Nat.le_trans (Nat.le_of_lt hlt) (hwin j f hf).2.1⟩
    · exact releaseLoop_spec ends hdvd hpos h hwin hge hba (by omega)
  · have hslots : ∀ i, i ≠ n % size → s.entries i = [] := by
      intro i hi
      by_contra hne
      obtain ⟨f,hf⟩ := exists_mem_of_ne_nil _ hne
      obtain ⟨hmod,hnum⟩ := hone i f hf
      exact hi (hnum ▸ hmod.symm)
    obtain hend | ⟨hlive,hh⟩ := releaseLoop_single ends hpos (b % 4096) 2048 s.headSn h hslots
    · exact .inl hend
    · exact .inr ⟨hlive,hh,fun j f hf => hn.trans_eq (hone j f (hh.mem hf)).2.symm⟩

/-! ## The gap timer -/

section Last
variable {p : ℕ → Prop} [DecidablePred p]

theorem last_spec (n : ℕ) :
    match (List.range n).foldl (fun last i => if p i then some i else last) none with
    | some l => l < n ∧ p l ∧ ∀ i < n, p i → i ≤ l
    | none => ∀ i < n, ¬p i := by
  induction n with
  | zero => simp
  | succ n ih =>
    rw [range_succ,foldl_append,foldl_cons,foldl_nil]
    by_cases hn : p n
    · rw [if_pos hn]
      exact ⟨Nat.lt_succ_self n,hn,fun i hi _ => Nat.le_of_lt_succ hi⟩
    · rw [if_neg hn]
      split at ih
      · obtain ⟨hl,hpl,hmax⟩ := ih
        refine ⟨Nat.lt_succ_of_lt hl,hpl,fun i hi hpi => ?_⟩
        rcases Nat.lt_succ_iff_lt_or_eq.mp hi with hi | rfl
        · exact hmax i hi hpi
        · exact absurd hpi hn
      · intro i hi
        rcases Nat.lt_succ_iff_lt_or_eq.mp hi with hi | rfl
        · exact ih i hi
        · exact hn

end Last

/-- Seen from a head before everything stored, the last slot in use holds the youngest frame. -/
theorem lastStored_spec (hdvd : size ∣ 4096) (hhead : s.headSn = a % 4096)
    (hwin : Within size a s.entries) :
    match lastStored size s with
    | some l => l < size ∧ (∃ j, ∃ f ∈ s.entries j, f.num = a + l) ∧
        ∀ j, ∀ f ∈ s.entries j, f.num ≤ a + l
    | none => ∀ j, s.entries j = [] := by
  have hslot : ∀ i, (s.headSn + i) % size = (a + i) % size := by
    intro i
    rw [hhead,Nat.add_mod,Nat.mod_mod_of_dvd a hdvd,← Nat.add_mod]
  have hfind : ∀ j, ∀ f ∈ s.entries j, f.num - a < size ∧
      s.entries ((s.headSn + (f.num - a)) % size) ≠ [] := by
    intro j f hf
    obtain ⟨hm,hlo,hhi⟩ := hwin j f hf
    refine ⟨by omega,?_⟩
    rw [hslot,Nat.add_sub_cancel' hlo,hm]
    exact ne_nil_of_mem hf
  have hlast := last_spec (p := fun i => s.entries ((s.headSn + i) % size) ≠ []) size
  unfold lastStored
  split at hlast
  · obtain ⟨hl,hne,hmax⟩ := hlast
    refine ⟨hl,?_,fun j f hf => ?_⟩
    · obtain ⟨f,hf⟩ := exists_mem_of_ne_nil _ hne
      obtain ⟨hm,hin⟩ := hwin _ f hf
      rw [hslot] at hm
      exact ⟨_,f,hf,eq_of_slot_eq hm hin ⟨by omega,by omega⟩⟩
    · have := hmax _ (hfind j f hf).1 (hfind j f hf).2
      omega
  · intro j
    by_contra hne
    obtain ⟨f,hf⟩ := exists_mem_of_ne_nil _ hne
    exact hlast _ (hfind j f hf).1 (hfind j f hf).2

theorem Live.empty (h : Live size s) (hpos : 0 < size)
    (hslots : ∀ j, ∀ f ∈ s.entries j, f.num % size = j) (h0 : s.numStored = 0) (j : ℕ) :
    s.entries j = [] := by
  by_contra hne
  obtain ⟨f,hf⟩ := exists_mem_of_ne_nil _ hne
  have hz := waiting_eq_zero.mp (h.count.symm.trans h0) (f.num % size) (Nat.mod_lt _ hpos)
  rw [hslots j f hf] at hz
  exact hne hz

theorem Live.setTimer (h : Live size s) (timer : Bool) : Live size { s with timer := timer } :=
  ⟨h.alive,h.inOrder,h.count⟩

theorem Handed.ofTimer (h : Handed { s with timer := false } t) : Handed s t :=
  ⟨h.entries,h.kept,h.up⟩

theorem timer_spec (hdvd : size ∣ 4096) (hpos : 0 < size) (hsz : size ≤ 64) (h : Live size s)
    (hhead : s.headSn = a % 4096) (hwin : Within size a s.entries) :
    Ended (reorderTimerExpired size ends s) ∨
      Live size (reorderTimerExpired size ends s) ∧ Handed s (reorderTimerExpired size ends s) ∧
      (∀ j, (reorderTimerExpired size ends s).entries j = []) ∧
      ((reorderTimerExpired size ends s).headSn = a % 4096 ∨
        ∃ j, ∃ d ∈ s.entries j, d ∈ (reorderTimerExpired size ends s).up ∧
          (reorderTimerExpired size ends s).headSn = (d.num + 1) % 4096) := by
  have hlive := h.setTimer false
  have hlast := lastStored_spec (s := { s with timer := false }) hdvd hhead hwin
  unfold reorderTimerExpired
  dsimp only
  by_cases h0 : s.numStored = 0
  · have hempty := h.empty hpos (fun j f hf => (hwin j f hf).1) h0
    rw [if_neg (by simp [h0])]
    exact .inr ⟨hlive,(Handed.refl _).ofTimer,hempty,.inl hhead⟩
  · rw [if_pos ⟨h.alive,h0⟩]
    split
    · rename_i l heq
      rw [heq] at hlast
      obtain ⟨hl,⟨j,f,hf,hfnum⟩,hmax⟩ := hlast
      have hb : (s.headSn + l + 1) % 4096 = (a + l + 1) % 4096 := by
        rw [hhead]
        omega
      rw [hb]
      obtain hend | ⟨hlive',⟨hh,hge⟩,hhd⟩ := releaseFrames_spec ends hdvd hpos
        (b := a + l + 1) hlive (.inl ⟨a,hhead,hwin,by omega,by omega⟩)
      · exact .inl hend
      · have hnone : ∀ i, (releaseFrames size ends ((a + l + 1) % 4096)
            { s with timer := false }).entries i = [] := by
          intro i
          by_contra hne
          obtain ⟨g,hg⟩ := exists_mem_of_ne_nil _ hne
          have hold := hmax i g (hh.mem hg)
          have := hge i g hg
          omega
        have hup := hh.kept j f hf
        rw [hnone] at hup
        refine .inr ⟨hlive',hh.ofTimer,hnone,.inr ⟨j,f,hf,?_,?_⟩⟩
        · exact hup.resolve_left not_mem_nil
        · rw [hhd,hfnum]
    · rename_i heq
      rw [heq] at hlast
      exact absurd (h.count.trans (waiting_eq_zero.mpr fun j _ => hlast j)) h0

theorem timer_single (hpos : 0 < size) (h : Live size s) (hone : ∀ i, i ≠ j → s.entries i = []) :
    Ended (reorderTimerExpired size ends s) ∨
      Live size (reorderTimerExpired size ends s) ∧ Handed s (reorderTimerExpired size ends s) := by
  have hlive := h.setTimer false
  unfold reorderTimerExpired
  dsimp only
  split
  · split
    · obtain hend | ⟨hlive',hh,-⟩ := releaseFrames_cases ends (P := Handed { s with timer := false })
        (fun t ht => ht.setHead _ _) (releaseLoop_single ends hpos _ _ _ hlive hone)
      · exact .inl hend
      · exact .inr ⟨hlive',hh.ofTimer⟩
    · exact .inr ⟨hlive,(Handed.refl _).ofTimer⟩
  · exact .inr ⟨hlive,(Handed.refl _).ofTimer⟩

/-! ## A new frame -/

/-- The head while the frames of number `n` come in, with a window at `base` before them and at `w`
since: before everything stored; or the timer has passed `n`, and only its frames are stored. -/
def Place (size base w n : ℕ) (s : RxBa) : Prop :=
  (∃ a, s.headSn = a % 4096 ∧ base ≤ a ∧ a ≤ base + size ∧ (∀ j, ∀ f ∈ s.entries j, a ≤ f.num) ∧
      (a ≤ n ∨ ∀ j, s.entries j = [])) ∨
    w ≤ n ∧ ∀ j, ∀ f ∈ s.entries j, f.num = n

structure Incoming (size base w : ℕ) (m : Frame) (s : RxBa) : Prop where
  live : Live size s
  slots : Within size base s.entries
  lower : base ≤ w
  upper : w ≤ base + size
  window : base ≤ m.num ∧ m.num < base + size
  late : ∀ d ∈ s.up, d.Older m
  subs : ∀ j, ∀ f ∈ s.entries j, f.num = m.num → f.sub < m.sub
  place : Place size base w m.num s

/-- Between frames the head is before everything stored, and is the start `w` of the window or right
after a frame handed up. -/
structure AtRest (size w : ℕ) (s : RxBa) : Prop where
  live : Live size s
  slots : Within size w s.entries
  head : ∃ a, s.headSn = a % 4096 ∧ w ≤ a ∧ a ≤ w + size ∧ (∀ j, ∀ f ∈ s.entries j, a ≤ f.num) ∧
    (a = w ∨ ∃ d ∈ s.up, d.num + 1 = a)

variable {base w : ℕ} {m : Frame}

theorem rxFrame_spec (h : Incoming size base w m s) (hempty : ∀ j, s.entries j = []) (head : ℕ) :
    Ended (rxFrame ends m { s with headSn := head }) ∨
      rxFrame ends m { s with headSn := head } = { s with headSn := head, up := s.up ++ [m] } ∧
      Live size { s with headSn := head, up := s.up ++ [m] } := by
  have hpass := h.live.inOrder.pass h.late hempty
  obtain ⟨hdead,hup⟩ | hgo := rxFrame_cases ends m { s with headSn := head }
  · exact .inl ⟨hdead,hup ▸ hpass.sorted⟩
  · exact .inr ⟨hgo,h.live.alive,hpass,h.live.count⟩

theorem within_of_empty {entries : ℕ → List Frame} (h : ∀ j, entries j = []) :
    Within size lo entries := fun j f hf => by simp [h j] at hf

theorem mem_store (hdvd : size ∣ 4096) {f : Frame} (hf : f ∈ (s.store size m).entries j) :
    f ∈ s.entries j ∨ f = m ∧ m.num % size = j := by
  simp only [RxBa.store,Frame.sn,Nat.mod_mod_of_dvd m.num hdvd] at hf
  by_cases hj : j = m.num % size
  · subst hj
    rw [update_self,mem_append,mem_singleton] at hf
    exact hf.imp_right fun h => ⟨h,rfl⟩
  · rw [update_of_ne hj] at hf
    exact .inl hf

theorem ready_of_place (hpos : 0 < size) (hsz : size ≤ 64) (hlow : base ≤ w) (hup : w ≤ base + size)
    (hslots : Within size base s.entries) (h : Place size base w m.num s) : Ready size w s := by
  rcases h with ⟨a,hhead,hlo,hhi,hmin,-⟩ | ⟨hw,hone⟩
  · refine .inl ⟨a,hhead,fun j f hf => ?_,by omega,by omega⟩
    obtain ⟨hm,hin⟩ := hslots j f hf
    exact ⟨hm,hmin j f hf,by omega⟩
  · exact .inr ⟨m.num,hw,fun j f hf => ⟨(hslots j f hf).1,hone j f hf⟩⟩

theorem store_place (hdvd : size ∣ 4096) (h : Incoming size base w m s)
    (hnot : s.numStored = 0 → w ≤ m.num) :
    Place size base w m.num (s.store size m) := by
  rcases h.place with ⟨a,hhead,hlo,hhi,hmin,hcur⟩ | ⟨hw,hone⟩
  · by_cases ha : a ≤ m.num
    · refine .inl ⟨a,hhead,hlo,hhi,fun j f hf => ?_,.inl ha⟩
      rcases mem_store hdvd hf with hf | ⟨rfl,-⟩
      · exact hmin j f hf
      · exact ha
    · have hempty := hcur.resolve_left ha
      have h0 : s.numStored = 0 := h.live.count.trans (waiting_eq_zero.mpr fun j _ => hempty j)
      refine .inr ⟨hnot h0,fun j f hf => ?_⟩
      rcases mem_store hdvd hf with hf | ⟨rfl,-⟩
      · simp [hempty j] at hf
      · rfl
  · refine .inr ⟨hw,fun j f hf => ?_⟩
    rcases mem_store hdvd hf with hf | ⟨rfl,-⟩
    · exact hone j f hf
    · rfl

section Store
variable (hdvd : size ∣ 4096) (hpos : 0 < size)
include hdvd hpos

theorem store_live (h : Incoming size base w m s) :
    Live size (s.store size m) ∧ Within size base (s.store size m).entries := by
  constructor
  · refine ⟨h.live.alive,h.live.inOrder.store h.late fun g hg => ?_,?_⟩
    · rw [Frame.sn,Nat.mod_mod_of_dvd m.num hdvd] at hg
      obtain ⟨hm,hin⟩ := h.slots _ g hg
      have hnum := eq_of_slot_eq hm hin h.window
      exact .inr ⟨hnum,h.subs _ g hg hnum⟩
    · have hlt : m.sn % size < size := Nat.mod_lt _ hpos
      have hc := waiting_update s.entries (s.entries (m.sn % size) ++ [m]) hlt
      have hcount := h.live.count
      rw [length_append,length_singleton] at hc
      simp only [RxBa.store]
      omega
  · intro j f hf
    rcases mem_store hdvd hf with hf | ⟨rfl,hj⟩
    · exact h.slots j f hf
    · exact ⟨hj,h.window⟩

theorem release_rest (hready : Ready size w s) (hlive : Live size s)
    (hslots : Within size base s.entries) (hlow : base ≤ w) :
    Ended (releaseFrames size ends (w % 4096) s) ∨
      AtRest size w (releaseFrames size ends (w % 4096) s) ∧
      ∀ j, ∀ f ∈ (releaseFrames size ends (w % 4096) s).entries j, f ∈ s.entries j := by
  obtain hend | ⟨hlive',⟨hh,hge⟩,hhead⟩ := releaseFrames_spec ends hdvd hpos hlive hready
  · exact .inl hend
  · refine .inr ⟨⟨hlive',fun j f hf => ?_,w,hhead,Nat.le_refl w,Nat.le_add_right w size,hge,
      .inl rfl⟩,fun j f hf => hh.mem hf⟩
    obtain ⟨hm,hin⟩ := hslots j f (hh.mem hf)
    exact ⟨hm,hge j f hf,by omega⟩

end Store

theorem seqLt_nssn (hpos : 0 < size) (hsz : size ≤ 64) {d : Desc} (hnssn : d.nssn = w % 4096)
    (h : Incoming size base w m s) : seqLt m.sn d.nssn = true ↔ m.num < w := by
  obtain ⟨hlo,hhi⟩ := h.window
  have := h.lower
  have := h.upper
  rw [hnssn]
  exact seqLt_iff (by omega) (by omega)

theorem le_of_not_passed {nssn : ℕ} (hlt : seqLt m.sn nssn = true ↔ m.num < w)
    (h : ¬(s.numStored = 0 ∧ seqLt m.sn nssn = true)) (h0 : s.numStored = 0) : w ≤ m.num := by
  rw [← Nat.not_lt,← hlt]
  exact fun hs => h ⟨h0,hs⟩

section Reorder
variable (hdvd : size ∣ 4096) (hpos : 0 < size) (hsz : size ≤ 64) {d : Desc}
  (hnssn : d.nssn = w % 4096)
include hdvd hpos hsz hnssn

theorem reorder_whole (h : Incoming size base w m s) (hwhole : d.whole = true) :
    Ended (reorder size ends d m s) ∨ AtRest size w (reorder size ends d m s) ∧
      ∀ j, ∀ f ∈ (reorder size ends d m s).entries j, f ∈ s.entries j ∨ f = m := by
  have hlt := seqLt_nssn hpos hsz hnssn h
  have hempty := h.live.empty hpos fun j f hf => (h.slots j f hf).1
  obtain ⟨hlo,hhi⟩ := h.window
  unfold reorder
  rw [if_pos hwhole,if_pos hwhole,if_pos hwhole]
  by_cases h1 : s.numStored = 0 ∧ seqLt m.sn d.nssn = true
  · rw [if_pos h1]
    obtain hend | ⟨hgo,hlive⟩ := rxFrame_spec ends h (hempty h1.1) d.nssn
    · exact .inl hend
    · rw [hgo]
      refine .inr ⟨⟨hlive,within_of_empty (hempty h1.1),w,hnssn,Nat.le_refl w,
        Nat.le_add_right w size,?_,.inl rfl⟩,fun j f hf => .inl hf⟩
      intro j f hf
      simp [hempty h1.1 j] at hf
  · rw [if_neg h1]
    have hle := le_of_not_passed hlt h1
    by_cases h2 : s.numStored = 0 ∧ m.sn = s.headSn
    · rw [if_pos h2]
      obtain hend | ⟨hgo,hlive⟩ := rxFrame_spec ends h (hempty h2.1)
        ((s.headSn + 1) % 4096)
      · exact .inl hend
      · rw [hgo]
        have hw := hle h2.1
        have hup := h.upper
        have hlow := h.lower
        refine .inr ⟨⟨hlive,within_of_empty (hempty h2.1),m.num + 1,?_,by omega,by omega,?_,
          .inr ⟨m,by simp,rfl⟩⟩,fun j f hf => .inl hf⟩
        · dsimp only
          rw [← h2.2,Frame.sn,Nat.mod_add_mod]
        · intro j f hf
          simp [hempty h2.1 j] at hf
    · rw [if_neg h2,hnssn]
      obtain ⟨hlive,hslots⟩ := store_live hdvd hpos h
      have hready := ready_of_place (m := m) hpos hsz h.lower h.upper hslots
        (store_place hdvd h hle)
      obtain hend | ⟨hrest,hsub⟩ := release_rest ends hdvd hpos hready hlive hslots h.lower
      · exact .inl hend
      · refine .inr ⟨hrest,fun j f hf => ?_⟩
        exact (mem_store hdvd (hsub j f hf)).imp_right And.left

theorem reorder_part (h : Incoming size base w m s) (hpart : d.whole = false) :
    Ended (reorder size ends d m s) ∨
      (Live size (reorder size ends d m s) ∧ Within size base (reorder size ends d m s).entries ∧
        Place size base w m.num (reorder size ends d m s)) ∧
      ∀ j, ∀ f ∈ (reorder size ends d m s).entries j, f ∈ s.entries j ∨ f = m := by
  have hlt := seqLt_nssn hpos hsz hnssn h
  have hempty := h.live.empty hpos fun j f hf => (h.slots j f hf).1
  have hnot : ¬d.whole = true := by simp [hpart]
  unfold reorder
  rw [if_neg hnot,if_neg hnot,if_neg hnot]
  -- Handing the frame up at once leaves the head where it is.
  have hpass : s.numStored = 0 → Place size base w m.num { s with up := s.up ++ [m] } →
      Ended (rxFrame ends m s) ∨
      (Live size (rxFrame ends m s) ∧ Within size base (rxFrame ends m s).entries ∧
        Place size base w m.num (rxFrame ends m s)) ∧
      ∀ j, ∀ f ∈ (rxFrame ends m s).entries j, f ∈ s.entries j ∨ f = m := by
    intro h0 hplace
    obtain hend | ⟨hgo,hlive⟩ := rxFrame_spec ends h (hempty h0) s.headSn
    · exact .inl hend
    · replace hgo : rxFrame ends m s = { s with up := s.up ++ [m] } := hgo
      rw [hgo]
      exact .inr ⟨⟨hlive,h.slots,hplace⟩,fun j f hf => .inl hf⟩
  by_cases h1 : s.numStored = 0 ∧ seqLt m.sn d.nssn = true
  · rw [if_pos h1]
    refine hpass h1.1 ?_
    rcases h.place with hp | ⟨hw,-⟩
    · exact .inl hp
    · have := hlt.mp h1.2
      omega
  · rw [if_neg h1]
    have hle := le_of_not_passed hlt h1
    by_cases h2 : s.numStored = 0 ∧ m.sn = s.headSn
    · rw [if_pos h2]
      refine hpass h2.1 (.inr ⟨hle h2.1,fun j f hf => ?_⟩)
      simp [hempty h2.1 j] at hf
    · rw [if_neg h2]
      obtain ⟨hlive,hslots⟩ := store_live hdvd hpos h
      exact .inr ⟨⟨⟨hlive.alive,hlive.inOrder,hlive.count⟩,hslots,store_place hdvd h hle⟩,
        fun j f hf => (mem_store hdvd hf).imp_right And.left⟩

end Reorder
end Spec
end NanoBSD.Iwx
