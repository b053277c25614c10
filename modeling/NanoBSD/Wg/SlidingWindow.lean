import NanoBSD.Lib.Window

/-! # The sliding window of a receiving session

Every data message of a session has a counter, and a counter is accepted once. The window
remembers the counters of the last words of a circular bitmap, and what is older than the
window is refused. A receiver first makes a check without the lock, before it decrypts the
message, and then lets the window decide under the lock; other receivers may have moved the
window in between.
-/
namespace NanoBSD.Wg

/-- Bits of the window, bits of a word, and words -/
def sliwinBits : ℕ := 2048
def sliwinBpw : ℕ := 32
def sliwinWords : ℕ := sliwinBits / sliwinBpw
def sliwinNpkt : ℕ := sliwinBits - sliwinBpw

inductive Errno
  | EAUTH
deriving DecidableEq

structure Sliwin where
  B : ℕ → BitVec sliwinBpw
  T : UInt64

namespace Sliwin

def reset : Sliwin where
  B := fun _ => 0
  T := 0

def checkFast (W : Sliwin) (S : UInt64) : Except Errno Unit :=
  if S + .ofNat sliwinNpkt < W.T then .error .EAUTH else .ok ()

def advance (W : Sliwin) (S : UInt64) : Sliwin :=
  if W.T < S then
    let i := W.T.toNat / sliwinBpw
    let j := S.toNat / sliwinBpw
    { B := Window.clear sliwinWords i (min (j - i) sliwinWords) W.B, T := S }
  else W

def update (W : Sliwin) (S : UInt64) : Except Errno Unit × Sliwin :=
  if S + .ofNat sliwinNpkt < W.T then (.error .EAUTH,W)
  else
    let W := W.advance S
    if (W.B (S.toNat / sliwinBpw % sliwinWords)).getLsbD (S.toNat % sliwinBpw) then
      (.error .EAUTH,W)
    else (.ok (),{ W with B := Window.mark sliwinWords W.B S.toNat })

def present (r : Sliwin × List UInt64) (S : UInt64) : Sliwin × List UInt64 :=
  ((r.1.update S).2,
    match (r.1.update S).1 with
    | .ok _ => S :: r.2
    | .error _ => r.2)

def after (l : List UInt64) : Sliwin × List UInt64 := l.foldl present (reset,[])

end Sliwin

/-- What the window is for: a counter is good once, and until it is too old. -/
def Good (seen : List UInt64) (S : UInt64) : Prop :=
  S ∉ seen ∧ ∀ x ∈ seen, x.toNat ≤ S.toNat + sliwinNpkt

structure Sliwin.Tracks (W : Sliwin) (seen : List UInt64) : Prop where
  le : ∀ x ∈ seen, x.toNat ≤ W.T.toNat
  top : W.T.toNat ≠ 0 → W.T ∈ seen
  shows : Window.Shows sliwinWords W.B (W.T.toNat / sliwinBpw) fun n => ∃ x ∈ seen, x.toNat = n

section Tracks
variable {W : Sliwin} {seen : List UInt64} {S : UInt64}

theorem lt_iff_of_le (hS : S.toNat ≤ 2^64 - 2017) (T : UInt64) :
    S + .ofNat sliwinNpkt < T ↔ S.toNat + sliwinNpkt < T.toNat := by
  rw [UInt64.lt_iff_toNat_lt,UInt64.toNat_add]
  have : (UInt64.ofNat sliwinNpkt).toNat = sliwinNpkt := rfl
  rw [this,Nat.mod_eq_of_lt]
  unfold sliwinNpkt sliwinBits sliwinBpw
  omega

theorem Sliwin.reset_tracks : reset.Tracks [] where
  le := by simp
  top := fun h => absurd rfl h
  shows := fun q _ _ b _ => by simp [reset]

theorem Sliwin.Tracks.advance_of_lt (h : W.Tracks seen) (hT : W.T < S) :
    Window.Shows sliwinWords (W.advance S).B (S.toNat / sliwinBpw)
      fun n => ∃ x ∈ seen, x.toNat = n := by
  unfold Sliwin.advance
  rw [if_pos hT]
  refine h.shows.clear (by decide) (Nat.div_le_div_right ?_) ?_
  · exact Nat.le_of_lt (UInt64.lt_iff_toNat_lt.mp hT)
  · rintro n ⟨x,hx,rfl⟩
    exact Nat.div_le_div_right (h.le x hx)

theorem Sliwin.advance_T (W : Sliwin) (S : UInt64) :
    (W.advance S).T.toNat = max W.T.toNat S.toNat := by
  unfold Sliwin.advance
  split_ifs with hT
  · have := UInt64.lt_iff_toNat_lt.mp hT
    dsimp only
    omega
  · have := mt UInt64.lt_iff_toNat_lt.mpr hT
    omega

theorem Sliwin.Tracks.advance (h : W.Tracks seen) (hold : W.T.toNat ≤ S.toNat + sliwinNpkt) :
    Window.Shows sliwinWords (W.advance S).B ((W.advance S).T.toNat / sliwinBpw)
      (fun n => ∃ x ∈ seen, x.toNat = n) ∧ S.toNat / sliwinBpw ≤ (W.advance S).T.toNat / sliwinBpw ∧
    (W.advance S).T.toNat / sliwinBpw < S.toNat / sliwinBpw + sliwinWords := by
  refine ⟨?_,?_,?_⟩
  · by_cases hT : W.T < S
    · have htop : (W.advance S).T = S := by
        unfold Sliwin.advance
        rw [if_pos hT]
      rw [htop]
      exact h.advance_of_lt hT
    · have hsame : W.advance S = W := if_neg hT
      rw [hsame]
      exact h.shows
  · rw [Sliwin.advance_T]
    exact Nat.div_le_div_right (Nat.le_max_right _ _)
  · rw [Sliwin.advance_T]
    unfold sliwinWords sliwinNpkt sliwinBits sliwinBpw at *
    omega

theorem exists_toNat_eq : (∃ x ∈ seen, x.toNat = S.toNat) ↔ S ∈ seen :=
  ⟨fun ⟨_,hx,h⟩ => UInt64.toNat_inj.mp h ▸ hx,fun h => ⟨S,h,rfl⟩⟩

theorem Sliwin.Tracks.update (h : W.Tracks seen) (hS : S.toNat ≤ 2^64 - 2017) :
    (Good seen S ∧ (W.update S).1 = .ok () ∧ (W.update S).2.Tracks (S :: seen)) ∨
    (¬Good seen S ∧ (W.update S).1 = .error .EAUTH ∧ (W.update S).2.Tracks seen) := by
  unfold Sliwin.update
  by_cases hold : S + .ofNat sliwinNpkt < W.T
  · rw [if_pos hold]
    rw [lt_iff_of_le hS] at hold
    have hgood : ¬Good seen S := fun hg => absurd (hg.2 W.T (h.top (by omega))) (by omega)
    exact .inr ⟨hgood,rfl,h⟩
  · rw [if_neg hold]
    rw [lt_iff_of_le hS,Nat.not_lt] at hold
    obtain ⟨hshows,hle,hlt⟩ := h.advance hold
    have htest := (hshows.test (x := S.toNat) (by decide) hle hlt).trans exists_toNat_eq
    have hold' (x : UInt64) (hx : x ∈ seen) : x.toNat ≤ S.toNat + sliwinNpkt :=
      Nat.le_trans (h.le x hx) hold
    have hle' (x : UInt64) (hx : x ∈ seen) : x.toNat ≤ (W.advance S).T.toNat := by
      rw [advance_T]
      exact Nat.le_trans (h.le x hx) (Nat.le_max_left _ _)
    dsimp only
    split_ifs with hbit
    · -- a counter that was seen does not move the window
      have hsame : W.advance S = W := if_neg fun hT => absurd (h.le S (htest.mp hbit))
        (Nat.not_le.mpr (UInt64.lt_iff_toNat_lt.mp hT))
      rw [hsame]
      exact .inr ⟨fun hg => hg.1 (htest.mp hbit),rfl,h⟩
    · refine .inl ⟨⟨fun hs => hbit (htest.mpr hs),hold'⟩,rfl,?_,fun hne => ?_,?_⟩
      · rintro x (_ | ⟨_,hx⟩)
        · exact (advance_T W S).symm ▸ Nat.le_max_right _ _
        · exact hle' x hx
      · dsimp only at hne ⊢
        unfold Sliwin.advance at hne ⊢
        split_ifs at hne ⊢ with hT
        · exact List.mem_cons_self
        · exact List.mem_cons_of_mem _ (h.top hne)
      · have hmark := hshows.mark (x := S.toNat) (by decide) hle hlt
        intro q hq hqt b hb
        refine (hmark q hq hqt b hb).trans ?_
        simp [or_comm,eq_comm]

end Tracks

section Runs
variable {l l' : List UInt64} {S : UInt64}

theorem Sliwin.Tracks.foldl {r : Sliwin × List UInt64} (h : r.1.Tracks r.2)
    (hl : ∀ x ∈ l, x.toNat ≤ 2^64 - 2017) : (l.foldl present r).1.Tracks (l.foldl present r).2 := by
  induction l generalizing r with
  | nil => exact h
  | cons S l ih =>
    obtain ⟨hS,hl⟩ := List.forall_mem_cons.mp hl
    refine ih ?_ hl
    unfold present
    rcases h.update hS with ⟨-,hok,htracks⟩ | ⟨-,herr,htracks⟩
    · rw [hok]
      exact htracks
    · rw [herr]
      exact htracks

theorem Sliwin.update_T (W : Sliwin) (S : UInt64) : W.T.toNat ≤ (W.update S).2.T.toNat := by
  have hadv : W.T.toNat ≤ (W.advance S).T.toNat := (advance_T W S).symm ▸ Nat.le_max_left _ _
  unfold Sliwin.update
  dsimp only
  split_ifs
  · exact Nat.le_refl _
  · exact hadv
  · exact hadv

theorem Sliwin.foldl_T (r : Sliwin × List UInt64) (l : List UInt64) :
    r.1.T.toNat ≤ (l.foldl present r).1.T.toNat := by
  induction l generalizing r with
  | nil => exact Nat.le_refl _
  | cons S l ih => exact Nat.le_trans (update_T r.1 S) (ih (present r S))

/-- A window from the start accepts a counter exactly if it has not before and it is not too far
below the greatest accepted; and a counter refused without the lock is refused under it from then
on. -/
theorem sliwin_exact (hl : ∀ x ∈ l, x.toNat ≤ 2^64 - 2017) (hS : S.toNat ≤ 2^64 - 2017) :
    (((Sliwin.after l).1.update S).1 = .ok () ↔
      S ∉ (Sliwin.after l).2 ∧ ∀ x ∈ (Sliwin.after l).2, x.toNat ≤ S.toNat + 2016) ∧
    ∀ (S' : UInt64) (later : List UInt64), (Sliwin.after l).1.checkFast S' ≠ .ok () →
      ((Sliwin.after (l ++ later)).1.update S').1 ≠ .ok () := by
  refine ⟨?_,fun S' later hcheck => ?_⟩
  · have htracks : (Sliwin.after l).1.Tracks (Sliwin.after l).2 :=
      Sliwin.Tracks.foldl (r := (Sliwin.reset,[])) Sliwin.reset_tracks hl
    rcases htracks.update hS with ⟨hgood,hok,-⟩ | ⟨hbad,herr,-⟩
    · exact ⟨fun _ => hgood,fun _ => hok⟩
    · rw [herr]
      exact ⟨nofun,fun h => absurd h hbad⟩
  · have hold : S' + .ofNat sliwinNpkt < (Sliwin.after l).1.T := by
      by_contra hn
      exact hcheck (if_neg hn)
    have hT : (Sliwin.after l).1.T.toNat ≤ (Sliwin.after (l ++ later)).1.T.toNat := by
      unfold Sliwin.after
      rw [List.foldl_append]
      exact Sliwin.foldl_T _ later
    have hold' : S' + .ofNat sliwinNpkt < (Sliwin.after (l ++ later)).1.T :=
      UInt64.lt_iff_toNat_lt.mpr (Nat.lt_of_lt_of_le (UInt64.lt_iff_toNat_lt.mp hold) hT)
    unfold Sliwin.update
    rw [if_pos hold']
    exact nofun

/-- After a jump by more than the window, late counters are accepted once. -/
theorem sliwin_exact_late :
    (((Sliwin.after [5,5000,2990]).1.update 2984).1 = .ok () ↔
      2984 ∉ (Sliwin.after [5,5000,2990]).2 ∧
        ∀ x ∈ (Sliwin.after [5,5000,2990]).2, x.toNat ≤ (2984 : UInt64).toNat + 2016) ∧
    ((Sliwin.after [5,5000,2990]).1.update 2984).1 = .ok () ∧
    (Sliwin.after [5,5000,2990]).2 = [2990,5000,5] :=
  ⟨(sliwin_exact (by simp) (by decide)).1,by decide +kernel,by decide +kernel⟩

end Runs
end NanoBSD.Wg
