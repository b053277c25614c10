import NanoBSD.Lpsched.IdleTime
import Mathlib.Data.Nat.ModEq

/-! # What two reads of the idle times may differ by

A CPU adds a closed interval with the end it sampled before it entered the critical section.
A read counts an open interval up to its own sample. The two agree as long as no read has
counted past that end, and no read that still has to take the record sampled before it; then
the idle time neither goes back nor grows faster than the time.
-/
namespace NanoBSD.Lpsched
open Function Option

section Charge
variable {m n since cc : ℕ}

@[simp] theorem charge_zero (n cc : ℕ) : charge n 0 cc = cc := by
  simp [charge]

theorem charge_of_le (h : n ≤ since) : charge n since cc = cc := by
  unfold charge
  rw [if_neg]
  omega

theorem charge_mono (h : n ≤ m) : charge n since cc ≤ charge m since cc := by
  unfold charge
  split_ifs <;> omega

theorem charge_add_le (h : n ≤ m) : charge m since cc + n ≤ charge n since cc + m := by
  unfold charge
  split_ifs <;> omega

end Charge

def Writer.critical : Writer → Bool
  | .rest | .opening | .closing _ => false
  | _ => true

def Writer.ended : Writer → Option ℕ
  | .closed e => some e
  | _ => none

def Writer.Knows (tsc since : ℕ) : Writer → Prop
  | .opening | .opened => since = 0
  | .sampled t => since = 0 ∧ t ≤ tsc
  | .closing e | .closed e => e ≤ tsc
  | _ => True

namespace Cpu
variable {k k' : Cpu} {tsc n v : ℕ}

structure Wf (k : Cpu) (tsc : ℕ) : Prop where
  parity : k.li.gen % 2 = k.writer.critical.toNat
  knows : k.writer.Knows tsc k.li.since

def settled (k : Cpu) : ℕ :=
  match k.writer with
  | .sampled t => t ||| 1
  | .added => 0
  | _ => k.li.since

def idleAt (k : Cpu) (n : ℕ) : ℕ := charge n k.settled k.li.cc

theorem settled_of_rest (h : k.writer.critical = false) : k.settled = k.li.since := by
  unfold settled
  split <;> simp_all [Writer.critical]

theorem Wf.tick (h : k.Wf tsc) (d : ℕ) : k.Wf (tsc + d) := by
  constructor
  · exact h.parity
  · have hknows := h.knows
    revert hknows
    cases k.writer with
    | sampled t => exact fun ⟨hsince,ht⟩ => ⟨hsince,Nat.le_add_right_of_le ht⟩
    | closing e | closed e => exact Nat.le_add_right_of_le
    | _ => exact id

theorem bumpGen_parity (k : Cpu) (w : Writer) : (k.bumpGen w).li.gen % 2 = (k.li.gen + 1) % 2 := by
  simp only [bumpGen]
  omega

theorem setIdleDepth_cases (k : Cpu) (tsc : ℕ) (acct active : Bool) :
    k.setIdleDepth tsc acct active = k ∨
      k.setIdleDepth tsc acct active = { k with writer := .closing tsc } ∨
      k.setIdleDepth tsc acct active = { k with writer := .opening } ∧ k.li.since = 0 := by
  unfold setIdleDepth
  split_ifs with hactive hsince hopen
  · exact .inr (.inl rfl)
  · exact .inl rfl
  · exact .inr (.inr ⟨rfl,hopen.2⟩)
  · exact .inl rfl

theorem setIdleDepth_li (k : Cpu) (tsc : ℕ) (acct active : Bool) :
    (k.setIdleDepth tsc acct active).li = k.li := by
  rcases setIdleDepth_cases k tsc acct active with h | h | ⟨h,-⟩ <;> rw [h]

theorem Wf.setIdleDepth (h : k.Wf tsc) (hrest : k.writer = .rest) (acct active : Bool) :
    (k.setIdleDepth tsc acct active).Wf tsc := by
  have hparity := h.parity
  rw [hrest] at hparity
  rcases setIdleDepth_cases k tsc acct active with hk | hk | ⟨hk,hsince⟩ <;> rw [hk]
  · exact h
  · exact ⟨hparity,Nat.le_refl _⟩
  · exact ⟨hparity,hsince⟩

theorem idleAt_setIdleDepth (hrest : k.writer = .rest) (tsc : ℕ) (acct active : Bool) (n : ℕ) :
    (k.setIdleDepth tsc acct active).idleAt n = k.idleAt n := by
  have hcritical : k.writer.critical = false := by rw [hrest]; rfl
  have hcritical' : (k.setIdleDepth tsc acct active).writer.critical = false := by
    rcases setIdleDepth_cases k tsc acct active with h | h | ⟨h,-⟩ <;> rw [h]
    · exact hcritical
    all_goals rfl
  simp only [idleAt,settled_of_rest hcritical,settled_of_rest hcritical',setIdleDepth_li]

theorem next_cases (hnext : k.next tsc = some k') :
    (∃ w, k' = k.bumpGen w ∧ w.critical = !k.writer.critical) ∨
      k'.li.gen = k.li.gen ∧ k.writer.critical = true ∧ k'.writer.critical = true := by
  unfold next at hnext
  split at hnext <;> rename_i hw <;> cases hnext <;> rw [hw]
  case h_2 | h_5 | h_6 | h_9 => exact .inl ⟨_,rfl,rfl⟩
  all_goals exact .inr ⟨rfl,rfl,rfl⟩

theorem Wf.next (h : k.Wf tsc) (hnext : k.next tsc = some k') : k'.Wf tsc := by
  constructor
  · have hparity := h.parity
    rcases next_cases hnext with ⟨w,rfl,hw⟩ | ⟨hgen,hcritical,hcritical'⟩
    · rw [bumpGen_parity]
      change _ = w.critical.toNat
      rw [hw]
      cases hc : k.writer.critical <;> simp only [hc,Bool.toNat_false,Bool.toNat_true] at hparity <;>
        simp only [Bool.not_false,Bool.not_true,Bool.toNat_false,Bool.toNat_true] <;> omega
    · rw [hgen,hparity,hcritical,hcritical']
  · have hknows := h.knows
    unfold Cpu.next at hnext
    split at hnext <;> rename_i hw <;> cases hnext <;> rw [hw] at hknows
    all_goals trivial

theorem idleAt_next (h : k.Wf tsc) (hnext : k.next tsc = some k') (hn : n ≤ tsc) :
    k'.idleAt n = k.idleAt n ∨ ∃ e ≤ tsc, k.writer = .closed e ∧ k'.idleAt n = k.idleAt e := by
  have hknows := h.knows
  unfold next at hnext
  split at hnext <;> rename_i hw <;> cases hnext <;> rw [hw] at hknows
  case h_3 =>
    -- the interval that begins now is ahead of every instant up to now
    left
    have hlate : n ≤ tsc ||| 1 := Nat.le_trans hn Nat.left_le_or
    simp only [Writer.Knows] at hknows
    simp only [idleAt,settled,hw,hknows,charge_zero,charge_of_le hlate]
  case h_7 e =>
    right
    refine ⟨e,hknows,hw,?_⟩
    simp only [idleAt,settled,hw,charge_zero]
  all_goals
    left
    simp only [idleAt,settled,hw,bumpGen]

/-- A reading `v` at the instant `n` that is neither ahead of the record nor behind it by
more than the time since. -/
structure Past (k : Cpu) (tsc n v : ℕ) : Prop where
  le_now : n ≤ tsc
  le_idle : v ≤ k.idleAt n
  idle_le : k.idleAt tsc + n ≤ v + tsc

theorem past_idleAt (hn : n ≤ tsc) : k.Past tsc n (k.idleAt n) :=
  ⟨hn,Nat.le_refl _,charge_add_le hn⟩

theorem Past.tick (h : k.Past tsc n v) (d : ℕ) : k.Past (tsc + d) n v := by
  have hle := h.le_now
  have hidle := h.idle_le
  have hgrow : k.idleAt (tsc + d) + tsc ≤ k.idleAt tsc + (tsc + d) :=
    charge_add_le (Nat.le_add_right tsc d)
  exact ⟨by omega,h.le_idle,by omega⟩

theorem Past.congr (h : k.Past tsc n v) (hidle : ∀ m, k'.idleAt m = k.idleAt m) :
    k'.Past tsc n v := by
  constructor
  · exact h.le_now
  · rw [hidle]
    exact h.le_idle
  · rw [hidle]
    exact h.idle_le

theorem Past.next (h : k.Past tsc n v) (hwf : k.Wf tsc) (hnext : k.next tsc = some k')
    (hclear : ∀ e, k.writer = .closed e → n ≤ e) : k'.Past tsc n v := by
  have hle := h.le_idle
  have hidle := h.idle_le
  constructor
  · exact h.le_now
  · rcases idleAt_next hwf hnext h.le_now with heq | ⟨e,-,hw,heq⟩
    · rwa [heq]
    · rw [heq]
      exact Nat.le_trans hle (charge_mono (hclear e hw))
  · rcases idleAt_next hwf hnext (Nat.le_refl tsc) with heq | ⟨e,he,-,heq⟩
    · rwa [heq]
    · have hmono : k.idleAt e ≤ k.idleAt tsc := charge_mono he
      omega

end Cpu

/-- From one reading to a later one the idle time does not decrease, and it does not grow by
more than the time. -/
structure Later (n₁ v₁ n₂ v₂ : ℕ) : Prop where
  le : v₁ ≤ v₂
  growth : v₂ + n₁ ≤ v₁ + n₂

variable {k k' : Cpu} {tsc n v : ℕ} {a : Attempt}

theorem Cpu.Past.later (h : k.Past tsc n v) : Later n v tsc (k.idleAt tsc) :=
  ⟨Nat.le_trans h.le_idle (charge_mono h.le_now),h.idle_le⟩

theorem Later.next {now : ℕ} (h : Later n v now (k.idleAt now))
    (hpast : k.Past tsc n v) (hwf : k.Wf tsc) (hnow : now ≤ tsc) (hnext : k.next tsc = some k')
    (hclear : ∀ e, k.writer = .closed e → n ≤ e ∧ e ≤ now) : Later n v now (k'.idleAt now) := by
  rcases Cpu.idleAt_next hwf hnext hnow with heq | ⟨e,-,hw,heq⟩
  · rwa [heq]
  · obtain ⟨hne,hen⟩ := hclear e hw
    have hgrowth := h.growth
    have hmono : k.idleAt e ≤ k.idleAt now := charge_mono hen
    rw [heq]
    constructor
    · exact Nat.le_trans hpast.le_idle (charge_mono hne)
    · omega

theorem Later.div {n₁ v₁ n₂ v₂ : ℕ} (h : Later n₁ v₁ n₂ v₂) (mhz : ℕ) :
    v₁ / mhz ≤ v₂ / mhz ∧ v₂ / mhz + n₁ / mhz ≤ v₁ / mhz + n₂ / mhz + 1 := by
  constructor
  · exact Nat.div_le_div_right h.le
  · calc v₂ / mhz + n₁ / mhz ≤ (v₂ + n₁) / mhz := Nat.div_add_div_le_add_div
      _ ≤ (v₁ + n₂) / mhz := Nat.div_le_div_right h.growth
      _ ≤ v₁ / mhz + n₂ / mhz + 1 := Nat.add_div_le_div_add_div_add_one _ _ _

def Reader.current : Reader → Option Reading
  | .reading r => some r
  | _ => none

def Attempt.g1 : Attempt → Option ℕ
  | .start => none
  | .gen g1 => some g1
  | .since g1 _ => some g1
  | .cc g1 _ _ => some g1

def Attempt.Coherent (li : LpschedIdle) : Attempt → Prop
  | .start => True
  | .gen _ => True
  | .since g1 t => g1 % 2 = 0 → li.gen = g1 → t = li.since
  | .cc g1 t k => g1 % 2 = 0 → li.gen = g1 → t = li.since ∧ k = li.cc

theorem Attempt.coherent_of_ne {li : LpschedIdle}
    (h : ∀ g1 ∈ a.g1, g1 % 2 = 0 → li.gen ≠ g1) : a.Coherent li := by
  cases a with
  | start | gen => trivial
  | since g1 | cc g1 => exact fun heven hgen => absurd hgen (h g1 rfl heven)

theorem Attempt.Coherent.next (hwf : k.Wf tsc)
    (hnext : k.next tsc = some k') (hfresh : a.g1 ≠ some ((k.li.gen + 1) % 2^32)) :
    a.Coherent k'.li := by
  apply coherent_of_ne
  intro g1 hg1 heven hgen
  rcases Cpu.next_cases hnext with ⟨w,rfl,-⟩ | ⟨hsame,hcritical,-⟩
  · exact hfresh (hg1.trans (congrArg some hgen.symm))
  · have hparity := hwf.parity
    rw [hcritical,← hsame,hgen,heven] at hparity
    contradiction

namespace State
variable {n : ℕ} {s t : State} {c : ℕ} {k : Cpu}

/-- A read under way against the reports before it: what it has taken, what it is going to
take, and the attempt it is in. -/
structure Consistent (n : ℕ) (s : State) (r : Reading) : Prop where
  now_le : r.now ≤ s.tsc
  past : ∀ c < n, c < r.c → (s.cpu c).Past s.tsc r.now (r.buf c)
  taken : ∀ c < n, c < r.c → ∀ q ∈ s.reports, Later q.now (q.idle c) r.now (r.buf c)
  pending : ∀ c < n, r.c ≤ c → ∀ q ∈ s.reports,
    Later q.now (q.idle c) r.now ((s.cpu c).idleAt r.now)
  coherent : r.c < n → r.attempt.Coherent (s.cpu r.c).li

structure Sound (n : ℕ) (s : State) : Prop where
  wf : ∀ c, (s.cpu c).Wf s.tsc
  past : ∀ q ∈ s.reports, ∀ c < n, (s.cpu c).Past s.tsc q.now (q.idle c)
  later : s.reports.Pairwise fun r q => ∀ c < n, Later q.now (q.idle c) r.now (r.idle c)
  reading : ∀ r, s.reader = .reading r → Consistent n s r

theorem sound_boot (n : ℕ) : Sound n boot := by
  constructor
  · exact fun _ => ⟨rfl,trivial⟩
  · exact nofun
  · exact List.Pairwise.nil
  · exact nofun

theorem Sound.tick (h : Sound n s) (d : ℕ) : Sound n { s with tsc := s.tsc + d } := by
  constructor
  · exact fun c => (h.wf c).tick d
  · exact fun q hq c hc => (h.past q hq c hc).tick d
  · exact h.later
  · intro r hr
    have hread := h.reading r hr
    constructor
    · exact Nat.le_add_right_of_le hread.now_le
    · exact fun c hc hdone => (hread.past c hc hdone).tick d
    · exact hread.taken
    · exact hread.pending
    · exact hread.coherent

theorem Sound.setCpu (h : Sound n s) (hwf : k.Wf s.tsc)
    (hpast : c < n → ∀ q ∈ s.reports, k.Past s.tsc q.now (q.idle c))
    (hdone : c < n → ∀ r, s.reader = .reading r → c < r.c → k.Past s.tsc r.now (r.buf c))
    (hpending : c < n → ∀ r, s.reader = .reading r → r.c ≤ c → ∀ q ∈ s.reports,
      Later q.now (q.idle c) r.now (k.idleAt r.now))
    (hcoherent : c < n → ∀ r, s.reader = .reading r → r.c = c → r.attempt.Coherent k.li) :
    Sound n (s.setCpu c k) := by
  constructor
  · intro i
    by_cases hi : i = c
    · subst hi
      simpa only [State.setCpu,update_self] using hwf
    · simpa only [State.setCpu,update_of_ne hi] using h.wf i
  · intro q hq i hin
    by_cases hi : i = c
    · subst hi
      simpa only [State.setCpu,update_self] using hpast hin q hq
    · simpa only [State.setCpu,update_of_ne hi] using h.past q hq i hin
  · exact h.later
  · intro r hr
    have hread := h.reading r hr
    constructor
    · exact hread.now_le
    · intro i hin hlt
      by_cases hi : i = c
      · subst hi
        simpa only [State.setCpu,update_self] using hdone hin r hr hlt
      · simpa only [State.setCpu,update_of_ne hi] using hread.past i hin hlt
    · exact hread.taken
    · intro i hin hle q hq
      by_cases hi : i = c
      · subst hi
        simpa only [State.setCpu,update_self] using hpending hin r hr hle q hq
      · simpa only [State.setCpu,update_of_ne hi] using hread.pending i hin hle q hq
    · intro hlt
      by_cases hi : r.c = c
      · subst hi
        simpa only [State.setCpu,update_self] using hcoherent hlt r hr rfl
      · simpa only [State.setCpu,update_of_ne hi] using hread.coherent hlt

theorem Sound.setIdleDepth (h : Sound n s) (hrest : (s.cpu c).writer = .rest) (active : Bool) :
    Sound n (s.setCpu c ((s.cpu c).setIdleDepth s.tsc s.idleAcct active)) := by
  have hidle := Cpu.idleAt_setIdleDepth hrest s.tsc s.idleAcct active
  apply h.setCpu ((h.wf c).setIdleDepth hrest _ _)
  · exact fun hc q hq => (h.past q hq c hc).congr hidle
  · exact fun hc r hr hdone => ((h.reading r hr).past c hc hdone).congr hidle
  · intro hc r hr hle q hq
    rw [hidle]
    exact (h.reading r hr).pending c hc hle q hq
  · intro hc r hr hrc
    subst hrc
    rw [Cpu.setIdleDepth_li]
    exact (h.reading r hr).coherent hc

/-- No read that is finished or past `c` has counted past the end `e` of the interval that `c` adds;
one that has still to take `c` after another read has sampled its time at the end or later. -/
def Settles (s : State) (c e : ℕ) : Prop :=
  (∀ q ∈ s.reports, q.now ≤ e) ∧
    ∀ r ∈ s.reader.current, if c < r.c then r.now ≤ e else s.reports ≠ [] → e ≤ r.now

def Fresh (s : State) (c : ℕ) : Prop :=
  ∀ r ∈ s.reader.current, r.c = c → r.attempt.g1 ≠ some (((s.cpu c).li.gen + 1) % 2^32)

instance (s : State) (c e : ℕ) : Decidable (s.Settles c e) :=
  inferInstanceAs (Decidable (_ ∧ ∀ r ∈ s.reader.current, _))

instance (s : State) (c : ℕ) : Decidable (s.Fresh c) :=
  inferInstanceAs (Decidable (∀ r ∈ s.reader.current, _))

theorem Sound.write (h : Sound n s) (hnext : (s.cpu c).next s.tsc = some k)
    (hsettles : c < n → ∀ e ∈ (s.cpu c).writer.ended, s.Settles c e)
    (hfresh : c < n → s.Fresh c) : Sound n (s.setCpu c k) := by
  apply h.setCpu ((h.wf c).next hnext)
  · intro hc q hq
    exact (h.past q hq c hc).next (h.wf c) hnext fun e he =>
      (hsettles hc e (congrArg Writer.ended he)).1 q hq
  · intro hc r hr hdone
    apply ((h.reading r hr).past c hc hdone).next (h.wf c) hnext
    intro e he
    have hclear := (hsettles hc e (congrArg Writer.ended he)).2 r (congrArg Reader.current hr)
    rwa [if_pos hdone] at hclear
  · intro hc r hr hle q hq
    have hread := h.reading r hr
    apply (hread.pending c hc hle q hq).next (h.past q hq c hc) (h.wf c) hread.now_le hnext
    intro e he
    obtain ⟨hbefore,hclear⟩ := hsettles hc e (congrArg Writer.ended he)
    have hafter := hclear r (congrArg Reader.current hr)
    rw [if_neg (Nat.not_lt.mpr hle)] at hafter
    exact ⟨hbefore q hq,hafter (List.ne_nil_of_mem hq)⟩
  · intro hc r hr hrc
    exact Attempt.Coherent.next (h.wf c) hnext (hfresh hc r (congrArg Reader.current hr) hrc)

variable {r : Reading}

theorem Consistent.snapshot {g1 t k : ℕ} (h : Consistent n s r) (hc : r.c < n)
    (hwf : (s.cpu r.c).Wf s.tsc) (ha : r.attempt = .cc g1 t k)
    (hok : ¬(g1 ≠ (s.cpu r.c).li.gen ∨ g1 % 2 ≠ 0)) :
    charge r.now t k = (s.cpu r.c).idleAt r.now := by
  have hgen : (s.cpu r.c).li.gen = g1 := by omega
  have heven : g1 % 2 = 0 := by omega
  have hcoherent := h.coherent hc
  rw [ha] at hcoherent
  obtain ⟨rfl,rfl⟩ := hcoherent heven hgen
  have hparity := hwf.parity
  have hrest : (s.cpu r.c).writer.critical = false := by
    rw [hgen,heven] at hparity
    cases hcrit : (s.cpu r.c).writer.critical with
    | false => rfl
    | true =>
      rw [hcrit] at hparity
      contradiction
  rw [Cpu.idleAt,Cpu.settled_of_rest hrest]

theorem Consistent.attempt (h : Consistent n s r) {a : Attempt}
    (ha : a.Coherent (s.cpu r.c).li) : Consistent n s { r with attempt := a } :=
  ⟨h.now_le,h.past,h.taken,h.pending,fun _ => ha⟩

theorem Consistent.take (h : Consistent n s r) (hc : r.c < n) :
    Consistent n s
      { r with
        c := r.c + 1
        buf := update r.buf r.c ((s.cpu r.c).idleAt r.now)
        attempt := .start } := by
  constructor
  · exact h.now_le
  · intro i hin hlt
    by_cases hi : i = r.c
    · subst hi
      simpa only [update_self] using Cpu.past_idleAt h.now_le
    · have hlt' : i < r.c := Nat.lt_of_le_of_ne (Nat.le_of_lt_succ hlt) hi
      simpa only [update_of_ne hi] using h.past i hin hlt'
  · intro i hin hlt q hq
    by_cases hi : i = r.c
    · subst hi
      simpa only [update_self] using h.pending r.c hc (Nat.le_refl _) q hq
    · have hlt' : i < r.c := Nat.lt_of_le_of_ne (Nat.le_of_lt_succ hlt) hi
      simpa only [update_of_ne hi] using h.taken i hin hlt' q hq
  · exact fun i hin hle => h.pending i hin (Nat.le_of_succ_le hle)
  · exact fun _ => trivial

theorem Consistent.next (h : Consistent n s r) (hc : r.c < n)
    (hwf : (s.cpu r.c).Wf s.tsc) : Consistent n s (r.next (s.cpu r.c).li) := by
  unfold Reading.next
  split
  case h_1 => exact h.attempt trivial
  case h_2 g1 ha => exact h.attempt fun _ _ => rfl
  case h_3 g1 t ha =>
    have hcoherent := h.coherent hc
    rw [ha] at hcoherent
    exact h.attempt fun heven hgen => ⟨hcoherent heven hgen,rfl⟩
  case h_4 g1 t k ha =>
    split_ifs with hretry
    · exact h.attempt trivial
    · rw [h.snapshot hc hwf ha hretry]
      exact h.take hc

theorem Sound.reader (h : Sound n s) {x : Reader}
    (hx : ∀ r, x = .reading r → Consistent n { s with reader := x } r) :
    Sound n { s with reader := x } :=
  ⟨h.wf,h.past,h.later,hx⟩

theorem Sound.report (h : Sound n s) (hr : s.reader = .reading r) (hend : n ≤ r.c) :
    Sound n { s with reader := .away, reports := ⟨r.now,r.buf⟩ :: s.reports } := by
  have hread := h.reading r hr
  constructor
  · exact h.wf
  · intro q hq c hc
    rcases List.mem_cons.mp hq with rfl | hq
    · exact hread.past c hc (Nat.lt_of_lt_of_le hc hend)
    · exact h.past q hq c hc
  · apply List.Pairwise.cons
    · exact fun q hq c hc => hread.taken c hc (Nat.lt_of_lt_of_le hc hend) q hq
    · exact h.later
  · exact nofun

theorem Sound.readNext (h : Sound n s) (hstep : s.readNext n = some t) : Sound n t := by
  unfold State.readNext at hstep
  split at hstep
  case h_1 => contradiction
  case h_2 =>
    cases hstep
    apply h.reader
    intro r hr
    obtain rfl := Reader.reading.inj hr
    constructor
    · exact Nat.le_refl _
    · exact fun c _ hlt => absurd hlt (Nat.not_lt_zero c)
    · exact fun c _ hlt => absurd hlt (Nat.not_lt_zero c)
    · exact fun c hc _ q hq => (h.past q hq c hc).later
    · exact fun _ => trivial
  case h_3 r hr =>
    split_ifs at hstep with hc
    · cases hstep
      apply h.reader
      intro r' hr'
      obtain rfl := Reader.reading.inj hr'
      have hnext := (h.reading r hr).next hc (h.wf r.c)
      exact ⟨hnext.now_le,hnext.past,hnext.taken,hnext.pending,hnext.coherent⟩
    · cases hstep
      exact h.report hr (Nat.le_of_not_lt hc)

end State

/-- Each interval is added while every read agrees with its end, and no generation comes
round under a read. -/
def Event.Clear (n : ℕ) (s : State) : Event → Prop
  | .write c => c < n → (∀ e ∈ (s.cpu c).writer.ended, s.Settles c e) ∧ s.Fresh c
  | _ => True

instance (n : ℕ) (s : State) : (e : Event) → Decidable (e.Clear n s)
  | .write c => inferInstanceAs (Decidable (_ → (∀ e ∈ (s.cpu c).writer.ended, _) ∧ _))
  | .tick _ | .setAcct _ | .setHooked _ | .setIdleDepth _ _ | .call | .read => isTrue trivial

def Report.Follows (n mhz : ℕ) (r q : Report) : Prop :=
  ∀ c < n, q.idleUs mhz c ≤ r.idleUs mhz c ∧
    r.idleUs mhz c + q.nowUs mhz ≤ q.idleUs mhz c + r.nowUs mhz + 1

instance (n mhz : ℕ) (r q : Report) : Decidable (r.Follows n mhz q) :=
  inferInstanceAs (Decidable (∀ c < n, _))

namespace State
variable {n : ℕ} {s t : State}

theorem Sound.step (h : Sound n s) {e : Event} (hclear : e.Clear n s)
    (hstep : s.step n e = some t) : Sound n t := by
  cases e with
  | tick d =>
    cases hstep
    exact h.tick d
  | setAcct | setHooked =>
    cases hstep
    exact ⟨h.wf,h.past,h.later,fun r hr => { h.reading r hr with }⟩
  | setIdleDepth c active =>
    obtain ⟨hrest,rfl⟩ := of_guard hstep
    exact h.setIdleDepth hrest active
  | write c =>
    obtain ⟨k,hk,rfl⟩ := map_eq_some_iff.mp hstep
    exact h.write hk (fun hc => (hclear hc).1) fun hc => (hclear hc).2
  | call =>
    simp only [State.step] at hstep
    split at hstep
    · split_ifs at hstep <;> cases hstep
      · exact h.reader nofun
      · exact h
    · contradiction
  | read => exact h.readNext hstep

/-- With clear steps every read agrees with those before: no CPU's idle time has decreased or grown
by more than the time, up to a microsecond of rounding. -/
theorem reports_follow {as : List Event} (hclear : Along (step n) (fun s e => e.Clear n s) boot as)
    (hrun : exec (step n) boot as = some t) (mhz : ℕ) :
    t.reports.Pairwise fun r q => r.Follows n mhz q := by
  have hsound := exec_invariant_along (Sound n) (fun _ _ _ h hc hstep => h.step hc hstep)
    (sound_boot n) hclear hrun
  apply hsound.later.imp
  intro r q hlater c hc
  exact (hlater c hc).div mhz

def wholeRead : List Event := [.call,.read,.read,.read,.read,.read,.read]

def goIdle : List Event :=
  [.setHooked true,.tick 10000,.setIdleDepth 0 false,.write 0,.write 0,.write 0,.write 0]

def apartRun : List Event :=
  goIdle ++ [.tick 10000] ++ wholeRead ++
    [.tick 10000,.setIdleDepth 0 true,.write 0,.write 0,.write 0,.write 0,.tick 10000] ++ wholeRead

theorem reports_follow_apart : ∃ t, exec (step 1) boot apartRun = some t ∧
    t.reports.map (fun r => (r.nowUs 1000,r.idleUs 1000 0)) = [(40,19),(20,9)] ∧
    t.reports.Pairwise fun r q => r.Follows 1 1000 q := by
  have hrun := (some_get (x := exec (step 1) boot apartRun) (by decide +kernel)).symm
  exact ⟨_,hrun,by decide +kernel,reports_follow (by decide +kernel) hrun 1000⟩

def closeAfterSample : List Event :=
  goIdle ++ [.tick 10000] ++ wholeRead ++
    [.tick 10000,.call,.read,.tick 100000,.setIdleDepth 0 true,.write 0,.write 0,.write 0,.write 0,
      .read,.read,.read,.read,.read]

/-- The CPU has sampled the end of its interval at 20 µs and is held up; the read at 30 µs counts
the interval as in progress. -/
def closeAcrossRead : List Event :=
  goIdle ++ [.tick 10000,.setIdleDepth 0 true,.tick 10000] ++ wholeRead ++
    [.write 0,.write 0,.write 0,.write 0,.tick 1000] ++ wholeRead

/-- The idle time may grow by more than the time, and it may decrease. -/
theorem reads_disagree :
    (∃ t, exec (step 1) boot closeAfterSample = some t ∧
      t.reports.map (fun r => (r.nowUs 1000,r.idleUs 1000 0)) = [(30,119),(20,9)] ∧
      ¬t.reports.Pairwise fun r q => r.Follows 1 1000 q) ∧
    ∃ t, exec (step 1) boot closeAcrossRead = some t ∧
      t.reports.map (fun r => (r.nowUs 1000,r.idleUs 1000 0)) = [(31,9),(30,19)] ∧
      ¬t.reports.Pairwise fun r q => r.Follows 1 1000 q := by
  constructor
  · have hrun := (some_get (x := exec (step 1) boot closeAfterSample)
      (by decide +kernel)).symm
    exact ⟨_,hrun,by decide +kernel,by decide +kernel⟩
  · have hrun := (some_get (x := exec (step 1) boot closeAcrossRead)
      (by decide +kernel)).symm
    exact ⟨_,hrun,by decide +kernel,by decide +kernel⟩

end State
end NanoBSD.Lpsched
