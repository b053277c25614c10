import NanoBSD.Lib.Run
import NanoBSD.Timecounter.Hands

/-! # The uptime is a sum of scaled counts

A run of windups with the counts that elapse between them. As long as the active counter does
not turn over between two windups, the time read off the hands is what an ideal clock shows
that adds up scale times counts, interval by interval.
-/
namespace NanoBSD.Timecounter
variable {κ ν : Type} [DecidableEq κ]

/-- The clock with the counters it reads: `total` is how far each has counted, `mark` where the
active one was at the last windup. -/
structure Machine (κ ν : Type) where
  clock : Clock κ ν
  total : κ → ℕ
  mark : ℕ

namespace Machine

def count (tc : κ → Counter) (m : Machine κ ν) : κ → ℕ := fun k => (tc k).getTimecount (m.total k)
def since (m : Machine κ ν) : ℕ := m.total m.clock.hands.counter - m.mark

def windup (update : Ntp ν) (tc : κ → Counter) (m : Machine κ ν) : Machine κ ν :=
  { m with
    clock := tcWindup update tc (m.count tc) m.clock
    mark := m.total m.clock.timecounter }

/-- Counters count, the clock is wound up, also with a new time base, another counter is selected,
and the NTP state is changed. -/
inductive Event (κ ν : Type) where
  | elapse (counts : κ → ℕ)
  | windup
  | setclock (base : Bintime)
  | select (k : κ)
  | discipline (ntp : ν)

/-- The active counter stays short of a full turn between windups. -/
def step (update : Ntp ν) (tc : κ → Counter) (m : Machine κ ν) :
    Event κ ν → Option (Machine κ ν)
  | .elapse counts =>
    if m.since + counts m.clock.hands.counter < (tc m.clock.hands.counter).mask + 1 then
      some { m with total := fun k => m.total k + counts k }
    else none
  | .windup => some (m.windup update tc)
  | .setclock base => some ({ m with clock := { m.clock with timebase := base } }.windup update tc)
  | .select k => some { m with clock := { m.clock with timecounter := k } }
  | .discipline ntp => some { m with clock := { m.clock with ntp := ntp } }

def interval (m : Machine κ ν) : Event κ ν → List (ℕ × ℕ)
  | .windup | .setclock _ => [(m.clock.hands.scale,m.since)]
  | .elapse _ | .select _ | .discipline _ => []

/-- The words of the hands are in range, and the offset count is that of the last windup. -/
structure Sane (tc : κ → Counter) (m : Machine κ ν) : Prop where
  offset : m.clock.hands.offset.Fits
  scale_lt : m.clock.hands.scale < 2^64
  offsetCount_lt : m.clock.hands.offsetCount < 2^64
  offsetCount_eq : m.clock.hands.offsetCount % 2^(tc m.clock.hands.counter).bits =
    m.mark % 2^(tc m.clock.hands.counter).bits
  mark_le : m.mark ≤ m.total m.clock.hands.counter
  since_lt : m.since < 2^(tc m.clock.hands.counter).bits

end Machine

/-- A clock that adds scale times counts for each interval, and never overflows. -/
def ideal (time : ℕ) (interval : ℕ × ℕ) : Option ℕ := some (time + interval.1 * interval.2)
def elapsed (intervals : List (ℕ × ℕ)) : ℕ := (intervals.map fun i => i.1 * i.2).sum

theorem elapsed_append (l l' : List (ℕ × ℕ)) : elapsed (l ++ l') = elapsed l + elapsed l' := by
  simp [elapsed]

theorem exec_ideal (time : ℕ) (intervals : List (ℕ × ℕ)) :
    exec ideal time intervals = some (time + elapsed intervals) := by
  induction intervals generalizing time with
  | nil => rfl
  | cons i rest ih =>
    simp only [exec,ideal,Option.bind_some,ih,elapsed,List.map_cons,List.sum_cons]
    rw [Nat.add_assoc]

namespace Machine
variable {update : Ntp ν} {tc : κ → Counter} {m m' : Machine κ ν} {time : ℕ} {es : List (Event κ ν)}

section

omit [DecidableEq κ]

theorem Sane.tcDelta_eq (h : Sane tc m) : tcDelta tc (m.count tc) m.clock.hands = m.since :=
  Timecounter.tcDelta_eq h.offsetCount_lt h.offsetCount_eq h.mark_le h.since_lt

theorem Sane.since_lt_word (h : Sane tc m) : m.since < 2^32 :=
  Nat.lt_of_lt_of_le h.since_lt (Nat.pow_le_pow_right (by decide) (tc _).bits_le)

theorem Sane.binuptime_eq (h : Sane tc m) (htime : m.clock.hands.offset.toNat = time % 2^128) :
    (binuptime tc (m.count tc) m.clock.hands).toNat =
      (time + m.clock.hands.scale * m.since) % 2^128 := by
  obtain ⟨-,hvalue⟩ := Bintime.addscaled_spec h.offset h.scale_lt h.since_lt_word
  rw [binuptime,h.tcDelta_eq,hvalue,htime]
  omega

end

theorem Sane.windup_offsetCount (h : Sane tc m) (update : Ntp ν) :
    (m.windup update tc).clock.hands.offsetCount % 2^(tc m.clock.timecounter).bits =
      m.total m.clock.timecounter % 2^(tc m.clock.timecounter).bits := by
  change (if m.clock.hands.counter ≠ m.clock.timecounter then _ else _) % _ = _
  split <;> rename_i hswitch
  · exact (tc m.clock.timecounter).getTimecount_mod _
  · rw [not_not] at hswitch
    have hdvd : 2^(tc m.clock.hands.counter).bits ∣ 2^64 :=
      Nat.pow_dvd_pow 2 (Nat.le_trans (tc m.clock.hands.counter).bits_le (by decide))
    have hadd := Nat.ModEq.add_right m.since h.offsetCount_eq
    have htotal : m.mark + m.since = m.total m.clock.hands.counter :=
      Nat.add_sub_cancel' h.mark_le
    rw [htotal] at hadd
    rw [← hswitch,Nat.mod_mod_of_dvd _ hdvd,h.tcDelta_eq]
    exact hadd

def Shows (tc : κ → Counter) (m : Machine κ ν) (time : ℕ) : Prop :=
  Sane tc m ∧ m.clock.hands.offset.toNat = time % 2^128

theorem Shows.windup (h : Shows tc m time) (update : Ntp ν) :
    Shows tc (m.windup update tc) (time + m.clock.hands.scale * m.since) := by
  obtain ⟨h,htime⟩ := h
  obtain ⟨hfits,-⟩ := Bintime.addscaled_spec h.offset h.scale_lt h.since_lt_word
  rw [← h.tcDelta_eq] at hfits
  refine ⟨?_,h.binuptime_eq htime⟩
  constructor
  · exact hfits
  · change (if _ then _ else _) < _
    split
    · exact scaleOf_lt _ _
    · exact h.scale_lt
  · change (if _ then _ else _) < _
    split
    · exact Nat.lt_trans ((tc _).getTimecount_lt _) (by decide)
    · exact Nat.mod_lt _ (by decide)
  · exact h.windup_offsetCount update
  · exact Nat.le_refl _
  · change m.total m.clock.timecounter - m.total m.clock.timecounter < _
    rw [Nat.sub_self]
    exact Nat.pow_pos (by decide)

omit [DecidableEq κ] in
theorem Shows.congr (h : Shows tc m time) (hhands : m'.clock.hands = m.clock.hands)
    (htotal : m'.total = m.total) (hmark : m'.mark = m.mark) : Shows tc m' time := by
  obtain ⟨h,htime⟩ := h
  refine ⟨?_,by rw [hhands,htime]⟩
  constructor
  · rw [hhands]
    exact h.offset
  · rw [hhands]
    exact h.scale_lt
  · rw [hhands]
    exact h.offsetCount_lt
  · rw [hhands,hmark]
    exact h.offsetCount_eq
  · rw [hhands,htotal,hmark]
    exact h.mark_le
  · rw [since,hhands,htotal,hmark]
    exact h.since_lt

omit [DecidableEq κ] in
theorem Shows.elapse (h : Shows tc m time) {counts : κ → ℕ}
    (hlt : m.since + counts m.clock.hands.counter < (tc m.clock.hands.counter).mask + 1) :
    Shows tc { m with total := fun k => m.total k + counts k } time := by
  obtain ⟨h,htime⟩ := h
  have hmark := h.mark_le
  have hmask : (tc m.clock.hands.counter).mask + 1 = 2^(tc m.clock.hands.counter).bits :=
    Nat.sub_add_cancel (Nat.pow_pos (by decide))
  refine ⟨?_,htime⟩
  constructor
  · exact h.offset
  · exact h.scale_lt
  · exact h.offsetCount_lt
  · exact h.offsetCount_eq
  · exact Nat.le_trans hmark (Nat.le_add_right _ _)
  · unfold since at hlt ⊢
    simp only
    omega

theorem Shows.step (m : Machine κ ν) (e : Event κ ν) (m' : Machine κ ν) (time : ℕ)
    (h : Shows tc m time) (hstep : step update tc m e = some m') :
    ∃ time', exec ideal time (m.interval e) = some time' ∧ Shows tc m' time' := by
  cases e with
  | elapse counts =>
    obtain ⟨hlt,rfl⟩ := of_guard hstep
    exact ⟨time,rfl,h.elapse hlt⟩
  | windup =>
    obtain ⟨⟩ := hstep
    exact ⟨_,rfl,h.windup update⟩
  | setclock base =>
    obtain ⟨⟩ := hstep
    have hbase : Shows tc { m with clock := { m.clock with timebase := base } } time :=
      h.congr rfl rfl rfl
    exact ⟨_,rfl,hbase.windup update⟩
  | select k | discipline ntp =>
    obtain ⟨⟩ := hstep
    exact ⟨time,rfl,h.congr rfl rfl rfl⟩

def running (m : Machine κ ν) : ℕ := m.clock.hands.scale * m.since

theorem running_le_step {e : Event κ ν} (h : Shows tc m time)
    (hstep : step update tc m e = some m') : m.running ≤ elapsed (m.interval e) + m'.running := by
  cases e with
  | elapse counts =>
    obtain ⟨-,rfl⟩ := of_guard hstep
    have hmark := h.1.mark_le
    apply Nat.le_add_left_of_le
    apply Nat.mul_le_mul_left
    unfold since
    simp only
    omega
  | windup | setclock base => exact Nat.le_add_right_of_le (by simp [elapsed,interval,running])
  | select k | discipline ntp =>
    obtain ⟨⟩ := hstep
    exact Nat.le_add_left _ _

theorem running_le (h : Shows tc m time) (hrun : exec (step update tc) m es = some m') :
    m.running ≤ elapsed (viewed (step update tc) interval m es) + m'.running := by
  induction es generalizing m time with
  | nil =>
    obtain rfl : m = m' := Option.some.inj hrun
    exact Nat.le_add_left _ _
  | cons e es ih =>
    obtain ⟨u,hu,hrest⟩ := exec_cons_eq_some.mp hrun
    obtain ⟨time',-,hshows⟩ := h.step _ _ _ _ hu
    have hfirst := running_le_step h hu
    have hlater := ih hshows hrest
    simp only [viewed,hu,Option.elim_some,elapsed_append]
    omega

def uptime (tc : κ → Counter) (m : Machine κ ν) : ℕ :=
  (binuptime tc (m.count tc) m.clock.hands).toNat

/-- Scale times counts over the intervals of a run, and since its last windup. -/
def idealTime (update : Ntp ν) (tc : κ → Counter) (m : Machine κ ν) (es : List (Event κ ν))
    (m' : Machine κ ν) : ℕ :=
  m.clock.hands.offset.toNat + elapsed (viewed (step update tc) interval m es) + m'.running

omit [DecidableEq κ] in
theorem Sane.shows (h : Sane tc m) : Shows tc m m.clock.hands.offset.toNat := by
  refine ⟨h,(Nat.mod_eq_of_lt ?_).symm⟩
  obtain ⟨hsec,hfrac⟩ := h.offset
  unfold Bintime.toNat
  omega

theorem uptime_eq_idealTime (h : Sane tc m) (hrun : exec (step update tc) m es = some m') :
    m'.uptime tc = idealTime update tc m es m' % 2^128 := by
  obtain ⟨time,htime,hsane,hoffset⟩ := exec_refines (Shows tc) Shows.step h.shows hrun
  rw [exec_ideal] at htime
  cases htime
  exact hsane.binuptime_eq hoffset

theorem idealTime_le (h : Sane tc m) {later : List (Event κ ν)} {m₁ m₂ : Machine κ ν}
    (hrun : exec (step update tc) m es = some m₁)
    (hlater : exec (step update tc) m₁ later = some m₂) :
    idealTime update tc m es m₁ ≤ idealTime update tc m (es ++ later) m₂ := by
  obtain ⟨time,-,hshows⟩ := exec_refines (Shows tc) Shows.step h.shows hrun
  have hle := running_le hshows hlater
  unfold idealTime
  rw [viewed_append interval hrun,elapsed_append]
  omega

/-- While the active counter stays short of a full turn between windups, the clock reads the scaled
counts of all intervals, modulo 2⁶⁴ seconds, and a later reading is not smaller unless these have
come round. -/
theorem uptime_exact_and_monotone (h : Sane tc m) {es later : List (Event κ ν)}
    {m₁ m₂ : Machine κ ν} (hrun : exec (step update tc) m es = some m₁)
    (hlater : exec (step update tc) m₁ later = some m₂) :
    m₁.uptime tc = idealTime update tc m es m₁ % 2^128 ∧
    (m₁.uptime tc ≤ m₂.uptime tc ∨
      idealTime update tc m es m₁ / 2^128 < idealTime update tc m (es ++ later) m₂ / 2^128) := by
  have hexact := uptime_eq_idealTime h hrun
  have hexact' := uptime_eq_idealTime h
    (show exec (step update tc) m (es ++ later) = some m₂ by rw [exec_append,hrun]; exact hlater)
  have hle := idealTime_le h hrun hlater
  refine ⟨hexact,?_⟩
  rw [hexact,hexact']
  omega

end Machine

def bootCounters : Bool → Counter
  | false => .wide 1000000 (by decide)
  | true => .narrow 3579545 (by decide)

def bootMachine : Machine Bool Unit where
  clock := ⟨⟨false,0,(2^64 - 1) / 1000000,0,⟨1,0⟩,0⟩,false,⟨0,0⟩,()⟩
  total := fun _ => 0
  mark := 0

theorem bootMachine_sane : bootMachine.Sane bootCounters := by
  constructor <;> decide

theorem uptime_exact_and_monotone_boot :
    let update : Ntp Unit := fun _ _ sec => ((),5000 * 2^32,sec)
    let es : List (Machine.Event Bool Unit) :=
      [.elapse fun _ => 3000000,.windup,.select true,.elapse fun _ => 500,.windup,
        .elapse fun _ => 9000000,.windup]
    let later : List (Machine.Event Bool Unit) := [.elapse fun _ => 7]
    ∃ m₁ m₂, exec (Machine.step update bootCounters) bootMachine es = some m₁ ∧
      exec (Machine.step update bootCounters) m₁ later = some m₂ ∧
      m₁.uptime bootCounters =
        Machine.idealTime update bootCounters bootMachine es m₁ % 2^128 := by
  intro update es later
  obtain ⟨m₁,hrun⟩ : ∃ m, exec (Machine.step update bootCounters) bootMachine es = some m :=
    Option.isSome_iff_exists.mp (by decide +kernel)
  obtain ⟨m₂,hlater⟩ :
      ∃ m, exec (Machine.step update bootCounters) bootMachine (es ++ later) = some m :=
    Option.isSome_iff_exists.mp (by decide +kernel)
  rw [exec_append,hrun] at hlater
  exact ⟨m₁,m₂,hrun,hlater,(Machine.uptime_exact_and_monotone bootMachine_sane hrun hlater).1⟩

end NanoBSD.Timecounter
