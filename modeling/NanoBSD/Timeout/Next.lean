import NanoBSD.Timeout.Filing

/-! # The next deadline for the idle loop

Before it stops the periodic tick, the idle loop asks for the ticks until the next callout it
must wake for. `callout_next_ticks` answers from a cached time that is lowered when a callout
goes into the wheel and may be early otherwise; once it has passed, the wheel is walked again.
A callout that is marked deferrable does not count while the policy says so, and a write of
the policy names a new generation for the cache.
-/
namespace NanoBSD.Timeout
open List
variable {ι φ : Type} [DecidableEq ι]

def calloutNoNext : ℤ := 0x3fffffff

structure Scan where
  none : Bool
  best : ℤ
  earliest : ℕ
  skipped : ℕ
  deriving DecidableEq, Repr

def Scan.visit (s : State ι φ) (w : Scan) (c : ι) : Scan :=
  if ¬s.calloutNextHonoured c then { w with skipped := w.skipped + 1 }
  else
    let rel := delta (s.callout c).time s.ticks
    if w.none ∨ rel < w.best then
      { w with none := false, best := rel, earliest := (s.callout c).time }
    else w

def State.scan (s : State ι φ) : Scan :=
  (List.range 1024).foldl (fun w i => (s.queues (.wheel i)).foldl (Scan.visit s) w)
    ⟨true,calloutNoNext,0,0⟩

def State.calloutSetdeferrable (s : State ι φ) (c : ι) (deferrable : Bool) : State ι φ :=
  let s := s.setCallout c { s.callout c with deferrable := deferrable }
  -- it now counts: the cache has to see it
  if deferrable then s else { s with nextGen := 0 }

/-- The callouts of a CPU with the statistics of its cache. `writing` is set while a write of
`kern.callout_deferrable` is under way. -/
structure Cpu (ι φ : Type) where
  cc : State ι φ
  hits : ℕ
  scans : ℕ
  skips : ℕ
  writing : Bool

namespace Cpu

def calloutNextTicks (n : Cpu ι φ) : ℤ × Cpu ι φ :=
  let s := n.cc
  let (best,n) :=
    if ¬s.todo.isEmpty then (0,n)
    else if s.nextGen = s.policyGen ∧ s.nextNone then
      (calloutNoNext,{ n with hits := (n.hits + 1) % 2^64 })
    else if s.nextGen = s.policyGen ∧ 0 < delta s.nextTime s.ticks then
      (delta s.nextTime s.ticks,{ n with hits := (n.hits + 1) % 2^64 })
    else
      (s.scan.best,
        { n with
          cc := { s with
            nextGen := s.policyGen
            nextNone := s.scan.none
            nextTime := s.scan.earliest }
          scans := (n.scans + 1) % 2^64
          skips := (n.skips + s.scan.skipped) % 2^64 })
  (if best < 0 then 0 else best,n)

def storePolicy (n : Cpu ι φ) (t : ℤ) : Cpu ι φ :=
  { n with cc := { n.cc with deferrableEnabled := t ≠ 0 }, writing := true }

def bumpPolicy (n : Cpu ι φ) : Cpu ι φ :=
  let gen := (n.cc.policyGen + 1) % 2^32
  { n with cc := { n.cc with policyGen := gen }, writing := gen = 0 }

/-- The calls on the wheel, the marking of callouts, the halves of a write of the policy, and the
question of the idle loop. -/
inductive Event (ι φ : Type) where
  | call (op : Op ι φ)
  | setdeferrable (c : ι) (deferrable : Bool)
  | store (t : ℤ)
  | bump
  | nextTicks
  deriving DecidableEq, Repr

def step (n : Cpu ι φ) : Event ι φ → Option (Cpu ι φ)
  | .call op => (Timeout.step n.cc op).map fun s => { n with cc := s }
  | .setdeferrable c deferrable => some { n with cc := n.cc.calloutSetdeferrable c deferrable }
  | .store t => if n.writing then none else some (n.storePolicy t)
  | .bump => if n.writing then some n.bumpPolicy else none
  | .nextTicks => some n.calloutNextTicks.2

structure Boot (n : Cpu ι φ) : Prop where
  fresh : Fresh n.cc
  nextGen_eq : n.cc.nextGen = 0
  nextTime_eq : n.cc.nextTime = 0
  policyGen_eq : n.cc.policyGen = 1
  idle : n.writing = false

end Cpu

section Words
variable {a b t now due : ℕ}

theorem delta_bounds (a b : ℕ) : -2^31 ≤ delta a b ∧ delta a b < 2^31 := by
  unfold delta
  dsimp only
  split <;> omega

theorem delta_tick (a : ℕ) (ht : t < 2^32) : delta a ((t + 1) % 2^32) =
    if delta a t = -2^31 then 2^31 - 1 else delta a t - 1 := by
  unfold delta
  dsimp only
  split_ifs <;> omega

theorem delta_neg_iff (hb : b < 2^32) (ht : t < 2^32) (hlo : -2^31 ≤ delta a t - delta b t)
    (hhi : delta a t - delta b t < 2^31) : delta a b < 0 ↔ delta a t < delta b t := by
  unfold delta at hlo hhi ⊢
  dsimp only at hlo hhi ⊢
  split_ifs at hlo hhi ⊢ <;> omega

theorem delta_of_le (hle : now ≤ due) (hlt : due < now + 2^31) :
    delta (due % 2^32) (now % 2^32) = due - now := by
  unfold delta
  dsimp only
  split <;> omega

theorem exists_of_delta_nonneg (ha : a < 2^32) (h : 0 ≤ delta a (now % 2^32)) :
    ∃ due, now ≤ due ∧ due < now + 2^31 ∧ a = due % 2^32 := by
  refine ⟨now + (delta a (now % 2^32)).toNat,?_⟩
  unfold delta at h ⊢
  dsimp only at h ⊢
  split at h <;> omega

end Words

/-- The cached time is exact or early, and there is none only if no callout in the wheel
counts. -/
structure Cached (s : State ι φ) : Prop where
  none : s.nextNone → ∀ i, ∀ c ∈ s.queues (.wheel i), ¬s.calloutNextHonoured c
  early : ¬s.nextNone → ∀ i, ∀ c ∈ s.queues (.wheel i), s.calloutNextHonoured c →
    delta s.nextTime s.ticks ≤ delta (s.callout c).time s.ticks

variable {s t : State ι φ} {n m : Cpu ι φ} {c : ι} {now : ℕ} {lo : ι → ℕ} {toTicks : ℕ}

section Walk

structure Scan.Found (s : State ι φ) (w : Scan) (seen : List ι) : Prop where
  none : w.none → ∀ c ∈ seen, ¬s.calloutNextHonoured c
  earliest_eq : w.earliest = 0 ∨ ∃ c ∈ seen, w.earliest = (s.callout c).time
  best_eq : ¬w.none → w.best = delta w.earliest s.ticks
  best_le : ¬w.none → ∀ c ∈ seen, s.calloutNextHonoured c →
    w.best ≤ delta (s.callout c).time s.ticks

section

variable {w : Scan} {seen : List ι}

omit [DecidableEq ι]

theorem Scan.Found.visit (h : w.Found s seen) (c : ι) : (w.visit s c).Found s (seen ++ [c]) := by
  unfold Scan.visit
  split
  · rename_i hskip
    constructor
    · simpa [or_imp,forall_and,hskip] using h.none
    · exact h.earliest_eq.imp_right fun ⟨d,hd,he⟩ => ⟨d,mem_append_left _ hd,he⟩
    · exact h.best_eq
    · simpa [or_imp,forall_and,hskip] using h.best_le
  · dsimp only
    split
    · rename_i hbest
      constructor
      · simp
      · exact .inr ⟨c,by simp,rfl⟩
      · simp
      · intro _ d hd hhon
        rcases mem_append.mp hd with hd | hd
        · rcases hbest with hnone | hlt
          · exact absurd hhon (h.none hnone d hd)
          · by_cases hnone : w.none
            · exact absurd hhon (h.none hnone d hd)
            · exact (le_of_lt hlt).trans (h.best_le hnone d hd hhon)
        · simp [mem_singleton.mp hd]
    · rename_i hbest
      obtain ⟨hnone,hle⟩ := not_or.mp hbest
      constructor
      · exact fun hn => absurd hn hnone
      · exact h.earliest_eq.imp_right fun ⟨d,hd,he⟩ => ⟨d,mem_append_left _ hd,he⟩
      · exact h.best_eq
      · intro _ d hd hhon
        rcases mem_append.mp hd with hd | hd
        · exact h.best_le hnone d hd hhon
        · rw [mem_singleton.mp hd]
          exact not_lt.mp hle

theorem Scan.Found.foldl (h : w.Found s seen) (l : List ι) :
    (l.foldl (Scan.visit s) w).Found s (seen ++ l) := by
  induction l generalizing w seen with
  | nil => simpa using h
  | cons c l ih => simpa using ih (h.visit c)

theorem State.scan_found (s : State ι φ) :
    s.scan.Found s ((List.range 1024).flatMap fun i => s.queues (.wheel i)) := by
  have hstart : Scan.Found s ⟨true,calloutNoNext,0,0⟩ [] := ⟨by simp,.inl rfl,by simp,by simp⟩
  have h := hstart.foldl ((List.range 1024).flatMap fun i => s.queues (.wheel i))
  rwa [foldl_flatMap,nil_append] at h

end
end Walk

omit [DecidableEq ι] in
theorem lpschedCoalesce_lt (g : Governor) (co : Callout φ) (toTicks now : ℕ) :
    lpschedCoalesce g co toTicks now < 2^32 := by
  unfold lpschedCoalesce
  dsimp only
  split_ifs <;> exact Nat.mod_lt _ (by decide)

/-- No comparison of words on the way of the call goes over half the range. -/
def Op.Clear (s : State ι φ) : Op ι φ → Prop
  | .schedule c toTicks | .reset c toTicks _ =>
    0 ≤ delta (lpschedCoalesce s.governor (s.callout c) toTicks s.ticks) s.ticks
  | .hardclock =>
    s.nextGen = s.policyGen → ¬s.nextNone → delta s.nextTime s.ticks ≠ -2^31
  | .next => ∀ c ∈ s.todo.head?, 0 < delta (s.callout c).time s.ticks →
    s.nextGen = s.policyGen → ¬s.nextNone → s.calloutNextHonoured c →
      delta (s.callout c).time s.ticks - delta s.nextTime s.ticks < 2^31
  | .stop _ | .enter | .ret | .leave => True

instance (s : State ι φ) : ∀ op : Op ι φ, Decidable (op.Clear s)
  | .schedule _ _ | .reset _ _ _ => inferInstanceAs (Decidable (_ ≤ _))
  | .hardclock => inferInstanceAs (Decidable (_ → _))
  | .next => inferInstanceAs (Decidable (∀ c ∈ s.todo.head?, _))
  | .stop _ | .enter | .ret | .leave => isTrue trivial

theorem Kept.scheduleClear (h : Kept s now lo) (hclear : (.schedule c toTicks : Op ι φ).Clear s) :
    ∃ lo', Kept (s.calloutScheduleLocked c toTicks) now lo' := by
  have hrel : 0 ≤ delta _ s.ticks := hclear
  rw [h.ticks_eq] at hrel
  obtain ⟨due,hle,hlt,htime⟩ := exists_of_delta_nonneg (lpschedCoalesce_lt _ _ _ _) hrel
  rw [← h.ticks_eq] at htime
  exact ⟨_,h.schedule hle hlt htime⟩

theorem Op.Clear.setFunc {func : φ} (h : (.reset c toTicks func : Op ι φ).Clear s)
    (func' : φ) : (.schedule c toTicks : Op ι φ).Clear
      (s.setCallout c { s.callout c with func := some func' }) := by
  simp only [Op.Clear,State.setCallout,Function.update_self]
  exact h

theorem Kept.stepClear {op : Op ι φ} (h : Kept s now lo) (hclear : op.Clear s)
    (hstep : step s op = some t) : ∃ now' lo', Kept t now' lo' := by
  cases op with
  | schedule c toTicks =>
    obtain ⟨-,rfl⟩ := of_guard hstep
    exact ⟨now,h.scheduleClear hclear⟩
  | reset c toTicks func =>
    obtain ⟨-,rfl⟩ := of_guard hstep
    have hfunc : Kept (s.setCallout c { s.callout c with func := some func }) now lo :=
      h.setCallout rfl rfl
    exact ⟨now,hfunc.scheduleClear (hclear.setFunc func)⟩
  | stop | hardclock | next | enter | ret | leave =>
    obtain ⟨now',h'⟩ := h.unrequested (fun _ _ => id) hstep
    exact ⟨now',lo,h'⟩

section Cache

omit [DecidableEq ι] in
theorem Cached.mono (h : Cached s) (hnone : t.nextNone = s.nextNone)
    (htime : t.nextTime = s.nextTime) (hticks : t.ticks = s.ticks)
    (hmem : ∀ i, ∀ c ∈ t.queues (.wheel i), t.calloutNextHonoured c →
      c ∈ s.queues (.wheel i) ∧ s.calloutNextHonoured c ∧
        delta (s.callout c).time s.ticks ≤ delta (t.callout c).time s.ticks) : Cached t := by
  constructor
  · intro hn i c hc hhon
    obtain ⟨hc',hhon',-⟩ := hmem i c hc hhon
    exact h.none (hnone ▸ hn) i c hc' hhon'
  · intro hn i c hc hhon
    obtain ⟨hc',hhon',hle⟩ := hmem i c hc hhon
    rw [htime,hticks]
    exact (h.early (hnone ▸ hn) i c hc' hhon').trans hle

variable {lo : ι → ℕ} {i : ℕ} {op : Op ι φ}

theorem Cached.schedule {toTicks : ℕ} (h : Cached s) (hkept : Kept s now lo)
    (hclear : (.schedule c toTicks : Op ι φ).Clear s) :
    Cached (s.calloutScheduleLocked c toTicks) := by
  have hrel : 0 ≤ delta _ s.ticks := hclear
  obtain ⟨co,queues,heq,hco,-,hdef,-,hmem⟩ := schedule_cases hkept.placed c toTicks
  rw [heq]
  refine h.mono rfl rfl rfl fun i d hd hhon => ?_
  obtain ⟨hold,hlater⟩ := hmem i d hd
  by_cases hdc : d = c
  · subst hdc
    refine ⟨hold,by simpa [State.calloutNextHonoured,hdef] using hhon,?_⟩
    obtain ⟨e,hnow,he,hword,-⟩ := hkept.lt_of_wheel hold
    rw [← hco,hkept.ticks_eq] at hrel
    obtain ⟨due,hle,hlt,htime⟩ := exists_of_delta_nonneg (hco ▸ lpschedCoalesce_lt _ _ _ _) hrel
    rw [htime,hword] at hlater
    have hle' := le_of_delta_nonneg hnow he hle hlt (hlater rfl)
    simp only [State.setCallout_callout,Function.update_self,htime,hword,hkept.ticks_eq]
    rw [delta_of_le hle hlt,delta_of_le hnow.le he]
    omega
  · simpa [State.calloutNextHonoured,hdc] using And.intro hold hhon

theorem Cached.stop (h : Cached s) (hkept : Kept s now lo) (c : ι) :
    Cached (s.calloutStop c).2 := by
  refine h.mono rfl rfl rfl fun i d hd hhon => ?_
  have hd' : d ∈ s.queues (.wheel i) ∧ d ≠ c := by
    simp only [State.calloutStop] at hd
    split at hd <;> rename_i hpending
    · exact (hkept.placed.mem_remove.mp hd).symm
    · refine ⟨hd,?_⟩
      rintro rfl
      exact hpending ((hkept.placed.mem_iff d).mp ⟨_,hd⟩)
  simpa [State.calloutNextHonoured,State.calloutStop,hd'] using hhon

omit [DecidableEq ι] in
theorem Cached.tick (h : Cached s) (hticks : s.ticks < 2^32)
    (hclear : ¬s.nextNone → delta s.nextTime s.ticks ≠ -2^31) : Cached s.calloutHardclock := by
  constructor
  · intro hn i c hc
    exact h.none hn i c (State.mem_moveBuckets_wheel hc).1
  · intro hn i c hc hhon
    have hle := h.early hn i c (State.mem_moveBuckets_wheel hc).1 hhon
    have hne := hclear hn
    have hbound := (delta_bounds s.nextTime s.ticks).2
    simp only [State.calloutHardclock]
    rw [delta_tick _ hticks,delta_tick _ hticks,if_neg hne]
    split <;> omega

theorem Cached.file (h : Cached s) (hkept : Kept s now lo) (htime : s.nextTime < 2^32)
    (hrel : 0 < delta (s.callout c).time s.ticks)
    (hclear : ¬s.nextNone → s.calloutNextHonoured c →
      delta (s.callout c).time s.ticks - delta s.nextTime s.ticks < 2^31)
    (hgen : s.nextGen = s.policyGen) :
    Cached ({ s with queues := (s.queues.remove c).insert c (.wheel i) }.calloutNextNote c) := by
  have hmem {j : ℕ} {d : ι} (hd : d ∈ (s.queues.remove c).insert c (.wheel i) (.wheel j)) :
      d = c ∨ d ∈ s.queues (.wheel j) := by
    rcases Queues.mem_insert.mp hd with hd | ⟨-,hd⟩
    · exact .inr (hkept.placed.mem_remove.mp hd).2
    · exact .inl hd
  have hsign (hnone : ¬s.nextNone) (hhon : s.calloutNextHonoured c) :
      delta (s.callout c).time s.nextTime < 0 ↔
        delta (s.callout c).time s.ticks < delta s.nextTime s.ticks := by
    have hbound := (delta_bounds s.nextTime s.ticks).2
    exact delta_neg_iff htime hkept.ticks_lt (by omega) (hclear hnone hhon)
  unfold State.calloutNextNote
  split_ifs with hskip hnote
  · have hskip : ¬s.calloutNextHonoured c := hskip.resolve_left (not_not.mpr hgen)
    refine h.mono rfl rfl rfl fun j d hd hhon => ?_
    rcases hmem hd with rfl | hd
    · exact absurd hhon hskip
    · exact ⟨hd,hhon,le_refl _⟩
  · have hhon : s.calloutNextHonoured c := not_not.mp (not_or.mp hskip).2
    constructor
    · simp
    · intro _ j d hd hhon'
      rcases hmem hd with rfl | hd
      · exact le_refl _
      · have hnone : ¬s.nextNone := fun hnone => h.none hnone j d hd hhon'
        have hlt := (hsign hnone hhon).mp (hnote.resolve_left hnone)
        exact (le_of_lt hlt).trans (h.early hnone j d hd hhon')
  · have hhon : s.calloutNextHonoured c := not_not.mp (not_or.mp hskip).2
    obtain ⟨hnone,hle⟩ := not_or.mp hnote
    constructor
    · exact fun hn => absurd hn hnone
    · intro _ j d hd hhon'
      rcases hmem hd with rfl | hd
      · exact not_lt.mp (mt (hsign hnone hhon).mpr hle)
      · exact h.early hnone j d hd hhon'

theorem Cached.fire {co : Callout φ} {late : ℕ} {active : Option ι} (h : Cached s)
    (hkept : Kept s now lo) : Cached { s.setCallout c co with
      queues := s.queues.remove c
      late := late
      active := active } := by
  refine h.mono rfl rfl rfl fun i d hd hhon => ?_
  obtain ⟨hne,hd⟩ := hkept.placed.mem_remove.mp hd
  simpa [State.calloutNextHonoured,hne,hd] using hhon

theorem Cached.stepClear (h : Cached s) (hkept : Kept s now lo)
    (htime : s.nextTime < 2^32) (hgen : s.nextGen = s.policyGen) (hclear : op.Clear s)
    (hstep : step s op = some t) : Cached t := by
  cases op with
  | schedule c toTicks =>
    obtain ⟨-,rfl⟩ := of_guard hstep
    exact h.schedule hkept hclear
  | reset c toTicks func =>
    obtain ⟨-,rfl⟩ := of_guard hstep
    have hfunc : Kept (s.setCallout c { s.callout c with func := some func }) now lo :=
      hkept.setCallout rfl rfl
    refine Cached.schedule (h.mono rfl rfl rfl fun i d hd hhon => ?_) hfunc (hclear.setFunc func)
    by_cases hdc : d = c
    · subst hdc
      simpa [State.calloutNextHonoured] using And.intro hd hhon
    · simpa [State.calloutNextHonoured,hdc] using And.intro hd hhon
  | stop c =>
    obtain ⟨⟩ := hstep
    exact h.stop hkept c
  | hardclock =>
    obtain ⟨⟩ := hstep
    exact h.tick hkept.ticks_lt (hclear hgen)
  | next =>
    obtain ⟨-,hnext⟩ := Option.ite_none_right_eq_some.mp hstep
    unfold State.softclockNext at hnext
    split at hnext
    · simp at hnext
    · rename_i c rest htodo
      dsimp only at hnext
      split at hnext <;> obtain ⟨⟩ := hnext <;> rename_i hrel
      · exact h.file hkept htime hrel (hclear c (by simp [htodo]) hrel hgen) hgen
      · exact h.fire hkept
  | enter | ret | leave =>
    obtain ⟨-,rfl⟩ := of_guard hstep
    exact h.mono rfl rfl rfl fun i d hd hhon => ⟨hd,hhon,le_refl _⟩

theorem step_cache (hplaced : s.queues.Placed fun c => (s.callout c).pending)
    (hstep : step s op = some t) : t.nextGen = s.nextGen ∧ t.policyGen = s.policyGen ∧
      (t.nextTime = s.nextTime ∨ ∃ c, (s.callout c).pending ∧ t.nextTime = (s.callout c).time) := by
  cases op with
  | schedule c toTicks =>
    obtain ⟨-,rfl⟩ := of_guard hstep
    obtain ⟨co,queues,heq,-⟩ := schedule_cases hplaced c toTicks
    rw [heq]
    exact ⟨rfl,rfl,.inl rfl⟩
  | reset c toTicks func =>
    obtain ⟨-,rfl⟩ := of_guard hstep
    rw [State.calloutReset,State.calloutScheduleLocked]
    dsimp only
    split_ifs <;> exact ⟨rfl,rfl,.inl rfl⟩
  | stop c | hardclock =>
    obtain ⟨⟩ := hstep
    exact ⟨rfl,rfl,.inl rfl⟩
  | next =>
    obtain ⟨-,hnext⟩ := Option.ite_none_right_eq_some.mp hstep
    unfold State.softclockNext at hnext
    split at hnext
    · simp at hnext
    · rename_i c rest htodo
      dsimp only at hnext
      split at hnext <;> obtain ⟨⟩ := hnext
      · unfold State.calloutNextNote
        split_ifs
        · exact ⟨rfl,rfl,.inl rfl⟩
        · refine ⟨rfl,rfl,.inr ⟨c,(hplaced.mem_iff c).mp ⟨.todo,?_⟩,rfl⟩⟩
          change c ∈ s.todo
          simp [htodo]
        · exact ⟨rfl,rfl,.inl rfl⟩
      · exact ⟨rfl,rfl,.inl rfl⟩
  | enter | ret | leave =>
    obtain ⟨-,rfl⟩ := of_guard hstep
    exact ⟨rfl,rfl,.inl rfl⟩

omit [DecidableEq ι] in
theorem Kept.mem_walk (h : Kept s now lo) (hc : c ∈ s.queues (.wheel i)) :
    c ∈ (List.range 1024).flatMap fun i => s.queues (.wheel i) := by
  obtain ⟨e,-,-,-,hfiled⟩ := h.lt_of_wheel hc
  exact mem_flatMap.mpr ⟨i,mem_range.mpr hfiled.lt.2,hc⟩

omit [DecidableEq ι] in
theorem Scan.Found.cached {w : Scan} (hkept : Kept s now lo)
    (h : w.Found s ((List.range 1024).flatMap fun i => s.queues (.wheel i))) :
    Cached { s with nextGen := s.policyGen, nextNone := w.none, nextTime := w.earliest } := by
  constructor
  · exact fun hn i c hc => h.none hn c (hkept.mem_walk hc)
  · intro hn i c hc hhon
    rw [← h.best_eq hn]
    exact h.best_le hn c (hkept.mem_walk hc) hhon

end Cache

namespace Cpu

/-- A new generation is not the one the cache was computed for, and no comparison of words
goes over half the range. -/
def Event.Clear (n : Cpu ι φ) : Event ι φ → Prop
  | .call op => op.Clear n.cc
  | .bump => (n.cc.policyGen + 1) % 2^32 ≠ 0 → (n.cc.policyGen + 1) % 2^32 ≠ n.cc.nextGen
  | .setdeferrable _ _ | .store _ | .nextTicks => True

instance (n : Cpu ι φ) : ∀ e : Event ι φ, Decidable (e.Clear n)
  | .call op => inferInstanceAs (Decidable (op.Clear n.cc))
  | .bump => inferInstanceAs (Decidable (_ → _))
  | .setdeferrable _ _ | .store _ | .nextTicks => isTrue trivial

structure Sound (n : Cpu ι φ) : Prop where
  kept : ∃ now lo, Kept n.cc now lo
  time_lt : n.cc.nextTime < 2^32
  gen_ne : n.writing = false → n.cc.policyGen ≠ 0
  cached : n.writing = false → n.cc.nextGen = n.cc.policyGen → Cached n.cc

omit [DecidableEq ι] in
theorem Boot.sound (h : Boot n) : Sound n where
  kept := ⟨_,_,h.fresh.kept fun _ => 0⟩
  time_lt := by simp [h.nextTime_eq]
  gen_ne := by simp [h.policyGen_eq]
  cached := by simp [h.nextGen_eq,h.policyGen_eq]

omit [DecidableEq ι] in
theorem Kept.time_lt {lo : ι → ℕ} (h : Kept s now lo) (hc : (s.callout c).pending) :
    (s.callout c).time < 2^32 := by
  obtain ⟨e,-,-,htime,-⟩ := h.timed c hc
  rw [htime]
  exact Nat.mod_lt _ (by decide)

theorem Sound.call (h : Sound n) {op : Op ι φ} (hclear : op.Clear n.cc)
    (hstep : Timeout.step n.cc op = some s) : Sound { n with cc := s } := by
  obtain ⟨now,lo,hkept⟩ := h.kept
  obtain ⟨hgen,hpolicy,htime⟩ := step_cache hkept.placed hstep
  constructor
  · exact hkept.stepClear hclear hstep
  · rcases htime with htime | ⟨c,hc,htime⟩ <;> simp only [htime]
    · exact h.time_lt
    · exact Kept.time_lt hkept hc
  · intro hw
    rw [hpolicy]
    exact h.gen_ne hw
  · intro hw hvalid
    rw [hgen,hpolicy] at hvalid
    exact (h.cached hw hvalid).stepClear hkept h.time_lt hvalid hclear hstep

theorem Sound.setdeferrable (h : Sound n) (c : ι) (deferrable : Bool) :
    Sound { n with cc := n.cc.calloutSetdeferrable c deferrable } := by
  obtain ⟨now,lo,hkept⟩ := h.kept
  have hkept' : Kept (n.cc.setCallout c { n.cc.callout c with deferrable := deferrable }) now lo :=
    hkept.setCallout rfl rfl
  cases deferrable with
  | false =>
    constructor
    · exact ⟨now,lo,hkept'.same rfl rfl rfl⟩
    · exact h.time_lt
    · exact h.gen_ne
    · exact fun hw hvalid => absurd hvalid.symm (h.gen_ne hw)
  | true =>
    constructor
    · exact ⟨now,lo,hkept'⟩
    · exact h.time_lt
    · exact h.gen_ne
    · intro hw hvalid
      refine (h.cached hw hvalid).mono rfl rfl rfl fun i d hd hhon => ?_
      by_cases hdc : d = c
      · have hoff : n.cc.deferrableEnabled = false := by
          simpa [State.calloutSetdeferrable,State.calloutNextHonoured,hdc] using hhon
        subst hdc
        exact ⟨hd,by simp [State.calloutNextHonoured,hoff],by simp [State.calloutSetdeferrable]⟩
      · simpa [State.calloutNextHonoured,State.calloutSetdeferrable,hdc] using And.intro hd hhon

omit [DecidableEq ι] in
theorem calloutNextTicks_cases (n : Cpu ι φ) :
    (n.cc.todo ≠ [] ∧ n.calloutNextTicks = (0,n)) ∨
    (n.cc.todo = [] ∧
      ((n.cc.nextGen = n.cc.policyGen ∧ n.cc.nextNone ∧
        n.calloutNextTicks = (calloutNoNext,{ n with hits := (n.hits + 1) % 2^64 })) ∨
      (n.cc.nextGen = n.cc.policyGen ∧ ¬n.cc.nextNone ∧
        n.calloutNextTicks =
          (delta n.cc.nextTime n.cc.ticks,{ n with hits := (n.hits + 1) % 2^64 })) ∨
      ∃ w : Scan, w.Found n.cc ((List.range 1024).flatMap fun i => n.cc.queues (.wheel i)) ∧
        n.calloutNextTicks = (if w.best < 0 then 0 else w.best,
          { n with
            cc := { n.cc with
              nextGen := n.cc.policyGen
              nextNone := w.none
              nextTime := w.earliest }
            scans := (n.scans + 1) % 2^64
            skips := (n.skips + w.skipped) % 2^64 }))) := by
  by_cases htodo : n.cc.todo = []
  · have hempty : ¬¬n.cc.todo.isEmpty := by simp [htodo]
    refine .inr ⟨htodo,?_⟩
    by_cases hnone : n.cc.nextGen = n.cc.policyGen ∧ n.cc.nextNone
    · refine .inl ⟨hnone.1,hnone.2,?_⟩
      simp only [calloutNextTicks,if_neg hempty,if_pos hnone]
      rfl
    · by_cases hhit : n.cc.nextGen = n.cc.policyGen ∧ 0 < delta n.cc.nextTime n.cc.ticks
      · refine .inr (.inl ⟨hhit.1,fun h => hnone ⟨hhit.1,h⟩,?_⟩)
        simp only [calloutNextTicks,if_neg hempty,if_neg hnone,if_pos hhit,
          if_neg (not_lt.mpr (le_of_lt hhit.2))]
      · refine .inr (.inr ⟨n.cc.scan,n.cc.scan_found,?_⟩)
        simp only [calloutNextTicks,if_neg hempty,if_neg hnone,if_neg hhit]
  · exact .inl ⟨htodo,by simp [calloutNextTicks,htodo]⟩

omit [DecidableEq ι] in
theorem Sound.nextTicks (h : Sound n) : Sound n.calloutNextTicks.2 := by
  obtain ⟨now,lo,hkept⟩ := h.kept
  rcases n.calloutNextTicks_cases with
    ⟨-,heq⟩ | ⟨-,⟨-,-,heq⟩ | ⟨-,-,heq⟩ | ⟨w,hfound,heq⟩⟩ <;> rw [heq]
  · exact h
  · exact ⟨h.kept,h.time_lt,h.gen_ne,h.cached⟩
  · exact ⟨h.kept,h.time_lt,h.gen_ne,h.cached⟩
  · constructor
    · exact ⟨now,lo,hkept.same rfl rfl rfl⟩
    · rcases hfound.earliest_eq with hzero | ⟨c,hc,htime⟩
      · simp [hzero]
      · obtain ⟨i,-,hi⟩ := mem_flatMap.mp hc
        simp only [htime]
        exact Kept.time_lt hkept ((hkept.placed.mem_iff c).mp ⟨_,hi⟩)
    · exact h.gen_ne
    · exact fun _ _ => hfound.cached hkept

theorem Sound.step (n : Cpu ι φ) (e : Event ι φ) (m : Cpu ι φ) (h : Sound n) (hclear : e.Clear n)
    (hstep : step n e = some m) : Sound m := by
  cases e with
  | call op =>
    obtain ⟨s,hs,rfl⟩ := Option.map_eq_some_iff.mp hstep
    exact h.call hclear hs
  | setdeferrable c deferrable =>
    obtain ⟨⟩ := hstep
    exact h.setdeferrable c deferrable
  | store t =>
    obtain ⟨-,rfl⟩ := of_unless hstep
    obtain ⟨now,lo,hkept⟩ := h.kept
    exact ⟨⟨now,lo,hkept.same rfl rfl rfl⟩,h.time_lt,nofun,nofun⟩
  | bump =>
    obtain ⟨-,rfl⟩ := of_guard hstep
    obtain ⟨now,lo,hkept⟩ := h.kept
    constructor
    · exact ⟨now,lo,hkept.same rfl rfl rfl⟩
    · exact h.time_lt
    · exact of_decide_eq_false
    · exact fun hw hvalid => absurd hvalid.symm (hclear (of_decide_eq_false hw))
  | nextTicks =>
    obtain ⟨⟩ := hstep
    exact h.nextTicks

omit [DecidableEq ι] in
theorem Sound.calloutNextTicks_le (h : Sound n) (hidle : n.writing = false)
    (hpending : (n.cc.callout c).pending) (hhon : n.cc.calloutNextHonoured c) :
    n.calloutNextTicks.1 ≤ max 0 (delta (n.cc.callout c).time n.cc.ticks) := by
  obtain ⟨now,lo,hkept⟩ := h.kept
  obtain ⟨p,hp⟩ := (hkept.placed.mem_iff c).mpr hpending
  rcases n.calloutNextTicks_cases with ⟨-,heq⟩ | ⟨htodo,hcase⟩
  · rw [heq]
    exact le_max_left _ _
  cases p with
  | todo =>
    change c ∈ n.cc.todo at hp
    simp [htodo] at hp
  | wheel i =>
    rcases hcase with ⟨hvalid,hnone,-⟩ | ⟨hvalid,hnone,heq⟩ | ⟨w,hfound,heq⟩
    · exact absurd hhon ((h.cached hidle hvalid).none hnone i c hp)
    · rw [heq]
      exact ((h.cached hidle hvalid).early hnone i c hp hhon).trans (le_max_right _ _)
    · have hnone : ¬w.none := fun hnone => hfound.none hnone c (hkept.mem_walk hp) hhon
      rw [heq]
      dsimp only
      split
      · exact le_max_left _ _
      · exact (hfound.best_le hnone c (hkept.mem_walk hp) hhon).trans (le_max_right _ _)

/-- If no comparison goes over half the range and no generation comes round to the one cached, the
cache is exact or early with no write of the policy under way, and the idle loop is never told more
ticks than remain until a callout it must wake for. -/
theorem next_ticks_never_late (hboot : Boot n) {es : List (Event ι φ)}
    (hclear : Along step (fun n e => e.Clear n) n es) (hrun : exec step n es = some m)
    (hidle : m.writing = false) :
    (m.cc.nextGen = m.cc.policyGen → Cached m.cc) ∧
    ∀ c, (m.cc.callout c).pending → m.cc.calloutNextHonoured c →
      m.calloutNextTicks.1 ≤ max 0 (delta (m.cc.callout c).time m.cc.ticks) := by
  have h := exec_invariant_along Sound Sound.step hboot.sound hclear hrun
  exact ⟨h.cached hidle,fun c => h.calloutNextTicks_le hidle⟩

def quietCpu : Cpu ℕ Unit where
  cc := quiet
  hits := 0
  scans := 0
  skips := 0
  writing := false

theorem quietCpu_boot : Boot quietCpu where
  fresh := quiet_fresh
  nextGen_eq := rfl
  nextTime_eq := rfl
  policyGen_eq := rfl
  idle := rfl

/-- The first callout has run, its time is the cached one, and two more have been filed, in
`far` ticks the second of them. -/
def staleRun (far : ℕ) : List (Event ℕ Unit) :=
  [.call (.reset 0 2 ()),.call .hardclock,.call .enter,.call .next,.call .leave,.nextTicks,
    .call .hardclock,.call .enter,.call .next,.call .ret,.call .leave,.call .hardclock,
    .call (.reset 1 10 ()),.call (.reset 2 far ()),.call .hardclock,.call .enter,.call .next,
    .call .next,.call .leave]

theorem next_ticks_never_late_staleRun : ∃ m, exec step quietCpu (staleRun 1000) = some m ∧
    m.calloutNextTicks.1 ≤ max 0 (delta (m.cc.callout 1).time m.cc.ticks) := by
  obtain ⟨m,hrun,hidle,hpending,hhonoured⟩ : ∃ m, exec step quietCpu (staleRun 1000) = some m ∧
      m.writing = false ∧ (m.cc.callout 1).pending ∧ m.cc.calloutNextHonoured 1 := by decide +kernel
  exact ⟨m,hrun,(next_ticks_never_late quietCpu_boot (by decide +kernel) hrun hidle).2 1 hpending
    hhonoured⟩

/-- A callout of `INT_MAX` ticks looks earlier than a cached time that has just passed. -/
theorem far_callout_raises_cache : ∃ m, exec step quietCpu (staleRun (2^31 - 1)) = some m ∧
    m.writing = false ∧ (m.cc.callout 1).pending ∧ m.cc.calloutNextHonoured 1 ∧
    delta (m.cc.callout 1).time m.cc.ticks = 9 ∧ m.calloutNextTicks.1 = 2^31 - 2 := by
  decide +kernel

end Cpu
end NanoBSD.Timeout
