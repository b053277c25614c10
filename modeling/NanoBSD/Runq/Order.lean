import NanoBSD.Runq.Queue

/-! # The run queues are in order

On every CPU the bitmap, the highest priority and the two counts say what is on the queues,
every runnable LWP is on the one queue of its CPU and its priority, and the LWP that is
picked next has the highest priority there.
-/
namespace NanoBSD.Runq
open Function List
variable {γ ι : Type}

namespace Spc

def queued (spc : Spc ι) : List ι := (List.range priCount).flatMap spc.queue

structure Wf (spc : Spc ι) (bound : ι → Bool) : Prop where
  marked_iff : ∀ p, spc.bitmap.Marked p ↔ spc.queue p ≠ []
  greatest : Greatest (fun p => spc.queue p ≠ []) spc.maxpriority
  count_eq : spc.count = spc.queued.length
  mcount_eq : spc.mcount = spc.queued.countP fun l => !bound l

section Fields
variable (spc : Spc ι) (acct : Bool) (now : ℕ) (l : ι) (e : ℕ) (bd head : Bool)

theorem schedEnqueue_eq : spc.schedEnqueue acct now l e bd head =
    { spc with
      queue := update spc.queue e (if head then l :: spc.queue e else spc.queue e ++ [l])
      bitmap := if spc.queue e = [] then spc.bitmap.mark e else spc.bitmap
      count := spc.count + 1
      mcount := if bd then spc.mcount else spc.mcount + 1
      maxpriority := if spc.maxpriority < e then e else spc.maxpriority
      idle := false
      qSince := if acct ∧ spc.count = 0 then now else spc.qSince } := by
  unfold schedEnqueue lpschedEnqueued
  cases acct with
  | false => simp
  | true => by_cases h : spc.count = 0 <;> simp [h]

@[simp] theorem schedEnqueue_queue : (spc.schedEnqueue acct now l e bd head).queue =
    update spc.queue e (if head then l :: spc.queue e else spc.queue e ++ [l]) := by
  rw [schedEnqueue_eq]

@[simp] theorem schedEnqueue_migrating : (spc.schedEnqueue acct now l e bd head).migrating =
    spc.migrating := by
  rw [schedEnqueue_eq]

variable [DecidableEq ι]

theorem schedDequeue_eq : spc.schedDequeue acct l e bd =
    { spc with
      queue := update spc.queue e ((spc.queue e).erase l)
      bitmap := if (spc.queue e).erase l = [] then spc.bitmap.unmark e else spc.bitmap
      count := spc.count - 1
      mcount := if bd then spc.mcount else spc.mcount - 1
      maxpriority :=
        if (spc.queue e).erase l = [] then
          if e ≠ spc.maxpriority then spc.maxpriority else (spc.bitmap.unmark e).scan (e >>> 5)
        else spc.maxpriority
      migrating := if spc.migrating = some l then none else spc.migrating
      qSince := if acct ∧ spc.count - 1 = 0 then 0 else spc.qSince } := by
  unfold schedDequeue lpschedDequeued
  by_cases hq : (spc.queue e).erase l = []
  all_goals
    cases acct with
    | false => simp [hq,-erase_eq_nil_iff]
    | true => by_cases h : spc.count - 1 = 0 <;> simp [h,hq,-erase_eq_nil_iff]

@[simp] theorem schedDequeue_queue : (spc.schedDequeue acct l e bd).queue =
    update spc.queue e ((spc.queue e).erase l) := by
  rw [schedDequeue_eq]

@[simp] theorem schedDequeue_migrating : (spc.schedDequeue acct l e bd).migrating =
    if spc.migrating = some l then none else spc.migrating := by
  rw [schedDequeue_eq]

end Fields

variable {spc : Spc ι} {bound : ι → Bool} {l : ι} {e : ℕ}

theorem schedEnqueue_ne_nil (acct : Bool) (now p : ℕ) (bd head : Bool) :
    (spc.schedEnqueue acct now l e bd head).queue p ≠ [] ↔ p = e ∨ spc.queue p ≠ [] := by
  rw [schedEnqueue_queue]
  by_cases hp : p = e
  · subst hp
    cases head <;> simp
  · simp [hp]

theorem schedEnqueue_queued (he : e < priCount) (acct : Bool) (now : ℕ) (bd head : Bool) :
    (spc.schedEnqueue acct now l e bd head).queued.Perm (l :: spc.queued) := by
  apply Queues.flatMap_perm_cons nodup_range (mem_range.mpr he)
  · rw [schedEnqueue_queue,update_self]
    cases head with
    | false => exact perm_append_singleton l _
    | true => exact List.Perm.refl _
  · intro p hp
    rw [schedEnqueue_queue,update_of_ne hp]

theorem Wf.schedEnqueue (h : spc.Wf bound) (he : e < priCount) (acct : Bool) (now : ℕ)
    (head : Bool) : (spc.schedEnqueue acct now l e (bound l) head).Wf bound := by
  have hperm : (spc.schedEnqueue acct now l e (bound l) head).queued.Perm (l :: spc.queued) :=
    schedEnqueue_queued he acct now (bound l) head
  constructor
  · intro p
    rw [schedEnqueue_ne_nil,← h.marked_iff p]
    simp only [schedEnqueue_eq]
    split_ifs with hempty
    · exact Bitmap.marked_mark
    · apply (or_iff_right_of_imp _).symm
      rintro rfl
      exact (h.marked_iff p).mpr hempty
  · have hgreatest := (h.greatest.insert e).congr fun p =>
      (schedEnqueue_ne_nil (l := l) acct now p (bound l) head).symm
    simpa only [schedEnqueue_eq] using hgreatest
  · rw [hperm.length_eq,length_cons,← h.count_eq,schedEnqueue_eq]
  · rw [hperm.countP_eq,countP_cons,← h.mcount_eq,schedEnqueue_eq]
    cases bound l <;> rfl

variable [DecidableEq ι]

theorem schedDequeue_queued (he : e < priCount) (hl : l ∈ spc.queue e) (acct bd : Bool) :
    spc.queued.Perm (l :: (spc.schedDequeue acct l e bd).queued) := by
  apply Queues.flatMap_perm_cons nodup_range (mem_range.mpr he)
  · rw [schedDequeue_queue,update_self]
    exact perm_cons_erase hl
  · intro p hp
    rw [schedDequeue_queue,update_of_ne hp]

theorem schedDequeue_ne_nil (hl : l ∈ spc.queue e) (acct : Bool) (p : ℕ) (bd : Bool) :
    (spc.schedDequeue acct l e bd).queue p ≠ [] ↔
      spc.queue p ≠ [] ∧ ((spc.queue e).erase l = [] → p ≠ e) := by
  rw [schedDequeue_queue]
  by_cases hp : p = e
  · subst hp
    simp only [update_self,ne_eq,not_true,imp_false]
    exact (and_iff_right (ne_nil_of_mem hl)).symm
  · simp [hp]

theorem schedDequeue_marked (h : spc.Wf bound) (hl : l ∈ spc.queue e) (acct bd : Bool) (p : ℕ) :
    (spc.schedDequeue acct l e bd).bitmap.Marked p ↔
      (spc.schedDequeue acct l e bd).queue p ≠ [] := by
  rw [schedDequeue_ne_nil hl,← h.marked_iff p,schedDequeue_eq]
  dsimp only
  split_ifs with hlast
  · rw [Bitmap.marked_unmark,imp_iff_right hlast,and_comm]
  · simp [hlast]

theorem schedDequeue_greatest (h : spc.Wf bound) (hl : l ∈ spc.queue e) (acct bd : Bool) :
    Greatest (fun p => (spc.schedDequeue acct l e bd).queue p ≠ [])
      (spc.schedDequeue acct l e bd).maxpriority := by
  have hnil := fun p => schedDequeue_ne_nil hl acct p bd
  have hmax : (spc.schedDequeue acct l e bd).maxpriority =
      if (spc.queue e).erase l = [] then
        if e ≠ spc.maxpriority then spc.maxpriority else (spc.bitmap.unmark e).scan (e >>> 5)
      else spc.maxpriority := by
    rw [schedDequeue_eq]
  rw [hmax]
  by_cases hlast : (spc.queue e).erase l = []
  · have hrest : ∀ p, (p ≠ e ∧ spc.queue p ≠ []) ↔
        (spc.schedDequeue acct l e bd).queue p ≠ [] := by
      intro p
      rw [hnil,imp_iff_right hlast,and_comm]
    rw [if_pos hlast]
    split_ifs with htop
    · exact (h.greatest.erase_of_ne (ne_nil_of_mem hl) htop).congr hrest
    · apply (Bitmap.scan_greatest (spc.bitmap.unmark e) (e >>> 5)).congr
      intro p
      rw [← hrest,Bitmap.marked_unmark,h.marked_iff,Bitmap.shiftRight_five]
      constructor
      · exact fun hp => hp.2
      · intro hp
        have hle := h.greatest.upper p hp.2
        exact ⟨by omega,hp⟩
  · rw [if_neg hlast]
    apply h.greatest.congr
    intro p
    rw [hnil]
    simp [hlast]

theorem Wf.schedDequeue (h : spc.Wf bound) (he : e < priCount) (hl : l ∈ spc.queue e)
    (acct : Bool) : (spc.schedDequeue acct l e (bound l)).Wf bound := by
  have hperm := schedDequeue_queued he hl acct (bound l)
  constructor
  · exact schedDequeue_marked h hl acct (bound l)
  · exact schedDequeue_greatest h hl acct (bound l)
  · rw [schedDequeue_eq,h.count_eq,hperm.length_eq,length_cons,schedDequeue_eq]
    rfl
  · have hcount := hperm.countP_eq fun l => !bound l
    rw [countP_cons,← h.mcount_eq] at hcount
    rw [schedDequeue_eq] at hcount ⊢
    dsimp only at hcount ⊢
    cases hb : bound l <;> simp only [hb] at hcount ⊢ <;> simp at hcount ⊢ <;> omega

omit [DecidableEq ι] in
theorem Wf.congr {bound' : ι → Bool} (h : spc.Wf bound)
    (hb : ∀ p, ∀ l ∈ spc.queue p, bound' l = bound l) : spc.Wf bound' := by
  refine { h with mcount_eq := ?_ }
  rw [h.mcount_eq]
  apply countP_congr
  intro l hl
  obtain ⟨p,-,hp⟩ := mem_flatMap.mp hl
  rw [hb p l hp]

theorem count_schedEnqueue (acct : Bool) (now p : ℕ) (bd head : Bool) (m : ι) :
    ((spc.schedEnqueue acct now l e bd head).queue p).count m =
      (spc.queue p).count m + if p = e ∧ m = l then 1 else 0 := by
  rw [schedEnqueue_queue]
  by_cases hp : p = e
  · subst hp
    by_cases hm : m = l
    · subst hm
      cases head <;> simp
    · cases head <;> simp [Ne.symm hm,hm]
  · simp [hp]

theorem count_schedDequeue (acct : Bool) (p : ℕ) (bd : Bool) (m : ι) :
    ((spc.schedDequeue acct l e bd).queue p).count m =
      (spc.queue p).count m - if p = e ∧ m = l then 1 else 0 := by
  rw [schedDequeue_queue]
  by_cases hp : p = e
  · subst hp
    by_cases hm : m = l
    · subst hm
      simp
    · simp [count_erase_of_ne hm,hm]
  · simp [hp]

end Spc

namespace State
variable [DecidableEq γ] [DecidableEq ι] {P : Platform γ} {s t : State γ ι} {l : ι} {c : γ}
  {x : Lwp γ}

def On (s : State γ ι) (l : ι) (c : γ) (p : ℕ) : Prop :=
  (s.lwp l).stat = .run ∧ (s.lwp l).cpu = c ∧ ((s.lwp l).eprio : ℕ) = p

instance (s : State γ ι) (l : ι) (c : γ) (p : ℕ) : Decidable (s.On l c p) :=
  inferInstanceAs (Decidable (_ ∧ _))

structure Sound (s : State γ ι) : Prop where
  wf : ∀ c, (s.spc c).Wf fun l => (s.lwp l).bound
  placed : ∀ c p l, ((s.spc c).queue p).count l = if s.On l c p then 1 else 0
  migrating : ∀ c l, (s.spc c).migrating = some l → (s.lwp l).stat = .run ∧ (s.lwp l).cpu = c

theorem Boot.sound (h : Boot s) : Sound s := by
  have hqueued : ∀ c, (s.spc c).queued = [] := fun c =>
    flatMap_eq_nil_iff.mpr fun p _ => h.queue_eq c p
  constructor
  · intro c
    constructor
    · intro p
      simp [Bitmap.Marked,h.bitmap_eq,h.queue_eq]
    · rw [h.maxpriority_eq]
      constructor
      · exact fun p hp => absurd (h.queue_eq c p) hp
      · exact fun ⟨p,hp⟩ => absurd (h.queue_eq c p) hp
      · exact fun _ => rfl
    · rw [h.count_eq,hqueued,length_nil]
    · rw [h.mcount_eq,hqueued,countP_nil]
  · intro c p l
    rw [h.queue_eq,if_neg fun hon => h.not_run l hon.1,count_nil]
  · intro c l hm
    rw [h.migrating_eq] at hm
    contradiction

theorem Sound.mem_iff (h : Sound s) {p : ℕ} : l ∈ (s.spc c).queue p ↔ s.On l c p := by
  rw [← count_pos_iff,h.placed]
  split_ifs with hon <;> simp [hon]

omit [DecidableEq ι] in
theorem schedEnqueue_spc (s : State γ ι) (l : ι) (c : γ) : (s.schedEnqueue P l).spc c =
    if c = (s.lwp l).cpu then
      (s.spc c).schedEnqueue s.lpschedAccounting s.tsc l (s.lwp l).eprio (s.lwp l).bound
        ((s.lwp l).toHead s.ticks P.rrticks) else s.spc c := by
  simp only [schedEnqueue,setSpc,update_apply]
  split_ifs with hc
  · rw [hc]
  · rfl

theorem schedDequeue_spc (s : State γ ι) (l : ι) (c : γ) : (s.schedDequeue l).spc c =
    if c = (s.lwp l).cpu then
      (s.spc c).schedDequeue s.lpschedAccounting l (s.lwp l).eprio (s.lwp l).bound
    else s.spc c := by
  simp only [schedDequeue,setSpc,update_apply]
  split_ifs with hc
  · rw [hc]
  · rfl

theorem count_schedEnqueue (s : State γ ι) (l m : ι) (c : γ) (p : ℕ) :
    (((s.schedEnqueue P l).spc c).queue p).count m = ((s.spc c).queue p).count m +
      if c = (s.lwp l).cpu ∧ p = (s.lwp l).eprio ∧ m = l then 1 else 0 := by
  rw [schedEnqueue_spc]
  by_cases hc : c = (s.lwp l).cpu
  · rw [if_pos hc,Spc.count_schedEnqueue]
    simp only [hc,true_and]
  · simp only [hc,false_and,if_false,Nat.add_zero]

theorem count_schedDequeue (s : State γ ι) (l m : ι) (c : γ) (p : ℕ) :
    (((s.schedDequeue l).spc c).queue p).count m = ((s.spc c).queue p).count m -
      if c = (s.lwp l).cpu ∧ p = (s.lwp l).eprio ∧ m = l then 1 else 0 := by
  rw [schedDequeue_spc]
  by_cases hc : c = (s.lwp l).cpu
  · rw [if_pos hc,Spc.count_schedDequeue]
    simp only [hc,true_and]
  · simp only [hc,false_and,if_false,Nat.sub_zero]

omit [DecidableEq γ] [DecidableEq ι] in
theorem on_congr {m : ι} (hm : t.lwp m = s.lwp m) {p : ℕ} : t.On m c p ↔ s.On m c p := by
  simp only [On,hm]

omit [DecidableEq γ] in
theorem setLwp_self : (s.setLwp l x).lwp l = x :=
  update_self ..

omit [DecidableEq γ] in
theorem setLwp_of_ne {m : ι} (hm : m ≠ l) : (s.setLwp l x).lwp m = s.lwp m :=
  update_of_ne hm ..

theorem Sound.enqueue (h : Sound s) (hl : (s.lwp l).stat ≠ .run) (hx : x.stat = .run) :
    Sound ((s.setLwp l x).schedEnqueue P l) := by
  have hout : ∀ c p, ¬s.On l c p := fun c p hon => hl hon.1
  have hwf : ∀ c, (s.spc c).Wf fun m => ((s.setLwp l x).lwp m).bound := by
    intro c
    apply (h.wf c).congr
    intro p m hm
    have hne : m ≠ l := fun he => hout c p (he ▸ h.mem_iff.mp hm)
    rw [setLwp_of_ne hne]
  constructor
  · intro c
    rw [schedEnqueue_spc]
    split_ifs
    · exact (hwf c).schedEnqueue ((s.setLwp l x).lwp l).eprio.isLt _ _ _
    · exact hwf c
  · intro c p m
    have hplaced := h.placed c p m
    rw [count_schedEnqueue,setLwp_self]
    change ((s.spc c).queue p).count m + _ = if (s.setLwp l x).On m c p then 1 else 0
    rw [hplaced]
    by_cases hm : m = l
    · subst hm
      rw [if_neg (hout c p),Nat.zero_add]
      apply if_congr _ rfl rfl
      simp only [On,setLwp_self,hx,true_and,and_true,eq_comm]
    · simp only [hm,and_false,if_false,Nat.add_zero]
      exact if_congr (on_congr (setLwp_of_ne hm)).symm rfl rfl
  · intro c m hm
    change (((s.setLwp l x).schedEnqueue P l).spc c).migrating = some m at hm
    have hmig : (s.spc c).migrating = some m := by
      rw [schedEnqueue_spc] at hm
      split_ifs at hm
      · rwa [Spc.schedEnqueue_migrating] at hm
      · exact hm
    have hrun := h.migrating c m hmig
    have hne : m ≠ l := fun he => hl (he ▸ hrun.1)
    change ((s.setLwp l x).lwp m).stat = .run ∧ ((s.setLwp l x).lwp m).cpu = c
    rwa [setLwp_of_ne hne]

theorem Sound.dequeue (h : Sound s) (hl : (s.lwp l).stat = .run) (hx : x.stat ≠ .run) :
    Sound ((s.schedDequeue l).setLwp l x) := by
  have hself : ((s.schedDequeue l).setLwp l x).lwp l = x := update_self ..
  have hother : ∀ m, m ≠ l → ((s.schedDequeue l).setLwp l x).lwp m = s.lwp m := fun m hm =>
    update_of_ne hm ..
  have hmem : l ∈ (s.spc (s.lwp l).cpu).queue (s.lwp l).eprio := h.mem_iff.mpr ⟨hl,rfl,rfl⟩
  have hplaced : ∀ c p m, (((s.schedDequeue l).spc c).queue p).count m =
      if ((s.schedDequeue l).setLwp l x).On m c p then 1 else 0 := by
    intro c p m
    rw [count_schedDequeue,h.placed]
    by_cases hm : m = l
    · subst hm
      have hon : s.On m c p ↔ c = (s.lwp m).cpu ∧ p = (s.lwp m).eprio ∧ m = m := by
        simp only [On,hl,true_and,and_true,eq_comm]
      rw [if_congr hon rfl rfl,Nat.sub_self,if_neg fun hon => hx (hself ▸ hon.1)]
    · simp only [hm,and_false,if_false,Nat.sub_zero]
      exact if_congr (on_congr (hother m hm)).symm rfl rfl
  constructor
  · intro c
    have hwf : ((s.schedDequeue l).spc c).Wf fun m => (s.lwp m).bound := by
      rw [schedDequeue_spc]
      split_ifs with hc
      · exact (h.wf c).schedDequeue (s.lwp l).eprio.isLt (hc ▸ hmem) _
      · exact h.wf c
    apply Spc.Wf.congr hwf
    intro p m hm
    have hne : m ≠ l := by
      rintro rfl
      have hpos := count_pos_iff.mpr hm
      change 0 < (((s.schedDequeue m).spc c).queue p).count m at hpos
      rw [hplaced,if_neg fun hon => hx (hself ▸ hon.1)] at hpos
      exact Nat.lt_irrefl 0 hpos
    rw [hother m hne]
  · exact hplaced
  · intro c m hm
    change ((s.schedDequeue l).spc c).migrating = some m at hm
    have hmig : (s.spc c).migrating = some m ∧ m ≠ l := by
      rw [schedDequeue_spc] at hm
      split_ifs at hm with hc
      · rw [Spc.schedDequeue_migrating] at hm
        split_ifs at hm with hlast
        exact ⟨hm,fun he => hlast (he ▸ hm)⟩
      · refine ⟨hm,?_⟩
        rintro rfl
        exact hc (h.migrating c m hm).2.symm
    rw [hother m hmig.2]
    exact h.migrating c m hmig.1

theorem Sound.move (h : Sound s) (hl : (s.lwp l).stat = .run) (target : Option γ) :
    Sound (s.move P l c target) := by
  -- between the two calls the LWP is on no queue, as if it ran
  have hoff := h.dequeue hl (x := { s.lwp l with stat := .onproc }) (by simp)
  have hnot : (((s.schedDequeue l).setLwp l { s.lwp l with stat := .onproc }).lwp l).stat ≠ .run := by
    simp [setLwp]
  have hon := hoff.enqueue (P := P) hnot (x := { s.lwp l with cpu := c, target := target }) hl
  simpa only [State.move,setLwp,update_idem] using hon

theorem schedCatchlwp_cases (P : Platform γ) (s : State γ ι) (cur c : γ) (gentle : Bool)
    (hot allowed : ι → Bool) : s.schedCatchlwp P cur c gentle hot allowed = s ∨
      ∃ l ∈ (s.spc c).queue (s.spc c).maxpriority,
        s.schedCatchlwp P cur c gentle hot allowed = s.move P l cur (s.lwp l).target := by
  unfold schedCatchlwp
  dsimp only
  by_cases hfew : (s.spc c).mcount < (if gentle then s.lpschedMinCatch P cur c else 1) ∨
      (s.spc cur).psid ≠ (s.spc c).psid
  · rw [if_pos hfew]
    exact .inl rfl
  · rw [if_neg hfew]
    split
    · exact .inl rfl
    · rename_i l hfind
      exact .inr ⟨l,mem_of_find?_eq_some hfind,rfl⟩

theorem Sound.schedCatchlwp (h : Sound s) (cur c : γ) (gentle : Bool) (hot allowed : ι → Bool) :
    Sound (s.schedCatchlwp P cur c gentle hot allowed) := by
  rcases schedCatchlwp_cases P s cur c gentle hot allowed with heq | ⟨l,hl,heq⟩ <;> rw [heq]
  · exact h
  · exact h.move (h.mem_iff.mp hl).1 _

theorem Sound.lwps (h : Sound s) {f : ι → Lwp γ} (hstat : ∀ l, (f l).stat = (s.lwp l).stat)
    (hcpu : ∀ l, (f l).cpu = (s.lwp l).cpu) (heprio : ∀ l, (f l).eprio = (s.lwp l).eprio)
    (hbound : ∀ l, (f l).bound = (s.lwp l).bound) : Sound { s with lwp := f } := by
  constructor
  · intro c
    simp only [hbound]
    exact h.wf c
  · intro c p l
    apply (h.placed c p l).trans
    apply if_congr _ rfl rfl
    simp only [On,hstat,hcpu,heprio]
  · intro c l hm
    simp only [hstat,hcpu]
    exact h.migrating c l hm

theorem Sound.setTarget (h : Sound s) (l : ι) (target : Option γ) :
    Sound (s.setLwp l { s.lwp l with target := target }) := by
  apply h.lwps
  all_goals
    intro m
    by_cases hm : m = l
    · subst hm
      simp
    · simp [hm]

theorem Sound.setSpc (h : Sound s) (idle : Bool) {m : Option ι}
    (hm : ∀ l, m = some l → (s.lwp l).stat = .run ∧ (s.lwp l).cpu = c) :
    Sound (s.setSpc c { s.spc c with idle := idle, migrating := m }) := by
  have hsame : ∀ d, ∃ i n, (s.setSpc c { s.spc c with idle := idle, migrating := m }).spc d =
      { s.spc d with idle := i, migrating := n } ∧
        ∀ l, n = some l → (s.lwp l).stat = .run ∧ (s.lwp l).cpu = d := by
    intro d
    by_cases hd : d = c
    · subst hd
      exact ⟨idle,m,update_self ..,hm⟩
    · exact ⟨_,_,update_of_ne hd ..,h.migrating d⟩
  constructor
  · intro d
    obtain ⟨i,n,hd,-⟩ := hsame d
    have hwf := h.wf d
    rw [hd]
    exact ⟨hwf.marked_iff,hwf.greatest,hwf.count_eq,hwf.mcount_eq⟩
  · intro d p l
    obtain ⟨i,n,hd,-⟩ := hsame d
    rw [hd]
    exact h.placed d p l
  · intro d l hl
    obtain ⟨i,n,hd,hn⟩ := hsame d
    rw [hd] at hl
    exact hn l hl

theorem schedIdleMigrate_cases (P : Platform γ) (s : State γ ι) (c : γ) :
    s.schedIdleMigrate P c = s ∨ ∃ l, (s.spc c).migrating = some l ∧
      let s' := s.setSpc c { s.spc c with migrating := none }
      s.schedIdleMigrate P c = s' ∨
        s.schedIdleMigrate P c = s'.setLwp l { s'.lwp l with target := none } ∨
        ∃ t, (s.lwp l).target = some t ∧ t ≠ c ∧ s.schedIdleMigrate P c = s'.move P l t none := by
  unfold schedIdleMigrate
  split
  · exact .inl rfl
  · rename_i l hl
    refine .inr ⟨l,hl,?_⟩
    dsimp only
    split
    · exact .inl rfl
    · rename_i t ht
      split_ifs with htc
      · exact .inr (.inl rfl)
      · exact .inr (.inr ⟨t,ht,htc,rfl⟩)

theorem Sound.schedIdleMigrate (h : Sound s) (c : γ) : Sound (s.schedIdleMigrate P c) := by
  rcases schedIdleMigrate_cases P s c with heq | ⟨l,hl,heq⟩
  · rwa [heq]
  · have hclear := h.setSpc (c := c) (s.spc c).idle (m := none) nofun
    rcases heq with heq | heq | ⟨t,-,-,heq⟩ <;> rw [heq]
    · exact hclear
    · exact hclear.setTarget l none
    · exact hclear.move (h.migrating c l hl).1 none

theorem Sound.alter (h : Sound s) (hl : (s.lwp l).stat ≠ .run) (hx : x.stat ≠ .run) :
    Sound (s.setLwp l x) := by
  have hne : ∀ m, (s.lwp m).stat = .run → m ≠ l := fun m hm he => hl (he ▸ hm)
  constructor
  · intro c
    apply (h.wf c).congr
    intro p m hm
    rw [setLwp_of_ne (hne m (h.mem_iff.mp hm).1)]
  · intro c p m
    apply (h.placed c p m).trans
    apply if_congr _ rfl rfl
    by_cases hm : m = l
    · subst hm
      simp only [On,setLwp_self,hl,hx,false_and]
    · exact (on_congr (setLwp_of_ne hm)).symm
  · intro c m hm
    have hrun := h.migrating c m hm
    rwa [setLwp_of_ne (hne m hrun.1)]

theorem Sound.schedNextlwp (h : Sound s) (hl : s.schedNextlwp c = some l) :
    s.On l c (s.spc c).maxpriority := by
  unfold State.schedNextlwp at hl
  dsimp only at hl
  split_ifs at hl
  exact h.mem_iff.mp (mem_of_mem_head? hl)

theorem Sound.step (h : Sound s) {e : Event γ ι} (hstep : s.step P e = some t) : Sound t := by
  cases e with
  | enqueue l c =>
    obtain ⟨hl,rfl⟩ := of_guard hstep
    exact h.enqueue hl rfl
  | dequeue l stat =>
    obtain ⟨hl,rfl⟩ := of_guard hstep
    exact h.dequeue hl.1 hl.2
  | switch c =>
    simp only [State.step] at hstep
    split at hstep <;> cases hstep
    · exact h
    · rename_i l hl
      exact h.dequeue (h.schedNextlwp hl).1 nofun
  | catchlwp cur c gentle hot allowed =>
    obtain ⟨-,rfl⟩ := of_guard hstep
    exact h.schedCatchlwp cur c gentle hot allowed
  | idleMigrate c =>
    cases hstep
    exact h.schedIdleMigrate c
  | migrating l =>
    obtain ⟨hl,rfl⟩ := of_guard hstep
    apply h.setSpc
    intro m hm
    cases hm
    exact ⟨hl.1,rfl⟩
  | setTarget l target =>
    cases hstep
    exact h.setTarget l target
  | alter l x =>
    obtain ⟨hl,rfl⟩ := of_guard hstep
    exact h.alter hl.1 hl.2
  | setIdle c idle =>
    cases hstep
    exact h.setSpc idle (h.migrating c)
  | pass | setEnabled | setLatency =>
    cases hstep
    exact ⟨h.wf,h.placed,h.migrating⟩
  | setPack n | setBudget n =>
    obtain ⟨-,rfl⟩ := of_guard hstep
    exact ⟨h.wf,h.placed,h.migrating⟩

structure Ordered (s : State γ ι) : Prop where
  bitmap : ∀ c p, (s.spc c).bitmap.Marked p ↔ (s.spc c).queue p ≠ []
  maxpriority : ∀ c, Greatest (fun p => (s.spc c).queue p ≠ []) (s.spc c).maxpriority
  count : ∀ c, (s.spc c).count = (s.spc c).queued.length
  mcount : ∀ c, (s.spc c).mcount = (s.spc c).queued.countP fun l => !(s.lwp l).bound
  /-- A runnable LWP is once on the queue of its CPU and its priority, and no LWP is on
  another queue. -/
  placed : ∀ l c p, ((s.spc c).queue p).count l =
    if (s.lwp l).stat = .run ∧ (s.lwp l).cpu = c ∧ ((s.lwp l).eprio : ℕ) = p then 1 else 0
  next_max : ∀ c l, s.schedNextlwp c = some l → (s.lwp l).stat = .run ∧ (s.lwp l).cpu = c ∧
    ∀ m, (s.lwp m).stat = .run → (s.lwp m).cpu = c → (s.lwp m).eprio ≤ (s.lwp l).eprio
  next_some : ∀ c, (s.spc c).migrating = none →
    (∃ l, (s.lwp l).stat = .run ∧ (s.lwp l).cpu = c) → ∃ l, s.schedNextlwp c = some l

theorem Sound.next_some (h : Sound s) (hc : (s.spc c).migrating = none)
    (hl : (s.lwp l).stat = .run ∧ (s.lwp l).cpu = c) : ∃ l, s.schedNextlwp c = some l := by
  have hmem : l ∈ (s.spc c).queue (s.lwp l).eprio := h.mem_iff.mpr ⟨hl.1,hl.2,rfl⟩
  have hmax : (s.spc c).queue (s.spc c).maxpriority ≠ [] :=
    (h.wf c).greatest.attained ⟨_,ne_nil_of_mem hmem⟩
  have hqueued : l ∈ (s.spc c).queued :=
    mem_flatMap.mpr ⟨_,mem_range.mpr (s.lwp l).eprio.isLt,hmem⟩
  have hcount : (s.spc c).count ≠ 0 := by
    rw [(h.wf c).count_eq]
    exact Nat.ne_of_gt (length_pos_iff.mpr (ne_nil_of_mem hqueued))
  unfold State.schedNextlwp
  simp only [hc,Option.isSome_none,hcount,if_false,Bool.false_eq_true]
  exact ⟨_,List.head?_eq_some_head hmax⟩

theorem Sound.ordered (h : Sound s) : Ordered s := by
  constructor
  · exact fun c => (h.wf c).marked_iff
  · exact fun c => (h.wf c).greatest
  · exact fun c => (h.wf c).count_eq
  · exact fun c => (h.wf c).mcount_eq
  · exact fun l c p => h.placed c p l
  · intro c l hl
    obtain ⟨hrun,hcpu,hprio⟩ := h.schedNextlwp hl
    refine ⟨hrun,hcpu,?_⟩
    intro m hm hmc
    have hmem : m ∈ (s.spc c).queue (s.lwp m).eprio := h.mem_iff.mpr ⟨hm,hmc,rfl⟩
    have hle := (h.wf c).greatest.upper _ (ne_nil_of_mem hmem)
    rw [← hprio] at hle
    exact hle
  · exact fun c hc ⟨l,hl⟩ => h.next_some hc hl

theorem runq_ordered (hboot : Boot s) {es : List (Event γ ι)} (hrun : exec (step P) s es = some t) :
    Ordered t :=
  (exec_invariant Sound (fun _ _ _ h => h.step) hboot.sound hrun).ordered

def quiet : State Bool ℕ where
  lwp l := ⟨false,.sleep,⟨40 * (l % 3),by unfold priCount; omega⟩,l % 2 == 0,false,.other,0,none⟩
  spc _ := ⟨fun _ => [],fun _ => 0#32,0,0,0,true,none,0,0⟩
  tsc := 1
  ticks := 0
  enabled := true
  latency := true
  pack := 1
  waitBudgetUs := 2000

def twoCores : Platform Bool := ⟨fun _ => [],1000,1,10⟩

theorem quiet_boot : Boot quiet where
  tsc_pos := by decide
  not_run _ := nofun
  queue_eq _ _ := rfl
  bitmap_eq _ _ := rfl
  count_eq _ := rfl
  mcount_eq _ := rfl
  maxpriority_eq _ := rfl
  migrating_eq _ := rfl
  qSince_eq _ := rfl

def mixedRun : List (Event Bool ℕ) :=
  [.enqueue 0 false,.enqueue 1 false,.enqueue 2 false,.enqueue 5 false,.switch false,
    .catchlwp true false false (fun _ => false) (fun _ => true),.setTarget 5 (some false),
    .migrating 5,.idleMigrate true]

theorem runq_ordered_mixed : ∃ t, exec (step twoCores) quiet mixedRun = some t ∧
    (t.spc false).queue 80 = [5] ∧ (t.spc false).maxpriority = 80 ∧ Ordered t := by
  have hrun := (Option.some_get (x := exec (step twoCores) quiet mixedRun) (by decide +kernel)).symm
  exact ⟨_,hrun,by decide +kernel,by decide +kernel,runq_ordered quiet_boot hrun⟩

end State
end NanoBSD.Runq
