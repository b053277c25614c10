import NanoBSD.S2idle.Enter

/-! # Every way out undoes the freeze

What `acpi_enter_freeze` takes back is read off its trace. Whatever the calls answer, each
exit leaves the machine as it was, takes things back in the order power, devices,
filesystems, userspace, and asks a device to resume exactly when the first walk tried to
suspend it and its parent is active when its turn comes.
-/
namespace NanoBSD.S2idle
open Prog Autoconf List
variable {D W : Type}

inductive Stage
  | power | devices | filesystems | userspace
  deriving DecidableEq, Repr

def Stage.rank : Stage → ℕ
  | .power => 0
  | .devices => 1
  | .filesystems => 2
  | .userspace => 3

def Action.stage : Action D → Option Stage
  | .ltrRestore | .cstcfg false | .lps0Exit | .wakedevCommit | .powerdown false => some .power
  | .deviceResume _ => some .devices
  | .vfsResumeAll => some .filesystems
  | .freezeUserspace false => some .userspace
  | _ => none

def undone (trace : List (W × Action D)) : List Stage := trace.filterMap fun e => e.2.stage

def tried (trace : List (W × Action D)) : List D := trace.filterMap fun e =>
  match e.2 with
  | .deviceSuspend d => some d
  | _ => none

def turns (trace : List (W × Action D)) : List (W × D) := trace.filterMap fun e =>
  match e.2 with
  | .turn d => some (e.1,d)
  | _ => none

def asked (trace : List (W × Action D)) : List D := trace.filterMap fun e =>
  match e.2 with
  | .deviceResume d => some d
  | _ => none

/-- What every way out of the freeze leaves, `s0idle` being the latch before the call. -/
structure Undone (P : Platform D W) (t : DeviceTree D) (s0idle : ℤ) (f : Frame D W) : Prop where
  thawed : f.frozen = false
  released : f.barrier = false
  sleepState : f.sleepState = .s0
  inactive : f.freezeActive = false
  latch : f.s0idle = s0idle
  order : (undone f.trace).Pairwise fun a b => a.rank ≤ b.rank
  power : .powerdown true ∈ f.trace.map Prod.snd → .powerdown false ∈ f.trace.map Prod.snd
  turned : ((turns f.trace).map Prod.snd).Perm (tried f.trace)
  resumed : asked f.trace =
    ((turns f.trace).filter fun e => parentActive P t e.1 e.2).map Prod.snd
  once : (asked f.trace).Nodup
  rooted : (asked f.trace).Pairwise fun a b => t.parent a ≠ some b

variable {P : Platform D W} {t : DeviceTree D} {f : Frame D W} {l tail : List (W × Action D)}
  {k : Frame D W}

@[simp] theorem undone_append (a b : List (W × Action D)) :
    undone (a ++ b) = undone a ++ undone b := filterMap_append ..

@[simp] theorem tried_append (a b : List (W × Action D)) :
    tried (a ++ b) = tried a ++ tried b := filterMap_append ..

@[simp] theorem turns_append (a b : List (W × Action D)) :
    turns (a ++ b) = turns a ++ turns b := filterMap_append ..

@[simp] theorem asked_append (a b : List (W × Action D)) :
    asked (a ++ b) = asked a ++ asked b := filterMap_append ..

structure Powering (l : List (W × Action D)) : Prop where
  tried : tried l = []
  turns : turns l = []
  asked : asked l = []
  undone : ∀ u ∈ undone l, u = .power
  power : .powerdown true ∈ l.map Prod.snd → .powerdown false ∈ l.map Prod.snd

theorem Powering.nil : Powering ([] : List (W × Action D)) :=
  ⟨rfl,rfl,rfl,by simp [S2idle.undone],by simp⟩

theorem Powering.append {a b : List (W × Action D)} (ha : Powering a) (hb : Powering b) :
    Powering (a ++ b) where
  tried := by rw [tried_append,ha.tried,hb.tried]; rfl
  turns := by rw [turns_append,ha.turns,hb.turns]; rfl
  asked := by rw [asked_append,ha.asked,hb.asked]; rfl
  undone u hu := by
    rw [undone_append,mem_append] at hu
    exact hu.elim (ha.undone u) (hb.undone u)
  power := by
    simp only [map_append,mem_append]
    exact Or.imp ha.power hb.power

theorem views_tries (l : List (W × D)) :
    tried (l.map fun e => (e.1,.deviceSuspend e.2)) = l.map Prod.snd ∧
      turns (l.map fun e => (e.1,Action.deviceSuspend e.2)) = [] ∧
      asked (l.map fun e => (e.1,Action.deviceSuspend e.2)) = [] ∧
      undone (l.map fun e => (e.1,Action.deviceSuspend e.2)) = [] := by
  induction l with
  | nil => exact ⟨rfl,rfl,rfl,rfl⟩
  | cons e l ih =>
    obtain ⟨h₁,h₂,h₃,h₄⟩ := ih
    simp_all [tried,turns,asked,undone,Action.stage]

theorem views_turn (e : W × D) : tried (turnOf P t e) = [] ∧ turns (turnOf P t e) = [e] ∧
      asked (turnOf P t e) = ([e].filter fun e => parentActive P t e.1 e.2).map Prod.snd ∧
      ∀ u ∈ undone (turnOf P t e), u = .devices := by
  unfold turnOf
  split <;> rename_i hup <;> simp [tried,turns,asked,undone,Action.stage,hup]

theorem views_turns (l : List (W × D)) :
    tried (l.flatMap (turnOf P t)) = [] ∧ turns (l.flatMap (turnOf P t)) = l ∧
      asked (l.flatMap (turnOf P t)) = (l.filter fun e => parentActive P t e.1 e.2).map Prod.snd ∧
      ∀ u ∈ undone (l.flatMap (turnOf P t)), u = .devices := by
  induction l with
  | nil => exact ⟨rfl,rfl,rfl,by simp [undone]⟩
  | cons e l ih =>
    obtain ⟨h₁,h₂,h₃,h₄⟩ := ih
    obtain ⟨k₁,k₂,k₃,k₄⟩ := views_turn (P := P) (t := t) e
    rw [flatMap_cons,tried_append,turns_append,asked_append,undone_append,h₁,h₂,h₃,k₁,k₂,k₃]
    refine ⟨rfl,rfl,?_,?_⟩
    · rw [← map_append,← filter_append]
      rfl
    · intro u hu
      exact (mem_append.mp hu).elim (k₄ u) (h₄ u)

theorem powerdown_not_mem_turns (l : List (W × D)) (d3 : Bool) :
    .powerdown d3 ∉ (l.flatMap (turnOf P t)).map Prod.snd := by
  simp only [mem_map,mem_flatMap,not_exists,not_and]
  rintro ⟨w,a⟩ ⟨e,_,he⟩ rfl
  unfold turnOf at he
  split at he <;> simp at he

structure Reached (t : DeviceTree D) (f : Frame D W) : Prop where
  inactive : f.freezeActive = false
  tried : tried f.trace = f.suspended
  turns : turns f.trace = []
  asked : asked f.trace = []
  undone : ∀ u ∈ undone f.trace, u = .power
  power : .powerdown true ∈ f.trace.map Prod.snd → .powerdown false ∈ f.trace.map Prod.snd
  nodup : f.suspended.Nodup
  attached : ∀ d ∈ f.suspended, d ∈ t.alldevs

structure Closing (l : List (W × Action D)) : Prop where
  tried : tried l = []
  turns : turns l = []
  asked : asked l = []
  undone : undone l ∈ [[],[.userspace],[.filesystems,.userspace]]
  power : .powerdown true ∉ l.map Prod.snd

theorem pairwise_stages {a b : List Stage} (ha : ∀ u ∈ a, u = .power) (hb : ∀ u ∈ b, u = .devices)
    (hl : Closing l) :
    (a ++ b ++ undone l).Pairwise fun u v => u.rank ≤ v.rank := by
  have hconst : ∀ {l : List Stage} {s : Stage}, (∀ u ∈ l, u = s) →
      l.Pairwise fun u v => u.rank ≤ v.rank := by
    intro l s hl
    apply pairwise_of_forall_mem_list
    intro u hu v hv
    rw [hl u hu,hl v hv]
  have hlast : (undone l).Pairwise (fun u v => u.rank ≤ v.rank) ∧
      ∀ v ∈ undone l, Stage.devices.rank ≤ v.rank := by
    have hcases := hl.undone
    simp only [mem_cons,not_mem_nil,or_false] at hcases
    rcases hcases with he | he | he <;> rw [he] <;> simp [Stage.rank]
  refine pairwise_append.mpr ⟨pairwise_append.mpr ⟨hconst ha,hconst hb,?_⟩,hlast.1,?_⟩
  · intro u hu v _
    rw [ha u hu]
    exact Nat.zero_le _
  · intro u hu v hv
    refine Nat.le_trans ?_ (hlast.2 v hv)
    rcases mem_append.mp hu with hu | hu
    · rw [ha u hu]
      exact Nat.zero_le _
    · rw [hb u hu]

variable {E : Unit → Frame D W → Prop}

theorem resumeUserspace_wp (held : Bool) (hheld : f.barrier = held) :
    (resumeUserspace P held).wp (fun _ k => ∃ tail, Closing tail ∧
      k = { f with
        world := k.world, frozen := false, barrier := false, sleepState := .s0
        trace := f.trace ++ tail }) E f := by
  cases held with
  | true =>
    simp only [resumeUserspace,↓reduceIte,vfsResumeAll,acpiS0FreezeUserspace,wp_bind,wp_call,wp_update,
      Frame.did,append_assoc,cons_append,nil_append]
    exact ⟨_,⟨rfl,rfl,rfl,by simp [undone,Action.stage],by simp⟩,rfl⟩
  | false =>
    simp only [resumeUserspace,Bool.false_eq_true,↓reduceIte,acpiS0FreezeUserspace,wp_bind,wp_call,
      wp_update,Frame.did,hheld,append_assoc,cons_append,nil_append]
    exact ⟨_,⟨rfl,rfl,rfl,by simp [undone,Action.stage],by simp⟩,rfl⟩

theorem holdSuspended_wp :
    (holdSuspended P).wp (fun _ g => ∃ l, Powering l ∧
      g = { f with
        world := g.world, sleepState := .s3, freezeActive := false, trace := f.trace ++ l }) E f := by
  simp only [holdSuspended,wp_bind,wp_call,wp_update]
  apply wp_ite
  all_goals
    intro _
    simp only [wp_bind,wp_call,wp_pure,Frame.did,append_assoc,cons_append,nil_append]
    exact ⟨_,⟨rfl,rfl,rfl,by simp [undone,Action.stage],by simp⟩,rfl⟩

theorem suspendFilesystems_wp (policy : ℤ) (hf : f.barrier = false) :
    (suspendFilesystems P policy).wp (fun error g => ∃ l, Powering l ∧
      g = { f with
        world := g.world, barrier := decide (policy ≠ 0 ∧ error = 0)
        trace := f.trace ++ l }) E f := by
  apply wp_ite
  · intro hp
    refine ⟨[],.nil,?_⟩
    simp [hp,← hf]
  · intro hp
    simp only [vfsSuspendAll,wp_bind,wp_call,wp_update,wp_pure,Frame.did]
    refine ⟨[(f.world,.vfsSuspendAll)],⟨rfl,rfl,rfl,by simp [undone,Action.stage],by simp⟩,?_⟩
    simp [hp]

theorem Tried.reached {g : Frame D W} (h : Tried (t.walk .leavesFirst) f g) (hf : Powering f.trace)
    (hs : f.suspended = []) (hl : Powering l) (hk : k.suspended = g.suspended)
    (htrace : k.trace = g.trace ++ l) (hactive : k.freezeActive = false) : Reached t k := by
  obtain ⟨a,hsub,hg⟩ := h
  obtain ⟨v₁,v₂,v₃,v₄⟩ := views_tries a
  have hsus : k.suspended = a.map Prod.snd := by rw [hk,hg,hs]; rfl
  have htr : k.trace = f.trace ++ (a.map fun e => (e.1,.deviceSuspend e.2)) ++ l := by
    rw [htrace,hg]
  constructor
  case inactive => exact hactive
  case tried =>
    rw [htr,hsus,tried_append,tried_append,hf.tried,v₁,hl.tried,nil_append,append_nil]
  case turns => rw [htr,turns_append,turns_append,hf.turns,v₂,hl.turns]; rfl
  case asked => rw [htr,asked_append,asked_append,hf.asked,v₃,hl.asked]; rfl
  case undone =>
    intro u hu
    rw [htr,undone_append,undone_append,v₄,append_nil] at hu
    exact (mem_append.mp hu).elim (hf.undone u) (hl.undone u)
  case power =>
    have hnone : ∀ b, Action.powerdown b ∉
        (a.map fun e => (e.1,Action.deviceSuspend e.2)).map Prod.snd := by simp
    simp only [htr,map_append,mem_append,hnone,or_false]
    exact Or.imp hf.power hl.power
  case nodup =>
    rw [hsus]
    exact (t.nodup_walk _).sublist hsub
  case attached =>
    intro d hd
    rw [hsus] at hd
    exact t.mem_walk.mp (hsub.subset hd)

variable [DecidableEq D]

theorem Reached.turned (h : Reached t f) {l : List (W × D)}
    (hl : l.map Prod.snd = (t.walk .rootFirst).filter fun d => d ∈ f.suspended) :
    (l.map Prod.snd).Perm f.suspended ∧ (l.map Prod.snd).Pairwise fun a b => t.parent a ≠ some b := by
  rw [hl]
  refine ⟨?_,t.walk_rootFirst.filter _⟩
  refine (perm_ext_iff_of_nodup ((t.nodup_walk _).filter _) h.nodup).mpr ?_
  intro d
  simp only [mem_filter,DeviceTree.mem_walk,decide_eq_true_eq]
  exact and_iff_right_of_imp (h.attached d)

theorem Reached.undone_of_closing (h : Reached t f) {l : List (W × D)} {save : ℤ}
    (hl : l.map Prod.snd = (t.walk .rootFirst).filter fun d => d ∈ f.suspended)
    (htail : Closing tail)
    (hk : k = { f with
      world := k.world, frozen := false, barrier := false, sleepState := .s0, s0idle := save
      trace := f.trace ++ l.flatMap (turnOf P t) ++ tail }) : Undone P t save k := by
  obtain ⟨hperm,hroot⟩ := h.turned hl
  obtain ⟨v₁,v₂,v₃,v₄⟩ := views_turns (P := P) (t := t) l
  have htrace : k.trace = f.trace ++ l.flatMap (turnOf P t) ++ tail := by rw [hk]
  have htried : S2idle.tried k.trace = f.suspended := by
    rw [htrace,tried_append,tried_append,h.tried,v₁,htail.tried,append_nil,append_nil]
  have hturns : S2idle.turns k.trace = l := by
    rw [htrace,turns_append,turns_append,h.turns,v₂,htail.turns,append_nil,nil_append]
  have hasked : S2idle.asked k.trace =
      (l.filter fun e => parentActive P t e.1 e.2).map Prod.snd := by
    rw [htrace,asked_append,asked_append,h.asked,v₃,htail.asked,append_nil,nil_append]
  have hsub : (S2idle.asked k.trace).Sublist (l.map Prod.snd) := by
    rw [hasked]
    exact filter_sublist.map _
  constructor
  case thawed | released | sleepState | latch => rw [hk]
  case inactive =>
    rw [hk]
    exact h.inactive
  case order =>
    rw [htrace,undone_append,undone_append]
    exact pairwise_stages h.undone v₄ htail
  case power =>
    intro hp
    rw [htrace,map_append,map_append] at hp ⊢
    rcases mem_append.mp hp with hp | hp
    · rcases mem_append.mp hp with hp | hp
      · exact mem_append_left _ (mem_append_left _ (h.power hp))
      · exact absurd hp (powerdown_not_mem_turns l true)
    · exact absurd hp htail.power
  case turned =>
    rw [hturns,htried]
    exact hperm
  case resumed => rw [hturns,hasked]
  case once => exact (hperm.nodup_iff.mpr h.nodup).sublist hsub
  case rooted => exact hroot.sublist hsub

theorem resumeDevices_wp (h : Reached t f) (save : ℤ) :
    (resumeDevices P t save f.barrier).wp (fun _ => Undone P t save) E f := by
  simp only [resumeDevices,wp_bind]
  refine wp_conseq (resumeWalk_wp _ f) ?_
  rintro _ g ⟨l,hl,hg⟩
  rw [wp_bind,wp_update,hg]
  refine wp_conseq (resumeUserspace_wp f.barrier ?_) ?_
  · rfl
  · rintro _ k ⟨tail,htail,hk⟩
    exact h.undone_of_closing hl htail hk

theorem freezeDevices_wp (suspendStorage : Bool) (hf : Powering f.trace) (hs : f.suspended = []) :
    (freezeDevices P t suspendStorage f.barrier).wp (fun _ => Undone P t f.s0idle) E f := by
  simp only [freezeDevices,wp_bind,wp_read,wp_update,wp_attempt]
  refine wp_mono (suspendWalk_wp suspendStorage (t.walk .leavesFirst) { f with s0idle := 1 }) ?_ ?_
  · intro _ g hg
    have hbarrier : g.barrier = f.barrier := by
      obtain ⟨_,_,he⟩ := hg
      rw [he]
    rw [wp_bind]
    refine wp_conseq holdSuspended_wp ?_
    rintro _ k ⟨l,hl,hk⟩
    have hk' : k.barrier = f.barrier := by rw [hk,← hbarrier]
    rw [← hk']
    exact resumeDevices_wp (hg.reached hf hs hl (by rw [hk]) (by rw [hk]) (by rw [hk])) _
  · intro _ g hg
    have hbarrier : g.barrier = f.barrier := by
      obtain ⟨_,_,he⟩ := hg
      rw [he]
    rw [wp_bind,wp_update,← hbarrier]
    have hreached : Reached t { g with freezeActive := false } :=
      hg.reached hf hs .nil rfl (append_nil _).symm rfl
    exact resumeDevices_wp hreached _

theorem Powering.undone_of_closing (h : Powering f.trace) (hs : f.suspended = [])
    (hactive : f.freezeActive = false) (htail : Closing tail)
    (hk : k = { f with
      world := k.world, frozen := false, barrier := false, sleepState := .s0
      trace := f.trace ++ tail }) : Undone P t f.s0idle k := by
  have hreached : Reached t f := by
    refine ⟨hactive,?_,h.turns,h.asked,h.undone,h.power,?_,?_⟩ <;> simp [hs,h.tried]
  refine hreached.undone_of_closing (l := []) ?_ htail ?_
  · simp [hs]
  · rw [flatMap_nil,append_nil]
    exact hk

theorem acpiEnterFreeze_wp (hattached : P.attached = true) (hs0 : f.sleepState = .s0)
    (hfrozen : f.frozen = false) (hbarrier : f.barrier = false) (hsus : f.suspended = [])
    (htrace : f.trace = []) :
    (acpiEnterFreeze P t).wp (fun _ => Undone P t f.s0idle) (fun _ => Undone P t f.s0idle) f := by
  simp only [acpiEnterFreeze,wp_bind,wp_read]
  apply wp_ite
  · rintro (hno | hno)
    · rw [hattached] at hno
      cases hno
    · exact absurd hs0 hno
  · intro _
    simp only [wp_bind,wp_update,wp_call]
    apply wp_ite
    · intro _
      simp only [wp_bind,wp_update,wp_raise,Frame.did,htrace,nil_append]
      have hone : Powering [(f.world,(.wsdisplayHandlex false : Action D))] :=
        ⟨rfl,rfl,rfl,by simp [undone,Action.stage],by simp⟩
      have hclosing : Closing ([] : List (W × Action D)) :=
        ⟨rfl,rfl,rfl,by simp [undone],by simp⟩
      refine Powering.undone_of_closing (f := { f with trace := _, freezeActive := false })
        hone hsus rfl hclosing ?_
      simp [hfrozen,hbarrier,hs0]
    · intro _
      simp only [acpiS0FreezeUserspace,wp_bind,wp_call,wp_update,Frame.did,htrace,
        cons_append,nil_append]
      refine wp_conseq (suspendFilesystems_wp _ ?_) ?_
      · exact hbarrier
      rintro error g ⟨l,hl,hg⟩
      have hprep : Powering g.trace := by
        rw [hg]
        refine Powering.append ⟨rfl,rfl,rfl,?_,?_⟩ hl <;> simp [undone,Action.stage]
      have hsus' : g.suspended = [] := by rw [hg]; exact hsus
      have hsave : g.s0idle = f.s0idle := by rw [hg]
      apply wp_ite
      · rintro ⟨herror,_⟩
        rw [wp_bind,wp_update,wp_bind]
        refine wp_conseq (resumeUserspace_wp false ?_) ?_
        · rw [hg]
          simp [herror]
        rintro _ k ⟨tail,htail,hk⟩
        rw [wp_raise,← hsave]
        exact Powering.undone_of_closing (f := { g with freezeActive := false })
          hprep hsus' rfl htail hk
      · intro _
        have hheld : decide (P.fsbarrier f.world ≠ 0 ∧ error = 0) = g.barrier := by rw [hg]
        rw [hheld,← hsave]
        exact freezeDevices_wp _ hprep hsus'

theorem acpiEnterFreeze_refused (h : P.attached = false ∨ f.sleepState ≠ .s0) :
    (acpiEnterFreeze P t f).2 = f := by
  apply wp_state (R := fun g => g = f)
  simp only [acpiEnterFreeze,wp_bind,wp_read]
  apply wp_ite
  · intro _
    rfl
  · intro hno
    exact absurd h hno

structure Settled (m : Machine W) : Prop where
  thawed : m.frozen = false
  released : m.barrier = false
  inactive : m.freezeActive = false

theorem freeze_undone (P : Platform D W) (t : DeviceTree D) {m : Machine W} (h : Settled m) :
    (m.sleepState = .s0 → Undone P t m.s0idle (acpiEnterFreeze P t (Frame.start m)).2) ∧
      (m.sleepState ≠ .s0 → (acpiEnterFreeze P t (Frame.start m)).2 = Frame.start m) := by
  refine ⟨fun hs0 => ?_,fun hs0 => acpiEnterFreeze_refused (.inr hs0)⟩
  cases hattached : P.attached with
  | true =>
    exact wp_state (acpiEnterFreeze_wp hattached hs0 h.thawed h.released rfl rfl)
  | false =>
    rw [acpiEnterFreeze_refused (.inl hattached)]
    constructor
    case thawed => exact h.thawed
    case released => exact h.released
    case sleepState => exact hs0
    case inactive => exact h.inactive
    case latch => rfl
    all_goals simp [Frame.start,undone,turns,tried,asked]

/-- A function group below its controller; the first device fails to suspend. -/
theorem freeze_undone_functionGroup :
    let P : Platform Bool (Bool → Bool) :=
      ⟨true,fun _ => 2,fun _ => true,fun _ => false,id,fun _ w => (0,w),id⟩
    let t : DeviceTree Bool :=
      { alldevs := [false,true], nodup := by decide
        parent := fun d => if d then some false else none, depth := fun d => if d then 1 else 0
        depth_parent := by decide, driver := fun d => if d then "hdafg" else "hdaudio"
        unit := fun _ => 0 }
    let m : Machine (Bool → Bool) := ⟨fun _ => true,.s0,false,0,false,false⟩
    Settled m ∧ Undone P t 0 (acpiEnterFreeze P t (Frame.start m)).2 := by
  intro P t m
  have hm : Settled m := ⟨rfl,rfl,rfl⟩
  exact ⟨hm,(freeze_undone P t hm).1 rfl⟩

/-- Freezes one after the other, each with its own tree and answers. In between the rest of the
kernel may become anything. -/
def freezes (m : Machine W) : List (Platform D W × DeviceTree D × W × SleepState) → Machine W
  | [] => m
  | (P,t,w,sleepState) :: calls =>
    freezes { (acpiEnterFreeze P t (Frame.start m)).2.toMachine with world := w, sleepState } calls

theorem settled_freezes {m : Machine W} (h : Settled m)
    (calls : List (Platform D W × DeviceTree D × W × SleepState)) : Settled (freezes m calls) := by
  induction calls generalizing m with
  | nil => exact h
  | cons call calls ih =>
    obtain ⟨P,t,w,sleepState⟩ := call
    by_cases hs0 : P.attached = true ∧ m.sleepState = .s0
    · have hundone : Undone P t m.s0idle (acpiEnterFreeze P t (Frame.start m)).2 :=
        wp_state (acpiEnterFreeze_wp hs0.1 hs0.2 h.thawed h.released rfl rfl)
      exact ih ⟨hundone.thawed,hundone.released,hundone.inactive⟩
    · have hrefused : P.attached = false ∨ m.sleepState ≠ .s0 := by
        rw [← Bool.not_eq_true]
        exact not_and_or.mp hs0
      have hsame := acpiEnterFreeze_refused (t := t) (f := Frame.start m) hrefused
      refine ih ?_
      rw [hsame]
      exact ⟨h.thawed,h.released,h.inactive⟩

end NanoBSD.S2idle
