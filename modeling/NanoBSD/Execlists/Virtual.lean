import Mathlib.Algebra.Group.Int.Defs
import Mathlib.Algebra.Group.Nat.Defs
import Mathlib.Data.List.Nodup
import NanoBSD.Lib.Run
import NanoBSD.Lib.SearchTree

/-! # Virtual engines in the tree of a sibling

A virtual engine offers its request to the physical engines it maps onto, its siblings. Each
sibling has a tree of the virtual engines that offer it something, ordered by priority, in
which a virtual engine has one node. Here is one sibling with all virtual engines that map
onto it; what the other siblings do to a virtual engine is that its request is gone.

Nodes are put into the tree by `virtual_submission_tasklet` and taken out by the same, by
`execlists_dequeue`, by `execlists_reset_cancel` and by `virtual_context_destroy`. The tree
belongs to the lock of the sibling, the request to that of the virtual engine.
-/
namespace NanoBSD.Execlists
open Function Option List
variable {V : Type}

structure VeNode where
  prio : ℤ
  order : ℕ
  inserted : Bool
deriving DecidableEq

def compareVeNodes (na nb : VeNode) : Ordering :=
  if na.prio > nb.prio then .lt
  else if na.prio < nb.prio then .gt
  else if na.order < nb.order then .lt
  else if na.order > nb.order then .gt
  else .eq

/-- `execlists->virtual` as it is walked, the nodes of all virtual engines, and the insertion
counter. Erasing a node that is not in the tree is a `fault`. -/
structure Virtual (V : Type) where
  rb : List V
  node : V → VeNode
  order : ℕ
  fault : Bool
  collided : Bool

namespace Virtual
variable [DecidableEq V]

def setNode (X : Virtual V) (v : V) (n : VeNode) : Virtual V :=
  { X with node := Function.update X.node v n }

def erase (X : Virtual V) (v : V) : Virtual V :=
  { X.setNode v { X.node v with inserted := false } with
    rb := X.rb.erase v
    fault := X.fault || decide (v ∉ X.rb) }

def next (X : Virtual V) (v : V) : Option V := ((X.rb.dropWhile (· ≠ v)).drop 1).head?

/-- The node may stay where it is with the new priority. -/
def Reuses (X : Virtual V) (v : V) (prio : ℤ) : Prop :=
  (X.node v).inserted = true ∧
    (prio = (X.node v).prio ∨ prio > (X.node v).prio ∧ X.rb.head? = some v)

instance (X : Virtual V) (v : V) (prio : ℤ) : Decidable (X.Reuses v prio) :=
  inferInstanceAs (Decidable (_ ∧ _))

/-- `rb_tree_insert_node` into a tree of the given shape. The node is compared with the
priority it had, and gets the new one afterwards. -/
def insert (X : Virtual V) (v : V) (prio : ℤ) (shape : SearchTree V) : Option (Virtual V) :=
  let Y := { X.setNode v { X.node v with order := X.order } with order := (X.order + 1) % 2^64 }
  if shape.walk = X.rb then
    match shape.insert (fun a b => compareVeNodes (Y.node a) (Y.node b)) v with
    | none => some { Y with collided := true }
    | some t =>
      some { Y.setNode v { Y.node v with inserted := true, prio := prio } with rb := t.walk }
  else none

def submit (X : Virtual V) (v : V) (prio : ℤ) (shape : SearchTree V) : Option (Virtual V) :=
  if X.Reuses v prio then some (X.setNode v { X.node v with prio := prio })
  else if (X.node v).inserted then (X.erase v).insert v prio shape
  else X.insert v prio shape

end Virtual

structure Request where
  prio : ℤ
  allowed : Bool
deriving DecidableEq

/-- `virtual_submission_tasklet` between its reads and its locked sections. -/
inductive Task
  | idle
  | hinted (prio : ℤ)
  | loop (prio : ℤ) (allowed : Bool)
  | dropping (prio : ℤ)
  | locking (prio : ℤ)
deriving DecidableEq

def Task.locks : Task → Option ℤ
  | .locking prio => some prio
  | _ => none

def INT_MIN : ℤ := -2^31

structure VirtualEngine where
  alive : Bool
  request : Option Request
  queuePriorityHint : ℤ
  scheduled : Bool
  task : Task
  destroying : Bool

/-- The holder of the sibling's lock: `execlists_dequeue` in its two loops over the tree and after
them, or `execlists_reset_cancel`. -/
inductive Holder (V : Type)
  | free
  | scan (rb : Option V)
  | pick (rb : Option V)
  | rest
  | cancel
  | cancelled (v : V)
deriving DecidableEq

def Holder.rb : Holder V → Option V
  | .scan rb | .pick rb => rb
  | _ => none

structure State (V : Type) where
  virtual : Virtual V
  lock : Holder V
  ve : V → VirtualEngine

structure Pick where
  prioOk : Bool
  suits : Bool
  merges : Bool
  submitted : Bool

inductive Event (V : Type)
  | create (v : V)
  | submit (v : V) (rq : Option Request)
  | taken (v : V)
  | taskHint (v : V)
  | taskMask (v : V)
  | taskLook (v : V)
  | taskDrop (v : V)
  | taskInsert (v : V) (shape : SearchTree V)
  | taskDone (v : V)
  | dequeue
  | scan (suits : Bool)
  | pick (p : Pick)
  | unlock
  | reset
  | cancel
  | destroyLook (v : V)
  | destroyErase (v : V)

section Step
variable [DecidableEq V]

def State.setVe (s : State V) (v : V) (e : VirtualEngine) : State V :=
  { s with ve := Function.update s.ve v e }

def State.noRequest (s : State V) (v : V) : State V :=
  s.setVe v { s.ve v with request := none, queuePriorityHint := INT_MIN }

def State.scanNext (s : State V) (suits : Bool) : Option (State V) :=
  match s.lock with
  | .scan none => some { s with lock := .pick none }
  | .scan (some v) =>
    if (s.ve v).request = none then
      some { s with virtual := s.virtual.erase v, lock := .scan (s.virtual.erase v).rb.head? }
    else if suits then some { s with lock := .pick (some v) }
    else some { s with lock := .scan (s.virtual.next v) }
  | _ => none

def State.pickNext (s : State V) (p : Pick) : Option (State V) :=
  match s.lock with
  | .pick none => some { s with lock := .rest }
  | .pick (some v) =>
    if (s.ve v).request = none then
      some { s with virtual := s.virtual.erase v, lock := .pick (s.virtual.erase v).rb.head? }
    else if !p.prioOk then some { s with lock := .rest }
    else if !p.suits then some { s with lock := .pick (s.virtual.next v) }
    else if !p.merges then some { s with lock := .free }
    else
      some { s.noRequest v with
        virtual := s.virtual.erase v
        lock := if p.submitted then .rest else .pick (s.virtual.erase v).rb.head? }
  | _ => none

/-- The loop over the tree of `execlists_reset_cancel`; the tree is made new at its end. -/
def State.cancelNext (s : State V) : Option (State V) :=
  match s.lock with
  | .cancel =>
    match s.virtual.rb with
    | [] => some { s with lock := .free }
    | v :: _ => some { s with virtual := s.virtual.erase v, lock := .cancelled v }
  | .cancelled v =>
    if (s.ve v).request = none then some { s with lock := .cancel }
    else some { s.noRequest v with lock := .cancel }
  | _ => none

def newVe : VirtualEngine where
  alive := true
  request := none
  queuePriorityHint := INT_MIN
  scheduled := false
  task := .idle
  destroying := false

def step (s : State V) : Event V → Option (State V)
  -- `intel_execlists_create_virtual`
  | .create v =>
    if !(s.ve v).alive then
      some { s.setVe v newVe with virtual := s.virtual.setNode v ⟨0,0,false⟩ }
    else none
  -- `virtual_submit_request`, of a completed request too
  | .submit v rq =>
    if (s.ve v).alive ∧ !(s.ve v).destroying then
      match rq with
      | none => some (s.noRequest v)
      | some r =>
        some (s.setVe v
          { s.ve v with request := some r, queuePriorityHint := r.prio, scheduled := true })
    else none
  -- another sibling runs or cancels the request
  | .taken v => if (s.ve v).request = none then none else some (s.noRequest v)
  -- `virtual_submission_tasklet`
  | .taskHint v =>
    if (s.ve v).scheduled ∧ (s.ve v).task = .idle then
      some (s.setVe v
        { s.ve v with scheduled := false, task := .hinted (s.ve v).queuePriorityHint })
    else none
  | .taskMask v =>
    match (s.ve v).task with
    | .hinted prio =>
      match (s.ve v).request with
      | none => some (s.setVe v { s.ve v with task := .idle })
      | some rq => some (s.setVe v { s.ve v with task := .loop prio rq.allowed })
    | _ => none
  | .taskLook v =>
    match (s.ve v).task with
    | .loop prio allowed =>
      if (s.ve v).request = none then none
      else if allowed then some (s.setVe v { s.ve v with task := .locking prio })
      else if (s.virtual.node v).inserted then
        some (s.setVe v { s.ve v with task := .dropping prio })
      else some s
    | _ => none
  | .taskDrop v =>
    match (s.ve v).task with
    | .dropping prio =>
      if s.lock = .free then
        some { s.setVe v { s.ve v with task := .loop prio false } with
          virtual := s.virtual.erase v }
      else none
    | _ => none
  | .taskInsert v shape =>
    match (s.ve v).task with
    | .locking prio =>
      if s.lock = .free then
        (s.virtual.submit v prio shape).map fun X =>
          { s.setVe v { s.ve v with task := .loop prio true } with virtual := X }
      else none
    | _ => none
  | .taskDone v =>
    match (s.ve v).task with
    | .loop _ _ => some (s.setVe v { s.ve v with task := .idle })
    | _ => none
  | .dequeue => if s.lock = .free then some { s with lock := .scan s.virtual.rb.head? } else none
  | .scan suits => s.scanNext suits
  | .pick p => s.pickNext p
  | .unlock =>
    match s.lock with
    | .pick _ | .rest => some { s with lock := .free }
    | _ => none
  | .reset => if s.lock = .free then some { s with lock := .cancel } else none
  | .cancel => s.cancelNext
  -- `virtual_context_destroy`, with what it asserts
  | .destroyLook v =>
    if (s.ve v).alive ∧ !(s.ve v).destroying ∧ (s.ve v).request = none ∧ !(s.ve v).scheduled then
      if (s.virtual.node v).inserted then some (s.setVe v { s.ve v with destroying := true })
      else some (s.setVe v { s.ve v with alive := false })
    else none
  | .destroyErase v =>
    if (s.ve v).destroying ∧ s.lock = .free then
      some { s.setVe v { s.ve v with alive := false, destroying := false } with
        virtual := if (s.virtual.node v).inserted then s.virtual.erase v else s.virtual }
    else none

end Step

def boot (order : ℕ) : State V where
  virtual := ⟨[],fun _ => ⟨0,0,false⟩,order,false,false⟩
  lock := .free
  ve := fun _ => { newVe with alive := false }

/-! ## The tree -/

def Before (a b : VeNode) : Prop := b.prio < a.prio ∨ a.prio = b.prio ∧ a.order < b.order
instance (a b : VeNode) : Decidable (Before a b) := inferInstanceAs (Decidable (_ ∨ _))

section Compare
variable {a b c : VeNode}

theorem before_of_lt (h : compareVeNodes a b = .lt) : Before a b := by
  unfold compareVeNodes at h
  unfold Before
  split_ifs at h <;> omega

theorem before_of_gt (h : compareVeNodes a b = .gt) : Before b a := by
  unfold compareVeNodes at h
  unfold Before
  split_ifs at h <;> omega

theorem order_of_eq (h : compareVeNodes a b = .eq) : a.order = b.order := by
  unfold compareVeNodes at h
  split_ifs at h
  omega

theorem Before.trans (h : Before a b) (h' : Before b c) : Before a c := by
  unfold Before at *
  omega

theorem sorted_congr {l : List V} {f g : V → VeNode} (h : l.Pairwise fun u v => Before (f u) (f v))
    (hfg : ∀ u ∈ l, g u = f u) : l.Pairwise fun u v => Before (g u) (g v) := by
  refine h.imp_of_mem fun ha hb hab => ?_
  rw [hfg _ ha,hfg _ hb]
  exact hab

end Compare

/-- The tree holds the nodes marked inserted, in order, and their numbers are used up. -/
structure Virtual.Kept (X : Virtual V) : Prop where
  clean : X.fault = false ∧ X.collided = false
  nodup : X.rb.Nodup
  mem : ∀ v, v ∈ X.rb ↔ (X.node v).inserted = true
  sorted : X.rb.Pairwise fun u v => Before (X.node u) (X.node v)
  used : ∀ v ∈ X.rb, (X.node v).order < X.order
  order : X.order < 2^64

/-- A node's old priority stands to those of the others as the new one does, and the insertion
counter does not wrap. -/
def Virtual.Steady (X : Virtual V) (v : V) (prio : ℤ) : Prop :=
  X.order + 1 < 2^64 ∧
    ∀ u ∈ X.rb, u ≠ v → ((X.node v).prio ≤ (X.node u).prio ↔ prio ≤ (X.node u).prio)

instance [DecidableEq V] (X : Virtual V) (v : V) (prio : ℤ) : Decidable (X.Steady v prio) :=
  inferInstanceAs (Decidable (_ ∧ _))

namespace Virtual.Kept
variable [DecidableEq V] {X Y : Virtual V} {v : V} {prio : ℤ} {shape : SearchTree V}

theorem erase (h : X.Kept) (hv : (X.node v).inserted = true) : (X.erase v).Kept := by
  have hmem : v ∈ X.rb := (h.mem v).mpr hv
  have hne {u : V} (hu : u ∈ X.rb.erase v) : u ≠ v ∧ u ∈ X.rb := h.nodup.mem_erase_iff.mp hu
  have hnode {u : V} (hu : u ≠ v) : (X.erase v).node u = X.node u := update_of_ne hu _ _
  refine ⟨⟨?_,h.clean.2⟩,h.nodup.erase v,fun u => ?_,?_,fun u hu => ?_,h.order⟩
  · simp [Virtual.erase,h.clean.1,hmem]
  · rcases eq_or_ne u v with rfl | hu
    · simp [Virtual.erase,Virtual.setNode,h.nodup.mem_erase_iff]
    · rw [hnode hu,← h.mem u]
      exact h.nodup.mem_erase_iff.trans (and_iff_right hu)
  · exact sorted_congr (h.sorted.sublist erase_sublist) fun u hu => hnode (hne hu).1
  · rw [hnode (hne hu).1]
    exact h.used u (hne hu).2

theorem reuse (h : X.Kept) (hr : X.Reuses v prio) :
    (X.setNode v { X.node v with prio := prio }).Kept := by
  obtain ⟨hin,rfl | ⟨hgt,hhead⟩⟩ := hr
  · have hsame : X.setNode v { X.node v with prio := (X.node v).prio } = X := by
      unfold Virtual.setNode
      rw [update_eq_self]
    rw [hsame]
    exact h
  · obtain ⟨rest,hrb⟩ := List.head?_eq_some_iff.mp hhead
    have hrest {u : V} (hu : u ∈ rest) : u ≠ v := fun he => by
      have hnd := hrb ▸ h.nodup
      exact (nodup_cons.mp hnd).1 (he ▸ hu)
    have hnode {u : V} (hu : u ≠ v) :
        (X.setNode v { X.node v with prio := prio }).node u = X.node u := update_of_ne hu _ _
    have hsame (u : V) : ((X.setNode v { X.node v with prio := prio }).node u).inserted =
        (X.node u).inserted ∧
        ((X.setNode v { X.node v with prio := prio }).node u).order = (X.node u).order := by
      rcases eq_or_ne u v with rfl | hu
      · simp [Virtual.setNode]
      · rw [hnode hu]
        exact ⟨rfl,rfl⟩
    refine ⟨h.clean,h.nodup,fun u => ?_,?_,fun u hu => ?_,h.order⟩
    · rw [(hsame u).1]
      exact h.mem u
    · change X.rb.Pairwise _
      rw [hrb]
      obtain ⟨hv,hrest'⟩ := pairwise_cons.mp (hrb ▸ h.sorted)
      refine pairwise_cons.mpr
        ⟨fun u hu => ?_,sorted_congr hrest' fun u hu => hnode (hrest hu)⟩
      -- it was first, and the others are no higher than it was
      have hb := hv u hu
      rw [hnode (hrest hu)]
      simp only [Virtual.setNode,update_self]
      unfold Before at *
      dsimp only
      omega
    · rw [(hsame u).2]
      exact h.used u hu

theorem insert (h : X.Kept) (hv : (X.node v).inserted = false) (hsteady : X.Steady v prio)
    (hins : X.insert v prio shape = some Y) : Y.Kept := by
  have hout : v ∉ X.rb := fun hmem => (by cases hv.symm.trans ((h.mem v).mp hmem))
  have hne {u : V} (hu : u ∈ X.rb) : u ≠ v := fun he => hout (he ▸ hu)
  unfold Virtual.insert at hins
  dsimp only [Virtual.setNode] at hins
  split_ifs at hins with hwalk
  -- the nodes as they are compared
  generalize hold : update X.node v { X.node v with order := X.order } = old at hins
  have holdv : old v = { X.node v with order := X.order } := by
    rw [← hold,update_self]
  have hother {u : V} (hu : u ≠ v) : old u = X.node u := by
    rw [← hold,update_of_ne hu]
  have hsome : (shape.insert (fun a b => compareVeNodes (old a) (old b)) v).isSome := by
    refine SearchTree.insert_isSome fun u hu heq => ?_
    rw [hwalk] at hu
    have horder := order_of_eq heq
    rw [holdv,hother (hne hu)] at horder
    exact absurd horder.symm (Nat.ne_of_lt (h.used u hu))
  obtain ⟨t,ht⟩ := isSome_iff_exists.mp hsome
  rw [ht] at hins
  cases hins
  have hsorted : shape.walk.Pairwise fun a b => Before (old a) (old b) := by
    rw [hwalk]
    exact sorted_congr h.sorted fun u hu => hother (hne hu)
  obtain ⟨pre,post,hrb,hrb',hpre,hpost⟩ := SearchTree.walk_insert hsorted ht
    (fun _ => before_of_lt) (fun _ => before_of_gt) fun _ _ _ => Before.trans
  rw [hwalk] at hrb
  have hleft {u : V} (hu : u ∈ pre) : u ∈ X.rb := hrb ▸ mem_append_left post hu
  have hright {u : V} (hu : u ∈ post) : u ∈ X.rb := hrb ▸ mem_append_right pre hu
  have hnode {u : V} (hu : u ≠ v) :
      update old v { old v with inserted := true, prio := prio } u = X.node u :=
    (update_of_ne hu _ _).trans (hother hu)
  have hnodev : update old v { old v with inserted := true, prio := prio } v =
      ⟨prio,X.order,true⟩ := by
    rw [update_self,holdv]
  -- the new priority puts the node where the old one does
  have hside {u : V} (hu : u ∈ X.rb) : (Before (old u) (old v) → Before (X.node u) ⟨prio,X.order,true⟩) ∧
      (Before (old v) (old u) → Before ⟨prio,X.order,true⟩ (X.node u)) := by
    have hiff := hsteady.2 u hu (hne hu)
    have hused := h.used u hu
    rw [holdv,hother (hne hu)]
    unfold Before
    dsimp only
    omega
  have hmem {u : V} : u ∈ pre ++ v :: post ↔ u = v ∨ u ∈ X.rb := by
    rw [hrb]
    simp only [mem_append,mem_cons]
    tauto
  have hnd : (pre ++ v :: post).Nodup := nodup_middle.mpr
    (nodup_cons.mpr ⟨hrb ▸ hout,hrb ▸ h.nodup⟩)
  refine ⟨h.clean,hrb' ▸ hnd,fun u => ?_,?_,fun u hu => ?_,Nat.mod_lt _ (by decide)⟩
  · dsimp only
    rw [hrb',hmem]
    rcases eq_or_ne u v with rfl | hu
    · simp
    · rw [hnode hu,← h.mem u]
      simp [hu]
  · dsimp only
    rw [hrb']
    obtain ⟨hpp,hqq,hpq⟩ := pairwise_append.mp (hrb ▸ h.sorted)
    refine pairwise_append.mpr ⟨sorted_congr hpp fun u hu => hnode (hne (hleft hu)),
      pairwise_cons.mpr
        ⟨fun u hu => ?_,sorted_congr hqq fun u hu => hnode (hne (hright hu))⟩,fun a ha b hb => ?_⟩
    · rw [hnodev,hnode (hne (hright hu))]
      exact (hside (hright hu)).2 (hpost u hu)
    · rw [hnode (hne (hleft ha))]
      rcases mem_cons.mp hb with rfl | hb
      · rw [hnodev]
        exact (hside (hleft ha)).1 (hpre a ha)
      · rw [hnode (hne (hright hb))]
        exact hpq a ha b hb
  · dsimp only at hu ⊢
    rw [Nat.mod_eq_of_lt hsteady.1]
    rw [hrb',hmem] at hu
    rcases hu with rfl | hu
    · rw [hnodev]
      exact Nat.lt_succ_self _
    · rw [hnode (hne hu)]
      exact Nat.lt_succ_of_lt (h.used u hu)

theorem submit (h : X.Kept) (hsteady : ¬X.Reuses v prio → X.Steady v prio)
    (hsub : X.submit v prio shape = some Y) : Y.Kept := by
  unfold Virtual.submit at hsub
  split_ifs at hsub with hr hin
  · cases hsub
    exact h.reuse hr
  · refine (h.erase hin).insert ?_ ⟨(hsteady hr).1,fun u hu hne => ?_⟩ hsub
    · simp [Virtual.erase,Virtual.setNode]
    · have hnode : (X.erase v).node u = X.node u := update_of_ne hne _ _
      have hprio : ((X.erase v).node v).prio = (X.node v).prio := by
        simp [Virtual.erase,Virtual.setNode]
      rw [hnode,hprio]
      exact (hsteady hr).2 u (mem_of_mem_erase hu) hne
  · exact h.insert (by simpa using hin) (hsteady hr) hsub

theorem outside (h : X.Kept) (hv : (X.node v).inserted = false) {n : VeNode}
    (hn : n.inserted = false) : (X.setNode v n).Kept := by
  have hne {u : V} (hu : u ∈ X.rb) : u ≠ v := fun he =>
    (by cases hv.symm.trans ((h.mem v).mp (he ▸ hu)))
  have hnode {u : V} (hu : u ≠ v) : (X.setNode v n).node u = X.node u := update_of_ne hu _ _
  refine ⟨h.clean,h.nodup,fun u => ?_,sorted_congr h.sorted fun u hu => hnode (hne hu),
    fun u hu => ?_,h.order⟩
  · rcases eq_or_ne u v with rfl | hu
    · have hout : u ∉ X.rb := fun hu => hne hu rfl
      simp [Virtual.setNode,hn,hout]
    · rw [hnode hu]
      exact h.mem u
  · rw [hnode (hne hu)]
    exact h.used u hu

end Virtual.Kept

/-! ## Runs -/

/-- Where the tasklet erases the node of a sibling outside the mask, it is still in the tree; where
it inserts one, the old priority does as well; and it does not run when the virtual engine is
destroyed, which only asserts that it is not scheduled. -/
def Steady [DecidableEq V] (s : State V) : Event V → Prop
  | .taskDrop v => (s.virtual.node v).inserted = true
  | .taskInsert v _ =>
    ∀ prio ∈ (s.ve v).task.locks, ¬s.virtual.Reuses v prio → s.virtual.Steady v prio
  | .destroyLook v => (s.ve v).task = .idle
  | _ => True

instance [DecidableEq V] (s : State V) : ∀ ev : Event V, Decidable (Steady s ev)
  | .taskDrop _ | .destroyLook _ => inferInstanceAs (Decidable (_ = _))
  | .taskInsert v _ => inferInstanceAs (Decidable (∀ prio ∈ (s.ve v).task.locks, _))
  | .create _ | .submit _ _ | .taken _ | .taskHint _ | .taskMask _ | .taskLook _ | .taskDone _
  | .dequeue | .scan _ | .pick _ | .unlock | .reset | .cancel | .destroyErase _ => isTrue trivial

/-- The dequeue is at nodes in the tree, and what is destroyed is out of use. -/
structure Sound (s : State V) : Prop where
  virtual : s.virtual.Kept
  holder : ∀ v, s.lock.rb = some v → v ∈ s.virtual.rb
  quiet : ∀ v, (s.ve v).alive = false ∨ (s.ve v).destroying = true →
    (s.ve v).task = .idle ∧ (s.ve v).scheduled = false
  gone : ∀ v, (s.ve v).alive = false → (s.virtual.node v).inserted = false

section Sound
variable [DecidableEq V] {s t : State V} {ev : Event V} {v : V} {X Y : Virtual V} {u : V}
  {l : Holder V} {prio : ℤ} {shape : SearchTree V}

theorem Virtual.next_mem (h : X.next v = some u) : u ∈ X.rb := by
  have hmem := mem_of_mem_drop (mem_of_mem_head? h)
  exact (dropWhile_sublist _).subset hmem

theorem Virtual.erase_inserted (h : ((X.erase v).node u).inserted = true) :
    (X.node u).inserted = true := by
  rcases eq_or_ne u v with rfl | hu
  · simp [Virtual.erase,Virtual.setNode] at h
  · have hsame : (X.erase v).node u = X.node u := update_of_ne hu _ _
    rwa [hsame] at h

section
variable (h : Sound s)
include h

theorem Sound.setVe {e : VirtualEngine}
    (hquiet : e.alive = false ∨ e.destroying = true → e.task = .idle ∧ e.scheduled = false)
    (hgone : e.alive = false → (s.virtual.node v).inserted = false) : Sound (s.setVe v e) := by
  refine ⟨h.virtual,h.holder,fun u => ?_,fun u => ?_⟩
  · rcases eq_or_ne u v with rfl | hu
    · simp only [State.setVe,update_self]
      exact hquiet
    · simp only [State.setVe,update_of_ne hu]
      exact h.quiet u
  · rcases eq_or_ne u v with rfl | hu
    · simp only [State.setVe,update_self]
      exact hgone
    · simp only [State.setVe,update_of_ne hu]
      exact h.gone u

omit [DecidableEq V] in
theorem Sound.setLock (hl : ∀ v, l.rb = some v → v ∈ s.virtual.rb) :
    Sound { s with lock := l } :=
  ⟨h.virtual,hl,h.quiet,h.gone⟩

theorem Sound.eraseNode (hv : v ∈ s.virtual.rb)
    (hl : ∀ u, l.rb = some u → u ∈ (s.virtual.erase v).rb) :
    Sound { s with virtual := s.virtual.erase v, lock := l } := by
  refine ⟨h.virtual.erase ((h.virtual.mem v).mp hv),hl,h.quiet,fun u hu => ?_⟩
  by_contra hin
  have hold := Virtual.erase_inserted (Bool.not_eq_false _ ▸ hin)
  cases (h.gone u hu).symm.trans hold

theorem Sound.noRequest (v : V) : Sound (s.noRequest v) :=
  h.setVe (h.quiet v) (h.gone v)

theorem Sound.scanNext {suits : Bool} (hstep : s.scanNext suits = some t) : Sound t := by
  unfold State.scanNext at hstep
  split at hstep
  · cases hstep
    exact h.setLock nofun
  · next v hlock =>
    have hv := h.holder v (by rw [hlock]; rfl)
    split_ifs at hstep with hnone hsuits <;> cases hstep
    · exact h.eraseNode hv fun u hu => mem_of_mem_head? hu
    · exact h.setLock fun u hu => Option.some.inj hu ▸ hv
    · exact h.setLock fun u hu => Virtual.next_mem hu
  · cases hstep

theorem Sound.pickNext {p : Pick} (hstep : s.pickNext p = some t) : Sound t := by
  unfold State.pickNext at hstep
  split at hstep
  · cases hstep
    exact h.setLock nofun
  · next v hlock =>
    have hv := h.holder v (by rw [hlock]; rfl)
    split_ifs at hstep with hnone hprio hsuits hmerges hsub <;> cases hstep
    · exact h.eraseNode hv fun u hu => mem_of_mem_head? hu
    · exact h.setLock nofun
    · exact h.setLock fun u hu => Virtual.next_mem hu
    · exact h.setLock nofun
    · exact (h.noRequest v).eraseNode hv nofun
    · exact (h.noRequest v).eraseNode hv fun u hu => mem_of_mem_head? hu
  · cases hstep

theorem Sound.cancelNext (hstep : s.cancelNext = some t) : Sound t := by
  unfold State.cancelNext at hstep
  split at hstep
  · split at hstep
    · cases hstep
      exact h.setLock nofun
    · next v rest hrb =>
      cases hstep
      exact h.eraseNode (hrb ▸ mem_cons_self) nofun
  · next v hlock =>
    split_ifs at hstep <;> cases hstep
    · exact h.setLock nofun
    · exact (h.noRequest v).setLock nofun
  · cases hstep

end

theorem Virtual.insert_node
    (h : X.insert v prio shape = some Y) (hu : u ≠ v) : Y.node u = X.node u := by
  unfold Virtual.insert at h
  dsimp only at h
  split_ifs at h with hwalk
  split at h <;> obtain rfl := Option.some.inj h <;> simp [Virtual.setNode,hu]

theorem Virtual.submit_node
    (h : X.submit v prio shape = some Y) (hu : u ≠ v) : Y.node u = X.node u := by
  unfold Virtual.submit at h
  split_ifs at h with hr hin
  · cases h
    exact update_of_ne hu _ _
  · exact (Virtual.insert_node h hu).trans (update_of_ne hu _ _)
  · exact Virtual.insert_node h hu

def State.Active (s : State V) (v : V) : Prop :=
  (s.ve v).task ≠ .idle ∨ (s.ve v).scheduled = true

omit [DecidableEq V] in
theorem Sound.active (h : Sound s) (hv : s.Active v) :
    ¬((s.ve v).alive = false ∨ (s.ve v).destroying = true) := by
  intro hdead
  obtain ⟨hidle,hsched⟩ := h.quiet v hdead
  rcases hv with hv | hv
  · exact hv hidle
  · cases hsched.symm.trans hv

theorem Sound.setTask (h : Sound s) (hv : s.Active v) (sched : Bool) (task : Task) :
    Sound (s.setVe v { s.ve v with scheduled := sched, task := task }) :=
  h.setVe (fun hdead => absurd hdead (h.active hv)) fun hdead => absurd (.inl hdead) (h.active hv)

theorem Sound.taskStep (h : Sound s) (hsteady : Steady s ev)
    (hev : ev matches .taskHint _ | .taskMask _ | .taskLook _ | .taskDrop _ | .taskInsert _ _ |
      .taskDone _) (hstep : step s ev = some t) : Sound t := by
  unfold step at hstep
  cases ev with
  | taskHint v =>
    obtain ⟨⟨hsched,hidle⟩,rfl⟩ := of_guard hstep
    exact h.setTask (.inr hsched) false _
  | taskMask v =>
    dsimp only at hstep
    split at hstep
    · next prio htask =>
      have hactive : s.Active v := .inl (by simp [htask])
      split at hstep <;> obtain rfl := Option.some.inj hstep <;> exact h.setTask hactive _ _
    · cases hstep
  | taskLook v =>
    dsimp only at hstep
    split at hstep
    · next prio allowed htask =>
      have hactive : s.Active v := .inl (by simp [htask])
      split_ifs at hstep <;> cases hstep
      · exact h.setTask hactive _ _
      · exact h.setTask hactive _ _
      · exact h
    · cases hstep
  | taskDrop v =>
    dsimp only at hstep
    split at hstep
    · next prio htask =>
      have hactive : s.Active v := .inl (by simp [htask])
      obtain ⟨hfree,rfl⟩ := of_guard hstep
      refine (h.setTask hactive _ _).eraseNode ((h.virtual.mem v).mpr hsteady) fun u hu => ?_
      have hnone : s.lock.rb = none := by rw [hfree]; rfl
      cases hnone.symm.trans hu
    · cases hstep
  | taskInsert v shape =>
    dsimp only at hstep
    split at hstep
    · next prio htask =>
      have hactive : s.Active v := .inl (by simp [htask])
      obtain ⟨hfree,hsub⟩ := ite_none_right_eq_some.mp hstep
      obtain ⟨X,hX,rfl⟩ := map_eq_some_iff.mp hsub
      have hkept := h.virtual.submit (hsteady prio (by rw [htask]; rfl)) hX
      have hsound := h.setTask hactive (s.ve v).scheduled (.loop prio true)
      refine ⟨hkept,fun u hu => ?_,hsound.quiet,fun u hdead => ?_⟩
      · have hnone : s.lock.rb = none := by rw [hfree]; rfl
        cases hnone.symm.trans hu
      · have hu : u ≠ v := by
          rintro rfl
          simp only [State.setVe,update_self] at hdead
          exact h.active hactive (.inl hdead)
        rw [Virtual.submit_node hX hu]
        exact hsound.gone u hdead
    · cases hstep
  | taskDone v =>
    dsimp only at hstep
    split at hstep
    · next prio allowed htask =>
      cases hstep
      exact h.setTask (.inl (by simp [htask])) _ _
    · cases hstep
  | _ => cases hev

theorem Sound.destroyErase (h : Sound s) (hd : (s.ve v).destroying = true)
    (hfree : s.lock = .free) :
    Sound { s.setVe v { s.ve v with alive := false, destroying := false } with
      virtual := if (s.virtual.node v).inserted then s.virtual.erase v else s.virtual } := by
  split_ifs with hin
  · have herase : Sound { s with virtual := s.virtual.erase v, lock := s.lock } := by
      refine h.eraseNode ((h.virtual.mem v).mpr hin) fun u hu => ?_
      rw [hfree] at hu
      cases hu
    exact herase.setVe (fun _ => h.quiet v (.inr hd)) fun _ => by simp [Virtual.erase,Virtual.setNode]
  · exact h.setVe (fun _ => h.quiet v (.inr hd)) fun _ => by simpa using hin

theorem Sound.step (h : Sound s) (hsteady : Steady s ev) (hstep : Execlists.step s ev = some t) :
    Sound t := by
  cases ev with
  | create v =>
    obtain ⟨hdead,rfl⟩ := of_guard hstep
    have hout := h.gone v (by simpa using hdead)
    have hve : Sound (s.setVe v newVe) :=
      h.setVe (fun _ => ⟨rfl,rfl⟩) fun halive => (by cases halive)
    refine ⟨h.virtual.outside hout rfl,h.holder,hve.quiet,fun u hu => ?_⟩
    rcases eq_or_ne u v with rfl | hne
    · simp [Virtual.setNode]
    · have hnode : (s.virtual.setNode v ⟨0,0,false⟩).node u = s.virtual.node u :=
        update_of_ne hne _ _
      rw [hnode]
      exact hve.gone u hu
  | submit v rq =>
    obtain ⟨⟨halive,hdes⟩,hsub⟩ := ite_none_right_eq_some.mp hstep
    cases rq with
    | none =>
      cases hsub
      exact h.noRequest v
    | some r =>
      cases hsub
      have hin : ¬((s.ve v).alive = false ∨ (s.ve v).destroying = true) := by simp_all
      exact h.setVe (fun hdead => absurd hdead hin) fun hdead => absurd (.inl hdead) hin
  | taken v =>
    obtain ⟨-,rfl⟩ := of_unless hstep
    exact h.noRequest v
  | taskHint | taskMask | taskLook | taskDrop | taskInsert | taskDone =>
    exact h.taskStep hsteady rfl hstep
  | dequeue =>
    obtain ⟨-,rfl⟩ := of_guard hstep
    exact h.setLock fun u hu => mem_of_mem_head? hu
  | scan suits => exact h.scanNext hstep
  | pick p => exact h.pickNext hstep
  | unlock =>
    unfold Execlists.step at hstep
    dsimp only at hstep
    split at hstep <;> cases hstep
    · exact h.setLock nofun
    · exact h.setLock nofun
  | reset =>
    obtain ⟨-,rfl⟩ := of_guard hstep
    exact h.setLock nofun
  | cancel => exact h.cancelNext hstep
  | destroyLook v =>
    obtain ⟨⟨halive,hdes,hreq,hsched⟩,hdest⟩ := ite_none_right_eq_some.mp hstep
    have hsched' : (s.ve v).scheduled = false := by simpa using hsched
    split_ifs at hdest with hin <;> cases hdest
    · exact h.setVe (fun _ => ⟨hsteady,hsched'⟩) (h.gone v)
    · exact h.setVe (fun _ => ⟨hsteady,hsched'⟩) fun _ => by simpa using hin
  | destroyErase v =>
    obtain ⟨⟨hdes,hfree⟩,rfl⟩ := of_guard hstep
    exact h.destroyErase hdes hfree

omit [DecidableEq V] in
theorem boot_sound {order : ℕ} (h : order < 2^64) : Sound (boot order : State V) where
  virtual := ⟨⟨rfl,rfl⟩,nodup_nil,fun _ => by simp [boot],List.Pairwise.nil,
    fun _ h => absurd h not_mem_nil,h⟩
  holder := nofun
  quiet := fun _ _ => ⟨rfl,rfl⟩
  gone := fun _ _ => rfl

/-- In a run of steady steps no node is erased twice and no insertion collides; the tree has just
the nodes marked inserted, each once, and with the lock free lists them by priority, equal ones as
inserted. -/
theorem virtual_tree_kept {order : ℕ} (horder : order < 2^64) {evs : List (Event V)}
    (hsteady : Along step Steady (boot order) evs) (hrun : exec step (boot order) evs = some t) :
    t.virtual.fault = false ∧ t.virtual.collided = false ∧ t.virtual.rb.Nodup ∧
      (∀ v, v ∈ t.virtual.rb ↔ (t.virtual.node v).inserted = true) ∧
      (t.lock = .free → t.virtual.rb.Pairwise fun u v =>
        Before (t.virtual.node u) (t.virtual.node v)) := by
  have hsound : Sound t := exec_invariant_along Sound (fun _ _ _ h hs hstep => h.step hs hstep)
    (boot_sound horder) hsteady hrun
  obtain ⟨hfault,hcollided⟩ := hsound.virtual.clean
  exact ⟨hfault,hcollided,hsound.virtual.nodup,hsound.virtual.mem,fun _ => hsound.virtual.sorted⟩

def offers (v : Bool) (prio : ℤ) (shape : SearchTree Bool) : List (Event Bool) :=
  [.submit v (some ⟨prio,true⟩),.taskHint v,.taskMask v,.taskLook v,.taskInsert v shape,.taskDone v]

def twoOffers : List (Event Bool) :=
  [.create false,.create true] ++ offers false 0 .leaf ++
    offers true 0 (.node .leaf false .leaf) ++
    [.dequeue,.scan true,.pick ⟨true,true,true,true⟩,.unlock]

theorem virtual_tree_kept_twoOffers :
    ∃ t, exec step (boot 0) twoOffers = some t ∧ t.virtual.rb = [true] ∧
      t.virtual.fault = false ∧ t.virtual.collided = false ∧ t.virtual.rb.Nodup ∧
      (∀ v, v ∈ t.virtual.rb ↔ (t.virtual.node v).inserted = true) ∧
      (t.lock = .free → t.virtual.rb.Pairwise fun u v =>
        Before (t.virtual.node u) (t.virtual.node v)) := by
  obtain ⟨t,hrun,ht⟩ : ∃ t, exec step (boot 0) twoOffers = some t ∧ t.virtual.rb = [true] := by
      decide +kernel
  exact ⟨t,hrun,ht,virtual_tree_kept (by decide) (by decide +kernel) hrun⟩

/-- The second virtual engine's request may not run on the sibling, and another one takes it before
the tasklet erases the old node. -/
def droppedTwice : List (Event Bool) :=
  [.create true] ++ offers true 0 .leaf ++
    [.taken true,.submit true (some ⟨0,false⟩),.taskHint true,.taskMask true,.taskLook true,
      .taken true,.dequeue,.scan true,.scan true,.unlock,.taskDrop true]

/-- A virtual engine that submits at a higher priority comes after one at a lower priority,
and a node is erased twice. -/
theorem tree_out_of_order :
    (∃ t, exec step (boot 0) ([.create false,.create true] ++ offers false 0 .leaf ++
        offers true 5 (.node .leaf false .leaf)) = some t ∧ t.lock = .free ∧
      t.virtual.rb = [false,true] ∧
      (t.virtual.node false).prio = 0 ∧ (t.virtual.node true).prio = 5) ∧
    ∃ t, exec step (boot 0) droppedTwice = some t ∧ t.virtual.fault = true := by
  decide +kernel

end Sound
end NanoBSD.Execlists
