import NanoBSD.Tasklet.Softint

/-! # Where a tasklet is

A scheduled tasklet is in one place: on a queue, in the hands of a soft interrupt or of a caller
that is about to enqueue it, or parked. With each tasklet a place records the kind of the queue
that the tasklet is on or is headed for, and that kind is the one of the state word. The bit
`RUNNING` is a lock, held by one soft interrupt at a time.
-/
namespace NanoBSD.Tasklet
open Function List
variable {κ θ τ : Type}

def Handler.held (k : Kind) : Handler τ → List (Kind × τ)
  | .idle | .start => []
  | .loop th | .unlock _ th | .check _ th | .unpark _ th | .kick _ th | .func _ th =>
    th.map (Prod.mk k)
  | .popped t th | .putBack t th | .locked t th | .park t th | .clear t th =>
    (k,t) :: th.map (Prod.mk k)
  | .requeue k' t th => (k',t) :: th.map (Prod.mk k)

def Caller.held : Caller κ τ → List (Kind × τ)
  | .enqueue k t | .requeue k t _ => [(k,t)]
  | _ => []

def Word.held (w : Word) (t : τ) : List (Kind × τ) := if w.parked then [(w.kind,t)] else []

inductive Place (κ θ τ : Type)
  | queue (i : κ × Kind)
  | softint (i : κ × Kind)
  | caller (x : θ)
  | parked (t : τ)
  deriving DecidableEq

namespace State

def contents (s : State κ θ τ) : Queues (Place κ θ τ) (Kind × τ)
  | .queue i => (s.queue i).map (Prod.mk i.2)
  | .softint i => (s.softint i).held i.2
  | .caller x => (s.caller x).held
  | .parked t => (s.word t).held t

def due (s : State κ θ τ) (e : Kind × τ) : Prop :=
  (s.word e.2).scheduled = true ∧ (s.word e.2).kind = e.1

variable [DecidableEq κ] [DecidableEq θ] [DecidableEq τ] (s : State κ θ τ)

theorem contents_setWord (t : τ) (w : Word) :
    (s.setWord t w).contents = update s.contents (.parked t) (w.held t) := by
  funext p
  cases p with
  | parked u =>
    by_cases h : u = t
    · subst h
      simp [contents,setWord]
    · simp [contents,setWord,h]
  | _ => simp [contents,setWord]

theorem contents_setQueue (i : κ × Kind) (l : List τ) :
    (s.setQueue i l).contents = update s.contents (.queue i) (l.map (Prod.mk i.2)) := by
  funext p
  cases p with
  | queue j =>
    by_cases h : j = i
    · subst h
      simp [contents,setQueue]
    · simp [contents,setQueue,h]
  | _ => simp [contents,setQueue]

theorem contents_setSoftint (i : κ × Kind) (h : Handler τ) :
    (s.setSoftint i h).contents = update s.contents (.softint i) (h.held i.2) := by
  funext p
  cases p with
  | softint j =>
    by_cases hj : j = i
    · subst hj
      simp [contents,setSoftint]
    · simp [contents,setSoftint,hj]
  | _ => simp [contents,setSoftint]

theorem contents_setCaller (x : θ) (a : Caller κ τ) :
    (s.setCaller x a).contents = update s.contents (.caller x) a.held := by
  funext p
  cases p with
  | caller y =>
    by_cases h : y = x
    · subst h
      simp [contents,setCaller]
    · simp [contents,setCaller,h]
  | _ => simp [contents,setCaller]

omit [DecidableEq θ] [DecidableEq τ] in
def Placed (s : State κ θ τ) : Prop := s.contents.Placed s.due

end State

namespace State.Placed

variable [DecidableEq κ] [DecidableEq θ] [DecidableEq τ]
  {s : State κ θ τ} {i : κ × Kind} {g : Handler τ} {x : θ} {a : Caller κ τ} {t : τ} {k : Kind}
  {w : Word} {p : Place κ θ τ} {s' : State κ θ τ}

theorem setSoftint (hs : s.Placed) (heq : g.held i.2 = (s.softint i).held i.2) :
    (s.setSoftint i g).Placed := by
  unfold State.Placed
  rw [contents_setSoftint,heq]
  exact (update_eq_self (.softint i) s.contents).symm ▸ hs

theorem setCaller (hs : s.Placed) (heq : a.held = (s.caller x).held) :
    (s.setCaller x a).Placed := by
  unfold State.Placed
  rw [contents_setCaller,heq]
  exact (update_eq_self (.caller x) s.contents).symm ▸ hs

omit [DecidableEq κ] [DecidableEq θ] in
theorem due_setWord (hsched : w.scheduled = (s.word t).scheduled)
    (hkind : w.kind = (s.word t).kind) : (s.setWord t w).due = s.due := by
  funext e
  by_cases he : e.2 = t
  · subst he
    simp [due,State.setWord,hsched,hkind]
  · simp [due,State.setWord,he]

theorem setRunning (hs : s.Placed) (b : Bool) :
    (s.setWord t { s.word t with running := b }).Placed := by
  have hdue : (s.setWord t { s.word t with running := b }).due = s.due := due_setWord rfl rfl
  unfold State.Placed
  rw [hdue,contents_setWord]
  exact (update_eq_self (.parked t) s.contents).symm ▸ hs

section

omit [DecidableEq κ] [DecidableEq θ] [DecidableEq τ]

theorem due_of_mem (hs : s.Placed) (hmem : (k,t) ∈ s.contents p) : s.due (k,t) :=
  (hs.mem_iff (k,t)).mp ⟨p,hmem⟩

theorem not_parked (hs : s.Placed) (hmem : (k,t) ∈ s.contents p) (hp : p ≠ .parked t) :
    (s.word t).parked = false := by
  by_contra hpark
  rw [Bool.not_eq_false] at hpark
  have hkind : (s.word t).kind = k := (hs.due_of_mem hmem).2
  have hhere : (k,t) ∈ s.contents (.parked t) := by
    simp [contents,Word.held,hpark,hkind]
  exact hp (hs.unique hmem hhere)

end

variable (hs : s.Placed)
include hs

theorem enqueue_caller (hx : (s.caller x).held = [(i.2,t)]) (ha : a.held = []) :
    ((s.enqueue i t).setCaller x a).Placed := by
  unfold State.Placed State.enqueue
  rw [contents_setCaller,contents_setQueue,ha,update_comm (by simp)]
  refine Queues.Placed.transfer (c := (i.2,t)) hs (by simp) ?_ ?_
  · exact List.Perm.of_eq hx
  · rw [map_append]
    exact perm_append_singleton _ _

theorem enqueue_softint {j : κ × Kind} (hi : (s.softint i).held i.2 = (j.2,t) :: g.held i.2) :
    ((s.enqueue j t).setSoftint i g).Placed := by
  unfold State.Placed State.enqueue
  rw [contents_setSoftint,contents_setQueue,update_comm (by simp)]
  refine Queues.Placed.transfer (c := (j.2,t)) hs (by simp) ?_ ?_
  · exact List.Perm.of_eq hi
  · rw [map_append]
    exact perm_append_singleton _ _

theorem unpark_caller (hpark : (s.word t).parked = true)
    (hx : (s.caller x).held = []) (ha : a.held = [((s.word t).kind,t)]) :
    ((s.setWord t { s.word t with parked := false }).setCaller x a).Placed := by
  have hdue : ((s.setWord t { s.word t with parked := false }).setCaller x a).due = s.due :=
    due_setWord rfl rfl
  unfold State.Placed
  rw [hdue,contents_setCaller,contents_setWord]
  refine Queues.Placed.transfer (c := ((s.word t).kind,t)) hs (by simp) ?_ ?_
  · simp [contents,Word.held,hpark]
  · simp [contents,hx,ha]

theorem unpark_softint (hpark : (s.word t).parked = true)
    (hi : g.held i.2 = ((s.word t).kind,t) :: (s.softint i).held i.2) :
    ((s.setWord t { s.word t with parked := false }).setSoftint i g).Placed := by
  have hdue : ((s.setWord t { s.word t with parked := false }).setSoftint i g).due = s.due :=
    due_setWord rfl rfl
  unfold State.Placed
  rw [hdue,contents_setSoftint,contents_setWord]
  refine Queues.Placed.transfer (c := ((s.word t).kind,t)) hs (by simp) ?_ ?_
  · simp [contents,Word.held,hpark]
  · exact List.Perm.of_eq hi

omit [DecidableEq κ] [DecidableEq θ] [DecidableEq τ] in
theorem kind_of_held (hi : (s.softint i).held i.2 = (k,t) :: g.held i.2) :
    (k,t) ∈ s.contents (.softint i) ∧ (s.word t).kind = k := by
  have hmem : (k,t) ∈ s.contents (.softint i) := by
    simp only [contents,hi]
    exact mem_cons_self
  exact ⟨hmem,(hs.due_of_mem hmem).2⟩

theorem park (hi : (s.softint i).held i.2 = (k,t) :: g.held i.2) :
    ((s.setWord t { s.word t with parked := true }).setSoftint i g).Placed := by
  obtain ⟨hmem,hkind⟩ := hs.kind_of_held hi
  have hnot := hs.not_parked hmem (by simp)
  have hdue : ((s.setWord t { s.word t with parked := true }).setSoftint i g).due = s.due :=
    due_setWord rfl rfl
  unfold State.Placed
  rw [hdue,contents_setSoftint,contents_setWord,update_comm (by simp)]
  refine Queues.Placed.transfer (c := (k,t)) hs (by simp) ?_ ?_
  · exact List.Perm.of_eq hi
  · simp [contents,Word.held,hnot,hkind]

theorem clear (hi : (s.softint i).held i.2 = (k,t) :: g.held i.2) :
    ((s.setWord t { s.word t with scheduled := false }).setSoftint i g).Placed := by
  obtain ⟨-,hkind⟩ := hs.kind_of_held hi
  have hword : ({ s.word t with scheduled := false } : Word).held t = s.contents (.parked t) := rfl
  unfold State.Placed
  rw [contents_setSoftint,contents_setWord,hword,update_eq_self]
  refine (Queues.Placed.leave (k := Place.softint i) (c := (k,t)) hs
    (List.Perm.of_eq hi)).congr fun e => ?_
  by_cases he : e.2 = t
  · obtain ⟨k',t'⟩ := e
    obtain rfl : t' = t := he
    simp [due,State.setWord,State.setSoftint,hkind]
    grind
  · have hne : e ≠ (k,t) := fun h => he (congrArg Prod.snd h)
    simp [due,State.setWord,State.setSoftint,he,hne]

theorem queueSchedule (hx : s.caller x = .idle) : (s.queueSchedule x k t).Placed := by
  unfold State.queueSchedule
  split
  · exact hs
  · rename_i hsched
    have hnot (k' : Kind) (p : Place κ θ τ) : (k',t) ∉ s.contents p := fun hmem =>
      hsched (hs.due_of_mem hmem).1
    have hword : ({ s.word t with scheduled := true, kind := k } : Word).held t =
        s.contents (.parked t) := by
      by_cases hpark : (s.word t).parked
      · refine absurd ?_ (hnot (s.word t).kind (.parked t))
        simp [contents,Word.held,hpark]
      · simp [contents,Word.held,hpark]
    unfold State.Placed
    rw [contents_setCaller]
    change Queues.Placed (update (State.contents (s.setWord t _)) _ _) _
    rw [contents_setWord,hword,update_eq_self]
    refine (Queues.Placed.enter (c := (k,t)) hs (fun hdue => hsched hdue.1) ?_).congr fun e => ?_
    · simp [contents,hx,Caller.held]
    · by_cases he : e.2 = t
      · obtain ⟨k',t'⟩ := e
        obtain rfl : t' = t := he
        simp [due,State.setWord,State.setCaller,State.noteAsked]
        grind
      · have hne : e ≠ (k,t) := fun h => he (congrArg Prod.snd h)
        simp [due,State.setWord,State.setCaller,State.noteAsked,he,hne]

theorem grab (hi : s.softint i = .start) :
    ((s.setQueue i []).setSoftint i (.loop (s.queue i))).Placed := by
  have hsrc : s.contents (.softint i) = [] := by simp [contents,hi,Handler.held]
  have happ : (Queues.append s.contents (.softint i) (.queue i)).Placed s.due :=
    Queues.Placed.append hs (by simp)
  unfold Queues.append at happ
  rw [hsrc,nil_append,update_comm (by simp)] at happ
  unfold State.Placed
  rw [contents_setSoftint,contents_setQueue]
  exact happ

theorem proceed {c : κ} (hstep : s.proceed x c = some s') : s'.Placed := by
  have hafter (t : τ) (kill : Bool) : (afterUnpark t kill : Caller κ τ).held = [] := by
    unfold afterUnpark
    split <;> rfl
  unfold State.proceed at hstep
  generalize hx : s.caller x = a at hstep
  cases a with
  | idle | disabled waited t => cases hstep
  | enqueue k t | requeue k t kill =>
    cases hstep
    exact hs.enqueue_caller (i := (c,k)) (by rw [hx]; rfl) rfl
  | kick i t kill =>
    cases hstep
    exact setCaller (s := s.setPending i true) hs ((hafter t kill).trans (by rw [State.setPending,hx]; rfl))
  | unparking t kill =>
    dsimp only at hstep
    split at hstep
    · rename_i hpark
      cases hstep
      exact hs.unpark_caller hpark (by rw [hx]; rfl) rfl
    · cases hstep
      exact hs.setCaller (by rw [hafter,hx]; rfl)
  | waiting t | killing t | reaping t =>
    obtain ⟨-,rfl⟩ := of_unless hstep
    exact hs.setCaller (by rw [hx]; rfl)

theorem softintr (hstep : s.softintr i = some s') : s'.Placed := by
  unfold State.softintr at hstep
  generalize hi : s.softint i = h at hstep
  cases h with
  | idle => cases hstep
  | start =>
    cases hstep
    exact hs.grab hi
  | loop th =>
    cases th with
    | nil | cons t th =>
      cases hstep
      exact hs.setSoftint (by rw [hi]; rfl)
  | popped t th =>
    dsimp only at hstep
    split at hstep
    · cases hstep
      exact hs.setSoftint (by rw [hi]; rfl)
    · cases hstep
      exact (hs.setRunning true).setSoftint (by simp only [State.setWord,hi]; rfl)
  | putBack t th =>
    cases hstep
    exact hs.enqueue_softint (by rw [hi]; rfl)
  | locked t th | check t th =>
    cases hstep
    refine hs.setSoftint ?_
    rw [hi]
    split <;> rfl
  | park t th =>
    cases hstep
    exact hs.park (k := i.2) (g := .unlock t th) (by rw [hi]; rfl)
  | unlock t th | func t th =>
    cases hstep
    exact (hs.setRunning false).setSoftint (by simp only [State.setWord,hi]; rfl)
  | unpark t th =>
    dsimp only at hstep
    split at hstep
    · rename_i hpark
      cases hstep
      exact hs.unpark_softint hpark (by rw [hi]; rfl)
    · cases hstep
      exact hs.setSoftint (by rw [hi]; rfl)
  | requeue k t th =>
    cases hstep
    exact hs.enqueue_softint (j := (i.1,k)) (g := .kick k th) (by rw [hi]; rfl)
  | kick k th =>
    cases hstep
    exact setSoftint (s := s.setPending (i.1,k) true) hs (by rw [State.setPending,hi]; rfl)
  | clear t th =>
    cases hstep
    exact hs.clear (k := i.2) (g := .func t th) (by rw [hi]; rfl)

theorem step {e : Event κ θ τ} (hstep : step s e = some s') : s'.Placed := by
  cases e with
  | schedule x k t =>
    obtain ⟨hx,rfl⟩ := of_guard hstep
    exact hs.queueSchedule hx
  | disable x m t =>
    obtain ⟨hx,hdis⟩ := Option.ite_none_right_eq_some.mp hstep
    obtain ⟨-,rfl⟩ := of_guard hdis
    refine setCaller (s := s.setCount t _) hs ?_
    simp only [State.setCount,hx]
    cases m with
    | syncOnce => dsimp only; split <;> rfl
    | _ => rfl
  | enable x kill =>
    simp only [Tasklet.step] at hstep
    cases hx : s.caller x with
    | disabled waited t =>
      simp only [hx,Option.some.injEq] at hstep
      refine hstep ▸ setCaller (s := s.setCount t _) hs ?_
      simp only [State.setCount,hx]
      split <;> rfl
    | _ => simp [hx] at hstep
  | proceed x c => exact hs.proceed hstep
  | dispatch i =>
    obtain ⟨⟨-,hi⟩,rfl⟩ := of_guard hstep
    exact setSoftint (s := s.setPending i false) hs (by rw [State.setPending,hi]; rfl)
  | softintr i => exact hs.softintr hstep

end State.Placed
end NanoBSD.Tasklet
