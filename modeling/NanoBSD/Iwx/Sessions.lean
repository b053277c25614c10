import NanoBSD.Iwx.Reorder
import NanoBSD.Lib.Run

/-! # Receive Block Ack agreements and the driver's sessions

net80211 keeps an agreement for each TID; the driver sets up and tears down the firmware's
sessions from a task, with two masks of requested starts and stops in between. The task
sleeps while the firmware carries out a command, so anything may happen before the answer.
The station is associated with an HT access point throughout; the answers net80211 sends and
the transmit side are left out.
-/
namespace NanoBSD.Iwx.Sessions
open NanoBSD Iwx Function Option List

def IWX_MAX_RX_BA_SESSIONS : ℕ := 16
def IWX_MAX_TID_COUNT : ℕ := 8
def IWX_MAX_BAID : ℕ := 32

inductive BaState where
  | INIT | REQUESTED | AGREED
  deriving DecidableEq, Repr

structure RxAgreement where
  state : BaState
  winstart : ℕ
  winsize : ℕ
  timeout : ℕ
  deriving DecidableEq

structure Session where
  tid : ℕ
  ssn : ℕ
  winsize : ℕ
  timeout : ℕ
  deriving DecidableEq

inductive Cmd where
  | start (tid ssn winsize timeout : ℕ)
  | stop (tid baid : ℕ)
  deriving DecidableEq

def Cmd.tid : Cmd → ℕ
  | .start tid _ _ _ => tid
  | .stop tid _ => tid

structure State where
  ba : ℕ → RxAgreement
  startTid : ℕ → Bool
  stopTid : ℕ → Bool
  rxba : ℕ → Option Session
  sessions : ℕ
  pos : Option ℕ
  cmd : Option Cmd

def init : State :=
  ⟨fun _ => ⟨.INIT,0,0,0⟩,fun _ => false,fun _ => false,fun _ => none,0,none,none⟩

def State.setBa (s : State) (tid : ℕ) (state : BaState) : State :=
  { s with ba := update s.ba tid { s.ba tid with state := state } }

def ampduRxStart (tid : ℕ) (s : State) : Bool × State :=
  if IWX_MAX_RX_BA_SESSIONS ≤ s.sessions ∨ IWX_MAX_TID_COUNT ≤ tid then (false,s)
  else if s.startTid tid then (true,s)
  else (true,{ s with startTid := update s.startTid tid true,
                      stopTid := update s.stopTid tid false })

def ampduRxStop (tid : ℕ) (s : State) : State :=
  if IWX_MAX_TID_COUNT ≤ tid ∨ s.stopTid tid then s
  else { s with stopTid := update s.stopTid tid true }

def clampWinsize (bufsz : ℕ) : ℕ :=
  if bufsz = 0 ∨ IEEE80211_BA_MAX_WINSZ < bufsz then IEEE80211_BA_MAX_WINSZ else bufsz

def recvAddbaReq (tid : ℕ) (immediate : Bool) (bufsz timeout ssn : ℕ) (s : State) : State :=
  if 8 ≤ tid then s
  else if (s.ba tid).state ≠ .INIT then s
  else if immediate = false then s
  else
    let s := { s with
      ba := update s.ba tid ⟨.REQUESTED,ssn,clampWinsize bufsz,timeout⟩ }
    let (busy,s) := ampduRxStart tid s
    if busy then s else s.setBa tid .INIT

def endAgreement (tid : ℕ) (s : State) : State :=
  if (s.ba tid).state ≠ .AGREED then s else (ampduRxStop tid s).setBa tid .INIT

def recvDelba (tid : ℕ) (s : State) : State := if 8 ≤ tid then s else endAgreement tid s

/-- `iwx_rx_ba_session_expired`, when nothing arrived for long enough. -/
def rxBaSessionExpired (baid : ℕ) (s : State) : State :=
  match s.rxba baid with
  | some rxba => if rxba.timeout = 0 then s else endAgreement rxba.tid s
  | none => s

def findRxbaData (tid : ℕ) (s : State) : Option ℕ :=
  (List.range IWX_MAX_BAID).find? fun baid => (s.rxba baid).any fun rxba => rxba.tid = tid

/-- The body of the loop of `iwx_ba_task`, up to the firmware command of `iwx_sta_rx_agg`. -/
def baTask (tid : ℕ) (s : State) : State :=
  let s := { s with pos := some (tid + 1) }
  if s.startTid tid then
    let s := { s with startTid := update s.startTid tid false }
    if IWX_MAX_RX_BA_SESSIONS ≤ s.sessions then s.setBa tid .INIT
    else { s with cmd := some (.start tid (s.ba tid).winstart (s.ba tid).winsize
                    ((s.ba tid).timeout * 1024)) }
  else if s.stopTid tid then
    let s := { s with stopTid := update s.stopTid tid false }
    { s with cmd := (findRxbaData tid s).map fun baid => .stop tid baid }
  else s

/-- The rest of `iwx_sta_rx_agg`: `r` is the BAID of a start that succeeded. -/
def staRxAgg (r : Option ℕ) (s : State) : Cmd → State
  | .start tid ssn winsize timeout =>
    match r with
    | some baid =>
      if baid < IWX_MAX_BAID ∧ s.rxba baid = none then
        { s with rxba := update s.rxba baid (some ⟨tid,ssn,winsize,timeout⟩),
                 sessions := s.sessions + 1 }.setBa tid .AGREED
      else s.setBa tid .INIT
    | none => s.setBa tid .INIT
  | .stop _ baid =>
    { s with rxba := update s.rxba baid none,
             sessions := if 0 < s.sessions then s.sessions - 1 else s.sessions }

inductive Act where
  | addba (tid : ℕ) (immediate : Bool) (bufsz timeout ssn : ℕ)
  | delba (tid : ℕ)
  | expire (baid : ℕ)
  | run
  | task
  | answer (r : Option ℕ)

def step (s : State) : Act → Option State
  | .addba tid immediate bufsz timeout ssn => some (recvAddbaReq tid immediate bufsz timeout ssn s)
  | .delba tid => some (recvDelba tid s)
  | .expire baid => some (rxBaSessionExpired baid s)
  | .run => if s.pos.isSome then none else some { s with pos := some 0 }
  | .task =>
    match s.pos,s.cmd with
    | some tid,none =>
      some (if tid < IWX_MAX_TID_COUNT then baTask tid s else { s with pos := none })
    | _,_ => none
  | .answer r => s.cmd.map fun c => staRxAgg r { s with cmd := none } c

def State.pending (s : State) (tid : ℕ) : Prop :=
  s.startTid tid = true ∨ s.stopTid tid = true ∨ ∃ c, s.cmd = some c ∧ c.tid = tid

def State.has (s : State) (tid ssn winsize : ℕ) : Prop :=
  ∃ baid rxba, s.rxba baid = some rxba ∧ rxba.tid = tid ∧ rxba.ssn = ssn ∧ rxba.winsize = winsize

/-- The driver's sessions and the agreements of net80211 are in step. -/
structure Agree (s : State) : Prop where
  count : s.sessions = (List.range IWX_MAX_BAID).countP fun baid => (s.rxba baid).isSome
  unique : ∀ baid baid' rxba rxba', s.rxba baid = some rxba → s.rxba baid' = some rxba' →
    rxba.tid = rxba'.tid → baid = baid'
  agreed : ∀ tid, ¬s.pending tid → ((s.ba tid).state = .AGREED →
    s.has tid (s.ba tid).winstart (s.ba tid).winsize)
  held : ∀ tid, ¬s.pending tid → ∀ baid rxba, s.rxba baid = some rxba → rxba.tid = tid →
    (s.ba tid).state = .AGREED

/-- No agreement is asked for while the stop of the TID's session waits for the task. -/
def Spaced (s : State) : Act → Prop
  | .addba tid _ _ _ _ => s.stopTid tid = false
  | _ => True

/-! ## One TID -/

structure TidInv (s : State) (t : ℕ) : Prop where
  small : (s.ba t).state ≠ .INIT → t < IWX_MAX_TID_COUNT
  requested : (s.ba t).state = .REQUESTED ↔
    s.startTid t = true ∨ ∃ a b c, s.cmd = some (.start t a b c)
  starting : ∀ a b c, s.cmd = some (.start t a b c) →
    s.startTid t = false ∧ a = (s.ba t).winstart ∧ b = (s.ba t).winsize
  stopping : s.stopTid t = true → (s.ba t).state = .INIT ∧ ∀ b, s.cmd ≠ some (.stop t b)
  closing : ∀ b, s.cmd = some (.stop t b) → (s.ba t).state ≠ .AGREED ∧
    ∃ rxba, s.rxba b = some rxba ∧ rxba.tid = t
  agreed : (s.ba t).state = .AGREED → s.has t (s.ba t).winstart (s.ba t).winsize
  held : ∀ b rxba, s.rxba b = some rxba → rxba.tid = t →
    (s.ba t).state = .AGREED ∨ s.stopTid t = true ∨ s.cmd = some (.stop t b)
  unique : ∀ b b' rxba rxba', s.rxba b = some rxba → s.rxba b' = some rxba' →
    rxba.tid = t → rxba'.tid = t → b = b'

structure Inv (s : State) : Prop where
  tid : ∀ t, TidInv s t
  count : s.sessions = (List.range IWX_MAX_BAID).countP fun baid => (s.rxba baid).isSome
  slots : ∀ b rxba, s.rxba b = some rxba → b < IWX_MAX_BAID

variable {t : ℕ} {s s' : State} {c : Cmd} {b : ℕ}

theorem TidInv.frame (h : TidInv s t) (hba : s'.ba t = s.ba t)
    (hstart : s'.startTid t = s.startTid t) (hstop : s'.stopTid t = s.stopTid t)
    (hcmd : ∀ c, c.tid = t → (s'.cmd = some c ↔ s.cmd = some c))
    (hrx : ∀ b rxba, rxba.tid = t → (s'.rxba b = some rxba ↔ s.rxba b = some rxba)) :
    TidInv s' t := by
  have hcs : ∀ a b c, s'.cmd = some (.start t a b c) ↔ s.cmd = some (.start t a b c) :=
    fun a b c => hcmd _ rfl
  have hct : ∀ b, s'.cmd = some (.stop t b) ↔ s.cmd = some (.stop t b) := fun b => hcmd _ rfl
  obtain ⟨hsmall,hreq,hstarting,hstopping,hclosing,hagreed,hheld,huniq⟩ := h
  constructor
  · rw [hba]
    exact hsmall
  · rw [hba,hstart]
    simp only [hcs]
    exact hreq
  · simp only [hcs,hba,hstart]
    exact hstarting
  · rw [hstop,hba]
    simp only [ne_eq,hct]
    exact hstopping
  · intro b hb
    obtain ⟨hs,rxba,hrxba,htid⟩ := hclosing b ((hct b).mp hb)
    exact ⟨hba ▸ hs,rxba,(hrx b rxba htid).mpr hrxba,htid⟩
  · rw [hba]
    intro hs
    obtain ⟨b,rxba,hrxba,htid,hw⟩ := hagreed hs
    exact ⟨b,rxba,(hrx b rxba htid).mpr hrxba,htid,hw⟩
  · intro b rxba hrxba htid
    rw [hba,hstop,hct]
    exact hheld b rxba ((hrx b rxba htid).mp hrxba) htid
  · intro b b' rxba rxba' hb hb' ht ht'
    exact huniq b b' rxba rxba' ((hrx b rxba ht).mp hb) ((hrx b' rxba' ht').mp hb') ht ht'

/-! ## The actions -/

theorem TidInv.toInit (h : TidInv s t) (hs : (s.ba t).state ≠ .AGREED)
    (hinit : (s'.ba t).state = .INIT) (hstart : s'.startTid t = false)
    (hcmd : ∀ a b c, s'.cmd ≠ some (.start t a b c)) (hstop : s'.stopTid t = s.stopTid t)
    (hrx : s'.rxba = s.rxba) (hclose : ∀ b, s'.cmd = some (.stop t b) ↔ s.cmd = some (.stop t b)) :
    TidInv s' t where
  small hne := absurd hinit hne
  requested := by simp [hinit,hstart,hcmd]
  starting a b c hc := absurd hc (hcmd a b c)
  stopping hst := ⟨hinit,fun b hb => (h.stopping (hstop ▸ hst)).2 b ((hclose b).mp hb)⟩
  closing b hb := by
    refine ⟨by simp [hinit],?_⟩
    rw [hrx]
    exact (h.closing b ((hclose b).mp hb)).2
  agreed hag := by simp [hinit] at hag
  held b rxba hb ht := by
    rw [hrx] at hb
    rw [hstop,hclose]
    exact .inr ((h.held b rxba hb ht).resolve_left hs)
  unique := by
    rw [hrx]
    exact h.unique

theorem not_requested (h : TidInv s t) (hs : (s.ba t).state ≠ .REQUESTED) :
    s.startTid t = false ∧ ∀ a b c, s.cmd ≠ some (.start t a b c) := by
  have hnot := fun hr => hs (h.requested.mpr hr)
  refine ⟨?_,fun a b c hc => hnot (.inr ⟨a,b,c,hc⟩)⟩
  cases hst : s.startTid t
  · rfl
  · exact absurd (.inl hst) hnot

theorem not_stopping (h : TidInv s t) (hs : (s.ba t).state ≠ .INIT) : s.stopTid t = false :=
  Bool.eq_false_iff.mpr fun hst => hs (h.stopping hst).1

theorem answered_other (hcmd : s.cmd = some c) {u : ℕ} (hu : u ≠ c.tid) (c' : Cmd)
    (hc : c'.tid = u) : (none : Option Cmd) = some c' ↔ s.cmd = some c' := by
  refine ⟨fun h0 => (by cases h0),fun h0 => ?_⟩
  cases hcmd.symm.trans h0
  exact absurd hc.symm hu

theorem addba_inv {bufsz timeout ssn : ℕ} {immediate : Bool} (h : Inv s)
    (hspaced : s.stopTid t = false) : Inv (recvAddbaReq t immediate bufsz timeout ssn s) := by
  unfold recvAddbaReq
  split
  · exact h
  · rename_i ht8
    split
    · exact h
    · rename_i hst
      replace hst : (s.ba t).state = .INIT := Decidable.not_not.mp hst
      split
      · exact h
      · have ht := h.tid t
        obtain ⟨hstart,hcmd⟩ := not_requested ht (by simp [hst])
        unfold ampduRxStart
        dsimp only
        split
        · -- Refused at once.
          refine ⟨fun u => ?_,h.count,h.slots⟩
          by_cases hu : u = t
          · subst hu
            exact ht.toInit (by simp [hst]) (by simp [State.setBa]) hstart hcmd rfl rfl
              fun _ => Iff.rfl
          · exact (h.tid u).frame (by simp [State.setBa,hu]) rfl rfl (fun _ _ => Iff.rfl)
              fun _ _ _ => Iff.rfl
        · simp only [hstart,Bool.false_eq_true,↓reduceIte]
          refine ⟨fun u => ?_,h.count,h.slots⟩
          by_cases hu : u = t
          · subst hu
            constructor
            · exact fun _ => Nat.lt_of_not_le ht8
            · simp
            · intro a b c hc
              exact absurd hc (hcmd a b c)
            · simp
            · intro b hb
              exact ⟨by simp,(ht.closing b hb).2⟩
            · simp
            · intro b rxba hb htid
              have hheld := ht.held b rxba hb htid
              rw [hst,hspaced] at hheld
              simpa using hheld
            · exact ht.unique
          · exact (h.tid u).frame (by simp [hu]) (by simp [hu]) (by simp [hu])
              (fun _ _ => Iff.rfl) fun _ _ _ => Iff.rfl

theorem endAgreement_inv (h : Inv s) (t : ℕ) : Inv (endAgreement t s) := by
  unfold endAgreement
  split
  · exact h
  · rename_i hst
    replace hst : (s.ba t).state = .AGREED := Decidable.not_not.mp hst
    have ht := h.tid t
    have ht8 := ht.small (by simp [hst])
    obtain ⟨hstart,hcmd⟩ := not_requested ht (by simp [hst])
    have hnostop := not_stopping ht (by simp [hst])
    have hclose : ∀ b, s.cmd ≠ some (.stop t b) := fun b hb => (ht.closing b hb).1 hst
    have heq : ampduRxStop t s = { s with stopTid := update s.stopTid t true } := by
      simp [ampduRxStop,Nat.not_le.mpr ht8,hnostop]
    rw [heq]
    refine ⟨fun u => ?_,h.count,h.slots⟩
    by_cases hu : u = t
    · subst hu
      constructor
      · exact fun _ => ht8
      · simp [State.setBa,hstart,hcmd]
      · intro a b c hc
        exact absurd hc (hcmd a b c)
      · intro _
        exact ⟨by simp [State.setBa],hclose⟩
      · intro b hb
        exact absurd hb (hclose b)
      · simp [State.setBa]
      · intro b rxba _ _
        exact .inr (.inl (by simp [State.setBa]))
      · exact ht.unique
    · exact (h.tid u).frame (by simp [State.setBa,hu]) rfl (by simp [State.setBa,hu])
        (fun _ _ => Iff.rfl) fun _ _ _ => Iff.rfl

theorem findRxbaData_spec (h : findRxbaData t s = some b) :
    ∃ rxba, s.rxba b = some rxba ∧ rxba.tid = t := by
  have hany : (s.rxba b).any (fun rxba => decide (rxba.tid = t)) = true := by
    unfold findRxbaData at h
    exact (List.find?_eq_some_iff_append.mp h).1
  obtain ⟨rxba,hb,ht⟩ := (any_eq_true _ _).mp hany
  exact ⟨rxba,hb,of_decide_eq_true ht⟩

theorem findRxbaData_eq_none (hs : ∀ b rxba, s.rxba b = some rxba → b < IWX_MAX_BAID)
    (h : findRxbaData t s = none) {rxba : Session} (hb : s.rxba b = some rxba) : rxba.tid ≠ t := by
  intro ht
  have hnot := List.find?_eq_none.mp h b (mem_range.mpr (hs b rxba hb))
  simp [hb,ht] at hnot

theorem Inv.setPos (h : Inv s) (pos : Option ℕ) : Inv { s with pos := pos } :=
  ⟨fun t => (h.tid t).frame rfl rfl rfl (fun _ _ => Iff.rfl) fun _ _ _ => Iff.rfl,h.count,h.slots⟩

theorem start_inv (h : Inv s) (hnone : s.cmd = none) (hst : s.startTid t = true) :
    Inv { s with startTid := update s.startTid t false,
                 cmd := some (.start t (s.ba t).winstart (s.ba t).winsize
                   ((s.ba t).timeout * 1024)) } := by
  have ht := h.tid t
  have hreq := ht.requested.mpr (.inl hst)
  have hnostop := not_stopping ht (by simp [hreq])
  refine ⟨fun u => ?_,h.count,h.slots⟩
  by_cases hu : u = t
  · subst hu
    constructor
    · exact ht.small
    · exact ⟨fun _ => .inr ⟨_,_,_,rfl⟩,fun _ => hreq⟩
    · intro a b c hc
      cases hc
      exact ⟨by simp,rfl,rfl⟩
    · intro hs
      cases hnostop.symm.trans hs
    · intro b hb
      cases hb
    · intro hs
      cases hreq.symm.trans hs
    · intro b rxba hb htid
      have hheld := ht.held b rxba hb htid
      simp [hreq,hnostop,hnone] at hheld
    · exact ht.unique
  · refine (h.tid u).frame rfl (by simp [hu]) rfl (fun c hc => ?_) fun _ _ _ => Iff.rfl
    rw [hnone]
    constructor
    · rintro ⟨⟩
      exact absurd hc.symm hu
    · intro h0
      cases h0

theorem stop_inv (h : Inv s) (hnone : s.cmd = none) (hst : s.stopTid t = true) :
    Inv { s with stopTid := update s.stopTid t false,
                 cmd := (findRxbaData t s).map fun baid => .stop t baid } := by
  have ht := h.tid t
  have hinit := (ht.stopping hst).1
  obtain ⟨hstart,-⟩ := not_requested ht (by simp [hinit])
  have hcmd : ∀ c, (findRxbaData t s).map (fun baid => Cmd.stop t baid) = some c →
      ∃ b, c = .stop t b ∧ findRxbaData t s = some b := by
    intro c hc
    obtain ⟨b,hb,rfl⟩ := map_eq_some_iff.mp hc
    exact ⟨b,rfl,hb⟩
  refine ⟨fun u => ?_,h.count,h.slots⟩
  by_cases hu : u = t
  · subst hu
    constructor
    · exact ht.small
    · simp [hinit,hstart]
    · intro a b c hc
      obtain ⟨b',hb',-⟩ := hcmd _ hc
      cases hb'
    · simp
    · intro b hb
      obtain ⟨b',hb',hfind⟩ := hcmd _ hb
      cases hb'
      exact ⟨by simp [hinit],findRxbaData_spec hfind⟩
    · simp [hinit]
    · intro b rxba hb htid
      refine .inr (.inr ?_)
      cases hfind : findRxbaData u s with
      | none => exact absurd htid (findRxbaData_eq_none h.slots hfind hb)
      | some b' =>
        obtain ⟨rxba',hb',htid'⟩ := findRxbaData_spec hfind
        rw [ht.unique b b' rxba rxba' hb hb' htid htid']
        rfl
    · exact ht.unique
  · refine (h.tid u).frame rfl rfl (by simp [hu]) (fun c hc => ?_) fun _ _ _ => Iff.rfl
    rw [hnone]
    constructor
    · intro h0
      obtain ⟨b,rfl,-⟩ := hcmd c h0
      exact absurd hc.symm hu
    · intro h0
      cases h0

theorem baTask_inv (h : Inv s) (hnone : s.cmd = none) : Inv (baTask t s) := by
  have hp := h.setPos (some (t + 1))
  unfold baTask
  dsimp only
  split
  · rename_i hst
    split
    · have ht := hp.tid t
      have hreq : (s.ba t).state = .REQUESTED := ht.requested.mpr (.inl hst)
      refine ⟨fun u => ?_,h.count,h.slots⟩
      by_cases hu : u = t
      · subst hu
        refine ht.toInit ?_ (by simp [State.setBa]) (by simp [State.setBa]) ?_ rfl rfl
          fun _ => Iff.rfl
        · simp [hreq]
        · simp [State.setBa,hnone]
      · exact (hp.tid u).frame (by simp [State.setBa,hu]) (by simp [State.setBa,hu]) rfl
          (fun _ _ => Iff.rfl) fun _ _ _ => Iff.rfl
    · exact start_inv hp hnone hst
  · split
    · rename_i hst
      exact stop_inv hp hnone hst
    · exact hp

/-! ## The answer of the firmware -/

theorem countP_range_update {α : Type} (f : ℕ → Option α) (v : Option α) {n : ℕ} (hb : b < n) :
    (List.range n).countP (fun i => (update f b v i).isSome) + (if (f b).isSome then 1 else 0) =
      (List.range n).countP (fun i => (f i).isSome) + (if v.isSome then 1 else 0) := by
  have hkeep : ∀ m ≤ b, (List.range m).countP (fun i => (update f b v i).isSome) =
      (List.range m).countP fun i => (f i).isSome := by
    intro m hm
    refine countP_congr fun i hi => ?_
    rw [update_of_ne (by have := mem_range.mp hi; omega)]
  induction n with
  | zero => omega
  | succ n ih =>
    rw [range_succ,countP_append,countP_append,countP_singleton,
      countP_singleton]
    by_cases hbn : b = n
    · subst hbn
      rw [hkeep b (Nat.le_refl b),update_self]
      omega
    · rw [update_of_ne (Ne.symm hbn)]
      have := ih (by omega)
      omega

section Answer
variable {s : State} {t a w c : ℕ} (h : Inv s) (hcmd : s.cmd = some (.start t a w c))
include h hcmd

theorem starting_facts : (s.ba t).state = .REQUESTED ∧ s.startTid t = false ∧
    s.stopTid t = false ∧ ∀ b rxba, s.rxba b = some rxba → rxba.tid ≠ t := by
  have ht := h.tid t
  have hreq := ht.requested.mpr (.inr ⟨a,w,c,hcmd⟩)
  have hnostop := not_stopping ht (by simp [hreq])
  refine ⟨hreq,(ht.starting a w c hcmd).1,hnostop,fun b rxba hb htid => ?_⟩
  have hheld := ht.held b rxba hb htid
  simp [hreq,hnostop,hcmd] at hheld

theorem refused_inv : Inv (({ s with cmd := none } : State).setBa t .INIT) := by
  obtain ⟨hreq,hstart,-,-⟩ := starting_facts h hcmd
  refine ⟨fun u => ?_,h.count,h.slots⟩
  by_cases hu : u = t
  · subst hu
    exact (h.tid u).toInit (by simp [hreq]) (by simp [State.setBa]) hstart (by simp [State.setBa])
      rfl rfl (by simp [State.setBa,hcmd])
  · exact (h.tid u).frame (by simp [State.setBa,hu]) rfl rfl (answered_other hcmd hu)
      fun _ _ _ => Iff.rfl

theorem accepted_inv {b : ℕ} (hb : b < IWX_MAX_BAID) (hfree : s.rxba b = none) :
    Inv (({ s with cmd := none, rxba := update s.rxba b (some ⟨t,a,w,c⟩),
                   sessions := s.sessions + 1 } : State).setBa t .AGREED) := by
  obtain ⟨hreq,hstart,hnostop,hnone⟩ := starting_facts h hcmd
  have ht := h.tid t
  obtain ⟨-,ha,hw⟩ := ht.starting a w c hcmd
  -- A slot holds the new session, or what it held before.
  have hslot : ∀ b' rxba, update s.rxba b (some ⟨t,a,w,c⟩) b' = some rxba →
      b' = b ∧ rxba = ⟨t,a,w,c⟩ ∨ b' ≠ b ∧ s.rxba b' = some rxba := by
    intro b' rxba hb'
    by_cases hbb : b' = b
    · subst hbb
      rw [update_self] at hb'
      exact .inl ⟨rfl,(Option.some.inj hb').symm⟩
    · rw [update_of_ne hbb] at hb'
      exact .inr ⟨hbb,hb'⟩
  refine ⟨fun u => ?_,?_,fun b' rxba hb' => ?_⟩
  · by_cases hu : u = t
    · subst hu
      constructor
      · exact fun _ => ht.small (by simp [hreq])
      · simp [State.setBa,hstart]
      · simp [State.setBa]
      · simp [State.setBa,hnostop]
      · simp [State.setBa]
      · intro _
        exact ⟨b,⟨u,a,w,c⟩,by simp [State.setBa],rfl,by simp [State.setBa,ha],
          by simp [State.setBa,hw]⟩
      · intro _ _ _ _
        exact .inl (by simp [State.setBa])
      · intro b1 b2 r1 r2 h1 h2 ht1 ht2
        rcases hslot b1 r1 h1 with ⟨hb1,-⟩ | ⟨-,h1⟩
        · rcases hslot b2 r2 h2 with ⟨hb2,-⟩ | ⟨-,h2⟩
          · exact hb1.trans hb2.symm
          · exact absurd ht2 (hnone b2 r2 h2)
        · exact absurd ht1 (hnone b1 r1 h1)
    · refine (h.tid u).frame (by simp [State.setBa,hu]) rfl rfl (answered_other hcmd hu)
        fun b' rxba htid => ⟨fun hb' => ?_,fun hb' => ?_⟩
      · rcases hslot b' rxba hb' with ⟨-,rfl⟩ | ⟨-,hb'⟩
        · exact absurd htid.symm hu
        · exact hb'
      · have hbb : b' ≠ b := by
          rintro rfl
          rw [hfree] at hb'
          cases hb'
        simp only [State.setBa]
        rwa [update_of_ne hbb]
  · have hc := countP_range_update s.rxba (some ⟨t,a,w,c⟩) hb
    have := h.count
    simp only [hfree,isSome_none,isSome_some,if_true] at hc
    simp only [State.setBa]
    simp at hc
    omega
  · rcases hslot b' rxba hb' with ⟨rfl,-⟩ | ⟨-,hb'⟩
    · exact hb
    · exact h.slots b' rxba hb'

end Answer

theorem stopped_inv (h : Inv s) (hcmd : s.cmd = some (.stop t b)) :
    Inv { s with cmd := none, rxba := update s.rxba b none,
                 sessions := if 0 < s.sessions then s.sessions - 1 else s.sessions } := by
  have ht := h.tid t
  obtain ⟨hnot,rxba0,hb0,ht0⟩ := ht.closing b hcmd
  have hnostop : s.stopTid t = false := by
    cases hs : s.stopTid t
    · rfl
    · exact absurd hcmd ((ht.stopping hs).2 b)
  have hslot : ∀ b' rxba, update s.rxba b none b' = some rxba →
      b' ≠ b ∧ s.rxba b' = some rxba := by
    intro b' rxba hb'
    by_cases hbb : b' = b
    · subst hbb
      rw [update_self] at hb'
      cases hb'
    · rw [update_of_ne hbb] at hb'
      exact ⟨hbb,hb'⟩
  refine ⟨fun u => ?_,?_,fun b' rxba hb' => h.slots b' rxba (hslot b' rxba hb').2⟩
  · by_cases hu : u = t
    · subst hu
      constructor
      · exact ht.small
      · have hreq := ht.requested
        simpa [hcmd] using hreq
      · simp
      · simp [hnostop]
      · simp
      · intro hag
        exact absurd hag hnot
      · intro b' rxba hb' htid
        obtain ⟨hbb,hb'⟩ := hslot b' rxba hb'
        exact absurd (ht.unique b' b rxba rxba0 hb' hb0 htid ht0) hbb
      · intro b1 b2 r1 r2 h1 h2
        exact ht.unique b1 b2 r1 r2 (hslot b1 r1 h1).2 (hslot b2 r2 h2).2
    · refine (h.tid u).frame rfl rfl rfl (answered_other hcmd hu)
        fun b' rxba htid => ⟨fun hb' => (hslot b' rxba hb').2,fun hb' => ?_⟩
      have hbb : b' ≠ b := by
        rintro rfl
        rw [hb0] at hb'
        cases hb'
        exact hu (htid.symm.trans ht0)
      dsimp only
      rwa [update_of_ne hbb]
  · have hc := countP_range_update s.rxba none (h.slots b rxba0 hb0)
    have := h.count
    simp only [hb0,isSome_some,if_true] at hc
    simp at hc
    dsimp only
    split <;> omega

theorem answer_inv (h : Inv s) (hcmd : s.cmd = some c) (r : Option ℕ) :
    Inv (staRxAgg r { s with cmd := none } c) := by
  cases c with
  | start t a w c =>
    cases r with
    | none => exact refused_inv h hcmd
    | some b =>
      unfold staRxAgg
      dsimp only
      split
      · rename_i hok
        exact accepted_inv h hcmd hok.1 hok.2
      · exact refused_inv h hcmd
  | stop t b =>
    have hstopped := stopped_inv h hcmd
    exact hstopped

/-! ## Runs -/

theorem Inv.step {a : Act} (h : Inv s) (hspaced : Spaced s a)
    (hstep : step s a = some s') : Inv s' := by
  cases a with
  | addba tid immediate bufsz timeout ssn =>
    cases hstep
    exact addba_inv h hspaced
  | delba tid =>
    cases hstep
    unfold recvDelba
    split
    · exact h
    · exact endAgreement_inv h tid
  | expire baid =>
    cases hstep
    unfold rxBaSessionExpired
    split
    · split
      · exact h
      · exact endAgreement_inv h _
    · exact h
  | run =>
    obtain ⟨-,rfl⟩ := of_unless hstep
    exact h.setPos _
  | task =>
    unfold Sessions.step at hstep
    dsimp only at hstep
    split at hstep
    · rename_i hcmd
      cases hstep
      split
      · exact baTask_inv h hcmd
      · exact h.setPos _
    · cases hstep
  | answer r =>
    obtain ⟨c,hcmd,rfl⟩ := map_eq_some_iff.mp hstep
    exact answer_inv h hcmd r

theorem Inv.init : Inv init where
  tid t := by constructor <;> simp [Sessions.init]
  count := by simp [Sessions.init]
  slots := by simp [Sessions.init]

theorem Inv.agree (h : Inv s) : Agree s where
  count := h.count
  unique b b' rxba rxba' hb hb' ht := (h.tid rxba.tid).unique b b' rxba rxba' hb hb' rfl ht.symm
  agreed tid _ := (h.tid tid).agreed
  held tid hp b rxba hb ht := by
    rcases (h.tid tid).held b rxba hb ht with hs | hs | hs
    · exact hs
    · exact absurd (.inr (.inl hs)) hp
    · exact absurd (.inr (.inr ⟨_,hs,rfl⟩)) hp

/-- If no agreement is asked for on a TID whose stop waits for the task, the count is right, no TID
has two sessions, and with nothing pending a TID has a session just when it has an agreement, with
its window. -/
theorem sessions_agree {as : List Act} {s : State} (hspaced : Along step Spaced init as)
    (hrun : exec step init as = some s) : Agree s :=
  (exec_invariant_along Inv (fun _ _ _ h hP hs => h.step hP hs) Inv.init hspaced hrun).agree

section Example

instance (s : State) (a : Act) : Decidable (Spaced s a) :=
  match a with
  | .addba _ _ _ _ _ => inferInstanceAs (Decidable (_ = _))
  | .delba _ | .expire _ | .run | .task | .answer _ => isTrue trivial

/-- An agreement is ended and asked for again while the firmware stops the session, and one on
another TID times out. -/
def againWhileStopping : List Act :=
  [.addba 0 true 64 0 100,.addba 1 true 0 5 300,.run,.task,.answer (some 3),.task,.answer (some 0),
    .delba 0,.expire 0,.task,.task,.task,.task,.task,.task,.task,.run,.task,
    .addba 0 true 32 0 200,.answer none,.task,.answer none,.task,.task,.task,.task,.task,.task,
    .task,.run,.task,.answer (some 7)]

theorem againWhileStopping_agree :
    ∃ s, exec step init againWhileStopping = some s ∧ s.sessions = 1 ∧
      s.rxba 7 = some ⟨0,200,32,0⟩ ∧ (s.ba 0).state = .AGREED ∧ (s.ba 1).state = .INIT ∧
      Agree s := by
  obtain ⟨s,hrun,hcount,hsession,hagreed,hinit⟩ : ∃ s, exec step init againWhileStopping = some s ∧
      s.sessions = 1 ∧ s.rxba 7 = some ⟨0,200,32,0⟩ ∧ (s.ba 0).state = .AGREED ∧ (s.ba 1).state =
      .INIT := by decide +kernel
  have hspaced : Along step Spaced init againWhileStopping := by decide +kernel
  exact ⟨s,hrun,hcount,hsession,hagreed,hinit,sessions_agree hspaced hrun⟩

/-- The agreement is ended and asked for again before the task has run: the request cancels the
stop, and a second session starts. -/
def againBeforeTask : List Act :=
  [.addba 0 true 64 0 100,.run,.task,.answer (some 0),.task,.task,.task,.task,.task,.task,.task,
    .task,.delba 0,.addba 0 true 64 0 200,.run,.task,.answer (some 1)]

theorem againBeforeTask_two_sessions :
    ∃ s, exec step init againBeforeTask = some s ∧ s.rxba 0 = some ⟨0,100,64,0⟩ ∧
      s.rxba 1 = some ⟨0,200,64,0⟩ ∧ ¬Agree s := by
  obtain ⟨s,hrun,h0,h1⟩ : ∃ s, exec step init againBeforeTask = some s ∧ s.rxba 0 = some
      ⟨0,100,64,0⟩ ∧ s.rxba 1 = some ⟨0,200,64,0⟩ := by decide +kernel
  refine ⟨s,hrun,h0,h1,fun hagree => ?_⟩
  cases hagree.unique 0 1 _ _ h0 h1 rfl

end Example
end NanoBSD.Iwx.Sessions
