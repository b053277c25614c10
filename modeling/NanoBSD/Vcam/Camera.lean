import NanoBSD.Lib.Run
import Mathlib.Data.Fintype.Defs

/-! # The virtual camera

`vcam.c`: a feeder writes frames and sets the format, the video layer starts and stops the
stream. Any number of threads may use the feeder's descriptor. What is done under `sc_lock`
is one step; the copy in of a frame, the allocation for a larger format and the submission
of a payload are outside the lock.
-/
namespace NanoBSD.Vcam
open NanoBSD Function

def VCAM_DEFAULT_W : ℕ := 1024
def VCAM_DEFAULT_H : ℕ := 768
def VCAM_DEFAULT_MAX : ℕ := 1024 * 1024
def VCAM_MAX_MAX : ℕ := 16 * 1024 * 1024

/-- The fields of `struct video_format` that are not the same for every MJPEG format. -/
structure VideoFormat where
  width : ℕ
  height : ℕ
  aspectX : ℕ
  aspectY : ℕ
  sampleSize : ℕ
  stride : ℕ
  deriving DecidableEq, Repr

structure VcamFormat where
  width : ℕ
  height : ℕ
  maxsize : ℕ
  deriving DecidableEq, Repr

structure Softc where
  format : VideoFormat
  feeder : Bool
  streaming : Bool
  video : Bool
  readers : ℕ
  frameno : ℕ
  bufsize : ℕ
  frames : ℕ
  dropped : ℕ

inductive Errno where
  | EBUSY | EINVAL | EMSGSIZE
  deriving DecidableEq, Repr

def dims (w h max : ℕ) : VideoFormat := ⟨w,h,4,3,max,0⟩
def vcamSetDims (w h max : ℕ) (sc : Softc) : Softc := { sc with format := dims w h max }

def vcamAttach (video : Bool) : Softc :=
  ⟨dims VCAM_DEFAULT_W VCAM_DEFAULT_H VCAM_DEFAULT_MAX,false,false,video,0,0,VCAM_DEFAULT_MAX,0,0⟩

def vcamopen (sc : Softc) : Except Errno Softc :=
  if sc.feeder then .error .EBUSY else .ok { sc with feeder := true }

def vcamclose (sc : Softc) : Softc := { sc with feeder := false }

structure Payload where
  size : ℕ
  frameno : ℕ
  deriving DecidableEq, Repr

def vcamwriteCheck (len : ℕ) (sc : Softc) : Except Errno (Option ℕ) :=
  if len = 0 then .ok none else if sc.bufsize < len then .error .EMSGSIZE else .ok (some len)

def vcamwritePayload (len : ℕ) (sc : Softc) : Softc × Option Payload :=
  if sc.streaming = false ∨ sc.video = false then ({ sc with dropped := sc.dropped + 1 },none)
  else ({ sc with frameno := sc.frameno ^^^ 1, frames := sc.frames + 1 },
    some ⟨len,sc.frameno ^^^ 1⟩)

def VcamFormat.acceptable (vf : VcamFormat) : Bool :=
  decide (16 ≤ vf.width ∧ 16 ≤ vf.height ∧ vf.width ≤ 8192 ∧ vf.height ≤ 8192 ∧
    4096 ≤ vf.maxsize ∧ vf.maxsize ≤ VCAM_MAX_MAX)

def vcamSFormat (vf : VcamFormat) (sc : Softc) : Except Errno (Bool × Softc) :=
  if vf.acceptable = false then .error .EINVAL
  else if sc.streaming then .error .EBUSY
  else if sc.bufsize < vf.maxsize then .ok (true,sc)
  else .ok (false,vcamSetDims vf.width vf.height vf.maxsize sc)

def vcamSFormatAllocated (vf : VcamFormat) (sc : Softc) : Softc :=
  vcamSetDims vf.width vf.height vf.maxsize { sc with bufsize := vf.maxsize }

def vcamVideoOpen (sc : Softc) : Softc := { sc with readers := sc.readers + 1 }
def vcamVideoClose (sc : Softc) : Softc :=
  { sc with readers := if 0 < sc.readers then sc.readers - 1 else sc.readers }
def vcamStartTransfer (sc : Softc) : Softc := { sc with streaming := true }
def vcamStopTransfer (sc : Softc) : Softc := { sc with streaming := false }

/-! ## Threads -/

inductive Pc where
  | idle
  | copying (len : ℕ)
  | submitting (p : Payload)
  | allocating (vf : VcamFormat)
  | waiting
  deriving DecidableEq

structure Submission where
  size : ℕ
  sampleSize : ℕ
  streaming : Bool
  deriving DecidableEq

/-- `since` is the format at the start of the stream that runs. -/
structure State (θ : Type) where
  sc : Softc
  pc : θ → Pc
  since : Option VideoFormat
  submitted : List Submission

inductive Act (θ : Type) where
  | openFeeder
  | closeFeeder
  | write (t : θ) (len : ℕ)
  | copied (t : θ) (ok : Bool)
  | submit (t : θ)
  | setFormat (t : θ) (vf : VcamFormat)
  | allocated (t : θ)
  | wait (t : θ)
  | woken (t : θ) (error : Bool)
  | videoOpen
  | videoClose
  | start
  | stop

variable {θ : Type} [DecidableEq θ] {t : θ} {a : Act θ}

def State.at (s : State θ) (t : θ) (pc : Pc) : State θ := { s with pc := update s.pc t pc }

def step (s : State θ) : Act θ → Option (State θ)
  | .openFeeder => some (match vcamopen s.sc with
      | .ok sc => { s with sc := sc }
      | .error _ => s)
  | .closeFeeder => some { s with sc := vcamclose s.sc }
  | .write t len =>
    if s.pc t = .idle ∧ s.sc.feeder = true then
      some (match vcamwriteCheck len s.sc with
        | .ok (some len) => s.at t (.copying len)
        | .ok none | .error _ => s)
    else none
  | .copied t ok =>
    match s.pc t with
    | .copying len =>
      if ok then
        match vcamwritePayload len s.sc with
        | (sc,some p) => some { s.at t (.submitting p) with sc := sc }
        | (sc,none) => some { s.at t .idle with sc := sc }
      else some (s.at t .idle)
    | _ => none
  | .submit t =>
    match s.pc t with
    | .submitting p => some { s.at t .idle with
        submitted := s.submitted ++ [⟨p.size,s.sc.format.sampleSize,s.sc.streaming⟩] }
    | _ => none
  | .setFormat t vf =>
    if s.pc t = .idle ∧ s.sc.feeder = true then
      some (match vcamSFormat vf s.sc with
        | .ok (true,_) => s.at t (.allocating vf)
        | .ok (false,sc) => { s with sc := sc }
        | .error _ => s)
    else none
  | .allocated t =>
    match s.pc t with
    | .allocating vf => some { s.at t .idle with sc := vcamSFormatAllocated vf s.sc }
    | _ => none
  | .wait t =>
    if s.pc t = .idle ∧ s.sc.feeder = true then
      some (if s.sc.streaming then s else s.at t .waiting)
    else none
  | .woken t error =>
    if s.pc t = .waiting then some (if s.sc.streaming || error then s.at t .idle else s) else none
  | .videoOpen => some { s with sc := vcamVideoOpen s.sc }
  | .videoClose => some { s with sc := vcamVideoClose s.sc }
  | .start => some { s with sc := vcamStartTransfer s.sc, since := s.since.or (some s.sc.format) }
  | .stop => some { s with sc := vcamStopTransfer s.sc, since := none }

def attached (video : Bool) : State θ := ⟨vcamAttach video,fun _ => .idle,none,[]⟩
def FormatKept (s : State θ) : Prop := s.sc.streaming = true → s.since = some s.sc.format
def Fits (s : State θ) : Prop := ∀ x ∈ s.submitted, x.streaming = true → x.size ≤ x.sampleSize

def Pc.wants : Pc → Option ℕ
  | .allocating vf => some vf.maxsize
  | _ => none

/-- No stream is started while a format change waits for memory. -/
def StartsSettled (s : State θ) : Act θ → Prop
  | .start => ∀ t, (s.pc t).wants = none
  | _ => True

/-- No format that takes effect has samples smaller than the buffer. -/
def Grows (s : State θ) : Act θ → Prop
  | .setFormat _ vf => vf.acceptable = true → s.sc.streaming = false → s.sc.bufsize ≤ vf.maxsize
  | .allocated t => ∀ n ∈ (s.pc t).wants, s.sc.bufsize ≤ n
  | _ => True

/-! ## What a step can do -/

def Moves (sc : Softc) (pc : Pc) : Pc → Prop
  | .idle | .waiting => True
  | .copying len => len ≤ sc.bufsize
  | .submitting p => pc = .copying p.size
  | .allocating _ => sc.streaming = false

structure Quiet (s s' : State θ) : Prop where
  format : s'.sc.format = s.sc.format
  bufsize : s'.sc.bufsize = s.sc.bufsize
  streaming : s'.sc.streaming = s.sc.streaming
  since : s'.since = s.since
  submitted : s'.submitted = s.submitted
  pc : ∀ t, s'.pc t = s.pc t ∨ Moves s.sc (s.pc t) (s'.pc t)

omit [DecidableEq θ] in
theorem Quiet.refl (s : State θ) : Quiet s s := ⟨rfl,rfl,rfl,rfl,rfl,fun _ => .inl rfl⟩

variable {s s' : State θ}

theorem Quiet.at (pc : Pc) (h : Moves s.sc (s.pc t) pc) :
    Quiet s (s.at t pc) where
  format := rfl
  bufsize := rfl
  streaming := rfl
  since := rfl
  submitted := rfl
  pc := (forall_update_iff s.pc fun u p => p = s.pc u ∨ Moves s.sc (s.pc u) p).mpr
    ⟨.inr h,fun _ _ => .inl rfl⟩

omit [DecidableEq θ] in
theorem Quiet.setSc (h : Quiet s s') {sc : Softc} (hf : sc.format = s.sc.format)
    (hb : sc.bufsize = s.sc.bufsize) (hs : sc.streaming = s.sc.streaming) :
    Quiet s { s' with sc := sc } := ⟨hf,hb,hs,h.since,h.submitted,h.pc⟩

theorem vcamwritePayload_cases (len : ℕ) (sc : Softc) :
    ∃ sc' p, vcamwritePayload len sc = (sc',p) ∧ sc'.format = sc.format ∧
      sc'.bufsize = sc.bufsize ∧ sc'.streaming = sc.streaming ∧ ∀ q ∈ p, q.size = len := by
  unfold vcamwritePayload
  split
  · exact ⟨_,_,rfl,rfl,rfl,rfl,nofun⟩
  · exact ⟨_,_,rfl,rfl,rfl,rfl,fun q hq => by cases hq; rfl⟩

theorem copied_quiet {ok : Bool} (h : step s (.copied t ok) = some s') : Quiet s s' := by
  unfold step at h
  dsimp only at h
  split at h
  · rename_i len hpc
    split at h
    · obtain ⟨sc',p,heq,hf,hb,hs,hp⟩ := vcamwritePayload_cases len s.sc
      rw [heq] at h
      cases p with
      | none =>
        cases h
        exact (Quiet.at .idle trivial).setSc hf hb hs
      | some p =>
        cases h
        refine (Quiet.at (.submitting p) ?_).setSc hf hb hs
        rw [Moves,hpc,hp p rfl]
    · cases h
      exact Quiet.at .idle trivial
  · cases h

/-- Everything a step can do to the format, the buffer, the stream and the submissions. -/
theorem step_cases (h : step s a = some s') :
    Quiet s s' ∨
    (∃ t p, a = .submit t ∧ s.pc t = .submitting p ∧ s' = { s.at t .idle with
      submitted := s.submitted ++ [⟨p.size,s.sc.format.sampleSize,s.sc.streaming⟩] }) ∨
    (∃ t vf, a = .setFormat t vf ∧ (vf.acceptable = true ∧ s.sc.streaming = false) ∧
      vf.maxsize ≤ s.sc.bufsize ∧
      s' = { s with sc := vcamSetDims vf.width vf.height vf.maxsize s.sc }) ∨
    (∃ t vf, a = .allocated t ∧ s.pc t = .allocating vf ∧
      s' = { s.at t .idle with sc := vcamSFormatAllocated vf s.sc }) ∨
    (a = .start ∧
      s' = { s with sc := vcamStartTransfer s.sc, since := s.since.or (some s.sc.format) }) ∨
    (a = .stop ∧ s' = { s with sc := vcamStopTransfer s.sc, since := none }) := by
  cases a with
  | openFeeder =>
    left
    cases h
    unfold vcamopen
    split
    · rename_i hopen
      split at hopen
      · cases hopen
      · cases hopen
        exact (Quiet.refl s).setSc rfl rfl rfl
    · exact Quiet.refl s
  | closeFeeder | videoOpen | videoClose =>
    cases h
    exact .inl ((Quiet.refl s).setSc rfl rfl rfl)
  | write t len =>
    left
    obtain ⟨-,rfl⟩ := of_guard h
    unfold vcamwriteCheck
    by_cases h0 : len = 0
    · rw [if_pos h0]
      exact Quiet.refl s
    · rw [if_neg h0]
      by_cases hlen : s.sc.bufsize < len
      · rw [if_pos hlen]
        exact Quiet.refl s
      · rw [if_neg hlen]
        exact Quiet.at (.copying len) (Nat.le_of_not_lt hlen)
  | copied t ok => exact .inl (copied_quiet h)
  | submit t =>
    unfold step at h
    dsimp only at h
    split at h
    · rename_i p hpc
      exact .inr (.inl ⟨t,p,rfl,hpc,(Option.some.inj h).symm⟩)
    · cases h
  | setFormat t vf =>
    obtain ⟨-,rfl⟩ := of_guard h
    unfold vcamSFormat
    by_cases hok : vf.acceptable = false
    · rw [if_pos hok]
      exact .inl (Quiet.refl s)
    · rw [if_neg hok]
      cases hst : s.sc.streaming with
      | true => exact .inl (Quiet.refl s)
      | false =>
        by_cases hmax : s.sc.bufsize < vf.maxsize
        · simp only [Bool.false_eq_true,↓reduceIte,if_pos hmax]
          exact .inl (Quiet.at (.allocating vf) hst)
        · simp only [Bool.false_eq_true,↓reduceIte,if_neg hmax]
          exact .inr (.inr (.inl
            ⟨t,vf,rfl,⟨Bool.not_eq_false _ ▸ hok,trivial⟩,Nat.le_of_not_lt hmax,rfl⟩))
  | allocated t =>
    unfold step at h
    dsimp only at h
    split at h
    · rename_i vf hpc
      exact .inr (.inr (.inr (.inl ⟨t,vf,rfl,hpc,(Option.some.inj h).symm⟩)))
    · cases h
  | wait t =>
    left
    obtain ⟨-,rfl⟩ := of_guard h
    split
    · exact Quiet.refl s
    · exact Quiet.at .waiting trivial
  | woken t error =>
    left
    obtain ⟨-,rfl⟩ := of_guard h
    split
    · exact Quiet.at .idle trivial
    · exact Quiet.refl s
  | start =>
    cases h
    exact .inr (.inr (.inr (.inr (.inl ⟨rfl,rfl⟩))))
  | stop =>
    cases h
    exact .inr (.inr (.inr (.inr (.inr ⟨rfl,rfl⟩))))

/-! ## The format of a running stream -/

structure Settled (s : State θ) : Prop where
  since : s.since = if s.sc.streaming then some s.sc.format else none
  quiet : ∀ t vf, s.pc t = .allocating vf → s.sc.streaming = false

theorem allocating_of_at_idle {u : θ} {vf : VcamFormat}
    (h : update s.pc t Pc.idle u = .allocating vf) : s.pc u = .allocating vf := by
  by_cases hut : u = t
  · subst hut
    rw [update_self] at h
    cases h
  · rwa [update_of_ne hut] at h

theorem Settled.step (h : Settled s) (ha : StartsSettled s a)
    (hstep : step s a = some s') : Settled s' := by
  obtain hq | ⟨t,p,rfl,hpc,rfl⟩ | ⟨t,vf,rfl,⟨-,hst⟩,-,rfl⟩ | ⟨t,vf,rfl,hpc,rfl⟩ | ⟨rfl,rfl⟩ |
    ⟨rfl,rfl⟩ := step_cases hstep
  · refine ⟨by rw [hq.since,hq.format,hq.streaming,h.since],fun t vf ht => ?_⟩
    rw [hq.streaming]
    rcases hq.pc t with hsame | hmove
    · exact h.quiet t vf (hsame.symm.trans ht)
    · rw [ht] at hmove
      exact hmove
  · exact ⟨h.since,fun u vf hu => h.quiet u vf (allocating_of_at_idle hu)⟩
  · refine ⟨?_,fun _ _ _ => hst⟩
    have hsince := h.since
    simp only [hst,Bool.false_eq_true,↓reduceIte] at hsince
    simp [vcamSetDims,hst,hsince]
  · have hst := h.quiet t vf hpc
    have hsince := h.since
    simp only [hst,Bool.false_eq_true,↓reduceIte] at hsince
    exact ⟨by simp [vcamSFormatAllocated,vcamSetDims,State.at,hst,hsince],fun _ _ _ => hst⟩
  · refine ⟨?_,fun t vf ht => ?_⟩
    · dsimp only
      rw [h.since]
      cases s.sc.streaming <;> rfl
    · have hwants := ha t
      dsimp only at ht
      rw [ht] at hwants
      cases hwants
  · exact ⟨rfl,fun _ _ _ => rfl⟩

/-! ## The size of a payload -/

structure Sized (s : State θ) : Prop where
  sample : s.sc.format.sampleSize = s.sc.bufsize
  copying : ∀ t len, s.pc t = .copying len → len ≤ s.sc.bufsize
  submitting : ∀ t p, s.pc t = .submitting p → p.size ≤ s.sc.bufsize
  submitted : ∀ x ∈ s.submitted, x.size ≤ x.sampleSize

omit [DecidableEq θ] in
theorem Sized.grow (h : Sized s) {n : ℕ} (hn : s.sc.bufsize ≤ n)
    (hsample : s'.sc.format.sampleSize = n) (hbuf : s'.sc.bufsize = n)
    (hpc : ∀ t, s'.pc t = s.pc t ∨ s'.pc t = .idle) (hsub : s'.submitted = s.submitted) :
    Sized s' := by
  have hback : ∀ t pc, s'.pc t = pc → pc ≠ .idle → s.pc t = pc := by
    intro t pc ht hne
    rcases hpc t with hsame | hidle
    · exact hsame.symm.trans ht
    · exact absurd (ht.symm.trans hidle) hne
  constructor
  · rw [hsample,hbuf]
  · intro t len ht
    have := h.copying t len (hback t _ ht (by simp))
    omega
  · intro t p ht
    have := h.submitting t p (hback t _ ht (by simp))
    omega
  · rw [hsub]
    exact h.submitted

theorem at_idle_pc (s : State θ) (t u : θ) :
    (s.at t .idle).pc u = s.pc u ∨ (s.at t .idle).pc u = .idle := by
  unfold State.at
  by_cases hut : u = t
  · subst hut
    exact .inr (update_self ..)
  · exact .inl (update_of_ne hut ..)

theorem Sized.step (h : Sized s) (ha : Grows s a) (hstep : step s a = some s') : Sized s' := by
  obtain hq | ⟨t,p,rfl,hpc,rfl⟩ | ⟨t,vf,rfl,⟨hok,hst⟩,hle,rfl⟩ | ⟨t,vf,rfl,hpc,rfl⟩ | ⟨rfl,rfl⟩ |
    ⟨rfl,rfl⟩ := step_cases hstep
  · constructor
    · rw [hq.format,hq.bufsize,h.sample]
    · intro t len ht
      rw [hq.bufsize]
      rcases hq.pc t with hsame | hmove
      · exact h.copying t len (hsame.symm.trans ht)
      · rw [ht] at hmove
        exact hmove
    · intro t p ht
      rw [hq.bufsize]
      rcases hq.pc t with hsame | hmove
      · exact h.submitting t p (hsame.symm.trans ht)
      · rw [ht] at hmove
        exact h.copying t p.size hmove
    · rw [hq.submitted]
      exact h.submitted
  · have hidle : Sized (s.at t .idle) := h.grow (Nat.le_refl _) h.sample rfl (at_idle_pc s t) rfl
    refine ⟨hidle.sample,hidle.copying,hidle.submitting,fun x hx => ?_⟩
    rcases List.mem_append.mp hx with hx | hx
    · exact h.submitted x hx
    · obtain rfl := List.mem_singleton.mp hx
      exact h.sample.symm ▸ h.submitting t p hpc
  · have heq : vf.maxsize = s.sc.bufsize := Nat.le_antisymm hle (ha hok hst)
    exact h.grow (Nat.le_refl _) heq rfl (fun _ => .inl rfl) rfl
  · exact h.grow (ha vf.maxsize (by rw [hpc]; rfl)) rfl rfl (at_idle_pc s t) rfl
  · exact ⟨h.sample,h.copying,h.submitting,h.submitted⟩
  · exact ⟨h.sample,h.copying,h.submitting,h.submitted⟩

/-! ## Runs -/

omit [DecidableEq θ] in
theorem Settled.attached (video : Bool) : Settled (attached video : State θ) :=
  ⟨rfl,nofun⟩

omit [DecidableEq θ] in
theorem Sized.attached (video : Bool) : Sized (attached video : State θ) :=
  ⟨rfl,nofun,nofun,nofun⟩

/-- A running stream keeps its format if no stream starts while a format change waits for memory,
and payloads fit if no format has samples smaller than the buffer. -/
theorem camera_keeps_format {video : Bool} {as : List (Act θ)} {s : State θ}
    (hrun : exec step (attached video) as = some s) :
    (Along step StartsSettled (attached video) as → FormatKept s) ∧
    (Along step Grows (attached video) as → Fits s) := by
  constructor
  · intro hall hst
    have h := exec_invariant_along Settled (fun _ _ _ h ha hs => h.step ha hs)
      (Settled.attached video) hall hrun
    rw [h.since,if_pos hst]
  · intro hall x hx _
    have h := exec_invariant_along Sized (fun _ _ _ h ha hs => h.step ha hs)
      (Sized.attached video) hall hrun
    exact h.submitted x hx

section Example

instance (s : State Bool) (a : Act Bool) : Decidable (StartsSettled s a) :=
  match a with
  | .start => inferInstanceAs (Decidable (∀ _, _))
  | .openFeeder | .closeFeeder | .write _ _ | .copied _ _ | .submit _ | .setFormat _ _
  | .allocated _ | .wait _ | .woken _ _ | .videoOpen | .videoClose | .stop => isTrue trivial

instance (s : State Bool) (a : Act Bool) : Decidable (Grows s a) :=
  match a with
  | .setFormat _ _ => inferInstanceAs (Decidable (_ → _ → _))
  | .allocated t => inferInstanceAs (Decidable (∀ n ∈ (s.pc t).wants, _))
  | .openFeeder | .closeFeeder | .write _ _ | .copied _ _ | .submit _ | .wait _ | .woken _ _
  | .videoOpen | .videoClose | .start | .stop => isTrue trivial

def oneFrame : List (Act Bool) :=
  [.openFeeder,.setFormat true ⟨1280,720,2000000⟩,.allocated true,.wait false,.videoOpen,.start,
    .woken false false,.write true 1500000,.setFormat false ⟨640,480,4096⟩,.copied true true,
    .submit true]

theorem oneFrame_kept :
    ∃ s, exec step (attached true) oneFrame = some s ∧ s.sc.streaming = true ∧
      s.submitted = [⟨1500000,2000000,true⟩] ∧ FormatKept s ∧ Fits s := by
  obtain ⟨s,hrun,hst,hsub⟩ : ∃ s, exec step (attached true) oneFrame = some s ∧ s.sc.streaming =
      true ∧ s.submitted = [⟨1500000,2000000,true⟩] := by decide +kernel
  have hsettled : Along step StartsSettled (attached true) oneFrame := by decide +kernel
  have hgrows : Along step Grows (attached true) oneFrame := by decide +kernel
  obtain ⟨hformat,hfits⟩ := camera_keeps_format hrun
  exact ⟨s,hrun,hst,hsub,hformat hsettled,hfits hgrows⟩

/-- A stream starts while a format change has dropped the lock for its allocation. -/
def startsMeanwhile : List (Act Bool) :=
  [.openFeeder,.setFormat true ⟨1280,720,2000000⟩,.videoOpen,.start,.allocated true]

/-- A format with smaller samples leaves the buffer as it is. -/
def smallerSamples : List (Act Bool) :=
  [.openFeeder,.setFormat true ⟨640,480,4096⟩,.videoOpen,.start,.write true 1000000,
    .copied true true,.submit true]

theorem camera_loses_format :
    (∃ s, exec step (attached true) startsMeanwhile = some s ∧ ¬FormatKept s) ∧
    (∃ s, exec step (attached true) smallerSamples = some s ∧
      s.submitted = [⟨1000000,4096,true⟩] ∧ ¬Fits s) := by
  constructor
  · have hend : (exec step (attached true) startsMeanwhile).any (fun s => decide
        (s.sc.streaming = true ∧ s.since ≠ some s.sc.format)) = true := by decide +kernel
    obtain ⟨s,hrun,hs⟩ := (Option.any_eq_true _ _).mp hend
    obtain ⟨hst,hne⟩ := of_decide_eq_true hs
    exact ⟨s,hrun,fun hkept => hne (hkept hst)⟩
  · have hend : (exec step (attached true) smallerSamples).any (fun s => decide
        (s.submitted = [⟨1000000,4096,true⟩])) = true := by decide +kernel
    obtain ⟨s,hrun,hs⟩ := (Option.any_eq_true _ _).mp hend
    have hsub := of_decide_eq_true hs
    refine ⟨s,hrun,hsub,fun hfits => ?_⟩
    have hle := hfits ⟨1000000,4096,true⟩ (by rw [hsub]; exact List.mem_singleton_self _) rfl
    exact absurd hle (by decide)

end Example
end NanoBSD.Vcam
