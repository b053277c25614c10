import Mathlib.Data.List.Nodup
import NanoBSD.Lib.Run

/-! # Stopping an idle play mixer

`audio_idle_work` halts a play mixer that has mixed nothing for a while, although tracks are
open. It sets `sc_idle_stopped` before it looks at the tracks, and a writer reads the flag
after each copy and starts the mixer again. The flag is also cleared by whatever starts the
record mixer, and a write that ends in an error does not read it. Where neither happens, no
data waits for a mixer that is not going to run.
-/
namespace NanoBSD.Audio
open Function

/-- The buffers of a play track: bytes in `usrbuf`, frames in `outbuf`, and the size of one
frame of the input format. -/
structure Track where
  usrbuf : ℕ
  outbuf : ℕ
  frame : ℕ
  isPause : Bool
  deriving DecidableEq, Repr

/-- The test of `audio_track_drain` and of `audio_idle_work`. -/
def Track.busy (t : Track) : Bool := t.frame ≤ t.usrbuf || 0 < t.outbuf

variable {τ θ : Type}

/-- Where a thread is in `audio_write` on the track `x`. `more` says that the loop has
another round to go. -/
inductive Writer (τ : Type)
  | out
  | entering (x : τ)
  | copying (x : τ)
  | peeking (x : τ)
  | restarting (x : τ) (more : Bool)
  deriving DecidableEq, Repr

def Writer.on : Writer τ → Option τ
  | .out => none
  | .entering x | .copying x | .peeking x | .restarting x _ => some x

/-- What the holder of `sc_exlock` does: `audio_pmixer_start` for a writer or an unpause,
`audio_rmixer_start`, or the loop and the hook of `audio_idle_work`. -/
inductive Section (τ θ : Type)
  | starting (w : Option θ)
  | recording
  | looking (todo : List τ)
  | sleeping
  deriving DecidableEq, Repr

inductive Hook
  | sleep | wake
  deriving DecidableEq, Repr

/-- One audio device. `seen` lists the tracks ever opened, a new one for each open, and `hooks` the
hooks called, the last one first. -/
structure State (τ θ : Type) where
  pbusy : Bool
  rbusy : Bool
  idleStopped : Bool
  exlock : Option (Section τ θ)
  files : List τ
  closing : List τ
  seen : List τ
  popens : ℕ
  track : τ → Track
  writer : θ → Writer τ
  hooks : List Hook

inductive Event (τ θ : Type)
  | openTrack (x : τ) (frame : ℕ) (isPause : Bool)
  | writeBegin (w : θ) (x : τ)
  | writeEnter (w : θ)
  | started
  /-- A round of the copy loop: what it and the conversions leave in the two buffers. -/
  | copy (w : θ) (usrbuf outbuf : ℕ)
  /-- `uiomove` fails after some of the bytes were pushed. -/
  | fault (w : θ) (usrbuf : ℕ)
  | giveUp (w : θ)
  | peek (w : θ) (more : Bool)
  | restart (w : θ)
  /-- A signal ends the wait for `sc_exlock`. -/
  | interrupted (w : θ)
  | mix (x : τ) (usrbuf outbuf : ℕ)
  | pause (x : τ)
  | unpause (x : τ)
  | recordStart
  | recordStarted
  | recordStop
  | close (x : τ)
  | unlink (x : τ)
  | idleBegin
  | look
  | halt
  | slept

def attached : State τ θ where
  pbusy := false
  rbusy := false
  idleStopped := false
  exlock := none
  files := []
  closing := []
  seen := []
  popens := 0
  track := fun _ => ⟨0,0,1,false⟩
  writer := fun _ => .out
  hooks := []

/-- `audio_idle_wake`, up to the return of the hook. -/
def State.callWake (s : State τ θ) : List Hook :=
  if s.idleStopped then .wake :: s.hooks else s.hooks

def State.startMixer (s : State τ θ) (w : Option θ) : State τ θ :=
  { s with hooks := s.callWake, exlock := some (.starting w) }

def Writer.resume : Writer τ → Writer τ
  | .entering x => .copying x
  | .restarting x true => .copying x
  | .restarting _ false => .out
  | pc => pc

section Step
variable [DecidableEq τ] [DecidableEq θ]

def State.setTrack (s : State τ θ) (x : τ) (t : Track) : State τ θ :=
  { s with track := update s.track x t }

def State.setWriter (s : State τ θ) (w : θ) (pc : Writer τ) : State τ θ :=
  { s with writer := update s.writer w pc }

def State.mixerStarted (s : State τ θ) (w : Option θ) : State τ θ :=
  { s with
    idleStopped := false
    pbusy := true
    exlock := none
    writer := match w with
      | some w => update s.writer w (s.writer w).resume
      | none => s.writer }

def State.unlinked (s : State τ θ) (x : τ) : State τ θ :=
  { s with
    closing := s.closing.erase x
    popens := s.popens - 1
    pbusy := s.pbusy && decide (s.popens ≠ 1)
    idleStopped := s.idleStopped && decide (s.popens ≠ 1) }

def step (s : State τ θ) : Event τ θ → Option (State τ θ)
  | .openTrack x frame isPause =>
    if s.exlock = none ∧ x ∉ s.seen ∧ 0 < frame then
      some { s.setTrack x ⟨0,0,frame,isPause⟩ with
        files := x :: s.files, seen := x :: s.seen, popens := s.popens + 1 }
    else none
  | .writeBegin w x =>
    if s.writer w = .out ∧ x ∈ s.files then some (s.setWriter w (.entering x)) else none
  | .writeEnter w =>
    match s.exlock,s.writer w with
    | none,.entering x =>
      some (if s.pbusy then s.setWriter w (.copying x) else s.startMixer (some w))
    | _,_ => none
  | .started =>
    match s.exlock with
    | some (.starting w) => some (s.mixerStarted w)
    | _ => none
  | .copy w usrbuf outbuf =>
    match s.writer w with
    | .copying x =>
      some ((s.setTrack x { s.track x with usrbuf, outbuf }).setWriter w (.peeking x))
    | _ => none
  | .fault w usrbuf =>
    match s.writer w with
    | .copying x =>
      if (s.track x).usrbuf ≤ usrbuf then
        some ((s.setTrack x { s.track x with usrbuf }).setWriter w .out)
      else none
    | _ => none
  | .giveUp w =>
    match s.writer w with
    | .copying _ => some (s.setWriter w .out)
    | _ => none
  | .peek w more =>
    match s.writer w with
    | .peeking x =>
      some (s.setWriter w
        (if s.idleStopped then .restarting x more else if more then .copying x else .out))
    | _ => none
  | .restart w =>
    match s.exlock,s.writer w with
    | none,.restarting x more =>
      some (if s.pbusy = false ∧ s.idleStopped then s.startMixer (some w)
        else s.setWriter w (Writer.restarting x more).resume)
    | _,_ => none
  | .interrupted w =>
    match s.writer w with
    | .restarting _ _ => some (s.setWriter w .out)
    | _ => none
  | .mix x usrbuf outbuf =>
    if s.pbusy ∧ (({ s.track x with usrbuf, outbuf } : Track).busy → (s.track x).busy) then
      some (s.setTrack x { s.track x with usrbuf, outbuf })
    else none
  | .pause x =>
    if s.exlock = none ∧ x ∈ s.files then
      some (s.setTrack x { s.track x with isPause := true })
    else none
  | .unpause x =>
    if s.exlock = none ∧ x ∈ s.files then
      let u := s.setTrack x { s.track x with isPause := false }
      some (if s.pbusy = false ∧ s.idleStopped then u.startMixer none else u)
    else none
  | .recordStart =>
    if s.exlock = none ∧ s.rbusy = false then
      some { s with hooks := s.callWake, exlock := some .recording }
    else none
  | .recordStarted =>
    if s.exlock = some .recording then
      some { s with idleStopped := false, rbusy := true, exlock := none }
    else none
  | .recordStop => if s.exlock = none then some { s with rbusy := false } else none
  | .close x =>
    match s.exlock with
    -- The loop of the idle stop keeps `sc_lock`.
    | some (.looking _) => none
    | _ =>
      if x ∈ s.files then some { s with files := s.files.erase x, closing := x :: s.closing }
      else none
  | .unlink x => if s.exlock = none ∧ x ∈ s.closing then some (s.unlinked x) else none
  | .idleBegin =>
    if s.exlock = none ∧ s.pbusy ∧ s.rbusy = false ∧ s.idleStopped = false then
      some { s with idleStopped := true, exlock := some (.looking s.files) }
    else none
  | .look =>
    match s.exlock with
    | some (.looking (x :: todo)) =>
      some (if (s.track x).isPause = false ∧ (s.track x).busy then
          { s with idleStopped := false, exlock := none }
        else { s with exlock := some (.looking todo) })
    | _ => none
  | .halt =>
    if s.exlock = some (.looking []) then some { s with pbusy := false, exlock := some .sleeping }
    else none
  | .slept =>
    if s.exlock = some .sleeping then some { s with hooks := .sleep :: s.hooks, exlock := none }
    else none

end Step

def State.Starting (s : State τ θ) : Prop := ∃ w, s.exlock = some (.starting w)

def State.Waiting (s : State τ θ) (x : τ) : Prop :=
  (s.track x).isPause = false ∧ (s.track x).busy = true

/-- The writer has yet to read `sc_idle_stopped`, or has seen it set. -/
def Writer.heeds : Writer τ → Bool
  | .peeking _ | .restarting _ _ => true
  | _ => false

def State.Heeded (s : State τ θ) : Prop := ∃ w, (s.writer w).heeds = true

/-- The steps that take the flag from those who would act on it, or that leave without reading it,
find it clear. -/
def Steady (s : State τ θ) : Event τ θ → Prop
  | .recordStart | .fault _ _ | .interrupted _ => s.idleStopped = false
  | .unlink _ => s.popens = 1 → s.idleStopped = false
  | _ => True

instance decidableSteady (s : State τ θ) : ∀ e, Decidable (Steady s e)
  | .recordStart | .fault _ _ | .interrupted _ => inferInstanceAs (Decidable (_ = _))
  | .unlink _ => inferInstanceAs (Decidable (_ → _))
  | .openTrack _ _ _ | .writeBegin _ _ | .writeEnter _ | .started | .copy _ _ _ | .giveUp _
  | .peek _ _ | .restart _ | .mix _ _ _ | .pause _ | .unpause _ | .recordStarted | .recordStop
  | .close _ | .idleBegin | .look | .halt | .slept => isTrue trivial

end NanoBSD.Audio
