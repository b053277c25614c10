import NanoBSD.Bta2dpd.Control

/-! # The audio source while it streams

The media channel stays the same one until the stream is closed. The three events of the
source follow `state` as long as no message of the setup overwrites it in the middle of the
stream, and packets go out only after an accepted START if the peer refuses none.
-/
namespace NanoBSD.Bta2dpd
variable {c : Config} {s t : State}

def State.pending (s : State) : ℕ := s.interruptEv.toNat + s.retryEv.toNat + s.watchEv.toNat

structure Started (s : State) : Prop where
  state : s.state = stStreaming
  interrupt : s.interruptEv = true
  retry : s.retryEv = false
  watch : s.watchEv = false
  channel : s.sc ≠ none
  last : s.last = some .start
  media : ∀ x ∈ s.media, x = some .start

def Message.rewinds (m : Message) : Bool :=
  match m.signal with
  | .getCapabilities | .setConfiguration => true
  | .discover => m.type = .command
  | _ => false

def Message.refusesStart (m : Message) : Bool :=
  m.signal = .start && m.type ≠ .command && m.type ≠ .responseAccept

/-- The peer sets nothing up while the source streams or is suspended, and a START that it
refuses finds the stream running. -/
def Orderly (s : State) : Event → Prop
  | .control buf _ => ∀ m ∈ checkResponse buf,
      (m.rewinds = true → s.state ≠ stStreaming ∧ s.state ≠ stSuspended) ∧
        (m.refusesStart = true → s.state = stStreaming)
  | _ => True

instance decidableOrderly (s : State) : ∀ e, Decidable (Orderly s e)
  | .control buf _ => inferInstanceAs (Decidable (∀ m ∈ checkResponse buf, _))
  | .interrupt _ _ _ | .retry | .watch _ | .recv _ => isTrue trivial

def Event.Closes : Event → Prop
  | .control buf _ => ∀ m ∈ checkResponse buf,
      m.type = .command ∧ (m.signal = .abort ∨ m.signal = .close)
  | _ => False

instance : DecidablePred Event.Closes
  | .control buf _ => inferInstanceAs (Decidable (∀ m ∈ checkResponse buf, _))
  | .interrupt _ _ _ | .retry | .watch _ | .recv _ => inferInstanceAs (Decidable False)

/-! ## The media channel -/

section Channel
open State

theorem sc_suspend : (s.suspend c).sc = s.sc := by
  unfold State.suspend streamSuspend
  split
  · split <;> rfl
  · rfl

theorem sc_start : (s.start c).sc = s.sc := by
  unfold State.start streamResume
  split
  · split <;> rfl
  · split <;> rfl

variable {g : Signal} {silent : Bool} {now : UInt64}

theorem sc_command (habort : g ≠ .abort) (hclose : g ≠ .close) : (s.command c g).sc = s.sc := by
  cases g with
  | abort => exact absurd rfl habort
  | close => exact absurd rfl hclose
  | suspend => exact sc_suspend
  | start => exact sc_start
  | discover | getCapabilities | setConfiguration | openStream | other => rfl

theorem sc_response {accept fits : Bool} : (s.response c accept fits g).sc = s.sc := by
  cases g with
  | setConfiguration =>
    unfold State.response
    dsimp only
    split <;> rfl
  | suspend =>
    cases accept with
    | true => exact sc_suspend
    | false => rfl
  | start => cases accept <;> exact sc_start
  | discover | getCapabilities | openStream | close | abort | other => rfl

theorem sc_setup (hrole : c.asSpeaker = false) (hsc : s.sc ≠ none) (a : Answers) :
    (s.setup c a).sc = s.sc := by
  unfold State.setup openedConnection
  split
  · rw [if_neg (by simp [hrole])]
  · rw [if_neg (by simp [hrole,hsc])]

theorem sc_doCtlreq (hrole : c.asSpeaker = false) (hsc : s.sc ≠ none) {buf : List UInt8}
    {a : Answers} (hopen : ¬(Event.control buf a).Closes) : (s.doCtlreq c buf a).sc = s.sc := by
  unfold State.doCtlreq
  split
  · rename_i hnone
    exact absurd (fun m hm => by rw [hnone] at hm; cases hm) hopen
  · rename_i m hm
    split
    · rename_i hcmd
      have hkeep : ¬(m.signal = .abort ∨ m.signal = .close) := by
        intro hclose
        refine hopen fun m' hm' => ?_
        rw [hm] at hm'
        cases hm'
        exact ⟨hcmd,hclose⟩
      have hcommand : (s.command c m.signal).sc = s.sc :=
        sc_command (fun h => hkeep (.inl h)) fun h => hkeep (.inr h)
      rw [sc_setup hrole (by rwa [hcommand]),hcommand]
    · rw [sc_setup hrole (by rwa [sc_response]),sc_response]

theorem sc_checkSilence : (s.checkSilence c silent now).sc = s.sc := by
  unfold State.checkSilence
  repeat' split
  all_goals rfl

theorem sc_streamed : (s.streamed c silent now).sc = s.sc := by
  unfold State.streamed
  split
  · exact sc_checkSilence
  · rfl

theorem sc_doInterrupt {r : Streamed} {opens : ℕ → Bool} :
    (s.doInterrupt c r now opens).sc = s.sc := by
  cases r with
  | sent | dropped => exact sc_streamed
  | short | failed =>
    unfold State.doInterrupt streamFailed
    dsimp only
    repeat' split
    all_goals rfl

theorem sc_step (hrole : c.asSpeaker = false) (hsc : s.sc ≠ none) {e : Event} (hopen : ¬e.Closes)
    (hstep : step c s e = some t) : t.sc = s.sc := by
  cases e with
  | control buf a =>
    obtain ⟨_,rfl⟩ := of_guard hstep
    exact sc_doCtlreq hrole hsc hopen
  | interrupt r now opens =>
    obtain ⟨_,rfl⟩ := of_guard hstep
    exact sc_doInterrupt
  | retry =>
    obtain ⟨_,rfl⟩ := of_guard hstep
    unfold State.doRetry
    split <;> rfl
  | watch r =>
    obtain ⟨_,rfl⟩ := of_guard hstep
    cases r with
    | ended | again => rfl
    | data buf =>
      unfold State.doWatch
      dsimp only
      split <;> rfl
  | recv ok =>
    obtain ⟨_,rfl⟩ := of_guard hstep
    unfold State.doRecv
    split <;> rfl

theorem sc_run (hrole : c.asSpeaker = false) (hsc : s.sc ≠ none) {es : List Event}
    (hopen : ∀ e ∈ es, ¬e.Closes) (hrun : exec (step c) s es = some t) : t.sc = s.sc := by
  induction es generalizing s with
  | nil =>
    cases hrun
    rfl
  | cons e es ih =>
    obtain ⟨u,hu,hrest⟩ := exec_cons_eq_some.mp hrun
    have hkeep : u.sc = s.sc := sc_step hrole hsc (hopen e (by simp)) hu
    rw [← hkeep] at hsc ⊢
    exact ih hsc (fun e he => hopen e (by simp [he])) hrest

end Channel

/-! ## The events and the packets -/

/-- Which events may be pending in a state, also in the middle of `do_ctlreq`. -/
structure Marks (s : State) : Prop where
  interrupt : s.interruptEv = true → s.state = stStreaming ∧ s.retryEv = false
  retry : s.retryEv = true → s.state = stStreaming
  watch : s.watchEv = true → s.state = stSuspended
  started : s.state = 6 ∨ s.state = stStreaming → s.last = some .start
  media : ∀ x ∈ s.media, x = some .start

structure Inv (s : State) : Prop extends Marks s where
  settled : s.state ≠ 6

theorem Started.inv (h : Started s) : Inv s where
  interrupt _ := ⟨h.state,h.retry⟩
  retry hr := (by cases h.retry.symm.trans hr)
  watch hw := (by cases h.watch.symm.trans hw)
  started _ := h.last
  media := h.media
  settled := by simp [h.state]

namespace Marks

variable (h : Marks s)
include h

theorem not_watch (hstate : s.state = stStreaming) : s.watchEv = false := by
  by_contra hw
  cases hstate.symm.trans (h.watch (by simpa using hw))

theorem quiet (hstate : s.state ≠ stStreaming) : s.interruptEv = false ∧ s.retryEv = false := by
  constructor
  · by_contra hi
    exact hstate (h.interrupt (by simpa using hi)).1
  · by_contra hr
    exact hstate (h.retry (by simpa using hr))

theorem pending_le_one : s.pending ≤ 1 := by
  unfold State.pending
  by_cases hstate : s.state = stStreaming
  · rw [h.not_watch hstate]
    cases hi : s.interruptEv with
    | true => simp [(h.interrupt hi).2]
    | false => cases s.retryEv <;> simp
  · obtain ⟨hi,hr⟩ := h.quiet hstate
    rw [hi,hr]
    cases s.watchEv <;> simp

theorem send (m : Sent) : Marks (s.send m) :=
  ⟨h.interrupt,h.retry,h.watch,h.started,h.media⟩

theorem move (hstate : s.state ≠ stStreaming ∧ s.state ≠ stSuspended) {n : ℕ}
    (hn : n < 6) : Marks { s with state := n } where
  interrupt hi := absurd (h.interrupt hi).1 hstate.1
  retry hr := absurd (h.retry hr) hstate.1
  watch hw := absurd (h.watch hw) hstate.2
  started hs := by rcases hs with hs | hs <;> exact absurd hs (by dsimp only [stStreaming]; omega)
  media := h.media

theorem closeStream (hrole : c.asSpeaker = false) : Marks (s.closeStream c) := by
  unfold State.closeStream
  rw [if_neg (by simp [hrole])]
  refine ⟨?_,?_,?_,?_,h.media⟩ <;> simp

theorem setup (hrole : c.asSpeaker = false) (a : Answers) : Inv (s.setup c a) := by
  unfold State.setup State.openedConnection
  by_cases hsix : s.state = 6
  · rw [if_pos hsix,if_neg (by simp [hrole])]
    have hnot : s.state ≠ stStreaming := by simp [hsix]
    have hwatch (hw : s.watchEv = true) : False :=
      (by cases hsix.symm.trans (h.watch hw))
    exact ⟨⟨fun _ => ⟨rfl,(h.quiet hnot).2⟩,fun _ => rfl,fun hw => (hwatch hw).elim,
      fun _ => h.started (.inl hsix),h.media⟩,by simp⟩
  · rw [if_neg hsix]
    split
    · unfold State.connectMedia
      repeat' split
      all_goals exact ⟨⟨h.interrupt,h.retry,h.watch,h.started,h.media⟩,hsix⟩
    · exact ⟨h,hsix⟩

end Marks

namespace Inv

theorem suspend (h : Inv s) (hrole : c.asSpeaker = false) :
    Marks ((s.agree .suspend).suspend c) := by
  unfold State.suspend State.streamSuspend
  split
  · rw [if_neg (by simp [hrole])]
    refine ⟨?_,?_,?_,?_,h.media⟩ <;> simp
  · rename_i hstate
    exact ⟨h.interrupt,h.retry,h.watch,fun hs => hs.elim (absurd · h.settled) (absurd · hstate),
      h.media⟩

theorem start (h : Inv s) (hrole : c.asSpeaker = false)
    (hlast : s.state ≠ stStreaming → s.last = some .start) : Marks (s.start c) := by
  unfold State.start State.streamResume
  split
  · rename_i hstate
    have hnot : s.state ≠ stStreaming := by rcases hstate with hs | hs <;> simp [hs]
    rw [if_neg (by simp [hrole])]
    exact ⟨fun _ => ⟨rfl,(h.quiet hnot).2⟩,fun _ => rfl,nofun,fun _ => hlast hnot,h.media⟩
  · split
    · rename_i hsix
      have hnot : s.state ≠ stStreaming := by dsimp only [stStreaming]; omega
      refine ⟨fun hi => absurd (h.interrupt hi).1 hnot,fun hr => absurd (h.retry hr) hnot,
        fun hw => ?_,fun _ => hlast hnot,h.media⟩
      exact absurd (h.watch hw) (by dsimp only [stSuspended]; omega)
    · exact h.toMarks

theorem agree_start (h : Inv s) : Inv (s.agree .start) :=
  ⟨⟨h.interrupt,h.retry,h.watch,fun _ => rfl,h.media⟩,h.settled⟩

theorem send (h : Inv s) (m : Sent) : Inv (s.send m) := ⟨h.toMarks.send m,h.settled⟩

variable {g : Signal} {now : UInt64} {opens : ℕ → Bool}

variable (h : Inv s)
include h

theorem command (hrole : c.asSpeaker = false) (hset : (Message.mk .command g).rewinds = true →
      s.state ≠ stStreaming ∧ s.state ≠ stSuspended) : Marks (s.command c g) := by
  cases g with
  | abort | close => exact (h.toMarks.send _).closeStream hrole
  | discover | getCapabilities | setConfiguration =>
    exact (h.toMarks.send _).move (hset rfl) (by decide)
  | openStream =>
    by_cases hfive : s.state < 5
    · have hmove := (h.toMarks.send (.accept .openStream)).move (n := 5)
        (by dsimp only [State.send,stStreaming,stSuspended]; omega) (by decide)
      rwa [State.command,if_pos hfive]
    · rw [State.command,if_neg hfive]
      exact h.toMarks.send _
  | suspend => exact (h.send _).suspend hrole
  | start => exact (h.send _).agree_start.start hrole fun _ => rfl
  | other id => exact h.toMarks.send _

theorem response (hrole : c.asSpeaker = false) {y : MessageType}
    (hy : y ≠ .command) (hset : (Message.mk y g).rewinds = true →
      s.state ≠ stStreaming ∧ s.state ≠ stSuspended)
    (hstart : (Message.mk y g).refusesStart = true → s.state = stStreaming) (fits : Bool) :
    Marks (s.response c (y = .responseAccept) fits g) := by
  cases g with
  | discover | close | abort | other => exact h.toMarks.send _
  | getCapabilities => exact (h.toMarks.send _).move (hset rfl) (by decide)
  | setConfiguration =>
    unfold State.response
    dsimp only
    split
    · exact (h.toMarks.send _).move (hset rfl) (by decide)
    · exact h.toMarks.move (hset rfl) (by decide)
  | openStream =>
    by_cases hfour : s.state = 4
    · have hmove := h.toMarks.move (n := 5) (by simp [hfour]) (by decide)
      rwa [State.response,if_pos hfour]
    · rw [State.response,if_neg hfour]
      exact h.toMarks
  | suspend =>
    by_cases hacc : y = .responseAccept
    · simpa [State.response,hacc] using h.suspend hrole
    · simpa [State.response,hacc] using h.toMarks
  | start =>
    by_cases hacc : y = .responseAccept
    · simpa [State.response,hacc] using h.agree_start.start hrole fun _ => rfl
    · have hrun : s.state = stStreaming := hstart (by simp [Message.refusesStart,hy,hacc])
      simpa [State.response,hacc] using h.start hrole fun hnot => absurd hrun hnot

theorem doCtlreq (hrole : c.asSpeaker = false) {buf : List UInt8} {a : Answers}
    (horder : Orderly s (.control buf a)) : Inv (s.doCtlreq c buf a) := by
  unfold State.doCtlreq
  split
  · have hclose := h.toMarks.closeStream hrole
    refine ⟨⟨hclose.interrupt,hclose.retry,hclose.watch,hclose.started,hclose.media⟩,?_⟩
    simp [State.closeStream,hrole]
  · rename_i m hm
    obtain ⟨hset,hstart⟩ := horder m hm
    split
    · rename_i hcmd
      refine (h.command hrole fun hrew => hset ?_).setup hrole a
      rwa [← hcmd] at hrew
    · rename_i hcmd
      exact (h.response hrole hcmd hset hstart a.fits).setup hrole a

theorem streamed {silent : Bool} : Inv (s.streamed c silent now) := by
  unfold State.streamed State.checkSilence
  repeat' split
  all_goals exact ⟨⟨h.interrupt,h.retry,h.watch,h.started,h.media⟩,h.settled⟩

theorem streamFailed (hi : s.interruptEv = true) : Inv (s.streamFailed c opens) := by
  obtain ⟨hstate,hretry⟩ := h.interrupt hi
  unfold State.streamFailed
  dsimp only
  split
  · exact ⟨⟨nofun,fun _ => hstate,h.watch,h.started,h.media⟩,h.settled⟩
  · split
    · exact ⟨⟨fun _ => ⟨hstate,hretry⟩,h.retry,h.watch,h.started,h.media⟩,h.settled⟩
    · exact ⟨⟨nofun,h.retry,h.watch,h.started,h.media⟩,h.settled⟩

theorem write (hi : s.interruptEv = true) :
    Inv { s with media := s.media ++ [s.last] } := by
  refine ⟨⟨h.interrupt,h.retry,h.watch,h.started,fun x hx => ?_⟩,h.settled⟩
  rcases List.mem_append.mp hx with hx | hx
  · exact h.media x hx
  · rw [List.mem_singleton.mp hx]
    exact h.started (.inr (h.interrupt hi).1)

theorem doInterrupt (hi : s.interruptEv = true) {r : Streamed} :
    Inv (s.doInterrupt c r now opens) := by
  have hfile : Inv { s with
      currentFile := if s.currentFile = 0 then c.startFile else s.currentFile } :=
    ⟨⟨h.interrupt,h.retry,h.watch,h.started,h.media⟩,h.settled⟩
  cases r with
  | sent silent => exact (hfile.write hi).streamed
  | dropped silent => exact hfile.streamed
  | short | failed => exact hfile.streamFailed hi

theorem doRetry : Inv { s with retryEv := false }.doRetry := by
  unfold State.doRetry
  split
  · rename_i hstate
    exact ⟨⟨fun _ => ⟨hstate,rfl⟩,nofun,h.watch,h.started,h.media⟩,h.settled⟩
  · exact ⟨⟨fun hi => ⟨(h.interrupt hi).1,rfl⟩,nofun,h.watch,h.started,h.media⟩,h.settled⟩

theorem doWatch (hw : s.watchEv = true) (r : Watched) : Inv (s.doWatch r) := by
  have hnot : s.state ≠ stStreaming := by simp [h.watch hw]
  cases r with
  | ended =>
    exact ⟨⟨h.interrupt,h.retry,nofun,h.started,h.media⟩,h.settled⟩
  | again => exact h
  | data buf =>
    unfold State.doWatch
    dsimp only
    split
    · exact h
    · exact ⟨⟨fun hi => absurd (h.interrupt hi).1 hnot,fun hr => absurd (h.retry hr) hnot,
        nofun,fun hs => (by simp at hs),h.media⟩,by simp⟩

theorem step (hrole : c.asSpeaker = false) {e : Event} (horder : Orderly s e)
    (hstep : Bta2dpd.step c s e = some t) : Inv t := by
  cases e with
  | control buf a =>
    obtain ⟨_,rfl⟩ := of_guard hstep
    exact h.doCtlreq hrole horder
  | interrupt r now opens =>
    obtain ⟨⟨_,hi,_⟩,rfl⟩ := of_guard hstep
    exact h.doInterrupt hi
  | retry =>
    obtain ⟨_,rfl⟩ := of_guard hstep
    exact h.doRetry
  | watch r =>
    obtain ⟨⟨_,hw⟩,rfl⟩ := of_guard hstep
    exact h.doWatch hw r
  | recv ok =>
    obtain ⟨_,rfl⟩ := of_guard hstep
    unfold State.doRecv
    split
    · exact h
    · exact ⟨⟨h.interrupt,h.retry,h.watch,h.started,h.media⟩,h.settled⟩

theorem run (hrole : c.asSpeaker = false) {es : List Event}
    (horder : Along (Bta2dpd.step c) Orderly s es) (hrun : exec (Bta2dpd.step c) s es = some t) :
    Inv t :=
  exec_invariant_along Inv (fun _ _ _ h ho hstep => h.step hrole ho hstep) h horder hrun

end Inv

/-! ## Whole runs -/

theorem stream_orderly (hrole : c.asSpeaker = false) (hstart : Started s) {es : List Event}
    (hrun : exec (step c) s es = some t) :
    ((∀ e ∈ es, ¬e.Closes) → t.sc = s.sc) ∧
      (Along (step c) Orderly s es → t.pending ≤ 1 ∧ ∀ x ∈ t.media, x = some .start) := by
  constructor
  · exact fun hopen => sc_run hrole hstart.channel hopen hrun
  · intro horder
    have hinv : Inv t := hstart.inv.run hrole horder hrun
    exact ⟨hinv.pending_le_one,hinv.media⟩

def source : Config where
  asSpeaker := false
  dontStop := true
  runasDaemon := true
  silenceMs := 5000
  numfiles := 1
  startFile := 0

def fine : Answers where
  fits := true
  socket := some 5
  bound := true
  linkMode := true
  connected := true
  accepted := none

def cmd (g : UInt8) : Event := .control [0x10,g,4] fine
def rsp (g : UInt8) : Event := .control [0x12,g] fine
def rej (g : UInt8) : Event := .control [0x13,g,0x31] fine
def packet (silent : Bool) (now : UInt64) : Event := .interrupt (.sent silent) now fun _ => true
def accepts : List Event := [rsp 1,rsp 2,rsp 3,rsp 6,rsp 7]

/-- The stream is suspended after silence and starts with the sound, fails and is retried, and is
suspended and started by the sink. -/
def orderlyRun : List Event :=
  [packet true 10,packet true 5010,rsp 9,.watch (.data [0,0]),.watch (.data [0,3]),rsp 7,
   packet false 6000,.interrupt .failed 6010 fun _ => true,.retry,packet false 6020,cmd 9,cmd 7,
   packet false 7000]

instance : DecidablePred Started := fun s =>
  decidable_of_iff (s.state = stStreaming ∧ s.interruptEv = true ∧ s.retryEv = false ∧
    s.watchEv = false ∧ s.sc ≠ none ∧ s.last = some .start ∧ ∀ x ∈ s.media, x = some .start)
    ⟨fun ⟨h₁,h₂,h₃,h₄,h₅,h₆,h₇⟩ => ⟨h₁,h₂,h₃,h₄,h₅,h₆,h₇⟩,
      fun h => ⟨h.state,h.interrupt,h.retry,h.watch,h.channel,h.last,h.media⟩⟩

theorem stream_orderly_accepts : ∃ s t, exec (step source) connected accepts = some s ∧
    Started s ∧ exec (step source) s orderlyRun = some t ∧
    Along (step source) Orderly s orderlyRun ∧ t.sc = some 5 ∧ t.media.length = 5 ∧
    t.pending ≤ 1 ∧ ∀ x ∈ t.media, x = some .start := by
  obtain ⟨s,hs,hstart,hsc,horder,t,ht,hlen⟩ : ∃ s, exec (step source) connected accepts = some s ∧
      Started s ∧ s.sc = some 5 ∧ Along (step source) Orderly s orderlyRun ∧
      ∃ t, exec (step source) s orderlyRun = some t ∧ t.media.length = 5 := by decide +kernel
  have hopen : ∀ e ∈ orderlyRun, ¬e.Closes := by decide +kernel
  obtain ⟨hchannel,hstream⟩ := stream_orderly rfl hstart ht
  exact ⟨s,t,hs,hstart,ht,horder,(hchannel hopen).trans hsc,hlen,hstream horder⟩

/-- A DISCOVER or GET_CAPABILITIES within the stream takes `state` from the events: the next START
adds a second one, and the next SUSPEND has no effect. In the last run the sink refuses a START. -/
theorem stream_disorderly : ∃ s, exec (step source) connected accepts = some s ∧ Started s ∧
    (∃ t, exec (step source) s [cmd 9,cmd 1,cmd 7] = some t ∧ t.pending = 2) ∧
    (∃ t, exec (step source) s [.interrupt .failed 10 fun _ => true,cmd 2,cmd 7] = some t ∧
      t.pending = 2) ∧
    (∃ t, exec (step source) s [cmd 1,cmd 9,packet false 10] = some t ∧
      some .suspend ∈ t.media) ∧
    ∃ t, exec (step source) s [cmd 9,.watch (.data [3]),rej 7,packet false 10] = some t ∧
      some .suspend ∈ t.media := by
  decide +kernel

end NanoBSD.Bta2dpd
