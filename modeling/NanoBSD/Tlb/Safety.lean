import NanoBSD.Tlb.Sender

/-! # No stale translation is used

The interrupt handlers, too, keep what is known of the packets on their way. When
`pmap_tlb_shootnow` returns nobody owes anything, so that a CPU that uses the pmap has none of the
translations.
-/
namespace NanoBSD.Tlb
open Option
variable {κ π μ ν : Type} [DecidableEq κ] [DecidableEq ν] {pf : Platform κ π μ ν}

namespace State.Inv
variable {s : State κ π μ ν} {c : κ}

theorem take (h : s.Inv pf) (hipi : (s.cpu c).ipi = true) (hidle : (s.cpu c).handler = .idle) :
    (s.set c { s.cpu c with ipi := false, handler := .entered }).Inv pf := by
  obtain ⟨hcalm,hkeeps⟩ := Cpu.Calm.of_handler (y := { s.cpu c with ipi := false, handler := .entered })
    (h.ok c) (h.tidy c) rfl (.inr ⟨by simp,by simp,.inl (by rw [hidle]; rfl)⟩)
  refine h.turn (keeps_set hkeeps) hcalm ?_ (fun hp => h.content_keep hp (by rfl))
    (fun hd => h.copied_set hd fun hc => by cases hc) fun _ hi hd => .inl ⟨hi,due_set hd rfl⟩
  have hmail := h.mail.take (c := c) hipi (by simp [State.mail,hidle,Handler.hand])
  rw [mail_set_hand (by rfl) (by rfl)]
  simpa [Handler.hand] using hmail

variable {ts : Packet ν} {src : κ}

theorem copy (h : s.Inv pf) (hc : (s.cpu c).handler = .entered) (hp : s.packet = some (src,ts)) :
    (s.set c { s.cpu c with handler := .copied src ts }).Inv pf := by
  obtain ⟨hcalm,hkeeps⟩ := Cpu.Calm.of_handler (y := { s.cpu c with handler := .copied src ts })
    (h.ok c) (h.tidy c) rfl (.inr ⟨by simp,by simp,.inl (by rw [hc]; rfl)⟩)
  refine h.turn (keeps_set hkeeps) hcalm ?_ (fun hp => h.content_keep hp (by rfl))
    (fun hd => h.copied_set hd ?_) fun _ hi hd => .inl ⟨hi,due_set hd rfl⟩
  · have hmail := h.mail.copy (c := c) (i := src) (by simp [State.mail,hc,Handler.hand])
      (by simp [hp])
    rw [mail_set_hand (by rfl) (by rfl)]
    simpa [Handler.hand] using hmail
  · rintro ⟨⟩
    exact hp

theorem ack (h : s.Inv pf) (hc : (s.cpu c).handler = .copied src ts) :
    (State.set { s with pendcount := s.pendcount - 1 } c
      { s.cpu c with
        due := false
        handler := if s.pendcount - 1 = 0 then .clearing src ts else .invalidate ts }).Inv pf := by
  have hp : s.packet = some (src,ts) := h.copied hc
  have hpacket : (if s.pendcount - 1 = 0 then Handler.clearing src ts else .invalidate ts).packet =
      some ts := by
    split_ifs <;> rfl
  obtain ⟨hcalm,hkeeps⟩ := Cpu.Calm.of_handler (y := { s.cpu c with
    due := false
    handler := if s.pendcount - 1 = 0 then .clearing src ts else .invalidate ts })
    (h.ok c) (h.tidy c) rfl (.inr ⟨by dsimp only; split_ifs <;> simp,
      by dsimp only; split_ifs <;> simp,.inr (hpacket.trans (by rw [hc]; rfl))⟩)
  refine h.turn (keeps_set hkeeps) hcalm ?_ (fun hp => h.content_keep hp (by rfl))
    (fun hd => h.copied_set hd ?_) fun {i d m} hq hi hd => ?_
  · have hhand : (if s.pendcount - 1 = 0 then Handler.clearing src ts else .invalidate ts).hand =
        if s.pendcount - 1 = 0 then .clearing src else .none := by
      split_ifs <;> rfl
    have hmail := h.mail.ack (c := c) (i := src) (by simp [State.mail,hc,Handler.hand])
    rw [mail_set_hand (by rfl) (by rfl)]
    simp only [mail_mk,hhand,update_ipi]
    exact hmail
  · split_ifs <;> simp
  · by_cases hdc : d = c
    · subst hdc
      obtain rfl : src = i := by simpa [hp] using hi
      rw [cpu_set_self]
      exact .inr (.inl ⟨ts,hpacket,h.covers_of_due hp hd hq⟩)
    · rw [cpu_set_of_ne hdc]
      exact .inl ⟨hi,hd⟩

theorem clear (h : s.Inv pf) (hc : (s.cpu c).handler = .clearing src ts) :
    (State.set { s with packet := none } c { s.cpu c with handler := .marking src ts }).Inv pf := by
  have hhand : s.mail.hand c = .clearing src := by simp [State.mail,hc,Handler.hand]
  have hnone (d : κ) : (s.cpu d).due = false := (h.mail.clearing hhand).2.2.1 d
  obtain ⟨hcalm,hkeeps⟩ := Cpu.Calm.of_handler (y := { s.cpu c with handler := .marking src ts })
    (h.ok c) (h.tidy c) rfl (.inr ⟨by simp,by simp,.inr (by rw [hc]; rfl)⟩)
  refine h.turn (keeps_set hkeeps) hcalm ?_ (fun hp => by cases hp) (fun {d src' copy} => ?_)
    fun _ _ hd => by simp [hnone] at hd
  · have hmail := h.mail.clear hhand
    rw [mail_set_hand (by rfl) (by rfl)]
    simpa [Handler.hand] using hmail
  · -- a target that has copied a packet is due
    refine forall_set (P := fun _ y => y.handler = .copied src' copy → none = some (src',copy))
      (fun hd => by cases hd) (fun d hd => ?_) d
    have hdue := h.mail.owes (c := d) (by simp [State.mail,hd,Handler.hand,Hand.owes])
    simp [State.mail,hnone] at hdue

theorem mark (h : s.Inv pf) {t : State κ π μ ν} (hc : (s.cpu c).handler = .marking src ts)
    (ht : t = s.set src { s.cpu src with done := true }) :
    (t.set c { t.cpu c with handler := .invalidate ts }).Inv pf := by
  have hdone (i : κ) : ∃ b, t.cpu i = { s.cpu i with done := b } := by
    rw [ht]
    exact forall_set (P := fun i y => ∃ b, y = { s.cpu i with done := b }) ⟨true,rfl⟩
      (fun i => ⟨(s.cpu i).done,rfl⟩) i
  refine h.still (by rw [ht]; rfl) (by rw [ht]; rfl)
    (forall_set (P := fun i y => (s.cpu i).Still pf i y) ?_ fun i => ?_) ?_
  · obtain ⟨b,hb⟩ := hdone c
    obtain ⟨hcalm,hkeeps⟩ := Cpu.Calm.of_handler
      (y := { s.cpu c with done := b, handler := .invalidate ts }) (h.ok c) (h.tidy c) rfl
      (.inr ⟨by simp,by simp,.inr (by rw [hc]; rfl)⟩)
    rw [hb]
    exact ⟨hcalm,hkeeps,rfl,rfl,nofun⟩
  · obtain ⟨b,hb⟩ := hdone i
    obtain ⟨hcalm,hkeeps⟩ := Cpu.Calm.of_handler (y := { s.cpu i with done := b }) (h.ok i)
      (h.tidy i) rfl (.inl rfl)
    rw [hb]
    exact ⟨hcalm,hkeeps,rfl,rfl,fun _ _ => id⟩
  · have hmail := h.mail.mark (c := c) (i := src) (by simp [State.mail,hc,Handler.hand])
    rw [mail_set_hand (by rfl) (by rfl)]
    simp only [update_ipi,update_due]
    rw [ht,mail_set_done]
    exact hmail

end State.Inv

section Local

variable [DecidableEq π] {c : κ} {x x' : Cpu κ π μ ν}

omit [DecidableEq ν] in
theorem Cpu.mmu_aside (hstep : x.mmu = some x') :
    x'.side = x.side ∧ x.pc.aside = true ∧ x'.pc.aside = true ∧ x'.Tidy c := by
  unfold mmu at hstep
  split at hstep
  case h_7 old hpc =>
    cases hstep
    split_ifs <;> exact ⟨rfl,by rw [hpc]; rfl,rfl,trivial⟩
  case h_8 old hpc =>
    cases hstep
    split_ifs <;> exact ⟨rfl,by rw [hpc]; rfl,rfl,trivial⟩
  case h_11 => cases hstep
  all_goals
    rename_i hpc
    cases hstep
    exact ⟨rfl,by rw [hpc]; rfl,rfl,trivial⟩

omit [DecidableEq κ] in
theorem Cpu.intrTail_side (hstep : x.intrTail pf = some x') :
    x'.pc = x.pc ∧ x'.side = { x with handler := x'.handler }.side ∧ x.handler.hand = .none ∧
      x'.handler.hand = .none := by
  unfold intrTail at hstep
  split at hstep
  case h_2 hh =>
    cases hstep
    refine ⟨rfl,rfl,by rw [hh]; rfl,?_⟩
    dsimp only
    split_ifs <;> rfl
  case h_5 => cases hstep
  all_goals
    rename_i hh
    cases hstep
    exact ⟨rfl,rfl,by rw [hh]; rfl,rfl⟩

end Local

namespace State.Inv
variable [DecidableEq π] {s : State κ π μ ν} {c : κ} {x : Cpu κ π μ ν}

theorem mmu (h : s.Inv pf) (hidle : (s.cpu c).handler = .idle) (hx : (s.cpu c).mmu = some x) :
    (s.set c x).Inv pf := by
  obtain ⟨hside,hpc,hpc',htidy⟩ := Cpu.mmu_aside (c := c) hx
  obtain ⟨hok,-,hkeeps⟩ := Cpu.mmu_step (h.ok c) hidle hx
  exact h.aside hside hpc hpc' ⟨hok,hkeeps⟩ htidy

theorem intrTail (h : s.Inv pf) (hx : (s.cpu c).intrTail pf = some x) : (s.set c x).Inv pf := by
  obtain ⟨hpc,hside,hhand,hhand'⟩ := Cpu.intrTail_side hx
  obtain ⟨hok,hkeeps⟩ := Cpu.intrTail_step (h.ok c) hx
  simp only [Cpu.side,Prod.mk.injEq] at hside
  obtain ⟨hipi,hdue,hdone,htp,hset,-⟩ := hside
  have htargets : x.targets c = (s.cpu c).targets c := by
    funext d
    rw [Cpu.targets,Cpu.targets,hset]
  have htidy : x.Tidy c := by
    have := h.tidy c
    simpa only [Cpu.Tidy,Cpu.Aims,hpc,hset,htp,htargets] using this
  refine h.quiet (keeps_set hkeeps) ⟨hok,htidy,.inl hpc,fun _ => ⟨htp,hset⟩⟩ hipi hdue hdone
    (.inr ⟨hhand,hhand'⟩) (congrArg Pc.copy hpc) ?_
  simp only [Cpu.out,hpc,htargets]

theorem load (h : s.Inv pf) (hfree : (s.cpu c).free) (p : π) :
    (s.set c ((s.cpu c).load p)).Inv pf := by
  have hpc : (s.cpu c).pc.aside = true := by rw [hfree.2]; rfl
  unfold Cpu.load
  split_ifs with hp
  · exact h.aside rfl hpc rfl ((h.ok c).shift rfl (.inr ⟨by rw [hfree.2]; rfl,rfl⟩)) trivial
  · exact h.aside rfl hpc rfl ((h.ok c).clearOld hfree.2 hp) trivial

omit [DecidableEq π] in
theorem setLazy (h : s.Inv pf) (hfree : (s.cpu c).free) (hvalid : (s.cpu c).tlbstate = .valid) :
    (s.set c ((s.cpu c).setState .lazy)).Inv pf := by
  have hpc : (s.cpu c).pc.aside = true := by rw [hfree.2]; rfl
  refine h.aside rfl hpc hpc ((h.ok c).setLazy hfree.2 hfree.1 hvalid) ?_
  simp [Cpu.Tidy,Cpu.setState,hfree.2]

omit [DecidableEq π] in
theorem same (h : s.Inv pf) : (s.set c (s.cpu c)).Inv pf := by
  have hset : s.set c (s.cpu c) = s := by simp [State.set]
  rwa [hset]

theorem local_step (h : s.Inv pf) (hfree : (s.cpu c).free)
    (hx : (∃ p, x = (s.cpu c).mapPtes p) ∨ (∃ own, (s.cpu c).unmapPtes own = some x) ∨
      (s.cpu c).deactivate = some x) : (s.set c x).Inv pf := by
  rcases hx with ⟨p,rfl⟩ | ⟨own,hx⟩ | hx
  · have hload := h.load hfree p
    unfold Cpu.load at hload
    unfold Cpu.mapPtes
    split_ifs with hp hvalid
    · exact h.same
    · rwa [if_pos hp] at hload
    · rwa [if_neg hp] at hload
  · obtain ⟨hvalid,rfl⟩ := of_guard hx
    cases own with
    | true => exact h.same
    | false => exact h.setLazy hfree hvalid
  · obtain ⟨-,rfl⟩ := of_guard hx
    split_ifs with hvalid
    · exact h.setLazy hfree hvalid
    · exact h.same

section

omit [DecidableEq π]

theorem shootnow (h : s.Inv pf) (hfree : (s.cpu c).free) : (s.shootnow pf c).Inv pf := by
  have hpc : (s.cpu c).pc.aside = true := by rw [hfree.2]; rfl
  have haims := Cpu.aims_count pf c (s.cpu c)
  unfold State.shootnow
  dsimp only
  split_ifs
  · exact h
  · exact h.aside rfl hpc rfl ((h.ok c).shift rfl (.inr ⟨by rw [hfree.2]; rfl,rfl⟩)) haims
  · exact h.aside rfl hpc rfl ((h.ok c).shift rfl (.inr ⟨by rw [hfree.2]; rfl,rfl⟩)) haims

theorem looks (h : s.Inv pf) {pc : Pc κ π ν} (hpc : (s.cpu c).pc.aside = true)
    (hplain : (s.cpu c).pc.plain = true) (hpc' : pc.aside = true) (hplain' : pc.plain = true)
    (htidy : ((s.cpu c).goto pc).Tidy c) : (s.set c ((s.cpu c).goto pc)).Inv pf :=
  h.aside rfl hpc hpc' ((h.ok c).shift rfl (.inr ⟨hplain,hplain'⟩)) htidy

theorem skipCas (h : s.Inv pf) {here : Bool} {n : ℕ} {d : κ} {rest : List κ}
    (hpc : (s.cpu c).pc = .skipCas here n d rest) (hlazy : (s.cpu d).tlbstate = .lazy) :
    ((s.set d ((s.cpu d).setState .flush)).skipped c d here n rest).Inv pf := by
  obtain ⟨haims,hd,hin⟩ : (s.cpu c).Aims c here n ∧ d ≠ c ∧ (s.cpu c).cpuset d = true := by
    simpa [Cpu.Tidy,hpc] using h.tidy c
  obtain ⟨hok,hkeeps⟩ := (h.ok d).setFlush hlazy
  have hmarked : (s.set d ((s.cpu d).setState .flush)).Inv pf :=
    h.quiet (keeps_set hkeeps) ⟨hok,h.tidy d,.inl rfl,fun _ => ⟨rfl,rfl⟩⟩ rfl rfl rfl (.inl rfl)
      rfl rfl
  have hsame : (s.set d ((s.cpu d).setState .flush)).cpu c = s.cpu c := cpu_set_of_ne hd.symm
  refine hmarked.skipped rest ?_ ?_ ?_ hd ?_ ?_
  · rw [hsame,hpc]
    rfl
  · rw [hsame,hpc]
    rfl
  · rwa [hsame]
  · rwa [hsame]
  · rw [cpu_set_self]
    rfl

end

variable {s' : State κ π μ ν}

theorem advance (h : s.Inv pf) (hidle : (s.cpu c).open)
    (hstep : s.advance pf c = some s') : s'.Inv pf := by
  have htidy := h.tidy c
  unfold Cpu.Tidy at htidy
  unfold State.advance at hstep
  dsimp only at hstep
  generalize hpc : (s.cpu c).pc = pc at htidy hstep
  have haside : (s.cpu c).pc.aside = pc.aside := congrArg Pc.aside hpc
  have hplain : (s.cpu c).pc.plain = pc.plain := congrArg Pc.plain hpc
  cases pc with
  | run => cases hstep
  | merge p va rest =>
    cases rest with
    | nil =>
      cases hstep
      exact h.enqueue hpc
    | cons d rest =>
      cases hstep
      exact h.merge hpc rfl
  | skip here n rest =>
    cases rest with
    | nil =>
      cases hstep
      exact h.looks haside hplain rfl rfl htidy
    | cons d rest =>
      dsimp only at hstep
      split_ifs at hstep with hd
      · cases hstep
        exact h.looks haside hplain rfl rfl htidy
      · rw [not_or,Bool.not_eq_false] at hd
        split at hstep <;> cases hstep
        · exact h.looks haside hplain rfl rfl ⟨htidy,hd⟩
        · exact h.skipped rest haside hplain htidy hd.1 hd.2 ‹_›
        · exact h.looks haside hplain rfl rfl htidy
  | skipCas here n d rest =>
    dsimp only at hstep
    split at hstep <;> cases hstep
    · exact h.skipCas hpc ‹_›
    · exact h.skipped rest haside hplain htidy.1 htidy.2.1 htidy.2.2 ‹_›
    · exact h.looks haside hplain rfl rfl htidy.1
  | decide here n =>
    dsimp only at hstep
    split_ifs at hstep with hn <;> cases hstep
    · subst hn
      exact h.finishLocal hpc
    · exact h.looks haside hplain rfl rfl ⟨htidy,rfl⟩
  | acquire here n ts =>
    dsimp only at hstep
    split at hstep <;> cases hstep
    exact h.acquire hpc ‹_›
  | post here n ts =>
    cases hstep
    exact h.post hpc rfl
  | send here ts rest =>
    cases rest with
    | nil =>
      cases hstep
      exact h.sent hpc
    | cons d rest =>
      cases hstep
      split_ifs with hd
      · exact h.interrupt hpc (by simpa [Cpu.targets] using hd)
      · exact h.pass hpc (by simpa [Cpu.targets] using hd)
  | invalidate here ts =>
    cases hstep
    exact h.invalidate hpc
  | wait ts =>
    obtain ⟨hdone,rfl⟩ := of_guard hstep
    exact h.finish hpc hdone
  | _ =>
    obtain ⟨x,hx,rfl⟩ := map_eq_some_iff.mp hstep
    exact h.mmu hidle hx

theorem intr (h : s.Inv pf) (hstep : s.intr pf c = some s') : s'.Inv pf := by
  unfold State.intr at hstep
  dsimp only at hstep
  generalize hc : (s.cpu c).handler = x at hstep
  cases x with
  | entered =>
    obtain ⟨⟨src,ts⟩,hp,rfl⟩ := map_eq_some_iff.mp hstep
    exact h.copy hc hp
  | copied src ts =>
    cases hstep
    exact h.ack hc
  | clearing src ts =>
    cases hstep
    exact h.clear hc
  | marking src ts =>
    cases hstep
    exact h.mark hc rfl
  | _ =>
    obtain ⟨x,hx,rfl⟩ := map_eq_some_iff.mp hstep
    exact h.intrTail hx

theorem step [DecidableEq μ] {e : Event κ π μ ν} (h : s.Inv pf)
    (hstep : step pf s e = some s') : s'.Inv pf := by
  cases e with
  | enter m =>
    obtain ⟨-,rfl⟩ := of_guard hstep
    exact h.restage (by simp) (by simp) (by simp)
  | fill c m =>
    obtain ⟨⟨hlive,hm⟩,rfl⟩ := of_guard hstep
    exact h.fill hlive hm
  | clear c m =>
    obtain ⟨⟨hfree,-⟩,rfl⟩ := of_guard hstep
    refine h.restage (by simp) (by simp) ?_
    rintro i ⟨⟩
    exact hfree.2
  | shootdown c p va noskip =>
    obtain ⟨hfree,rfl⟩ := of_guard hstep
    exact h.shootdown p va _ hfree.2
  | shootnow c =>
    obtain ⟨hfree,rfl⟩ := of_guard hstep
    exact h.shootnow hfree
  | load c p =>
    obtain ⟨hfree,rfl⟩ := of_guard hstep
    exact h.load hfree p
  | mapPtes c p =>
    obtain ⟨hfree,rfl⟩ := of_guard hstep
    exact h.local_step hfree (.inl ⟨p,rfl⟩)
  | unmapPtes c own =>
    obtain ⟨hfree,hstep⟩ := ite_none_right_eq_some.mp hstep
    obtain ⟨x,hx,rfl⟩ := map_eq_some_iff.mp hstep
    exact h.local_step hfree (.inr (.inl ⟨own,hx⟩))
  | deactivate c =>
    obtain ⟨hfree,hstep⟩ := ite_none_right_eq_some.mp hstep
    obtain ⟨x,hx,rfl⟩ := map_eq_some_iff.mp hstep
    exact h.local_step hfree (.inr (.inr hx))
  | advance c =>
    obtain ⟨hidle,hstep⟩ := ite_none_right_eq_some.mp hstep
    exact h.advance hidle hstep
  | ipi c =>
    obtain ⟨⟨hipi,hidle⟩,rfl⟩ := of_guard hstep
    exact h.take hipi hidle
  | intr c => exact h.intr hstep

theorem init (p₀ : κ → π) : (State.init p₀ : State κ π μ ν).Inv pf where
  ok c :=
    { shape := ⟨rfl,fun _ => by simp [State.init]⟩
      tlb := fun hm => by simp [State.init] at hm
      leave := by simp [State.init]
      stale := by simp [State.init] }
  tidy _ := trivial
  mail :=
    { free := fun _ _ => rfl
      posted := nofun
      count := Tally.of_forall_not fun _ => by simp [State.mail,State.init]
      post := nofun
      send := nofun
      ipi := nofun
      owes := nofun
      copied := nofun
      clearing := nofun
      marking := fun hc => by cases hc }
  content hp := by cases hp
  copied hc := by cases hc
  safe :=
    { covered := nofun
      queued := nofun
      retired := nofun
      merging := fun _ _ _ _ _ hpc => by cases hpc }

end State.Inv

def Cpu.accesses (x : Cpu κ π μ ν) : Prop := x.free ∧ x.tlbstate = .valid

instance [DecidableEq π] (x : Cpu κ π μ ν) : Decidable x.accesses :=
  inferInstanceAs (Decidable (_ ∧ _))

variable [DecidableEq π] [DecidableEq μ]

/-- Once the `pmap_tlb_shootnow` for a translation has returned, no CPU that may access user memory
has it in its TLB. -/
theorem no_stale_translation {p₀ : κ → π} {es : List (Event κ π μ ν)} {s : State κ π μ ν}
    (hrun : exec (step pf) (State.init p₀) es = some s) {m : μ} (hm : s.stage m = .retired) {c : κ}
    (hc : (s.cpu c).accesses) : (s.cpu c).tlb m = false := by
  have h : s.Inv pf := exec_invariant (State.Inv pf) (fun _ _ _ h => h.step) (.init p₀) hrun
  refine Bool.eq_false_iff.mpr fun htlb => ?_
  exact (h.ok c).not_drops hc.1.2 hc.1.1 hc.2 m (h.safe.retired hm htlb)

theorem nodup_cpus : [false,true].Nodup := by decide
theorem mem_cpus : ∀ c : Bool, c ∈ [false,true] := by decide

def twoCpus : Platform Bool Unit Unit Unit where
  cpus := [false,true]
  nodup := nodup_cpus
  complete := mem_cpus
  pmapOf _ := ()
  vaOf _ := ()

def advances (c : Bool) (n : ℕ) : List (Event Bool Unit Unit Unit) :=
  List.replicate n (.advance c)

/-- The second CPU goes lazy with the translation in its TLB and is skipped; then it claims the
pmap back. -/
def skippedAndBack : List (Event Bool Unit Unit Unit) :=
  [.enter (),.fill true (),.deactivate true,.clear false (),.shootdown false () (some ()) false] ++
    advances false 3 ++ [.shootnow false] ++ advances false 5 ++ [.load true ()] ++ advances true 4

theorem skippedAndBack_not_stale :
    ∃ s, exec (step twoCpus) (State.init fun _ => ()) skippedAndBack = some s ∧
      s.stage () = .retired ∧ (s.cpu true).accesses ∧ (s.cpu true).tlb () = false := by
  obtain ⟨s,hrun,hm,hc⟩ : ∃ s, exec (step twoCpus) (State.init fun _ => ()) skippedAndBack = some s
      ∧ s.stage () = .retired ∧ (s.cpu true).accesses := by decide +kernel
  exact ⟨s,hrun,hm,hc,no_stale_translation hrun hm hc⟩

/-- The counter of the mailbox is the number of targets that have not acknowledged; an interrupt
finds the packet it was sent for, which is still there when the target counts itself off. -/
theorem mailbox_kept {p₀ : κ → π} {es : List (Event κ π μ ν)} {s : State κ π μ ν}
    (hrun : exec (step pf) (State.init p₀) es = some s) :
    {c | (s.cpu c).due = true}.encard = s.pendcount ∧
    (∀ c, (s.cpu c).ipi = true ∨ (s.cpu c).handler = .entered →
      (s.cpu c).due = true ∧ s.packet ≠ none) ∧
    ∀ c src copy, (s.cpu c).handler = .copied src copy → s.packet = some (src,copy) := by
  have h : s.Inv pf := exec_invariant (State.Inv pf) (fun _ _ _ h => h.step) (.init p₀) hrun
  refine ⟨h.mail.count,fun c hc => ?_,fun c src copy hc => h.copied hc⟩
  have hdue : s.mail.due c = true := by
    rcases hc with hipi | hentered
    · exact (h.mail.ipi hipi).1
    · exact h.mail.owes (by simp [State.mail,hentered,Handler.hand,Hand.owes])
  refine ⟨hdue,fun hnone => ?_⟩
  rw [h.mail.free (by simp [hnone]) c] at hdue
  cases hdue

def sent : List (Event Bool Unit Unit Unit) :=
  .shootdown false () none true :: advances false 3 ++ .shootnow false :: advances false 5

theorem mailbox_kept_sent : ∃ s, exec (step twoCpus) (State.init fun _ => ()) sent = some s ∧
    (s.cpu true).due = true ∧ s.packet ≠ none := by
  obtain ⟨s,hrun,hipi⟩ : ∃ s, exec (step twoCpus) (State.init fun _ => ()) sent = some s ∧
    (s.cpu true).ipi = true := by decide +kernel
  exact ⟨s,hrun,(mailbox_kept hrun).2.1 true (.inl hipi)⟩

end NanoBSD.Tlb
