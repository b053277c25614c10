import NanoBSD.Tlb.Flight

/-! # Shootdowns on the side of the sender

The steps of `pmap_tlb_shootdown` and `pmap_tlb_shootnow` keep what is known of the packets on
their way: a target leaves the CPU set when it is marked, and the others get the packet.
-/
namespace NanoBSD.Tlb
open Function
variable {κ π μ ν : Type} [DecidableEq κ] [DecidableEq ν] {pf : Platform κ π μ ν}

namespace State.Inv
variable {s : State κ π μ ν} {c : κ}

section Stage

variable [DecidableEq μ] {m : μ}

theorem restage (h : s.Inv pf) {g : Stage κ} (hqueued : ∀ i, g ≠ .queued i)
    (hretired : g ≠ .retired) (hcleared : ∀ i, g = .cleared i → (s.cpu i).pc = .run) :
    (s.setStage m g).Inv pf := by
  have hother {n : μ} {g' : Stage κ} (hn : update s.stage m g n = g') :
      s.stage n = g' ∨ g = g' := by
    by_cases hnm : n = m
    · subst hnm
      exact .inr (by simpa using hn)
    · exact .inl (by simpa [hnm] using hn)
  refine h.relabel (fun hn => .inl ?_) (fun hn => .inl ?_) fun hn => ?_
  · exact (hother hn).resolve_right (hqueued _)
  · exact (hother hn).resolve_right hretired
  · exact (hother hn).imp_right (hcleared _)

theorem fill (h : s.Inv pf) (hlive : s.stage m = .live) (hm : pf.pmapOf m = (s.cpu c).cr3) :
    (s.set c { s.cpu c with tlb := update (s.cpu c).tlb m true }).Inv pf := by
  refine h.quiet (fun d n hn => ?_) ⟨(h.ok c).fill hm,h.tidy c,.inl rfl,fun _ => ⟨rfl,rfl⟩⟩ rfl rfl
    rfl (.inl rfl) rfl rfl
  refine forall_set (P := fun d y => y.tlb n = true →
    (s.cpu d).tlb n = true ∧ ((s.cpu d).Drops pf n → y.Drops pf n)) ?_ (fun _ hd => ⟨hd,id⟩) d
  have hnm : n ≠ m := fun hnm => hn (hnm ▸ hlive)
  exact fun hd => ⟨by simpa [hnm] using hd,id⟩

end Stage

theorem shootdown (h : s.Inv pf) (p : π) (va : Option ν) (noskip : Bool)
    (hpc : (s.cpu c).pc = .run) :
    (s.set c ({ s.cpu c with tp := { (s.cpu c).tp.add va with noskip := noskip } }.goto
      (.merge p va pf.cpus))).Inv pf := by
  refine h.own ((h.ok c).shift rfl (.inr ⟨by rw [hpc]; rfl,rfl⟩)) trivial rfl (by rw [hpc]; rfl) rfl
    (fun _ _ => .inl) (fun _ => Packet.covers_add) fun m p' va' rest hm hshot => ?_
  rw [cpu_set_self] at hm ⊢
  obtain ⟨rfl,rfl,rfl⟩ : p = p' ∧ va = va' ∧ pf.cpus = rest := by simpa [Cpu.goto] using hm
  exact ⟨Packet.covers_add_self hshot.2.2,fun d hd => absurd (pf.complete d) hd⟩

variable {rest : List κ} {p : π} {va : Option ν} {d : κ} {n : ℕ}

theorem merge (h : s.Inv pf) {set : κ → Bool} (hpc : (s.cpu c).pc = .merge p va (d :: rest))
    (hset : set = update (s.cpu c).cpuset d
      ((s.cpu c).cpuset d || (s.cpu d).inCpus p)) :
    (s.set c ({ s.cpu c with cpuset := set }.goto (.merge p va rest))).Inv pf := by
  have hok := (h.ok c).shift (y := { s.cpu c with cpuset := set }.goto (.merge p va rest)) rfl
    (.inr ⟨by rw [hpc]; rfl,rfl⟩)
  have hmono (e : κ) (he : (s.cpu c).cpuset e = true) : set e = true := by
    rw [hset]
    by_cases hed : e = d
    · subst hed
      simp [he]
    · simpa [hed] using he
  refine h.own hok trivial rfl (by rw [hpc]; rfl) rfl (fun e _ he => .inl (hmono e he))
    (fun _ => id) fun m p' va' rest' hm hshot => ?_
  rw [cpu_set_self] at hm ⊢
  obtain ⟨rfl,rfl,rfl⟩ : p = p' ∧ va = va' ∧ rest = rest' := by simpa [Cpu.goto] using hm
  obtain ⟨hcov,hmerged⟩ := h.safe.merging c m p va (d :: rest) hpc hshot
  refine ⟨hcov,fun e he hm => ?_⟩
  have hlive : s.stage m ≠ .live := by
    rw [show s.stage m = .cleared c from hshot.1]
    simp
  obtain ⟨hold,hdrop⟩ := keeps_set hok.2 e m hlive hm
  by_cases hed : e = d
  · subst hed
    by_cases hin : (s.cpu e).inCpus p = true
    · exact .inl (by simp [Cpu.goto,hset,hin])
    · -- the CPU has the page tables without being in `pm_cpus`
      refine .inr (hdrop (.inr (.inr (.inl ?_))))
      rw [← (h.ok e).tlb hold,hshot.2.1]
      simpa using hin
  · exact (hmerged e (by simp [hed,he]) hold).imp (hmono e) hdrop

theorem enqueue [DecidableEq π] (h : s.Inv pf) (hpc : (s.cpu c).pc = .merge p va []) :
    ((s.enqueued pf c p va).set c ((s.cpu c).goto .run)).Inv pf := by
  have hok := (h.ok c).shift (y := (s.cpu c).goto .run) rfl (.inr ⟨by rw [hpc]; rfl,rfl⟩)
  have hrun : (s.set c ((s.cpu c).goto .run)).Inv pf := by
    refine h.own hok trivial rfl (by rw [hpc]; rfl) rfl (fun _ _ => .inl) (fun _ => id)
      fun m p' va' rest hm => ?_
    simp [Cpu.goto] at hm
  -- the packet has the translations now, and the CPU set everybody who has them
  refine hrun.relabel (fun {m i} hq => ?_) (fun {m} hr => .inl ?_) fun {m i} hc => .inl ?_
  · simp only [enqueued] at hq
    split_ifs at hq with hshot
    · cases hq
      obtain ⟨hcov,hmerged⟩ := h.safe.merging c m p va [] hpc hshot
      refine .inr ⟨?_,fun d hd => ?_⟩
      · rw [cpu_set_self]
        exact hcov
      · have hlive : s.stage m ≠ .live := by
          rw [show s.stage m = .cleared c from hshot.1]
          simp
        obtain ⟨hold,hdrop⟩ := keeps_set hok.2 d m hlive hd
        refine (hmerged d List.not_mem_nil hold).imp (fun hset => ?_) hdrop
        simpa [Owed,Cpu.goto,Pc.flight] using hset
    · exact .inl hq
  · simp only [enqueued] at hr
    split_ifs at hr
    exact hr
  · simp only [enqueued] at hc
    split_ifs at hc
    exact hc

variable {here : Bool}

theorem skipped (h : s.Inv pf) (rest : List κ) (hpc : (s.cpu c).pc.aside = true)
    (hplain : (s.cpu c).pc.plain = true) (haims : (s.cpu c).Aims c here n) (hd : d ≠ c)
    (hin : (s.cpu c).cpuset d = true)
    (hflush : (s.cpu d).tlbstate = .flush) : (s.skipped c d here n rest).Inv pf := by
  have htargets : Cpu.targets c ({ s.cpu c with
      cpuset := update (s.cpu c).cpuset d false }.goto (.skip here (n - 1) rest)) =
      update ((s.cpu c).targets c) d false := by
    funext e
    by_cases he : e = d
    · subst he
      simp [Cpu.targets,Cpu.goto]
    · simp [Cpu.targets,Cpu.goto,he]
  refine h.own ((h.ok c).shift rfl (.inr ⟨hplain,rfl⟩)) ⟨?_,?_⟩ rfl (Pc.copy_of_aside hpc) rfl
    (fun e m he => ?_) (fun _ => id) fun m p va rest hm => ?_
  · simpa [Cpu.goto,hd.symm] using haims.1
  · rw [htargets]
    exact haims.2.quit (by simp) (by simp [Cpu.targets,hd,hin])
  · by_cases hed : e = d
    · subst hed
      rw [cpu_set_of_ne hd]
      exact .inr (.inr (.inl hflush))
    · exact .inl (by simpa [Cpu.goto,hed] using he)
  · simp [Cpu.goto] at hm

theorem finishLocal (h : s.Inv pf) (hpc : (s.cpu c).pc = .decide here 0) :
    ((s.retire c).set c ({ (s.cpu c).invalidate pf (s.cpu c).tp with
      cpuset := fun _ => false, tp := .clear }.goto .run)).Inv pf := by
  have hcopy : (s.cpu c).pc.copy = none := by rw [hpc]; rfl
  have haims : (s.cpu c).Aims c here 0 := by simpa [Cpu.Tidy,hpc] using h.tidy c
  obtain ⟨hok,hkeeps⟩ := (h.ok c).invalidate (s.cpu c).tp
  have hok' := hok.shift (y := { (s.cpu c).invalidate pf (s.cpu c).tp with
    cpuset := fun _ => false, tp := .clear }.goto .run) rfl
    (.inr ⟨by simp [Cpu.invalidate,hpc,Pc.plain],rfl⟩)
  have hkeeps' := hkeeps.trans hok'.2
  refine h.conclude ⟨hok'.1,hkeeps'⟩ rfl rfl rfl ?_ (fun ts hp => ?_) fun {m d} hq hm => ?_
  · exact h.mail_keep rfl rfl rfl rfl (Cpu.out_eq_none hcopy).symm
  · simp [h.content hp] at hcopy
  · obtain ⟨hold,hdrop⟩ := keeps_set hkeeps' d m (by simp [hq]) hm
    refine hdrop ((h.safe.queued hq hold).resolve_left fun howed => ?_)
    by_cases hd : d = c
    · subst hd
      have hcov := h.safe.covered hq
      simp_all [Cpu.covers,Cpu.invalidate,Cpu.goto,Pc.flight]
    · have hin : (s.cpu c).cpuset d = true := by
        simpa [Owed,Cpu.invalidate,hpc,Pc.flight] using howed
      exact haims.2.not_zero (x := d) (by simp [Cpu.targets,hd,hin]) rfl

variable {ts : Packet ν}

variable (h : s.Inv pf)
include h

theorem acquire (hpc : (s.cpu c).pc = .acquire here n ts) (hnone : s.packet = none) :
    (State.set { s with packet := some (c,ts) } c
      ({ s.cpu c with done := false }.goto (.post here n ts))).Inv pf := by
  have hcopy : (s.cpu c).pc.copy = none := by rw [hpc]; rfl
  have htidy : (s.cpu c).Aims c here n ∧ ts = (s.cpu c).tp := by
    simpa [Cpu.Tidy,hpc] using h.tidy c
  obtain ⟨hok,hkeeps⟩ := (h.ok c).shift
    (y := { s.cpu c with done := false }.goto (.post here n ts)) rfl
    (.inr ⟨by rw [hpc]; rfl,rfl⟩)
  have hsrc : s.mail.src = none := by simp [State.mail,hnone]
  refine h.turn (keeps_set hkeeps) ⟨hok,htidy,.inr ⟨?_,?_⟩,fun _ => ⟨rfl,rfl⟩⟩ ?_ ?_ ?_ ?_
  · exact (Pc.flight_eq_none hcopy).symm
  · exact fun _ _ _ hm => by cases hm
  · have hmail := h.mail.acquire (i := c) (Cpu.out_eq_none hcopy) hsrc
    rw [mail_set]
    simpa [Cpu.goto,Cpu.out] using hmail
  · rintro i ts' ⟨⟩
    rw [cpu_set_self]
    rfl
  · intro d src copy hc
    have hp := h.copied_keep hc rfl
    simp [hnone] at hp
  · intro i d m _ hi
    simp [hnone] at hi

theorem post {t : State κ π μ ν} (hpc : (s.cpu c).pc = .post here n ts)
    (ht : t = { s with
      pendcount := n, cpu := fun d => { s.cpu d with due := (s.cpu c).targets c d } }) :
    (t.set c ((t.cpu c).goto (.send here ts pf.cpus))).Inv pf := by
  have htidy : (s.cpu c).Aims c here n ∧ ts = (s.cpu c).tp := by
    simpa [Cpu.Tidy,hpc] using h.tidy c
  have hflight : (s.cpu c).pc.flight = none := by rw [hpc]; rfl
  have hsrc : s.mail.src = some c := h.mail.post (by simp [State.mail,Cpu.out,hpc])
  have hcpu (i : κ) : t.cpu i = { s.cpu i with due := (s.cpu c).targets c i } := by rw [ht]
  have hall : ∀ i, ((t.set c ((t.cpu c).goto (.send here ts pf.cpus))).cpu i).Ok pf ∧
      (s.cpu i).Keeps pf ((t.set c ((t.cpu c).goto (.send here ts pf.cpus))).cpu i) := by
    refine forall_set (P := fun i y => y.Ok pf ∧ (s.cpu i).Keeps pf y) ?_ fun i => ?_
    · rw [hcpu c]
      exact (h.ok c).shift rfl (.inr ⟨by rw [hpc]; rfl,rfl⟩)
    · rw [hcpu i]
      exact (h.ok i).shift rfl (.inl rfl)
  have hkeep : s.Keeps pf (t.set c ((t.cpu c).goto (.send here ts pf.cpus))) :=
    fun i m _ => (hall i).2 m
  refine { ok := fun i => (hall i).1
           tidy := forall_set (P := fun d y => y.Tidy d) trivial fun i => hcpu i ▸ h.tidy i
           mail := ?_
           content := fun {i ts'} hp => ?_
           copied := fun {d src copy} => ?_
           safe := h.safe.frame (by rw [ht]; rfl) hkeep (fun {i d m} hq hm howed => .inl ?_) (fun {i m} _ => ?_)
            fun i m => ?_ }
  · have hmail := h.mail.posts (i := c) (n := n) (l := pf.cpus.filter ((s.cpu c).targets c))
      (by simp [State.mail,Cpu.out,hpc]) htidy.1.2 (pf.nodup.filter _) (by simp)
    rw [mail_set_out,ht]
    exact hmail
  · have hp : s.packet = some (i,ts') := by rw [← hp,ht]; rfl
    have hi : c = i := by simpa [hp] using hsrc.symm
    subst hi
    rw [cpu_set_self,← h.content hp,hpc]
    rfl
  · rw [show (t.set c ((t.cpu c).goto (.send here ts pf.cpus))).packet = s.packet by rw [ht]; rfl]
    refine forall_set (P := fun _ y => y.handler = .copied src copy → s.packet = some (src,copy))
      ?_ (fun i => ?_) d
    · rw [hcpu c]
      exact h.copied
    · rw [hcpu i]
      exact h.copied
  · by_cases hi : i = c
    · subst hi
      have hin : (s.cpu i).cpuset d = true := by simpa [Owed,hflight] using howed
      simp only [Owed,cpu_set_self,Cpu.goto,Pc.flight]
      by_cases hd : d = i
      · exact .inr ⟨hd,htidy.1.1.trans (hd ▸ hin)⟩
      · refine .inl ⟨?_,?_⟩
        · rw [← hsrc,ht]
          rfl
        · rw [cpu_set_of_ne hd,hcpu d]
          simp [Cpu.targets,hd,hin]
    · refine howed.mono ?_ ?_ fun hother => ?_
      · rw [cpu_set_of_ne hi,hcpu i]
      · rw [cpu_set_of_ne hi,hcpu i]
        exact id
      · exact absurd (Option.some.inj (hother.symm.trans hsrc)) hi
  · refine forall_set (P := fun i y => (s.cpu i).covers (pf.vaOf m) = true →
      y.covers (pf.vaOf m) = true) ?_ (fun i => ?_) i
    · simp [Cpu.covers,Cpu.goto,hpc,Pc.flight,htidy.2]
    · rw [hcpu i]
      exact id
  · by_cases hi : i = c
    · subst hi
      intro p va rest hm
      simp [Cpu.goto] at hm
    · refine (h.safe.merging i m).keep (by rw [ht]; rfl) hkeep fun hm => ?_
      rw [cpu_set_of_ne hi,hcpu i] at hm ⊢
      exact ⟨hm,rfl,rfl⟩

theorem still_send (hpc : (s.cpu c).pc = .send here ts (d :: rest)) :
    (s.cpu c).Still pf c ((s.cpu c).goto (.send here ts rest)) := by
  obtain ⟨hok,hkeeps⟩ := (h.ok c).shift (y := (s.cpu c).goto (.send here ts rest)) rfl
    (.inr ⟨by rw [hpc]; rfl,rfl⟩)
  refine ⟨⟨hok,trivial,.inr ⟨?_,?_⟩,fun _ => ⟨rfl,rfl⟩⟩,hkeeps,?_,rfl,fun _ _ => id⟩
  · rw [hpc]
    rfl
  · exact nofun
  · rw [hpc]
    rfl

theorem pass (hpc : (s.cpu c).pc = .send here ts (d :: rest)) (hd : (s.cpu c).targets c d = false) :
    (s.set c ((s.cpu c).goto (.send here ts rest))).Inv pf := by
  refine h.still rfl rfl (forall_set (P := fun i y => (s.cpu i).Still pf i y) (h.still_send hpc)
    fun i => .refl (h.ok i) (h.tidy i)) (h.mail_keep rfl rfl rfl rfl ?_)
  simp only [Cpu.out,Cpu.goto,hpc,List.filter_cons_of_neg (Bool.not_eq_true _ ▸ hd)]
  rfl

theorem interrupt (hpc : (s.cpu c).pc = .send here ts (d :: rest))
    (hd : (s.cpu c).targets c d = true) :
    ((s.set d { s.cpu d with ipi := true }).set c
      ((s.cpu c).goto (.send here ts rest))).Inv pf := by
  have hdc : c ≠ d := by
    rintro rfl
    simp [Cpu.targets] at hd
  obtain ⟨hcalm,hkeeps⟩ := Cpu.Calm.of_handler (y := { s.cpu d with ipi := true }) (h.ok d)
    (h.tidy d) rfl (.inl rfl)
  refine h.still rfl rfl (forall_set (P := fun i y => (s.cpu i).Still pf i y) (h.still_send hpc)
    (forall_set (P := fun i y => (s.cpu i).Still pf i y) ?_ fun i => .refl (h.ok i) (h.tidy i))) ?_
  · exact ⟨hcalm,hkeeps,rfl,rfl,fun _ _ => id⟩
  · have hmail := h.mail.pass (i := c) (d := d) (l := rest.filter ((s.cpu c).targets c))
      (by simp [State.mail,Cpu.out,hpc,hd])
    rw [← cpu_set_of_ne (s := s) (x := { s.cpu d with ipi := true }) hdc,mail_set_out,mail_set_ipi,
      cpu_set_of_ne hdc]
    exact hmail

theorem sent (hpc : (s.cpu c).pc = .send here ts []) :
    (s.set c ({ s.cpu c with cpuset := fun _ => false, tp := .clear }.goto
      (.invalidate here ts))).Inv pf := by
  obtain ⟨hok,hkeeps⟩ := (h.ok c).shift
    (y := { s.cpu c with cpuset := fun _ => false, tp := .clear }.goto
      (.invalidate here ts)) rfl (.inr ⟨by rw [hpc]; rfl,rfl⟩)
  refine h.turn (keeps_set hkeeps) ⟨hok,trivial,.inr ⟨?_,?_⟩,fun hf => ?_⟩ ?_ ?_ ?_ ?_
  · rw [hpc]
    rfl
  · exact nofun
  · simp [hpc,Pc.flight] at hf
  · have hmail := h.mail.sent (i := c) (by simp [State.mail,Cpu.out,hpc])
    rw [mail_set]
    simpa [Cpu.goto,Cpu.out] using hmail
  · exact fun hp => h.content_keep hp (by rw [hpc]; rfl)
  · exact fun hc => h.copied_keep hc rfl
  · exact fun _ hi hd => .inl ⟨hi,due_set hd rfl⟩

theorem invalidate (hpc : (s.cpu c).pc = .invalidate here ts) :
    (s.set c ((if here then (s.cpu c).invalidate pf ts else s.cpu c).goto (.wait ts))).Inv pf := by
  obtain ⟨y,hy⟩ : ∃ y, y = if here then (s.cpu c).invalidate pf ts else s.cpu c := ⟨_,rfl⟩
  have hsame : y = { s.cpu c with tlb := y.tlb } := by
    rw [hy]
    split_ifs <;> rfl
  have hy' : y.Ok pf ∧ (s.cpu c).Keeps pf y := by
    rw [hy]
    split_ifs
    · exact (h.ok c).invalidate ts
    · exact ⟨h.ok c,.refl _⟩
  have hplain : y.pc.plain = true := by rw [hsame,hpc]; rfl
  obtain ⟨hok,hkeeps⟩ := hy'.1.shift (y := y.goto (.wait ts)) rfl (.inr ⟨hplain,rfl⟩)
  have hkeep := keeps_set (hy'.2.trans hkeeps)
  have hcopy : (y.goto (.wait ts)).pc.copy = (s.cpu c).pc.copy := by rw [hpc]; rfl
  have hdue : (y.goto (.wait ts)).due = (s.cpu c).due := by rw [hsame]; rfl
  rw [← hy]
  refine { ok := forall_set (P := fun _ y => y.Ok pf) hok h.ok
           tidy := forall_set (P := fun d y => y.Tidy d) trivial h.tidy
           mail := h.mail_keep (by rw [hsame]; rfl) hdue (by rw [hsame]; rfl) (by rw [hsame]; rfl) ?_
           content := fun hp => h.content_keep hp hcopy
           copied := fun hd => h.copied_keep hd (by rw [hsame]; rfl)
           safe := h.safe.frame rfl hkeep (fun {i d m} hq hm howed => .inl ?_) (fun {i m} _ => ?_)
            (h.safe.merging_set rfl hkeep (fun _ => cpu_set_of_ne) fun m p va rest hm => ?_) }
  · simp [Cpu.out,Cpu.goto,hpc]
  · by_cases hi : i = c
    · subst hi
      simp only [Owed,hpc,Pc.flight,cpu_set_self,Cpu.goto] at howed ⊢
      rcases howed with ⟨hsrc,hd⟩ | ⟨rfl,hhere⟩
      · exact .inl ⟨hsrc,due_set hd hdue⟩
      · -- the CPU has just dropped the translation
        have hcov : ts.covers (pf.vaOf m) = true := by
          simpa [Cpu.covers,hpc,Pc.flight] using h.safe.covered hq
        have hm : y.tlb m = true := by simpa [Cpu.goto] using hm
        rw [hy,if_pos hhere] at hm
        simp [Cpu.invalidate,hcov] at hm
    · refine howed.mono ?_ ?_ fun hsrc hd => ⟨hsrc,due_set hd hdue⟩
      · rw [cpu_set_of_ne hi]
      · rw [cpu_set_of_ne hi]
        exact id
  · refine forall_set (P := fun i y => (s.cpu i).covers (pf.vaOf m) = true →
      y.covers (pf.vaOf m) = true) ?_ (fun _ => id) i
    simp [Cpu.covers,Cpu.goto,hpc,Pc.flight]
  · simp [Cpu.goto] at hm

theorem finish (hpc : (s.cpu c).pc = .wait ts) (hdone : (s.cpu c).done = true) :
    ((s.retire c).set c ((s.cpu c).goto .run)).Inv pf := by
  have hok := (h.ok c).shift (y := (s.cpu c).goto .run) rfl (.inr ⟨by rw [hpc]; rfl,rfl⟩)
  have hsrc : s.mail.src ≠ some c := fun hc => by simpa [State.mail,hdone] using (h.mail.posted hc).1
  refine h.conclude hok rfl rfl rfl ?_ (fun ts' hp => ?_) fun {m d} hq hm => ?_
  · have hmail := h.mail.finish (i := c) hdone
    rw [mail_set]
    simpa [Cpu.goto,Cpu.out] using hmail
  · simp [hp] at hsrc
  · obtain ⟨hold,hdrop⟩ := keeps_set hok.2 d m (by simp [hq]) hm
    refine hdrop ((h.safe.queued hq hold).resolve_left fun howed => ?_)
    simp only [Owed,hpc,Pc.flight] at howed
    rcases howed with ⟨hc,-⟩ | ⟨-,hfalse⟩
    · exact hsrc hc
    · cases hfalse

end State.Inv

omit [DecidableEq ν] in
theorem Cpu.aims_count (pf : Platform κ π μ ν) (c : κ) (x : Cpu κ π μ ν) :
    x.Aims c (x.cpuset c) (pf.cpus.countP x.cpuset - (x.cpuset c).toNat) := by
  have htargets : x.targets c = update x.cpuset c false := by
    funext d
    by_cases hd : d = c
    · subst hd
      simp [targets]
    · simp [targets,hd]
  have hcount : Tally x.cpuset (· = true) (pf.cpus.countP x.cpuset) := by
    simpa using Tally.of_list (f := x.cpuset) (Q := (· = true)) pf.nodup pf.complete
  refine ⟨rfl,?_⟩
  rw [htargets]
  cases hc : x.cpuset c with
  | true => exact hcount.quit (by simp) hc
  | false => exact hcount.keep (by simp [hc])

end NanoBSD.Tlb
