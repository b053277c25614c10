import Mathlib.Data.List.Nodup

/-! # Families of intrusive queues

An element carries its own links, so it is on at most one queue of the family and it is
taken off without naming the queue. `Placed q P` says that exactly the elements with the
property `P` are linked, each once.
-/
namespace NanoBSD
open Function List
variable {κ ι : Type} [DecidableEq κ] [DecidableEq ι]

abbrev Queues (κ ι : Type) : Type := κ → List ι

namespace Queues

def insert (q : Queues κ ι) (c : ι) (k : κ) : Queues κ ι := update q k (q k ++ [c])
def remove (q : Queues κ ι) (c : ι) : Queues κ ι := fun k => (q k).erase c

def append (q : Queues κ ι) (dst src : κ) : Queues κ ι :=
  update (update q dst (q dst ++ q src)) src []

/-- The elements with the property `P` are linked, each once, and no others. -/
structure Placed (q : Queues κ ι) (P : ι → Prop) : Prop where
  nodup : ∀ k, (q k).Nodup
  unique : ∀ {c k l}, c ∈ q k → c ∈ q l → k = l
  mem_iff : ∀ c, (∃ k, c ∈ q k) ↔ P c

variable {q : Queues κ ι} {P : ι → Prop} {c d : ι} {k l dst src : κ}

omit [DecidableEq ι] in
theorem mem_insert : d ∈ q.insert c k l ↔ d ∈ q l ∨ (l = k ∧ d = c) := by
  unfold insert
  by_cases h : l = k
  · subst h
    simp
  · simp [h]

omit [DecidableEq κ] in
theorem Placed.mem_remove (h : q.Placed P) : d ∈ q.remove c l ↔ d ≠ c ∧ d ∈ q l :=
  (h.nodup l).mem_erase_iff

omit [DecidableEq ι] in
theorem mem_append (hne : dst ≠ src) :
    d ∈ q.append dst src l ↔ (l ≠ src ∧ d ∈ q l) ∨ (l = dst ∧ d ∈ q src) := by
  unfold append
  by_cases hsrc : l = src
  · subst hsrc
    simp [hne.symm]
  · by_cases hdst : l = dst
    · subst hdst
      simp [hsrc]
    · simp [hsrc,hdst]

omit [DecidableEq ι] in
theorem append_of_nil (h : q src = []) : q.append dst src = q := by
  unfold append
  rw [h,append_nil,update_eq_self,← h,update_eq_self]

section

omit [DecidableEq κ] [DecidableEq ι]

theorem Placed.congr {P' : ι → Prop} (h : q.Placed P) (hP : ∀ c, P c ↔ P' c) : q.Placed P' :=
  ⟨h.nodup,h.unique,fun c => (h.mem_iff c).trans (hP c)⟩

theorem placed_of_nil (hq : ∀ k, q k = []) (hP : ∀ c, ¬P c) : q.Placed P :=
  ⟨fun k => hq k ▸ nodup_nil,by simp [hq],by simp [hq,hP]⟩

end

section

omit [DecidableEq ι]

theorem Placed.enter (h : q.Placed P) (hc : ¬P c) {b : List ι} (hb : b.Perm (c :: q k)) :
    Placed (update q k b) fun d => P d ∨ d = c := by
  have hout (l : κ) : c ∉ q l := fun hl => hc ((h.mem_iff c).mp ⟨l,hl⟩)
  have hmem {d : ι} {l : κ} : d ∈ update q k b l ↔ d ∈ q l ∨ (l = k ∧ d = c) := by
    by_cases hl : l = k
    · subst hl
      simp [hb.mem_iff,or_comm]
    · simp [hl]
  constructor
  · intro l
    by_cases hl : l = k
    · subst hl
      rw [update_self]
      exact hb.nodup_iff.mpr (nodup_cons.mpr ⟨hout l,h.nodup l⟩)
    · simpa [hl] using h.nodup l
  · intro d l l' hl hl'
    rw [hmem] at hl hl'
    rcases hl with hl | ⟨rfl,rfl⟩ <;> rcases hl' with hl' | ⟨hk,hd⟩
    · exact h.unique hl hl'
    · exact absurd (hd ▸ hl) (hout l)
    · exact absurd hl' (hout l')
    · exact hk.symm
  · intro d
    simp only [hmem,← h.mem_iff d]
    constructor
    · rintro ⟨l,hl | ⟨-,hd⟩⟩
      · exact .inl ⟨l,hl⟩
      · exact .inr hd
    · rintro (⟨l,hl⟩ | hd)
      · exact ⟨l,.inl hl⟩
      · exact ⟨k,.inr ⟨rfl,hd⟩⟩

theorem Placed.leave (h : q.Placed P) {a : List ι} (ha : (q k).Perm (c :: a)) :
    Placed (update q k a) fun d => P d ∧ d ≠ c := by
  have hnodup := nodup_cons.mp (ha.nodup_iff.mp (h.nodup k))
  have hck : c ∈ q k := ha.mem_iff.mpr mem_cons_self
  have hmem {d : ι} {l : κ} : d ∈ update q k a l ↔ d ∈ q l ∧ d ≠ c := by
    by_cases hl : l = k
    · subst hl
      rw [update_self,ha.mem_iff,mem_cons]
      constructor
      · exact fun hd => ⟨.inr hd,ne_of_mem_of_not_mem hd hnodup.1⟩
      · rintro ⟨rfl | hd,hne⟩
        · exact absurd rfl hne
        · exact hd
    · rw [update_of_ne hl]
      exact ⟨fun hd => ⟨hd,fun hdc => hl (h.unique (hdc ▸ hd) hck)⟩,And.left⟩
  constructor
  · intro l
    by_cases hl : l = k
    · subst hl
      rw [update_self]
      exact hnodup.2
    · simpa [hl] using h.nodup l
  · intro d l l' hl hl'
    exact h.unique (hmem.mp hl).1 (hmem.mp hl').1
  · intro d
    simp only [hmem,← h.mem_iff d]
    constructor
    · rintro ⟨l,hl,hne⟩
      exact ⟨⟨l,hl⟩,hne⟩
    · rintro ⟨⟨l,hl⟩,hne⟩
      exact ⟨l,hl,hne⟩

theorem Placed.transfer (h : q.Placed P) {a b : List ι} (hne : k ≠ l)
    (ha : (q k).Perm (c :: a)) (hb : b.Perm (c :: q l)) : Placed (update (update q k a) l b) P := by
  have hPc : P c := (h.mem_iff c).mp ⟨k,ha.mem_iff.mpr mem_cons_self⟩
  have hout : ¬(P c ∧ c ≠ c) := fun hc => hc.2 rfl
  refine ((h.leave ha).enter hout (k := l) (b := b) ?_).congr fun d => ?_
  · rwa [update_of_ne hne.symm]
  · constructor
    · rintro (hd | rfl)
      · exact hd.1
      · exact hPc
    · intro hd
      by_cases hdc : d = c
      · exact .inr hdc
      · exact .inl ⟨hd,hdc⟩

theorem Placed.insert (h : q.Placed P) (hc : ¬P c) (k : κ) :
    (q.insert c k).Placed fun d => P d ∨ d = c :=
  h.enter hc (perm_append_singleton c (q k))

end

omit [DecidableEq κ] in
theorem Placed.remove (h : q.Placed P) (c : ι) : (q.remove c).Placed fun d => P d ∧ d ≠ c := by
  constructor
  · intro l
    exact (h.nodup l).erase c
  · intro d l l' hl hl'
    exact h.unique (h.mem_remove.mp hl).2 (h.mem_remove.mp hl').2
  · intro d
    simp only [h.mem_remove,← h.mem_iff d]
    constructor
    · rintro ⟨l,hne,hl⟩
      exact ⟨⟨l,hl⟩,hne⟩
    · rintro ⟨⟨l,hl⟩,hne⟩
      exact ⟨l,hne,hl⟩

theorem Placed.move (h : q.Placed P) (hc : P c) (k : κ) : ((q.remove c).insert c k).Placed P := by
  apply ((h.remove c).insert (fun hr => hr.2 rfl) k).congr
  intro d
  constructor
  · rintro (hd | rfl)
    · exact hd.1
    · exact hc
  · intro hd
    by_cases hdc : d = c
    · exact .inr hdc
    · exact .inl ⟨hd,hdc⟩

omit [DecidableEq ι] in
theorem Placed.append (h : q.Placed P) (hne : dst ≠ src) : (q.append dst src).Placed P := by
  constructor
  · intro l
    by_cases hsrc : l = src
    · simp [Queues.append,hsrc]
    · by_cases hdst : l = dst
      · subst hdst
        simp only [Queues.append,update_of_ne hsrc,update_self]
        rw [nodup_append]
        exact ⟨h.nodup l,h.nodup src,fun a ha b hb hab => hne (h.unique ha (hab ▸ hb))⟩
      · simpa [Queues.append,hsrc,hdst] using h.nodup l
  · intro d l l' hl hl'
    rw [mem_append hne] at hl hl'
    rcases hl with ⟨hs,hl⟩ | ⟨rfl,hl⟩ <;> rcases hl' with ⟨hs',hl'⟩ | ⟨hd,hl'⟩
    · exact h.unique hl hl'
    · exact absurd (h.unique hl hl') hs
    · exact absurd (h.unique hl' hl) hs'
    · exact hd.symm
  · intro d
    rw [← h.mem_iff d]
    constructor
    · rintro ⟨l,hl⟩
      rcases (mem_append hne).mp hl with hl | hl
      · exact ⟨l,hl.2⟩
      · exact ⟨src,hl.2⟩
    · rintro ⟨l,hl⟩
      by_cases hs : l = src
      · exact ⟨dst,(mem_append hne).mpr (.inr ⟨rfl,hs ▸ hl⟩)⟩
      · exact ⟨l,(mem_append hne).mpr (.inl ⟨hs,hl⟩)⟩

omit [DecidableEq ι] in
theorem flatMap_perm_cons {ks : List κ} (hn : ks.Nodup) (hk : k ∈ ks) {q' : Queues κ ι}
    (hq : (q' k).Perm (c :: q k)) (hne : ∀ l, l ≠ k → q' l = q l) :
    (ks.flatMap q').Perm (c :: ks.flatMap q) := by
  have hrest : (ks.erase k).flatMap q' = (ks.erase k).flatMap q :=
    flatMap_congr fun l hl => hne l (hn.mem_erase_iff.mp hl).1
  have hsplit (r : Queues κ ι) : (ks.flatMap r).Perm (r k ++ (ks.erase k).flatMap r) :=
    (perm_cons_erase hk).flatMap_right r
  apply (hsplit q').trans
  rw [hrest]
  exact (hq.append_right _).trans ((hsplit q).symm.cons c)

end Queues

section Order
variable {l r : List ι} {c d : ι} {n : ℕ}

def Ahead (n : ℕ) (c : ι) (l : List ι) : Prop := ∃ pre post, l = pre ++ c :: post ∧ pre.length ≤ n

theorem ahead_idxOf (h : c ∈ l) : Ahead (l.idxOf c) c l := by
  obtain ⟨pre,post,rfl,hc⟩ := eq_append_cons_of_mem h
  refine ⟨pre,post,rfl,?_⟩
  rw [idxOf_append_of_notMem hc,idxOf_cons_self]
  exact Nat.le_refl _

omit [DecidableEq ι] in
theorem Ahead.append (h : Ahead n c l) (r : List ι) : Ahead n c (l ++ r) := by
  obtain ⟨pre,post,rfl,hle⟩ := h
  exact ⟨pre,post ++ r,by simp,hle⟩

theorem Ahead.erase (h : Ahead n c l) (hd : d ≠ c) : Ahead n c (l.erase d) := by
  obtain ⟨pre,post,rfl,hle⟩ := h
  by_cases hpre : d ∈ pre
  · refine ⟨pre.erase d,post,erase_append_left _ hpre,?_⟩
    exact Nat.le_trans length_erase_le hle
  · refine ⟨pre,post.erase d,?_,hle⟩
    rw [erase_append_right _ hpre,erase_cons_tail (by simpa using hd.symm)]

omit [DecidableEq ι] in
theorem Ahead.cons_cases (h : Ahead n c (d :: l)) : d = c ∨ ∃ m, n = m + 1 ∧ Ahead m c l := by
  obtain ⟨pre,post,heq,hle⟩ := h
  cases pre with
  | nil => exact .inl (List.cons.inj heq).1
  | cons a pre =>
    refine .inr ⟨n - 1,?_,pre,post,(List.cons.inj heq).2,?_⟩
    all_goals
      simp only [length_cons] at hle
      omega

end Order
end NanoBSD
