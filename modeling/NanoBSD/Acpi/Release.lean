import NanoBSD.Acpi.Grow

/-! # Releasing holds

`power_release` is the only routine that takes holds away and the only one that
evaluates `_OFF`. A hold goes only after the resource has confirmed what it should be.
-/
namespace NanoBSD.AcpiPower
open Prog List
variable {H : Type} [DecidableEq H] {d : H} {u : Uses} {p : Holders H}

section Evaluations
variable (A : Aml H)

omit [DecidableEq H] in
theorem powerSta_wp (r : H) (σ : Power H) : (powerSta A r).wp
      (fun sta σ' => sta ≤ 1 ∧ σ' = σ.record (.integer r .STA (.ok sta)))
      (fun _ σ' => ∃ answer, σ' = σ.record (.integer r .STA answer)) σ := by
  unfold powerSta evalInteger
  rw [wp_bind]
  apply ask_wp
  · intro value _
    split
    · exact ⟨_,rfl⟩
    · rename_i hv
      exact ⟨Nat.not_lt.mp hv,rfl⟩
  · intro status _
    exact ⟨_,rfl⟩

def Power.evaluation (σ : Power H) (h : H) (name : Name) (answer : Except Status Unit) : Event H :=
  .method h name answer (σ.holders h).refs σ.discovered

theorem evaluateObject_wp (h : H) (name : Name) (σ : Power H) : (evaluateObject A h name).wp
      (fun _ σ' => σ' = σ.record (σ.evaluation h name (.ok ())))
      (fun status σ' => σ' = σ.record (σ.evaluation h name (.error status))) σ := by
  unfold evaluateObject
  simp only [wp_bind,wp_read]
  apply ask_wp
  · exact fun _ _ => rfl
  · exact fun _ _ => rfl

def Power.noting (new : List (Event H)) (σ : Power H) : Power H :=
  { σ with log := σ.log ++ new }

omit [DecidableEq H] in
theorem Power.record_record (a b : Event H) (σ : Power H) :
    (σ.record a).record b = σ.noting [a,b] := by
  simp [Power.record,Power.noting]

theorem powerMethod_wp (r : H) (on : Bool) (σ : Power H) : (powerMethod A r on).wp
      (fun _ σ' => σ' = (σ.record (σ.evaluation r (if on then .ON else .OFF) (.ok ()))).record
        (.integer r .STA (.ok (if on then 1 else 0))))
      (fun _ σ' => ∃ rv sr, σ' = (σ.record (σ.evaluation r (if on then .ON else .OFF) rv)).record
        (.integer r .STA sr)) σ := by
  unfold powerMethod
  rw [wp_bind,wp_attempt]
  refine wp_mono (evaluateObject_wp A r _ σ) ?_ ?_
  · rintro _ σ₁ rfl
    rw [wp_bind,wp_attempt]
    refine wp_mono (powerSta_wp A r _) ?_ ?_
    · rintro sta σ₂ ⟨_,rfl⟩
      dsimp only
      by_cases hs : sta = if on then 1 else 0
      · rw [if_pos hs,wp_pure,hs]
      · rw [if_neg hs,wp_raise]
        exact ⟨_,_,rfl⟩
    · rintro status σ₂ ⟨answer,rfl⟩
      exact ⟨_,_,rfl⟩
  · rintro status σ₁ rfl
    rw [wp_bind,wp_attempt]
    refine wp_mono (powerSta_wp A r _) ?_ ?_
    · rintro sta σ₂ ⟨_,rfl⟩
      exact ⟨_,_,rfl⟩
    · rintro status σ₂ ⟨answer,rfl⟩
      exact ⟨_,_,rfl⟩

end Evaluations

/-- At an `_OFF` discovery is complete and no other device and no other use of the
releasing device holds the resource. -/
def Event.OffSafe (d : H) (u : Uses) : Event H → Prop
  | .method _ .OFF _ held discovered =>
    discovered = true ∧ ∀ ref ∈ held, ref.device = d ∧ ref.uses.diff u = .none
  | _ => True

/-- What the history shows if a device's uses of a resource are gone: the last holder has switched
it off while holding it, any other has seen it on. -/
def Confirmed (d : H) (u : Uses) (r : H) (new : List (Event H)) (σ' : Power H) : Prop :=
  (∃ held discovered,
    [.method r .OFF (.ok ()) held discovered,.integer r .STA (.ok 0)] <:+: new ∧
    (∃ ref ∈ held, ref.device = d ∧ ref.uses.inter u ≠ .none) ∧ ∀ e, σ'.hold r e = .none) ∨
  (.integer r .STA (.ok 1) ∈ new ∧ ∃ e k, (σ'.hold r e).has k = true ∧ ¬(e = d ∧ u.has k = true))

theorem Confirmed.after {r : H} {new more : List (Event H)} {σ σ' : Power H}
    (hc : Confirmed d u r new σ) (hnone : ∀ e, σ.hold r e = .none → σ'.hold r e = .none)
    (hother : ∀ e k, (σ.hold r e).has k = true → ¬(e = d ∧ u.has k = true) →
      (σ'.hold r e).has k = true) : Confirmed d u r (new ++ more) σ' := by
  rcases hc with ⟨held,b,hin,hmine,hall⟩ | ⟨hin,e,k,hk,hne⟩
  · left
    exact ⟨held,b,hin.trans (prefix_append _ _).isInfix,hmine,fun e => hnone e (hall e)⟩
  · right
    exact ⟨mem_append_left _ hin,e,k,hother e k hk hne,hne⟩

/-- Uses of one device were released on some resources of `T`, each after its
confirmation. -/
structure Sheds (T : H → Prop) (d : H) (u : Uses) (σ σ' : Power H) : Prop where
  keep : ∀ r e k, (σ'.hold r e).has k = true → (σ.hold r e).has k = true
  shed : ∀ r e k, (σ.hold r e).has k = true →
    (σ'.hold r e).has k = true ∨ (T r ∧ e = d ∧ u.has k = true)
  handles : σ'.resources.map Resource.handle = σ.resources.map Resource.handle
  devices : σ'.devices = σ.devices
  discovered : σ'.discovered = σ.discovered
  log : ∃ new, σ'.log = σ.log ++ new ∧ (∀ e ∈ new, e.OffSafe d u ∧ ∃ r, T r ∧ e.Switching .OFF r) ∧
    ∀ r k, (σ.hold r d).has k = true → (σ'.hold r d).has k = false → Confirmed d u r new σ'

namespace Sheds
variable {T : H → Prop} {d : H} {u : Uses} {σ σ' σ'' : Power H} {r : H} {new new' : List (Event H)}

theorem none_stays (h : Sheds T d u σ σ') {e : H} (hn : σ.hold r e = .none) :
    σ'.hold r e = .none := by
  apply Uses.eq_none_iff.mpr
  intro k
  by_contra hk
  have := h.keep r e k (by simpa using hk)
  simp [hn] at this

theorem inter_stays (h : Sheds T d u σ σ') (hn : (σ.hold r d).inter u = .none) :
    (σ'.hold r d).inter u = .none := by
  apply Uses.eq_none_iff.mpr
  intro k
  have hk := Uses.eq_none_iff.mp hn k
  rw [Uses.inter_has,Bool.and_eq_false_iff] at hk ⊢
  apply hk.imp_left
  intro hf
  by_contra ht
  have := h.keep r d k (by simpa using ht)
  rw [hf] at this
  cases this

theorem refl (σ : Power H) : Sheds T d u σ σ where
  keep _ _ _ h := h
  shed _ _ _ h := .inl h
  handles := rfl
  devices := rfl
  discovered := rfl
  log := by
    refine ⟨[],by simp,by simp,?_⟩
    intro r k ht hf
    rw [ht] at hf
    cases hf

theorem confirmed_left (h' : Sheds T d u σ' σ'')
    (hc : Confirmed d u r new σ') : Confirmed d u r (new ++ new') σ'' := by
  apply hc.after
  · exact fun e => h'.none_stays
  · exact fun e k hk hne => (h'.shed r e k hk).resolve_right fun hx => hne hx.2

theorem confirmed_right (hc : Confirmed d u r new' σ') : Confirmed d u r (new ++ new') σ' := by
  rcases hc with ⟨held,b,hin,hmine,hnone⟩ | ⟨hin,hother⟩
  · left
    exact ⟨held,b,hin.trans (suffix_append _ _).isInfix,hmine,hnone⟩
  · right
    exact ⟨mem_append_right _ hin,hother⟩

theorem trans (h : Sheds T d u σ σ') (h' : Sheds T d u σ' σ'') : Sheds T d u σ σ'' where
  keep r e k hk := h.keep r e k (h'.keep r e k hk)
  shed r e k hk := by
    rcases h.shed r e k hk with hk | hk
    · exact h'.shed r e k hk
    · exact .inr hk
  handles := h'.handles.trans h.handles
  devices := h'.devices.trans h.devices
  discovered := h'.discovered.trans h.discovered
  log := by
    obtain ⟨new,he,hnew,hconf⟩ := h.log
    obtain ⟨new',he',hnew',hconf'⟩ := h'.log
    refine ⟨new ++ new',by rw [he',he,append_assoc],?_,?_⟩
    · intro e hmem
      rcases mem_append.mp hmem with hmem | hmem
      · exact hnew e hmem
      · exact hnew' e hmem
    · intro r k ht hf
      -- The hold went either in the first part or in the second.
      by_cases hm : (σ'.hold r d).has k = true
      · exact confirmed_right (hconf' r k hm hf)
      · exact h'.confirmed_left (hconf r k ht (by simpa using hm))

theorem records (hl : σ'.log = σ.log ++ new) (hr : σ'.resources = σ.resources)
    (hdev : σ'.devices = σ.devices) (hdis : σ'.discovered = σ.discovered)
    (hnew : ∀ e ∈ new, e.OffSafe d u ∧ ∃ r, T r ∧ e.Switching .OFF r) : Sheds T d u σ σ' := by
  have hh : ∀ r e, σ'.hold r e = σ.hold r e := by
    intro r e
    unfold Power.hold Power.holders
    rw [hr]
  constructor
  case keep =>
    intro r e k hk
    rwa [← hh]
  case shed =>
    intro r e k hk
    left
    rwa [hh]
  case handles => rw [hr]
  case devices => exact hdev
  case discovered => exact hdis
  case log =>
    refine ⟨new,hl,hnew,?_⟩
    intro r k ht hf
    rw [hh,ht] at hf
    cases hf

end Sheds

theorem Uses.ne_none_of_inter {v : Uses} (h : u.inter v ≠ .none) : u ≠ .none := by
  rintro rfl
  exact h (Uses.eq_none_iff.mpr (by simp))

theorem Holders.sole_ref (h : p.sole d u = true) (hd : (p.uses d).inter u ≠ .none) {ref : Ref H}
    (href : ref ∈ p.refs) :
    ref.device = d ∧ ref.uses.diff u = .none := by
  have hdev : ref.device = d := by
    by_contra he
    have hnone := sole_uses h (Uses.ne_none_of_inter hd) he
    exact p.used ref href ((uses_of_mem href).symm.trans hnone)
  refine ⟨hdev,?_⟩
  simp only [sole,Bool.and_eq_true,beq_iff_eq] at h
  rw [← uses_of_mem href,hdev]
  exact h.1

theorem Holders.other_of_not_sole (hd : (p.uses d).inter u ≠ .none) (h : p.sole d u = false) :
    ∃ e k, ((p.drop d u).uses e).has k = true ∧ ¬(e = d ∧ u.has k = true) := by
  by_cases hdiff : (p.uses d).diff u = .none
  · -- Another device has a reference too.
    have hlen : p.refs.length ≠ 1 := by simpa [sole,hdiff] using h
    obtain ⟨mine,hmine,rfl,_⟩ := mem_of_uses (Uses.ne_none_of_inter hd)
    obtain ⟨ref,href,hother⟩ : ∃ ref ∈ p.refs, ref.device ≠ mine.device := by
      by_contra hall
      push Not at hall
      have hrep : p.refs.map Ref.device = List.replicate (p.refs.map Ref.device).length mine.device := by
        apply eq_replicate_of_mem
        intro e he
        obtain ⟨ref,href,rfl⟩ := mem_map.mp he
        exact hall ref href
      have hone := nodup_replicate.mp (hrep ▸ p.nodup)
      have hpos := length_pos_of_mem hmine
      rw [length_map] at hone
      omega
    have hused := p.used ref href
    rw [← uses_of_mem href] at hused
    obtain ⟨k,hk⟩ : ∃ k, (p.uses ref.device).has k = true := by
      by_contra hnone
      push Not at hnone
      exact hused (Uses.eq_none_iff.mpr (fun k => by simpa using hnone k))
    refine ⟨ref.device,k,?_,fun h => hother h.1⟩
    rwa [uses_drop,if_neg hother]
  · obtain ⟨k,hk⟩ : ∃ k, ((p.uses d).diff u).has k = true := by
      by_contra hnone
      push Not at hnone
      exact hdiff (Uses.eq_none_iff.mpr (fun k => by simpa using hnone k))
    refine ⟨d,k,?_,?_⟩
    · rwa [uses_drop,if_pos rfl]
    · rintro ⟨-,hu⟩
      simp [hu] at hk

section Release
variable (A : Aml H) {σ : Power H} {T : H → Prop} {d r : H} {u : Uses} {new : List (Event H)}

theorem confirmRelease_wp (hT : T r) {last : Bool}
    (hsafe : last = true → ∀ rv, (σ.evaluation r .OFF rv).OffSafe d u) :
    (confirmRelease A r last).wp (fun _ σ' => ∃ new, σ' = σ.noting new ∧
        (∀ e ∈ new, e.OffSafe d u ∧ ∃ r, T r ∧ e.Switching .OFF r) ∧
        if last then new = [σ.evaluation r .OFF (.ok ()),.integer r .STA (.ok 0)]
        else .integer r .STA (.ok 1) ∈ new) (fun _ σ' => ∃ new, σ' = σ.noting new ∧
        ∀ e ∈ new, e.OffSafe d u ∧ ∃ r, T r ∧ e.Switching .OFF r) σ := by
  have hsta : ∀ sr, (Event.integer r .STA sr).OffSafe d u ∧
      ∃ q, T q ∧ (Event.integer r .STA sr).Switching .OFF q := fun _ => ⟨trivial,r,hT,rfl⟩
  cases last with
  | true =>
    have hoff : ∀ rv sr, ∀ e ∈ [σ.evaluation r .OFF rv,.integer r .STA sr],
        e.OffSafe d u ∧ ∃ q, T q ∧ e.Switching .OFF q := by
      intro rv sr e he
      rcases mem_pair.mp he with rfl | rfl
      · exact ⟨hsafe rfl rv,r,hT,rfl,rfl⟩
      · exact hsta sr
    refine wp_mono (powerMethod_wp A r false σ) ?_ ?_
    · rintro _ σ' rfl
      exact ⟨_,Power.record_record _ _ _,hoff _ _,rfl⟩
    · rintro _ σ' ⟨rv,sr,rfl⟩
      exact ⟨_,Power.record_record _ _ _,hoff _ _⟩
  | false =>
    simp only [confirmRelease,Bool.false_eq_true,if_false,wp_bind]
    refine wp_mono (powerSta_wp A r σ) ?_ ?_
    · rintro sta σ' ⟨_,rfl⟩
      split
      · rename_i hone
        exact ⟨_,rfl,by simpa using hsta _,by simp [hone]⟩
      · exact ⟨_,rfl,by simpa using hsta _⟩
    · rintro _ σ' ⟨sr,rfl⟩
      exact ⟨_,rfl,by simpa using hsta _⟩

theorem Confirmed.drop (hmine : (σ.hold r d).inter u ≠ .none)
    (hlast : if (σ.holders r).sole d u then
        new = [σ.evaluation r .OFF (.ok ()),.integer r .STA (.ok 0)]
      else .integer r .STA (.ok 1) ∈ new) :
    Confirmed d u r new ((σ.noting new).mapHolders r fun p => p.drop d u) := by
  have hused : (σ.holders r).uses d ≠ .none := Uses.ne_none_of_inter hmine
  by_cases hs : (σ.holders r).sole d u = true
  · rw [if_pos hs] at hlast
    subst hlast
    left
    refine ⟨_,_,infix_rfl,?_,?_⟩
    · obtain ⟨ref,href,hdev,huses⟩ := Holders.mem_of_uses hused
      refine ⟨ref,href,hdev,?_⟩
      rwa [huses]
    · intro e
      rw [Power.mapHolders_drop_hold]
      split
      · simp only [Holders.sole,Bool.and_eq_true,beq_iff_eq] at hs
        exact hs.1
      · rename_i he
        exact Holders.sole_uses hs hused (fun hed => he ⟨rfl,hed⟩)
  · rw [if_neg hs] at hlast
    right
    obtain ⟨e,j,hj,hother⟩ := Holders.other_of_not_sole hmine (by simpa using hs)
    refine ⟨hlast,e,j,?_,hother⟩
    rwa [Power.hold,Power.mapHolders_holders _ _ _ _ (.inr rfl),if_pos rfl]

theorem Sheds.drop (hT : T r) (hmine : (σ.hold r d).inter u ≠ .none)
    (hnew : ∀ e ∈ new, e.OffSafe d u ∧ ∃ r, T r ∧ e.Switching .OFF r)
    (hlast : if (σ.holders r).sole d u then
        new = [σ.evaluation r .OFF (.ok ()),.integer r .STA (.ok 0)]
      else .integer r .STA (.ok 1) ∈ new) :
    Sheds T d u σ ((σ.noting new).mapHolders r fun p => p.drop d u) := by
  have hhold := Power.mapHolders_drop_hold (σ.noting new) r d u
  constructor
  case keep =>
    intro q e k hk
    rw [hhold] at hk
    split at hk
    · rename_i he
      obtain ⟨rfl,rfl⟩ := he
      rw [Uses.diff_has,Bool.and_eq_true] at hk
      exact hk.1
    · exact hk
  case shed =>
    intro q e k hk
    rw [hhold]
    split
    · rename_i he
      obtain ⟨rfl,rfl⟩ := he
      by_cases hu : u.has k = true
      · exact .inr ⟨hT,rfl,hu⟩
      · left
        rw [Uses.diff_has,Bool.and_eq_true]
        exact ⟨hk,by simpa using hu⟩
    · exact .inl hk
  case handles => exact Power.mapHolders_handles _ _ _
  case devices => rfl
  case discovered => rfl
  case log =>
    refine ⟨new,rfl,hnew,?_⟩
    intro q k ht hf
    rw [hhold] at hf
    split at hf
    · rename_i he
      obtain ⟨rfl,-⟩ := he
      exact Confirmed.drop hmine hlast
    · change (σ.hold q d).has k = false at hf
      rw [ht] at hf
      cases hf

theorem powerRelease_wp (hT : T r) (d : H) (u : Uses) (hd : σ.discovered = true) :
    (powerRelease A r d u).wp (fun _ σ' => Sheds T d u σ σ' ∧ (σ'.hold r d).inter u = .none)
      (fun _ σ' => Sheds T d u σ σ') σ := by
  unfold powerRelease
  rw [wp_bind,wp_read]
  split
  · rename_i hnone
    exact ⟨Sheds.refl σ,hnone⟩
  · rename_i hmine
    have hsafe : (σ.holders r).sole d u = true → ∀ rv, (σ.evaluation r .OFF rv).OffSafe d u := by
      intro hs rv
      refine ⟨hd,?_⟩
      intro ref href
      exact Holders.sole_ref hs hmine href
    rw [wp_bind]
    refine wp_mono (confirmRelease_wp A hT hsafe) ?_ ?_
    · rintro _ σ' ⟨new,rfl,hnew,hlast⟩
      refine ⟨Sheds.drop hT hmine hnew hlast,?_⟩
      rw [Power.mapHolders_drop_hold,if_pos ⟨rfl,rfl⟩]
      apply Uses.eq_none_iff.mpr
      intro k
      cases hk : u.has k <;> simp [hk]
    · rintro _ σ' ⟨new,rfl,hnew⟩
      exact Sheds.records rfl rfl rfl rfl hnew

theorem releases_wp {f : H → Prog (Power H) Status Unit} (hf : ∀ r τ, τ.discovered = true →
      (f r).wp (fun _ τ' => Sheds T d u τ τ' ∧ (T r → (τ'.hold r d).inter u = .none))
        (fun _ τ' => Sheds T d u τ τ') τ) (rs : List H) (hd : σ.discovered = true) :
    (forEach rs f).wp (fun _ σ' => Sheds T d u σ σ' ∧ ∀ r ∈ rs, T r → (σ'.hold r d).inter u = .none)
      (fun _ σ' => Sheds T d u σ σ') σ := by
  induction rs generalizing σ with
  | nil => exact ⟨Sheds.refl σ,by simp⟩
  | cons r rs ih =>
    simp only [forEach,wp_bind]
    refine wp_conseq (hf r σ hd) ?_
    rintro _ σ₁ ⟨h₁,hr⟩
    refine wp_mono (ih (h₁.discovered.trans hd)) ?_ (fun _ _ h => h₁.trans h)
    rintro _ σ₂ ⟨h₂,hrs⟩
    refine ⟨h₁.trans h₂,?_⟩
    intro q hq hT
    rcases mem_cons.mp hq with rfl | hq
    · exact h₂.inter_stays (hr hT)
    · exact hrs q hq hT

theorem releaseSet_wp (h : H) (target : List H) (hd : σ.discovered = true) :
    (releaseSet A h target).wp (fun _ σ' => Sheds (fun r => r ∉ target) h (.only .state) σ σ' ∧
        ∀ r, r ∉ target → (σ'.hold r h).has .state = false)
      (fun _ σ' => Sheds (fun r => r ∉ target) h (.only .state) σ σ') σ := by
  unfold releaseSet
  rw [wp_bind,wp_read]
  refine wp_conseq (releases_wp ?_ _ hd) ?_
  · intro r τ hτ
    split
    · rename_i hr
      exact ⟨Sheds.refl τ,fun h => absurd hr h⟩
    · rename_i hr
      exact wp_conseq (powerRelease_wp A hr h _ hτ) (fun _ _ h => ⟨h.1,fun _ => h.2⟩)
  · rintro _ σ' ⟨hs,hnone⟩
    refine ⟨hs,?_⟩
    intro r hr
    by_cases hk : σ.Known r
    · have hn := hnone r (by simpa [Power.Known] using hk) hr
      simpa only [Uses.inter_has,Uses.only_has,decide_true,Bool.and_true] using
        Uses.eq_none_iff.mp hn .state
    · have hk' : ¬σ'.Known r := by
        unfold Power.Known
        rwa [hs.handles]
      rw [Power.hold,Power.holders_of_unknown hk']
      rfl

theorem releaseAll_wp (h : H) (σ : Power H) : (releaseAll A h).wp
      (fun _ σ' => ∃ τ, Grows (Discovering σ) Event.Passive σ τ ∧ Sheds (fun _ => True) h .both τ σ')
      (fun _ σ' => ∃ τ, Grows (Discovering σ) Event.Passive σ τ ∧ Sheds (fun _ => True) h .both τ σ')
      σ := by
  unfold releaseAll
  rw [wp_bind]
  refine wp_mono (powerDiscover_wp A σ) ?_ (fun _ τ h => ⟨τ,h,Sheds.refl τ⟩)
  rintro _ τ ⟨hg,hd⟩
  rw [wp_bind,wp_read]
  refine wp_mono (releases_wp ?_ _ hd) (fun _ _ h => ⟨τ,hg,h.1⟩) (fun _ _ h => ⟨τ,hg,h⟩)
  intro r ρ hρ
  exact wp_conseq (powerRelease_wp A trivial h .both hρ) (fun _ _ h => ⟨h.1,fun _ => h.2⟩)

end Release
end NanoBSD.AcpiPower
