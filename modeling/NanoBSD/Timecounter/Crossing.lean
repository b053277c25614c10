import NanoBSD.Timecounter.Hands

/-! # Seconds crossed at once and one after the other

A windup that comes late crosses several seconds and shows them to `ntp_update_second` in
order. What it leaves behind is what windups at any points in between would have left.
-/
namespace NanoBSD.Timecounter
variable {κ ν : Type} (update : Ntp ν) (tc : κ → Counter) {first k : ℕ} {s : Seconds ν}
  {c : Clock κ ν}

/-- The part of the clock that the processing of seconds works on: NTP state, adjustment, UTC
second and seconds of the time base. -/
structure Utc (ν : Type) where
  ntp : ν
  adjustment : ℤ
  sec : ℕ
  base : ℕ
  deriving DecidableEq

def Clock.utc (c : Clock κ ν) : Utc ν :=
  ⟨c.ntp,c.hands.adjustment,c.hands.microtime,c.timebase.sec⟩

def Seconds.utc (s : Seconds ν) : Utc ν := ⟨s.ntp,s.adjustment,s.sec,s.base⟩

def Utc.second (u : Utc ν) : Utc ν :=
  let seen := (u.sec + 1) % 2^64
  let (ntp,adjustment,sec) := update u.ntp u.adjustment seen
  ⟨ntp,adjustment,sec % 2^64,(u.base + sec + 2^64 - seen) % 2^64⟩

theorem secondsSince_add (hfirst : first < 2^64) (hk : k ≤ 200) :
    secondsSince ((first + k) % 2^64) first = k := by
  have hd : ((first + k) % 2^64 + 2^64 - first) % 2^32 = k := by omega
  simp only [secondsSince,hd]
  exact if_pos (by omega)

def Utc.Fits (u : Utc ν) : Prop := u.sec < 2^64 ∧ u.base < 2^64

theorem Utc.Fits.second {u : Utc ν} : (u.second update).Fits :=
  ⟨Nat.mod_lt _ (by decide),Nat.mod_lt _ (by decide)⟩

theorem Utc.Fits.seconds {u : Utc ν} (h : u.Fits) (k : ℕ) : ((Utc.second update)^[k] u).Fits := by
  cases k with
  | zero => exact h
  | succ k =>
    rw [Function.iterate_succ_apply']
    exact second update

/-- The loop carries in `adj` what the seconds before have moved the time base by. -/
theorem crossSeconds_eq {u : Utc ν} (hfits : u.Fits) (k : ℕ) : ∃ ntp adjustment adj,
      ((List.range k).map (· + 1)).foldl (crossSecond update u.sec) (u.ntp,u.adjustment,0) =
        (ntp,adjustment,adj) ∧ (Utc.second update)^[k] u =
        ⟨ntp,adjustment,(u.sec + k + adj) % 2^64,(u.base + adj) % 2^64⟩ := by
  induction k with
  | zero =>
    refine ⟨_,_,_,rfl,?_⟩
    rw [Nat.add_zero,Nat.add_zero,Nat.mod_eq_of_lt hfits.1,Nat.mod_eq_of_lt hfits.2]
    rfl
  | succ k ih =>
    obtain ⟨ntp,adjustment,adj,hloop,hutc⟩ := ih
    have hseen : ((u.sec + k + adj) % 2^64 + 1) % 2^64 = (u.sec + (k + 1) + adj) % 2^64 := by
      omega
    rw [List.range_succ,List.map_append,List.foldl_append,hloop,Function.iterate_succ_apply',hutc]
    refine ⟨_,_,_,rfl,?_⟩
    simp only [Utc.second,hseen]
    generalize update ntp adjustment ((u.sec + (k + 1) + adj) % 2^64) = r
    obtain ⟨ntp',adjustment',sec⟩ := r
    simp only [Utc.mk.injEq,true_and]
    split <;> omega

theorem process_zero (h : secondsSince s.sec first = 0) : s.process update first = s := by
  simp [Seconds.process,h]

theorem process_pos (hpos : 0 < k) (hk : k ≤ 200)
    (h : secondsSince s.sec first = k) {ntp : ν} {adjustment : ℤ} {adj : ℕ}
    (hloop : ((List.range k).map (· + 1)).foldl (crossSecond update first)
      (s.ntp,s.adjustment,0) = (ntp,adjustment,adj)) : s.process update first =
      ⟨ntp,adjustment,(s.sec + adj) % 2^64,(s.base + adj) % 2^64,true⟩ := by
  unfold Seconds.process
  rw [h]
  dsimp only
  rw [if_neg (by omega),if_pos (by omega),Int.toNat_natCast,hloop]

theorem utc_process {u : Utc ν} (hfits : u.Fits) {sec : ℕ} (hk : k ≤ 200)
    (hsec : sec = (u.sec + k) % 2^64) :
    (Seconds.process update u.sec ⟨u.ntp,u.adjustment,sec,u.base,false⟩).utc =
      (Utc.second update)^[k] u := by
  have hsince : secondsSince sec u.sec = k := hsec ▸ secondsSince_add hfits.1 hk
  obtain rfl | hpos := Nat.eq_zero_or_pos k
  · obtain rfl : sec = u.sec := by rw [hsec,Nat.add_zero,Nat.mod_eq_of_lt hfits.1]
    rw [process_zero update hsince]
    rfl
  · obtain ⟨ntp,adjustment,adj,hloop,hutc⟩ := crossSeconds_eq update hfits k
    rw [process_pos update hpos hk hsince hloop,hutc,hsec]
    exact congrArg (Utc.mk _ _ · _) (Nat.mod_add_mod (u.sec + k) _ adj)

theorem utc_mk (p : Seconds ν) (k l : κ) (scale offsetCount frac : ℕ) (offset : Bintime) :
    Clock.utc ⟨⟨k,p.adjustment,scale,offsetCount,offset,p.sec⟩,l,⟨p.base,frac⟩,p.ntp⟩ = p.utc :=
  rfl

variable [DecidableEq κ]

def Crosses (count : κ → ℕ) (c : Clock κ ν) (k : ℕ) : Prop :=
  (c.hands.offset.addscaled c.hands.scale (tcDelta tc count c.hands) |>.add c.timebase).sec =
    (c.hands.microtime + k) % 2^64

theorem utc_tcWindup {count : κ → ℕ} (hfits : c.utc.Fits)
    (hk : k ≤ 200) (h : Crosses tc count c k) :
    (tcWindup update tc count c).utc = (Utc.second update)^[k] c.utc := by
  unfold tcWindup
  dsimp only
  rw [utc_mk]
  exact utc_process update hfits hk h

def windups : List ((κ → ℕ) × ℕ) → Clock κ ν → Clock κ ν
  | [],c => c
  | (count,_) :: parts,c => windups parts (tcWindup update tc count c)

/-- Windups one after the other, each crossing the seconds named beside it. -/
def CrossesApart : List ((κ → ℕ) × ℕ) → Clock κ ν → Prop
  | [],_ => True
  | (count,k) :: parts,c =>
    Crosses tc count c k ∧ CrossesApart parts (tcWindup update tc count c)

theorem utc_windups {parts : List ((κ → ℕ) × ℕ)} (hfits : c.utc.Fits)
    (hparts : CrossesApart update tc parts c) (hsum : (parts.map Prod.snd).sum ≤ 200) :
    (windups update tc parts c).utc = (Utc.second update)^[(parts.map Prod.snd).sum] c.utc := by
  induction parts generalizing c with
  | nil => rfl
  | cons part parts ih =>
    obtain ⟨count,k⟩ := part
    simp only [List.map_cons,List.sum_cons] at hsum ⊢
    have hutc := utc_tcWindup update tc hfits (by omega) hparts.1
    rw [windups,ih (hutc ▸ hfits.seconds update k) hparts.2 (by omega),hutc,Nat.add_comm,
      Function.iterate_add_apply]

theorem seconds_at_once_or_apart {count : κ → ℕ} {c : Clock κ ν} {i : ℕ} (hi : i ≤ 200)
    (hfits : c.utc.Fits) (honce : Crosses tc count c i) {parts : List ((κ → ℕ) × ℕ)}
    (hapart : CrossesApart update tc parts c) (hsum : (parts.map Prod.snd).sum = i) :
    (tcWindup update tc count c).utc = (windups update tc parts c).utc := by
  subst hsum
  rw [utc_tcWindup update tc hfits hi honce,utc_windups update tc hfits hapart hi]

/-- The clock gains a quarter of a second per count, and its NTP code repeats the first second
it is shown. -/
def quarters : Clock Unit Bool := ⟨⟨(),0,2^62,0,⟨7,0⟩,10⟩,(),⟨3,0⟩,false⟩

def repeatFirst : Ntp Bool := fun leap adjustment sec =>
  (true,adjustment + 1,if leap then sec else sec - 1)

def fourHertz (_ : Unit) : Counter := Counter.wide 4 (by decide)

theorem seconds_at_once_or_apart_leap :
    (tcWindup repeatFirst fourHertz (fun _ => 14) quarters).utc = ⟨true,3,12,2⟩ ∧
      (windups repeatFirst fourHertz [(fun _ => 4,1),(fun _ => 6,0),(fun _ => 14,2)]
        quarters).utc = ⟨true,3,12,2⟩ := by
  have honce : Crosses fourHertz (fun _ => 14) quarters 3 := by
    unfold Crosses
    decide +kernel
  have hapart : CrossesApart repeatFirst fourHertz
      [(fun _ => 4,1),(fun _ => 6,0),(fun _ => 14,2)] quarters := by
    simp only [CrossesApart,Crosses]
    decide +kernel
  have hutc : (tcWindup repeatFirst fourHertz (fun _ => 14) quarters).utc = ⟨true,3,12,2⟩ := by
    decide +kernel
  refine ⟨hutc,?_⟩
  rw [← hutc]
  exact (seconds_at_once_or_apart repeatFirst fourHertz (by decide) ⟨by decide,by decide⟩ honce
    hapart rfl).symm

end NanoBSD.Timecounter
