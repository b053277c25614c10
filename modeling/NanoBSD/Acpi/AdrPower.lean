import NanoBSD.Acpi.Power
import Mathlib.Algebra.Group.Nat.Defs

/-! # The power tables by `_ADR` of `acpi.c`

`acpi_adr_power` moves the devices of a table off and back on. What the namespace, the
drivers and the firmware answer is an input of each request; what the request does to an
entry's device is returned beside the entry. The log messages are left out.
-/
namespace NanoBSD.AcpiAdr
open AcpiPower List
variable {η τ γ : Type}

def ADRPWR_COLD : ℕ := 0x01
def ADRPWR_NODRIVER : ℕ := 0x02
def ADRPWR_NOPS3 : ℕ := 0x04

/-- `ap_state`: what the last request did to the entry. -/
inductive AdrState where
  | ON | APPLIED | ALREADY | ABSENT | SKIPPED | FAILED
  deriving DecidableEq, Repr

/-- `struct acpi_adr_pwr`; `saved` holds `ap_tag` and `ap_conf` while `ap_saved` is set. -/
structure AdrPwr (η τ γ : Type) where
  adr : ℕ
  flags : ℕ
  changed : Option η
  previous : ℤ
  state : AdrState
  saved : Option (τ × γ)
  deriving DecidableEq

structure PciInfo (τ γ : Type) where
  tag : τ
  id : ℕ
  conf : γ

structure Driver where
  active : Bool
  populated : Bool

/-- A device node as one request finds it: what `acpi_power_get` returns and stores, and the result
of the request's `acpi_power_set`. -/
structure DevNode (η τ γ : Type) where
  handle : η
  device : Bool
  validAdr : Bool
  address : ℕ
  driver : Option Driver
  get : Bool × ℤ
  pci : Option (PciInfo τ γ)
  set : Bool

structure Restore where
  set : Bool
  id : ℕ
  bound : Bool

structure Record (η τ γ : Type) where
  handle : η
  previous : ℤ
  saved : Option (τ × γ)
  deriving DecidableEq

/-- What is done to an entry's device. When it is asked back, `written` says that its configuration
was restored, and `lost` that its driver was told of the power loss. -/
inductive Event (η τ γ : Type) where
  | d3hot (tag : τ)
  | away (found : Record η τ γ) (target : ℤ) (nops3 ok : Bool)
  | retry (handle : η) (target : ℤ) (ok : Bool)
  | back (moved : Record η τ γ) (ok written lost : Bool)
  deriving DecidableEq

def present (id : ℕ) : Bool := id != 0xffffffff && id != 0
def AdrPwr.cold (ap : AdrPwr η τ γ) : Bool := ap.flags &&& ADRPWR_COLD != 0

def AdrPwr.target (ap : AdrPwr η τ γ) (state : ℤ) : ℤ :=
  if ap.cold then ACPI_STATE_D3_COLD else state

def AdrPwr.capture (ap : AdrPwr η τ γ) (ad : DevNode η τ γ) : Option (τ × γ) :=
  if ap.cold then ad.pci.bind fun p => if present p.id then some (p.tag,p.conf) else none
  else none

def DevNode.busy (ad : DevNode η τ γ) : Bool :=
  ad.driver.any fun gdv => gdv.active || gdv.populated

def setOutcome (ok : Bool) : AdrState := if ok then .APPLIED else .FAILED

def Restore.back (r : Restore) (moved : Record η τ γ) : Event η τ γ :=
  let written := moved.saved.isSome && present r.id
  .back moved r.set written (written && r.bound)

/-- The restore of one entry. Its record is dropped whether or not the device came back. -/
def AdrPwr.restore (r : Restore) (ap : AdrPwr η τ γ) : AdrPwr η τ γ × List (Event η τ γ) :=
  match ap.changed with
  | none => (ap,[])
  | some handle =>
    ({ ap with saved := none, changed := none },[r.back ⟨handle,ap.previous,ap.saved⟩])

def AdrPwr.reset (ap : AdrPwr η τ γ) : AdrPwr η τ γ :=
  if ap.changed.isSome then ap else { ap with saved := none, state := .ABSENT }

def AdrPwr.move (exp : ℕ) (state : ℤ) (ad : DevNode η τ γ) (ap : AdrPwr η τ γ) :
    AdrPwr η τ γ × List (Event η τ γ) :=
  let target := ap.target state
  let capture := ap.capture ad
  let nops3 := decide (target = ACPI_STATE_D3_COLD) && ap.flags &&& ADRPWR_NOPS3 != 0 &&
    exp &&& 1 == 0
  let d3hot := match capture with
    | some (tag,_) => if exp &&& 2 = 0 then [.d3hot tag] else []
    | none => []
  -- The old state is kept even if a resource operation fails partway.
  ({ ap with saved := capture.or ap.saved, changed := some ad.handle, previous := ad.get.2,
             state := setOutcome ad.set },
    d3hot ++ [.away ⟨ad.handle,ad.get.2,capture⟩ target nops3 ad.set])

def AdrPwr.off (exp : ℕ) (state : ℤ) (ad : DevNode η τ γ) (ap : AdrPwr η τ γ) :
    AdrPwr η τ γ × List (Event η τ γ) :=
  let target := ap.target state
  match ap.changed with
  | some handle =>
    if ap.state = .FAILED then
      ({ ap with state := setOutcome ad.set },[.retry handle target ad.set])
    else (ap,[])
  | none =>
    if ap.flags &&& ADRPWR_NODRIVER ≠ 0 ∧ exp &&& 4 = 0 ∧ ad.busy then
      ({ ap with state := .SKIPPED },[])
    else if ad.get.1 = false ∨ ad.get.2 = target then
      ({ ap with state := if ad.get.2 = target then .ALREADY else .FAILED },[])
    else ap.move exp state ad

/-! ## The table, with what was done to each entry -/

structure Slot (η τ γ : Type) where
  entry : AdrPwr η τ γ
  past : List (Event η τ γ)
  deriving DecidableEq

def Slot.act (f : AdrPwr η τ γ → AdrPwr η τ γ × List (Event η τ γ)) (x : Slot η τ γ) :
    Slot η τ γ := ⟨(f x.entry).1,x.past ++ (f x.entry).2⟩

def Slot.map (f : AdrPwr η τ γ → AdrPwr η τ γ) (x : Slot η τ γ) : Slot η τ γ :=
  ⟨f x.entry,x.past⟩

/-- Every branch of the inner loop leaves it, so a node reaches the first entry only. -/
def atFirst {α : Type} (p : α → Bool) (f : α → α) : List α → List α
  | [] => []
  | x :: xs => if p x then f x :: xs else x :: atFirst p f xs

def offNode (exp : ℕ) (state : ℤ) (table : List (Slot η τ γ)) (ad : DevNode η τ γ) :
    List (Slot η τ γ) :=
  if ad.device && ad.validAdr then
    atFirst (fun x => ad.address % 2^32 == x.entry.adr) (Slot.act (AdrPwr.off exp state ad)) table
  else table

/-- What a request gets: the experiment bits, the nodes for an off request, and what each entry
finds on its restore. -/
structure Request (η τ γ : Type) where
  exp : ℕ
  state : ℤ
  nodes : List (DevNode η τ γ)
  restores : ℕ → Restore

def restoreAll (restores : ℕ → Restore) (table : List (Slot η τ γ)) : List (Slot η τ γ) :=
  table.mapIdx fun i x => x.act (AdrPwr.restore (restores i))

def acpiAdrPower (table : List (Slot η τ γ)) (r : Request η τ γ) : List (Slot η τ γ) :=
  if r.state = ACPI_STATE_D0 then
    (restoreAll r.restores table).map (Slot.map fun ap => { ap with state := .ON })
  else r.nodes.foldl (offNode r.exp r.state) (table.map (Slot.map AdrPwr.reset))

def start (table : List (ℕ × ℕ)) : List (Slot η τ γ) :=
  table.map fun e => ⟨⟨e.1,e.2,none,0,.ON,none⟩,[]⟩

/-! ## The `sysctl` of a table -/

structure AdrGroup (η τ γ : Type) where
  table : List (Slot η τ γ)
  requested : Bool

inductive Errno where
  | ENOSYS | EINVAL | EBUSY
  deriving DecidableEq, Repr

/-- A write of `t`: off again is a retry, on again changes nothing. -/
def sysctlHwAcpiAdrGroup (attached freezeActive : Bool) (exp : ℕ)
    (nodes : List (DevNode η τ γ)) (restores : ℕ → Restore) (t : ℤ) (ag : AdrGroup η τ γ) :
    Except Errno (AdrGroup η τ γ) :=
  if attached = false then .error .ENOSYS
  else if t ≠ 0 ∧ t ≠ 1 then .error .EINVAL
  else if t = 0 ∧ ag.requested = false then .ok ag
  else if freezeActive then .error .EBUSY
  else .ok ⟨acpiAdrPower ag.table
    ⟨exp,if t = 1 then ACPI_STATE_D3 else ACPI_STATE_D0,nodes,restores⟩,t == 1⟩

/-! ## What an entry owes -/

def AdrPwr.record (ap : AdrPwr η τ γ) : Option (Record η τ γ) :=
  ap.changed.map fun handle => ⟨handle,ap.previous,ap.saved⟩

/-- A device that is asked back is on again, with its configuration if that was saved. -/
def Event.returns : Event η τ γ → Bool
  | .back moved ok written _ => ok && (moved.saved.isNone || written)
  | _ => true

/-- The first move since the device last came back. -/
def owedAfter (o : Option (Record η τ γ)) (e : Event η τ γ) : Option (Record η τ γ) :=
  match e with
  | .away found _ _ _ => o.or (some found)
  | .back _ _ _ _ => if e.returns then none else o
  | _ => o

def owed (past : List (Event η τ γ)) : Option (Record η τ γ) := past.foldl owedAfter none

/-- The first move since the entry was last asked to come back. -/
def movedAfter (o : Option (Record η τ γ)) : Event η τ γ → Option (Record η τ γ)
  | .away found _ _ _ => o.or (some found)
  | .back _ _ _ _ => none
  | _ => o

def moved (past : List (Event η τ γ)) : Option (Record η τ γ) := past.foldl movedAfter none
def Returned (past : List (Event η τ γ)) : Prop := ∀ e ∈ past, e.returns = true

theorem moved_append (past more : List (Event η τ γ)) :
    moved (past ++ more) = more.foldl movedAfter (moved past) := foldl_append ..

theorem owedAfter_eq_movedAfter {e : Event η τ γ} (h : Returned [e])
    (o : Option (Record η τ γ)) : owedAfter o e = movedAfter o e := by
  cases e with
  | back r ok written lost => exact if_pos (h _ (mem_singleton_self _))
  | _ => rfl

theorem owed_eq_moved {past : List (Event η τ γ)} (h : Returned past) : owed past = moved past := by
  refine foldl_ext _ _ _ fun o e he => owedAfter_eq_movedAfter ?_ o
  intro e' he'
  cases mem_singleton.mp he'
  exact h e he

/-! ## The entry's record is the first move -/

structure Tidy (x : Slot η τ γ) : Prop where
  record : x.entry.record = moved x.past
  fresh : x.entry.changed = none → x.entry.saved = none

theorem reset_record (ap : AdrPwr η τ γ) : ap.reset.record = ap.record := by
  unfold AdrPwr.reset
  split
  · rfl
  · rename_i hnone
    simp [AdrPwr.record,Option.not_isSome_iff_eq_none.mp hnone]

variable {x : Slot η τ γ}

theorem Tidy.reset (h : x.entry.record = moved x.past) :
    Tidy (x.map AdrPwr.reset) where
  record := (reset_record x.entry).trans h
  fresh := by
    intro hnone
    simp only [Slot.map,AdrPwr.reset] at hnone ⊢
    split
    · rename_i hsome
      rw [if_pos hsome] at hnone
      simp [hnone] at hsome
    · rfl

theorem Tidy.move (h : Tidy x) (hnone : x.entry.changed = none) (exp : ℕ)
    (state : ℤ) (ad : DevNode η τ γ) : Tidy (x.act (AdrPwr.move exp state ad)) where
  record := by
    have hm : moved x.past = none := by rw [← h.record,AdrPwr.record,hnone]; rfl
    simp only [Slot.act,AdrPwr.move,AdrPwr.record,h.fresh hnone,Option.or_none,Option.map_some]
    rw [moved_append,hm,foldl_append]
    split
    · split <;> rfl
    · rfl
  fresh := by simp [Slot.act,AdrPwr.move]

theorem Tidy.keep {y : Slot η τ γ} (h : Tidy x) (hc : y.entry.changed = x.entry.changed)
    (hp : y.entry.previous = x.entry.previous) (hs : y.entry.saved = x.entry.saved)
    (hm : moved y.past = moved x.past) : Tidy y where
  record := by rw [hm,← h.record,AdrPwr.record,AdrPwr.record,hc,hp,hs]
  fresh := by rw [hc,hs]; exact h.fresh

theorem Tidy.off (h : Tidy x) (exp : ℕ) (state : ℤ) (ad : DevNode η τ γ) :
    Tidy (x.act (AdrPwr.off exp state ad)) := by
  have hmove := fun hnone => h.move hnone exp state ad
  unfold Slot.act at hmove ⊢
  unfold AdrPwr.off
  dsimp only
  split
  · split <;> exact h.keep rfl rfl rfl (moved_append ..)
  · rename_i hnone
    split
    · exact h.keep rfl rfl rfl (moved_append ..)
    · split
      · exact h.keep rfl rfl rfl (moved_append ..)
      · exact hmove hnone

theorem atFirst_forall {α : Type} {P : α → Prop} {p : α → Bool} {f : α → α}
    (hf : ∀ x, P x → P (f x)) {l : List α} (h : ∀ x ∈ l, P x) : ∀ x ∈ atFirst p f l, P x := by
  induction l with
  | nil => exact h
  | cons a l ih =>
    obtain ⟨ha,hl⟩ := forall_mem_cons.mp h
    unfold atFirst
    split
    · exact forall_mem_cons.mpr ⟨hf a ha,hl⟩
    · exact forall_mem_cons.mpr ⟨ha,ih hl⟩

variable {table : List (Slot η τ γ)} {exp : ℕ} {state : ℤ}

theorem offNode_tidy {ad : DevNode η τ γ}
    (h : ∀ x ∈ table, Tidy x) : ∀ x ∈ offNode exp state table ad, Tidy x := by
  unfold offNode
  split
  · exact atFirst_forall (fun x hx => hx.off exp state ad) h
  · exact h

theorem nodes_tidy (nodes : List (DevNode η τ γ)) (h : ∀ x ∈ table, Tidy x) :
    ∀ x ∈ nodes.foldl (offNode exp state) table, Tidy x := by
  induction nodes generalizing table with
  | nil => exact h
  | cons ad nodes ih => exact ih (offNode_tidy h)

theorem restore_events (r : Restore) (ap : AdrPwr η τ γ) :
    (ap.restore r).2 = (ap.record.map r.back).toList := by
  unfold AdrPwr.restore AdrPwr.record
  cases ap.changed <;> rfl

theorem restore_record (h : x.entry.record = moved x.past) (r : Restore) :
    (x.act (AdrPwr.restore r)).entry.record = moved (x.act (AdrPwr.restore r)).past := by
  unfold Slot.act
  rw [moved_append]
  unfold AdrPwr.restore
  cases hc : x.entry.changed with
  | none => exact h
  | some handle => rfl

theorem acpiAdrPower_record (h : ∀ x ∈ table, x.entry.record = moved x.past) (r : Request η τ γ) :
    ∀ x ∈ acpiAdrPower table r, x.entry.record = moved x.past := by
  unfold acpiAdrPower
  split
  · intro x hx
    obtain ⟨y,hy,rfl⟩ := mem_map.mp hx
    obtain ⟨i,hi,rfl⟩ := mem_mapIdx.mp hy
    exact restore_record (h _ (getElem_mem hi)) _
  · have htidy : ∀ x ∈ table.map (Slot.map AdrPwr.reset), Tidy x := by
      intro x hx
      obtain ⟨y,hy,rfl⟩ := mem_map.mp hx
      exact Tidy.reset (h y hy)
    intro x hx
    exact (nodes_tidy r.nodes htidy x hx).record

theorem requests_record (table : List (ℕ × ℕ)) (rs : List (Request η τ γ)) :
    ∀ x ∈ rs.foldl acpiAdrPower (start table), x.entry.record = moved x.past := by
  have hstart : ∀ x ∈ start (η := η) (τ := τ) (γ := γ) table, x.entry.record = moved x.past := by
    intro x hx
    obtain ⟨e,he,rfl⟩ := mem_map.mp hx
    rfl
  generalize start table = s at hstart
  induction rs generalizing s with
  | nil => exact hstart
  | cons r rs ih => exact ih _ (acpiAdrPower_record hstart r)

/-- The entry has recorded the move `o` if any, and an on request asks for just that to be undone. -/
def Remembers (table : List (Slot η τ γ)) (i : ℕ) (x : Slot η τ γ) (o : Option (Record η τ γ)) :
    Prop :=
  x.entry.record = o ∧ ∀ r : Request η τ γ, r.state = ACPI_STATE_D0 →
    ((acpiAdrPower table r)[i]?).map Slot.past =
      some (x.past ++ (o.map (r.restores i).back).toList)

theorem remembers_record {i : ℕ} (hx : table[i]? = some x) :
    Remembers table i x x.entry.record := by
  refine ⟨rfl,fun r hr => ?_⟩
  simp [acpiAdrPower,hr,restoreAll,hx,Slot.map,Slot.act,restore_events]

/-- An entry records its first move since it was last asked back, and an on request undoes exactly
the recorded moves. While every device asked back returns, that is the first move since the device
was last on. -/
theorem adr_restores_first_move (table : List (ℕ × ℕ)) (rs : List (Request η τ γ)) {i : ℕ}
    {x : Slot η τ γ} (hx : (rs.foldl acpiAdrPower (start table))[i]? = some x) :
    Remembers (rs.foldl acpiAdrPower (start table)) i x (moved x.past) ∧
      (Returned x.past → Remembers (rs.foldl acpiAdrPower (start table)) i x (owed x.past)) := by
  have hmoved := remembers_record hx
  rw [requests_record table rs x (mem_of_getElem? hx)] at hmoved
  exact ⟨hmoved,fun h => owed_eq_moved h ▸ hmoved⟩

section Example

def port (set : Bool) : DevNode ℕ ℕ ℕ :=
  ⟨7,true,true,0x70000,none,(true,0),some ⟨5,0x80869a23,11⟩,set⟩

def offRequest (set : Bool) : Request ℕ ℕ ℕ := ⟨0,ACPI_STATE_D3,[port set],fun _ => ⟨true,0,false⟩⟩

def offOnOff : List (Request ℕ ℕ ℕ) :=
  [offRequest false,offRequest true,⟨0,ACPI_STATE_D0,[],fun _ => ⟨true,0x80869a23,true⟩⟩,
    offRequest true]

theorem offOnOff_restores :
    ∃ x, (offOnOff.foldl acpiAdrPower (start [(0x70000,ADRPWR_COLD)]))[0]? = some x ∧
      Returned x.past ∧ owed x.past = some ⟨7,0,some (5,11)⟩ ∧
      Remembers (offOnOff.foldl acpiAdrPower (start [(0x70000,ADRPWR_COLD)])) 0 x (moved x.past) ∧
      Remembers (offOnOff.foldl acpiAdrPower (start [(0x70000,ADRPWR_COLD)])) 0 x
        (owed x.past) := by
  obtain ⟨x,hx⟩ :
      ∃ x, (offOnOff.foldl acpiAdrPower (start [(0x70000,ADRPWR_COLD)]))[0]? = some x := ⟨_,rfl⟩
  have hret : Returned x.past := by
    cases hx
    unfold Returned
    decide
  have howed : owed x.past = some ⟨7,0,some (5,11)⟩ := by
    cases hx
    rfl
  obtain ⟨hmoved,hkept⟩ := adr_restores_first_move _ offOnOff hx
  exact ⟨x,hx,hret,howed,hmoved,hkept hret⟩

/-- The device moved off does not come back, with or without an error: the entry forgets it, and a
second write of 0 or an on request does nothing. -/
theorem failed_restore_forgotten :
    ∃ off : AdrGroup ℕ ℕ ℕ,
      sysctlHwAcpiAdrGroup true false 0 [port true] (fun _ => ⟨true,0,false⟩) 1
        ⟨start [(0x70000,ADRPWR_COLD)],false⟩ = .ok off ∧
      ∀ set, ∃ on : AdrGroup ℕ ℕ ℕ,
        sysctlHwAcpiAdrGroup true false 0 [] (fun _ => ⟨set,0xffffffff,false⟩) 0 off = .ok on ∧
        on.table.map (fun x => owed x.past) = [some ⟨7,0,some (5,11)⟩] ∧
        sysctlHwAcpiAdrGroup true false 0 [] (fun _ => ⟨true,0x80869a23,false⟩) 0 on = .ok on ∧
        (acpiAdrPower on.table ⟨0,ACPI_STATE_D0,[],fun _ => ⟨true,0x80869a23,false⟩⟩).map
          Slot.past = on.table.map Slot.past := by
  refine ⟨_,rfl,fun set => ?_⟩
  cases set <;> exact ⟨_,rfl,rfl,rfl,rfl⟩

end Example
end NanoBSD.AcpiAdr
