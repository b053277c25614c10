import NanoBSD.Wg.SlidingWindow

/-! # From data messages to packets

A data message of a session whose authentication went well is handed to the network stack as
a packet of the inner protocol. The header of the packet declares its length, and the
receiver compares it with the number of bytes that were decrypted.
-/
namespace NanoBSD.Wg

inductive Family
  | inet
  | inet6
deriving DecidableEq

def ntohs (packet : List UInt8) (off : ℕ) : UInt16 :=
  (packet.getD off 0).toUInt16 <<< 8 ||| (packet.getD (off + 1) 0).toUInt16

/-- `sizeof(struct ip)` and `sizeof(struct ip6_hdr)` -/
def ipSize : ℕ := 20
def ip6Size : ℕ := 40
def ipV (packet : List UInt8) : UInt8 := packet.getD 0 0 >>> 4
def ipLen (packet : List UInt8) : UInt16 := ntohs packet 2
def ip6Plen (packet : List UInt8) : UInt16 := ntohs packet 4

/-- `wg_validate_inner_packet`, with the address family it returns; the length of the packet
is computed in 16 bits. -/
def wgValidateInnerPacket (packet : List UInt8) : Option Family :=
  if packet.length < ipSize then none
  else if ipV packet = 4 then
    if packet.length < (ipLen packet).toNat then none else some .inet
  else if ipV packet = 6 then
    if packet.length < ip6Size then none
    else
      let packetLen := UInt16.ofNat (ip6Size + (ip6Plen packet).toNat)
      if packet.length < packetLen.toNat then none else some .inet6
  else none

def declaredLen (packet : List UInt8) : Family → ℕ
  | .inet => (ipLen packet).toNat
  | .inet6 => ip6Size + (ip6Plen packet).toNat

structure DataMsg where
  counter : UInt64
  plaintext : Option (List UInt8)

structure Receiver where
  recvwin : Sliwin
  input : List (Family × List UInt8)

/-- `wg_handle_msg_data` after the first check of the counter, with the size of a cluster and the
answer of `wg_validate_route`. -/
def wgHandleMsgData (mclbytes : ℕ) (routes : Family → List UInt8 → Bool) (r : Receiver)
    (m : DataMsg) : Receiver :=
  match m.plaintext with
  | none => r
  | some packet =>
    if mclbytes < packet.length then r
    else
      match r.recvwin.update m.counter with
      | (.error _,W) => { r with recvwin := W }
      | (.ok _,W) =>
        match wgValidateInnerPacket packet with
        | none => { r with recvwin := W }
        | some af =>
          if routes af packet then { recvwin := W, input := (af,packet) :: r.input }
          else { r with recvwin := W }

section Length
variable {packet : List UInt8} {af : Family}

def LengthFits (packet : List UInt8) : Prop :=
  ipV packet = 6 → ip6Size ≤ packet.length →
    ip6Size + (ip6Plen packet).toNat ≤ max 65535 packet.length

instance : Decidable (LengthFits packet) := inferInstanceAs (Decidable (_ → _ → _))

theorem lengthFits_iff : LengthFits packet ↔
    ∀ af, wgValidateInnerPacket packet = some af → declaredLen packet af ≤ packet.length := by
  have hplen := (ip6Plen packet).toNat_lt
  have hsize : ip6Size = 40 := rfl
  constructor
  · intro hfits af h
    unfold wgValidateInnerPacket at h
    dsimp only at h
    split_ifs at h with hshort hv4 hlen hv6 hshort6 hlen6
    · cases h
      exact Nat.not_lt.mp hlen
    · cases h
      have hle := hfits hv6 (Nat.not_lt.mp hshort6)
      rw [UInt16.toNat_ofNat'] at hlen6
      show ip6Size + (ip6Plen packet).toNat ≤ packet.length
      omega
  · -- a sum that is cut to 16 bits is at most 39, so the packet is accepted
    intro hle hv6 hlong
    by_contra hbig
    have hvalid : wgValidateInnerPacket packet = some .inet6 := by
      have hip : ¬packet.length < ipSize := by
        unfold ipSize
        omega
      simp [wgValidateInnerPacket,hv6,hip,Nat.not_lt.mpr hlong]
      omega
    have hdeclared : ip6Size + (ip6Plen packet).toNat ≤ packet.length := hle .inet6 hvalid
    omega

theorem wgHandleMsgData_input (mclbytes : ℕ) (routes : Family → List UInt8 → Bool) (r : Receiver)
    (m : DataMsg) : (wgHandleMsgData mclbytes routes r m).input = r.input ∨
      ∃ af packet, m.plaintext = some packet ∧ wgValidateInnerPacket packet = some af ∧
        (wgHandleMsgData mclbytes routes r m).input = (af,packet) :: r.input := by
  unfold wgHandleMsgData
  split
  · exact .inl rfl
  · next packet hplain =>
    split_ifs with hlong
    · exact .inl rfl
    · split
      · exact .inl rfl
      · split
        · exact .inl rfl
        · next af hvalid =>
          split_ifs
          · exact .inr ⟨af,packet,hplain,hvalid,rfl⟩
          · exact .inl rfl

/-- A packet whose length fits, and no other, declares no more than was decrypted if the validation
accepts it. If all lengths fit, so does every packet handed to the network stack. -/
theorem inner_length_authenticated {mclbytes : ℕ} {routes : Family → List UInt8 → Bool}
    {W : Sliwin} {ms : List DataMsg} :
    (∀ packet, LengthFits packet ↔ ∀ af, wgValidateInnerPacket packet = some af →
      declaredLen packet af ≤ packet.length) ∧
    ((∀ m ∈ ms, ∀ packet, m.plaintext = some packet → LengthFits packet) →
      ∀ af packet, (af,packet) ∈ (ms.foldl (wgHandleMsgData mclbytes routes) ⟨W,[]⟩).input →
        declaredLen packet af ≤ packet.length) := by
  refine ⟨fun packet => lengthFits_iff,fun hfits => ?_⟩
  suffices hrun : ∀ r : Receiver,
      (∀ af packet, (af,packet) ∈ r.input → declaredLen packet af ≤ packet.length) →
      ∀ af packet, (af,packet) ∈ (ms.foldl (wgHandleMsgData mclbytes routes) r).input →
        declaredLen packet af ≤ packet.length from hrun _ fun _ _ h => absurd h List.not_mem_nil
  induction ms with
  | nil => exact fun r h => h
  | cons m ms ih =>
    obtain ⟨hm,hms⟩ := List.forall_mem_cons.mp hfits
    refine fun r hr => ih hms _ fun af packet hmem => ?_
    rcases wgHandleMsgData_input mclbytes routes r m with hsame | ⟨af',packet',hplain,hvalid,hnew⟩
    · exact hr af packet (hsame ▸ hmem)
    · rw [hnew] at hmem
      rcases List.mem_cons.mp hmem with heq | hmem
      · cases heq
        exact lengthFits_iff.mp (hm packet hplain) af hvalid
      · exact hr af packet hmem

def ip6Header (hi lo : UInt8) : List UInt8 := [0x60,0,0,0,hi,lo] ++ List.replicate 34 0

/-- A payload of three bytes, padded to eight. -/
def padded : List UInt8 := ip6Header 0 3 ++ [1,2,3] ++ List.replicate 5 0

theorem inner_length_authenticated_padded :
    (Family.inet6,padded) ∈ ([⟨0,some padded⟩].foldl (wgHandleMsgData 2048 fun _ _ => true)
      ⟨Sliwin.reset,[]⟩).input ∧
    (∀ af, wgValidateInnerPacket padded = some af → declaredLen padded af ≤ padded.length) ∧
    declaredLen padded .inet6 ≤ padded.length := by
  have hmem : (Family.inet6,padded) ∈ ([⟨0,some padded⟩].foldl
      (wgHandleMsgData 2048 fun _ _ => true) ⟨Sliwin.reset,[]⟩).input := by decide +kernel
  have hfits : LengthFits padded := by decide +kernel
  obtain ⟨heach,hall⟩ := @inner_length_authenticated 2048 (fun _ _ => true) Sliwin.reset
    [⟨0,some padded⟩]
  refine ⟨hmem,(heach padded).mp hfits,hall (fun m hm packet hplain => ?_) _ _ hmem⟩
  obtain rfl := List.mem_singleton.mp hm
  cases hplain
  exact hfits

/-- A header that declares the longest payload is handed on without any. -/
theorem long_header_handed_on :
    wgValidateInnerPacket (ip6Header 0xff 0xff) = some .inet6 ∧
    (ip6Header 0xff 0xff).length = 40 ∧ declaredLen (ip6Header 0xff 0xff) .inet6 = 65575 ∧
    (Family.inet6,ip6Header 0xff 0xff) ∈
      ([⟨0,some (ip6Header 0xff 0xff)⟩].foldl (wgHandleMsgData 2048 fun _ _ => true)
        ⟨Sliwin.reset,[]⟩).input := by
  decide +kernel

end Length
end NanoBSD.Wg
