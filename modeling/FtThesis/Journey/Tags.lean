/-
The tags and the ids of a packet on its way through the masters.

* `toNat_idOf`, `base_idOf`, `version_idOf`, `firstId_inj`: the ids of the versions of a packet;
* `CarriesTags`: the tags of a version behind the MAC addresses and, perhaps, the TSA tag;
* `wholeFrame`, `createWPD_eq`: a frame that is logged as a whole;
* `carries_enter`, `CarriesTags.received`, `CarriesTags.work`: the tags of a new packet, of one
  that comes to a middlebox, and of one that has passed the middlebox;
* `record_eq`, `log_eq`, `forward_eq`: what the elements of a master do with a packet.
-/
import FtThesis.Elements.RoundTrip
import FtThesis.Journey.Network
import FtThesis.PacketId.Uniqueness

namespace FtThesis

/-! ### Ids -/

/-- A producer and a number there of a packet that got an id that is still its own. -/
def IsKey (key : ℕ × ℕ) : Prop := (1 ≤ key.1 ∧ key.1 ≤ 6) ∧ key.2 < seqPeriod

section

variable {key key' : ℕ × ℕ} {n : ℕ}

lemma toNat_firstId (hkey : IsKey key) :
    (firstId key).toNat = (key.1 * 2 ^ 28 + nthSeqNum key.1 key.2) * 32 + 1 := by
  have hs := (isSeqNum_iff.mp (isSeqNum_nthSeqNum key.1 key.2)).1
  have hlt := unifiedId_lt hkey.1.2 hs
  rw [firstId, UInt64.toNat_ofNat_of_lt' (by rw [UInt64.size]; omega), unifiedId_eq hkey.1.2 hs]

/-- The id of a version: the producer and the sequence number above the version. -/
lemma toNat_idOf (hkey : IsKey key) (hn : 1 ≤ n ∧ n ≤ 31) :
    (idOf key n).toNat = (key.1 * 2 ^ 28 + nthSeqNum key.1 key.2) * 32 + n := by
  have hs := (isSeqNum_iff.mp (isSeqNum_nthSeqNum key.1 key.2)).1
  have hp := hkey.1.2
  have hadd : (UInt64.ofNat (n - 1)).toNat = n - 1 :=
    UInt64.toNat_ofNat_of_lt' (by rw [UInt64.size]; omega)
  rw [idOf, UInt64.toNat_add, toNat_firstId hkey, hadd]
  omega

lemma base_idOf (hkey : IsKey key) (hn : 1 ≤ n ∧ n ≤ 31) :
    base (idOf key n) = base (firstId key) := by
  rw [← UInt64.toNat_inj, base_toNat, base_toNat, toNat_idOf hkey hn, toNat_firstId hkey]
  omega

lemma version_idOf (hkey : IsKey key) (hn : 1 ≤ n ∧ n ≤ 31) : version (idOf key n) = n := by
  rw [version_toNat, toNat_idOf hkey hn]
  omega

/-- Different packets have different bases. -/
lemma firstId_inj (hkey : IsKey key) (hkey' : IsKey key')
    (h : base (firstId key) = base (firstId key')) : key = key' := by
  have hs := (isSeqNum_iff.mp (isSeqNum_nthSeqNum key.1 key.2)).1
  have hs' := (isSeqNum_iff.mp (isSeqNum_nthSeqNum key'.1 key'.2)).1
  rw [← UInt64.toNat_inj, base_toNat, base_toNat, toNat_firstId hkey, toNat_firstId hkey'] at h
  obtain ⟨p, n⟩ := key
  obtain ⟨p', n'⟩ := key'
  simp only at h hs hs'
  obtain rfl : p = p' := by omega
  have hnum : nthSeqNum p n = nthSeqNum p n' := by omega
  rcases Nat.lt_trichotomy n n' with hlt | rfl | hlt
  · exact absurd hnum (nthSeqNum_inj hlt ((Nat.sub_le ..).trans_lt hkey'.2))
  · rfl
  · exact absurd hnum.symm (nthSeqNum_inj hlt ((Nat.sub_le ..).trans_lt hkey.2))

/-- The next version has the next id. -/
lemma idOf_succ (hn : 1 ≤ n) : idOf key (n + 1) = idOf key n + 1 := by
  obtain ⟨k, rfl⟩ := Nat.exists_eq_add_of_le' hn
  rw [idOf, idOf, Nat.add_sub_cancel, Nat.add_sub_cancel, UInt64.ofNat_add, ← UInt64.add_assoc]
  rfl

/-- The id of a version is that of its tags. -/
lemma idOf_eq_unifyVlans (hn : 1 ≤ n ∧ n ≤ 31) :
    idOf key n = UInt64.ofNat (unifyVlans (createInnerVlan key.1 (nthSeqNum key.1 key.2))
      (createMiddleVlan (nthSeqNum key.1 key.2))
      (createOuterVlan (nthSeqNum key.1 key.2) + (n - 1))) := by
  have hm := (isVlanId_middle (isSeqNum_nthSeqNum key.1 key.2)).2
  have ho := createOuterVlan_eq (nthSeqNum key.1 key.2)
  rw [idOf, firstId, unifiedId, ← UInt64.ofNat_add, unifyVlans_eq (by omega) (by omega),
    unifyVlans_eq (by omega) (by omega), ← Nat.add_assoc]

end

/-! ### Tags -/

/-- The frame has the tags of a version of the packet, behind the MAC addresses and as many tags
as the offset says. -/
def CarriesTags (key : ℕ × ℕ) (n offset : ℕ) (data : List UInt8) : Prop :=
  ∃ pre rest, pre.length = 12 + 4 * offset ∧
    data = taggedFrame pre (createOuterVlan (nthSeqNum key.1 key.2) + (n - 1))
      (createMiddleVlan (nthSeqNum key.1 key.2)) (createInnerVlan key.1 (nthSeqNum key.1 key.2))
      rest

section

variable {key : ℕ × ℕ} {n offset : ℕ} {data : List UInt8}

lemma length_tagged (pre rest : List UInt8) (o m i : ℕ) :
    (taggedFrame pre o m i rest).length = pre.length + 12 + rest.length := by
  simp [taggedFrame]
  omega

/-- The tags are in the first bytes. -/
lemma CarriesTags.congr {data' : List UInt8} (h : CarriesTags key n offset data)
    (hsame : data'.take (24 + 4 * offset) = data.take (24 + 4 * offset)) :
    CarriesTags key n offset data' := by
  obtain ⟨pre, rest, hpre, rfl⟩ := h
  set o := createOuterVlan (nthSeqNum key.1 key.2) + (n - 1)
  set m := createMiddleVlan (nthSeqNum key.1 key.2)
  set i := createInnerVlan key.1 (nthSeqNum key.1 key.2)
  refine ⟨pre, data'.drop (24 + 4 * offset), hpre, ?_⟩
  have hlen : (taggedFrame pre o m i []).length = 24 + 4 * offset := by
    rw [length_tagged, hpre, List.length_nil]
    omega
  have hfront (rest : List UInt8) :
      taggedFrame pre o m i rest = taggedFrame pre o m i [] ++ rest := by
    simp only [taggedFrame, List.append_assoc, List.append_nil]
  calc data' = data'.take (24 + 4 * offset) ++ data'.drop (24 + 4 * offset) :=
        (List.take_append_drop ..).symm
    _ = taggedFrame pre o m i [] ++ data'.drop (24 + 4 * offset) := by
        rw [hsame, hfront, List.take_left' hlen]
    _ = _ := (hfront _).symm

/-- What a middlebox does with a packet leaves its tags. -/
lemma CarriesTags.work {box : Middlebox} {p : Packet}
    (h : CarriesTags key n box.vlanLevelOffset p.data) :
    CarriesTags key n box.vlanLevelOffset (box.work p).data :=
  h.congr (box.keepsTags p)

/-- A packet comes to a middlebox with its TSA tag or without it. -/
lemma CarriesTags.received {p : Packet} (hoffset : offset ≤ 1) (h : CarriesTags key n 1 p.data) :
    CarriesTags key n offset (receivedAt offset p).data := by
  obtain ⟨pre, rest, hpre, hdata⟩ := h
  refine ⟨pre.take (12 + 4 * offset), rest, ?_, data_receivedAt hpre hdata hoffset⟩
  rw [List.length_take, hpre]
  omega

lemma length_receivedAt_le (p : Packet) : (receivedAt offset p).data.length ≤ p.data.length := by
  rw [receivedAt]
  split_ifs
  · simp only [List.length_append, List.length_take, List.length_drop]
    omega
  · exact le_rfl

/-- `PreparePacket` reads the id of the version. -/
lemma CarriesTags.packIdAnno {p : Packet} (h : CarriesTags key n offset p.data) (hkey : IsKey key)
    (hn : 1 ≤ n ∧ n ≤ 31) {e : PreparePacket} (he : e.vlanLevelOffset = offset)
    (hoffset : offset ≤ 1) (getPals : MbId → PacketId → PALSManager) :
    (e.smaction getPals p).packIdAnno = idOf key n := by
  obtain ⟨pre, rest, hpre, hdata⟩ := h
  have hs := isSeqNum_nthSeqNum key.1 key.2
  have ho := createOuterVlan_eq (nthSeqNum key.1 key.2)
  have hm := isVlanId_middle hs
  have hi := isVlanId_inner hkey.1 hs
  rw [idOf_eq_unifyVlans hn]
  refine packIdAnno_prepare getPals (he ▸ hoffset) (he ▸ hpre) ⟨by omega, by omega⟩
    ⟨hm.1, ?_⟩ ⟨hi.1, ?_⟩ hdata
  · have := hm.2
    omega
  · have := hi.2
    omega

lemma CarriesTags.readsId (h : CarriesTags key n offset data) (hkey : IsKey key)
    (hn : 1 ≤ n ∧ n ≤ 31) {e : PreparePacket} (he : e.vlanLevelOffset = offset)
    (hoffset : offset ≤ 1) (getPals : MbId → PacketId → PALSManager) :
    ReadsId e getPals data (idOf key n) :=
  fun _ hp => (hp.symm ▸ h).packIdAnno hkey hn he hoffset getPals

lemma CarriesTags.ne_nil (h : CarriesTags key n offset data) : data ≠ [] := by
  obtain ⟨pre, rest, -, rfl⟩ := h
  exact List.length_pos_iff.mp (by rw [length_tagged]; omega)

/-- `IncreaseVersionNumber` writes the next version behind the TSA tag. -/
lemma CarriesTags.increaseTci (h : CarriesTags key n 1 data) (hn : 1 ≤ n ∧ n ≤ 31) :
    CarriesTags key (n + 1) 1 (increaseTci data) := by
  obtain ⟨pre, rest, hpre, rfl⟩ := h
  have ho := createOuterVlan_eq (nthSeqNum key.1 key.2)
  refine ⟨pre, rest, hpre, ?_⟩
  rw [increaseTci_taggedFrame hpre (by omega)]
  congr 1
  omega

end

lemma length_increaseTci (data : List UInt8) : (increaseTci data).length = data.length := by
  rw [increaseTci]
  split_ifs <;> simp

/-! ### The elements -/

/-- A frame that is logged as a whole. -/
def wholeFrame (packetId : PacketId) (frame : List UInt8) (h : frame.length < 2 ^ 16) :
    WrappedPacketData where
  packetId := packetId
  offset := 0
  size := UInt16.ofNat frame.length
  data := frame
  length_data := (UInt16.toNat_ofNat_of_lt' h).symm

lemma createWPD_eq {p : Packet} (h : p.data.length < 2 ^ 16) :
    createWPD p false = some (wholeFrame p.packIdAnno p.data h) := by
  have hsize : (UInt16.ofNat p.data.length).toNat = p.data.length := UInt16.toNat_ofNat_of_lt' h
  have hdata : ((List.range (UInt16.ofNat p.data.length).toNat).map fun i => p.data.getD i 0)
      = p.data := by
    rw [hsize]
    refine List.ext_getElem (by simp) fun i hi hi' => ?_
    simp [hi']
  have hwpd : createWPD p false = some ⟨p.packIdAnno, 0, UInt16.ofNat p.data.length,
      (List.range (UInt16.ofNat p.data.length).toNat).map fun i => p.data.getD i 0, by simp⟩ := rfl
  rw [hwpd, wholeFrame]
  simp only [hdata]

/-- A new packet has the tags of its first version, and is logged with them. -/
lemma enter_eq {p n : ℕ} (hp : 1 ≤ p ∧ p ≤ 6) {packet : Packet} (hlen : 16 ≤ packet.data.length)
    (hsize : packet.data.length + 12 < 2 ^ 16) :
    ∃ (q : Packet) (hq : q.data.length < 2 ^ 16), CarriesTags (p, n) 1 1 q.data ∧
      PacketIdEncap.smaction ⟨genAfter p n, true, false⟩ packet
        = (q, some (wholeFrame (firstId (p, n)) q.data hq), ⟨genAfter p (n + 1), true, false⟩) := by
  set e : PacketIdEncap := ⟨genAfter p n, true, false⟩ with he
  have hgen : e.generator = genAfter p n := rfl
  have hpre : (packet.data.take 16).length = 16 := by
    rw [List.length_take]
    omega
  have hdata := data_smaction hp hgen hlen
  have hq : (e.smaction packet).1.data.length < 2 ^ 16 := by
    rw [hdata, length_tagged, hpre, List.length_drop]
    omega
  have hid : (e.smaction packet).1.packIdAnno = firstId (p, n) := packIdAnno_smaction hgen
  have hlogged : (e.smaction packet).2.1 = createWPD (e.smaction packet).1 false := rfl
  refine ⟨_, hq, ⟨packet.data.take 16, packet.data.drop 16, hpre, hdata⟩, ?_⟩
  rw [createWPD_eq hq, hid] at hlogged
  exact Prod.ext rfl (Prod.ext hlogged rfl)

/-- What a master stores for a packet. -/
def masterRecord (mb : MbId) (packId : PacketId) : PALSManager :=
  { dummyPals with middleboxId := mb, packetId := packId }

@[simp] lemma middleboxId_masterRecord (mb : MbId) (packId : PacketId) :
    (masterRecord mb packId).middleboxId = mb := rfl

@[simp] lemma packetId_masterRecord (mb : MbId) (packId : PacketId) :
    (masterRecord mb packId).packetId = packId := rfl

section

variable (mb : MbId) {box : Middlebox} {key : ℕ × ℕ} {n : ℕ} {p : Packet}

/-- The first two elements store the id, and leave the frame. -/
lemma record_eq (hkey : IsKey key) (hn : 1 ≤ n ∧ n ≤ 31)
    (h : CarriesTags key n box.vlanLevelOffset p.data) :
    ∃ q : Packet, q.data = p.data ∧
      (box.elements mb).dpr.smaction ((box.elements mb).pp.smaction PALSManager.new p)
        = (q, some (.detLogger, masterRecord mb (idOf key n))) := by
  have hid := h.packIdAnno hkey hn (e := (box.elements mb).pp.toPreparePacket) rfl box.offset_le
    PALSManager.new
  refine ⟨{ (box.elements mb).pp.smaction PALSManager.new p with palsManagerAnno := none }, rfl, ?_⟩
  rw [masterRecord, ← hid]
  rfl

/-- The next elements log the frame with the next version. -/
lemma log_eq (hkey : IsKey key) (hn : 1 ≤ n ∧ n ≤ 30)
    (h : CarriesTags key n box.vlanLevelOffset p.data) (hsize : p.data.length < 2 ^ 16) :
    ∃ (q : Packet) (hq : q.data.length < 2 ^ 16), q.data ≠ [] ∧
      q.packIdAnno = idOf key (n + 1) ∧ q.palsManagerAnno = some dummyPals ∧
      (box.vlanLevelOffset = 1 → CarriesTags key (n + 1) 1 q.data) ∧
      (box.elements mb).ivn.smaction ((box.elements mb).pp1.smaction PALSManager.new (box.work p))
        = (q, some (some ⟨.packetLogger, true⟩, wholeFrame (idOf key (n + 1)) q.data hq)) := by
  have hid := h.work.packIdAnno hkey ⟨hn.1, by omega⟩ (e := (box.elements mb).pp1.toPreparePacket)
    rfl box.offset_le PALSManager.new
  set e := (box.elements mb).ivn.toIncreaseVersionNumber with he
  set q := (e.smaction ((box.elements mb).pp1.smaction PALSManager.new (box.work p))).1 with hqdef
  have hdata : q.data = increaseTci (box.work p).data := rfl
  have hq : q.data.length < 2 ^ 16 := by
    rw [hdata, length_increaseTci]
    exact box.keepsSize p hsize
  have hanno : q.packIdAnno = idOf key (n + 1) := by
    rw [idOf_succ hn.1, ← hid]
    rfl
  have hne : q.data ≠ [] := by
    rw [hdata, ← List.length_pos_iff, length_increaseTci]
    exact List.length_pos_iff.mpr h.work.ne_nil
  refine ⟨q, hq, hne, hanno, rfl, fun hone => ?_, ?_⟩
  · rw [hdata]
    exact (hone ▸ h.work).increaseTci ⟨hn.1, by omega⟩
  · have hlogged : (e.smaction ((box.elements mb).pp1.smaction PALSManager.new (box.work p))).2
        = createWPD q false := rfl
    rw [createWPD_eq hq, hanno] at hlogged
    rw [ConnectedIncreaseVersionNumber.smaction, ← he]
    exact Prod.ext rfl
      (congrArg (Option.map fun wpd => ((box.elements mb).ivn.client, wpd)) hlogged)

/-- The last element stores the id that the packet has then. -/
lemma forward_eq (hpals : p.palsManagerAnno = some dummyPals) :
    (box.elements mb).dpr1.smaction p = ({ p with palsManagerAnno := none },
      some (.detLogger, masterRecord mb p.packIdAnno)) := by
  have hsent : (box.elements mb).dpr1.smactionMaster p
      = some (.detLogger, masterRecord mb p.packIdAnno) := by
    rw [DistributePacketRecords.smactionMaster, hpals]
    rfl
  rw [DistributePacketRecords.smaction, hsent]
  rfl

end

end FtThesis
