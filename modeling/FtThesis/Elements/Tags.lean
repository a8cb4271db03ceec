/-
Do the id in the frame and the id annotation of a packet stay the same id?

* `taggedFrame`: the frame of an id, with and without the TSA tag in front;
* `data_encapsulated`, `data_increaseVersions`: it is what
  `PacketIdEncap` and the version increases behind it leave;
* `packIdAnno_prepare`: what `PreparePacket` reads from it;
* `increaseTci_taggedFrame`: with the TSA tag in front the outer tag is increased,
  without it the middle one;
* `receivedAt`, `ReadsId`: a packet that comes over the network, and the id that is read from
  the bytes of a frame;
* `idsAgree_iff`: in which of the layouts the two ids agree after an increase;
* `not_idsAgree_without_tsa_tag`: a packet for which they do not.
-/
import FtThesis.Elements.Packet

namespace FtThesis

/-! ### Tagged frames -/

/-- A frame: `pre`, the three tags of an id, and the rest. -/
def taggedFrame (pre : List UInt8) (outerVlan middleVlan innerVlan : ℕ) (rest : List UInt8) :
    List UInt8 :=
  pre ++ (tag outerVlan ++ (tag middleVlan ++ (tag innerVlan ++ rest)))

section

variable {pre rest : List UInt8} {o m i : ℕ}

/-- `PreparePacket` reads the id of the tags that follow the level offset. -/
lemma packIdAnno_prepare {e : PreparePacket} (getPals : MbId → PacketId → PALSManager)
    {p : Packet} (hoffset : e.vlanLevelOffset ≤ 1) (hpre : pre.length = 12 + 4 * e.vlanLevelOffset)
    (ho : 0 < o ∧ o < 65536) (hm : 0 < m ∧ m < 65536) (hi : 0 < i ∧ i < 65536)
    (hp : p.data = taggedFrame pre o m i rest) :
    (e.smaction getPals p).packIdAnno = UInt64.ofNat (unifyVlans i m o) := by
  have hpre₁ : (pre ++ tag o).length = 16 + 4 * e.vlanLevelOffset := by
    simp [hpre]
    omega
  have hpre₂ : (pre ++ tag o ++ tag m).length = 20 + 4 * e.vlanLevelOffset := by
    simp [hpre]
    omega
  have houter : extractVlanByLevel p e.vlanLevelOffset = o := by
    rw [extractVlanByLevel, if_neg (by omega), hp, taggedFrame,
      if_pos (ntohs_append_tag (by omega) _ _), ntohs_append_tag_tci (by omega) ho.2]
  have hmiddle : extractVlanByLevel p (e.vlanLevelOffset + 1) = m := by
    rw [extractVlanByLevel, if_neg (by omega), hp, taggedFrame, ← List.append_assoc,
      if_pos (ntohs_append_tag (by omega) _ _), ntohs_append_tag_tci (by omega) hm.2]
  have hinner : extractVlanByLevel p (e.vlanLevelOffset + 2) = i := by
    rw [extractVlanByLevel, if_neg (by omega), hp, taggedFrame, ← List.append_assoc,
      ← List.append_assoc, if_pos (ntohs_append_tag (by omega) _ _),
      ntohs_append_tag_tci (by omega) hi.2]
  simp [PreparePacket.smaction, houter, hmiddle, hinner, ho.1, hm.1, hi.1]

/-- Behind the MAC addresses and a TSA tag, the outer tag is increased. -/
lemma increaseTci_taggedFrame (hpre : pre.length = 16) (ho : o < 65535) :
    increaseTci (taggedFrame pre o m i rest) = taggedFrame pre (o + 1) m i rest :=
  increaseTci_append hpre ho _

/-- Behind the MAC addresses alone, the middle tag is increased. -/
lemma increaseTci_taggedFrame_of_no_tsa (hpre : pre.length = 12) (hm : m < 65535) :
    increaseTci (taggedFrame pre o m i rest) = taggedFrame pre o (m + 1) i rest := by
  have hpre' : (pre ++ tag o).length = 16 := by simp [hpre]
  rw [taggedFrame, ← List.append_assoc, increaseTci_append hpre' hm, taggedFrame,
    List.append_assoc]

end

/-! ### The packets that reach a middlebox -/

/-- The packet that a `PacketIdEncap` of producer `p` makes of its packet number
`n`, from `0`. -/
def encapsulated (p n : ℕ) (packet : Packet) : Packet :=
  (PacketIdEncap.smaction ⟨genAfter p n, true, false⟩ packet).1

/-- A packet after `k` version increases with the TSA tag in front. -/
def increaseVersions (e : IncreaseVersionNumber) : ℕ → Packet → Packet
  | 0, p => p
  | k + 1, p => (e.smaction (increaseVersions e k p)).1

/-- The packet that a middlebox with the given level offset receives: the frame with the TSA
tag, or with this tag removed by the switch.  The annotations of the sender do not come over the
network. -/
def receivedAt (vlanLevelOffset : ℕ) (p : Packet) : Packet where
  data := if vlanLevelOffset = 0 then p.data.take 12 ++ p.data.drop 16 else p.data
  macHeader := some 0
  networkHeaderOffset := 0
  transportHeaderOffset := none
  packIdAnno := 0
  palsManagerAnno := none

/-- `PreparePacket` reads the id from the bytes of a frame, whatever the annotations of its
packet. -/
def ReadsId (prepare : PreparePacket) (getPals : MbId → PacketId → PALSManager)
    (data : List UInt8) (packId : PacketId) : Prop :=
  ∀ p : Packet, p.data = data → (prepare.smaction getPals p).packIdAnno = packId

/-- The id of a frame, the annotation and the frame after an increase of the version
are as they should be: the id that is read from the frame is the old one, the annotation
becomes the old id plus one, of the same base, and so does the id that is read from the frame,
and no byte of the frame but the last one of the outer tag is changed. -/
def IdsAgree (prepare : PreparePacket) (getPals : MbId → PacketId → PALSManager)
    (increase : IncreaseVersionNumber) (oldId : PacketId) (p : Packet) : Prop :=
  let after := (increase.smaction (prepare.smaction getPals p)).1
  ReadsId prepare getPals p.data oldId ∧
    after.packIdAnno = oldId + 1 ∧
    base after.packIdAnno = base oldId ∧
    ReadsId prepare getPals after.data after.packIdAnno ∧
    after.data.length = p.data.length ∧
    ∀ j, j ≠ 15 + 4 * prepare.vlanLevelOffset → after.data[j]? = p.data[j]?

section

variable {p n : ℕ} (packet : Packet)

/-- The tags are put behind the first sixteen bytes. -/
lemma data_encapsulated (hp : 1 ≤ p ∧ p ≤ 6) (hlen : 16 ≤ packet.data.length) :
    (encapsulated p n packet).data =
      taggedFrame (packet.data.take 16) (createOuterVlan (nthSeqNum p n))
        (createMiddleVlan (nthSeqNum p n)) (createInnerVlan p (nthSeqNum p n))
        (packet.data.drop 16) := by
  have hs := isSeqNum_nthSeqNum p n
  have hpush : ∀ (q : Packet) (x : List UInt8) (tci : ℕ), IsVlanId tci →
      q.data = packet.data.take 16 ++ x →
      (pushVlanLayer q tci).data = packet.data.take 16 ++ (tag tci ++ x) := by
    intro q x tci htci hq
    have htake : (packet.data.take 16).length = 16 := by simp [hlen]
    rw [pushVlanLayer_data htci, hq, List.take_left' htake, List.drop_left' htake]
  have hgen : (genAfter p n).getNexSeqNum.1 = nthSeqNum p n := rfl
  simp only [encapsulated, PacketIdEncap.smaction, genAfter_producerId, hgen]
  refine hpush _ _ _ (isVlanId_outer _) (hpush _ _ _ (isVlanId_middle hs) (hpush _ _ _
    (isVlanId_inner hp hs) (List.take_append_drop 16 _).symm))

/-- Each increase raises the outer tag, which has room for versions. -/
lemma data_increaseVersions (e : IncreaseVersionNumber) (hp : 1 ≤ p ∧ p ≤ 6)
    (hlen : 16 ≤ packet.data.length) {k : ℕ} (hk : k < 30) :
    (increaseVersions e k (encapsulated p n packet)).data =
      taggedFrame (packet.data.take 16) (createOuterVlan (nthSeqNum p n) + k)
        (createMiddleVlan (nthSeqNum p n)) (createInnerVlan p (nthSeqNum p n))
        (packet.data.drop 16) := by
  induction k with
  | zero => exact data_encapsulated packet hp hlen
  | succ k ih =>
      have ho := (isVlanId_outer (nthSeqNum p n)).2
      rw [increaseVersions, IncreaseVersionNumber.smaction, ih (by omega)]
      exact increaseTci_taggedFrame (by simp [hlen]) (by omega)

/-- The frame that a middlebox receives, with the TSA tag or without it. -/
lemma data_receivedAt {q : Packet} {pre rest : List UInt8} {o m i : ℕ} (hpre : pre.length = 16)
    (hq : q.data = taggedFrame pre o m i rest) {offset : ℕ} (hoffset : offset ≤ 1) :
    (receivedAt offset q).data = taggedFrame (pre.take (12 + 4 * offset)) o m i rest := by
  obtain rfl | rfl : offset = 0 ∨ offset = 1 := by omega
  · have htake : (taggedFrame pre o m i rest).take 12 = pre.take 12 :=
      List.take_append_of_le_length (by omega)
    have hdrop : (taggedFrame pre o m i rest).drop 16 = tag o ++ (tag m ++ (tag i ++ rest)) :=
      List.drop_left' hpre
    simp only [receivedAt, if_pos, hq, htake, hdrop]
    rw [taggedFrame]
  · simp only [receivedAt, if_neg one_ne_zero, hq]
    rw [List.take_of_length_le (by omega)]

/-- An increase of the outer tag changes its last byte only, as long as the version
does not overflow. -/
lemma getElem_taggedFrame_succ {pre rest : List UInt8} {o m i j : ℕ} (ho : o % 256 < 255)
    (hj : j ≠ pre.length + 3) :
    (taggedFrame pre (o + 1) m i rest)[j]? = (taggedFrame pre o m i rest)[j]? := by
  have hhi : (o + 1) / 256 = o / 256 := by omega
  have hset : taggedFrame pre (o + 1) m i rest
      = (taggedFrame pre o m i rest).set (pre.length + 3) (UInt8.ofNat (o + 1)) := by
    simp [taggedFrame, tag, htons, hhi]
  rw [hset, List.getElem?_set_ne (Ne.symm hj)]

end

/-- An id with the next version has the same base, as long as the version does not
overflow. -/
lemma base_succ {id : PacketId} (h : version id < 31) : base (id + 1) = base id := by
  rw [version_toNat] at h
  have hlt := id.toNat_lt
  have hadd : (id + 1).toNat = (id.toNat + 1) % 2 ^ 64 := by simp
  rw [← UInt64.toNat_inj, base_toNat, base_toNat, hadd]
  omega

/-! ### The two layouts -/

section

variable {prepare : PreparePacket} (getPals : MbId → PacketId → PALSManager)
  (increase : IncreaseVersionNumber) {q : Packet} {pre rest : List UInt8} {o m i : ℕ}

/-- The id of the tags behind the level offset is read from every packet with them. -/
lemma readsId_taggedFrame (hoffset : prepare.vlanLevelOffset ≤ 1)
    (hpre : pre.length = 12 + 4 * prepare.vlanLevelOffset) (ho : 0 < o ∧ o < 65536)
    (hm : 0 < m ∧ m < 65536) (hi : 0 < i ∧ i < 65536) :
    ReadsId prepare getPals (taggedFrame pre o m i rest) (UInt64.ofNat (unifyVlans i m o)) :=
  fun _ hp => packIdAnno_prepare getPals hoffset hpre ho hm hi hp

/-- With the TSA tag in front, the two ids agree. -/
lemma idsAgree_of_tsa_tag (hoffset : prepare.vlanLevelOffset = 1) (hpre : pre.length = 16)
    (ho : 0 < o ∧ o < 4095) (hversion : o % 32 < 31) (hm : 0 < m ∧ m < 4096)
    (hi : 0 < i ∧ i < 4096) (hq : q.data = taggedFrame pre o m i rest) :
    IdsAgree prepare getPals increase (UInt64.ofNat (unifyVlans i m o)) q := by
  have hbefore : ReadsId prepare getPals q.data (UInt64.ofNat (unifyVlans i m o)) := by
    rw [hq]
    exact readsId_taggedFrame getPals (by omega) (by omega) (by omega) (by omega) (by omega)
  have hanno : (increase.smaction (prepare.smaction getPals q)).1.packIdAnno
      = UInt64.ofNat (unifyVlans i m o) + 1 := congrArg (· + 1) (hbefore q rfl)
  have hafter : (increase.smaction (prepare.smaction getPals q)).1.data
      = taggedFrame pre (o + 1) m i rest := by
    rw [← increaseTci_taggedFrame hpre (by omega), ← hq]
    rfl
  have hsucc : unifyVlans i m (o + 1) = unifyVlans i m o + 1 := by
    rw [unifyVlans_eq hm.2 (by omega), unifyVlans_eq hm.2 (by omega)]
    omega
  refine ⟨hbefore, hanno, ?_, ?_, ?_, ?_⟩
  · rw [hanno]
    refine base_succ ?_
    rw [version_toNat, unifyVlans_eq hm.2 (by omega), UInt64.toNat_ofNat']
    omega
  · have hread : ReadsId prepare getPals (taggedFrame pre (o + 1) m i rest)
        (UInt64.ofNat (unifyVlans i m (o + 1))) :=
      readsId_taggedFrame getPals (by omega) (by omega) (by omega) (by omega) (by omega)
    rwa [hsucc, UInt64.ofNat_add, UInt64.ofNat_one, ← hanno, ← hafter] at hread
  · rw [hafter, hq]
    simp [taggedFrame]
  · intro j hj
    rw [hafter, hq]
    exact getElem_taggedFrame_succ (by omega) (by omega)

/-- Without the TSA tag, the middle tag is increased, so the id that is read is
larger by `4096`. -/
lemma not_idsAgree_of_no_tsa_tag (hoffset : prepare.vlanLevelOffset = 0) (hpre : pre.length = 12)
    (ho : 0 < o ∧ o < 4096) (hm : 0 < m ∧ m < 4095) (hi : 0 < i ∧ i < 4096)
    (hq : q.data = taggedFrame pre o m i rest) :
    ¬ IdsAgree prepare getPals increase (UInt64.ofNat (unifyVlans i m o)) q := by
  rintro ⟨-, hanno, -, hreads, -⟩
  have hafter : (increase.smaction (prepare.smaction getPals q)).1.data
      = taggedFrame pre o (m + 1) i rest := by
    rw [← increaseTci_taggedFrame_of_no_tsa hpre (by omega), ← hq]
    rfl
  have hread : ReadsId prepare getPals (taggedFrame pre o (m + 1) i rest)
      (UInt64.ofNat (unifyVlans i (m + 1) o)) :=
    readsId_taggedFrame getPals (by omega) (by omega) (by omega) (by omega) (by omega)
  have hsame := (hreads _ rfl).symm.trans (hread _ hafter)
  rw [hanno, unifyVlans_eq (by omega) ho.2, unifyVlans_eq (by omega) ho.2] at hsame
  have hnat := congrArg UInt64.toNat hsame
  simp only [UInt64.toNat_add, UInt64.toNat_ofNat', UInt64.toNat_one] at hnat
  omega

end

/-- The id of a packet after `k` version increases. -/
def encodedId (p n k : ℕ) : PacketId := UInt64.ofNat (unifiedId p (nthSeqNum p n)) + UInt64.ofNat k

/-- It is that of the tags of the packet. -/
lemma encodedId_eq {p n k : ℕ} (hk : k < 30) :
    encodedId p n k = UInt64.ofNat (unifyVlans (createInnerVlan p (nthSeqNum p n))
      (createMiddleVlan (nthSeqNum p n)) (createOuterVlan (nthSeqNum p n) + k)) := by
  have hm := (isVlanId_middle (isSeqNum_nthSeqNum p n)).2
  have ho := createOuterVlan_eq (nthSeqNum p n)
  rw [encodedId, unifiedId, ← UInt64.ofNat_add, unifyVlans_eq (by omega) (by omega),
    unifyVlans_eq (by omega) (by omega), ← Nat.add_assoc]

/-- **The id in the frame and the id annotation.**  For every packet that a
`PacketIdEncap` has tagged, with every version below `30`, at a middlebox with the
TSA tag in front of the id tags or without it: the two ids agree after the version
is increased exactly when the TSA tag is there. -/
theorem idsAgree_iff {p n k : ℕ} (hp : 1 ≤ p ∧ p ≤ 6) (hk : k + 1 < 30) {packet : Packet}
    (hlen : 16 ≤ packet.data.length) {prepare : PreparePacket}
    (hoffset : prepare.vlanLevelOffset ≤ 1) (getPals : MbId → PacketId → PALSManager)
    (upstream increase : IncreaseVersionNumber) :
    IdsAgree prepare getPals increase (encodedId p n k)
        (receivedAt prepare.vlanLevelOffset (increaseVersions upstream k (encapsulated p n packet)))
      ↔ prepare.vlanLevelOffset = 1 := by
  have hs := isSeqNum_nthSeqNum p n
  obtain ⟨ho, ho'⟩ := isVlanId_outer (nthSeqNum p n)
  obtain ⟨hm, hm'⟩ := isVlanId_middle hs
  obtain ⟨hi, hi'⟩ := isVlanId_inner hp hs
  have hversion := createOuterVlan_eq (nthSeqNum p n)
  have hdata := data_receivedAt (by simp [hlen])
    (data_increaseVersions (n := n) packet upstream hp hlen (show k < 30 by omega)) hoffset
  have hpre : ((packet.data.take 16).take (12 + 4 * prepare.vlanLevelOffset)).length
      = 12 + 4 * prepare.vlanLevelOffset := by
    simp
    omega
  rw [encodedId_eq (show k < 30 by omega)]
  constructor
  · intro h
    by_contra hne
    exact not_idsAgree_of_no_tsa_tag getPals increase (by omega) (by omega) (by omega) (by omega)
      (by omega) hdata h
  · intro hone
    exact idsAgree_of_tsa_tag getPals increase hone (by omega) (by omega) (by omega) (by omega)
      (by omega) hdata

/-- A packet of sixty zeros. -/
def zeroPacket : Packet := ⟨List.replicate 60 0, some 0, 14, none, 0, none⟩

lemma length_zeroPacket : 16 ≤ zeroPacket.data.length := by decide

/-- The second packet of producer `6`, in its fourth version, at a middlebox behind the TSA tag. -/
theorem idsAgree_behind_tsa_tag :
    IdsAgree ⟨6, .master, 1⟩ (fun _ _ => dummyPals) ⟨true, false⟩ (encodedId 6 1 3)
      (receivedAt 1 (increaseVersions ⟨true, false⟩ 3 (encapsulated 6 1 zeroPacket))) := by
  let prepare : PreparePacket := ⟨6, .master, 1⟩
  have hoffset : prepare.vlanLevelOffset ≤ 1 := le_rfl
  exact (idsAgree_iff (by decide) (by decide) length_zeroPacket hoffset _ _ _).mpr rfl

/-- The first packet of producer `1`, at a middlebox that is configured for frames
without the TSA tag: the ids do not agree. -/
theorem not_idsAgree_without_tsa_tag :
    ¬ ∀ (p n k : ℕ) (packet : Packet) (prepare : PreparePacket)
      (getPals : MbId → PacketId → PALSManager) (upstream increase : IncreaseVersionNumber),
      1 ≤ p ∧ p ≤ 6 → k + 1 < 30 → 16 ≤ packet.data.length → prepare.vlanLevelOffset ≤ 1 →
      IdsAgree prepare getPals increase (encodedId p n k)
        (receivedAt prepare.vlanLevelOffset
          (increaseVersions upstream k (encapsulated p n packet))) := by
  intro h
  let prepare : PreparePacket := ⟨6, .master, 0⟩
  let increase : IncreaseVersionNumber := ⟨true, false⟩
  have hp : 1 ≤ 1 ∧ 1 ≤ 6 := by decide
  obtain ⟨ho, ho'⟩ := isVlanId_outer (nthSeqNum 1 0)
  obtain ⟨hm, hm'⟩ := isVlanId_middle (isSeqNum_nthSeqNum 1 0)
  obtain ⟨hi, hi'⟩ := isVlanId_inner hp (isSeqNum_nthSeqNum 1 0)
  have hdata := data_receivedAt (by decide) (data_increaseVersions (n := 0) zeroPacket increase hp
    length_zeroPacket (show 0 < 30 by decide)) (show prepare.vlanLevelOffset ≤ 1 by decide)
  have hagree := h 1 0 0 zeroPacket prepare (fun _ _ => dummyPals) increase increase hp (by decide)
    length_zeroPacket (by decide)
  rw [encodedId_eq (show 0 < 30 by decide)] at hagree
  exact not_idsAgree_of_no_tsa_tag (fun _ _ => dummyPals) increase rfl (by decide) (by omega)
    (by omega) (by omega) hdata hagree

end FtThesis
