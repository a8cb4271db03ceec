/-
Packets, and the Click elements that write and read the id of a packet.

The id stands in the VLAN ids of three tags, behind the two MAC addresses and,
as long as the switch has not removed it, the TSA tag.

* `Packet`: a frame with its annotations;
* `ntohs`, `tag`: a 16-bit number in a frame, and a VLAN tag;
* `pushVlanLayer`, `PacketIdEncap.smaction`: the tags and the annotation of a new
  id;
* `extractVlanByLevel`, `PreparePacket.smaction`: the id that stands in a frame
  becomes the annotation;
* `IncreaseVersionNumber.smaction`: the next version of a packet;
* `ntohs_append_tag`, `pushVlanLayer_data`, `increaseTci_append`: what these make of
  a frame with a tag.
-/
import FtThesis.DetLogger.PalsManager
import FtThesis.PacketId.Generator
import FtThesis.PacketLogger.Server

namespace FtThesis

/-! ### Frames -/

/-- A packet: the bytes from `data()` to `end_data()`, where its headers start
(from `data()`, if set), and its annotations. -/
structure Packet where
  data : List UInt8
  macHeader : Option ℕ
  networkHeaderOffset : ℕ
  transportHeaderOffset : Option ℕ
  packIdAnno : PacketId
  palsManagerAnno : Option PALSManager

/-- The 16-bit number in network order at place `i`.  Behind the end of the frame
the bytes are taken as `0`. -/
def ntohs (data : List UInt8) (i : ℕ) : ℕ :=
  (data.getD i 0).toNat * 256 + (data.getD (i + 1) 0).toNat

/-- The two bytes of a 16-bit number in network order. -/
def htons (v : ℕ) : List UInt8 := [UInt8.ofNat (v / 256), UInt8.ofNat v]

/-- `ETHERTYPE_8021Q`. -/
def ethertype8021Q : ℕ := 0x8100

/-- A VLAN tag. -/
def tag (tci : ℕ) : List UInt8 := htons ethertype8021Q ++ htons tci

@[simp] lemma length_tag (tci : ℕ) : (tag tci).length = 4 := rfl

lemma ntohs_append (pre data : List UInt8) (i : ℕ) :
    ntohs (pre ++ data) (pre.length + i) = ntohs data i := by
  simp [ntohs, List.getElem?_append_right, Nat.add_assoc]

lemma ntohs_htons_append {v : ℕ} (hv : v < 65536) (data : List UInt8) :
    ntohs (htons v ++ data) 0 = v := by
  have hhi : (UInt8.ofNat (v / 256)).toNat = v / 256 :=
    UInt8.toNat_ofNat_of_lt' (by simp [UInt8.size]; omega)
  have hlo : (UInt8.ofNat v).toNat = v % 256 := UInt8.toNat_ofNat'
  simp only [ntohs, htons, List.cons_append, List.nil_append, List.getD_cons_zero,
    List.getD_cons_succ, hhi, hlo]
  omega

/-- The type field of a tag. -/
lemma ntohs_append_tag {pre : List UInt8} {i : ℕ} (hi : i = pre.length) (tci : ℕ)
    (rest : List UInt8) : ntohs (pre ++ (tag tci ++ rest)) i = ethertype8021Q := by
  have h := ntohs_append pre (tag tci ++ rest) 0
  rw [tag, List.append_assoc, ntohs_htons_append (by decide)] at h
  rw [hi, tag, List.append_assoc]
  exact h

/-- The VLAN id of a tag. -/
lemma ntohs_append_tag_tci {pre : List UInt8} {i tci : ℕ} (hi : i = pre.length + 2)
    (htci : tci < 65536) (rest : List UInt8) : ntohs (pre ++ (tag tci ++ rest)) i = tci := by
  have h := ntohs_append (pre ++ htons ethertype8021Q) (htons tci ++ rest) 0
  rw [ntohs_htons_append htci] at h
  rw [hi, tag, List.append_assoc, ← List.append_assoc]
  simpa [htons] using h

/-! ### `PacketIdEncap` -/

/-- `pushVlanLayer`: a new tag behind the MAC addresses and the tag that follows
them.  A tag with the VLAN id `0` is not written. -/
def pushVlanLayer (p : Packet) (vlanTci : ℕ) : Packet :=
  if vlanTci &&& 0xFFF = 0 then { p with macHeader := some 0, networkHeaderOffset := 14 }
  else
    { p with
      data := p.data.take 16 ++ (tag vlanTci ++ p.data.drop 16)
      macHeader := some 0
      networkHeaderOffset := 8 }

lemma pushVlanLayer_data {p : Packet} {tci : ℕ} (h : IsVlanId tci) :
    (pushVlanLayer p tci).data = p.data.take 16 ++ (tag tci ++ p.data.drop 16) := by
  have hand : tci &&& 0xFFF = tci % 4096 := Nat.and_two_pow_sub_one_eq_mod tci 12
  rw [pushVlanLayer, if_neg]
  rw [hand, Nat.mod_eq_of_lt (by have := h.2; omega)]
  have := h.1
  omega

/-- `getHeadersLen`, where `none` is for `-1`. -/
def getHeadersLen (p : Packet) : Option ℕ :=
  if p.macHeader = some 0 then some (14 + 20)
  else
    match p.transportHeaderOffset with
    | none => some (p.networkHeaderOffset + 20)
    | some transport =>
        let ipP := p.data.getD (p.networkHeaderOffset + 9) 0
        if ipP = 6 then
          let thOff := (p.data.getD (transport + 12) 0).toNat / 16
          some (p.networkHeaderOffset + 20 + thOff * 4)
        else if ipP = 17 then some (p.networkHeaderOffset + 20 + ntohs p.data (transport + 4))
        else none

/-- `createWPD`: what is logged of a packet, where `none` is for `NULL`.  Behind the
end of the frame the bytes are taken as `0`. -/
def createWPD (p : Packet) (onlyHeader : Bool) : Option WrappedPacketData :=
  let len := if onlyHeader then getHeadersLen p else some p.data.length
  len.map fun len =>
    { packetId := p.packIdAnno
      offset := 0
      size := UInt16.ofNat len
      data := (List.range (UInt16.ofNat len).toNat).map fun i => p.data.getD i 0
      length_data := by simp }

/-- The state of a `PacketIdEncap`. -/
structure PacketIdEncap where
  generator : SeqGenerator
  isMasterMode : Bool
  onlyHeader : Bool

/-- `PacketIdEncap::smaction`: the tagged packet, what is sent to the packet logger,
and the state after it. -/
def PacketIdEncap.smaction (e : PacketIdEncap) (p : Packet) :
    Packet × Option WrappedPacketData × PacketIdEncap :=
  let (nextSeqNum, generator) := e.generator.getNexSeqNum
  let innerVlan := createInnerVlan e.generator.producerId nextSeqNum
  let middleVlan := createMiddleVlan nextSeqNum
  let outerVlan := createOuterVlan nextSeqNum
  let unified := unifyVlans innerVlan middleVlan outerVlan
  let q := pushVlanLayer (pushVlanLayer (pushVlanLayer p innerVlan) middleVlan) outerVlan
  let q := { q with packIdAnno := UInt64.ofNat unified }
  (q, if e.isMasterMode then createWPD q e.onlyHeader else none, { e with generator := generator })

/-! ### `PreparePacket` -/

/-- `extractVlanByLevel`. -/
def extractVlanByLevel (p : Packet) (level : ℕ) : ℕ :=
  if 3 < level then 0
  else if ntohs p.data (12 + 4 * level) = ethertype8021Q then ntohs p.data (14 + 4 * level)
  else 0

/-- The modes of a middlebox. -/
inductive MbState
  | master
  | recovering
  | slave
  | error
deriving DecidableEq

/-- The state of a `PreparePacket`. -/
structure PreparePacket where
  masterMbId : MbId
  mbState : MbState
  vlanLevelOffset : ℕ

/-- The dummy determinants of a packet at a master.  The bytes behind the string
`"test"`, which are copied with it, are taken as `0`. -/
def dummyPals : PALSManager where
  middleboxId := 0
  packetId := 0
  gpalList := [⟨1, Vector.ofFn fun i => [116, 101, 115, 116].getD i 0⟩]
  spalList := []
  gpalList_le := by decide
  spalList_le := Nat.zero_le _

/-- `PreparePacket::smaction`, with the answer of the determinant logger to
`getPals`.  In the other modes the reference to the determinants is left
undefined. -/
def PreparePacket.smaction (e : PreparePacket) (getPals : MbId → PacketId → PALSManager)
    (p : Packet) : Packet :=
  let innerLevel := e.vlanLevelOffset + 2
  let innerVlan := extractVlanByLevel p innerLevel
  let middleVlan := extractVlanByLevel p (innerLevel - 1)
  let outerVlan := extractVlanByLevel p (innerLevel - 2)
  let unifiedId :=
    if 0 < innerVlan ∧ 0 < middleVlan ∧ 0 < outerVlan then
      UInt64.ofNat (unifyVlans innerVlan middleVlan outerVlan)
    else 0
  let pm :=
    match e.mbState with
    | .master => some dummyPals
    | .slave => some (getPals e.masterMbId unifiedId)
    | _ => none
  { p with packIdAnno := unifiedId, palsManagerAnno := pm }

/-! ### `IncreaseVersionNumber` -/

/-- The tag behind the first one, or behind the MAC addresses and another tag, with
its VLAN id increased. -/
def increaseTci (data : List UInt8) : List UInt8 :=
  if ntohs data 16 = ethertype8021Q then
    let tci := (ntohs data 18 + 1) % 65536
    (data.set 18 (UInt8.ofNat (tci / 256))).set 19 (UInt8.ofNat tci)
  else data

lemma increaseTci_append {pre : List UInt8} (hpre : pre.length = 16) {tci : ℕ}
    (htci : tci < 65535) (rest : List UInt8) :
    increaseTci (pre ++ (tag tci ++ rest)) = pre ++ (tag (tci + 1) ++ rest) := by
  rw [increaseTci, if_pos (ntohs_append_tag hpre.symm tci rest),
    ntohs_append_tag_tci (by omega) (by omega), Nat.mod_eq_of_lt (by omega)]
  simp [hpre, tag, htons]

/-- The state of an `IncreaseVersionNumber`. -/
structure IncreaseVersionNumber where
  isMasterMode : Bool
  onlyHeader : Bool

/-- `IncreaseVersionNumber::smaction`: the packet, and what is sent to the packet
logger. -/
def IncreaseVersionNumber.smaction (e : IncreaseVersionNumber) (p : Packet) :
    Packet × Option WrappedPacketData :=
  let q := { p with data := increaseTci p.data, packIdAnno := p.packIdAnno + 1 }
  (q, if e.isMasterMode then createWPD q e.onlyHeader else none)

end FtThesis
