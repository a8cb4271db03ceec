/-
From a frame to the three tags of its id, and back.

* `pushVlanLayer_bytes`: the tag is put into the frame by a move of its first sixteen bytes, over
  bytes that they overlap, and two writes behind them;
* `frameBytes_smaction`: the frame with three tags, by three such pushes in the headroom;
* `RoundTrip`: three tags behind the TSA tag, from which the id is read with the TSA tag and
  without it, and without which the frame is as it was;
* `tagging_round_trip`: this is so of every frame and every id.
-/
import FtThesis.Elements.Tags

namespace FtThesis

open Memory

/-! ### The pushes in memory -/

/-- `pushVlanLayer` on the bytes, for the frame at `data` and a VLAN id that is not `0`: the four
bytes in front of the frame become its first ones. -/
def pushVlanBytes (mem : Mem) (data tci : ℕ) : Mem :=
  let q := data - 4
  let mem := memmove mem q (q + 4) 16
  let mem := memcpy mem (q + 16) (htons ethertype8021Q)
  memcpy mem (q + 18) (htons tci)

/-- The move and the two writes are one write of the moved bytes and the tag. -/
lemma pushVlanBytes_eq (mem : Mem) (q tci : ℕ) :
    pushVlanBytes mem (q + 4) tci = memcpy mem q (read mem (q + 4) 16 ++ tag tci) := by
  have hmoved := memcpy_append mem q (read mem (q + 4) 16) (htons ethertype8021Q)
  have htag := memcpy_append mem q (read mem (q + 4) 16 ++ htons ethertype8021Q) (htons tci)
  rw [length_read] at hmoved
  rw [List.append_assoc, List.length_append, length_read, ← hmoved] at htag
  exact htag

/-- The frame of which the first sixteen bytes were moved is that with the tag behind them. -/
lemma pushVlanLayer_bytes (mem : Mem) (q : ℕ) {tci : ℕ} (h : IsVlanId tci) {n : ℕ} (hn : 16 ≤ n)
    {p : Packet} (hp : p.data = read mem (q + 4) n) :
    (pushVlanLayer p tci).data = read (pushVlanBytes mem (q + 4) tci) q (n + 4) := by
  obtain ⟨k, rfl⟩ := Nat.exists_eq_add_of_le hn
  have hlen : (read mem (q + 4) 16 ++ tag tci).length = 20 := by simp
  have hfront : read (pushVlanBytes mem (q + 4) tci) q 20 = read mem (q + 4) 16 ++ tag tci := by
    rw [pushVlanBytes_eq, ← hlen]
    exact read_memcpy_self mem q _
  have hrest : read (pushVlanBytes mem (q + 4) tci) (q + 20) k = read mem (q + 4 + 16) k := by
    rw [pushVlanBytes_eq]
    exact read_memcpy_of_le mem (by rw [hlen]) k
  calc (pushVlanLayer p tci).data
      = read mem (q + 4) 16 ++ (tag tci ++ read mem (q + 4 + 16) k) := by
        rw [pushVlanLayer_data h, hp, read_add, List.take_left' (length_read ..),
          List.drop_left' (length_read ..)]
    _ = read (pushVlanBytes mem (q + 4) tci) q (20 + k) := by
        rw [read_add, hfront, hrest, List.append_assoc]
    _ = read (pushVlanBytes mem (q + 4) tci) q (16 + k + 4) := by
        rw [Nat.add_right_comm]

section

variable {p n : ℕ} {e : PacketIdEncap} {packet : Packet}

/-- The packet depends on the generator alone. -/
lemma fst_smaction (hgen : e.generator = genAfter p n) :
    (e.smaction packet).1 = encapsulated p n packet := by
  simp [PacketIdEncap.smaction, encapsulated, hgen]

/-- Three tags behind the first sixteen bytes. -/
lemma data_smaction (hp : 1 ≤ p ∧ p ≤ 6) (hgen : e.generator = genAfter p n)
    (hlen : 16 ≤ packet.data.length) :
    (e.smaction packet).1.data =
      taggedFrame (packet.data.take 16) (createOuterVlan (nthSeqNum p n))
        (createMiddleVlan (nthSeqNum p n)) (createInnerVlan p (nthSeqNum p n))
        (packet.data.drop 16) := by
  rw [fst_smaction hgen]
  exact data_encapsulated packet hp hlen

/-- The annotation is the id of the tags. -/
lemma packIdAnno_smaction (hgen : e.generator = genAfter p n) :
    (e.smaction packet).1.packIdAnno = UInt64.ofNat (unifiedId p (nthSeqNum p n)) := by
  rw [fst_smaction hgen]
  exact congrArg (fun producer => UInt64.ofNat (unifiedId producer (nthSeqNum p n)))
    (genAfter_producerId p n)

/-- With twelve bytes of headroom, the frame that `PacketIdEncap` makes is left by three pushes in
memory. -/
theorem frameBytes_smaction (hp : 1 ≤ p ∧ p ≤ 6) (hgen : e.generator = genAfter p n) (mem : Mem)
    (q : ℕ) {len : ℕ} (hlen : 16 ≤ len) (hpacket : packet.data = read mem (q + 12) len) :
    let s := nthSeqNum p n
    (e.smaction packet).1.data
      = read (pushVlanBytes (pushVlanBytes (pushVlanBytes mem (q + 12) (createInnerVlan p s))
          (q + 8) (createMiddleVlan s)) (q + 4) (createOuterVlan s)) q (len + 12) := by
  intro s
  have hs := isSeqNum_nthSeqNum p n
  have hinner := pushVlanLayer_bytes mem (q + 8) (isVlanId_inner hp hs) hlen hpacket
  have hmiddle := pushVlanLayer_bytes _ (q + 4) (isVlanId_middle hs) (by omega) hinner
  have houter := pushVlanLayer_bytes _ q (isVlanId_outer s) (by omega) hmiddle
  have hgen' : (genAfter p n).getNexSeqNum.1 = s := rfl
  simpa only [PacketIdEncap.smaction, hgen, genAfter_producerId, hgen'] using houter

/-! ### The round trip -/

/-- The frame without the three tags behind the TSA tag. -/
def removeIdTags (data : List UInt8) : List UInt8 := data.take 16 ++ data.drop 28

/-- `q` is `packet` with three tags behind the TSA tag, from which the annotated id is read at
either level offset, by whoever receives the frame, and which can be taken out again. -/
structure RoundTrip (packet q : Packet) : Prop where
  threeTags : ∃ o m i, IsVlanId o ∧ IsVlanId m ∧ IsVlanId i ∧
    q.data = packet.data.take 16 ++ (tag o ++ (tag m ++ (tag i ++ packet.data.drop 16)))
  tsaTag : ntohs q.data 12 = ethertype8021Q ∧ ntohs q.data 14 = ntohs packet.data 14
  withTsaTag : ∀ (prepare : PreparePacket) getPals, prepare.vlanLevelOffset = 1 →
    ReadsId prepare getPals q.data q.packIdAnno
  withoutTsaTag : ∀ (prepare : PreparePacket) getPals, prepare.vlanLevelOffset = 0 →
    ReadsId prepare getPals (q.data.take 12 ++ q.data.drop 16) q.packIdAnno
  removed : removeIdTags q.data = packet.data

/-- A number in front of the place where a frame was cut. -/
lemma ntohs_take_append {data rest : List UInt8} {k i : ℕ} (hk : k ≤ data.length)
    (hi : i + 1 < k) : ntohs (data.take k ++ rest) i = ntohs data i := by
  have hget (j : ℕ) (hj : j < k) : (data.take k ++ rest).getD j 0 = data.getD j 0 := by
    have hlen : j < (data.take k).length := by
      rw [List.length_take]
      omega
    rw [List.getD_eq_getElem?_getD, List.getElem?_append_left hlen, List.getElem?_take_of_lt hj,
      List.getD_eq_getElem?_getD]
  rw [ntohs, hget i (by omega), hget (i + 1) hi, ntohs]

/-- Behind sixteen bytes, three tags can be taken out. -/
lemma removeIdTags_taggedFrame {pre rest : List UInt8} (hpre : pre.length = 16) (o m i : ℕ) :
    removeIdTags (taggedFrame pre o m i rest) = pre ++ rest := by
  have hlen : (pre ++ (tag o ++ (tag m ++ tag i))).length = 28 := by simp [hpre]
  have hassoc : taggedFrame pre o m i rest = (pre ++ (tag o ++ (tag m ++ tag i))) ++ rest := by
    simp only [taggedFrame, List.append_assoc]
  have htake : (taggedFrame pre o m i rest).take 16 = pre := List.take_left' hpre
  rw [removeIdTags, htake, hassoc, List.drop_left' hlen]

/-- **The tagging round trip.**  Every frame behind a TSA tag gets three tags, with which its id
is read at each of the two level offsets, and without which it is as it was. -/
theorem tagging_round_trip (hp : 1 ≤ p ∧ p ≤ 6) (hgen : e.generator = genAfter p n)
    (hlen : 18 ≤ packet.data.length) (htsa : ntohs packet.data 12 = ethertype8021Q) :
    RoundTrip packet (e.smaction packet).1 := by
  have hs := isSeqNum_nthSeqNum p n
  have ho := isVlanId_outer (nthSeqNum p n)
  have hm := isVlanId_middle hs
  have hi := isVlanId_inner hp hs
  have hpre : (packet.data.take 16).length = 16 := by
    rw [List.length_take]
    omega
  have hdata := data_smaction hp hgen (show 16 ≤ packet.data.length by omega)
  have hread (prepare : PreparePacket) (getPals) (hoffset : prepare.vlanLevelOffset ≤ 1) :
      ReadsId prepare getPals (receivedAt prepare.vlanLevelOffset (e.smaction packet).1).data
        (e.smaction packet).1.packIdAnno := by
    intro r hr
    rw [packIdAnno_smaction hgen]
    have hvlan {v : ℕ} (h : IsVlanId v) : 0 < v ∧ v < 65536 := by
      have := h.2
      exact ⟨h.1, by omega⟩
    refine packIdAnno_prepare getPals hoffset ?_ (hvlan ho) (hvlan hm) (hvlan hi)
      (hr.trans (data_receivedAt hpre hdata hoffset))
    rw [List.length_take, hpre]
    omega
  exact
    { threeTags := ⟨_, _, _, ho, hm, hi, hdata⟩
      tsaTag := by
        rw [hdata, taggedFrame, ntohs_take_append (by omega) (by omega),
          ntohs_take_append (by omega) (by omega)]
        exact ⟨htsa, rfl⟩
      withTsaTag := fun prepare getPals hone => by
        have h := hread prepare getPals hone.le
        rwa [hone] at h
      withoutTsaTag := fun prepare getPals hzero => by
        have h := hread prepare getPals (by omega)
        rwa [hzero] at h
      removed := by
        rw [hdata, removeIdTags_taggedFrame hpre, List.take_append_drop] }

end

/-- A frame of eighteen bytes with a TSA tag. -/
def shortPacket : Packet :=
  ⟨List.replicate 12 0 ++ tag 7 ++ [8, 0], some 0, 14, none, 0, none⟩

/-- The second packet of producer `6`. -/
theorem tagging_round_trip_short :
    RoundTrip shortPacket
      (PacketIdEncap.smaction ⟨genAfter 6 1, true, true⟩ shortPacket).1 := by
  let e : PacketIdEncap := ⟨genAfter 6 1, true, true⟩
  have hgen : e.generator = genAfter 6 1 := rfl
  exact tagging_round_trip (by decide) hgen (by decide) (by decide)

end FtThesis
