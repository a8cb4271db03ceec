/-
How often the version of a packet can be increased.

The version has five bits, of which `0` and `31` are not to be used, and is increased as a part of
the numbers in which it stands: the annotation and the id of the outer tag.

* `pass`: a packet behind an `IncreaseVersionNumber`;
* `data_foldl_pass`, `packIdAnno_foldl_pass`: the outer tag and the annotation after several of
  them;
* `KeepsId`: the packet is still the same one, with a version that may be used;
* `keepsId_iff`: that is so for one pass after another exactly when there are at most 29 of them;
* `not_keepsId_30`: a packet with the version 31.
-/
import FtThesis.Elements.RoundTrip

namespace FtThesis

/-- A packet behind an `IncreaseVersionNumber`. -/
def pass (p : Packet) (e : IncreaseVersionNumber) : Packet := (e.smaction p).1

/-- `q` became `p`, of the same base in the annotation and in the outer tag, with versions that are
not reserved and an outer VLAN id that is none of the reserved ones. -/
structure KeepsId (q p : Packet) : Prop where
  base_annotation : base p.packIdAnno = base q.packIdAnno
  base_outerTag : ntohs p.data 18 / 32 = ntohs q.data 18 / 32
  version_annotation : 1 ≤ version p.packIdAnno ∧ version p.packIdAnno ≤ 30
  version_outerTag : 1 ≤ ntohs p.data 18 % 32 ∧ ntohs p.data 18 % 32 ≤ 30
  vlanId : ntohs p.data 18 % 4096 ≠ 0 ∧ ntohs p.data 18 % 4096 ≠ 4095

/-! ### Several passes -/

section

variable (elements : List IncreaseVersionNumber) (q : Packet)

/-- Each pass adds one to the annotation. -/
lemma packIdAnno_foldl_pass :
    (elements.foldl pass q).packIdAnno = q.packIdAnno + UInt64.ofNat elements.length := by
  induction elements generalizing q with
  | nil => exact (UInt64.add_zero _).symm
  | cons e elements ih =>
      have hpass : (pass q e).packIdAnno = q.packIdAnno + 1 := rfl
      rw [List.foldl_cons, ih, hpass, List.length_cons, Nat.add_comm, UInt64.ofNat_add,
        UInt64.add_assoc]
      rfl

/-- Each pass adds one to the outer tag, as long as this has room. -/
lemma data_foldl_pass {pre rest : List UInt8} {o : ℕ} (hpre : pre.length = 16)
    (hq : q.data = pre ++ (tag o ++ rest)) (ho : o + elements.length < 65536) :
    (elements.foldl pass q).data = pre ++ (tag (o + elements.length) ++ rest) := by
  induction elements generalizing q o with
  | nil => exact hq
  | cons e elements ih =>
      rw [List.length_cons] at ho ⊢
      have hpass : (pass q e).data = pre ++ (tag (o + 1) ++ rest) := by
        rw [← increaseTci_append hpre (by omega) rest, ← hq]
        rfl
      rw [List.foldl_cons, ih _ hpass (by omega), Nat.add_right_comm, Nat.add_assoc]

end

section

variable {p n : ℕ} {e : PacketIdEncap} {packet : Packet}

/-- The two versions after passes that leave room for one more. -/
lemma foldl_pass_spec (hp : 1 ≤ p ∧ p ≤ 6) (hgen : e.generator = genAfter p n)
    (hlen : 16 ≤ packet.data.length) {elements : List IncreaseVersionNumber}
    (hk : elements.length ≤ 30) :
    let q := elements.foldl pass (e.smaction packet).1
    q.packIdAnno.toNat = (p * 2 ^ 28 + nthSeqNum p n) * 32 + 1 + elements.length ∧
      ntohs q.data 18 = nthSeqNum p n % 128 * 32 + 1 + elements.length := by
  intro q
  have hs := (isSeqNum_iff.mp (isSeqNum_nthSeqNum p n)).1
  have hlt := unifiedId_lt hp.2 hs
  have hpre : (packet.data.take 16).length = 16 := by
    rw [List.length_take]
    omega
  have ho := createOuterVlan_eq (nthSeqNum p n)
  constructor
  · rw [packIdAnno_foldl_pass, packIdAnno_smaction hgen, ← UInt64.ofNat_add,
      UInt64.toNat_ofNat_of_lt' (by rw [UInt64.size]; omega), unifiedId_eq hp.2 hs]
  · rw [data_foldl_pass _ _ hpre (data_smaction hp hgen hlen) (by omega),
      ntohs_append_tag_tci (by omega) (by omega), ho]

/-- The packet is the same one after `29` passes, and after `30` of them it has the version
`31`. -/
lemma keepsId_foldl_iff (hp : 1 ≤ p ∧ p ≤ 6) (hgen : e.generator = genAfter p n)
    (hlen : 16 ≤ packet.data.length) {elements : List IncreaseVersionNumber}
    (hk : elements.length ≤ 30) :
    KeepsId (e.smaction packet).1 (elements.foldl pass (e.smaction packet).1) ↔
      elements.length ≤ 29 := by
  have hs := (isSeqNum_iff.mp (isSeqNum_nthSeqNum p n)).1
  obtain ⟨hid, htci⟩ := @foldl_pass_spec p n e packet hp hgen hlen [] (Nat.zero_le _)
  obtain ⟨hid', htci'⟩ := foldl_pass_spec hp hgen hlen hk
  simp only [List.foldl_nil, List.length_nil, Nat.add_zero] at hid htci
  constructor
  · intro hkeeps
    have hversion := hkeeps.version_annotation.2
    rw [version_toNat, hid'] at hversion
    omega
  · intro h29
    exact
      { base_annotation := by
          rw [← UInt64.toNat_inj, base_toNat, base_toNat, hid, hid']
          omega
        base_outerTag := by omega
        version_annotation := by
          rw [version_toNat, hid']
          omega
        version_outerTag := by omega
        vlanId := by omega }

/-- **The version and its field.**  For every frame with the TSA tag in its first sixteen bytes and
every id, the packet stays the same one through a chain of passes, with a version from `1` to `30`
and an outer VLAN id that is not reserved, exactly when the chain has at most `29` passes. -/
theorem keepsId_iff (hp : 1 ≤ p ∧ p ≤ 6) (hgen : e.generator = genAfter p n)
    (hlen : 16 ≤ packet.data.length) (elements : List IncreaseVersionNumber) :
    (∀ k ≤ elements.length, KeepsId (e.smaction packet).1
      ((elements.take k).foldl pass (e.smaction packet).1)) ↔ elements.length ≤ 29 := by
  constructor
  · intro hkeeps
    by_contra hmore
    have htake : (elements.take 30).length = 30 := by
      rw [List.length_take]
      omega
    have h29 := (keepsId_foldl_iff hp hgen hlen htake.le).mp (hkeeps 30 (by omega))
    omega
  · intro h29 k hk
    have htake : (elements.take k).length = k := by
      rw [List.length_take]
      omega
    exact (keepsId_foldl_iff hp hgen hlen (by omega)).mpr (by omega)

end

/-- The frame of eighteen bytes behind a chain of twenty-nine middleboxes. -/
theorem keepsId_short :
    KeepsId (PacketIdEncap.smaction ⟨genAfter 6 1, true, true⟩ shortPacket).1
      ((List.replicate 29 ⟨true, true⟩).foldl pass
        (PacketIdEncap.smaction ⟨genAfter 6 1, true, true⟩ shortPacket).1) := by
  let e : PacketIdEncap := ⟨genAfter 6 1, true, true⟩
  let elements : List IncreaseVersionNumber := List.replicate 29 ⟨true, true⟩
  have hgen : e.generator = genAfter 6 1 := rfl
  have hlen : 16 ≤ shortPacket.data.length := by decide
  have hlast := (keepsId_iff (by decide) hgen hlen elements).mpr le_rfl elements.length le_rfl
  rwa [List.take_length] at hlast

/-- After thirty passes a packet has the version `31`. -/
theorem not_keepsId_30 :
    ¬ ∀ (p n : ℕ) (e : PacketIdEncap) (packet : Packet) (elements : List IncreaseVersionNumber),
      1 ≤ p ∧ p ≤ 6 → e.generator = genAfter p n → 18 ≤ packet.data.length →
      ntohs packet.data 12 = ethertype8021Q →
      KeepsId (e.smaction packet).1 (elements.foldl pass (e.smaction packet).1) := by
  intro h
  let e : PacketIdEncap := ⟨genAfter 6 1, true, true⟩
  let elements : List IncreaseVersionNumber := List.replicate 30 ⟨true, true⟩
  have hgen : e.generator = genAfter 6 1 := rfl
  have hkeeps := h 6 1 e shortPacket elements (by decide) hgen (by decide) (by decide)
  have h29 : elements.length ≤ 29 :=
    (keepsId_foldl_iff (by decide) hgen (by decide) (by decide)).mp hkeeps
  exact absurd h29 (by decide)

end FtThesis
