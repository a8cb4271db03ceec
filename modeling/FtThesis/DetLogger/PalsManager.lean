/-
The determinants of one packet, and their wire format.

* `Gpal`, `Spal`, `PALSManager`: the determinants, and the two lists of at most
  `palsSize` of them for one packet at one middlebox;
* `addGPal`, `addSPal`: undefined (`none`) where the code writes behind the list;
* `gpalCodec`, `spalCodec`: the layout of one determinant;
* `PALSManager.serialize`, `PALSManager.deserialize`: the message, which holds
  for each list its length and its entries;
* `deserialize_of_agreeOn`: a receiver of the bytes of a serialized manager reads
  the same manager, whatever stood in either buffer before.
-/
import FtThesis.Library.Memory
import FtThesis.PacketId.Basic

namespace FtThesis

open Memory

/-- `PALS_SIZE`. -/
def palsSize : ℕ := 10

/-- `gpal`: a variable and its value (`GPAL_VAL_SIZE` bytes). -/
structure Gpal where
  varId : UInt16
  val : Vector UInt8 50
deriving DecidableEq

/-- `spal`: a variable and a sequence number. -/
structure Spal where
  varId : UInt16
  seqNum : UInt32
deriving DecidableEq

/-- The determinants of a packet at a middlebox.  The entries in use of the fixed
lists `gpalList` and `spalList`, in order. -/
structure PALSManager where
  middleboxId : MbId
  packetId : PacketId
  gpalList : List Gpal
  spalList : List Spal
  gpalList_le : gpalList.length ≤ palsSize
  spalList_le : spalList.length ≤ palsSize
deriving DecidableEq

namespace PALSManager

/-- The manager of a packet, without determinants. -/
def new (mbId : MbId) (packId : PacketId) : PALSManager :=
  ⟨mbId, packId, [], [], Nat.zero_le _, Nat.zero_le _⟩

/-- `addGPal`.  There is no check: with a full list the write is behind it. -/
def addGPal (pm : PALSManager) (gp : Gpal) : Option PALSManager :=
  if h : pm.gpalList.length < palsSize then
    some { pm with
      gpalList := pm.gpalList ++ [gp]
      gpalList_le := by simpa using h }
  else none

/-- `addSPal`.  There is no check: with a full list the write is behind it. -/
def addSPal (pm : PALSManager) (sp : Spal) : Option PALSManager :=
  if h : pm.spalList.length < palsSize then
    some { pm with
      spalList := pm.spalList ++ [sp]
      spalList_le := by simpa using h }
  else none

/-- Adding a list of gpals is defined exactly when there is room for all. -/
lemma foldlM_addGPal (gps : List Gpal) (pm : PALSManager) :
    gps.foldlM addGPal pm =
      if h : (pm.gpalList ++ gps).length ≤ palsSize then
        some { pm with gpalList := pm.gpalList ++ gps, gpalList_le := h }
      else none := by
  induction gps generalizing pm with
  | nil => simp [pm.gpalList_le]
  | cons gp gps ih =>
      rw [List.foldlM_cons, addGPal]
      by_cases hlt : pm.gpalList.length < palsSize
      · simp only [dif_pos hlt, Option.bind_eq_bind, Option.bind_some, ih, List.append_assoc,
          List.cons_append, List.nil_append]
      · rw [dif_neg hlt, dif_neg (by simp; omega)]
        rfl

/-- Adding a list of spals is defined exactly when there is room for all. -/
lemma foldlM_addSPal (sps : List Spal) (pm : PALSManager) :
    sps.foldlM addSPal pm =
      if h : (pm.spalList ++ sps).length ≤ palsSize then
        some { pm with spalList := pm.spalList ++ sps, spalList_le := h }
      else none := by
  induction sps generalizing pm with
  | nil => simp [pm.spalList_le]
  | cons sp sps ih =>
      rw [List.foldlM_cons, addSPal]
      by_cases hlt : pm.spalList.length < palsSize
      · simp only [dif_pos hlt, Option.bind_eq_bind, Option.bind_some, ih, List.append_assoc,
          List.cons_append, List.nil_append]
      · rw [dif_neg hlt, dif_neg (by simp; omega)]
        rfl

end PALSManager

/-! ### The layout of one determinant -/

/-- `serializeGPal`, `deserializeGPal`: the variable and the bytes of its value. -/
def gpalCodec : Codec Gpal :=
  (word16.prod (bytes 50)).map
    ⟨fun gp => (gp.varId, gp.val), fun x => ⟨x.1, x.2⟩, fun _ => rfl, fun _ => rfl⟩

/-- `serializeSPal`, `deserializeSPal`: the variable and, right behind it, the
sequence number.  The entries are `sizeof(spal) = 8` bytes apart, so the last two
bytes of each are left as they were. -/
def spalCodec : Codec Spal :=
  ((word16.prod word32).map
    ⟨fun sp => (sp.varId, sp.seqNum), fun x => ⟨x.1, x.2⟩, fun _ => rfl, fun _ => rfl⟩).pad 2

@[simp] lemma gpalCodec_size : gpalCodec.size = 52 := rfl

@[simp] lemma spalCodec_size : spalCodec.size = 8 := rfl

/-! ### The message -/

namespace PALSManager

/-- `serializeGPals`: the length and the entries, at address `p`. -/
def serializeGPals (pm : PALSManager) (m : Mem) (p : ℕ) : Mem :=
  putCounted gpalCodec pm.gpalList m p

/-- `serializeSPals`: the length and the entries, at address `p`. -/
def serializeSPals (pm : PALSManager) (m : Mem) (p : ℕ) : Mem :=
  putCounted spalCodec pm.spalList m p

/-- `getSerializationLength` (a `uint16_t`). -/
def getSerializationLength (pm : PALSManager) : ℕ :=
  (2 + 8 + 2 + pm.gpalList.length * 52 + 2 + pm.spalList.length * 8) % 2 ^ 16

/-- `serialize`: the buffer with the message at its beginning. -/
def serialize (pm : PALSManager) (m : Mem) : Mem :=
  let m := word16.put pm.middleboxId m 0
  let m := word64.put pm.packetId m 2
  let m := pm.serializeGPals m 10
  pm.serializeSPals m (12 + pm.gpalList.length * 52)

/-- `deserialize`: the manager that the message at the beginning of the buffer
describes.  There is no check of the lengths: the entries of a longer list would
be written behind the fixed one. -/
def deserialize (m : Mem) : Option PALSManager :=
  let gps := getCounted gpalCodec m 10
  let sps := getCounted spalCodec m (12 + gps.length * 52)
  if h : gps.length ≤ palsSize ∧ sps.length ≤ palsSize then
    some ⟨word16.get m 0, word64.get m 2, gps, sps, h.1, h.2⟩
  else none

lemma getSerializationLength_eq (pm : PALSManager) :
    pm.getSerializationLength = 14 + pm.gpalList.length * 52 + pm.spalList.length * 8 := by
  have hg := pm.gpalList_le
  have hs := pm.spalList_le
  simp only [palsSize] at hg hs
  rw [getSerializationLength, Nat.mod_eq_of_lt (by omega)]
  omega

/-- A receiver of the bytes of a serialized manager reads the same manager. -/
theorem deserialize_of_agreeOn (pm : PALSManager) (m m' : Mem)
    (h : AgreeOn (pm.serialize m) m' 0 pm.getSerializationLength) :
    deserialize m' = some pm := by
  rw [getSerializationLength_eq] at h
  have hg : pm.gpalList.length ≤ 10 := pm.gpalList_le
  have hs : pm.spalList.length ≤ 10 := pm.spalList_le
  set m₁ := word16.put pm.middleboxId m 0 with hm₁
  set m₂ := word64.put pm.packetId m₁ 2 with hm₂
  set m₃ := pm.serializeGPals m₂ 10 with hm₃
  have hm₄ : pm.serialize m = pm.serializeSPals m₃ (12 + pm.gpalList.length * 52) := rfl
  rw [hm₄] at h
  -- each later field is behind the earlier ones, so these still agree
  have h₃ : AgreeOn m₃ m' 0 (12 + pm.gpalList.length * 52) :=
    (agreeOn_putCounted_of_disjoint _ _ _ (by simp)).trans (h.mono le_rfl (by omega))
  have h₂ : AgreeOn m₂ m' 0 10 :=
    (agreeOn_putCounted_of_disjoint _ _ _ (by simp)).trans (h₃.mono le_rfl (by omega))
  have h₁ : AgreeOn m₁ m' 0 2 :=
    (word64.agreeOn_put_of_disjoint _ _ (by simp)).trans (h₂.mono le_rfl (by omega))
  have hmb : word16.get m' 0 = pm.middleboxId := by
    rw [← word16.get_congr m₁ m' 0 h₁, hm₁, word16.get_put]
  have hpid : word64.get m' 2 = pm.packetId := by
    rw [← word64.get_congr m₂ m' 2 (h₂.mono (by omega) (by simp [word64])), hm₂, word64.get_put]
  have hgps : getCounted gpalCodec m' 10 = pm.gpalList :=
    getCounted_of_agreeOn _ _ (by omega) (h₃.mono (by omega) (by simp; omega))
  have hsps : getCounted spalCodec m' (12 + pm.gpalList.length * 52) = pm.spalList :=
    getCounted_of_agreeOn _ _ (by omega) (h.mono (by omega) (by simp; omega))
  simp only [deserialize, hmb, hpid, hgps, hsps]
  rw [dif_pos ⟨pm.gpalList_le, pm.spalList_le⟩]

end PALSManager

end FtThesis
