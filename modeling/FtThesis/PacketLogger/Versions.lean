/-
Is the packet logger right about versions?

The code takes the number of the logged fragments of a packet for its highest
version.

* `replyFragments`, `getPacket_eq`: the fragments of which a reply is built;
* `replyFragments_perm_iff`, `deletePacket_right_iff`: when a reply and when a
  deletion is right;
* `rightAboutVersions_iff`: both, for a history of stores and a packet id;
* `not_right_about_a_gap`: a history with a gap, and a wrong reply.
-/
import FtThesis.Library.Lists
import FtThesis.PacketLogger.Server

namespace FtThesis

open Memory SortedLists

namespace PacketLoggerServer

/-- The fragments of which `getPacket` builds its reply. -/
def replyFragments (srt : VersionSort) (s : PacketLoggerServer) (packId : PacketId) :
    List SinglePacketVersionData :=
  ((s.packetsVersions (base packId)).map (usedVersions srt · (version packId))).getD []

/-- The reply is made of these fragments, laid over each other. -/
lemma getPacket_eq (srt : VersionSort) (s : PacketLoggerServer) (packId : PacketId)
    (retVal : Mem) :
    getPacket srt s packId retVal = ((s.packetsVersions (base packId)).isSome,
      (replyFragments srt s packId).foldl copyVersion (retVal, 0)) := by
  rw [getPacket, replyFragments]
  cases s.packetsVersions (base packId) <;> rfl

/-- After a history of stores, these are the first ones in the order of the versions, as many as
the requested version says, or all if there are fewer. -/
lemma replyFragments_logged (srt : VersionSort) (history : List WrappedPacketData)
    (packId : PacketId) :
    replyFragments srt (logged history) packId
      = (srt.sort (fragments history (base packId))).take
          (min (version packId) ((fragments history (base packId)).length % 256)) := by
  rw [replyFragments, packetsVersions_logged]
  split_ifs with hnil
  · have hsort : srt.sort (fragments history (base packId)) = [] :=
      (hnil ▸ srt.perm _ : (srt.sort (fragments history (base packId))).Perm []).eq_nil
    rw [hsort, List.take_nil]
    rfl
  · have hlen : (if version packId < (fragments history (base packId)).length % 256 then
        version packId else (fragments history (base packId)).length % 256)
        = min (version packId) ((fragments history (base packId)).length % 256) := by
      split_ifs <;> omega
    simp only [Option.map_some, Option.getD_some, usedVersions, UInt8.toNat_ofNat', hlen]

/-- A request for a packet uses all logged fragments up to the version of its id
and no later one, and a deletion removes the base if no later one is logged, and
else leaves everything as it was. -/
def RightAboutVersions (srt : VersionSort) (history : List WrappedPacketData)
    (packId : PacketId) : Prop :=
  (replyFragments srt (logged history) packId).Perm
      ((fragments history (base packId)).filter (·.version ≤ version packId)) ∧
    ((logged history).deletePacket packId).2 =
      if ∀ f ∈ fragments history (base packId), f.version ≤ version packId then
        ⟨Function.update (logged history).packetsVersions (base packId) none⟩
      else logged history

/-- How many fragments with a version up to `v` were stored under a base. -/
def countUpTo (history : List WrappedPacketData) (b : PacketBase) (v : ℕ) : ℕ :=
  (fragments history b).countP (·.version ≤ v)

/-- Two choices between different values agree exactly when their conditions do. -/
lemma ite_eq_ite_iff_of_ne {α : Type*} {p q : Prop} [Decidable p] [Decidable q] {x y : α}
    (h : x ≠ y) : ((if p then x else y) = if q then x else y) ↔ (p ↔ q) := by
  by_cases hp : p <;> by_cases hq : q <;> simp [hp, hq, h, h.symm]

section

variable (history : List WrappedPacketData) (packId : PacketId)

/-- The reply is right exactly when as many fragments have a version up to the
requested one as the code takes. -/
lemma replyFragments_perm_iff (srt : VersionSort) :
    (replyFragments srt (logged history) packId).Perm
        ((fragments history (base packId)).filter (·.version ≤ version packId)) ↔
      countUpTo history (base packId) (version packId)
        = min (version packId) ((fragments history (base packId)).length % 256) := by
  rw [replyFragments_logged, countUpTo]
  exact take_perm_filter_iff (srt.perm _) (srt.sorted _)
    ((min_le_right _ _).trans (Nat.mod_le _ _)) _

/-- The deletion is right exactly when the code sees that the requested version is
not the last one. -/
lemma deletePacket_right_iff :
    ((logged history).deletePacket packId).2 =
        (if ∀ f ∈ fragments history (base packId), f.version ≤ version packId then
          ⟨Function.update (logged history).packetsVersions (base packId) none⟩
        else logged history) ↔
      (countUpTo history (base packId) (version packId)
          = (fragments history (base packId)).length ↔
        (fragments history (base packId)).length % 256 ≤ version packId) := by
  have hall : (∀ f ∈ fragments history (base packId), f.version ≤ version packId) ↔
      countUpTo history (base packId) (version packId)
        = (fragments history (base packId)).length := by
    simp [countUpTo]
  have hs := packetsVersions_logged history (base packId)
  by_cases hnil : fragments history (base packId) = []
  · have hnone : (logged history).packetsVersions (base packId) = none := by
      rw [hs, if_pos hnil]
    have herase : Function.update (logged history).packetsVersions (base packId) none
        = (logged history).packetsVersions := by
      rw [← hnone, Function.update_eq_self]
    rw [deletePacket, hnone, ← hall, hnil]
    simp [herase]
  · have hne : (⟨Function.update (logged history).packetsVersions (base packId) none⟩
        : PacketLoggerServer) ≠ logged history := by
      intro h
      have hb := congrArg (·.packetsVersions (base packId)) h
      simp [hs, hnil] at hb
    have hdelete : ((logged history).deletePacket packId).2
        = if (fragments history (base packId)).length % 256 ≤ version packId then
            ⟨Function.update (logged history).packetsVersions (base packId) none⟩
          else logged history := by
      rw [deletePacket, hs, if_neg hnil]
      simp only [UInt8.toNat_ofNat']
      by_cases hlt : (fragments history (base packId)).length % 256 ≤ version packId
      · rw [if_pos hlt, if_neg (by simpa using hlt)]
      · rw [if_neg hlt, if_pos (by simpa using hlt)]
    rw [hdelete, ite_eq_ite_iff_of_ne hne, hall]
    exact Iff.comm

end

end PacketLoggerServer

open PacketLoggerServer

/-- **The packet logger and versions.**  After a history of stores, a request for a
packet and its deletion are right exactly when the number of its fragments with a
version up to the requested one is that version, or the number of all its
fragments if this is smaller, and the eight-bit number of fragments does not look
smaller than it is. -/
theorem rightAboutVersions_iff (srt : VersionSort) (history : List WrappedPacketData)
    (packId : PacketId) :
    RightAboutVersions srt history packId ↔
      countUpTo history (base packId) (version packId)
          = min (version packId) (fragments history (base packId)).length ∧
        ((fragments history (base packId)).length < 256 ∨
          version packId < (fragments history (base packId)).length % 256) := by
  have hv := version_lt packId
  rw [RightAboutVersions, replyFragments_perm_iff, deletePacket_right_iff]
  omega

/-- A part of a packet without content. -/
def emptyPart (packetId : PacketId) : WrappedPacketData := ⟨packetId, 0, 0, [], rfl⟩

/-- Versions `1` and `3` of a packet are logged: the reply for version `2` is built
of both of them. -/
theorem not_right_about_a_gap :
    ¬ ∀ (srt : VersionSort) (history : List WrappedPacketData) (packId : PacketId),
      RightAboutVersions srt history packId := by
  intro h
  have hreply := (h .stable [emptyPart 321, emptyPart 323] 322).1
  rw [replyFragments_perm_iff] at hreply
  exact absurd hreply (by decide)

end FtThesis
