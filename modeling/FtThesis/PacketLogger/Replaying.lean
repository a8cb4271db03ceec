/-
What a replay request sends to the middlebox, when a connection or a send fails.

* `sendMsgToDstMb`: sends one frame, by the results of its sends;
* `Replayed`, `replayPacket`, `replayPackets`: the frame of each requested packet, and what is
  written of it;
* `whole_iff`: a whole frame is written exactly when there is a packet, and the sends carry it;
* `written_of_carries`: when the sends carry all frames, these are the packets that
  `processReplayRequest` sends.
-/
import FtThesis.Library.SendLoops
import FtThesis.PacketLogger.Server
import FtThesis.Transport.Message

namespace FtThesis

open Decimals Memory Socket

namespace PacketLoggerServer

/-! ### The functions of the server -/

/-- `SERVER_BUFFER_SIZE`. -/
def serverBufferSize : ℕ := serverBufferSizeWithoutPrefix + 7 + 1

/-- `sendMsgToDstMb`: how it ends, and what is written. -/
def sendMsgToDstMb (rs : List SendResult) (msgToSend : List UInt8) : SendEnding × List UInt8 :=
  if serverBufferSize < msgToSend.length then (.returned false, [])
  else sendLoop (fun _ => .returned false) rs false msgToSend

/-- A requested packet: its frame, if there is a packet, and what is written. -/
structure Replayed where
  frame : Option (List UInt8)
  written : List UInt8

/-- There is a frame, and all of it is written. -/
def Replayed.whole (r : Replayed) : Bool := r.frame == some r.written

/-- One round of the loop of `processReplayRequest`, with the results of its sends. -/
def replayPacket (srt : VersionSort) (s : PacketLoggerServer) (rs : List SendResult)
    (packId : PacketId) : Replayed :=
  match sendPacket srt s packId with
  | none => ⟨none, []⟩
  | some packet => ⟨some packet.message, (sendMsgToDstMb rs packet.message).2⟩

/-- `processReplayRequest`: its result, and the requested packets, if the connection to the
middlebox is made.  The sends for the packet at place `i` come to `sends i`. -/
def replayPackets (srt : VersionSort) (s : PacketLoggerServer) (connected : Bool)
    (sends : ℕ → List SendResult) (packetsToReplay : List PacketId) : Bool × List Replayed :=
  if connected then
    (true, packetsToReplay.zipIdx.map fun p => replayPacket srt s (sends p.2) p.1)
  else (false, [])

/-! ### When a whole frame is written -/

/-- The length of the frame with a packet: that of the packet, behind seven digits. -/
def frameLength (srt : VersionSort) (s : PacketLoggerServer) (packId : PacketId) : ℕ :=
  7 + (getPacket srt s packId fun _ => 0).2.2

/-- Under the base of the packet there are fragments, and one of those that make the packet is not
empty. -/
def HasPacket (srt : VersionSort) (s : PacketLoggerServer) (packId : PacketId) : Prop :=
  ∃ pvd, s.packetsVersions (base packId) = some pvd ∧
    ∃ spvd ∈ usedVersions srt pvd (version packId), 0 < spvd.size.toNat

/-- There is a packet, and the sends carry its frame. -/
def Sendable (srt : VersionSort) (s : PacketLoggerServer) (rs : List SendResult)
    (packId : PacketId) : Prop :=
  HasPacket srt s packId ∧ Carries rs (frameLength srt s packId)

section

variable (srt : VersionSort) (s : PacketLoggerServer) (rs : List SendResult) (packId : PacketId)

/-- There is something to send exactly when there is a packet. -/
lemma hasPacket_iff : HasPacket srt s packId ↔
    (getPacket srt s packId fun _ => 0).1 = true ∧ 0 < (getPacket srt s packId fun _ => 0).2.2 := by
  rw [HasPacket, getPacket]
  cases s.packetsVersions (base packId) with
  | none => simp
  | some pvd =>
      simp only [Option.some.injEq, exists_eq_left', true_and]
      constructor
      · rintro ⟨spvd, hmem, hpos⟩
        exact hpos.trans_le ((le_foldl_copyVersion _ (fun _ => 0, 0)).2 spvd hmem)
      · intro hpos
        rcases foldl_copyVersion_snd (usedVersions srt pvd (version packId)) (fun _ => 0, 0) with
          h | ⟨spvd, hmem, h⟩
        · exact absurd h hpos.ne'
        · exact ⟨spvd, hmem, h ▸ hpos⟩

lemma length_replayMessage {packet : Mem} {packetLen : ℕ} (hpos : 0 < packetLen)
    (hlt : packetLen < 65536) : (replayMessage packet packetLen).length = 7 + packetLen := by
  have hdigits : packetLen < 10 ^ 7 := hlt.trans (by decide)
  rw [replayMessage, intToStringDigits_eq (by decide) hdigits, List.length_append,
    length_padDigits, List.length_cons, length_read]
  omega

/-- A packet has a frame of its length, and there is none without a packet. -/
lemma sendPacket_cases :
    (HasPacket srt s packId ∧ ∃ packet, sendPacket srt s packId = some packet ∧
        packet.message.length = frameLength srt s packId) ∨
      ¬ HasPacket srt s packId ∧ sendPacket srt s packId = none := by
  by_cases h : HasPacket srt s packId
  · have hfound := (hasPacket_iff srt s packId).mp h
    refine .inl ⟨h, _, if_pos hfound, ?_⟩
    exact length_replayMessage hfound.2 (getPacket_length_lt ..)
  · exact .inr ⟨h, if_neg fun hfound => h ((hasPacket_iff srt s packId).mpr hfound)⟩

/-- A frame is written exactly when the sends carry it. -/
lemma sendMsgToDstMb_written_iff {msgToSend : List UInt8}
    (h : msgToSend.length ≤ serverBufferSize) :
    (sendMsgToDstMb rs msgToSend).2 = msgToSend ↔ Carries rs msgToSend.length := by
  rw [sendMsgToDstMb, if_neg (Nat.not_lt.mpr h)]
  exact (sendLoop_iff _ (fun _ => by simp) rs msgToSend).2

lemma frameLength_le : frameLength srt s packId ≤ serverBufferSize := by
  have hlt := getPacket_length_lt srt s packId fun _ => 0
  rw [frameLength, serverBufferSize, serverBufferSizeWithoutPrefix]
  omega

/-- A whole frame is written exactly when there is a packet, and the sends carry its frame. -/
theorem whole_iff : (replayPacket srt s rs packId).whole = true ↔ Sendable srt s rs packId := by
  rw [replayPacket, Sendable]
  rcases sendPacket_cases srt s packId with ⟨h, packet, hpacket, hlen⟩ | ⟨h, hnone⟩
  · have hwritten := sendMsgToDstMb_written_iff rs (hlen ▸ frameLength_le srt s packId)
    rw [hpacket, ← hlen, ← hwritten]
    simp only [Replayed.whole, beq_iff_eq, Option.some.injEq]
    exact ⟨fun heq => ⟨h, heq.symm⟩, fun hall => hall.2.symm⟩
  · rw [hnone]
    simp [Replayed.whole, h]

/-- What is written of a packet, when the sends carry its frame. -/
lemma written_eq (hcarries : HasPacket srt s packId → Carries rs (frameLength srt s packId)) :
    (replayPacket srt s rs packId).written
      = ((sendPacket srt s packId).map SentPacket.message).getD [] := by
  rw [replayPacket]
  rcases sendPacket_cases srt s packId with ⟨h, packet, hpacket, hlen⟩ | ⟨h, hnone⟩
  · rw [hpacket]
    have hwritten := sendMsgToDstMb_written_iff rs (hlen ▸ frameLength_le srt s packId)
    exact hwritten.mpr (hlen ▸ hcarries h)
  · rw [hnone]
    rfl

end

section

variable (srt : VersionSort) (s : PacketLoggerServer) (connected : Bool)
  (sends : ℕ → List SendResult) (ids : List PacketId)

/-- The connection alone decides the result. -/
lemma replayPackets_fst : (replayPackets srt s connected sends ids).1 = connected := by
  cases connected <;> rfl

/-- All packets are sent whole exactly when each one can be sent. -/
lemma all_whole_iff :
    (∀ r ∈ (replayPackets srt s true sends ids).2, r.whole = true) ↔
      ∀ p ∈ ids.zipIdx, Sendable srt s (sends p.2) p.1 := by
  rw [replayPackets, if_pos rfl, List.forall_mem_map]
  exact forall₂_congr fun p _ => whole_iff ..

/-- When the sends carry all frames, the packets that `processReplayRequest` sends are written,
one after another. -/
theorem written_of_carries
    (h : ∀ p ∈ ids.zipIdx, HasPacket srt s p.1 → Carries (sends p.2) (frameLength srt s p.1)) :
    (replayPackets srt s connected sends ids).1
        = (processReplayRequest srt s connected ids).1 ∧
      (replayPackets srt s connected sends ids).2.flatMap Replayed.written
        = (processReplayRequest srt s connected ids).2.flatMap SentPacket.message := by
  cases connected with
  | false => exact ⟨rfl, rfl⟩
  | true =>
      refine ⟨rfl, ?_⟩
      calc (ids.zipIdx.map fun p => replayPacket srt s (sends p.2) p.1).flatMap Replayed.written
          = ids.zipIdx.flatMap fun p =>
              ((sendPacket srt s p.1).map SentPacket.message).getD [] := by
            rw [List.flatMap_map]
            exact List.flatMap_congr fun p hp => written_eq srt s _ p.1 (h p hp)
        _ = ids.flatMap fun id => ((sendPacket srt s id).map SentPacket.message).getD [] := by
            conv_rhs => rw [← List.zipIdx_map_fst 0 ids, List.flatMap_map]
        _ = (ids.filterMap (sendPacket srt s)).flatMap SentPacket.message := by
            rw [List.filterMap_eq_flatMap_toList, List.flatMap_assoc]
            refine List.flatMap_congr fun id _ => ?_
            cases sendPacket srt s id <;> simp

end

end PacketLoggerServer

end FtThesis
