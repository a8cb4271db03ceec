/-
Lists of packet ids on their way through the fixed buffers.

The determinant logger answers with the ids that a middlebox has processed, and the
manager sends lists of ids to the packet logger.  No side checks the length of a list
before it writes the list to a buffer.

* `getProcessedPacketIds`: the answer of the determinant logger, as the manager reads it;
* `deserializeReceived`: a request, as the packet logger reads it;
* `ReplyTravels`, `RequestTravels`: a list arrives, and no write is behind a buffer;
* `replyTravels_iff`, `replayTravels_iff`, `deleteTravels_iff`: for which lengths they do;
* `idListsTravel_iff`: for which number of processed packets all of them do.
-/
import FtThesis.DetLogger.Server
import FtThesis.Library.Runs
import FtThesis.PacketLogger.Codec
import FtThesis.Transport.Framing
import FtThesis.Transport.Sending

namespace FtThesis

open Memory Socket Transition

/-! ### The answer of the determinant logger -/

namespace DetLoggerServer

/-- `processGetProcessedPacketsRequest` in the mode with all versions: the buffer of the
reply, and the length of the reply. -/
def writeProcessedPackets (s : DetLoggerServer) (mbId : MbId) (retVal : Mem) : Mem × ℕ :=
  match s.getServerProgressData mbId with
  | none => (retVal, 0)
  | some spd =>
      (word64.putList (getProcessedPacketsForAllVersions spd) retVal 0,
        (getProcessedPacketsForAllVersions spd).length * 8)

lemma writeProcessedPackets_eq (s : DetLoggerServer) (mbId : MbId) (retVal : Mem) :
    s.writeProcessedPackets mbId retVal =
      let ids := (s.processed mbId).take (s.processedIndex mbId).toNat
      (word64.putList ids retVal 0, ids.length * 8) := by
  rw [writeProcessedPackets, getServerProgressData, processed, processedIndex]
  cases s.progressData mbId <;> rfl

/-- In every run, the number of the processed packets is right, as a `uint32_t`. -/
lemma processedIndex_eq {reqs : List DetRequest} {s : DetLoggerServer}
    (hrun : Run (Fires processRequest) .new reqs s) (mb : MbId) :
    (s.processedIndex mb).toNat = (s.processed mb).length % 2 ^ 32 := by
  refine hrun.invariant
    (I := fun s => ∀ mb, (s.processedIndex mb).toNat = (s.processed mb).length % 2 ^ 32)
    ?step (fun _ => rfl) mb
  case step =>
    intro s req t hs hstep mb
    cases req with
    | store pm =>
        obtain rfl := Option.some.inj hstep
        rw [processedIndex_processStoreRequest, processed_processStoreRequest]
        split_ifs with hmb
        · rw [UInt32.toNat_add, hs mb, List.length_append, List.length_singleton]
          exact Nat.mod_add_mod _ _ _
        · exact hs mb
    | getProcessed mbId allVersions =>
        obtain ⟨_, -, rfl⟩ := Option.map_eq_some_iff.mp hstep
        exact hs mb
    | getPals mbId packId =>
        obtain ⟨_, -, rfl⟩ := Option.map_eq_some_iff.mp hstep
        exact hs mb
    | deleteFirst mbId n =>
        obtain rfl := Option.some.inj hstep
        rw [processedIndex_processDeleteFirst, processed_processDeleteFirst]
        split_ifs with hmb
        · have hle : s.removedCount mbId n ≤ (s.processedIndex mbId).toNat := by
            rw [removedCount_eq]
            exact min_le_left _ _
          rw [List.length_drop]
          have hindex := hs mbId
          omega
        · exact hs mb

end DetLoggerServer

namespace DetLoggerClient

/-- `handleGetPacketIdsResponse`. -/
def handleGetPacketIdsResponse (retVal : List UInt8) : List PacketId :=
  word64.getList (retVal.length / 8) (memcpy (fun _ => 0) 0 retVal) 0

/-- `CleanupManagerServer::getProcessedPacketIds`, from the events after the request, with
the contents `retVal` of the new buffer. -/
def getProcessedPacketIds (retVal : Mem) (ev : List Event) : List PacketId :=
  match (Client.sendMsgAndWait retVal ev).1 with
  | .returnedTrue (some (_, retVal)) => handleGetPacketIdsResponse retVal
  | _ => []

lemma handleGetPacketIdsResponse_read (ids : List PacketId) (retVal : Mem) :
    handleGetPacketIdsResponse (read (word64.putList ids retVal 0) 0 (ids.length * 8)) = ids := by
  have hagree := agreeOn_memcpy_read (word64.putList ids retVal 0) (fun _ => 0) (ids.length * 8)
  rw [handleGetPacketIdsResponse, length_read, Nat.mul_div_cancel _ (by decide)]
  exact (word64.getList_congr hagree).symm.trans (word64.getList_putList ids retVal 0)

end DetLoggerClient

open DetLoggerClient

/-- The ids that a middlebox has processed arrive at the manager, if the answer comes in
time, and neither side writes behind its buffer for the reply. -/
def ReplyTravels (s : DetLoggerServer) (mbId : MbId) : Prop :=
  WritesBelow (fun retVal => (s.writeProcessedPackets mbId retVal).1) maxRetValLength ∧
    ∀ (serverRetVal : Mem) (ev : List Event), Delivers ev → waits ev = [] →
      stream ev = AsyncServer.writeResponseToClient true
        (s.writeProcessedPackets mbId serverRetVal).1
        (s.writeProcessedPackets mbId serverRetVal).2 →
      WritesBelow (fun retVal => (Client.readCommonServerResponse ev retVal).msg)
          (Client.maxRetValLength + 8) ∧
        ∀ retVal, getProcessedPacketIds retVal ev = s.processed mbId

section

variable {s : DetLoggerServer} {mb : MbId} {ids : List PacketId}
  (hids : (s.processed mb).take (s.processedIndex mb).toNat = ids)

include hids

/-- If the ids of the reply fit, the manager reads these, and the buffers suffice. -/
lemma reply_of_fits (hfits : ids.length * 8 ≤ maxRetValLength) (serverRetVal : Mem)
    {ev : List Event} (hev : Delivers ev) (hquiet : waits ev = [])
    (hstream : stream ev = AsyncServer.writeResponseToClient true
      (s.writeProcessedPackets mb serverRetVal).1 (s.writeProcessedPackets mb serverRetVal).2) :
    WritesBelow (fun retVal => (Client.readCommonServerResponse ev retVal).msg)
        (Client.maxRetValLength + 8) ∧
      ∀ retVal, getProcessedPacketIds retVal ev = ids := by
  rw [s.writeProcessedPackets_eq, hids, AsyncServer.writeResponseToClient_eq _ _ hfits] at hstream
  refine ⟨fun retVal q hq => ?_, fun retVal => ?_⟩
  · obtain ⟨ev', -, hread⟩ := Client.readCommonServerResponse_of_quiet hev hquiet
      (hstream.trans (List.append_nil _).symm) retVal
    have hle : ids.length * 8 ≤ Client.maxRetValLength := hfits
    simp only [hread]
    exact memcpy_of_lt (.inr (by rw [Client.Answer.length_bytes, length_read]; omega))
  · rw [getProcessedPacketIds, Client.sendMsgAndWait_of_quiet hev hquiet hstream rfl,
      Client.Answer.handed]
    by_cases hnil : ids = []
    · subst hnil
      rfl
    · have hne : read (word64.putList ids serverRetVal 0) 0 (ids.length * 8) ≠ [] := by
        rw [← List.length_pos_iff, length_read]
        have := List.length_pos_iff.mpr hnil
        omega
      simp only [if_neg hne]
      exact handleGetPacketIdsResponse_read ids serverRetVal

end

/-- The list of a middlebox arrives if and only if its ids fit the buffer of the reply. -/
theorem replyTravels_iff {reqs : List DetRequest} {s : DetLoggerServer}
    (hrun : Run (Fires DetLoggerServer.processRequest) .new reqs s) (mb : MbId) :
    ReplyTravels s mb ↔ (s.processed mb).length * 8 ≤ maxRetValLength := by
  have hindex := DetLoggerServer.processedIndex_eq hrun mb
  set ids := (s.processed mb).take (s.processedIndex mb).toNat with hids
  have hwrite : (fun retVal => (s.writeProcessedPackets mb retVal).1)
      = fun retVal => word64.putList ids retVal 0 := by
    funext retVal
    rw [s.writeProcessedPackets_eq]
  constructor
  · rintro ⟨hbelow, harrives⟩
    rw [hwrite] at hbelow
    have hfits := (writesBelow_putList_zero_iff ids).mp hbelow
    -- an answer that comes in one piece
    let answer := AsyncServer.writeResponseToClient true
      (s.writeProcessedPackets mb fun _ => 0).1 (s.writeProcessedPackets mb fun _ => 0).2
    have hev : Delivers (pushBack answer []) := delivers_pushBack (by simp [Delivers])
    have hquiet : waits (pushBack answer []) = [] := by simp [waits]
    have hstream : stream (pushBack answer []) = answer := by simp [stream]
    have hread := (reply_of_fits hids.symm hfits _ hev hquiet hstream).2 fun _ => 0
    rw [(harrives _ _ hev hquiet hstream).2] at hread
    rwa [hread]
  · intro hfits
    have hsmall : (s.processed mb).length < 2 ^ 32 := by
      have hmax : maxRetValLength = 300000 := rfl
      omega
    have hall : ids = s.processed mb := by
      rw [hids, List.take_of_length_le (by rw [hindex, Nat.mod_eq_of_lt hsmall])]
    rw [← hall] at hfits
    refine ⟨?_, fun serverRetVal ev hev hquiet hstream => ?_⟩
    · rw [hwrite]
      exact (writesBelow_putList_zero_iff ids).mpr hfits
    · rw [← hall]
      exact reply_of_fits hids.symm hfits serverRetVal hev hquiet hstream

/-! ### The requests to the packet logger -/

/-- What the packet logger makes of a request that it reads to the buffer `msg`. -/
def deserializeReceived (msg : Mem) (ev : List Event) : Option RequestObject :=
  let r := AsyncServer.readCommonClientRequest ev msg
  r.msgLen.bind fun msgLen => r.command.bind fun command =>
    PacketLoggerServer.deserializeClientRequest command (fun q => r.msg (8 + q)) msgLen

/-- The ids of a request are the given ones. -/
def RequestObject.HasIds (packetIds : List PacketId) : RequestObject → Prop
  | .replayPackets replayData => replayData.packetIds = packetIds
  | .deletePackets packetIds' => packetIds' = packetIds
  | _ => False

/-- A request of the manager arrives at the packet logger with the given ids, if it comes
without an interruption, and neither side writes behind its buffer for the request. -/
def RequestTravels (command : ℕ) (obj : RequestObject) (packetIds : List PacketId) : Prop :=
  let serializeObject := fun m => PacketLoggerClient.serializeObject command obj m 0
  WritesBelow (fun m => (Client.prepareToSend serializeObject command m).1)
      Client.serverBufferSize ∧
    ∀ (serialized : Mem) (ev : List Event), Delivers ev → waits ev = [] →
      stream ev = Client.sendMsg (Client.prepareToSend serializeObject command serialized).1
        (Client.prepareToSend serializeObject command serialized).2 →
      WritesBelow (fun msg => (AsyncServer.readCommonClientRequest ev msg).msg)
          (Client.serverBufferSize + 8) ∧
        ∀ msg, ∃ obj', deserializeReceived msg ev = some obj' ∧ obj'.HasIds packetIds

section

variable {serializeObject : Mem → Mem × ℕ} {command : ℕ} (hcommand : command ≤ 9)
  {serialized payload : Mem} {len : ℕ}
  (hser : (serializeObject fun q => serialized (8 + q)) = (payload, len))
  (hpos : 0 < len) (hlen : len ≤ serverBufferSizeWithoutPrefix)
  {ev : List Event} (hev : Delivers ev) (hquiet : waits ev = [])
  (hstream : stream ev = Client.sendMsg
    (Client.prepareToSend serializeObject command serialized).1
    (Client.prepareToSend serializeObject command serialized).2)

include hcommand hser hpos hlen hev hquiet hstream

/-- A payload that fits arrives as it is, and the buffer of the server suffices. -/
lemma received_of_fits :
    WritesBelow (fun msg => (AsyncServer.readCommonClientRequest ev msg).msg)
        (Client.serverBufferSize + 8) ∧
      ∀ msg, ∃ m', AgreeOn payload m' 0 len ∧
        deserializeReceived msg ev
          = PacketLoggerServer.deserializeClientRequest command m' len := by
  let r : Request :=
    ⟨command, read payload 0 len, hcommand, by simpa using hpos, by simpa using hlen⟩
  have hrlen : r.payload.length = len := length_read _ _ _
  have hbytes : stream ev = r.bytes ++ [] := by
    rw [hstream, Client.sendMsg_prepareToSend serializeObject hcommand serialized hser hlen,
      List.append_nil]
    rfl
  have hread := AsyncServer.readCommonClientRequest_of_quiet hev hbytes (by simp [hquiet])
  refine ⟨fun msg q hq => ?_, fun msg => ?_⟩
  · simp only [hread]
    simp only [Client.serverBufferSize] at hq
    exact memcpy_of_lt (.inr (by rw [r.length_bytes]; omega))
  · refine ⟨fun q => memcpy msg 0 r.bytes (8 + q), fun q _ hq => ?_, ?_⟩
    · have hpayload : read (memcpy msg 0 r.bytes) 8 len = read payload 0 len := by
        rw [read_memcpy msg _ (by rw [r.length_bytes]; omega), Request.bytes,
          drop_message r.command_le r.payload_lt, List.take_of_length_le hrlen.le]
      have hbyte := congrArg (·[q]?) hpayload
      rw [Nat.zero_add] at hq
      simpa [Memory.read, hq] using hbyte.symm
    · simp only [deserializeReceived, hread, hrlen]
      rfl

end

/-- A request to replay arrives if and only if its ids fit the buffer of the request. -/
theorem replayTravels_iff {r : PacketLoggerClient.ReplayPackets}
    (hlen : r.addressLen.toNat ≤ maxAddressLen) (hpos : r.packetIds ≠ []) :
    RequestTravels replayPacketsByIdsCommandType (.replayPackets r) r.packetIds
      ↔ 21 + r.packetIds.length * 8 ≤ serverBufferSizeWithoutPrefix := by
  let header : Mem → Mem := fun m =>
    (PacketLoggerClient.serializeReplayPacketsByIds { r with packetIds := [] } m).1
  have hheader : WritesBelow header 21 := by
    intro m q hq
    have haddress : (r.address.toList.take r.addressLen.toNat).length ≤ 16 := by
      rw [List.length_take]
      exact (min_le_left _ _).trans hlen
    simp only [header, PacketLoggerClient.serializeReplayPacketsByIds, Codec.putList]
    rw [memcpy_of_lt (.inr (by omega)), Function.update_of_ne (by omega),
      word16.put_frame _ _ _ _ (.inr (by simp only [word16]; omega)),
      word16.put_frame _ _ _ _ (.inr (by simp only [word16]; omega))]
  have hbelow := (Client.writesBelow_prepareToSend_iff (fun m =>
    PacketLoggerClient.serializeObject replayPacketsByIdsCommandType (.replayPackets r) m 0)
    replayPacketsByIdsCommandType serverBufferSizeWithoutPrefix).trans
    (writesBelow_putList_iff hheader hpos)
  refine ⟨fun h => hbelow.mp h.1, fun hfits => ⟨hbelow.mpr hfits, ?_⟩⟩
  intro serialized ev hev hquiet hstream
  obtain ⟨hserver, hreceived⟩ := received_of_fits (by decide) rfl
    (show 0 < 2 * 2 + 1 + maxAddressLen + r.packetIds.length * 8 by omega) hfits hev hquiet hstream
  refine ⟨hserver, fun msg => ?_⟩
  obtain ⟨m', hagree, hmsg⟩ := hreceived msg
  have hread := congrArg PacketLoggerClient.ReplayPackets.packetIds
    (PacketLoggerServer.deserializeClientReplayRequest_of_agreeOn r hlen hagree)
  rw [PacketLoggerServer.deserializeClientRequest, if_neg (by decide), if_neg (by decide),
    if_pos rfl] at hmsg
  exact ⟨_, hmsg, hread⟩

/-- A request to delete arrives if and only if its ids fit the buffer of the request. -/
theorem deleteTravels_iff {packetIds : List PacketId} (hpos : packetIds ≠ []) :
    RequestTravels deletePacketsByIdsCommandType (.deletePackets packetIds) packetIds
      ↔ packetIds.length * 8 ≤ serverBufferSizeWithoutPrefix := by
  have hbelow := (Client.writesBelow_prepareToSend_iff (fun m =>
    PacketLoggerClient.serializeObject deletePacketsByIdsCommandType (.deletePackets packetIds) m 0)
    deletePacketsByIdsCommandType serverBufferSizeWithoutPrefix).trans
    (writesBelow_putList_zero_iff packetIds)
  refine ⟨fun h => hbelow.mp h.1, fun hfits => ⟨hbelow.mpr hfits, ?_⟩⟩
  intro serialized ev hev hquiet hstream
  have hlength := List.length_pos_iff.mpr hpos
  obtain ⟨hserver, hreceived⟩ := received_of_fits (by decide) rfl
    (show 0 < packetIds.length * 8 by omega) hfits hev hquiet hstream
  refine ⟨hserver, fun msg => ?_⟩
  obtain ⟨m', hagree, hmsg⟩ := hreceived msg
  have hread := PacketLoggerServer.deserializeClientDeletePacketsRequest_of_agreeOn packetIds hagree
  rw [PacketLoggerServer.deserializeClientRequest, if_neg (by decide), if_neg (by decide),
    if_neg (by decide), if_pos rfl] at hmsg
  exact ⟨_, hmsg, hread⟩

/-! ### All lists of a middlebox -/

/-- The list of the packets that a middlebox has processed arrives at the manager, and
every list of as many ids arrives at the packet logger, to be replayed or deleted.  The
manager makes no request for an empty list. -/
def IdListsTravel (s : DetLoggerServer) (mbId : MbId) : Prop :=
  ReplyTravels s mbId ∧
    ∀ packetIds : List PacketId, packetIds.length = (s.processed mbId).length → packetIds ≠ [] →
      (∀ r : PacketLoggerClient.ReplayPackets, r.addressLen.toNat ≤ maxAddressLen →
        r.packetIds = packetIds →
        RequestTravels replayPacketsByIdsCommandType (.replayPackets r) packetIds) ∧
      RequestTravels deletePacketsByIdsCommandType (.deletePackets packetIds) packetIds

/-- **Id lists and the fixed buffers.**  In every state of the determinant logger, the
lists of a middlebox arrive, with no write behind a buffer, if and only if a request to
replay as many ids as it has processed fits the buffer of a request. -/
theorem idListsTravel_iff {reqs : List DetRequest} {s : DetLoggerServer}
    (hrun : Run (Fires DetLoggerServer.processRequest) .new reqs s) (mb : MbId) :
    IdListsTravel s mb ↔ 21 + (s.processed mb).length * 8 ≤ serverBufferSizeWithoutPrefix := by
  constructor
  · rintro ⟨-, hrequests⟩
    by_cases hnil : s.processed mb = []
    · rw [hnil]
      decide
    · let r : PacketLoggerClient.ReplayPackets := ⟨0, 0, .replicate _ 0, 0, s.processed mb⟩
      have haddress : r.addressLen.toNat ≤ maxAddressLen := Nat.zero_le _
      exact (replayTravels_iff haddress hnil).mp ((hrequests _ rfl hnil).1 r haddress rfl)
  · intro hfits
    have hreply : maxRetValLength = serverBufferSizeWithoutPrefix := rfl
    refine ⟨(replyTravels_iff hrun mb).mpr (by omega), fun packetIds hlength hpos => ⟨?_, ?_⟩⟩
    · rintro r haddress rfl
      exact (replayTravels_iff haddress hpos).mpr (by omega)
    · exact (deleteTravels_iff hpos).mpr (by omega)

/-- A middlebox may have processed any number of packets. -/
lemma exists_processed (mb : MbId) (n : ℕ) :
    ∃ reqs s, Run (Fires DetLoggerServer.processRequest) .new reqs s ∧
      (s.processed mb).length = n := by
  induction n with
  | zero => exact ⟨[], .new, .nil, rfl⟩
  | succ n ih =>
      obtain ⟨reqs, s, hrun, hlength⟩ := ih
      let pm : PALSManager := .new mb 33
      have hstep : Fires DetLoggerServer.processRequest s (.store pm) (s.processStoreRequest pm) :=
        rfl
      refine ⟨_, _, hrun.snoc hstep, ?_⟩
      rw [DetLoggerServer.processed_processStoreRequest, if_pos (show mb = pm.middleboxId from rfl),
        List.length_append, hlength, List.length_singleton]

/-- The list of a middlebox that has processed three packets, in two versions each. -/
theorem idListsTravel_of_six :
    ∃ s, Run (Fires DetLoggerServer.processRequest) .new
        ([33, 34, 65, 66, 97, 98].map fun id => .store (.new 6 id)) s ∧
      s.processed 6 = [33, 34, 65, 66, 97, 98] ∧ IdListsTravel s 6 := by
  obtain ⟨s, hrun, hlist⟩ : ∃ s, Run (Fires DetLoggerServer.processRequest) .new
      ([33, 34, 65, 66, 97, 98].map fun id => .store (.new 6 id)) s ∧
      s.processed 6 = [33, 34, 65, 66, 97, 98] :=
    ⟨_, Run.of_foldlM rfl, by decide⟩
  exact ⟨s, hrun, hlist, (idListsTravel_iff hrun 6).mpr (by rw [hlist]; decide)⟩

/-- The list of 37501 packets does not arrive. -/
theorem not_idListsTravel :
    ¬ ∀ reqs s, Run (Fires DetLoggerServer.processRequest) .new reqs s →
      ∀ mb, IdListsTravel s mb := by
  intro h
  obtain ⟨reqs, s, hrun, hlength⟩ := exists_processed 6 37501
  have hfits := (replyTravels_iff hrun 6).mp (h reqs s hrun 6).1
  rw [hlength] at hfits
  exact absurd hfits (by decide)

end FtThesis
