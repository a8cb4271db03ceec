/-
The packet logger, called by its clients.

The elements of the middleboxes call the packet logger to store parts of packets, and the cleanup
manager to replay and to delete packets, each through its own client class and connection.

* `PacketRequest`, `ReplayingServer`: the requests, and the server with what it has replayed;
* `processRequest`: what the server makes of a request;
* `service`, `travels_of_fits`: the requests that fit into the buffers are read as they were
  meant; that for one packet is read right although its client reads it as two fields;
* `LocalCall`, `result`: a request without a network between, and what the client makes of an
  answer;
* `calls_once`: the calls of any number of clients, with answers that may be late, are local calls,
  each executed at most once, if the server executes them one after another.
-/
import FtThesis.PacketLogger.Codec
import FtThesis.Transport.Calls

namespace FtThesis

open Memory Transition
open PacketLoggerClient (ReplayPackets)

/-- The requests to the packet logger. -/
inductive PacketRequest
  | store (wpd : WrappedPacketData)
  | get (packId : PacketId)
  | replay (replayData : ReplayPackets)
  | delete (packetIds : List PacketId)

/-- The packet logger, with the requests to replay that it has executed and the messages that it
sent for them. -/
structure ReplayingServer where
  server : PacketLoggerServer
  replayed : List (ReplayPackets × List PacketLoggerServer.SentPacket)

namespace PacketLoggerClient

/-- `prepareGetPacketTest`, with the contents of the new array before. -/
def prepareGetPacketTest (packId : PacketId) (input : Mem) : Mem := word64.put packId input 0

/-- What the callers hand to `prepareToSend`. -/
def object (input : Mem) : PacketRequest → RequestObject
  | .store wpd => .wrappedPacketData wpd
  | .get packId => .bytes (prepareGetPacketTest packId input)
  | .replay replayData => .replayPackets replayData
  | .delete packetIds => .deletePackets packetIds

/-- `serializeGetPacketById` copies the ten bytes at its argument. -/
lemma serializeGetPacketById_copies (obj m : Mem) :
    AgreeOn obj (serializeGetPacketById obj m).1 0 10 := by
  intro q _ hq
  rcases Nat.lt_or_ge q 2 with hlt | hge
  · change obj q = word64.put _ (word16.put (word16.get obj 0) m 0) 2 q
    rw [word64.put_frame _ _ _ _ (.inl hlt)]
    exact word16_copies obj m 0 q (Nat.zero_le q) (by omega)
  · exact word64_copies obj _ 2 q hge (by omega)

end PacketLoggerClient

/-- The command of a request. -/
def PacketRequest.command : PacketRequest → ℕ
  | store _ => storeCommandType
  | get _ => getPacketByPackidCommandType
  | replay _ => replayPacketsByIdsCommandType
  | delete _ => deletePacketsByIdsCommandType

lemma PacketRequest.command_le (request : PacketRequest) : request.command ≤ 9 := by
  cases request <;> simp [command, storeCommandType, getPacketByPackidCommandType,
    replayPacketsByIdsCommandType, deletePacketsByIdsCommandType]

namespace PacketLoggerServer

/-- The request that an object is, with the id that `processGetPacketByIdRequest` reads off its
bytes. -/
def request : RequestObject → PacketRequest
  | .wrappedPacketData wpd => .store wpd
  | .bytes obj => .get (word64.get obj 0)
  | .replayPackets replayData => .replay replayData
  | .deletePackets packetIds => .delete packetIds

/-- `processRequest`: the next state, the status, and the buffer of the answer with the length of
the return value.  It depends on the slave whether there is a connection to it. -/
def processRequest (srt : VersionSort) (s : ReplayingServer) (request : PacketRequest)
    (retVal : Mem) (t : ReplayingServer) (succeed : Bool) (reply : Mem) (retValLen : ℕ) : Prop :=
  match request with
  | .store wpd =>
      t = { s with server := s.server.processStoreRequest wpd } ∧ succeed = true ∧
        reply = retVal ∧ retValLen = 0
  | .get packId =>
      t = s ∧ succeed = true ∧ (reply, retValLen) = (s.server.getPacket srt packId retVal).2
  | .replay replayData => ∃ connected,
      let r := s.server.processReplayRequest srt connected replayData.packetIds
      t = { s with replayed := s.replayed ++ [(replayData, r.2)] } ∧ succeed = r.1 ∧
        reply = retVal ∧ retValLen = 0
  | .delete packetIds =>
      t = { s with server := s.server.processDeletePacketsRequest packetIds } ∧ succeed = true ∧
        reply = retVal ∧ retValLen = 0

/-- The packet logger and its client.  The other two client classes only store, and lay this out
in the same way. -/
def service (srt : VersionSort) : Service ReplayingServer PacketRequest where
  command := PacketRequest.command
  serializeObject request m :=
    PacketLoggerClient.serializeObject request.command
      (PacketLoggerClient.object (fun _ => 0) request) m 0
  deserializeClientRequest command msg msgLen :=
    (deserializeClientRequest command msg msgLen).map request
  processRequest := processRequest srt

/-- A request that fits into the buffers: an address that is no longer than its array and has
zeros behind it, and a list of ids that is not too long and, to delete, not empty. -/
def Fits : PacketRequest → Prop
  | .store _ | .get _ => True
  | .replay replayData =>
      replayData.addressLen.toNat ≤ maxAddressLen ∧
        (∀ i : Fin maxAddressLen, replayData.addressLen.toNat ≤ i → replayData.address.get i = 0) ∧
        21 + replayData.packetIds.length * 8 ≤ serverBufferSizeWithoutPrefix
  | .delete packetIds =>
      packetIds ≠ [] ∧ packetIds.length * 8 ≤ serverBufferSizeWithoutPrefix

variable {srt : VersionSort}

/-- A request that fits is read as it was meant. -/
lemma travels_of_fits {r : PacketRequest} (h : Fits r) : (service srt).Travels r := by
  cases r with
  | store wpd =>
      have hser : ∀ m, (service srt).serializeObject (.store wpd) m
          = serializeWrappedPacketData memcpy wpd m := fun m =>
        StoreClient.packetLoggerClient.serializeObject_store wpd m 0
      have hlen : ∀ m, ((service srt).serializeObject (.store wpd) m).2
          = 12 + wpd.size.toNat := fun m => by rw [hser]; rfl
      have hsize := wpd.size.toNat_lt
      refine ⟨(PacketRequest.store wpd).command_le, fun m => ?_, fun m => ?_,
        fun m m' hagree => ?_⟩
      · rw [hlen]
        omega
      · rw [hlen, serverBufferSizeWithoutPrefix]
        omega
      · rw [hser] at hagree
        change some (PacketRequest.store (deserializeClientStoreRequest m')) = _
        rw [deserializeClientStoreRequest_of_agreeOn wpd hagree]
  | get packId =>
      have hlen : (2 : ℕ) + 8 ≤ serverBufferSizeWithoutPrefix := by decide
      refine ⟨(PacketRequest.get packId).command_le, fun m => Nat.succ_pos _, fun m => hlen,
        fun m m' hagree => ?_⟩
      have hinput := PacketLoggerClient.serializeGetPacketById_copies
        (PacketLoggerClient.prepareGetPacketTest packId fun _ => 0) m
      have hid : word64.get m' 0 = packId := by
        rw [← word64.get_congr _ m' 0 ((hinput.trans hagree).mono le_rfl (by decide))]
        exact word64.get_put packId _ 0
      change some (PacketRequest.get (word64.get m' 0)) = _
      rw [hid]
  | replay replayData =>
      obtain ⟨haddress, hzeros, hlen⟩ := h
      refine ⟨(PacketRequest.replay replayData).command_le, fun m => ?_, fun m => hlen,
        fun m m' hagree => ?_⟩
      · exact Nat.lt_of_lt_of_le (by decide : 0 < 21) (Nat.le_add_right _ _)
      · rw [show (service srt).serializeObject (.replay replayData) m
          = PacketLoggerClient.serializeReplayPacketsByIds replayData m from rfl] at hagree ⊢
        have hread := deserializeClientReplayRequest_of_agreeOn replayData haddress hagree
        have hsame : (Vector.ofFn fun i : Fin maxAddressLen =>
            if i < replayData.addressLen.toNat then replayData.address[i] else 0)
              = replayData.address := by
          refine Vector.ext fun i hi => ?_
          rw [Vector.getElem_ofFn]
          split_ifs with hlt
          · rfl
          · exact (hzeros ⟨i, hi⟩ (Nat.not_lt.mp hlt)).symm
        change some (PacketRequest.replay (deserializeClientReplayRequest m' _)) = _
        rw [hread]
        exact congrArg (fun address => some (PacketRequest.replay { replayData with address }))
          hsame
  | delete packetIds =>
      obtain ⟨hne, hlen⟩ := h
      have hpos := List.length_pos_iff.mpr hne
      refine ⟨(PacketRequest.delete packetIds).command_le, fun m => ?_, fun m => hlen,
        fun m m' hagree => ?_⟩
      · exact Nat.mul_pos hpos (by decide)
      · change some (PacketRequest.delete (deserializeClientDeletePacketsRequest m' _)) = _
        rw [show (service srt).serializeObject (.delete packetIds) m
          = (word64.putList packetIds m 0, packetIds.length * 8) from rfl] at hagree ⊢
        rw [deserializeClientDeletePacketsRequest_of_agreeOn packetIds hagree]

/-! ### Local calls -/

/-- What a call comes to for its caller: it returns false, or true with nothing, or with the bytes
of a packet. -/
inductive CallResult
  | failed
  | done
  | packet (bytes : List UInt8)
deriving DecidableEq

/-- A request without a network between.  In the bytes of a packet that no version covers stands
what stood in the buffer before. -/
def LocalCall (srt : VersionSort) (s : ReplayingServer) (request : PacketRequest) (r : CallResult)
    (t : ReplayingServer) : Prop :=
  match request with
  | .store wpd => t = { s with server := s.server.processStoreRequest wpd } ∧ r = .done
  | .get packId => t = s ∧ ∃ retVal,
      let (packet, packetLen) := (s.server.getPacket srt packId retVal).2
      r = .packet (read packet 0 packetLen)
  | .replay replayData => ∃ connected,
      let sent := (s.server.processReplayRequest srt connected replayData.packetIds).2
      t = { s with replayed := s.replayed ++ [(replayData, sent)] } ∧
        r = if connected then .done else .failed
  | .delete packetIds =>
      t = { s with server := s.server.processDeletePacketsRequest packetIds } ∧ r = .done

/-- `PacketLoggerClient::handleReturnValue`, with what the call comes to. -/
def result : PacketRequest → Client.Outcome → CallResult
  | .get _, .returnedTrue none => .packet []
  | .get _, .returnedTrue (some (_, retVal)) => .packet retVal
  | _, .returnedTrue _ => .done
  | _, _ => .failed

/-- A call is a local call. -/
lemma localCall_of_answers {s t : ReplayingServer} {request : PacketRequest} {a : Client.Answer}
    (h : (service srt).Answers s request a t) :
    LocalCall srt s request (result request a.outcome) t := by
  obtain ⟨retVal, reply, hprocess, hretVal⟩ := h
  change processRequest srt s request retVal t a.succeed reply a.retVal.length at hprocess
  cases request with
  | store wpd =>
      obtain ⟨rfl, hsucceed, -⟩ := hprocess
      rw [Client.Answer.outcome, if_pos hsucceed]
      exact ⟨rfl, rfl⟩
  | get packId =>
      obtain ⟨rfl, hsucceed, hpacket⟩ := hprocess
      refine ⟨rfl, retVal, ?_⟩
      rw [← hpacket, Client.Answer.outcome, if_pos hsucceed, Client.Answer.handed]
      simp only [hretVal]
      split_ifs with hnil
      · rw [hnil]
        rfl
      · rfl
  | replay replayData =>
      obtain ⟨connected, rfl, hsucceed, -⟩ := hprocess
      refine ⟨connected, rfl, ?_⟩
      rw [Client.Answer.outcome, hsucceed, processReplayRequest]
      cases connected <;> rfl
  | delete packetIds =>
      obtain ⟨rfl, hsucceed, -⟩ := hprocess
      rw [Client.Answer.outcome, if_pos hsucceed]
      exact ⟨rfl, rfl⟩

/-! ### Runs -/

variable {ι : Type*} [DecidableEq ι]

/-- **A call of the packet logger is executed at most once.**  For any number of clients on
connections that stay open, in a run in which the requests fit into the buffers, each is there as
a whole when the server reads it, which executes no other request then (also none of a client on
another host, for which it has another thread), and a client calls only while nothing of an
earlier call is on its way or being executed, whatever answers are late: the executed requests are
local calls, one after the other, from the start of the server to its state with what it has
replayed; on each connection they are the first ones of the calls of its client, in their order;
and a call that returns true was executed, and comes to what its local call comes to. -/
theorem calls_once
    {as : List (CallAction PacketRequest ι × Option (ι × PacketRequest × Client.Answer))}
    {w : Calls ReplayingServer PacketRequest ι}
    (h : Run (When (fun w a => Calls.Undisturbed (service srt) w a.1) (Calls.Step (service srt)))
      (Calls.start ⟨new, []⟩) as w) :
    Run (fun s (e : ι × PacketRequest × CallResult) t => LocalCall srt s e.2.1 e.2.2 t) ⟨new, []⟩
        (Calls.results result as) w.server ∧
      ∀ c, (Calls.executed c (Calls.results result as)).map Prod.fst <+: w.called c ∧
        ∀ (i : ℕ) handed, (w.returned c)[i]? = some (.returnedTrue handed) →
          ∃ request, (w.called c)[i]? = some request ∧
            (Calls.executed c (Calls.results result as))[i]?
              = some (request, result request (.returnedTrue handed)) :=
  Calls.results_once result (LocalCall srt) (fun _ _ _ _ => localCall_of_answers) h

/-- A part of a packet that is stored, and a request for the packet that is not read in time. -/
theorem calls_once_late :
    ∃ (w : Calls ReplayingServer PacketRequest Unit)
      (as : List (CallAction PacketRequest Unit × Option (Unit × PacketRequest × Client.Answer))),
      (w.called ()).length = 2 ∧ w.returned () = [.returnedTrue none, .returnedFalse] ∧
      Run (fun s (e : Unit × PacketRequest × CallResult) t => LocalCall .stable s e.2.1 e.2.2 t)
        ⟨new, []⟩ (Calls.results result as) w.server := by
  let wpd : WrappedPacketData := ⟨33, 0, 1, [7], rfl⟩
  let w₀ : Calls ReplayingServer PacketRequest Unit := Calls.start ⟨new, []⟩
  have hstore : (service .stable).Answers w₀.server (.store wpd) ⟨true, [], by decide⟩
      ⟨new.processStoreRequest wpd, []⟩ := ⟨fun _ => 0, fun _ => 0, ⟨rfl, rfl, rfl, rfl⟩, rfl⟩
  obtain ⟨as, -, hfirst⟩ := Calls.exists_call w₀ () rfl ⟨rfl, rfl, rfl⟩ (fun ⟨_, h⟩ => h rfl)
    (travels_of_fits (r := .store wpd) trivial) hstore
  let w₁ : Calls ReplayingServer PacketRequest Unit :=
    { w₀ with
      server := ⟨new.processStoreRequest wpd, []⟩
      called := Function.update w₀.called () [.store wpd]
      returned := Function.update w₀.returned () [.returnedTrue none] }
  obtain ⟨bs, w, -, hsecond, hcalled, hreturned⟩ := Calls.exists_late_call w₁ () rfl
    ⟨rfl, rfl, rfl⟩ (travels_of_fits (r := .get 33) trivial)
  have hrun := (Calls.settled_of_run hfirst).1.append hsecond
  exact ⟨w, as ++ bs, by rw [hcalled]; rfl, by rw [hreturned]; rfl, (calls_once hrun).1⟩

end PacketLoggerServer

end FtThesis
