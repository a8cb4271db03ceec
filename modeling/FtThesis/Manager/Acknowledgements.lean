/-
Does a replay tell what was sent?

The packet logger answers a request to replay packets, and the manager returns a number.

* `AnsweredRight`: the packet logger tells of success only if all packets were sent;
* `CountsSent`: the number that `replay` returns is that of the packets that were sent;
* `answeredRight_iff`, `countsSent_iff`: when this is so;
* `acknowledgements_iff`: both, for all states, requests and outcomes;
* `not_acknowledgements`: a connection to the middlebox, and an empty packet logger.
-/
import FtThesis.Manager.Commands
import FtThesis.PacketLogger.Replaying

namespace FtThesis

open PacketLoggerServer Requests Socket

namespace CleanupManagerServer

/-- What a request to replay packets comes to: whether the packet logger receives it and connects
to the middlebox, and the results of the sends for the packet at each place. -/
structure ReplayOutcome where
  received : Bool
  connected : Bool
  sends : ℕ → List SendResult

/-! ### The answer of the packet logger -/

/-- When the packet logger tells of success, each requested packet was found, and its whole frame
was written. -/
def AnsweredRight (srt : VersionSort) (s : PacketLoggerServer) (o : ReplayOutcome)
    (ids : List PacketId) : Prop :=
  (replayPackets srt s o.connected o.sends ids).1 = true →
    ∀ r ∈ (replayPackets srt s o.connected o.sends ids).2, r.whole = true

/-- Each of the packets is there, and the sends carry its frame. -/
def AllSendable (srt : VersionSort) (s : PacketLoggerServer) (o : ReplayOutcome)
    (ids : List PacketId) : Prop :=
  ∀ p ∈ ids.zipIdx, Sendable srt s (o.sends p.2) p.1

/-- The answer is right exactly when there is no connection, or all packets can be sent. -/
lemma answeredRight_iff (srt : VersionSort) (s : PacketLoggerServer) (o : ReplayOutcome)
    (ids : List PacketId) :
    AnsweredRight srt s o ids ↔ (o.connected = true → AllSendable srt s o ids) := by
  rw [AnsweredRight, replayPackets_fst]
  refine forall_congr' fun hconnected => ?_
  rw [hconnected, all_whole_iff, AllSendable]

/-! ### The number that the manager returns -/

/-- How many packets are sent for a request. -/
def packetsSent (srt : VersionSort) (s : PacketLoggerServer) (o : ReplayOutcome) :
    ManagerRequest → ℕ
  | .replayPackets r =>
      if o.received then
        (replayPackets srt s o.connected o.sends r.packetIds).2.countP Replayed.whole
      else 0
  | _ => 0

/-- The number that `replay` returns is that of the packets that are sent. -/
def CountsSent (srt : VersionSort) (s : PacketLoggerServer) (o : ReplayOutcome)
    (masterMbId : MbId) (already : Finset PacketBase) (master slave : List PacketId) : Prop :=
  let r := (replay masterMbId already).requests (answering master slave)
  ∀ total already', r.2 = some (total, already') →
    total = ((r.1.map (packetsSent srt s o)).sum : ℕ)

/-- The master has a slave, and if there are packets to be replayed, all of them are sent. -/
def AllReplayed (srt : VersionSort) (s : PacketLoggerServer) (o : ReplayOutcome)
    (masterMbId : MbId) (already : Finset PacketBase) (master slave : List PacketId) : Prop :=
  (getSlaveMbData masterMbId).isSome = true ∧
    ∀ ids already', getUnprocessedPacketIds master slave already = some (ids, already') →
      ids = [] ∨ o.received = true ∧ o.connected = true ∧ AllSendable srt s o ids

section

variable (srt : VersionSort) (s : PacketLoggerServer) (o : ReplayOutcome)

/-- As many packets are sent as are requested exactly when the request is received, the connection
is made, and all packets can be sent. -/
lemma packetsSent_eq_length_iff (slaveData : MbData) {ids : List PacketId} (hne : ids ≠ []) :
    packetsSent srt s o (.replayPackets (createReplayPackets slaveData ids)) = ids.length ↔
      o.received = true ∧ o.connected = true ∧ AllSendable srt s o ids := by
  have hpos : ids.length ≠ 0 := by simpa using hne
  have hids : (createReplayPackets slaveData ids).packetIds = ids := rfl
  rw [packetsSent, hids]
  cases o.received with
  | false => simpa using hpos.symm
  | true =>
      cases hconnected : o.connected with
      | false => simpa [replayPackets] using hpos.symm
      | true =>
          have hlen : (replayPackets srt s true o.sends ids).2.length = ids.length := by
            simp [replayPackets]
          simp only [if_true, true_and]
          rw [← hlen, List.countP_eq_length, all_whole_iff, AllSendable]

/-- The two requests for the lists, of which no packets are sent. -/
def firstVersionRequests (masterMbId slaveMbId : MbId) : List ManagerRequest :=
  [.getProcessedPacketIds .detLoggerClient masterMbId false,
    .getProcessedPacketIds .slaveDetLoggerClient slaveMbId false]

variable {masterMbId : MbId} {slaveData : MbData} (already : Finset PacketBase)
  (master slave : List PacketId)

/-- What `replay` does after the requests for the lists. -/
def afterLists (slaveData : MbData) (result : Option (List PacketId × Finset PacketBase)) :
    List ManagerRequest × Option (ℤ × Finset PacketBase) :=
  match result with
  | none => ([], none)
  | some (ids, already) =>
      if ids = [] then ([], some (0, already))
      else ([.replayPackets (createReplayPackets slaveData ids)], some (ids.length, already))

/-- The requests of `replay`, and its result. -/
lemma requests_replay (hslaveData : getSlaveMbData masterMbId = some slaveData) :
    (replay masterMbId already).requests (answering master slave) =
      (firstVersionRequests masterMbId slaveData.mbId ++
          (afterLists slaveData (getUnprocessedPacketIds master slave already)).1,
        (afterLists slaveData (getUnprocessedPacketIds master slave already)).2) := by
  have hmaster : (getProcessedPacketIds .detLoggerClient masterMbId false).requests
      (answering master slave) =
        ([.getProcessedPacketIds .detLoggerClient masterMbId false], some master) := rfl
  have hread : (getProcessedPacketIds .slaveDetLoggerClient slaveData.mbId false).requests
      (answering master slave) =
        ([.getProcessedPacketIds .slaveDetLoggerClient slaveData.mbId false], some slave) := rfl
  simp only [replay, hslaveData]
  rw [Program.requests_bind _ _ hmaster, Program.requests_bind _ _ hread]
  rcases getUnprocessedPacketIds master slave already with _ | ⟨_ | ⟨id, ids⟩, already'⟩ <;> rfl

/-- The number is right exactly when the master has a slave, and all packets that are to be
replayed are sent. -/
lemma countsSent_iff (masterMbId : MbId) :
    CountsSent srt s o masterMbId already master slave ↔
      AllReplayed srt s o masterMbId already master slave := by
  rw [CountsSent, AllReplayed]
  cases hslaveData : getSlaveMbData masterMbId with
  | none =>
      have hrequests : (replay masterMbId already).requests (answering master slave)
          = ([], some (-1, already)) := by
        rw [replay, hslaveData]
        rfl
      simp [hrequests]
  | some slaveData =>
      rw [requests_replay already master slave hslaveData]
      rcases getUnprocessedPacketIds master slave already with _ | ⟨ids, already'⟩
      · simp [afterLists]
      · rcases eq_or_ne ids [] with rfl | hne
        · simp [afterLists, firstVersionRequests, packetsSent]
        · have hsent := packetsSent_eq_length_iff srt s o slaveData hne
          have hsum : ((firstVersionRequests masterMbId slaveData.mbId ++
              [ManagerRequest.replayPackets (createReplayPackets slaveData ids)]).map
                (packetsSent srt s o)).sum
              = packetsSent srt s o (.replayPackets (createReplayPackets slaveData ids)) := by
            simp [firstVersionRequests, packetsSent]
          simp only [afterLists, if_neg hne, hsum]
          constructor
          · intro h
            refine ⟨rfl, fun ids' set heq => .inr ?_⟩
            obtain ⟨rfl, rfl⟩ := Prod.mk.inj (Option.some.inj heq)
            exact hsent.mp (Int.ofNat.inj (h _ _ rfl)).symm
          · rintro ⟨-, h⟩ total set heq
            obtain ⟨rfl, rfl⟩ := Prod.mk.inj (Option.some.inj heq)
            exact congrArg Int.ofNat (hsent.mpr ((h ids already' rfl).resolve_left hne)).symm

end

/-- **Acknowledgements.**  The answer of the packet logger is right exactly when there is no
connection to the middlebox, or all requested packets are there and the sends carry them; and the
number that the manager returns is right exactly when the master has a slave, and if there is
something to replay, the request is received, the connection is made, and all packets are there and
carried. -/
theorem acknowledgements_iff (srt : VersionSort) (s : PacketLoggerServer) (o : ReplayOutcome) :
    (∀ ids, AnsweredRight srt s o ids ↔ (o.connected = true → AllSendable srt s o ids)) ∧
      ∀ (masterMbId : MbId) (already : Finset PacketBase) (master slave : List PacketId),
        CountsSent srt s o masterMbId already master slave ↔
          AllReplayed srt s o masterMbId already master slave :=
  ⟨answeredRight_iff srt s o, fun masterMbId already master slave =>
    countsSent_iff srt s o already master slave masterMbId⟩

/-- Nothing is logged, and yet the packet logger tells of success, and the manager counts one
packet. -/
theorem not_acknowledgements :
    (¬ ∀ (srt : VersionSort) (s : PacketLoggerServer) (o : ReplayOutcome) (ids : List PacketId),
        AnsweredRight srt s o ids) ∧
      ¬ ∀ (srt : VersionSort) (s : PacketLoggerServer) (o : ReplayOutcome) (masterMbId : MbId)
        (already : Finset PacketBase) (master slave : List PacketId),
        CountsSent srt s o masterMbId already master slave := by
  constructor
  · intro h
    exact absurd (h .stable .new ⟨true, true, fun _ => []⟩ [33] rfl ⟨none, []⟩ (by simp [
      replayPackets, replayPacket, sendPacket, getPacket, new])) (by decide)
  · intro h
    have hcount := h .stable .new ⟨true, true, fun _ => []⟩ 6 ∅ [33] [] 1 {1} rfl
    exact absurd hcount (by decide)

end CleanupManagerServer

end FtThesis
