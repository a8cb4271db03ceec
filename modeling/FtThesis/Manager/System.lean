/-
The cleanup manager, the loggers and the middleboxes together.

The manager executes one command after another.  Between any two of its requests the
masters may process packets, packets may be logged, and the slaves may take the packets
that were replayed to them, in order, and process them.

* `World`: the loggers, what is on its way to the middleboxes, and the history;
* `perform`: what a request does; `World.act`: what the others do;
* `System`, `step`: the manager in its world;
* `Ready`: what the manager relies on and asserts, with `ready_step`.
-/
import FtThesis.Manager.Commands
import FtThesis.PacketLogger.Server
import FtThesis.Transport.Message

namespace FtThesis

open Requests

namespace CleanupManagerServer

/-- The lists of a map with `l` at the end of one of them. -/
def appendAt {α : Type} (f : MbId → List α) (mb : MbId) (l : List α) : MbId → List α :=
  Function.update f mb (f mb ++ l)

lemma appendAt_apply {α : Type} (f : MbId → List α) (mb : MbId) (l : List α) (mb' : MbId) :
    appendAt f mb l mb' = if mb' = mb then f mb ++ l else f mb' := by
  rw [appendAt, Function.update_apply]

/-! ### The world of the manager -/

/-- The loggers, what is on its way to a middlebox and what it works on, the two lists
that the manager has read last, and the history: the packets that were sent to a slave,
the ids that a slave has stored, and those that were removed at the logger of the
masters. -/
structure World where
  detLogger : DetLoggerServer
  slaveDetLogger : DetLoggerServer
  packetLogger : PacketLoggerServer
  onTheWay : MbId → List PacketLoggerServer.SentPacket
  working : MbId → Option PacketLoggerServer.SentPacket
  masterProcessedPacketIds : List PacketId
  slaveProcessedPacketIds : List PacketId
  sent : MbId → List PacketLoggerServer.SentPacket
  stored : MbId → List PacketId
  cleared : MbId → List PacketId

/-- Empty logs. -/
def World.new : World where
  detLogger := .new
  slaveDetLogger := .new
  packetLogger := .new
  onTheWay _ := []
  working _ := none
  masterProcessedPacketIds := []
  slaveProcessedPacketIds := []
  sent _ := []
  stored _ := []
  cleared _ := []

/-- The length of a request to replay packets. -/
def ReplayPackets.serializedLength (r : ReplayPackets) : ℕ := 21 + 8 * r.packetIds.length

/-- What a request does: its answer, and the world after it; undefined when the reply or
the request does not fit its buffer.  `connected` tells whether the packet logger gets a
connection to the slave. -/
def perform (srt : VersionSort) (connected : Bool) :
    (q : ManagerRequest) → World → Option (Answer q × World)
  | .getProcessedPacketIds .detLoggerClient mbId allVersions, w =>
      (w.detLogger.processGetProcessedPacketsRequest mbId allVersions).map fun ids =>
        (ids, { w with masterProcessedPacketIds := ids })
  | .getProcessedPacketIds .slaveDetLoggerClient mbId allVersions, w =>
      (w.slaveDetLogger.processGetProcessedPacketsRequest mbId allVersions).map fun ids =>
        (ids, { w with slaveProcessedPacketIds := ids })
  | .deleteFirstPackets .detLoggerClient mbId n, w =>
      some ((), { w with
        detLogger := w.detLogger.processDeleteFirstPacketsRequest mbId n
        cleared := appendAt w.cleared mbId (w.detLogger.removed mbId n) })
  | .deleteFirstPackets .slaveDetLoggerClient mbId n, w =>
      some ((), { w with
        slaveDetLogger := w.slaveDetLogger.processDeleteFirstPacketsRequest mbId n })
  | .replayPackets r, w =>
      if r.serializedLength ≤ serverBufferSizeWithoutPrefix then
        let sent := (w.packetLogger.processReplayRequest srt connected r.packetIds).2
        some ((), { w with
          onTheWay := appendAt w.onTheWay r.mbId sent
          sent := appendAt w.sent r.mbId sent })
      else none
  | .deletePackets ids, w =>
      if 8 * ids.length ≤ serverBufferSizeWithoutPrefix then
        some ((), { w with packetLogger := w.packetLogger.processDeletePacketsRequest ids })
      else none

/-- What the others do: a master stores the determinants for a fresh packet id, a part of
a packet is logged, a slave takes the next packet that was replayed to it, and a slave
stores the determinants for a version of the packet that it works on. -/
inductive OtherAction
  | masterStore (pm : PALSManager)
  | log (wpd : WrappedPacketData)
  | consume (mbId : MbId)
  | slaveStore (pm : PALSManager)

/-- The world after an action of the others, if it is possible. -/
def World.act (w : World) : OtherAction → Option World
  | .masterStore pm =>
      if pm.packetId ∈ w.cleared pm.middleboxId ∨
          pm.packetId ∈ w.detLogger.processed pm.middleboxId then none
      else some { w with detLogger := w.detLogger.processStoreRequest pm }
  | .log wpd => some { w with packetLogger := w.packetLogger.processStoreRequest wpd }
  | .consume mbId =>
      match w.onTheWay mbId with
      | [] => none
      | packet :: packets =>
          some { w with
            onTheWay := Function.update w.onTheWay mbId packets
            working := Function.update w.working mbId (some packet) }
  | .slaveStore pm =>
      match w.working pm.middleboxId with
      | none => none
      | some packet =>
          if base pm.packetId = base packet.packetId then
            some { w with
              slaveDetLogger := w.slaveDetLogger.processStoreRequest pm
              stored := appendAt w.stored pm.middleboxId [pm.packetId] }
          else none

/-! ### The manager in its world -/

/-- The world, and the command that the manager executes with what is left of its
round. -/
structure System where
  world : World
  control : Option (Command × Manager (Option Bool))

/-- Empty logs, and no command. -/
def System.new : System := ⟨.new, none⟩

/-- What can happen: an action of the others, a new command, the next request, and the
end of a round. -/
inductive Action
  | other (action : OtherAction)
  | command (c : Command)
  | request (connected : Bool)
  | proceed

/-- The system after what happens, if that is possible. -/
def step (srt : VersionSort) (s : System) : Action → Option System
  | .other action => (s.world.act action).map fun w => { s with world := w }
  | .command c =>
      match s.control with
      | none => some { s with control := some (c, c.round) }
      | some _ => none
  | .request connected =>
      match s.control with
      | some (c, .request q k) =>
          (perform srt connected q s.world).map fun r => ⟨r.2, some (c, k r.1)⟩
      | _ => none
  | .proceed =>
      match s.control with
      | some (c, .pure none) => some { s with control := some (c, c.round) }
      | some (_, .pure (some _)) => some { s with control := none }
      | _ => none

/-- A packet of one byte. -/
def oneByte (packetId : PacketId) : WrappedPacketData := ⟨packetId, 0, 1, [7], rfl⟩

/-- All requests of a round with `n` requests, and its end. -/
def requests (n : ℕ) : List Action := List.replicate n (.request true) ++ [.proceed]

/-! ### What a step does -/

variable {srt : VersionSort} {s t : System} {a : Action}

/-- A step changes the world by an action of the others, or by the next request of the
manager, or not at all. -/
lemma step_world (h : step srt s a = some t) :
    (∃ action, a = .other action ∧ s.world.act action = some t.world) ∨
      (∃ connected c q k answer, a = .request connected ∧ s.control = some (c, .request q k) ∧
        perform srt connected q s.world = some (answer, t.world)) ∨
      (∀ connected, a ≠ .request connected) ∧ t.world = s.world := by
  cases a with
  | other action =>
      obtain ⟨w, hw, rfl⟩ := Option.map_eq_some_iff.mp h
      exact .inl ⟨action, rfl, hw⟩
  | command c =>
      simp only [step] at h
      split at h
      · cases h
        exact .inr (.inr ⟨nofun, rfl⟩)
      · cases h
  | request connected =>
      simp only [step] at h
      split at h
      · rename_i c q k hcontrol
        obtain ⟨⟨answer, w⟩, hr, rfl⟩ := Option.map_eq_some_iff.mp h
        exact .inr (.inl ⟨connected, c, q, k, answer, rfl, hcontrol, hr⟩)
      · cases h
  | proceed =>
      simp only [step] at h
      split at h
      · cases h
        exact .inr (.inr ⟨nofun, rfl⟩)
      · cases h
        exact .inr (.inr ⟨nofun, rfl⟩)
      · cases h

/-- The ids that a request removes at the logger of the masters. -/
def removedBy (w : World) : ManagerRequest → MbId → List PacketId
  | .deleteFirstPackets .detLoggerClient mbId n, mb =>
      if mb = mbId then w.detLogger.removed mbId n else []
  | _, _ => []

/-- The packets that a request sends to the slaves. -/
def sentBy (srt : VersionSort) (connected : Bool) (w : World) :
    ManagerRequest → MbId → List PacketLoggerServer.SentPacket
  | .replayPackets r, mb =>
      if mb = r.mbId then (w.packetLogger.processReplayRequest srt connected r.packetIds).2 else []
  | _, _ => []

/-- What a request does to the history and to the lists of the slaves. -/
structure Recorded (srt : VersionSort) (connected : Bool) (q : ManagerRequest) (w w' : World) :
    Prop where
  stored_eq : w'.stored = w.stored
  cleared_eq : ∀ mb, w'.cleared mb = w.cleared mb ++ removedBy w q mb
  sent_eq : ∀ mb, w'.sent mb = w.sent mb ++ sentBy srt connected w q mb
  slave_subset : ∀ mb, w'.slaveDetLogger.processed mb ⊆ w.slaveDetLogger.processed mb

lemma recorded_of_perform {connected : Bool} {q : ManagerRequest} {w w' : World} {answer : Answer q}
    (h : perform srt connected q w = some (answer, w')) : Recorded srt connected q w w' := by
  cases q with
  | getProcessedPacketIds client mbId allVersions =>
      cases client <;> obtain ⟨ids, -, heq⟩ := Option.map_eq_some_iff.mp h <;> cases heq <;>
        exact ⟨rfl, fun _ => (List.append_nil _).symm, fun _ => (List.append_nil _).symm,
          fun _ => List.Subset.refl _⟩
  | deleteFirstPackets client mbId n =>
      cases client with
      | detLoggerClient =>
          cases h
          refine ⟨rfl, fun mb => ?_, fun _ => (List.append_nil _).symm,
            fun _ => List.Subset.refl _⟩
          simp only [appendAt_apply, removedBy]
          split_ifs with hmb
          · rw [hmb]
          · exact (List.append_nil _).symm
      | slaveDetLoggerClient =>
          cases h
          refine ⟨rfl, fun _ => (List.append_nil _).symm, fun _ => (List.append_nil _).symm,
            fun mb => ?_⟩
          rw [DetLoggerServer.processed_processDeleteFirst]
          split_ifs with hmb
          · rw [hmb]
            exact List.drop_subset _ _
          · exact List.Subset.refl _
  | replayPackets r =>
      simp only [perform] at h
      split_ifs at h
      cases h
      refine ⟨rfl, fun _ => (List.append_nil _).symm, fun mb => ?_, fun _ => List.Subset.refl _⟩
      simp only [appendAt_apply, sentBy]
      split_ifs with hmb
      · rw [hmb]
      · exact (List.append_nil _).symm
  | deletePackets ids =>
      simp only [perform] at h
      split_ifs at h
      cases h
      exact ⟨rfl, fun _ => (List.append_nil _).symm, fun _ => (List.append_nil _).symm,
        fun _ => List.Subset.refl _⟩

/-- The answers of a request, and the worlds after it. -/
def Performs (srt : VersionSort) (q : ManagerRequest) (w : World) (answer : Answer q) (w' : World) :
    Prop :=
  ∃ connected, perform srt connected q w = some (answer, w')

lemma Performs.getMaster {mbId : MbId} {allVersions : Bool} {w w' : World} {ids : List PacketId}
    (h : Performs srt (.getProcessedPacketIds .detLoggerClient mbId allVersions) w ids w') :
    w.detLogger.processGetProcessedPacketsRequest mbId allVersions = some ids ∧
      w' = { w with masterProcessedPacketIds := ids } := by
  obtain ⟨connected, h⟩ := h
  obtain ⟨ids', hids, heq⟩ := Option.map_eq_some_iff.mp h
  cases heq
  exact ⟨hids, rfl⟩

lemma Performs.getSlave {mbId : MbId} {allVersions : Bool} {w w' : World} {ids : List PacketId}
    (h : Performs srt (.getProcessedPacketIds .slaveDetLoggerClient mbId allVersions) w ids w') :
    w.slaveDetLogger.processGetProcessedPacketsRequest mbId allVersions = some ids ∧
      w' = { w with slaveProcessedPacketIds := ids } := by
  obtain ⟨connected, h⟩ := h
  obtain ⟨ids', hids, heq⟩ := Option.map_eq_some_iff.mp h
  cases heq
  exact ⟨hids, rfl⟩

/-- What is left of the round keeps what it has to. -/
def Ready (srt : VersionSort) (rely : World → World → Prop) (assert : ManagerRequest → World → Prop)
    (s : System) : Prop :=
  ∀ c p, s.control = some (c, p) → p.Keeps rely (Performs srt) assert (fun _ _ => True) s.world

section

variable {rely : World → World → Prop} {assert : ManagerRequest → World → Prop}

/-- What replaying and clearing keep, every round of a command keeps. -/
lemma round_keeps (hrely : Program.IsRely rely)
    (hreplay : ∀ masterMbId w,
      (replay masterMbId ∅).Keeps rely (Performs srt) assert (fun _ _ => True) w)
    (hclear : ∀ masterMbId maxBases already w,
      (clearReplayedPackets masterMbId maxBases already).Keeps rely (Performs srt) assert
        (fun _ _ => True) w)
    (c : Command) (w : World) :
    c.round.Keeps rely (Performs srt) assert (fun _ _ => True) w := by
  have hboth (masterMbId : MbId) (w : World) :
      (replayAndClearPackets masterMbId).Keeps rely (Performs srt) assert (fun _ _ => True) w := by
    refine .bind hrely ((hreplay masterMbId w).mono fun r t _ => ?_)
    refine .bind hrely ((hclear masterMbId r.1 r.2 t).mono fun _ _ _ => ?_)
    exact .pure fun _ _ => trivial
  cases c with
  | replay masterMbId =>
      exact .map (.bind hrely ((hreplay masterMbId w).mono fun _ _ _ => .pure fun _ _ => trivial))
  | clear masterMbId =>
      exact .map (.bind hrely
        ((hclear masterMbId _ _ w).mono fun _ _ _ => .pure fun _ _ => trivial))
  | replayAndClear masterMbId =>
      exact .map (.bind hrely ((hboth masterMbId w).mono fun _ _ _ => .pure fun _ _ => trivial))
  | stopMaster oldMasterMbId newMasterMbId =>
      rw [Command.round, processTsaStopMasterRequest]
      split_ifs
      · exact .pure fun _ _ => trivial
      · refine .bind hrely ((hboth oldMasterMbId w).mono fun had t _ => ?_)
        cases had with
        | true => exact .pure fun _ _ => trivial
        | false =>
            refine .bind hrely ((hboth newMasterMbId t).mono fun _ _ _ => ?_)
            exact .pure fun _ _ => trivial

/-- What is asserted holds of the next request. -/
lemma Ready.assert_of_request (hs : Ready srt rely assert s) (hself : rely s.world s.world)
    {c : Command} {q : ManagerRequest} {k : Answer q → Manager (Option Bool)}
    (hcontrol : s.control = some (c, .request q k)) : assert q s.world :=
  (hs c _ hcontrol s.world hself).1

/-- The manager stays ready, if the others act along `rely` and every round keeps what it
has to from its start. -/
lemma ready_step (hrely : Program.IsRely rely) (hs : Ready srt rely assert s)
    (h : step srt s a = some t) (hself : rely s.world s.world)
    (hother : ∀ action w, s.world.act action = some w → rely s.world w)
    (hround : ∀ c : Command, c.round.Keeps rely (Performs srt) assert (fun _ _ => True) t.world) :
    Ready srt rely assert t := by
  intro c' p' hcontrol'
  cases a with
  | other action =>
      obtain ⟨w, hw, rfl⟩ := Option.map_eq_some_iff.mp h
      exact (hs c' p' hcontrol').of_rely hrely (hother action w hw)
  | command c =>
      simp only [step] at h
      split at h
      · cases h
        cases hcontrol'
        exact hround c'
      · cases h
  | request connected =>
      simp only [step] at h
      split at h
      · rename_i c q k hcontrol
        obtain ⟨⟨answer, w⟩, hr, rfl⟩ := Option.map_eq_some_iff.mp h
        cases hcontrol'
        exact (hs c' _ hcontrol s.world hself).2 answer w ⟨connected, hr⟩
      · cases h
  | proceed =>
      simp only [step] at h
      split at h
      · cases h
        cases hcontrol'
        exact hround c'
      · cases h
        cases hcontrol'
      · cases h

end

end CleanupManagerServer

end FtThesis
