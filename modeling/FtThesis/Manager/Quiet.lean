/-
The cleanup manager while nothing else happens.

After a request to replay packets, the slave finishes them before the manager goes on.

* `finishReplayed`, `performQuietly`: the requests, with the slave's part after a replay;
* `finishReplayed_spec`: the slave can finish what is on its way to it;
* `run_getMaster`, `run_getSlave`, `run_deleteMaster`, `run_deleteSlave`,
  `run_replayPackets`, `run_deletePackets`: what the requests do;
* `stopMasterLoop`: the loop of a stop command;
* `run_of_quiet`, `run_stopMasterLoop`: these are runs of the manager in its world.
-/
import FtThesis.Library.Runs
import FtThesis.Manager.System

namespace FtThesis

open Requests Transition PacketLoggerServer

namespace CleanupManagerServer

/-! ### The slave's part -/

section

variable (srt : VersionSort) (process : PacketId → List PALSManager)

/-- The slave takes the packets that are on their way to it, one after another, and stores
for each one the determinants that `process` has for its id. -/
def finishReplayed (mb : MbId) (w : World) : Option World :=
  ((w.onTheWay mb).flatMap fun packet =>
    .consume mb :: (process packet.packetId).map .slaveStore).foldlM World.act w

/-- What happens after a request is performed: the slave finishes what is replayed to
it. -/
def afterRequest : ManagerRequest → World → Option World
  | .replayPackets r, w => finishReplayed process r.mbId w
  | _, w => some w

/-- A request, while the packet logger gets its connections, and the slave's part. -/
def performQuietly (q : ManagerRequest) (w : World) : Option (Answer q × World) :=
  (perform srt true q w).bind fun r => (afterRequest process q r.2).map fun w => (r.1, w)

end

/-- What the slave's part leaves as it is. -/
structure SlaveOnly (w w' : World) : Prop where
  detLogger_eq : w'.detLogger = w.detLogger
  packetLogger_eq : w'.packetLogger = w.packetLogger
  sent_eq : w'.sent = w.sent

lemma SlaveOnly.trans {w w' w'' : World} (h : SlaveOnly w w') (h' : SlaveOnly w' w'') :
    SlaveOnly w w'' :=
  ⟨h'.detLogger_eq.trans h.detLogger_eq, h'.packetLogger_eq.trans h.packetLogger_eq,
    h'.sent_eq.trans h.sent_eq⟩

section

variable {mb : MbId} {w : World} {ids : List PacketId}

/-- While it works on a packet, the slave can store versions of it. -/
lemma foldlM_slaveStore {packet : SentPacket} {pms : List PALSManager}
    (hpms : ∀ pm ∈ pms, pm.middleboxId = mb ∧ base pm.packetId = base packet.packetId)
    (hworking : w.working mb = some packet) (hlist : w.slaveDetLogger.HasList mb ids)
    (hroom : ids.length + pms.length < 2 ^ 32) :
    ∃ w', (pms.map OtherAction.slaveStore).foldlM World.act w = some w' ∧ SlaveOnly w w' ∧
      w'.onTheWay = w.onTheWay ∧
      w'.slaveDetLogger.HasList mb (ids ++ pms.map PALSManager.packetId) := by
  induction pms generalizing w ids with
  | nil => exact ⟨w, rfl, ⟨rfl, rfl, rfl⟩, rfl, by simpa using hlist⟩
  | cons pm pms ih =>
      obtain ⟨⟨hmb, hbase⟩, hpms⟩ := List.forall_mem_cons.mp hpms
      rw [List.length_cons] at hroom
      subst hmb
      let w₁ : World := { w with
        slaveDetLogger := w.slaveDetLogger.processStoreRequest pm
        stored := appendAt w.stored pm.middleboxId [pm.packetId] }
      have hact : w.act (.slaveStore pm) = some w₁ := by
        simp only [World.act, hworking, if_pos hbase, w₁]
      have hroom' : (ids ++ [pm.packetId]).length + pms.length < 2 ^ 32 := by
        rw [List.length_append, List.length_singleton]
        omega
      obtain ⟨w', hw', honly, hway, hlist'⟩ := ih (w := w₁) hpms hworking
        (hlist.store rfl (by omega)) hroom'
      have hfirst : SlaveOnly w w₁ := ⟨rfl, rfl, rfl⟩
      refine ⟨w', ?_, hfirst.trans honly, hway, ?_⟩
      · rw [List.map_cons, List.foldlM_cons, hact]
        exact hw'
      · rw [List.map_cons]
        simpa using hlist'

/-- The slave can finish all packets that are on their way to it. -/
lemma finishReplayed_spec {process : PacketId → List PALSManager} {packets : List SentPacket}
    (hpackets : ∀ packet ∈ packets, ∀ pm ∈ process packet.packetId,
      pm.middleboxId = mb ∧ base pm.packetId = base packet.packetId)
    (hway : w.onTheWay mb = packets) (hlist : w.slaveDetLogger.HasList mb ids)
    {ids' : List PacketId}
    (hids' : packets.flatMap (fun packet => (process packet.packetId).map PALSManager.packetId)
      = ids')
    (hroom : ids.length + ids'.length < 2 ^ 32) :
    ∃ w', finishReplayed process mb w = some w' ∧ SlaveOnly w w' ∧ w'.onTheWay mb = [] ∧
      w'.slaveDetLogger.HasList mb (ids ++ ids') := by
  rw [finishReplayed, hway]
  induction packets generalizing w ids ids' with
  | nil =>
      subst hids'
      exact ⟨w, rfl, ⟨rfl, rfl, rfl⟩, hway, by simpa using hlist⟩
  | cons packet packets ih =>
      obtain ⟨hpms, hpackets⟩ := List.forall_mem_cons.mp hpackets
      rw [List.flatMap_cons] at hids'
      subst hids'
      simp only [List.length_append, List.length_map] at hroom
      let w₁ : World := { w with
        onTheWay := Function.update w.onTheWay mb packets
        working := Function.update w.working mb (some packet) }
      have hact : w.act (.consume mb) = some w₁ := by
        simp only [World.act, hway, w₁]
      obtain ⟨w₂, hw₂, honly₂, hway₂, hlist₂⟩ := foldlM_slaveStore (w := w₁) hpms
        (Function.update_self ..) hlist (by omega)
      obtain ⟨w', hw', honly', hway', hlist'⟩ := ih hpackets
        (by rw [hway₂]; exact Function.update_self ..) hlist₂ rfl
        (by simp only [List.length_append, List.length_map]; omega)
      have hfirst : SlaveOnly w w₁ := ⟨rfl, rfl, rfl⟩
      refine ⟨w', ?_, (hfirst.trans honly₂).trans honly', hway', ?_⟩
      · rw [List.flatMap_cons, List.cons_append, List.foldlM_cons, hact]
        exact (List.foldlM_append ..).trans (hw₂ ▸ hw')
      · rwa [List.append_assoc] at hlist'

end

/-! ### The requests -/

section

variable {srt : VersionSort} {process : PacketId → List PALSManager} {w : World}

/-- A request by itself. -/
lemma run_ask_of_perform {q : ManagerRequest} {a : Answer q} {w₁ w₂ : World}
    (hperform : perform srt true q w = some (a, w₁))
    (hafter : afterRequest process q w₁ = some w₂) :
    (Program.ask q : Manager (Answer q)).run (performQuietly srt process) w = some (a, w₂) := by
  calc (Program.ask q : Manager (Answer q)).run (performQuietly srt process) w
      = performQuietly srt process q w := Program.run_ask _ q w
    _ = some (a, w₂) := by rw [performQuietly, hperform, Option.bind_some, hafter, Option.map_some]

lemma run_getMaster {mbId : MbId} {allVersions : Bool} {ids : List PacketId}
    (h : w.detLogger.processGetProcessedPacketsRequest mbId allVersions = some ids) :
    (getProcessedPacketIds .detLoggerClient mbId allVersions).run (performQuietly srt process) w
      = some (ids, { w with masterProcessedPacketIds := ids }) :=
  run_ask_of_perform (congrArg (Option.map _) h) rfl

lemma run_getSlave {mbId : MbId} {allVersions : Bool} {ids : List PacketId}
    (h : w.slaveDetLogger.processGetProcessedPacketsRequest mbId allVersions = some ids) :
    (getProcessedPacketIds .slaveDetLoggerClient mbId allVersions).run
        (performQuietly srt process) w
      = some (ids, { w with slaveProcessedPacketIds := ids }) :=
  run_ask_of_perform (congrArg (Option.map _) h) rfl

lemma run_deleteMaster (mbId : MbId) (n : UInt32) :
    (deleteFirstPacketsRequest .detLoggerClient mbId n).run (performQuietly srt process) w
      = some ((), { w with
          detLogger := w.detLogger.processDeleteFirstPacketsRequest mbId n
          cleared := appendAt w.cleared mbId (w.detLogger.removed mbId n) }) :=
  run_ask_of_perform rfl rfl

lemma run_deleteSlave (mbId : MbId) (n : UInt32) :
    (deleteFirstPacketsRequest .slaveDetLoggerClient mbId n).run (performQuietly srt process) w
      = some ((), { w with
          slaveDetLogger := w.slaveDetLogger.processDeleteFirstPacketsRequest mbId n }) :=
  run_ask_of_perform rfl rfl

/-- The packets are sent, and the slave finishes them. -/
lemma run_replayPackets {r : ReplayPackets} {w' : World}
    (hfits : r.serializedLength ≤ serverBufferSizeWithoutPrefix)
    (hfinish : finishReplayed process r.mbId { w with
      onTheWay := appendAt w.onTheWay r.mbId (r.packetIds.filterMap (sendPacket srt w.packetLogger))
      sent := appendAt w.sent r.mbId (r.packetIds.filterMap (sendPacket srt w.packetLogger)) }
      = some w') :
    (sendReplayPacketsRequest r).run (performQuietly srt process) w = some ((), w') :=
  run_ask_of_perform (if_pos hfits) hfinish

lemma run_deletePackets {ids : List PacketId}
    (h : 8 * ids.length ≤ serverBufferSizeWithoutPrefix) :
    (sendDeletePacketsPacketsRequest ids).run (performQuietly srt process) w
      = some ((), { w with packetLogger := w.packetLogger.processDeletePacketsRequest ids }) :=
  run_ask_of_perform (if_pos h) rfl

end

/-! ### Runs of the manager in its world -/

section

variable (srt : VersionSort) (process : PacketId → List PALSManager)

/-- The loop of `processTsaStopMasterRequest` for the old master: rounds, until one has
nothing to replay and nothing to clear.  The world after it, if at most `fuel` rounds are
needed. -/
def stopMasterLoop (oldMasterMbId : MbId) : (fuel : ℕ) → World → Option World
  | 0, _ => none
  | fuel + 1, w =>
      ((replayAndClearPackets oldMasterMbId).run (performQuietly srt process) w).bind fun r =>
        if r.1 then stopMasterLoop oldMasterMbId fuel r.2 else some r.2

variable {srt process} {w w' : World} {c : Command}

/-- What happens while the manager executes a command and only the slaves do something: requests,
new rounds, and what the slaves do with the packets that are replayed to them. -/
def OfRound : Action → Prop
  | .request _ | .proceed | .other (.consume _) | .other (.slaveStore _) => True
  | _ => False

/-- What the others do, one after another. -/
lemma run_others {control : Option (Command × Manager (Option Bool))} {actions : List OtherAction}
    (h : actions.foldlM World.act w = some w') :
    Run (Fires (step srt)) ⟨w, control⟩ (actions.map .other) ⟨w', control⟩ := by
  induction actions generalizing w with
  | nil =>
      obtain rfl : w = w' := Option.some.inj h
      exact .nil
  | cons action actions ih =>
      rw [List.foldlM_cons] at h
      obtain ⟨w₁, hact, h⟩ := Option.bind_eq_some_iff.mp h
      have hfirst : Run (Fires (step srt)) ⟨w, control⟩ [.other action] ⟨w₁, control⟩ := by
        refine .single ?_
        rw [Fires, step, hact]
        rfl
      exact hfirst.append (ih h)

/-- A request, and the slave's part after it. -/
lemma run_of_performQuietly {q : ManagerRequest} {a : Answer q}
    (k : Answer q → Manager (Option Bool))
    (h : performQuietly srt process q w = some (a, w')) :
    ∃ as, Run (Fires (step srt)) ⟨w, some (c, .request q k)⟩ as ⟨w', some (c, k a)⟩ ∧
      ∀ a ∈ as, OfRound a := by
  obtain ⟨⟨a', w₁⟩, hperform, h⟩ := Option.bind_eq_some_iff.mp h
  obtain ⟨w₂, hafter, heq⟩ := Option.map_eq_some_iff.mp h
  cases heq
  have hrequest : Run (Fires (step srt)) ⟨w, some (c, .request q k)⟩ [.request true]
      ⟨w₁, some (c, k a')⟩ := by
    refine .single ?_
    simp only [Fires, step, hperform]
    rfl
  cases q with
  | replayPackets r =>
      refine ⟨_, hrequest.append (run_others hafter),
        List.forall_mem_cons.mpr ⟨trivial, List.forall_mem_map.mpr fun action haction => ?_⟩⟩
      obtain ⟨packet, -, haction⟩ := List.mem_flatMap.mp haction
      rcases List.mem_cons.mp haction with rfl | haction
      · trivial
      · obtain ⟨pm, -, rfl⟩ := List.mem_map.mp haction
        trivial
  | _ =>
      obtain rfl : w₁ = w' := Option.some.inj hafter
      exact ⟨_, hrequest, List.forall_mem_singleton.mpr trivial⟩

/-- A part of a round. -/
lemma run_of_quiet {α : Type} {p : Manager α} {a : α} (f : α → Manager (Option Bool))
    (h : p.run (performQuietly srt process) w = some (a, w')) :
    ∃ as, Run (Fires (step srt)) ⟨w, some (c, p >>= f)⟩ as ⟨w', some (c, f a)⟩ ∧
      ∀ a ∈ as, OfRound a := by
  induction p generalizing w with
  | pure b =>
      cases h
      exact ⟨[], .nil, List.forall_mem_nil _⟩
  | undefined => cases h
  | request q k ih =>
      obtain ⟨⟨answer, w₁⟩, hq, h⟩ := Option.bind_eq_some_iff.mp h
      obtain ⟨as, hfirst, has⟩ := run_of_performQuietly (c := c) (fun a => k a >>= f) hq
      obtain ⟨bs, hrest, hbs⟩ := ih answer h
      exact ⟨as ++ bs, hfirst.append hrest, List.forall_mem_append.mpr ⟨has, hbs⟩⟩

/-- The loop of a stop command, after which the round for the new master is left. -/
lemma run_stopMasterLoop {oldMasterMbId newMasterMbId : MbId} (hnew : newMasterMbId ≠ 0) {fuel : ℕ}
    (h : stopMasterLoop srt process oldMasterMbId fuel w = some w') :
    ∃ as, Run (Fires (step srt))
      ⟨w, some (.stopMaster oldMasterMbId newMasterMbId,
        processTsaStopMasterRequest oldMasterMbId newMasterMbId)⟩ as
      ⟨w', some (.stopMaster oldMasterMbId newMasterMbId, do
        let _ ← replayAndClearPackets newMasterMbId
        pure (some true))⟩ ∧ ∀ a ∈ as, OfRound a := by
  induction fuel generalizing w with
  | zero => cases h
  | succ fuel ih =>
      obtain ⟨⟨had, w₁⟩, hround, h⟩ := Option.bind_eq_some_iff.mp h
      obtain ⟨as, has, hofRound⟩ := run_of_quiet (c := .stopMaster oldMasterMbId newMasterMbId)
        (fun had => if had then pure none else do
          let _ ← replayAndClearPackets newMasterMbId
          pure (some true)) hround
      rw [processTsaStopMasterRequest, if_neg hnew]
      cases had with
      | false =>
          obtain rfl : w₁ = w' := Option.some.inj h
          exact ⟨as, has, hofRound⟩
      | true =>
          obtain ⟨bs, hbs, hrest⟩ := ih h
          have hagain : Run (Fires (step srt))
              ⟨w₁, some (.stopMaster oldMasterMbId newMasterMbId, .pure none)⟩ [.proceed]
              ⟨w₁, some (.stopMaster oldMasterMbId newMasterMbId,
                processTsaStopMasterRequest oldMasterMbId newMasterMbId)⟩ := .single rfl
          refine ⟨as ++ [.proceed] ++ bs, (has.append hagain).append hbs, ?_⟩
          exact List.forall_mem_append.mpr
            ⟨List.forall_mem_append.mpr ⟨hofRound, List.forall_mem_singleton.mpr trivial⟩, hrest⟩

end

end CleanupManagerServer

end FtThesis
