/-
The commands of the cleanup manager, as programs that make requests to the loggers.

* `MbData`, `getSlaveMbData`: the middleboxes, and the slave of each master;
* `ManagerRequest`, `Answer`, `answering`: the requests, and their answers by the two lists;
* `replay`, `clearReplayedPackets`, `replayAndClearPackets`: the functions;
* `Command.round`: the TSA commands.
-/
import FtThesis.Library.Programs
import FtThesis.Manager.Lists

namespace FtThesis

open Requests

namespace CleanupManagerServer

/-! ### The middleboxes -/

/-- `MbData`. -/
structure MbData where
  mbId : MbId
  ipAddress : String
  port : ℕ
deriving DecidableEq

/-- `MB_PORT`. -/
def mbPort : ℕ := 9999

/-- `mbData`, as `initCleanupServer` fills it. -/
def mbData (mbId : MbId) : Option MbData :=
  if mbId = 6 then some ⟨6, "10.0.0.6", mbPort⟩
  else if mbId = 7 then some ⟨7, "10.0.0.7", mbPort⟩
  else if mbId = 10 then some ⟨10, "10.0.0.10", mbPort⟩
  else none

/-- `masterSlaveMapping`, as `initCleanupServer` fills it. -/
def masterSlaveMapping (masterMbId : MbId) : Option MbId :=
  if masterMbId = 6 then some 7 else if masterMbId = 7 then some 10 else none

/-- `getSlaveMbData`. -/
def getSlaveMbData (masterMbId : MbId) : Option MbData :=
  (masterSlaveMapping masterMbId).bind mbData

/-! ### The requests -/

/-- The clients for the two determinant loggers, of the masters and of the slaves. -/
inductive DetClient
  | detLoggerClient
  | slaveDetLoggerClient
deriving DecidableEq

/-- `ReplayPackets`. -/
structure ReplayPackets where
  mbId : MbId
  port : ℕ
  address : String
  packetIds : List PacketId

/-- The requests of the manager. -/
inductive ManagerRequest
  | getProcessedPacketIds (client : DetClient) (mbId : MbId) (allVersions : Bool)
  | deleteFirstPackets (client : DetClient) (mbId : MbId) (totalFirstPacketsToBeDeleted : UInt32)
  | replayPackets (replayPacketsData : ReplayPackets)
  | deletePackets (packetIds : List PacketId)

/-- What the manager takes from an answer. -/
def Answer : ManagerRequest → Type
  | .getProcessedPacketIds _ _ _ => List PacketId
  | _ => Unit

/-- The answers of the determinant loggers, whose lists are `master` and `slave`. -/
def answering (master slave : List PacketId) : (q : ManagerRequest) → Answer q
  | .getProcessedPacketIds .detLoggerClient _ _ => master
  | .getProcessedPacketIds .slaveDetLoggerClient _ _ => slave
  | .deleteFirstPackets _ _ _ => ()
  | .replayPackets _ => ()
  | .deletePackets _ => ()

/-- What the manager does: it makes requests, and returns an `α`. -/
abbrev Manager := Program ManagerRequest Answer

/-- `getProcessedPacketIds`. -/
def getProcessedPacketIds (client : DetClient) (mbId : MbId) (allVersions : Bool) :
    Manager (List PacketId) :=
  Program.ask (ManagerRequest.getProcessedPacketIds client mbId allVersions)

/-- `deleteFirstPacketsRequest`. -/
def deleteFirstPacketsRequest (client : DetClient) (mbId : MbId)
    (totalFirstPacketsToBeDeleted : UInt32) : Manager Unit :=
  Program.ask (ManagerRequest.deleteFirstPackets client mbId totalFirstPacketsToBeDeleted)

/-- `createReplayPackets`. -/
def createReplayPackets (slaveData : MbData) (unprocessedPacketIds : List PacketId) :
    ReplayPackets :=
  ⟨slaveData.mbId, slaveData.port, slaveData.ipAddress, unprocessedPacketIds⟩

/-- `sendReplayPacketsRequest`. -/
def sendReplayPacketsRequest (replayPacketsData : ReplayPackets) : Manager Unit :=
  Program.ask (ManagerRequest.replayPackets replayPacketsData)

/-- `sendDeletePacketsPacketsRequest`. -/
def sendDeletePacketsPacketsRequest (packetIds : List PacketId) : Manager Unit :=
  Program.ask (ManagerRequest.deletePackets packetIds)

/-! ### The functions of the manager -/

/-- `replay`: the number of packets that are replayed, or `-1`, and the set of the
replayed bases. -/
def replay (masterMbId : MbId) (already : Finset PacketBase) :
    Manager (ℤ × Finset PacketBase) :=
  match getSlaveMbData masterMbId with
  | none => pure (-1, already)
  | some slaveData => do
      let master ← getProcessedPacketIds .detLoggerClient masterMbId false
      let slave ← getProcessedPacketIds .slaveDetLoggerClient slaveData.mbId false
      let (unprocessed, already) ← .ofOption (getUnprocessedPacketIds master slave already)
      if 0 < unprocessed.length then
        sendReplayPacketsRequest (createReplayPackets slaveData unprocessed)
        pure (unprocessed.length, already)
      else pure (0, already)

/-- The ids that are common to the two lists, in `clearReplayedPackets`.  When the master
list is empty, the slave list is compared with itself. -/
def commonPackets (master slave : List PacketId) (already : Finset PacketBase) :
    CommonPackets × List PacketId :=
  getCommonProcessedPacketIds (if master.length = 0 then slave else master) slave intMax already

/-- The test for the branch in which `clearReplayedPackets` deletes all packets. -/
def DeletesAll (master slave commonProcessed : List PacketId) : Prop :=
  commonProcessed.length = 0 ∧ master.length < 2 * slave.length

instance (master slave commonProcessed : List PacketId) :
    Decidable (DeletesAll master slave commonProcessed) :=
  inferInstanceAs (Decidable (_ ∧ _))

/-- The regular behavior of `clearReplayedPackets`, at the logger of the slaves and at the
packet logger. -/
def clearSlavePackets (slaveMbId : MbId) (commonProcessed : List PacketId) : Manager ℤ :=
  if 0 < commonProcessed.length then do
    deleteFirstPacketsRequest .slaveDetLoggerClient slaveMbId (.ofNat commonProcessed.length)
    sendDeletePacketsPacketsRequest commonProcessed
    pure commonProcessed.length
  else pure commonProcessed.length

/-- The regular behavior of `clearReplayedPackets`. -/
def clearCommonPackets (masterMbId slaveMbId : MbId) (commonProcessed orphan : List PacketId) :
    Manager ℤ :=
  if 0 < commonProcessed.length then do
    deleteFirstPacketsRequest .detLoggerClient masterMbId (.ofNat commonProcessed.length)
    clearSlavePackets slaveMbId (commonProcessed ++ orphan)
  else clearSlavePackets slaveMbId (commonProcessed ++ orphan)

/-- `clearReplayedPackets`, which does not use `maxPacketsBasesToDelete`: the number of ids
that are deleted, or `-1`, and the set of the replayed bases. -/
def clearReplayedPackets (masterMbId : MbId) (_maxPacketsBasesToDelete : ℤ)
    (already : Finset PacketBase) : Manager (ℤ × Finset PacketBase) :=
  match getSlaveMbData masterMbId with
  | none => pure (-1, already)
  | some slaveData => do
      let master ← getProcessedPacketIds .detLoggerClient masterMbId true
      let slave ← getProcessedPacketIds .slaveDetLoggerClient slaveData.mbId true
      let (common, orphan) := commonPackets master slave already
      if DeletesAll master slave common.commonProcessed then
        deleteFirstPacketsRequest .detLoggerClient masterMbId (.ofNat master.length)
        deleteFirstPacketsRequest .slaveDetLoggerClient slaveData.mbId (.ofNat slave.length)
        pure (0, common.alreadyReplayedPackets)
      else
        let total ← clearCommonPackets masterMbId slaveData.mbId common.commonProcessed orphan
        pure (total, common.alreadyReplayedPackets)

/-- `replayAndClearPackets`. -/
def replayAndClearPackets (masterMbId : MbId) : Manager Bool := do
  let (totalReplayedPackets, already) ← replay masterMbId ∅
  let (totalDeletedPackets, _) ← clearReplayedPackets masterMbId totalReplayedPackets already
  pure (decide (0 < totalReplayedPackets ∨ 0 < totalDeletedPackets))

/-! ### The commands -/

/-- The TSA commands. -/
inductive Command
  | replay (masterMbId : MbId)
  | clear (masterMbId : MbId)
  | replayAndClear (masterMbId : MbId)
  | stopMaster (oldMasterMbId newMasterMbId : MbId)
deriving DecidableEq

/-- `processTsaReplayRequest`. -/
def processTsaReplayRequest (masterMbId : MbId) : Manager Bool := do
  let _ ← replay masterMbId ∅
  pure true

/-- `processTsaClearRequest`. -/
def processTsaClearRequest (masterMbId : MbId) : Manager Bool := do
  let _ ← clearReplayedPackets masterMbId intMax ∅
  pure true

/-- `processTsaReplayAndClearRequest`. -/
def processTsaReplayAndClearRequest (masterMbId : MbId) : Manager Bool := do
  let _ ← replayAndClearPackets masterMbId
  pure true

/-- One round of the loop of `processTsaStopMasterRequest`, and what comes after the last
one: the result, or `none` while the loop goes on. -/
def processTsaStopMasterRequest (oldMasterMbId newMasterMbId : MbId) : Manager (Option Bool) :=
  if newMasterMbId = 0 then pure (some false)
  else do
    let hasPacketsFromOldMaster ← replayAndClearPackets oldMasterMbId
    if hasPacketsFromOldMaster then pure none
    else
      let _ ← replayAndClearPackets newMasterMbId
      pure (some true)

/-- `processRequest`: a round of a command, with the result of the command, or with `none`
when another round follows. -/
def Command.round : Command → Manager (Option Bool)
  | .replay masterMbId => some <$> processTsaReplayRequest masterMbId
  | .clear masterMbId => some <$> processTsaClearRequest masterMbId
  | .replayAndClear masterMbId => some <$> processTsaReplayAndClearRequest masterMbId
  | .stopMaster oldMasterMbId newMasterMbId =>
      processTsaStopMasterRequest oldMasterMbId newMasterMbId

end CleanupManagerServer

end FtThesis
