/-
Requests of the determinant logger that run at the same time.

The server works on a request in sections, each under a lock: a store looks up or creates the
record of its packet, updates it, looks up or creates the list of its middlebox, and appends its
id there; the other requests look up a list or a record and then read it or cut it.

* `DetSections`, `DetPhase`: the records and the lists in memory, and how far the requests have
  come;
* `DetSections.step`: one section of a request, with the request and its answer at the section
  at which the request takes effect;
* `address_createPacketData`, `deleteRecords_spec`: what becomes of the records.
-/
import FtThesis.DetLogger.Server
import FtThesis.Library.Linearization

namespace FtThesis

open Transition

/-! ### The state -/

/-- The answer to a request: an acknowledgement, the ids of a list, or the reply in the given
buffer, where `none` stands for a write outside of a buffer. -/
inductive DetAnswer
  | done
  | processed (ids : Option (List PacketId))
  | pals (retVal : Memory.Mem) (reply : Option (Bool × Memory.Mem × ℕ))

/-- How far a request has come, with the address of the record that it has looked up. -/
inductive DetPhase
  | idle
  | storing (pm : PALSManager) (packetData : ℕ)
  | updated (pm : PALSManager)
  | publishing (pm : PALSManager)
  | listing (mbId : MbId) (allVersions : Bool)
  | asking (mbId : MbId) (packId : PacketId) (retVal : Memory.Mem) (packetData : ℕ)
  | deleting (mbId : MbId) (totalPacketBasesToRemove : UInt32)
  | erasing (mbId : MbId) (totalPacketBasesToRemove : UInt32)
  | answered (request : DetRequest) (answer : DetAnswer)

/-- The manager of a store that is running. -/
def DetPhase.stores : DetPhase → Option PALSManager
  | storing pm _ | updated pm | publishing pm => some pm
  | _ => none

/-- The request that has taken effect, with its answer. -/
def DetPhase.committed : DetPhase → Option (DetRequest × DetAnswer)
  | erasing mbId n => some (.deleteFirst mbId n, .done)
  | answered request answer => some (request, answer)
  | _ => none

/-- The state of the determinant logger: the addresses of the records, the lists, the records by
their addresses (`none` for what was not allocated or is freed), the next new address, who holds
the lock of a list from one section to the next, and the requests. -/
structure DetSections where
  detData : MbId → Option (PacketId → Option ℕ)
  progressData : MbId → Option ServerProgressData
  memory : ℕ → Option PacketData
  nextAddress : ℕ
  spdLock : MbId → Option ℕ
  requests : ℕ → DetPhase

namespace DetSections

/-- The server at its start. -/
def new : DetSections :=
  ⟨fun _ => none, fun _ => none, fun _ => none, 0, fun _ => none, fun _ => .idle⟩

/-- The request has come to the given phase. -/
def setRequest (s : DetSections) (r : ℕ) (p : DetPhase) : DetSections :=
  { s with requests := Function.update s.requests r p }

/-- The address of the record of a packet (`getPacketData`). -/
def address (s : DetSections) (mbId : MbId) (packId : PacketId) : Option ℕ :=
  (s.detData mbId).bind fun mbData => mbData packId

/-- The list of a middlebox. -/
def spd (s : DetSections) (mbId : MbId) : ServerProgressData := (s.progressData mbId).getD .new

/-! ### The sections -/

/-- The sections of the requests, each with the number of its request. -/
inductive Section
  | getOrCreatePacketData (r : ℕ) (pm : PALSManager)
  | updatePacketData (r : ℕ)
  | getOrCreateServerProgressData (r : ℕ)
  | addPacketId (r : ℕ)
  | getList (r : ℕ) (mbId : MbId) (allVersions : Bool)
  | readList (r : ℕ)
  | getPacketData (r : ℕ) (mbId : MbId) (packId : PacketId) (retVal : Memory.Mem)
  | convertPacketDataToPM (r : ℕ)
  | getListToCut (r : ℕ) (mbId : MbId) (totalPacketBasesToRemove : UInt32)
  | deletePackets (r : ℕ)
  | eraseIds (r : ℕ)

/-- A new record for the packet of a manager. -/
def createPacketData (s : DetSections) (pm : PALSManager) : DetSections :=
  let mbData := (s.detData pm.middleboxId).getD fun _ => none
  { s with
    detData := Function.update s.detData pm.middleboxId
      (some (Function.update mbData pm.packetId (some s.nextAddress)))
    memory := Function.update s.memory s.nextAddress (some .new)
    nextAddress := s.nextAddress + 1 }

/-- `getOrCreatePacketData`, under `detData_mtx`. -/
def getOrCreatePacketData (s : DetSections) (r : ℕ) (pm : PALSManager) : DetSections :=
  match s.address pm.middleboxId pm.packetId with
  | none => (s.createPacketData pm).setRequest r (.storing pm s.nextAddress)
  | some packetData => s.setRequest r (.storing pm packetData)

/-- `updatePacketData`, under the lock of the record. -/
def updatePacketData (s : DetSections) (r : ℕ) (pm : PALSManager) (packetData : ℕ) : DetSections :=
  let record := (s.memory packetData).getD .new
  { s with
    memory := Function.update s.memory packetData
      (some (DetLoggerServer.updatePacketData record pm)) }.setRequest r (.updated pm)

/-- The list of a middlebox becomes the given one. -/
def setList (s : DetSections) (mbId : MbId) (list : ServerProgressData) : DetSections :=
  { s with progressData := Function.update s.progressData mbId (some list) }

/-- `getOrCreateServerProgressData`, under `progressData_mtx`. -/
def getOrCreateServerProgressData (s : DetSections) (r : ℕ) (pm : PALSManager) : DetSections :=
  (s.setList pm.middleboxId (s.spd pm.middleboxId)).setRequest r (.publishing pm)

/-- `addPacketId`, under the lock of the list. -/
def addPacketId (s : DetSections) (r : ℕ) (pm : PALSManager) : DetSections :=
  let spd := s.spd pm.middleboxId
  (s.setList pm.middleboxId ⟨spd.packetIdsVector ++ [pm.packetId], spd.index + 1⟩).setRequest r
    (.answered (.store pm) .done)

/-- The reply with the ids of a list. -/
def listReply (spd : ServerProgressData) (allVersions : Bool) : Option (List PacketId) :=
  let ids :=
    if allVersions then DetLoggerServer.getProcessedPacketsForAllVersions spd
    else DetLoggerServer.getProcessedPacketsForFirstVersion spd
  if 8 * ids.length ≤ maxRetValLength then some ids else none

/-- The reply with the determinants of a packet, if there is a record. -/
def palsReply (mbId : MbId) (packId : PacketId) (retVal : Memory.Mem) :
    Option PacketData → Option (Bool × Memory.Mem × ℕ)
  | none => some (false, retVal, 0)
  | some packetData => do
      let pm ← DetLoggerServer.convertPacketDataToPM (.new mbId packId) packetData
      some (true, pm.serialize retVal, pm.getSerializationLength)

/-- `deletePacketFromMbData`: the record is freed and its address erased. -/
def deletePacketFromMbData (s : DetSections) (mbId : MbId) (packetToRemove : PacketId) :
    DetSections :=
  match s.address mbId packetToRemove with
  | none => s
  | some packetData =>
      { s with
        detData := Function.update s.detData mbId
          ((s.detData mbId).map fun mbData => Function.update mbData packetToRemove none)
        memory := Function.update s.memory packetData none }

/-- The ids that a deletion removes. -/
def removed (s : DetSections) (mbId : MbId) (n : UInt32) : List PacketId :=
  (s.spd mbId).packetIdsVector.take (DetLoggerServer.totalToRemove (s.spd mbId) n).toNat

/-- The records of several packets of a middlebox are deleted. -/
def deleteRecords (s : DetSections) (mbId : MbId) (ids : List PacketId) : DetSections :=
  ids.foldl (fun s id => s.deletePacketFromMbData mbId id) s

/-- The first part of `deleteFirstPackets`, under the lock of the list and `detData_mtx`; the
former is kept. -/
def deletePackets (s : DetSections) (r : ℕ) (mbId : MbId) (n : UInt32) : DetSections :=
  { s.deleteRecords mbId (s.removed mbId n) with
    spdLock := Function.update s.spdLock mbId (some r) }.setRequest r (.erasing mbId n)

/-- A list without the ids that a deletion removes. -/
def cutList (spd : ServerProgressData) (n : UInt32) : ServerProgressData :=
  let total := DetLoggerServer.totalToRemove spd n
  ⟨spd.packetIdsVector.drop total.toNat, spd.index - total⟩

/-- The second part of `deleteFirstPackets`, which gives the lock of the list back. -/
def eraseIds (s : DetSections) (r : ℕ) (mbId : MbId) (n : UInt32) : DetSections :=
  { s.setList mbId (cutList (s.spd mbId) n) with
    spdLock := Function.update s.spdLock mbId none }.setRequest r
    (.answered (.deleteFirst mbId n) .done)

/-- A request with its number and its answer. -/
abbrev Event : Type := ℕ × DetRequest × DetAnswer

/-- The request takes effect with the given answer, which ends it. -/
def answer (s : DetSections) (r : ℕ) (request : DetRequest) (ans : DetAnswer) :
    Option (DetSections × Option Event) :=
  some (s.setRequest r (.answered request ans), some (r, request, ans))

/-- One section of a request runs, with the request and its answer if it takes effect now.  A
section under the lock of a list waits while this is held. -/
def step (s : DetSections) : Section → Option (DetSections × Option Event)
  | .getOrCreatePacketData r pm =>
      match s.requests r with
      | .idle => some (s.getOrCreatePacketData r pm, none)
      | _ => none
  | .updatePacketData r =>
      match s.requests r with
      | .storing pm packetData => some (s.updatePacketData r pm packetData, none)
      | _ => none
  | .getOrCreateServerProgressData r =>
      match s.requests r with
      | .updated pm => some (s.getOrCreateServerProgressData r pm, none)
      | _ => none
  | .addPacketId r =>
      match s.requests r with
      | .publishing pm =>
          if s.spdLock pm.middleboxId = none then
            some (s.addPacketId r pm, some (r, .store pm, .done))
          else none
      | _ => none
  | .getList r mbId allVersions =>
      match s.requests r with
      | .idle =>
          match s.progressData mbId with
          | none => s.answer r (.getProcessed mbId allVersions) (.processed (some []))
          | some _ => some (s.setRequest r (.listing mbId allVersions), none)
      | _ => none
  | .readList r =>
      match s.requests r with
      | .listing mbId allVersions =>
          if s.spdLock mbId = none then
            s.answer r (.getProcessed mbId allVersions)
              (.processed (listReply (s.spd mbId) allVersions))
          else none
      | _ => none
  | .getPacketData r mbId packId retVal =>
      match s.requests r with
      | .idle =>
          match s.address mbId packId with
          | none =>
              s.answer r (.getPals mbId packId) (.pals retVal (palsReply mbId packId retVal none))
          | some packetData => some (s.setRequest r (.asking mbId packId retVal packetData), none)
      | _ => none
  | .convertPacketDataToPM r =>
      match s.requests r with
      | .asking mbId packId retVal packetData =>
          s.answer r (.getPals mbId packId)
            (.pals retVal (palsReply mbId packId retVal (some ((s.memory packetData).getD .new))))
      | _ => none
  | .getListToCut r mbId n =>
      match s.requests r with
      | .idle =>
          match s.progressData mbId with
          | none => s.answer r (.deleteFirst mbId n) .done
          | some _ => some (s.setRequest r (.deleting mbId n), none)
      | _ => none
  | .deletePackets r =>
      match s.requests r with
      | .deleting mbId n =>
          if s.spdLock mbId = none then
            some (s.deletePackets r mbId n, some (r, .deleteFirst mbId n, .done))
          else none
      | _ => none
  | .eraseIds r =>
      match s.requests r with
      | .erasing mbId n => some (s.eraseIds r mbId n, none)
      | _ => none

/-- The steps of the server, each with the event that it makes visible. -/
def Steps (s : DetSections) (a : Section × Option Event) (t : DetSections) : Prop :=
  step s a.1 = some (t, a.2)

variable {s : DetSections} {r : ℕ} {pm : PALSManager} {mbId mb : MbId} {packId id : PacketId}

@[simp] lemma address_setRequest (s : DetSections) (r : ℕ) (p : DetPhase) :
    (s.setRequest r p).address = s.address := rfl

@[simp] lemma memory_setRequest (s : DetSections) (r : ℕ) (p : DetPhase) :
    (s.setRequest r p).memory = s.memory := rfl

@[simp] lemma spd_setRequest (s : DetSections) (r : ℕ) (p : DetPhase) :
    (s.setRequest r p).spd = s.spd := rfl

@[simp] lemma requests_setRequest_self (s : DetSections) (r : ℕ) (p : DetPhase) :
    (s.setRequest r p).requests r = p := Function.update_self ..

@[simp] lemma requests_setList (s : DetSections) (mbId : MbId) (list : ServerProgressData) :
    (s.setList mbId list).requests = s.requests := rfl

lemma spd_setList (s : DetSections) (mbId : MbId) (list : ServerProgressData) (mb : MbId) :
    (s.setList mbId list).spd mb = if mb = mbId then list else s.spd mb := by
  by_cases hmb : mb = mbId
  · simp [setList, spd, hmb]
  · simp [setList, spd, hmb]

lemma requests_setRequest_of_ne {r' : ℕ} (hne : r' ≠ r) (p : DetPhase) :
    (s.setRequest r p).requests r' = s.requests r' := Function.update_of_ne hne ..

/-- A new record has its own address. -/
lemma address_createPacketData (s : DetSections) (pm : PALSManager) (mb : MbId) (id : PacketId) :
    (s.createPacketData pm).address mb id =
      if mb = pm.middleboxId ∧ id = pm.packetId then some s.nextAddress else s.address mb id := by
  rw [createPacketData]
  by_cases hmb : mb = pm.middleboxId
  · subst hmb
    cases hd : s.detData pm.middleboxId with
    | none => by_cases hid : id = pm.packetId <;> simp [address, hd, hid]
    | some mbData => by_cases hid : id = pm.packetId <;> simp [address, hd, hid]
  · simp [address, hmb]

lemma address_deletePacketFromMbData (s : DetSections) (mbId : MbId) (packId : PacketId) (mb : MbId)
    (id : PacketId) :
    (s.deletePacketFromMbData mbId packId).address mb id =
      if mb = mbId ∧ id = packId then none else s.address mb id := by
  rw [deletePacketFromMbData]
  cases ha : s.address mbId packId with
  | none =>
      split_ifs with hkey
      · rw [hkey.1, hkey.2, ha]
      · rfl
  | some packetData =>
      by_cases hmb : mb = mbId
      · subst hmb
        rw [address] at ha
        cases hd : s.detData mb with
        | none => simp [hd] at ha
        | some mbData => by_cases hid : id = packId <;> simp [address, hd, hid]
      · simp [address, hmb]

/-- What a deletion of records leaves as it is: all but the addresses of the records, and the
records themselves. -/
lemma deletePacketFromMbData_spec (s : DetSections) (mbId : MbId) (packId : PacketId) :
    (s.deletePacketFromMbData mbId packId).progressData = s.progressData ∧
      (s.deletePacketFromMbData mbId packId).nextAddress = s.nextAddress ∧
      (s.deletePacketFromMbData mbId packId).spdLock = s.spdLock ∧
      (s.deletePacketFromMbData mbId packId).requests = s.requests ∧
      ∀ p, s.address mbId packId ≠ some p →
        (s.deletePacketFromMbData mbId packId).memory p = s.memory p := by
  rw [deletePacketFromMbData]
  cases ha : s.address mbId packId with
  | none => exact ⟨rfl, rfl, rfl, rfl, fun _ _ => rfl⟩
  | some packetData =>
      refine ⟨rfl, rfl, rfl, rfl, fun p hp => ?_⟩
      exact Function.update_of_ne (fun h => hp (congrArg some h.symm)) ..

lemma deleteRecords_spec (s : DetSections) (mbId : MbId) (ids : List PacketId) :
    (s.deleteRecords mbId ids).progressData = s.progressData ∧
      (s.deleteRecords mbId ids).nextAddress = s.nextAddress ∧
      (s.deleteRecords mbId ids).spdLock = s.spdLock ∧
      (s.deleteRecords mbId ids).requests = s.requests ∧
      (∀ mb id, (s.deleteRecords mbId ids).address mb id =
        if mb = mbId ∧ id ∈ ids then none else s.address mb id) ∧
      ∀ p, (∀ id ∈ ids, s.address mbId id ≠ some p) →
        (s.deleteRecords mbId ids).memory p = s.memory p := by
  induction ids generalizing s with
  | nil => exact ⟨rfl, rfl, rfl, rfl, fun mb id => by simp [deleteRecords], fun _ _ => rfl⟩
  | cons i ids ih =>
      obtain ⟨hprog, hnext, hlock, hreq, hmem⟩ := s.deletePacketFromMbData_spec mbId i
      obtain ⟨hprog', hnext', hlock', hreq', haddr', hmem'⟩ := ih (s.deletePacketFromMbData mbId i)
      refine ⟨hprog'.trans hprog, hnext'.trans hnext, hlock'.trans hlock, hreq'.trans hreq,
        fun mb id => ?_, fun p hp => ?_⟩
      · refine (haddr' mb id).trans ?_
        rw [address_deletePacketFromMbData]
        by_cases hmb : mb = mbId <;> by_cases hid : id = i <;> simp [hmb, hid]
      · obtain ⟨hi, hids⟩ := List.forall_mem_cons.mp hp
        refine (hmem' p fun id hid => ?_).trans (hmem p hi)
        rw [address_deletePacketFromMbData]
        split_ifs
        · exact nofun
        · exact hids id hid

end DetSections

end FtThesis
