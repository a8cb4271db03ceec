/-
The determinant logger.

The server keeps, for each middlebox, the determinants of its packets
(`detData`) and the list of the packet ids that it has processed
(`progressData`).

* `PacketData`, `ServerProgressData`, `DetLoggerServer`: the state;
* `processStoreRequest`, `processGetProcessedPacketsRequest`,
  `processGetPalsRequest`, `processDeleteFirstPacketsRequest`: the requests;
  those with a reply are undefined (`none`) where the code writes outside of a
  fixed list or of the reply buffer;
* `getPacketData_processStoreRequest`, `getPacketData_processDeleteFirst`,
  `processed_processStoreRequest`, `processed_processDeleteFirst`: what the two
  requests that change the state do to a record and to a list;
* `HasList`: a list and its number, with what the requests make of it;
* `storedIds`: what stores add to a list;
* `processRequest`: the dispatcher, a transition function on the states.
-/
import FtThesis.DetLogger.PalsManager

namespace FtThesis

open Memory

/-- `MAX_RET_VAL_LENGTH`. -/
def maxRetValLength : ℕ := 300000

/-! ### The state -/

/-- `PacketData`: the determinants of a packet, with their numbers. -/
structure PacketData where
  spalVector : List Spal
  gpalVector : List Gpal
  spalIndex : UInt8
  gpalIndex : UInt8

/-- `ServerProgressData`: the processed packet ids of a middlebox, with their
number. -/
structure ServerProgressData where
  packetIdsVector : List PacketId
  index : UInt32

/-- The state of `DetLoggerServer`. -/
structure DetLoggerServer where
  detData : MbId → Option (PacketId → Option PacketData)
  progressData : MbId → Option ServerProgressData

/-- A new `PacketData`. -/
def PacketData.new : PacketData := ⟨[], [], 0, 0⟩

/-- A new `ServerProgressData`. -/
def ServerProgressData.new : ServerProgressData := ⟨[], 0⟩

namespace DetLoggerServer

/-- The server at its start. -/
def new : DetLoggerServer := ⟨fun _ => none, fun _ => none⟩

/-! ### The functions of the server -/

/-- `getPacketData`. -/
def getPacketData (s : DetLoggerServer) (mbId : MbId) (packId : PacketId) : Option PacketData :=
  (s.detData mbId).bind fun mbData => mbData packId

/-- `getServerProgressData`. -/
def getServerProgressData (s : DetLoggerServer) (mbId : MbId) : Option ServerProgressData :=
  s.progressData mbId

/-- `updatePacketData`: the gpals and the spals are appended, one by one. -/
def updatePacketData (packetData : PacketData) (pm : PALSManager) : PacketData :=
  let packetData := pm.gpalList.foldl (fun pd gp =>
    { pd with gpalVector := pd.gpalVector ++ [gp], gpalIndex := pd.gpalIndex + 1 }) packetData
  pm.spalList.foldl (fun pd sp =>
    { pd with spalVector := pd.spalVector ++ [sp], spalIndex := pd.spalIndex + 1 }) packetData

/-- `getOrCreatePacketData`, and the update of what it points to. -/
def storePacketData (s : DetLoggerServer) (pm : PALSManager) : DetLoggerServer :=
  match s.detData pm.middleboxId with
  | none =>
      let mbData := Function.update (fun _ => none) pm.packetId (some (updatePacketData .new pm))
      { s with detData := Function.update s.detData pm.middleboxId (some mbData) }
  | some mbData =>
      let packetData := (mbData pm.packetId).getD .new
      let mbData := Function.update mbData pm.packetId (some (updatePacketData packetData pm))
      { s with detData := Function.update s.detData pm.middleboxId (some mbData) }

/-- `getOrCreateServerProgressData` and `addPacketId`. -/
def addPacketId (s : DetLoggerServer) (mbId : MbId) (pid : PacketId) : DetLoggerServer :=
  let spd := (s.progressData mbId).getD .new
  let spd := { packetIdsVector := spd.packetIdsVector ++ [pid], index := spd.index + 1 }
  { s with progressData := Function.update s.progressData mbId (some spd) }

/-- `processStoreRequest`. -/
def processStoreRequest (s : DetLoggerServer) (pm : PALSManager) : DetLoggerServer :=
  (s.storePacketData pm).addPacketId pm.middleboxId pm.packetId

/-- The loop of `getProcessedPacketsForFirstVersion`, after the given bases. -/
def firstVersions (processedBases : List PacketBase) : List PacketId → List PacketId
  | [] => []
  | packetId :: packetIds =>
      if base packetId ∈ processedBases then firstVersions processedBases packetIds
      else packetId :: firstVersions (base packetId :: processedBases) packetIds

/-- `getProcessedPacketsForFirstVersion`. -/
def getProcessedPacketsForFirstVersion (spd : ServerProgressData) : List PacketId :=
  firstVersions [] (spd.packetIdsVector.take spd.index.toNat)

/-- `getProcessedPacketsForAllVersions`. -/
def getProcessedPacketsForAllVersions (spd : ServerProgressData) : List PacketId :=
  spd.packetIdsVector.take spd.index.toNat

/-- `processGetProcessedPacketsRequest`: the ids of the reply, of eight bytes each. -/
def processGetProcessedPacketsRequest (s : DetLoggerServer) (mbId : MbId) (allVersions : Bool) :
    Option (List PacketId) :=
  match s.getServerProgressData mbId with
  | none => some []
  | some spd =>
      let ids :=
        if allVersions then getProcessedPacketsForAllVersions spd
        else getProcessedPacketsForFirstVersion spd
      if 8 * ids.length ≤ maxRetValLength then some ids else none

/-- `convertPacketDataToPM`. -/
def convertPacketDataToPM (pm : PALSManager) (packetData : PacketData) : Option PALSManager := do
  let pm ← (packetData.gpalVector.take packetData.gpalIndex.toNat).foldlM PALSManager.addGPal pm
  (packetData.spalVector.take packetData.spalIndex.toNat).foldlM PALSManager.addSPal pm

/-- `processGetPalsRequest`: the status, and the reply in the buffer `retVal`
with its length. -/
def processGetPalsRequest (s : DetLoggerServer) (mbId : MbId) (packId : PacketId) (retVal : Mem) :
    Option (Bool × Mem × ℕ) :=
  match s.getPacketData mbId packId with
  | none => some (false, retVal, 0)
  | some packetData => do
      let pm ← convertPacketDataToPM (.new mbId packId) packetData
      some (true, pm.serialize retVal, pm.getSerializationLength)

/-- `deletePacketFromMbData`. -/
def deletePacketFromMbData (mbData : PacketId → Option PacketData) (packetToRemove : PacketId) :
    PacketId → Option PacketData :=
  Function.update mbData packetToRemove none

/-- How many ids `deleteFirstPackets` removes. -/
def totalToRemove (spd : ServerProgressData) (totalPacketBasesToRemove : UInt32) : UInt32 :=
  if spd.index < totalPacketBasesToRemove then spd.index else totalPacketBasesToRemove

/-- `deleteFirstPackets`. -/
def deleteFirstPackets (s : DetLoggerServer) (mbId : MbId) (totalPacketBasesToRemove : UInt32)
    (spd : ServerProgressData) : DetLoggerServer :=
  let total := totalToRemove spd totalPacketBasesToRemove
  let removed := spd.packetIdsVector.take total.toNat
  let spd := { packetIdsVector := spd.packetIdsVector.drop total.toNat, index := spd.index - total }
  { detData :=
      Function.update s.detData mbId ((s.detData mbId).map (removed.foldl deletePacketFromMbData))
    progressData := Function.update s.progressData mbId (some spd) }

/-- `processDeleteFirstPacketsRequest`. -/
def processDeleteFirstPacketsRequest (s : DetLoggerServer) (mbId : MbId)
    (totalPacketBasesToRemove : UInt32) : DetLoggerServer :=
  match s.getServerProgressData mbId with
  | none => s
  | some spd => s.deleteFirstPackets mbId totalPacketBasesToRemove spd

/-! ### Records and lists after a request -/

/-- The processed ids of a middlebox. -/
def processed (s : DetLoggerServer) (mbId : MbId) : List PacketId :=
  ((s.progressData mbId).getD .new).packetIdsVector

/-- The number of processed ids of a middlebox. -/
def processedIndex (s : DetLoggerServer) (mbId : MbId) : UInt32 :=
  ((s.progressData mbId).getD .new).index

/-- How many ids a request to delete the first `n` ones removes. -/
def removedCount (s : DetLoggerServer) (mbId : MbId) (n : UInt32) : ℕ :=
  (totalToRemove ((s.progressData mbId).getD .new) n).toNat

/-- The ids that a request to delete the first `n` ones removes. -/
def removed (s : DetLoggerServer) (mbId : MbId) (n : UInt32) : List PacketId :=
  (s.processed mbId).take (s.removedCount mbId n)

lemma removedCount_eq (s : DetLoggerServer) (mb : MbId) (n : UInt32) :
    s.removedCount mb n = min (s.processedIndex mb).toNat n.toNat := by
  rw [removedCount, totalToRemove, processedIndex]
  split_ifs with h
  · rw [UInt32.lt_iff_toNat_lt] at h
    omega
  · rw [UInt32.lt_iff_toNat_lt] at h
    omega

lemma firstVersions_sublist (bases : List PacketBase) (ids : List PacketId) :
    (firstVersions bases ids).Sublist ids := by
  induction ids generalizing bases with
  | nil => exact .slnil
  | cons id ids ih =>
      rw [firstVersions]
      split_ifs
      · exact (ih _).cons _
      · exact (ih _).cons_cons _

/-- Ids with bases that are not new are left out. -/
lemma firstVersions_append_of_mem {bases : List PacketBase} {ids : List PacketId}
    (h : ∀ id ∈ ids, base id ∈ bases) (ids' : List PacketId) :
    firstVersions bases (ids ++ ids') = firstVersions bases ids' := by
  induction ids with
  | nil => rfl
  | cons id ids ih =>
      obtain ⟨hid, hids⟩ := List.forall_mem_cons.mp h
      rw [List.cons_append, firstVersions, if_pos hid, ih hids]

/-- The ids of the first versions have different bases, which are new. -/
lemma firstVersions_nodup (bases : List PacketBase) (ids : List PacketId) :
    ((firstVersions bases ids).map base).Nodup ∧
      ∀ id ∈ firstVersions bases ids, base id ∉ bases := by
  induction ids generalizing bases with
  | nil => simp [firstVersions]
  | cons id ids ih =>
      rw [firstVersions]
      split_ifs with h
      · exact ih bases
      · obtain ⟨hnodup, hnew⟩ := ih (base id :: bases)
        rw [List.map_cons, List.nodup_cons]
        refine ⟨⟨?_, hnodup⟩, List.forall_mem_cons.mpr ⟨h, fun id' hid' => ?_⟩⟩
        · rw [List.mem_map]
          rintro ⟨id', hid', heq⟩
          exact hnew id' hid' (heq ▸ List.mem_cons_self)
        · exact fun hmem => hnew id' hid' (List.mem_cons_of_mem _ hmem)

/-- The id is the first one of its packet among these. -/
def IsFirstLogged (ids : List PacketId) (id : PacketId) : Prop :=
  ∃ before after, ids = before ++ id :: after ∧ ∀ id' ∈ before, base id' ≠ base id

/-- The ids of the first versions are the first ones of their packets. -/
lemma isFirstLogged_of_mem {bases : List PacketBase} {ids : List PacketId} {id : PacketId}
    (h : id ∈ firstVersions bases ids) : IsFirstLogged ids id := by
  induction ids generalizing bases with
  | nil => exact absurd h List.not_mem_nil
  | cons id₀ ids ih =>
      rw [firstVersions] at h
      split_ifs at h with hold
      · obtain ⟨before, after, rfl, hbefore⟩ := ih h
        refine ⟨id₀ :: before, after, rfl, List.forall_mem_cons.mpr ⟨fun heq => ?_, hbefore⟩⟩
        exact (firstVersions_nodup _ _).2 id h (heq ▸ hold)
      · rcases List.mem_cons.mp h with rfl | h
        · exact ⟨[], ids, rfl, fun id' hid' => absurd hid' List.not_mem_nil⟩
        · obtain ⟨before, after, rfl, hbefore⟩ := ih h
          refine ⟨id₀ :: before, after, rfl, List.forall_mem_cons.mpr ⟨fun heq => ?_, hbefore⟩⟩
          exact (firstVersions_nodup _ _).2 id h (heq ▸ List.mem_cons_self)

/-- A reply with all versions has the first processed ids, and fits the buffer. -/
lemma prefix_of_getProcessed {s : DetLoggerServer} {mb : MbId} {ids : List PacketId}
    (h : s.processGetProcessedPacketsRequest mb true = some ids) :
    ids <+: s.processed mb ∧ 8 * ids.length ≤ maxRetValLength := by
  rw [processGetProcessedPacketsRequest, getServerProgressData] at h
  rw [processed]
  cases hp : s.progressData mb with
  | none =>
      rw [hp] at h
      obtain rfl : [] = ids := Option.some.inj h
      exact ⟨List.nil_prefix, Nat.zero_le _⟩
  | some spd =>
      simp only [hp, if_pos] at h
      split_ifs at h with hfit
      obtain rfl := Option.some.inj h
      exact ⟨List.take_prefix _ _, hfit⟩

/-- A reply with the first versions has one id for each base. -/
lemma nodup_of_getProcessed {s : DetLoggerServer} {mb : MbId} {ids : List PacketId}
    (h : s.processGetProcessedPacketsRequest mb false = some ids) : (ids.map base).Nodup := by
  rw [processGetProcessedPacketsRequest, getServerProgressData] at h
  cases hp : s.progressData mb with
  | none =>
      rw [hp] at h
      obtain rfl : [] = ids := Option.some.inj h
      exact List.nodup_nil
  | some spd =>
      simp only [hp, Bool.false_eq_true, if_false] at h
      split_ifs at h
      obtain rfl := Option.some.inj h
      exact (firstVersions_nodup _ _).1

lemma updatePacketData_eq (pd : PacketData) (pm : PALSManager) :
    updatePacketData pd pm =
      { spalVector := pd.spalVector ++ pm.spalList
        gpalVector := pd.gpalVector ++ pm.gpalList
        spalIndex := pd.spalIndex + UInt8.ofNat pm.spalList.length
        gpalIndex := pd.gpalIndex + UInt8.ofNat pm.gpalList.length } := by
  have hg : ∀ (gps : List Gpal) (pd : PacketData), gps.foldl (fun pd gp =>
      { pd with gpalVector := pd.gpalVector ++ [gp], gpalIndex := pd.gpalIndex + 1 }) pd =
      { pd with
        gpalVector := pd.gpalVector ++ gps
        gpalIndex := pd.gpalIndex + UInt8.ofNat gps.length } := by
    intro gps
    induction gps with
    | nil => simp
    | cons gp gps ih => simp [ih, UInt8.ofNat_add, UInt8.add_assoc, UInt8.add_comm 1]
  have hs : ∀ (sps : List Spal) (pd : PacketData), sps.foldl (fun pd sp =>
      { pd with spalVector := pd.spalVector ++ [sp], spalIndex := pd.spalIndex + 1 }) pd =
      { pd with
        spalVector := pd.spalVector ++ sps
        spalIndex := pd.spalIndex + UInt8.ofNat sps.length } := by
    intro sps
    induction sps with
    | nil => simp
    | cons sp sps ih => simp [ih, UInt8.ofNat_add, UInt8.add_assoc, UInt8.add_comm 1]
  rw [updatePacketData, hg, hs]

/-- A store updates the record of its packet and no other one. -/
lemma getPacketData_processStoreRequest (s : DetLoggerServer) (pm : PALSManager) (mb : MbId)
    (id : PacketId) :
    (s.processStoreRequest pm).getPacketData mb id =
      if mb = pm.middleboxId ∧ id = pm.packetId then
        some (updatePacketData ((s.getPacketData mb id).getD .new) pm)
      else s.getPacketData mb id := by
  by_cases hmb : mb = pm.middleboxId
  · subst hmb
    cases hd : s.detData pm.middleboxId with
    | none =>
        by_cases hid : id = pm.packetId <;>
          simp [getPacketData, processStoreRequest, storePacketData, addPacketId, hd, hid]
    | some mbData =>
        by_cases hid : id = pm.packetId <;>
          simp [getPacketData, processStoreRequest, storePacketData, addPacketId, hd, hid]
  · cases hd : s.detData pm.middleboxId <;>
      simp [getPacketData, processStoreRequest, storePacketData, addPacketId, hd, hmb]

/-- A store appends its id to the list of its middlebox. -/
lemma processed_processStoreRequest (s : DetLoggerServer) (pm : PALSManager) (mb : MbId) :
    (s.processStoreRequest pm).processed mb =
      if mb = pm.middleboxId then s.processed mb ++ [pm.packetId] else s.processed mb := by
  by_cases hmb : mb = pm.middleboxId
  · subst hmb
    cases hd : s.detData pm.middleboxId <;>
      simp [processed, processStoreRequest, storePacketData, addPacketId, hd]
  · cases hd : s.detData pm.middleboxId <;>
      simp [processed, processStoreRequest, storePacketData, addPacketId, hd, hmb]

lemma processedIndex_processStoreRequest (s : DetLoggerServer) (pm : PALSManager) (mb : MbId) :
    (s.processStoreRequest pm).processedIndex mb =
      if mb = pm.middleboxId then s.processedIndex mb + 1 else s.processedIndex mb := by
  by_cases hmb : mb = pm.middleboxId
  · subst hmb
    cases hd : s.detData pm.middleboxId <;>
      simp [processedIndex, processStoreRequest, storePacketData, addPacketId, hd]
  · cases hd : s.detData pm.middleboxId <;>
      simp [processedIndex, processStoreRequest, storePacketData, addPacketId, hd, hmb]

/-- Deleting ids one by one deletes each of them and no other one. -/
lemma foldl_deletePacketFromMbData (ids : List PacketId) (mbData : PacketId → Option PacketData)
    (id : PacketId) :
    ids.foldl deletePacketFromMbData mbData id = if id ∈ ids then none else mbData id := by
  induction ids generalizing mbData with
  | nil => simp
  | cons i ids ih =>
      rw [List.foldl_cons, ih]
      by_cases hi : id = i
      · simp [deletePacketFromMbData, hi]
      · simp [deletePacketFromMbData, hi]

/-- A deletion removes the records of the removed ids and no other one. -/
lemma getPacketData_processDeleteFirst (s : DetLoggerServer) (mb : MbId) (n : UInt32)
    (mb' : MbId) (id : PacketId) :
    (s.processDeleteFirstPacketsRequest mb n).getPacketData mb' id =
      if mb' = mb ∧ id ∈ s.removed mb n then none else s.getPacketData mb' id := by
  rw [processDeleteFirstPacketsRequest, getServerProgressData, removed, processed, removedCount]
  cases hp : s.progressData mb with
  | none => simp [ServerProgressData.new]
  | some spd =>
      by_cases hmb : mb' = mb
      · subst hmb
        cases hd : s.detData mb' with
        | none => simp [getPacketData, deleteFirstPackets, hd]
        | some mbData =>
            simp [getPacketData, deleteFirstPackets, hd, foldl_deletePacketFromMbData]
      · simp [getPacketData, deleteFirstPackets, hmb]

/-- A deletion removes ids at the beginning of the list of its middlebox. -/
lemma processed_processDeleteFirst (s : DetLoggerServer) (mb : MbId) (n : UInt32) (mb' : MbId) :
    (s.processDeleteFirstPacketsRequest mb n).processed mb' =
      if mb' = mb then (s.processed mb).drop (s.removedCount mb n) else s.processed mb' := by
  rw [processDeleteFirstPacketsRequest, getServerProgressData, processed, processed, processed,
    removedCount]
  cases hp : s.progressData mb with
  | none =>
      by_cases hmb : mb' = mb
      · simp [hmb, hp, ServerProgressData.new]
      · simp [hmb]
  | some spd => by_cases hmb : mb' = mb <;> simp [deleteFirstPackets, hmb]

lemma processedIndex_processDeleteFirst (s : DetLoggerServer) (mb : MbId) (n : UInt32)
    (mb' : MbId) :
    ((s.processDeleteFirstPacketsRequest mb n).processedIndex mb').toNat =
      if mb' = mb then (s.processedIndex mb).toNat - s.removedCount mb n
      else (s.processedIndex mb').toNat := by
  by_cases hmb : mb' = mb
  · subst hmb
    have hle : s.removedCount mb' n ≤ (s.processedIndex mb').toNat := by
      rw [removedCount_eq]
      omega
    rw [if_pos rfl]
    rw [processDeleteFirstPacketsRequest, getServerProgressData, processedIndex, processedIndex]
    rw [removedCount, processedIndex] at hle
    rw [removedCount]
    cases hp : s.progressData mb' with
    | none => simp [hp, ServerProgressData.new]
    | some spd =>
        simp only [hp, Option.getD_some] at hle
        simp only [deleteFirstPackets, Function.update_self, Option.getD_some]
        exact UInt32.toNat_sub_of_le _ _ (UInt32.le_iff_toNat_le.mpr hle)
  · rw [if_neg hmb]
    cases hp : s.progressData mb <;>
      simp [processDeleteFirstPacketsRequest, getServerProgressData, processedIndex, hp,
        deleteFirstPackets, hmb]

/-! ### Lists with their number -/

/-- The ids that some stores add to the list of a middlebox. -/
def storedIds (mb : MbId) (pms : List PALSManager) : List PacketId :=
  (pms.filter (·.middleboxId = mb)).map PALSManager.packetId

lemma storedIds_cons_of_eq {mb : MbId} {pm : PALSManager} (h : pm.middleboxId = mb)
    (pms : List PALSManager) : storedIds mb (pm :: pms) = pm.packetId :: storedIds mb pms := by
  rw [storedIds, List.filter_cons_of_pos (by simpa using h), List.map_cons, storedIds]

lemma storedIds_cons_of_ne {mb : MbId} {pm : PALSManager} (h : pm.middleboxId ≠ mb)
    (pms : List PALSManager) : storedIds mb (pm :: pms) = storedIds mb pms := by
  rw [storedIds, List.filter_cons_of_neg (by simpa using h), storedIds]

lemma storedIds_append (mb : MbId) (pms pms' : List PALSManager) :
    storedIds mb (pms ++ pms') = storedIds mb pms ++ storedIds mb pms' := by
  rw [storedIds, List.filter_append, List.map_append, storedIds, storedIds]

/-- What stores add to the list of a middlebox. -/
lemma processed_foldl_store (s : DetLoggerServer) (mb : MbId) (pms : List PALSManager) :
    (pms.foldl processStoreRequest s).processed mb = s.processed mb ++ storedIds mb pms := by
  induction pms generalizing s with
  | nil => simp [storedIds]
  | cons pm pms ih =>
      rw [List.foldl_cons, ih, processed_processStoreRequest]
      by_cases hmb : pm.middleboxId = mb
      · rw [if_pos hmb.symm, storedIds_cons_of_eq hmb, List.append_assoc, List.singleton_append]
      · rw [if_neg (Ne.symm hmb), storedIds_cons_of_ne hmb]

/-- The processed ids of a middlebox are `ids`, and their number is right. -/
def HasList (s : DetLoggerServer) (mb : MbId) (ids : List PacketId) : Prop :=
  s.processed mb = ids ∧ (s.processedIndex mb).toNat = ids.length

section

variable {s : DetLoggerServer} {mb : MbId} {ids : List PacketId} (h : s.HasList mb ids)

include h

/-- A reply with all versions is the whole list. -/
lemma HasList.getProcessed_all (hfits : 8 * ids.length ≤ maxRetValLength) :
    s.processGetProcessedPacketsRequest mb true = some ids := by
  obtain ⟨rfl, hindex⟩ := h
  rw [processGetProcessedPacketsRequest, getServerProgressData]
  rw [processedIndex] at hindex
  rw [processed] at hindex hfits ⊢
  cases hp : s.progressData mb with
  | none => rfl
  | some spd =>
      simp only [hp, Option.getD_some] at hindex hfits
      have hall : getProcessedPacketsForAllVersions spd = spd.packetIdsVector :=
        List.take_of_length_le hindex.ge
      simp [hall, hfits]

/-- A reply with the first versions is made from the whole list. -/
lemma HasList.getProcessed_first (hfits : 8 * ids.length ≤ maxRetValLength) :
    s.processGetProcessedPacketsRequest mb false = some (firstVersions [] ids) := by
  obtain ⟨rfl, hindex⟩ := h
  rw [processGetProcessedPacketsRequest, getServerProgressData]
  rw [processedIndex] at hindex
  rw [processed] at hindex hfits ⊢
  cases hp : s.progressData mb with
  | none => rfl
  | some spd =>
      simp only [hp, Option.getD_some] at hindex hfits
      have hall : getProcessedPacketsForFirstVersion spd
          = firstVersions [] spd.packetIdsVector := by
        rw [getProcessedPacketsForFirstVersion, List.take_of_length_le hindex.ge]
      have hle := (firstVersions_sublist [] spd.packetIdsVector).length_le
      simp only [hall, Bool.false_eq_true, if_false, Option.getD_some]
      rw [if_pos (by omega)]

/-- A store makes the list longer by one id. -/
lemma HasList.store {pm : PALSManager} (hmb : pm.middleboxId = mb)
    (hroom : ids.length + 1 < 2 ^ 32) :
    (s.processStoreRequest pm).HasList mb (ids ++ [pm.packetId]) := by
  subst hmb
  obtain ⟨rfl, hindex⟩ := h
  refine ⟨by rw [processed_processStoreRequest, if_pos rfl], ?_⟩
  rw [processedIndex_processStoreRequest, if_pos rfl, UInt32.toNat_add, hindex,
    List.length_append]
  exact Nat.mod_eq_of_lt hroom

/-- The stores for the middlebox make its list longer. -/
lemma HasList.stores (pms : List PALSManager)
    (hroom : (ids ++ storedIds mb pms).length < 2 ^ 32) :
    (pms.foldl processStoreRequest s).HasList mb (ids ++ storedIds mb pms) := by
  induction pms generalizing s ids with
  | nil => simpa [storedIds] using h
  | cons pm pms ih =>
      rw [List.foldl_cons]
      by_cases hmb : pm.middleboxId = mb
      · rw [storedIds_cons_of_eq hmb, ← List.singleton_append, ← List.append_assoc] at hroom ⊢
        refine ih (h.store hmb ?_) hroom
        simp only [List.length_append, List.length_singleton] at hroom
        omega
      · rw [storedIds_cons_of_ne hmb] at hroom ⊢
        refine ih ⟨?_, ?_⟩ hroom
        · rw [processed_processStoreRequest, if_neg (Ne.symm hmb), h.1]
        · rw [processedIndex_processStoreRequest, if_neg (Ne.symm hmb), h.2]

/-- A deletion takes the first ids from the list. -/
lemma HasList.deleteFirst {n : ℕ} (hroom : n < 2 ^ 32) :
    (s.processDeleteFirstPacketsRequest mb (.ofNat n)).HasList mb (ids.drop n) := by
  obtain ⟨rfl, hindex⟩ := h
  have hcount : s.removedCount mb (.ofNat n) = min (s.processed mb).length n := by
    rw [removedCount_eq, hindex, UInt32.toNat_ofNat', Nat.mod_eq_of_lt hroom]
  refine ⟨?_, ?_⟩
  · rw [processed_processDeleteFirst, if_pos rfl, hcount, min_comm, ← List.drop_eq_drop_min]
  · rw [processedIndex_processDeleteFirst, if_pos rfl, hcount, hindex, List.length_drop]
    omega

/-- A deletion of as many ids as there are empties the list. -/
lemma HasList.deleteAll (hroom : ids.length < 2 ^ 32) :
    (s.processDeleteFirstPacketsRequest mb (.ofNat ids.length)).HasList mb [] := by
  have hdrop := h.deleteFirst hroom
  rwa [List.drop_length] at hdrop

end

/-! ### The dispatcher -/

end DetLoggerServer

/-- A request to the server. -/
inductive DetRequest
  | store (pm : PALSManager)
  | getProcessed (mbId : MbId) (allVersions : Bool)
  | getPals (mbId : MbId) (packId : PacketId)
  | deleteFirst (mbId : MbId) (totalPacketBasesToRemove : UInt32)
deriving DecidableEq

namespace DetLoggerServer

/-- `processRequest`: the state after a request, undefined when the code writes
outside of a fixed list or of the reply buffer (here cleared before). -/
def processRequest (s : DetLoggerServer) : DetRequest → Option DetLoggerServer
  | .store pm => some (s.processStoreRequest pm)
  | .getProcessed mbId allVersions =>
      (s.processGetProcessedPacketsRequest mbId allVersions).map fun _ => s
  | .getPals mbId packId => (s.processGetPalsRequest mbId packId fun _ => 0).map fun _ => s
  | .deleteFirst mbId n => some (s.processDeleteFirstPacketsRequest mbId n)

end DetLoggerServer

end FtThesis
