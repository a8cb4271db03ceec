/-
A round of `replayAndClearPackets` while nothing else happens.

* `PacketRun`: the ids of the versions of one packet;
* `Quiescent`: the state before the round; `Converged`: the state after it;
* `replay_run`, `clear_run`: the two parts of the round;
* `replayAndClear_converges`: the round, the next one, and the loop of a stop command.
-/
import FtThesis.Manager.Quiet

namespace FtThesis

open Requests Transition AlignedLists PacketLoggerServer

/-! ### The versions of a packet -/

/-- The ids of consecutive versions of one packet, from a version of at least one. -/
structure PacketRun where
  ids : List PacketId
  ne_nil : ids ≠ []
  one_le_version : 1 ≤ version (ids.head ne_nil)
  consecutive : ids.IsChain fun a b => base b = base a ∧ version b = version a + 1

namespace PacketRun

/-- The id of the first version. -/
def first (r : PacketRun) : PacketId := r.ids.head r.ne_nil

/-- The id of the last version. -/
def last (r : PacketRun) : PacketId := r.ids.getLast r.ne_nil

/-- The base of all ids. -/
def packetBase (r : PacketRun) : PacketBase := base r.first

lemma base_first (r : PacketRun) : base r.first = r.packetBase := rfl

lemma base_eq (r : PacketRun) {id : PacketId} (h : id ∈ r.ids) : base id = r.packetBase := by
  have htrans : IsTrans PacketId fun a b => base b = base a := ⟨fun _ _ _ h h' => h'.trans h⟩
  have hpair := List.isChain_iff_pairwise.mp (r.consecutive.imp fun _ _ h => h.1)
  rw [← List.cons_head_tail r.ne_nil] at h hpair
  rcases List.mem_cons.mp h with rfl | htail
  · rfl
  · exact List.rel_of_pairwise_cons hpair htail

/-- The ids of some packets, one packet after another. -/
def allIds (runs : List PacketRun) : List PacketId := runs.flatMap ids

lemma allIds_append (runs runs' : List PacketRun) :
    allIds (runs ++ runs') = allIds runs ++ allIds runs' := List.flatMap_append

lemma allIds_eq_nil_iff {runs : List PacketRun} : allIds runs = [] ↔ runs = [] := by
  cases runs with
  | nil => simp [allIds]
  | cons r runs => simp [allIds, r.ne_nil]

/-- The first versions of packets with different bases. -/
lemma firstVersions_allIds {runs : List PacketRun} {bases : List PacketBase}
    (hnodup : (runs.map packetBase).Nodup) (hnew : ∀ r ∈ runs, r.packetBase ∉ bases) :
    DetLoggerServer.firstVersions bases (allIds runs) = runs.map first := by
  induction runs generalizing bases with
  | nil => rfl
  | cons r runs ih =>
      rw [List.map_cons, List.nodup_cons] at hnodup
      obtain ⟨hr, hruns⟩ := List.forall_mem_cons.mp hnew
      have hids : allIds (r :: runs) = r.first :: (r.ids.tail ++ allIds runs) := by
        rw [allIds, List.flatMap_cons, first, ← List.cons_append, List.cons_head_tail]
        rfl
      rw [hids, DetLoggerServer.firstVersions, base_first, if_neg hr,
        DetLoggerServer.firstVersions_append_of_mem, ih hnodup.2]
      · rfl
      · intro r' hr' hmem
        rcases List.mem_cons.mp hmem with heq | hmem
        · exact hnodup.1 (List.mem_map.mpr ⟨r', hr', heq⟩)
        · exact hruns r' hr' hmem
      · intro id hid
        rw [r.base_eq (List.mem_of_mem_tail hid)]
        exact List.mem_cons_self

end PacketRun

namespace CleanupManagerServer

open PacketRun

/-! ### Before and after the round -/

/-- The packet logger has fragments of the packet, none of which is empty, and not more
than the last version says. -/
def Logged (s : PacketLoggerServer) (r : PacketRun) : Prop :=
  ∃ pvd, s.packetsVersions r.packetBase = some pvd ∧
    pvd.index = .ofNat pvd.packetVersions.length ∧ pvd.packetVersions ≠ [] ∧
    (∀ spvd ∈ pvd.packetVersions, 0 < spvd.size.toNat) ∧
    pvd.packetVersions.length ≤ version r.last

/-- The slave stores, for each of the packets, the determinants for exactly its ids. -/
def StoresRuns (process : PacketId → List PALSManager) (slaveMbId : MbId)
    (runs : List PacketRun) : Prop :=
  ∀ r ∈ runs, (process r.first).map PALSManager.packetId = r.ids ∧
    ∀ pm ∈ process r.first, pm.middleboxId = slaveMbId

/-- Before the round: the list of the master consists of the ids of some packets, that of
the slave of the ids of the first `j` of them, all packets are logged, nothing is on its
way to the slave, and all messages fit their buffers. -/
structure Quiescent (w : World) (masterMbId slaveMbId : MbId) (runs : List PacketRun) (j : ℕ) :
    Prop where
  nodup : (runs.map packetBase).Nodup
  master : w.detLogger.HasList masterMbId (allIds runs)
  slave : w.slaveDetLogger.HasList slaveMbId (allIds (runs.take j))
  logged : ∀ r ∈ runs, Logged w.packetLogger r
  onTheWay : w.onTheWay slaveMbId = []
  fits : 8 * (allIds runs).length ≤ serverBufferSizeWithoutPrefix
  fits_replay : 21 + 8 * (runs.drop j).length ≤ serverBufferSizeWithoutPrefix

/-- After the round: the packets that the slave did not have were replayed, both lists are
empty, and exactly the bases of the packets are removed from the packet logger. -/
structure Converged (w w' : World) (masterMbId slaveMbId : MbId) (runs : List PacketRun) (j : ℕ) :
    Prop where
  sent : ∀ mb, (w'.sent mb).map SentPacket.packetId = (w.sent mb).map SentPacket.packetId ++
    if mb = slaveMbId then (runs.drop j).map first else []
  master : w'.detLogger.HasList masterMbId []
  slave : w'.slaveDetLogger.HasList slaveMbId []
  packetLogger : ∀ b, w'.packetLogger.packetsVersions b =
    if b ∈ runs.map packetBase then none else w.packetLogger.packetsVersions b

/-! ### The replay -/

/-- After the replay: the packets that the slave did not have were sent, and it has all
ids of the master. -/
structure Replayed (w w' : World) (slaveMbId : MbId) (runs : List PacketRun) (j : ℕ) : Prop where
  detLogger_eq : w'.detLogger = w.detLogger
  packetLogger_eq : w'.packetLogger = w.packetLogger
  sent : ∀ mb, (w'.sent mb).map SentPacket.packetId = (w.sent mb).map SentPacket.packetId ++
    if mb = slaveMbId then (runs.drop j).map first else []
  slave : w'.slaveDetLogger.HasList slaveMbId (allIds runs)

section

variable {srt : VersionSort} {process : PacketId → List PALSManager} {w : World}
  {masterMbId : MbId} {slaveData : MbData} {runs : List PacketRun} {j : ℕ}

/-- The ids to be replayed are the first ones of the packets that the slave does not
have. -/
lemma unmatched_first (runs : List PacketRun) (j : ℕ) :
    unmatched (runs.map first) ((runs.take j).map first) = (runs.drop j).map first := by
  calc unmatched (runs.map first) ((runs.take j).map first)
      = unmatched ((runs.take j).map first ++ (runs.drop j).map first)
          ((runs.take j).map first) := by rw [← List.map_append, List.take_append_drop]
    _ = (runs.drop j).map first := unmatched_append_left _ _

/-- The reply with the first versions, for the ids of some packets. -/
lemma getProcessed_runs {s : DetLoggerServer} {mb : MbId} (h : s.HasList mb (allIds runs))
    (hnodup : (runs.map packetBase).Nodup) (hfits : 8 * (allIds runs).length ≤ maxRetValLength) :
    s.processGetProcessedPacketsRequest mb false = some (runs.map first) := by
  rw [h.getProcessed_first hfits, firstVersions_allIds hnodup fun _ _ => List.not_mem_nil]

/-- There is something to send for the first version of a logged packet. -/
lemma Logged.isSome_sendPacket {s : PacketLoggerServer} {r : PacketRun} (h : Logged s r) :
    (sendPacket srt s r.first).isSome = true := by
  obtain ⟨pvd, hpvd, hindex, hne, hsize, hle⟩ := h
  have hpos := List.length_pos_iff.mpr hne
  have hlt := version_lt r.last
  refine PacketLoggerServer.isSome_sendPacket srt hpvd ?_ hne hsize r.one_le_version
  rw [hindex, UInt8.toNat_ofNat', Nat.mod_eq_of_lt (by omega)]
  exact hpos

lemma map_packetId_replayed (srt : VersionSort) (hlogged : ∀ r ∈ runs, Logged w.packetLogger r) :
    ((runs.map first).filterMap (sendPacket srt w.packetLogger)).map SentPacket.packetId
      = runs.map first := by
  rw [map_packetId_filterMap_sendPacket, List.filter_eq_self]
  intro id hid
  obtain ⟨r, hr, rfl⟩ := List.mem_map.mp hid
  exact (hlogged r hr).isSome_sendPacket

/-- The slave finishes the packets that are replayed to it. -/
lemma finishReplayed_runs {slaveMbId : MbId} (hprocess : StoresRuns process slaveMbId runs)
    {packets : List SentPacket} (hpackets : packets.map SentPacket.packetId = runs.map first)
    (hway : w.onTheWay slaveMbId = packets) {ids : List PacketId}
    (hlist : w.slaveDetLogger.HasList slaveMbId ids)
    (hroom : ids.length + (allIds runs).length < 2 ^ 32) :
    ∃ w', finishReplayed process slaveMbId w = some w' ∧ SlaveOnly w w' ∧
      w'.slaveDetLogger.HasList slaveMbId (ids ++ allIds runs) := by
  have hids : packets.flatMap (fun packet => (process packet.packetId).map PALSManager.packetId)
      = allIds runs := by
    calc packets.flatMap (fun packet => (process packet.packetId).map PALSManager.packetId)
        = (packets.map SentPacket.packetId).flatMap
            fun id => (process id).map PALSManager.packetId := by rw [List.flatMap_map]
      _ = runs.flatMap fun r => (process r.first).map PALSManager.packetId := by
          rw [hpackets, List.flatMap_map]
      _ = allIds runs := List.flatMap_congr fun r hr => (hprocess r hr).1
  have hpms : ∀ packet ∈ packets, ∀ pm ∈ process packet.packetId,
      pm.middleboxId = slaveMbId ∧ base pm.packetId = base packet.packetId := by
    intro packet hpacket pm hpm
    obtain ⟨r, hr, hfirst⟩ := List.mem_map.mp (hpackets ▸ List.mem_map_of_mem hpacket)
    rw [← hfirst] at hpm ⊢
    refine ⟨(hprocess r hr).2 pm hpm, r.base_eq ?_⟩
    rw [← (hprocess r hr).1]
    exact List.mem_map_of_mem hpm
  obtain ⟨w', hw', honly, -, hlist'⟩ := finishReplayed_spec hpms hway hlist hids hroom
  exact ⟨w', hw', honly, hlist'⟩

/-- What `replay` does with the two lists. -/
lemma run_replay (srt : VersionSort) {master slave unprocessed : List PacketId}
    {already : Finset PacketBase} (hslaveData : getSlaveMbData masterMbId = some slaveData)
    (hmaster : w.detLogger.processGetProcessedPacketsRequest masterMbId false = some master)
    (hslave : w.slaveDetLogger.processGetProcessedPacketsRequest slaveData.mbId false = some slave)
    (hunprocessed : getUnprocessedPacketIds master slave ∅ = some (unprocessed, already)) :
    (replay masterMbId ∅).run (performQuietly srt process) w =
      (if 0 < unprocessed.length then do
        sendReplayPacketsRequest (createReplayPackets slaveData unprocessed)
        pure ((unprocessed.length : ℤ), already)
      else pure (0, already) : Manager (ℤ × Finset PacketBase)).run (performQuietly srt process)
        { w with masterProcessedPacketIds := master, slaveProcessedPacketIds := slave } := by
  have hids := (Program.run_ofOption (performQuietly srt process)
    (getUnprocessedPacketIds master slave ∅)
    { w with masterProcessedPacketIds := master, slaveProcessedPacketIds := slave }).trans
    (congrArg (Option.map _) hunprocessed)
  simp only [replay, hslaveData]
  rw [Program.run_bind_of_run _ (run_getMaster hmaster),
    Program.run_bind_of_run _ (run_getSlave (by exact hslave)), Program.run_bind_of_run _ hids]

/-- The packets are sent, and the slave finishes them. -/
lemma sendReplay_run (srt : VersionSort) (hlogged : ∀ r ∈ runs, Logged w.packetLogger r)
    (hprocess : StoresRuns process slaveData.mbId runs) (hway : w.onTheWay slaveData.mbId = [])
    (hfits : 21 + 8 * runs.length ≤ serverBufferSizeWithoutPrefix) {ids : List PacketId}
    (hlist : w.slaveDetLogger.HasList slaveData.mbId ids)
    (hroom : ids.length + (allIds runs).length < 2 ^ 32) :
    ∃ w', (sendReplayPacketsRequest (createReplayPackets slaveData (runs.map first))).run
        (performQuietly srt process) w = some ((), w') ∧
      w'.detLogger = w.detLogger ∧ w'.packetLogger = w.packetLogger ∧
      (∀ mb, (w'.sent mb).map SentPacket.packetId = (w.sent mb).map SentPacket.packetId ++
        if mb = slaveData.mbId then runs.map first else []) ∧
      w'.slaveDetLogger.HasList slaveData.mbId (ids ++ allIds runs) := by
  have hpackets := map_packetId_replayed srt hlogged
  set packets := (runs.map first).filterMap (sendPacket srt w.packetLogger)
  let w₁ : World := { w with
    onTheWay := appendAt w.onTheWay slaveData.mbId packets
    sent := appendAt w.sent slaveData.mbId packets }
  have hway₁ : w₁.onTheWay slaveData.mbId = packets := by
    simp only [w₁, appendAt_apply, if_pos, hway, List.nil_append]
  obtain ⟨w', hfinish, honly, hlist'⟩ := finishReplayed_runs (w := w₁) hprocess hpackets hway₁
    hlist hroom
  have hfits' : (createReplayPackets slaveData (runs.map first)).serializedLength
      ≤ serverBufferSizeWithoutPrefix := by
    rwa [ReplayPackets.serializedLength, createReplayPackets, List.length_map]
  refine ⟨w', run_replayPackets hfits' hfinish, honly.detLogger_eq, honly.packetLogger_eq,
    fun mb => ?_, hlist'⟩
  rw [honly.sent_eq]
  simp only [w₁, appendAt_apply]
  split_ifs with hmb
  · rw [List.map_append, hpackets, hmb]
  · rw [List.append_nil]

/-- Replaying, while the slave finishes before the manager goes on. -/
lemma replay_run (srt : VersionSort) (hslave : getSlaveMbData masterMbId = some slaveData)
    (hw : Quiescent w masterMbId slaveData.mbId runs j)
    (hprocess : StoresRuns process slaveData.mbId runs) :
    ∃ already w', (replay masterMbId ∅).run (performQuietly srt process) w
        = some ((((runs.drop j).length : ℤ), already), w') ∧
      Replayed w w' slaveData.mbId runs j := by
  have hids : allIds runs = allIds (runs.take j) ++ allIds (runs.drop j) := by
    rw [← allIds_append, List.take_append_drop]
  have hlen := congrArg List.length hids
  rw [List.length_append] at hlen
  have hfits : 8 * (allIds runs).length ≤ maxRetValLength := hw.fits
  have hroom : 300000 = maxRetValLength := rfl
  have hmaster := getProcessed_runs hw.master hw.nodup hfits
  have hslaveList := getProcessed_runs hw.slave
    (hw.nodup.sublist ((List.take_sublist j runs).map packetBase)) (by omega)
  have hnodup : ((runs.map first).map base).Nodup := by
    rw [List.map_map]
    exact hw.nodup
  have hunprocessed := getUnprocessedPacketIds_eq ((runs.take j).map first) hnodup
  rw [unmatched_first] at hunprocessed
  rw [run_replay srt hslave hmaster hslaveList hunprocessed]
  let w₁ : World := { w with
    masterProcessedPacketIds := runs.map first
    slaveProcessedPacketIds := (runs.take j).map first }
  rcases Nat.eq_zero_or_pos (runs.drop j).length with hzero | hpos
  · have hnil := List.length_eq_zero_iff.mp hzero
    refine ⟨bases ((runs.drop j).map first), w₁, ?_, rfl, rfl, fun mb => ?_, ?_⟩
    · rw [if_neg (by rw [List.length_map, hzero]; exact lt_irrefl 0), Program.run_pure, hzero]
      rfl
    · simp [hnil, w₁]
    · rw [hids, hnil]
      simpa [allIds] using hw.slave
  · obtain ⟨w', hsend, hdet, hpacket, hsent, hlist⟩ := sendReplay_run (w := w₁) srt
      (fun r hr => hw.logged r (List.mem_of_mem_drop hr))
      (fun r hr => hprocess r (List.mem_of_mem_drop hr)) hw.onTheWay hw.fits_replay hw.slave
      (by omega)
    refine ⟨bases ((runs.drop j).map first), w', ?_, hdet, hpacket, hsent, hids ▸ hlist⟩
    rw [if_pos (by rwa [List.length_map]), Program.run_bind_of_run _ hsend, Program.run_pure,
      List.length_map]

end

/-! ### The clearing -/

section

variable {process : PacketId → List PALSManager} {w : World} {masterMbId : MbId}
  {slaveData : MbData} {ids : List PacketId} {already : Finset PacketBase}

/-- Of two equal lists that fit their buffers, all ids are common. -/
lemma commonPackets_self (already : Finset PacketBase) (hfits : 8 * ids.length ≤ maxRetValLength) :
    (commonPackets ids ids already).1.commonProcessed = ids ∧
      (commonPackets ids ids already).2 = [] := by
  rw [commonPackets, ite_self, getCommonProcessedPacketIds]
  exact commonLoop_self (room_of_fits hfits)

/-- What `clearReplayedPackets` does with two equal lists. -/
lemma run_clear (srt : VersionSort) (maxBases : ℤ)
    (hslaveData : getSlaveMbData masterMbId = some slaveData)
    (hmaster : w.detLogger.HasList masterMbId ids)
    (hslave : w.slaveDetLogger.HasList slaveData.mbId ids)
    (hfits : 8 * ids.length ≤ maxRetValLength) :
    (clearReplayedPackets masterMbId maxBases already).run (performQuietly srt process) w =
      ((clearCommonPackets masterMbId slaveData.mbId ids []).run (performQuietly srt process)
        { w with masterProcessedPacketIds := ids, slaveProcessedPacketIds := ids }).map
          fun r => ((r.1, (commonPackets ids ids already).1.alreadyReplayedPackets), r.2) := by
  obtain ⟨hcommon, horphan⟩ := commonPackets_self already hfits
  have hall : ¬ DeletesAll ids ids ids := by
    rintro ⟨hzero, hlt⟩
    omega
  simp only [clearReplayedPackets, hslaveData]
  rw [Program.run_bind_of_run _ (run_getMaster (hmaster.getProcessed_all hfits)),
    Program.run_bind_of_run _ (run_getSlave (by exact hslave.getProcessed_all hfits))]
  simp only [hcommon, horphan, if_neg hall, Program.run_bind, Program.run_pure]
  rw [Option.map_eq_bind]
  rfl

/-- What `clearCommonPackets` does with an empty list. -/
lemma run_clearCommon_nil (srt : VersionSort) (slaveMbId : MbId) :
    (clearCommonPackets masterMbId slaveMbId [] []).run (performQuietly srt process) w
      = some (0, w) := rfl

/-- What `clearCommonPackets` does with a list that is not empty. -/
lemma run_clearCommon (srt : VersionSort) (slaveMbId : MbId) (hpos : 0 < ids.length)
    (hfits : 8 * ids.length ≤ serverBufferSizeWithoutPrefix) :
    (clearCommonPackets masterMbId slaveMbId ids []).run (performQuietly srt process) w
      = some ((ids.length : ℤ), { w with
          detLogger := w.detLogger.processDeleteFirstPacketsRequest masterMbId (.ofNat ids.length)
          cleared := appendAt w.cleared masterMbId
            (w.detLogger.removed masterMbId (.ofNat ids.length))
          slaveDetLogger :=
            w.slaveDetLogger.processDeleteFirstPacketsRequest slaveMbId (.ofNat ids.length)
          packetLogger := w.packetLogger.processDeletePacketsRequest ids }) := by
  rw [clearCommonPackets, if_pos hpos, List.append_nil, clearSlavePackets, if_pos hpos,
    Program.run_bind_of_run _ (run_deleteMaster ..), Program.run_bind_of_run _ (run_deleteSlave ..),
    Program.run_bind_of_run _ (run_deletePackets hfits), Program.run_pure]

/-- After clearing: both lists are empty, and the packet logger was asked to delete the
ids. -/
structure Cleared (w w' : World) (masterMbId slaveMbId : MbId) (ids : List PacketId) : Prop where
  sent_eq : w'.sent = w.sent
  master : w'.detLogger.HasList masterMbId []
  slave : w'.slaveDetLogger.HasList slaveMbId []
  packetLogger_eq : w'.packetLogger = w.packetLogger.processDeletePacketsRequest ids

/-- Clearing two equal lists. -/
lemma clear_run (srt : VersionSort) (process : PacketId → List PALSManager) (maxBases : ℤ)
    (already : Finset PacketBase)
    (hslaveData : getSlaveMbData masterMbId = some slaveData)
    (hmaster : w.detLogger.HasList masterMbId ids)
    (hslave : w.slaveDetLogger.HasList slaveData.mbId ids)
    (hfits : 8 * ids.length ≤ serverBufferSizeWithoutPrefix) :
    ∃ already' w', (clearReplayedPackets masterMbId maxBases already).run
        (performQuietly srt process) w = some (((ids.length : ℤ), already'), w') ∧
      Cleared w w' masterMbId slaveData.mbId ids := by
  rw [run_clear srt maxBases hslaveData hmaster hslave hfits]
  rcases Nat.eq_zero_or_pos ids.length with hzero | hpos
  · obtain rfl := List.length_eq_zero_iff.mp hzero
    rw [run_clearCommon_nil]
    exact ⟨_, _, rfl, rfl, hmaster, hslave, rfl⟩
  · have hroom : ids.length < 2 ^ 32 := by
      rw [serverBufferSizeWithoutPrefix] at hfits
      omega
    rw [run_clearCommon srt _ hpos hfits]
    exact ⟨_, _, rfl, rfl, hmaster.deleteAll hroom, hslave.deleteAll hroom, rfl⟩

/-- With the last version of each packet, its record is deleted. -/
lemma packetsVersions_deleteRuns {s : PacketLoggerServer} {runs : List PacketRun}
    (hlogged : ∀ r ∈ runs, Logged s r) (b : PacketBase) :
    (s.processDeletePacketsRequest (allIds runs)).packetsVersions b =
      if b ∈ runs.map packetBase then none else s.packetsVersions b := by
  rw [packetsVersions_processDelete]
  split_ifs with hb
  · obtain ⟨r, hr, rfl⟩ := List.mem_map.mp hb
    obtain ⟨pvd, hpvd, hindex, -, -, hle⟩ := hlogged r hr
    have hlast : r.last ∈ r.ids := List.getLast_mem r.ne_nil
    have hcount : pvd.index.toNat ≤ version r.last := by
      rw [hindex, UInt8.toNat_ofNat']
      exact (Nat.mod_le _ _).trans hle
    rw [hpvd, Option.filter_some, if_neg]
    intro hkept
    have hlt := of_decide_eq_true (List.all_eq_true.mp hkept r.last
      (List.mem_flatMap.mpr ⟨r, hr, hlast⟩)) (r.base_eq hlast).symm
    omega
  · cases s.packetsVersions b with
    | none => rfl
    | some pvd =>
        rw [Option.filter_some,
          if_pos (List.all_eq_true.mpr fun id hid => decide_eq_true fun hbase => ?_)]
        obtain ⟨r, hr, hmem⟩ := List.mem_flatMap.mp hid
        exact absurd (List.mem_map.mpr ⟨r, hr, (r.base_eq hmem).symm.trans hbase.symm⟩) hb

end

/-! ### The round -/

section

variable {process : PacketId → List PALSManager} {w : World} {masterMbId : MbId}
  {slaveData : MbData} {runs : List PacketRun} {j : ℕ}

/-- One round. -/
lemma replayAndClear_run (srt : VersionSort) (hslave : getSlaveMbData masterMbId = some slaveData)
    (hw : Quiescent w masterMbId slaveData.mbId runs j)
    (hprocess : StoresRuns process slaveData.mbId runs) :
    ∃ w', (replayAndClearPackets masterMbId).run (performQuietly srt process) w
        = some (decide (allIds runs ≠ []), w') ∧
      Converged w w' masterMbId slaveData.mbId runs j := by
  obtain ⟨already, w₁, hreplay, hreplayed⟩ := replay_run srt hslave hw hprocess
  obtain ⟨already', w₂, hclear, hcleared⟩ := clear_run srt process
    (runs.drop j).length already hslave (hreplayed.detLogger_eq ▸ hw.master) hreplayed.slave hw.fits
  refine ⟨w₂, ?_, ?_⟩
  · have hhad : (0 : ℤ) < (runs.drop j).length ∨ (0 : ℤ) < (allIds runs).length ↔
        allIds runs ≠ [] := by
      rcases eq_or_ne runs [] with rfl | hne
      · simp [allIds]
      · have hids := allIds_eq_nil_iff.not.mpr hne
        exact iff_of_true (.inr (by exact_mod_cast List.length_pos_iff.mpr hids)) hids
    rw [replayAndClearPackets, Program.run_bind_of_run _ hreplay,
      Program.run_bind_of_run _ hclear, Program.run_pure, decide_eq_decide.mpr hhad]
  · refine ⟨fun mb => ?_, hcleared.master, hcleared.slave, fun b => ?_⟩
    · rw [hcleared.sent_eq, hreplayed.sent]
    · rw [hcleared.packetLogger_eq, hreplayed.packetLogger_eq, packetsVersions_deleteRuns hw.logged]

/-- A round with empty lists changes nothing. -/
lemma replayAndClear_empty (srt : VersionSort) (process : PacketId → List PALSManager)
    (hslave : getSlaveMbData masterMbId = some slaveData)
    (hmaster : w.detLogger.HasList masterMbId [])
    (hslaveList : w.slaveDetLogger.HasList slaveData.mbId []) :
    (replayAndClearPackets masterMbId).run (performQuietly srt process) w
      = some (false, { w with masterProcessedPacketIds := [], slaveProcessedPacketIds := [] }) := by
  let w₁ : World := { w with masterProcessedPacketIds := [], slaveProcessedPacketIds := [] }
  have hreplay : (replay masterMbId ∅).run (performQuietly srt process) w = some ((0, ∅), w₁) :=
    run_replay srt hslave (hmaster.getProcessed_first (Nat.zero_le _))
      (hslaveList.getProcessed_first (Nat.zero_le _)) rfl
  have hclear : (clearReplayedPackets masterMbId 0 ∅).run (performQuietly srt process) w₁
      = some ((0, ∅), w₁) := by
    rw [run_clear srt 0 hslave (w := w₁) hmaster hslaveList (Nat.zero_le _), run_clearCommon_nil]
    rfl
  rw [replayAndClearPackets, Program.run_bind_of_run _ hreplay, Program.run_bind_of_run _ hclear]
  rfl

/-- The loop of a stop command ends where the round has led that found something, and the manager
has read two empty lists. -/
lemma stopMasterLoop_eq (srt : VersionSort) (hslave : getSlaveMbData masterMbId = some slaveData)
    (hw : Quiescent w masterMbId slaveData.mbId runs j) {w' : World}
    (hround : (replayAndClearPackets masterMbId).run (performQuietly srt process) w
      = some (decide (allIds runs ≠ []), w'))
    (hconverged : Converged w w' masterMbId slaveData.mbId runs j) {fuel : ℕ} (hfuel : 2 ≤ fuel) :
    stopMasterLoop srt process masterMbId fuel w
      = some { w' with masterProcessedPacketIds := [], slaveProcessedPacketIds := [] } := by
  obtain ⟨fuel, rfl⟩ := Nat.exists_eq_add_of_le' hfuel
  have hnext := replayAndClear_empty srt process hslave hconverged.master hconverged.slave
  rw [stopMasterLoop, hround, Option.bind_some]
  by_cases hnone : allIds runs = []
  · -- the first round has found nothing, and has left these lists already
    obtain rfl := allIds_eq_nil_iff.mp hnone
    have hslaveList : w.slaveDetLogger.HasList slaveData.mbId [] := by
      have hlist := hw.slave
      rwa [List.take_nil] at hlist
    have hempty := replayAndClear_empty srt process hslave hw.master hslaveList
    obtain ⟨-, rfl⟩ := Prod.mk.inj (Option.some.inj (hround.symm.trans hempty))
    rfl
  · rw [if_pos (decide_eq_true hnone), stopMasterLoop, hnext]
    rfl

/-- The loop of a stop command in the system, which comes to the round for the new master. -/
lemma exists_run_stopMaster {fuel : ℕ} {w' : World}
    (h : stopMasterLoop srt process masterMbId fuel w = some w') {newMasterMbId : MbId}
    (hnew : newMasterMbId ≠ 0) :
    ∃ as, Run (Fires (step srt)) ⟨w, none⟩ (.command (.stopMaster masterMbId newMasterMbId) :: as)
      ⟨w', some (.stopMaster masterMbId newMasterMbId, do
        let _ ← replayAndClearPackets newMasterMbId
        pure (some true))⟩ := by
  obtain ⟨as, has, -⟩ := run_stopMasterLoop hnew h
  have hcommand : Run (Fires (step srt)) ⟨w, none⟩ [.command (.stopMaster masterMbId newMasterMbId)]
      ⟨w, some (.stopMaster masterMbId newMasterMbId,
        processTsaStopMasterRequest masterMbId newMasterMbId)⟩ := .single rfl
  exact ⟨as, hcommand.append has⟩

end

end CleanupManagerServer

open CleanupManagerServer PacketRun

section

variable {process : PacketId → List PALSManager} {w : World} {masterMbId : MbId}
  {slaveData : MbData} {runs : List PacketRun} {j : ℕ}

/-- **Convergence.**  If the list of a master consists of the ids of some packets, and that
of its slave of the ids of the first ones of them, then a round of `replayAndClearPackets`
replays the other packets, empties both lists, removes the packets from the packet logger,
and tells whether there were any; the next round changes nothing but what the manager has
read, and the loop of a stop command ends after at most two rounds where these have led.  In the
system, a stop command comes there and goes on with the round for the new master. -/
theorem replayAndClear_converges (srt : VersionSort)
    (hslave : getSlaveMbData masterMbId = some slaveData)
    (hw : Quiescent w masterMbId slaveData.mbId runs j)
    (hprocess : StoresRuns process slaveData.mbId runs) :
    ∃ w', (replayAndClearPackets masterMbId).run (performQuietly srt process) w
        = some (decide (allIds runs ≠ []), w') ∧
      Converged w w' masterMbId slaveData.mbId runs j ∧
      (replayAndClearPackets masterMbId).run (performQuietly srt process) w'
        = some (false, { w' with masterProcessedPacketIds := [], slaveProcessedPacketIds := [] }) ∧
      (∀ fuel, 2 ≤ fuel → stopMasterLoop srt process masterMbId fuel w
        = some { w' with masterProcessedPacketIds := [], slaveProcessedPacketIds := [] }) ∧
      ∀ newMasterMbId, newMasterMbId ≠ 0 → ∃ as, Run (Fires (step srt)) ⟨w, none⟩
        (.command (.stopMaster masterMbId newMasterMbId) :: as)
        ⟨{ w' with masterProcessedPacketIds := [], slaveProcessedPacketIds := [] },
          some (.stopMaster masterMbId newMasterMbId, do
            let _ ← replayAndClearPackets newMasterMbId
            pure (some true))⟩ := by
  obtain ⟨w', hround, hconverged⟩ := replayAndClear_run srt hslave hw hprocess
  have hnext := replayAndClear_empty srt process hslave hconverged.master hconverged.slave
  have hloop {fuel : ℕ} (hfuel : 2 ≤ fuel) :=
    stopMasterLoop_eq srt hslave hw hround hconverged hfuel
  exact ⟨w', hround, hconverged, hnext, fun _ => hloop,
    fun _ hnew => exists_run_stopMaster (hloop le_rfl) hnew⟩

end

/-- Two versions of a packet. -/
def twoVersions : PacketRun where
  ids := [33, 34]
  ne_nil := List.cons_ne_nil _ _
  one_le_version := by decide
  consecutive := by decide

/-- A master has processed them, and the packet is logged. -/
def processedByMaster : World :=
  { World.new with
    detLogger :=
      (DetLoggerServer.new.processStoreRequest (.new 6 33)).processStoreRequest (.new 6 34)
    packetLogger := PacketLoggerServer.new.processStoreRequest (oneByte 33) }

/-- The packet is replayed to the slave, which processes both versions, and cleared. -/
theorem converges_of_twoVersions :
    ∃ w', (replayAndClearPackets 6).run
        (performQuietly .stable fun _ => [.new 7 33, .new 7 34]) processedByMaster
        = some (true, w') ∧
      Converged processedByMaster w' 6 7 [twoVersions] 0 ∧
      (replayAndClearPackets 6).run
          (performQuietly .stable fun _ => [.new 7 33, .new 7 34]) w'
        = some (false, { w' with masterProcessedPacketIds := [], slaveProcessedPacketIds := [] }) ∧
      ∀ fuel, 2 ≤ fuel → stopMasterLoop .stable (fun _ => [.new 7 33, .new 7 34]) 6 fuel
          processedByMaster
        = some { w' with masterProcessedPacketIds := [], slaveProcessedPacketIds := [] } := by
  have hquiescent : Quiescent processedByMaster 6 7 [twoVersions] 0 := by
    refine ⟨by decide, ?_, ?_, ?_, rfl, by decide, by decide⟩
    · exact ⟨by decide, by decide⟩
    · exact ⟨by decide, by decide⟩
    · rw [List.forall_mem_singleton]
      exact ⟨⟨[⟨1, 0, 1, [7], rfl⟩], 1⟩, by decide, by decide, by decide, by decide, by decide⟩
  have hprocess : StoresRuns (fun _ => [.new 7 33, .new 7 34]) 7 [twoVersions] := by
    unfold StoresRuns
    rw [List.forall_mem_singleton]
    exact ⟨by decide, by decide⟩
  have hslave : getSlaveMbData 6 = some ⟨7, "10.0.0.7", 9999⟩ := rfl
  obtain ⟨w', hround, hconverged, hnext, hloop, -⟩ :=
    replayAndClear_converges .stable hslave hquiescent hprocess
  exact ⟨w', hround, hconverged, hnext, hloop⟩

end FtThesis
