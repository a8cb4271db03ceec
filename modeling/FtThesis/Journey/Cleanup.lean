/-
A round of the manager after the packets have gone through a middlebox.

What the masters have stored, and what the slave stores of the packets that are replayed to it, is
what a round of `replayAndClearPackets` needs to come to an end.

* `exists_runs`: the ids of the visits, as the ids of the versions of different packets;
* `logged_of_visited`: these packets are in the packet logger;
* `storesRuns_of_visited`: the slave stores their ids;
* `cleanup_converges`: the round, the next one, and the loop of a stop command.
-/
import FtThesis.Journey.Recovery
import FtThesis.Manager.Rounds

namespace FtThesis

open CleanupManagerServer Memory PacketLoggerServer PacketRun Requests Transition

namespace Network

variable {boxes : MbId → Middlebox} {s : Network} {mb : MbId} {vs : List Visit} {v : Visit}
  {r : PacketRun}

/-! ### The visits as runs of versions -/

/-- The two ids of a visit are those of two versions of its packet. -/
lemma exists_run (hs : Inv boxes s) (hv : s.Visited mb v) : ∃ r : PacketRun, r.ids = v.ids := by
  have hkey := hv.isKey hs
  have hn := hv.versions
  have hversion : version v.id = v.versions := version_idOf hkey (by omega)
  have hnext : version (idOf v.key (v.versions + 1)) = v.versions + 1 :=
    version_idOf hkey (by omega)
  have hbase : base (idOf v.key (v.versions + 1)) = base v.id :=
    (hv.base_eq hs (List.mem_cons_of_mem _ List.mem_cons_self)).trans
      (hv.base_eq hs List.mem_cons_self).symm
  refine ⟨⟨v.ids, List.cons_ne_nil _ _, hversion.symm ▸ hn.1, ?_⟩, rfl⟩
  exact .cons_cons ⟨hbase, hnext.trans (congrArg (· + 1) hversion.symm)⟩ (.singleton _)

lemma exists_runs (hs : Inv boxes s) (hvs : ∀ v ∈ vs, s.Visited mb v) :
    ∃ runs : List PacketRun, runs.map ids = vs.map Visit.ids := by
  induction vs with
  | nil => exact ⟨[], rfl⟩
  | cons v vs ih =>
      obtain ⟨hv, hvs⟩ := List.forall_mem_cons.mp hvs
      obtain ⟨r, hr⟩ := exists_run hs hv
      obtain ⟨runs, hruns⟩ := ih hvs
      exact ⟨r :: runs, by rw [List.map_cons, List.map_cons, hr, hruns]⟩

lemma flatMap_ids_eq_nil : vs.flatMap Visit.ids = [] ↔ vs = [] := by
  cases vs <;> simp [Visit.ids]

/-- A visit has two ids. -/
lemma length_flatMap_ids (vs : List Visit) : (vs.flatMap Visit.ids).length = 2 * vs.length := by
  simp [List.length_flatMap, Visit.ids, Nat.mul_comm]

/-- The first and the last id of such a run. -/
lemma first_of_ids (h : r.ids = v.ids) : r.first = v.id ∧ r.last = idOf v.key (v.versions + 1) := by
  obtain ⟨ids, hne, hversion, hconsecutive⟩ := r
  obtain rfl : ids = v.ids := h
  exact ⟨rfl, rfl⟩

section

variable {runs : List PacketRun} (hruns : runs.map ids = vs.map Visit.ids)

include hruns

lemma allIds_of_map_ids : allIds runs = vs.flatMap Visit.ids := by
  rw [allIds, List.flatMap_def, hruns, List.flatMap_def]

lemma exists_visit (hr : r ∈ runs) : ∃ v ∈ vs, r.ids = v.ids := by
  obtain ⟨v, hv, h⟩ := List.mem_map.mp (hruns ▸ List.mem_map_of_mem hr)
  exact ⟨v, hv, h.symm⟩

lemma map_first_of_map_ids : runs.map first = vs.map Visit.id := by
  have hheads := congrArg (List.map List.head?) hruns
  rw [List.map_map, List.map_map] at hheads
  refine List.map_injective_iff.mpr (Option.some_injective _) ?_
  rw [List.map_map, List.map_map]
  calc runs.map (some ∘ first) = runs.map (List.head? ∘ ids) :=
        List.map_congr_left fun r _ => (List.head?_eq_some_head r.ne_nil).symm
    _ = vs.map (List.head? ∘ Visit.ids) := hheads
    _ = vs.map (some ∘ Visit.id) := rfl

lemma map_packetBase_of_map_ids (hs : Inv boxes s) (hvs : ∀ v ∈ vs, s.Visited mb v) :
    runs.map packetBase = vs.map fun v => base (firstId v.key) := by
  calc runs.map packetBase = (runs.map first).map base := by rw [List.map_map]; rfl
    _ = (vs.map Visit.id).map base := by rw [map_first_of_map_ids hruns]
    _ = vs.map fun v => base (firstId v.key) := by
        rw [List.map_map]
        exact List.map_congr_left fun v hv => (hvs v hv).base_eq hs List.mem_cons_self

end

/-! ### The packets and the slave -/

/-- A packet that has gone no further is in the packet logger, with the fragments of its
versions. -/
lemma logged_of_visited (hs : Inv boxes s) (hv : s.Visited mb v)
    (hkept : NoneDeleted s.requests (base (firstId v.key)))
    (hlast : (s.frames v.key).length ≤ v.versions + 1) (h : r.ids = v.ids) :
    Logged s.packetLogger r := by
  have hkey := hv.isKey hs
  have hn := hv.versions
  obtain ⟨j, hj, -, -, hframe⟩ := hv.journey
  obtain ⟨hfirst, hlastId⟩ := first_of_ids h
  have hstores := storesVersions hs hkey hkept
  have hlength := hstores.length_eq
  have hne : storedFragments s.requests (base (firstId v.key)) ≠ [] := by
    rw [← List.length_pos_iff, hlength, frames_of_some hj]
    exact (hs.right v.key j hj).pos
  have hbase : r.packetBase = base (firstId v.key) := by
    rw [packetBase, hfirst]
    exact hv.base_eq hs List.mem_cons_self
  refine ⟨⟨storedFragments s.requests (base (firstId v.key)),
    .ofNat (storedFragments s.requests (base (firstId v.key))).length⟩, ?_, rfl, hne, ?_, ?_⟩
  · rw [hbase, hs.logger, packetsVersions_run hstores.new hstores.noneDeleted,
      packetsVersions_logged, ← storedFragments, if_neg hne]
  · intro spvd hspvd
    have hcontents : contents spvd ∈ versionsOf (s.frames v.key) :=
      hs.stored v.key hkey ▸ List.mem_map_of_mem hspvd
    obtain ⟨i, hi, heq⟩ := List.mem_mapIdx.mp hcontents
    have hdata : spvd.data ∈ j.frames := by
      have hframe : (s.frames v.key)[i] = spvd.data := congrArg (fun c => c.2.2) heq
      rw [← frames_of_some hj, ← hframe]
      exact List.getElem_mem hi
    rw [← spvd.length_data, List.length_pos_iff]
    exact fun hnil => (hs.right v.key j hj).nonempty (hnil ▸ hdata)
  · rw [hlength, hlastId, version_idOf hkey (by omega)]
    exact hlast

/-- What the slave stores of the packets that are replayed to it, by their ids. -/
def slaveProcess (s : Network) (srt : VersionSort) (box : Middlebox) (master slave : MbId)
    (answer : MbId → PacketId → PALSManager) (packId : PacketId) : List PALSManager :=
  box.slaveStores master slave answer
    (((storedPacket srt s.packetLogger packId).map ReplayedPacket.sent).getD [])

/-- These are the ids of the visits. -/
lemma storesRuns_of_visited (hs : Inv boxes s) (hvs : ∀ v ∈ vs, s.Visited mb v)
    (hkept : ∀ v ∈ vs, NoneDeleted s.requests (base (firstId v.key))) (srt : VersionSort)
    {runs : List PacketRun} (hruns : runs.map ids = vs.map Visit.ids) {box : Middlebox}
    (hbox : box.vlanLevelOffset = 1) (slave : MbId) (answer : MbId → PacketId → PALSManager) :
    StoresRuns (s.slaveProcess srt box mb slave answer) slave runs := by
  intro r hr
  obtain ⟨v, hv, h⟩ := exists_visit hruns hr
  have hn := (hvs v hv).versions
  have hstores : s.slaveProcess srt box mb slave answer r.first
      = [.new slave v.id, .new slave (idOf v.key (v.versions + 1))] := by
    rw [slaveProcess, (first_of_ids h).1]
    exact slaveStores_eq hbox mb slave answer ((hvs v hv).isKey hs) ⟨hn.1, by omega⟩
      (replayedFrame_spec hs (hvs v hv) (hkept v hv) srt).2
  rw [hstores, h]
  exact ⟨rfl, by simp [PALSManager.new]⟩

/-! ### The round -/

/-- After the round: the slave has got the packets that it had not, the lists of both are empty,
and exactly these packets are gone from the packet logger. -/
structure CleanedUp (vs : List Visit) (j : ℕ) (mb slave : MbId) (w w' : World) : Prop where
  sent : (w'.sent slave).map SentPacket.packetId
    = (w.sent slave).map SentPacket.packetId ++ (vs.drop j).map Visit.id
  master : w'.detLogger.HasList mb []
  slave : w'.slaveDetLogger.HasList slave []
  packetLogger : ∀ b, w'.packetLogger.packetsVersions b =
    if b ∈ vs.map fun v => base (firstId v.key) then none else w.packetLogger.packetsVersions b

section

variable {k j : ℕ} {slaveData : MbData} {w : World} (hs : Inv boxes s) (hr : Records s)
  (hcut : s.ListsFrom mb k) (hfree : s.Free mb)
  (hkept : ∀ v ∈ (s.visits mb).drop k, NoneDeleted s.requests (base (firstId v.key)))
  (hlast : ∀ v ∈ (s.visits mb).drop k, (s.frames v.key).length ≤ v.versions + 1)
  (hdet : w.detLogger = s.detLogger) (hlogger : w.packetLogger = s.packetLogger)
  (hslave : w.slaveDetLogger.HasList slaveData.mbId
    ((((s.visits mb).drop k).take j).flatMap Visit.ids))
  (hway : w.onTheWay slaveData.mbId = [])
  (hfits : 8 * (s.detLogger.processed mb).length ≤ serverBufferSizeWithoutPrefix)

include hs hr hcut hfree hkept hlast hdet hlogger hslave hway hfits

/-- The manager finds what it needs. -/
lemma quiescent_of_visited : ∃ runs : List PacketRun,
    runs.map ids = ((s.visits mb).drop k).map Visit.ids ∧
      Quiescent w mb slaveData.mbId runs j := by
  set vs := (s.visits mb).drop k with hvs
  have hvisited : ∀ v ∈ vs, s.Visited mb v := fun v hv =>
    hr.visited mb v (List.mem_of_mem_drop hv)
  obtain ⟨runs, hruns⟩ := exists_runs hs hvisited
  have hall := allIds_of_map_ids hruns
  have hlist : s.detLogger.processed mb = vs.flatMap Visit.ids :=
    (processed_begins hr hcut).2.2 hfree
  have hlength : runs.length = vs.length := by simpa using congrArg List.length hruns
  have hrooms := length_flatMap_ids vs
  rw [hlist, hrooms, serverBufferSizeWithoutPrefix] at hfits
  refine ⟨runs, hruns, ?_, ?_, ?_, ?_, hway, ?_, ?_⟩
  · rw [map_packetBase_of_map_ids hruns hs hvisited]
    have hnodup : (vs.map Visit.key).Nodup := (hr.nodup mb).sublist ((List.drop_sublist k _).map _)
    refine (List.pairwise_map.mp hnodup).imp_of_mem ?_ |> List.pairwise_map.mpr
    intro v v' hv hv' hne heq
    exact hne (firstId_inj ((hvisited v hv).isKey hs) ((hvisited v' hv').isKey hs) heq)
  · rw [hdet, hall, ← hlist]
    refine ⟨rfl, ?_⟩
    rw [hr.index, hlist, hrooms, UInt32.toNat_ofNat_of_lt' (by rw [UInt32.size]; omega)]
  · have htake : (runs.take j).map ids = (vs.take j).map Visit.ids := by
      rw [List.map_take, hruns, List.map_take]
    rw [allIds_of_map_ids htake]
    exact hslave
  · intro r hr
    obtain ⟨v, hv, h⟩ := exists_visit hruns hr
    rw [hlogger]
    exact logged_of_visited hs (hvisited v hv) (hkept v hv) (hlast v hv) h
  · rw [hall, hrooms, serverBufferSizeWithoutPrefix]
    exact hfits
  · rw [List.length_drop, hlength, serverBufferSizeWithoutPrefix]
    omega

end

/-- **A round of the manager.**  In every run of the network of which each step is permitted
(`Permits`), when the packets that came to a middlebox have left it, have gone no further, and are
kept by the packet logger, the slave has the ids of the first `j` of those whose ids are still in
the list, which fits into the buffers, nothing is on its way to the slave, and its level offset is
`1`, then a round of `replayAndClearPackets` ends: it sends the slave the other packets with the ids
with which they came to the middlebox, of which the elements of the slave make the ids of the
master; then the lists of both are emptied, and the packets, and no other ones, are removed from the
packet logger.  The next round finds nothing, and the loop of a stop command ends there, so that
such a command comes to the round for the new master. -/
theorem cleanup_converges {as : List Action} (h : Run (Steps boxes) new as s) (srt : VersionSort)
    {mb : MbId} {slaveData : MbData} (hslaveData : getSlaveMbData mb = some slaveData) {k j : ℕ}
    (hcut : s.ListsFrom mb k) (hfree : s.Free mb)
    (hkept : ∀ v ∈ (s.visits mb).drop k, NoneDeleted s.requests (base (firstId v.key)))
    (hlast : ∀ v ∈ (s.visits mb).drop k, (s.frames v.key).length ≤ v.versions + 1) {w : World}
    (hdet : w.detLogger = s.detLogger) (hlogger : w.packetLogger = s.packetLogger)
    (hslave : w.slaveDetLogger.HasList slaveData.mbId
      ((((s.visits mb).drop k).take j).flatMap Visit.ids))
    (hway : w.onTheWay slaveData.mbId = [])
    (hfits : 8 * (s.detLogger.processed mb).length ≤ serverBufferSizeWithoutPrefix)
    {box : Middlebox} (hbox : box.vlanLevelOffset = 1) (answer : MbId → PacketId → PALSManager) :
    let process := s.slaveProcess srt box mb slaveData.mbId answer
    ∃ w', (replayAndClearPackets mb).run (performQuietly srt process) w
        = some (decide ((s.visits mb).drop k ≠ []), w') ∧
      CleanedUp ((s.visits mb).drop k) j mb slaveData.mbId w w' ∧
      (replayAndClearPackets mb).run (performQuietly srt process) w' = some (false,
        { w' with masterProcessedPacketIds := [], slaveProcessedPacketIds := [] }) ∧
      (∀ fuel, 2 ≤ fuel → stopMasterLoop srt process mb fuel w
        = some { w' with masterProcessedPacketIds := [], slaveProcessedPacketIds := [] }) ∧
      ∀ newMb, newMb ≠ 0 → ∃ bs, Run (Fires (CleanupManagerServer.step srt)) ⟨w, none⟩
        (.command (.stopMaster mb newMb) :: bs)
        ⟨{ w' with masterProcessedPacketIds := [], slaveProcessedPacketIds := [] },
          some (.stopMaster mb newMb, do
            let _ ← replayAndClearPackets newMb
            pure (some true))⟩ := by
  obtain ⟨hs, hr⟩ := records_of_run h
  set vs := (s.visits mb).drop k with hvs
  have hvisited : ∀ v ∈ vs, s.Visited mb v := fun v hv =>
    hr.visited mb v (List.mem_of_mem_drop hv)
  obtain ⟨runs, hruns, hquiescent⟩ :=
    quiescent_of_visited hs hr hcut hfree hkept hlast hdet hlogger hslave hway hfits
  have hprocess := storesRuns_of_visited hs hvisited hkept srt hruns hbox slaveData.mbId answer
  obtain ⟨w', hround, hconverged⟩ := replayAndClear_run srt hslaveData hquiescent hprocess
  have hnext := replayAndClear_empty srt (s.slaveProcess srt box mb slaveData.mbId answer)
    hslaveData hconverged.master hconverged.slave
  have hempty : allIds runs ≠ [] ↔ vs ≠ [] := by
    rw [allIds_of_map_ids hruns, ne_eq, flatMap_ids_eq_nil]
  have hloop {fuel : ℕ} (hfuel : 2 ≤ fuel) :=
    stopMasterLoop_eq srt hslaveData hquiescent hround hconverged hfuel
  refine ⟨w', by simpa only [hempty] using hround, ⟨?_, hconverged.master, hconverged.slave, ?_⟩,
    hnext, fun _ => hloop, fun _ hnew => exists_run_stopMaster (hloop le_rfl) hnew⟩
  · have hsent := hconverged.sent slaveData.mbId
    rwa [if_pos rfl, List.map_drop, map_first_of_map_ids hruns, ← List.map_drop] at hsent
  · intro b
    rw [hconverged.packetLogger, map_packetBase_of_map_ids hruns hs hvisited]

/-- Two packets have passed the middlebox `6`, and then a third one is tagged. -/
lemma exists_run_passed : ∃ s t first second, Run (Steps withTsaTag) new
      ([.enter 1 shortPacket, .enter 2 shortPacket, .arrive (1, 0) 6] ++
        [.record (1, 0), .log (1, 0), .forward (1, 0), .arrive (2, 0) 6] ++
        [.record (2, 0), .log (2, 0), .forward (2, 0)]) s ∧
    Run (Steps withTsaTag) s [.enter 3 shortPacket] t ∧ t.ListsFrom 6 0 ∧ t.Free 6 ∧
    t.visits 6 = [first, second] ∧ 8 * (t.detLogger.processed 6).length = 32 ∧
    ∀ v ∈ t.visits 6, NoneDeleted t.requests (base (firstId v.key)) ∧
      (t.frames v.key).length ≤ v.versions + 1 := by
  obtain ⟨s, t, first, second, hpass, henter, hcut, hvisits, hprocessed, hfirst, hsecond⟩ :
      ∃ s t first second,
      Run (Steps withTsaTag) secondArrived [.record (2, 0), .log (2, 0), .forward (2, 0)] s ∧
      Run (Steps withTsaTag) s [.enter 3 shortPacket] t ∧ t.ListsFrom 6 0 ∧
      t.visits 6 = [first, second] ∧ (t.detLogger.processed 6).length = 4 ∧
      (t.frames first.key).length ≤ first.versions + 1 ∧
      (t.frames second.key).length ≤ second.versions + 1 := by
    refine ⟨_, _, _, _, .cons ⟨trivial, _, 6, rfl, rfl, rfl⟩ (.cons ⟨trivial, _, 6, rfl, rfl, rfl⟩
      (.single ⟨trivial, _, 6, rfl, rfl, rfl⟩)), .single ⟨?_, rfl⟩, rfl, rfl, rfl, Nat.le_refl 2,
      Nat.le_refl 2⟩
    exact ⟨by decide, seqPeriod_pos, by decide, by decide⟩
  have hrun := (run_arrived.append run_secondArrived).append hpass
  refine ⟨s, t, first, second, hrun, henter, hcut, ?_, hvisits, by rw [hprocessed], fun v hv =>
    ⟨noneDeleted_of_run (hrun.append henter) (by simp) _, ?_⟩⟩
  · rcases (records_of_run (hrun.append henter)).2.listed 6 with ⟨hfree, -⟩ | ⟨vs, v, hv, -, hlist⟩
    · exact hfree
    · -- two visits have four ids
      have hids := congrArg List.length hlist
      have hlength := congrArg List.length hv
      simp only [recorded, List.length_append, hvisits, List.length_cons, List.length_nil,
        hprocessed, length_flatMap_ids] at hids hlength
      omega
  · rw [hvisits] at hv
    rcases List.mem_cons.mp hv with rfl | hv
    · exact hfirst
    · obtain rfl := List.mem_singleton.mp hv
      exact hsecond

/-- Two packets have passed the middlebox `6`, and its slave has the ids of the first one. -/
theorem cleanup_converges_mb6 : ∃ s w w' first second, Run (Steps withTsaTag) new
      ([.enter 1 shortPacket, .enter 2 shortPacket, .arrive (1, 0) 6] ++
        [.record (1, 0), .log (1, 0), .forward (1, 0), .arrive (2, 0) 6] ++
        [.record (2, 0), .log (2, 0), .forward (2, 0)] ++ [.enter 3 shortPacket]) s ∧
    s.visits 6 = [first, second] ∧ w.slaveDetLogger.processed 7 = first.ids ∧
    (w'.sent 7).map SentPacket.packetId = [second.id] ∧ CleanedUp [first, second] 1 6 7 w w' := by
  obtain ⟨_, s, first, second, hpass, henter, hcut, hfree, hvisits, hlength, hvs⟩ :=
    exists_run_passed
  have hrun := hpass.append henter
  have hfits : 8 * (s.detLogger.processed 6).length ≤ serverBufferSizeWithoutPrefix := by
    rw [hlength, serverBufferSizeWithoutPrefix]
    decide
  let w : World := { World.new with
    detLogger := s.detLogger
    slaveDetLogger :=
      ((DetLoggerServer.new.processStoreRequest (.new 7 first.id)).processStoreRequest
        (.new 7 (idOf first.key (first.versions + 1))))
    packetLogger := s.packetLogger }
  have hslave : w.slaveDetLogger.HasList 7 ((((s.visits 6).drop 0).take 1).flatMap Visit.ids) := by
    rw [hvisits]
    exact ⟨rfl, rfl⟩
  have hbox : (Middlebox.plain 1 le_rfl).vlanLevelOffset = 1 := rfl
  have hslaveData : getSlaveMbData 6 = some ⟨7, "10.0.0.7", 9999⟩ := rfl
  obtain ⟨w', -, hcleaned, -⟩ := cleanup_converges hrun .stable hslaveData hcut hfree
    (fun v hv => (hvs v hv).1) (fun v hv => (hvs v hv).2) rfl rfl hslave rfl hfits hbox
    PALSManager.new
  rw [hvisits] at hcleaned
  exact ⟨s, w, w', first, second, hrun, hvisits, rfl, hcleaned.sent, hcleaned⟩

end Network

end FtThesis
