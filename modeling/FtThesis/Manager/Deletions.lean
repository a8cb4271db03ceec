/-
What a clear deletes at the three loggers.

The determinant loggers delete their first ids by number, and the packet logger deletes packets
by their ids.  The numbers come from the cut of the two lists that the clear has read.

* `requests_clear`: the requests of a clear, by the lists that it reads;
* `sameDeletions`: the numbers and the ids of a regular clear name the same packets;
* `clear_lists`: what a clear leaves of the two lists;
* `forgetsTogether_iff`: an id that is in both lists is forgotten by both loggers or by none,
  exactly when no id of the slave is left behind in the list of the master;
* `atomicPerPacket_iff_between`: with the slave somewhere in the list of the master, no packet is
  cut in two exactly when the slave is not inside of a packet;
* `not_forgetsTogether`, `not_atomicPerPacket`: lists for which it is not so.
-/
import FtThesis.Manager.System

namespace FtThesis

open DetLoggerServer GroupedLists ListCuts Requests

namespace CleanupManagerServer

/-! ### The requests of a clear -/

/-- The requests for the two lists. -/
def readRequests (masterMbId slaveMbId : MbId) : List ManagerRequest :=
  [.getProcessedPacketIds .detLoggerClient masterMbId true,
    .getProcessedPacketIds .slaveDetLoggerClient slaveMbId true]

/-- The deletions at the determinant logger of the slaves, by number, and at the packet logger,
by ids; none if there are no ids. -/
def slaveDeletions (slaveMbId : MbId) (count : UInt32) (ids : List PacketId) :
    List ManagerRequest :=
  if ids = [] then []
  else [.deleteFirstPackets .slaveDetLoggerClient slaveMbId count, .deletePackets ids]

/-- The deletion at the determinant logger of the masters; none if there are no ids. -/
def masterDeletions (masterMbId : MbId) (count : UInt32) (ids : List PacketId) :
    List ManagerRequest :=
  if ids = [] then [] else [.deleteFirstPackets .detLoggerClient masterMbId count]

/-- The requests of the branch in which all packets are deleted. -/
def wipeRequests (masterMbId slaveMbId : MbId) (master slave : List PacketId) :
    List ManagerRequest :=
  [.deleteFirstPackets .detLoggerClient masterMbId (.ofNat master.length),
    .deleteFirstPackets .slaveDetLoggerClient slaveMbId (.ofNat slave.length)]

section

variable {masterMbId : MbId} {slaveData : MbData} {master slave : List PacketId}

lemma requests_clearSlave (slaveMbId : MbId) (ids : List PacketId) :
    (clearSlavePackets slaveMbId ids).requests (answering master slave) =
      (slaveDeletions slaveMbId (.ofNat ids.length) ids, some (ids.length : ℤ)) := by
  cases ids with
  | nil => rfl
  | cons id ids =>
      rw [clearSlavePackets, if_pos (by simp), slaveDeletions, if_neg (List.cons_ne_nil _ _)]
      rfl

lemma requests_clearCommon (masterMbId slaveMbId : MbId) (common orphan : List PacketId) :
    (clearCommonPackets masterMbId slaveMbId common orphan).requests (answering master slave) =
      (masterDeletions masterMbId (.ofNat common.length) common ++
          slaveDeletions slaveMbId (.ofNat (common ++ orphan).length) (common ++ orphan),
        some ((common ++ orphan).length : ℤ)) := by
  rw [clearCommonPackets, masterDeletions]
  rcases eq_or_ne common [] with rfl | hne
  · rw [if_neg (by simp), if_pos rfl, requests_clearSlave]
    rfl
  · have hfirst : (deleteFirstPacketsRequest .detLoggerClient masterMbId
        (.ofNat common.length)).requests (answering master slave) =
          ([.deleteFirstPackets .detLoggerClient masterMbId (.ofNat common.length)], some ()) := rfl
    rw [if_pos (List.length_pos_of_ne_nil hne), if_neg hne, Program.requests_bind _ _ hfirst,
      requests_clearSlave]

/-- The requests of a clear, and its result. -/
lemma requests_clear (hslave : getSlaveMbData masterMbId = some slaveData) (maxBases : ℤ)
    (already : Finset PacketBase) {common : CommonPackets} {orphan : List PacketId}
    (hcommon : commonPackets master slave already = (common, orphan)) :
    (clearReplayedPackets masterMbId maxBases already).requests (answering master slave) =
      if DeletesAll master slave common.commonProcessed then
        (readRequests masterMbId slaveData.mbId ++
            wipeRequests masterMbId slaveData.mbId master slave,
          some (0, common.alreadyReplayedPackets))
      else
        (readRequests masterMbId slaveData.mbId ++
            (masterDeletions masterMbId (.ofNat common.commonProcessed.length)
                common.commonProcessed ++
              slaveDeletions slaveData.mbId (.ofNat (common.commonProcessed ++ orphan).length)
                (common.commonProcessed ++ orphan)),
          some (((common.commonProcessed ++ orphan).length : ℤ),
            common.alreadyReplayedPackets)) := by
  have hmaster : (getProcessedPacketIds .detLoggerClient masterMbId true).requests
      (answering master slave) =
        ([.getProcessedPacketIds .detLoggerClient masterMbId true], some master) := rfl
  have hread : (getProcessedPacketIds .slaveDetLoggerClient slaveData.mbId true).requests
      (answering master slave) =
        ([.getProcessedPacketIds .slaveDetLoggerClient slaveData.mbId true], some slave) := rfl
  simp only [clearReplayedPackets, hslave]
  rw [Program.requests_bind _ _ hmaster, Program.requests_bind _ _ hread, hcommon]
  split_ifs with hall
  · rfl
  · rw [Program.requests_bind _ _ (requests_clearCommon ..)]
    simp [readRequests]

end

/-! ### The packets that a regular clear names -/

/-- The first `common` ids of the master and the first `common` and `orphan` ids of the slave are
these ids, and the regular behavior names as many ids at the determinant loggers, and the same ids
at the packet logger. -/
structure SameDeletions (masterMbId slaveMbId : MbId) (maxBases : ℤ) (already : Finset PacketBase)
    (master slave common orphan : List PacketId) : Prop where
  master_first : master.take common.length = common
  slave_first : (slave.take (common.length + orphan.length)).Perm (common ++ orphan)
  requests_eq : ¬ DeletesAll master slave common → ∃ masterCount slaveCount : UInt32,
    masterCount.toNat = common.length ∧ slaveCount.toNat = common.length + orphan.length ∧
      ((clearReplayedPackets masterMbId maxBases already).requests (answering master slave)).1 =
        readRequests masterMbId slaveMbId ++ (masterDeletions masterMbId masterCount common ++
          slaveDeletions slaveMbId slaveCount (common ++ orphan))

section

variable {masterMbId : MbId} {slaveData : MbData} {master slave : List PacketId}

/-- The common ids and the orphans are those at the cut of the two lists. -/
lemma commonPackets_cut (slave : List PacketId) (already : Finset PacketBase) (hne : master ≠ [])
    (hmaster : master.length ≤ intMax) :
    ∃ masterLeft slaveLeft, Cut master slave (commonPackets master slave already).1.commonProcessed
      (commonPackets master slave already).2 masterLeft slaveLeft := by
  have hroom : (∅ : Finset UInt32).card + master.length ≤ intMax := by simpa using hmaster
  obtain ⟨common, masterLeft, slaveLeft, hcommon, hcut⟩ :=
    commonLoop_cut (c := ⟨∅, [], already⟩) slave hroom
  rw [commonPackets, if_neg (by simpa using hne), getCommonProcessedPacketIds, hcommon,
    List.nil_append]
  exact ⟨masterLeft, slaveLeft, hcut⟩

/-- With an empty list of the master, all ids of the slave are common. -/
lemma commonPackets_nil (already : Finset PacketBase)
    (hslave : 8 * slave.length ≤ maxRetValLength) :
    (commonPackets [] slave already).1.commonProcessed = slave ∧
      (commonPackets [] slave already).2 = [] := by
  rw [commonPackets, if_pos List.length_nil, getCommonProcessedPacketIds]
  exact commonLoop_self (room_of_fits hslave)

/-- **The deletions of a clear.**  The three deletions of a regular clear name the same packets:
the first ids of the master are the common ones, those of the slave are the common ones and the
orphans, and these are the ids that the packet logger gets. -/
theorem sameDeletions (hslaveData : getSlaveMbData masterMbId = some slaveData) (maxBases : ℤ)
    (already : Finset PacketBase) (hne : master ≠ []) (hmaster : master.length < 2 ^ 31)
    (hslave : slave.length < 2 ^ 31) :
    SameDeletions masterMbId slaveData.mbId maxBases already master slave
      (getCommonProcessedPacketIds master slave intMax already).1.commonProcessed
      (getCommonProcessedPacketIds master slave intMax already).2 := by
  have hcommon : commonPackets master slave already
      = getCommonProcessedPacketIds master slave intMax already := by
    rw [commonPackets, if_neg (by simpa using hne)]
  obtain ⟨masterLeft, slaveLeft, hcut⟩ := commonPackets_cut slave already hne
    (Nat.le_of_lt_succ hmaster)
  rw [← hcommon]
  generalize hresult : commonPackets master slave already = result at hcut
  obtain ⟨common, orphan⟩ := result
  replace hcut : Cut master slave common.commonProcessed orphan masterLeft slaveLeft := hcut
  have hcount : common.commonProcessed.length < 2 ^ 32 := by
    have hle := congrArg List.length hcut.left_eq
    rw [List.length_append] at hle
    omega
  have hslaveCount : (common.commonProcessed ++ orphan).length < 2 ^ 32 := by
    have hle := hcut.length_right_le
    rw [List.length_append]
    omega
  refine ⟨hcut.take_left, hcut.take_right, fun hall =>
    ⟨.ofNat common.commonProcessed.length, .ofNat (common.commonProcessed ++ orphan).length,
      ?_, ?_, ?_⟩⟩
  · rw [UInt32.toNat_ofNat', Nat.mod_eq_of_lt hcount]
  · rw [UInt32.toNat_ofNat', Nat.mod_eq_of_lt hslaveCount, List.length_append]
  · rw [requests_clear hslaveData maxBases already hresult, if_neg hall]

/-- The slave has processed a packet that the master has not come to, and then the first one. -/
theorem sameDeletions_orphan :
    SameDeletions 6 7 0 ∅ [33, 65] [97, 33]
      (getCommonProcessedPacketIds [33, 65] [97, 33] intMax ∅).1.commonProcessed
      (getCommonProcessedPacketIds [33, 65] [97, 33] intMax ∅).2 := by
  have hslaveData : getSlaveMbData 6 = some ⟨7, "10.0.0.7", 9999⟩ := rfl
  exact sameDeletions hslaveData 0 ∅ (by decide) (by decide) (by decide)

end

/-! ### What a clear leaves -/

/-- The lists of a master and of its slave. -/
structure HasLists (w : World) (masterMbId slaveMbId : MbId) (master slave : List PacketId) :
    Prop where
  master : w.detLogger.HasList masterMbId master
  slave : w.slaveDetLogger.HasList slaveMbId slave

section

variable (srt : VersionSort) (connected : Bool) {w : World} {masterMbId slaveMbId : MbId}
  {master slave ids : List PacketId} (h : HasLists w masterMbId slaveMbId master slave)
  (answer : (q : ManagerRequest) → Answer q)

include h

/-- The clear gets the two lists. -/
lemma HasLists.read (hmaster : 8 * master.length ≤ maxRetValLength)
    (hslave : 8 * slave.length ≤ maxRetValLength) :
    ∃ w', Program.Answered (answering master slave) (perform srt connected)
        (readRequests masterMbId slaveMbId) w w' ∧
      HasLists w' masterMbId slaveMbId master slave := by
  let w₁ : World := { w with masterProcessedPacketIds := master }
  let w₂ : World := { w₁ with slaveProcessedPacketIds := slave }
  have hfirst : perform srt connected (.getProcessedPacketIds .detLoggerClient masterMbId true) w
      = some (master, w₁) := congrArg (Option.map _) (h.master.getProcessed_all hmaster)
  have hsecond : perform srt connected
      (.getProcessedPacketIds .slaveDetLoggerClient slaveMbId true) w₁ = some (slave, w₂) :=
    congrArg (Option.map _) (h.slave.getProcessed_all hslave)
  exact ⟨w₂, ⟨w₁, hfirst, w₂, hsecond, rfl⟩, h.master, h.slave⟩

/-- The deletions at the determinant logger of the masters. -/
lemma HasLists.masterDeletions (hroom : ids.length < 2 ^ 32) :
    ∃ w', Program.Answered answer (perform srt connected)
        (masterDeletions masterMbId (.ofNat ids.length) ids) w w' ∧
      HasLists w' masterMbId slaveMbId (master.drop ids.length) slave := by
  rw [CleanupManagerServer.masterDeletions]
  split_ifs with hids
  · subst hids
    exact ⟨w, rfl, h⟩
  · exact ⟨_, ⟨_, rfl, rfl⟩, h.master.deleteFirst hroom, h.slave⟩

/-- The deletions at the determinant logger of the slaves and at the packet logger. -/
lemma HasLists.slaveDeletions (hfits : 8 * ids.length ≤ serverBufferSizeWithoutPrefix) :
    ∃ w', Program.Answered answer (perform srt connected)
        (slaveDeletions slaveMbId (.ofNat ids.length) ids) w w' ∧
      HasLists w' masterMbId slaveMbId master (slave.drop ids.length) := by
  rw [CleanupManagerServer.slaveDeletions]
  split_ifs with hids
  · subst hids
    exact ⟨w, rfl, h⟩
  · have hroom : ids.length < 2 ^ 32 := by
      rw [serverBufferSizeWithoutPrefix] at hfits
      omega
    exact ⟨_, ⟨_, rfl, _, if_pos hfits, rfl⟩, h.master, h.slave.deleteFirst hroom⟩

end

section

variable (srt : VersionSort) (connected : Bool) {w : World} {masterMbId : MbId}
  {slaveData : MbData} {master slave : List PacketId}
  (hslaveData : getSlaveMbData masterMbId = some slaveData) (maxBases : ℤ)
  (already : Finset PacketBase) (h : HasLists w masterMbId slaveData.mbId master slave)
  (hmaster : 8 * master.length ≤ maxRetValLength) (hslave : 8 * slave.length ≤ maxRetValLength)

include hslaveData h hmaster hslave

/-- A clear leaves nothing of the lists when it deletes all packets, and otherwise what is behind
the common ids and the orphans. -/
lemma clear_lists {common : CommonPackets} {orphan : List PacketId}
    (hcommon : commonPackets master slave already = (common, orphan))
    (hle : (common.commonProcessed ++ orphan).length ≤ slave.length) :
    ∃ r w', (clearReplayedPackets masterMbId maxBases already).run (perform srt connected) w
        = some (r, w') ∧
      if DeletesAll master slave common.commonProcessed then
        HasLists w' masterMbId slaveData.mbId [] []
      else HasLists w' masterMbId slaveData.mbId (master.drop common.commonProcessed.length)
        (slave.drop (common.commonProcessed ++ orphan).length) := by
  have hrequests := requests_clear hslaveData maxBases already hcommon
  obtain ⟨w₁, hread, h₁⟩ := h.read srt connected hmaster hslave
  rw [maxRetValLength] at hmaster hslave
  split_ifs at hrequests ⊢ with hall
  · have hwiped : ∃ w', Program.Answered (answering master slave) (perform srt connected)
        (wipeRequests masterMbId slaveData.mbId master slave) w₁ w' ∧
        HasLists w' masterMbId slaveData.mbId [] [] :=
      ⟨_, ⟨_, rfl, _, rfl, rfl⟩, h₁.master.deleteAll (by omega), h₁.slave.deleteAll (by omega)⟩
    obtain ⟨w', hwipe, h'⟩ := hwiped
    exact ⟨_, w', Program.run_of_requests hrequests (hread.append hwipe), h'⟩
  · have hcount : common.commonProcessed.length < 2 ^ 32 := by
      rw [List.length_append] at hle
      omega
    have hfits : 8 * (common.commonProcessed ++ orphan).length
        ≤ serverBufferSizeWithoutPrefix := by
      rw [serverBufferSizeWithoutPrefix]
      omega
    obtain ⟨w₂, hfirst, h₂⟩ := h₁.masterDeletions srt connected (answering master slave) hcount
    obtain ⟨w', hsecond, h'⟩ := h₂.slaveDeletions srt connected (answering master slave) hfits
    exact ⟨_, w', Program.run_of_requests hrequests (hread.append (hfirst.append hsecond)), h'⟩

/-- What a clear leaves of the two lists is what is behind their cut; or it leaves nothing, and
the slave has a list that has nothing in common with that of the master. -/
lemma clear_of_cut {common skipped masterLeft slaveLeft : List PacketId}
    (hcut : Cut master slave common skipped masterLeft slaveLeft) :
    ∃ r w', (clearReplayedPackets masterMbId maxBases already).run (perform srt connected) w
        = some (r, w') ∧
      (HasLists w' masterMbId slaveData.mbId masterLeft slaveLeft ∨
        common = [] ∧ slave ≠ [] ∧ HasLists w' masterMbId slaveData.mbId [] []) := by
  rcases hresult : commonPackets master slave already with ⟨result, orphan⟩
  rcases eq_or_ne master [] with rfl | hne
  · obtain ⟨hcommon, horphan⟩ := commonPackets_nil already hslave
    rw [hresult] at hcommon horphan
    dsimp only at hcommon horphan
    subst horphan
    obtain ⟨r, w', hrun, h'⟩ := clear_lists srt connected hslaveData maxBases already h hmaster
      hslave hresult (by rw [hcommon, List.append_nil])
    have hall : ¬ DeletesAll [] slave result.commonProcessed := by
      rintro ⟨hzero, hlt⟩
      rw [hcommon] at hzero
      simp [hzero] at hlt
    rw [if_neg hall, hcommon, List.append_nil, List.drop_length, List.drop_nil] at h'
    cases hcut
    rcases eq_or_ne slave [] with rfl | hne
    · exact ⟨r, w', hrun, .inl h'⟩
    · exact ⟨r, w', hrun, .inr ⟨rfl, hne, h'⟩⟩
  · have hroom : master.length ≤ intMax := by
      rw [maxRetValLength] at hmaster
      rw [intMax]
      omega
    obtain ⟨_, _, hcut'⟩ := commonPackets_cut slave already hne hroom
    rw [hresult] at hcut'
    dsimp only at hcut'
    obtain ⟨hcommon, rfl, -, -⟩ := hcut'.unique hcut
    rw [hcommon] at hcut'
    obtain ⟨r, w', hrun, h'⟩ := clear_lists srt connected hslaveData maxBases already h hmaster
      hslave hresult (by rw [hcommon, List.length_append]; exact hcut.length_right_le)
    rw [hcommon, List.length_append, hcut.drop_left, hcut.drop_right] at h'
    split_ifs at h' with hall
    · have hslaveNe : slave ≠ [] := by
        rintro rfl
        exact absurd hall.2 (by simp)
      exact ⟨r, w', hrun, .inr ⟨List.length_eq_zero_iff.mp hall.1, hslaveNe, h'⟩⟩
    · exact ⟨r, w', hrun, .inl h'⟩

end

/-! ### Whether both loggers forget an id -/

/-- Of the ids that were in both lists, the two loggers have the same ones. -/
def ForgetsTogether (w : World) (masterMbId slaveMbId : MbId) (master slave : List PacketId) :
    Prop :=
  ∀ id ∈ master, id ∈ slave →
    (id ∈ w.detLogger.processed masterMbId ↔ id ∈ w.slaveDetLogger.processed slaveMbId)

/-- Behind the cut of the two lists, each common id is in both of them or in none, and a skipped id
of the slave is not in the list of the master, unless the slave has it again. -/
def NoneLeftBehind (master slave : List PacketId) : Prop :=
  ∀ {common skipped masterLeft slaveLeft : List PacketId},
    Cut master slave common skipped masterLeft slaveLeft →
    (∀ id ∈ common, id ∈ masterLeft ↔ id ∈ slaveLeft) ∧
      ∀ id ∈ skipped, id ∈ masterLeft → id ∈ slaveLeft

section

variable {master slave common skipped masterLeft slaveLeft : List PacketId}

lemma noneLeftBehind_iff_of_cut (hcut : Cut master slave common skipped masterLeft slaveLeft) :
    NoneLeftBehind master slave ↔ (∀ id ∈ common, id ∈ masterLeft ↔ id ∈ slaveLeft) ∧
      ∀ id ∈ skipped, id ∈ masterLeft → id ∈ slaveLeft := by
  constructor
  · exact fun h => h hcut
  · intro h common' skipped' masterLeft' slaveLeft' hcut'
    obtain ⟨rfl, rfl, rfl, rfl⟩ := hcut.unique hcut'
    exact h

/-- In lists without repetitions no common id comes again, so that none is left behind exactly when
no skipped id of the slave is in the list of the master. -/
theorem noneLeftBehind_iff_of_nodup
    (hcut : Cut master slave common skipped masterLeft slaveLeft) (hmaster : master.Nodup)
    (hslave : slave.Nodup) : NoneLeftBehind master slave ↔ ∀ id ∈ skipped, id ∉ master := by
  obtain ⟨first, hright, hperm⟩ := hcut.right_eq
  rw [hcut.left_eq] at hmaster
  rw [hright] at hslave
  have hfirst := List.disjoint_of_nodup_append hslave
  have hcommon := List.disjoint_of_nodup_append hmaster
  have hapart := List.disjoint_of_nodup_append (hperm.nodup_iff.mp hslave.of_append_left)
  rw [noneLeftBehind_iff_of_cut hcut, hcut.left_eq]
  constructor
  · rintro ⟨-, hskipped⟩ id hid hmem
    rcases List.mem_append.mp hmem with hmem | hmem
    · exact hapart hmem hid
    · exact hfirst (hperm.symm.subset (List.mem_append_right _ hid)) (hskipped id hid hmem)
  · intro h
    refine ⟨fun id hid => ⟨fun hmem => absurd hmem (hcommon hid), fun hmem => ?_⟩, ?_⟩
    · exact absurd hmem (hfirst (hperm.symm.subset (List.mem_append_left _ hid)))
    · exact fun id hid hmem => absurd (List.mem_append_right _ hmem) (h id hid)

/-- What is behind the cut is forgotten together exactly when no id is left behind. -/
lemma forgetsTogether_iff_of_cut {w : World} {masterMbId slaveMbId : MbId}
    (hcut : Cut master slave common skipped masterLeft slaveLeft)
    (h : HasLists w masterMbId slaveMbId masterLeft slaveLeft) :
    ForgetsTogether w masterMbId slaveMbId master slave ↔ NoneLeftBehind master slave := by
  obtain ⟨first, hright, hperm⟩ := hcut.right_eq
  have hmemSlave (id : PacketId) :
      id ∈ slave ↔ (id ∈ common ∨ id ∈ skipped) ∨ id ∈ slaveLeft := by
    rw [hright, List.mem_append, hperm.mem_iff, List.mem_append]
  have hmemMaster (id : PacketId) : id ∈ master ↔ id ∈ common ∨ id ∈ masterLeft := by
    rw [hcut.left_eq, List.mem_append]
  rw [noneLeftBehind_iff_of_cut hcut, ForgetsTogether, h.master.1, h.slave.1]
  constructor
  · intro hboth
    refine ⟨fun id hid => ?_, fun id hid hmem => ?_⟩
    · exact hboth id ((hmemMaster id).mpr (.inl hid)) ((hmemSlave id).mpr (.inl (.inl hid)))
    · exact (hboth id ((hmemMaster id).mpr (.inr hmem))
        ((hmemSlave id).mpr (.inl (.inr hid)))).mp hmem
  · rintro ⟨hcommon, hskipped⟩ id hid hslave
    rcases (hmemMaster id).mp hid with hfirst | hleft
    · exact hcommon id hfirst
    · refine ⟨fun _ => ?_, fun _ => hleft⟩
      rcases (hmemSlave id).mp hslave with (hfirst | hskip) | hslaveLeft
      · exact (hcommon id hfirst).mp hleft
      · exact hskipped id hskip hleft
      · exact hslaveLeft

end

section

variable (srt : VersionSort) (connected : Bool) {w : World} {masterMbId : MbId}
  {slaveData : MbData} {master slave : List PacketId}
  (hslaveData : getSlaveMbData masterMbId = some slaveData) (maxBases : ℤ)
  (already : Finset PacketBase) (h : HasLists w masterMbId slaveData.mbId master slave)
  (hmaster : 8 * master.length ≤ maxRetValLength) (hslave : 8 * slave.length ≤ maxRetValLength)

include hslaveData h hmaster hslave

/-- **Forgetting on both sides.**  After a clear, each id that was in both lists is in both logs or
in none exactly when no id of the slave is left behind in the list of the master. -/
theorem forgetsTogether_iff :
    (∃ r w', (clearReplayedPackets masterMbId maxBases already).run (perform srt connected) w
        = some (r, w') ∧ ForgetsTogether w' masterMbId slaveData.mbId master slave) ↔
      NoneLeftBehind master slave := by
  obtain ⟨common, skipped, masterLeft, slaveLeft, hcut⟩ := Cut.exists_cut master slave
  obtain ⟨r, w', hrun, hleft⟩ := clear_of_cut srt connected hslaveData maxBases already h hmaster
    hslave hcut
  rw [Program.exists_run_iff _ hrun]
  rcases hleft with hleft | ⟨rfl, -, hleft⟩
  · exact forgetsTogether_iff_of_cut hcut hleft
  · obtain rfl := hcut.skipped_eq_nil rfl
    rw [ForgetsTogether, hleft.master.1, hleft.slave.1, noneLeftBehind_iff_of_cut hcut]
    simp

end

/-- The middlebox 6 and its slave, the middlebox 7, have processed some packets. -/
def withLists (master slave : List PacketId) : World :=
  { World.new with
    detLogger := (master.map (PALSManager.new 6)).foldl DetLoggerServer.processStoreRequest .new
    slaveDetLogger :=
      (slave.map (PALSManager.new 7)).foldl DetLoggerServer.processStoreRequest .new }

/-- The slave has processed a packet that the master has not come to, and then the first one of the
master. -/
theorem forgetsTogether_orphan :
    ∃ r w', (clearReplayedPackets 6 0 ∅).run (perform .stable true) (withLists [33, 65] [97, 33])
        = some (r, w') ∧ ForgetsTogether w' 6 7 [33, 65] [97, 33] := by
  have hslaveData : getSlaveMbData 6 = some ⟨7, "10.0.0.7", 9999⟩ := rfl
  have hlists : HasLists (withLists [33, 65] [97, 33]) 6 7 [33, 65] [97, 33] :=
    ⟨⟨rfl, rfl⟩, ⟨rfl, rfl⟩⟩
  have hcut : Cut [33, 65] [97, 33] [33] [97] [65] ([] : List PacketId) :=
    .skip 33 [65] [97] [] rfl (by decide) (by decide)
  exact (forgetsTogether_iff .stable true hslaveData 0 ∅ hlists (by decide) (by decide)).mpr
    ((noneLeftBehind_iff_of_nodup hcut (by decide) (by decide)).mpr
      (List.forall_mem_singleton.mpr (by decide)))

/-- The slave has processed the second packet of the master before the first one, and forgets it,
while the master still lists it. -/
theorem not_forgetsTogether :
    ¬ ∀ (srt : VersionSort) (connected : Bool) (w : World) (masterMbId : MbId) (slaveData : MbData)
      (maxBases : ℤ) (already : Finset PacketBase) (master slave : List PacketId),
      getSlaveMbData masterMbId = some slaveData →
      HasLists w masterMbId slaveData.mbId master slave →
      8 * master.length ≤ maxRetValLength → 8 * slave.length ≤ maxRetValLength →
      ∃ r w', (clearReplayedPackets masterMbId maxBases already).run (perform srt connected) w
        = some (r, w') ∧ ForgetsTogether w' masterMbId slaveData.mbId master slave := by
  intro h
  have hslaveData : getSlaveMbData 6 = some ⟨7, "10.0.0.7", 9999⟩ := rfl
  have hlists : HasLists (withLists [33, 65] [65, 33]) 6 7 [33, 65] [65, 33] :=
    ⟨⟨rfl, rfl⟩, ⟨rfl, rfl⟩⟩
  have hcut : Cut [33, 65] [65, 33] [33] [65] [65] ([] : List PacketId) :=
    .skip 33 [65] [65] [] rfl (by decide) (by decide)
  obtain ⟨r, w', hrun, hleft⟩ := clear_of_cut .stable true hslaveData 0 ∅ hlists (by decide)
    (by decide) hcut
  have htogether := (Program.exists_run_iff _ hrun).mp
    (h .stable true _ 6 _ 0 ∅ _ _ hslaveData hlists (by decide) (by decide))
  have hlists' := hleft.resolve_right fun hwiped => List.cons_ne_nil _ _ hwiped.1
  have hwrong := (htogether 65 (by decide) (by decide)).mp (hlists'.master.1 ▸ by decide)
  rw [hlists'.slave.1] at hwrong
  exact List.not_mem_nil hwrong

/-! ### Whether a clear cuts a packet in two -/

/-- The versions of each packet are one after another, and increase. -/
structure PacketByPacket (ids : List PacketId) : Prop where
  contiguous : Grouped base ids
  increasing : ids.Pairwise fun a b => base a = base b → version a < version b

/-- Each packet is left with all the ids that it had, or with none. -/
def KeepsPackets (ids left : List PacketId) : Prop :=
  ∀ b, (∀ id ∈ ids, base id = b → id ∈ left) ∨ ∀ id ∈ ids, base id = b → id ∉ left

/-- After a clear, each packet of `master` is in the log with all its ids or with none; and while
the stores `pms` are logged, the first version that is reported for a packet is the first one that
was logged. -/
structure AtomicPerPacket (w : World) (masterMbId : MbId) (master : List PacketId)
    (pms : List PALSManager) : Prop where
  keepsPackets : KeepsPackets master (w.detLogger.processed masterMbId)
  reports : ∀ stored spd, stored <+: pms →
    (stored.foldl processStoreRequest w.detLogger).getServerProgressData masterMbId = some spd →
    ∀ id ∈ getProcessedPacketsForFirstVersion spd,
      IsFirstLogged (master ++ storedIds masterMbId pms) id

/-- The id that is logged next after those of the slave, if there is one, is of another packet than
the last one of the slave. -/
def BetweenPackets (slave log : List PacketId) : Prop :=
  ∀ last ∈ slave.getLast?, ∀ next ∈ (log.drop slave.length).head?, base next ≠ base last

section

variable {slave left new : List PacketId}

lemma betweenPackets_append_iff :
    BetweenPackets slave (slave ++ left) ↔
      ∀ last ∈ slave.getLast?, ∀ next ∈ left.head?, base next ≠ base last := by
  rw [BetweenPackets, List.drop_left]

/-- Cut between two packets, each packet is kept or not. -/
lemma keepsPackets_of_between (hordered : PacketByPacket (slave ++ (left ++ new)))
    (hbetween : BetweenPackets slave (slave ++ (left ++ new))) :
    KeepsPackets (slave ++ left) left := by
  intro b
  by_cases hb : ∃ id ∈ slave, base id = b
  · obtain ⟨id, hid, rfl⟩ := hb
    refine .inr fun id' _ hbase hmem => ?_
    exact hordered.contiguous.keys_ne (betweenPackets_append_iff.mp hbetween) hid
      (List.mem_append_left _ hmem) hbase.symm
  · refine .inl fun id' hid' hbase => (List.mem_append.mp hid').resolve_left fun hslave => ?_
    exact hb ⟨id', hslave, hbase⟩

/-- Cut between two packets, the first versions behind the cut are the first ones of all. -/
lemma isFirstLogged_of_between {ids : List PacketId} {id : PacketId}
    (hordered : PacketByPacket (slave ++ left)) (hbetween : BetweenPackets slave (slave ++ left))
    (hbegin : ids <+: left) (hid : IsFirstLogged ids id) : IsFirstLogged (slave ++ left) id := by
  obtain ⟨before, after, rfl, hbefore⟩ := hid
  obtain ⟨rest, rfl⟩ := hbegin
  refine ⟨slave ++ before, after ++ rest, by simp, fun id' hid' => ?_⟩
  rcases List.mem_append.mp hid' with hslave | hmem
  · exact hordered.contiguous.keys_ne (betweenPackets_append_iff.mp hbetween) hslave (by simp)
  · exact hbefore id' hmem

/-- Inside of a packet, the next id is not the first one of its packet. -/
lemma not_isFirstLogged {next : PacketId} {last : PacketId}
    (hordered : PacketByPacket (slave ++ next :: left)) (hlast : last ∈ slave)
    (hbase : base next = base last) : ¬ IsFirstLogged (slave ++ next :: left) next := by
  rintro ⟨before, after, heq, hbefore⟩
  have hlt : version last < version next := (List.pairwise_append.mp hordered.increasing).2.2
    last hlast next List.mem_cons_self hbase.symm
  have hmem : last ∈ before ++ next :: after := heq ▸ List.mem_append_left _ hlast
  have hincreasing := hordered.increasing
  rw [heq] at hincreasing
  rcases List.mem_append.mp hmem with hmem | hmem
  · exact hbefore last hmem hbase.symm
  · rcases List.mem_cons.mp hmem with rfl | hmem
    · exact lt_irrefl _ hlt
    · have hcut := (List.pairwise_append.mp hincreasing).2.1
      have hgt := (List.pairwise_cons.mp hcut).1 last hmem hbase
      exact lt_asymm hlt hgt

/-- The first store of a middlebox among others. -/
lemma exists_first_store {mb : MbId} {pms : List PALSManager} {id : PacketId}
    {ids : List PacketId} (h : storedIds mb pms = id :: ids) :
    ∃ stored, stored <+: pms ∧ storedIds mb stored = [id] := by
  induction pms with
  | nil => exact absurd h (List.cons_ne_nil _ _).symm
  | cons pm pms ih =>
      by_cases hmb : pm.middleboxId = mb
      · rw [storedIds_cons_of_eq hmb] at h
        refine ⟨[pm], List.prefix_append [pm] pms, ?_⟩
        rw [storedIds_cons_of_eq hmb, (List.cons.inj h).1]
        rfl
      · rw [storedIds_cons_of_ne hmb] at h
        obtain ⟨stored, hbegin, hstored⟩ := ih h
        refine ⟨pm :: stored, List.prefix_cons_inj pm |>.mpr hbegin, ?_⟩
        rw [storedIds_cons_of_ne hmb, hstored]

/-- The first id of a list is reported. -/
lemma head_mem_firstVersions {s : DetLoggerServer} {mb : MbId} {id : PacketId}
    {ids : List PacketId} (h : s.HasList mb (id :: ids)) :
    ∃ spd, s.getServerProgressData mb = some spd ∧
      id ∈ getProcessedPacketsForFirstVersion spd := by
  obtain ⟨hids, hindex⟩ := h
  rw [processed] at hids
  rw [processedIndex] at hindex
  rw [getServerProgressData]
  cases hp : s.progressData mb with
  | none => simp [hp, ServerProgressData.new] at hids
  | some spd =>
      simp only [hp, Option.getD_some] at hids hindex
      refine ⟨spd, rfl, ?_⟩
      rw [getProcessedPacketsForFirstVersion, hids, hindex, List.take_length, firstVersions,
        if_neg List.not_mem_nil]
      exact List.mem_cons_self

/-- At some time the next id of a middlebox is reported. -/
lemma exists_report {s : DetLoggerServer} {mb : MbId} {left : List PacketId}
    {pms : List PALSManager} {next : PacketId} (h : s.HasList mb left)
    (hroom : left.length < 2 ^ 32) (hnext : next ∈ (left ++ storedIds mb pms).head?) :
    ∃ stored spd, stored <+: pms ∧
      (stored.foldl processStoreRequest s).getServerProgressData mb = some spd ∧
      next ∈ getProcessedPacketsForFirstVersion spd := by
  cases left with
  | nil =>
      obtain ⟨ids, hids⟩ : ∃ ids, storedIds mb pms = next :: ids := List.head?_eq_some_iff.mp hnext
      obtain ⟨stored, hbegin, hstored⟩ := exists_first_store hids
      have hlist := h.stores stored (by simp [hstored])
      rw [hstored, List.nil_append] at hlist
      obtain ⟨spd, hspd, hmem⟩ := head_mem_firstVersions hlist
      exact ⟨stored, spd, hbegin, hspd, hmem⟩
  | cons id left =>
      obtain rfl : id = next := Option.some.inj hnext
      obtain ⟨spd, hspd, hmem⟩ := head_mem_firstVersions h
      exact ⟨[], spd, List.nil_prefix, hspd, hmem⟩

/-- What is reported comes from a beginning of the list. -/
lemma exists_prefix_of_report {s : DetLoggerServer} {mb : MbId} {spd : ServerProgressData}
    (h : s.getServerProgressData mb = some spd) :
    ∃ ids, ids <+: s.processed mb ∧
      getProcessedPacketsForFirstVersion spd = firstVersions [] ids := by
  refine ⟨spd.packetIdsVector.take spd.index.toNat, ?_, rfl⟩
  rw [getServerProgressData] at h
  rw [processed, h]
  exact List.take_prefix ..

end

section

variable {w : World} {masterMbId slaveMbId : MbId} {slave left : List PacketId}
  {pms : List PALSManager}

/-- When the log of the master is what is behind the list of the slave, the packets are not cut in
two exactly when the slave is between two of them. -/
lemma atomicPerPacket_iff (hlists : HasLists w masterMbId slaveMbId left [])
    (hroom : left.length < 2 ^ 32)
    (hordered : PacketByPacket (slave ++ left ++ storedIds masterMbId pms)) :
    AtomicPerPacket w masterMbId (slave ++ left) pms ↔
      BetweenPackets slave (slave ++ left ++ storedIds masterMbId pms) := by
  rw [List.append_assoc] at hordered ⊢
  constructor
  · intro h last hlast next hnext hbase
    rw [List.drop_left] at hnext
    obtain ⟨stored, spd, hbegin, hspd, hmem⟩ := exists_report hlists.master hroom hnext
    obtain ⟨new, hnew⟩ := List.head?_eq_some_iff.mp hnext
    have hfirst := h.reports stored spd hbegin hspd next hmem
    rw [List.append_assoc] at hfirst
    rw [hnew] at hfirst hordered
    exact not_isFirstLogged hordered (List.mem_of_getLast? hlast) hbase hfirst
  · intro hbetween
    refine ⟨?_, fun stored spd hstored hspd id hid => ?_⟩
    · rw [hlists.master.1]
      exact keepsPackets_of_between hordered hbetween
    · obtain ⟨ids, hbegin, hreport⟩ := exists_prefix_of_report hspd
      rw [hreport] at hid
      rw [processed_foldl_store, hlists.master.1] at hbegin
      obtain ⟨later, rfl⟩ := hstored
      rw [List.append_assoc]
      refine isFirstLogged_of_between hordered hbetween (hbegin.trans ?_)
        (isFirstLogged_of_mem hid)
      rw [storedIds_append, ← List.append_assoc]
      exact List.prefix_append ..

end

section

variable (srt : VersionSort) (connected : Bool) {w : World} {masterMbId : MbId}
  {slaveData : MbData} {master slave : List PacketId}

/-- **Atomic per packet.**  When the slave has processed a beginning of the list of the master, a
clear leaves each packet whole or not at all, and the first versions that are reported later are
the first ones logged, exactly when the slave is between two packets. -/
theorem atomicPerPacket_iff_between (hslaveData : getSlaveMbData masterMbId = some slaveData)
    (maxBases : ℤ) (already : Finset PacketBase)
    (h : HasLists w masterMbId slaveData.mbId master slave)
    (hmaster : 8 * master.length ≤ maxRetValLength) (hslave : slave <+: master)
    (pms : List PALSManager) (hordered : PacketByPacket (master ++ storedIds masterMbId pms)) :
    (∃ r w', (clearReplayedPackets masterMbId maxBases already).run (perform srt connected) w
        = some (r, w') ∧ AtomicPerPacket w' masterMbId master pms) ↔
      BetweenPackets slave (master ++ storedIds masterMbId pms) := by
  have hslaveFits : 8 * slave.length ≤ maxRetValLength := by
    have hle := hslave.length_le
    omega
  obtain ⟨left, rfl⟩ := hslave
  obtain ⟨r, w', hrun, hleft⟩ := clear_of_cut srt connected hslaveData maxBases already h hmaster
    hslaveFits (Cut.of_prefix slave left)
  have hlists : HasLists w' masterMbId slaveData.mbId left [] :=
    hleft.resolve_right fun hwiped => hwiped.2.1 hwiped.1
  have hroom : left.length < 2 ^ 32 := by
    rw [maxRetValLength, List.length_append] at hmaster
    omega
  rw [Program.exists_run_iff _ hrun]
  exact atomicPerPacket_iff hlists hroom hordered

/-- There are no three ids in a list of two. -/
lemma packetByPacket_pair {id id' : PacketId} (h : base id = base id' → version id < version id') :
    PacketByPacket [id, id'] := by
  refine ⟨fun a b c hsub => absurd hsub.length_le (by simp), ?_⟩
  simpa using h

end

/-- The slave has processed the first one of two packets. -/
theorem atomicPerPacket_first :
    ∃ r w', (clearReplayedPackets 6 0 ∅).run (perform .stable true) (withLists [33, 65] [33])
        = some (r, w') ∧ AtomicPerPacket w' 6 [33, 65] [] := by
  have hslaveData : getSlaveMbData 6 = some ⟨7, "10.0.0.7", 9999⟩ := rfl
  have hlists : HasLists (withLists [33, 65] [33]) 6 7 [33, 65] [33] := ⟨⟨rfl, rfl⟩, ⟨rfl, rfl⟩⟩
  have hordered : PacketByPacket ([33, 65] ++ storedIds 6 []) :=
    packetByPacket_pair (by decide)
  refine (atomicPerPacket_iff_between .stable true hslaveData 0 ∅ hlists (by decide) (by decide) []
    hordered).mpr ?_
  rintro last ⟨rfl⟩ next ⟨rfl⟩
  decide

/-- The slave has processed the first one of two versions of a packet, of which the second one is
left. -/
theorem not_atomicPerPacket :
    ¬ ∀ (srt : VersionSort) (connected : Bool) (w : World) (masterMbId : MbId) (slaveData : MbData)
      (maxBases : ℤ) (already : Finset PacketBase) (master slave : List PacketId)
      (pms : List PALSManager),
      getSlaveMbData masterMbId = some slaveData →
      HasLists w masterMbId slaveData.mbId master slave →
      8 * master.length ≤ maxRetValLength → slave <+: master →
      PacketByPacket (master ++ storedIds masterMbId pms) →
      ∃ r w', (clearReplayedPackets masterMbId maxBases already).run (perform srt connected) w
        = some (r, w') ∧ AtomicPerPacket w' masterMbId master pms := by
  intro h
  have hslaveData : getSlaveMbData 6 = some ⟨7, "10.0.0.7", 9999⟩ := rfl
  have hlists : HasLists (withLists [33, 34] [33]) 6 7 [33, 34] [33] := ⟨⟨rfl, rfl⟩, ⟨rfl, rfl⟩⟩
  have hordered : PacketByPacket ([33, 34] ++ storedIds 6 []) :=
    packetByPacket_pair (by decide)
  obtain ⟨r, w', hrun, hleft⟩ := clear_of_cut .stable true hslaveData 0 ∅ hlists (by decide)
    (by decide) (Cut.of_prefix [33] [34])
  have hatomic := (Program.exists_run_iff _ hrun).mp
    (h .stable true _ 6 _ 0 ∅ _ _ [] hslaveData hlists (by decide) (by decide) hordered)
  have hlists' := hleft.resolve_right fun hwiped => List.cons_ne_nil _ _ hwiped.1
  have hkeeps := hatomic.keepsPackets 1
  rw [hlists'.master.1] at hkeeps
  rcases hkeeps with hall | hnone
  · exact absurd (hall 33 (by decide) (by decide)) (by decide)
  · exact hnone 34 (by decide) (by decide) (by decide)

end CleanupManagerServer

end FtThesis
