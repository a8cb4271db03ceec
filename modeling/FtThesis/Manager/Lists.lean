/-
How the cleanup manager compares the list of the master with the list of the slave.

* `getUnprocessedPacketIds`: the ids that are to be replayed; undefined where the code
  moves an iterator behind the end of its vector;
* `addPacket`, `setSlaveOrphanPacketIds`, `getCommonProcessedPacketIds`: the ids that
  are to be deleted;
* `getUnprocessedPacketIds_eq`: with no packets replayed before, and one id for each
  base, these are the ids that the slave does not have at the same position, and the set
  has their bases;
* `commonLoop_cut`: the common ids and the orphans are those at the cut of the two lists;
* `commonLoop_eq_take`, `commonLoop_self`: the common ids are the first ones of the
  master, and the slave has them; of two equal lists they are all ids.
-/
import FtThesis.DetLogger.Server
import FtThesis.Library.Cuts
import FtThesis.Library.Lists

namespace FtThesis

open AlignedLists ListCuts

namespace CleanupManagerServer

/-! ### The ids to be replayed -/

/-- The first loop of `getUnprocessedPacketIds`: what it leaves of the rest of the master
vector, and the set of the replayed bases.  An id with a base in the set is erased; then
the iterator, which already is at the next id, moves on. -/
def unprocessedLoop : List PacketId → List PacketId → Finset PacketBase →
    Option (List PacketId × Finset PacketBase)
  | [], _, already => some ([], already)
  | m :: master, [], already => some (m :: master, already)
  | m :: master, s :: slave, already =>
      if m = s then unprocessedLoop master slave (already.erase (base m))
      else if base m ∉ already then
        (unprocessedLoop master slave (insert (base m) already)).map fun r => (m :: r.1, r.2)
      else
        match master with
        | [] => none
        | m' :: master =>
            (unprocessedLoop master slave already).map fun r => (m' :: r.1, r.2)

/-- `getUnprocessedPacketIds`: the ids, and the set of the replayed bases. -/
def getUnprocessedPacketIds (master slave : List PacketId) (already : Finset PacketBase) :
    Option (List PacketId × Finset PacketBase) :=
  (unprocessedLoop master slave already).map fun r =>
    (r.1, r.1.foldl (fun already id => insert (base id) already) r.2)

/-- The bases of some ids. -/
def bases (ids : List PacketId) : Finset PacketBase := (ids.map base).toFinset

lemma foldl_insert_base (ids : List PacketId) (already : Finset PacketBase) :
    ids.foldl (fun already id => insert (base id) already) already = already ∪ bases ids := by
  induction ids generalizing already with
  | nil => simp [bases]
  | cons id ids ih =>
      rw [List.foldl_cons, ih]
      simp [bases, Finset.union_insert, Finset.insert_union]

/-- If the ids have different bases, none of which is in the set, the loop leaves the ids
that the slave does not have at the same position, and adds none but their bases. -/
lemma unprocessedLoop_eq {master : List PacketId} (slave : List PacketId)
    (already : Finset PacketBase) (hnodup : (master.map base).Nodup)
    (hnew : ∀ m ∈ master, base m ∉ already) :
    ∃ already' ⊆ already ∪ bases (unmatched master slave),
      unprocessedLoop master slave already = some (unmatched master slave, already') := by
  induction master generalizing slave already with
  | nil => exact ⟨already, Finset.subset_union_left, rfl⟩
  | cons m master ih =>
      rw [List.map_cons, List.nodup_cons] at hnodup
      obtain ⟨hm, hmaster⟩ := List.forall_mem_cons.mp hnew
      rcases slave with _ | ⟨s, slave⟩
      · exact ⟨already, Finset.subset_union_left, rfl⟩
      rcases eq_or_ne m s with rfl | hne
      · obtain ⟨already', hsub, h⟩ := ih slave (already.erase (base m)) hnodup.2
          fun m' hm' hmem => hmaster m' hm' (Finset.mem_of_mem_erase hmem)
        rw [unmatched_cons_self, unprocessedLoop.eq_def]
        refine ⟨already', hsub.trans ?_, by simp only [if_pos, h]⟩
        exact Finset.union_subset_union_left (Finset.erase_subset _ _)
      · obtain ⟨already', hsub, h⟩ := ih slave (insert (base m) already) hnodup.2 (by
          intro m' hm' hmem
          rcases Finset.mem_insert.mp hmem with heq | hmem
          · exact hnodup.1 (heq ▸ List.mem_map_of_mem hm')
          · exact hmaster m' hm' hmem)
        rw [unmatched_cons_of_ne hne, unprocessedLoop.eq_def]
        refine ⟨already', hsub.trans ?_, by simp only [if_neg hne, if_pos hm, h, Option.map_some]⟩
        simp [bases, Finset.insert_union, Finset.union_insert]

/-- The ids to be replayed, when no packets have been replayed before, and their bases. -/
theorem getUnprocessedPacketIds_eq {master : List PacketId} (slave : List PacketId)
    (hnodup : (master.map base).Nodup) :
    getUnprocessedPacketIds master slave ∅
      = some (unmatched master slave, bases (unmatched master slave)) := by
  obtain ⟨already, hsub, h⟩ := unprocessedLoop_eq slave ∅ hnodup fun m _ => Finset.notMem_empty _
  rw [Finset.empty_union] at hsub
  rw [getUnprocessedPacketIds, h, Option.map_some, foldl_insert_base,
    Finset.union_eq_right.mpr hsub]

/-! ### The ids to be deleted -/

/-- `numeric_limits<int>::max()`. -/
def intMax : ℕ := 2147483647

/-- What `addPacket` works on: the bases to be deleted, which are kept as 32-bit numbers,
the common ids, and the replayed bases. -/
structure CommonPackets where
  packetBasesToDelete : Finset UInt32
  commonProcessed : List PacketId
  alreadyReplayedPackets : Finset PacketBase

/-- `addPacket`. -/
def addPacket (maxPacketsBasesToDelete : ℕ) (packetToAdd : PacketId) (c : CommonPackets) :
    Bool × CommonPackets :=
  let packetBase := base packetToAdd
  let packetBasesToDelete :=
    if c.packetBasesToDelete.card < maxPacketsBasesToDelete then
      insert packetBase.toUInt32 c.packetBasesToDelete
    else c.packetBasesToDelete
  if packetBase.toUInt32 ∈ packetBasesToDelete then
    (true, ⟨packetBasesToDelete, c.commonProcessed ++ [packetToAdd],
      c.alreadyReplayedPackets.erase packetBase⟩)
  else (false, { c with packetBasesToDelete })

/-- `setSlaveOrphanPacketIds`: the ids of the slave before the given one, if it is
there. -/
def setSlaveOrphanPacketIds (packetId : PacketId) (slave : List PacketId) : List PacketId :=
  if packetId ∈ slave then slave.takeWhile (· ≠ packetId) else []

/-- The loop of `getCommonProcessedPacketIds`: what `addPacket` leaves, and the orphan ids
of the slave. -/
def commonLoop (maxPacketsBasesToDelete : ℕ) :
    List PacketId → List PacketId → CommonPackets → CommonPackets × List PacketId
  | [], _, c => (c, [])
  | _ :: _, [], c => (c, [])
  | m :: master, s :: slave, c =>
      if m = s then
        match addPacket maxPacketsBasesToDelete s c with
        | (true, c) => commonLoop maxPacketsBasesToDelete master slave c
        | (false, c) => commonLoop maxPacketsBasesToDelete master (s :: slave) c
      else
        let orphanSlavePackets := setSlaveOrphanPacketIds m (s :: slave)
        if 0 < orphanSlavePackets.length then
          ((addPacket maxPacketsBasesToDelete m c).2, orphanSlavePackets)
        else (c, orphanSlavePackets)

/-- `getCommonProcessedPacketIds`. -/
def getCommonProcessedPacketIds (master slave : List PacketId) (maxPacketsBasesToDelete : ℕ)
    (already : Finset PacketBase) : CommonPackets × List PacketId :=
  commonLoop maxPacketsBasesToDelete master slave ⟨∅, [], already⟩

section

variable {maxBases : ℕ} {c : CommonPackets} {id : PacketId}

/-- As long as there is room for a base, a packet is added. -/
lemma addPacket_of_lt (h : c.packetBasesToDelete.card < maxBases) :
    addPacket maxBases id c =
      (true, ⟨insert (base id).toUInt32 c.packetBasesToDelete, c.commonProcessed ++ [id],
        c.alreadyReplayedPackets.erase (base id)⟩) := by
  simp only [addPacket, if_pos h]
  rw [if_pos (Finset.mem_insert_self _ _)]

lemma mem_of_setSlaveOrphan {slave : List PacketId}
    (h : 0 < (setSlaveOrphanPacketIds id slave).length) : id ∈ slave := by
  by_contra hmem
  rw [setSlaveOrphanPacketIds, if_neg hmem] at h
  exact lt_irrefl 0 h

/-- The slave has the orphan ids in front of the given one. -/
lemma setSlaveOrphan_spec {slave : List PacketId} (h : id ∈ slave) :
    ∃ left, slave = setSlaveOrphanPacketIds id slave ++ id :: left ∧
      id ∉ setSlaveOrphanPacketIds id slave := by
  obtain ⟨before, after, rfl, hmem⟩ := List.eq_append_cons_of_mem h
  have hbefore : setSlaveOrphanPacketIds id (before ++ id :: after) = before := by
    have hall : ∀ b ∈ before, decide (b ≠ id) = true := fun b hb =>
      decide_eq_true fun heq => hmem (heq ▸ hb)
    rw [setSlaveOrphanPacketIds, if_pos h, List.takeWhile_append_of_pos hall,
      List.takeWhile_cons_of_neg (by simp), List.append_nil]
  exact ⟨after, by rw [hbefore], by rwa [hbefore]⟩

/-- When the slave's list does not begin with the id, and there are no orphan ids, it is not
there. -/
lemma not_mem_of_setSlaveOrphan {s : PacketId} {slave : List PacketId} (hne : id ≠ s)
    (h : setSlaveOrphanPacketIds id (s :: slave) = []) : id ∉ s :: slave := by
  intro hmem
  obtain ⟨left, hslave, -⟩ := setSlaveOrphan_spec hmem
  rw [h, List.nil_append] at hslave
  exact hne (List.cons.inj hslave).1.symm

/-- For the ids of a reply that fits its buffer there is room. -/
lemma room_of_fits {ids : List PacketId} (hfits : 8 * ids.length ≤ maxRetValLength) :
    (∅ : Finset UInt32).card + ids.length ≤ intMax := by
  rw [maxRetValLength] at hfits
  rw [Finset.card_empty, intMax]
  omega

/-- While there is room, the loop adds the ids in front of the cut of the two lists, and the
orphan ids are those that the cut skips. -/
theorem commonLoop_cut {master : List PacketId} (slave : List PacketId)
    (hroom : c.packetBasesToDelete.card + master.length ≤ maxBases) :
    ∃ common masterLeft slaveLeft,
      (commonLoop maxBases master slave c).1.commonProcessed = c.commonProcessed ++ common ∧
        Cut master slave common (commonLoop maxBases master slave c).2 masterLeft slaveLeft := by
  induction master generalizing slave c with
  | nil => exact ⟨[], [], slave, by simp [commonLoop], .nil slave⟩
  | cons m master ih =>
      rw [List.length_cons] at hroom
      have hlt : c.packetBasesToDelete.card < maxBases := by omega
      rcases slave with _ | ⟨s, slave⟩
      · exact ⟨[], _, _, by simp [commonLoop], .missing m master [] List.not_mem_nil⟩
      rcases eq_or_ne m s with rfl | hne
      · have hcard := Finset.card_insert_le (base m).toUInt32 c.packetBasesToDelete
        obtain ⟨common, masterLeft, slaveLeft, hcommon, hcut⟩ := ih slave
          (c := ⟨insert (base m).toUInt32 c.packetBasesToDelete, c.commonProcessed ++ [m],
            c.alreadyReplayedPackets.erase (base m)⟩)
          (by show (insert _ _ : Finset UInt32).card + _ ≤ _; omega)
        simp only [commonLoop, if_pos, addPacket_of_lt hlt]
        refine ⟨m :: common, masterLeft, slaveLeft, ?_, hcut.cons m⟩
        rw [hcommon, List.append_assoc, List.singleton_append]
      · simp only [commonLoop, if_neg hne]
        split_ifs with horphan
        · obtain ⟨slaveLeft, hslave, hmem⟩ := setSlaveOrphan_spec (mem_of_setSlaveOrphan horphan)
          refine ⟨[m], master, slaveLeft, by simp [addPacket_of_lt hlt], ?_⟩
          exact .skip m master _ slaveLeft hslave (List.ne_nil_of_length_pos horphan) hmem
        · have hnil : setSlaveOrphanPacketIds m (s :: slave) = [] := by simpa using horphan
          refine ⟨[], m :: master, s :: slave, by simp, ?_⟩
          rw [hnil]
          exact .missing m master _ (not_mem_of_setSlaveOrphan hne hnil)

/-- While there is room, the loop adds the first ids of the master, which the slave
has. -/
lemma commonLoop_eq_take {master : List PacketId} (slave : List PacketId)
    (hroom : c.packetBasesToDelete.card + master.length ≤ maxBases) :
    ∃ n ≤ master.length,
      (commonLoop maxBases master slave c).1.commonProcessed = c.commonProcessed ++ master.take n ∧
        master.take n ⊆ slave := by
  obtain ⟨common, masterLeft, slaveLeft, hcommon, hcut⟩ := commonLoop_cut slave hroom
  refine ⟨common.length, ?_, ?_, ?_⟩
  · rw [hcut.left_eq, List.length_append]
    exact Nat.le_add_right ..
  · rw [hcommon, hcut.take_left]
  · rw [hcut.take_left]
    exact hcut.common_subset

/-- Of two equal lists, all ids are common, while there is room. -/
lemma commonLoop_self {master : List PacketId}
    (hroom : c.packetBasesToDelete.card + master.length ≤ maxBases) :
    (commonLoop maxBases master master c).1.commonProcessed = c.commonProcessed ++ master ∧
      (commonLoop maxBases master master c).2 = [] := by
  obtain ⟨common, masterLeft, slaveLeft, hcommon, hcut⟩ := commonLoop_cut master hroom
  have hself : Cut master master master [] [] [] := by
    simpa only [List.append_nil] using Cut.of_prefix master []
  obtain ⟨rfl, horphan, -, -⟩ := hcut.unique hself
  exact ⟨hcommon, horphan⟩

end

end CleanupManagerServer

end FtThesis
