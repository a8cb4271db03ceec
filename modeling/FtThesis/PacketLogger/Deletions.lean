/-
Deletions of many packets.

A delete request has a list of ids, and each of them is refused or removes a whole record, so that
it changes what the later ids of its base meet.

* `fragmentCount`: how many fragments are stored under a base;
* `Counted`: the counter of each record is the number of its fragments, as one byte has it;
* `counted_run`: this is so after any requests;
* `processDelete_exact`: which records a request removes, that the order of its ids does not
  matter, and that a second one like it does nothing.
-/
import FtThesis.PacketLogger.Overlay

namespace FtThesis

namespace PacketLoggerServer

/-- The number of the fragments that are stored under a base. -/
def fragmentCount (s : PacketLoggerServer) (b : PacketBase) : ℕ :=
  (s.packetsVersions b).elim 0 fun pvd => pvd.packetVersions.length

/-- The counter of each record is the number of its fragments, modulo 256. -/
def Counted (s : PacketLoggerServer) : Prop :=
  ∀ b pvd, s.packetsVersions b = some pvd → pvd.index = UInt8.ofNat pvd.packetVersions.length

lemma fragmentCount_store_le (s : PacketLoggerServer) (wpd : WrappedPacketData)
    (b : PacketBase) :
    fragmentCount (s.processStoreRequest wpd) b ≤ fragmentCount s b + 1 := by
  rw [fragmentCount, processStoreRequest]
  rcases eq_or_ne b (base wpd.packetId) with rfl | hne
  · cases hp : s.packetsVersions (base wpd.packetId) <;> simp [fragmentCount, addPacketVersion, hp]
  · simp [fragmentCount, Function.update_of_ne hne]

lemma fragmentCount_delete_le (s : PacketLoggerServer) (ids : List PacketId) (b : PacketBase) :
    fragmentCount (s.processDeletePacketsRequest ids) b ≤ fragmentCount s b := by
  rw [fragmentCount, packetsVersions_processDelete]
  cases hp : s.packetsVersions b with
  | none => simp
  | some pvd =>
      rw [Option.filter_some, fragmentCount, hp]
      split_ifs
      · exact le_rfl
      · exact Nat.zero_le _

section

variable {s : PacketLoggerServer}

/-- A store counts the fragment that it appends. -/
lemma Counted.processStoreRequest (hs : Counted s) (wpd : WrappedPacketData) :
    Counted (s.processStoreRequest wpd) := by
  intro b pvd hpvd
  rw [PacketLoggerServer.processStoreRequest] at hpvd
  rcases eq_or_ne b (base wpd.packetId) with rfl | hne
  · simp only [Function.update_self, Option.some.injEq] at hpvd
    subst hpvd
    cases hp : s.packetsVersions (base wpd.packetId) with
    | none => rfl
    | some pvd => simp [addPacketVersion, hs _ pvd hp, UInt8.ofNat_add]
  · simp only [Function.update_of_ne hne] at hpvd
    exact hs b pvd hpvd

/-- A deletion leaves a record as it is, if it leaves it. -/
lemma Counted.processDelete (hs : Counted s) (ids : List PacketId) :
    Counted (s.processDeletePacketsRequest ids) := by
  intro b pvd hpvd
  rw [packetsVersions_processDelete, Option.filter_eq_some_iff] at hpvd
  exact hs b pvd hpvd.1

/-- After any requests the records are counted. -/
lemma counted_run (requests : List LogRequest) :
    Counted (requests.foldl processLogRequest new) := by
  induction requests using List.reverseRecOn with
  | nil => exact fun _ _ hpvd => by cases hpvd
  | append_singleton requests request ih =>
      rw [List.foldl_append]
      cases request with
      | store wpd => exact ih.processStoreRequest wpd
      | deletePackets ids => exact ih.processDelete ids

/-- Where the counter is that of all fragments, the records with a listed version that is not
smaller than it are removed. -/
lemma packetsVersions_processDelete_of_counted (hs : Counted s) {b : PacketBase}
    (hfew : fragmentCount s b < 256) (ids : List PacketId) :
    (s.processDeletePacketsRequest ids).packetsVersions b =
      if ∃ id ∈ ids, base id = b ∧ fragmentCount s b ≤ version id then none
      else s.packetsVersions b := by
  rw [packetsVersions_processDelete]
  cases hp : s.packetsVersions b with
  | none => simp
  | some pvd =>
      have hcount : fragmentCount s b = pvd.packetVersions.length := by simp [fragmentCount, hp]
      have hindex : pvd.index.toNat = fragmentCount s b := by
        rw [hs b pvd hp, UInt8.toNat_ofNat', hcount, Nat.mod_eq_of_lt (hcount ▸ hfew)]
      rw [Option.filter_some, hindex]
      by_cases hdeleted : ∃ id ∈ ids, base id = b ∧ fragmentCount s b ≤ version id
      · have hall : ¬ (ids.all fun id => b = base id → version id < fragmentCount s b) = true := by
          obtain ⟨id, hid, hbase, hle⟩ := hdeleted
          intro hall
          have hlt := of_decide_eq_true (List.all_eq_true.mp hall id hid) hbase.symm
          omega
        rw [if_neg hall, if_pos hdeleted]
      · have hall : (ids.all fun id => b = base id → version id < fragmentCount s b) = true := by
          refine List.all_eq_true.mpr fun id hid => decide_eq_true fun hbase => ?_
          by_contra hlt
          exact hdeleted ⟨id, hid, hbase.symm, not_lt.mp hlt⟩
        rw [if_pos hall, if_neg hdeleted]

end

/-- There are at most as many fragments under a base as there were requests. -/
lemma fragmentCount_run_le (requests : List LogRequest) (b : PacketBase) :
    fragmentCount (requests.foldl processLogRequest new) b ≤ requests.length := by
  induction requests using List.reverseRecOn with
  | nil => exact le_rfl
  | append_singleton requests request ih =>
      rw [List.foldl_append, List.length_append]
      refine le_trans ?_ (Nat.add_le_add_right ih 1)
      cases request with
      | store wpd => exact fragmentCount_store_le _ wpd b
      | deletePackets ids => exact (fragmentCount_delete_le _ ids b).trans (Nat.le_succ _)

/-- The server is determined by its records. -/
lemma eq_of_packetsVersions {s t : PacketLoggerServer}
    (h : ∀ b, s.packetsVersions b = t.packetsVersions b) : s = t := by
  cases s
  cases t
  exact congrArg mk (funext h)

/-- The ids of a list count, and not their order. -/
lemma processDelete_of_perm (s : PacketLoggerServer) {ids ids' : List PacketId}
    (h : ids.Perm ids') :
    s.processDeletePacketsRequest ids' = s.processDeletePacketsRequest ids := by
  refine eq_of_packetsVersions fun b => ?_
  rw [packetsVersions_processDelete, packetsVersions_processDelete]
  congr 1
  funext pvd
  exact h.symm.all_eq

/-- What was refused once is refused again, and what was removed is not there. -/
lemma processDelete_processDelete (s : PacketLoggerServer) (ids : List PacketId) :
    (s.processDeletePacketsRequest ids).processDeletePacketsRequest ids
      = s.processDeletePacketsRequest ids := by
  refine eq_of_packetsVersions fun b => ?_
  rw [packetsVersions_processDelete, packetsVersions_processDelete, Option.filter_filter]
  simp

/-- **Bulk deletion.**  After any stores and deletions that leave fewer than 256 fragments under
each base, a delete request removes the records of which a version is listed that is not smaller
than the number of their fragments, and leaves all others as they are; the order of the ids does
not matter, and the request again changes nothing. -/
theorem processDelete_exact (requests : List LogRequest)
    (hfew : ∀ b, fragmentCount (requests.foldl processLogRequest new) b < 256)
    (ids : List PacketId) :
    let s := requests.foldl processLogRequest new
    (∀ b, (s.processDeletePacketsRequest ids).packetsVersions b =
        if ∃ id ∈ ids, base id = b ∧ fragmentCount s b ≤ version id then none
        else s.packetsVersions b) ∧
      (∀ ids', ids.Perm ids' →
        s.processDeletePacketsRequest ids' = s.processDeletePacketsRequest ids) ∧
      (s.processDeletePacketsRequest ids).processDeletePacketsRequest ids
        = s.processDeletePacketsRequest ids :=
  ⟨fun b => packetsVersions_processDelete_of_counted (counted_run requests) (hfew b) ids,
    fun _ hperm => processDelete_of_perm _ hperm, processDelete_processDelete _ ids⟩

/-- `prepareDeletePacketsTest2`. -/
def prepareDeletePacketsTest2 : List PacketId := [195, 193, 225]

/-- What the tests store of two packets. -/
def storeTests : List LogRequest := inOrder ++ [.store preparePacketLoggerClientTest4]

/-- Of the three ids of the second test the first and the last remove a record; the other one
would be refused, as there are three fragments of its packet. -/
theorem processDelete_tests :
    let s := storeTests.foldl processLogRequest new
    (∀ b, (s.processDeletePacketsRequest prepareDeletePacketsTest2).packetsVersions b =
        if ∃ id ∈ prepareDeletePacketsTest2, base id = b ∧ fragmentCount s b ≤ version id then none
        else s.packetsVersions b) ∧
      (∀ ids', prepareDeletePacketsTest2.Perm ids' →
        s.processDeletePacketsRequest ids'
          = s.processDeletePacketsRequest prepareDeletePacketsTest2) ∧
      (s.processDeletePacketsRequest prepareDeletePacketsTest2).processDeletePacketsRequest
          prepareDeletePacketsTest2
        = s.processDeletePacketsRequest prepareDeletePacketsTest2 :=
  processDelete_exact storeTests
    (fun b => (fragmentCount_run_le storeTests b).trans_lt (by decide)) prepareDeletePacketsTest2

end PacketLoggerServer

end FtThesis
