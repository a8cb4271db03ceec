/-
Does the list of processed ids agree with the determinants?

* `Agree`: every middlebox has as many listed ids as its index says, and it has a
  record for exactly the ids that are listed;
* `NoRepeatCut`: what a request must meet to keep this;
* `agree_processRequest`: one request keeps the agreement exactly when it does;
* `agree_iff_noRepeatCut`: so it is for whole runs;
* `not_agree_of_repeated_store`: a run of requests after which an id is still
  listed and its record is gone.
-/
import FtThesis.DetLogger.Server
import FtThesis.Library.Runs

namespace FtThesis

open Transition

namespace DetLoggerServer

/-- The list of processed ids and the determinants agree. -/
def Agree (s : DetLoggerServer) : Prop :=
  ∀ mb, (s.processedIndex mb).toNat = (s.processed mb).length ∧
    ∀ id, id ∈ s.processed mb ↔ (s.getPacketData mb id).isSome

/-- The condition on a request: a store does not wrap the index of its middlebox,
and a deletion of the first `n` ids has no id on both sides of its cut. -/
def NoRepeatCut (s : DetLoggerServer) : DetRequest → Prop
  | .store pm => (s.processed pm.middleboxId).length + 1 < 2 ^ 32
  | .deleteFirst mb n => ∀ id ∈ (s.processed mb).take n.toNat, id ∉ (s.processed mb).drop n.toNat
  | _ => True

lemma agree_new : Agree .new := by
  intro mb
  simp [new, processed, processedIndex, getPacketData, ServerProgressData.new]

/-- A store keeps the records in agreement; the index follows unless it wraps. -/
lemma agree_processStoreRequest {s : DetLoggerServer} (hs : s.Agree) (pm : PALSManager) :
    (s.processStoreRequest pm).Agree ↔ (s.processed pm.middleboxId).length + 1 < 2 ^ 32 := by
  have hindex : ((s.processedIndex pm.middleboxId) + 1).toNat
      = ((s.processed pm.middleboxId).length + 1) % 2 ^ 32 := by
    rw [UInt32.toNat_add, (hs pm.middleboxId).1]
    rfl
  constructor
  · intro h
    have hlen := (h pm.middleboxId).1
    rw [processed_processStoreRequest, processedIndex_processStoreRequest, if_pos rfl, if_pos rfl,
      hindex, List.length_append, List.length_singleton] at hlen
    omega
  · intro hlt mb
    rw [processed_processStoreRequest, processedIndex_processStoreRequest]
    by_cases hmb : mb = pm.middleboxId
    · subst hmb
      refine ⟨?_, fun id => ?_⟩
      · rw [if_pos rfl, if_pos rfl, hindex, Nat.mod_eq_of_lt hlt, List.length_append,
          List.length_singleton]
      · rw [getPacketData_processStoreRequest, if_pos rfl, List.mem_append, List.mem_singleton]
        by_cases hid : id = pm.packetId
        · simp [hid]
        · simp [hid, (hs pm.middleboxId).2 id]
    · rw [if_neg hmb, if_neg hmb]
      refine ⟨(hs mb).1, fun id => ?_⟩
      rw [getPacketData_processStoreRequest, if_neg fun h => hmb h.1]
      exact (hs mb).2 id

/-- A deletion removes the records of the removed ids, so it keeps the agreement
exactly when none of these is still listed. -/
lemma agree_processDeleteFirst {s : DetLoggerServer} (hs : s.Agree) (mb : MbId) (n : UInt32) :
    (s.processDeleteFirstPacketsRequest mb n).Agree ↔
      ∀ id ∈ (s.processed mb).take n.toNat, id ∉ (s.processed mb).drop n.toNat := by
  have hcount : s.removedCount mb n = min (s.processed mb).length n.toNat := by
    rw [removedCount_eq, (hs mb).1]
  have htake : s.removed mb n = (s.processed mb).take n.toNat := by
    rw [removed, hcount, List.take_eq_take_iff]
    omega
  have hdrop : (s.processed mb).drop (s.removedCount mb n) = (s.processed mb).drop n.toNat := by
    rw [hcount, List.drop_eq_drop_iff]
    omega
  constructor
  · intro h id hid hid'
    have hlisted := (h mb).2 id
    rw [processed_processDeleteFirst, if_pos rfl, hdrop, getPacketData_processDeleteFirst,
      htake, if_pos ⟨rfl, hid⟩] at hlisted
    simpa using hlisted.mp hid'
  · intro hcut mb'
    rw [processed_processDeleteFirst, processedIndex_processDeleteFirst]
    by_cases hmb : mb' = mb
    · subst hmb
      refine ⟨?_, fun id => ?_⟩
      · rw [if_pos rfl, if_pos rfl, List.length_drop, (hs mb').1]
      · rw [if_pos rfl, getPacketData_processDeleteFirst, hdrop, htake]
        by_cases hid : id ∈ (s.processed mb').take n.toNat
        · simp [hid, hcut id hid]
        · have hmem : id ∈ s.processed mb' ↔ id ∈ (s.processed mb').drop n.toNat := by
            conv_lhs => rw [← List.take_append_drop n.toNat (s.processed mb'), List.mem_append]
            simp [hid]
          simp [hid, ← hmem, (hs mb').2 id]
    · rw [if_neg hmb, if_neg hmb]
      refine ⟨(hs mb').1, fun id => ?_⟩
      rw [getPacketData_processDeleteFirst, if_neg fun h => hmb h.1]
      exact (hs mb').2 id

/-- One request keeps the agreement exactly when it meets the condition. -/
lemma agree_processRequest {s t : DetLoggerServer} {req : DetRequest} (hs : s.Agree)
    (hst : s.processRequest req = some t) : t.Agree ↔ s.NoRepeatCut req := by
  cases req with
  | store pm =>
      obtain rfl := Option.some.inj hst
      exact agree_processStoreRequest hs pm
  | deleteFirst mb n =>
      obtain rfl := Option.some.inj hst
      exact agree_processDeleteFirst hs mb n
  | getProcessed mb allVersions =>
      obtain ⟨-, -, rfl⟩ := Option.map_eq_some_iff.mp hst
      simpa [NoRepeatCut] using hs
  | getPals mb id =>
      obtain ⟨-, -, rfl⟩ := Option.map_eq_some_iff.mp hst
      simpa [NoRepeatCut] using hs

end DetLoggerServer

open DetLoggerServer

/-- **Agreement of the list and the determinants.**  In every run of the server
from its start, the processed lists and the determinants agree after every
request exactly when no store wraps an index and no deletion of first ids cuts
between two occurrences of an id. -/
theorem agree_iff_noRepeatCut (requests : List DetRequest) (s : DetLoggerServer) :
    Run (Into Agree (Fires processRequest)) .new requests s ↔
      Run (When NoRepeatCut (Fires processRequest)) .new requests s :=
  Run.into_iff_when (I := fun _ => True) (fun _ _ _ _ _ => trivial)
    (fun _ _ _ _ hs hst => agree_processRequest hs hst) trivial agree_new

/-- Two stores for one packet and a deletion of the first id: the packet is still
listed, without its determinants. -/
theorem not_agree_of_repeated_store :
    ¬ ∀ (requests : List DetRequest) (s : DetLoggerServer),
      Run (Fires processRequest) .new requests s → s.Agree := by
  intro h
  let s := ((DetLoggerServer.new.processStoreRequest (.new 1 332)).processStoreRequest
    (.new 1 332)).processDeleteFirstPacketsRequest 1 1
  have hrun : Run (Fires processRequest) .new
      [.store (.new 1 332), .store (.new 1 332), .deleteFirst 1 1] s := Run.of_foldlM rfl
  have hlisted : (332 : PacketId) ∈ s.processed 1 := by decide
  have hgone : (s.getPacketData 1 332).isSome = false := by decide
  simpa [hgone] using ((h _ s hrun 1).2 332).mp hlisted

end FtThesis
