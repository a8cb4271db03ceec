/-
What a slave gets of the determinants that the master stored.

A client puts a manager into a request, the server appends it to the record of
its packet, and a later request rebuilds a manager from the record and sends it
back.

* `clientStore`, `clientGetPals`: the two requests from end to end, with
  arbitrary contents of the buffers on the way; `clientStore_eq`;
* `TracedServer`, `TracedServer.step`: the server with, for each packet, the
  managers stored since the last deletion of its record;
* `recordOf`, `Traces`: the record that these managers leave;
* `Complete`: whoever asks gets exactly the concatenation of these managers, and
  no count has wrapped; `complete_iff`: that is, they fit into a manager;
* `complete_iff_fits`: which runs keep this;
* `not_complete_of_two_stores`: a run that does not.
-/
import FtThesis.DetLogger.Server
import FtThesis.Library.Runs

namespace FtThesis

open Memory Transition

namespace DetLoggerServer

/-! ### The requests from end to end -/

/-- A store: the client serializes into its buffer `sent`, the bytes arrive in the
server's buffer `msg`, and the server stores what it reads there. -/
def clientStore (s : DetLoggerServer) (pm : PALSManager) (sent msg : Mem) :
    Option DetLoggerServer :=
  let arrived := memcpy msg 0 (read (pm.serialize sent) 0 pm.getSerializationLength)
  (PALSManager.deserialize arrived).map s.processStoreRequest

/-- A request for the determinants of a packet: the server's reply in its buffer
`retVal` arrives in the client's buffer `msg`, and the client reads a manager
there if the status says so. -/
def clientGetPals (s : DetLoggerServer) (mbId : MbId) (packId : PacketId) (retVal msg : Mem) :
    Option (Option PALSManager) :=
  (s.processGetPalsRequest mbId packId retVal).bind fun (succeed, reply, len) =>
    if succeed = true ∧ 0 < len then
      (PALSManager.deserialize (memcpy msg 0 (read reply 0 len))).map some
    else some none

/-- The server stores what the client sent. -/
lemma clientStore_eq (s : DetLoggerServer) (pm : PALSManager) (sent msg : Mem) :
    s.clientStore pm sent msg = some (s.processStoreRequest pm) := by
  rw [clientStore, PALSManager.deserialize_of_agreeOn pm sent _ (agreeOn_memcpy_read _ _ _),
    Option.map_some]

/-- The client gets what the server rebuilt. -/
lemma clientGetPals_eq {s : DetLoggerServer} {mb : MbId} {id : PacketId} {pd : PacketData}
    (h : s.getPacketData mb id = some pd) (retVal msg : Mem) :
    s.clientGetPals mb id retVal msg = (convertPacketDataToPM (.new mb id) pd).map some := by
  cases hpm : convertPacketDataToPM (.new mb id) pd with
  | none => simp [clientGetPals, processGetPalsRequest, h, hpm]
  | some pm =>
      have hlen : 0 < pm.getSerializationLength := by
        rw [PALSManager.getSerializationLength_eq]
        omega
      simp [clientGetPals, processGetPalsRequest, h, hpm, hlen,
        PALSManager.deserialize_of_agreeOn pm retVal _ (agreeOn_memcpy_read _ msg _)]

end DetLoggerServer

/-! ### The record of a history -/

/-- The gpals of the given managers, in order. -/
def allGPals (pms : List PALSManager) : List Gpal := pms.flatMap PALSManager.gpalList

/-- The spals of the given managers, in order. -/
def allSPals (pms : List PALSManager) : List Spal := pms.flatMap PALSManager.spalList

/-- The record that the stores of the given managers leave. -/
def recordOf (pms : List PALSManager) : PacketData where
  spalVector := allSPals pms
  gpalVector := allGPals pms
  spalIndex := UInt8.ofNat (allSPals pms).length
  gpalIndex := UInt8.ofNat (allGPals pms).length

/-- The determinants of the given managers fit into one. -/
def Fits (pms : List PALSManager) : Prop :=
  (allGPals pms).length ≤ palsSize ∧ (allSPals pms).length ≤ palsSize

lemma updatePacketData_recordOf (pms : List PALSManager) (pm : PALSManager) :
    DetLoggerServer.updatePacketData (recordOf pms) pm = recordOf (pms ++ [pm]) := by
  rw [DetLoggerServer.updatePacketData_eq]
  simp [recordOf, allGPals, allSPals, UInt8.ofNat_add]

/-- A record whose determinants fit is rebuilt as a whole. -/
lemma convertPacketDataToPM_recordOf {pms : List PALSManager} (h : Fits pms) (mb : MbId)
    (id : PacketId) :
    DetLoggerServer.convertPacketDataToPM (.new mb id) (recordOf pms)
      = some ⟨mb, id, allGPals pms, allSPals pms, h.1, h.2⟩ := by
  have hg : (allGPals pms).length ≤ 10 := h.1
  have hs : (allSPals pms).length ≤ 10 := h.2
  have hgi : (UInt8.ofNat (allGPals pms).length).toNat = (allGPals pms).length :=
    UInt8.toNat_ofNat_of_lt' (by simp [UInt8.size]; omega)
  have hsi : (UInt8.ofNat (allSPals pms).length).toNat = (allSPals pms).length :=
    UInt8.toNat_ofNat_of_lt' (by simp [UInt8.size]; omega)
  simp [DetLoggerServer.convertPacketDataToPM, recordOf, PALSManager.new, hgi, hsi,
    PALSManager.foldlM_addGPal, PALSManager.foldlM_addSPal, h.1, h.2]

/-! ### The server with its history -/

/-- The server, and for each packet the managers stored since the last deletion of
its record. -/
structure TracedServer where
  server : DetLoggerServer
  stores : MbId → PacketId → List PALSManager

/-- A request with the contents of the buffers that it passes through. -/
inductive ClientRequest
  | store (pm : PALSManager) (sent msg : Mem)
  | getProcessed (mbId : MbId) (allVersions : Bool)
  | getPals (mbId : MbId) (packId : PacketId) (retVal msg : Mem)
  | deleteFirst (mbId : MbId) (totalPacketBasesToRemove : UInt32)

namespace TracedServer

/-- The server at its start. -/
def new : TracedServer := ⟨.new, fun _ _ => []⟩

/-- One request. -/
def step (s : TracedServer) : ClientRequest → Option TracedServer
  | .store pm sent msg =>
      (s.server.clientStore pm sent msg).map fun server =>
        ⟨server, fun mb id =>
          if mb = pm.middleboxId ∧ id = pm.packetId then s.stores mb id ++ [pm]
          else s.stores mb id⟩
  | .getProcessed mbId allVersions =>
      (s.server.processGetProcessedPacketsRequest mbId allVersions).map fun _ => s
  | .getPals mbId packId retVal msg =>
      (s.server.clientGetPals mbId packId retVal msg).map fun _ => s
  | .deleteFirst mbId n =>
      some ⟨s.server.processDeleteFirstPacketsRequest mbId n, fun mb id =>
        if mb = mbId ∧ id ∈ s.server.removed mbId n then [] else s.stores mb id⟩

/-- The records are those of the history. -/
def Traces (s : TracedServer) : Prop :=
  ∀ mb id, s.server.getPacketData mb id =
    if s.stores mb id = [] then none else some (recordOf (s.stores mb id))

/-- Whoever asks for the determinants of a stored packet gets them all, in the
order of their stores, and the counts of the record are right. -/
def Complete (s : TracedServer) : Prop :=
  ∀ mb id, s.stores mb id ≠ [] →
    (∀ retVal msg, ∃ pm, s.server.clientGetPals mb id retVal msg = some (some pm) ∧
      pm.middleboxId = mb ∧ pm.packetId = id ∧
      pm.gpalList = allGPals (s.stores mb id) ∧ pm.spalList = allSPals (s.stores mb id)) ∧
    ∃ pd, s.server.getPacketData mb id = some pd ∧
      pd.gpalIndex.toNat = pd.gpalVector.length ∧ pd.spalIndex.toNat = pd.spalVector.length

/-- The condition on a request: a store leaves at most `palsSize` gpals and at
most `palsSize` spals for its packet. -/
def StoreFits (s : TracedServer) : ClientRequest → Prop
  | .store pm _ _ => Fits (s.stores pm.middleboxId pm.packetId ++ [pm])
  | _ => True

lemma traces_new : Traces .new := fun _ _ => rfl

lemma traces_step {s t : TracedServer} {req : ClientRequest} (hs : s.Traces)
    (hst : s.step req = some t) : t.Traces := by
  intro mb id
  cases req with
  | store pm sent msg =>
      rw [step, DetLoggerServer.clientStore_eq, Option.map_some, Option.some.injEq] at hst
      subst hst
      simp only [DetLoggerServer.getPacketData_processStoreRequest, hs mb id]
      by_cases hpm : mb = pm.middleboxId ∧ id = pm.packetId
      · have hold : (if s.stores mb id = [] then none
            else some (recordOf (s.stores mb id))).getD .new = recordOf (s.stores mb id) := by
          split_ifs with h
          · rw [h]
            rfl
          · rfl
        simp only [if_pos hpm, hold, updatePacketData_recordOf]
        rw [if_neg (by simp)]
      · simp only [if_neg hpm]
  | deleteFirst mb' n =>
      rw [step, Option.some.injEq] at hst
      subst hst
      simp only [DetLoggerServer.getPacketData_processDeleteFirst, hs mb id]
      split_ifs <;> simp_all
  | getProcessed mb' allVersions =>
      obtain ⟨-, -, rfl⟩ := Option.map_eq_some_iff.mp hst
      exact hs mb id
  | getPals mb' id' retVal msg =>
      obtain ⟨-, -, rfl⟩ := Option.map_eq_some_iff.mp hst
      exact hs mb id

/-- The determinants are complete exactly when they fit. -/
lemma complete_iff {s : TracedServer} (hs : s.Traces) :
    s.Complete ↔ ∀ mb id, Fits (s.stores mb id) := by
  constructor
  · intro h mb id
    by_cases hnil : s.stores mb id = []
    · simp [hnil, Fits, allGPals, allSPals]
    · obtain ⟨pm, -, -, -, hg, hsp⟩ := (h mb id hnil).1 (fun _ => 0) fun _ => 0
      exact ⟨hg ▸ pm.gpalList_le, hsp ▸ pm.spalList_le⟩
  · intro h mb id hnil
    have hpd : s.server.getPacketData mb id = some (recordOf (s.stores mb id)) := by
      rw [hs mb id, if_neg hnil]
    refine ⟨fun retVal msg => ?_, _, hpd, ?_, ?_⟩
    · rw [DetLoggerServer.clientGetPals_eq hpd, convertPacketDataToPM_recordOf (h mb id)]
      exact ⟨_, rfl, rfl, rfl, rfl, rfl⟩
    · have hg : (allGPals (s.stores mb id)).length ≤ 10 := (h mb id).1
      exact UInt8.toNat_ofNat_of_lt' (by simp [UInt8.size]; omega)
    · have hsp : (allSPals (s.stores mb id)).length ≤ 10 := (h mb id).2
      exact UInt8.toNat_ofNat_of_lt' (by simp [UInt8.size]; omega)

/-- One request keeps the determinants complete exactly when it meets the
condition. -/
lemma complete_step {s t : TracedServer} {req : ClientRequest} (hs : s.Traces) (hc : s.Complete)
    (hst : s.step req = some t) : t.Complete ↔ s.StoreFits req := by
  rw [complete_iff (traces_step hs hst)]
  rw [complete_iff hs] at hc
  cases req with
  | store pm sent msg =>
      rw [step, DetLoggerServer.clientStore_eq, Option.map_some, Option.some.injEq] at hst
      subst hst
      constructor
      · intro h
        simpa [StoreFits] using h pm.middleboxId pm.packetId
      · intro h mb id
        by_cases hpm : mb = pm.middleboxId ∧ id = pm.packetId
        · obtain ⟨rfl, rfl⟩ := hpm
          simpa [StoreFits] using h
        · simpa only [if_neg hpm] using hc mb id
  | deleteFirst mb' n =>
      rw [step, Option.some.injEq] at hst
      subst hst
      refine iff_of_true (fun mb id => ?_) trivial
      dsimp only
      split_ifs
      · simp [Fits, allGPals, allSPals]
      · exact hc mb id
  | getProcessed mb' allVersions =>
      obtain ⟨-, -, rfl⟩ := Option.map_eq_some_iff.mp hst
      exact iff_of_true hc trivial
  | getPals mb' id' retVal msg =>
      obtain ⟨-, -, rfl⟩ := Option.map_eq_some_iff.mp hst
      exact iff_of_true hc trivial

lemma complete_new : Complete .new := fun _ _ h => absurd rfl h

end TracedServer

open TracedServer

/-- **Completeness of the determinants.**  In every run of the server from its
start, every stored packet can be asked for, and its determinants are complete
and in order, after every request exactly when no store leaves more than
`palsSize` gpals or spals for its packet. -/
theorem complete_iff_fits (requests : List ClientRequest) (s : TracedServer) :
    Run (Into Complete (Fires step)) .new requests s ↔
      Run (When StoreFits (Fires step)) .new requests s :=
  Run.into_iff_when (I := Traces) (fun _ _ _ hs hst => traces_step hs hst)
    (fun _ _ _ hs hc hst => complete_step hs hc hst) traces_new complete_new

/-- A manager with six gpals. -/
def sixGPals : PALSManager :=
  ⟨1, 332, List.replicate 6 ⟨1, Vector.replicate 50 0⟩, [], by decide, by decide⟩

/-- Two stores of six gpals each for one packet: the reply does not hold them. -/
theorem not_complete_of_two_stores :
    ¬ ∀ (requests : List ClientRequest) (s : TracedServer),
      Run (Fires step) .new requests s → s.Complete := by
  intro h
  have hstore : ∀ s : TracedServer, ∃ t, s.step (.store sixGPals (fun _ => 0) fun _ => 0) = some t ∧
      t.stores 1 332 = s.stores 1 332 ++ [sixGPals] := by
    intro s
    rw [step, DetLoggerServer.clientStore_eq]
    exact ⟨_, rfl, rfl⟩
  obtain ⟨s, hs, hsix⟩ := hstore .new
  obtain ⟨t, ht, htwelve⟩ := hstore s
  have hrun : Run (Fires step) .new _ t := (Run.single hs).snoc ht
  have hfits := (complete_iff (hrun.invariant (fun _ _ _ hs hst => traces_step hs hst)
    traces_new)).mp (h _ t hrun) 1 332
  rw [htwelve, hsix] at hfits
  exact absurd hfits.1 (by decide)

end FtThesis
