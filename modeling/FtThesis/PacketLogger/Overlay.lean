/-
The packet that is put together from its versions.

The versions of a packet are stored in any order, while other packets are stored and deleted.

* `LogRequest`, `processLogRequest`: the requests that change what is logged;
* `StoresVersions`: requests that store the versions `1` to `n` of a packet;
* `replyFragments_eq`: of which fragments the packet is put together;
* `overlay`: at each place it has the byte of the highest version, in whatever order the versions
  came;
* `lengthCovers_iff`: its length reaches the end of each fragment exactly when one fragment that
  starts at the beginning does;
* `not_lengthCovers`: two fragments, the second of which is cut off.
-/
import FtThesis.Library.Overlays
import FtThesis.PacketLogger.Versions
import FtThesis.Transport.Message

namespace FtThesis

open Memory Overlays SortedLists

namespace PacketLoggerServer

/-! ### Requests for several packets -/

/-- The requests that change what is logged. -/
inductive LogRequest
  | store (wpd : WrappedPacketData)
  | deletePackets (packetsToDelete : List PacketId)

/-- `processRequest`, for these requests. -/
def processLogRequest (s : PacketLoggerServer) : LogRequest → PacketLoggerServer
  | .store wpd => s.processStoreRequest wpd
  | .deletePackets packetsToDelete => s.processDeletePacketsRequest packetsToDelete

/-- What a request stores. -/
def LogRequest.stored : LogRequest → Option WrappedPacketData
  | .store wpd => some wpd
  | .deletePackets _ => none

/-- The fragments that are stored under a base. -/
def storedFragments (requests : List LogRequest) (b : PacketBase) :
    List SinglePacketVersionData :=
  fragments (requests.filterMap LogRequest.stored) b

/-- No packet of the base is deleted. -/
def NoneDeleted (requests : List LogRequest) (b : PacketBase) : Prop :=
  ∀ ids, .deletePackets ids ∈ requests → ∀ id ∈ ids, base id ≠ b

/-- Nothing is logged under the base before, and then the versions `1` to `n` are stored, in any
order; the other requests are for other bases. -/
structure StoresVersions (s : PacketLoggerServer) (requests : List LogRequest) (b : PacketBase)
    (n : ℕ) : Prop where
  new : s.packetsVersions b = none
  noneDeleted : NoneDeleted requests b
  versions : ((storedFragments requests b).map (·.version)).Perm (List.range' 1 n)

section

variable {s t : PacketLoggerServer} {b : PacketBase}

/-- What a store leaves under a base depends on what was there. -/
lemma packetsVersions_store_congr (h : s.packetsVersions b = t.packetsVersions b)
    (wpd : WrappedPacketData) :
    (s.processStoreRequest wpd).packetsVersions b
      = (t.processStoreRequest wpd).packetsVersions b := by
  rw [processStoreRequest, processStoreRequest]
  rcases eq_or_ne b (base wpd.packetId) with rfl | hne
  · simp only [Function.update_self, h]
  · simp only [Function.update_of_ne hne, h]

/-- A deletion of packets of other bases leaves what is under a base. -/
lemma packetsVersions_delete_of_ne {ids : List PacketId} (h : ∀ id ∈ ids, base id ≠ b) :
    (s.processDeletePacketsRequest ids).packetsVersions b = s.packetsVersions b := by
  have hall (pvd : PacketVersionsData) :
      (ids.all fun id => b = base id → version id < pvd.index.toNat) = true :=
    List.all_eq_true.mpr fun id hid => decide_eq_true fun heq => absurd heq.symm (h id hid)
  rw [packetsVersions_processDelete]
  cases s.packetsVersions b with
  | none => rfl
  | some pvd => exact Option.filter_some_pos (hall pvd)

/-- Under a base is what a history of the stores alone leaves there. -/
lemma packetsVersions_run {requests : List LogRequest} (hs : s.packetsVersions b = none)
    (hdeleted : NoneDeleted requests b) :
    (requests.foldl processLogRequest s).packetsVersions b
      = (logged (requests.filterMap LogRequest.stored)).packetsVersions b := by
  induction requests using List.reverseRecOn with
  | nil => exact hs
  | append_singleton requests request ih =>
      have hbefore : NoneDeleted requests b := fun ids hids =>
        hdeleted ids (List.mem_append_left _ hids)
      rw [List.foldl_append, List.filterMap_append, logged, List.foldl_append, ← logged]
      cases request with
      | store wpd => exact packetsVersions_store_congr (ih hbefore) wpd
      | deletePackets ids =>
          refine (packetsVersions_delete_of_ne (hdeleted ids (by simp))).trans ?_
          exact ih hbefore

end

/-! ### The fragments that are used -/

/-- Of the numbers from `1` to `n`, as many are at most `v`. -/
lemma countP_range'_le (n v : ℕ) : (List.range' 1 n).countP (· ≤ v) = min v n := by
  induction n with
  | zero => simp
  | succ n ih =>
      rw [List.range'_1_concat, List.countP_append, ih, List.countP_singleton]
      split_ifs with h <;> simp only [decide_eq_true_eq] at h <;> omega

/-- The fragments of the versions up to `v`. -/
def upTo (v : ℕ) (spvds : List SinglePacketVersionData) : List SinglePacketVersionData :=
  spvds.filter (·.version ≤ v)

section

variable {s : PacketLoggerServer} {requests : List LogRequest} {b : PacketBase} {n : ℕ}
  (h : StoresVersions s requests b n)

include h

lemma StoresVersions.length_eq : (storedFragments requests b).length = n := by
  simpa using h.versions.length_eq

/-- There are no more versions than fit in five bits. -/
lemma StoresVersions.lt : n < 32 := by
  rcases Nat.eq_zero_or_pos n with rfl | hpos
  · exact Nat.succ_pos _
  · have hlast : n ∈ (storedFragments requests b).map (·.version) :=
      h.versions.symm.subset (by simp; omega)
    obtain ⟨spvd, hmem, rfl⟩ := List.mem_map.mp hlast
    obtain ⟨wpd, -, rfl⟩ := List.mem_map.mp hmem
    exact version_lt wpd.packetId

/-- A reply is made of the fragments up to the requested version, in the order of the
versions. -/
lemma replyFragments_eq (srt : VersionSort) {packId : PacketId} (hbase : base packId = b) :
    replyFragments srt (requests.foldl processLogRequest s) packId
      = upTo (version packId) (srt.sort (storedFragments requests b)) := by
  have hcount : (srt.sort (storedFragments requests b)).countP (·.version ≤ version packId)
      = min (version packId) n := by
    calc (srt.sort (storedFragments requests b)).countP (·.version ≤ version packId)
        = (storedFragments requests b).countP (·.version ≤ version packId) :=
          (srt.perm _).countP_eq _
      _ = ((storedFragments requests b).map (·.version)).countP (· ≤ version packId) := by
          rw [List.countP_map]
          rfl
      _ = (List.range' 1 n).countP (· ≤ version packId) := h.versions.countP_eq _
      _ = min (version packId) n := countP_range'_le n (version packId)
  have hlt : n < 256 := h.lt.trans (by decide)
  rw [replyFragments, hbase, packetsVersions_run h.new h.noneDeleted, ← hbase, ← replyFragments,
    replyFragments_logged, hbase, ← storedFragments, h.length_eq, Nat.mod_eq_of_lt hlt, ← hcount,
    upTo, filter_le_eq_take (srt.sorted _)]

/-- In the order of the versions, all of which are different. -/
lemma sorted_upTo (srt : VersionSort) (v : ℕ) :
    (upTo v (srt.sort (storedFragments requests b))).Pairwise fun f g => f.version < g.version := by
  have hnodup : ((srt.sort (storedFragments requests b)).map (·.version)).Nodup :=
    (((srt.perm _).map _).trans h.versions).nodup_iff.mpr (List.nodup_range' ..)
  exact (pairwise_lt (srt.sorted _) hnodup).filter _

end

/-! ### The bytes of the packet -/

/-- The byte that a fragment has for a place of the packet, if it covers this place. -/
def byteAt (spvd : SinglePacketVersionData) (q : ℕ) : Option UInt8 :=
  if spvd.offset.toNat ≤ q then spvd.data[q - spvd.offset.toNat]? else none

/-- A fragment covers the places from its offset on, as many as its size says. -/
lemma byteAt_ne_none_iff {spvd : SinglePacketVersionData} {q : ℕ} :
    byteAt spvd q ≠ none ↔
      spvd.offset.toNat ≤ q ∧ q < spvd.offset.toNat + spvd.size.toNat := by
  rw [byteAt]
  split_ifs with h
  · rw [ne_eq, List.getElem?_eq_none_iff, spvd.length_data]
    omega
  · simp [h]

/-- Copying a fragment lays its bytes over the packet. -/
lemma memcpy_eq_lay (m : Mem) (spvd : SinglePacketVersionData) :
    memcpy m spvd.offset.toNat spvd.data = lay byteAt m spvd := by
  funext q
  rw [lay]
  by_cases hcover : byteAt spvd q = none
  · have hout : q < spvd.offset.toNat ∨ spvd.offset.toNat + spvd.data.length ≤ q := by
      rw [← not_ne_iff, byteAt_ne_none_iff] at hcover
      rw [spvd.length_data]
      omega
    rw [hcover, memcpy_of_lt hout, Option.getD_none]
  · obtain ⟨hle, hlt⟩ := byteAt_ne_none_iff.mp hcover
    obtain ⟨i, rfl⟩ := Nat.exists_eq_add_of_le hle
    have hi : i < spvd.data.length := by
      rw [spvd.length_data]
      omega
    rw [memcpy_getElem hi, byteAt, if_pos hle, Nat.add_sub_cancel_left,
      List.getElem?_eq_getElem hi, Option.getD_some]

lemma foldl_copyVersion_fst (l : List SinglePacketVersionData) (ret : Mem × ℕ) :
    (l.foldl copyVersion ret).1 = l.foldl (lay byteAt) ret.1 := by
  induction l generalizing ret with
  | nil => rfl
  | cons spvd l ih => rw [List.foldl_cons, ih, copyVersion, memcpy_eq_lay, List.foldl_cons]

/-- At each place that a fragment covers, the packet has the byte of the one with the highest
version. -/
def IsOverlay (spvds : List SinglePacketVersionData) (packet : Mem) : Prop :=
  ∀ q, ∀ f ∈ spvds, ∀ b, byteAt f q = some b →
    (∀ g ∈ spvds, byteAt g q ≠ none → g.version ≤ f.version) → packet q = b

section

variable {s s' : PacketLoggerServer} {requests requests' : List LogRequest} {b : PacketBase} {n : ℕ}

/-- No version is higher than the last one. -/
lemma StoresVersions.upTo_min (h : StoresVersions s requests b n) (v : ℕ) :
    upTo (min v n) (storedFragments requests b) = upTo v (storedFragments requests b) := by
  refine List.filter_congr fun f hf => ?_
  have hle := List.mem_range'_1.mp (h.versions.subset (List.mem_map_of_mem hf))
  rw [decide_eq_decide]
  omega

lemma perm_upTo_sort (srt : VersionSort) (v : ℕ) (spvds : List SinglePacketVersionData) :
    (upTo v (srt.sort spvds)).Perm (upTo v spvds) :=
  (srt.perm spvds).filter _

/-- The order in which the versions came does not matter. -/
lemma replyFragments_eq_of_perm (srt srt' : VersionSort) (h : StoresVersions s requests b n)
    (h' : StoresVersions s' requests' b n) {packId : PacketId} (hbase : base packId = b)
    (hperm : (storedFragments requests b).Perm (storedFragments requests' b)) :
    replyFragments srt' (requests'.foldl processLogRequest s') packId
      = replyFragments srt (requests.foldl processLogRequest s) packId := by
  rw [replyFragments_eq h srt hbase, replyFragments_eq h' srt' hbase]
  have hused : (upTo (version packId) (srt'.sort (storedFragments requests' b))).Perm
      (upTo (version packId) (storedFragments requests b)) :=
    (perm_upTo_sort srt' _ _).trans (hperm.symm.filter _)
  exact eq_of_perm (hused.trans (perm_upTo_sort srt _ _).symm) (sorted_upTo h' srt' _)
    (sorted_upTo h srt _)

/-- There is a record when there is a fragment. -/
lemma isSome_packetsVersions (h : StoresVersions s requests b n) :
    ((requests.foldl processLogRequest s).packetsVersions b).isSome
      = !(storedFragments requests b).isEmpty := by
  rw [packetsVersions_run h.new h.noneDeleted, packetsVersions_logged, ← storedFragments]
  cases storedFragments requests b <;> rfl

end

/-- **The overlay.**  When the versions `1` to `n` of a packet are stored, in any order and among
requests for other packets, a packet is put together of the fragments up to the requested version,
with the byte of the highest version at each place; and the same fragments in another order, among
other requests and sorted in another way, give the same reply. -/
theorem overlay (srt srt' : VersionSort) {s s' : PacketLoggerServer}
    {requests requests' : List LogRequest} {n : ℕ} {packId : PacketId}
    (h : StoresVersions s requests (base packId) n)
    (h' : StoresVersions s' requests' (base packId) n)
    (hperm : (storedFragments requests (base packId)).Perm
      (storedFragments requests' (base packId))) (retVal : Mem) :
    IsOverlay (upTo (min (version packId) n) (storedFragments requests (base packId)))
        (getPacket srt (requests.foldl processLogRequest s) packId retVal).2.1 ∧
      getPacket srt' (requests'.foldl processLogRequest s') packId retVal
        = getPacket srt (requests.foldl processLogRequest s) packId retVal := by
  constructor
  · intro q f hf b hb hhighest
    rw [getPacket_eq, foldl_copyVersion_fst, replyFragments_eq h srt rfl]
    rw [h.upTo_min] at hf hhighest
    have hmem {g : SinglePacketVersionData} := (perm_upTo_sort srt (version packId)
      (storedFragments requests (base packId))).mem_iff (a := g)
    exact foldl_lay_of_highest (sorted_upTo h srt _) (hmem.mpr hf) hb
      fun g hg => hhighest g (hmem.mp hg)
  · have hempty : (storedFragments requests' (base packId)).isEmpty
        = (storedFragments requests (base packId)).isEmpty := hperm.symm.isEmpty_eq
    rw [getPacket_eq, getPacket_eq, replyFragments_eq_of_perm srt srt' h h' rfl hperm,
      isSome_packetsVersions h, isSome_packetsVersions h', hempty]

/-- `preparePacketLoggerClientTest1`. -/
def preparePacketLoggerClientTest1 : WrappedPacketData := ⟨193, 0, 15, List.replicate 15 97, rfl⟩

/-- `preparePacketLoggerClientTest2`. -/
def preparePacketLoggerClientTest2 : WrappedPacketData := ⟨194, 10, 15, List.replicate 15 98, rfl⟩

/-- `preparePacketLoggerClientTest3`. -/
def preparePacketLoggerClientTest3 : WrappedPacketData := ⟨195, 13, 10, List.replicate 10 99, rfl⟩

/-- `preparePacketLoggerClientTest4`, of another packet. -/
def preparePacketLoggerClientTest4 : WrappedPacketData := ⟨225, 0, 10, List.replicate 10 100, rfl⟩

/-- The first three tests, one after another. -/
def inOrder : List LogRequest :=
  [.store preparePacketLoggerClientTest1, .store preparePacketLoggerClientTest2,
    .store preparePacketLoggerClientTest3]

/-- The first three tests in another order, among requests for the packet of the fourth one. -/
def outOfOrder : List LogRequest :=
  [.store preparePacketLoggerClientTest3, .store preparePacketLoggerClientTest4,
    .store preparePacketLoggerClientTest1, .deletePackets [225],
    .store preparePacketLoggerClientTest2]

lemma storesVersions_inOrder : StoresVersions .new inOrder 6 3 :=
  ⟨rfl, by simp [NoneDeleted, inOrder], by decide⟩

lemma storesVersions_outOfOrder : StoresVersions .new outOfOrder 6 3 := by
  refine ⟨rfl, fun ids hids => ?_, by decide⟩
  have heq : ids = [225] := by simpa [outOfOrder] using hids
  rw [heq]
  exact List.forall_mem_singleton.mpr (by decide)

/-- In the packet of the three tests, the second version decides in front of the third one. -/
theorem overlay_tests :
    IsOverlay (upTo 3 (storedFragments inOrder 6))
        (getPacket .stable (inOrder.foldl processLogRequest .new) 195 fun _ => 0).2.1 ∧
      getPacket .stable (outOfOrder.foldl processLogRequest .new) 195 (fun _ => 0)
        = getPacket .stable (inOrder.foldl processLogRequest .new) 195 fun _ => 0 := by
  have h : StoresVersions .new inOrder (base 195) 3 := storesVersions_inOrder
  have h' : StoresVersions .new outOfOrder (base 195) 3 := storesVersions_outOfOrder
  exact overlay .stable .stable h h' (by decide) _

/-! ### The length of the packet -/

/-- The end of a fragment. -/
def fragmentEnd (spvd : SinglePacketVersionData) : ℕ := spvd.offset.toNat + spvd.size.toNat

/-- The end of the fragment that reaches furthest. -/
def largestEnd (spvds : List SinglePacketVersionData) : ℕ := (spvds.map fragmentEnd).foldr max 0

lemma largestEnd_le_iff {spvds : List SinglePacketVersionData} {k : ℕ} :
    largestEnd spvds ≤ k ↔ ∀ f ∈ spvds, fragmentEnd f ≤ k := by
  induction spvds with
  | nil => simp [largestEnd]
  | cons f spvds ih =>
      rw [List.forall_mem_cons, ← ih]
      exact max_le_iff

/-- The length is the end of the fragment that reaches furthest, and the packet covers what the
fragments cover. -/
def LengthCovers (spvds : List SinglePacketVersionData) (retValLen : ℕ) : Prop :=
  retValLen = largestEnd spvds ∧ ∀ f ∈ spvds, ∀ q, byteAt f q ≠ none → q < retValLen

/-- There is no fragment, or one that starts at the beginning of the packet and ends behind all
others. -/
def WholeFragment (spvds : List SinglePacketVersionData) : Prop :=
  spvds = [] ∨ ∃ f ∈ spvds, f.offset = 0 ∧ ∀ g ∈ spvds, fragmentEnd g ≤ f.size.toNat

/-- Only the largest size counts for the length. -/
lemma lengthCovers_iff_of_size {spvds : List SinglePacketVersionData} {retValLen : ℕ}
    (hle : ∀ f ∈ spvds, f.size.toNat ≤ retValLen)
    (hsize : retValLen = 0 ∨ ∃ f ∈ spvds, retValLen = f.size.toNat) :
    LengthCovers spvds retValLen ↔ WholeFragment spvds := by
  constructor
  · rintro ⟨heq, -⟩
    have hends : ∀ f ∈ spvds, fragmentEnd f ≤ retValLen := largestEnd_le_iff.mp heq.ge
    have hoffset {f : SinglePacketVersionData} (hf : f ∈ spvds) (hlen : retValLen ≤ f.size.toNat) :
        f.offset = 0 := by
      have hend := hends f hf
      rw [fragmentEnd] at hend
      exact UInt16.toNat_inj.mp (show f.offset.toNat = 0 by omega)
    rcases hsize with hzero | ⟨f, hf, hlen⟩
    · cases spvds with
      | nil => exact .inl rfl
      | cons f spvds =>
          have hle' : retValLen ≤ f.size.toNat := hzero ▸ Nat.zero_le _
          exact .inr ⟨f, List.mem_cons_self, hoffset List.mem_cons_self hle',
            fun g hg => (hends g hg).trans hle'⟩
    · exact .inr ⟨f, hf, hoffset hf hlen.le, fun g hg => (hends g hg).trans hlen.le⟩
  · intro hwhole
    have hends : ∀ f ∈ spvds, fragmentEnd f ≤ retValLen := by
      rcases hwhole with rfl | ⟨f, hf, -, hends⟩
      · exact fun f hf => absurd hf List.not_mem_nil
      · exact fun g hg => (hends g hg).trans (hle f hf)
    refine ⟨le_antisymm ?_ (largestEnd_le_iff.mpr hends), fun f hf q hq => ?_⟩
    · rcases hsize with hzero | ⟨f, hf, hlen⟩
      · exact hzero ▸ Nat.zero_le _
      · calc retValLen = f.size.toNat := hlen
          _ ≤ fragmentEnd f := Nat.le_add_left ..
          _ ≤ largestEnd spvds := largestEnd_le_iff.mp le_rfl f hf
    · exact (byteAt_ne_none_iff.mp hq).2.trans_le (hends f hf)

/-- The length that is reported is the largest size. -/
lemma getPacket_length_spec (srt : VersionSort) {s : PacketLoggerServer}
    {requests : List LogRequest} {n : ℕ} {packId : PacketId}
    (h : StoresVersions s requests (base packId) n) (retVal : Mem) :
    let spvds := upTo (version packId) (storedFragments requests (base packId))
    let retValLen := (getPacket srt (requests.foldl processLogRequest s) packId retVal).2.2
    (∀ f ∈ spvds, f.size.toNat ≤ retValLen) ∧
      (retValLen = 0 ∨ ∃ f ∈ spvds, retValLen = f.size.toNat) := by
  intro spvds retValLen
  have hmem {f : SinglePacketVersionData} := (perm_upTo_sort srt (version packId)
    (storedFragments requests (base packId))).mem_iff (a := f)
  have hlen : retValLen = ((upTo (version packId) (srt.sort
      (storedFragments requests (base packId)))).foldl copyVersion (retVal, 0)).2 := by
    simp only [retValLen, getPacket_eq, replyFragments_eq h srt rfl]
  rw [hlen]
  refine ⟨fun f hf => (le_foldl_copyVersion _ (retVal, 0)).2 f (hmem.mpr hf), ?_⟩
  rcases foldl_copyVersion_snd (upTo (version packId)
    (srt.sort (storedFragments requests (base packId)))) (retVal, 0) with hzero | ⟨f, hf, hsize⟩
  · exact .inl hzero
  · exact .inr ⟨f, hmem.mp hf, hsize⟩

/-- **The length.**  The length that is reported for a packet reaches the end of each fragment of
which it is put together exactly when a fragment that starts at the beginning does. -/
theorem lengthCovers_iff (srt : VersionSort) {s : PacketLoggerServer} {requests : List LogRequest}
    {n : ℕ} {packId : PacketId} (h : StoresVersions s requests (base packId) n) (retVal : Mem) :
    LengthCovers (upTo (version packId) (storedFragments requests (base packId)))
        (getPacket srt (requests.foldl processLogRequest s) packId retVal).2.2 ↔
      WholeFragment (upTo (version packId) (storedFragments requests (base packId))) :=
  lengthCovers_iff_of_size (getPacket_length_spec srt h retVal).1
    (getPacket_length_spec srt h retVal).2

/-- Two later versions, which lie within the first test, one of them stored before it. -/
def withinFirst : List LogRequest :=
  [.store ⟨195, 13, 2, [99, 99], rfl⟩, .store preparePacketLoggerClientTest4,
    .store preparePacketLoggerClientTest1, .store ⟨194, 2, 10, List.replicate 10 98, rfl⟩]

/-- Their end is that of the first test. -/
theorem lengthCovers_withinFirst :
    LengthCovers (upTo 3 (storedFragments withinFirst 6))
      (getPacket .stable (withinFirst.foldl processLogRequest .new) 195 fun _ => 0).2.2 := by
  have h : StoresVersions .new withinFirst (base 195) 3 :=
    ⟨rfl, by simp [NoneDeleted, withinFirst], by decide⟩
  have hfirst : preparePacketLoggerClientTest1.fragment ∈ upTo 3 (storedFragments withinFirst 6) :=
    by decide
  exact (lengthCovers_iff .stable h fun _ => 0).mpr (.inr ⟨_, hfirst, rfl, by decide⟩)

/-- With the first two tests, ten bytes of the second one are cut off. -/
theorem not_lengthCovers :
    ¬ ∀ (srt : VersionSort) (s : PacketLoggerServer) (requests : List LogRequest) (n : ℕ)
      (packId : PacketId) (retVal : Mem),
      StoresVersions s requests (base packId) n → 1 ≤ version packId →
      (∀ f ∈ storedFragments requests (base packId),
        fragmentEnd f ≤ serverBufferSizeWithoutPrefix) →
      LengthCovers (upTo (version packId) (storedFragments requests (base packId)))
        (getPacket srt (requests.foldl processLogRequest s) packId retVal).2.2 := by
  intro hall
  let requests : List LogRequest :=
    [.store preparePacketLoggerClientTest1, .store preparePacketLoggerClientTest2]
  have h : StoresVersions .new requests (base 194) 2 :=
    ⟨rfl, by simp [NoneDeleted, requests], by decide⟩
  have heq := (hall .stable .new requests 2 194 (fun _ => 0) h (by decide) (by decide)).1
  have hsize := (getPacket_length_spec .stable h fun _ => 0).2
  rw [heq] at hsize
  exact absurd hsize (by decide)

end PacketLoggerServer

end FtThesis
