/-
The packet logger.

The server keeps, under the base of a packet, a fragment of the packet for each
version that was logged, and rebuilds a version of the packet by laying
fragments over each other.

* `WrappedPacketData`, `SinglePacketVersionData`, `PacketVersionsData`,
  `PacketLoggerServer`: the data;
* `VersionSort`: what is known of the order in which `std::sort` leaves the
  fragments, which is not a stable one;
* `processStoreRequest`, `getPacket`, `deletePacket`, `processReplayRequest`,
  `processDeletePacketsRequest`: the requests;
* `usedVersions`: the fragments of which `getPacket` builds its reply;
* `packetsVersions_processDelete`, `map_packetId_filterMap_sendPacket`: what is left of a
  record after deletions, and which packets are sent;
* `logged`, `packetsVersions_logged`: the server after a history of stores.
-/
import FtThesis.Library.Decimals
import FtThesis.Library.Memory
import FtThesis.PacketId.Basic

namespace FtThesis

open Memory Decimals

/-! ### The data -/

/-- `WrappedPacketData`: a logged part of a packet. -/
structure WrappedPacketData where
  packetId : PacketId
  offset : UInt16
  size : UInt16
  data : List UInt8
  length_data : data.length = size.toNat

/-- `SinglePacketVersionData`: the fragment of one version. -/
structure SinglePacketVersionData where
  version : ℕ
  offset : UInt16
  size : UInt16
  data : List UInt8
  length_data : data.length = size.toNat
deriving DecidableEq

/-- The fragment that a logged part becomes. -/
def WrappedPacketData.fragment (wpd : WrappedPacketData) : SinglePacketVersionData :=
  ⟨version wpd.packetId, wpd.offset, wpd.size, wpd.data, wpd.length_data⟩

/-- `PacketVersionsData`: the fragments of a packet, with their number. -/
structure PacketVersionsData where
  packetVersions : List SinglePacketVersionData
  index : UInt8
deriving DecidableEq

/-- The state of `PacketLoggerServer`. -/
structure PacketLoggerServer where
  packetsVersions : PacketBase → Option PacketVersionsData

/-- `std::sort` with `spvdComparator`: some order of the fragments by version. -/
structure VersionSort where
  sort : List SinglePacketVersionData → List SinglePacketVersionData
  perm : ∀ l, (sort l).Perm l
  sorted : ∀ l, (sort l).Pairwise fun a b => a.version ≤ b.version

/-- A sort that keeps the order of the fragments of one version. -/
def VersionSort.stable : VersionSort where
  sort l := l.mergeSort fun a b => a.version ≤ b.version
  perm l := List.mergeSort_perm l _
  sorted l := by
    have h : (l.mergeSort fun a b => decide (a.version ≤ b.version)).Pairwise
        fun a b => decide (a.version ≤ b.version) = true :=
      List.pairwise_mergeSort (fun a b c => by simpa using fun h h' => le_trans h h')
        (fun a b => by simpa using le_total _ _) l
    simpa using h

namespace PacketLoggerServer

/-- The server at its start. -/
def new : PacketLoggerServer := ⟨fun _ => none⟩

/-! ### The functions of the server -/

/-- `addPacketVersion`. -/
def addPacketVersion (packetVersions : PacketVersionsData) (wpd : WrappedPacketData) :
    PacketVersionsData :=
  { packetVersions := packetVersions.packetVersions ++ [wpd.fragment]
    index := packetVersions.index + 1 }

/-- `processStoreRequest`. -/
def processStoreRequest (s : PacketLoggerServer) (wpd : WrappedPacketData) : PacketLoggerServer :=
  let pvd := (s.packetsVersions (base wpd.packetId)).getD ⟨[], 0⟩
  ⟨Function.update s.packetsVersions (base wpd.packetId) (some (addPacketVersion pvd wpd))⟩

/-- The fragments that `getPacket` copies for a version: the first ones in sorted
order, as many as the version says or as there are. -/
def usedVersions (srt : VersionSort) (pvd : PacketVersionsData) (packetVersion : ℕ) :
    List SinglePacketVersionData :=
  let packetVersionsLen := pvd.index.toNat
  let packetVersionsLen :=
    if packetVersion < packetVersionsLen then packetVersion else packetVersionsLen
  (srt.sort pvd.packetVersions).take packetVersionsLen

/-- One round of the loop of `getPacket`, on the buffer and `retValLen`. -/
def copyVersion (ret : Mem × ℕ) (spvd : SinglePacketVersionData) : Mem × ℕ :=
  (memcpy ret.1 spvd.offset.toNat spvd.data, max ret.2 spvd.size.toNat)

/-- `getPacket`: its result, the buffer `retVal` and `retValLen`. -/
def getPacket (srt : VersionSort) (s : PacketLoggerServer) (packId : PacketId) (retVal : Mem) :
    Bool × Mem × ℕ :=
  match s.packetsVersions (base packId) with
  | none => (false, retVal, 0)
  | some pvd => (true, (usedVersions srt pvd (version packId)).foldl copyVersion (retVal, 0))

/-- `deletePacket`: its result, and the server after it. -/
def deletePacket (s : PacketLoggerServer) (packId : PacketId) : Bool × PacketLoggerServer :=
  match s.packetsVersions (base packId) with
  | none => (true, s)
  | some pvd =>
      if version packId < pvd.index.toNat then (false, s)
      else (true, ⟨Function.update s.packetsVersions (base packId) none⟩)

/-- `processDeletePacketsRequest`. -/
def processDeletePacketsRequest (s : PacketLoggerServer) (packetsToDelete : List PacketId) :
    PacketLoggerServer :=
  packetsToDelete.foldl (fun s packId => (s.deletePacket packId).2) s

/-- A packet that was sent to a middlebox, and its message. -/
structure SentPacket where
  packetId : PacketId
  message : List UInt8
deriving DecidableEq

/-- The message with a replayed packet.  The end of the string that
`intToStringDigits` writes in front of the packet overwrites its first byte. -/
def replayMessage (packet : Mem) (packetLen : ℕ) : List UInt8 :=
  intToStringDigits packetLen 7 ++ 0 :: read packet 1 (packetLen - 1)

/-- One round of the loop of `processReplayRequest`. -/
def sendPacket (srt : VersionSort) (s : PacketLoggerServer) (packId : PacketId) :
    Option SentPacket :=
  let (found, packet, packetLen) := getPacket srt s packId fun _ => 0
  if found = true ∧ 0 < packetLen then some ⟨packId, replayMessage packet packetLen⟩ else none

/-- `processReplayRequest`: its result, and the packets sent to the middlebox if
the connection to it is made. -/
def processReplayRequest (srt : VersionSort) (s : PacketLoggerServer) (connected : Bool)
    (packetsToReplay : List PacketId) : Bool × List SentPacket :=
  if connected then (true, packetsToReplay.filterMap (sendPacket srt s)) else (false, [])

/-! ### What is deleted and what is sent -/

lemma packetsVersions_deletePacket (s : PacketLoggerServer) (packId : PacketId) (b : PacketBase) :
    (s.deletePacket packId).2.packetsVersions b =
      if b = base packId then
        (s.packetsVersions b).filter fun pvd => version packId < pvd.index.toNat
      else s.packetsVersions b := by
  rw [deletePacket]
  rcases eq_or_ne b (base packId) with rfl | hne
  · rw [if_pos rfl]
    cases hp : s.packetsVersions (base packId) with
    | none => simp [hp]
    | some pvd =>
        by_cases hlt : version packId < pvd.index.toNat
        · simp [hlt, hp, Option.filter_some]
        · simp [hlt, Option.filter_some]
  · rw [if_neg hne]
    split
    · rfl
    · split_ifs
      · rfl
      · simp [hne]

/-- A record is left when for no deleted id of its base the version is at least the number
of its fragments. -/
lemma packetsVersions_processDelete (s : PacketLoggerServer) (ids : List PacketId)
    (b : PacketBase) :
    (s.processDeletePacketsRequest ids).packetsVersions b =
      (s.packetsVersions b).filter fun pvd =>
        ids.all fun id => b = base id → version id < pvd.index.toNat := by
  induction ids generalizing s with
  | nil =>
      have hnil : s.processDeletePacketsRequest [] = s := rfl
      cases hp : s.packetsVersions b <;> simp [hnil, hp, Option.filter_some]
  | cons id ids ih =>
      have hcons : s.processDeletePacketsRequest (id :: ids)
          = (s.deletePacket id).2.processDeletePacketsRequest ids := rfl
      rw [hcons, ih, packetsVersions_deletePacket]
      rcases eq_or_ne b (base id) with rfl | hne
      · simp [Option.filter_filter]
      · simp [hne]

/-- The length of a reply is at least that of each of its fragments. -/
lemma le_foldl_copyVersion (l : List SinglePacketVersionData) (ret : Mem × ℕ) :
    ret.2 ≤ (l.foldl copyVersion ret).2 ∧
      ∀ spvd ∈ l, spvd.size.toNat ≤ (l.foldl copyVersion ret).2 := by
  induction l generalizing ret with
  | nil => simp
  | cons spvd l ih =>
      obtain ⟨hret, hl⟩ := ih (copyVersion ret spvd)
      rw [List.foldl_cons]
      refine ⟨(le_max_left _ _).trans hret, List.forall_mem_cons.mpr ⟨?_, hl⟩⟩
      exact (le_max_right _ _).trans hret

/-- The length of what is put together is a size, or what it was before. -/
lemma foldl_copyVersion_snd (l : List SinglePacketVersionData) (ret : Mem × ℕ) :
    (l.foldl copyVersion ret).2 = ret.2 ∨
      ∃ spvd ∈ l, (l.foldl copyVersion ret).2 = spvd.size.toNat := by
  induction l generalizing ret with
  | nil => exact .inl rfl
  | cons spvd l ih =>
      rw [List.foldl_cons]
      rcases ih (copyVersion ret spvd) with h | ⟨spvd', hmem, h⟩
      · rcases max_choice ret.2 spvd.size.toNat with hmax | hmax
        · exact .inl (h.trans hmax)
        · exact .inr ⟨spvd, List.mem_cons_self, h.trans hmax⟩
      · exact .inr ⟨spvd', List.mem_cons_of_mem _ hmem, h⟩

/-- The length of a packet fits in two bytes. -/
lemma getPacket_length_lt (srt : VersionSort) (s : PacketLoggerServer) (packId : PacketId)
    (retVal : Mem) : (getPacket srt s packId retVal).2.2 < 65536 := by
  rw [getPacket]
  cases s.packetsVersions (base packId) with
  | none => exact Nat.succ_pos _
  | some pvd =>
      rcases foldl_copyVersion_snd (usedVersions srt pvd (version packId)) (retVal, 0) with
        h | ⟨spvd, -, h⟩
      · exact lt_of_eq_of_lt h (Nat.succ_pos _)
      · exact lt_of_eq_of_lt h spvd.size.toNat_lt

/-- For an id with a version, of a base with fragments none of which is empty, the packet
logger has something to send. -/
lemma isSome_sendPacket (srt : VersionSort) {s : PacketLoggerServer} {id : PacketId}
    {pvd : PacketVersionsData} (hpvd : s.packetsVersions (base id) = some pvd)
    (hindex : 0 < pvd.index.toNat) (hne : pvd.packetVersions ≠ [])
    (hsize : ∀ spvd ∈ pvd.packetVersions, 0 < spvd.size.toNat) (hversion : 0 < version id) :
    (sendPacket srt s id).isSome = true := by
  have hlen : 0 < (if version id < pvd.index.toNat then version id else pvd.index.toNat) := by
    split_ifs <;> omega
  obtain ⟨spvd, hspvd⟩ : ∃ spvd, spvd ∈ usedVersions srt pvd (version id) := by
    refine List.exists_mem_of_ne_nil _ fun hnil => ?_
    rcases List.take_eq_nil_iff.mp hnil with hzero | hnil
    · omega
    · exact hne ((srt.perm _).symm.trans (hnil ▸ .refl _)).eq_nil
  have hmem : spvd ∈ pvd.packetVersions := (srt.perm _).subset (List.mem_of_mem_take hspvd)
  have hpos := (hsize spvd hmem).trans_le
    ((le_foldl_copyVersion (usedVersions srt pvd (version id)) (fun _ => 0, 0)).2 spvd hspvd)
  simp [sendPacket, getPacket, hpvd, hpos]

/-- The packets that are sent have the ids for which there is something to send. -/
lemma map_packetId_filterMap_sendPacket (srt : VersionSort) (s : PacketLoggerServer)
    (ids : List PacketId) :
    (ids.filterMap (sendPacket srt s)).map SentPacket.packetId
      = ids.filter fun id => (sendPacket srt s id).isSome := by
  have hid (id : PacketId) (packet : SentPacket) (h : sendPacket srt s id = some packet) :
      packet.packetId = id := by
    simp only [sendPacket] at h
    split_ifs at h
    cases h
    rfl
  induction ids with
  | nil => rfl
  | cons id ids ih =>
      cases hsend : sendPacket srt s id with
      | none => simp [hsend, ih]
      | some packet => simp [hsend, ih, hid id packet hsend]

/-! ### The fragments of a base -/

/-- The fragments of the given parts of packets that belong to a base, in order. -/
def fragments (history : List WrappedPacketData) (b : PacketBase) :
    List SinglePacketVersionData :=
  (history.filter fun wpd => base wpd.packetId = b).map WrappedPacketData.fragment

/-- The server after a history of stores. -/
def logged (history : List WrappedPacketData) : PacketLoggerServer :=
  history.foldl processStoreRequest new

lemma fragments_append_singleton (history : List WrappedPacketData) (wpd : WrappedPacketData)
    (b : PacketBase) :
    fragments (history ++ [wpd]) b =
      if base wpd.packetId = b then fragments history b ++ [wpd.fragment]
      else fragments history b := by
  by_cases h : base wpd.packetId = b <;> simp [fragments, List.filter_append, h]

/-- The record of a base holds the fragments that were stored under it. -/
lemma packetsVersions_logged (history : List WrappedPacketData) (b : PacketBase) :
    (logged history).packetsVersions b =
      if fragments history b = [] then none
      else some ⟨fragments history b, UInt8.ofNat (fragments history b).length⟩ := by
  induction history using List.reverseRecOn with
  | nil => rfl
  | append_singleton history wpd ih =>
      have hstep : logged (history ++ [wpd]) = (logged history).processStoreRequest wpd := by
        simp [logged]
      rw [hstep, fragments_append_singleton, processStoreRequest]
      by_cases h : base wpd.packetId = b
      · subst h
        rw [if_pos rfl, if_neg (by simp)]
        simp only [Function.update_self, ih]
        split_ifs with hnil
        · simp [hnil, addPacketVersion]
        · simp [addPacketVersion, UInt8.ofNat_add]
      · rw [if_neg h]
        simp only [Function.update_of_ne (Ne.symm h), ih]

end PacketLoggerServer

end FtThesis
