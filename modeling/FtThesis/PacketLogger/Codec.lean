/-
The requests to the packet logger on the wire.

Three clients lay out a logged part of a packet, each with its own code, and one of
them also the requests to replay and to delete packets; the server reads all of them.

* `ReplayPackets`, `RequestObject`: what a request is about;
* `PacketLoggerClient.serializeObject`, `PacketIdEncap.serializeObject`,
  `PacketLoggerIVClient.serializeObject`: the encoders;
* `PacketLoggerServer.deserializeClientRequest`: the decoder;
* `deserializeClientRequest_serializeObject`: the decoder reads back what was encoded,
  whatever stood in the buffers before.
-/
import FtThesis.PacketLogger.Server

namespace FtThesis

open Memory

/-! ### The objects of the requests -/

/-- `STORE_COMMAND_TYPE`. -/
def storeCommandType : ℕ := 0

/-- `GET_PACKET_BY_PACKID_COMMAND_TYPE`. -/
def getPacketByPackidCommandType : ℕ := 1

/-- `REPLAY_PACKETS_BY_IDS_COMMAND_TYPE`. -/
def replayPacketsByIdsCommandType : ℕ := 2

/-- `DELETE_PACKETS_BY_IDS_COMMAND_TYPE`. -/
def deletePacketsByIdsCommandType : ℕ := 3

/-- `MAX_ADDRESS_LEN`. -/
def maxAddressLen : ℕ := 16

namespace PacketLoggerClient

/-- `ReplayPackets`: the address is in the first `addressLen` bytes of its array. -/
structure ReplayPackets where
  mbId : MbId
  port : UInt16
  address : Vector UInt8 maxAddressLen
  addressLen : UInt8
  packetIds : List PacketId
deriving DecidableEq

end PacketLoggerClient

open PacketLoggerClient (ReplayPackets)

/-- The `void*` of a request, by its type: a `WrappedPacketData`, the bytes of a request
for one packet, a `ReplayPackets`, or a `DeletePackets`. -/
inductive RequestObject
  | wrappedPacketData (wpd : WrappedPacketData)
  | bytes (obj : Mem)
  | replayPackets (replayData : ReplayPackets)
  | deletePackets (packetIds : List PacketId)

/-! ### The encoders

An encoder writes to the buffer of the payload and sets the length of the payload; with
a command that it does not know it leaves both as they are.  An object that is not of
the type of its command does not occur. -/

/-- `serializeWrappedPacketDataObject`, with the way in which the data is copied. -/
def serializeWrappedPacketData (copy : Mem → ℕ → List UInt8 → Mem) (wpd : WrappedPacketData)
    (serialized : Mem) : Mem × ℕ :=
  let serialized := word64.put wpd.packetId serialized 0
  let serialized := word16.put wpd.offset serialized 8
  let serialized := word16.put wpd.size serialized 10
  (copy serialized 12 wpd.data, 8 + 2 + 2 + wpd.size.toNat)

namespace PacketLoggerClient

/-- The loop that copies the data, one byte in each round. -/
def copyData (m : Mem) (r : ℕ) : List UInt8 → Mem
  | [] => m
  | b :: bs => copyData (Function.update m r b) (r + 1) bs

/-- `serializeWrappedPacketDataObject`. -/
def serializeWrappedPacketDataObject : WrappedPacketData → Mem → Mem × ℕ :=
  serializeWrappedPacketData copyData

/-- `serializeGetPacketById`. -/
def serializeGetPacketById (obj serialized : Mem) : Mem × ℕ :=
  let serialized := word16.put (word16.get obj 0) serialized 0
  (word64.put (word64.get obj 2) serialized 2, 2 + 8)

/-- `serializeReplayPacketsByIds`: of the array of the address, only the address is
copied. -/
def serializeReplayPacketsByIds (replayData : ReplayPackets) (serialized : Mem) : Mem × ℕ :=
  let serialized := word16.put replayData.mbId serialized 0
  let serialized := word16.put replayData.port serialized 2
  let serialized := Function.update serialized 4 replayData.addressLen
  let serialized :=
    memcpy serialized 5 (replayData.address.toList.take replayData.addressLen.toNat)
  (word64.putList replayData.packetIds serialized (5 + maxAddressLen),
    2 * 2 + 1 + maxAddressLen + replayData.packetIds.length * 8)

/-- `serializeDeletePacketsByIds`. -/
def serializeDeletePacketsByIds (packetIds : List PacketId) (serialized : Mem) : Mem × ℕ :=
  (word64.putList packetIds serialized 0, packetIds.length * 8)

/-- `serializeObject`. -/
def serializeObject (command : ℕ) (obj : RequestObject) (serialized : Mem) (len : ℕ) : Mem × ℕ :=
  match command, obj with
  | 0, .wrappedPacketData wpd => serializeWrappedPacketDataObject wpd serialized
  | 1, .bytes obj => serializeGetPacketById obj serialized
  | 2, .replayPackets replayData => serializeReplayPacketsByIds replayData serialized
  | 3, .deletePackets packetIds => serializeDeletePacketsByIds packetIds serialized
  | _, _ => (serialized, len)

end PacketLoggerClient

namespace PacketIdEncap

/-- `serializeWrappedPacketDataObject` of the client of `PacketIdEncap`. -/
def serializeWrappedPacketDataObject : WrappedPacketData → Mem → Mem × ℕ :=
  serializeWrappedPacketData memcpy

/-- `serializeObject` of the client of `PacketIdEncap`. -/
def serializeObject (command : ℕ) (obj : RequestObject) (serialized : Mem) (len : ℕ) : Mem × ℕ :=
  match command, obj with
  | 0, .wrappedPacketData wpd => serializeWrappedPacketDataObject wpd serialized
  | _, _ => (serialized, len)

end PacketIdEncap

namespace PacketLoggerIVClient

/-- `serializeWrappedPacketDataObject` of the client of `IncreaseVersionNumber`. -/
def serializeWrappedPacketDataObject : WrappedPacketData → Mem → Mem × ℕ :=
  serializeWrappedPacketData memcpy

/-- `serializeObject` of the client of `IncreaseVersionNumber`. -/
def serializeObject (command : ℕ) (obj : RequestObject) (serialized : Mem) (len : ℕ) : Mem × ℕ :=
  match command, obj with
  | 0, .wrappedPacketData wpd => serializeWrappedPacketDataObject wpd serialized
  | _, _ => (serialized, len)

end PacketLoggerIVClient

/-- The clients of the packet logger. -/
inductive StoreClient
  | packetLoggerClient
  | packetIdEncap
  | increaseVersionNumber

/-- `serializeObject` of a client. -/
def StoreClient.serializeObject : StoreClient → ℕ → RequestObject → Mem → ℕ → Mem × ℕ
  | .packetLoggerClient => PacketLoggerClient.serializeObject
  | .packetIdEncap => PacketIdEncap.serializeObject
  | .increaseVersionNumber => PacketLoggerIVClient.serializeObject

/-! ### The decoder -/

namespace PacketLoggerServer

/-- `deserializeClientStoreRequest`. -/
def deserializeClientStoreRequest (msg : Mem) : WrappedPacketData where
  packetId := word64.get msg 0
  offset := word16.get msg 8
  size := word16.get msg 10
  data := read msg 12 (word16.get msg 10).toNat
  length_data := length_read _ _ _

/-- `deserializeClientReplayRequest`: the array of the address is filled with zeros, and
the address is copied to it.  The header is taken to be one byte shorter than it is. -/
def deserializeClientReplayRequest (msg : Mem) (msgLen : ℕ) : ReplayPackets :=
  let addressLen := msg 4
  let vectorLen := msgLen - (2 * 2 + maxAddressLen)
  let totalNumOfPacketIdsToReplay := vectorLen / 8
  { mbId := word16.get msg 0
    port := word16.get msg 2
    address := Vector.ofFn fun i => if i < addressLen.toNat then msg (5 + i) else 0
    addressLen := addressLen
    packetIds := word64.getList totalNumOfPacketIdsToReplay msg (5 + maxAddressLen) }

/-- `deserializeClientDeletePacketsRequest`. -/
def deserializeClientDeletePacketsRequest (msg : Mem) (msgLen : ℕ) : List PacketId :=
  word64.getList (msgLen / 8) msg 0

/-- `deserializeClientRequest`, where `none` is for `NULL`. -/
def deserializeClientRequest (command : ℕ) (msg : Mem) (msgLen : ℕ) : Option RequestObject :=
  if command = storeCommandType then
    some (.wrappedPacketData (deserializeClientStoreRequest msg))
  else if command = getPacketByPackidCommandType then some (.bytes msg)
  else if command = replayPacketsByIdsCommandType then
    some (.replayPackets (deserializeClientReplayRequest msg msgLen))
  else if command = deletePacketsByIdsCommandType then
    some (.deletePackets (deserializeClientDeletePacketsRequest msg msgLen))
  else none

end PacketLoggerServer

/-! ### What was encoded is read back -/

/-- The loop that copies the data copies all of it. -/
lemma copyData_eq_memcpy (m : Mem) (p : ℕ) (bs : List UInt8) :
    PacketLoggerClient.copyData m p bs = memcpy m p bs := by
  induction bs generalizing m p with
  | nil => exact (memcpy_nil m p).symm
  | cons b bs ih =>
      have hone : Function.update m p b = memcpy m p [b] := by
        funext q
        rcases lt_trichotomy q p with hq | rfl | hq
        · rw [Function.update_of_ne (by omega), memcpy_of_lt (.inl hq)]
        · have hbyte : memcpy m q [b] (q + 0) = [b][0] := memcpy_getElem (by simp)
          simpa using hbyte.symm
        · rw [Function.update_of_ne (by omega), memcpy_of_lt (.inr (by simp; omega))]
      rw [PacketLoggerClient.copyData, ih, hone]
      exact memcpy_append m p [b] bs

/-- The three clients encode a logged part of a packet in the same way. -/
lemma StoreClient.serializeObject_store (client : StoreClient) (wpd : WrappedPacketData)
    (m : Mem) (len : ℕ) :
    client.serializeObject storeCommandType (.wrappedPacketData wpd) m len
      = serializeWrappedPacketData memcpy wpd m := by
  cases client with
  | packetLoggerClient =>
      have hcopy : PacketLoggerClient.copyData = memcpy := by
        funext m p bs
        exact copyData_eq_memcpy m p bs
      change serializeWrappedPacketData PacketLoggerClient.copyData wpd m = _
      rw [hcopy]
  | packetIdEncap => rfl
  | increaseVersionNumber => rfl

namespace PacketLoggerServer

/-- A logged part of a packet. -/
lemma deserializeClientStoreRequest_of_agreeOn (wpd : WrappedPacketData) {m m' : Mem}
    (h : AgreeOn (serializeWrappedPacketData memcpy wpd m).1 m' 0
      (serializeWrappedPacketData memcpy wpd m).2) :
    deserializeClientStoreRequest m' = wpd := by
  obtain ⟨packetId, offset, size, data, length_data⟩ := wpd
  simp only [serializeWrappedPacketData] at h
  set header := word16.put size (word16.put offset (word64.put packetId m 0) 8) 10 with hheader
  -- the data is behind the header, so the header still agrees
  have h₁ : AgreeOn header m' 0 12 := fun q _ hq => by
    rw [← h q (Nat.zero_le q) (by omega), memcpy_of_lt (.inl (by omega))]
  let codec := word64.prod (word16.prod word16)
  have hfields : codec.get m' 0 = (packetId, offset, size) := by
    rw [← codec.get_congr header m' 0 h₁]
    exact codec.get_put (packetId, offset, size) m 0
  obtain ⟨hid, hoff, hsize⟩ : word64.get m' 0 = packetId ∧ word16.get m' 8 = offset ∧
      word16.get m' 10 = size := by
    injection hfields with hid hrest
    injection hrest with hoff hsize
    exact ⟨hid, hoff, hsize⟩
  have hdata : read m' 12 size.toNat = data := by
    refine List.ext_getElem (by rw [length_read, length_data]) fun i hi hi' => ?_
    rw [length_read] at hi
    rw [← memcpy_getElem (m := header) (p := 12) hi', h (12 + i) (Nat.zero_le _) (by omega)]
    simp [Memory.read]
  simp only [deserializeClientStoreRequest, hid, hoff, hsize, hdata]

/-- The requests to replay: the ids, the fields and the address, with zeros behind it. -/
lemma deserializeClientReplayRequest_of_agreeOn (r : ReplayPackets) (hlen : r.addressLen.toNat ≤ 16)
    {m m' : Mem} (h : AgreeOn (PacketLoggerClient.serializeReplayPacketsByIds r m).1 m' 0
      (PacketLoggerClient.serializeReplayPacketsByIds r m).2) :
    deserializeClientReplayRequest m' (PacketLoggerClient.serializeReplayPacketsByIds r m).2
      = { r with
          address := Vector.ofFn fun i => if i < r.addressLen.toNat then r.address[i] else 0 } := by
  obtain ⟨mbId, port, address, addressLen, packetIds⟩ := r
  simp only [PacketLoggerClient.serializeReplayPacketsByIds, maxAddressLen] at hlen h ⊢
  set m₁ := word16.put port (word16.put mbId m 0) 2 with hm₁
  set m₂ := Function.update m₁ 4 addressLen with hm₂
  set bs := address.toList.take addressLen.toNat with hbs
  have hbslen : bs.length = addressLen.toNat := by
    rw [hbs, List.length_take, Vector.length_toList]
    exact Nat.min_eq_left hlen
  set m₃ := memcpy m₂ 5 bs with hm₃
  -- each later field is behind the earlier ones, so these still agree
  have h₃ : AgreeOn m₃ m' 0 21 := fun q _ hq => by
    exact (word64.putList_frame packetIds m₃ (.inl (by omega))).symm.trans
      (h q (Nat.zero_le q) (by omega))
  have h₂ : AgreeOn m₂ m' 0 5 := fun q _ hq => by
    rw [← h₃ q (Nat.zero_le q) (by omega), hm₃, memcpy_of_lt (.inl (by omega))]
  have h₁ : AgreeOn m₁ m' 0 4 := fun q _ hq => by
    rw [← h₂ q (Nat.zero_le q) (by omega), hm₂, Function.update_of_ne (by omega)]
  have hfields : (word16.prod word16).get m' 0 = (mbId, port) := by
    rw [← (word16.prod word16).get_congr m₁ m' 0 h₁]
    exact (word16.prod word16).get_put (mbId, port) m 0
  obtain ⟨hmb, hport⟩ : word16.get m' 0 = mbId ∧ word16.get m' 2 = port :=
    Prod.mk.inj hfields
  have haddressLen : m' 4 = addressLen := by
    rw [← h₂ 4 (by omega) (by omega), hm₂, Function.update_self]
  have haddress : ∀ i (hi : i < 16), i < addressLen.toNat → m' (5 + i) = address[i] := by
    intro i hi hlt
    rw [← h₃ (5 + i) (by omega) (by omega), hm₃, memcpy_getElem (by omega)]
    simp only [hbs, List.getElem_take, Vector.getElem_toList]
    rfl
  have hids : word64.getList packetIds.length m' 21 = packetIds := by
    rw [← word64.getList_congr (h.mono (by omega) (by simp [word64])), word64.getList_putList]
  -- the byte that the decoder forgets is less than one id
  have hcount : (2 * 2 + 1 + 16 + packetIds.length * 8 - (2 * 2 + 16)) / 8 = packetIds.length := by
    omega
  have hfilled : (Vector.ofFn fun i : Fin 16 =>
      if i.val < addressLen.toNat then m' (5 + i.val) else 0)
        = Vector.ofFn fun i : Fin 16 => if i.val < addressLen.toNat then address[i] else 0 := by
    refine congrArg Vector.ofFn (funext fun i => ?_)
    split_ifs with hlt
    · exact haddress i i.isLt hlt
    · rfl
  simp only [deserializeClientReplayRequest, maxAddressLen, hcount, hmb, hport, haddressLen, hids]
  exact congrArg (ReplayPackets.mk mbId port · addressLen packetIds) hfilled

/-- A list of ids. -/
lemma deserializeClientDeletePacketsRequest_of_agreeOn (packetIds : List PacketId) {m m' : Mem}
    (h : AgreeOn (word64.putList packetIds m 0) m' 0 (packetIds.length * 8)) :
    deserializeClientDeletePacketsRequest m' (packetIds.length * 8) = packetIds := by
  rw [deserializeClientDeletePacketsRequest, Nat.mul_div_cancel _ (by decide),
    ← word64.getList_congr h, word64.getList_putList]

/-- **The packet logger reads what its clients wrote.**  A logged part of a packet from
any of the three clients, the fields, the address and the ids of a request to replay, and
the ids of a request to delete are those that were encoded, whatever stood in the buffer
of the client (`m`) or in the rest of the buffer of the server (`m'`). -/
theorem deserializeClientRequest_serializeObject :
    (∀ (client : StoreClient) (wpd : WrappedPacketData) (m m' : Mem) (len : ℕ),
      let enc := client.serializeObject storeCommandType (.wrappedPacketData wpd) m len
      AgreeOn enc.1 m' 0 enc.2 →
        deserializeClientRequest storeCommandType m' enc.2 = some (.wrappedPacketData wpd)) ∧
    (∀ (r : ReplayPackets) (m m' : Mem) (len : ℕ), r.addressLen.toNat ≤ maxAddressLen →
      let enc := PacketLoggerClient.serializeObject replayPacketsByIdsCommandType
        (.replayPackets r) m len
      AgreeOn enc.1 m' 0 enc.2 →
        deserializeClientRequest replayPacketsByIdsCommandType m' enc.2
          = some (.replayPackets { r with
              address := Vector.ofFn fun i =>
                if i < r.addressLen.toNat then r.address[i] else 0 })) ∧
    ∀ (packetIds : List PacketId) (m m' : Mem) (len : ℕ),
      let enc := PacketLoggerClient.serializeObject deletePacketsByIdsCommandType
        (.deletePackets packetIds) m len
      AgreeOn enc.1 m' 0 enc.2 →
        deserializeClientRequest deletePacketsByIdsCommandType m' enc.2
          = some (.deletePackets packetIds) := by
  refine ⟨?store, ?replay, ?delete⟩
  case store =>
    intro client wpd m m' len enc h
    have henc : enc = serializeWrappedPacketData memcpy wpd m :=
      client.serializeObject_store wpd m len
    rw [henc] at h
    rw [deserializeClientRequest, if_pos rfl, deserializeClientStoreRequest_of_agreeOn wpd h]
  case replay =>
    intro r m m' len hlen enc h
    rw [deserializeClientRequest, if_neg (by decide), if_neg (by decide), if_pos rfl]
    exact congrArg _ (congrArg _ (deserializeClientReplayRequest_of_agreeOn r hlen h))
  case delete =>
    intro packetIds m m' len enc h
    rw [deserializeClientRequest, if_neg (by decide), if_neg (by decide), if_neg (by decide),
      if_pos rfl]
    exact congrArg _ (congrArg _ (deserializeClientDeletePacketsRequest_of_agreeOn packetIds h))

/-- A request to replay the packets 33 and 65 at `10.0.0.7`, from a buffer of the client
that is full of ones to a buffer of the server that is full of twos. -/
theorem deserializeClientRequest_serializeObject_replay :
    let address : Vector UInt8 16 := #v[49, 48, 46, 48, 46, 48, 46, 55, 0, 0, 0, 0, 0, 0, 0, 0]
    let r : ReplayPackets := ⟨7, 9999, address, 8, [33, 65]⟩
    let enc := PacketLoggerClient.serializeObject replayPacketsByIdsCommandType
      (.replayPackets r) (fun _ => 1) 0
    enc.2 = 37 ∧
      deserializeClientRequest replayPacketsByIdsCommandType
        (memcpy (fun _ => 2) 0 (Memory.read enc.1 0 37)) 37 = some (.replayPackets r) := by
  intro address r enc
  refine ⟨rfl, ?_⟩
  have hread := deserializeClientRequest_serializeObject.2.1 r (fun _ => 1)
    (memcpy (fun _ => 2) 0 (Memory.read enc.1 0 37)) 0 (by decide)
    (agreeOn_memcpy_read enc.1 _ 37)
  have haddress : (Vector.ofFn fun i : Fin maxAddressLen =>
      if i < r.addressLen.toNat then r.address[i] else 0) = address := by
    ext i hi
    rw [Vector.getElem_ofFn]
    split_ifs with hlt
    · rfl
    · have hbehind : 8 ≤ i := Nat.not_lt.mp hlt
      change i < 16 at hi
      interval_cases i <;> rfl
  rw [haddress] at hread
  exact hread

end PacketLoggerServer

end FtThesis
