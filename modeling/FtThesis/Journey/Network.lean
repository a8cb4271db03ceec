/-
The way of the packets through the masters.

A packet gets its id at the host that tags it and then passes one middlebox after another.  Each
of them reads the id, stores the determinants of the packet, increases its version, and logs it
before it goes on.  The middleboxes work at the same time, each on one packet; the loggers execute
one request after the other.

* `Middlebox`: a master with what it does with a packet between its elements;
* `Place`, `Journey`, `Visit`: where a packet is, and its history;
* `Network`, `Action`, `step`: the loggers and the packets, and what can happen;
* `Permits`: what is expected of the packets and their ways.
-/
import FtThesis.DetLogger.Server
import FtThesis.Elements.Failover
import FtThesis.Elements.Tags
import FtThesis.PacketLogger.Overlay

namespace FtThesis

open Transition

/-! ### The elements and their loggers -/

/-- What an element sends to a determinant logger is stored there. -/
def DetLoggerServer.receive (u : DetLoggerServer) (host : LoggerHost) :
    Option (LoggerHost × PALSManager) → DetLoggerServer
  | some (dest, pm) => if dest = host then u.processStoreRequest pm else u
  | none => u

/-- A master: whether the switch has removed the TSA tag of its packets (`vlanLevelOffset` is `0`)
or not (`1`), and the elements between its first `DistributePacketRecords` and its second
`PreparePacket`, which leave the tags in front of a frame and a frame that can be logged. -/
structure Middlebox where
  vlanLevelOffset : ℕ
  work : Packet → Packet
  offset_le : vlanLevelOffset ≤ 1
  keepsTags : ∀ p, (work p).data.take (24 + 4 * vlanLevelOffset)
    = p.data.take (24 + 4 * vlanLevelOffset)
  keepsSize : ∀ p, p.data.length < 2 ^ 16 → (work p).data.length < 2 ^ 16

/-- A middlebox in which there is nothing between these elements, as in the click files; of these,
the masters of `mb6.click`, `mb7.click` and `mb10.click` have the offset `0`. -/
def Middlebox.plain (vlanLevelOffset : ℕ) (h : vlanLevelOffset ≤ 1) : Middlebox :=
  ⟨vlanLevelOffset, id, h, fun _ => rfl, fun _ => id⟩

/-- The elements of a master (`mb6.click`). -/
def Middlebox.elements (box : Middlebox) (mb : MbId) : Pipeline :=
  .configure ⟨⟨mb, true, box.vlanLevelOffset, true⟩, ⟨mb, true, true⟩,
    ⟨mb, true, box.vlanLevelOffset, true⟩, ⟨true, false, true⟩, ⟨mb, true, true⟩⟩

/-! ### The packets -/

/-- Where a packet is: between two middleboxes, or in one of them before its first element, behind
its first `DistributePacketRecords`, or behind its `IncreaseVersionNumber`. -/
inductive Place
  | link
  | arrived (mb : MbId)
  | recorded (mb : MbId)
  | logged (mb : MbId)
deriving DecidableEq

/-- The middlebox that a packet is in. -/
def Place.middlebox : Place → Option MbId
  | link => none
  | arrived mb | recorded mb | logged mb => some mb

/-- A packet and where it is, with its history: the frames that were logged of it, in the order of
the versions, and the middleboxes that it has come to. -/
structure Journey where
  packet : Packet
  place : Place
  frames : List (List UInt8)
  way : List MbId

/-- A packet that came to a middlebox, with the number of its versions then and the last frame
that was logged of it. -/
structure Visit where
  key : ℕ × ℕ
  versions : ℕ
  frame : List UInt8

/-- The id of the first version of a packet, by its producer and its number there. -/
def firstId (key : ℕ × ℕ) : PacketId := UInt64.ofNat (unifiedId key.1 (nthSeqNum key.1 key.2))

/-- The id of version `n` of a packet. -/
def idOf (key : ℕ × ℕ) (n : ℕ) : PacketId := firstId key + UInt64.ofNat (n - 1)

/-- The id with which the packet came to the middlebox. -/
def Visit.id (v : Visit) : PacketId := idOf v.key v.versions

/-- The ids that a master stores for the visit, before and behind its
`IncreaseVersionNumber`. -/
def Visit.ids (v : Visit) : List PacketId := [idOf v.key v.versions, idOf v.key (v.versions + 1)]

/-! ### The network -/

/-- The elements that make the ids, the loggers of the masters, and the packets, by producer and
number; and the history: how many packets each producer has tagged, the requests to the packet
logger, the packets that each middlebox has recorded, and the ids that were removed from its
list. -/
structure Network where
  producers : ℕ → PacketIdEncap
  packetLogger : PacketLoggerServer
  detLogger : DetLoggerServer
  journeys : ℕ × ℕ → Option Journey
  made : ℕ → ℕ
  requests : List PacketLoggerServer.LogRequest
  visits : MbId → List Visit
  cleared : MbId → List PacketId

namespace Network

/-- The network at its start (`PacketIdEncap(p, true, false)`). -/
def new : Network where
  producers p := ⟨.fresh p, true, false⟩
  packetLogger := .new
  detLogger := .new
  journeys _ := none
  made _ := 0
  requests := []
  visits _ := []
  cleared _ := []

/-- What happens: a producer tags and logs a frame; a packet comes to a middlebox, passes its first
two elements, the next two, and its last one; packets are deleted at the packet logger, and the
first ids of a middlebox at the determinant logger. -/
inductive Action
  | enter (p : ℕ) (packet : Packet)
  | arrive (key : ℕ × ℕ) (mb : MbId)
  | record (key : ℕ × ℕ)
  | log (key : ℕ × ℕ)
  | forward (key : ℕ × ℕ)
  | deletePackets (packetsToDelete : List PacketId)
  | deleteFirstPackets (mbId : MbId) (numPackets : UInt32)

/-- A packet with its place and its history becomes the given one. -/
def setJourney (s : Network) (key : ℕ × ℕ) (j : Journey) : Network :=
  { s with journeys := Function.update s.journeys key (some j) }

/-- A request of the packet logger is executed. -/
def request (s : Network) (r : PacketLoggerServer.LogRequest) : Network :=
  { s with packetLogger := s.packetLogger.processLogRequest r, requests := s.requests ++ [r] }

/-- What is to be logged, if anything is, is stored at the packet logger. -/
def logs (s : Network) : Option WrappedPacketData → Network
  | some wpd => s.request (.store wpd)
  | none => s

/-- What an element sends over its client, if this is connected, is stored at the packet
logger. -/
def sends (s : Network) : Option (Option LoggerClient × WrappedPacketData) → Network
  | some (some client, wpd) => if client.connected then s.logs (some wpd) else s
  | _ => s

/-- A producer tags a packet and logs its first version. -/
def enter (s : Network) (p : ℕ) (packet : Packet) : Network :=
  let (q, wpd, e) := (s.producers p).smaction packet
  let s := (s.logs wpd).setJourney (p, s.made p) ⟨q, .link, [q.data], []⟩
  { s with
    producers := Function.update s.producers p e
    made := Function.update s.made p (s.made p + 1) }

/-- The packet passes `PreparePacket` and `DistributePacketRecords`. -/
def record (boxes : MbId → Middlebox) (s : Network) (key : ℕ × ℕ) (j : Journey) (mb : MbId) :
    Network :=
  let elements := (boxes mb).elements mb
  let (q, stored) := elements.dpr.smaction (elements.pp.smaction PALSManager.new j.packet)
  let visit : Visit := ⟨key, j.frames.length, j.frames.getLast?.getD []⟩
  { s.setJourney key { j with packet := q, place := .recorded mb } with
    detLogger := s.detLogger.receive .detLogger stored
    visits := Function.update s.visits mb (s.visits mb ++ [visit]) }

/-- The packet passes the middlebox, `PreparePacket` and `IncreaseVersionNumber`. -/
def log (boxes : MbId → Middlebox) (s : Network) (key : ℕ × ℕ) (j : Journey) (mb : MbId) :
    Network :=
  let elements := (boxes mb).elements mb
  let (q, sent) := elements.ivn.smaction
    (elements.pp1.smaction PALSManager.new ((boxes mb).work j.packet))
  (s.sends sent).setJourney key
    { j with packet := q, place := .logged mb, frames := j.frames ++ [q.data] }

/-- The packet passes the last `DistributePacketRecords` and leaves the middlebox. -/
def forward (boxes : MbId → Middlebox) (s : Network) (key : ℕ × ℕ) (j : Journey) (mb : MbId) :
    Network :=
  let (q, stored) := ((boxes mb).elements mb).dpr1.smaction j.packet
  { s.setJourney key { j with packet := q, place := .link } with
    detLogger := s.detLogger.receive .detLogger stored }

/-- The first ids of a middlebox are removed from its list. -/
def deleteFirst (s : Network) (mbId : MbId) (numPackets : UInt32) : Network :=
  { s with
    detLogger := s.detLogger.processDeleteFirstPacketsRequest mbId numPackets
    cleared := Function.update s.cleared mbId
      (s.cleared mbId ++ s.detLogger.removed mbId numPackets) }

/-- One action, if it is possible: a middlebox takes a packet when it is free. -/
def step (boxes : MbId → Middlebox) (s : Network) : Action → Network → Prop
  | .enter p packet, t => t = s.enter p packet
  | .arrive key mb, t => ∃ j, s.journeys key = some j ∧ j.place = .link ∧
      (∀ key' j', s.journeys key' = some j' → j'.place.middlebox ≠ some mb) ∧
      t = s.setJourney key { j with
        packet := receivedAt (boxes mb).vlanLevelOffset j.packet
        place := .arrived mb
        way := j.way ++ [mb] }
  | .record key, t => ∃ j mb, s.journeys key = some j ∧ j.place = .arrived mb ∧
      t = s.record boxes key j mb
  | .log key, t => ∃ j mb, s.journeys key = some j ∧ j.place = .recorded mb ∧
      t = s.log boxes key j mb
  | .forward key, t => ∃ j mb, s.journeys key = some j ∧ j.place = .logged mb ∧
      t = s.forward boxes key j mb
  | .deletePackets packetsToDelete, t => t = s.request (.deletePackets packetsToDelete)
  | .deleteFirstPackets mbId numPackets, t => t = s.deleteFirst mbId numPackets

/-- What is expected: a producer id from `1` to `6` with ids left, a frame with a tag in front that
can be logged; a packet with at most `28` middleboxes behind it that comes to another one, with
its TSA tag. -/
def Permits (boxes : MbId → Middlebox) (s : Network) : Action → Prop
  | .enter p packet => (1 ≤ p ∧ p ≤ 6) ∧ s.made p < seqPeriod ∧ 16 ≤ packet.data.length ∧
      packet.data.length + 12 < 2 ^ 16
  | .arrive key mb => ∀ j, s.journeys key = some j → j.frames.length ≤ 29 ∧ mb ∉ j.way ∧
      ∀ mb' ∈ j.way, (boxes mb').vlanLevelOffset = 1
  | _ => True

end Network

end FtThesis
