/-
Operations of the packet logger that run at the same time.

The requests of the clients are executed as operations on records: a store adds a fragment, a
replay gets one packet after the other, and a deletion deletes them one by one.  An operation is a
sequence of sections under locks: it looks its record up, works on it, and a deletion also takes the
record out of the map.  Besides, a store reads the map twice without its lock, to print how often
its base is there, and at its end how many bases there are.

* `PacketOperation`, `PacketAnswer`, `PacketPhase`: the operations, what they come to, and how far
  they have come;
* `LoggerSections`: the map and the records in memory;
* `LoggerSections.step`: one section, or the begin or the end of a read without a lock, with the
  operation and its answer at the section at which the operation takes effect.
-/
import FtThesis.Library.Linearization
import FtThesis.PacketLogger.Server

namespace FtThesis

open Memory Transition

/-! ### The state -/

/-- `addPacketVersion` with the record of the packet, `getPacket` with the contents of its buffer,
and `deletePacket`. -/
inductive PacketOperation
  | store (wpd : WrappedPacketData)
  | get (packId : PacketId) (retVal : Mem)
  | delete (packId : PacketId)

/-- What an operation comes to: nothing, the buffer with the length of the packet, or whether the
packet is deleted. -/
inductive PacketAnswer
  | stored
  | packet (retVal : Mem) (retValLen : ℕ)
  | deleted (result : Bool)

/-- How far an operation has come, with the address of the record that it has looked up.  A store
reads the map without its lock while it is `counting` and while it is `sizing`. -/
inductive PacketPhase
  | idle
  | counting (wpd : WrappedPacketData)
  | counted (wpd : WrappedPacketData)
  | storing (wpd : WrappedPacketData) (pvd : ℕ)
  | added (wpd : WrappedPacketData)
  | sizing (wpd : WrappedPacketData)
  | reading (packId : PacketId) (retVal : Mem) (pvd : ℕ)
  | deleting (packId : PacketId) (pvd : ℕ)
  | erasing (packId : PacketId) (pvd : ℕ)
  | answered (operation : PacketOperation) (answer : PacketAnswer)

namespace PacketPhase

/-- The base of the packet and the address of the record that an operation works on. -/
def holds : PacketPhase → Option (PacketBase × ℕ)
  | storing wpd pvd => some (base wpd.packetId, pvd)
  | reading packId _ pvd | deleting packId pvd | erasing packId pvd => some (base packId, pvd)
  | idle | counting _ | counted _ | added _ | sizing _ | answered .. => none

/-- The operation that has taken effect, with its answer. -/
def committed : PacketPhase → Option (PacketOperation × PacketAnswer)
  | added wpd | sizing wpd => some (.store wpd, .stored)
  | erasing packId _ => some (.delete packId, .deleted true)
  | answered operation answer => some (operation, answer)
  | _ => none

/-- The record is freed, but still in the map. -/
def Erases (p : PacketPhase) : Prop := ∃ packId pvd, p = erasing packId pvd

/-- The map is read without its lock. -/
def ReadsMap : PacketPhase → Bool
  | counting _ | sizing _ => true
  | _ => false

end PacketPhase

/-- The state of the packet logger: the addresses of the records, the records by their addresses
(`none` for what was not allocated or is freed), the next new address, and the operations. -/
structure LoggerSections where
  packetsVersions : PacketBase → Option ℕ
  memory : ℕ → Option PacketVersionsData
  nextAddress : ℕ
  operations : ℕ → PacketPhase

namespace LoggerSections

/-- The server at its start. -/
def new : LoggerSections := ⟨fun _ => none, fun _ => none, 0, fun _ => .idle⟩

/-- The operation has come to the given phase. -/
def setOperation (s : LoggerSections) (r : ℕ) (p : PacketPhase) : LoggerSections :=
  { s with operations := Function.update s.operations r p }

/-- The record at an address becomes the given one, or is freed. -/
def setRecord (s : LoggerSections) (pvd : ℕ) (record : Option PacketVersionsData) :
    LoggerSections :=
  { s with memory := Function.update s.memory pvd record }

/-! ### The sections -/

/-- The sections of the operations, each with the number of its operation, and the begins and the
ends of the reads without a lock (`packetsVersions.count` and `packetsVersions.size`). -/
inductive Section
  | beginCount (r : ℕ) (wpd : WrappedPacketData)
  | endCount (r : ℕ)
  | getOrCreate (r : ℕ)
  | addVersion (r : ℕ)
  | beginSize (r : ℕ)
  | endSize (r : ℕ)
  | find (r : ℕ) (packId : PacketId) (retVal : Mem)
  | copyVersions (r : ℕ)
  | lookup (r : ℕ) (packId : PacketId)
  | clear (r : ℕ)
  | erase (r : ℕ)

/-- A new record for a base. -/
def createRecord (s : LoggerSections) (b : PacketBase) : LoggerSections :=
  { s with
    packetsVersions := Function.update s.packetsVersions b (some s.nextAddress)
    memory := Function.update s.memory s.nextAddress (some ⟨[], 0⟩)
    nextAddress := s.nextAddress + 1 }

/-- The locked part of `getOrCreateServerProgressData`. -/
def getOrCreate (s : LoggerSections) (r : ℕ) (wpd : WrappedPacketData) : LoggerSections :=
  match s.packetsVersions (base wpd.packetId) with
  | none => (s.createRecord (base wpd.packetId)).setOperation r (.storing wpd s.nextAddress)
  | some pvd => s.setOperation r (.storing wpd pvd)

/-- The locked part of `addPacketVersion`. -/
def addVersion (s : LoggerSections) (r : ℕ) (wpd : WrappedPacketData) (pvd : ℕ) : LoggerSections :=
  let record := (s.memory pvd).getD ⟨[], 0⟩
  (s.setRecord pvd (some (PacketLoggerServer.addPacketVersion record wpd))).setOperation r
    (.added wpd)

/-- The loop of `getPacket`, on the fragments of a record. -/
def copyAll (srt : VersionSort) (record : PacketVersionsData) (packId : PacketId) (retVal : Mem) :
    Mem × ℕ :=
  (PacketLoggerServer.usedVersions srt record (version packId)).foldl
    PacketLoggerServer.copyVersion (retVal, 0)

/-- The end of `deletePacket`, which takes the record out of the map. -/
def erase (s : LoggerSections) (r : ℕ) (packId : PacketId) : LoggerSections :=
  { s with packetsVersions := Function.update s.packetsVersions (base packId) none }.setOperation r
    (.answered (.delete packId) (.deleted true))

/-- An operation with its number and its answer. -/
abbrev Event : Type := ℕ × PacketOperation × PacketAnswer

/-- The operation takes effect with the given answer, which ends it. -/
def answer (s : LoggerSections) (r : ℕ) (operation : PacketOperation) (ans : PacketAnswer) :
    Option (LoggerSections × Option Event) :=
  some (s.setOperation r (.answered operation ans), some (r, operation, ans))

/-- One section of an operation runs, with the operation and its answer if it takes effect now. -/
def step (srt : VersionSort) (s : LoggerSections) : Section → Option (LoggerSections × Option Event)
  | .beginCount r wpd =>
      match s.operations r with
      | .idle => some (s.setOperation r (.counting wpd), none)
      | _ => none
  | .endCount r =>
      match s.operations r with
      | .counting wpd => some (s.setOperation r (.counted wpd), none)
      | _ => none
  | .getOrCreate r =>
      match s.operations r with
      | .counted wpd => some (s.getOrCreate r wpd, none)
      | _ => none
  | .addVersion r =>
      match s.operations r with
      | .storing wpd pvd => some (s.addVersion r wpd pvd, some (r, .store wpd, .stored))
      | _ => none
  | .beginSize r =>
      match s.operations r with
      | .added wpd => some (s.setOperation r (.sizing wpd), none)
      | _ => none
  | .endSize r =>
      match s.operations r with
      | .sizing wpd => some (s.setOperation r (.answered (.store wpd) .stored), none)
      | _ => none
  | .find r packId retVal =>
      match s.operations r with
      | .idle =>
          match s.packetsVersions (base packId) with
          | none => s.answer r (.get packId retVal) (.packet retVal 0)
          | some pvd => some (s.setOperation r (.reading packId retVal pvd), none)
      | _ => none
  | .copyVersions r =>
      match s.operations r with
      | .reading packId retVal pvd =>
          let reply := copyAll srt ((s.memory pvd).getD ⟨[], 0⟩) packId retVal
          s.answer r (.get packId retVal) (.packet reply.1 reply.2)
      | _ => none
  | .lookup r packId =>
      match s.operations r with
      | .idle =>
          match s.packetsVersions (base packId) with
          | none => s.answer r (.delete packId) (.deleted true)
          | some pvd => some (s.setOperation r (.deleting packId pvd), none)
      | _ => none
  | .clear r =>
      match s.operations r with
      | .deleting packId pvd =>
          -- partial versions are not deleted
          if version packId < ((s.memory pvd).getD ⟨[], 0⟩).index.toNat then
            s.answer r (.delete packId) (.deleted false)
          else
            some ((s.setRecord pvd none).setOperation r (.erasing packId pvd),
              some (r, .delete packId, .deleted true))
      | _ => none
  | .erase r =>
      match s.operations r with
      | .erasing packId _ => some (s.erase r packId, none)
      | _ => none

/-- The steps of the server, each with the event that it makes visible. -/
def Steps (srt : VersionSort) (s : LoggerSections) (a : Section × Option Event)
    (t : LoggerSections) : Prop :=
  s.step srt a.1 = some (t, a.2)

variable (s : LoggerSections) (r : ℕ) (p : PacketPhase)

@[simp] lemma packetsVersions_setOperation :
    (s.setOperation r p).packetsVersions = s.packetsVersions := rfl

@[simp] lemma memory_setOperation : (s.setOperation r p).memory = s.memory := rfl

lemma memory_setRecord (pvd : ℕ) (record : Option PacketVersionsData) (q : ℕ) :
    (s.setRecord pvd record).memory q = if q = pvd then record else s.memory q :=
  Function.update_apply ..

@[simp] lemma operations_setOperation_self : (s.setOperation r p).operations r = p :=
  Function.update_self ..

/-- The phase of an operation after one of them has come to a phase. -/
lemma cases_setOperation (r' : ℕ) :
    r' = r ∧ (s.setOperation r p).operations r' = p ∨
      r' ≠ r ∧ (s.setOperation r p).operations r' = s.operations r' := by
  rcases eq_or_ne r' r with rfl | hne
  · exact .inl ⟨rfl, operations_setOperation_self ..⟩
  · exact .inr ⟨hne, Function.update_of_ne hne ..⟩

end LoggerSections

end FtThesis
