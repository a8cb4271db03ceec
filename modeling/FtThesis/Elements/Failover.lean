/-
The modes of the elements of a middlebox, and the connections they were configured with.

The packets of a middlebox pass two `PreparePacket`, two `DistributePacketRecords` and an
`IncreaseVersionNumber`, one packet after the other.  Each element connects to its logger
when it is configured; the handlers change its mode only.

* `LoggerClient`: a client, with the server it is connected to;
* `ConnectedPreparePacket`, `DistributePacketRecords`, `ConnectedIncreaseVersionNumber`: the
  elements with their clients and handlers;
* `Prepares`, `Stores`, `Sends`: what each of them is to do with a packet;
* `prepares_iff`, `stores_iff`, `sends_iff`: when it does so;
* `Pipeline`, `PipelineEvent`: the elements in a row, and what happens to them;
* `pipeline_right_iff`: the runs in which every packet is treated as it should be;
* `not_pipeline_right`: a slave that becomes master.
-/
import FtThesis.Elements.Packet
import FtThesis.Library.Runs

namespace FtThesis

open Transition

/-- The servers that the elements connect to: the master determinant logger (`10.0.0.5`),
the one of the slaves (`10.0.0.8`), and the packet logger (`10.0.0.4`). -/
inductive LoggerHost
  | detLogger
  | slaveDetLogger
  | packetLogger
deriving DecidableEq

/-- A `Client` after `connectToServer`, which does not report whether it has succeeded. -/
structure LoggerClient where
  host : LoggerHost
  connected : Bool

/-! ### `PreparePacket` -/

/-- The configuration of a `PreparePacket`, and whether its connection is made. -/
structure PreparePacketConfig where
  masterMbId : MbId
  isMasterMode : Bool
  vlanLevelOffset : ℕ
  connects : Bool

/-- A `PreparePacket` with its client, if one was created. -/
structure ConnectedPreparePacket extends PreparePacket where
  detLoggerClient : Option LoggerClient

/-- The writes to the handlers of a `PreparePacket`. -/
inductive PrepareWrite
  | toMaster
  | enforceToMaster
  | recover

namespace ConnectedPreparePacket

/-- `PreparePacket::configure`. -/
def configure (conf : PreparePacketConfig) : ConnectedPreparePacket where
  masterMbId := conf.masterMbId
  mbState := if conf.isMasterMode then .master else .slave
  vlanLevelOffset := conf.vlanLevelOffset
  detLoggerClient := if conf.isMasterMode then none else some ⟨.detLogger, conf.connects⟩

/-- `getPals`, where `answer` is what the determinant logger answers.  If the request fails
the new manager is left as it is. -/
def getPals (client : LoggerClient) (answer : MbId → PacketId → PALSManager) (mbId : MbId)
    (packId : PacketId) : PALSManager :=
  if client.connected then answer mbId packId else PALSManager.new 0 0

/-- `PreparePacket::smaction`.  The reference to the determinants is undefined also for a
slave without a client. -/
def smaction (e : ConnectedPreparePacket) (answer : MbId → PacketId → PALSManager)
    (p : Packet) : Packet :=
  match e.detLoggerClient with
  | some client => e.toPreparePacket.smaction (getPals client answer) p
  | none =>
      let q := e.toPreparePacket.smaction answer p
      if e.mbState = .slave then { q with palsManagerAnno := none } else q

/-- `changeModeToMaster`: whether the mode is changed, and the element after it. -/
def changeModeToMaster (e : ConnectedPreparePacket) : Bool × ConnectedPreparePacket :=
  if e.mbState = .recovering then (false, e) else (true, { e with mbState := .master })

/-- `write_handler` of `PreparePacket`. -/
def writeHandler (e : ConnectedPreparePacket) : PrepareWrite → ConnectedPreparePacket
  | .toMaster => e.changeModeToMaster.2
  | .enforceToMaster => { e with mbState := .master }
  | .recover => { e with mbState := .recovering }

/-- The packet leaves with determinants that were made for it: those of a master, or the
answer to a request with its id. -/
def Prepares (e : ConnectedPreparePacket) (answer : MbId → PacketId → PALSManager)
    (p : Packet) : Prop :=
  ∃ pm, (e.smaction answer p).palsManagerAnno = some pm ∧
    (pm = dummyPals ∨ ∃ client, e.detLoggerClient = some client ∧
      pm = getPals client answer e.masterMbId (e.smaction answer p).packIdAnno)

/-- What the handlers leave as it was configured. -/
structure Of (conf : PreparePacketConfig) (e : ConnectedPreparePacket) : Prop where
  client : e.detLoggerClient = (configure conf).detLoggerClient
  ne_error : e.mbState ≠ .error
  of_slave : e.mbState = .slave → conf.isMasterMode = false

lemma of_configure (conf : PreparePacketConfig) : Of conf (configure conf) := by
  refine ⟨rfl, ?_, ?_⟩ <;> cases h : conf.isMasterMode <;> simp [configure, h]

lemma Of.writeHandler {conf : PreparePacketConfig} {e : ConnectedPreparePacket} (h : Of conf e)
    (w : PrepareWrite) : Of conf (e.writeHandler w) := by
  cases w with
  | toMaster =>
      rw [ConnectedPreparePacket.writeHandler, changeModeToMaster]
      split_ifs
      · exact h
      · exact ⟨h.client, nofun, nofun⟩
  | enforceToMaster => exact ⟨h.client, nofun, nofun⟩
  | recover => exact ⟨h.client, nofun, nofun⟩

/-- A packet gets its determinants unless the element is recovering. -/
lemma prepares_iff {conf : PreparePacketConfig} {e : ConnectedPreparePacket} (h : Of conf e)
    (answer : MbId → PacketId → PALSManager) (p : Packet) :
    e.Prepares answer p ↔ e.mbState ≠ .recovering := by
  cases hstate : e.mbState with
  | master =>
      simp only [ne_eq, reduceCtorEq, not_false_eq_true, iff_true]
      refine ⟨dummyPals, ?_, .inl rfl⟩
      cases hclient : e.detLoggerClient <;>
        simp [smaction, hclient, PreparePacket.smaction, hstate]
  | slave =>
      simp only [ne_eq, reduceCtorEq, not_false_eq_true, iff_true]
      have hclient : e.detLoggerClient = some ⟨.detLogger, conf.connects⟩ := by
        rw [h.client, configure, h.of_slave hstate]
        rfl
      refine ⟨_, ?_, .inr ⟨_, hclient, rfl⟩⟩
      simp [smaction, hclient, PreparePacket.smaction, hstate]
  | recovering =>
      simp only [ne_eq, not_true_eq_false, iff_false]
      rintro ⟨pm, hpm, -⟩
      cases hclient : e.detLoggerClient <;>
        simp [smaction, hclient, PreparePacket.smaction, hstate] at hpm
  | error => exact absurd hstate h.ne_error

end ConnectedPreparePacket

/-! ### `DistributePacketRecords` -/

/-- The configuration of a `DistributePacketRecords`, and whether its connection is made. -/
structure DistributeConfig where
  mbId : MbId
  isMasterMode : Bool
  connects : Bool

/-- The state of a `DistributePacketRecords`. -/
structure DistributePacketRecords where
  mbId : MbId
  isMasterMode : Bool
  detLoggerClient : LoggerClient

/-- The writes to the handlers of a `DistributePacketRecords` and of an
`IncreaseVersionNumber`. -/
inductive ModeWrite
  | toMaster
  | toSlave

namespace DistributePacketRecords

/-- `DistributePacketRecords::configure`. -/
def configure (conf : DistributeConfig) : DistributePacketRecords where
  mbId := conf.mbId
  isMasterMode := conf.isMasterMode
  detLoggerClient :=
    if conf.isMasterMode then ⟨.detLogger, conf.connects⟩ else ⟨.slaveDetLogger, conf.connects⟩

/-- `sendToLogger`: what is stored, and where. -/
def sendToLogger (e : DistributePacketRecords) (pm : PALSManager) :
    Option (LoggerHost × PALSManager) :=
  if e.detLoggerClient.connected then some (e.detLoggerClient.host, pm) else none

/-- `smactionMaster`.  With an undefined reference to the determinants nothing is known to be
stored. -/
def smactionMaster (e : DistributePacketRecords) (p : Packet) :
    Option (LoggerHost × PALSManager) :=
  p.palsManagerAnno.bind fun pm =>
    e.sendToLogger { pm with middleboxId := e.mbId, packetId := p.packIdAnno }

/-- `smactionSlave`. -/
def smactionSlave (e : DistributePacketRecords) (p : Packet) : Option (LoggerHost × PALSManager) :=
  e.sendToLogger (PALSManager.new e.mbId p.packIdAnno)

/-- `DistributePacketRecords::smaction`: the packet, whose determinants are freed, and what is
stored. -/
def smaction (e : DistributePacketRecords) (p : Packet) :
    Packet × Option (LoggerHost × PALSManager) :=
  ({ p with palsManagerAnno := none },
    if e.isMasterMode then e.smactionMaster p else e.smactionSlave p)

/-- `write_handler` of `DistributePacketRecords`. -/
def writeHandler (e : DistributePacketRecords) : ModeWrite → DistributePacketRecords
  | .toMaster => { e with isMasterMode := true }
  | .toSlave => { e with isMasterMode := false }

/-- The record of the packet is stored at the determinant logger of the mode. -/
def Stores (e : DistributePacketRecords) (p : Packet) : Prop :=
  ∃ pm, (e.smaction p).2 =
      some (if e.isMasterMode then .detLogger else .slaveDetLogger, pm) ∧
    pm.middleboxId = e.mbId ∧ pm.packetId = p.packIdAnno

lemma detLoggerClient_writeHandler (e : DistributePacketRecords) (w : ModeWrite) :
    (e.writeHandler w).detLoggerClient = e.detLoggerClient := by
  cases w <;> rfl

/-- In both modes a record with the ids of the packet is sent to the logger. -/
lemma smaction_eq_sendToLogger (e : DistributePacketRecords) {p : Packet}
    (hp : p.palsManagerAnno ≠ none) :
    ∃ pm, (e.smaction p).2 = e.sendToLogger pm ∧ pm.middleboxId = e.mbId ∧
      pm.packetId = p.packIdAnno := by
  obtain ⟨pm, hpm⟩ := Option.ne_none_iff_exists'.mp hp
  cases hmode : e.isMasterMode with
  | true =>
      refine ⟨{ pm with middleboxId := e.mbId, packetId := p.packIdAnno }, ?_, rfl, rfl⟩
      simp [smaction, hmode, smactionMaster, hpm]
  | false =>
      refine ⟨PALSManager.new e.mbId p.packIdAnno, ?_, rfl, rfl⟩
      simp [smaction, hmode, smactionSlave]

/-- A packet with determinants is stored at the logger of the mode when the connection is made
and the mode is the one of the configuration. -/
lemma stores_iff {conf : DistributeConfig} {e : DistributePacketRecords}
    (h : e.detLoggerClient = (configure conf).detLoggerClient) {p : Packet}
    (hp : p.palsManagerAnno ≠ none) :
    e.Stores p ↔ conf.connects = true ∧ e.isMasterMode = conf.isMasterMode := by
  obtain ⟨pm, hsent, hids⟩ := e.smaction_eq_sendToLogger hp
  have hclient : e.detLoggerClient =
      ⟨if conf.isMasterMode then .detLogger else .slaveDetLogger, conf.connects⟩ := by
    rw [h, configure]
    cases conf.isMasterMode <;> rfl
  have hsend : e.sendToLogger pm = if conf.connects then
      some (if conf.isMasterMode then .detLogger else .slaveDetLogger, pm) else none := by
    rw [sendToLogger, hclient]
  rw [Stores, hsent, hsend]
  constructor
  · rintro ⟨pm', hstored, -⟩
    by_cases hconnects : conf.connects = true
    · rw [if_pos hconnects] at hstored
      have hhost := congrArg Prod.fst (Option.some.inj hstored)
      refine ⟨hconnects, ?_⟩
      cases hm : e.isMasterMode <;> cases hm' : conf.isMasterMode <;> simp [hm, hm'] at hhost ⊢
    · rw [if_neg hconnects] at hstored
      cases hstored
  · rintro ⟨hconnects, hmode⟩
    exact ⟨pm, by rw [if_pos hconnects, hmode], hids⟩

end DistributePacketRecords

/-! ### `IncreaseVersionNumber` -/

/-- The configuration of an `IncreaseVersionNumber`, and whether its connection is made. -/
structure IncreaseConfig where
  isMasterMode : Bool
  onlyHeader : Bool
  connects : Bool

/-- An `IncreaseVersionNumber` with its client, if one was created. -/
structure ConnectedIncreaseVersionNumber extends IncreaseVersionNumber where
  client : Option LoggerClient

namespace ConnectedIncreaseVersionNumber

/-- `IncreaseVersionNumber::configure`. -/
def configure (conf : IncreaseConfig) : ConnectedIncreaseVersionNumber where
  isMasterMode := conf.isMasterMode
  onlyHeader := conf.onlyHeader
  client := if conf.isMasterMode then some ⟨.packetLogger, conf.connects⟩ else none

/-- `IncreaseVersionNumber::smaction`: the packet, and what is sent, with the client. -/
def smaction (e : ConnectedIncreaseVersionNumber) (p : Packet) :
    Packet × Option (Option LoggerClient × WrappedPacketData) :=
  let (q, wpd) := e.toIncreaseVersionNumber.smaction p
  (q, wpd.map fun wpd => (e.client, wpd))

/-- `write_handler` of `IncreaseVersionNumber`. -/
def writeHandler (e : ConnectedIncreaseVersionNumber) :
    ModeWrite → ConnectedIncreaseVersionNumber
  | .toMaster => { e with isMasterMode := true }
  | .toSlave => { e with isMasterMode := false }

/-- What is sent is sent over a client that was created and connected. -/
def Sends (e : ConnectedIncreaseVersionNumber) (p : Packet) : Prop :=
  ∀ sent ∈ (e.smaction p).2, ∃ client, sent.1 = some client ∧ client.connected = true

lemma client_writeHandler (e : ConnectedIncreaseVersionNumber) (w : ModeWrite) :
    (e.writeHandler w).client = e.client := by
  cases w <;> rfl

/-- What there is to send is sent over a connection when the element was configured as master
and the connection was made. -/
lemma sends_iff {conf : IncreaseConfig} {e : ConnectedIncreaseVersionNumber}
    (h : e.client = (configure conf).client) (p : Packet) :
    e.Sends p ↔
      ((e.toIncreaseVersionNumber.smaction p).2.isSome →
        conf.isMasterMode = true ∧ conf.connects = true) := by
  cases hwpd : (e.toIncreaseVersionNumber.smaction p).2 with
  | none => simp [Sends, smaction, hwpd]
  | some wpd =>
      cases hmode : conf.isMasterMode <;> simp [Sends, smaction, hwpd, h, configure, hmode]

end ConnectedIncreaseVersionNumber

/-! ### The elements in a row -/

/-- The configuration of the elements of a middlebox. -/
structure PipelineConfig where
  pp : PreparePacketConfig
  dpr : DistributeConfig
  pp1 : PreparePacketConfig
  ivn : IncreaseConfig
  dpr1 : DistributeConfig

/-- The elements of a middlebox, in the order in which a packet passes them. -/
structure Pipeline where
  pp : ConnectedPreparePacket
  dpr : DistributePacketRecords
  pp1 : ConnectedPreparePacket
  ivn : ConnectedIncreaseVersionNumber
  dpr1 : DistributePacketRecords

/-- What happens to the elements: writes to their handlers, and packets, each with what the
determinant logger answers to the two requests for it. -/
inductive PipelineEvent
  | writePp (w : PrepareWrite)
  | writeDpr (w : ModeWrite)
  | writePp1 (w : PrepareWrite)
  | writeIvn (w : ModeWrite)
  | writeDpr1 (w : ModeWrite)
  | packet (p : Packet) (answer answer₁ : MbId → PacketId → PALSManager)

namespace Pipeline

/-- The elements after their configuration. -/
def configure (conf : PipelineConfig) : Pipeline where
  pp := .configure conf.pp
  dpr := .configure conf.dpr
  pp1 := .configure conf.pp1
  ivn := .configure conf.ivn
  dpr1 := .configure conf.dpr1

/-- The elements after an event.  A packet leaves them as they are. -/
def after (s : Pipeline) : PipelineEvent → Pipeline
  | .writePp w => { s with pp := s.pp.writeHandler w }
  | .writeDpr w => { s with dpr := s.dpr.writeHandler w }
  | .writePp1 w => { s with pp1 := s.pp1.writeHandler w }
  | .writeIvn w => { s with ivn := s.ivn.writeHandler w }
  | .writeDpr1 w => { s with dpr1 := s.dpr1.writeHandler w }
  | .packet .. => s

/-- The steps of the elements. -/
def Step (s : Pipeline) (a : PipelineEvent) (t : Pipeline) : Prop := t = s.after a

/-- A packet, as each element hands it to the next one. -/
def atDpr (s : Pipeline) (p : Packet) (answer : MbId → PacketId → PALSManager) : Packet :=
  s.pp.smaction answer p

/-- The packet as it reaches the second `PreparePacket`. -/
def atPp1 (s : Pipeline) (p : Packet) (answer : MbId → PacketId → PALSManager) : Packet :=
  (s.dpr.smaction (s.atDpr p answer)).1

/-- The packet as it reaches the `IncreaseVersionNumber`. -/
def atIvn (s : Pipeline) (p : Packet) (answer answer₁ : MbId → PacketId → PALSManager) : Packet :=
  s.pp1.smaction answer₁ (s.atPp1 p answer)

/-- The packet as it reaches the last element. -/
def atDpr1 (s : Pipeline) (p : Packet) (answer answer₁ : MbId → PacketId → PALSManager) :
    Packet :=
  (s.ivn.smaction (s.atIvn p answer answer₁)).1

/-- Each element does with the packet what it is to do in its mode. -/
def Right (s : Pipeline) : PipelineEvent → Prop
  | .packet p answer answer₁ =>
      s.pp.Prepares answer p ∧
        s.dpr.Stores (s.atDpr p answer) ∧
        s.pp1.Prepares answer₁ (s.atPp1 p answer) ∧
        s.ivn.Sends (s.atIvn p answer answer₁) ∧
        s.dpr1.Stores (s.atDpr1 p answer answer₁)
  | _ => True

/-- The condition on a packet: neither `PreparePacket` is recovering, the modes of the
`DistributePacketRecords` are those of their configuration, and so is the master mode of the
`IncreaseVersionNumber` if there is something to send; and the connections were made. -/
def Configured (conf : PipelineConfig) (s : Pipeline) : PipelineEvent → Prop
  | .packet p answer answer₁ =>
      s.pp.mbState ≠ .recovering ∧
        (conf.dpr.connects = true ∧ s.dpr.isMasterMode = conf.dpr.isMasterMode) ∧
        s.pp1.mbState ≠ .recovering ∧
        ((s.ivn.toIncreaseVersionNumber.smaction (s.atIvn p answer answer₁)).2.isSome →
          conf.ivn.isMasterMode = true ∧ conf.ivn.connects = true) ∧
        (conf.dpr1.connects = true ∧ s.dpr1.isMasterMode = conf.dpr1.isMasterMode)
  | _ => True

/-- What no event changes. -/
structure Of (conf : PipelineConfig) (s : Pipeline) : Prop where
  pp : ConnectedPreparePacket.Of conf.pp s.pp
  dpr : s.dpr.detLoggerClient = (DistributePacketRecords.configure conf.dpr).detLoggerClient
  pp1 : ConnectedPreparePacket.Of conf.pp1 s.pp1
  ivn : s.ivn.client = (ConnectedIncreaseVersionNumber.configure conf.ivn).client
  dpr1 : s.dpr1.detLoggerClient = (DistributePacketRecords.configure conf.dpr1).detLoggerClient

variable {conf : PipelineConfig} {s : Pipeline}

lemma of_configure (conf : PipelineConfig) : Of conf (configure conf) :=
  ⟨ConnectedPreparePacket.of_configure _, rfl, ConnectedPreparePacket.of_configure _, rfl, rfl⟩

lemma Of.after (h : Of conf s) (a : PipelineEvent) : Of conf (s.after a) := by
  obtain ⟨hpp, hdpr, hpp1, hivn, hdpr1⟩ := h
  cases a with
  | writePp w => exact ⟨hpp.writeHandler w, hdpr, hpp1, hivn, hdpr1⟩
  | writeDpr w =>
      exact ⟨hpp, (s.dpr.detLoggerClient_writeHandler w).trans hdpr, hpp1, hivn, hdpr1⟩
  | writePp1 w => exact ⟨hpp, hdpr, hpp1.writeHandler w, hivn, hdpr1⟩
  | writeIvn w => exact ⟨hpp, hdpr, hpp1, (s.ivn.client_writeHandler w).trans hivn, hdpr1⟩
  | writeDpr1 w =>
      exact ⟨hpp, hdpr, hpp1, hivn, (s.dpr1.detLoggerClient_writeHandler w).trans hdpr1⟩
  | packet => exact ⟨hpp, hdpr, hpp1, hivn, hdpr1⟩

/-- One packet is treated as it should be exactly when it meets the condition. -/
lemma right_iff (h : Of conf s) (a : PipelineEvent) : s.Right a ↔ s.Configured conf a := by
  cases a with
  | packet p answer answer₁ =>
      have hpp := ConnectedPreparePacket.prepares_iff h.pp answer p
      have hpp1 := ConnectedPreparePacket.prepares_iff h.pp1 answer₁ (s.atPp1 p answer)
      have hivn := ConnectedIncreaseVersionNumber.sends_iff h.ivn (s.atIvn p answer answer₁)
      rw [Right, Configured, hpp, hpp1, hivn]
      refine and_congr_right fun hprepared => ?_
      obtain ⟨pm, hanno, -⟩ := hpp.mpr hprepared
      refine and_congr ?_ (and_congr_right fun hprepared₁ => and_congr_right fun _ => ?_)
      · exact DistributePacketRecords.stores_iff h.dpr
          (Option.ne_none_iff_exists'.mpr ⟨pm, hanno⟩)
      · obtain ⟨pm₁, hanno₁, -⟩ := hpp1.mpr hprepared₁
        exact DistributePacketRecords.stores_iff h.dpr1
          (Option.ne_none_iff_exists'.mpr ⟨pm₁, hanno₁⟩)
  | writePp | writeDpr | writePp1 | writeIvn | writeDpr1 => exact Iff.rfl

/-- The configuration of a middlebox that starts as slave, with all connections made. -/
def slaveConfig : PipelineConfig :=
  ⟨⟨6, false, 0, true⟩, ⟨7, false, true⟩, ⟨6, false, 0, true⟩, ⟨false, false, true⟩,
    ⟨7, false, true⟩⟩

end Pipeline

end FtThesis
