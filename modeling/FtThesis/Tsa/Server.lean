/-
The back end of the traffic steering application.

It installs the rules that lead the frames of a sender through a chain of middleboxes, and keeps
of each chain its middleboxes, its VLAN id and the trace of its rules, under a key that is made
of the sender, the middleboxes and the match fields.

* `Topology`: the switches, and where the senders and the middleboxes are connected;
* `twoSwitches`: a small network, for examples;
* `TsaBE`: what the application and the controller keep;
* `Hop`, `hops`: how a leg of a chain crosses the switches;
* `installPolicyChainRules`, `uninstallPolicyChainRules`: the rules of a chain;
* `handleAddPolicyCommand`, `handleRemovePolicychain`, `handleUnregisterMiddleboxCommand`,
  `handleStopMasterMBCommand`, `handleReplacingMasterMBCommand`: the commands;
* `Event`, `exec`, `Step`: a command together with what it leaves open: the order in which
  Python goes through a dictionary, and the answers of the controller.

A function that can raise an exception also returns whether it has not done so.
-/
import FtThesis.Tsa.Rules
import FtThesis.Library.Runs

namespace FtThesis.Tsa

/-! ### The data -/

/-- The network, as it is read at the start: the graph of the switches, where the middleboxes
and the senders are connected to it, and the slaves of the masters. -/
structure Topology where
  graph : Graph
  middleboxToSwitchMapping : Str → Option (Dpid × Port)
  hostsThatSendPackets : Str → Option (Dpid × Port)
  masterToSlave : Str → Option Str

/-- A small network: the senders `h1` and `h2` and the middlebox `m2` at one switch, and the
middleboxes `m1` and `m3` at another one. -/
def twoSwitches : Topology where
  graph := ⟨[(1, [(1, 2)]), (2, [(1, 1)])], by decide⟩
  hostsThatSendPackets name :=
    [("h1".toList, 1, 2), ("h2".toList, 1, 3)].lookup name
  middleboxToSwitchMapping name :=
    [("m1".toList, 2, 2), ("m2".toList, 1, 4), ("m3".toList, 2, 3)].lookup name
  masterToSlave name := [("m1".toList, "m3".toList)].lookup name

/-- An entry of the flow of a chain: a name, written with `$`, or a switch. -/
inductive FlowEntry
  | name (n : Str)
  | switch (dpid : Dpid)
deriving DecidableEq

/-- What is kept of a policy chain: its middleboxes, its VLAN id, and its flow. -/
structure ChainData where
  policyChain : Str
  vlanId : ℕ
  fullFlow : List FlowEntry
deriving DecidableEq

/-- The state of `tsaBE`, with the visited flags of the graph and with the controller. -/
structure TsaBE where
  policyChainKeyToData : Str → Option ChainData
  nextPcid : ℕ
  pcidToPolicyChainKey : ℕ → Option Str
  nextVlanId : ℕ
  visited : Visited
  controller : Controller

/-- The state at the start, where the controller has the given rules. -/
def TsaBE.new (rules : List Rule) : TsaBE where
  policyChainKeyToData _ := none
  nextPcid := 0
  pcidToPolicyChainKey _ := none
  nextVlanId := 1
  visited _ := false
  controller := ⟨rules, fun _ => true, []⟩

/-- The answer to a command: whether it says success, and its text. -/
structure Response where
  success : Bool
  data : Str
deriving DecidableEq

namespace TsaBE

/-- `self.policyChainKeyToData[key] = data`. -/
def setData (s : TsaBE) (key : Str) (data : ChainData) : TsaBE :=
  { s with policyChainKeyToData := Function.update s.policyChainKeyToData key (some data) }

/-- `self.policyChainKeyToData[key][2].append(entry)`. -/
def appendFlow (s : TsaBE) (key : Str) (entry : FlowEntry) : TsaBE :=
  { s with
    policyChainKeyToData := Function.update s.policyChainKeyToData key
      ((s.policyChainKeyToData key).map fun data =>
        { data with fullFlow := data.fullFlow ++ [entry] }) }

/-- A request to the controller. -/
def post (s : TsaBE) (p : Post) : Bool × TsaBE :=
  let (accepted, controller) := s.controller.urlopen p
  (accepted, { s with controller := controller })

/-- The rest of a function, unless an exception was raised before. -/
def unlessRaised (result : Bool × TsaBE) (next : TsaBE → Bool × TsaBE) : Bool × TsaBE :=
  match result with
  | (true, s) => next s
  | (false, s) => (false, s)

/-! ### The rules of a chain -/

/-- What one round of a loop over a path works with: a switch, and the ports of the way in and
out. -/
structure Hop where
  dpid : Dpid
  inPort : Option Port
  outPort : Option Port
deriving DecidableEq

/-- The port of a switch that leads to a neighbor. -/
def portTo (g : Graph) (dpid neighborDpid : Dpid) : Option Port :=
  (g.getNode dpid).bind fun neighbors => getPortToNeighbor neighbors neighborDpid

/-- The switches of a path with their ports, from the port by which it begins to the port by
which it ends. -/
def hops (g : Graph) : List Dpid → Option Port → Port → List Hop
  | [], _, _ => []
  | [dpid], inPort, outPort => [⟨dpid, inPort, some outPort⟩]
  | dpid :: dpid' :: path, inPort, outPort =>
      ⟨dpid, inPort, portTo g dpid dpid'⟩ ::
        hops g (dpid' :: path) (portTo g dpid' dpid) outPort

/-- A rule of a chain is added and its switch is noted in the flow, unless the controller
refuses it or there is no port. -/
def installRule (s : TsaBE) (kind : RuleKind) (policyChainKey : Str) (hop : Hop) (vlanId : ℕ)
    (matchFields : List Field) : TsaBE :=
  match hop.outPort with
  | none => s
  | some outPort =>
      let rule := ⟨hop.dpid, kind, vlanId, ruleMatch kind matchFields vlanId hop.inPort, outPort⟩
      match s.post (.add rule) with
      | (true, s) => s.appendFlow policyChainKey (.switch hop.dpid)
      | (false, s) => s

/-- `installVlanRule`. -/
def installVlanRule (s : TsaBE) (policyChainKey : Str) (hop : Hop) (vlanId : ℕ) : TsaBE :=
  s.installRule .forward policyChainKey hop vlanId []

/-- `installRuleWithVlanPush`. -/
def installRuleWithVlanPush (s : TsaBE) (policyChainKey : Str) (hop : Hop) (vlanId : ℕ)
    (matchFields : List Field) : TsaBE :=
  s.installRule .push policyChainKey hop vlanId matchFields

/-- `installRuleWithVlanPop`. -/
def installRuleWithVlanPop (s : TsaBE) (policyChainKey : Str) (hop : Hop) (vlanId : ℕ) : TsaBE :=
  s.installRule .pop policyChainKey hop vlanId []

/-- The loop of `installRulesToFirstMB`: the VLAN id is set at the first switch. -/
def installHopsToFirstMB (s : TsaBE) (policyChainKey : Str) (vlanId : ℕ)
    (matchFields : List Field) : List Hop → TsaBE
  | [] => s
  | hop :: hops =>
      hops.foldl (fun s hop => s.installVlanRule policyChainKey hop vlanId)
        (s.installRuleWithVlanPush policyChainKey hop vlanId matchFields)

/-- The loop of `installPolicyChainBetweenTwoMiddleboxes`: the VLAN id is stripped at the last
switch, if it should be. -/
def installHopsBetween (policyChainKey : Str) (vlanId : ℕ) (shouldInstalVlanPopRule : Bool) :
    List Hop → TsaBE → TsaBE
  | [], s => s
  | [hop], s =>
      if shouldInstalVlanPopRule then s.installRuleWithVlanPop policyChainKey hop vlanId
      else s.installVlanRule policyChainKey hop vlanId
  | hop :: hops, s =>
      installHopsBetween policyChainKey vlanId shouldInstalVlanPopRule hops
        (s.installVlanRule policyChainKey hop vlanId)

/-- The search for a path, and the state after it.  If there is none, or the graph lacks a
switch, the caller fails. -/
def findPath (net : Topology) (s : TsaBE) (srcDpid dstDpid : Dpid) : Option (List Dpid) × TsaBE :=
  match findPathBetweenNodes net.graph s.visited srcDpid dstDpid with
  | some (path, visited) => (path, { s with visited := visited })
  | none => (none, s)

/-- `installRulesToFirstMB`. -/
def installRulesToFirstMB (net : Topology) (s : TsaBE) (policyChainKey mbName : Str)
    (vlanId : ℕ) (senderHost : Str) (matchFields : List Field) : Bool × TsaBE :=
  match net.hostsThatSendPackets senderHost, net.middleboxToSwitchMapping mbName with
  | some (srcDpid, srcPort), some (dstDpid, dstPort) =>
      match s.findPath net srcDpid dstDpid with
      | (some switchesPath, s) =>
          (true, s.installHopsToFirstMB policyChainKey vlanId matchFields
            (hops net.graph switchesPath (some srcPort) dstPort))
      | (none, s) => (false, s)
  | _, _ => (false, s)

/-- `installPolicyChainBetweenTwoMiddleboxes`. -/
def installPolicyChainBetweenTwoMiddleboxes (net : Topology) (s : TsaBE)
    (policyChainKey srcMiddleboxName dstMiddleboxName : Str) (vlanId : ℕ)
    (shouldInstalVlanPopRule : Bool) : Bool × TsaBE :=
  match net.middleboxToSwitchMapping srcMiddleboxName with
  | none => (true, s)
  | some (srcDpid, srcPort) =>
      match net.middleboxToSwitchMapping dstMiddleboxName with
      | none => (false, s)
      | some (dstDpid, dstPort) =>
          match (s.appendFlow policyChainKey (.name srcMiddleboxName)).findPath net srcDpid dstDpid
            with
          | (some switchesPath, s) =>
              (true, installHopsBetween policyChainKey vlanId shouldInstalVlanPopRule
                (hops net.graph switchesPath (some srcPort) dstPort) s)
          | (none, s) => (false, s)

/-- The loop of `installPolicyChainRules` over the middleboxes that follow each other. -/
def installLegs (net : Topology) (policyChainKey : Str) (vlanId : ℕ) :
    List Str → TsaBE → Bool × TsaBE
  | srcMb :: dstMb :: policyChain, s =>
      unlessRaised (s.installPolicyChainBetweenTwoMiddleboxes net policyChainKey srcMb dstMb vlanId
        (policyChain = [])) fun s => installLegs net policyChainKey vlanId (dstMb :: policyChain) s
  | _, s => (true, s)

/-- `installPolicyChainRules`.  A key that is not printable fails before anything is done. -/
def installPolicyChainRules (net : Topology) (s : TsaBE) (policyChainKey policyChain : Str)
    (vlanId : ℕ) (matchFields : List Field) (senderHost : Str) : Bool × TsaBE :=
  if isAscii policyChainKey then
    let s := s.setData policyChainKey ⟨policyChain, vlanId, [.name senderHost]⟩
    let policyChain := policyChain.splitOn ','
    unlessRaised (s.installRulesToFirstMB net policyChainKey (policyChain.headD []) vlanId
      senderHost matchFields) (installLegs net policyChainKey vlanId policyChain)
  else (false, s)

/-- The requests of `uninstallPolicyChainRules` for the entries of a flow from place `i` on: one
for the match fields where the first switch is expected, and else one for the VLAN id. -/
def deletePosts (net : Topology) (senderHost : Str) (vlanId : ℕ) (matchFields : List Field) :
    ℕ → List FlowEntry → Option (List Post)
  | _, [] => some []
  | i, .name _ :: fullFlow => deletePosts net senderHost vlanId matchFields (i + 1) fullFlow
  | i, .switch dpid :: fullFlow => do
      let post ←
        if i = 1 then
          (net.hostsThatSendPackets senderHost).map fun sender =>
            .delete sender.1 (getFullMatchFields matchFields)
        else some (.delete dpid (vlanMatch vlanId))
      let posts ← deletePosts net senderHost vlanId matchFields (i + 1) fullFlow
      some (post :: posts)

/-- `uninstallPolicyChainRules`.  It does not matter whether the controller accepts. -/
def uninstallPolicyChainRules (net : Topology) (s : TsaBE) (policyChainKey senderHost : Str)
    (matchFields : List Field) : Bool × TsaBE :=
  match s.policyChainKeyToData policyChainKey with
  | none => (false, s)
  | some data =>
      match deletePosts net senderHost data.vlanId matchFields 0 data.fullFlow with
      | none => (false, s)
      | some posts => (true, posts.foldl (fun s p => (s.post p).2) s)

/-! ### Commands -/

/-- `handleAddPolicyCommand`. -/
def handleAddPolicyCommand (net : Topology) (s : TsaBE) (requestArgs : Str) : Response × TsaBE :=
  let failed : Response := ⟨false, "Failed to add policy chain.".toList⟩
  match search requestArgs with
  | none => (failed, s)
  | some (chain, fields) =>
      let (hostSender, preparedPolicyChain) := preparePolicyChainWithHostToSend chain
      let matchFields := extractMatchFields fields
      let vlanId := s.nextVlanId
      let s := { s with nextVlanId := s.nextVlanId + 1 }
      match generatePolicyChainKey hostSender preparedPolicyChain matchFields with
      | none => (failed, s)
      | some policyChainKey =>
          match s.installPolicyChainRules net policyChainKey preparedPolicyChain vlanId
            (sortFields matchFields) hostSender with
          | (false, s) => (failed, s)
          | (true, s) =>
              (⟨true, "Policy chain: ".toList ++ chain ++
                  " was added successfully. vlanId is: ".toList ++ str vlanId⟩,
                { s with
                  pcidToPolicyChainKey :=
                    Function.update s.pcidToPolicyChainKey s.nextPcid (some policyChainKey)
                  nextPcid := s.nextPcid + 1 })

/-- `popPcid`, where `pcids` is the order in which the dictionary is gone through. -/
def popPcid (s : TsaBE) (policyChainKey : Str) (pcids : List ℕ) : TsaBE :=
  match pcids.find? fun p => s.pcidToPolicyChainKey p = some policyChainKey with
  | none => s
  | some p => { s with pcidToPolicyChainKey := Function.update s.pcidToPolicyChainKey p none }

/-- `removePolicyChain`: the middleboxes of the chain, if it is removed. -/
def removePolicyChain (net : Topology) (s : TsaBE) (policyChainKey : Str) (pcids : List ℕ) :
    Option Str × TsaBE :=
  match isAscii policyChainKey, policyChainKey.splitOn '$', getMatchFieldsFromKey policyChainKey
    with
  | true, [senderHost, userPolicyChain, _], some matchFields =>
      match s.uninstallPolicyChainRules net policyChainKey senderHost matchFields with
      | (false, s) => (none, s)
      | (true, s) =>
          let s := { s with
            policyChainKeyToData := Function.update s.policyChainKeyToData policyChainKey none }
          (some userPolicyChain, s.popPcid policyChainKey pcids)
  | _, _, _ => (none, s)

/-- `handleRemovePolicychain`. -/
def handleRemovePolicychain (net : Topology) (s : TsaBE) (requestArgs : Str) (pcids : List ℕ) :
    Response × TsaBE :=
  let failed : Response := ⟨false, "Failed to remove policy chain.".toList⟩
  match search requestArgs with
  | none => (failed, s)
  | some (chain, fields) =>
      let (hostSender, preparedPolicyChain) := preparePolicyChainWithHostToSend chain
      match generatePolicyChainKey hostSender preparedPolicyChain (extractMatchFields fields) with
      | none => (failed, s)
      | some policyChainKey =>
          match s.removePolicyChain net policyChainKey pcids with
          | (none, s) => (failed, s)
          | (some userPolicyChain, s) =>
              (⟨true, "Policy chain: ".toList ++ userPolicyChain ++
                " was removed successfully.".toList⟩, s)

/-- The sender of a flow, without `$`. -/
def senderOf : List FlowEntry → Str
  | .name n :: _ => n
  | _ => []

/-- One round of the loop of `unregisterMiddlebox`, with what it adds to the text of the failed
chains.  The chain is a text and has no method `remove`, so that a chain with the name in it
fails as soon as its rules are uninstalled. -/
def unregisterFrom (net : Topology) (mbName : Str) (failedPolicyChains : Str × TsaBE)
    (policyChainKey : Str) : Str × TsaBE :=
  let (failedPolicyChains, s) := failedPolicyChains
  match s.policyChainKeyToData policyChainKey with
  | none => (failedPolicyChains, s)
  | some data =>
      if mbName <:+: data.policyChain then
        let failedPolicyChains :=
          failedPolicyChains ++ commas (data.policyChain.map ([·])) ++ ['$']
        match getMatchFieldsFromKey policyChainKey with
        | none => (failedPolicyChains, s)
        | some matchFields =>
            (failedPolicyChains, (s.uninstallPolicyChainRules net policyChainKey
              (senderOf data.fullFlow) matchFields).2)
      else (failedPolicyChains, s)

/-- `handleUnregisterMiddleboxCommand`, where `keys` is the order in which the dictionary is gone
through.  A name that is not printable ends the server. -/
def handleUnregisterMiddleboxCommand (net : Topology) (s : TsaBE) (mbName : Str)
    (keys : List Str) : Option Response × TsaBE :=
  if isAscii mbName then
    let (failedPolicyChains, s) := keys.foldl (unregisterFrom net mbName) ([], s)
    if failedPolicyChains = [] then (some ⟨true, []⟩, s)
    else
      (some ⟨false, "Failed to remove middlebox ".toList ++ mbName ++
        " from the following policy chains: ".toList ++ failedPolicyChains ++ ".".toList⟩, s)
  else (none, s)

/-- `replaceMasterMB`. -/
def replaceMasterMB (net : Topology) (s : TsaBE) (oldMbName newMasterMBName : Str)
    (policyChainKey : Str) : Bool × TsaBE :=
  match s.policyChainKeyToData policyChainKey, getMatchFieldsFromKey policyChainKey with
  | some data, some matchFields =>
      let senderHost := senderOf data.fullFlow
      unlessRaised (s.uninstallPolicyChainRules net policyChainKey senderHost matchFields) fun s =>
        s.installPolicyChainRules net policyChainKey
          (replace data.policyChain oldMbName newMasterMBName) data.vlanId matchFields senderHost
  | _, _ => (false, s)

/-- One round of the loop of `doHandleReplacingMasterMB`, on `installedSuccessfully`. -/
def replaceIn (net : Topology) (oldMbName newMbName : Str) (installedSuccessfully : Bool × TsaBE)
    (policyChainKey : Str) : Bool × TsaBE :=
  let (installedSuccessfully, s) := installedSuccessfully
  match s.policyChainKeyToData policyChainKey with
  | none => (installedSuccessfully, s)
  | some data =>
      if oldMbName ∈ data.policyChain.splitOn ',' then
        let (replaced, s) := s.replaceMasterMB net oldMbName newMbName policyChainKey
        (installedSuccessfully && replaced, s)
      else (installedSuccessfully, s)

/-- `doHandleReplacingMasterMB`, where `keys` is the order in which the dictionary is gone
through.  Names that are not printable end the server. -/
def doHandleReplacingMasterMB (net : Topology) (s : TsaBE) (oldMbName newMbName : Str)
    (keys : List Str) : Option Response × TsaBE :=
  if isAscii oldMbName ∧ isAscii newMbName then
    let (installedSuccessfully, s) := keys.foldl (replaceIn net oldMbName newMbName) (true, s)
    if installedSuccessfully then (some ⟨true, "Master mb was replaced successfully.".toList⟩, s)
    else (some ⟨false, "Failed to replace master mb.".toList⟩, s)
  else (none, s)

/-- `handleStopMasterMBCommand`. -/
def handleStopMasterMBCommand (net : Topology) (s : TsaBE) (stoppedMBName : Str)
    (keys : List Str) : Option Response × TsaBE :=
  if isAscii stoppedMBName then
    match net.masterToSlave stoppedMBName with
    | none => (some ⟨false, "Failed to stop master mb.".toList⟩, s)
    | some slaveMb => s.doHandleReplacingMasterMB net stoppedMBName slaveMb keys
  else (none, s)

/-- `handleReplacingMasterMBCommand`, which has no answer if there are not two names. -/
def handleReplacingMasterMBCommand (net : Topology) (s : TsaBE) (requestArgs : Str)
    (keys : List Str) : Option Response × TsaBE :=
  match words requestArgs with
  | [oldMbName, newMbName] => s.doHandleReplacingMasterMB net oldMbName newMbName keys
  | _ => (none, s)

end TsaBE

/-! ### The server -/

/-- The commands of `runServer`, each with its arguments. -/
inductive Command
  | addPolicyChain (requestArgs : Str)
  | removePolicyChain (requestArgs : Str)
  | stopMaster (requestArgs : Str)
  | unregMb (requestArgs : Str)
  | replaceMaster (requestArgs : Str)

/-- A command, whether the controller accepts each of its requests, and the orders in which the
dictionaries are gone through. -/
structure Event where
  command : Command
  accepts : ℕ → Bool
  keys : List Str
  pcids : List ℕ

/-- The orders go through each key of a dictionary once. -/
structure Event.InOrder (e : Event) (s : TsaBE) : Prop where
  nodup_keys : e.keys.Nodup
  mem_keys : ∀ key, key ∈ e.keys ↔ s.policyChainKeyToData key ≠ none
  nodup_pcids : e.pcids.Nodup
  mem_pcids : ∀ pcid, pcid ∈ e.pcids ↔ s.pcidToPolicyChainKey pcid ≠ none

/-- The state in which a command begins. -/
def TsaBE.begin (s : TsaBE) (e : Event) : TsaBE :=
  { s with controller := ⟨s.controller.rules, e.accepts, []⟩ }

/-- One round of `runServer`: the answer, if there is one, and the state after it. -/
def exec (net : Topology) (s : TsaBE) (e : Event) : Option Response × TsaBE :=
  let s := s.begin e
  match e.command with
  | .addPolicyChain requestArgs =>
      let (response, s) := s.handleAddPolicyCommand net requestArgs
      (some response, s)
  | .removePolicyChain requestArgs =>
      let (response, s) := s.handleRemovePolicychain net requestArgs e.pcids
      (some response, s)
  | .stopMaster requestArgs => s.handleStopMasterMBCommand net requestArgs e.keys
  | .unregMb requestArgs => s.handleUnregisterMiddleboxCommand net requestArgs e.keys
  | .replaceMaster requestArgs => s.handleReplacingMasterMBCommand net requestArgs e.keys

/-- The steps of the server. -/
def Step (net : Topology) (s : TsaBE) (e : Event) (t : TsaBE) : Prop :=
  e.InOrder s ∧ t = (exec net s e).2

end FtThesis.Tsa
