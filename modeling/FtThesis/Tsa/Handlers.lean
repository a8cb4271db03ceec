/-
What the commands do, read off from their requests.

* `ChainRequest`, `requestOf`: what an add or a removal asks for;
* `handleAddPolicyCommand_of_none`, `handleAddPolicyCommand_of_some`, `handleAddPolicyCommand_eq`:
  what an add does;
* `removePolicyChain_cases`, `handleRemovePolicychain_cases`: what a removal does;
* `OnlyController`, `onlyController_handleUnregisterMiddleboxCommand`: unregistering a middlebox
  changes nothing but the controller;
* `exec_unregMb_of_not_occurs`: it does nothing if the name occurs in no chain;
* `replacement`, `exec_of_replacement`: the replacements that two commands ask for;
* `replaceMasterMB_cases`, `doHandleReplacingMasterMB_induction`: what a replacement does.
-/
import FtThesis.Tsa.Plans

namespace FtThesis.Tsa

open TsaBE

/-! ### Add requests -/

/-- A request for a chain: its sender, its middleboxes, its sorted match fields, and its key. -/
structure ChainRequest where
  hostSender : Str
  policyChain : Str
  matchFields : List Field
  key : Str

/-- What an add request asks for.  There is nothing if it fails before the installation. -/
def requestOf (requestArgs : Str) : Option ChainRequest :=
  (search requestArgs).bind fun (chain, fields) =>
    let (hostSender, policyChain) := preparePolicyChainWithHostToSend chain
    let matchFields := extractMatchFields fields
    (generatePolicyChainKey hostSender policyChain matchFields).bind fun key =>
      if isAscii key then some ⟨hostSender, policyChain, sortFields matchFields, key⟩ else none

/-- The installation of the chain that is asked for, with the next VLAN id. -/
def TsaBE.installRequest (net : Topology) (s : TsaBE) (r : ChainRequest) : Bool × TsaBE :=
  { s with nextVlanId := s.nextVlanId + 1 }.installPolicyChainRules net r.key r.policyChain
    s.nextVlanId r.matchFields r.hostSender

lemma isAscii_of_requestOf {requestArgs : Str} {r : ChainRequest}
    (h : requestOf requestArgs = some r) : isAscii r.key = true := by
  obtain ⟨_, -, h⟩ := Option.bind_eq_some_iff.mp h
  obtain ⟨key, -, h⟩ := Option.bind_eq_some_iff.mp h
  split_ifs at h with hkey
  cases h
  exact hkey

/-- The parts of the key of a request. -/
lemma key_of_requestOf {requestArgs : Str} {r : ChainRequest}
    (h : requestOf requestArgs = some r) :
    r.key = r.hostSender ++ '$' :: (r.policyChain ++ '$' :: fieldsText r.matchFields) := by
  obtain ⟨_, -, h⟩ := Option.bind_eq_some_iff.mp h
  obtain ⟨key, hkey, h⟩ := Option.bind_eq_some_iff.mp h
  split_ifs at h
  obtain rfl := Option.some.inj h
  rw [generatePolicyChainKey] at hkey
  split_ifs at hkey
  exact (Option.some.inj hkey).symm

/-- A request that fails early may take a VLAN id. -/
lemma handleAddPolicyCommand_of_none (net : Topology) (s : TsaBE) {requestArgs : Str}
    (h : requestOf requestArgs = none) :
    (s.handleAddPolicyCommand net requestArgs).1.success = false ∧
      ∃ n, s.nextVlanId ≤ n ∧
        (s.handleAddPolicyCommand net requestArgs).2 = { s with nextVlanId := n } := by
  rw [requestOf] at h
  rw [handleAddPolicyCommand]
  rcases hsearch : search requestArgs with _ | ⟨chain, fields⟩
  · exact ⟨rfl, s.nextVlanId, le_rfl, rfl⟩
  · rcases hprepare : preparePolicyChainWithHostToSend chain with ⟨sender, policyChain⟩
    simp only [hsearch, Option.bind_some, hprepare] at h
    simp only [hprepare]
    rcases hkey : generatePolicyChainKey sender policyChain (extractMatchFields fields) with _ | key
    · exact ⟨rfl, s.nextVlanId + 1, Nat.le_succ _, rfl⟩
    · have hascii : ¬ isAscii key = true := by
        intro hascii
        simp [hkey, hascii] at h
      simp only [installPolicyChainRules, if_neg hascii]
      exact ⟨trivial, s.nextVlanId + 1, Nat.le_succ _, rfl⟩

/-- Else it succeeds if the installation does, and the key gets the next id. -/
lemma handleAddPolicyCommand_of_some (net : Topology) (s : TsaBE) {requestArgs : Str}
    {r : ChainRequest} (h : requestOf requestArgs = some r) {ok : Bool} {t : TsaBE}
    (hinstall : s.installRequest net r = (ok, t)) :
    (s.handleAddPolicyCommand net requestArgs).1.success = ok ∧
      (s.handleAddPolicyCommand net requestArgs).2 =
        if ok then
          { t with
            pcidToPolicyChainKey := Function.update t.pcidToPolicyChainKey t.nextPcid (some r.key)
            nextPcid := t.nextPcid + 1 }
        else t := by
  obtain ⟨⟨chain, fields⟩, hsearch, h⟩ := Option.bind_eq_some_iff.mp h
  rcases hprepare : preparePolicyChainWithHostToSend chain with ⟨sender, policyChain⟩
  simp only [hprepare] at h
  obtain ⟨key, hkey, h⟩ := Option.bind_eq_some_iff.mp h
  split_ifs at h with hascii
  obtain rfl := Option.some.inj h
  rw [handleAddPolicyCommand, hsearch]
  rw [installRequest] at hinstall
  simp only [hprepare, hkey, hinstall]
  cases ok <;> exact ⟨rfl, rfl⟩

/-- An add that succeeds asks for a chain, which can be installed. -/
lemma installable_of_success {net : Topology} {s : TsaBE} {requestArgs : Str}
    (h : (s.handleAddPolicyCommand net requestArgs).1.success = true) :
    ∃ r, requestOf requestArgs = some r ∧ installable net r.hostSender r.policyChain = true := by
  cases hr : requestOf requestArgs with
  | none =>
      rw [(handleAddPolicyCommand_of_none net s hr).1] at h
      cases h
  | some r =>
      obtain ⟨visited, hinstall⟩ := installPolicyChainRules_eq net
        { s with nextVlanId := s.nextVlanId + 1 } (isAscii_of_requestOf hr) r.policyChain
        s.nextVlanId r.matchFields r.hostSender
      have hok := (handleAddPolicyCommand_of_some net s hr hinstall).1
      rw [chainPlan_snd] at hok
      exact ⟨r, rfl, hok.symm.trans h⟩

/-- What the chain of a request does when it is installed with the next VLAN id. -/
def TsaBE.requestPlan (net : Topology) (s : TsaBE) (r : ChainRequest) : List Entry :=
  (chainPlan net r.policyChain s.nextVlanId r.matchFields r.hostSender).1

/-- The data of a request whose chain is installed. -/
def TsaBE.requestData (net : Topology) (s : TsaBE) (r : ChainRequest) : ChainData where
  policyChain := r.policyChain
  vlanId := s.nextVlanId
  fullFlow := .name r.hostSender :: (carriedOut s.controller.accepts s.controller.posts.length
    (s.requestPlan net r)).map Entry.flowEntry

/-- The state after an add that comes to the installation. -/
lemma handleAddPolicyCommand_eq (net : Topology) (s : TsaBE) {requestArgs : Str}
    {r : ChainRequest} (h : requestOf requestArgs = some r) :
    ∃ t, (s.handleAddPolicyCommand net requestArgs).2 = t ∧
      t.policyChainKeyToData =
        Function.update s.policyChainKeyToData r.key (some (s.requestData net r)) ∧
      t.pcidToPolicyChainKey =
        (if installable net r.hostSender r.policyChain then
          Function.update s.pcidToPolicyChainKey s.nextPcid (some r.key)
        else s.pcidToPolicyChainKey) ∧
      t.nextVlanId = s.nextVlanId + 1 ∧
      t.controller = s.controller.urlopens ((rulesOf (s.requestPlan net r)).map .add) := by
  obtain ⟨visited, hinstall⟩ := installPolicyChainRules_eq net
    { s with nextVlanId := s.nextVlanId + 1 } (isAscii_of_requestOf h) r.policyChain s.nextVlanId
    r.matchFields r.hostSender
  have ht := (handleAddPolicyCommand_of_some net s h hinstall).2
  rw [chainPlan_snd] at ht
  refine ⟨_, ht, ?_⟩
  cases installable net r.hostSender r.policyChain <;> exact ⟨rfl, rfl, rfl, rfl⟩

lemma exists_getMatchFieldsFromKey_of_requestOf {requestArgs : Str} {r : ChainRequest}
    (h : requestOf requestArgs = some r) : ∃ fields, getMatchFieldsFromKey r.key = some fields := by
  obtain ⟨_, -, h⟩ := Option.bind_eq_some_iff.mp h
  obtain ⟨key, hkey, h⟩ := Option.bind_eq_some_iff.mp h
  split_ifs at h
  obtain rfl := Option.some.inj h
  exact exists_getMatchFieldsFromKey hkey

/-! ### Removals -/

/-- A removal fails and does nothing; or it requests that the rules are deleted, and forgets the
data of the key and an id of it. -/
lemma removePolicyChain_cases (net : Topology) (s : TsaBE) (key : Str) (pcids : List ℕ) :
    s.removePolicyChain net key pcids = (none, s) ∨
      ∃ senderHost userPolicyChain fieldsPart matchFields d posts,
        key.splitOn '$' = [senderHost, userPolicyChain, fieldsPart] ∧
        getMatchFieldsFromKey key = some matchFields ∧ s.policyChainKeyToData key = some d ∧
        deletePosts net senderHost d.vlanId matchFields 0 d.fullFlow = some posts ∧
        s.removePolicyChain net key pcids = (some userPolicyChain, { s with
          policyChainKeyToData := Function.update s.policyChainKeyToData key none
          controller := s.controller.urlopens posts }.popPcid key pcids) := by
  rw [removePolicyChain]
  split
  next senderHost userPolicyChain fieldsPart matchFields _ hsplit hfields =>
    cases hd : s.policyChainKeyToData key with
    | none => exact .inl (by simp [uninstallPolicyChainRules, hd])
    | some d =>
        cases hposts : deletePosts net senderHost d.vlanId matchFields 0 d.fullFlow with
        | none => exact .inl (by simp [uninstallPolicyChainRules, hd, hposts])
        | some posts =>
            right
            refine ⟨senderHost, userPolicyChain, fieldsPart, matchFields, d, posts, hsplit, hfields,
              rfl, hposts, ?_⟩
            rw [uninstallPolicyChainRules_eq hd hposts]
  · exact .inl rfl

/-- A removal does what is done for the key of its request. -/
lemma handleRemovePolicychain_cases (net : Topology) (s : TsaBE) (requestArgs : Str)
    (pcids : List ℕ) :
    (s.handleRemovePolicychain net requestArgs pcids).1.success = false ∧
        (s.handleRemovePolicychain net requestArgs pcids).2 = s ∨
      ∃ r userPolicyChain t, requestOf requestArgs = some r ∧
        s.removePolicyChain net r.key pcids = (some userPolicyChain, t) ∧
        (s.handleRemovePolicychain net requestArgs pcids).1.success = true ∧
        (s.handleRemovePolicychain net requestArgs pcids).2 = t := by
  rw [handleRemovePolicychain, requestOf]
  rcases search requestArgs with _ | ⟨chain, fields⟩
  · exact .inl ⟨rfl, rfl⟩
  · rcases hprepare : preparePolicyChainWithHostToSend chain with ⟨sender, policyChain⟩
    simp only [Option.bind_some, hprepare]
    rcases generatePolicyChainKey sender policyChain (extractMatchFields fields) with _ | key
    · exact .inl ⟨rfl, rfl⟩
    · simp only [Option.bind_some]
      rcases hremove : s.removePolicyChain net key pcids with ⟨_ | userPolicyChain, t⟩
      · rcases removePolicyChain_cases net s key pcids with h | ⟨_, _, _, _, _, _, -, -, -, -, h⟩
        · rw [hremove] at h
          exact .inl ⟨rfl, congrArg Prod.snd h⟩
        · rw [hremove] at h
          cases congrArg Prod.fst h
      · right
        by_cases hkey : isAscii key = true
        · exact ⟨_, userPolicyChain, t, if_pos hkey, hremove, rfl, rfl⟩
        · simp [removePolicyChain, hkey] at hremove

/-! ### Middleboxes that are unregistered -/

section

variable {net : Topology} {s t u : TsaBE}

/-- Only the controller is changed. -/
def OnlyController (s t : TsaBE) : Prop := ∃ controller, t = { s with controller := controller }

lemma onlyController_foldl_post (s : TsaBE) (posts : List Post) :
    OnlyController s (posts.foldl (fun s p => (s.post p).2) s) := by
  induction posts generalizing s with
  | nil => exact ⟨s.controller, rfl⟩
  | cons p posts ih =>
      obtain ⟨controller, h⟩ := ih (s.post p).2
      exact ⟨controller, h⟩

/-- Uninstalling a chain changes nothing but the controller. -/
lemma onlyController_uninstallPolicyChainRules (net : Topology) (s : TsaBE)
    (key senderHost : Str) (fields : List Field) :
    OnlyController s (s.uninstallPolicyChainRules net key senderHost fields).2 := by
  rw [uninstallPolicyChainRules]
  split
  · exact ⟨s.controller, rfl⟩
  · split
    · exact ⟨s.controller, rfl⟩
    · exact onlyController_foldl_post s _

lemma OnlyController.refl (s : TsaBE) : OnlyController s s := ⟨s.controller, rfl⟩

lemma OnlyController.trans (h : OnlyController s t) (h' : OnlyController t u) :
    OnlyController s u := by
  obtain ⟨_, rfl⟩ := h
  obtain ⟨controller, rfl⟩ := h'
  exact ⟨controller, rfl⟩

lemma onlyController_unregisterFrom (mbName failed key : Str) :
    OnlyController s (unregisterFrom net mbName (failed, s) key).2 := by
  rw [unregisterFrom]
  simp only
  split
  · exact .refl s
  · split_ifs
    · split
      · exact .refl s
      · exact onlyController_uninstallPolicyChainRules ..
    · exact .refl s

lemma onlyController_foldl_unregisterFrom (mbName : Str) (keys : List Str) (failed : Str) :
    OnlyController s (keys.foldl (unregisterFrom net mbName) (failed, s)).2 := by
  induction keys generalizing failed s with
  | nil => exact .refl s
  | cons key keys ih => exact (onlyController_unregisterFrom mbName failed key).trans (ih _)

/-- The chains with the middlebox keep their data, although their rules are uninstalled. -/
lemma onlyController_handleUnregisterMiddleboxCommand (net : Topology) (s : TsaBE) (mbName : Str)
    (keys : List Str) :
    OnlyController s (s.handleUnregisterMiddleboxCommand net mbName keys).2 := by
  rw [handleUnregisterMiddleboxCommand]
  split_ifs
  · have h : OnlyController s (keys.foldl (unregisterFrom net mbName) ([], s)).2 :=
      onlyController_foldl_unregisterFrom mbName keys []
    rcases hresult : keys.foldl (unregisterFrom net mbName) ([], s) with ⟨failed, t⟩
    rw [hresult] at h
    simp only
    split_ifs <;> exact h
  · exact .refl s

/-- If the name occurs in no chain, nothing is done. -/
lemma foldl_unregisterFrom_of_not_occurs {mbName : Str} {keys : List Str}
    (h : ∀ key ∈ keys, ∀ d, s.policyChainKeyToData key = some d → ¬ mbName <:+: d.policyChain) :
    keys.foldl (unregisterFrom net mbName) ([], s) = ([], s) := by
  induction keys with
  | nil => rfl
  | cons key keys ih =>
      obtain ⟨hkey, hkeys⟩ := List.forall_mem_cons.mp h
      have hround : unregisterFrom net mbName ([], s) key = ([], s) := by
        rw [unregisterFrom]
        cases hd : s.policyChainKeyToData key with
        | none => simp
        | some d => simp [hkey d hd]
      rw [List.foldl_cons, hround, ih hkeys]

/-- Then unregistering answers success, and changes nothing. -/
lemma exec_unregMb_of_not_occurs {e : Event} {mbName : Str}
    (hcommand : e.command = .unregMb mbName) (hascii : isAscii mbName = true)
    (h : ∀ key d, s.policyChainKeyToData key = some d → ¬ mbName <:+: d.policyChain) :
    exec net s e = (some ⟨true, []⟩, s.begin e) := by
  have hloop : e.keys.foldl (unregisterFrom net mbName) ([], s.begin e) = ([], s.begin e) :=
    foldl_unregisterFrom_of_not_occurs fun key _ => h key
  rw [exec, hcommand]
  simp [handleUnregisterMiddleboxCommand, hascii, hloop]

end

/-! ### Replacements -/

/-- The names that a command replaces: the old and the new one. -/
def replacement (net : Topology) : Command → Option (Str × Str)
  | .stopMaster stoppedMBName =>
      if isAscii stoppedMBName then
        (net.masterToSlave stoppedMBName).bind fun slaveMb =>
          if isAscii slaveMb then some (stoppedMBName, slaveMb) else none
      else none
  | .replaceMaster requestArgs =>
      match words requestArgs with
      | [oldMbName, newMbName] =>
          if isAscii oldMbName ∧ isAscii newMbName then some (oldMbName, newMbName) else none
      | _ => none
  | _ => none

section

variable {net : Topology} {s : TsaBE} {e : Event}

/-- A command that replaces names does so. -/
lemma exec_of_replacement {oldMbName newMbName : Str}
    (h : replacement net e.command = some (oldMbName, newMbName)) :
    isAscii oldMbName = true ∧ isAscii newMbName = true ∧
      exec net s e = (s.begin e).doHandleReplacingMasterMB net oldMbName newMbName e.keys := by
  obtain ⟨command, accepts, keys, pcids⟩ := e
  cases command with
  | addPolicyChain | removePolicyChain | unregMb => cases h
  | stopMaster stoppedMBName =>
      simp only [replacement] at h
      split_ifs at h with hold
      obtain ⟨slaveMb, hslave, h⟩ := Option.bind_eq_some_iff.mp h
      split_ifs at h with hnew
      cases h
      refine ⟨hold, hnew, ?_⟩
      simp only [exec, handleStopMasterMBCommand, if_pos hold, hslave]
  | replaceMaster requestArgs =>
      simp only [replacement] at h
      split at h
      next hwords =>
        split_ifs at h with hascii
        cases h
        refine ⟨hascii.1, hascii.2, ?_⟩
        simp only [exec, handleReplacingMasterMBCommand, hwords]
      · cases h

/-- A command that should replace a middlebox but has no names does nothing. -/
lemma exec_of_replacement_eq_none (h : replacement net e.command = none)
    (hcommand : (∃ stoppedMBName, e.command = .stopMaster stoppedMBName) ∨
      ∃ requestArgs, e.command = .replaceMaster requestArgs) :
    (exec net s e).2 = s.begin e ∧
      ∀ response, (exec net s e).1 = some response → response.success = false := by
  rw [exec]
  rcases hcommand with ⟨stoppedMBName, hcommand⟩ | ⟨requestArgs, hcommand⟩ <;>
    simp only [hcommand, replacement] at h ⊢
  · rw [handleStopMasterMBCommand]
    split_ifs at h ⊢ with hold
    · cases hslave : net.masterToSlave stoppedMBName with
      | none => exact ⟨rfl, fun response hr => by cases hr; rfl⟩
      | some slaveMb =>
          have hnew : ¬ isAscii slaveMb = true := by
            intro hnew
            simp [hslave, hnew] at h
          simp only [doHandleReplacingMasterMB, if_neg fun h : _ ∧ _ => hnew h.2]
          exact ⟨trivial, nofun⟩
    · exact ⟨rfl, nofun⟩
  · rw [handleReplacingMasterMBCommand]
    rcases hwords : words requestArgs with _ | ⟨oldMbName, _ | ⟨newMbName, _ | ⟨third, names⟩⟩⟩
    · exact ⟨rfl, nofun⟩
    · exact ⟨rfl, nofun⟩
    · have hascii : ¬ (isAscii oldMbName = true ∧ isAscii newMbName = true) := by
        intro hascii
        simp [hwords, hascii] at h
      simp only [doHandleReplacingMasterMB, if_neg hascii]
      exact ⟨trivial, nofun⟩
    · exact ⟨rfl, nofun⟩

/-- A replacement fails and does nothing; or it requests that the rules are deleted, and installs
the chain with the new name. -/
lemma replaceMasterMB_cases (net : Topology) (s : TsaBE) (oldMbName newMbName key : Str) :
    s.replaceMasterMB net oldMbName newMbName key = (false, s) ∨
      ∃ d fields posts, s.policyChainKeyToData key = some d ∧
        getMatchFieldsFromKey key = some fields ∧
        deletePosts net (senderOf d.fullFlow) d.vlanId fields 0 d.fullFlow = some posts ∧
        s.replaceMasterMB net oldMbName newMbName key =
          { s with controller := s.controller.urlopens posts }.installPolicyChainRules net key
            (replace d.policyChain oldMbName newMbName) d.vlanId fields (senderOf d.fullFlow) := by
  rw [replaceMasterMB]
  split
  next d fields hd hfields =>
    cases hposts : deletePosts net (senderOf d.fullFlow) d.vlanId fields 0 d.fullFlow with
    | none => exact .inl (by simp [uninstallPolicyChainRules, hd, hposts, unlessRaised])
    | some posts =>
        right
        refine ⟨d, fields, posts, hd, hfields, hposts, ?_⟩
        simp only [uninstallPolicyChainRules_eq hd hposts, unlessRaised]
  · exact .inl rfl

/-- What a replacement for one key preserves, a replacement preserves. -/
lemma doHandleReplacingMasterMB_induction {P : TsaBE → Prop} {oldMbName newMbName : Str}
    (hP : ∀ s key, P s → P (s.replaceMasterMB net oldMbName newMbName key).2) (keys : List Str)
    (hs : P s) : P (s.doHandleReplacingMasterMB net oldMbName newMbName keys).2 := by
  have hround : ∀ ok s key, P s → P (replaceIn net oldMbName newMbName (ok, s) key).2 := by
    intro ok s key hs
    rw [replaceIn]
    simp only
    split
    · exact hs
    · split_ifs
      · exact hP s key hs
      · exact hs
  have hloop : ∀ (keys : List Str) (ok : Bool) (s : TsaBE), P s →
      P (keys.foldl (replaceIn net oldMbName newMbName) (ok, s)).2 := by
    intro keys
    induction keys with
    | nil => exact fun _ _ hs => hs
    | cons key keys ih => exact fun ok s hs => ih _ _ (hround ok s key hs)
  rw [doHandleReplacingMasterMB]
  split_ifs
  · have h := hloop keys true s hs
    rcases hresult : keys.foldl (replaceIn net oldMbName newMbName) (true, s) with ⟨_ | _, t⟩ <;>
      rw [hresult] at h <;> exact h
  · exact hs

/-- What a replacement for one key preserves, a command preserves that replaces. -/
lemma exec_replacing_induction {P : TsaBE → Prop}
    (hP : ∀ oldMbName newMbName s key, P s → P (s.replaceMasterMB net oldMbName newMbName key).2)
    (hcommand : (∃ stoppedMBName, e.command = .stopMaster stoppedMBName) ∨
      ∃ requestArgs, e.command = .replaceMaster requestArgs)
    (hs : P (s.begin e)) : P (exec net s e).2 := by
  cases h : replacement net e.command with
  | none => rwa [(exec_of_replacement_eq_none h hcommand).1]
  | some names =>
      rw [(exec_of_replacement h).2.2]
      exact doHandleReplacingMasterMB_induction (hP _ _) e.keys hs

end

/-! ### Small runs -/

/-- An add of a chain, as the first command, where the controller accepts everything. -/
def firstAdd (chain : String) : Event :=
  ⟨.addPolicyChain (chain ++ " {tp_dst=80}").toList, fun _ => true, [], []⟩

lemma inOrder_firstAdd (chain : String) (rules : List Rule) :
    (firstAdd chain).InOrder (TsaBE.new rules) :=
  ⟨by simp [firstAdd], by simp [firstAdd, TsaBE.new], by simp [firstAdd],
    by simp [firstAdd, TsaBE.new]⟩

/-- After the first add there are the data of its chain. -/
lemma data_after_firstAdd {net : Topology} {chain : String} {rules : List Rule} {r : ChainRequest}
    (hr : requestOf (chain ++ " {tp_dst=80}").toList = some r) {key : Str} {d : ChainData}
    (hd : (exec net (TsaBE.new rules) (firstAdd chain)).2.policyChainKeyToData key = some d) :
    key = r.key ∧ d = ((TsaBE.new rules).begin (firstAdd chain)).requestData net r := by
  obtain ⟨t, ht, hdata, -⟩ :=
    handleAddPolicyCommand_eq net ((TsaBE.new rules).begin (firstAdd chain)) hr
  have hexec : (exec net (TsaBE.new rules) (firstAdd chain)).2 = t := ht
  rw [hexec, hdata] at hd
  rcases eq_or_ne key r.key with rfl | hne
  · rw [Function.update_self] at hd
    exact ⟨rfl, (Option.some.inj hd).symm⟩
  · rw [Function.update_of_ne hne] at hd
    cases hd

/-- After the first add the orders are those of one chain. -/
lemma inOrder_after_firstAdd {net : Topology} (chain : String) (rules : List Rule)
    {r : ChainRequest} (hr : requestOf (chain ++ " {tp_dst=80}").toList = some r)
    (hinstallable : installable net r.hostSender r.policyChain = true) {e : Event}
    (hkeys : e.keys = [r.key]) (hpcids : e.pcids = [0]) :
    e.InOrder (exec net (TsaBE.new rules) (firstAdd chain)).2 := by
  obtain ⟨t, ht, hdata, hpcids', -⟩ :=
    handleAddPolicyCommand_eq net ((TsaBE.new rules).begin (firstAdd chain)) hr
  have hexec : (exec net (TsaBE.new rules) (firstAdd chain)).2 = t := ht
  rw [hexec]
  rw [if_pos hinstallable] at hpcids'
  refine ⟨by simp [hkeys], fun k => ?_, by simp [hpcids], fun p => ?_⟩
  · rcases eq_or_ne k r.key with rfl | hne
    · simp [hkeys, hdata]
    · simp [hkeys, hdata, hne, TsaBE.begin, TsaBE.new]
  · rw [hpcids]
    rcases eq_or_ne p 0 with rfl | hne
    · simp [hpcids', TsaBE.begin, TsaBE.new]
    · simp [hpcids', hne, TsaBE.begin, TsaBE.new]

/-- The state after the chain `h1,m1,m2` was added. -/
def oneChain : TsaBE := (exec twoSwitches (TsaBE.new []) (firstAdd "h1,m1,m2")).2

/-- The data of this chain. -/
def oneData : ChainData where
  policyChain := "m1,m2".toList
  vlanId := 1
  fullFlow := [.name "h1".toList, .switch 1, .switch 2, .name "m1".toList, .switch 2, .switch 1]

lemma data_oneChain {key : Str} {d : ChainData}
    (hd : oneChain.policyChainKeyToData key = some d) :
    key = "h1$m1,m2$tp_dst:80".toList ∧ d = oneData :=
  data_after_firstAdd (r := ⟨"h1".toList, "m1,m2".toList, [("tp_dst".toList, "80".toList)],
    "h1$m1,m2$tp_dst:80".toList⟩) rfl hd

/-- An add of a chain, after one other chain was added under the given key. -/
def secondAdd (chain : String) (key : Str) : Event :=
  ⟨.addPolicyChain (chain ++ " {tp_dst=80}").toList, fun _ => true, [key], [0]⟩

lemma inOrder_secondAdd {net : Topology} (chain chain' : String) (rules : List Rule)
    {r : ChainRequest} (hr : requestOf (chain ++ " {tp_dst=80}").toList = some r)
    (hinstallable : installable net r.hostSender r.policyChain = true) :
    (secondAdd chain' r.key).InOrder (exec net (TsaBE.new rules) (firstAdd chain)).2 :=
  inOrder_after_firstAdd chain rules hr hinstallable rfl rfl

end FtThesis.Tsa
