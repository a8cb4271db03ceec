/-
Do the commands do all or nothing?

* `Installed`: all rules of a chain were accepted, and its data describes them;
* `Unchanged`, `Complete`: what a command should leave behind that fails or succeeds;
* `AllOrNothing`: it does so;
* `rounds`, `requests`: what a command requests, chain by chain;
* `Safe`: the chains that a command installs can be installed, the controller accepts its requests,
  and these leave each chain with the rules that it should have;
* `Traced`: each flow begins with its sender, which is known if there is more in the flow;
* `replaceIn_loop`: what a replacement does to all chains;
* `allOrNothing_of_safe`: runs of safe commands do all or nothing;
* `not_allOrNothing`: an add of a chain with an unknown middlebox.
-/
import FtThesis.Tsa.Replacement

namespace FtThesis.Tsa

open Transition TsaBE

/-! ### All or nothing -/

/-- A chain is installed: its plan comes to an end, all its rules were accepted in this command, and
the data of its key describes exactly these rules. -/
structure Installed (net : Topology) (t : TsaBE) (key policyChain : Str) (vlanId : ℕ)
    (matchFields : List Field) (senderHost : Str) : Prop where
  ends : (chainPlan net policyChain vlanId matchFields senderHost).2 = true
  accepted : ∀ r ∈ rulesOf (chainPlan net policyChain vlanId matchFields senderHost).1,
    (.add r, true) ∈ t.controller.posts
  data : t.policyChainKeyToData key = some ⟨policyChain, vlanId, .name senderHost ::
    (chainPlan net policyChain vlanId matchFields senderHost).1.map Entry.flowEntry⟩

/-- Nothing has changed: neither the data nor the ids nor the rules. -/
structure Unchanged (s t : TsaBE) : Prop where
  data : t.policyChainKeyToData = s.policyChainKeyToData
  pcids : t.pcidToPolicyChainKey = s.pcidToPolicyChainKey
  nextPcid : t.nextPcid = s.nextPcid
  rules : t.controller.rules = s.controller.rules

/-- A chain is installed, and the rules that the controller has for it are exactly those of its
plan. -/
def InstalledExactly (net : Topology) (t : TsaBE) (key policyChain : Str) (vlanId : ℕ)
    (matchFields : List Field) (senderHost : Str) : Prop :=
  Installed net t key policyChain vlanId matchFields senderHost ∧
    HasRules t vlanId
      (installedRules net (policyChain.splitOn ',') vlanId matchFields senderHost)

/-- The chains of the keys that are not affected have their data and their rules from before. -/
def Spares (s t : TsaBE) (affected : Str → Prop) : Prop :=
  ∀ key, ¬ affected key → t.policyChainKeyToData key = s.policyChainKeyToData key ∧
    ∀ d, s.policyChainKeyToData key = some d → HasRules t d.vlanId s.controller.rules

/-- All chains with the old name are installed with the new one, with exactly their new rules. -/
def AllReplaced (net : Topology) (s t : TsaBE) (oldMbName newMbName : Str) : Prop :=
  ∀ key d, s.policyChainKeyToData key = some d → oldMbName ∈ d.mbs →
    ∃ fields, getMatchFieldsFromKey key = some fields ∧
      InstalledExactly net t key (replace d.policyChain oldMbName newMbName) d.vlanId fields
        (senderOf d.fullFlow)

/-- What a command should leave behind that succeeds.  The chain that is added, or each chain with
the old name, is installed and has exactly its rules; for a chain that is removed, or that had the
key of an added one, no rule is left; and the other chains are as before.  A middlebox can only be
unregistered from no chain at all. -/
def Complete (net : Topology) (s t : TsaBE) : Command → Prop
  | .addPolicyChain requestArgs => ∃ r, requestOf requestArgs = some r ∧
      InstalledExactly net t r.key r.policyChain s.nextVlanId r.matchFields r.hostSender ∧
      (∀ d, s.policyChainKeyToData r.key = some d → HasRules t d.vlanId []) ∧
      Spares s t (· = r.key)
  | .removePolicyChain requestArgs => ∃ r, requestOf requestArgs = some r ∧
      t.policyChainKeyToData r.key = none ∧
      (∀ d, s.policyChainKeyToData r.key = some d → HasRules t d.vlanId []) ∧
      Spares s t (· = r.key)
  | .unregMb mbName =>
      (∀ key d, s.policyChainKeyToData key = some d → ¬ mbName <:+: d.policyChain) ∧
        Spares s t fun _ => False
  | command => ∀ oldMbName newMbName, replacement net command = some (oldMbName, newMbName) →
      AllReplaced net s t oldMbName newMbName ∧
        Spares s t fun key => ∃ d, s.policyChainKeyToData key = some d ∧ oldMbName ∈ d.mbs

/-- A command that answers has done nothing, or all that it should do, with all its requests
accepted. -/
def AllOrNothing (net : Topology) (s : TsaBE) (e : Event) (t : TsaBE) : Prop :=
  ∀ response, (exec net s e).1 = some response →
    if response.success then
      Complete net s t e.command ∧ ∀ p ∈ t.controller.posts, p.2 = true
    else Unchanged s t

/-! ### The condition -/

/-- The round of a removal, if it comes to its requests. -/
def removalRound (net : Topology) (s : TsaBE) (key : Str) : Option Round :=
  match key.splitOn '$', getMatchFieldsFromKey key, s.policyChainKeyToData key with
  | [senderHost, _, _], some fields, some d =>
      if (deletePosts net senderHost d.vlanId fields 0 d.fullFlow).isSome then
        some
          { key := key
            vlanId := d.vlanId
            deletes := (deletePosts net senderHost d.vlanId fields 0 d.fullFlow).getD []
            adds := []
            deletes_only := deletes_of_getD
            adds_vlanId := fun _ hr => absurd hr List.not_mem_nil }
      else none
  | _, _, _ => none

/-- The round of an add: nothing is deleted. -/
def additionRound (net : Topology) (s : TsaBE) (r : ChainRequest) : Round where
  key := r.key
  vlanId := s.nextVlanId
  deletes := []
  adds := rulesOf (s.requestPlan net r)
  deletes_only := fun _ hp => absurd hp List.not_mem_nil
  adds_vlanId := fun _ hr => (rule_of_chainPlan (mem_rulesOf.mp hr)).1

/-- The rounds of a command: one for each chain that it adds, removes or replaces. -/
def rounds (net : Topology) (s : TsaBE) (e : Event) : List Round :=
  match e.command with
  | .addPolicyChain requestArgs => ((requestOf requestArgs).map (additionRound net s)).toList
  | .removePolicyChain requestArgs =>
      ((requestOf requestArgs).bind fun r => removalRound net s r.key).toList
  | .unregMb _ => []
  | command =>
      (replacement net command).elim [] fun (oldMbName, newMbName) =>
        e.keys.filterMap (rewriteRound net s oldMbName (replace · oldMbName newMbName))

/-- The requests of a command. -/
def requests (net : Topology) (s : TsaBE) (e : Event) : List Post := requestsOf (rounds net s e)

/-- The chains that a command installs can be installed, and no middlebox is unregistered from a
chain. -/
def Feasible (net : Topology) (s : TsaBE) : Command → Prop
  | .addPolicyChain requestArgs => ∀ r, requestOf requestArgs = some r →
      installable net r.hostSender r.policyChain = true
  | .removePolicyChain _ => True
  | .unregMb mbName => isAscii mbName = true →
      ∀ key d, s.policyChainKeyToData key = some d → ¬ mbName <:+: d.policyChain
  | command => ∀ oldMbName newMbName, replacement net command = some (oldMbName, newMbName) →
      ∀ key d, s.policyChainKeyToData key = some d → oldMbName ∈ d.mbs →
        installable net (senderOf d.fullFlow) (replace d.policyChain oldMbName newMbName) = true

/-- A command that is feasible, where the controller accepts all its requests, and these are
clean. -/
structure Safe (net : Topology) (s : TsaBE) (e : Event) : Prop where
  feasible : Feasible net s e.command
  accepted : ∀ i, i < (requests net s e).length → e.accepts i = true
  clean : Clean s (rounds net s e)

/-! ### Flows begin with their senders -/

/-- The keys are printable, with match fields, and each flow begins with its sender, which is known
if there is more in the flow. -/
def Traced (net : Topology) (s : TsaBE) : Prop :=
  ∀ key d, s.policyChainKeyToData key = some d →
    isAscii key = true ∧ (∃ fields, getMatchFieldsFromKey key = some fields) ∧
      ∃ senderHost flow, d.fullFlow = .name senderHost :: flow ∧
        (flow ≠ [] → (net.hostsThatSendPackets senderHost).isSome)

section

variable {net : Topology} {s t : TsaBE} {key : Str}

lemma Traced.of_data (h : Traced net s) (ht : t.policyChainKeyToData = s.policyChainKeyToData) :
    Traced net t := by
  rwa [Traced, ht]

lemma traced_installPolicyChainRules (h : Traced net s) (hkey : isAscii key = true)
    (hfields : ∃ fields, getMatchFieldsFromKey key = some fields) (policyChain : Str)
    (vlanId : ℕ) (fields : List Field) (senderHost : Str) :
    Traced net
      (s.installPolicyChainRules net key policyChain vlanId fields senderHost).2 := by
  obtain ⟨visited, hinstall⟩ :=
    installPolicyChainRules_eq net s hkey policyChain vlanId fields senderHost
  rw [hinstall]
  intro k d hd
  rcases eq_or_ne k key with rfl | hne
  · obtain rfl : _ = d := by simpa using hd
    refine ⟨hkey, hfields, senderHost, _, rfl, fun hflow => ?_⟩
    by_contra hnone
    rw [chainPlan_of_sender_eq_none (by simpa using hnone)] at hflow
    exact hflow rfl
  · exact h k d (by simpa [hne] using hd)

lemma traced_installRequest (h : Traced net s) {requestArgs : Str} {r : ChainRequest}
    (hr : requestOf requestArgs = some r) : Traced net (s.installRequest net r).2 :=
  traced_installPolicyChainRules (s := { s with nextVlanId := s.nextVlanId + 1 }) (h.of_data rfl)
    (isAscii_of_requestOf hr) (exists_getMatchFieldsFromKey_of_requestOf hr) _ _ _ _

lemma traced_removePolicyChain (h : Traced net s) (key : Str) (pcids : List ℕ) :
    Traced net (s.removePolicyChain net key pcids).2 := by
  rcases removePolicyChain_cases net s key pcids with hr | ⟨_, _, _, _, _, _, -, -, -, -, hr⟩
  · rwa [hr]
  · rw [hr]
    intro k d hd
    have hd' : Function.update s.policyChainKeyToData key none k = some d := by
      rw [popPcid] at hd
      split at hd <;> exact hd
    rcases eq_or_ne k key with rfl | hne
    · simp at hd'
    · exact h k d (by simpa [hne] using hd')

lemma traced_replaceMasterMB (h : Traced net s) (oldMbName newMbName key : Str) :
    Traced net (s.replaceMasterMB net oldMbName newMbName key).2 := by
  rcases replaceMasterMB_cases net s oldMbName newMbName key with
    hr | ⟨d, fields, posts, hd, hfields, -, hr⟩
  · rwa [hr]
  · rw [hr]
    exact traced_installPolicyChainRules (s := { s with controller := s.controller.urlopens posts })
      (h.of_data rfl) (h key d hd).1 ⟨fields, hfields⟩ _ _ _ _

lemma traced_step {e : Event} (h : Traced net s) (hstep : Step net s e t) : Traced net t := by
  obtain ⟨-, rfl⟩ := hstep
  have hbegin : Traced net (s.begin e) := h
  have hreplacing := @exec_replacing_induction net s e (Traced net)
    fun oldMbName newMbName s key hs => traced_replaceMasterMB hs oldMbName newMbName key
  cases hcommand : e.command with
  | addPolicyChain requestArgs =>
      rw [exec, hcommand]
      cases hrequest : requestOf requestArgs with
      | none =>
          obtain ⟨-, n, -, ht⟩ := handleAddPolicyCommand_of_none net (s.begin e) hrequest
          simp only [ht]
          exact hbegin
      | some r =>
          rcases hinstall : (s.begin e).installRequest net r with ⟨ok, t⟩
          have ht := (handleAddPolicyCommand_of_some net (s.begin e) hrequest hinstall).2
          have htraced := traced_installRequest hbegin hrequest
          rw [hinstall] at htraced
          simp only [ht]
          cases ok <;> exact htraced
  | removePolicyChain requestArgs =>
      rw [exec, hcommand]
      rcases handleRemovePolicychain_cases net (s.begin e) requestArgs e.pcids with
        ⟨-, ht⟩ | ⟨r, _, t, -, hremove, -, ht⟩
      · simp only [ht]
        exact hbegin
      · have h := traced_removePolicyChain hbegin r.key e.pcids
        rw [hremove] at h
        simp only [ht]
        exact h
  | unregMb mbName =>
      obtain ⟨controller, ht⟩ :=
        onlyController_handleUnregisterMiddleboxCommand net (s.begin e) mbName e.keys
      rw [exec, hcommand]
      simp only [ht]
      exact hbegin.of_data rfl
  | stopMaster stoppedMBName => exact hreplacing (.inl ⟨stoppedMBName, hcommand⟩) hbegin
  | replaceMaster requestArgs => exact hreplacing (.inr ⟨requestArgs, hcommand⟩) hbegin

end

/-! ### Accepted requests -/

section

variable {net : Topology} {s t : TsaBE} {key : Str}

/-- A recorded chain can be uninstalled for its sender. -/
lemma Traced.exists_deletePosts (h : Traced net s) {d : ChainData}
    (hd : s.policyChainKeyToData key = some d) (fields : List Field) :
    ∃ posts, deletePosts net (senderOf d.fullFlow) d.vlanId fields 0 d.fullFlow = some posts := by
  obtain ⟨-, -, senderHost, flow, hflow, hknown⟩ := h key d hd
  rw [hflow, senderOf, deletePosts]
  by_cases hne : flow = []
  · exact ⟨[], by rw [hne, deletePosts]⟩
  · exact Tsa.exists_deletePosts (hknown hne) _ _ _ _

/-- If its requests are accepted, a chain that can be installed is installed. -/
lemma installed_of_accepting (hkey : isAscii key = true) {policyChain : Str} {vlanId : ℕ}
    {fields : List Field} {senderHost : Str}
    (hinstallable : installable net senderHost policyChain = true) {posts : List Post}
    (hposts : posts = (rulesOf (chainPlan net policyChain vlanId fields senderHost).1).map .add)
    (haccepting : s.controller.Accepting posts.length) :
    ∃ t, s.installPolicyChainRules net key policyChain vlanId fields senderHost = (true, t) ∧
      Installed net t key policyChain vlanId fields senderHost ∧
      (∀ k, k ≠ key → t.policyChainKeyToData k = s.policyChainKeyToData k) ∧
      t.controller = s.controller.urlopens posts := by
  obtain ⟨visited, hinstall⟩ :=
    installPolicyChainRules_eq net s hkey policyChain vlanId fields senderHost
  have hends := (chainPlan_snd net policyChain vlanId fields senderHost).trans hinstallable
  have hadds := (urlopens_of_accepting haccepting).2
  rw [hposts, List.length_map] at haccepting
  rw [carriedOut_of_accepts haccepting, hends, ← hposts] at hinstall
  refine ⟨_, hinstall, ⟨hends, fun r hr => ?_, by simp⟩, fun k hk => by simp [hk], rfl⟩
  simp only [hadds, List.mem_append, List.mem_map]
  exact .inr ⟨.add r, by rw [hposts]; exact List.mem_map_of_mem hr, rfl⟩

/-- An installed chain stays so while further requests are accepted and its data is kept. -/
lemma Installed.mono {u : TsaBE} {policyChain : Str} {vlanId : ℕ} {fields : List Field}
    {senderHost : Str} (h : Installed net t key policyChain vlanId fields senderHost)
    (hdata : u.policyChainKeyToData key = t.policyChainKeyToData key) {posts : List Post}
    (hu : u.controller = t.controller.urlopens posts)
    (haccepting : t.controller.Accepting posts.length) :
    Installed net u key policyChain vlanId fields senderHost := by
  refine ⟨h.ends, fun r hr => ?_, hdata.trans h.data⟩
  rw [hu, (urlopens_of_accepting haccepting).2]
  exact List.mem_append_left _ (h.accepted r hr)

/-! ### Replacements -/

/-- What a replacement for some keys leaves behind. -/
structure Replaces (net : Topology) (s t : TsaBE) (oldMbName newMbName : Str)
    (keys : List Str) : Prop where
  requests : t.controller = s.controller.urlopens
    (keys.flatMap (rewriteRequests net s oldMbName (replace · oldMbName newMbName)))
  same : ∀ key, (∀ d, s.policyChainKeyToData key = some d → key ∈ keys → oldMbName ∉ d.mbs) →
    t.policyChainKeyToData key = s.policyChainKeyToData key
  installed : ∀ key ∈ keys, ∀ d, s.policyChainKeyToData key = some d → oldMbName ∈ d.mbs →
    ∃ fields, getMatchFieldsFromKey key = some fields ∧
      Installed net t key (replace d.policyChain oldMbName newMbName) d.vlanId fields
        (senderOf d.fullFlow)

variable {oldMbName newMbName : Str}

/-- One round of a replacement. -/
lemma replaceIn_round (hs : Traced net s)
    (hinstallable : ∀ d, s.policyChainKeyToData key = some d → oldMbName ∈ d.mbs →
      installable net (senderOf d.fullFlow) (replace d.policyChain oldMbName newMbName) = true)
    (haccepting : s.controller.Accepting
      (rewriteRequests net s oldMbName (replace · oldMbName newMbName) key).length) :
    ∃ t, replaceIn net oldMbName newMbName (true, s) key = (true, t) ∧ Traced net t ∧
      Replaces net s t oldMbName newMbName [key] := by
  have hskip : (∀ d, s.policyChainKeyToData key = some d → oldMbName ∉ d.mbs) →
      Replaces net s s oldMbName newMbName [key] := by
    intro hno
    refine ⟨?_, fun _ _ => rfl, fun k hk d hd hmem => ?_⟩
    · simp [rewriteRequests_of_not_mem _ hno, Controller.urlopens]
    · obtain rfl := List.mem_singleton.mp hk
      exact absurd hmem (hno d hd)
  rw [replaceIn]
  cases hd : s.policyChainKeyToData key with
  | none => exact ⟨s, rfl, hs, hskip (by simp [hd])⟩
  | some d =>
      simp only
      by_cases hmem : oldMbName ∈ d.policyChain.splitOn ','
      · obtain ⟨hascii, ⟨fields, hfields⟩, -⟩ := hs key d hd
        obtain ⟨posts, hposts⟩ : ∃ posts, deletePosts net (senderOf d.fullFlow) d.vlanId fields 0
            d.fullFlow = some posts := hs.exists_deletePosts hd _
        have hrequests := rewriteRequests_of_mem (replace · oldMbName newMbName) hd hmem hfields
          hposts
        rw [hrequests, List.length_append] at haccepting
        have hreplace : s.replaceMasterMB net oldMbName newMbName key =
            { s with controller := s.controller.urlopens posts }.installPolicyChainRules net key
              (replace d.policyChain oldMbName newMbName) d.vlanId fields
              (senderOf d.fullFlow) := by
          rw [replaceMasterMB]
          simp only [hd, hfields, uninstallPolicyChainRules_eq hd hposts, unlessRaised]
        obtain ⟨t, ht, hinstalled, hother, hcontroller⟩ := installed_of_accepting
          (s := { s with controller := s.controller.urlopens posts }) hascii
          (hinstallable d hd hmem) rfl haccepting.after
        have htraced := traced_replaceMasterMB hs oldMbName newMbName key
        rw [hreplace, ht] at htraced
        refine ⟨t, by simp [hmem, hreplace, ht], htraced, ⟨?_, fun k hk => hother k ?_,
          fun k hk d' hd' _ => ?_⟩⟩
        · rw [hcontroller, List.flatMap_singleton, hrequests, urlopens_append]
        · rintro rfl
          exact hk d hd List.mem_cons_self hmem
        · obtain rfl := List.mem_singleton.mp hk
          obtain rfl := Option.some.inj (hd.symm.trans hd')
          exact ⟨fields, hfields, hinstalled⟩
      · simp only [if_neg hmem]
        exact ⟨s, rfl, hs, hskip fun d' hd' => by cases hd.symm.trans hd'; exact hmem⟩

/-- The rounds of a replacement do not touch each other's keys. -/
lemma replaceIn_loop {keys : List Str} (hnodup : keys.Nodup) (hs : Traced net s)
    (hinstallable : ∀ key ∈ keys, ∀ d, s.policyChainKeyToData key = some d →
      oldMbName ∈ d.mbs →
        installable net (senderOf d.fullFlow) (replace d.policyChain oldMbName newMbName) = true)
    (haccepting : s.controller.Accepting
      (keys.flatMap (rewriteRequests net s oldMbName (replace · oldMbName newMbName))).length) :
    ∃ t, keys.foldl (replaceIn net oldMbName newMbName) (true, s) = (true, t) ∧
      Replaces net s t oldMbName newMbName keys := by
  induction keys generalizing s with
  | nil => exact ⟨s, rfl, rfl, fun _ _ => rfl, nofun⟩
  | cons key keys ih =>
      obtain ⟨hkey, hnodup⟩ := List.nodup_cons.mp hnodup
      rw [List.flatMap_cons, List.length_append] at haccepting
      obtain ⟨t, ht, htraced, hround⟩ := replaceIn_round hs
        (hinstallable key List.mem_cons_self) (haccepting.mono (Nat.le_add_right _ _))
      have hcontroller := hround.requests
      rw [List.flatMap_singleton] at hcontroller
      have hother : ∀ k, k ≠ key → t.policyChainKeyToData k = s.policyChainKeyToData k :=
        fun k hne => hround.same k fun d hd hk => absurd (List.mem_singleton.mp hk) hne
      have hsame : ∀ k ∈ keys, t.policyChainKeyToData k = s.policyChainKeyToData k := by
        intro k hk
        refine hother k ?_
        rintro rfl
        exact hkey hk
      have hrequests : keys.flatMap
          (rewriteRequests net t oldMbName (replace · oldMbName newMbName)) =
          keys.flatMap (rewriteRequests net s oldMbName (replace · oldMbName newMbName)) :=
        List.flatMap_congr fun k hk => by rw [rewriteRequests, rewriteRequests, hsame k hk]
      have hrest : t.controller.Accepting (keys.flatMap
          (rewriteRequests net t oldMbName (replace · oldMbName newMbName))).length := by
        rw [hcontroller, hrequests]
        exact haccepting.after
      obtain ⟨u, hu, hloop⟩ := ih hnodup htraced
        (fun k hk d hd => hinstallable k (List.mem_cons_of_mem _ hk) d (by rw [← hsame k hk, hd]))
        hrest
      have hcontroller' := hloop.requests
      rw [hrequests] at hcontroller'
      refine ⟨u, by rw [List.foldl_cons, ht, hu], ?_, fun k hk => ?_, fun k hk d hd hmem => ?_⟩
      · rw [hcontroller', hcontroller, ← urlopens_append, List.flatMap_cons]
      · rcases eq_or_ne k key with rfl | hne
        · rw [hloop.same k fun _ _ hk => absurd hk hkey,
            hround.same k fun d hd _ => hk d hd List.mem_cons_self]
        · rw [hloop.same k fun d hd hk' => ?_, hother k hne]
          exact hk d (by rw [← hother k hne, hd]) (List.mem_cons_of_mem _ hk')
      · rcases List.mem_cons.mp hk with rfl | hk
        · obtain ⟨fields, hfields, hinstalled⟩ := hround.installed k (by simp) d hd hmem
          exact ⟨fields, hfields, hinstalled.mono
            (hloop.same k fun _ _ hk => absurd hk hkey) hloop.requests hrest⟩
        · exact hloop.installed k hk d (by rw [hsame k hk, hd]) hmem

/-! ### The rounds of a command -/

variable {e : Event}

lemma rounds_replacing (hcommand : (∃ stoppedMBName, e.command = .stopMaster stoppedMBName) ∨
      ∃ requestArgs, e.command = .replaceMaster requestArgs) :
    rounds net s e = (replacement net e.command).elim [] fun (oldMbName, newMbName) =>
      e.keys.filterMap (rewriteRound net s oldMbName (replace · oldMbName newMbName)) := by
  rcases hcommand with ⟨_, hc⟩ | ⟨_, hc⟩ <;> simp only [rounds, hc]

/-- A removal has a round only for a chain. -/
lemma exists_of_removalRound {w : Round} (h : removalRound net s key = some w) :
    w.key = key ∧ ∃ d, s.policyChainKeyToData key = some d ∧ w.vlanId = d.vlanId := by
  rw [removalRound] at h
  split at h
  next d _ _ hd =>
    split_ifs at h
    obtain rfl := Option.some.inj h
    exact ⟨rfl, d, hd, rfl⟩
  · cases h

/-- The VLAN id of a round is that of its chain, or the next one. -/
lemma vlanId_of_mem_rounds {w : Round} (hw : w ∈ rounds net s e) :
    (∃ d, s.policyChainKeyToData w.key = some d ∧ w.vlanId = d.vlanId) ∨
      w.vlanId = s.nextVlanId := by
  have hreplacing : (∃ stoppedMBName, e.command = .stopMaster stoppedMBName) ∨
      (∃ requestArgs, e.command = .replaceMaster requestArgs) →
      ∃ d, s.policyChainKeyToData w.key = some d ∧ w.vlanId = d.vlanId := by
    intro hcommand
    rw [rounds_replacing hcommand] at hw
    cases hnames : replacement net e.command with
    | none => simp [hnames] at hw
    | some names =>
        rw [hnames] at hw
        obtain ⟨key, -, hround⟩ := List.mem_filterMap.mp hw
        obtain ⟨rfl, d, hd, -, hv⟩ := exists_of_rewriteRound hround
        exact ⟨d, hd, hv⟩
  cases hcommand : e.command with
  | addPolicyChain requestArgs =>
      rw [rounds, hcommand] at hw
      obtain ⟨r, -, rfl⟩ := Option.map_eq_some_iff.mp (Option.mem_toList.mp hw)
      exact .inr rfl
  | removePolicyChain requestArgs =>
      rw [rounds, hcommand] at hw
      obtain ⟨r, -, hround⟩ := Option.bind_eq_some_iff.mp (Option.mem_toList.mp hw)
      obtain ⟨hkey, d, hd, hv⟩ := exists_of_removalRound hround
      exact .inl ⟨d, by rw [hkey, hd], hv⟩
  | unregMb mbName =>
      rw [rounds, hcommand] at hw
      cases hw
  | stopMaster stoppedMBName => exact .inl (hreplacing (.inl ⟨stoppedMBName, hcommand⟩))
  | replaceMaster requestArgs => exact .inl (hreplacing (.inr ⟨requestArgs, hcommand⟩))

section

variable (hdistinct : s.index.Distinct)

include hdistinct

/-- The rounds have different VLAN ids. -/
lemma nodup_rounds (horder : e.InOrder s) : ((rounds net s e).map Round.vlanId).Nodup := by
  have htoList : ∀ o : Option Round, (o.toList.map Round.vlanId).Nodup := by
    rintro (_ | w)
    · exact List.nodup_nil
    · exact List.nodup_singleton _
  have hreplacing : (∃ stoppedMBName, e.command = .stopMaster stoppedMBName) ∨
      (∃ requestArgs, e.command = .replaceMaster requestArgs) →
      ((rounds net s e).map Round.vlanId).Nodup := by
    intro hcommand
    rw [rounds_replacing hcommand]
    cases replacement net e.command with
    | none => exact List.nodup_nil
    | some names => exact nodup_rewriteRounds hdistinct _ horder.nodup_keys
  cases hcommand : e.command with
  | addPolicyChain requestArgs =>
      rw [rounds, hcommand]
      exact htoList _
  | removePolicyChain requestArgs =>
      rw [rounds, hcommand]
      exact htoList _
  | unregMb mbName =>
      rw [rounds, hcommand]
      exact List.nodup_nil
  | stopMaster stoppedMBName => exact hreplacing (.inl ⟨stoppedMBName, hcommand⟩)
  | replaceMaster requestArgs => exact hreplacing (.inr ⟨requestArgs, hcommand⟩)

/-- A chain that has no round has another VLAN id than the rounds. -/
lemma vlanId_ne_of_key_ne {d : ChainData} (hd : s.policyChainKeyToData key = some d) {w : Round}
    (hw : w ∈ rounds net s e) (hkey : w.key ≠ key) : w.vlanId ≠ d.vlanId := by
  intro heq
  rcases vlanId_of_mem_rounds hw with ⟨d', hd', hv⟩ | hv
  · exact hkey (hdistinct.inj w.key key d.vlanId (by simp [index, hd', ← hv, heq])
      (by simp [index, hd]))
  · exact (hdistinct.lt key d.vlanId (by simp [index, hd])).ne (heq.symm.trans hv)

variable (hsafe : Safe net s e)

include hsafe

/-- After the requests of a safe command, the chains without a round are as before. -/
lemma Safe.spares {affected : Str → Prop}
    (ht : t.controller.rules = (requests net s e).foldl Post.apply s.controller.rules)
    (haffected : ∀ w ∈ rounds net s e, affected w.key)
    (hdata : ∀ key, ¬ affected key → t.policyChainKeyToData key = s.policyChainKeyToData key) :
    Spares s t affected := by
  intro key hkey
  have hne : ∀ w ∈ rounds net s e, w.key ≠ key := by
    rintro w hw rfl
    exact hkey (haffected w hw)
  exact ⟨hdata key hkey, fun d hd => hsafe.clean.spares ht hd hne fun w hw =>
    vlanId_ne_of_key_ne hdistinct hd hw (hne w hw)⟩

omit hdistinct

/-- The requests of a safe command are carried out, and all of them are accepted. -/
lemma Safe.rules_eq (ht : t.controller = (s.begin e).controller.urlopens (requests net s e)) :
    t.controller.rules = (requests net s e).foldl Post.apply s.controller.rules ∧
      ∀ p ∈ t.controller.posts, p.2 = true := by
  have haccepting : (s.begin e).controller.Accepting (requests net s e).length := fun i hi => by
    simpa [TsaBE.begin] using hsafe.accepted i hi
  obtain ⟨hrules, hposts⟩ := urlopens_of_accepting haccepting
  rw [ht]
  refine ⟨hrules, ?_⟩
  rw [hposts]
  simp [TsaBE.begin]

end

/-! ### The commands -/

lemma unchanged_begin (s : TsaBE) (e : Event) : Unchanged s (s.begin e) := ⟨rfl, rfl, rfl, rfl⟩

lemma accepting_begin {n : ℕ} (h : ∀ i, i < n → e.accepts i = true) :
    (s.begin e).controller.Accepting n := fun i hi => by
  simpa [TsaBE.begin] using h i hi

/-- The rules of a chain, by its text. -/
lemma installedRules_splitOn (policyChain : Str) (vlanId : ℕ) (fields : List Field)
    (senderHost : Str) :
    installedRules net (policyChain.splitOn ',') vlanId fields senderHost =
      ((rulesOf (chainPlan net policyChain vlanId fields senderHost).1).map .add).foldl
        Post.apply [] := by
  have hjoin : commas (policyChain.splitOn ',') = policyChain := List.intercalate_splitOn ','
  rw [installedRules, chainRules, hjoin]

lemma allOrNothing_addPolicyChain (hdistinct : s.index.Distinct) {requestArgs : Str}
    (hcommand : e.command = .addPolicyChain requestArgs) (hsafe : Safe net s e)
    (horder : e.InOrder s) : AllOrNothing net s e (exec net s e).2 := by
  have hfeasible := hsafe.feasible
  rw [hcommand] at hfeasible
  intro response hresponse
  rw [exec, hcommand] at hresponse ⊢
  cases hrequest : requestOf requestArgs with
  | none =>
      obtain ⟨hfailed, n, -, ht⟩ := handleAddPolicyCommand_of_none net (s.begin e) hrequest
      obtain rfl := Option.some.inj hresponse
      simp only [hfailed, ht]
      exact ⟨rfl, rfl, rfl, rfl⟩
  | some r =>
      have hrounds : rounds net s e = [additionRound net s r] := by
        simp [rounds, hcommand, hrequest]
      have hrequests : requests net s e = (rulesOf (s.requestPlan net r)).map .add := by
        simp [requests, hrounds, requestsOf, Round.requests, additionRound]
      have hw : additionRound net s r ∈ rounds net s e := by simp [hrounds]
      obtain ⟨t, hinstall, hinstalled, hother, hcontroller⟩ := installed_of_accepting
        (s := { s.begin e with nextVlanId := s.nextVlanId + 1 }) (isAscii_of_requestOf hrequest)
        (hfeasible r hrequest) hrequests (accepting_begin hsafe.accepted)
      obtain ⟨hsuccess, ht⟩ := handleAddPolicyCommand_of_some net (s.begin e) hrequest hinstall
      obtain ⟨hrules, hall⟩ := hsafe.rules_eq hcontroller
      obtain rfl := Option.some.inj hresponse
      simp only [hsuccess, ht, if_true]
      refine ⟨⟨r, hrequest, ⟨⟨hinstalled.ends, hinstalled.accepted, hinstalled.data⟩, ?_⟩,
        fun d hd => ?_, ?_⟩, hall⟩
      · rw [installedRules_splitOn]
        exact hsafe.clean.hasRules hrules (nodup_rounds hdistinct horder) hw
      · refine hsafe.clean.gone hrules hw hd fun w' hw' => ?_
        rw [hrounds, List.mem_singleton] at hw'
        rw [hw']
        exact (hdistinct.lt r.key d.vlanId (by simp [index, hd])).ne'
      · refine hsafe.spares hdistinct hrules (fun w' hw' => ?_) fun k hk => hother k hk
        rw [hrounds, List.mem_singleton] at hw'
        rw [hw']
        rfl

lemma allOrNothing_removePolicyChain (hdistinct : s.index.Distinct) {requestArgs : Str}
    (hcommand : e.command = .removePolicyChain requestArgs) (hsafe : Safe net s e)
    (horder : e.InOrder s) : AllOrNothing net s e (exec net s e).2 := by
  intro response hresponse
  rw [exec, hcommand] at hresponse ⊢
  obtain rfl := Option.some.inj hresponse
  rcases handleRemovePolicychain_cases net (s.begin e) requestArgs e.pcids with
    ⟨hfailed, ht⟩ | ⟨r, _, t, hr, hremove, hsuccess, ht⟩
  · simp only [hfailed, ht]
    exact unchanged_begin s e
  · rcases removePolicyChain_cases net (s.begin e) r.key e.pcids with
      h | ⟨senderHost, _, _, fields, d, posts, hsplit, hfields, hd, hposts, h⟩ <;>
      rw [hremove] at h <;> cases h
    have hd' : s.policyChainKeyToData r.key = some d := hd
    obtain ⟨w, hround, hkey, hvlan, hrequests, hnothing⟩ :
        ∃ w, removalRound net s r.key = some w ∧ w.key = r.key ∧ w.vlanId = d.vlanId ∧
          w.requests = posts ∧ w.rules = [] := by
      rw [removalRound, hsplit, hfields, hd']
      simp only [hposts, Option.isSome_some, if_true, Option.getD_some]
      exact ⟨_, rfl, rfl, rfl, List.append_nil _, rfl⟩
    have hrounds : rounds net s e = [w] := by simp [rounds, hcommand, hr, hround]
    have hw : w ∈ rounds net s e := by simp [hrounds]
    have hposts' : requests net s e = posts := by simp [requests, hrounds, requestsOf, hrequests]
    obtain ⟨hrules, hall⟩ := hsafe.rules_eq
      (t := { s with controller := (s.begin e).controller.urlopens posts }) (by rw [hposts'])
    have hcomplete : ∀ u : TsaBE,
        u.policyChainKeyToData = Function.update s.policyChainKeyToData r.key none →
        u.controller = (s.begin e).controller.urlopens posts →
        Complete net s u (.removePolicyChain requestArgs) ∧
          ∀ p ∈ u.controller.posts, p.2 = true := by
      intro u hdata hcontroller
      have hrules' : u.controller.rules =
          (requests net s e).foldl Post.apply s.controller.rules := by rw [hcontroller, ← hrules]
      refine ⟨⟨r, hr, by simp [hdata], fun d₁ hd₁ => ?_, ?_⟩, by rwa [hcontroller]⟩
      · obtain rfl := Option.some.inj (hd'.symm.trans hd₁)
        rw [← hvlan, ← hnothing]
        exact hsafe.clean.hasRules hrules' (nodup_rounds hdistinct horder) hw
      · refine hsafe.spares hdistinct hrules' (fun w' hw' => ?_) fun k hk => by simp [hdata, hk]
        rw [hrounds, List.mem_singleton] at hw'
        rw [hw', hkey]
    simp only [hsuccess, ht, if_true]
    rw [popPcid]
    split
    · exact hcomplete _ rfl rfl
    · exact hcomplete _ rfl rfl

lemma allOrNothing_unregMb {mbName : Str} (hcommand : e.command = .unregMb mbName)
    (hsafe : Safe net s e) : AllOrNothing net s e (exec net s e).2 := by
  have hfeasible := hsafe.feasible
  rw [hcommand] at hfeasible
  intro response hresponse
  by_cases hascii : isAscii mbName = true
  · have hno := hfeasible hascii
    have hexec : exec net s e = (some ⟨true, []⟩, s.begin e) :=
      exec_unregMb_of_not_occurs hcommand hascii hno
    rw [hexec] at hresponse ⊢
    obtain rfl := Option.some.inj hresponse
    rw [if_pos rfl, hcommand]
    exact ⟨⟨hno, fun _ _ => ⟨rfl, fun _ _ _ _ => Iff.rfl⟩⟩, by simp [TsaBE.begin]⟩
  · rw [exec, hcommand] at hresponse
    simp [handleUnregisterMiddleboxCommand, hascii] at hresponse

/-- A replacement that has gone through all chains leaves them as they should be. -/
lemma allReplaced_of_replaces (hdistinct : s.index.Distinct) (horder : e.InOrder s)
    (hsafe : Safe net s e) (hreplaces : Replaces net (s.begin e) t oldMbName newMbName e.keys)
    (hrounds : rounds net s e = e.keys.filterMap
      (rewriteRound net s oldMbName (replace · oldMbName newMbName)))
    (hrules : t.controller.rules = (requests net s e).foldl Post.apply s.controller.rules) :
    AllReplaced net s t oldMbName newMbName ∧
      Spares s t fun key => ∃ d, s.policyChainKeyToData key = some d ∧ oldMbName ∈ d.mbs := by
  refine ⟨fun key d hd hmem => ?_, hsafe.spares hdistinct hrules (fun w hw => ?_) ?_⟩
  · have hkey : key ∈ e.keys := (horder.mem_keys key).mpr (by simp [hd])
    obtain ⟨fields, hfields, hinstalled⟩ := hreplaces.installed key hkey d hd hmem
    refine ⟨fields, hfields, hinstalled, ?_⟩
    obtain ⟨w, hw, hvlan, hwrules⟩ := @exists_rewriteRound net _ _ _
      (replace · oldMbName newMbName) _ hd hmem _ hfields
    rw [installedRules_splitOn, ← hwrules, ← hvlan]
    refine hsafe.clean.hasRules hrules (nodup_rounds hdistinct horder) ?_
    rw [hrounds]
    exact List.mem_filterMap.mpr ⟨key, hkey, hw⟩
  · rw [hrounds] at hw
    obtain ⟨key, -, hround⟩ := List.mem_filterMap.mp hw
    obtain ⟨rfl, d, hd, hmem, -⟩ := exists_of_rewriteRound hround
    exact ⟨d, hd, hmem⟩
  · exact fun key hkey => hreplaces.same key fun d hd _ hmem => hkey ⟨d, hd, hmem⟩

lemma allOrNothing_replacing (hdistinct : s.index.Distinct) (hs : Traced net s)
    (horder : e.InOrder s)
    (hcommand : (∃ stoppedMBName, e.command = .stopMaster stoppedMBName) ∨
      ∃ requestArgs, e.command = .replaceMaster requestArgs) (hsafe : Safe net s e) :
    AllOrNothing net s e (exec net s e).2 := by
  have hfeasible : ∀ oldMbName newMbName, replacement net e.command = some (oldMbName, newMbName) →
      ∀ key d, s.policyChainKeyToData key = some d → oldMbName ∈ d.mbs →
        installable net (senderOf d.fullFlow) (replace d.policyChain oldMbName newMbName) =
          true := by
    have h := hsafe.feasible
    rcases hcommand with ⟨_, hc⟩ | ⟨_, hc⟩ <;> rwa [hc] at h ⊢
  have hcomplete : ∀ t, Complete net s t e.command ↔ ∀ oldMbName newMbName,
      replacement net e.command = some (oldMbName, newMbName) →
        AllReplaced net s t oldMbName newMbName ∧
          Spares s t fun key => ∃ d, s.policyChainKeyToData key = some d ∧ oldMbName ∈ d.mbs := by
    rcases hcommand with ⟨_, hc⟩ | ⟨_, hc⟩ <;> rw [hc] <;> exact fun t => Iff.rfl
  intro response hresponse
  cases hnames : replacement net e.command with
  | none =>
      obtain ⟨ht, hfailed⟩ := exec_of_replacement_eq_none (s := s) hnames hcommand
      rw [hfailed response hresponse, ht]
      exact unchanged_begin s e
  | some names =>
      obtain ⟨oldMbName, newMbName⟩ := names
      obtain ⟨hold, hnew, hexec⟩ := exec_of_replacement (s := s) hnames
      have hrounds : rounds net s e = e.keys.filterMap
          (rewriteRound net s oldMbName (replace · oldMbName newMbName)) := by
        rw [rounds_replacing hcommand, hnames, Option.elim_some]
      have hrequests : requests net s e = e.keys.flatMap
          (rewriteRequests net s oldMbName (replace · oldMbName newMbName)) := by
        rw [requests, hrounds, flatMap_rewriteRequests]
      have haccepting := accepting_begin (s := s) hsafe.accepted
      rw [hrequests] at haccepting
      obtain ⟨t, ht, hreplaces⟩ := replaceIn_loop (s := s.begin e) horder.nodup_keys hs
        (fun key _ => hfeasible oldMbName newMbName hnames key) haccepting
      have hsuccess : exec net s e =
          (some ⟨true, "Master mb was replaced successfully.".toList⟩, t) := by
        rw [hexec, doHandleReplacingMasterMB, if_pos ⟨hold, hnew⟩, ht]
        rfl
      rw [hsuccess] at hresponse ⊢
      obtain rfl := Option.some.inj hresponse
      obtain ⟨hrules, hall⟩ := hsafe.rules_eq (t := t) (by rw [hrequests]; exact hreplaces.requests)
      rw [if_pos rfl]
      refine ⟨(hcomplete t).mpr fun old new hnames' => ?_, hall⟩
      obtain ⟨rfl, rfl⟩ := Prod.mk.inj (Option.some.inj (hnames.symm.trans hnames'))
      exact allReplaced_of_replaces hdistinct horder hsafe hreplaces hrounds hrules

lemma allOrNothing_step (hdistinct : s.index.Distinct) (hs : Traced net s)
    (hstep : Step net s e t) (hsafe : Safe net s e) : AllOrNothing net s e t := by
  obtain ⟨horder, rfl⟩ := hstep
  cases hcommand : e.command with
  | addPolicyChain requestArgs =>
      exact allOrNothing_addPolicyChain hdistinct hcommand hsafe horder
  | removePolicyChain requestArgs =>
      exact allOrNothing_removePolicyChain hdistinct hcommand hsafe horder
  | unregMb mbName => exact allOrNothing_unregMb hcommand hsafe
  | stopMaster stoppedMBName =>
      exact allOrNothing_replacing hdistinct hs horder (.inl ⟨stoppedMBName, hcommand⟩) hsafe
  | replaceMaster requestArgs =>
      exact allOrNothing_replacing hdistinct hs horder (.inr ⟨requestArgs, hcommand⟩) hsafe

end

/-! ### Runs -/

lemma traced_new (net : Topology) (rules : List Rule) : Traced net (TsaBE.new rules) := nofun

/-- The first add is safe. -/
lemma safe_firstAdd : Safe twoSwitches (TsaBE.new []) (firstAdd "h1,m1,m2") where
  feasible r hr := by
    obtain rfl : _ = r := Option.some.inj hr
    rfl
  accepted _ _ := rfl
  clean :=
    { cleared := fun _ _ _ hr => absurd hr List.not_mem_nil
      kept := fun before w after hrounds r _ p hp => by
        have hone : (rounds twoSwitches (TsaBE.new []) (firstAdd "h1,m1,m2")).length = 1 := by
          decide +kernel
        obtain rfl := List.eq_nil_of_eq_append_cons hone.le hrounds
        cases hp
      spared := fun _ _ hd => by cases hd }

/-- The replacement of its first middlebox is safe. -/
lemma safe_replaceFirst :
    Safe twoSwitches oneChain (replaceFirst "m1 m3" "h1$m1,m2$tp_dst:80") where
  feasible old new hnames key d hd _ := by
    obtain ⟨-, rfl⟩ := data_oneChain hd
    obtain ⟨rfl, rfl⟩ := Prod.mk.inj (Option.some.inj hnames)
    rfl
  accepted _ _ := rfl
  clean :=
    { cleared := fun _ _ r hr _ => by
        have hall : ∀ r ∈ oneChain.controller.rules, ∃ p ∈ requests twoSwitches oneChain
            (replaceFirst "m1 m3" "h1$m1,m2$tp_dst:80"), p.Reaches r := by decide +kernel
        exact .inl (hall r hr)
      kept := fun before w after hrounds r _ p hp => by
        have hone : (rounds twoSwitches oneChain
            (replaceFirst "m1 m3" "h1$m1,m2$tp_dst:80")).length = 1 := by decide +kernel
        obtain rfl := List.eq_nil_of_eq_append_cons hone.le hrounds
        cases hp
      spared := fun key d hd hkeys => by
        obtain ⟨rfl, -⟩ := data_oneChain hd
        have hkey : (rounds twoSwitches oneChain
            (replaceFirst "m1 m3" "h1$m1,m2$tp_dst:80")).map Round.key =
              ["h1$m1,m2$tp_dst:80".toList] := by decide +kernel
        obtain ⟨w, hw, heq⟩ := List.mem_map.mp (hkey ▸ List.mem_cons_self)
        exact absurd heq (hkeys w hw) }

end FtThesis.Tsa
