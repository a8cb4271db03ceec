/-
Do the ids of the chains and the keys of their data correspond?

* `Index`: of the state of the server, which keys have data, with which VLAN id, and which ids
  refer to which keys;
* `Change`, `Index.Step`: how a command can change it;
* `step_index`: each command makes one of these changes;
* `Index.Distinct`, `distinct_of_run`: the chains have different VLAN ids;
* `OneToOne`: the ids and the keys correspond one to one, and each key has the data of one
  installed chain;
* `Fresh`: an add asks for a key that has no data, and its chain can be installed;
* `oneToOne_iff_fresh`: the runs throughout which ids and keys correspond;
* `not_oneToOne`: a chain that is added a second time.
-/
import FtThesis.Tsa.Handlers

namespace FtThesis.Tsa

open Transition TsaBE

/-! ### The index -/

/-- Which keys have data, with which VLAN id, and which ids refer to which keys. -/
@[ext] structure Index where
  vlanAt : Str → Option ℕ
  pcids : ℕ → Option Str
  nextPcid : ℕ
  nextVlanId : ℕ

/-- The index of a state. -/
def TsaBE.index (s : TsaBE) : Index where
  vlanAt key := (s.policyChainKeyToData key).map ChainData.vlanId
  pcids := s.pcidToPolicyChainKey
  nextPcid := s.nextPcid
  nextVlanId := s.nextVlanId

/-- What a command can do to the index: nothing but to take a VLAN id; to add a chain; to begin
to install one and fail; and to remove the data of a key, with an id that refers to it. -/
inductive Change
  | idle
  | added (key : Str)
  | begun (key : Str)
  | removed (key : Str)

/-- The data of a key, with the next VLAN id. -/
def Index.begin (i : Index) (key : Str) : Index :=
  { i with
    vlanAt := Function.update i.vlanAt key (some i.nextVlanId)
    nextVlanId := i.nextVlanId + 1 }

/-- The changes of the index. -/
inductive Index.Step : Index → Change → Index → Prop
  | idle {i : Index} {n : ℕ} (h : i.nextVlanId ≤ n) : Step i .idle { i with nextVlanId := n }
  | added {i : Index} (key : Str) :
      Step i (.added key)
        { i.begin key with
          pcids := Function.update i.pcids i.nextPcid (some key)
          nextPcid := i.nextPcid + 1 }
  | begun {i : Index} (key : Str) : Step i (.begun key) (i.begin key)
  | removed {i : Index} {key : Str} (hkey : i.vlanAt key ≠ none) {p : ℕ}
      (hp : i.pcids p = some key) :
      Step i (.removed key)
        { i with
          vlanAt := Function.update i.vlanAt key none
          pcids := Function.update i.pcids p none }
  | removedUnnumbered {i : Index} {key : Str} (hkey : i.vlanAt key ≠ none)
      (hp : ∀ p, i.pcids p ≠ some key) :
      Step i (.removed key) { i with vlanAt := Function.update i.vlanAt key none }

/-! ### What the commands do to the index -/

section

variable {net : Topology} {s t : TsaBE} {e : Event}

lemma OnlyController.index_eq (h : OnlyController s t) : t.index = s.index := by
  obtain ⟨controller, rfl⟩ := h
  rfl

/-- An installation changes the index at its key only. -/
lemma index_installPolicyChainRules (net : Topology) (s : TsaBE) {key : Str}
    (hkey : isAscii key = true) (policyChain : Str) (vlanId : ℕ) (fields : List Field)
    (senderHost : Str) :
    (s.installPolicyChainRules net key policyChain vlanId fields senderHost).2.index =
      { s.index with vlanAt := Function.update s.index.vlanAt key (some vlanId) } := by
  obtain ⟨visited, hinstall⟩ :=
    installPolicyChainRules_eq net s hkey policyChain vlanId fields senderHost
  rw [hinstall]
  refine Index.ext (funext fun k => ?_) rfl rfl rfl
  rcases eq_or_ne k key with rfl | hne
  · simp [index]
  · simp [index, hne]

/-- What an add does: it takes no more than a VLAN id; or it does what the plan of the chain
says. -/
def addChange (net : Topology) (requestArgs : Str) : Change :=
  match requestOf requestArgs with
  | none => .idle
  | some r => if installable net r.hostSender r.policyChain then .added r.key else .begun r.key

lemma step_handleAddPolicyCommand (net : Topology) (s : TsaBE) (requestArgs : Str) :
    Index.Step s.index (addChange net requestArgs)
      (s.handleAddPolicyCommand net requestArgs).2.index := by
  rw [addChange]
  cases hrequest : requestOf requestArgs with
  | none =>
      obtain ⟨-, n, hn, ht⟩ := handleAddPolicyCommand_of_none net s hrequest
      rw [ht]
      exact .idle hn
  | some r =>
      rcases hinstall : s.installRequest net r with ⟨ok, t⟩
      obtain ⟨-, ht⟩ := handleAddPolicyCommand_of_some net s hrequest hinstall
      have hascii := isAscii_of_requestOf hrequest
      have hindex : t.index = s.index.begin r.key := by
        have h := index_installPolicyChainRules net { s with nextVlanId := s.nextVlanId + 1 }
          hascii r.policyChain s.nextVlanId r.matchFields r.hostSender
        rw [← installRequest, hinstall] at h
        exact h
      have hok : ok = installable net r.hostSender r.policyChain := by
        obtain ⟨h, -⟩ := follows_installPolicyChainRules net
          { s with nextVlanId := s.nextVlanId + 1 } hascii r.policyChain s.nextVlanId
          r.matchFields r.hostSender
        rw [← installRequest, hinstall, chainPlan_snd] at h
        exact h
      simp only [ht, ← hok]
      cases ok with
      | false =>
          simp only [Bool.false_eq_true, if_false, hindex]
          exact .begun r.key
      | true =>
          have hpcids : t.pcidToPolicyChainKey = s.pcidToPolicyChainKey :=
            congrArg Index.pcids hindex
          have hpcid : t.nextPcid = s.nextPcid := congrArg Index.nextPcid hindex
          have hadded : { t with
              pcidToPolicyChainKey := Function.update t.pcidToPolicyChainKey t.nextPcid (some r.key)
              nextPcid := t.nextPcid + 1 : TsaBE }.index =
              { s.index.begin r.key with
                pcids := Function.update s.index.pcids s.index.nextPcid (some r.key)
                nextPcid := s.index.nextPcid + 1 } := by
            rw [← hindex, hpcids, hpcid]
            rfl
          simp only [if_true, hadded]
          exact .added r.key

/-- The data of a key is removed, with an id that refers to it. -/
lemma step_popPcid {key : Str} (hkey : s.index.vlanAt key ≠ none) {pcids : List ℕ}
    (hpcids : ∀ p, s.pcidToPolicyChainKey p ≠ none → p ∈ pcids) :
    Index.Step s.index (.removed key)
      ({ s with policyChainKeyToData := Function.update s.policyChainKeyToData key none }.popPcid
        key pcids).index := by
  have hdata : (fun k => (Function.update s.policyChainKeyToData key none k).map
      ChainData.vlanId) = Function.update s.index.vlanAt key none := by
    funext k
    rcases eq_or_ne k key with rfl | hne
    · simp
    · simp [hne, index]
  rw [popPcid]
  cases hfind : pcids.find? fun p => s.pcidToPolicyChainKey p = some key with
  | none =>
      have hp : ∀ p, s.index.pcids p ≠ some key := by
        intro p hp
        have hmem := hpcids p (by rw [show s.pcidToPolicyChainKey p = some key from hp]; simp)
        simpa [show s.pcidToPolicyChainKey p = some key from hp] using
          List.find?_eq_none.mp hfind p hmem
      have hstep := Index.Step.removedUnnumbered hkey hp
      rw [← hdata] at hstep
      exact hstep
  | some p =>
      have hp : s.pcidToPolicyChainKey p = some key := by simpa using List.find?_some hfind
      have hstep := Index.Step.removed hkey hp
      rw [← hdata] at hstep
      exact hstep

/-- A removal does nothing to the index, or it removes the data of a key. -/
lemma step_handleRemovePolicychain (net : Topology) (s : TsaBE) (requestArgs : Str)
    {pcids : List ℕ} (hpcids : ∀ p, s.pcidToPolicyChainKey p ≠ none → p ∈ pcids) :
    (s.handleRemovePolicychain net requestArgs pcids).2.index = s.index ∨
      ∃ key, Index.Step s.index (.removed key)
        (s.handleRemovePolicychain net requestArgs pcids).2.index := by
  rcases handleRemovePolicychain_cases net s requestArgs pcids with
    ⟨-, ht⟩ | ⟨r, _, t, -, hremove, -, ht⟩
  · exact .inl (by rw [ht])
  · rcases removePolicyChain_cases net s r.key pcids with
      h | ⟨_, _, _, _, d, posts, -, -, hd, -, h⟩ <;> rw [hremove] at h <;> cases h
    refine .inr ⟨r.key, ?_⟩
    rw [ht]
    have hkey : s.index.vlanAt r.key ≠ none := by simp [index, hd]
    exact step_popPcid (s := { s with controller := s.controller.urlopens posts }) hkey hpcids

/-- A replacement puts the same VLAN id under the same key. -/
lemma index_replaceMasterMB (net : Topology) (s : TsaBE) (oldMbName newMbName key : Str) :
    (s.replaceMasterMB net oldMbName newMbName key).2.index = s.index := by
  rcases replaceMasterMB_cases net s oldMbName newMbName key with
    h | ⟨d, fields, posts, hd, -, -, h⟩ <;> rw [h]
  by_cases hascii : isAscii key = true
  · rw [index_installPolicyChainRules net _ hascii]
    refine Index.ext ?_ rfl rfl rfl
    refine Function.update_eq_self_iff.mpr ?_
    simp [index, hd]
  · rw [installPolicyChainRules, if_neg hascii]
    rfl

/-- Whether a command makes the given change. -/
def Makes (net : Topology) (command : Command) (c : Change) : Prop :=
  match command with
  | .addPolicyChain requestArgs => c = addChange net requestArgs
  | .removePolicyChain _ => c = .idle ∨ ∃ key, c = .removed key
  | _ => c = .idle

/-- A condition on the request, if a command is an add. -/
def OnAdd (Q : Str → Prop) : Command → Prop
  | .addPolicyChain requestArgs => Q requestArgs
  | _ => True

/-- A condition that each change meets but those of an add is one on the add. -/
lemma makes_iff {command : Command} {c : Change} {P : Change → Prop} {Q : Str → Prop}
    (hc : Makes net command c) (hidle : P .idle) (hremoved : ∀ key, P (.removed key))
    (hadd : ∀ requestArgs, P (addChange net requestArgs) ↔ Q requestArgs) :
    P c ↔ OnAdd Q command := by
  cases command with
  | addPolicyChain requestArgs =>
      obtain rfl : c = addChange net requestArgs := hc
      exact hadd requestArgs
  | removePolicyChain requestArgs =>
      rcases hc with rfl | ⟨key, rfl⟩
      · exact iff_true_intro hidle
      · exact iff_true_intro (hremoved key)
  | stopMaster | unregMb | replaceMaster =>
      obtain rfl : c = .idle := hc
      exact iff_true_intro hidle

/-- Each command makes a change of the index. -/
lemma step_index (h : Step net s e t) :
    ∃ c, Makes net e.command c ∧ Index.Step s.index c t.index := by
  obtain ⟨horder, rfl⟩ := h
  have hidle : ∀ {t : TsaBE}, t.index = s.index → Index.Step s.index .idle t.index := by
    intro t ht
    rw [ht]
    exact .idle le_rfl
  have hreplacing := @exec_replacing_induction net s e (fun t => t.index = s.index)
    fun oldMbName newMbName s key hs =>
      (index_replaceMasterMB net s oldMbName newMbName key).trans hs
  cases hcommand : e.command with
  | addPolicyChain requestArgs =>
      refine ⟨_, rfl, ?_⟩
      rw [exec, hcommand]
      exact step_handleAddPolicyCommand net (s.begin e) requestArgs
  | removePolicyChain requestArgs =>
      have hpcids : ∀ p, (s.begin e).pcidToPolicyChainKey p ≠ none → p ∈ e.pcids :=
        fun p => (horder.mem_pcids p).mpr
      rw [exec, hcommand]
      rcases step_handleRemovePolicychain net (s.begin e) requestArgs hpcids with h | ⟨key, h⟩
      · exact ⟨.idle, .inl rfl, hidle h⟩
      · exact ⟨.removed key, .inr ⟨key, rfl⟩, h⟩
  | unregMb mbName =>
      have honly := onlyController_handleUnregisterMiddleboxCommand net (s.begin e) mbName e.keys
      refine ⟨.idle, rfl, ?_⟩
      rw [exec, hcommand]
      exact hidle honly.index_eq
  | stopMaster stoppedMBName =>
      exact ⟨.idle, rfl, hidle (hreplacing (.inl ⟨stoppedMBName, hcommand⟩) rfl)⟩
  | replaceMaster requestArgs =>
      exact ⟨.idle, rfl, hidle (hreplacing (.inr ⟨requestArgs, hcommand⟩) rfl)⟩

end

/-! ### VLAN ids -/

/-- The keys with data have different VLAN ids, below the next one. -/
structure Index.Distinct (i : Index) : Prop where
  lt : ∀ key vlanId, i.vlanAt key = some vlanId → vlanId < i.nextVlanId
  inj : ∀ key key' vlanId, i.vlanAt key = some vlanId → i.vlanAt key' = some vlanId → key = key'

lemma Index.Distinct.mono {i j : Index} (h : i.Distinct)
    (hvlan : ∀ key vlanId, j.vlanAt key = some vlanId → i.vlanAt key = some vlanId)
    (hnext : i.nextVlanId ≤ j.nextVlanId) : j.Distinct :=
  ⟨fun key vlanId hkey => (h.lt key vlanId (hvlan key vlanId hkey)).trans_le hnext,
    fun key key' vlanId hkey hkey' =>
      h.inj key key' vlanId (hvlan key vlanId hkey) (hvlan key' vlanId hkey')⟩

lemma Index.Distinct.begin {i : Index} (h : i.Distinct) (key : Str) : (i.begin key).Distinct := by
  have hcases : ∀ k vlanId, (i.begin key).vlanAt k = some vlanId →
      k = key ∧ vlanId = i.nextVlanId ∨ i.vlanAt k = some vlanId := by
    intro k vlanId hk
    rcases eq_or_ne k key with rfl | hne
    · exact .inl ⟨rfl, by simpa [Index.begin, eq_comm] using hk⟩
    · exact .inr (by simpa [Index.begin, hne] using hk)
  refine ⟨fun k vlanId hk => ?_, fun k k' vlanId hk hk' => ?_⟩
  · rcases hcases k vlanId hk with ⟨-, rfl⟩ | hk
    · exact Nat.lt_succ_self _
    · exact Nat.lt_succ_of_lt (h.lt k vlanId hk)
  · rcases hcases k vlanId hk with ⟨hkey, hv⟩ | hold <;>
      rcases hcases k' vlanId hk' with ⟨hkey', hv'⟩ | hold'
    · exact hkey.trans hkey'.symm
    · exact absurd hv (h.lt k' vlanId hold').ne
    · exact absurd hv' (h.lt k vlanId hold).ne
    · exact h.inj k k' vlanId hold hold'

/-- A chain gets a VLAN id that no other one has. -/
lemma Index.Distinct.step {i j : Index} {c : Change} (h : i.Distinct) (hstep : Index.Step i c j) :
    j.Distinct := by
  have hremoved : ∀ key k vlanId, Function.update i.vlanAt key none k = some vlanId →
      i.vlanAt k = some vlanId := by
    intro key k vlanId hk
    rcases eq_or_ne k key with rfl | hne
    · simp at hk
    · simpa [hne] using hk
  cases hstep with
  | idle hn => exact h.mono (fun _ _ => id) hn
  | added key => exact (h.begin key).mono (fun _ _ => id) le_rfl
  | begun key => exact h.begin key
  | removed => exact h.mono (hremoved _) le_rfl
  | removedUnnumbered => exact h.mono (hremoved _) le_rfl

/-- In each state that is reached, the chains have different VLAN ids. -/
lemma distinct_of_run {net : Topology} {rules : List Rule} {es : List Event} {s : TsaBE}
    (h : Run (Step net) (TsaBE.new rules) es s) : s.index.Distinct :=
  h.invariant (I := fun s => s.index.Distinct)
    (fun _ _ _ hs hstep => by
      obtain ⟨c, -, hc⟩ := step_index hstep
      exact hs.step hc)
    ⟨nofun, nofun⟩

/-! ### One to one -/

/-- The ids and the keys correspond one to one, and each key refers to the data of one chain,
where the chain of an id was installed with the given VLAN id. -/
structure Index.OneToOne (i : Index) (vlanOf : ℕ → ℕ) : Prop where
  inj : ∀ p q key, i.pcids p = some key → i.pcids q = some key → p = q
  key : ∀ p key, i.pcids p = some key → i.vlanAt key ≠ none
  data : ∀ key vlanId, i.vlanAt key = some vlanId →
    ∃ p, i.pcids p = some key ∧ vlanOf p = vlanId ∧
      ∀ q, i.pcids q ≠ none → vlanOf q = vlanId → q = p

/-- Ids and VLAN ids are given out once. -/
structure Index.Numbered (i : Index) (vlanOf : ℕ → ℕ) : Prop where
  pcid_lt : ∀ p, i.pcids p ≠ none → p < i.nextPcid
  vlanId_lt : ∀ p, i.pcids p ≠ none → vlanOf p < i.nextVlanId
  vlanId_inj : ∀ p q, i.pcids p ≠ none → i.pcids q ≠ none → vlanOf p = vlanOf q → p = q

/-- The VLAN ids with which the chains were installed, after a command that leads from one index to
another: an id that is new belongs to a chain with the VLAN id that was the next one. -/
def Index.record (i j : Index) (vlanOf : ℕ → ℕ) : ℕ → ℕ :=
  fun p => if i.pcids p = none ∧ j.pcids p ≠ none then i.nextVlanId else vlanOf p

/-- The change adds a chain only under a key that has no data, and begins none that fails. -/
def Change.Fresh (i : Index) : Change → Prop
  | .added key => i.vlanAt key = none
  | .begun _ => False
  | _ => True

section

variable {i j : Index} {c : Change} {vlanOf : ℕ → ℕ}

lemma Index.record_of_ne {p : ℕ} (hp : i.pcids p ≠ none) : i.record j vlanOf p = vlanOf p :=
  if_neg fun h => hp h.1

lemma Index.record_of_eq {p : ℕ} (hp : i.pcids p = none) (hp' : j.pcids p ≠ none) :
    i.record j vlanOf p = i.nextVlanId :=
  if_pos ⟨hp, hp'⟩

/-- An id that is used after a change was used before, or it is that of the chain that is added. -/
lemma Index.Step.pcids_eq (h : Index.Step i c j) {p : ℕ} {key : Str} (hp : j.pcids p = some key) :
    i.pcids p = some key ∨ p = i.nextPcid ∧ c = .added key := by
  cases h with
  | idle => exact .inl hp
  | begun => exact .inl hp
  | removedUnnumbered => exact .inl hp
  | added key' =>
      rcases eq_or_ne p i.nextPcid with rfl | hne
      · have hkey : key' = key := by simpa using hp
        exact .inr ⟨rfl, by rw [hkey]⟩
      · exact .inl (by simpa [hne, begin] using hp)
  | @removed key' _ q _ =>
      rcases eq_or_ne p q with rfl | hne
      · simp at hp
      · exact .inl (by simpa [hne] using hp)

lemma Index.Step.nextPcid_le (h : Index.Step i c j) : i.nextPcid ≤ j.nextPcid := by
  cases h <;> simp [begin]

lemma Index.Step.nextVlanId_le (h : Index.Step i c j) : i.nextVlanId ≤ j.nextVlanId := by
  cases h <;> simp [begin, *]

lemma Index.Step.lt_of_added {key : Str} (h : Index.Step i (.added key) j) :
    j.nextPcid = i.nextPcid + 1 ∧ j.nextVlanId = i.nextVlanId + 1 := by
  cases h
  exact ⟨rfl, rfl⟩

/-- A used id after a change, with its VLAN id: it is as before, or both are the next ones. -/
lemma Index.Numbered.record_eq (hi : i.Numbered vlanOf) (h : Index.Step i c j) {p : ℕ}
    (hp : j.pcids p ≠ none) :
    i.pcids p ≠ none ∧ i.record j vlanOf p = vlanOf p ∨
      p = i.nextPcid ∧ i.record j vlanOf p = i.nextVlanId ∧ j.nextPcid = i.nextPcid + 1 ∧
        j.nextVlanId = i.nextVlanId + 1 := by
  obtain ⟨key, hkey⟩ := Option.ne_none_iff_exists'.mp hp
  rcases h.pcids_eq hkey with hp' | ⟨rfl, rfl⟩
  · have hne : i.pcids p ≠ none := by simp [hp']
    exact .inl ⟨hne, record_of_ne hne⟩
  · have hnone : i.pcids i.nextPcid = none := by
      by_contra hne
      exact (hi.pcid_lt _ hne).false
    exact .inr ⟨rfl, record_of_eq hnone hp, h.lt_of_added⟩

lemma Index.Numbered.step (hi : i.Numbered vlanOf) (h : Index.Step i c j) :
    j.Numbered (i.record j vlanOf) := by
  constructor
  · intro p hp
    rcases hi.record_eq h hp with ⟨hp', -⟩ | ⟨rfl, -, hpcid, -⟩
    · exact (hi.pcid_lt p hp').trans_le h.nextPcid_le
    · omega
  · intro p hp
    rcases hi.record_eq h hp with ⟨hp', hv⟩ | ⟨rfl, hv, -, hvlan⟩
    · rw [hv]
      exact (hi.vlanId_lt p hp').trans_le h.nextVlanId_le
    · omega
  · intro p q hp hq hpq
    rcases hi.record_eq h hp with ⟨hp', hvp⟩ | ⟨rfl, hvp, -⟩ <;>
      rcases hi.record_eq h hq with ⟨hq', hvq⟩ | ⟨rfl, hvq, -⟩
    · exact hi.vlanId_inj p q hp' hq' (by rw [← hvp, ← hvq, hpq])
    · have := hi.vlanId_lt p hp'
      omega
    · have := hi.vlanId_lt q hq'
      omega
    · rfl

/-- A change that leaves the data and the ids as they are leaves them one to one. -/
lemma Index.OneToOne.idle (hone : i.OneToOne vlanOf) (h : Index.Step i .idle j) :
    j.OneToOne (i.record j vlanOf) := by
  cases h
  have hrecord : ∀ n, i.record { i with nextVlanId := n } vlanOf = vlanOf := by
    intro n
    funext p
    exact if_neg fun h => h.2 h.1
  rw [hrecord]
  exact ⟨hone.inj, hone.key, hone.data⟩

/-- A new key with a new id leaves the ids and the keys one to one. -/
lemma Index.OneToOne.added {key : Str} (hone : i.OneToOne vlanOf) (hi : i.Numbered vlanOf)
    (hkey : i.vlanAt key = none) (h : Index.Step i (.added key) j) :
    j.OneToOne (i.record j vlanOf) := by
  have hnew : ∀ p, i.pcids p ≠ some key := fun p hp => hone.key p key hp hkey
  have hj := hi.step h
  constructor
  · intro p q k hp hq
    rcases h.pcids_eq hp with hp | ⟨rfl, hk⟩ <;> rcases h.pcids_eq hq with hq | ⟨rfl, hk'⟩
    · exact hone.inj p q k hp hq
    · cases hk'
      exact absurd hp (hnew p)
    · cases hk
      exact absurd hq (hnew q)
    · rfl
  · intro p k hp
    cases h
    rcases eq_or_ne k key with rfl | hne
    · simp [begin]
    · rcases (Index.Step.added key).pcids_eq hp with hp | ⟨-, hk⟩
      · simpa [begin, hne] using hone.key p k hp
      · cases hk
        exact absurd rfl hne
  · intro k vlanId hk
    suffices h : ∃ p, j.pcids p = some k ∧ i.record j vlanOf p = vlanId by
      obtain ⟨p, hp, hv⟩ := h
      refine ⟨p, hp, hv, fun q hq hqv => hj.vlanId_inj q p hq (by simp [hp]) (hqv.trans hv.symm)⟩
    cases h
    rcases eq_or_ne k key with rfl | hne
    · have hvlan : i.nextVlanId = vlanId := by simpa [begin] using hk
      refine ⟨i.nextPcid, by simp, ?_⟩
      rw [record_of_eq _ (by simp), hvlan]
      by_contra hp
      exact (hi.pcid_lt _ hp).false
    · obtain ⟨p, hp, hv, -⟩ := hone.data k vlanId (by simpa [begin, hne] using hk)
      have hne' : i.pcids p ≠ none := by simp [hp]
      refine ⟨p, ?_, by rw [record_of_ne hne', hv]⟩
      simp [(hi.pcid_lt p hne').ne, hp]

/-- A key that has data does not become that of a new chain, or ids and keys no longer
correspond. -/
lemma Index.OneToOne.fresh_of_added {key : Str} (hone : i.OneToOne vlanOf)
    (hi : i.Numbered vlanOf) (h : Index.Step i (.added key) j)
    (hone' : j.OneToOne (i.record j vlanOf)) : i.vlanAt key = none := by
  by_contra hne
  obtain ⟨vlanId, hvlan⟩ := Option.ne_none_iff_exists'.mp hne
  obtain ⟨p, hp, -⟩ := hone.data key vlanId hvlan
  have hlt : p < i.nextPcid := hi.pcid_lt p (by simp [hp])
  cases h
  have heq := hone'.inj p i.nextPcid key (by simp [hlt.ne, hp]) (by simp)
  exact hlt.ne heq

/-- An installation that fails leaves data that belongs to no id. -/
lemma Index.Numbered.not_oneToOne_begun {key : Str} (hi : i.Numbered vlanOf)
    (h : Index.Step i (.begun key) j) : ¬ j.OneToOne (i.record j vlanOf) := by
  intro hone'
  have hrecord : i.record j vlanOf = vlanOf := by
    cases h
    funext p
    exact if_neg fun h => h.2 h.1
  cases h
  obtain ⟨p, hp, hv, -⟩ := hone'.data key i.nextVlanId (by simp [begin])
  have hlt := hi.vlanId_lt p (by simp [show i.pcids p = some key from hp])
  rw [hrecord] at hv
  omega

/-- The data of a key is removed together with its id. -/
lemma Index.OneToOne.removed {key : Str} (hone : i.OneToOne vlanOf)
    (h : Index.Step i (.removed key) j) : j.OneToOne (i.record j vlanOf) := by
  have hsub : ∀ p, j.pcids p ≠ none → i.pcids p ≠ none ∧ i.record j vlanOf p = vlanOf p := by
    intro p hp
    obtain ⟨k, hk⟩ := Option.ne_none_iff_exists'.mp hp
    rcases h.pcids_eq hk with hp' | ⟨-, hc⟩
    · exact ⟨by simp [hp'], record_of_ne (by simp [hp'])⟩
    · cases hc
  have hold : ∀ p k, j.pcids p = some k → i.pcids p = some k ∧ k ≠ key := by
    intro p k hp
    rcases h.pcids_eq hp with hp' | ⟨-, hc⟩
    · refine ⟨hp', ?_⟩
      rintro rfl
      cases h with
      | @removed _ _ q hq =>
          obtain rfl := hone.inj p q k hp' hq
          simp at hp
      | removedUnnumbered _ hnone => exact hnone p hp'
    · cases hc
  have hdata : j.vlanAt = Function.update i.vlanAt key none := by cases h <;> rfl
  constructor
  · exact fun p q k hp hq => hone.inj p q k (hold p k hp).1 (hold q k hq).1
  · intro p k hp
    obtain ⟨hp', hne⟩ := hold p k hp
    simpa [hdata, hne] using hone.key p k hp'
  · intro k vlanId hk
    have hne : k ≠ key := by
      rintro rfl
      simp [hdata] at hk
    obtain ⟨p, hp, hv, huniq⟩ := hone.data k vlanId (by simpa [hdata, hne] using hk)
    have hp' : j.pcids p = some k := by
      cases h with
      | @removed _ hkey q hq =>
          have hpq : p ≠ q := by
            rintro rfl
            rw [hp] at hq
            exact hne (Option.some.inj hq)
          simpa [hpq] using hp
      | removedUnnumbered => exact hp
    refine ⟨p, hp', by rw [(hsub p (by simp [hp'])).2, hv], fun q hq hqv => ?_⟩
    obtain ⟨hq', hrec⟩ := hsub q hq
    exact huniq q hq' (by rw [← hrec, hqv])

/-- A change leaves the ids and the keys one to one exactly if it is fresh. -/
lemma Index.OneToOne.step_iff (hone : i.OneToOne vlanOf) (hi : i.Numbered vlanOf)
    (h : Index.Step i c j) : j.OneToOne (i.record j vlanOf) ↔ c.Fresh i := by
  cases c with
  | idle => exact iff_of_true (hone.idle h) trivial
  | added key => exact ⟨hone.fresh_of_added hi h, fun hkey => hone.added hi hkey h⟩
  | begun key => exact iff_of_false (hi.not_oneToOne_begun h) id
  | removed key => exact iff_of_true (hone.removed h) trivial

end

/-! ### Runs -/

/-- The server, with the VLAN ids with which the chains of the ids were installed. -/
structure Recorded where
  server : TsaBE
  vlanOf : ℕ → ℕ

namespace Recorded

/-- The start, where the controller has the given rules. -/
def start (rules : List Rule) : Recorded := ⟨TsaBE.new rules, fun _ => 0⟩

/-- The steps of the server. -/
def Step (net : Topology) (x : Recorded) (e : Event) (y : Recorded) : Prop :=
  Tsa.Step net x.server e y.server ∧
    y.vlanOf = x.server.index.record y.server.index x.vlanOf

/-- The ids and the keys correspond one to one, and each key refers to the data of one installed
chain. -/
def OneToOne (x : Recorded) : Prop := x.server.index.OneToOne x.vlanOf

/-- An add asks for a key that has no data, if it comes to the installation, and for a chain whose
sender and middleboxes are known and can be reached. -/
def Fresh (net : Topology) (x : Recorded) (e : Event) : Prop :=
  match e.command with
  | .addPolicyChain requestArgs => ∀ r, requestOf requestArgs = some r →
      x.server.policyChainKeyToData r.key = none ∧
        installable net r.hostSender r.policyChain = true
  | _ => True

/-- It is a condition on the change that a command makes. -/
lemma fresh_iff {net : Topology} {x : Recorded} {e : Event} {c : Change}
    (hc : Makes net e.command c) : c.Fresh x.server.index ↔ Fresh net x e := by
  refine makes_iff (P := fun c => c.Fresh x.server.index) hc trivial (fun _ => trivial)
    fun requestArgs => ?_
  rw [addChange]
  cases requestOf requestArgs with
  | none => simp [Change.Fresh]
  | some r =>
      by_cases hinstall : installable net r.hostSender r.policyChain = true
      · simp [hinstall, Change.Fresh, index]
      · simp [hinstall, Change.Fresh]

lemma oneToOne_start (rules : List Rule) : (start rules).OneToOne :=
  ⟨nofun, nofun, nofun⟩

lemma numbered_start (rules : List Rule) :
    (start rules).server.index.Numbered (start rules).vlanOf :=
  ⟨fun _ hp => absurd rfl hp, fun _ hp => absurd rfl hp, fun _ _ hp => absurd rfl hp⟩

/-- **Ids and chains.**  In a run of commands the ids correspond to the keys one to one in every
state, each key with the data of one installed chain, exactly if each add that comes to the
installation asks for a key that has no data and for a chain that can be installed. -/
theorem oneToOne_iff_fresh (net : Topology) (rules : List Rule) (es : List Event) (x : Recorded) :
    Run (Into OneToOne (Step net)) (start rules) es x ↔
      Run (When (Fresh net) (Step net)) (start rules) es x := by
  refine Run.into_iff_when (I := fun x => x.server.index.Numbered x.vlanOf) ?_ ?_
    (numbered_start rules) (oneToOne_start rules)
  · rintro x e y hx ⟨hstep, hrecord⟩
    obtain ⟨c, -, hc⟩ := step_index hstep
    rw [hrecord]
    exact hx.step hc
  · rintro x e y hx hone ⟨hstep, hrecord⟩
    obtain ⟨c, hmakes, hc⟩ := step_index hstep
    rw [OneToOne, hrecord, hone.step_iff hx hc, fresh_iff hmakes]

/-- **Ids and chains, at a chain that is added a second time.**  Its two ids refer to one key. -/
theorem not_oneToOne : ¬ ∀ (net : Topology) (rules : List Rule) (es : List Event) (x : Recorded),
    Run (Step net) (start rules) es x → x.OneToOne := by
  intro hall
  let key : Str := "h1$m1,m2$tp_dst:80".toList
  let next (x : Recorded) (e : Event) : Recorded :=
    ⟨(exec twoSwitches x.server e).2,
      x.server.index.record (exec twoSwitches x.server e).2.index x.vlanOf⟩
  let e : Event := firstAdd "h1,m1,m2"
  let e' : Event := secondAdd "h1,m1,m2" key
  let x : Recorded := next (start []) e
  have hstep : Step twoSwitches (start []) e x := ⟨⟨inOrder_firstAdd "h1,m1,m2" [], rfl⟩, rfl⟩
  have horder : e'.InOrder x.server :=
    @inOrder_secondAdd twoSwitches "h1,m1,m2" "h1,m1,m2" [] _ rfl rfl
  have hstep' : Step twoSwitches x e' (next x e') := ⟨⟨horder, rfl⟩, rfl⟩
  have hchange : addChange twoSwitches ("h1,m1,m2" ++ " {tp_dst=80}").toList = .added key := rfl
  have hadded : Index.Step (start []).server.index (.added key) x.server.index := by
    rw [← hchange]
    exact step_handleAddPolicyCommand twoSwitches ((start []).server.begin e) _
  have hadded' : Index.Step x.server.index (.added key) (next x e').server.index := by
    rw [← hchange]
    exact step_handleAddPolicyCommand twoSwitches (x.server.begin e') _
  have hone := hall _ _ _ _ (.single hstep)
  have hone' := hall _ _ _ _ (.snoc (.single hstep) hstep')
  have hfresh := hone.fresh_of_added ((numbered_start []).step hadded) hadded' hone'
  have hvlan : x.server.index.vlanAt key = some 1 := rfl
  rw [hfresh] at hvlan
  cases hvlan

end Recorded

end FtThesis.Tsa
