/-
Do the tables of the switches keep to the policies?

* `Implements`: the data and the rules are those of the policies;
* `Tidy`: the controller accepts everything, an add asks for a new key, with plain match fields that
  the key can hold and that are apart from those of the other chains, and the names of middleboxes
  can be told apart in the texts of the chains;
* `readsBack_of_requestOf`: the key of such a request is read back;
* `Tracks`: the invariant, by which a chain can be uninstalled and installed again at any time;
* `Tracks.uninstall`, `Tracks.install`: what an uninstallation and an installation do;
* `policies_implemented`: in tidy runs the tables keep to the policies.
-/
import FtThesis.Tsa.Policies
import FtThesis.Tsa.Chains
import FtThesis.Tsa.Keys
import FtThesis.Library.Linearization

namespace FtThesis.Tsa

open Transition TsaBE

/-! ### The property -/

/-- The data that are kept are those of the policies, and the rules are those of the policies that
are installed. -/
structure Implements (net : Topology) (s : TsaBE) (P : Policies) : Prop where
  data : ∀ key, (s.policyChainKeyToData key).map (fun d => (d.mbs, d.vlanId, senderOf d.fullFlow)) =
    (P key).map fun p => (p.mbs, p.vlanId, p.senderHost)
  tables : Tables net P s.controller.rules

/-- A command that keeps to the policies.  Nothing is said about whether it succeeds. -/
structure Tidy (net : Topology) (s : TsaBE) (e : Event) : Prop where
  accepts : ∀ i, e.accepts i = true
  fresh : ∀ requestArgs r, e.command = .addPolicyChain requestArgs →
    requestOf requestArgs = some r → s.policyChainKeyToData r.key = none
  plain : ∀ requestArgs r, e.command = .addPolicyChain requestArgs →
    requestOf requestArgs = some r → Plain r.matchFields ∧ ∀ field ∈ r.matchFields, FitsKey field
  apart : ∀ requestArgs r, e.command = .addPolicyChain requestArgs →
    requestOf requestArgs = some r → ∀ key d fields, s.policyChainKeyToData key = some d →
      getMatchFieldsFromKey key = some fields →
        Apart net r.hostSender r.matchFields (senderOf d.fullFlow) fields
  unregistered : ∀ mbName, e.command = .unregMb mbName → ∀ key d,
    s.policyChainKeyToData key = some d → mbName <:+: d.policyChain → mbName ∈ d.mbs
  replaced : ∀ oldMbName newMbName, replacement net e.command = some (oldMbName, newMbName) →
    NamesApart s oldMbName newMbName

/-! ### Keys that are read back -/

/-- The parts of the policy of a key are read back from it. -/
structure ReadsBack (key senderHost : Str) (fields : List Field) : Prop where
  ascii : isAscii key = true
  parts : ∃ policyChain rest, key.splitOn '$' = [senderHost, policyChain, rest]
  fields : getMatchFieldsFromKey key = some fields

/-- A chain of a request is made of word characters, spaces and commas. -/
lemma char_of_matchChain {n : ℕ} {t chain rest : Str} (h : matchChain n t = some (chain, rest)) :
    ∀ c ∈ chain, isWord c = true ∨ isSpace c = true ∨ c = ',' := by
  induction n generalizing t chain rest with
  | zero => cases h
  | succ n ih =>
      have hname : ∀ t : Str, ∀ c ∈ t.takeWhile isWord, isWord c = true :=
        fun t c hc => List.mem_takeWhile_imp hc
      have hspace : ∀ t : Str, ∀ c ∈ t.takeWhile isSpace, isSpace c = true :=
        fun t c hc => List.mem_takeWhile_imp hc
      simp only [matchChain, List.span_eq_takeWhile_dropWhile] at h
      split_ifs at h
      split at h
      · split at h
        next chain' rest' hchain =>
          obtain ⟨rfl, -⟩ := Prod.mk.inj (Option.some.inj h)
          intro c hc
          simp only [List.append_assoc, List.cons_append, List.mem_append, List.mem_cons] at hc
          rcases hc with hc | hc | rfl | hc | hc
          · exact .inl (hname _ c hc)
          · exact .inr (.inl (hspace _ c hc))
          · exact .inr (.inr rfl)
          · exact .inr (.inl (hspace _ c hc))
          · exact ih hchain c hc
        · obtain ⟨rfl, -⟩ := Prod.mk.inj (Option.some.inj h)
          exact fun c hc => .inl (hname _ c hc)
      · obtain ⟨rfl, -⟩ := Prod.mk.inj (Option.some.inj h)
        exact fun c hc => .inl (hname _ c hc)

lemma not_mem_of_search {requestArgs chain fields : Str}
    (h : search requestArgs = some (chain, fields)) : '$' ∉ chain := by
  rw [search] at h
  obtain ⟨t, -, h⟩ := List.exists_of_findSome?_eq_some h
  rw [matchRequest] at h
  split at h
  · cases h
  next chain' rest hchain =>
    have hchars := char_of_matchChain hchain
    obtain rfl : chain' = chain := by
      simp only at h
      split at h
      · split_ifs at h
        exact (Prod.mk.inj (Option.some.inj h)).1
      · cases h
    intro hmem
    exact absurd (hchars _ hmem) (by decide)

/-- Neither the sender nor the middleboxes of a request contain the sign that separates them in the
key. -/
lemma not_mem_of_preparePolicyChain {chain : Str} (h : '$' ∉ chain) :
    '$' ∉ (preparePolicyChainWithHostToSend chain).1 ∧
      '$' ∉ (preparePolicyChainWithHostToSend chain).2 := by
  have hstrip : ∀ t : Str, '$' ∉ t → '$' ∉ strip t := by
    intro t ht hmem
    rw [strip, List.mem_reverse] at hmem
    have hmem := (List.dropWhile_sublist _).subset hmem
    rw [List.mem_reverse] at hmem
    exact ht ((List.dropWhile_sublist _).subset hmem)
  have hparts : ∀ part ∈ (chain.splitOn ',').map strip, '$' ∉ part := by
    intro part hpart
    obtain ⟨part', hpart', rfl⟩ := List.mem_map.mp hpart
    exact hstrip _ fun hmem => h ((List.infix_of_mem_splitOn hpart').subset hmem)
  cases hsplit : (chain.splitOn ',').map strip with
  | nil => simp [preparePolicyChainWithHostToSend, hsplit, commas]
  | cons sender mbs =>
      rw [hsplit] at hparts
      obtain ⟨hsender, hmbs⟩ := List.forall_mem_cons.mp hparts
      rw [preparePolicyChainWithHostToSend, hsplit]
      exact ⟨hsender, not_mem_commas (by decide) hmbs⟩

/-- The key of a request is read back, if it can hold the match fields. -/
lemma readsBack_of_requestOf {requestArgs : Str} {r : ChainRequest}
    (h : requestOf requestArgs = some r) (hne : r.matchFields ≠ [])
    (hfits : ∀ field ∈ r.matchFields, FitsKey field) :
    ReadsBack r.key r.hostSender r.matchFields := by
  have hkey := key_of_requestOf h
  have hascii := isAscii_of_requestOf h
  obtain ⟨hsender, hchain⟩ : '$' ∉ r.hostSender ∧ '$' ∉ r.policyChain := by
    obtain ⟨⟨chain, fields⟩, hsearch, h⟩ := Option.bind_eq_some_iff.mp h
    obtain ⟨key, -, h⟩ := Option.bind_eq_some_iff.mp h
    split_ifs at h
    obtain rfl := Option.some.inj h
    exact not_mem_of_preparePolicyChain (not_mem_of_search hsearch)
  have hsplit : r.key.splitOn '$' = [r.hostSender, r.policyChain, fieldsText r.matchFields] := by
    rw [hkey, List.splitOn_append_cons_self_of_not_mem hsender,
      List.splitOn_append_cons_self_of_not_mem hchain,
      List.splitOn_eq_singleton (not_mem_fieldsText hne hfits)]
  refine ⟨hascii, ⟨_, _, hsplit⟩, ?_⟩
  rw [getMatchFieldsFromKey, hsplit]
  exact congrArg some (findall_fieldsText hne hfits)

/-! ### The invariant -/

/-- The state keeps to the policies, and each chain can be uninstalled by what is kept of it. -/
structure Tracks (net : Topology) (s : TsaBE) (P : Policies) : Prop where
  accepts : ∀ i, s.controller.accepts i = true
  absent : ∀ key, P key = none → s.policyChainKeyToData key = none
  data : ∀ key p, P key = some p → s.policyChainKeyToData key = some ⟨commas p.mbs, p.vlanId,
    flowOf net (commas p.mbs) p.vlanId p.fields p.senderHost⟩
  mbs : ∀ key p, P key = some p → (commas p.mbs).splitOn ',' = p.mbs
  reads : ∀ key p, P key = some p → ReadsBack key p.senderHost p.fields
  lt : ∀ key p, P key = some p → p.vlanId < s.nextVlanId
  separated : Separated net P
  tables : Tables net P s.controller.rules

section

variable {net : Topology} {s t : TsaBE} {P : Policies} {key : Str} {p : Policy}

lemma tracks_new (net : Topology) : Tracks net (TsaBE.new []) fun _ => none where
  accepts _ := rfl
  absent _ _ := rfl
  data _ _ h := nomatch h
  mbs _ _ h := nomatch h
  reads _ _ h := nomatch h
  lt _ _ h := nomatch h
  separated := ⟨nofun, nofun, nofun⟩
  tables _ := ⟨nofun, fun ⟨_, _, h, _⟩ => nomatch h⟩

lemma Tracks.implements (h : Tracks net s P) : Implements net s P := by
  refine ⟨fun key => ?_, h.tables⟩
  cases hp : P key with
  | none => rw [h.absent key hp]; rfl
  | some p =>
      rw [h.data key p hp, Option.map_some, Option.map_some, ChainData.mbs, h.mbs key p hp]
      rfl

/-- The data of a key are those of its policy. -/
lemma Tracks.exists_policy (h : Tracks net s P) {d : ChainData}
    (hd : s.policyChainKeyToData key = some d) : ∃ p, P key = some p ∧ d.mbs = p.mbs ∧
      d = ⟨commas p.mbs, p.vlanId, flowOf net (commas p.mbs) p.vlanId p.fields p.senderHost⟩ := by
  cases hp : P key with
  | none =>
      rw [h.absent key hp] at hd
      cases hd
  | some p =>
      obtain rfl := Option.some.inj ((h.data key p hp).symm.trans hd)
      exact ⟨p, rfl, h.mbs key p hp, rfl⟩

/-- It stays so when only VLAN ids are taken, and flags are changed. -/
lemma Tracks.mono (h : Tracks net s P) (haccepts : ∀ i, t.controller.accepts i = true)
    (hdata : t.policyChainKeyToData = s.policyChainKeyToData)
    (hrules : t.controller.rules = s.controller.rules) (hvlan : s.nextVlanId ≤ t.nextVlanId) :
    Tracks net t P where
  accepts := haccepts
  absent key hp := hdata ▸ h.absent key hp
  data key p hp := hdata ▸ h.data key p hp
  mbs := h.mbs
  reads := h.reads
  lt key p hp := (h.lt key p hp).trans_le hvlan
  separated := h.separated
  tables := hrules ▸ h.tables

lemma Tracks.begin (h : Tracks net s P) {e : Event} (he : Tidy net s e) :
    Tracks net (s.begin e) P :=
  h.mono he.accepts rfl rfl le_rfl

/-! ### Uninstallations and installations -/

lemma rules_urlopens (haccepts : ∀ i, s.controller.accepts i = true) (posts : List Post) :
    (s.controller.urlopens posts).rules = posts.foldl Post.apply s.controller.rules :=
  (urlopens_of_accepting fun _ _ => haccepts _).1

/-- When a chain is uninstalled, its policy is no longer installed. -/
lemma Tracks.uninstall (h : Tracks net s P) (hp : P key = some p) :
    ∃ posts, deletePosts net p.senderHost p.vlanId p.fields 0
        (flowOf net (commas p.mbs) p.vlanId p.fields p.senderHost) = some posts ∧
      Tracks net { s with controller := s.controller.urlopens posts }
        (Function.update P key (some { p with installed := false })) := by
  obtain ⟨posts, hposts⟩ :=
    @exists_posts_flowOf net (commas p.mbs) p.senderHost p.vlanId p.fields
  have hbefore : ∀ k q, Function.update P key (some { p with installed := false }) k = some q →
      ∃ q', P k = some q' ∧ q'.mbs = q.mbs ∧ q'.vlanId = q.vlanId ∧ q'.fields = q.fields ∧
        q'.senderHost = q.senderHost := by
    intro k q hq
    rcases update_cases rfl hq with ⟨rfl, heq⟩ | ⟨-, hq⟩
    · obtain rfl := Option.some.inj heq
      exact ⟨p, hp, rfl, rfl, rfl, rfl⟩
    · exact ⟨q, hq, rfl, rfl, rfl, rfl⟩
  refine ⟨posts, hposts, ⟨fun i => ?accepts, fun k hk => ?absent, fun k q hq => ?data,
    fun k q hq => ?mbs, fun k q hq => ?reads, fun k q hq => ?lt,
    h.separated.update hp rfl rfl rfl, ?tables⟩⟩
  case accepts => rw [urlopens_accepts, h.accepts]
  case absent =>
    have hne : k ≠ key := by
      rintro rfl
      simp at hk
    rw [Function.update_of_ne hne] at hk
    exact h.absent k hk
  case data =>
    obtain ⟨q', hq', hmbs, hvlan, hfields, hsender⟩ := hbefore k q hq
    rw [← hmbs, ← hvlan, ← hfields, ← hsender]
    exact h.data k q' hq'
  case mbs =>
    obtain ⟨q', hq', hmbs, -⟩ := hbefore k q hq
    exact hmbs ▸ h.mbs k q' hq'
  case reads =>
    obtain ⟨q', hq', -, -, hfields, hsender⟩ := hbefore k q hq
    exact hsender ▸ hfields ▸ h.reads k q' hq'
  case lt =>
    obtain ⟨q', hq', -, hvlan, -⟩ := hbefore k q hq
    exact hvlan ▸ h.lt k q' hq'
  case tables =>
    rw [rules_urlopens h.accepts]
    exact h.tables.uninstall h.separated hp hposts

/-- When a chain is installed, its policy is. -/
lemma Tracks.install (h : Tracks net s P)
    (hseparated : Separated net (Function.update P key (some p)))
    (hoff : ∀ q, P key = some q → q.installed = false) (hon : p.installed = true)
    (hmbs : (commas p.mbs).splitOn ',' = p.mbs) (hreads : ReadsBack key p.senderHost p.fields)
    (haccepts : ∀ i, t.controller.accepts i = true) (hlt : p.vlanId < t.nextVlanId)
    (hnext : s.nextVlanId ≤ t.nextVlanId)
    (hdata : t.policyChainKeyToData = Function.update s.policyChainKeyToData key
      (some ⟨commas p.mbs, p.vlanId,
        flowOf net (commas p.mbs) p.vlanId p.fields p.senderHost⟩))
    (hrules : t.controller.rules =
      ((p.chainRules net).map .add).foldl Post.apply s.controller.rules) :
    Tracks net t (Function.update P key (some p)) where
  accepts := haccepts
  absent k hk := by
    have hne : k ≠ key := by
      rintro rfl
      simp at hk
    rw [hdata, Function.update_of_ne hne]
    exact h.absent k (by rwa [Function.update_of_ne hne] at hk)
  data k q hq := by
    rw [hdata]
    rcases update_cases rfl hq with ⟨rfl, heq⟩ | ⟨hne, hq⟩
    · rw [Function.update_self, Option.some.inj heq]
    · rw [Function.update_of_ne hne]
      exact h.data k q hq
  mbs k q hq := by
    rcases update_cases rfl hq with ⟨-, heq⟩ | ⟨-, hq⟩
    · exact Option.some.inj heq ▸ hmbs
    · exact h.mbs k q hq
  reads k q hq := by
    rcases update_cases rfl hq with ⟨rfl, heq⟩ | ⟨-, hq⟩
    · exact Option.some.inj heq ▸ hreads
    · exact h.reads k q hq
  lt k q hq := by
    rcases update_cases rfl hq with ⟨-, heq⟩ | ⟨-, hq⟩
    · exact Option.some.inj heq ▸ hlt
    · exact (h.lt k q hq).trans_le hnext
  separated := hseparated
  tables := hrules ▸ h.tables.install hseparated hoff hon

/-- A policy that is not installed is forgotten. -/
lemma Tracks.forget (h : Tracks net s P) (hoff : ∀ p, P key = some p → p.installed = false) :
    Tracks net { s with policyChainKeyToData := Function.update s.policyChainKeyToData key none }
      (Function.update P key none) := by
  have hbefore : ∀ k q, Function.update P key none k = some q → k ≠ key ∧ P k = some q := by
    intro k q hq
    rcases update_cases rfl hq with ⟨-, heq⟩ | hold
    · cases heq
    · exact hold
  refine ⟨h.accepts, fun k hk => ?absent, fun k q hq => ?data,
    fun k q hq => h.mbs k q (hbefore k q hq).2, fun k q hq => h.reads k q (hbefore k q hq).2,
    fun k q hq => h.lt k q (hbefore k q hq).2, h.separated.remove key,
    h.tables.congr fun k q hon => ?tables⟩
  case absent =>
    rcases eq_or_ne k key with rfl | hne
    · exact Function.update_self ..
    · simp only [Function.update_of_ne hne] at hk ⊢
      exact h.absent k hk
  case data =>
    obtain ⟨hne, hold⟩ := hbefore k q hq
    simp only [Function.update_of_ne hne]
    exact h.data k q hold
  case tables =>
    rcases eq_or_ne k key with rfl | hne
    · rw [Function.update_self]
      refine ⟨nofun, fun hq => ?_⟩
      rw [hoff q hq] at hon
      cases hon
    · rw [Function.update_of_ne hne]

/-! ### Commands -/

lemma Tracks.add (h : Tracks net s P) {requestArgs : Str} {r : ChainRequest}
    (hr : requestOf requestArgs = some r) (hfresh : s.policyChainKeyToData r.key = none)
    (hplain : Plain r.matchFields) (hfits : ∀ field ∈ r.matchFields, FitsKey field)
    (hapart : ∀ key d fields, s.policyChainKeyToData key = some d →
      getMatchFieldsFromKey key = some fields →
        Apart net r.hostSender r.matchFields (senderOf d.fullFlow) fields) :
    Tracks net (s.handleAddPolicyCommand net requestArgs).2 (P.add r s.nextVlanId) := by
  obtain ⟨t, ht, hdata, -, hvlan, hcontroller⟩ := handleAddPolicyCommand_eq net s hr
  have hcommas : commas (r.policyChain.splitOn ',') = r.policyChain := List.intercalate_splitOn ','
  have hseparated : Separated net (P.add r s.nextVlanId) := by
    refine h.separated.add hplain (fun k q hq => (h.lt k q hq).ne) fun k q hq => ?_
    exact hapart k _ _ (h.data k q hq) (h.reads k q hq).fields
  rw [ht]
  refine h.install hseparated (fun q hq => ?_) rfl (by rw [hcommas])
    (readsBack_of_requestOf hr hplain.ne_nil hfits) (fun i => ?_)
    (by rw [hvlan]; exact Nat.lt_succ_self _) (hvlan ▸ Nat.le_succ _) ?_ ?_
  · rw [h.data r.key q hq] at hfresh
    cases hfresh
  · rw [hcontroller, urlopens_accepts, h.accepts]
  · rw [hdata, requestData, carriedOut_of_accepts fun _ _ => h.accepts _, hcommas]
    rfl
  · rw [hcontroller, rules_urlopens h.accepts, Policy.chainRules, chainRules, hcommas]
    rfl

/-- A removal does what is done for the key of its request, also if it fails. -/
lemma handleRemovePolicychain_of_some (net : Topology) (s : TsaBE) {requestArgs : Str}
    {r : ChainRequest} (h : requestOf requestArgs = some r) (pcids : List ℕ) :
    (s.handleRemovePolicychain net requestArgs pcids).2 =
      (s.removePolicyChain net r.key pcids).2 := by
  obtain ⟨⟨chain, fields⟩, hsearch, h⟩ := Option.bind_eq_some_iff.mp h
  rcases hprepare : preparePolicyChainWithHostToSend chain with ⟨sender, policyChain⟩
  simp only [hprepare] at h
  obtain ⟨key, hkey, h⟩ := Option.bind_eq_some_iff.mp h
  split_ifs at h
  obtain rfl := Option.some.inj h
  rw [handleRemovePolicychain, hsearch]
  simp only [hprepare, hkey]
  rcases s.removePolicyChain net key pcids with ⟨_ | userPolicyChain, t⟩ <;> rfl

lemma Tracks.remove (h : Tracks net s P) (key : Str) (pcids : List ℕ) :
    Tracks net (s.removePolicyChain net key pcids).2 (Function.update P key none) := by
  cases hp : P key with
  | none =>
      have hnone := h.absent key hp
      rw [Function.update_eq_self_iff.mpr hp.symm]
      rcases removePolicyChain_cases net s key pcids with
        hr | ⟨_, _, _, _, d, _, -, -, hd, -⟩
      · rwa [hr]
      · rw [hnone] at hd
        cases hd
  | some p =>
      obtain ⟨hascii, ⟨policyChain, rest, hsplit⟩, hfields⟩ := h.reads key p hp
      obtain ⟨posts, hposts, htracks⟩ := h.uninstall hp
      have hoff : ∀ q, Function.update P key (some { p with installed := false }) key = some q →
          q.installed = false := fun q hq => by
        rw [Function.update_self] at hq
        exact Option.some.inj hq ▸ rfl
      have hforget := htracks.forget hoff
      rw [Function.update_idem] at hforget
      rw [removePolicyChain, hascii, hsplit, hfields]
      simp only [uninstallPolicyChainRules_eq (h.data key p hp) hposts, popPcid]
      split
      · exact hforget
      · exact hforget.mono hforget.accepts rfl rfl le_rfl

/-- A loop over keys, each round of which does to the policy of its key what is given. -/
lemma Tracks.foldl {α : Type} (round : α × TsaBE → Str → α × TsaBE) (f : Policy → Policy)
    (C : Policy → Prop)
    (hround : ∀ x s P key, Tracks net s P → (∀ p, P key = some p → C p) →
      Tracks net (round (x, s) key).2 (P.modify f key))
    {keys : List Str} (hnodup : keys.Nodup) (h : Tracks net s P)
    (hC : ∀ key ∈ keys, ∀ p, P key = some p → C p) (x : α) :
    Tracks net (keys.foldl round (x, s)).2 (keys.foldl (Policies.modify f) P) := by
  induction keys generalizing x s P with
  | nil => exact h
  | cons key keys ih =>
      obtain ⟨hnot, hnodup⟩ := List.nodup_cons.mp hnodup
      obtain ⟨hkey, hkeys⟩ := List.forall_mem_cons.mp hC
      rw [List.foldl_cons, List.foldl_cons]
      refine ih hnodup (hround x s P key h hkey) (fun k hk p hp => ?_) _
      have hne : k ≠ key := fun heq => hnot (heq ▸ hk)
      rw [Policies.modify, Function.update_of_ne hne] at hp
      exact hkeys k hk p hp

lemma modify_eq_self {f : Policy → Policy} (h : ∀ p, P key = some p → f p = p) :
    P.modify f key = P := by
  rw [Policies.modify, Function.update_eq_self_iff]
  cases hp : P key with
  | none => rfl
  | some p => rw [Option.map_some, h p hp]

/-- A round of the loop over the chains with a middlebox that is unregistered. -/
lemma Tracks.unregisterFrom (h : Tracks net s P) {mbName : Str}
    (hname : ∀ p, P key = some p → mbName <:+: commas p.mbs → mbName ∈ p.mbs) (failed : Str) :
    Tracks net (TsaBE.unregisterFrom net mbName (failed, s) key).2
      (P.modify (Policy.unregister mbName) key) := by
  rw [TsaBE.unregisterFrom]
  cases hp : P key with
  | none =>
      rw [modify_eq_self fun p hp' => by rw [hp] at hp'; cases hp']
      simp only [h.absent key hp]
      exact h
  | some p =>
      simp only [h.data key p hp]
      by_cases hinfix : mbName <:+: commas p.mbs
      · obtain ⟨posts, hposts, htracks⟩ := h.uninstall hp
        have hmodify : P.modify (Policy.unregister mbName) key =
            Function.update P key (some { p with installed := false }) := by
          rw [Policies.modify, hp, Option.map_some, Policy.unregister,
            if_pos (List.contains_iff_mem.mpr (hname p hp hinfix))]
        rw [hmodify, if_pos hinfix]
        simp only [(h.reads key p hp).fields]
        have heq := uninstallPolicyChainRules_eq (h.data key p hp) hposts
        simp only [flowOf, senderOf] at heq ⊢
        rw [heq]
        exact htracks
      · rw [if_neg hinfix]
        refine (modify_eq_self fun q hq => ?_) ▸ h
        obtain rfl := Option.some.inj (hp.symm.trans hq)
        refine if_neg fun hmem => hinfix ?_
        rw [List.contains_iff_mem, ← h.mbs key p hp] at hmem
        exact List.infix_of_mem_splitOn hmem

/-- A round of the loop over the chains with a middlebox that is replaced. -/
lemma Tracks.replaceIn (h : Tracks net s P) {oldMbName newMbName : Str}
    (hname : ∀ p, P key = some p → oldMbName ∈ p.mbs → ',' ∉ newMbName ∧
      (oldMbName = newMbName ∨ ∀ mb ∈ p.mbs, oldMbName <:+: mb → mb = oldMbName)) (ok : Bool) :
    Tracks net (TsaBE.replaceIn net oldMbName newMbName (ok, s) key).2
      (P.modify (Policy.replaceMb oldMbName newMbName) key) := by
  rw [TsaBE.replaceIn]
  cases hp : P key with
  | none =>
      rw [modify_eq_self fun p hp' => by rw [hp] at hp'; cases hp']
      simp only [h.absent key hp]
      exact h
  | some p =>
      have hmbs := h.mbs key p hp
      simp only [h.data key p hp]
      by_cases hmem : oldMbName ∈ (commas p.mbs).splitOn ','
      · rw [if_pos hmem]
        obtain ⟨posts, hposts, htracks⟩ := h.uninstall hp
        have hreads := h.reads key p hp
        have hmem' : oldMbName ∈ p.mbs := hmbs ▸ hmem
        -- the text of the new chain
        have hsplit : (replace (commas p.mbs) oldMbName newMbName).splitOn ',' =
            substitute oldMbName newMbName p.mbs := by
          have hiff : (replace (commas p.mbs) oldMbName newMbName).splitOn ',' = _ ↔ _ :=
            splitOn_replace_iff hmem
          rw [hmbs] at hiff
          exact hiff.mpr (hname p hp hmem')
        have htext : replace (commas p.mbs) oldMbName newMbName =
            commas (substitute oldMbName newMbName p.mbs) := by
          rw [← hsplit]
          exact (List.intercalate_splitOn ',').symm
        have hmodify : P.modify (Policy.replaceMb oldMbName newMbName) key =
            Function.update (Function.update P key (some { p with installed := false })) key (some
              { p with mbs := substitute oldMbName newMbName p.mbs, installed := true }) := by
          rw [Policies.modify, hp, Option.map_some, Policy.replaceMb,
            if_pos (List.contains_iff_mem.mpr hmem'), Function.update_idem]
        obtain ⟨visited, hinstall⟩ := installPolicyChainRules_eq net
          { s with controller := s.controller.urlopens posts } hreads.ascii
          (commas (substitute oldMbName newMbName p.mbs)) p.vlanId p.fields p.senderHost
        have hreplace : s.replaceMasterMB net oldMbName newMbName key =
            { s with controller := s.controller.urlopens posts }.installPolicyChainRules net key
              (commas (substitute oldMbName newMbName p.mbs)) p.vlanId p.fields p.senderHost := by
          rw [replaceMasterMB, h.data key p hp, hreads.fields]
          have heq := uninstallPolicyChainRules_eq (h.data key p hp) hposts
          simp only [flowOf, senderOf] at heq ⊢
          rw [heq, htext]
          rfl
        rw [hmodify, hreplace, hinstall]
        refine htracks.install ?_ (fun q hq => ?_) rfl (by rw [← htext, hsplit]) hreads
          (fun i => ?_) (h.lt key p hp) le_rfl ?_ ?_
        · rw [Function.update_idem]
          exact h.separated.update hp rfl rfl rfl
        · rw [Function.update_self] at hq
          exact Option.some.inj hq ▸ rfl
        · rw [urlopens_accepts, htracks.accepts]
        · rw [carriedOut_of_accepts fun _ _ => htracks.accepts _]
          rfl
        · exact rules_urlopens htracks.accepts _
      · rw [if_neg hmem]
        refine (modify_eq_self fun q hq => ?_) ▸ h
        obtain rfl := Option.some.inj (hp.symm.trans hq)
        exact if_neg fun hmem' => hmem (hmbs.symm ▸ List.contains_iff_mem.mp hmem')

/-! ### Runs -/

/-- The keys with policies are gone through. -/
lemma Tracks.mem_keys (h : Tracks net s P) {e : Event} (horder : e.InOrder s)
    (hp : P key ≠ none) : key ∈ e.keys := by
  obtain ⟨p, hp⟩ := Option.ne_none_iff_exists'.mp hp
  exact (horder.mem_keys key).mpr (by simp [h.data key p hp])

/-- A command that should replace a middlebox does so for each policy with it. -/
lemma Tracks.replacing (h : Tracks net s P) {e : Event} (he : Tidy net s e) (horder : e.InOrder s)
    (hcommand : (∃ stoppedMBName, e.command = .stopMaster stoppedMBName) ∨
      ∃ requestArgs, e.command = .replaceMaster requestArgs) :
    Tracks net (exec net s e).2 (match replacement net e.command with
      | some (oldMbName, newMbName) => P.modifyAll (Policy.replaceMb oldMbName newMbName)
      | none => P) := by
  cases hreplacement : replacement net e.command with
  | none =>
      rw [(exec_of_replacement_eq_none hreplacement hcommand).1]
      exact h.begin he
  | some names =>
      obtain ⟨oldMbName, newMbName⟩ := names
      obtain ⟨hold, hnew, hexec⟩ := exec_of_replacement hreplacement
      have hnames := he.replaced _ _ hreplacement
      have hloop := (h.begin he).foldl (TsaBE.replaceIn net oldMbName newMbName)
        (Policy.replaceMb oldMbName newMbName) (fun p => oldMbName ∈ p.mbs → ',' ∉ newMbName ∧
          (oldMbName = newMbName ∨ ∀ mb ∈ p.mbs, oldMbName <:+: mb → mb = oldMbName))
        (fun ok s P key h hC => h.replaceIn hC ok) horder.nodup_keys
        (fun key _ p hp hmem => by
          have hapart := hnames key _ (h.data key p hp)
          rw [ChainData.mbs, h.mbs key p hp] at hapart
          exact hapart hmem) true
      rw [Policies.foldl_modify _ horder.nodup_keys fun key hp => h.mem_keys horder hp] at hloop
      have hresult : (exec net s e).2 =
          (e.keys.foldl (TsaBE.replaceIn net oldMbName newMbName) (true, s.begin e)).2 := by
        rw [hexec, doHandleReplacingMasterMB, if_pos ⟨hold, hnew⟩]
        simp only
        split_ifs <;> rfl
      rw [hresult]
      exact hloop

/-- A tidy command keeps to the policies. -/
lemma Tracks.step (h : Tracks net s P) {e : Event} (he : Tidy net s e) (hstep : Step net s e t) :
    Tracks net t (P.after net s.nextVlanId e.command) := by
  obtain ⟨horder, rfl⟩ := hstep
  have hbegin := h.begin he
  cases hcommand : e.command with
  | addPolicyChain requestArgs =>
      rw [exec, hcommand, Policies.after]
      cases hr : requestOf requestArgs with
      | none =>
          obtain ⟨-, n, hn, ht⟩ := handleAddPolicyCommand_of_none net (s.begin e) hr
          simp only [ht]
          exact hbegin.mono hbegin.accepts rfl rfl hn
      | some r =>
          obtain ⟨hplain, hfits⟩ := he.plain _ r hcommand hr
          exact hbegin.add hr (he.fresh _ r hcommand hr) hplain hfits (he.apart _ r hcommand hr)
  | removePolicyChain requestArgs =>
      rw [exec, hcommand, Policies.after]
      cases hr : requestOf requestArgs with
      | none =>
          rcases handleRemovePolicychain_cases net (s.begin e) requestArgs e.pcids with
            ⟨-, ht⟩ | ⟨r, _, _, hr', -⟩
          · simp only [ht]
            exact hbegin
          · rw [hr] at hr'
            cases hr'
      | some r =>
          simp only [handleRemovePolicychain_of_some net (s.begin e) hr]
          exact hbegin.remove r.key e.pcids
  | stopMaster stoppedMBName =>
      have hreplace := h.replacing he horder (.inl ⟨_, hcommand⟩)
      rwa [hcommand] at hreplace
  | replaceMaster requestArgs =>
      have hreplace := h.replacing he horder (.inr ⟨_, hcommand⟩)
      rwa [hcommand] at hreplace
  | unregMb mbName =>
      rw [exec, hcommand, Policies.after]
      simp only [handleUnregisterMiddleboxCommand]
      by_cases hascii : isAscii mbName = true
      · rw [if_pos hascii, if_pos hascii]
        have hloop := hbegin.foldl (TsaBE.unregisterFrom net mbName) (Policy.unregister mbName)
          (fun p => mbName <:+: commas p.mbs → mbName ∈ p.mbs)
          (fun failed s P key h hC => h.unregisterFrom hC failed) horder.nodup_keys
          (fun key _ p hp hinfix => by
            have hmem := he.unregistered mbName hcommand key _ (h.data key p hp) hinfix
            rwa [ChainData.mbs, h.mbs key p hp] at hmem) []
        rw [Policies.foldl_modify _ horder.nodup_keys fun key hp => h.mem_keys horder hp] at hloop
        rcases hresult : e.keys.foldl (TsaBE.unregisterFrom net mbName) ([], s.begin e) with
          ⟨failed, t⟩
        rw [hresult] at hloop
        simp only
        split_ifs <;> exact hloop
      · rw [if_neg hascii, if_neg hascii]
        exact hbegin

/-- A tidy run keeps to the policies that its commands make. -/
lemma exists_tracks_of_run {es : List Event}
    (h : Run (When (Tidy net) (Step net)) (TsaBE.new []) es s) :
    ∃ P, Run (Policies.Step net) (fun _ => none) es P ∧ Tracks net s P := by
  have hstep : ∀ s e t (P : Policies), Tracks net s P → When (Tidy net) (Step net) s e t →
      ∃ bs Q, Run (Policies.Step net) P bs Q ∧ (bs.flatMap fun e => [e]) = [e] ∧
        Tracks net t Q := by
    intro s e t P hP ⟨he, hstep⟩
    exact ⟨[e], P.after net s.nextVlanId e.command,
      .single ⟨s.nextVlanId, fun key p hp => (hP.lt key p hp).ne, rfl⟩,
      List.flatMap_singleton _ e, hP.step he hstep⟩
  obtain ⟨es', P, hrun, heq, htracks⟩ := h.refines hstep (tracks_new net)
  rw [List.flatMap_singleton', List.flatMap_singleton'] at heq
  exact ⟨P, heq ▸ hrun, htracks⟩

/-- **Policies.**  After every run of tidy commands, whether they succeed or not, the data that are
kept and the rules in the switches are those of the policies that the commands make.  The VLAN ids
are those that are posted, also beyond 12 bits. -/
theorem policies_implemented {es : List Event}
    (h : Run (When (Tidy net) (Step net)) (TsaBE.new []) es s) :
    ∃ P, Run (Policies.Step net) (fun _ => none) es P ∧ Implements net s P := by
  obtain ⟨P, hrun, htracks⟩ := exists_tracks_of_run h
  exact ⟨P, hrun, htracks.implements⟩

end

/-! ### A small run -/

/-- The replacement of `m1` by its slave, after the chain `h1,m1,m2` was added. -/
def failover : Event := replaceFirst "m1 m3" "h1$m1,m2$tp_dst:80"

lemma tidy_firstAdd : Tidy twoSwitches (TsaBE.new []) (firstAdd "h1,m1,m2") where
  accepts _ := rfl
  fresh _ _ _ _ := rfl
  plain requestArgs r hcommand hr := by
    obtain rfl := Command.addPolicyChain.inj hcommand
    obtain rfl := Option.some.inj hr
    have hencodable : Encodable (extractMatchFields "tp_dst=80".toList) :=
      encodable_of_all (by decide) rfl rfl
    exact ⟨⟨by decide, by decide⟩, hencodable.fitsKey⟩
  apart _ _ _ _ _ _ _ hd := nomatch hd
  unregistered _ _ _ _ hd := nomatch hd
  replaced _ _ h := nomatch h

lemma inOrder_failover : failover.InOrder oneChain :=
  @inOrder_replaceFirst twoSwitches "m1 m3" "h1,m1,m2" _ _ rfl rfl rfl

lemma tidy_failover : Tidy twoSwitches oneChain failover where
  accepts _ := rfl
  fresh _ _ hcommand := nomatch hcommand
  plain _ _ hcommand := nomatch hcommand
  apart _ _ hcommand := nomatch hcommand
  unregistered _ hcommand := nomatch hcommand
  replaced oldMbName newMbName h key d hd _ := by
    obtain ⟨-, rfl⟩ := data_oneChain hd
    obtain ⟨rfl, rfl⟩ := Prod.mk.inj (Option.some.inj h)
    exact ⟨by decide, .inr (by decide)⟩

/-- The state after the chain was added and the middlebox was replaced. -/
lemma run_failover : Run (When (Tidy twoSwitches) (Step twoSwitches)) (TsaBE.new [])
    [firstAdd "h1,m1,m2", failover] (exec twoSwitches oneChain failover).2 :=
  .cons ⟨tidy_firstAdd, inOrder_firstAdd _ _, rfl⟩ (.single ⟨tidy_failover, inOrder_failover, rfl⟩)

/-- An add of a chain of another sender, after the chain `h1,m1,m2` was added. -/
def addOther : Event :=
  ⟨.addPolicyChain "h2,m3,m2 {tp_dst=22}".toList, fun _ => true, ["h1$m1,m2$tp_dst:80".toList], [0]⟩

lemma request_addOther : requestOf "h2,m3,m2 {tp_dst=22}".toList =
    some ⟨"h2".toList, "m3,m2".toList, [("tp_dst".toList, "22".toList)],
      "h2$m3,m2$tp_dst:22".toList⟩ := rfl

lemma inOrder_addOther : addOther.InOrder oneChain :=
  @inOrder_after_firstAdd twoSwitches "h1,m1,m2" [] _ rfl rfl _ rfl rfl

lemma tidy_addOther : Tidy twoSwitches oneChain addOther where
  accepts _ := rfl
  fresh requestArgs r hcommand hr := by
    obtain rfl := Command.addPolicyChain.inj hcommand
    obtain rfl := Option.some.inj (hr.symm.trans request_addOther)
    by_contra hsome
    obtain ⟨d, hd⟩ := Option.ne_none_iff_exists'.mp hsome
    exact absurd (data_oneChain hd).1 (by decide)
  plain requestArgs r hcommand hr := by
    obtain rfl := Command.addPolicyChain.inj hcommand
    obtain rfl := Option.some.inj (hr.symm.trans request_addOther)
    have hencodable : Encodable (extractMatchFields "tp_dst=22".toList) :=
      encodable_of_all (by decide) rfl rfl
    exact ⟨⟨by decide, by decide⟩, hencodable.fitsKey⟩
  apart requestArgs r hcommand hr key d fields hd hfields := by
    obtain rfl := Command.addPolicyChain.inj hcommand
    obtain rfl := Option.some.inj (hr.symm.trans request_addOther)
    obtain ⟨rfl, rfl⟩ := data_oneChain hd
    have hread : getMatchFieldsFromKey "h1$m1,m2$tp_dst:80".toList =
      some [("tp_dst".toList, "80".toList)] := rfl
    obtain rfl := Option.some.inj (hfields.symm.trans hread)
    exact fun _ _ _ _ _ => ⟨by decide, by decide⟩
  unregistered _ hcommand := nomatch hcommand
  replaced _ _ h := nomatch h

/-- The state with two chains. -/
lemma run_twoChains : Run (When (Tidy twoSwitches) (Step twoSwitches)) (TsaBE.new [])
    [firstAdd "h1,m1,m2", addOther] (exec twoSwitches oneChain addOther).2 :=
  .cons ⟨tidy_firstAdd, inOrder_firstAdd _ _, rfl⟩
    (.single ⟨tidy_addOther, inOrder_addOther, rfl⟩)

theorem policies_implemented_failover : ∃ P,
    Run (Policies.Step twoSwitches) (fun _ => none) [firstAdd "h1,m1,m2", failover] P ∧
      Implements twoSwitches (exec twoSwitches oneChain failover).2 P :=
  policies_implemented run_failover

end FtThesis.Tsa
