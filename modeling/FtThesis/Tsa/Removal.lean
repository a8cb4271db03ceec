/-
Does the removal of a chain delete its rules, and no others?

* `RemovesExactly`: it does so, where the controller accepts the requests;
* `Separate`, `Removable`: what must hold of the rules that there are, of the flow of the chain and
  of the match fields that are read from its key;
* `Owned`: in a state reached by adds and removals the rules of a chain ask for its VLAN id, and its
  first rule is noted at the sender's switch;
* `mem_deletePosts`: what a removal requests;
* `removesExactly_iff`: it deletes the right rules exactly if the chain is removable;
* `not_removesExactly`: two senders at one switch with the same match fields.
-/
import FtThesis.Tsa.Handlers

namespace FtThesis.Tsa

open Transition TsaBE

/-! ### The property -/

/-- The state, with a controller that accepts everything. -/
def TsaBE.accepting (s : TsaBE) : TsaBE :=
  { s with controller := ⟨s.controller.rules, fun _ => true, []⟩ }

/-- A rule belongs to another chain that is live. -/
def OfAnother (s : TsaBE) (key : Str) (r : Rule) : Prop :=
  ∃ key' d, key' ≠ key ∧ s.policyChainKeyToData key' = some d ∧ d.vlanId = r.vlanId

/-- The removal of the chain of a key deletes all its rules, and no rule of another live chain. -/
def RemovesExactly (net : Topology) (s : TsaBE) (key : Str) (d : ChainData) (pcids : List ℕ) :
    Prop :=
  let t := (s.accepting.removePolicyChain net key pcids).2
  (∀ r ∈ t.controller.rules, r.vlanId ≠ d.vlanId) ∧
    ∀ r ∈ s.controller.rules, OfAnother s key r → r ∈ t.controller.rules

/-! ### The condition -/

/-- A rule is at the sender's switch, and the flow begins with a switch. -/
def AtSender (net : Topology) (d : ChainData) (senderHost : Str) (r : Rule) : Prop :=
  (∃ dpid, d.fullFlow[1]? = some (.switch dpid)) ∧
    ∃ port, net.hostsThatSendPackets senderHost = some (r.dpid, port)

/-- A rule is at a switch that stands in the flow after its first place. -/
def AtLater (d : ChainData) (r : Rule) : Prop := .switch r.dpid ∈ d.fullFlow.drop 2

/-- The rules can be told apart by the match fields from the key, at the sender's switch, and by the
VLAN id, at the later switches. -/
structure Separate (net : Topology) (s : TsaBE) (key : Str) (d : ChainData) (senderHost : Str)
    (matchFields : List Field) : Prop where
  push : ∀ r ∈ s.controller.rules, r.vlanId = d.vlanId → r.kind = .push →
    covers (getFullMatchFields matchFields) r.fields = true ∨
      AtLater d r ∧ r.fields.lookup dlVlan = some (str d.vlanId)
  noPush : ∀ r ∈ s.controller.rules, r.vlanId = d.vlanId → r.kind ≠ .push →
    AtLater d r ∨
      AtSender net d senderHost r ∧ covers (getFullMatchFields matchFields) r.fields = true
  others : ∀ r ∈ s.controller.rules, OfAnother s key r → AtSender net d senderHost r →
    ¬ covers (getFullMatchFields matchFields) r.fields = true
  othersPush : ∀ r ∈ s.controller.rules, OfAnother s key r → AtLater d r → r.kind = .push →
    r.fields.lookup dlVlan ≠ some (str d.vlanId)

/-- The key has three parts, and the rules can be told apart; or there are no rules. -/
def Removable (net : Topology) (s : TsaBE) (key : Str) (d : ChainData) : Prop :=
  match key.splitOn '$', getMatchFieldsFromKey key with
  | [senderHost, _, _], some matchFields => Separate net s key d senderHost matchFields
  | _, _ => ∀ r ∈ s.controller.rules, r.vlanId ≠ d.vlanId

/-! ### The requests -/

section

variable {net : Topology} {senderHost : Str} {vlanId : ℕ} {fields : List Field}

/-- After the first place all requests are for the VLAN id. -/
lemma mem_deletePosts_of_le {i : ℕ} (hi : 2 ≤ i) {fullFlow : List FlowEntry} {posts : List Post}
    (h : deletePosts net senderHost vlanId fields i fullFlow = some posts) (p : Post) :
    p ∈ posts ↔ ∃ dpid, .switch dpid ∈ fullFlow ∧ p = .delete dpid (vlanMatch vlanId) := by
  induction fullFlow generalizing i posts with
  | nil =>
      cases h
      simp
  | cons entry fullFlow ih =>
      cases entry with
      | name n => simpa using ih (by omega) h
      | switch dpid =>
          rw [deletePosts_of_ne_one _ _ _ _ (by omega)] at h
          obtain ⟨posts', hposts, rfl⟩ := Option.map_eq_some_iff.mp h
          rw [List.mem_cons, ih (by omega) hposts]
          simp [or_and_right, exists_or]

/-- What is requested for a flow: the match fields at the sender's switch, if it begins with a
switch, and the VLAN id at the later ones. -/
lemma mem_deletePosts {n : Str} {flow : List FlowEntry} {posts : List Post}
    (h : deletePosts net senderHost vlanId fields 0 (.name n :: flow) = some posts) (p : Post) :
    p ∈ posts ↔
      (∃ dpid, flow[0]? = some (.switch dpid)) ∧ (∃ sender,
          net.hostsThatSendPackets senderHost = some sender ∧
          p = .delete sender.1 (getFullMatchFields fields)) ∨
        ∃ dpid, .switch dpid ∈ flow.drop 1 ∧ p = .delete dpid (vlanMatch vlanId) := by
  rw [deletePosts] at h
  cases flow with
  | nil =>
      cases h
      simp
  | cons entry flow =>
      cases entry with
      | name n => simpa using mem_deletePosts_of_le le_rfl h p
      | switch dpid =>
          rw [deletePosts_one] at h
          obtain ⟨sender, hsender, h⟩ := Option.bind_eq_some_iff.mp h
          obtain ⟨posts', hposts, rfl⟩ := Option.map_eq_some_iff.mp h
          rw [List.mem_cons, mem_deletePosts_of_le le_rfl hposts]
          simp [hsender]

end

/-! ### Whose rules there are -/

/-- The chains have their own VLAN ids; the rules of a chain ask for its VLAN id, or they set it at
the sender's switch, which is the first entry of the flow then; and the sender is the first part of
the key. -/
structure Owned (net : Topology) (s : TsaBE) : Prop where
  vlanId_lt : ∀ key d, s.policyChainKeyToData key = some d → d.vlanId < s.nextVlanId
  vlanId_inj : ∀ key key' d d', s.policyChainKeyToData key = some d →
    s.policyChainKeyToData key' = some d' → d.vlanId = d'.vlanId → key = key'
  rule_lt : ∀ r ∈ s.controller.rules, r.vlanId < s.nextVlanId
  asks : ∀ r ∈ s.controller.rules, r.kind ≠ .push →
    r.fields.lookup dlVlan = some (str r.vlanId)
  flow : ∀ key d, s.policyChainKeyToData key = some d → isAscii key = true ∧
    ∃ senderHost policyChain rest flow,
      key = senderHost ++ '$' :: (policyChain ++ '$' :: rest) ∧
      d.fullFlow = .name senderHost :: flow ∧
      (flow ≠ [] → (net.hostsThatSendPackets senderHost).isSome) ∧
      ∀ r ∈ s.controller.rules, r.vlanId = d.vlanId → r.kind = .push →
        flow[0]? = some (.switch r.dpid) ∧
          ∃ port, net.hostsThatSendPackets senderHost = some (r.dpid, port)

section

variable {net : Topology} {s t : TsaBE}

lemma owned_new (net : Topology) : Owned net (TsaBE.new []) :=
  ⟨nofun, nofun, nofun, nofun, nofun⟩

/-- It stays so while data and rules are deleted. -/
lemma Owned.mono (h : Owned net s)
    (hdata : ∀ key d, t.policyChainKeyToData key = some d → s.policyChainKeyToData key = some d)
    (hrules : ∀ r ∈ t.controller.rules, r ∈ s.controller.rules)
    (hvlan : s.nextVlanId ≤ t.nextVlanId) : Owned net t := by
  refine ⟨fun key d hd => (h.vlanId_lt key d (hdata key d hd)).trans_le hvlan,
    fun key key' d d' hd hd' => h.vlanId_inj key key' d d' (hdata key d hd) (hdata key' d' hd'),
    fun r hr => (h.rule_lt r (hrules r hr)).trans_le hvlan, fun r hr => h.asks r (hrules r hr),
    fun key d hd => ?_⟩
  obtain ⟨hascii, sender, chain, rest, flow, hkey, hflow, hknown, hpush⟩ :=
    h.flow key d (hdata key d hd)
  exact ⟨hascii, sender, chain, rest, flow, hkey, hflow, hknown,
    fun r hr => hpush r (hrules r hr)⟩

section

variable {requestArgs : Str} {r : ChainRequest} (hr : requestOf requestArgs = some r)

include hr

/-- After an add there are the data of its chain, and those of the other keys. -/
lemma data_of_add {key : Str} {d : ChainData}
    (hd : (s.handleAddPolicyCommand net requestArgs).2.policyChainKeyToData key = some d) :
    key = r.key ∧ d = s.requestData net r ∨ s.policyChainKeyToData key = some d := by
  obtain ⟨t, ht, hdata, -⟩ := handleAddPolicyCommand_eq net s hr
  rw [ht, hdata] at hd
  rcases eq_or_ne key r.key with rfl | hne
  · rw [Function.update_self] at hd
    exact .inl ⟨rfl, (Option.some.inj hd).symm⟩
  · rw [Function.update_of_ne hne] at hd
    exact .inr hd

/-- After an add there are the rules from before, and those of its chain. -/
lemma rules_of_add {q : Rule}
    (hq : q ∈ (s.handleAddPolicyCommand net requestArgs).2.controller.rules) :
    q ∈ s.controller.rules ∨ .rule q ∈
      carriedOut s.controller.accepts s.controller.posts.length (s.requestPlan net r) := by
  obtain ⟨t, ht, -, -, -, hcontroller⟩ := handleAddPolicyCommand_eq net s hr
  rw [ht, hcontroller] at hq
  exact mem_urlopens_add hq

/-- It stays so when a chain is added. -/
lemma Owned.add (h : Owned net s) : Owned net (s.handleAddPolicyCommand net requestArgs).2 := by
  have hvlan : (s.handleAddPolicyCommand net requestArgs).2.nextVlanId = s.nextVlanId + 1 := by
    obtain ⟨t, ht, -, -, hvlan, -⟩ := handleAddPolicyCommand_eq net s hr
    rw [ht, hvlan]
  have hplan : ∀ q, .rule q ∈ carriedOut s.controller.accepts s.controller.posts.length
      (s.requestPlan net r) → q.vlanId = s.nextVlanId ∧
        (q.kind ≠ .push → q.fields.lookup dlVlan = some (str s.nextVlanId)) :=
    fun q hq => rule_of_chainPlan ((carriedOut_sublist _ _).subset hq)
  refine ⟨fun key d hd => ?vlanId_lt, fun key key' d d' hd hd' heq => ?vlanId_inj,
    fun q hq => ?rule_lt, fun q hq hkind => ?asks, fun key d hd => ?flow⟩
  case vlanId_lt =>
    rw [hvlan]
    rcases data_of_add hr hd with ⟨-, rfl⟩ | hd
    · exact Nat.lt_succ_self _
    · exact Nat.lt_succ_of_lt (h.vlanId_lt key d hd)
  case vlanId_inj =>
    -- the new VLAN id is above those of the other chains
    rcases data_of_add hr hd with ⟨rfl, rfl⟩ | hd <;>
      rcases data_of_add hr hd' with ⟨rfl, rfl⟩ | hd'
    · rfl
    · exact absurd heq (h.vlanId_lt key' d' hd').ne'
    · exact absurd heq (h.vlanId_lt key d hd).ne
    · exact h.vlanId_inj key key' d d' hd hd' heq
  case rule_lt =>
    rw [hvlan]
    rcases rules_of_add hr hq with hq | hq
    · exact Nat.lt_succ_of_lt (h.rule_lt q hq)
    · rw [(hplan q hq).1]
      exact Nat.lt_succ_self _
  case asks =>
    rcases rules_of_add hr hq with hq | hq
    · exact h.asks q hq hkind
    · rw [(hplan q hq).1]
      exact (hplan q hq).2 hkind
  case flow =>
    rcases data_of_add hr hd with ⟨rfl, rfl⟩ | hd
    · refine ⟨isAscii_of_requestOf hr, r.hostSender, r.policyChain, _, _, key_of_requestOf hr, rfl,
        fun hflow => ?_, fun q hq hown hpush => ?_⟩
      · by_contra hnone
        refine hflow ?_
        rw [requestPlan, chainPlan_of_sender_eq_none (by simpa using hnone)]
        rfl
      · rcases rules_of_add hr hq with hq | hq
        · exact absurd hown (h.rule_lt q hq).ne
        · exact first_of_carriedOut hq hpush
    · obtain ⟨hascii, sender, chain, rest, flow, hkey, hflow, hknown, hpush⟩ := h.flow key d hd
      refine ⟨hascii, sender, chain, rest, flow, hkey, hflow, hknown, fun q hq hown => ?_⟩
      rcases rules_of_add hr hq with hq | hq
      · exact hpush q hq hown
      · exact absurd ((hplan q hq).1.symm.trans hown) (h.vlanId_lt key d hd).ne'

end

/-- It stays so when a chain is removed. -/
lemma Owned.remove (h : Owned net s) (key : Str) (pcids : List ℕ) :
    Owned net (s.removePolicyChain net key pcids).2 := by
  rcases removePolicyChain_cases net s key pcids with
    hr | ⟨_, _, _, fields, d, posts, -, -, hd, hposts, hr⟩
  · rwa [hr]
  · obtain ⟨-, sender, -, -, flow, -, hflow, -⟩ := h.flow key d hd
    rw [hflow] at hposts
    have hdata : ∀ k d', Function.update s.policyChainKeyToData key none k = some d' →
        s.policyChainKeyToData k = some d' := by
      intro k d' hk
      rcases eq_or_ne k key with rfl | hne
      · simp at hk
      · simpa [hne] using hk
    have hrules : ∀ r ∈ (s.controller.urlopens posts).rules, r ∈ s.controller.rules := by
      intro r hr
      rcases mem_urlopens hr with hr | hr
      · exact hr
      · obtain ⟨_, _, hp⟩ := deletes_of_deletePosts hposts _ hr
        cases hp
    rw [hr, popPcid]
    split
    · exact h.mono hdata hrules le_rfl
    · exact h.mono hdata hrules le_rfl

/-- The commands that add or remove a chain. -/
def AddsOrRemoves (_ : TsaBE) (e : Event) : Prop :=
  (∃ requestArgs, e.command = .addPolicyChain requestArgs) ∨
    ∃ requestArgs, e.command = .removePolicyChain requestArgs

lemma Owned.step {e : Event} (h : Owned net s) (he : AddsOrRemoves s e)
    (hstep : Step net s e t) : Owned net t := by
  obtain ⟨-, rfl⟩ := hstep
  have hbegin : Owned net (s.begin e) := h.mono (fun _ _ => id) (fun _ => id) le_rfl
  rw [exec]
  rcases he with ⟨requestArgs, hcommand⟩ | ⟨requestArgs, hcommand⟩ <;> rw [hcommand]
  · cases hrequest : requestOf requestArgs with
    | none =>
        obtain ⟨-, n, hn, ht⟩ := handleAddPolicyCommand_of_none net (s.begin e) hrequest
        simp only [ht]
        exact h.mono (fun _ _ => id) (fun _ => id) hn
    | some r => exact Owned.add hrequest hbegin
  · rcases handleRemovePolicychain_cases net (s.begin e) requestArgs e.pcids with
      ⟨-, ht⟩ | ⟨r, _, t, -, hremove, -, ht⟩
    · simp only [ht]
      exact hbegin
    · have hr := hbegin.remove r.key e.pcids
      rw [hremove] at hr
      simp only [ht]
      exact hr

end

/-! ### The removal of a chain -/

section

variable {net : Topology} {s : TsaBE} {key : Str} {d : ChainData}

/-- The first part of a key with three parts is its sender. -/
lemma sender_of_splitOn {senderHost policyChain rest a b c : Str}
    (h : (senderHost ++ '$' :: (policyChain ++ '$' :: rest)).splitOn '$' = [a, b, c]) :
    a = senderHost := by
  rw [List.splitOn_append_cons_self, List.splitOn_append_cons_self] at h
  obtain ⟨x, xs, hx⟩ := List.exists_cons_of_ne_nil (List.splitOn_ne_nil '$' senderHost)
  obtain ⟨y, ys, hy⟩ := List.exists_cons_of_ne_nil (List.splitOn_ne_nil '$' policyChain)
  obtain ⟨z, zs, hz⟩ := List.exists_cons_of_ne_nil (List.splitOn_ne_nil '$' rest)
  rw [hx, hy, hz] at h
  have hlength := congrArg List.length h
  simp only [List.length_append, List.length_cons, List.length_nil] at hlength
  obtain rfl : xs = [] := List.eq_nil_of_length_eq_zero (by omega)
  have hsender : ['$'].intercalate (senderHost.splitOn '$') = senderHost :=
    List.intercalate_splitOn '$'
  rw [hx] at hsender
  rw [List.singleton_append, List.cons_append, List.cons.injEq] at h
  rw [← h.1, ← hsender]
  simp

/-- A rule is covered by one of the requests. -/
def Reached (net : Topology) (d : ChainData) (senderHost : Str) (fields : List Field) (r : Rule) :
    Prop :=
  AtSender net d senderHost r ∧ covers (getFullMatchFields fields) r.fields = true ∨
    AtLater d r ∧ r.fields.lookup dlVlan = some (str d.vlanId)

/-- A removal that comes to the requests leaves the rules that none of them covers. -/
lemma mem_rules_removePolicyChain (h : Owned net s) (hd : s.policyChainKeyToData key = some d)
    {senderHost policyChain rest : Str} (hsplit : key.splitOn '$' = [senderHost, policyChain, rest])
    {fields : List Field} (hfields : getMatchFieldsFromKey key = some fields) (pcids : List ℕ)
    (r : Rule) :
    r ∈ (s.accepting.removePolicyChain net key pcids).2.controller.rules ↔
      r ∈ s.controller.rules ∧ ¬ Reached net d senderHost fields r := by
  obtain ⟨hascii, sender, chain, rest', flow, hkey, hflow, hknown, -⟩ := h.flow key d hd
  obtain rfl : senderHost = sender := sender_of_splitOn (by rwa [hkey] at hsplit)
  obtain ⟨posts, hposts⟩ : ∃ posts, deletePosts net senderHost d.vlanId fields 0 d.fullFlow =
      some posts := by
    rw [hflow, deletePosts]
    by_cases hne : flow = []
    · exact ⟨[], by rw [hne, deletePosts]⟩
    · exact exists_deletePosts (hknown hne) _ _ _ _
  have hmem := mem_deletePosts (hflow ▸ hposts)
  have hrules : (s.accepting.removePolicyChain net key pcids).2.controller.rules =
      posts.foldl Post.apply s.controller.rules := by
    have haccepting : s.accepting.controller.Accepting posts.length := fun _ _ => rfl
    have hall := (urlopens_of_accepting haccepting).1
    rw [removePolicyChain, hascii, hsplit, hfields]
    simp only [uninstallPolicyChainRules_eq (s := s.accepting) hd hposts, popPcid]
    split <;> exact hall
  rw [hrules, mem_foldl_apply_of_deletes (deletes_of_deletePosts (hflow ▸ hposts))]
  refine and_congr_right fun _ => ?_
  have hfirst : AtSender net d senderHost r ↔ (∃ dpid, flow[0]? = some (.switch dpid)) ∧
      ∃ port, net.hostsThatSendPackets senderHost = some (r.dpid, port) := by
    rw [AtSender, hflow]
    rfl
  have hlater : AtLater d r ↔ .switch r.dpid ∈ flow.drop 1 := by
    rw [AtLater, hflow]
    rfl
  rw [Reached, hfirst, hlater]
  constructor
  · rintro hnot (⟨⟨hswitch, port, hsender⟩, hcovers⟩ | ⟨hdpid, hasks⟩)
    · exact hnot r.dpid _ ((hmem _).mpr (.inl ⟨hswitch, _, hsender, rfl⟩)) ⟨rfl, hcovers⟩
    · exact hnot r.dpid _ ((hmem _).mpr (.inr ⟨_, hdpid, rfl⟩))
        ⟨rfl, (covers_vlanMatch _ _).mpr hasks⟩
  · rintro hnot dpid m hp ⟨rfl, hcovers⟩
    rcases (hmem _).mp hp with ⟨hswitch, ⟨_, port⟩, hsender, heq⟩ | ⟨_, hdpid, heq⟩
    · cases heq
      exact hnot (.inl ⟨⟨hswitch, port, hsender⟩, hcovers⟩)
    · cases heq
      exact hnot (.inr ⟨hdpid, (covers_vlanMatch _ _).mp hcovers⟩)

/-- Whether the requests tell the rules apart. -/
lemma separate_iff (h : Owned net s) (hd : s.policyChainKeyToData key = some d)
    {senderHost policyChain rest : Str} (hsplit : key.splitOn '$' = [senderHost, policyChain, rest])
    (fields : List Field) :
    Separate net s key d senderHost fields ↔
      (∀ r ∈ s.controller.rules, r.vlanId = d.vlanId → Reached net d senderHost fields r) ∧
        ∀ r ∈ s.controller.rules, OfAnother s key r → ¬ Reached net d senderHost fields r := by
  obtain ⟨-, sender, chain, rest', flow, hkey, hflow, -, hpush⟩ := h.flow key d hd
  obtain rfl : senderHost = sender := sender_of_splitOn (by rwa [hkey] at hsplit)
  have hfirst : ∀ r ∈ s.controller.rules, r.vlanId = d.vlanId → r.kind = .push →
      AtSender net d senderHost r := by
    intro r hr hown hkind
    obtain ⟨hswitch, hsender⟩ := hpush r hr hown hkind
    refine ⟨⟨r.dpid, ?_⟩, hsender⟩
    rw [hflow]
    exact hswitch
  have hforeign : ∀ r ∈ s.controller.rules, OfAnother s key r → r.kind ≠ .push →
      r.fields.lookup dlVlan ≠ some (str d.vlanId) := by
    rintro r hr ⟨key', d', hne, hd', hvlan⟩ hkind heq
    rw [h.asks r hr hkind, Option.some.injEq] at heq
    exact hne (h.vlanId_inj _ _ d' d hd' hd (hvlan.trans (str_injective heq)))
  constructor
  · intro hsep
    refine ⟨fun r hr hown => ?_, fun r hr hother => ?_⟩
    · by_cases hkind : r.kind = .push
      · exact (hsep.push r hr hown hkind).imp_left fun hc => ⟨hfirst r hr hown hkind, hc⟩
      · rcases hsep.noPush r hr hown hkind with hlater | hfirst
        · exact .inr ⟨hlater, by rw [h.asks r hr hkind, hown]⟩
        · exact .inl hfirst
    · rintro (⟨hat, hcovers⟩ | ⟨hlater, hasks⟩)
      · exact hsep.others r hr hother hat hcovers
      · by_cases hkind : r.kind = .push
        · exact hsep.othersPush r hr hother hlater hkind hasks
        · exact hforeign r hr hother hkind hasks
  · rintro ⟨hown, hother⟩
    exact ⟨fun r hr hv hkind => (hown r hr hv).imp_left And.right,
      fun r hr hv hkind => (hown r hr hv).symm.imp_left And.left,
      fun r hr ho hat hcovers => hother r hr ho (.inl ⟨hat, hcovers⟩),
      fun r hr ho hlater _ hasks => hother r hr ho (.inr ⟨hlater, hasks⟩)⟩

lemma removesExactly_iff_of_owned (h : Owned net s) (hd : s.policyChainKeyToData key = some d)
    (pcids : List ℕ) : RemovesExactly net s key d pcids ↔ Removable net s key d := by
  rw [Removable]
  split
  next senderHost policyChain rest fields hsplit hfields =>
    have hmem := mem_rules_removePolicyChain h hd hsplit hfields pcids
    rw [separate_iff h hd hsplit, RemovesExactly]
    simp only [hmem]
    constructor
    · rintro ⟨hown, hother⟩
      refine ⟨fun r hr hv => ?_, fun r hr ho => (hother r hr ho).2⟩
      by_contra hnot
      exact hown r ⟨hr, hnot⟩ hv
    · rintro ⟨hown, hother⟩
      exact ⟨fun r hr hv => hr.2 (hown r hr.1 hv), fun r hr ho => ⟨hr, hother r hr ho⟩⟩
  next hparts =>
    have hnone : s.accepting.removePolicyChain net key pcids = (none, s.accepting) := by
      rcases removePolicyChain_cases net s.accepting key pcids with
        hr | ⟨_, _, _, _, _, _, hsplit, hfields, -⟩
      · exact hr
      · exact absurd hfields (hparts _ _ _ _ hsplit)
    rw [RemovesExactly, hnone]
    exact and_iff_left fun r hr _ => hr

/-- **Removals.**  In a state that is reached by adds and removals, the removal of a chain deletes
all its rules and no rule of another live chain, exactly if the chain is removable. -/
theorem removesExactly_iff (net : Topology) {es : List Event}
    (hrun : Run (When AddsOrRemoves (Step net)) (TsaBE.new []) es s)
    (hd : s.policyChainKeyToData key = some d) (pcids : List ℕ) :
    RemovesExactly net s key d pcids ↔ Removable net s key d :=
  removesExactly_iff_of_owned
    (hrun.invariant (fun _ _ _ h hstep => h.step hstep.1 hstep.2) (owned_new net)) hd pcids

end

lemma run_oneChain :
    Run (When AddsOrRemoves (Step twoSwitches)) (TsaBE.new []) [firstAdd "h1,m1,m2"] oneChain :=
  .single ⟨.inl ⟨_, rfl⟩, inOrder_firstAdd _ _, rfl⟩

/-- The chain can be told apart by the match fields of its key. -/
lemma removable_oneChain :
    Removable twoSwitches oneChain "h1$m1,m2$tp_dst:80".toList oneData := by
  have hown : ∀ r ∈ oneChain.controller.rules,
      (.switch r.dpid ∈ oneData.fullFlow.drop 2) ∨ r.kind = .push := by decide +kernel
  have hpush : ∀ r ∈ oneChain.controller.rules, r.kind = .push →
      covers (getFullMatchFields [("tp_dst".toList, "80".toList)]) r.fields = true := by
    decide +kernel
  have hone : ∀ r, ¬ OfAnother oneChain "h1$m1,m2$tp_dst:80".toList r := by
    rintro r ⟨key, d, hkey, hd, -⟩
    exact hkey (data_oneChain hd).1
  have hseparate : Separate twoSwitches oneChain "h1$m1,m2$tp_dst:80".toList oneData "h1".toList
      [("tp_dst".toList, "80".toList)] :=
    ⟨fun r hr _ hkind => .inl (hpush r hr hkind),
      fun r hr _ hkind => .inl ((hown r hr).resolve_right hkind),
      fun r _ hother => absurd hother (hone r), fun r _ hother => absurd hother (hone r)⟩
  exact hseparate

theorem removesExactly_oneChain :
    RemovesExactly twoSwitches oneChain "h1$m1,m2$tp_dst:80".toList oneData [0] :=
  (removesExactly_iff twoSwitches run_oneChain rfl [0]).mpr removable_oneChain

/-- The rule that sets the VLAN id of the second chain `h2,m1,m2`. -/
def secondPush : Rule :=
  ⟨1, .push, 2, ruleMatch .push [("tp_dst".toList, "80".toList)] 2 (some 3), 1⟩

/-- **Removals, at two senders at one switch.**  When the first chain is removed, the rule that sets
the VLAN id of the second one is deleted, because it has the same match fields. -/
theorem not_removesExactly : ¬ ∀ (net : Topology) (es : List Event) (s : TsaBE) (key : Str)
    (d : ChainData) (pcids : List ℕ), Run (When AddsOrRemoves (Step net)) (TsaBE.new []) es s →
      s.policyChainKeyToData key = some d → RemovesExactly net s key d pcids := by
  intro hall
  have horder : (secondAdd "h2,m1,m2" "h1$m1,m2$tp_dst:80".toList).InOrder oneChain :=
    @inOrder_secondAdd twoSwitches "h1,m1,m2" "h2,m1,m2" [] _ rfl rfl
  have hrun := run_oneChain.snoc ⟨.inl ⟨_, rfl⟩, horder, rfl⟩
  have h := (hall twoSwitches _ _ "h1$m1,m2$tp_dst:80".toList _ [0, 1] hrun rfl).2 secondPush
    (by decide +kernel) ⟨"h2$m1,m2$tp_dst:80".toList, _, by decide, rfl, rfl⟩
  revert h
  decide +kernel

end FtThesis.Tsa
