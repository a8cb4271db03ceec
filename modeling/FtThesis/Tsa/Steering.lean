/-
Are the frames of all chains led through their middleboxes, whatever else was done before?

* `Traverses.congr`: only the rules that there are matter, not their order;
* `exists_way`: the way of a chain that can be installed;
* `Live`: there are rules of a chain;
* `exists_of_applies_sender`, `mem_own_of_applies`: on the way of a chain no rule of another one
  applies to its frames;
* `steered_iff`: in every state of a tidy run, the frames of each live chain go through its
  middleboxes in order, exactly if its way is clear.
-/
import FtThesis.Tsa.PolicyRuns
import FtThesis.Tsa.Traversal

namespace FtThesis.Tsa

open Transition TsaBE

/-! ### Tables with the same rules -/

lemma Traverses.congr {cable : Dpid → Port → Option Peer} {rules rules' own : List Rule}
    (h : ∀ r, r ∈ rules ↔ r ∈ rules') {mbs : List Str} {place : Place}
    (ht : Traverses cable rules own mbs place) : Traverses cable rules' own mbs place := by
  have happlies : ∀ dpid inPort f r, Applies rules' dpid inPort f r ↔
      Applies rules dpid inPort f r := fun _ _ _ r => and_congr_left' (h r).symm
  induction ht with
  | switch hsome hown _ ih =>
      obtain ⟨r, hr⟩ := hsome
      exact .switch ⟨r, (happlies _ _ _ r).mpr hr⟩
        (fun r hr => hown r ((happlies _ _ _ r).mp hr))
        (fun r hr => ih r ((happlies _ _ _ r).mp hr))
  | returned htag _ ih => exact .returned htag ih
  | last htag => exact .last htag

/-! ### The way of a chain -/

/-- The way of a chain that can be installed, and its rules. -/
lemma exists_way {net : Topology} (w : Wiring net) {senderHost policyChain : Str} {dpid : Dpid}
    {port : Port} (hinstallable : installable net senderHost policyChain = true)
    (hlength : 2 ≤ (policyChain.splitOn ',').length)
    (hsender : net.hostsThatSendPackets senderHost = some (dpid, port)) (vlanId : ℕ)
    (fields : List Field) :
    ∃ x y stops, chainStops net senderHost policyChain = x :: y :: stops ∧
      x.key = (dpid, some port) ∧ Route w.cable (x :: y :: stops) ∧ Simple (y :: stops) ∧
      middleboxes (x :: y :: stops) = policyChain.splitOn ',' ∧
      rulesOf (chainPlan net policyChain vlanId fields senderHost).1 =
        wayRules fields vlanId x (y :: stops) := by
  have hreaches : reaches net dpid (policyChain.splitOn ',') = true := by
    rwa [installable, hsender] at hinstallable
  have hR := @route_stopsFrom net w _ (dpid, port) hreaches
  have hS := @simple_stopsFrom net _ (dpid, port) hreaches
  have hmbs := @middleboxes_stopsFrom net _ (dpid, port) hreaches
  have hplan := @rulesOf_chainPlan net senderHost policyChain (dpid, port) hsender hreaches hlength
  rw [chainStops, hsender]
  simp only
  rcases hway : stopsFrom net (dpid, port) (policyChain.splitOn ',') with _ | ⟨x, _ | ⟨y, stops⟩⟩
  · rw [hway] at hmbs
    rw [← hmbs] at hlength
    simp [middleboxes] at hlength
  · rw [hway, middleboxes_cons] at hmbs
    rw [← hmbs] at hlength
    cases hx : x.middlebox <;> simp [hx, middleboxes] at hlength
  · have hkey := @key_of_stopsFrom net (dpid, port) _ hreaches _ _ hway
    rw [hway] at hR hS hmbs
    exact ⟨x, y, stops, rfl, hkey, hR, @Simple.of_append [x] (y :: stops) hS, hmbs,
      hplan hway (outPort_of_route hR) vlanId fields⟩

/-! ### Other chains -/

section

variable {net : Topology} {s : TsaBE} {P : Policies} {key : Str} {p : Policy} {r : Rule}
  {f : Frame} {dpid : Dpid} {port : Port}

/-- A rule that there is belongs to a policy that is installed. -/
lemma Tracks.exists_rule (h : Tracks net s P) (hr : r ∈ s.controller.rules) :
    ∃ key p, P key = some p ∧ p.installed = true ∧ r ∈ p.chainRules net ∧
      (AtHost net p.senderHost p.vlanId p.fields r ∨ ForVlanId p.vlanId r) := by
  obtain ⟨key, p, hp, hon, hr⟩ := (h.tables r).mp hr
  exact ⟨key, p, hp, hon, Policy.mem_chainRules hr,
    Policy.rule_cases (Policy.mem_chainRules hr)⟩

lemma matches_withInPort {m : Match} (h : inPortName ∉ m.map Prod.fst) {q : Port}
    (hf : f.Matches port (m.withInPort (some q))) : q = port ∧ f.Matches port m := by
  constructor
  · have hvalue := hf _ (List.mem_cons_self (a := (inPortName, str q)))
    rw [Frame.value, if_pos rfl] at hvalue
    exact (str_injective (Option.some.inj hvalue)).symm
  · intro field hfield
    refine hf field (List.mem_cons_of_mem _ (List.mem_filter.mpr ⟨hfield, ?_⟩))
    have hne : field.1 ≠ inPortName := fun heq => h (heq ▸ List.mem_map_of_mem hfield)
    simpa using hne

/-- A rule for a VLAN id matches frames with this id. -/
lemma ForVlanId.vlanId_of_matches {vlanId : ℕ} (h : ForVlanId vlanId r)
    (hf : f.Matches port r.fields) : f.vlanId = some vlanId := by
  have hvalue := hf _ (List.mem_of_lookup_eq_some h.lookup)
  have hne : dlVlan ≠ inPortName := by decide
  rw [Frame.value, if_neg hne, if_pos rfl] at hvalue
  obtain ⟨id, hid, heq⟩ := Option.map_eq_some_iff.mp hvalue
  rw [hid, str_injective heq]

/-- To a frame of a sender without a tag no rules apply but those of chains of this sender whose
match fields it has. -/
lemma exists_of_applies_sender (w : Wiring net) (h : Tracks net s P) {senderHost : Str}
    (hsender : net.hostsThatSendPackets senderHost = some (dpid, port)) (htag : f.vlanId = none)
    (hr : Applies s.controller.rules dpid port f r) :
    ∃ key p, P key = some p ∧ p.senderHost = senderHost ∧ r.vlanId = p.vlanId ∧
      f.Matches port (getFullMatchFields p.fields) ∧ r ∈ p.chainRules net := by
  obtain ⟨hr, rfl, hmatches⟩ := hr
  obtain ⟨key, p, hp, -, hr, ⟨hvlan, -, port', hsender', hfields⟩ | hid⟩ := h.exists_rule hr
  · rw [hfields] at hmatches
    obtain ⟨rfl, hmatches⟩ := matches_withInPort (h.separated.plain key p hp).not_mem.2 hmatches
    have hhost := w.sender _ _ _ hsender
    rw [w.sender _ _ _ hsender'] at hhost
    exact ⟨key, p, hp, Peer.host.inj (Option.some.inj hhost), hvlan, hmatches, hr⟩
  · rw [hid.vlanId_of_matches hmatches] at htag
    cases htag

/-- To a frame with the VLAN id of a chain no rules but its own apply where it is not entered from
a host. -/
lemma mem_own_of_applies (w : Wiring net) (h : Tracks net s P) (hp : P key = some p)
    (hport : ∀ host, w.cable dpid port ≠ some (.host host)) (htag : f.vlanId = some p.vlanId)
    (hr : Applies s.controller.rules dpid port f r) :
    r ∈ p.chainRules net ∧ ForVlanId p.vlanId r := by
  obtain ⟨hr, rfl, hmatches⟩ := hr
  obtain ⟨key', p', hp', -, hr, ⟨-, -, port', hsender, hfields⟩ | hid⟩ := h.exists_rule hr
  · rw [hfields] at hmatches
    obtain ⟨rfl, -⟩ := matches_withInPort (h.separated.plain key' p' hp').not_mem.2 hmatches
    exact absurd (w.sender _ _ _ hsender) (hport _)
  · have heq := hid.vlanId_of_matches hmatches
    rw [htag, Option.some.injEq] at heq
    obtain rfl := h.separated.distinct key key' p p' hp hp' heq
    obtain rfl := Option.some.inj (hp.symm.trans hp')
    exact ⟨hr, hid⟩

/-- The rules of an installed policy may be added once more. -/
lemma Tracks.mem_added (h : Tracks net s P) (hp : P key = some p) (hon : p.installed = true) :
    r ∈ ((p.chainRules net).map .add).foldl Post.apply s.controller.rules ↔
      r ∈ s.controller.rules := by
  have hown : r ∈ p.rules net ↔ ∃ before after, p.chainRules net = before ++ r :: after ∧
      ∀ q ∈ after, ¬ SameMatch r q := mem_installedRules
  rw [mem_foldl_apply_adds, ← hown]
  constructor
  · rintro (⟨hr, -⟩ | hr)
    · exact hr
    · exact (h.tables r).mpr ⟨key, p, hp, hon, hr⟩
  · intro hr
    obtain ⟨k, q, hq, -, hrq⟩ := (h.tables r).mp hr
    rcases eq_or_ne k key with rfl | hne
    · obtain rfl := Option.some.inj (hp.symm.trans hq)
      exact .inr hrq
    · refine .inl ⟨hr, fun r' hr' => ?_⟩
      exact not_sameMatch_of_apart (h.separated.apart k key q p hq hp hne)
        (h.separated.plain k q hq) (h.separated.plain key p hp)
        (fun hvlan => hne (h.separated.distinct k key q p hq hp hvlan))
        (Policy.rule_cases (Policy.mem_chainRules hrq)) (Policy.rule_cases hr')

/-- **The frames of a policy.**  They go through its middleboxes in order, exactly if its way enters
no switch twice by one port, and sends no frame back. -/
lemma Tracks.followed_iff (w : Wiring net) (h : Tracks net s P) (hp : P key = some p)
    (hon : p.installed = true) (hinstallable : installable net p.senderHost (commas p.mbs) = true)
    (hlength : 2 ≤ p.mbs.length)
    (hsender : net.hostsThatSendPackets p.senderHost = some (dpid, port)) (htag : f.vlanId = none)
    (hf : f.Matches port (getFullMatchFields p.fields))
    (hothers : ∀ key' p', P key' = some p' → (∃ r ∈ s.controller.rules, r.vlanId = p'.vlanId) →
      key' ≠ key → p'.senderHost = p.senderHost →
        ¬ f.Matches port (getFullMatchFields p'.fields)) :
    Traverses w.cable s.controller.rules (p.chainRules net) p.mbs (.switch dpid port f) ↔
      ((chainStops net p.senderHost (commas p.mbs)).tail.map Stop.key).Nodup ∧
        ∀ x ∈ (chainStops net p.senderHost (commas p.mbs)).tail, x.hop.inPort ≠ x.hop.outPort := by
  have hsplit := h.mbs key p hp
  rw [← hsplit] at hlength
  obtain ⟨x, y, stops, hway, hkey, hR, hS, hmbs, hown⟩ :=
    exists_way w hinstallable hlength hsender p.vlanId p.fields
  have hown : p.chainRules net = wayRules p.fields p.vlanId x (y :: stops) := hown
  have hsame : ∀ r, r ∈ ((p.chainRules net).map .add).foldl Post.apply s.controller.rules ↔
      r ∈ s.controller.rules := fun r => h.mem_added hp hon
  have htable : Traverses w.cable s.controller.rules (p.chainRules net) p.mbs
        (.switch dpid port f) ↔
      Traverses w.cable (((p.chainRules net).map .add).foldl Post.apply s.controller.rules)
        (p.chainRules net) (middleboxes (x :: y :: stops)) (.switch dpid port f) := by
    rw [hmbs, hsplit]
    exact ⟨.congr fun r => (hsame r).symm, .congr hsame⟩
  have happlies : ∀ dpid port f r,
      Applies (((p.chainRules net).map .add).foldl Post.apply s.controller.rules) dpid port f r ↔
        Applies s.controller.rules dpid port f r := fun _ _ _ r => and_congr_left' (hsame r)
  have hfirst : ∀ r, Applies s.controller.rules dpid port f r → r ∈ p.chainRules net := by
    intro r hr
    obtain ⟨k, q, hq, hqsender, hvlan, hqf, hrq⟩ := exists_of_applies_sender w h hsender htag hr
    by_cases hne : k = key
    · subst hne
      rwa [Option.some.inj (hp.symm.trans hq)]
    · exact absurd hqf (hothers k q hq ⟨r, hr.1, hvlan⟩ hne hqsender)
  have hstop : ∀ z ∈ y :: stops,
      Passable (((p.chainRules net).map .add).foldl Post.apply s.controller.rules)
        (p.chainRules net) { f with vlanId := some p.vlanId } z ↔
      z.hop.inPort ≠ z.hop.outPort := by
    intro z hz
    refine and_iff_left fun inPort hin r hr => ?_
    obtain ⟨inPort', hin', hhost⟩ := entered_of_route hR z hz
    obtain rfl := Option.some.inj (hin.symm.trans hin')
    exact (mem_own_of_applies w h hp hhost rfl ((happlies _ _ _ r).mp hr)).1
  rw [htable, traverses_sender_iff hR hS hkey (w.sender _ _ _ hsender) hf hown rfl,
    forall₂_congr hstop, hway]
  exact and_iff_right fun r hr => hfirst r ((happlies _ _ _ r).mp hr)

end

/-! ### The property -/

/-- There are rules of a chain. -/
def Live (s : TsaBE) (d : ChainData) : Prop := ∃ r ∈ s.controller.rules, r.vlanId = d.vlanId

/-- The way of a chain enters no switch twice by one port, after the first one, and sends no frame
back by the port by which it has come. -/
structure Clearway (net : Topology) (senderHost policyChain : Str) : Prop where
  nodup : ((chainStops net senderHost policyChain).tail.map Stop.key).Nodup
  onward : ∀ x ∈ (chainStops net senderHost policyChain).tail, x.hop.inPort ≠ x.hop.outPort

/-- **Frames.**  After every run of tidy commands, the frames without a tag that a sender sends and
that have the match fields of one of its live chains, and of no other one, go through the
middleboxes of this chain in order, led by its rules, exactly if its way is clear.  The chain has at
least two middleboxes and can be installed, and its VLAN id is taken as it is posted, also beyond 12
bits. -/
theorem steered_iff {net : Topology} (w : Wiring net) {es : List Event} {s : TsaBE}
    (hrun : Run (When (Tidy net) (Step net)) (TsaBE.new []) es s) {key : Str} {d : ChainData}
    (hd : s.policyChainKeyToData key = some d) {fields : List Field}
    (hfields : getMatchFieldsFromKey key = some fields) (hlive : Live s d)
    (hinstallable : installable net (senderOf d.fullFlow) d.policyChain = true)
    (hlength : 2 ≤ d.mbs.length) {dpid : Dpid} {port : Port}
    (hsender : net.hostsThatSendPackets (senderOf d.fullFlow) = some (dpid, port)) {f : Frame}
    (htag : f.vlanId = none) (hf : f.Matches port (getFullMatchFields fields))
    (hothers : ∀ key' d' fields', key' ≠ key → s.policyChainKeyToData key' = some d' →
      getMatchFieldsFromKey key' = some fields' → Live s d' →
        senderOf d'.fullFlow = senderOf d.fullFlow →
          ¬ f.Matches port (getFullMatchFields fields')) :
    Traverses w.cable s.controller.rules
        (chainRules net d.mbs d.vlanId fields (senderOf d.fullFlow)) d.mbs (.switch dpid port f) ↔
      Clearway net (senderOf d.fullFlow) d.policyChain := by
  obtain ⟨P, -, htracks⟩ := exists_tracks_of_run hrun
  obtain ⟨p, hp, hmbs, rfl⟩ := htracks.exists_policy hd
  obtain rfl : fields = p.fields :=
    Option.some.inj (hfields.symm.trans (htracks.reads key p hp).fields)
  have hon : p.installed = true := by
    obtain ⟨r, hr, hvlan⟩ := hlive
    obtain ⟨k, q, hq, hon, -, ⟨hid, -⟩ | ⟨hid, -⟩⟩ := htracks.exists_rule hr <;>
    · obtain rfl := htracks.separated.distinct key k p q hp hq (hvlan.symm.trans hid)
      rwa [Option.some.inj (hp.symm.trans hq)]
  rw [hmbs] at hlength ⊢
  have htraverses := htracks.followed_iff w hp hon hinstallable hlength hsender htag hf
    fun k q hq hlive hne hqsender => hothers k _ _ hne (htracks.data k q hq)
      (htracks.reads k q hq).fields hlive hqsender
  exact htraverses.trans ⟨fun h => ⟨h.1, h.2⟩, fun h => ⟨h.nodup, h.onward⟩⟩

/-- Only one chain has data after the failover. -/
lemma key_of_failover {key : Str}
    (h : (exec twoSwitches oneChain failover).2.policyChainKeyToData key ≠ none) :
    key = "h1$m1,m2$tp_dst:80".toList := by
  by_contra hne
  have hresult : (oneChain.begin failover).doHandleReplacingMasterMB twoSwitches "m1".toList
      "m3".toList failover.keys = (some ⟨true, "Master mb was replaced successfully.".toList⟩,
        (exec twoSwitches oneChain failover).2) := rfl
  have hsame := (rewrites_of_success inOrder_failover hresult rfl).same key
    fun d hd => absurd (data_oneChain hd).1 hne
  have hnone : oneChain.policyChainKeyToData key = none := by
    by_contra hsome
    obtain ⟨d, hd⟩ := Option.ne_none_iff_exists'.mp hsome
    exact hne (data_oneChain hd).1
  exact h (hsame.trans hnone)

theorem steered_iff_failover :
    Traverses twoSwitchesWiring.cable (exec twoSwitches oneChain failover).2.controller.rules
      (chainRules twoSwitches ["m3".toList, "m2".toList] 1 [("tp_dst".toList, "80".toList)]
        "h1".toList) ["m3".toList, "m2".toList] (.switch 1 2 webFrame) := by
  have hd : (exec twoSwitches oneChain failover).2.policyChainKeyToData
      "h1$m1,m2$tp_dst:80".toList = some ⟨"m3,m2".toList, 1, [.name "h1".toList, .switch 1,
        .switch 2, .name "m3".toList, .switch 2, .switch 1]⟩ := rfl
  have hpush : (⟨1, .push, 1, ruleMatch .push [("tp_dst".toList, "80".toList)] 1 (some 2), 1⟩ :
      Rule) ∈ (exec twoSwitches oneChain failover).2.controller.rules := by decide +kernel
  have hclear : Clearway twoSwitches "h1".toList "m3,m2".toList :=
    ⟨by decide +kernel, by decide +kernel⟩
  exact (steered_iff twoSwitchesWiring run_failover hd rfl ⟨_, hpush, rfl⟩ rfl (by decide) rfl rfl
    (by decide) fun key' d' fields' hne hd' =>
      absurd (key_of_failover (by simp [hd'])) hne).mpr hclear

end FtThesis.Tsa
