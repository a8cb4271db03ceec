/-
Is the VLAN tag of a chain put on once and taken off once?

* `postedRules`: the rules that a command asks the controller to add;
* `TaggedOnce`: one of them sets the VLAN id at the sender's switch, one strips it on the way out to
  the last middlebox, and the others match it and only forward;
* `getLast?_hops`, `getLast?_stopsFrom`: a way ends at the switch and port of its middlebox;
* `filter_vlanRules`: on the way of a longer chain the last rule alone strips;
* `kind_ne_pop_of_singleton`: on the way to the only middlebox of a chain no rule strips;
* `taggedOnce_iff`: the tag is put on and taken off once exactly if there are two middleboxes;
* `not_taggedOnce`: a chain with one middlebox.
-/
import FtThesis.Tsa.Ways

namespace FtThesis.Tsa

open TsaBE

/-! ### The property -/

/-- The rules that are asked for in the requests of a command. -/
def postedRules (c : Controller) : List Rule :=
  c.posts.filterMap fun
    | (.add rule, _) => some rule
    | (.delete _ _, _) => none

/-- The rules of a chain put its tag on once and take it off once: one rule sets the VLAN id at the
sender's switch, for frames that enter there with the match fields; one rule strips it at the switch
of the last middlebox, with output to it; and the other ones match it and only forward. -/
structure TaggedOnce (net : Topology) (r : ChainRequest) (vlanId : ℕ) (rules : List Rule) :
    Prop where
  push : ∃ q dpid port, rules.filter (·.kind = .push) = [q] ∧ q.vlanId = vlanId ∧
    net.hostsThatSendPackets r.hostSender = some (dpid, port) ∧ q.dpid = dpid ∧
    q.fields = (getFullMatchFields r.matchFields).withInPort port
  pop : ∃ q mb dpid port, rules.filter (·.kind = .pop) = [q] ∧
    (r.policyChain.splitOn ',').getLast? = some mb ∧
    net.middleboxToSwitchMapping mb = some (dpid, port) ∧ q.dpid = dpid ∧ q.outPort = port
  vlan : ∀ q ∈ rules, q.kind ≠ .push → q.fields.lookup dlVlan = some (str vlanId)
  forward : ∀ q ∈ rules, q.kind ≠ .push → q.kind ≠ .pop → ∀ f, q.act f = f

/-! ### The ends of a way -/

section

variable {net : Topology}

lemma outPort_of_hops {g : Graph} {path : List Dpid} (h : path.IsChain g.Adj)
    (inPort : Option Port) (port : Port) :
    ∀ hop ∈ hops g path inPort port, hop.outPort ≠ none := by
  induction path generalizing inPort with
  | nil => exact nofun
  | cons dpid path ih =>
      cases path with
      | nil => simp [hops]
      | cons dpid' path =>
          obtain ⟨hadj, hchain⟩ := List.isChain_cons_cons.mp h
          obtain ⟨out, hout⟩ := exists_portTo hadj
          rw [hops]
          exact List.forall_mem_cons.mpr ⟨by simp [hout], ih hchain _⟩

/-- The last hop leads out of the last switch. -/
lemma getLast?_hops {g : Graph} {path : List Dpid} {dpid : Dpid}
    (h : path.getLast? = some dpid) (inPort : Option Port) (port : Port) :
    ∃ inPort', (hops g path inPort port).getLast? = some ⟨dpid, inPort', some port⟩ := by
  induction path generalizing inPort with
  | nil => cases h
  | cons d path ih =>
      cases path with
      | nil =>
          obtain rfl : d = dpid := by simpa using h
          exact ⟨inPort, rfl⟩
      | cons d' path =>
          obtain ⟨inPort', hlast⟩ := ih (by simpa using h) (portTo g d' d)
          refine ⟨inPort', ?_⟩
          have hne : hops g (d' :: path) (portTo g d' d) port ≠ [] := by
            intro hnil
            simp [hnil] at hlast
          rw [hops, List.getLast?_cons_of_ne_nil hne, hlast]

lemma outPort_of_stopsFrom {mbs : List Str} {sender : Dpid × Port}
    (h : reaches net sender.1 mbs = true) :
    ∀ s ∈ stopsFrom net sender mbs, s.hop.outPort ≠ none := by
  induction mbs generalizing sender with
  | nil => exact nofun
  | cons mb mbs ih =>
      obtain ⟨dpid, port, path, hop, hs, -, hpath, hhops, -, -, hrest, heq⟩ := stopsFrom_cons h
      rw [heq, List.forall_mem_append]
      refine ⟨fun s hs' => ?_, ih hrest⟩
      have hmem : s.hop ∈ hops net.graph path (some sender.2) port := by
        rw [hhops, ← map_hop_legStops mb (hop :: hs)]
        exact List.mem_map_of_mem hs'
      exact outPort_of_hops (isPath_of_pathBetween hpath).adj _ _ _ hmem

/-- The last stop leads to the last middlebox. -/
lemma getLast?_stopsFrom {mbs : List Str} {sender : Dpid × Port}
    (h : reaches net sender.1 mbs = true) {s : Stop}
    (hs : (stopsFrom net sender mbs).getLast? = some s) :
    ∃ mb dpid port, mbs.getLast? = some mb ∧
      net.middleboxToSwitchMapping mb = some (dpid, port) ∧
      s.hop.dpid = dpid ∧ s.hop.outPort = some port := by
  induction mbs generalizing sender with
  | nil => cases hs
  | cons mb mbs ih =>
      obtain ⟨dpid, port, path, hop, hops', hmb, hpath, hhops, -, -, hrest, heq⟩ :=
        stopsFrom_cons h
      rw [heq] at hs
      cases mbs with
      | nil =>
          rw [stopsFrom, List.append_nil] at hs
          obtain ⟨inPort', hlast⟩ :=
            getLast?_hops (g := net.graph) (isPath_of_pathBetween hpath).last (some sender.2) port
          have hmap : (legStops mb (hop :: hops')).getLast?.map Stop.hop =
              some ⟨dpid, inPort', some port⟩ := by
            rw [← List.getLast?_map, map_hop_legStops, ← hhops, hlast]
          rw [hs, Option.map_some, Option.some.injEq] at hmap
          exact ⟨mb, dpid, port, rfl, hmb, by rw [hmap], by rw [hmap]⟩
      | cons mb' mbs =>
          rw [List.getLast?_append_of_ne_nil _ (stopsFrom_ne_nil hrest (by simp))] at hs
          obtain ⟨mb'', dpid', port', hlast, hrest'⟩ := ih hrest hs
          exact ⟨mb'', dpid', port', by simpa using hlast, hrest'⟩

/-- The way of a chain with two middleboxes has a first and another last stop. -/
lemma exists_stops_concat {mbs : List Str} {sender : Dpid × Port}
    (h : reaches net sender.1 mbs = true) (hlength : 2 ≤ mbs.length) :
    ∃ s stops last, stopsFrom net sender mbs = s :: (stops ++ [last]) := by
  have hmbs := middleboxes_stopsFrom h
  rcases hway : stopsFrom net sender mbs with _ | ⟨s, stops⟩
  · rw [hway] at hmbs
    rw [← hmbs] at hlength
    cases hlength
  · rcases List.eq_nil_or_concat' stops with rfl | ⟨stops, last, rfl⟩
    · rw [hway, middleboxes_cons] at hmbs
      rw [← hmbs] at hlength
      cases hs : s.middlebox <;> simp [hs, middleboxes] at hlength
    · exact ⟨s, stops, last, rfl⟩

/-! ### The kinds of the rules -/

/-- On the way behind the sender's switch the last rule alone strips the VLAN id. -/
lemma filter_vlanRules (vlanId : ℕ) (stops : List Stop) (s : Stop) :
    (vlanRules vlanId (stops ++ [s])).filter (·.kind = .push) = [] ∧
      (vlanRules vlanId (stops ++ [s])).filter (·.kind = .pop) = [s.rule .pop vlanId] := by
  induction stops with
  | nil => exact ⟨rfl, rfl⟩
  | cons s' stops ih =>
      have hne : stops ++ [s] ≠ [] := by simp
      rw [List.cons_append, vlanRules_cons, kindBefore, if_neg hne]
      exact ih

lemma vlan_of_mem_vlanRules {vlanId : ℕ} {stops : List Stop} {q : Rule}
    (h : q ∈ vlanRules vlanId stops) : q.fields.lookup dlVlan = some (str vlanId) := by
  induction stops with
  | nil => cases h
  | cons s stops ih =>
      rw [vlanRules_cons] at h
      rcases List.mem_cons.mp h with rfl | h
      · exact lookup_ruleMatch (kindBefore_ne_push stops) _
      · exact ih h

/-- On the way to the only middlebox of a chain the VLAN id is not stripped. -/
lemma kind_ne_pop_of_singleton {policyChain mb : Str} (hchain : policyChain.splitOn ',' = [mb])
    {vlanId : ℕ} {fields : List Field} {senderHost : Str} {q : Rule}
    (hq : .rule q ∈ (chainPlan net policyChain vlanId fields senderHost).1) : q.kind ≠ .pop := by
  have hplan : .rule q ∈ (firstLegPlan net mb vlanId senderHost fields).1 := by
    rw [chainPlan, hchain] at hq
    rcases andThen_fst_subset hq with hq | hq
    · exact hq
    · cases hq
  have hkind : ∀ kind fields hop, kind ≠ .pop → .rule q ∈ ruleEntry kind vlanId fields hop →
      q.kind ≠ .pop := by
    intro kind fields hop hne he
    obtain ⟨outPort, -, heq⟩ := mem_ruleEntry he
    cases heq
    exact hne
  rcases @firstLegPlan_eq net vlanId fields mb senderHost with
    hnil | ⟨hop, rest, port, -, -, heq, hs, rfl⟩
  · rw [hnil] at hplan
    cases hplan
  · rw [heq] at hplan
    rcases List.mem_append.mp hplan with he | he
    · exact hkind .push fields hop (by decide) he
    · obtain ⟨hop', -, he⟩ := List.mem_flatMap.mp he
      exact hkind .forward [] hop' (by decide) he

lemma exists_reaches_of_installable {senderHost policyChain : Str}
    (h : installable net senderHost policyChain = true) :
    ∃ sender, net.hostsThatSendPackets senderHost = some sender ∧
      reaches net sender.1 (policyChain.splitOn ',') = true := by
  rw [installable] at h
  split at h
  · cases h
  next dpid port hsender => exact ⟨(dpid, port), hsender, h⟩

/-- The rules of a chain that can be installed have its tag put on once and taken off once, exactly
if the chain has two middleboxes. -/
lemma taggedOnce_rulesOf_iff {r : ChainRequest} (vlanId : ℕ)
    (h : installable net r.hostSender r.policyChain = true) :
    TaggedOnce net r vlanId
        (rulesOf (chainPlan net r.policyChain vlanId r.matchFields r.hostSender).1) ↔
      2 ≤ (r.policyChain.splitOn ',').length := by
  obtain ⟨sender, hsender, hreaches⟩ := exists_reaches_of_installable h
  constructor
  · intro htagged
    obtain ⟨q, -, -, -, hpop, -⟩ := htagged.pop
    have hq : q ∈ (rulesOf (chainPlan net r.policyChain vlanId r.matchFields
        r.hostSender).1).filter (·.kind = .pop) := by
      rw [hpop]
      exact List.mem_cons_self
    obtain ⟨hmem, hkind⟩ := List.mem_filter.mp hq
    by_contra hshort
    obtain ⟨mb, mbs, hsplit⟩ := List.exists_cons_of_ne_nil (List.splitOn_ne_nil ',' r.policyChain)
    obtain rfl : mbs = [] := List.eq_nil_of_length_eq_zero (by
      rw [hsplit, List.length_cons] at hshort
      omega)
    exact kind_ne_pop_of_singleton hsplit (mem_rulesOf.mp hmem) (of_decide_eq_true hkind)
  · intro hlength
    obtain ⟨x, stops, last, hway⟩ := exists_stops_concat hreaches hlength
    have hrules := rulesOf_chainPlan hsender hreaches hlength hway
      (hway ▸ outPort_of_stopsFrom hreaches) vlanId r.matchFields
    obtain ⟨hdpid, hport⟩ := Prod.mk.inj (key_of_stopsFrom hreaches hway)
    obtain ⟨mb, dpid, port, hmb, hswitch, hlast, hout⟩ :=
      getLast?_stopsFrom hreaches (s := last)
        (by rw [hway, ← List.cons_append, List.getLast?_concat])
    obtain ⟨hnoPush, hpop⟩ := filter_vlanRules vlanId stops last
    rw [hrules]
    refine ⟨⟨x.pushRule r.matchFields vlanId, sender.1, sender.2, ?_, rfl, hsender, hdpid, ?_⟩,
      ⟨last.rule .pop vlanId, mb, dpid, port, ?_, hmb, hswitch, hlast, by simp [Stop.rule, hout]⟩,
      fun q hq hkind => ?_, fun q hq hkind hkind' f => ?_⟩
    · rw [List.filter_cons_of_pos rfl, hnoPush]
    · exact congrArg (getFullMatchFields r.matchFields).withInPort hport
    · rw [List.filter_cons_of_neg (by simp [Stop.pushRule]), hpop]
    · rcases List.mem_cons.mp hq with rfl | hq
      · exact absurd rfl hkind
      · exact vlan_of_mem_vlanRules hq
    · rw [Rule.act]
      cases hkind'' : q.kind with
      | push => exact absurd hkind'' hkind
      | forward => rfl
      | pop => exact absurd hkind'' hkind'

end

/-! ### Adds -/

section

variable {net : Topology} {s : TsaBE} {e : Event}

lemma postedRules_of_adds {c : Controller} {rules : List Rule}
    (h : c.posts.map Prod.fst = rules.map .add) : postedRules c = rules := by
  obtain ⟨_, _, posts⟩ := c
  rw [postedRules]
  induction rules generalizing posts with
  | nil =>
      rw [List.map_eq_nil_iff.mp h]
      rfl
  | cons q rules ih =>
      obtain ⟨⟨p, ok⟩, posts, rfl, hp, hrest⟩ := List.map_eq_cons_iff.mp h
      obtain rfl : p = .add q := hp
      exact congrArg (q :: ·) (ih posts hrest)

/-- The rules that an add posts. -/
lemma postedRules_add {requestArgs : Str} (hcommand : e.command = .addPolicyChain requestArgs)
    {r : ChainRequest} (hr : requestOf requestArgs = some r) :
    postedRules (exec net s e).2.controller = rulesOf (s.requestPlan net r) := by
  obtain ⟨t, ht, -, -, -, hcontroller⟩ := handleAddPolicyCommand_eq net (s.begin e) hr
  have hexec : (exec net s e).2 = t := by
    rw [exec, hcommand]
    exact ht
  have hposts := urlopens_posts (c := (s.begin e).controller)
    ((rulesOf (s.requestPlan net r)).map .add)
  rw [hexec, hcontroller]
  exact postedRules_of_adds hposts

/-- **The tag of a chain.**  The rules that a successful add posts put the VLAN tag on once and take
it off once, exactly if the chain has at least two middleboxes. -/
theorem taggedOnce_iff {requestArgs : Str} (hcommand : e.command = .addPolicyChain requestArgs)
    {response : Response} (hresponse : (exec net s e).1 = some response)
    (hsuccess : response.success = true) :
    ∃ r, requestOf requestArgs = some r ∧
      (TaggedOnce net r s.nextVlanId (postedRules (exec net s e).2.controller) ↔
        2 ≤ (r.policyChain.splitOn ',').length) := by
  have hsuccess' : ((s.begin e).handleAddPolicyCommand net requestArgs).1.success = true := by
    rw [exec, hcommand] at hresponse
    obtain rfl := Option.some.inj hresponse
    exact hsuccess
  obtain ⟨r, hr, hinstallable⟩ := installable_of_success hsuccess'
  refine ⟨r, hr, ?_⟩
  rw [postedRules_add hcommand hr]
  exact taggedOnce_rulesOf_iff s.nextVlanId hinstallable

end

theorem taggedOnce_twoMiddleboxes : ∃ r, requestOf "h1,m1,m2 {tp_dst=80}".toList = some r ∧
    TaggedOnce twoSwitches r 1
      (postedRules (exec twoSwitches (TsaBE.new []) (firstAdd "h1,m1,m2")).2.controller) := by
  obtain ⟨r, hr, hiff⟩ := @taggedOnce_iff twoSwitches (TsaBE.new [])
    (firstAdd "h1,m1,m2") _ rfl _ rfl rfl
  refine ⟨r, hr, hiff.mpr ?_⟩
  have hlength : (requestOf "h1,m1,m2 {tp_dst=80}".toList).map
      (fun r => (r.policyChain.splitOn ',').length) = some 2 := rfl
  have hr' : requestOf "h1,m1,m2 {tp_dst=80}".toList = some r := hr
  rw [hr'] at hlength
  exact (Option.some.inj hlength).ge

/-- **The tag of a chain with one middlebox.**  It is not taken off. -/
theorem not_taggedOnce : ¬ ∀ (net : Topology) (s : TsaBE) (e : Event) (requestArgs : Str)
    (response : Response) (r : ChainRequest), net.graph.Connected →
      e.command = .addPolicyChain requestArgs → (exec net s e).1 = some response →
      response.success = true → requestOf requestArgs = some r →
      (∀ mb ∈ r.policyChain.splitOn ',', net.middleboxToSwitchMapping mb ≠ none) →
      TaggedOnce net r s.nextVlanId (postedRules (exec net s e).2.controller) := by
  intro hall
  have h := hall twoSwitches (TsaBE.new []) (firstAdd "h1,m1") _ _ _ connected_twoSwitches rfl rfl
    rfl rfl (by decide)
  obtain ⟨q, -, -, -, hpop, -⟩ := h.pop
  have hlength : ((postedRules (exec twoSwitches (TsaBE.new [])
      (firstAdd "h1,m1")).2.controller).filter (·.kind = .pop)).length = 1 :=
    congrArg List.length hpop
  exact absurd hlength (by decide +kernel)

end FtThesis.Tsa
