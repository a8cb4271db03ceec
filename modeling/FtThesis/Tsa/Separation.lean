/-
When the rules of two chains can be told apart.

* `Plain`: match fields that name neither the VLAN id nor the port;
* `Apart`: the match fields of two senders at one switch do not include each other;
* `chainPlan_cases`, `rule_cases`: the rules of a chain, by their kinds;
* `not_sameMatch_of_apart`: the rules of two chains that are apart do not replace each other;
* `exists_reaches`, `not_reaches_of_apart`: the requests by which a chain is uninstalled reach all
  its rules, and no rule of a chain that is apart from it.
-/
import FtThesis.Tsa.Removal
import FtThesis.Tsa.Replacement
import FtThesis.Tsa.Ways

namespace FtThesis.Tsa

open TsaBE

/-! ### Match fields -/

/-- Match fields that name neither the VLAN id nor the port, of which there are some. -/
structure Plain (fields : List Field) : Prop where
  ne_nil : fields ≠ []
  name : ∀ field ∈ fields, field.1 ≠ dlVlan ∧ field.1 ≠ inPortName

section

variable {m m' : Match} {name value : Str} {fields : List Field}

lemma lookup_set_of_ne {x : Str} (h : x ≠ name) : (m.set name value).lookup x = m.lookup x := by
  rw [Match.set, List.lookup_cons, beq_false_of_ne h]
  induction m with
  | nil => rfl
  | cons field m ih =>
      rw [List.filter_cons]
      by_cases hname : field.1 = name
      · have hx : (x == field.1) = false := beq_false_of_ne (hname ▸ h)
        rw [if_neg (by simpa using hname), List.lookup_cons, hx]
        exact ih
      · rw [if_pos (by simpa using hname), List.lookup_cons, List.lookup_cons]
        simp only at ih ⊢
        rw [ih]

lemma mem_names_set {x : Str} : x ∈ (m.set name value).map Prod.fst ↔
    x = name ∨ x ∈ m.map Prod.fst := by
  simp only [Match.set, List.map_cons, List.mem_cons, List.mem_map, List.mem_filter]
  by_cases hx : x = name
  · simp [hx]
  · simp only [hx, false_or]
    constructor
    · rintro ⟨field, ⟨hfield, -⟩, rfl⟩
      exact ⟨field, hfield, rfl⟩
    · rintro ⟨field, hfield, rfl⟩
      exact ⟨field, ⟨hfield, by simpa using hx⟩, rfl⟩

/-- The names of a full match: those of the match fields, and those of two more fields. -/
lemma names_getFullMatchFields (fields : List Field) :
    (∀ field ∈ fields, field.1 ∈ (getFullMatchFields fields).map Prod.fst) ∧
      ∀ x ∈ (getFullMatchFields fields).map Prod.fst, x ∈ fields.map Prod.fst ∨
        x = "nw_proto".toList ∨ x = "dl_type".toList := by
  induction fields using List.reverseRecOn with
  | nil => exact ⟨nofun, nofun⟩
  | append_singleton fields field ih =>
      obtain ⟨hall, hnames⟩ := ih
      rw [getFullMatchFields, List.foldl_append, ← getFullMatchFields, List.foldl_cons,
        List.foldl_nil]
      generalize getFullMatchFields fields = m at hall hnames
      have hkept : ∀ name value x, x ∈ m.map Prod.fst ∨ x = field.1 →
          x ∈ ((m.set field.1 field.2).set name value).map Prod.fst := fun _ _ x hx =>
        mem_names_set.mpr (.inr (mem_names_set.mpr hx.symm))
      refine ⟨fun field' hfield' => ?_, fun x hx => ?_⟩
      · have hmem : field'.1 ∈ m.map Prod.fst ∨ field'.1 = field.1 := by
          rcases List.mem_append.mp hfield' with h | h
          · exact .inl (hall field' h)
          · exact .inr (by rw [List.mem_singleton.mp h])
        simp only
        split_ifs
        · exact mem_names_set.mpr (.inr (hkept _ _ _ hmem))
        · exact hkept _ _ _ hmem
        · exact mem_names_set.mpr hmem.symm
      · rw [List.map_append, List.mem_append, List.map_singleton, List.mem_singleton]
        have hold : x ∈ (m.set field.1 field.2).map Prod.fst →
            (x ∈ fields.map Prod.fst ∨ x = field.1) ∨
              x = "nw_proto".toList ∨ x = "dl_type".toList := by
          intro h
          rcases mem_names_set.mp h with h | h
          · exact .inl (.inr h)
          · exact (hnames x h).imp_left .inl
        simp only at hx
        split_ifs at hx
        · rcases mem_names_set.mp hx with h | h
          · exact .inr (.inr h)
          · rcases mem_names_set.mp h with h | h
            · exact .inr (.inl h)
            · exact hold h
        · rcases mem_names_set.mp hx with h | h
          · exact .inr (.inr h)
          · exact hold h
        · exact hold hx

/-- Plain match fields ask neither for a VLAN id nor for a port. -/
lemma Plain.not_mem (h : Plain fields) :
    dlVlan ∉ (getFullMatchFields fields).map Prod.fst ∧
      inPortName ∉ (getFullMatchFields fields).map Prod.fst := by
  have hnot : ∀ x : Str, (∀ field ∈ fields, field.1 ≠ x) → x ≠ "nw_proto".toList →
      x ≠ "dl_type".toList → x ∉ (getFullMatchFields fields).map Prod.fst := by
    intro x hx hproto htype hmem
    rcases (names_getFullMatchFields fields).2 x hmem with h | h | h
    · obtain ⟨field, hfield, rfl⟩ := List.mem_map.mp h
      exact hx field hfield rfl
    · exact hproto h
    · exact htype h
  exact ⟨hnot _ (fun field hfield => (h.name field hfield).1) (by decide) (by decide),
    hnot _ (fun field hfield => (h.name field hfield).2) (by decide) (by decide)⟩

/-- There is something that plain match fields ask for. -/
lemma Plain.exists_mem (h : Plain fields) : ∃ field ∈ getFullMatchFields fields,
    field.1 ≠ dlVlan ∧ field.1 ≠ inPortName := by
  obtain ⟨field, hfield⟩ := List.exists_mem_of_ne_nil _ h.ne_nil
  obtain ⟨field', hfield', hname⟩ :=
    List.mem_map.mp ((names_getFullMatchFields fields).1 field hfield)
  exact ⟨field', hfield', hname ▸ h.name field hfield⟩

lemma lookup_eq_none_of_not_mem (h : name ∉ m.map Prod.fst) : m.lookup name = none := by
  rw [List.lookup_eq_none_iff]
  intro field hfield
  have hne : name ≠ field.1 := fun heq => h (heq ▸ List.mem_map_of_mem hfield)
  simpa using hne

/-- The port in a match does not matter to one that does not ask for a port. -/
lemma covers_withInPort (h : inPortName ∉ m.map Prod.fst) (inPort : Option Port) :
    covers m (m'.withInPort inPort) = covers m m' := by
  cases inPort with
  | none => rfl
  | some p =>
      rw [covers, covers, Bool.eq_iff_iff, List.all_eq_true, List.all_eq_true]
      refine forall₂_congr fun field hfield => ?_
      have hne : field.1 ≠ inPortName := fun heq => h (heq ▸ List.mem_map_of_mem hfield)
      rw [Match.withInPort, lookup_set_of_ne hne]

/-- What a match with a port asks for besides, a match without it asks for. -/
lemma covers_of_covers_withInPort (h : inPortName ∉ m.map Prod.fst) {p : Port}
    (hcovers : covers (m.withInPort (some p)) m' = true) : covers m m' = true := by
  rw [covers, List.all_eq_true] at hcovers ⊢
  intro field hfield
  refine hcovers field (List.mem_cons_of_mem _ (List.mem_filter.mpr ⟨hfield, ?_⟩))
  have hne : field.1 ≠ inPortName := fun heq => h (heq ▸ List.mem_map_of_mem hfield)
  simpa using hne

end

/-! ### The rules of a chain -/

section

variable {net : Topology} {policyChain senderHost : Str} {vlanId : ℕ} {fields : List Field}

/-- A rule that does not set the VLAN id, by what it matches. -/
def ForVlanId (vlanId : ℕ) (r : Rule) : Prop :=
  r.vlanId = vlanId ∧ ∃ inPort, r.kind ≠ .push ∧ r.fields = ruleMatch r.kind [] vlanId inPort

/-- The rule of the sender's switch. -/
def AtHost (net : Topology) (senderHost : Str) (vlanId : ℕ) (fields : List Field) (r : Rule) :
    Prop :=
  r.vlanId = vlanId ∧ r.kind = .push ∧ ∃ port,
    net.hostsThatSendPackets senderHost = some (r.dpid, port) ∧
      r.fields = (getFullMatchFields fields).withInPort (some port)

lemma forVlanId_of_mem_ruleEntry {kind : RuleKind} (hkind : kind ≠ .push) {hop : Hop} {r : Rule}
    (h : .rule r ∈ ruleEntry kind vlanId [] hop) : ForVlanId vlanId r := by
  obtain ⟨outPort, -, heq⟩ := mem_ruleEntry h
  cases heq
  exact ⟨rfl, hop.inPort, hkind, rfl⟩

/-- The way to the first middlebox begins with the rule of the sender's switch, if there is a
way. -/
lemma firstLegPlan_cases (mbName : Str) :
    firstLegPlan net mbName vlanId senderHost fields = ([], false) ∨
      ∃ r es, AtHost net senderHost vlanId fields r ∧
        firstLegPlan net mbName vlanId senderHost fields = (.rule r :: es, true) ∧
        ∀ q, .rule q ∈ es → ForVlanId vlanId q := by
  rw [firstLegPlan]
  rcases hsender : net.hostsThatSendPackets senderHost with _ | ⟨src, srcPort⟩
  · exact .inl rfl
  · rcases net.middleboxToSwitchMapping mbName with _ | ⟨dst, dstPort⟩
    · exact .inl rfl
    · cases hpath : pathBetween net.graph src dst with
      | none => exact .inl (by simp [hpath])
      | some path =>
          right
          simp only [hpath]
          have hp := isPath_of_pathBetween hpath
          obtain ⟨outPort, hs, hhops⟩ : ∃ outPort hs, hops net.graph path (some srcPort) dstPort =
              ⟨src, some srcPort, some outPort⟩ :: hs := by
            have hhead := hp.head
            have hadj := hp.adj
            rcases path with _ | ⟨dpid, _ | ⟨dpid', path⟩⟩
            · cases hhead
            · obtain rfl : dpid = src := Option.some.inj hhead
              exact ⟨dstPort, [], rfl⟩
            · obtain rfl : dpid = src := Option.some.inj hhead
              obtain ⟨outPort, hport⟩ := exists_portTo (List.isChain_cons_cons.mp hadj).1
              exact ⟨outPort, _, by rw [hops, hport]⟩
          rw [hhops]
          refine ⟨⟨src, .push, vlanId, _, outPort⟩, _, ⟨rfl, rfl, srcPort, hsender, rfl⟩, rfl,
            fun q hq => ?_⟩
          obtain ⟨hop, -, hq⟩ := List.mem_flatMap.mp hq
          exact forVlanId_of_mem_ruleEntry (by decide) hq

/-- A chain has no rules, or the first of them is that of the sender's switch. -/
lemma chainPlan_cases (policyChain senderHost : Str) (vlanId : ℕ) (fields : List Field) :
    (chainPlan net policyChain vlanId fields senderHost).1 = [] ∨
      ∃ r es, AtHost net senderHost vlanId fields r ∧
        (chainPlan net policyChain vlanId fields senderHost).1 = .rule r :: es ∧
        ∀ q, .rule q ∈ es → ForVlanId vlanId q := by
  have hlegs : ∀ q, .rule q ∈ (legsPlan net vlanId (policyChain.splitOn ',')).1 →
      ForVlanId vlanId q := fun q hq =>
    forall_legsPlan (P := fun e => ∀ r, e = .rule r → ForVlanId vlanId r) nofun
      (fun kind hop hkind e he r hr => forVlanId_of_mem_ruleEntry hkind (hr ▸ he)) _ _ hq q rfl
  rw [chainPlan]
  rcases @firstLegPlan_cases net senderHost vlanId fields ((policyChain.splitOn ',').headD []) with
    hnone | ⟨r, es, hr, hplan, hes⟩
  · rw [hnone]
    exact .inl rfl
  · rw [hplan]
    refine .inr ⟨r, es ++ (legsPlan net vlanId (policyChain.splitOn ',')).1, hr, rfl,
      fun q hq => ?_⟩
    exact (List.mem_append.mp hq).elim (hes q) (hlegs q)

/-- The rules of a chain by what they match. -/
lemma rule_cases {r : Rule}
    (h : .rule r ∈ (chainPlan net policyChain vlanId fields senderHost).1) :
    AtHost net senderHost vlanId fields r ∨ ForVlanId vlanId r := by
  rcases @chainPlan_cases net policyChain senderHost vlanId fields with
    hnil | ⟨q, es, hq, hplan, hes⟩
  · rw [hnil] at h
    cases h
  · rw [hplan] at h
    rcases List.mem_cons.mp h with heq | h
    · cases heq
      exact .inl hq
    · exact .inr (hes r h)

end

/-! ### Chains that are apart -/

/-- The match fields of two senders at one switch do not include each other. -/
def Apart (net : Topology) (senderHost : Str) (fields : List Field) (senderHost' : Str)
    (fields' : List Field) : Prop :=
  ∀ dpid port port', net.hostsThatSendPackets senderHost = some (dpid, port) →
    net.hostsThatSendPackets senderHost' = some (dpid, port') →
      covers (getFullMatchFields fields) (getFullMatchFields fields') = false ∧
        covers (getFullMatchFields fields') (getFullMatchFields fields) = false

lemma Apart.symm {net : Topology} {senderHost senderHost' : Str} {fields fields' : List Field}
    (h : Apart net senderHost fields senderHost' fields') :
    Apart net senderHost' fields' senderHost fields :=
  fun dpid port port' hsender hsender' => (h dpid port' port hsender' hsender).symm

section

variable {net : Topology} {senderHost senderHost' : Str} {vlanId vlanId' : ℕ}
  {fields fields' : List Field} {r q : Rule}

lemma ForVlanId.lookup (h : ForVlanId vlanId r) : r.fields.lookup dlVlan = some (str vlanId) := by
  obtain ⟨-, inPort, hkind, hfields⟩ := h
  rw [hfields]
  exact lookup_ruleMatch hkind inPort

/-- A rule for a VLAN id matches nothing but this, and a port. -/
lemma ForVlanId.names (h : ForVlanId vlanId r) {x : Str} (hvlan : x ≠ dlVlan)
    (hport : x ≠ inPortName) : r.fields.lookup x = none := by
  obtain ⟨-, inPort, hkind, hfields⟩ := h
  have hempty : ([] : Match).lookup x = none := rfl
  rw [hfields]
  cases hk : r.kind with
  | push => exact absurd hk hkind
  | forward =>
      cases inPort with
      | none => rw [ruleMatch, Match.withInPort, vlanMatch, List.lookup_cons, beq_false_of_ne hvlan]
                exact hempty
      | some p =>
          rw [ruleMatch, Match.withInPort, lookup_set_of_ne hport, vlanMatch, List.lookup_cons,
            beq_false_of_ne hvlan]
          exact hempty
  | pop =>
      rw [ruleMatch, lookup_set_of_ne hvlan, List.lookup_cons, beq_false_of_ne hport]
      exact hempty

/-- The rule of a sender's switch with plain match fields matches no VLAN id. -/
lemma AtHost.lookup (h : AtHost net senderHost vlanId fields r) (hplain : Plain fields) :
    r.fields.lookup dlVlan = none := by
  obtain ⟨-, -, port, -, hfields⟩ := h
  rw [hfields, Match.withInPort, lookup_set_of_ne (by decide)]
  exact lookup_eq_none_of_not_mem hplain.not_mem.1

/-- Plain match fields ask for more than a rule for a VLAN id. -/
lemma ForVlanId.not_covers (h : ForVlanId vlanId r) (hplain : Plain fields) {m : Match}
    (hm : ∀ field ∈ getFullMatchFields fields, field.1 ≠ inPortName → field ∈ m) :
    covers m r.fields = false := by
  obtain ⟨field, hfield, hvlan, hport⟩ := hplain.exists_mem
  rw [covers, List.all_eq_false]
  refine ⟨field, hm field hfield hport, ?_⟩
  rw [h.names hvlan hport]
  simp

/-- **Rules that are apart.**  The rules of two chains with plain match fields and different VLAN
ids do not replace each other, if their senders are apart. -/
lemma not_sameMatch_of_apart (hapart : Apart net senderHost fields senderHost' fields')
    (hplain : Plain fields) (hplain' : Plain fields') (hvlan : vlanId ≠ vlanId')
    (hr : AtHost net senderHost vlanId fields r ∨ ForVlanId vlanId r)
    (hq : AtHost net senderHost' vlanId' fields' q ∨ ForVlanId vlanId' q) : ¬ SameMatch r q := by
  have hport : ∀ {fields : List Field} (p : Port), ∀ field ∈ getFullMatchFields fields,
      field.1 ≠ inPortName → field ∈ (getFullMatchFields fields).withInPort (some p) :=
    fun p field hfield hne => List.mem_cons_of_mem _ (List.mem_filter.mpr ⟨hfield, by simpa⟩)
  rintro ⟨hdpid, hcovers, hcovers'⟩
  rcases hr with hr | hr <;> rcases hq with hq | hq
  · obtain ⟨-, -, port, hsender, hfields⟩ := hr
    obtain ⟨-, -, port', hsender', hfields'⟩ := hq
    rw [← hdpid] at hsender'
    rw [hfields, hfields'] at hcovers
    have hfull := covers_of_covers_withInPort hplain.not_mem.2 hcovers
    rw [covers_withInPort hplain.not_mem.2, (hapart _ _ _ hsender hsender').1] at hfull
    cases hfull
  · obtain ⟨-, -, port, -, hfields⟩ := hr
    rw [hfields, hq.not_covers hplain (hport port)] at hcovers
    cases hcovers
  · obtain ⟨-, -, port, -, hfields⟩ := hq
    rw [hfields, hr.not_covers hplain' (hport port)] at hcovers'
    cases hcovers'
  · -- two rules for VLAN ids
    obtain ⟨-, inPort, hkind, hfields⟩ := hr
    have hmem : (dlVlan, str vlanId) ∈ r.fields := by
      have hlookup : (ruleMatch r.kind [] vlanId inPort).lookup dlVlan = some (str vlanId) :=
        lookup_ruleMatch hkind inPort
      rw [← hfields] at hlookup
      exact List.mem_of_lookup_eq_some hlookup
    rw [covers, List.all_eq_true] at hcovers
    have hid := of_decide_eq_true (hcovers _ hmem)
    rw [hq.lookup] at hid
    exact hvlan (str_injective (Option.some.inj hid)).symm

/-! ### Requests -/

variable {policyChain policyChain' : Str}

/-- The flow of a chain all of whose rules were accepted. -/
def flowOf (net : Topology) (policyChain : Str) (vlanId : ℕ) (fields : List Field)
    (senderHost : Str) : List FlowEntry :=
  .name senderHost :: (chainPlan net policyChain vlanId fields senderHost).1.map Entry.flowEntry

/-- A chain can be uninstalled. -/
lemma exists_posts_flowOf (policyChain senderHost : Str) (vlanId : ℕ) (fields : List Field) :
    ∃ posts, deletePosts net senderHost vlanId fields 0
      (flowOf net policyChain vlanId fields senderHost) = some posts := by
  cases hsender : net.hostsThatSendPackets senderHost with
  | none => exact ⟨[], by rw [flowOf, chainPlan_of_sender_eq_none hsender]; rfl⟩
  | some sender => exact exists_deletePosts (by rw [hsender]; rfl) _ _ _ _

variable {posts : List Post}

/-- The requests by which a chain is uninstalled reach all its rules. -/
lemma exists_reaches (hplain : Plain fields)
    (hposts : deletePosts net senderHost vlanId fields 0
      (flowOf net policyChain vlanId fields senderHost) = some posts)
    (hr : .rule r ∈ (chainPlan net policyChain vlanId fields senderHost).1) :
    ∃ p ∈ posts, p.Reaches r := by
  have hmem := mem_deletePosts hposts
  rcases @chainPlan_cases net policyChain senderHost vlanId fields with
    hnil | ⟨q, es, hq, hplan, hes⟩
  · rw [hnil] at hr
    cases hr
  · rw [hplan] at hr hmem
    rcases List.mem_cons.mp hr with heq | hr
    · cases heq
      obtain ⟨-, -, port, hsender, hfields⟩ := hq
      refine ⟨_, (hmem _).mpr (.inl ⟨⟨r.dpid, rfl⟩, _, hsender, rfl⟩), rfl, ?_⟩
      rw [hfields, covers_withInPort hplain.not_mem.2]
      exact covers_self (nodup_getFullMatchFields fields)
    · refine ⟨_, (hmem _).mpr (.inr ⟨r.dpid, List.mem_map_of_mem (f := Entry.flowEntry) hr, rfl⟩),
        rfl, ?_⟩
      rw [covers_vlanMatch]
      exact (hes r hr).lookup

/-- They reach no rule of a chain that is apart from it. -/
lemma not_reaches_of_apart (hapart : Apart net senderHost fields senderHost' fields')
    (hplain : Plain fields) (hplain' : Plain fields') (hvlan : vlanId ≠ vlanId')
    (hposts : deletePosts net senderHost vlanId fields 0
      (flowOf net policyChain vlanId fields senderHost) = some posts)
    (hr : AtHost net senderHost' vlanId' fields' r ∨ ForVlanId vlanId' r) :
    ∀ p ∈ posts, ¬ p.Reaches r := by
  intro p hp hreaches
  rcases (mem_deletePosts hposts p).mp hp with ⟨-, ⟨dpid, port⟩, hsender, rfl⟩ | ⟨dpid, -, rfl⟩
  · obtain ⟨hdpid, hcovers⟩ := hreaches
    rcases hr with ⟨-, -, port', hsender', hfields⟩ | hr
    · rw [hfields, covers_withInPort hplain.not_mem.2] at hcovers
      rw [hdpid] at hsender'
      rw [(hapart _ _ _ hsender hsender').1] at hcovers
      cases hcovers
    · rw [hr.not_covers hplain fun field hfield _ => hfield] at hcovers
      cases hcovers
  · obtain ⟨-, hcovers⟩ := hreaches
    rw [covers_vlanMatch] at hcovers
    rcases hr with hr | hr
    · rw [hr.lookup hplain'] at hcovers
      cases hcovers
    · rw [hr.lookup, Option.some.injEq] at hcovers
      exact hvlan (str_injective hcovers).symm

end

end FtThesis.Tsa
