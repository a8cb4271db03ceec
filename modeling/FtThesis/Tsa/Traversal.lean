/-
Are the middleboxes of a chain traversed in order?

* `inPort_of_covers`, `inPort_of_matches`: rules for different ports are told apart;
* `Entered`: the stops after the first one are not entered from a host;
* `table_of_adds`: of the rules of a way the last one for each switch and port counts;
* `traverses_sender_iff`: when a frame of the sender follows the way of its chain;
* `Clear`: the way of a chain is clear;
* `traverses_iff`: a frame is led through the chain exactly if its way is clear;
* `not_traverses`: a chain of three middleboxes at two switches, which is not traversed.
-/
import FtThesis.Tsa.Ways

namespace FtThesis.Tsa

open Transition TsaBE

/-! ### Rules for a port -/

section

variable {kind kind' : RuleKind} {fields fields' : List Field} {vlanId vlanId' : ℕ} {p q : Port}

lemma inPort_mem_ruleMatch :
    (inPortName, str q) ∈ ruleMatch kind fields vlanId (some q) := by
  cases kind with
  | push | forward => exact List.mem_cons_self
  | pop => exact List.mem_cons_of_mem _ List.mem_cons_self

lemma lookup_inPort_ruleMatch :
    (ruleMatch kind fields vlanId (some q)).lookup inPortName = some (str q) := by
  cases kind <;> rfl

/-- Rules that ask for the same ask for one port. -/
lemma inPort_of_covers
    (h : covers (ruleMatch kind fields vlanId (some p))
      (ruleMatch kind' fields' vlanId' (some q)) = true) : p = q := by
  rw [covers, List.all_eq_true] at h
  have hlookup := of_decide_eq_true (h _ inPort_mem_ruleMatch)
  rw [lookup_inPort_ruleMatch] at hlookup
  exact str_injective (Option.some.inj hlookup).symm

/-- A rule matches only frames that enter by its port. -/
lemma inPort_of_matches {f : Frame} (h : f.Matches p (ruleMatch kind fields vlanId (some q))) :
    q = p := by
  have hvalue := h _ inPort_mem_ruleMatch
  rw [Frame.value, if_pos rfl] at hvalue
  exact str_injective (Option.some.inj hvalue).symm

/-- The fields of a rule for a VLAN id. -/
lemma mem_ruleMatch (hkind : kind ≠ .push) {field : Field}
    (h : field ∈ ruleMatch kind fields vlanId (some q)) :
    field = (inPortName, str q) ∨ field = (dlVlan, str vlanId) := by
  cases kind with
  | push => exact absurd rfl hkind
  | forward =>
      rcases List.mem_cons.mp h with h | h
      · exact .inl h
      · exact .inr (List.mem_singleton.mp (List.mem_of_mem_filter h))
  | pop =>
      rcases List.mem_cons.mp h with h | h
      · exact .inr h
      · exact .inl (List.mem_singleton.mp (List.mem_of_mem_filter h))

lemma covers_ruleMatch (hkind : kind ≠ .push) (hkind' : kind' ≠ .push) :
    covers (ruleMatch kind fields vlanId (some q)) (ruleMatch kind' fields' vlanId (some q)) =
      true := by
  rw [covers, List.all_eq_true]
  intro field hfield
  rw [decide_eq_true_eq]
  rcases mem_ruleMatch hkind hfield with rfl | rfl
  · exact lookup_inPort_ruleMatch
  · exact lookup_ruleMatch hkind' _

/-- A rule for a VLAN id matches the frames with this id that enter by its port. -/
lemma matches_ruleMatch (hkind : kind ≠ .push) {f : Frame} (hf : f.vlanId = some vlanId) :
    f.Matches q (ruleMatch kind fields vlanId (some q)) := by
  intro field hfield
  rcases mem_ruleMatch hkind hfield with rfl | rfl
  · rw [Frame.value, if_pos rfl]
  · have hne : dlVlan ≠ inPortName := by decide
    rw [Frame.value, if_neg hne, if_pos rfl, hf, Option.map_some]

/-- The rule of the sender's switch matches the frames that have the match fields. -/
lemma matches_push {f : Frame} (hf : f.Matches q (getFullMatchFields fields)) :
    f.Matches q (ruleMatch .push fields vlanId (some q)) := by
  intro field hfield
  rcases List.mem_cons.mp hfield with rfl | hfield
  · rw [Frame.value, if_pos rfl]
  · exact hf field (List.mem_of_mem_filter hfield)

lemma covers_push :
    covers (ruleMatch .push fields vlanId (some q)) (ruleMatch .push fields vlanId (some q)) =
      true :=
  covers_self (nodup_set (nodup_getFullMatchFields fields) _ _)

end

/-! ### The rules of a way -/

section

variable {vlanId : ℕ} {stops : List Stop}

/-- The rules that follow one of the rules of a way. -/
lemma vlanRules_eq_append {before after : List Rule} {r : Rule}
    (h : vlanRules vlanId stops = before ++ r :: after) :
    ∃ before' s after', stops = before' ++ s :: after' ∧
      r = s.rule (kindBefore after') vlanId ∧ after = vlanRules vlanId after' := by
  induction stops generalizing before with
  | nil => simp [vlanRules] at h
  | cons s stops ih =>
      rw [vlanRules_cons] at h
      cases before with
      | nil =>
          obtain ⟨rfl, rfl⟩ := List.cons.inj h
          exact ⟨[], s, stops, rfl, rfl, rfl⟩
      | cons r' before =>
          obtain ⟨before', s', after', rfl, hr, hafter⟩ := ih (List.cons.inj h).2
          exact ⟨s :: before', s', after', rfl, hr, hafter⟩

lemma vlanRules_append (vlanId : ℕ) (before after : List Stop) :
    ∃ rules, vlanRules vlanId (before ++ after) = rules ++ vlanRules vlanId after := by
  induction before with
  | nil => exact ⟨[], rfl⟩
  | cons s before ih =>
      obtain ⟨rules, hrules⟩ := ih
      exact ⟨_ :: rules, by rw [List.cons_append, vlanRules_cons, hrules]; rfl⟩

lemma exists_of_mem_vlanRules {r : Rule} (h : r ∈ vlanRules vlanId stops) :
    ∃ s ∈ stops, ∃ kind, kind ≠ .push ∧ r = s.rule kind vlanId := by
  obtain ⟨before, after, heq⟩ := List.append_of_mem h
  obtain ⟨before', s, after', rfl, hr, -⟩ := vlanRules_eq_append heq
  exact ⟨s, by simp, _, kindBefore_ne_push after', hr⟩

lemma exists_mem_vlanRules (vlanId : ℕ) {s : Stop} (h : s ∈ stops) :
    ∃ kind, kind ≠ .push ∧ s.rule kind vlanId ∈ vlanRules vlanId stops := by
  obtain ⟨before, after, rfl⟩ := List.append_of_mem h
  obtain ⟨rules, hrules⟩ := vlanRules_append vlanId before (s :: after)
  refine ⟨kindBefore after, kindBefore_ne_push after, ?_⟩
  rw [hrules, vlanRules_cons]
  simp

/-- Rules of two stops replace each other exactly if these are entered by the same port. -/
lemma sameMatch_rule_iff {s s' : Stop} (hs : s.hop.inPort ≠ none) (hs' : s'.hop.inPort ≠ none)
    {kind kind' : RuleKind} (hkind : kind ≠ .push) (hkind' : kind' ≠ .push) :
    SameMatch (s.rule kind vlanId) (s'.rule kind' vlanId) ↔ s.key = s'.key := by
  obtain ⟨p, hp⟩ := Option.ne_none_iff_exists'.mp hs
  obtain ⟨q, hq⟩ := Option.ne_none_iff_exists'.mp hs'
  simp only [SameMatch, Stop.rule, Stop.key, hp, hq, Prod.mk.injEq, Option.some.injEq]
  constructor
  · rintro ⟨hdpid, hcovers, -⟩
    exact ⟨hdpid, inPort_of_covers hcovers⟩
  · rintro ⟨hdpid, rfl⟩
    exact ⟨hdpid, covers_ruleMatch hkind hkind', covers_ruleMatch hkind' hkind⟩

end

/-! ### The table of a way -/

/-- A stop is entered, and not from a host. -/
def Entered (cable : Dpid → Port → Option Peer) (s : Stop) : Prop :=
  ∃ inPort, s.hop.inPort = some inPort ∧ ∀ host, cable s.hop.dpid inPort ≠ some (.host host)

section

variable {net : Topology} {w : Wiring net} {s : Stop} {stops : List Stop} {fields : List Field}
  {vlanId : ℕ} {dpid : Dpid} {port : Port} {host : Str} {rules : List Rule}

lemma entered_of_route (h : Route w.cable (s :: stops)) : ∀ x ∈ stops, Entered w.cable x := by
  induction stops generalizing s with
  | nil => exact nofun
  | cons s' stops ih =>
      refine List.forall_mem_cons.mpr ⟨?_, ih h.2⟩
      obtain ⟨outPort, inPort, hout, hin, hleads⟩ := h.1
      refine ⟨inPort, hin, fun host hhost => ?_⟩
      cases hmb : s.middlebox with
      | none =>
          rw [hmb] at hleads
          have hback := w.ends _ _ _ _ hleads
          rw [hhost] at hback
          cases hback
      | some mb =>
          rw [hmb] at hleads
          obtain ⟨hcable, hdpid, rfl⟩ := hleads
          rw [hdpid, hcable] at hhost
          cases hhost

/-- A stop that is entered from a host is another one. -/
lemma key_ne_of_entered {x : Stop} (hx : Entered w.cable x)
    (hhost : w.cable dpid port = some (.host host)) : x.key ≠ (dpid, some port) := by
  obtain ⟨inPort, hin, hne⟩ := hx
  rintro heq
  obtain ⟨rfl, hport⟩ := Prod.mk.inj heq
  obtain rfl := Option.some.inj (hin.symm.trans hport)
  exact hne host hhost

/-- The rules that the way of a chain brings. -/
def wayRules (fields : List Field) (vlanId : ℕ) (s : Stop) (stops : List Stop) : List Rule :=
  s.pushRule fields vlanId :: vlanRules vlanId stops

/-- The rule of the sender's switch and those of the other stops do not replace each other. -/
lemma not_sameMatch_pushRule (hkey : s.key = (dpid, some port))
    (hhost : w.cable dpid port = some (.host host)) {x : Stop} (hx : Entered w.cable x)
    {kind : RuleKind} : ¬ SameMatch (s.pushRule fields vlanId) (x.rule kind vlanId) := by
  rintro ⟨hdpid, hcovers, -⟩
  refine key_ne_of_entered hx hhost ?_
  obtain ⟨inPort, hin, -⟩ := hx
  obtain ⟨rfl, hport⟩ := Prod.mk.inj hkey
  simp only [Stop.pushRule, Stop.rule, hport, hin] at hdpid hcovers
  rw [Stop.key, hin, ← hdpid, inPort_of_covers hcovers]

/-- Each rule of a way replaces itself. -/
lemma sameMatch_self (hkey : s.key = (dpid, some port)) (hent : ∀ x ∈ stops, Entered w.cable x) :
    ∀ r ∈ wayRules fields vlanId s stops, SameMatch r r := by
  refine List.forall_mem_cons.mpr ⟨?_, fun r hr => ?_⟩
  · have hport : s.hop.inPort = some port := congrArg Prod.snd hkey
    simp only [SameMatch, Stop.pushRule, hport]
    exact ⟨trivial, covers_push, covers_push⟩
  · obtain ⟨x, hx, kind, hkind, rfl⟩ := exists_of_mem_vlanRules hr
    obtain ⟨inPort, hin, -⟩ := hent x hx
    exact (sameMatch_rule_iff (by simp [hin]) (by simp [hin]) hkind hkind).mpr rfl

/-- For each switch and port the last rule of the way is there, and no other one of them. -/
lemma table_of_adds (hkey : s.key = (dpid, some port))
    (hhost : w.cable dpid port = some (.host host)) (hent : ∀ x ∈ stops, Entered w.cable x) :
    Table (((wayRules fields vlanId s stops).map .add).foldl Post.apply rules)
      (wayRules fields vlanId s stops) vlanId stops := by
  have hport : ∀ x ∈ stops, x.hop.inPort ≠ none := fun x hx => by
    obtain ⟨inPort, hin, -⟩ := hent x hx
    simp [hin]
  intro x hx inPort hin f hf r
  rw [Applies, mem_foldl_apply_adds]
  constructor
  · rintro ⟨⟨⟨-, hall⟩ | ⟨before, after, heq, hall⟩, hdpid, hmatches⟩, hr⟩
    · exact absurd (sameMatch_self hkey hent r hr) (hall r hr)
    · cases before with
      | nil =>
          -- the rule of the sender's switch is not for this port
          obtain ⟨rfl, -⟩ := List.cons.inj heq
          refine absurd ?_ (key_ne_of_entered (hent x hx) hhost)
          obtain ⟨rfl, hs⟩ := Prod.mk.inj hkey
          simp only [Stop.pushRule, hs] at hdpid hmatches
          rw [Stop.key, hin, ← hdpid, inPort_of_matches hmatches]
      | cons r' before =>
          obtain ⟨before', s', after', rfl, rfl, rfl⟩ :=
            vlanRules_eq_append (List.cons.inj heq).2
          have hs' : s' ∈ before' ++ s' :: after' := by simp
          obtain ⟨inPort', hin', -⟩ := hent s' hs'
          have hkey' : s'.key = x.key := by
            simp only [Stop.rule, hin'] at hdpid hmatches
            rw [Stop.key, Stop.key, hdpid, hin', hin, inPort_of_matches hmatches]
          refine ⟨before', s', after', rfl, hkey', fun y hy heq' => ?_, rfl⟩
          have hy' : y ∈ before' ++ s' :: after' := by simp [hy]
          obtain ⟨kind, hkind, hmem⟩ := exists_mem_vlanRules vlanId hy
          exact hall _ hmem ((sameMatch_rule_iff (hport s' hs') (hport y hy')
            (kindBefore_ne_push after') hkind).mpr (hkey'.trans heq'.symm))
  · rintro ⟨before, s', after, rfl, hkey', hlast, rfl⟩
    have hs' : s' ∈ before ++ s' :: after := by simp
    obtain ⟨own, hown⟩ := vlanRules_append vlanId before (s' :: after)
    have hrules : wayRules fields vlanId s (before ++ s' :: after) =
        (s.pushRule fields vlanId :: own) ++ s'.rule (kindBefore after) vlanId ::
          vlanRules vlanId after := by
      rw [wayRules, hown, vlanRules_cons, List.cons_append]
    obtain ⟨hdpid, hin'⟩ := Prod.mk.inj hkey'
    refine ⟨⟨.inr ⟨_, _, hrules, fun q hq hsame => ?_⟩, hdpid, ?_⟩, by rw [hrules]; simp⟩
    · obtain ⟨y, hy, kind, hkind, rfl⟩ := exists_of_mem_vlanRules hq
      have hy' : y ∈ before ++ s' :: after := by simp [hy]
      have heq := (sameMatch_rule_iff (hport s' hs') (hport y hy') (kindBefore_ne_push after)
        hkind).mp hsame
      exact hlast y hy (heq.symm.trans hkey')
    · rw [Stop.rule, hin', hin]
      exact matches_ruleMatch (kindBefore_ne_push after) hf

/-! ### From the sender on -/

/-- Of the rules of a way, that of the sender's switch applies to the frames of the sender. -/
lemma applies_sender_iff (hkey : s.key = (dpid, some port))
    (hhost : w.cable dpid port = some (.host host)) (hent : ∀ x ∈ stops, Entered w.cable x)
    {f : Frame} (hf : f.Matches port (getFullMatchFields fields)) {r : Rule}
    (hr : r ∈ wayRules fields vlanId s stops) :
    Applies (((wayRules fields vlanId s stops).map .add).foldl Post.apply rules) dpid port f r ↔
      r = s.pushRule fields vlanId := by
  obtain ⟨hdpid, hport⟩ := Prod.mk.inj hkey
  constructor
  · rintro ⟨-, hdpid', hmatches⟩
    rcases List.mem_cons.mp hr with rfl | hr
    · rfl
    · obtain ⟨x, hx, kind, -, rfl⟩ := exists_of_mem_vlanRules hr
      refine absurd ?_ (key_ne_of_entered (hent x hx) hhost)
      obtain ⟨inPort, hin, -⟩ := hent x hx
      simp only [Stop.rule, hin] at hdpid' hmatches
      rw [Stop.key, hin, hdpid', inPort_of_matches hmatches]
  · rintro rfl
    refine ⟨mem_foldl_apply_adds.mpr (.inr ⟨[], _, rfl, fun q hq => ?_⟩), hdpid, ?_⟩
    · obtain ⟨x, hx, kind, -, rfl⟩ := exists_of_mem_vlanRules hq
      exact not_sameMatch_pushRule hkey hhost (hent x hx)
    · have hmatches : f.Matches port (ruleMatch .push fields vlanId (some port)) := matches_push hf
      rwa [Stop.pushRule, hport]

/-- What the rule of the sender's switch does. -/
lemma traverses_forward_pushRule_iff {own : List Rule} {x : Stop}
    (hR : Route w.cable (s :: x :: stops)) (hkey : s.key = (dpid, some port))
    (hhost : w.cable dpid port = some (.host host)) (f : Frame) (mbs : List Str) :
    Traverses w.cable rules own mbs (forward w.cable port (s.pushRule fields vlanId) f) ↔
      ∃ inPort mbs', x.hop.inPort = some inPort ∧ mbs = s.middlebox.toList ++ mbs' ∧
        Traverses w.cable rules own mbs'
          (.switch x.hop.dpid inPort { f with vlanId := some vlanId }) := by
  obtain ⟨outPort, inPort, hout, -, hleads⟩ := hR.1
  have hport : s.hop.outPort = some (s.pushRule fields vlanId).outPort := by
    simp [Stop.pushRule, hout]
  -- the sender is not at the port by which the frame leaves
  have hne : (s.pushRule fields vlanId).outPort ≠ port := by
    rintro rfl
    obtain rfl := Option.some.inj (hout.symm.trans hport)
    rw [← (Prod.mk.inj hkey).1] at hhost
    cases hmb : s.middlebox with
    | none =>
        rw [hmb, hhost] at hleads
        cases hleads
    | some mb =>
        rw [hmb, hhost] at hleads
        cases hleads.1
  exact traverses_forward_iff hR.1 rfl hport nofun hne mbs

/-- When a frame of the sender follows the way of its chain. -/
lemma traverses_sender_iff {x : Stop} (hR : Route w.cable (s :: x :: stops))
    (hS : Simple (x :: stops)) (hkey : s.key = (dpid, some port))
    (hhost : w.cable dpid port = some (.host host)) {f : Frame}
    (hf : f.Matches port (getFullMatchFields fields)) {own table : List Rule}
    (hown : own = wayRules fields vlanId s (x :: stops))
    (htable : table = (own.map .add).foldl Post.apply rules) :
    Traverses w.cable table own (middleboxes (s :: x :: stops)) (.switch dpid port f) ↔
      (∀ r, Applies table dpid port f r → r ∈ own) ∧ ((x :: stops).map Stop.key).Nodup ∧
        ∀ y ∈ x :: stops, Passable table own { f with vlanId := some vlanId } y := by
  have hent := entered_of_route hR
  have hsender : ∀ r ∈ own, Applies table dpid port f r ↔ r = s.pushRule fields vlanId := by
    subst hown htable
    exact fun r hr => applies_sender_iff hkey hhost hent hf hr
  have hT : Table table own vlanId (x :: stops) := by
    subst hown htable
    exact table_of_adds hkey hhost hent
  have hpush : s.pushRule fields vlanId ∈ own := hown ▸ List.mem_cons_self
  obtain ⟨inPort, hin, -⟩ := hent x List.mem_cons_self
  have hway := traverses_iff_nodup hT hR.2 hS (f := { f with vlanId := some vlanId }) rfl rfl hin
  rw [← hway]
  constructor
  · intro h
    have happlies := (hsender _ hpush).mpr rfl
    obtain ⟨inPort', mbs', hin', hmbs, h'⟩ :=
      (traverses_forward_pushRule_iff hR hkey hhost f _).mp (h.forward_of_applies happlies)
    obtain rfl := Option.some.inj (hin.symm.trans hin')
    rw [middleboxes_cons] at hmbs
    obtain rfl := List.append_cancel_left hmbs
    exact ⟨fun r hr => h.mem_own hr, h'⟩
  · rintro ⟨hall, h⟩
    refine .switch ⟨_, (hsender _ hpush).mpr rfl⟩ hall fun r hr => ?_
    obtain rfl := (hsender r (hall r hr)).mp hr
    exact (traverses_forward_pushRule_iff hR hkey hhost f _).mpr
      ⟨inPort, _, hin, middleboxes_cons s _, h⟩

end

/-! ### Chains -/

/-- An add that succeeds, of a chain of at least two middleboxes, where the controller accepts
everything. -/
structure Added (net : Topology) (s : TsaBE) (e : Event) (r : ChainRequest) : Prop where
  asked : ∃ requestArgs, e.command = .addPolicyChain requestArgs ∧ requestOf requestArgs = some r
  accepted : ∀ i, e.accepts i = true
  succeeded : ∃ response, (exec net s e).1 = some response ∧ response.success = true
  length : 2 ≤ (r.policyChain.splitOn ',').length

/-- A rule is there, and it is not replaced by one of the own rules. -/
def Stays (rules own : List Rule) (r : Rule) : Prop := r ∈ rules ∧ ∀ q ∈ own, ¬ SameMatch r q

/-- The way of a chain is clear for a frame of its sender: the stops after the first one are entered
by different ports and send no frame back, and no rule that stays applies to the frame at the
sender, or to the frame with its VLAN id at these stops. -/
structure Clear (net : Topology) (s : TsaBE) (r : ChainRequest) (f : Frame) : Prop where
  nodup : ((chainStops net r.hostSender r.policyChain).tail.map Stop.key).Nodup
  onward : ∀ x ∈ (chainStops net r.hostSender r.policyChain).tail, x.hop.inPort ≠ x.hop.outPort
  sender : ∀ q, Stays s.controller.rules (rulesOf (s.requestPlan net r)) q →
    ∀ dpid port, net.hostsThatSendPackets r.hostSender = some (dpid, port) →
      ¬ (q.dpid = dpid ∧ f.Matches port q.fields)
  stops : ∀ q, Stays s.controller.rules (rulesOf (s.requestPlan net r)) q →
    ∀ x ∈ (chainStops net r.hostSender r.policyChain).tail, ∀ port, x.hop.inPort = some port →
      ¬ (q.dpid = x.hop.dpid ∧ { f with vlanId := some s.nextVlanId }.Matches port q.fields)

section

variable {net : Topology} {s : TsaBE} {e : Event} {r : ChainRequest} {dpid : Dpid} {port : Port}

lemma Added.installable (h : Added net s e r) :
    installable net r.hostSender r.policyChain = true := by
  obtain ⟨requestArgs, hcommand, hr⟩ := h.asked
  obtain ⟨response, hresponse, hsuccess⟩ := h.succeeded
  rw [exec, hcommand] at hresponse
  obtain rfl := Option.some.inj hresponse
  obtain ⟨r', hr', hinstallable⟩ := installable_of_success hsuccess
  obtain rfl := Option.some.inj (hr.symm.trans hr')
  exact hinstallable

/-- The rules after an add. -/
lemma Added.rules_eq (h : Added net s e r) :
    (exec net s e).2.controller.rules =
      ((rulesOf (s.requestPlan net r)).map .add).foldl Post.apply s.controller.rules := by
  obtain ⟨requestArgs, hcommand, hr⟩ := h.asked
  obtain ⟨t, ht, -, -, -, hcontroller⟩ := handleAddPolicyCommand_eq net (s.begin e) hr
  have hexec : (exec net s e).2 = t := by
    rw [exec, hcommand]
    exact ht
  have haccepting : (s.begin e).controller.Accepting
      ((rulesOf ((s.begin e).requestPlan net r)).map Post.add).length := fun i _ => h.accepted _
  rw [hexec, hcontroller, (urlopens_of_accepting haccepting).1]
  rfl

/-- The way of a chain that was added. -/
lemma Added.way (h : Added net s e r) (w : Wiring net)
    (hsender : net.hostsThatSendPackets r.hostSender = some (dpid, port)) :
    ∃ x y stops, chainStops net r.hostSender r.policyChain = x :: y :: stops ∧
      x.key = (dpid, some port) ∧ Route w.cable (x :: y :: stops) ∧ Simple (y :: stops) ∧
      middleboxes (x :: y :: stops) = r.policyChain.splitOn ',' ∧
      rulesOf (s.requestPlan net r) = wayRules r.matchFields s.nextVlanId x (y :: stops) := by
  have hreaches : reaches net dpid (r.policyChain.splitOn ',') = true := by
    have hinstallable := h.installable
    rwa [Tsa.installable, hsender] at hinstallable
  have hstops : chainStops net r.hostSender r.policyChain =
      stopsFrom net (dpid, port) (r.policyChain.splitOn ',') := by rw [chainStops, hsender]
  have hR := @route_stopsFrom net w _ (dpid, port) hreaches
  have hS := @simple_stopsFrom net _ (dpid, port) hreaches
  have hmbs := @middleboxes_stopsFrom net _ (dpid, port) hreaches
  have hlength := h.length
  rw [← hmbs] at hlength
  rw [hstops]
  rcases hway : stopsFrom net (dpid, port) (r.policyChain.splitOn ',') with _ | ⟨x, _ | ⟨y, stops⟩⟩
  · simp [hway, middleboxes] at hlength
  · rw [hway, middleboxes_cons] at hlength
    cases hx : x.middlebox <;> simp [hx, middleboxes] at hlength
  · rw [hway] at hR hS hmbs
    exact ⟨x, y, stops, rfl, @key_of_stopsFrom net (dpid, port) _ hreaches _ _ hway, hR,
      @Simple.of_append [x] (y :: stops) hS, hmbs,
      rulesOf_chainPlan hsender hreaches h.length hway (outPort_of_route hR) _ _⟩

/-- Where only the own rules apply. -/
lemma forall_applies_mem_iff {rules own : List Rule} (hself : ∀ q ∈ own, SameMatch q q)
    {f : Frame} :
    (∀ q, Applies ((own.map .add).foldl Post.apply rules) dpid port f q → q ∈ own) ↔
      ∀ q, Stays rules own q → ¬ (q.dpid = dpid ∧ f.Matches port q.fields) := by
  constructor
  · rintro h q hstays ⟨hdpid, hmatches⟩
    have hq := h q ⟨mem_foldl_apply_adds.mpr (.inl hstays), hdpid, hmatches⟩
    exact hstays.2 q hq (hself q hq)
  · rintro h q ⟨hq, happlies⟩
    rcases mem_foldl_apply_adds.mp hq with hstays | ⟨before, after, heq, -⟩
    · exact absurd happlies (h q hstays)
    · simp [heq]

/-- **Chains.**  After a chain was added, a frame of its sender that has the match fields is
forwarded by the rules of the chain to its middleboxes in order, exactly if the way of the chain is
clear.  The controller accepts each rule with the VLAN id that it is posted with, also beyond 12
bits. -/
theorem traverses_iff (w : Wiring net) (h : Added net s e r)
    (hsender : net.hostsThatSendPackets r.hostSender = some (dpid, port)) {f : Frame}
    (hf : f.Matches port (getFullMatchFields r.matchFields)) :
    Traverses w.cable (exec net s e).2.controller.rules (rulesOf (s.requestPlan net r))
        (r.policyChain.splitOn ',') (.switch dpid port f) ↔ Clear net s r f := by
  obtain ⟨x, y, stops, hway, hkey, hR, hS, hmbs, hown⟩ := h.way w hsender
  have hhost := w.sender _ _ _ hsender
  have hself : ∀ q ∈ rulesOf (s.requestPlan net r), SameMatch q q := by
    rw [hown]
    exact sameMatch_self hkey (entered_of_route hR)
  rw [← hmbs, traverses_sender_iff hR hS hkey hhost hf hown h.rules_eq, h.rules_eq,
    forall_applies_mem_iff hself]
  constructor
  · rintro ⟨hfirst, hnodup, hpass⟩
    refine ⟨?_, ?_, fun q hq dpid' port' hsender' => ?_, fun q hq => ?_⟩
    · rwa [hway]
    · rw [hway]
      exact fun z hz => (hpass z hz).1
    · obtain ⟨rfl, rfl⟩ := Prod.mk.inj (Option.some.inj (hsender.symm.trans hsender'))
      exact hfirst q hq
    · rw [hway]
      exact fun z hz port' hin => (forall_applies_mem_iff hself).mp ((hpass z hz).2 port' hin) q hq
  · intro hclear
    have hnodup := hclear.nodup
    have honward := hclear.onward
    have hstops := hclear.stops
    rw [hway] at hnodup honward hstops
    refine ⟨fun q hq => hclear.sender q hq dpid port hsender, hnodup, fun z hz =>
      ⟨honward z hz, fun port' hin => ?_⟩⟩
    exact (forall_applies_mem_iff hself).mpr fun q hq => hstops q hq z hz port' hin

end

/-! ### Two switches -/

/-- A frame without a tag that goes to a web server. -/
def webFrame : Frame where
  fields name := [("tp_dst".toList, "80".toList), ("nw_proto".toList, "6".toList),
    ("dl_type".toList, "2048".toList)].lookup name
  vlanId := none

/-- The request for a chain of the sender `h1`. -/
def webRequest (policyChain : String) : ChainRequest :=
  ⟨"h1".toList, policyChain.toList, [("tp_dst".toList, "80".toList)],
    ("h1$" ++ policyChain ++ "$tp_dst:80").toList⟩

lemma clear_twoMiddleboxes :
    Clear twoSwitches (TsaBE.new []) (webRequest "m1,m2") webFrame where
  nodup := by decide +kernel
  onward := by decide +kernel
  sender q hq := nomatch hq.1
  stops q hq := nomatch hq.1

theorem traverses_twoMiddleboxes :
    Traverses twoSwitchesWiring.cable
      (exec twoSwitches (TsaBE.new []) (firstAdd "h1,m1,m2")).2.controller.rules
      (rulesOf ((TsaBE.new []).requestPlan twoSwitches (webRequest "m1,m2")))
      ["m1".toList, "m2".toList] (.switch 1 2 webFrame) :=
  (traverses_iff twoSwitchesWiring (r := webRequest "m1,m2")
    ⟨⟨_, rfl, rfl⟩, fun _ => rfl, ⟨_, rfl, rfl⟩, by decide⟩ rfl (by decide)).mpr
    clear_twoMiddleboxes

/-- **Chains, with two legs that enter a switch by one port.**  The leg from `m2` to `m3` enters the
second switch like that from the sender to `m1`, and its rule replaces the rule to `m1`. -/
theorem not_traverses : ¬ ∀ (net : Topology) (w : Wiring net) (es : List Event) (s : TsaBE)
    (e : Event) (t : TsaBE) (r : ChainRequest) (f : Frame) (dpid : Dpid) (port : Port),
    net.graph.Connected → Run (Step net) (TsaBE.new []) es s → Step net s e t → Added net s e r →
      net.hostsThatSendPackets r.hostSender = some (dpid, port) →
      f.Matches port (getFullMatchFields r.matchFields) →
      Traverses w.cable t.controller.rules (rulesOf (s.requestPlan net r))
        (r.policyChain.splitOn ',') (.switch dpid port f) := by
  intro hall
  have hadded : Added twoSwitches (TsaBE.new []) (firstAdd "h1,m1,m2,m3")
      (webRequest "m1,m2,m3") := ⟨⟨_, rfl, rfl⟩, fun _ => rfl, ⟨_, rfl, rfl⟩, by decide⟩
  have h := hall twoSwitches twoSwitchesWiring [] _ _ _ _ webFrame 1 2 connected_twoSwitches .nil
    ⟨inOrder_firstAdd _ _, rfl⟩ hadded rfl (by decide)
  obtain ⟨x, y, stops, hway, hkey, hR, hS, hmbs, hown⟩ := hadded.way twoSwitchesWiring rfl
  rw [← hmbs] at h
  have hnodup := ((traverses_sender_iff hR hS hkey (twoSwitchesWiring.sender "h1".toList _ _ rfl)
    (by decide) hown hadded.rules_eq).mp h).2.1
  have hkeys : ¬ ((chainStops twoSwitches (webRequest "m1,m2,m3").hostSender
      (webRequest "m1,m2,m3").policyChain).tail.map Stop.key).Nodup := by decide +kernel
  rw [hway] at hkeys
  exact hkeys hnodup

end FtThesis.Tsa
