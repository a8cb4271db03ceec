/-
What the installation of a chain does, read off from the network before it is done.

* `Entry`, `note`: what an installation does in one place: a name goes into the flow, or a rule
  is added;
* `chainPlan`: what the installation of a chain does, in order, and whether it comes to an end;
* `follows_installPolicyChainRules`: the installation follows its plan, whatever the controller
  answers;
* `installPolicyChainRules_eq`, `uninstallPolicyChainRules_eq`: the state after an installation, and
  after a chain is uninstalled;
* `installable`, `chainPlan_snd`: the plan comes to an end if the sender and the middleboxes are
  known and can be reached from each other.
-/
import FtThesis.Tsa.Server

namespace FtThesis.Tsa

open TsaBE

/-- What an installation does in one place. -/
inductive Entry
  | name (n : Str)
  | rule (r : Rule)

/-! ### Plans -/

/-- The rule of one round of a loop over a path, if there is a port. -/
def ruleEntry (kind : RuleKind) (vlanId : ℕ) (matchFields : List Field) (hop : Hop) : List Entry :=
  match hop.outPort with
  | none => []
  | some outPort =>
      [.rule ⟨hop.dpid, kind, vlanId, ruleMatch kind matchFields vlanId hop.inPort, outPort⟩]

/-- The rules of the way to the first middlebox. -/
def firstLegEntries (vlanId : ℕ) (matchFields : List Field) : List Hop → List Entry
  | [] => []
  | hop :: hops =>
      ruleEntry .push vlanId matchFields hop ++ hops.flatMap (ruleEntry .forward vlanId [])

/-- The rules of the way between two middleboxes. -/
def legEntries (vlanId : ℕ) (shouldInstalVlanPopRule : Bool) : List Hop → List Entry
  | [] => []
  | [hop] => ruleEntry (if shouldInstalVlanPopRule then .pop else .forward) vlanId [] hop
  | hop :: hops =>
      ruleEntry .forward vlanId [] hop ++ legEntries vlanId shouldInstalVlanPopRule hops

/-- What `installRulesToFirstMB` does. -/
def firstLegPlan (net : Topology) (mbName : Str) (vlanId : ℕ) (senderHost : Str)
    (matchFields : List Field) : List Entry × Bool :=
  match net.hostsThatSendPackets senderHost, net.middleboxToSwitchMapping mbName with
  | some (srcDpid, srcPort), some (dstDpid, dstPort) =>
      match pathBetween net.graph srcDpid dstDpid with
      | some path =>
          (firstLegEntries vlanId matchFields (hops net.graph path (some srcPort) dstPort), true)
      | none => ([], false)
  | _, _ => ([], false)

/-- What `installPolicyChainBetweenTwoMiddleboxes` does. -/
def legPlan (net : Topology) (srcMb dstMb : Str) (vlanId : ℕ) (shouldInstalVlanPopRule : Bool) :
    List Entry × Bool :=
  match net.middleboxToSwitchMapping srcMb with
  | none => ([], true)
  | some (srcDpid, srcPort) =>
      match net.middleboxToSwitchMapping dstMb with
      | none => ([], false)
      | some (dstDpid, dstPort) =>
          match pathBetween net.graph srcDpid dstDpid with
          | some path =>
              (.name srcMb :: legEntries vlanId shouldInstalVlanPopRule
                (hops net.graph path (some srcPort) dstPort), true)
          | none => ([.name srcMb], false)

/-- One plan after another one, unless this one fails. -/
def andThen (plan plan' : List Entry × Bool) : List Entry × Bool :=
  if plan.2 then (plan.1 ++ plan'.1, plan'.2) else plan

/-- What `installLegs` does. -/
def legsPlan (net : Topology) (vlanId : ℕ) : List Str → List Entry × Bool
  | srcMb :: dstMb :: policyChain =>
      andThen (legPlan net srcMb dstMb vlanId (policyChain = []))
        (legsPlan net vlanId (dstMb :: policyChain))
  | _ => ([], true)

/-- What the installation of a chain does. -/
def chainPlan (net : Topology) (policyChain : Str) (vlanId : ℕ) (matchFields : List Field)
    (senderHost : Str) : List Entry × Bool :=
  andThen
    (firstLegPlan net ((policyChain.splitOn ',').headD []) vlanId senderHost matchFields)
    (legsPlan net vlanId (policyChain.splitOn ','))

/-- An entry of a plan is carried out under a key. -/
def note (policyChainKey : Str) (s : TsaBE) : Entry → TsaBE
  | .name n => s.appendFlow policyChainKey (.name n)
  | .rule r =>
      match s.post (.add r) with
      | (true, s) => s.appendFlow policyChainKey (.switch r.dpid)
      | (false, s) => s

/-! ### Installations follow their plans -/

/-- The flags of the graph are changed. -/
def TsaBE.setVisited (s : TsaBE) (visited : Visited) : TsaBE := { s with visited := visited }

section

variable {net : Topology} {s : TsaBE} {key : Str} {vlanId : ℕ} {fields : List Field}

lemma note_setVisited (visited : Visited) (e : Entry) :
    note key (s.setVisited visited) e = (note key s e).setVisited visited := by
  cases e with
  | name n => rfl
  | rule r =>
      cases haccepts : s.controller.accepts s.controller.posts.length <;>
        simp [note, post, Controller.urlopen, setVisited, haccepts, appendFlow]

lemma foldl_note_setVisited (visited : Visited) (es : List Entry) :
    es.foldl (note key) (s.setVisited visited) =
      (es.foldl (note key) s).setVisited visited := by
  induction es generalizing s with
  | nil => rfl
  | cons e es ih => rw [List.foldl_cons, note_setVisited, ih, List.foldl_cons]

lemma installRule_eq (s : TsaBE) (kind : RuleKind) (hop : Hop) :
    s.installRule kind key hop vlanId fields =
      (ruleEntry kind vlanId fields hop).foldl (note key) s := by
  cases hport : hop.outPort with
  | none => simp [installRule, ruleEntry, hport]
  | some outPort =>
      simp only [installRule, ruleEntry, hport, List.foldl_cons, List.foldl_nil]
      rfl

lemma installHopsToFirstMB_eq (s : TsaBE) (hops : List Hop) :
    s.installHopsToFirstMB key vlanId fields hops =
      (firstLegEntries vlanId fields hops).foldl (note key) s := by
  cases hops with
  | nil => rfl
  | cons hop hops =>
      rw [installHopsToFirstMB, firstLegEntries, List.foldl_append, ← installRule_eq,
        List.foldl_flatMap]
      simp only [installVlanRule, installRule_eq, installRuleWithVlanPush]

lemma installHopsBetween_eq (pop : Bool) (s : TsaBE) (hops : List Hop) :
    installHopsBetween key vlanId pop hops s =
      (legEntries vlanId pop hops).foldl (note key) s := by
  induction hops generalizing s with
  | nil => rfl
  | cons hop hops ih =>
      cases hops with
      | nil =>
          cases pop <;>
            simp [installHopsBetween, legEntries, installRuleWithVlanPop, installVlanRule,
              installRule_eq]
      | cons hop' hops =>
          simp only [installHopsBetween, legEntries, List.foldl_append, ih, installVlanRule,
            installRule_eq]

lemma findPath_eq (net : Topology) (s : TsaBE) (src dst : Dpid) :
    ∃ visited, s.findPath net src dst = (pathBetween net.graph src dst, s.setVisited visited) := by
  rw [findPath, ← findPathBetweenNodes_eq net.graph s.visited]
  rcases findPathBetweenNodes net.graph s.visited src dst with _ | ⟨path, visited⟩
  · exact ⟨s.visited, rfl⟩
  · exact ⟨visited, rfl⟩

/-- The installation from a state follows a plan under a key: it does the same, but for the flags
of the graph. -/
def Follows (key : Str) (s : TsaBE) (plan : List Entry × Bool) (result : Bool × TsaBE) : Prop :=
  result.1 = plan.2 ∧ ∃ visited, result.2 = (plan.1.foldl (note key) s).setVisited visited

lemma follows_firstLeg (net : Topology) (s : TsaBE) (key mbName : Str) (vlanId : ℕ)
    (senderHost : Str) (fields : List Field) :
    Follows key s (firstLegPlan net mbName vlanId senderHost fields)
      (s.installRulesToFirstMB net key mbName vlanId senderHost fields) := by
  rw [firstLegPlan, installRulesToFirstMB]
  rcases net.hostsThatSendPackets senderHost with _ | ⟨src, srcPort⟩
  · exact ⟨rfl, s.visited, rfl⟩
  · rcases net.middleboxToSwitchMapping mbName with _ | ⟨dst, dstPort⟩
    · exact ⟨rfl, s.visited, rfl⟩
    · obtain ⟨visited, hfind⟩ := findPath_eq net s src dst
      simp only [hfind]
      cases pathBetween net.graph src dst with
      | none => exact ⟨rfl, visited, rfl⟩
      | some path =>
          refine ⟨rfl, visited, ?_⟩
          simp only [installHopsToFirstMB_eq, foldl_note_setVisited]

lemma follows_leg (net : Topology) (s : TsaBE) (key srcMb dstMb : Str) (vlanId : ℕ)
    (pop : Bool) :
    Follows key s (legPlan net srcMb dstMb vlanId pop)
      (s.installPolicyChainBetweenTwoMiddleboxes net key srcMb dstMb vlanId pop) := by
  rw [legPlan, installPolicyChainBetweenTwoMiddleboxes]
  rcases net.middleboxToSwitchMapping srcMb with _ | ⟨src, srcPort⟩
  · exact ⟨rfl, s.visited, rfl⟩
  · rcases net.middleboxToSwitchMapping dstMb with _ | ⟨dst, dstPort⟩
    · exact ⟨rfl, s.visited, rfl⟩
    · obtain ⟨visited, hfind⟩ := findPath_eq net (s.appendFlow key (.name srcMb)) src dst
      simp only [hfind]
      cases pathBetween net.graph src dst with
      | none => exact ⟨rfl, visited, rfl⟩
      | some path =>
          refine ⟨rfl, visited, ?_⟩
          simp only [installHopsBetween_eq, foldl_note_setVisited]
          rfl

/-- One installation after another one, unless this one fails. -/
lemma Follows.andThen {plan plan' : List Entry × Bool} {result : Bool × TsaBE}
    (h : Follows key s plan result) {next : TsaBE → Bool × TsaBE}
    (hnext : ∀ s, Follows key s plan' (next s)) :
    Follows key s (Tsa.andThen plan plan') (unlessRaised result next) := by
  obtain ⟨ok, t⟩ := result
  obtain ⟨rfl, visited, rfl⟩ := h
  cases hplan : plan.2 with
  | false =>
      rw [Tsa.andThen, hplan]
      exact ⟨hplan.symm, visited, rfl⟩
  | true =>
      obtain ⟨hok, visited', ht⟩ := hnext ((plan.1.foldl (note key) s).setVisited visited)
      rw [Tsa.andThen, if_pos hplan]
      refine ⟨hok, visited', ?_⟩
      have hnext : (unlessRaised (true, (plan.1.foldl (note key) s).setVisited visited) next).2 =
          _ := ht
      rw [hnext, foldl_note_setVisited, List.foldl_append]
      rfl

lemma follows_legs (net : Topology) (s : TsaBE) (key : Str) (vlanId : ℕ)
    (policyChain : List Str) :
    Follows key s (legsPlan net vlanId policyChain)
      (installLegs net key vlanId policyChain s) := by
  induction policyChain generalizing s with
  | nil => exact ⟨rfl, s.visited, rfl⟩
  | cons srcMb policyChain ih =>
      cases policyChain with
      | nil => exact ⟨rfl, s.visited, rfl⟩
      | cons dstMb policyChain =>
          rw [legsPlan, installLegs]
          exact (follows_leg net s key srcMb dstMb vlanId _).andThen ih

/-- The installation of a chain follows its plan, from a state with the chain's data. -/
lemma follows_installPolicyChainRules (net : Topology) (s : TsaBE) {key : Str}
    (hkey : isAscii key = true) (policyChain : Str) (vlanId : ℕ) (fields : List Field)
    (senderHost : Str) :
    Follows key (s.setData key ⟨policyChain, vlanId, [.name senderHost]⟩)
      (chainPlan net policyChain vlanId fields senderHost)
      (s.installPolicyChainRules net key policyChain vlanId fields senderHost) := by
  rw [installPolicyChainRules, if_pos hkey]
  exact (follows_firstLeg net _ key _ vlanId senderHost fields).andThen
    fun s => follows_legs net s key vlanId _

end

/-! ### What a plan leaves behind -/

/-- The rules of a plan. -/
def rulesOf (es : List Entry) : List Rule :=
  es.filterMap fun
    | .name _ => none
    | .rule r => some r

/-- The entry of the flow that is noted. -/
def Entry.flowEntry : Entry → FlowEntry
  | .name n => .name n
  | .rule r => .switch r.dpid

/-- The entries that are carried out, if the first rule is the request with the given number. -/
def carriedOut (accepts : ℕ → Bool) : ℕ → List Entry → List Entry
  | _, [] => []
  | i, .name n :: es => .name n :: carriedOut accepts i es
  | i, .rule r :: es =>
      if accepts i then .rule r :: carriedOut accepts (i + 1) es else carriedOut accepts (i + 1) es

section

variable {key : Str} {accepts : ℕ → Bool}

lemma rulesOf_append (es es' : List Entry) : rulesOf (es ++ es') = rulesOf es ++ rulesOf es' :=
  List.filterMap_append

lemma mem_rulesOf {es : List Entry} {q : Rule} : q ∈ rulesOf es ↔ .rule q ∈ es := by
  rw [rulesOf, List.mem_filterMap]
  constructor
  · rintro ⟨e, he, heq⟩
    cases e with
    | name n => cases heq
    | rule r =>
        obtain rfl := Option.some.inj heq
        exact he
  · exact fun h => ⟨_, h, rfl⟩

lemma carriedOut_sublist (i : ℕ) (es : List Entry) : (carriedOut accepts i es).Sublist es := by
  induction es generalizing i with
  | nil => exact List.nil_sublist _
  | cons e es ih =>
      cases e with
      | name n => exact (ih i).cons_cons _
      | rule r =>
          rw [carriedOut]
          split_ifs
          · exact (ih (i + 1)).cons_cons _
          · exact (ih (i + 1)).cons _

/-- Nothing is left out if all rules are accepted. -/
lemma carriedOut_of_accepts {i : ℕ} {es : List Entry}
    (h : ∀ j, j < (rulesOf es).length → accepts (i + j) = true) : carriedOut accepts i es = es := by
  induction es generalizing i with
  | nil => rfl
  | cons e es ih =>
      cases e with
      | name n => rw [carriedOut, ih h]
      | rule r =>
          have hfirst : accepts i = true := h 0 (by simp [rulesOf])
          have hnext : carriedOut accepts (i + 1) es = es := by
            refine ih fun j hj => ?_
            rw [Nat.add_assoc]
            refine h (1 + j) ?_
            simp only [rulesOf, List.filterMap_cons, List.length_cons] at hj ⊢
            omega
          rw [carriedOut, if_pos hfirst, hnext]

/-- What the entries of a plan do: those that are carried out are noted under the key, and all
rules are requested. -/
lemma foldl_note_eq (s : TsaBE) (es : List Entry) {d : ChainData}
    (hd : s.policyChainKeyToData key = some d) :
    es.foldl (note key) s =
      { s with
        policyChainKeyToData := Function.update s.policyChainKeyToData key (some { d with
          fullFlow := d.fullFlow ++ (carriedOut s.controller.accepts s.controller.posts.length
            es).map Entry.flowEntry })
        controller := s.controller.urlopens ((rulesOf es).map .add) } := by
  induction es generalizing s d with
  | nil =>
      have hself : Function.update s.policyChainKeyToData key (some d) =
          s.policyChainKeyToData := by rw [Function.update_eq_self_iff, hd]
      simp [carriedOut, rulesOf, Controller.urlopens, hself]
  | cons e es ih =>
      rw [List.foldl_cons]
      cases e with
      | name n =>
          rw [ih (note key s (.name n)) (d := { d with fullFlow := d.fullFlow ++ [.name n] })
            (by simp [note, appendFlow, hd])]
          simp [note, appendFlow, carriedOut, Entry.flowEntry, rulesOf]
      | rule r =>
          cases haccepts : s.controller.accepts s.controller.posts.length with
          | false =>
              have hnote : note key s (.rule r) =
                  { s with controller := (s.controller.urlopen (.add r)).2 } := by
                simp [note, post, Controller.urlopen, haccepts]
              rw [hnote, ih { s with controller := (s.controller.urlopen (.add r)).2 } hd]
              simp [carriedOut, Controller.urlopen, haccepts, rulesOf, Controller.urlopens]
          | true =>
              have hnote : note key s (.rule r) =
                  { s with controller := (s.controller.urlopen (.add r)).2 }.appendFlow key
                    (.switch r.dpid) := by
                simp [note, post, Controller.urlopen, haccepts]
              rw [hnote, ih _ (d := { d with fullFlow := d.fullFlow ++ [.switch r.dpid] })
                (by simp [appendFlow, hd])]
              simp [carriedOut, Controller.urlopen, haccepts, rulesOf, Controller.urlopens,
                appendFlow, Entry.flowEntry]

/-- What an installation does. -/
lemma installPolicyChainRules_eq (net : Topology) (s : TsaBE) (hkey : isAscii key = true)
    (policyChain : Str) (vlanId : ℕ) (fields : List Field) (senderHost : Str) :
    ∃ visited, s.installPolicyChainRules net key policyChain vlanId fields senderHost =
      ((chainPlan net policyChain vlanId fields senderHost).2,
        { s with
          policyChainKeyToData := Function.update s.policyChainKeyToData key
            (some ⟨policyChain, vlanId, .name senderHost ::
              (carriedOut s.controller.accepts s.controller.posts.length
                (chainPlan net policyChain vlanId fields senderHost).1).map Entry.flowEntry⟩)
          visited := visited
          controller := s.controller.urlopens
            ((rulesOf (chainPlan net policyChain vlanId fields senderHost).1).map .add) }) := by
  obtain ⟨hok, visited, ht⟩ :=
    follows_installPolicyChainRules net s hkey policyChain vlanId fields senderHost
  refine ⟨visited, Prod.ext hok ?_⟩
  rw [ht, foldl_note_eq _ _ (d := ⟨policyChain, vlanId, [.name senderHost]⟩) (by simp [setData])]
  simp [setData, setVisited]

/-- At the first switch the match fields are deleted, for the sender's switch. -/
lemma deletePosts_one (net : Topology) (senderHost : Str) (vlanId : ℕ) (fields : List Field)
    (dpid : Dpid) (fullFlow : List FlowEntry) :
    deletePosts net senderHost vlanId fields 1 (.switch dpid :: fullFlow) =
      (net.hostsThatSendPackets senderHost).bind fun sender =>
        (deletePosts net senderHost vlanId fields 2 fullFlow).map
          (.delete sender.1 (getFullMatchFields fields) :: ·) := by
  rw [deletePosts]
  cases net.hostsThatSendPackets senderHost with
  | none => rfl
  | some sender => cases deletePosts net senderHost vlanId fields 2 fullFlow <;> simp

/-- At each further switch the VLAN id is deleted. -/
lemma deletePosts_of_ne_one (net : Topology) (senderHost : Str) (vlanId : ℕ) (fields : List Field)
    {i : ℕ} (hi : i ≠ 1) (dpid : Dpid) (fullFlow : List FlowEntry) :
    deletePosts net senderHost vlanId fields i (.switch dpid :: fullFlow) =
      (deletePosts net senderHost vlanId fields (i + 1) fullFlow).map
        (.delete dpid (vlanMatch vlanId) :: ·) := by
  rw [deletePosts, if_neg hi]
  cases deletePosts net senderHost vlanId fields (i + 1) fullFlow <;> rfl

/-- For each switch there is one deletion. -/
lemma exists_delete_of_deletePosts {net : Topology} {senderHost : Str} {vlanId : ℕ}
    {fields : List Field} {i : ℕ} {dpid : Dpid} {fullFlow : List FlowEntry} {posts : List Post}
    (h : deletePosts net senderHost vlanId fields i (.switch dpid :: fullFlow) = some posts) :
    ∃ dpid' m posts', posts = .delete dpid' m :: posts' ∧
      deletePosts net senderHost vlanId fields (i + 1) fullFlow = some posts' := by
  by_cases hi : i = 1
  · subst hi
    rw [deletePosts_one] at h
    obtain ⟨sender, -, h⟩ := Option.bind_eq_some_iff.mp h
    obtain ⟨posts', hposts, rfl⟩ := Option.map_eq_some_iff.mp h
    exact ⟨_, _, _, rfl, hposts⟩
  · rw [deletePosts_of_ne_one _ _ _ _ hi] at h
    obtain ⟨posts', hposts, rfl⟩ := Option.map_eq_some_iff.mp h
    exact ⟨_, _, _, rfl, hposts⟩

/-- Nothing but deletions is requested. -/
lemma deletes_of_deletePosts {net : Topology} {senderHost : Str} {vlanId : ℕ}
    {fields : List Field} {i : ℕ} {fullFlow : List FlowEntry} {posts : List Post}
    (h : deletePosts net senderHost vlanId fields i fullFlow = some posts) :
    ∀ p ∈ posts, ∃ dpid m, p = .delete dpid m := by
  induction fullFlow generalizing i posts with
  | nil =>
      cases h
      exact nofun
  | cons entry fullFlow ih =>
      cases entry with
      | name n => exact ih h
      | switch dpid =>
          obtain ⟨dpid', m, posts', rfl, hposts⟩ := exists_delete_of_deletePosts h
          exact List.forall_mem_cons.mpr ⟨⟨dpid', m, rfl⟩, ih hposts⟩

/-- If the sender is known, there is a request for each switch. -/
lemma exists_deletePosts {net : Topology} {senderHost : Str}
    (h : (net.hostsThatSendPackets senderHost).isSome) (vlanId : ℕ)
    (fields : List Field) (i : ℕ) (fullFlow : List FlowEntry) :
    ∃ posts, deletePosts net senderHost vlanId fields i fullFlow = some posts := by
  obtain ⟨sender, hsender⟩ := Option.isSome_iff_exists.mp h
  induction fullFlow generalizing i with
  | nil => exact ⟨[], rfl⟩
  | cons entry fullFlow ih =>
      obtain ⟨posts, hposts⟩ := ih (i + 1)
      cases entry with
      | name n => exact ⟨posts, hposts⟩
      | switch dpid =>
          by_cases hi : i = 1
          · subst hi
            rw [deletePosts_one, hsender, Option.bind_some, hposts]
            exact ⟨_, rfl⟩
          · rw [deletePosts_of_ne_one _ _ _ _ hi, hposts]
            exact ⟨_, rfl⟩

/-- Requests change nothing but the controller. -/
lemma foldl_post_eq (s : TsaBE) (posts : List Post) :
    posts.foldl (fun s p => (s.post p).2) s =
      { s with controller := s.controller.urlopens posts } := by
  induction posts generalizing s with
  | nil => rfl
  | cons p posts ih =>
      rw [List.foldl_cons, ih]
      rfl

/-- What uninstalling a chain does. -/
lemma uninstallPolicyChainRules_eq {net : Topology} {s : TsaBE} {d : ChainData}
    (hd : s.policyChainKeyToData key = some d) {senderHost : Str} {fields : List Field}
    {posts : List Post} (hposts : deletePosts net senderHost d.vlanId fields 0 d.fullFlow =
      some posts) :
    s.uninstallPolicyChainRules net key senderHost fields =
      (true, { s with controller := s.controller.urlopens posts }) := by
  rw [uninstallPolicyChainRules, hd]
  simp only [hposts, foldl_post_eq]

end

/-! ### The rules of a plan -/

section

variable {net : Topology} {vlanId : ℕ} {fields : List Field}

lemma mem_ruleEntry {kind : RuleKind} {hop : Hop} {e : Entry}
    (h : e ∈ ruleEntry kind vlanId fields hop) :
    ∃ outPort, hop.outPort = some outPort ∧
      e = .rule ⟨hop.dpid, kind, vlanId, ruleMatch kind fields vlanId hop.inPort, outPort⟩ := by
  rw [ruleEntry] at h
  split at h
  · cases h
  next outPort hport => exact ⟨outPort, hport, List.mem_singleton.mp h⟩

/-- What holds of the rules that do not set the VLAN id, and of all names, holds of all entries of
a way between middleboxes. -/
lemma forall_legEntries {P : Entry → Prop}
    (hrule : ∀ kind hop, kind ≠ .push → ∀ e ∈ ruleEntry kind vlanId [] hop, P e) (pop : Bool)
    (hops : List Hop) : ∀ e ∈ legEntries vlanId pop hops, P e := by
  induction hops with
  | nil => exact nofun
  | cons hop hops ih =>
      cases hops with
      | nil => cases pop <;> exact hrule _ hop (by decide)
      | cons hop' hops =>
          intro e he
          rcases List.mem_append.mp he with he | he
          · exact hrule .forward hop (by decide) e he
          · exact ih e he

lemma andThen_fst_subset {plan plan' : List Entry × Bool} {e : Entry}
    (h : e ∈ (andThen plan plan').1) : e ∈ plan.1 ∨ e ∈ plan'.1 := by
  rw [andThen] at h
  split_ifs at h
  · exact List.mem_append.mp h
  · exact .inl h

lemma forall_legsPlan {P : Entry → Prop} (hname : ∀ n, P (.name n))
    (hrule : ∀ kind hop, kind ≠ .push → ∀ e ∈ ruleEntry kind vlanId [] hop, P e)
    (policyChain : List Str) : ∀ e ∈ (legsPlan net vlanId policyChain).1, P e := by
  induction policyChain with
  | nil => exact nofun
  | cons srcMb policyChain ih =>
      cases policyChain with
      | nil => exact nofun
      | cons dstMb policyChain =>
          intro e he
          rw [legsPlan] at he
          rcases andThen_fst_subset he with he | he
          · rw [legPlan] at he
            split at he
            · cases he
            · split at he
              · cases he
              · split at he
                · rcases List.mem_cons.mp he with rfl | he
                  · exact hname srcMb
                  · exact forall_legEntries hrule _ _ e he
                · obtain rfl := List.mem_singleton.mp he
                  exact hname srcMb
          · exact ih e he

lemma head_hops {g : Graph} {path : List Dpid} {inPort : Option Port} {outPort : Port} {hop : Hop}
    {rest : List Hop} (h : hops g path inPort outPort = hop :: rest) :
    path.head? = some hop.dpid ∧ hop.inPort = inPort := by
  match path with
  | [] => cases h
  | [dpid] =>
      cases h
      exact ⟨rfl, rfl⟩
  | dpid :: dpid' :: path =>
      rw [hops] at h
      cases h
      exact ⟨rfl, rfl⟩

/-- What is done to lead frames to the first middlebox: nothing, or the VLAN id is set at the
sender's switch, by the rules of the first hop, and matched at the other ones. -/
lemma firstLegPlan_eq (mbName senderHost : Str) :
    (firstLegPlan net mbName vlanId senderHost fields).1 = [] ∨
      ∃ hop rest port, net.hostsThatSendPackets senderHost = some (hop.dpid, port) ∧
        hop.inPort = some port ∧
        (firstLegPlan net mbName vlanId senderHost fields).1 =
          ruleEntry .push vlanId fields hop ++ rest ∧
        ∃ hs : List Hop, rest = hs.flatMap (ruleEntry .forward vlanId []) := by
  rw [firstLegPlan]
  rcases hsender : net.hostsThatSendPackets senderHost with _ | ⟨src, srcPort⟩
  · exact .inl rfl
  · rcases net.middleboxToSwitchMapping mbName with _ | ⟨dst, dstPort⟩
    · exact .inl rfl
    · cases hpath : pathBetween net.graph src dst with
      | none => exact .inl (by simp [hpath])
      | some path =>
          simp only [hpath]
          cases hhops : hops net.graph path (some srcPort) dstPort with
          | nil => exact .inl rfl
          | cons hop hops =>
              obtain ⟨hhead, hport⟩ := head_hops hhops
              have hdpid : hop.dpid = src := by
                rw [(isPath_of_pathBetween hpath).head] at hhead
                exact (Option.some.inj hhead).symm
              exact .inr ⟨hop, _, srcPort, by rw [hdpid], hport, rfl, hops, rfl⟩

/-- No entry is a rule that sets the VLAN id. -/
def NoPush (es : List Entry) : Prop := ∀ r, .rule r ∈ es → r.kind ≠ .push

/-- At most the first entry of a plan is a rule that sets the VLAN id, at the sender's switch. -/
lemma chainPlan_eq (policyChain senderHost : Str) :
    ∃ es, NoPush es ∧
      ((chainPlan net policyChain vlanId fields senderHost).1 = es ∨
        ∃ r port, r.kind = .push ∧ net.hostsThatSendPackets senderHost = some (r.dpid, port) ∧
          (chainPlan net policyChain vlanId fields senderHost).1 = .rule r :: es) := by
  have hnot : ∀ kind hop, kind ≠ .push → ∀ e ∈ ruleEntry kind vlanId [] hop,
      ∀ r, e = .rule r → r.kind ≠ .push := by
    intro kind hop hkind e he r hr
    obtain ⟨outPort, -, rfl⟩ := mem_ruleEntry he
    cases hr
    exact hkind
  have hlegs : NoPush (legsPlan net vlanId (policyChain.splitOn ',')).1 := fun r hr =>
    forall_legsPlan (P := fun e => ∀ r, e = .rule r → r.kind ≠ .push) nofun hnot _ _ hr r rfl
  have hmore : ∀ es es', NoPush es → NoPush es' → NoPush (es ++ es') := fun es es' h h' r hr =>
    (List.mem_append.mp hr).elim (h r) (h' r)
  rw [chainPlan, andThen]
  rcases @firstLegPlan_eq net vlanId fields ((policyChain.splitOn ',').headD []) senderHost with
    hnil | ⟨hop, rest, port, hsender, -, heq, hs, rfl⟩
  · rw [hnil]
    split_ifs
    · exact ⟨_, hlegs, .inl rfl⟩
    · exact ⟨[], nofun, .inl hnil⟩
  · have hrest : NoPush (hs.flatMap (ruleEntry .forward vlanId [])) := by
      intro r hr
      obtain ⟨hop', -, hr⟩ := List.mem_flatMap.mp hr
      exact hnot .forward hop' (by decide) _ hr r rfl
    cases hport : hop.outPort with
    | none =>
        have hempty : ruleEntry .push vlanId fields hop = [] := by simp [ruleEntry, hport]
        rw [hempty, List.nil_append] at heq
        split_ifs
        · exact ⟨_, hmore _ _ hrest hlegs, .inl (by rw [heq])⟩
        · exact ⟨_, hrest, .inl heq⟩
    | some outPort =>
        have hpush : ruleEntry .push vlanId fields hop = [.rule ⟨hop.dpid, .push, vlanId,
            ruleMatch .push fields vlanId hop.inPort, outPort⟩] := by simp [ruleEntry, hport]
        rw [hpush, List.singleton_append] at heq
        split_ifs
        · exact ⟨_, hmore _ _ hrest hlegs, .inr ⟨_, port, rfl, hsender, by rw [heq]; rfl⟩⟩
        · exact ⟨_, hrest, .inr ⟨_, port, rfl, hsender, heq⟩⟩

/-- Without a sender there is nothing to do. -/
lemma chainPlan_of_sender_eq_none {senderHost : Str}
    (h : net.hostsThatSendPackets senderHost = none) (policyChain : Str) (vlanId : ℕ)
    (fields : List Field) : chainPlan net policyChain vlanId fields senderHost = ([], false) := by
  simp [chainPlan, firstLegPlan, h, andThen]

/-- A rule that is there after the rules of a plan was there before, or is carried out. -/
lemma mem_urlopens_add {c : Controller} {es : List Entry} {r : Rule}
    (h : r ∈ (c.urlopens ((rulesOf es).map .add)).rules) :
    r ∈ c.rules ∨ .rule r ∈ carriedOut c.accepts c.posts.length es := by
  induction es generalizing c with
  | nil => exact .inl h
  | cons e es ih =>
      cases e with
      | name n => exact (ih h).imp_right (List.mem_cons_of_mem _)
      | rule r' =>
          rcases ih (c := (c.urlopen (.add r')).2) h with h | h
          · cases haccepts : c.accepts c.posts.length with
            | false => exact .inl (by simpa [Controller.urlopen, haccepts] using h)
            | true =>
                have h : r ∈ Post.apply c.rules (.add r') := by
                  simpa [Controller.urlopen, haccepts] using h
                rcases List.mem_append.mp h with h | h
                · exact .inl (List.mem_of_mem_filter h)
                · obtain rfl := List.mem_singleton.mp h
                  exact .inr (by simp [carriedOut, haccepts])
          · have hlength : (c.urlopen (.add r')).2.posts.length = c.posts.length + 1 := by
              simp [Controller.urlopen]
            rw [hlength] at h
            rw [carriedOut]
            split_ifs
            · exact .inr (List.mem_cons_of_mem _ h)
            · exact .inr h

/-- A rule that sets the VLAN id is carried out first, at the sender's switch. -/
lemma first_of_carriedOut {accepts : ℕ → Bool} {i : ℕ} {policyChain senderHost : Str} {r : Rule}
    (h : .rule r ∈ carriedOut accepts i (chainPlan net policyChain vlanId fields senderHost).1)
    (hpush : r.kind = .push) :
    ((carriedOut accepts i (chainPlan net policyChain vlanId fields senderHost).1).map
        Entry.flowEntry)[0]? = some (.switch r.dpid) ∧
      ∃ port, net.hostsThatSendPackets senderHost = some (r.dpid, port) := by
  obtain ⟨es, hes, heq | ⟨r', port, hpush', hsender, heq⟩⟩ :=
    @chainPlan_eq net vlanId fields policyChain senderHost
  · rw [heq] at h
    exact absurd hpush (hes r ((carriedOut_sublist i es).subset h))
  · rw [heq, carriedOut] at h ⊢
    split_ifs at h ⊢
    · rcases List.mem_cons.mp h with h | h
      · cases h
        exact ⟨rfl, port, hsender⟩
      · exact absurd hpush (hes r ((carriedOut_sublist (i + 1) es).subset h))
    · exact absurd hpush (hes r ((carriedOut_sublist (i + 1) es).subset h))

/-- A rule that does not set the VLAN id asks for it. -/
lemma lookup_ruleMatch {kind : RuleKind} (hkind : kind ≠ .push) (inPort : Option Port) :
    (ruleMatch kind fields vlanId inPort).lookup dlVlan = some (str vlanId) := by
  cases kind with
  | push => exact absurd rfl hkind
  | forward => cases inPort <;> rfl
  | pop => rfl

/-- The rules of a plan belong to its chain, and ask for its VLAN id if they do not set it. -/
lemma rule_of_chainPlan {policyChain senderHost : Str} {r : Rule}
    (h : .rule r ∈ (chainPlan net policyChain vlanId fields senderHost).1) :
    r.vlanId = vlanId ∧ (r.kind ≠ .push → r.fields.lookup dlVlan = some (str vlanId)) := by
  have hentry : ∀ kind fields hop, ∀ e ∈ ruleEntry kind vlanId fields hop, ∀ r, e = .rule r →
      r.vlanId = vlanId ∧ (r.kind ≠ .push → r.fields.lookup dlVlan = some (str vlanId)) := by
    intro kind fields hop e he r hr
    obtain ⟨outPort, -, rfl⟩ := mem_ruleEntry he
    cases hr
    exact ⟨rfl, fun hkind => lookup_ruleMatch hkind _⟩
  rcases andThen_fst_subset h with h | h
  · rcases @firstLegPlan_eq net vlanId fields ((policyChain.splitOn ',').headD []) senderHost with
      hnil | ⟨hop, rest, port, -, -, heq, hs, rfl⟩
    · rw [hnil] at h
      cases h
    · rw [heq] at h
      rcases List.mem_append.mp h with h | h
      · exact hentry _ _ hop _ h r rfl
      · obtain ⟨hop', -, h⟩ := List.mem_flatMap.mp h
        exact hentry _ _ hop' _ h r rfl
  · exact forall_legsPlan (P := fun e => ∀ r, e = .rule r → r.vlanId = vlanId ∧
      (r.kind ≠ .push → r.fields.lookup dlVlan = some (str vlanId))) nofun
      (fun kind hop _ => hentry kind [] hop) _ _ h r rfl

end

/-! ### When a plan comes to an end -/

/-- From a switch the middleboxes can be reached one after the other. -/
def reaches (net : Topology) : Dpid → List Str → Bool
  | _, [] => true
  | dpid, mb :: mbs =>
      match net.middleboxToSwitchMapping mb with
      | none => false
      | some (dpid', _) => (pathBetween net.graph dpid dpid').isSome && reaches net dpid' mbs

/-- The sender and the middleboxes of a chain are known, and there is a path from each of them to
the next one. -/
def installable (net : Topology) (senderHost policyChain : Str) : Bool :=
  match net.hostsThatSendPackets senderHost with
  | none => false
  | some (dpid, _) => reaches net dpid (policyChain.splitOn ',')

lemma andThen_snd (plan plan' : List Entry × Bool) :
    (andThen plan plan').2 = (plan.2 && plan'.2) := by
  rw [andThen]
  cases h : plan.2 <;> simp [h]

lemma legsPlan_snd {net : Topology} {vlanId : ℕ} {mb : Str} {dpid : Dpid} {port : Port}
    (hmb : net.middleboxToSwitchMapping mb = some (dpid, port)) (mbs : List Str) :
    (legsPlan net vlanId (mb :: mbs)).2 = reaches net dpid mbs := by
  induction mbs generalizing mb dpid port with
  | nil => rfl
  | cons mb' mbs ih =>
      rw [legsPlan, andThen_snd, reaches, legPlan]
      simp only [hmb]
      rcases hmb' : net.middleboxToSwitchMapping mb' with _ | ⟨dpid', port'⟩
      · rfl
      · rw [ih hmb']
        cases hpath : pathBetween net.graph dpid dpid' <;> simp [hpath]

/-- A plan comes to an end exactly if the chain can be installed. -/
lemma chainPlan_snd (net : Topology) (policyChain : Str) (vlanId : ℕ) (fields : List Field)
    (senderHost : Str) :
    (chainPlan net policyChain vlanId fields senderHost).2 =
      installable net senderHost policyChain := by
  rw [chainPlan, andThen_snd, installable, firstLegPlan]
  obtain ⟨mb, mbs, hsplit⟩ := List.exists_cons_of_ne_nil (List.splitOn_ne_nil ',' policyChain)
  rw [hsplit, List.headD_cons]
  rcases net.hostsThatSendPackets senderHost with _ | ⟨src, srcPort⟩
  · rfl
  · simp only [reaches]
    rcases hmb : net.middleboxToSwitchMapping mb with _ | ⟨dst, dstPort⟩
    · rfl
    · rw [legsPlan_snd hmb]
      cases hpath : pathBetween net.graph src dst <;> simp [hpath]

end FtThesis.Tsa
