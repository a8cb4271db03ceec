/-
Does a replacement replace exactly one middlebox?

* `addedFields`: the match fields with which a chain was added;
* `chainRules`, `installedRules`: the rules of a chain, and those that its installation leaves;
* `ReplacesExactly`: what a replacement should do to the chains and to their rules;
* `rewriteRequests`, `rewriteRound`: what is requested for a chain that gets a new text;
* `Separable`: the names can be told apart in the texts, and the rules in the tables;
* `foldl_replaceIn_of_success`: what a replacement that succeeds has done;
* `mem_rewrite_rules`: the rules of a chain after the requests for all chains;
* `replacesExactly_iff`: a replacement does what it should exactly if the chains are separable;
* `not_replacesExactly`: a name that begins another one.
-/
import FtThesis.Tsa.Rounds
import FtThesis.Tsa.Texts

namespace FtThesis.Tsa

open Transition TsaBE

/-! ### The property -/

/-- The match fields of the last add for a key. -/
def addedFields (es : List Event) (key : Str) : Option (List Field) :=
  es.reverse.findSome? fun e =>
    match e.command with
    | .addPolicyChain requestArgs =>
        (requestOf requestArgs).bind fun r => if r.key = key then some r.matchFields else none
    | _ => none

/-- The rules of a chain, in the order in which they are added. -/
def chainRules (net : Topology) (mbs : List Str) (vlanId : ℕ) (fields : List Field)
    (senderHost : Str) : List Rule :=
  rulesOf (chainPlan net (commas mbs) vlanId fields senderHost).1

/-- The rules that are there after a chain was installed in empty tables. -/
def installedRules (net : Topology) (mbs : List Str) (vlanId : ℕ) (fields : List Field)
    (senderHost : Str) : List Rule :=
  ((chainRules net mbs vlanId fields senderHost).map .add).foldl Post.apply []

/-- The middleboxes of a chain. -/
def ChainData.mbs (d : ChainData) : List Str := d.policyChain.splitOn ','

/-- Each chain has the new middlebox in place of the old one and is else as before, and its rules
are those of the new chain.  A chain without the old middlebox has its rules from before. -/
structure ReplacesExactly (net : Topology) (es : List Event) (s t : TsaBE)
    (oldMbName newMbName : Str) : Prop where
  none : ∀ key, s.policyChainKeyToData key = none → t.policyChainKeyToData key = none
  others : ∀ key d, s.policyChainKeyToData key = some d → oldMbName ∉ d.mbs →
    t.policyChainKeyToData key = some d ∧
      ∀ r, r.vlanId = d.vlanId → (r ∈ t.controller.rules ↔ r ∈ s.controller.rules)
  chains : ∀ key d, s.policyChainKeyToData key = some d → oldMbName ∈ d.mbs →
    ∃ d' fields, t.policyChainKeyToData key = some d' ∧
      d'.mbs = substitute oldMbName newMbName d.mbs ∧ d'.vlanId = d.vlanId ∧
      senderOf d'.fullFlow = senderOf d.fullFlow ∧ addedFields es key = some fields ∧
      ∀ r, r.vlanId = d.vlanId → (r ∈ t.controller.rules ↔
        r ∈ installedRules net d'.mbs d.vlanId fields (senderOf d.fullFlow))

/-! ### The condition -/

/-- What is requested for the chain of a key that has the middlebox: its rules are deleted, and
those of its new text are added. -/
def rewriteRequests (net : Topology) (s : TsaBE) (oldMbName : Str) (rewrite : Str → Str)
    (key : Str) : List Post :=
  match s.policyChainKeyToData key with
  | none => []
  | some d =>
      if d.mbs.contains oldMbName then
        let fields := (getMatchFieldsFromKey key).getD []
        let senderHost := senderOf d.fullFlow
        (deletePosts net senderHost d.vlanId fields 0 d.fullFlow).getD [] ++
          (rulesOf (chainPlan net (rewrite d.policyChain) d.vlanId fields senderHost).1).map .add
      else []

/-- The text of a chain with the new middlebox in place of the old one. -/
def substituted (oldMbName newMbName policyChain : Str) : Str :=
  commas (substitute oldMbName newMbName (policyChain.splitOn ','))

/-- What should be requested for the chains of some keys. -/
def replacementRequests (net : Topology) (s : TsaBE) (oldMbName newMbName : Str)
    (keys : List Str) : List Post :=
  keys.flatMap (rewriteRequests net s oldMbName (substituted oldMbName newMbName))

/-- The new name has no comma, and in the chains with the old name no other name contains it,
unless the names are the same. -/
def NamesApart (s : TsaBE) (oldMbName newMbName : Str) : Prop :=
  ∀ key d, s.policyChainKeyToData key = some d → oldMbName ∈ d.mbs → ',' ∉ newMbName ∧
    (oldMbName = newMbName ∨ ∀ mb ∈ d.mbs, oldMbName <:+: mb → mb = oldMbName)

/-- The names can be told apart; each rule of a chain with the old middlebox is reached by a
request, or is one of the new rules; no request for a later chain reaches a new rule; and no request
reaches a rule of a chain without the old middlebox. -/
structure Separable (net : Topology) (s : TsaBE) (keys : List Str) (oldMbName newMbName : Str) :
    Prop where
  names : NamesApart s oldMbName newMbName
  cleared : ∀ key d fields, s.policyChainKeyToData key = some d → oldMbName ∈ d.mbs →
    getMatchFieldsFromKey key = some fields →
    ∀ r ∈ s.controller.rules, r.vlanId = d.vlanId →
      (∃ p ∈ replacementRequests net s oldMbName newMbName keys, p.Reaches r) ∨
        r ∈ installedRules net (substitute oldMbName newMbName d.mbs) d.vlanId fields
          (senderOf d.fullFlow)
  kept : ∀ before key after d fields, keys = before ++ key :: after →
    s.policyChainKeyToData key = some d → oldMbName ∈ d.mbs →
    getMatchFieldsFromKey key = some fields →
    ∀ r ∈ installedRules net (substitute oldMbName newMbName d.mbs) d.vlanId fields
        (senderOf d.fullFlow),
      ∀ p ∈ replacementRequests net s oldMbName newMbName after, ¬ p.Reaches r
  spared : ∀ key d, s.policyChainKeyToData key = some d → oldMbName ∉ d.mbs →
    ∀ r ∈ s.controller.rules, r.vlanId = d.vlanId →
      ∀ p ∈ replacementRequests net s oldMbName newMbName keys, ¬ p.Reaches r

/-! ### What a replacement has done -/

/-- The chains of some keys that have the middlebox were rewritten. -/
structure Rewrites (net : Topology) (s t : TsaBE) (oldMbName : Str) (rewrite : Str → Str)
    (keys : List Str) : Prop where
  requests : t.controller =
    s.controller.urlopens (keys.flatMap (rewriteRequests net s oldMbName rewrite))
  same : ∀ key, (∀ d, s.policyChainKeyToData key = some d → key ∈ keys → oldMbName ∉ d.mbs) →
    t.policyChainKeyToData key = s.policyChainKeyToData key
  chain : ∀ key ∈ keys, ∀ d, s.policyChainKeyToData key = some d → oldMbName ∈ d.mbs →
    (∃ fields posts, getMatchFieldsFromKey key = some fields ∧
      deletePosts net (senderOf d.fullFlow) d.vlanId fields 0 d.fullFlow = some posts) ∧
    ∃ flow, t.policyChainKeyToData key =
      some ⟨rewrite d.policyChain, d.vlanId, .name (senderOf d.fullFlow) :: flow⟩

section

variable {net : Topology} {s t : TsaBE} {oldMbName newMbName key : Str}

/-- A replacement for one key that succeeds. -/
lemma replaceMasterMB_of_success (h : s.replaceMasterMB net oldMbName newMbName key = (true, t)) :
    ∃ d fields posts flow, s.policyChainKeyToData key = some d ∧
      getMatchFieldsFromKey key = some fields ∧
      deletePosts net (senderOf d.fullFlow) d.vlanId fields 0 d.fullFlow = some posts ∧
      t.policyChainKeyToData = Function.update s.policyChainKeyToData key (some
        ⟨replace d.policyChain oldMbName newMbName, d.vlanId,
          .name (senderOf d.fullFlow) :: flow⟩) ∧
      t.controller = s.controller.urlopens (posts ++ (rulesOf (chainPlan net
        (replace d.policyChain oldMbName newMbName) d.vlanId fields
        (senderOf d.fullFlow)).1).map .add) := by
  rcases replaceMasterMB_cases net s oldMbName newMbName key with
    hr | ⟨d, fields, posts, hd, hfields, hposts, hr⟩
  · rw [h] at hr
    cases hr
  · rw [h] at hr
    have hascii : isAscii key = true := by
      by_contra hascii
      rw [installPolicyChainRules, if_neg hascii] at hr
      cases hr
    obtain ⟨visited, hinstall⟩ := installPolicyChainRules_eq net
      { s with controller := s.controller.urlopens posts } hascii
      (replace d.policyChain oldMbName newMbName) d.vlanId fields (senderOf d.fullFlow)
    rw [hinstall] at hr
    obtain ⟨-, rfl⟩ := Prod.mk.inj hr
    exact ⟨d, fields, posts, _, hd, hfields, hposts, rfl, (urlopens_append _ _).symm⟩

lemma rewriteRequests_of_not_mem (rewrite : Str → Str)
    (h : ∀ d, s.policyChainKeyToData key = some d → oldMbName ∉ d.mbs) :
    rewriteRequests net s oldMbName rewrite key = [] := by
  rw [rewriteRequests]
  cases hd : s.policyChainKeyToData key with
  | none => rfl
  | some d => simp [h d hd]

lemma rewriteRequests_of_mem (rewrite : Str → Str) {d : ChainData}
    (hd : s.policyChainKeyToData key = some d) (hmem : oldMbName ∈ d.mbs) {fields : List Field}
    (hfields : getMatchFieldsFromKey key = some fields) {posts : List Post}
    (hposts : deletePosts net (senderOf d.fullFlow) d.vlanId fields 0 d.fullFlow = some posts) :
    rewriteRequests net s oldMbName rewrite key = posts ++ (rulesOf (chainPlan net
      (rewrite d.policyChain) d.vlanId fields (senderOf d.fullFlow)).1).map .add := by
  simp [rewriteRequests, hd, hmem, hfields, hposts]

/-- A chain without the middlebox is not rewritten. -/
lemma rewrites_of_not_mem (rewrite : Str → Str)
    (h : ∀ d, s.policyChainKeyToData key = some d → oldMbName ∉ d.mbs) :
    Rewrites net s s oldMbName rewrite [key] := by
  refine ⟨?_, fun _ _ => rfl, fun k hk d hd hmem => ?_⟩
  · simp [rewriteRequests_of_not_mem rewrite h, Controller.urlopens]
  · obtain rfl := List.mem_singleton.mp hk
    exact absurd hmem (h d hd)

/-- A round of the loop that ends with success. -/
lemma replaceIn_of_success {ok : Bool}
    (h : replaceIn net oldMbName newMbName (ok, s) key = (true, t)) :
    ok = true ∧ Rewrites net s t oldMbName (replace · oldMbName newMbName) [key] := by
  have hskip : (∀ d, s.policyChainKeyToData key = some d → oldMbName ∉ d.mbs) →
      (ok, s) = (true, t) →
      ok = true ∧ Rewrites net s t oldMbName (replace · oldMbName newMbName) [key] := by
    rintro hno heq
    obtain ⟨rfl, rfl⟩ := Prod.mk.inj heq
    exact ⟨rfl, rewrites_of_not_mem _ hno⟩
  rw [replaceIn] at h
  cases hd : s.policyChainKeyToData key with
  | none =>
      simp only [hd] at h
      exact hskip (by simp [hd]) h
  | some d =>
      simp only [hd] at h
      by_cases hmem : oldMbName ∈ d.policyChain.splitOn ','
      · rw [if_pos hmem] at h
        rcases hreplace : s.replaceMasterMB net oldMbName newMbName key with ⟨replaced, u⟩
        rw [hreplace] at h
        obtain ⟨hok, rfl⟩ := Prod.mk.inj h
        obtain ⟨rfl, rfl⟩ := (Bool.and_eq_true _ _).mp hok
        obtain ⟨d', fields, posts, flow, hd', hfields, hposts, hdata, hcontroller⟩ :=
          replaceMasterMB_of_success hreplace
        obtain rfl := Option.some.inj (hd.symm.trans hd')
        refine ⟨rfl, ?_, fun k hk => ?_, fun k hk d₁ hd₁ _ => ?_⟩
        · rw [hcontroller, List.flatMap_singleton, rewriteRequests_of_mem _ hd hmem hfields hposts]
        · have hne : k ≠ key := by
            rintro rfl
            exact hk d hd List.mem_cons_self hmem
          rw [hdata, Function.update_of_ne hne]
        · obtain rfl := List.mem_singleton.mp hk
          obtain rfl := Option.some.inj (hd.symm.trans hd₁)
          exact ⟨⟨fields, posts, hfields, hposts⟩, flow, by rw [hdata, Function.update_self]⟩
      · rw [if_neg hmem] at h
        exact hskip (fun d' hd' => by
          obtain rfl := Option.some.inj (hd.symm.trans hd')
          exact hmem) h

/-- A loop that ends with success has rewritten all chains. -/
lemma foldl_replaceIn_of_success {keys : List Str} (hnodup : keys.Nodup) {ok : Bool}
    (h : keys.foldl (replaceIn net oldMbName newMbName) (ok, s) = (true, t)) :
    ok = true ∧ Rewrites net s t oldMbName (replace · oldMbName newMbName) keys := by
  induction keys generalizing s ok with
  | nil =>
      obtain ⟨rfl, rfl⟩ := Prod.mk.inj h
      exact ⟨rfl, rfl, fun _ _ => rfl, nofun⟩
  | cons key keys ih =>
      obtain ⟨hkey, hnodup⟩ := List.nodup_cons.mp hnodup
      rw [List.foldl_cons] at h
      rcases hround : replaceIn net oldMbName newMbName (ok, s) key with ⟨ok', u⟩
      rw [hround] at h
      obtain ⟨rfl, hrest⟩ := ih hnodup h
      obtain ⟨rfl, hfirst⟩ := replaceIn_of_success hround
      have hother : ∀ k, k ≠ key → u.policyChainKeyToData k = s.policyChainKeyToData k :=
        fun k hne => hfirst.same k fun d hd hk => absurd (List.mem_singleton.mp hk) hne
      have hrequests : ∀ k ∈ keys, rewriteRequests net u oldMbName
          (replace · oldMbName newMbName) k =
          rewriteRequests net s oldMbName (replace · oldMbName newMbName) k := by
        intro k hk
        have hne : k ≠ key := fun heq => hkey (heq ▸ hk)
        rw [rewriteRequests, rewriteRequests, hother k hne]
      refine ⟨rfl, ?_, fun k hk => ?_, fun k hk d hd hmem => ?_⟩
      · rw [hrest.requests, hfirst.requests, List.flatMap_singleton, ← urlopens_append,
          List.flatMap_cons, List.flatMap_congr hrequests]
      · rw [hrest.same k fun d hd hk' => ?_, hfirst.same k fun d hd hk' => ?_]
        · exact hk d hd (List.mem_cons.mpr (.inl (List.mem_singleton.mp hk')))
        · have hne : k ≠ key := fun heq => hkey (heq ▸ hk')
          exact hk d (by rw [← hother k hne, hd]) (List.mem_cons_of_mem _ hk')
      · rcases List.mem_cons.mp hk with rfl | hk
        · obtain ⟨hfields, flow, hdata⟩ := hfirst.chain k (by simp) d hd hmem
          refine ⟨hfields, flow, ?_⟩
          rw [hrest.same k fun _ _ hk => absurd hk hkey, hdata]
        · have hne : k ≠ key := fun heq => hkey (heq ▸ hk)
          exact hrest.chain k hk d (by rw [hother k hne, hd]) hmem

/-! ### The rules after the requests -/

/-- The round of a chain that is uninstalled and gets a new text. -/
def rewriteRound (net : Topology) (s : TsaBE) (oldMbName : Str) (rewrite : Str → Str)
    (key : Str) : Option Round :=
  match s.policyChainKeyToData key with
  | none => none
  | some d =>
      if d.mbs.contains oldMbName then
        let fields := (getMatchFieldsFromKey key).getD []
        let senderHost := senderOf d.fullFlow
        some
          { key := key
            vlanId := d.vlanId
            deletes := (deletePosts net senderHost d.vlanId fields 0 d.fullFlow).getD []
            adds := rulesOf
              (chainPlan net (rewrite d.policyChain) d.vlanId fields senderHost).1
            deletes_only := deletes_of_getD
            adds_vlanId := fun _ hr => (rule_of_chainPlan (mem_rulesOf.mp hr)).1 }
      else none

/-- The requests for some chains are those of their rounds. -/
lemma flatMap_rewriteRequests (rewrite : Str → Str) (keys : List Str) :
    keys.flatMap (rewriteRequests net s oldMbName rewrite) =
      requestsOf (keys.filterMap (rewriteRound net s oldMbName rewrite)) := by
  induction keys with
  | nil => rfl
  | cons key keys ih =>
      rw [List.flatMap_cons, ih, List.filterMap_cons, rewriteRequests, rewriteRound]
      cases s.policyChainKeyToData key with
      | none => rfl
      | some d =>
          simp only
          split_ifs <;> rfl

/-- The key and the VLAN id of a round are those of a chain with the middlebox. -/
lemma exists_of_rewriteRound {rewrite : Str → Str} {w : Round}
    (h : rewriteRound net s oldMbName rewrite key = some w) :
    w.key = key ∧ ∃ d, s.policyChainKeyToData key = some d ∧ oldMbName ∈ d.mbs ∧
      w.vlanId = d.vlanId := by
  rw [rewriteRound] at h
  cases hd : s.policyChainKeyToData key with
  | none => simp [hd] at h
  | some d =>
      simp only [hd] at h
      split_ifs at h with hmem
      obtain rfl := Option.some.inj h
      exact ⟨rfl, d, rfl, List.contains_iff_mem.mp hmem, rfl⟩

/-- The round of a chain with the middlebox, and the rules that it leaves. -/
lemma exists_rewriteRound (rewrite : Str → Str) {d : ChainData}
    (hd : s.policyChainKeyToData key = some d) (hmem : oldMbName ∈ d.mbs) {fields : List Field}
    (hfields : getMatchFieldsFromKey key = some fields) :
    ∃ w, rewriteRound net s oldMbName rewrite key = some w ∧ w.vlanId = d.vlanId ∧
      w.rules = ((rulesOf (chainPlan net (rewrite d.policyChain) d.vlanId fields
        (senderOf d.fullFlow)).1).map .add).foldl Post.apply [] := by
  simp only [rewriteRound, hd, List.contains_iff_mem, if_pos hmem, hfields, Option.getD_some]
  exact ⟨_, rfl, rfl, rfl⟩

/-- The rounds of different keys have different VLAN ids. -/
lemma nodup_rewriteRounds (hdistinct : s.index.Distinct) (rewrite : Str → Str) {keys : List Str}
    (hnodup : keys.Nodup) :
    ((keys.filterMap (rewriteRound net s oldMbName rewrite)).map Round.vlanId).Nodup := by
  induction keys with
  | nil => exact List.nodup_nil
  | cons key keys ih =>
      obtain ⟨hkey, hnodup⟩ := List.nodup_cons.mp hnodup
      rw [List.filterMap_cons]
      cases hw : rewriteRound net s oldMbName rewrite key with
      | none => exact ih hnodup
      | some w =>
          refine List.nodup_cons.mpr ⟨fun hmem => ?_, ih hnodup⟩
          obtain ⟨w', hw', heq⟩ := List.mem_map.mp hmem
          obtain ⟨key', hkey', hround⟩ := List.mem_filterMap.mp hw'
          obtain ⟨-, d, hd, -, hv⟩ := exists_of_rewriteRound hw
          obtain ⟨-, d', hd', -, hv'⟩ := exists_of_rewriteRound hround
          obtain rfl : key' = key := hdistinct.inj key' key d.vlanId
            (by simp [index, hd', ← hv', heq, hv]) (by simp [index, hd])
          exact hkey hkey'

/-- No rule of a chain without the middlebox is added. -/
lemma not_add_of_not_mem (hdistinct : s.index.Distinct) {rewrite : Str → Str} {d : ChainData}
    (hd : s.policyChainKeyToData key = some d) {keys : List Str} (hno : oldMbName ∉ d.mbs)
    {r : Rule} (hr : r.vlanId = d.vlanId) :
    .add r ∉ keys.flatMap (rewriteRequests net s oldMbName rewrite) := by
  rw [flatMap_rewriteRequests]
  refine not_add_of_ne fun w hw heq => ?_
  obtain ⟨key', -, hround⟩ := List.mem_filterMap.mp hw
  obtain ⟨-, d', hd', hmem, hv⟩ := exists_of_rewriteRound hround
  obtain rfl : key' = key := hdistinct.inj key' key d.vlanId
    (by simp [index, hd', ← hv, heq, hr]) (by simp [index, hd])
  obtain rfl := Option.some.inj (hd.symm.trans hd')
  exact hno hmem

/-- The rules of a chain after all requests: those from before that no request reaches, and the new
ones that no request for a later chain reaches. -/
lemma mem_rewrite_rules (hdistinct : s.index.Distinct) {rewrite : Str → Str} {d : ChainData}
    (hd : s.policyChainKeyToData key = some d) (hmem : oldMbName ∈ d.mbs) {fields : List Field}
    (hfields : getMatchFieldsFromKey key = some fields)
    {mbs : List Str} (hrewrite : rewrite d.policyChain = commas mbs) {before after : List Str}
    (hnodup : (before ++ key :: after).Nodup) {rules : List Rule} {r : Rule}
    (hr : r.vlanId = d.vlanId) :
    r ∈ ((before ++ key :: after).flatMap
        (rewriteRequests net s oldMbName rewrite)).foldl Post.apply rules ↔
      (r ∈ rules ∧ ∀ p ∈ (before ++ key :: after).flatMap
          (rewriteRequests net s oldMbName rewrite), ¬ p.Reaches r) ∨
        r ∈ installedRules net mbs d.vlanId fields (senderOf d.fullFlow) ∧
          ∀ p ∈ after.flatMap (rewriteRequests net s oldMbName rewrite), ¬ p.Reaches r := by
  obtain ⟨w, hw, hvlan, hrules⟩ := @exists_rewriteRound net _ _ _ rewrite _ hd hmem _ hfields
  rw [hrewrite] at hrules
  have hsplit : (before ++ key :: after).filterMap (rewriteRound net s oldMbName rewrite) =
      before.filterMap (rewriteRound net s oldMbName rewrite) ++
        w :: after.filterMap (rewriteRound net s oldMbName rewrite) := by
    rw [List.filterMap_append, List.filterMap_cons, hw]
  have hvlans := @nodup_rewriteRounds net s oldMbName hdistinct rewrite _ hnodup
  rw [hsplit] at hvlans
  rw [installedRules, chainRules, ← hrules]
  simp only [flatMap_rewriteRequests, hsplit]
  exact mem_foldl_requestsOf hvlans (hr.trans hvlan.symm)

lemma rewriteRequests_congr {rewrite rewrite' : Str → Str}
    (h : ∀ d, s.policyChainKeyToData key = some d → oldMbName ∈ d.mbs →
      rewrite d.policyChain = rewrite' d.policyChain) :
    rewriteRequests net s oldMbName rewrite key = rewriteRequests net s oldMbName rewrite' key := by
  rw [rewriteRequests, rewriteRequests]
  cases hd : s.policyChainKeyToData key with
  | none => rfl
  | some d =>
      simp only
      split_ifs with hmem
      · rw [h d hd (List.contains_iff_mem.mp hmem)]
      · rfl

/-- If the names can be told apart, the texts are what they should be. -/
lemma NamesApart.replace_eq (h : NamesApart s oldMbName newMbName) {d : ChainData}
    (hd : s.policyChainKeyToData key = some d) (hmem : oldMbName ∈ d.mbs) :
    replace d.policyChain oldMbName newMbName = substituted oldMbName newMbName d.policyChain := by
  have hsplit := (splitOn_replace_iff hmem).mpr (h key d hd hmem)
  have hjoin : commas ((replace d.policyChain oldMbName newMbName).splitOn ',') =
      replace d.policyChain oldMbName newMbName := List.intercalate_splitOn ','
  rw [substituted, ← hsplit, hjoin]

lemma vlanId_of_mem_installedRules {mbs : List Str} {vlanId : ℕ} {fields : List Field}
    {senderHost : Str} {r : Rule} (h : r ∈ installedRules net mbs vlanId fields senderHost) :
    r.vlanId = vlanId := by
  rcases mem_foldl_apply_adds.mp h with ⟨h, -⟩ | ⟨before, after, heq, -⟩
  · cases h
  · have hmem : r ∈ chainRules net mbs vlanId fields senderHost := by simp [heq]
    exact (rule_of_chainPlan (mem_rulesOf.mp hmem)).1

/-! ### Replacements that succeed -/

variable {e : Event}

lemma rewrites_of_success (horder : e.InOrder s) {response : Response}
    (hresult : (s.begin e).doHandleReplacingMasterMB net oldMbName newMbName e.keys =
      (some response, t)) (hsuccess : response.success = true) :
    Rewrites net (s.begin e) t oldMbName (replace · oldMbName newMbName) e.keys := by
  rw [doHandleReplacingMasterMB] at hresult
  split_ifs at hresult
  · rcases hloop : e.keys.foldl (replaceIn net oldMbName newMbName) (true, s.begin e) with ⟨ok, u⟩
    rw [hloop] at hresult
    cases ok with
    | false =>
        obtain ⟨hresponse, -⟩ := Prod.mk.inj hresult
        obtain rfl := Option.some.inj hresponse
        cases hsuccess
    | true =>
        obtain ⟨-, rfl⟩ := Prod.mk.inj hresult
        exact (foldl_replaceIn_of_success horder.nodup_keys hloop).2
  · cases (Prod.mk.inj hresult).1

section

variable (hrewrites : Rewrites net (s.begin e) t oldMbName (replace · oldMbName newMbName) e.keys)

include hrewrites

/-- The text of a chain with the old middlebox after a replacement. -/
lemma mbs_of_rewrites_iff (hkey : key ∈ e.keys) {d : ChainData}
    (hd : s.policyChainKeyToData key = some d) (hmem : oldMbName ∈ d.mbs) :
    ∃ d', t.policyChainKeyToData key = some d' ∧ d'.vlanId = d.vlanId ∧
      senderOf d'.fullFlow = senderOf d.fullFlow ∧
      (d'.mbs = substitute oldMbName newMbName d.mbs ↔ ',' ∉ newMbName ∧
        (oldMbName = newMbName ∨ ∀ mb ∈ d.mbs, oldMbName <:+: mb → mb = oldMbName)) := by
  obtain ⟨-, flow, hdata⟩ := hrewrites.chain key hkey d hd hmem
  exact ⟨_, hdata, rfl, rfl, splitOn_replace_iff hmem⟩

/-- If the replacement does what it should, the names can be told apart. -/
lemma namesApart_of_replacesExactly {es : List Event}
    (hkeys : ∀ key d, s.policyChainKeyToData key = some d → key ∈ e.keys)
    (h : ReplacesExactly net es s t oldMbName newMbName) : NamesApart s oldMbName newMbName := by
  intro key d hd hmem
  obtain ⟨d', hd', -, -, hiff⟩ := mbs_of_rewrites_iff hrewrites (hkeys key d hd) hd hmem
  obtain ⟨d'', -, hd'', hmbs, -⟩ := h.chains key d hd hmem
  obtain rfl := Option.some.inj (hd'.symm.trans hd'')
  exact hiff.mp hmbs

variable (hnames : NamesApart s oldMbName newMbName)
  (haccepts : ∀ i, i < (replacementRequests net s oldMbName newMbName e.keys).length →
    e.accepts i = true)

include hnames haccepts

/-- The rules after a replacement whose requests are accepted. -/
lemma rules_of_rewrites :
    t.controller.rules = (replacementRequests net s oldMbName newMbName e.keys).foldl Post.apply
      s.controller.rules := by
  have hrequests : e.keys.flatMap
      (rewriteRequests net (s.begin e) oldMbName (replace · oldMbName newMbName)) =
      replacementRequests net s oldMbName newMbName e.keys :=
    List.flatMap_congr fun key _ => rewriteRequests_congr (s := s.begin e) fun d hd hmem =>
      hnames.replace_eq hd hmem
  have haccepting : (s.begin e).controller.Accepting
      (replacementRequests net s oldMbName newMbName e.keys).length := fun i hi => by
    simpa [TsaBE.begin] using haccepts i hi
  rw [hrewrites.requests, hrequests, (urlopens_of_accepting haccepting).1]
  rfl

variable (hdistinct : s.index.Distinct)

include hdistinct

/-- The rules of a chain without the old middlebox after a replacement. -/
lemma mem_rules_of_rewrites_other {d : ChainData} (hd : s.policyChainKeyToData key = some d)
    (hmem : oldMbName ∉ d.mbs) {r : Rule} (hr : r.vlanId = d.vlanId) :
    r ∈ t.controller.rules ↔ r ∈ s.controller.rules ∧
      ∀ p ∈ replacementRequests net s oldMbName newMbName e.keys, ¬ p.Reaches r := by
  rw [rules_of_rewrites hrewrites hnames haccepts]
  exact mem_foldl_apply_of_not_add (not_add_of_not_mem hdistinct hd hmem hr)

variable (hnodup : e.keys.Nodup)

include hnodup

/-- The rules of a chain with the old middlebox after a replacement. -/
lemma mem_rules_of_rewrites {d : ChainData} (hd : s.policyChainKeyToData key = some d)
    (hmem : oldMbName ∈ d.mbs) {fields : List Field}
    (hfields : getMatchFieldsFromKey key = some fields) {before after : List Str}
    (hkeys : e.keys = before ++ key :: after) {r : Rule} (hr : r.vlanId = d.vlanId) :
    r ∈ t.controller.rules ↔
      (r ∈ s.controller.rules ∧
        ∀ p ∈ replacementRequests net s oldMbName newMbName e.keys, ¬ p.Reaches r) ∨
      r ∈ installedRules net (substitute oldMbName newMbName d.mbs) d.vlanId fields
          (senderOf d.fullFlow) ∧
        ∀ p ∈ replacementRequests net s oldMbName newMbName after, ¬ p.Reaches r := by
  obtain ⟨⟨fields', -, hfields', -⟩, -⟩ :=
    hrewrites.chain key (by simp [hkeys]) d hd hmem
  obtain rfl := Option.some.inj (hfields.symm.trans hfields')
  rw [rules_of_rewrites hrewrites hnames haccepts, replacementRequests, hkeys]
  rw [hkeys] at hnodup
  exact mem_rewrite_rules hdistinct hd hmem hfields rfl hnodup hr

variable {es : List Event} (hkeys : ∀ key d, s.policyChainKeyToData key = some d → key ∈ e.keys)
  (hread : ∀ key d, s.policyChainKeyToData key = some d → oldMbName ∈ d.mbs →
    getMatchFieldsFromKey key = addedFields es key)

include hkeys hread

/-- If the replacement does what it should, the chains are separable. -/
lemma separable_of_replacesExactly (h : ReplacesExactly net es s t oldMbName newMbName) :
    Separable net s e.keys oldMbName newMbName := by
  have hchain : ∀ key d fields, s.policyChainKeyToData key = some d → oldMbName ∈ d.mbs →
      getMatchFieldsFromKey key = some fields → ∀ r, r.vlanId = d.vlanId →
        (r ∈ t.controller.rules ↔ r ∈ installedRules net
          (substitute oldMbName newMbName d.mbs) d.vlanId fields (senderOf d.fullFlow)) := by
    intro key d fields hd hmem hfields r hr
    obtain ⟨d', fields', -, hmbs, -, -, hadded, hrules⟩ := h.chains key d hd hmem
    obtain rfl : fields = fields' :=
      Option.some.inj (hfields.symm.trans ((hread key d hd hmem).trans hadded))
    rw [hrules r hr, hmbs]
  refine ⟨hnames, ?_, ?_, ?_⟩
  · intro key d fields hd hmem hfields r hr hv
    obtain ⟨before, after, hsplit⟩ := List.append_of_mem (hkeys key d hd)
    by_contra hnot
    obtain ⟨hreach, hnew⟩ := not_or.mp hnot
    refine hnew ((hchain key d fields hd hmem hfields r hv).mp ?_)
    refine (mem_rules_of_rewrites hrewrites hnames haccepts hdistinct hnodup hd hmem hfields
      hsplit hv).mpr (.inl ⟨hr, fun p hp hp' => hreach ⟨p, hp, hp'⟩⟩)
  · intro before key after d fields hsplit hd hmem hfields r hr p hp
    have hv := vlanId_of_mem_installedRules hr
    have hthere := (hchain key d fields hd hmem hfields r hv).mpr hr
    rcases (mem_rules_of_rewrites hrewrites hnames haccepts hdistinct hnodup hd hmem hfields
      hsplit hv).mp hthere with ⟨-, hall⟩ | ⟨-, hafter⟩
    · refine hall p ?_
      rw [hsplit, replacementRequests, List.flatMap_append, List.flatMap_cons]
      exact List.mem_append_right _ (List.mem_append_right _ hp)
    · exact hafter p hp
  · intro key d hd hmem r hr hv
    have hthere := ((h.others key d hd hmem).2 r hv).mpr hr
    exact ((mem_rules_of_rewrites_other hrewrites hnames haccepts hdistinct hd hmem hv).mp
      hthere).2

omit hnames

/-- If the chains are separable, the replacement does what it should. -/
lemma replacesExactly_of_separable (h : Separable net s e.keys oldMbName newMbName) :
    ReplacesExactly net es s t oldMbName newMbName := by
  refine ⟨fun key hd => ?_, fun key d hd hmem => ⟨?_, fun r hv => ?_⟩, fun key d hd hmem => ?_⟩
  · have hsame : t.policyChainKeyToData key = s.policyChainKeyToData key :=
      hrewrites.same key fun d hd' => by
        rw [show (s.begin e).policyChainKeyToData key = none from hd] at hd'
        cases hd'
    rw [hsame, hd]
  · have hsame : t.policyChainKeyToData key = s.policyChainKeyToData key :=
      hrewrites.same key fun d' hd' _ => by
        obtain rfl := Option.some.inj (hd.symm.trans hd')
        exact hmem
    rw [hsame, hd]
  · rw [mem_rules_of_rewrites_other hrewrites h.names haccepts hdistinct hd hmem hv]
    exact and_iff_left_of_imp fun hr => h.spared key d hd hmem r hr hv
  · obtain ⟨d', hd', hvlan, hsender, hiff⟩ :=
      mbs_of_rewrites_iff hrewrites (hkeys key d hd) hd hmem
    obtain ⟨⟨fields, posts, hfields, -⟩, -⟩ := hrewrites.chain key (hkeys key d hd) d hd hmem
    have hmbs := hiff.mpr (h.names key d hd hmem)
    obtain ⟨before, after, hsplit⟩ := List.append_of_mem (hkeys key d hd)
    refine ⟨d', fields, hd', hmbs, hvlan, hsender, (hread key d hd hmem).symm.trans hfields,
      fun r hv => ?_⟩
    rw [hmbs, mem_rules_of_rewrites hrewrites h.names haccepts hdistinct hnodup hd hmem hfields
      hsplit hv]
    constructor
    · rintro (⟨hr, hreach⟩ | ⟨hnew, -⟩)
      · rcases h.cleared key d fields hd hmem hfields r hr hv with ⟨p, hp, hp'⟩ | hnew
        · exact absurd hp' (hreach p hp)
        · exact hnew
      · exact hnew
    · intro hnew
      exact .inr ⟨hnew, h.kept before key after d fields hsplit hd hmem hfields r hnew⟩

end

end

/-! ### Small runs -/

/-- The small network, with middleboxes of which one has a name that begins that of another one. -/
def numbered : Topology where
  graph := twoSwitches.graph
  hostsThatSendPackets := twoSwitches.hostsThatSendPackets
  middleboxToSwitchMapping name :=
    [("m1".toList, 2, 2), ("m10".toList, 1, 4), ("m2".toList, 2, 3), ("m20".toList, 1, 5)].lookup
      name
  masterToSlave _ := none

/-- A replacement, after a chain was added under the given key, where the controller accepts
everything. -/
def replaceFirst (requestArgs : String) (key : String) : Event :=
  ⟨.replaceMaster requestArgs.toList, fun _ => true, [key.toList], [0]⟩

lemma inOrder_replaceFirst {net : Topology} (requestArgs chain key : String) {r : ChainRequest}
    (hr : requestOf (chain ++ " {tp_dst=80}").toList = some r)
    (hinstallable : installable net r.hostSender r.policyChain = true) (hkey : r.key = key.toList) :
    (replaceFirst requestArgs key).InOrder (exec net (TsaBE.new []) (firstAdd chain)).2 := by
  refine inOrder_after_firstAdd chain [] hr hinstallable ?_ rfl
  rw [hkey]
  rfl

lemma run_firstAdd (net : Topology) (chain : String) :
    Run (Step net) (TsaBE.new []) [firstAdd chain]
      (exec net (TsaBE.new []) (firstAdd chain)).2 :=
  .single ⟨inOrder_firstAdd chain [], rfl⟩

/-- In the state with one chain, its first middlebox can be replaced by a new one. -/
lemma separable_oneChain :
    Separable twoSwitches oneChain ["h1$m1,m2$tp_dst:80".toList] "m1".toList "m3".toList where
  names key d hd _ := by
    obtain ⟨-, rfl⟩ := data_oneChain hd
    exact ⟨by decide, .inr (by decide)⟩
  cleared key d fields hd hmem hfields r hr _ := by
    have hall : ∀ r ∈ oneChain.controller.rules, ∃ p ∈ replacementRequests twoSwitches oneChain
        "m1".toList "m3".toList ["h1$m1,m2$tp_dst:80".toList], p.Reaches r := by decide +kernel
    exact .inl (hall r hr)
  kept before key after d fields hkeys _ _ _ r _ p hp := by
    obtain rfl := List.eq_nil_of_eq_append_cons le_rfl hkeys
    cases hp
  spared key d hd hmem := by
    obtain ⟨-, rfl⟩ := data_oneChain hd
    exact absurd List.mem_cons_self hmem

end FtThesis.Tsa
