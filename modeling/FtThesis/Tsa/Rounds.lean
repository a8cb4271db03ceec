/-
The requests of a command, chain by chain.

* `HasRules`: the rules that the controller has for the VLAN id of a chain;
* `Round`, `Round.requests`, `Round.rules`: what is requested for one chain, and the rules that it
  should have after that;
* `Clean`: the requests for some chains leave each chain with the rules that it should have;
* `mem_foldl_requestsOf`, `mem_foldl_requestsOf_of_ne`: the rules of a chain after all requests;
* `Clean.hasRules`, `Clean.gone`, `Clean.spares`: if the requests are clean, the chains have the
  rules that they should have.
-/
import FtThesis.Tsa.Chains

namespace FtThesis.Tsa

open TsaBE

/-- The rules that the controller has for the VLAN id of a chain are the given ones. -/
def HasRules (t : TsaBE) (vlanId : ℕ) (rules : List Rule) : Prop :=
  ∀ r, r.vlanId = vlanId → (r ∈ t.controller.rules ↔ r ∈ rules)

/-! ### Rounds -/

/-- What is requested for the chain of a key: old rules are deleted, and then rules are added for
one VLAN id. -/
structure Round where
  key : Str
  vlanId : ℕ
  deletes : List Post
  adds : List Rule
  deletes_only : ∀ p ∈ deletes, ∃ dpid fields, p = .delete dpid fields
  adds_vlanId : ∀ r ∈ adds, r.vlanId = vlanId

/-- The requests of a round. -/
def Round.requests (w : Round) : List Post := w.deletes ++ w.adds.map .add

/-- The rules that a round leaves in empty tables. -/
def Round.rules (w : Round) : List Rule := (w.adds.map .add).foldl Post.apply []

/-- The VLAN id is that of the chain, before the round or after it. -/
def Round.Has (s : TsaBE) (w : Round) (vlanId : ℕ) : Prop :=
  vlanId = w.vlanId ∨ ∃ d, s.policyChainKeyToData w.key = some d ∧ d.vlanId = vlanId

/-- The requests of some rounds. -/
def requestsOf (rounds : List Round) : List Post := rounds.flatMap Round.requests

/-- The requests for a flow are deletions, if it can be uninstalled at all. -/
lemma deletes_of_getD {net : Topology} {senderHost : Str} {vlanId : ℕ} {fields : List Field} {i : ℕ}
    {fullFlow : List FlowEntry} :
    ∀ p ∈ (deletePosts net senderHost vlanId fields i fullFlow).getD [],
      ∃ dpid m, p = .delete dpid m := by
  cases h : deletePosts net senderHost vlanId fields i fullFlow with
  | none => exact fun p hp => absurd hp List.not_mem_nil
  | some posts => exact deletes_of_deletePosts h

/-- Each old rule of a chain is reached by a request, or is one of its new rules; no request for a
later chain reaches a new rule; and no request reaches a rule of a chain of another key. -/
structure Clean (s : TsaBE) (rounds : List Round) : Prop where
  cleared : ∀ w ∈ rounds, ∀ r ∈ s.controller.rules, w.Has s r.vlanId →
    (∃ p ∈ requestsOf rounds, p.Reaches r) ∨ r ∈ w.rules
  kept : ∀ before w after, rounds = before ++ w :: after →
    ∀ r ∈ w.rules, ∀ p ∈ requestsOf after, ¬ p.Reaches r
  spared : ∀ key d, s.policyChainKeyToData key = some d → (∀ w ∈ rounds, w.key ≠ key) →
    ∀ r ∈ s.controller.rules, r.vlanId = d.vlanId → ∀ p ∈ requestsOf rounds, ¬ p.Reaches r

section

variable {rounds : List Round} {rules : List Rule} {w : Round} {r : Rule}

/-- The VLAN id of a rule that is there after a round in empty tables. -/
lemma Round.vlanId_of_mem_rules (h : r ∈ w.rules) : r.vlanId = w.vlanId := by
  rcases mem_foldl_apply_adds.mp h with ⟨h, -⟩ | ⟨before, after, heq, -⟩
  · cases h
  · exact w.adds_vlanId r (by simp [heq])

/-- A rule that is added has the VLAN id of a round. -/
lemma not_add_of_ne (h : ∀ w ∈ rounds, w.vlanId ≠ r.vlanId) : .add r ∉ requestsOf rounds := by
  intro hadd
  obtain ⟨w, hw, hadd⟩ := List.mem_flatMap.mp hadd
  rcases List.mem_append.mp hadd with hadd | hadd
  · obtain ⟨_, _, heq⟩ := w.deletes_only _ hadd
    cases heq
  · obtain ⟨r', hr', heq⟩ := List.mem_map.mp hadd
    obtain rfl := Post.add.inj heq
    exact h w hw (w.adds_vlanId r' hr').symm

/-- The rules with another VLAN id after all requests: those that no request reaches. -/
lemma mem_foldl_requestsOf_of_ne (h : ∀ w ∈ rounds, w.vlanId ≠ r.vlanId) :
    r ∈ (requestsOf rounds).foldl Post.apply rules ↔
      r ∈ rules ∧ ∀ p ∈ requestsOf rounds, ¬ p.Reaches r :=
  mem_foldl_apply_of_not_add (not_add_of_ne h)

/-- The rules with the VLAN id of a round after all requests: those from before that no request
reaches, and the new ones that no request of a later round reaches. -/
lemma mem_foldl_requestsOf {before after : List Round}
    (hnodup : ((before ++ w :: after).map Round.vlanId).Nodup) (hr : r.vlanId = w.vlanId) :
    r ∈ (requestsOf (before ++ w :: after)).foldl Post.apply rules ↔
      (r ∈ rules ∧ ∀ p ∈ requestsOf (before ++ w :: after), ¬ p.Reaches r) ∨
        r ∈ w.rules ∧ ∀ p ∈ requestsOf after, ¬ p.Reaches r := by
  rw [List.map_append, List.map_cons, List.nodup_middle, List.nodup_cons, List.mem_append] at hnodup
  obtain ⟨hbefore, hafter⟩ := not_or.mp hnodup.1
  have hne : ∀ {ws : List Round}, w.vlanId ∉ ws.map Round.vlanId →
      ∀ w' ∈ ws, w'.vlanId ≠ r.vlanId := by
    intro ws hws w' hw' heq
    exact hws (List.mem_map.mpr ⟨w', hw', heq.trans hr⟩)
  have hadd₁ : .add r ∉ requestsOf before ++ w.deletes := by
    rw [List.mem_append]
    rintro (h | h)
    · exact not_add_of_ne (hne hbefore) h
    · obtain ⟨_, _, heq⟩ := w.deletes_only _ h
      cases heq
  have hall : requestsOf (before ++ w :: after) =
      (requestsOf before ++ w.deletes) ++ (w.adds.map .add ++ requestsOf after) := by
    simp only [requestsOf, List.flatMap_append, List.flatMap_cons, Round.requests,
      List.append_assoc]
  have hown : (∀ p ∈ w.adds.map Post.add, ¬ p.Reaches r) ↔ ∀ q ∈ w.adds, ¬ SameMatch r q :=
    List.forall_mem_map
  rw [hall, List.foldl_append, List.foldl_append,
    mem_foldl_apply_of_not_add (not_add_of_ne (hne hafter)), mem_foldl_apply_adds,
    mem_foldl_apply_of_not_add hadd₁, Round.rules, mem_foldl_apply_adds]
  simp only [List.forall_mem_append, hown, List.not_mem_nil, false_and, false_or, or_and_right,
    and_assoc]

/-! ### Clean requests -/

variable {s t : TsaBE} (h : Clean s rounds)
  (ht : t.controller.rules = (requestsOf rounds).foldl Post.apply s.controller.rules)

include h ht

/-- After clean requests a chain has its new rules. -/
lemma Clean.hasRules (hnodup : (rounds.map Round.vlanId).Nodup) (hw : w ∈ rounds) :
    HasRules t w.vlanId w.rules := by
  intro r hr
  obtain ⟨before, after, hsplit⟩ := List.append_of_mem hw
  rw [ht]
  have hmem := @mem_foldl_requestsOf s.controller.rules w r before after (hsplit ▸ hnodup) hr
  rw [← hsplit] at hmem
  rw [hmem]
  constructor
  · rintro (⟨hold, hreach⟩ | ⟨hnew, -⟩)
    · rcases h.cleared w hw r hold (.inl hr) with ⟨p, hp, hp'⟩ | hnew
      · exact absurd hp' (hreach p hp)
      · exact hnew
    · exact hnew
  · exact fun hnew => .inr ⟨hnew, h.kept before w after hsplit r hnew⟩

/-- After clean requests the rules are gone that a chain had with another VLAN id. -/
lemma Clean.gone (hw : w ∈ rounds) {d : ChainData} (hd : s.policyChainKeyToData w.key = some d)
    (hne : ∀ w ∈ rounds, w.vlanId ≠ d.vlanId) : HasRules t d.vlanId [] := by
  intro r hr
  rw [ht, mem_foldl_requestsOf_of_ne (by rwa [hr])]
  refine ⟨fun ⟨hold, hreach⟩ => ?_, fun hr => absurd hr List.not_mem_nil⟩
  rcases h.cleared w hw r hold (.inr ⟨d, hd, hr.symm⟩) with ⟨p, hp, hp'⟩ | hnew
  · exact absurd hp' (hreach p hp)
  · exact absurd (w.vlanId_of_mem_rules hnew).symm (hr ▸ hne w hw)

/-- After clean requests the chains of the other keys have their rules from before. -/
lemma Clean.spares {key : Str} {d : ChainData} (hd : s.policyChainKeyToData key = some d)
    (hkey : ∀ w ∈ rounds, w.key ≠ key) (hne : ∀ w ∈ rounds, w.vlanId ≠ d.vlanId) :
    HasRules t d.vlanId s.controller.rules := by
  intro r hr
  rw [ht, mem_foldl_requestsOf_of_ne (by rwa [hr])]
  exact and_iff_left_of_imp fun hold => h.spared key d hd hkey r hold hr

end

end FtThesis.Tsa
