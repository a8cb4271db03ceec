/-
The policies that the traffic steering application keeps, and the tables that they ask for.

* `Policy`, `Policies`: what a chain is for, under the key of its data: the frames of a sender that
  have its match fields go through its middleboxes;
* `Policies.after`, `Policies.Step`: what a command does to the policies;
* `Tables`: the rules that there are, are those of the policies that are installed;
* `Separated`: the policies can be told apart;
* `Tables.uninstall`, `Tables.install`: it stays so when the rules of one policy are deleted, and
  when they are added.
-/
import FtThesis.Tsa.Separation

namespace FtThesis.Tsa

open Transition TsaBE

/-! ### Policies -/

/-- A policy: the middleboxes through which the frames of the sender go that have the match fields,
and the VLAN id by which they are led.  It may be that its rules were uninstalled. -/
structure Policy where
  mbs : List Str
  vlanId : ℕ
  fields : List Field
  senderHost : Str
  installed : Bool

namespace Policy

/-- The rules of a policy, in the order in which they are added. -/
def chainRules (net : Topology) (p : Policy) : List Rule :=
  Tsa.chainRules net p.mbs p.vlanId p.fields p.senderHost

/-- The rules that a policy asks for. -/
def rules (net : Topology) (p : Policy) : List Rule :=
  installedRules net p.mbs p.vlanId p.fields p.senderHost

/-- A middlebox is unregistered. -/
def unregister (mbName : Str) (p : Policy) : Policy :=
  if p.mbs.contains mbName then { p with installed := false } else p

/-- A middlebox is replaced, and the new chain is installed. -/
def replaceMb (oldMbName newMbName : Str) (p : Policy) : Policy :=
  if p.mbs.contains oldMbName then
    { p with mbs := substitute oldMbName newMbName p.mbs, installed := true }
  else p

end Policy

/-- The policies by the keys of their data. -/
abbrev Policies := Str → Option Policy

namespace Policies

/-- A chain that is asked for gets a policy. -/
def add (P : Policies) (r : ChainRequest) (vlanId : ℕ) : Policies :=
  Function.update P r.key
    (some ⟨r.policyChain.splitOn ',', vlanId, r.matchFields, r.hostSender, true⟩)

/-- The policy of one key is changed. -/
def modify (f : Policy → Policy) (P : Policies) (key : Str) : Policies :=
  Function.update P key ((P key).map f)

/-- All policies are changed. -/
def modifyAll (f : Policy → Policy) (P : Policies) : Policies := fun key => (P key).map f

/-- What a command does to the policies. -/
def after (net : Topology) (P : Policies) (vlanId : ℕ) : Command → Policies
  | .addPolicyChain requestArgs =>
      match requestOf requestArgs with
      | some r => P.add r vlanId
      | none => P
  | .removePolicyChain requestArgs =>
      match requestOf requestArgs with
      | some r => Function.update P r.key none
      | none => P
  | .unregMb mbName => if isAscii mbName then P.modifyAll (Policy.unregister mbName) else P
  | command =>
      match replacement net command with
      | some (oldMbName, newMbName) => P.modifyAll (Policy.replaceMb oldMbName newMbName)
      | none => P

/-- The steps of the policies: a chain gets a VLAN id that no other one has. -/
def Step (net : Topology) (P : Policies) (e : Event) (Q : Policies) : Prop :=
  ∃ vlanId, (∀ key p, P key = some p → p.vlanId ≠ vlanId) ∧ Q = P.after net vlanId e.command

/-- All policies are changed if this is done for each key once. -/
lemma foldl_modify (f : Policy → Policy) {keys : List Str} (hnodup : keys.Nodup) {P : Policies}
    (hkeys : ∀ key, P key ≠ none → key ∈ keys) : keys.foldl (modify f) P = P.modifyAll f := by
  have hall : ∀ keys : List Str, keys.Nodup → ∀ (P : Policies) (key : Str),
      keys.foldl (modify f) P key = if key ∈ keys then (P key).map f else P key := by
    intro keys
    induction keys with
    | nil => exact fun _ P key => by simp
    | cons key' keys ih =>
        intro hnodup P key
        obtain ⟨hnot, hnodup⟩ := List.nodup_cons.mp hnodup
        rw [List.foldl_cons, ih hnodup]
        rcases eq_or_ne key key' with rfl | hne
        · simp [hnot, modify]
        · simp [hne, modify]
  funext key
  rw [hall keys hnodup, modifyAll]
  split_ifs with hmem
  · rfl
  · have hnone : P key = none := by
      by_contra hne
      exact hmem (hkeys key hne)
    rw [hnone, Option.map_none]

end Policies

/-! ### Tables -/

/-- The rules that there are, are those of the policies that are installed. -/
def Tables (net : Topology) (P : Policies) (rules : List Rule) : Prop :=
  ∀ r, r ∈ rules ↔ ∃ key p, P key = some p ∧ p.installed = true ∧ r ∈ p.rules net

/-- The policies have match fields that can be told apart at their senders, and different VLAN
ids. -/
structure Separated (net : Topology) (P : Policies) : Prop where
  plain : ∀ key p, P key = some p → Plain p.fields
  distinct : ∀ key key' p p', P key = some p → P key' = some p' → p.vlanId = p'.vlanId →
    key = key'
  apart : ∀ key key' p p', P key = some p → P key' = some p' → key ≠ key' →
    Apart net p.senderHost p.fields p'.senderHost p'.fields

section

variable {net : Topology} {P : Policies} {key : Str} {p : Policy} {rules : List Rule}

/-- The rules of a chain that are not replaced by a later one of them. -/
lemma mem_installedRules {mbs : List Str} {vlanId : ℕ} {fields : List Field} {senderHost : Str}
    {r : Rule} : r ∈ installedRules net mbs vlanId fields senderHost ↔
      ∃ before after, chainRules net mbs vlanId fields senderHost = before ++ r :: after ∧
        ∀ q ∈ after, ¬ SameMatch r q := by
  rw [installedRules, mem_foldl_apply_adds, or_iff_right]
  rintro ⟨hr, -⟩
  cases hr

lemma Policy.mem_chainRules {r : Rule} (h : r ∈ p.rules net) : r ∈ p.chainRules net := by
  obtain ⟨before, after, heq, -⟩ := mem_installedRules.mp h
  rw [Policy.chainRules, heq]
  simp

/-- What a rule of a policy matches. -/
lemma Policy.rule_cases {r : Rule} (h : r ∈ p.chainRules net) :
    AtHost net p.senderHost p.vlanId p.fields r ∨ ForVlanId p.vlanId r :=
  Tsa.rule_cases (mem_rulesOf.mp h)

lemma update_cases {Q : Policies} {x : Option Policy} (hQ : Q = Function.update P key x)
    {key' : Str} {p' : Policy} (h : Q key' = some p') :
    key' = key ∧ x = some p' ∨ key' ≠ key ∧ P key' = some p' := by
  subst hQ
  rcases eq_or_ne key' key with rfl | hne
  · exact .inl ⟨rfl, by simpa using h⟩
  · exact .inr ⟨hne, by simpa [hne] using h⟩

/-- A policy that is changed can be told apart from the others if this only changes its
middleboxes. -/
lemma Separated.update (h : Separated net P) (hp : P key = some p) {p' : Policy}
    (hvlan : p'.vlanId = p.vlanId) (hfields : p'.fields = p.fields)
    (hsender : p'.senderHost = p.senderHost) :
    Separated net (Function.update P key (some p')) := by
  -- each policy has a counterpart from before
  have hbefore : ∀ k q, Function.update P key (some p') k = some q →
      ∃ q', P k = some q' ∧ q.vlanId = q'.vlanId ∧ q.fields = q'.fields ∧
        q.senderHost = q'.senderHost := by
    intro k q hq
    rcases update_cases rfl hq with ⟨rfl, heq⟩ | ⟨-, hq⟩
    · obtain rfl := Option.some.inj heq
      exact ⟨p, hp, hvlan, hfields, hsender⟩
    · exact ⟨q, hq, rfl, rfl, rfl⟩
  refine ⟨fun k q hq => ?_, fun k k' q q' hq hq' heq => ?_, fun k k' q q' hq hq' hne => ?_⟩
  · obtain ⟨q₀, hq₀, -, hf, -⟩ := hbefore k q hq
    exact hf ▸ h.plain k q₀ hq₀
  · obtain ⟨q₀, hq₀, hv, -, -⟩ := hbefore k q hq
    obtain ⟨q₁, hq₁, hv', -, -⟩ := hbefore k' q' hq'
    exact h.distinct k k' q₀ q₁ hq₀ hq₁ (hv.symm.trans (heq.trans hv'))
  · obtain ⟨q₀, hq₀, -, hf, hs⟩ := hbefore k q hq
    obtain ⟨q₁, hq₁, -, hf', hs'⟩ := hbefore k' q' hq'
    rw [hf, hs, hf', hs']
    exact h.apart k k' q₀ q₁ hq₀ hq₁ hne

/-- A new policy can be told apart from the others if this is so of its match fields and of its
VLAN id. -/
lemma Separated.add (h : Separated net P) (hplain : Plain p.fields)
    (hvlan : ∀ k q, P k = some q → q.vlanId ≠ p.vlanId)
    (hapart : ∀ k q, P k = some q → Apart net p.senderHost p.fields q.senderHost q.fields) :
    Separated net (Function.update P key (some p)) := by
  have hcases : ∀ {k : Str} {q : Policy}, Function.update P key (some p) k = some q →
      k = key ∧ q = p ∨ P k = some q := fun hq =>
    (update_cases rfl hq).imp (fun h => ⟨h.1, (Option.some.inj h.2).symm⟩) And.right
  refine ⟨fun k q hq => ?_, fun k k' q q' hq hq' heq => ?_, fun k k' q q' hq hq' hne => ?_⟩
  · rcases hcases hq with ⟨-, rfl⟩ | hold
    · exact hplain
    · exact h.plain k q hold
  · rcases hcases hq with ⟨rfl, rfl⟩ | hold <;> rcases hcases hq' with ⟨rfl, rfl⟩ | hold'
    · rfl
    · exact absurd heq.symm (hvlan k' q' hold')
    · exact absurd heq (hvlan k q hold)
    · exact h.distinct k k' q q' hold hold' heq
  · rcases hcases hq with ⟨rfl, rfl⟩ | hold <;> rcases hcases hq' with ⟨rfl, rfl⟩ | hold'
    · exact absurd rfl hne
    · exact hapart k' q' hold'
    · exact (hapart k q hold).symm
    · exact h.apart k k' q q' hold hold' hne

lemma Separated.remove (h : Separated net P) (key : Str) :
    Separated net (Function.update P key none) := by
  have hbefore : ∀ k q, Function.update P key none k = some q → P k = some q := by
    intro k q hq
    rcases update_cases rfl hq with ⟨-, hq⟩ | ⟨-, hq⟩
    · cases hq
    · exact hq
  exact ⟨fun k q hq => h.plain k q (hbefore k q hq),
    fun k k' q q' hq hq' => h.distinct k k' q q' (hbefore k q hq) (hbefore k' q' hq'),
    fun k k' q q' hq hq' => h.apart k k' q q' (hbefore k q hq) (hbefore k' q' hq')⟩

/-- The tables do not depend on the policies that are not installed. -/
lemma Tables.congr {Q : Policies} (h : Tables net P rules)
    (hQ : ∀ k q, q.installed = true → (Q k = some q ↔ P k = some q)) : Tables net Q rules := by
  intro r
  rw [h r]
  refine exists_congr fun k => exists_congr fun q => ?_
  constructor
  · rintro ⟨hq, hon, hr⟩
    exact ⟨(hQ k q hon).mpr hq, hon, hr⟩
  · rintro ⟨hq, hon, hr⟩
    exact ⟨(hQ k q hon).mp hq, hon, hr⟩

/-- **A policy is uninstalled.**  The requests of a policy delete its rules, and no others. -/
lemma Tables.uninstall (h : Tables net P rules) (hsep : Separated net P) (hp : P key = some p)
    {posts : List Post} (hposts : deletePosts net p.senderHost p.vlanId p.fields 0
      (flowOf net (commas p.mbs) p.vlanId p.fields p.senderHost) = some posts) :
    Tables net (Function.update P key (some { p with installed := false }))
      (posts.foldl Post.apply rules) := by
  intro r
  have hadd : .add r ∉ posts := by
    intro hmem
    obtain ⟨_, _, heq⟩ := deletes_of_deletePosts hposts _ hmem
    cases heq
  rw [mem_foldl_apply_of_not_add hadd, h r]
  constructor
  · rintro ⟨⟨k, q, hq, hon, hr⟩, hnot⟩
    have hne : k ≠ key := by
      rintro rfl
      obtain rfl := Option.some.inj (hp.symm.trans hq)
      obtain ⟨post, hpost, hreaches⟩ := exists_reaches (hsep.plain k p hp) hposts
        (mem_rulesOf.mp (Policy.mem_chainRules hr))
      exact hnot post hpost hreaches
    exact ⟨k, q, by rwa [Function.update_of_ne hne], hon, hr⟩
  · rintro ⟨k, q, hq, hon, hr⟩
    rcases update_cases rfl hq with ⟨-, heq⟩ | ⟨hne, hq⟩
    · obtain rfl := Option.some.inj heq
      cases hon
    · refine ⟨⟨k, q, hq, hon, hr⟩, not_reaches_of_apart (hsep.apart key k p q hp hq hne.symm)
        (hsep.plain key p hp) (hsep.plain k q hq) (fun hvlan => hne ?_) hposts
        (Policy.rule_cases (Policy.mem_chainRules hr))⟩
      exact (hsep.distinct key k p q hp hq hvlan).symm

/-- **A policy is installed.**  The requests of a policy add the rules that it asks for, and replace
no rule of another one. -/
lemma Tables.install (h : Tables net P rules)
    (hsep : Separated net (Function.update P key (some p)))
    (hoff : ∀ q, P key = some q → q.installed = false) (hon : p.installed = true) :
    Tables net (Function.update P key (some p))
      (((p.chainRules net).map .add).foldl Post.apply rules) := by
  intro r
  have hown : r ∈ p.rules net ↔ ∃ before after, p.chainRules net = before ++ r :: after ∧
      ∀ q ∈ after, ¬ SameMatch r q := mem_installedRules
  have hp : Function.update P key (some p) key = some p := Function.update_self ..
  rw [mem_foldl_apply_adds, h r, ← hown]
  constructor
  · rintro (⟨⟨k, q, hq, hqon, hr⟩, -⟩ | hr)
    · have hne : k ≠ key := by
        rintro rfl
        rw [hoff q hq] at hqon
        cases hqon
      exact ⟨k, q, by rwa [Function.update_of_ne hne], hqon, hr⟩
    · exact ⟨key, p, hp, hon, hr⟩
  · rintro ⟨k, q, hq, hqon, hr⟩
    rcases update_cases rfl hq with ⟨-, heq⟩ | ⟨hne, hq'⟩
    · obtain rfl := Option.some.inj heq
      exact .inr hr
    · refine .inl ⟨⟨k, q, hq', hqon, hr⟩, fun r' hr' => ?_⟩
      refine not_sameMatch_of_apart (hsep.apart k key q p hq hp hne) (hsep.plain k q hq)
        (hsep.plain key p hp) (fun hvlan => hne (hsep.distinct k key q p hq hp hvlan))
        (Policy.rule_cases (Policy.mem_chainRules hr)) (Policy.rule_cases hr')

end

end FtThesis.Tsa
