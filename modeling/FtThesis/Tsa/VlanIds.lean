/-
Are the VLAN ids of the chains legal?

The id of a chain is that of a counter that each add advances, and is kept as long as the chain.

* `ValidVlanIds`: the recorded chains have different VLAN ids, from `1` to `4094`;
* `IdLeft`: an add that comes to the installation finds a legal id in the counter;
* `Change.valid_iff`: which changes keep the ids valid;
* `validVlanIds_iff`: the runs throughout which they are valid;
* `not_validVlanIds`: the 4095th add.
-/
import FtThesis.Tsa.Chains

namespace FtThesis.Tsa

open Transition TsaBE

/-! ### Legal ids -/

/-- The ids that 802.1Q does not reserve. -/
def LegalVlanId (vlanId : ℕ) : Prop := 1 ≤ vlanId ∧ vlanId ≤ 4094

/-- The recorded chains have different VLAN ids, all of them legal. -/
structure ValidVlanIds (s : TsaBE) : Prop where
  distinct : ∀ key key' d d', s.policyChainKeyToData key = some d →
    s.policyChainKeyToData key' = some d' → d.vlanId = d'.vlanId → key = key'
  legal : ∀ key d, s.policyChainKeyToData key = some d → LegalVlanId d.vlanId

/-- An add that comes to the installation finds a legal id. -/
def IdLeft (s : TsaBE) (e : Event) : Prop :=
  match e.command with
  | .addPolicyChain requestArgs => requestOf requestArgs ≠ none → s.nextVlanId ≤ 4094
  | _ => True

/-- The VLAN ids of an index are legal, and the next one is not `0`. -/
structure Index.Legal (i : Index) : Prop where
  legal : ∀ key vlanId, i.vlanAt key = some vlanId → LegalVlanId vlanId
  next_pos : 1 ≤ i.nextVlanId

/-- The change puts no data under a key with an id that is not legal. -/
def Change.IdLeft (i : Index) : Change → Prop
  | .added _ | .begun _ => i.nextVlanId ≤ 4094
  | _ => True

section

variable {i j : Index} {c : Change}

lemma Index.Step.next_pos (h : Index.Step i c j) (hi : 1 ≤ i.nextVlanId) : 1 ≤ j.nextVlanId :=
  hi.trans h.nextVlanId_le

/-- The ids of a removed key are gone, and the other ones stay. -/
lemma Index.Legal.of_removed {key : Str} {j : Index} (hi : i.Legal)
    (hvlan : j.vlanAt = Function.update i.vlanAt key none) (hnext : j.nextVlanId = i.nextVlanId) :
    j.Legal := by
  refine ⟨fun k vlanId hk => ?_, hnext ▸ hi.next_pos⟩
  rw [hvlan] at hk
  rcases eq_or_ne k key with rfl | hne
  · simp at hk
  · exact hi.legal k vlanId (by simpa [hne] using hk)

/-- The next id is legal, or that of the key which has got it is not. -/
lemma Index.Legal.begin_iff (hi : i.Legal) (key : Str) :
    (i.begin key).Legal ↔ i.nextVlanId ≤ 4094 := by
  constructor
  · intro h
    exact (h.legal key i.nextVlanId (by simp [Index.begin])).2
  · intro hle
    refine ⟨fun k vlanId hk => ?_, Nat.le_add_left 1 _⟩
    rcases eq_or_ne k key with rfl | hne
    · obtain rfl : i.nextVlanId = vlanId := by simpa [Index.begin] using hk
      exact ⟨hi.next_pos, hle⟩
    · exact hi.legal k vlanId (by simpa [Index.begin, hne] using hk)

/-- A change keeps the ids legal exactly if it gives none out that is not. -/
lemma Index.Legal.step_iff (hi : i.Legal) (h : Index.Step i c j) : j.Legal ↔ c.IdLeft i := by
  cases h with
  | idle hn => exact iff_of_true ⟨hi.legal, hi.next_pos.trans hn⟩ trivial
  | added key =>
      refine Iff.trans ⟨fun h => ?_, fun h => ?_⟩ (hi.begin_iff key)
      · exact ⟨h.legal, h.next_pos⟩
      · exact ⟨h.legal, h.next_pos⟩
  | begun key => exact hi.begin_iff key
  | removed => exact iff_of_true (hi.of_removed rfl rfl) trivial
  | removedUnnumbered => exact iff_of_true (hi.of_removed rfl rfl) trivial

end

/-! ### Runs -/

section

variable {net : Topology} {s t : TsaBE} {e : Event}

/-- With different ids in the index, the ids are valid exactly if they are legal. -/
lemma validVlanIds_iff_legal (hdistinct : s.index.Distinct) (hpos : 1 ≤ s.nextVlanId) :
    ValidVlanIds s ↔ s.index.Legal := by
  constructor
  · intro h
    refine ⟨fun key vlanId hkey => ?_, hpos⟩
    obtain ⟨d, hd, rfl⟩ := Option.map_eq_some_iff.mp hkey
    exact h.legal key d hd
  · intro h
    refine ⟨fun key key' d d' hd hd' heq => ?_, fun key d hd => ?_⟩
    · exact hdistinct.inj key key' d.vlanId (by simp [index, hd]) (by simp [index, hd', heq])
    · exact h.legal key d.vlanId (by simp [index, hd])

/-- The condition is one on the change that a command makes. -/
lemma idLeft_iff {c : Change} (hc : Makes net e.command c) : c.IdLeft s.index ↔ IdLeft s e := by
  refine makes_iff (P := fun c => c.IdLeft s.index) hc trivial (fun _ => trivial)
    fun requestArgs => ?_
  rw [addChange]
  cases requestOf requestArgs with
  | none => simp [Change.IdLeft]
  | some r =>
      simp only
      split_ifs <;> simp [Change.IdLeft, index]

/-- **VLAN ids.**  In a run of commands the recorded chains have different and legal VLAN ids in
every state, exactly if each add that comes to the installation is made while the counter is at
most `4094`. -/
theorem validVlanIds_iff (net : Topology) (rules : List Rule) (es : List Event) (s : TsaBE) :
    Run (Into ValidVlanIds (Step net)) (TsaBE.new rules) es s ↔
      Run (When IdLeft (Step net)) (TsaBE.new rules) es s := by
  refine Run.into_iff_when (I := fun s => s.index.Distinct ∧ 1 ≤ s.nextVlanId) ?_ ?_ ?_ ?_
  · rintro s e t ⟨hdistinct, hpos⟩ hstep
    obtain ⟨c, -, hc⟩ := step_index hstep
    exact ⟨hdistinct.step hc, hc.next_pos hpos⟩
  · rintro s e t ⟨hdistinct, hpos⟩ hvalid hstep
    obtain ⟨c, hmakes, hc⟩ := step_index hstep
    have hlegal := (validVlanIds_iff_legal hdistinct hpos).mp hvalid
    rw [validVlanIds_iff_legal (hdistinct.step hc) (hc.next_pos hpos), hlegal.step_iff hc,
      idLeft_iff hmakes]
  · exact ⟨⟨nofun, nofun⟩, le_rfl⟩
  · exact ⟨nofun, nofun⟩

end

/-! ### Many adds -/

/-- The key of the chain that is added. -/
def repeatedKey : Str := "h1$m1,m2$tp_dst:80".toList

/-- An add of one chain, after it was added `n` times. -/
def addAgain (n : ℕ) : Event :=
  { firstAdd "h1,m1,m2" with
    keys := if n = 0 then [] else [repeatedKey]
    pcids := List.range n }

/-- The state after `n` adds of the chain. -/
def afterAdds : ℕ → TsaBE
  | 0 => TsaBE.new []
  | n + 1 => (exec twoSwitches (afterAdds n) (addAgain n)).2

lemma Index.Step.eq_of_added {i j : Index} {key : Str} (h : Index.Step i (.added key) j) :
    j = { i.begin key with
      pcids := Function.update i.pcids i.nextPcid (some key)
      nextPcid := i.nextPcid + 1 } := by
  cases h
  rfl

/-- Each add gives the chain the next id. -/
lemma index_afterAdds (n : ℕ) :
    (afterAdds n).index =
      ⟨fun key => if key = repeatedKey ∧ n ≠ 0 then some n else none,
        fun p => if p < n then some repeatedKey else none, n, n + 1⟩ := by
  induction n with
  | zero => simp [afterAdds, index, TsaBE.new]
  | succ n ih =>
      have hstep := step_handleAddPolicyCommand twoSwitches ((afterAdds n).begin (addAgain n))
        ("h1,m1,m2" ++ " {tp_dst=80}").toList
      have hchange : addChange twoSwitches ("h1,m1,m2" ++ " {tp_dst=80}").toList
          = .added repeatedKey := rfl
      rw [hchange] at hstep
      have hnext : (afterAdds (n + 1)).index = _ := hstep.eq_of_added
      have hbegin : ((afterAdds n).begin (addAgain n)).index = (afterAdds n).index := rfl
      rw [hnext, hbegin, ih]
      refine Index.ext (funext fun key => ?_) (funext fun p => ?_) rfl rfl
      · rcases eq_or_ne key repeatedKey with rfl | hne
        · simp [Index.begin]
        · simp [Index.begin, hne]
      · rcases eq_or_ne p n with rfl | hne
        · simp
        · have hlt : p < n + 1 ↔ p < n := by omega
          simp [hne, hlt]

lemma step_afterAdds (n : ℕ) :
    Step twoSwitches (afterAdds n) (addAgain n) (afterAdds (n + 1)) := by
  have hindex := index_afterAdds n
  refine ⟨⟨?_, fun key => ?_, List.nodup_range, fun p => ?_⟩, rfl⟩
  · simp only [addAgain]
    split_ifs <;> simp
  · have hdata : (afterAdds n).policyChainKeyToData key ≠ none ↔
        (afterAdds n).index.vlanAt key ≠ none := by simp [index]
    rw [hdata, hindex]
    rcases eq_or_ne n 0 with rfl | hn <;> simp [addAgain, *]
  · have hpcids : (afterAdds n).pcidToPolicyChainKey p = (afterAdds n).index.pcids p := rfl
    rw [hpcids, hindex]
    simp [addAgain]

lemma run_afterAdds (n : ℕ) :
    Run (Step twoSwitches) (TsaBE.new []) ((List.range n).map addAgain) (afterAdds n) := by
  induction n with
  | zero => exact .nil
  | succ n ih =>
      rw [List.range_succ, List.map_append]
      exact ih.snoc (step_afterAdds n)

/-- **VLAN ids, after many adds.**  At its 4095th add the chain gets an id that is reserved. -/
theorem not_validVlanIds : ¬ ∀ (net : Topology) (rules : List Rule) (es : List Event) (s : TsaBE),
    Run (Step net) (TsaBE.new rules) es s →
      (∀ e ∈ es, ∀ mbName, e.command ≠ .unregMb mbName) → ValidVlanIds s := by
  intro hall
  have hvalid := hall twoSwitches [] _ _ (run_afterAdds 4095) fun e he mbName => by
    obtain ⟨n, -, rfl⟩ := List.mem_map.mp he
    exact nofun
  have hvlan : (afterAdds 4095).index.vlanAt repeatedKey = some 4095 := by
    simp [index_afterAdds]
  obtain ⟨d, hd, hid⟩ : ∃ d, (afterAdds 4095).policyChainKeyToData repeatedKey = some d ∧
      d.vlanId = 4095 := Option.map_eq_some_iff.mp hvlan
  have hlegal := (hvalid.legal repeatedKey d hd).2
  omega

end FtThesis.Tsa
