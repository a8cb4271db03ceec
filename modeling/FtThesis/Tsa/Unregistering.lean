/-
Does unregistering a middlebox take it out of exactly the chains that have it?

* `generatePolicyChainKeyWithoutMiddlebox`: the key of a chain without a middlebox;
* `TakenOut`, `Unregisters`: what unregistering should do to a chain that has the middlebox, and to
  all chains;
* `foldl_unregisterFrom_fst`: which chains fail;
* `exec_unregMb_of_occurs`: what unregistering does if the name occurs in a chain;
* `unregisters_iff`: it does what it should exactly if the name occurs in no chain at all;
* `not_unregisters`: the first middlebox of a chain of two.
-/
import FtThesis.Tsa.Commands
import FtThesis.Library.Separated

namespace FtThesis.Tsa

open Transition TsaBE

/-! ### The property -/

/-- `generatePolicyChainKeyWithoutMiddlebox`.  It fails if the key does not have three parts, or if
the middlebox is not in its chain. -/
def generatePolicyChainKeyWithoutMiddlebox (policyChainKey mbName : Str) : Option Str :=
  match policyChainKey.splitOn '$' with
  | [senderHost, policychain, matchFields] =>
      let policychain := policychain.splitOn ','
      if policychain.contains mbName then
        some (senderHost ++ '$' :: (commas (policychain.erase mbName) ++ '$' :: matchFields))
      else none
  | _ => none

/-- A chain is installed without the first occurrence of a middlebox, under the key that is
generated for it, with the same VLAN id, match fields, sender and ids, and its old key is gone. -/
def TakenOut (net : Topology) (s t : TsaBE) (mbName key : Str) (d : ChainData) : Prop :=
  ∃ newKey fields, generatePolicyChainKeyWithoutMiddlebox key mbName = some newKey ∧
    getMatchFieldsFromKey key = some fields ∧
    Installed net t newKey (commas ((d.policyChain.splitOn ',').erase mbName)) d.vlanId fields
      (senderOf d.fullFlow) ∧
    (∀ p, s.pcidToPolicyChainKey p = some key → t.pcidToPolicyChainKey p = some newKey) ∧
    t.policyChainKeyToData key = none

/-- Nothing has changed for the chain of a key: neither its data nor its ids nor its rules. -/
structure Untouched (s t : TsaBE) (key : Str) (d : ChainData) : Prop where
  data : t.policyChainKeyToData key = some d
  pcids : ∀ p, t.pcidToPolicyChainKey p = some key ↔ s.pcidToPolicyChainKey p = some key
  rules : ∀ r, r.vlanId = d.vlanId → (r ∈ t.controller.rules ↔ r ∈ s.controller.rules)

/-- Unregistering a middlebox leaves the chains without it untouched, takes it out of the chains
that also have another one, and answers success. -/
structure Unregisters (net : Topology) (s : TsaBE) (e : Event) (mbName : Str) : Prop where
  untouched : ∀ key d, s.policyChainKeyToData key = some d → mbName ∉ d.policyChain.splitOn ',' →
    Untouched s (exec net s e).2 key d
  takenOut : ∀ key d, s.policyChainKeyToData key = some d → mbName ∈ d.policyChain.splitOn ',' →
    (∃ other ∈ d.policyChain.splitOn ',', other ≠ mbName) →
      TakenOut net s (exec net s e).2 mbName key d
  success : ∃ response, (exec net s e).1 = some response ∧ response.success = true

/-! ### What unregistering does -/

section

variable {net : Topology} {s : TsaBE} {e : Event} {mbName : Str}

/-- A round adds to the failed chains exactly if the name occurs in the text of its chain. -/
lemma unregisterFrom_fst (net : Topology) (s : TsaBE) (mbName failed key : Str) :
    (unregisterFrom net mbName (failed, s) key).1 = [] ↔
      failed = [] ∧ ∀ d, s.policyChainKeyToData key = some d → ¬ mbName <:+: d.policyChain := by
  rw [unregisterFrom]
  cases hd : s.policyChainKeyToData key with
  | none => simp
  | some d =>
      by_cases hoccurs : mbName <:+: d.policyChain
      · have hnot : ¬ ∀ d', some d = some d' → ¬ mbName <:+: d'.policyChain :=
          fun h => h d rfl hoccurs
        simp only [if_pos hoccurs, hnot, and_false, iff_false]
        cases getMatchFieldsFromKey key <;> simp
      · simp [hoccurs]

/-- A chain fails exactly if the name occurs in its text. -/
lemma foldl_unregisterFrom_fst (net : Topology) (s : TsaBE) (mbName failed : Str)
    (keys : List Str) :
    (keys.foldl (unregisterFrom net mbName) (failed, s)).1 = [] ↔
      failed = [] ∧ ∀ key ∈ keys, ∀ d, s.policyChainKeyToData key = some d →
        ¬ mbName <:+: d.policyChain := by
  induction keys generalizing failed s with
  | nil => simp
  | cons key keys ih =>
      obtain ⟨controller, honly⟩ := @onlyController_unregisterFrom net s mbName failed key
      have hround := unregisterFrom_fst net s mbName failed key
      rcases hresult : unregisterFrom net mbName (failed, s) key with ⟨failed', t⟩
      rw [hresult] at honly hround
      obtain rfl : t = { s with controller := controller } := honly
      rw [List.foldl_cons, hresult, ih, hround, List.forall_mem_cons, and_assoc]

/-- If the name occurs in a chain, it answers that it has failed, and changes nothing but the
rules. -/
lemma exec_unregMb_of_occurs (horder : e.InOrder s) (hcommand : e.command = .unregMb mbName)
    {key : Str} {d : ChainData} (hd : s.policyChainKeyToData key = some d)
    (hoccurs : mbName <:+: d.policyChain) :
    (∀ response, (exec net s e).1 = some response → response.success = false) ∧
      OnlyController (s.begin e) (exec net s e).2 := by
  rw [exec, hcommand]
  refine ⟨fun response hresponse => ?_, onlyController_handleUnregisterMiddleboxCommand ..⟩
  have hfailed : (e.keys.foldl (unregisterFrom net mbName) ([], s.begin e)).1 ≠ [] := by
    rw [Ne, foldl_unregisterFrom_fst]
    exact fun h => h.2 key ((horder.mem_keys key).mpr (by simp [hd])) d hd hoccurs
  simp only [handleUnregisterMiddleboxCommand] at hresponse
  split_ifs at hresponse with hascii
  obtain rfl := Option.some.inj hresponse
  rfl

/-- **Unregistering.**  In every state, it leaves the chains without the middlebox untouched, takes
it out of those that have it, and answers success, exactly if its name is printable and occurs in
the text of no chain. -/
theorem unregisters_iff (horder : e.InOrder s) (hcommand : e.command = .unregMb mbName) :
    Unregisters net s e mbName ↔ isAscii mbName = true ∧
      ∀ key d, s.policyChainKeyToData key = some d → ¬ mbName <:+: d.policyChain := by
  constructor
  · rintro ⟨-, -, response, hresponse, hsuccess⟩
    refine ⟨?_, fun key d hd hoccurs => ?_⟩
    · by_contra hascii
      rw [exec, hcommand] at hresponse
      simp [handleUnregisterMiddleboxCommand, hascii] at hresponse
    · have hfailed := (exec_unregMb_of_occurs horder hcommand hd hoccurs).1 response hresponse
      rw [hsuccess] at hfailed
      cases hfailed
  · rintro ⟨hascii, hno⟩
    have hexec : exec net s e = (some ⟨true, []⟩, s.begin e) :=
      exec_unregMb_of_not_occurs hcommand hascii hno
    refine ⟨fun key d hd _ => ?_, fun key d hd hmem => ?_, ⟨_, by rw [hexec], rfl⟩⟩
    · rw [hexec]
      exact ⟨hd, fun _ => Iff.rfl, fun _ _ => Iff.rfl⟩
    · exact absurd (List.infix_of_mem_splitOn hmem) (hno key d hd)

end

/-! ### Two middleboxes -/

/-- Unregistering, after the chain `h1,m1,m2` was added, where the controller accepts everything. -/
def unregister (mbName : String) : Event :=
  ⟨.unregMb mbName.toList, fun _ => true, ["h1$m1,m2$tp_dst:80".toList], [0]⟩

lemma inOrder_unregister (mbName : String) :
    (unregister mbName).InOrder oneChain :=
  @inOrder_after_firstAdd twoSwitches "h1,m1,m2" [] _ rfl rfl _ rfl rfl

theorem unregisters_other :
    Unregisters twoSwitches oneChain (unregister "m3") "m3".toList := by
  refine (unregisters_iff (inOrder_unregister "m3") rfl).mpr ⟨rfl, fun key d hd => ?_⟩
  obtain ⟨-, rfl⟩ := data_oneChain hd
  decide

/-- **Unregistering the first of two middleboxes.**  It fails, although the controller accepts
everything. -/
theorem not_unregisters : ¬ ∀ (net : Topology) (es : List Event) (s : TsaBE) (e : Event)
    (mbName : Str), Run (Step net) (TsaBE.new []) es s → e.InOrder s →
      e.command = .unregMb mbName → (∀ i, e.accepts i = true) → Unregisters net s e mbName := by
  intro hall
  have hrun : Run (Step twoSwitches) (TsaBE.new []) [firstAdd "h1,m1,m2"] oneChain :=
    .single ⟨inOrder_firstAdd _ _, rfl⟩
  have horder := inOrder_unregister "m1"
  obtain ⟨response, hresponse, hsuccess⟩ :=
    (hall twoSwitches _ _ (unregister "m1") _ hrun horder rfl fun _ => rfl).success
  have hfailed := (@exec_unregMb_of_occurs twoSwitches _ _ _ horder rfl
    "h1$m1,m2$tp_dst:80".toList _ rfl ⟨[], ",m2".toList, rfl⟩).1 response hresponse
  rw [hsuccess] at hfailed
  cases hfailed

end FtThesis.Tsa
