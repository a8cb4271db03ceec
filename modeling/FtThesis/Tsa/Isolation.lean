/-
Does a frame stay in its chain?

* `Move`, `Moves`: how a frame moves, by any rule that applies to it, and by way of the middleboxes;
* `Delivers`: a rule leads to a switch, or to a middlebox of its chain, and strips the VLAN id only
  there;
* `delivers_of_chainPlan`: the rules of a chain do so;
* `Led`: where a frame of a chain may be;
* `frames_isolated`: however the frame of a sender moves, all its moves are those of one chain of
  this sender, whose match fields it has.
-/
import FtThesis.Tsa.Steering

namespace FtThesis.Tsa

open Transition TsaBE

/-! ### Moves -/

/-- A move of a frame: the rule that forwards it, if it is at a switch, and where it gets to. -/
structure Move where
  rule : Option Rule
  place : Place

/-- The moves of a frame: a switch forwards it by one of the rules that apply, and a middlebox
returns it by the port by which it has come if it has a tag. -/
inductive Moves (cable : Dpid → Port → Option Peer) (rules : List Rule) :
    Place → Move → Place → Prop
  | forwarded {dpid : Dpid} {inPort : Port} {f : Frame} {r : Rule}
      (h : Applies rules dpid inPort f r) :
      Moves cable rules (.switch dpid inPort f) ⟨some r, forward cable inPort r f⟩
        (forward cable inPort r f)
  | returned {mb : Str} {dpid : Dpid} {port : Port} {f : Frame} (htag : f.vlanId ≠ none) :
      Moves cable rules (.middlebox mb dpid port f) ⟨none, .switch dpid port f⟩
        (.switch dpid port f)

/-- A move by a rule of a chain, to a switch or to a middlebox of the chain. -/
structure Move.Of (own : List Rule) (mbs : List Str) (m : Move) : Prop where
  rule : ∀ r, m.rule = some r → r ∈ own
  place : ∀ mb dpid port f, m.place = .middlebox mb dpid port f → mb ∈ mbs

/-! ### Where rules lead to -/

/-- A rule leads to a switch, or to one of the middleboxes, and strips the VLAN id only there. -/
def Delivers (cable : Dpid → Port → Option Peer) (mbs : List Str) (r : Rule) : Prop :=
  (r.kind ≠ .pop ∧ ∃ dpid port, cable r.dpid r.outPort = some (.switch dpid port)) ∨
    ∃ mb ∈ mbs, cable r.dpid r.outPort = some (.middlebox mb)

section

variable {net : Topology} {vlanId : ℕ} {r : Rule} {mbs : List Str}

/-- All hops but the last one lead to a switch. -/
lemma exists_last_hop (w : Wiring net) {path : List Dpid} (hpath : path.IsChain net.graph.Adj)
    {dpid : Dpid} (hlast : path.getLast? = some dpid) (inPort : Option Port) (port : Port) :
    ∃ hs inPort', hops net.graph path inPort port = hs ++ [⟨dpid, inPort', some port⟩] ∧
      ∀ hop ∈ hs, ∀ outPort, hop.outPort = some outPort →
        ∃ dpid port, w.cable hop.dpid outPort = some (.switch dpid port) := by
  induction path generalizing inPort with
  | nil => cases hlast
  | cons d path ih =>
      cases path with
      | nil =>
          obtain rfl : d = dpid := by simpa using hlast
          exact ⟨[], inPort, rfl, nofun⟩
      | cons d' path =>
          obtain ⟨hadj, hchain⟩ := List.isChain_cons_cons.mp hpath
          obtain ⟨hs, inPort', heq, hall⟩ :=
            ih hchain (by simpa using hlast) (portTo net.graph d' d)
          refine ⟨_ :: hs, inPort', by rw [hops, heq]; rfl,
            List.forall_mem_cons.mpr ⟨fun outPort hout => ?_, hall⟩⟩
          obtain ⟨port', hport'⟩ := exists_portTo (w.symm d d' hadj)
          exact ⟨d', port', w.link d d' outPort port' hout hport'⟩

lemma delivers_of_ruleEntry {cable : Dpid → Port → Option Peer} {kind : RuleKind}
    {fields : List Field} {hop : Hop}
    (hcable : ∀ outPort, hop.outPort = some outPort →
      (kind ≠ .pop ∧ ∃ dpid port, cable hop.dpid outPort = some (.switch dpid port)) ∨
        ∃ mb ∈ mbs, cable hop.dpid outPort = some (.middlebox mb))
    (h : .rule r ∈ ruleEntry kind vlanId fields hop) : Delivers cable mbs r := by
  obtain ⟨outPort, hout, heq⟩ := mem_ruleEntry h
  cases heq
  exact hcable outPort hout

lemma mem_legEntries {pop : Bool} {hs : List Hop} {last : Hop} {e : Entry}
    (h : e ∈ legEntries vlanId pop (hs ++ [last])) :
    (∃ hop ∈ hs, e ∈ ruleEntry .forward vlanId [] hop) ∨
      ∃ kind, e ∈ ruleEntry kind vlanId [] last := by
  induction hs with
  | nil => exact .inr ⟨_, h⟩
  | cons hop hs ih =>
      obtain ⟨hop', hs', heq⟩ := List.exists_cons_of_ne_nil (List.append_ne_nil_of_right_ne_nil hs
        (List.cons_ne_nil last []))
      rw [List.cons_append, heq, legEntries_cons_cons, ← heq] at h
      rcases List.mem_append.mp h with h | h
      · exact .inl ⟨hop, List.mem_cons_self, h⟩
      · exact (ih h).imp_left fun ⟨hop', hmem, h⟩ => ⟨hop', List.mem_cons_of_mem _ hmem, h⟩

/-- The rules of the way to the first middlebox. -/
lemma delivers_of_firstLegPlan (w : Wiring net) {mbName senderHost : Str} {fields : List Field}
    (hmb : mbName ∈ mbs)
    (h : .rule r ∈ (firstLegPlan net mbName vlanId senderHost fields).1) :
    Delivers w.cable mbs r := by
  rw [firstLegPlan] at h
  split at h
  next srcDpid srcPort dstDpid dstPort hsender hmapping =>
    split at h
    next path hpath =>
      have hp := isPath_of_pathBetween hpath
      obtain ⟨hs, inPort, heq, hall⟩ := exists_last_hop w hp.adj hp.last (some srcPort) dstPort
      have hcable : ∀ hop ∈ hs ++ [⟨dstDpid, inPort, some dstPort⟩], ∀ kind : RuleKind,
          kind ≠ .pop → ∀ outPort, hop.outPort = some outPort →
            (kind ≠ .pop ∧ ∃ dpid port, w.cable hop.dpid outPort = some (.switch dpid port)) ∨
              ∃ mb ∈ mbs, w.cable hop.dpid outPort = some (.middlebox mb) := by
        intro hop hhop kind hkind outPort hout
        rcases List.mem_append.mp hhop with hhop | hhop
        · exact .inl ⟨hkind, hall hop hhop outPort hout⟩
        · obtain rfl := List.mem_singleton.mp hhop
          obtain rfl := Option.some.inj hout
          exact .inr ⟨mbName, hmb, w.middlebox _ _ _ hmapping⟩
      rw [heq] at h
      cases hhops : hs ++ [⟨dstDpid, inPort, some dstPort⟩] with
      | nil =>
          rw [hhops] at h
          cases h
      | cons hop rest =>
          rw [hhops] at h hcable
          rcases List.mem_append.mp h with h | h
          · exact delivers_of_ruleEntry (hcable hop List.mem_cons_self .push (by decide)) h
          · obtain ⟨hop', hmem, h⟩ := List.mem_flatMap.mp h
            exact delivers_of_ruleEntry (hcable hop' (List.mem_cons_of_mem _ hmem) .forward
              (by decide)) h
    · cases h
  · cases h

/-- The rules of the ways between the middleboxes. -/
lemma delivers_of_legsPlan (w : Wiring net) {policyChain : List Str}
    (hmbs : ∀ mb ∈ policyChain, mb ∈ mbs) (h : .rule r ∈ (legsPlan net vlanId policyChain).1) :
    Delivers w.cable mbs r := by
  induction policyChain with
  | nil => cases h
  | cons srcMb policyChain ih =>
      cases policyChain with
      | nil => cases h
      | cons dstMb policyChain =>
          obtain ⟨-, hmbs⟩ := List.forall_mem_cons.mp hmbs
          rw [legsPlan] at h
          rcases andThen_fst_subset h with h | h
          · rw [legPlan] at h
            split at h
            · cases h
            next srcDpid srcPort hsrc =>
              split at h
              · cases h
              next dstDpid dstPort hdst =>
                split at h
                next path hpath =>
                  have hp := isPath_of_pathBetween hpath
                  obtain ⟨hs, inPort, heq, hall⟩ :=
                    exists_last_hop w hp.adj hp.last (some srcPort) dstPort
                  rw [heq] at h
                  rcases List.mem_cons.mp h with h | h
                  · cases h
                  · rcases mem_legEntries h with ⟨hop, hmem, h⟩ | ⟨kind, h⟩
                    · exact delivers_of_ruleEntry (fun outPort hout =>
                        .inl ⟨by decide, hall hop hmem outPort hout⟩) h
                    · refine delivers_of_ruleEntry (fun outPort hout => .inr ⟨dstMb,
                        hmbs dstMb List.mem_cons_self, ?_⟩) h
                      obtain rfl := Option.some.inj hout
                      exact w.middlebox _ _ _ hdst
                · rcases List.mem_cons.mp h with h | h
                  · cases h
                  · cases h
          · exact ih hmbs h

/-- The rules of a chain lead from switch to switch, and to its middleboxes. -/
lemma delivers_of_chainPlan (w : Wiring net) {policyChain senderHost : Str} {fields : List Field}
    (h : .rule r ∈ (chainPlan net policyChain vlanId fields senderHost).1) :
    Delivers w.cable (policyChain.splitOn ',') r := by
  rcases andThen_fst_subset h with h | h
  · refine delivers_of_firstLegPlan w ?_ h
    obtain ⟨mb, rest, hsplit⟩ := List.exists_cons_of_ne_nil (List.splitOn_ne_nil ',' policyChain)
    rw [hsplit]
    exact List.mem_cons_self
  · exact delivers_of_legsPlan w (fun _ => id) h

end

/-! ### Where a frame may be -/

/-- Where a frame of a chain may be: at a switch, with the VLAN id of the chain, where it has not
come from a host; at a middlebox of the chain; or nowhere. -/
def Led (cable : Dpid → Port → Option Peer) (mbs : List Str) (vlanId : ℕ) : Place → Prop
  | .switch dpid inPort f =>
      f.vlanId = some vlanId ∧ ∀ host, cable dpid inPort ≠ some (.host host)
  | .middlebox mb dpid port f =>
      mb ∈ mbs ∧ cable dpid port = some (.middlebox mb) ∧
        (f.vlanId ≠ none → f.vlanId = some vlanId)
  | .lost => True

section

variable {net : Topology} {s : TsaBE} {P : Policies} {key : Str} {p : Policy} {r : Rule}
  {f : Frame} {dpid : Dpid} {port : Port} {mbs : List Str} {vlanId : ℕ} {m : Move}
  {place place' : Place}

/-- A rule of a chain leads a frame that gets its VLAN id to where it may be. -/
lemma led_forward (w : Wiring net) (hdelivers : Delivers w.cable mbs r)
    (htag : r.kind ≠ .pop → (r.act f).vlanId = some vlanId) (inPort : Port) :
    Led w.cable mbs vlanId (forward w.cable inPort r f) := by
  have htag' : (r.act f).vlanId ≠ none → (r.act f).vlanId = some vlanId := by
    intro hne
    refine htag fun hpop => hne ?_
    rw [Rule.act, hpop]
  rw [forward]
  split_ifs
  · trivial
  · rcases hdelivers with ⟨hkind, dpid, port, hcable⟩ | ⟨mb, hmb, hcable⟩
    · rw [hcable]
      refine ⟨htag hkind, fun host hhost => ?_⟩
      have hback := w.ends _ _ _ _ hcable
      rw [hhost] at hback
      cases hback
    · rw [hcable]
      exact ⟨hmb, hcable, htag'⟩

/-- The rules of a policy lead to its middleboxes. -/
lemma Tracks.delivers (w : Wiring net) (h : Tracks net s P) (hp : P key = some p)
    (hr : r ∈ p.chainRules net) : Delivers w.cable p.mbs r := by
  have hdelivers := delivers_of_chainPlan w (mem_rulesOf.mp hr)
  rwa [h.mbs key p hp] at hdelivers

lemma Move.of_led {own : List Rule} {cable : Dpid → Port → Option Peer}
    (hrule : ∀ r, m.rule = some r → r ∈ own) (hplace : Led cable mbs vlanId m.place) :
    m.Of own mbs := by
  refine ⟨hrule, fun mb dpid port f heq => ?_⟩
  rw [heq] at hplace
  exact hplace.1

/-- A frame of a chain stays in it. -/
lemma Led.step (w : Wiring net) (h : Tracks net s P) (hp : P key = some p)
    (hled : Led w.cable p.mbs p.vlanId place)
    (hmoves : Moves w.cable s.controller.rules place m place') :
    Led w.cable p.mbs p.vlanId place' ∧ m.Of (p.chainRules net) p.mbs := by
  cases hmoves with
  | @forwarded dpid inPort f r happlies =>
      obtain ⟨htag, hport⟩ := hled
      obtain ⟨hr, -, _, hkind, -⟩ := mem_own_of_applies w h hp hport htag happlies
      have htag' : r.kind ≠ .pop → (r.act f).vlanId = some p.vlanId := by
        intro hpop
        cases hk : r.kind with
        | push => exact absurd hk hkind
        | forward => rwa [Rule.act, hk]
        | pop => exact absurd hk hpop
      have hplace := led_forward w (h.delivers w hp hr) htag' inPort
      refine ⟨hplace, Move.of_led (fun r' hr' => ?_) hplace⟩
      exact Option.some.inj hr' ▸ hr
  | returned htag =>
      obtain ⟨-, hcable, hid⟩ := hled
      have hplace : Led w.cable p.mbs p.vlanId (.switch _ _ _) :=
        ⟨hid htag, fun host hhost => by rw [hcable] at hhost; cases hhost⟩
      exact ⟨hplace, Move.of_led (fun r hr => by cases hr) hplace⟩

/-- By its first move a frame of a sender gets into a chain. -/
lemma exists_led_of_moves (w : Wiring net) (h : Tracks net s P) {senderHost : Str}
    (hsender : net.hostsThatSendPackets senderHost = some (dpid, port)) (htag : f.vlanId = none)
    (hmoves : Moves w.cable s.controller.rules (.switch dpid port f) m place) :
    ∃ key p, P key = some p ∧ p.senderHost = senderHost ∧
      f.Matches port (getFullMatchFields p.fields) ∧ Led w.cable p.mbs p.vlanId place ∧
        m.Of (p.chainRules net) p.mbs := by
  cases hmoves with
  | @forwarded _ _ _ r happlies =>
      obtain ⟨key, p, hp, hpsender, -, hf, hr⟩ :=
        exists_of_applies_sender w h hsender htag happlies
      have htag' : (r.act f).vlanId = some p.vlanId := by
        rcases Policy.rule_cases hr with ⟨hvlan, hpush, -⟩ | hid
        · rw [Rule.act, hpush, hvlan]
        · rw [hid.vlanId_of_matches happlies.2.2] at htag
          cases htag
      have hplace := led_forward w (h.delivers w hp hr) (fun _ => htag') port
      refine ⟨key, p, hp, hpsender, hf, hplace, Move.of_led (fun r' hr' => ?_) hplace⟩
      exact Option.some.inj hr' ▸ hr

/-- All moves of a frame are those of one chain. -/
lemma exists_led_of_run (w : Wiring net) (h : Tracks net s P) {senderHost : Str}
    (hsender : net.hostsThatSendPackets senderHost = some (dpid, port)) (htag : f.vlanId = none)
    {ms : List Move}
    (hmoves : Run (Moves w.cable s.controller.rules) (.switch dpid port f) ms place)
    (hne : ms ≠ []) :
    ∃ key p, P key = some p ∧ p.senderHost = senderHost ∧
      f.Matches port (getFullMatchFields p.fields) ∧ Led w.cable p.mbs p.vlanId place ∧
        ∀ m ∈ ms, m.Of (p.chainRules net) p.mbs := by
  induction hmoves with
  | nil => exact absurd rfl hne
  | @snoc ms place place' m hrun hstep ih =>
      cases ms with
      | nil =>
          obtain rfl := hrun.nil_inv
          obtain ⟨key, p, hp, hpsender, hf, hled, hm⟩ :=
            exists_led_of_moves w h hsender htag hstep
          exact ⟨key, p, hp, hpsender, hf, hled, by simpa using hm⟩
      | cons m' ms =>
          obtain ⟨key, p, hp, hpsender, hf, hled, hms⟩ := ih (List.cons_ne_nil m' ms)
          obtain ⟨hled, hm⟩ := hled.step w h hp hstep
          refine ⟨key, p, hp, hpsender, hf, hled, fun m hmem => ?_⟩
          rcases List.mem_append.mp hmem with hmem | hmem
          · exact hms m hmem
          · exact List.mem_singleton.mp hmem ▸ hm

/-- **Isolation.**  After every run of tidy commands: however a frame moves that a sender sends
without a tag, whichever of the rules that apply are chosen, all its moves are made by the rules of
one chain of this sender, whose match fields the frame has, and it comes to no other middleboxes
than those of this chain.  VLAN ids are taken as they are posted, also beyond 12 bits. -/
theorem frames_isolated (w : Wiring net) {es : List Event}
    (hrun : Run (When (Tidy net) (Step net)) (TsaBE.new []) es s) {senderHost : Str}
    (hsender : net.hostsThatSendPackets senderHost = some (dpid, port)) (htag : f.vlanId = none)
    {ms : List Move}
    (hmoves : Run (Moves w.cable s.controller.rules) (.switch dpid port f) ms place)
    (hne : ms ≠ []) :
    ∃ key d fields, s.policyChainKeyToData key = some d ∧ getMatchFieldsFromKey key = some fields ∧
      senderOf d.fullFlow = senderHost ∧ f.Matches port (getFullMatchFields fields) ∧
        ∀ m ∈ ms, m.Of (chainRules net d.mbs d.vlanId fields senderHost) d.mbs := by
  obtain ⟨P, -, htracks⟩ := exists_tracks_of_run hrun
  obtain ⟨key, p, hp, rfl, hf, -, hms⟩ := exists_led_of_run w htracks hsender htag hmoves hne
  refine ⟨key, _, p.fields, htracks.data key p hp, (htracks.reads key p hp).fields, rfl, hf, ?_⟩
  rw [ChainData.mbs, htracks.mbs key p hp]
  exact hms

end

/-- A rule of the chain of `h1`. -/
def ruleOfFirst (dpid : Dpid) (kind : RuleKind) (inPort outPort : Port) : Rule :=
  ⟨dpid, kind, 1, ruleMatch kind [("tp_dst".toList, "80".toList)] 1 (some inPort), outPort⟩

/-- The frame in the chain of `h1`. -/
def taggedFrame : Frame := { webFrame with vlanId := some 1 }

/-- The moves of a frame of `h1`, by way of `m1` to `m2`. -/
def wayOfFirst : List Move :=
  [⟨some (ruleOfFirst 1 .push 2 1), .switch 2 1 taggedFrame⟩,
    ⟨some (ruleOfFirst 2 .forward 1 2), .middlebox "m1".toList 2 2 taggedFrame⟩,
    ⟨none, .switch 2 2 taggedFrame⟩,
    ⟨some (ruleOfFirst 2 .forward 2 1), .switch 1 1 taggedFrame⟩,
    ⟨some (ruleOfFirst 1 .pop 1 4), .middlebox "m2".toList 1 4 webFrame⟩]

/-- There are two chains, and the frame takes the way of the first one. -/
lemma run_wayOfFirst :
    Run (Moves twoSwitchesWiring.cable (exec twoSwitches oneChain addOther).2.controller.rules)
      (.switch 1 2 webFrame) wayOfFirst (.middlebox "m2".toList 1 4 webFrame) := by
  have hforwarded : ∀ dpid kind inPort outPort f,
      ruleOfFirst dpid kind inPort outPort ∈
        (exec twoSwitches oneChain addOther).2.controller.rules →
      f.Matches inPort (ruleOfFirst dpid kind inPort outPort).fields →
      Moves twoSwitchesWiring.cable (exec twoSwitches oneChain addOther).2.controller.rules
        (.switch dpid inPort f) ⟨some (ruleOfFirst dpid kind inPort outPort),
          forward twoSwitchesWiring.cable inPort (ruleOfFirst dpid kind inPort outPort) f⟩
        (forward twoSwitchesWiring.cable inPort (ruleOfFirst dpid kind inPort outPort) f) :=
    fun _ _ _ _ _ hmem hf => .forwarded ⟨hmem, rfl, hf⟩
  exact .cons (hforwarded 1 .push 2 1 webFrame (by decide +kernel) (by decide))
    (.cons (hforwarded 2 .forward 1 2 taggedFrame (by decide +kernel) (by decide))
      (.cons (.returned (by decide))
        (.cons (hforwarded 2 .forward 2 1 taggedFrame (by decide +kernel) (by decide))
          (.single (hforwarded 1 .pop 1 4 taggedFrame (by decide +kernel) (by decide))))))

theorem frames_isolated_twoChains : ∃ key d fields,
    (exec twoSwitches oneChain addOther).2.policyChainKeyToData key = some d ∧
      getMatchFieldsFromKey key = some fields ∧ senderOf d.fullFlow = "h1".toList ∧
      webFrame.Matches 2 (getFullMatchFields fields) ∧
      ∀ m ∈ wayOfFirst,
        Move.Of (chainRules twoSwitches d.mbs d.vlanId fields "h1".toList) d.mbs m :=
  frames_isolated twoSwitchesWiring run_twoChains rfl rfl run_wayOfFirst (List.cons_ne_nil _ _)

end FtThesis.Tsa
