/-
How frames are forwarded by rules.

* `Peer`, `Frame`, `Place`: what a port leads to, what is forwarded, and where it is;
* `Applies`, `forward`: the rules of a switch that match a frame, and what one of them does;
* `Traverses`: whichever rules the switches choose, a frame is forwarded by the own rules to the
  given middleboxes in order;
* `Stop`, `Leads`, `Route`: the way through the switches that a list of rules should lead a frame;
* `Table`: at each switch and port the last rule of the way is the one that counts;
* `traverses_iff_nodup`: the way is followed exactly if it enters no switch twice by one port, and
  sends no frame back, and no other rule applies on it.
-/
import FtThesis.Tsa.Server
import FtThesis.Library.Lists

namespace FtThesis.Tsa

open TsaBE

/-! ### Frames -/

/-- What the cable at a port leads to. -/
inductive Peer
  | switch (dpid : Dpid) (inPort : Port)
  | middlebox (name : Str)
  | host (name : Str)
deriving DecidableEq

/-- A frame: its header fields by their names, and the VLAN id of its tag. -/
structure Frame where
  fields : Str → Option Str
  vlanId : Option ℕ

/-- The value that a match compares, for a frame that enters by a port. -/
def Frame.value (f : Frame) (inPort : Port) (name : Str) : Option Str :=
  if name = inPortName then some (str inPort)
  else if name = dlVlan then f.vlanId.map str
  else f.fields name

/-- The frame has all that a match asks for. -/
def Frame.Matches (f : Frame) (inPort : Port) (m : Match) : Prop :=
  ∀ field ∈ m, f.value inPort field.1 = some field.2

instance (f : Frame) (inPort : Port) (m : Match) : Decidable (f.Matches inPort m) :=
  inferInstanceAs (Decidable (∀ field ∈ m, f.value inPort field.1 = some field.2))

/-- The frame after the actions of a rule. -/
def Rule.act (r : Rule) (f : Frame) : Frame :=
  match r.kind with
  | .push => { f with vlanId := some r.vlanId }
  | .forward => f
  | .pop => { f with vlanId := none }

/-- Where a frame is: it has entered a switch, or it has come out of a port to a middlebox. -/
inductive Place
  | switch (dpid : Dpid) (inPort : Port) (f : Frame)
  | middlebox (name : Str) (dpid : Dpid) (port : Port) (f : Frame)
  | lost

/-- A rule of a switch matches a frame that has entered it. -/
def Applies (rules : List Rule) (dpid : Dpid) (inPort : Port) (f : Frame) (r : Rule) : Prop :=
  r ∈ rules ∧ r.dpid = dpid ∧ f.Matches inPort r.fields

/-- Where a rule sends a frame that has entered by a port.  A switch sends no frame back by the port
by which it has come, unless an action names that port in a special way, which no rule does. -/
def forward (cable : Dpid → Port → Option Peer) (inPort : Port) (r : Rule) (f : Frame) : Place :=
  if r.outPort = inPort then .lost
  else
    match cable r.dpid r.outPort with
    | some (.switch dpid inPort) => .switch dpid inPort (r.act f)
    | some (.middlebox name) => .middlebox name r.dpid r.outPort (r.act f)
    | _ => .lost

/-- From a place, a frame is forwarded by the own rules to the given middleboxes in order, whichever
of the rules that apply are chosen.  A middlebox returns a frame with a tag by the port by which it
has come; the last one gets the frame without its tag. -/
inductive Traverses (cable : Dpid → Port → Option Peer) (rules own : List Rule) :
    List Str → Place → Prop
  | switch {mbs : List Str} {dpid : Dpid} {inPort : Port} {f : Frame}
      (hsome : ∃ r, Applies rules dpid inPort f r)
      (hown : ∀ r, Applies rules dpid inPort f r → r ∈ own)
      (hnext : ∀ r, Applies rules dpid inPort f r →
        Traverses cable rules own mbs (forward cable inPort r f)) :
      Traverses cable rules own mbs (.switch dpid inPort f)
  | returned {mb : Str} {mbs : List Str} {dpid : Dpid} {port : Port} {f : Frame}
      (htag : f.vlanId ≠ none) (h : Traverses cable rules own mbs (.switch dpid port f)) :
      Traverses cable rules own (mb :: mbs) (.middlebox mb dpid port f)
  | last {mb : Str} {dpid : Dpid} {port : Port} {f : Frame} (htag : f.vlanId = none) :
      Traverses cable rules own [mb] (.middlebox mb dpid port f)

/-! ### Ways -/

/-- A switch on the way of a frame, and the middlebox that the frame goes to from it, if any. -/
structure Stop where
  hop : Hop
  middlebox : Option Str
deriving DecidableEq

namespace Stop

/-- The switch and the port by which it is entered. -/
def key (s : Stop) : Dpid × Option Port := (s.hop.dpid, s.hop.inPort)

/-- The rule of a stop, of the given kind. -/
def rule (s : Stop) (kind : RuleKind) (vlanId : ℕ) : Rule :=
  ⟨s.hop.dpid, kind, vlanId, ruleMatch kind [] vlanId s.hop.inPort, s.hop.outPort.getD 0⟩

end Stop

/-- The rules of the stops after the first one: the last one strips the VLAN id. -/
def vlanRules (vlanId : ℕ) : List Stop → List Rule
  | [] => []
  | [s] => [s.rule .pop vlanId]
  | s :: stops => s.rule .forward vlanId :: vlanRules vlanId stops

/-- At a stop a frame is not sent back, and only the own rules apply. -/
def Passable (rules own : List Rule) (f : Frame) (s : Stop) : Prop :=
  s.hop.inPort ≠ s.hop.outPort ∧ ∀ inPort, s.hop.inPort = some inPort →
    ∀ r, Applies rules s.hop.dpid inPort f r → r ∈ own

/-- From one stop a frame gets to the next one, by way of the middlebox if there is one. -/
def Leads (cable : Dpid → Port → Option Peer) (s s' : Stop) : Prop :=
  ∃ outPort inPort, s.hop.outPort = some outPort ∧ s'.hop.inPort = some inPort ∧
    match s.middlebox with
    | none => cable s.hop.dpid outPort = some (.switch s'.hop.dpid inPort)
    | some mb => cable s.hop.dpid outPort = some (.middlebox mb) ∧
        s'.hop.dpid = s.hop.dpid ∧ inPort = outPort

/-- Each stop leads to the next one, and the last one to a middlebox. -/
def Route (cable : Dpid → Port → Option Peer) : List Stop → Prop
  | [] => True
  | [s] => ∃ mb outPort, s.middlebox = some mb ∧ s.hop.outPort = some outPort ∧
      cable s.hop.dpid outPort = some (.middlebox mb)
  | s :: s' :: stops => Leads cable s s' ∧ Route cable (s' :: stops)

/-- The middleboxes on a way. -/
def middleboxes (stops : List Stop) : List Str := stops.filterMap Stop.middlebox

/-- Between two middleboxes no switch is entered twice by one port. -/
def Simple (stops : List Stop) : Prop :=
  ∀ before s between s' after, stops = before ++ s :: (between ++ s' :: after) →
    (∀ x ∈ s :: between, x.middlebox = none) → s.key ≠ s'.key

/-- The kind of the rule of a stop, by the stops that follow. -/
def kindBefore (after : List Stop) : RuleKind := if after = [] then .pop else .forward

lemma kindBefore_ne_push (after : List Stop) : kindBefore after ≠ .push := by
  rw [kindBefore]
  split_ifs <;> decide

/-- For frames with the VLAN id of the way: the own rules that apply where a stop is entered are
that of the last stop of the way that is entered there. -/
def Table (rules own : List Rule) (vlanId : ℕ) (stops : List Stop) : Prop :=
  ∀ s ∈ stops, ∀ inPort, s.hop.inPort = some inPort → ∀ f : Frame, f.vlanId = some vlanId → ∀ r,
    (Applies rules s.hop.dpid inPort f r ∧ r ∈ own ↔
      ∃ before s' after, stops = before ++ s' :: after ∧ s'.key = s.key ∧
        (∀ x ∈ after, x.key ≠ s.key) ∧ r = s'.rule (kindBefore after) vlanId)

lemma vlanRules_cons (vlanId : ℕ) (s : Stop) (stops : List Stop) :
    vlanRules vlanId (s :: stops) = s.rule (kindBefore stops) vlanId :: vlanRules vlanId stops := by
  cases stops <;> rfl

section

variable {cable : Dpid → Port → Option Peer} {rules own : List Rule} {vlanId : ℕ}
  {stops : List Stop}

/-! ### One step -/

/-- A frame that is lost gets nowhere. -/
lemma not_traverses_lost (mbs : List Str) : ¬ Traverses cable rules own mbs .lost := nofun

/-- A rule that acts like that of a stop leads a frame to the next stop. -/
lemma traverses_forward_iff {s s' : Stop} (h : Leads cable s s') {r : Rule} {f : Frame}
    (hdpid : r.dpid = s.hop.dpid) (hport : s.hop.outPort = some r.outPort)
    (htag : (r.act f).vlanId ≠ none) {p : Port} (hp : r.outPort ≠ p) (mbs : List Str) :
    Traverses cable rules own mbs (forward cable p r f) ↔
      ∃ inPort mbs', s'.hop.inPort = some inPort ∧ mbs = s.middlebox.toList ++ mbs' ∧
        Traverses cable rules own mbs' (.switch s'.hop.dpid inPort (r.act f)) := by
  obtain ⟨outPort, inPort, hout, hin, hleads⟩ := h
  obtain rfl : r.outPort = outPort := Option.some.inj (hport.symm.trans hout)
  rw [forward, if_neg hp, hdpid]
  cases hmb : s.middlebox with
  | none =>
      rw [hmb] at hleads
      simp only [hleads, Option.toList_none, List.nil_append]
      constructor
      · exact fun h => ⟨inPort, mbs, hin, rfl, h⟩
      · rintro ⟨inPort', mbs', hin', rfl, h⟩
        obtain rfl := Option.some.inj (hin.symm.trans hin')
        exact h
  | some mb =>
      rw [hmb] at hleads
      obtain ⟨hcable, hsame, rfl⟩ := hleads
      simp only [hcable, Option.toList_some, List.singleton_append]
      constructor
      · intro h
        cases h with
        | returned _ h => exact ⟨_, _, hin, rfl, by rwa [hsame]⟩
        | last hnone => exact absurd hnone htag
      · rintro ⟨inPort', mbs', hin', rfl, h⟩
        obtain rfl := Option.some.inj (hin.symm.trans hin')
        rw [hsame] at h
        exact .returned htag h

/-- The last stop leads a frame to the last middlebox. -/
lemma traverses_forward_last_iff {s : Stop} (h : Route cable [s]) {p : Port}
    (hp : s.hop.outPort ≠ some p) (f : Frame) (mbs : List Str) :
    Traverses cable rules own mbs (forward cable p (s.rule .pop vlanId) f) ↔
      mbs = s.middlebox.toList := by
  obtain ⟨mb, outPort, hmb, hout, hcable⟩ := h
  have hne : (s.rule .pop vlanId).outPort ≠ p := by
    intro heq
    rw [← heq] at hp
    simp [Stop.rule, hout] at hp
  have hplace : forward cable p (s.rule .pop vlanId) f =
      .middlebox mb s.hop.dpid outPort { f with vlanId := none } := by
    rw [forward, if_neg hne]
    simp [Stop.rule, hout, hcable, Rule.act]
  rw [hplace, hmb]
  constructor
  · intro h
    cases h with
    | returned htag _ => exact absurd rfl htag
    | last _ => rfl
  · rintro rfl
    exact .last rfl

lemma Route.of_append {before after : List Stop} (h : Route cable (before ++ after)) :
    Route cable after := by
  induction before with
  | nil => exact h
  | cons s before ih =>
      refine ih ?_
      cases hrest : before ++ after with
      | nil => trivial
      | cons s' rest =>
          rw [List.cons_append, hrest] at h
          exact h.2

/-- The last stop of a way that is entered like a given one. -/
lemma exists_last_stop {X : List Stop} {s : Stop} (hs : s ∈ X) :
    ∃ before s' after, X = before ++ s' :: after ∧ s'.key = s.key ∧ ∀ x ∈ after, x.key ≠ s.key :=
  LastEntries.exists_last ⟨s, hs, rfl⟩

lemma applies_last {X before before' after : List Stop} {s s' : Stop}
    (hT : Table rules own vlanId stops) (hstops : stops = before ++ X) (hs : s ∈ X)
    {inPort : Port} (hin : s.hop.inPort = some inPort) {f : Frame} (hf : f.vlanId = some vlanId)
    (hX : X = before' ++ s' :: after) (hkey : s'.key = s.key) (hlast : ∀ x ∈ after, x.key ≠ s.key) :
    Applies rules s.hop.dpid inPort f (s'.rule (kindBefore after) vlanId) :=
  ((hT s (by simp [hstops, hs]) inPort hin f hf _).mpr
    ⟨before ++ before', s', after, by rw [hstops, hX, List.append_assoc], hkey, hlast, rfl⟩).1

lemma Traverses.forward_of_applies {mbs : List Str} {dpid : Dpid} {inPort : Port} {f : Frame}
    {r : Rule} (h : Traverses cable rules own mbs (.switch dpid inPort f))
    (hr : Applies rules dpid inPort f r) :
    Traverses cable rules own mbs (forward cable inPort r f) := by
  cases h with
  | switch _ _ hnext => exact hnext r hr

lemma Traverses.mem_own {mbs : List Str} {dpid : Dpid} {inPort : Port} {f : Frame} {r : Rule}
    (h : Traverses cable rules own mbs (.switch dpid inPort f))
    (hr : Applies rules dpid inPort f r) : r ∈ own := by
  cases h with
  | switch _ hown _ => exact hown r hr

lemma Traverses.passable {mbs : List Str} {s : Stop} {inPort : Port} {f : Frame}
    (h : Traverses cable rules own mbs (.switch s.hop.dpid inPort f))
    (hin : s.hop.inPort = some inPort) (hback : s.hop.inPort ≠ s.hop.outPort) :
    Passable rules own f s := by
  refine ⟨hback, fun inPort' hin' r hr => ?_⟩
  obtain rfl := Option.some.inj (hin.symm.trans hin')
  exact h.mem_own hr

/-- What remains to be traversed after a stop, by the stops that follow it. -/
def Onward (cable : Dpid → Port → Option Peer) (rules own : List Rule) (f : Frame)
    (mbs : List Str) (s : Stop) : List Stop → Prop
  | [] => mbs = s.middlebox.toList
  | s' :: _ => ∃ inPort mbs', s'.hop.inPort = some inPort ∧ mbs = s.middlebox.toList ++ mbs' ∧
      Traverses cable rules own mbs' (.switch s'.hop.dpid inPort f)

/-- What the rule of a stop does. -/
lemma traverses_forward_rule_iff {s : Stop} {after : List Stop} (h : Route cable (s :: after))
    {f : Frame} (hf : f.vlanId = some vlanId) {p : Port} (hin : s.hop.inPort = some p)
    (mbs : List Str) :
    Traverses cable rules own mbs (forward cable p (s.rule (kindBefore after) vlanId) f) ↔
      s.hop.inPort ≠ s.hop.outPort ∧ Onward cable rules own f mbs s after := by
  have hout : ∃ outPort, s.hop.outPort = some outPort := by
    cases after with
    | nil =>
        obtain ⟨_, outPort, -, hout, -⟩ := h
        exact ⟨outPort, hout⟩
    | cons s' after =>
        obtain ⟨outPort, _, hout, -⟩ := h.1
        exact ⟨outPort, hout⟩
  obtain ⟨outPort, hout⟩ := hout
  have hport : s.hop.outPort = some (s.rule (kindBefore after) vlanId).outPort := by
    simp [Stop.rule, hout]
  by_cases hback : s.hop.inPort = s.hop.outPort
  · have hlost : (s.rule (kindBefore after) vlanId).outPort = p :=
      Option.some.inj ((hport.symm.trans hback.symm).trans hin)
    rw [forward, if_pos hlost]
    exact ⟨fun h => absurd h (not_traverses_lost mbs), fun h => absurd hback h.1⟩
  · have hne : s.hop.outPort ≠ some p := fun heq => hback (hin.trans heq.symm)
    rw [and_iff_right hback]
    cases after with
    | nil => exact traverses_forward_last_iff h hne f mbs
    | cons s' after =>
        have htag : ((s.rule .forward vlanId).act f).vlanId ≠ none := by
          simp [Rule.act, Stop.rule, hf]
        rw [hport] at hne
        exact traverses_forward_iff h.1 rfl hport htag (fun heq => hne (congrArg some heq)) mbs

/-! ### Whole ways -/

lemma middleboxes_cons (s : Stop) (X : List Stop) :
    middleboxes (s :: X) = s.middlebox.toList ++ middleboxes X := by
  cases h : s.middlebox <;> simp [middleboxes, h]

lemma middleboxes_append (X Y : List Stop) :
    middleboxes (X ++ Y) = middleboxes X ++ middleboxes Y :=
  List.filterMap_append

/-- A frame that enters a stop is forwarded by the rule of the last stop that is entered there. -/
lemma Traverses.exists_step (hT : Table rules own vlanId stops) (hR : Route cable stops)
    {f : Frame} (hf : f.vlanId = some vlanId) {before X : List Stop} {s : Stop}
    (hstops : stops = before ++ s :: X) {inPort : Port} (hin : s.hop.inPort = some inPort)
    {mbs : List Str} (h : Traverses cable rules own mbs (.switch s.hop.dpid inPort f)) :
    ∃ skipped s' after, s :: X = skipped ++ s' :: after ∧ s'.key = s.key ∧
      (∀ x ∈ after, x.key ≠ s.key) ∧ s'.hop.inPort ≠ s'.hop.outPort ∧
        Onward cable rules own f mbs s' after := by
  obtain ⟨skipped, s', after, hX, hkey, hlast⟩ := exists_last_stop (X := s :: X) List.mem_cons_self
  have hr := applies_last hT hstops List.mem_cons_self hin hf hX hkey hlast
  have hroute : Route cable (s' :: after) := by
    rw [hstops, hX, ← List.append_assoc] at hR
    exact hR.of_append
  have hin' : s'.hop.inPort = some inPort := (congrArg Prod.snd hkey).trans hin
  exact ⟨skipped, s', after, hX, hkey, hlast,
    (traverses_forward_rule_iff hroute hf hin' mbs).mp (h.forward_of_applies hr)⟩

/-- From a stop on, at most the remaining middleboxes are visited. -/
lemma length_le_of_traverses (hT : Table rules own vlanId stops) (hR : Route cable stops)
    {f : Frame} (hf : f.vlanId = some vlanId) {before X : List Stop} {s : Stop}
    (hstops : stops = before ++ s :: X) {inPort : Port} (hin : s.hop.inPort = some inPort)
    {mbs : List Str} (h : Traverses cable rules own mbs (.switch s.hop.dpid inPort f)) :
    mbs.length ≤ (middleboxes (s :: X)).length := by
  induction hn : X.length using Nat.strong_induction_on generalizing before X s inPort mbs with
  | _ n ih =>
      obtain ⟨skipped, s', after, hX, -, -, -, hnext⟩ := h.exists_step hT hR hf hstops hin
      rw [hX, middleboxes_append, middleboxes_cons, List.length_append, List.length_append]
      cases after with
      | nil =>
          rw [hnext]
          omega
      | cons s'' after =>
          obtain ⟨inPort', mbs', hin', rfl, h'⟩ := hnext
          have hshort : after.length < n := by
            have := congrArg List.length hX
            simp only [List.length_cons, List.length_append] at this
            omega
          have hstops' : stops = (before ++ skipped ++ [s']) ++ s'' :: after := by
            rw [hstops, hX]
            simp
          have hle := ih after.length hshort hstops' hin' h' rfl
          rw [List.length_append]
          omega

lemma Onward.length_le (hT : Table rules own vlanId stops) (hR : Route cable stops) {f : Frame}
    (hf : f.vlanId = some vlanId) {before X : List Stop} {s : Stop}
    (hstops : stops = before ++ s :: X) {mbs : List Str} (h : Onward cable rules own f mbs s X) :
    mbs.length ≤ (middleboxes (s :: X)).length := by
  rw [middleboxes_cons, List.length_append]
  cases X with
  | nil =>
      rw [h]
      omega
  | cons s' X =>
      obtain ⟨inPort, mbs', hin, rfl, h⟩ := h
      have hstops' : stops = (before ++ [s]) ++ s' :: X := by simp [hstops]
      have hle := length_le_of_traverses hT hR hf hstops' hin h
      rw [List.length_append]
      omega

/-- If all remaining middleboxes are visited, no stop is skipped, because a leg would be skipped
with it. -/
lemma Traverses.onward (hT : Table rules own vlanId stops) (hR : Route cable stops)
    (hS : Simple stops) {f : Frame} (hf : f.vlanId = some vlanId) {before X : List Stop} {s : Stop}
    (hstops : stops = before ++ s :: X) {inPort : Port} (hin : s.hop.inPort = some inPort)
    {mbs : List Str} (h : Traverses cable rules own mbs (.switch s.hop.dpid inPort f))
    (hlength : mbs.length = (middleboxes (s :: X)).length) :
    (∀ x ∈ X, x.key ≠ s.key) ∧ s.hop.inPort ≠ s.hop.outPort ∧
      Onward cable rules own f mbs s X := by
  obtain ⟨skipped, s', after, hX, hkey, hlast, hback, hnext⟩ := h.exists_step hT hR hf hstops hin
  cases skipped with
  | nil =>
      obtain ⟨rfl, rfl⟩ := List.cons.inj hX
      exact ⟨hlast, hback, hnext⟩
  | cons s₀ skipped =>
      obtain ⟨rfl, rfl⟩ := List.cons.inj hX
      have hstops' : stops = (before ++ s :: skipped) ++ s' :: after := by simp [hstops]
      have hle := hnext.length_le hT hR hf hstops'
      rw [hX, middleboxes_append, List.length_append] at hlength
      have hnone : middleboxes (s :: skipped) = [] := List.eq_nil_of_length_eq_zero (by omega)
      have hnone : ∀ x ∈ s :: skipped, x.middlebox = none := fun x hx => by
        simpa using List.filterMap_eq_nil_iff.mp hnone x hx
      exact absurd hkey.symm (hS before s skipped s' after hstops hnone)

/-- If all remaining middleboxes are visited, the remaining stops are entered one after the other,
and each of them can be passed. -/
lemma nodup_of_traverses (hT : Table rules own vlanId stops) (hR : Route cable stops)
    (hS : Simple stops) {f : Frame} (hf : f.vlanId = some vlanId) {before X : List Stop} {s : Stop}
    (hstops : stops = before ++ s :: X) {inPort : Port} (hin : s.hop.inPort = some inPort)
    {mbs : List Str} (h : Traverses cable rules own mbs (.switch s.hop.dpid inPort f))
    (hlength : mbs.length = (middleboxes (s :: X)).length) :
    ((s :: X).map Stop.key).Nodup ∧ ∀ x ∈ s :: X, Passable rules own f x := by
  induction X generalizing before s inPort mbs with
  | nil =>
      obtain ⟨-, hback, -⟩ := h.onward hT hR hS hf hstops hin hlength
      exact ⟨by simp, by simpa using h.passable hin hback⟩
  | cons s₁ X ih =>
      obtain ⟨hne, hback, inPort', mbs', hin', rfl, h'⟩ :=
        h.onward hT hR hS hf hstops hin hlength
      have hlength' : mbs'.length = (middleboxes (s₁ :: X)).length := by
        rw [middleboxes_cons s, List.length_append, List.length_append] at hlength
        omega
      have hstops' : stops = (before ++ [s]) ++ s₁ :: X := by simp [hstops]
      obtain ⟨hnodup, hpass⟩ := ih hstops' hin' h' hlength'
      refine ⟨?_, List.forall_mem_cons.mpr ⟨h.passable hin hback, hpass⟩⟩
      rw [List.map_cons, List.nodup_cons]
      refine ⟨fun hmem => ?_, hnodup⟩
      obtain ⟨x, hx, hkey⟩ := List.mem_map.mp hmem
      exact hne x hx hkey

/-- A stop that is not entered again sends a frame onward. -/
lemma Onward.traverses (hT : Table rules own vlanId stops) (hR : Route cable stops) {f : Frame}
    (hf : f.vlanId = some vlanId) {before X : List Stop} {s : Stop}
    (hstops : stops = before ++ s :: X) {inPort : Port} (hin : s.hop.inPort = some inPort)
    (hnew : ∀ x ∈ X, x.key ≠ s.key) (hpass : Passable rules own f s) {mbs : List Str}
    (h : Onward cable rules own f mbs s X) :
    Traverses cable rules own mbs (.switch s.hop.dpid inPort f) := by
  have hroute : Route cable (s :: X) := by
    rw [hstops] at hR
    exact hR.of_append
  have hown := hpass.2 inPort hin
  refine .switch ⟨s.rule (kindBefore X) vlanId, ?_⟩ hown fun r hr => ?_
  · have hfirst : s :: X = [] ++ s :: X := rfl
    exact applies_last hT hstops List.mem_cons_self hin hf hfirst rfl hnew
  · obtain ⟨before', s', after, hstops', hkey, hlast, rfl⟩ :=
      (hT s (by simp [hstops]) inPort hin f hf r).mp ⟨hr, hown r hr⟩
    obtain ⟨rfl, rfl⟩ := LastEntries.last_unique (p := fun x => x.key = s.key)
      (hstops.symm.trans hstops') rfl hkey hnew hlast
    exact (traverses_forward_rule_iff hroute hf hin mbs).mpr ⟨hpass.1, h⟩

/-- If the stops are entered one after the other and can be passed, all middleboxes are visited. -/
lemma traverses_of_nodup (hT : Table rules own vlanId stops) (hR : Route cable stops)
    {f : Frame} (hf : f.vlanId = some vlanId) {before X : List Stop} {s : Stop}
    (hstops : stops = before ++ s :: X) {inPort : Port} (hin : s.hop.inPort = some inPort)
    (hnodup : ((s :: X).map Stop.key).Nodup) (hpass : ∀ x ∈ s :: X, Passable rules own f x) :
    Traverses cable rules own (middleboxes (s :: X)) (.switch s.hop.dpid inPort f) := by
  induction X generalizing before s inPort with
  | nil =>
      refine Onward.traverses hT hR hf hstops hin nofun (hpass s List.mem_cons_self) ?_
      rw [middleboxes_cons]
      exact List.append_nil _
  | cons s₁ X ih =>
      obtain ⟨hnew, hnodup⟩ := List.nodup_cons.mp hnodup
      have hne : ∀ x ∈ s₁ :: X, x.key ≠ s.key := fun x hx hkey =>
        hnew (hkey ▸ List.mem_map_of_mem hx)
      have hroute : Route cable (s :: s₁ :: X) := by
        rw [hstops] at hR
        exact hR.of_append
      obtain ⟨_, inPort', -, hin', -⟩ := hroute.1
      refine Onward.traverses hT hR hf hstops hin hne (hpass s List.mem_cons_self)
        ⟨inPort', _, hin', middleboxes_cons s _, ?_⟩
      have hstops' : stops = (before ++ [s]) ++ s₁ :: X := by simp [hstops]
      exact ih hstops' hin' hnodup (List.forall_mem_cons.mp hpass).2

/-- **Ways.**  A frame with the VLAN id of a way that enters its first stop is forwarded to all its
middleboxes in order exactly if the way enters no switch twice by one port, and each of its stops
can be passed. -/
theorem traverses_iff_nodup (hT : Table rules own vlanId stops) (hR : Route cable stops)
    (hS : Simple stops) {f : Frame} (hf : f.vlanId = some vlanId) {X : List Stop} {s : Stop}
    (hstops : stops = s :: X) {inPort : Port} (hin : s.hop.inPort = some inPort) :
    Traverses cable rules own (middleboxes stops) (.switch s.hop.dpid inPort f) ↔
      (stops.map Stop.key).Nodup ∧ ∀ x ∈ stops, Passable rules own f x := by
  have hstops' : stops = [] ++ s :: X := hstops
  subst hstops
  constructor
  · exact fun h => nodup_of_traverses hT hR hS hf hstops' hin h rfl
  · rintro ⟨hnodup, hpass⟩
    exact traverses_of_nodup hT hR hf hstops' hin hnodup hpass

end

end FtThesis.Tsa
