/-
The way of a chain through the network.

* `Wiring`: the network is wired as the topology says;
* `chainStops`: the way of a chain, leg by leg;
* `route_stopsFrom`, `simple_stopsFrom`, `middleboxes_stopsFrom`: it leads through the middleboxes
  of the chain, and enters no switch twice in one leg;
* `rulesOf_chainPlan`: its rules are those that are installed;
* `twoSwitchesWiring`: how the small network is wired.
-/
import FtThesis.Tsa.Forwarding
import FtThesis.Tsa.Handlers

namespace FtThesis.Tsa

open TsaBE

/-! ### The network -/

/-- The cables of a network: links go both ways and join the ports that lead from each of the two
switches to the other one, and each middlebox and each sender has a port of its own. -/
structure Wiring (net : Topology) where
  cable : Dpid → Port → Option Peer
  ends : ∀ dpid port dpid' port', cable dpid port = some (.switch dpid' port') →
    cable dpid' port' = some (.switch dpid port)
  symm : ∀ dpid dpid', net.graph.Adj dpid dpid' → net.graph.Adj dpid' dpid
  link : ∀ dpid dpid' port port', portTo net.graph dpid dpid' = some port →
    portTo net.graph dpid' dpid = some port' → cable dpid port = some (.switch dpid' port')
  middlebox : ∀ mb dpid port, net.middleboxToSwitchMapping mb = some (dpid, port) →
    cable dpid port = some (.middlebox mb)
  sender : ∀ host dpid port, net.hostsThatSendPackets host = some (dpid, port) →
    cable dpid port = some (.host host)

/-- The stops of a leg to a middlebox. -/
def legStops (mb : Str) : List Hop → List Stop
  | [] => []
  | [hop] => [⟨hop, some mb⟩]
  | hop :: hops => ⟨hop, none⟩ :: legStops mb hops

/-- The stops from a port on to some middleboxes, one after the other. -/
def stopsFrom (net : Topology) : Dpid × Port → List Str → List Stop
  | _, [] => []
  | (dpid, port), mb :: mbs =>
      match net.middleboxToSwitchMapping mb with
      | none => []
      | some (dpid', port') =>
          match pathBetween net.graph dpid dpid' with
          | none => []
          | some path =>
              legStops mb (hops net.graph path (some port) port') ++
                stopsFrom net (dpid', port') mbs

/-- The stops of a chain. -/
def chainStops (net : Topology) (senderHost policyChain : Str) : List Stop :=
  match net.hostsThatSendPackets senderHost with
  | none => []
  | some sender => stopsFrom net sender (policyChain.splitOn ',')

section

variable {net : Topology}

/-- The port to a neighbor. -/
lemma exists_portTo {g : Graph} {dpid dpid' : Dpid} (h : g.Adj dpid dpid') :
    ∃ port, portTo g dpid dpid' = some port := by
  obtain ⟨neighbors, port, hnode, hmem⟩ := h
  have hfind : (neighbors.find? fun nb => dpid' = nb.2).isSome := by
    rw [List.find?_isSome]
    exact ⟨_, hmem, by simp⟩
  obtain ⟨nb, hnb⟩ := Option.isSome_iff_exists.mp hfind
  exact ⟨nb.1, by simp [portTo, hnode, getPortToNeighbor, hnb]⟩

lemma adj_of_portTo {g : Graph} {d d' : Dpid} {port : Port} (h : portTo g d d' = some port) :
    g.Adj d d' := by
  obtain ⟨neighbors, hnode, h⟩ := Option.bind_eq_some_iff.mp h
  obtain ⟨nb, hnb, rfl⟩ := Option.map_eq_some_iff.mp h
  have hname : d' = nb.2 := by simpa using List.find?_some hnb
  exact ⟨neighbors, nb.1, hnode, hname ▸ List.mem_of_find?_eq_some hnb⟩

lemma map_dpid_hops (g : Graph) (path : List Dpid) (inPort : Option Port) (outPort : Port) :
    (hops g path inPort outPort).map Hop.dpid = path := by
  induction path generalizing inPort with
  | nil => rfl
  | cons dpid path ih =>
      cases path with
      | nil => rfl
      | cons dpid' path => rw [hops, List.map_cons, ih]

lemma legStops_cons_cons (mb : Str) (hop hop' : Hop) (hs : List Hop) :
    legStops mb (hop :: hop' :: hs) = ⟨hop, none⟩ :: legStops mb (hop' :: hs) := rfl

lemma legStops_cons (mb : Str) (hop : Hop) (hs : List Hop) :
    ∃ m, legStops mb (hop :: hs) = ⟨hop, m⟩ :: legStops mb hs := by
  cases hs with
  | nil => exact ⟨some mb, rfl⟩
  | cons hop' hs => exact ⟨none, rfl⟩

lemma map_hop_legStops (mb : Str) (hs : List Hop) : (legStops mb hs).map Stop.hop = hs := by
  induction hs with
  | nil => rfl
  | cons hop hs ih =>
      cases hs with
      | nil => rfl
      | cons hop' hs => rw [legStops_cons_cons, List.map_cons, ih]

/-- Only the last stop of a leg leads to a middlebox. -/
lemma legStops_eq (mb : Str) {hs : List Hop} (hne : hs ≠ []) :
    ∃ stops hop, legStops mb hs = stops ++ [⟨hop, some mb⟩] ∧ ∀ s ∈ stops, s.middlebox = none := by
  induction hs with
  | nil => exact absurd rfl hne
  | cons hop hs ih =>
      cases hs with
      | nil => exact ⟨[], hop, rfl, nofun⟩
      | cons hop' hs =>
          obtain ⟨stops, last, heq, hnone⟩ := ih (by simp)
          exact ⟨⟨hop, none⟩ :: stops, last, by rw [legStops_cons_cons, heq]; rfl,
            List.forall_mem_cons.mpr ⟨rfl, hnone⟩⟩

/-! ### The way of a chain -/

/-- A leg leads to its middlebox, and from there to the next leg. -/
lemma route_legStops (w : Wiring net) {path : List Dpid} (hpath : path.IsChain net.graph.Adj)
    {dpid : Dpid} (hlast : path.getLast? = some dpid) {mb : Str} {port : Port}
    (hmb : w.cable dpid port = some (.middlebox mb)) (inPort : Option Port) {rest : List Stop}
    (hrest : Route w.cable rest) (hnext : ∀ s X, rest = s :: X → s.key = (dpid, some port)) :
    Route w.cable (legStops mb (hops net.graph path inPort port) ++ rest) := by
  induction path generalizing inPort with
  | nil => exact hrest
  | cons d path ih =>
      cases path with
      | nil =>
          obtain rfl : d = dpid := by simpa using hlast
          cases rest with
          | nil => exact ⟨mb, port, rfl, rfl, hmb⟩
          | cons s X =>
              obtain ⟨hd, hin⟩ := Prod.mk.inj (hnext s X rfl)
              exact ⟨⟨port, port, rfl, hin, hmb, hd, rfl⟩, hrest⟩
      | cons d' path =>
          obtain ⟨hadj, hchain⟩ := List.isChain_cons_cons.mp hpath
          obtain ⟨out, hout⟩ := exists_portTo hadj
          obtain ⟨inp, hinp⟩ := exists_portTo (w.symm d d' hadj)
          have hroute := ih hchain (by simpa using hlast) (portTo net.graph d' d)
          have hcable := w.link d d' out inp hout hinp
          have hhops : ∃ hop hs, hops net.graph (d' :: path) (portTo net.graph d' d) port =
              hop :: hs ∧ hop.dpid = d' ∧ hop.inPort = some inp := by
            cases hhops : hops net.graph (d' :: path) (portTo net.graph d' d) port with
            | nil => cases path <;> cases hhops
            | cons hop hs =>
                obtain ⟨hhead, hin⟩ := head_hops hhops
                exact ⟨hop, hs, rfl, (Option.some.inj hhead).symm, hin.trans hinp⟩
          obtain ⟨hop, hs, hhops, hd, hin⟩ := hhops
          rw [hops, hhops]
          rw [hhops] at hroute
          have hstep : ∀ s, s.hop = hop →
              Leads w.cable ⟨⟨d, inPort, portTo net.graph d d'⟩, none⟩ s := by
            rintro s rfl
            exact ⟨out, inp, hout, hin, by rw [hd]; exact hcable⟩
          cases hs with
          | nil => exact ⟨hstep _ rfl, hroute⟩
          | cons hop' hs => exact ⟨hstep _ rfl, hroute⟩

/-- The first stop is entered where the way begins. -/
lemma stopsFrom_cons {sender : Dpid × Port} {mb : Str} {mbs : List Str}
    (h : reaches net sender.1 (mb :: mbs) = true) :
    ∃ dpid port path hop hs, net.middleboxToSwitchMapping mb = some (dpid, port) ∧
      pathBetween net.graph sender.1 dpid = some path ∧
      hops net.graph path (some sender.2) port = hop :: hs ∧
      hop.dpid = sender.1 ∧ hop.inPort = some sender.2 ∧ reaches net dpid mbs = true ∧
      stopsFrom net sender (mb :: mbs) =
        legStops mb (hop :: hs) ++ stopsFrom net (dpid, port) mbs := by
  rw [reaches] at h
  split at h
  · cases h
  next dpid port hmb =>
    obtain ⟨hpath, hrest⟩ := (Bool.and_eq_true _ _).mp h
    obtain ⟨path, hpath⟩ := Option.isSome_iff_exists.mp hpath
    have hhead := (isPath_of_pathBetween hpath).head
    cases hhops : hops net.graph path (some sender.2) port with
    | nil =>
        have hmap := map_dpid_hops net.graph path (some sender.2) port
        rw [hhops] at hmap
        rw [← hmap] at hhead
        cases hhead
    | cons hop hs =>
        obtain ⟨hdpid, hin⟩ := head_hops hhops
        refine ⟨dpid, port, path, hop, hs, hmb, hpath, hhops, ?_, hin, hrest, ?_⟩
        · exact Option.some.inj (hdpid.symm.trans hhead)
        · rw [stopsFrom, hmb]
          simp only [hpath, hhops]

lemma key_of_stopsFrom {sender : Dpid × Port} {mbs : List Str}
    (h : reaches net sender.1 mbs = true) {s : Stop} {X : List Stop}
    (hs : stopsFrom net sender mbs = s :: X) : s.key = (sender.1, some sender.2) := by
  cases mbs with
  | nil => cases hs
  | cons mb mbs =>
      obtain ⟨dpid, port, path, hop, hs', -, -, -, hdpid, hin, -, heq⟩ := stopsFrom_cons h
      rw [heq] at hs
      have hhop : s.hop = hop := by
        have hmap := congrArg (fun X => (X.map Stop.hop).head?) hs
        simpa [map_hop_legStops] using hmap.symm
      rw [Stop.key, hhop, hdpid, hin]

lemma stopsFrom_ne_nil {sender : Dpid × Port} {mbs : List Str}
    (h : reaches net sender.1 mbs = true) (hne : mbs ≠ []) : stopsFrom net sender mbs ≠ [] := by
  cases mbs with
  | nil => exact absurd rfl hne
  | cons mb mbs =>
      obtain ⟨dpid, port, path, hop, hs, -, -, -, -, -, -, heq⟩ := stopsFrom_cons h
      rw [heq]
      obtain ⟨stops, last, hleg, -⟩ := legStops_eq mb (List.cons_ne_nil hop hs)
      rw [hleg]
      simp

/-- The way of a chain leads from each middlebox to the next one. -/
lemma route_stopsFrom (w : Wiring net) {mbs : List Str} {sender : Dpid × Port}
    (h : reaches net sender.1 mbs = true) : Route w.cable (stopsFrom net sender mbs) := by
  induction mbs generalizing sender with
  | nil => trivial
  | cons mb mbs ih =>
      obtain ⟨dpid, port, path, hop, hs, hmb, hpath, hhops, -, -, hrest, heq⟩ := stopsFrom_cons h
      have hp := isPath_of_pathBetween hpath
      rw [heq, ← hhops]
      exact route_legStops w hp.adj hp.last (w.middlebox mb dpid port hmb) _ (ih hrest)
        fun s X hX => key_of_stopsFrom hrest hX

/-- It visits the middleboxes of the chain. -/
lemma middleboxes_stopsFrom {mbs : List Str} {sender : Dpid × Port}
    (h : reaches net sender.1 mbs = true) : middleboxes (stopsFrom net sender mbs) = mbs := by
  induction mbs generalizing sender with
  | nil => rfl
  | cons mb mbs ih =>
      obtain ⟨dpid, port, path, hop, hs, -, -, -, -, -, hrest, heq⟩ := stopsFrom_cons h
      obtain ⟨stops, last, hleg, hnone⟩ := legStops_eq mb (List.cons_ne_nil hop hs)
      have hempty : middleboxes stops = [] := List.filterMap_eq_nil_iff.mpr hnone
      rw [heq, hleg, middleboxes_append, ih hrest, middleboxes_append, hempty]
      rfl

lemma Simple.of_append {before X : List Stop} (h : Simple (before ++ X)) : Simple X := by
  intro before' s between s' after hX
  exact h (before ++ before') s between s' after (by rw [hX, List.append_assoc])

/-- Within a leg the switches are different, so a way is simple if the rest of it is. -/
lemma simple_append {leg rest : List Stop} {mb : Str} {stops : List Stop} {hop : Hop}
    (hleg : leg = stops ++ [⟨hop, some mb⟩]) (hnodup : (leg.map fun s => s.hop.dpid).Nodup)
    (hrest : Simple rest) : Simple (leg ++ rest) := by
  -- the stops from `s` to `s'` lead to no middlebox, so they do not reach over the end of the leg
  have hend : ∀ before s m, leg = before ++ s :: m → ¬ ∀ x ∈ s :: m, x.middlebox = none := by
    intro before s m heq hnone
    have hlast : (⟨hop, some mb⟩ : Stop) ∈ s :: m := by
      have hget := congrArg List.getLast? (hleg.symm.trans heq)
      rw [List.getLast?_concat, List.getLast?_append_of_ne_nil _ (by simp)] at hget
      exact List.mem_of_getLast? hget.symm
    cases hnone _ hlast
  intro before s between s' after heq hnone
  rcases List.append_eq_append_iff.mp heq with ⟨m, rfl, hm⟩ | ⟨m, hm, hrest'⟩
  · exact hrest m s between s' after hm hnone
  · cases m with
    | nil => exact hrest [] s between s' after hrest'.symm hnone
    | cons x m =>
        rw [List.cons_append] at hrest'
        obtain ⟨rfl, htail⟩ := List.cons.inj hrest'
        rcases List.append_eq_append_iff.mp htail with ⟨k, rfl, hk⟩ | ⟨k, rfl, -⟩
        · cases k with
          | nil =>
              rw [List.append_nil] at hm
              exact absurd hnone (hend before s between hm)
          | cons y k =>
              rw [List.cons_append] at hk
              obtain ⟨rfl, -⟩ := List.cons.inj hk
              rw [hm, List.map_append, List.map_cons, List.map_append, List.map_cons] at hnodup
              have hne : s.hop.dpid ≠ s'.hop.dpid := by
                have := (List.nodup_append.mp hnodup).2.1
                rw [List.nodup_cons] at this
                exact fun heq => this.1 (by simp [heq])
              exact fun hkey => hne (congrArg Prod.fst hkey)
        · refine absurd (fun x hx => hnone x ?_) (hend before s m hm)
          rcases List.mem_cons.mp hx with rfl | hx
          · exact List.mem_cons_self
          · exact List.mem_cons_of_mem _ (List.mem_append_left _ hx)

lemma simple_stopsFrom {mbs : List Str} {sender : Dpid × Port}
    (h : reaches net sender.1 mbs = true) : Simple (stopsFrom net sender mbs) := by
  induction mbs generalizing sender with
  | nil =>
      intro before s between s' after hnil
      simp [stopsFrom] at hnil
  | cons mb mbs ih =>
      obtain ⟨dpid, port, path, hop, hs, -, hpath, hhops, -, -, hrest, heq⟩ := stopsFrom_cons h
      obtain ⟨stops, last, hleg, -⟩ := legStops_eq mb (List.cons_ne_nil hop hs)
      rw [heq]
      refine simple_append hleg ?_ (ih hrest)
      have hmap : (legStops mb (hop :: hs)).map (fun s => s.hop.dpid) = path := by
        have hdpids := map_dpid_hops net.graph path (some sender.2) port
        rw [hhops, ← map_hop_legStops mb (hop :: hs), List.map_map] at hdpids
        exact hdpids
      rw [hmap]
      exact (isPath_of_pathBetween hpath).nodup

/-! ### The rules of a chain -/

/-- The rule of the sender's switch, where the VLAN id is set. -/
def Stop.pushRule (s : Stop) (fields : List Field) (vlanId : ℕ) : Rule :=
  ⟨s.hop.dpid, .push, vlanId, ruleMatch .push fields vlanId s.hop.inPort, s.hop.outPort.getD 0⟩

lemma rulesOf_ruleEntry {kind : RuleKind} {vlanId : ℕ} {fields : List Field} {hop : Hop}
    (h : hop.outPort ≠ none) :
    rulesOf (ruleEntry kind vlanId fields hop) =
      [⟨hop.dpid, kind, vlanId, ruleMatch kind fields vlanId hop.inPort, hop.outPort.getD 0⟩] := by
  obtain ⟨outPort, hport⟩ := Option.ne_none_iff_exists'.mp h
  simp [ruleEntry, hport, rulesOf]

lemma legEntries_cons_cons (vlanId : ℕ) (pop : Bool) (hop hop' : Hop) (hs : List Hop) :
    legEntries vlanId pop (hop :: hop' :: hs) =
      ruleEntry .forward vlanId [] hop ++ legEntries vlanId pop (hop' :: hs) := rfl

/-- The rules of a leg to the last middlebox. -/
lemma rulesOf_legEntries_true {vlanId : ℕ} {mb : Str} {hs : List Hop}
    (h : ∀ s ∈ legStops mb hs, s.hop.outPort ≠ none) :
    rulesOf (legEntries vlanId true hs) = vlanRules vlanId (legStops mb hs) := by
  induction hs with
  | nil => rfl
  | cons hop hs ih =>
      cases hs with
      | nil => exact rulesOf_ruleEntry (h _ List.mem_cons_self)
      | cons hop' hs =>
          rw [legStops_cons_cons] at h ⊢
          obtain ⟨hfirst, hrest⟩ := List.forall_mem_cons.mp h
          have hne : legStops mb (hop' :: hs) ≠ [] := by cases hs <;> simp [legStops]
          rw [legEntries_cons_cons, rulesOf_append, ih hrest, vlanRules_cons, kindBefore,
            if_neg hne, rulesOf_ruleEntry hfirst]
          rfl

/-- The rules of the other legs, and of the legs that follow. -/
lemma rulesOf_flatMap_append {vlanId : ℕ} {mb : Str} {hs : List Hop}
    (h : ∀ s ∈ legStops mb hs, s.hop.outPort ≠ none) {rest : List Stop} (hrest : rest ≠ []) :
    rulesOf (hs.flatMap (ruleEntry .forward vlanId [])) ++ vlanRules vlanId rest =
      vlanRules vlanId (legStops mb hs ++ rest) := by
  induction hs with
  | nil => rfl
  | cons hop hs ih =>
      obtain ⟨m, hcons⟩ := legStops_cons mb hop hs
      rw [hcons] at h ⊢
      obtain ⟨hfirst, hall⟩ := List.forall_mem_cons.mp h
      have hne : legStops mb hs ++ rest ≠ [] := by simp [hrest]
      rw [List.flatMap_cons, rulesOf_append, List.append_assoc, ih hall,
        rulesOf_ruleEntry hfirst, List.singleton_append, List.cons_append, vlanRules_cons,
        kindBefore, if_neg hne]
      rfl

lemma legEntries_false (vlanId : ℕ) (hs : List Hop) :
    legEntries vlanId false hs = hs.flatMap (ruleEntry .forward vlanId []) := by
  induction hs with
  | nil => rfl
  | cons hop hs ih =>
      cases hs with
      | nil => simp [legEntries]
      | cons hop' hs => exact congrArg (ruleEntry .forward vlanId [] hop ++ ·) ih

lemma outPort_of_route {cable : Dpid → Port → Option Peer} {stops : List Stop}
    (h : Route cable stops) : ∀ s ∈ stops, s.hop.outPort ≠ none := by
  induction stops with
  | nil => exact nofun
  | cons s stops ih =>
      cases stops with
      | nil =>
          obtain ⟨_, outPort, -, hout, -⟩ := h
          simp [hout]
      | cons s' stops =>
          obtain ⟨outPort, _, hout, -⟩ := h.1
          exact List.forall_mem_cons.mpr ⟨by simp [hout], ih h.2⟩

/-- The rules of the legs between the middleboxes. -/
lemma rulesOf_legsPlan {vlanId : ℕ} {mb : Str} {dpid : Dpid} {port : Port}
    (hmb : net.middleboxToSwitchMapping mb = some (dpid, port)) {mbs : List Str}
    (h : reaches net dpid mbs = true)
    (hports : ∀ s ∈ stopsFrom net (dpid, port) mbs, s.hop.outPort ≠ none) :
    rulesOf (legsPlan net vlanId (mb :: mbs)).1 =
      vlanRules vlanId (stopsFrom net (dpid, port) mbs) := by
  induction mbs generalizing mb dpid port with
  | nil => rfl
  | cons mb' mbs ih =>
      obtain ⟨dpid', port', path, hop, hs, hmb', hpath, hhops, -, -, hrest, heq⟩ :=
        @stopsFrom_cons net (dpid, port) _ _ h
      rw [heq] at hports ⊢
      obtain ⟨hleg, hnext⟩ := List.forall_mem_append.mp hports
      have hplan : (legsPlan net vlanId (mb :: mb' :: mbs)).1 =
          .name mb :: legEntries vlanId (mbs = []) (hop :: hs) ++
            (legsPlan net vlanId (mb' :: mbs)).1 := by
        rw [legsPlan, andThen, legPlan]
        simp only [hmb, hmb', hpath, hhops, if_true]
      have hname : ∀ es, rulesOf (.name mb :: es) = rulesOf es := fun es => rfl
      rw [hplan, List.cons_append, hname, rulesOf_append, ih hmb' hrest hnext]
      cases mbs with
      | nil =>
          rw [decide_eq_true rfl, rulesOf_legEntries_true hleg, stopsFrom, List.append_nil]
          exact List.append_nil _
      | cons mb'' mbs =>
          rw [decide_eq_false (by simp), legEntries_false,
            rulesOf_flatMap_append hleg (stopsFrom_ne_nil hrest (by simp))]

/-- The rules of a chain with more than one middlebox. -/
lemma rulesOf_chainPlan {senderHost policyChain : Str} {sender : Dpid × Port}
    (hsender : net.hostsThatSendPackets senderHost = some sender)
    (h : reaches net sender.1 (policyChain.splitOn ',') = true)
    (hlength : 2 ≤ (policyChain.splitOn ',').length) {s : Stop} {stops : List Stop}
    (hstops : stopsFrom net sender (policyChain.splitOn ',') = s :: stops)
    (hports : ∀ x ∈ s :: stops, x.hop.outPort ≠ none) (vlanId : ℕ) (fields : List Field) :
    rulesOf (chainPlan net policyChain vlanId fields senderHost).1 =
      s.pushRule fields vlanId :: vlanRules vlanId stops := by
  rw [chainPlan]
  rcases hsplit : policyChain.splitOn ',' with _ | ⟨mb, mbs⟩
  · simp [hsplit] at hlength
  have hne : mbs ≠ [] := by
    rintro rfl
    simp [hsplit] at hlength
  rw [hsplit] at h hstops
  obtain ⟨dpid, port, path, hop, hs, hmb, hpath, hhops, -, -, hrest, heq⟩ := stopsFrom_cons h
  obtain ⟨m, hcons⟩ := legStops_cons mb hop hs
  rw [heq, hcons, List.cons_append] at hstops
  obtain ⟨rfl, rfl⟩ := List.cons.inj hstops
  obtain ⟨hfirst, hall⟩ := List.forall_mem_cons.mp hports
  obtain ⟨hleg, hnext⟩ := List.forall_mem_append.mp hall
  have hplan : firstLegPlan net mb vlanId senderHost fields =
      (ruleEntry .push vlanId fields hop ++ hs.flatMap (ruleEntry .forward vlanId []), true) := by
    obtain ⟨src, srcPort⟩ := sender
    rw [firstLegPlan, hsender, hmb]
    simp only [hpath, hhops]
    rfl
  rw [List.headD_cons, hplan, andThen, if_pos rfl, rulesOf_append, rulesOf_append,
    rulesOf_ruleEntry hfirst, rulesOf_legsPlan hmb hrest hnext, List.append_assoc,
    rulesOf_flatMap_append hleg (stopsFrom_ne_nil hrest hne)]
  rfl

end

/-! ### Two switches -/

lemma adj_twoSwitches {d d' : Dpid} (h : twoSwitches.graph.Adj d d') :
    d = 1 ∧ d' = 2 ∨ d = 2 ∧ d' = 1 := by
  obtain ⟨neighbors, port, hnode, hmem⟩ := h
  have hnode := List.mem_of_lookup_eq_some hnode
  simp only [twoSwitches, List.mem_cons, Prod.mk.injEq, List.not_mem_nil, or_false] at hnode
  rcases hnode with ⟨rfl, rfl⟩ | ⟨rfl, rfl⟩ <;> simp_all

lemma connected_twoSwitches : twoSwitches.graph.Connected := by
  have hnode : ∀ d, (twoSwitches.graph.getNode d).isSome → d = 1 ∨ d = 2 := by
    intro d hd
    simpa [Graph.getNode, twoSwitches, or_comm] using hd
  have h12 : twoSwitches.graph.Adj 1 2 := ⟨_, _, rfl, List.mem_cons_self⟩
  have h21 : twoSwitches.graph.Adj 2 1 := ⟨_, _, rfl, List.mem_cons_self⟩
  intro d d' hd hd'
  rcases hnode d hd with rfl | rfl <;> rcases hnode d' hd' with rfl | rfl
  · exact .refl
  · exact .single h12
  · exact .single h21
  · exact .refl

/-- How the two switches are wired. -/
def twoSwitchesWiring : Wiring twoSwitches where
  cable dpid port :=
    [((1, 1), .switch 2 1), ((2, 1), .switch 1 1), ((1, 2), .host "h1".toList),
      ((1, 3), .host "h2".toList), ((1, 4), .middlebox "m2".toList),
      ((2, 2), .middlebox "m1".toList), ((2, 3), .middlebox "m3".toList)].lookup (dpid, port)
  ends dpid port dpid' port' h := by
    have hmem := List.mem_of_lookup_eq_some h
    simp only [List.mem_cons, Prod.mk.injEq, Peer.switch.injEq, reduceCtorEq, and_false,
      List.not_mem_nil, or_false] at hmem
    rcases hmem with ⟨⟨rfl, rfl⟩, rfl, rfl⟩ | ⟨⟨rfl, rfl⟩, rfl, rfl⟩ <;> rfl
  symm d d' h := by
    rcases adj_twoSwitches h with ⟨rfl, rfl⟩ | ⟨rfl, rfl⟩ <;> exact ⟨_, _, rfl, List.mem_cons_self⟩
  link dpid dpid' port port' h h' := by
    rcases adj_twoSwitches (adj_of_portTo h) with ⟨rfl, rfl⟩ | ⟨rfl, rfl⟩ <;>
      cases h <;> cases h' <;> rfl
  middlebox mb dpid port h := by
    have hmem := List.mem_of_lookup_eq_some h
    simp only [List.mem_cons, Prod.mk.injEq, List.not_mem_nil, or_false] at hmem
    rcases hmem with ⟨rfl, rfl, rfl⟩ | ⟨rfl, rfl, rfl⟩ | ⟨rfl, rfl, rfl⟩ <;> rfl
  sender host dpid port h := by
    have hmem := List.mem_of_lookup_eq_some h
    simp only [List.mem_cons, Prod.mk.injEq, List.not_mem_nil, or_false] at hmem
    rcases hmem with ⟨rfl, rfl, rfl⟩ | ⟨rfl, rfl, rfl⟩ <;> rfl

end FtThesis.Tsa
