/-
Do the ports at a hop belong together?

* `Connects`, `OneLinkPerPort`: the links between ports, each port an end of one at most;
* `getPortToNeighbor_neighborsOf`: the port to another switch is an end of the first link that is
  reported between the two, in whichever direction;
* `Built.graph`: the graph in which paths are found;
* `consecutive_hops`: the port out of a switch and the port into the next one, on a path;
* `portsMatch_buildGraph`: they are the two ends of one link;
* `Built.wiring`: a network with these links, and with one cable at each port, is wired as its
  topology says.
-/
import FtThesis.Tsa.Links
import FtThesis.Tsa.Ways

namespace FtThesis.Tsa

open AppendedLists TsaBE

/-! ### Links between ports -/

/-- A link connects two ports, in whichever direction it is reported. -/
def Link.Connects (link : Link) (e e' : LinkEnd) : Prop :=
  link.src = e ∧ link.dst = e' ∨ link.src = e' ∧ link.dst = e

/-- A link between two ports is reported. -/
def Connected (links : List Link) (e e' : LinkEnd) : Prop := ∃ link ∈ links, link.Connects e e'

/-- Each port is an end of at most one link. -/
def OneLinkPerPort (links : List Link) : Prop :=
  ∀ e e' e'', Connected links e e' → Connected links e e'' → e' = e''

lemma oneLinkPerPort_iff {links : List Link} :
    OneLinkPerPort links ↔ ∀ link ∈ links, ∀ link' ∈ links,
      (link.src = link'.src → link.dst = link'.dst) ∧
      (link.src = link'.dst → link.dst = link'.src) ∧
      (link.dst = link'.dst → link.src = link'.src) := by
  constructor
  · intro h link hlink link' hlink'
    refine ⟨fun heq => ?_, fun heq => ?_, fun heq => ?_⟩
    · exact h link.src _ _ ⟨link, hlink, .inl ⟨rfl, rfl⟩⟩ ⟨link', hlink', .inl ⟨heq.symm, rfl⟩⟩
    · exact h link.src _ _ ⟨link, hlink, .inl ⟨rfl, rfl⟩⟩ ⟨link', hlink', .inr ⟨rfl, heq.symm⟩⟩
    · exact h link.dst _ _ ⟨link, hlink, .inr ⟨rfl, rfl⟩⟩ ⟨link', hlink', .inr ⟨rfl, heq.symm⟩⟩
  · rintro h e e' e'' ⟨link, hlink, hends⟩ ⟨link', hlink', hends'⟩
    obtain ⟨hsrc, hmixed, hdst⟩ := h link hlink link' hlink'
    obtain ⟨-, hmixed', -⟩ := h link' hlink' link hlink
    rcases hends with ⟨rfl, rfl⟩ | ⟨rfl, rfl⟩ <;> rcases hends' with ⟨heq, rfl⟩ | ⟨rfl, heq⟩
    · exact hsrc heq.symm
    · exact hmixed heq.symm
    · exact (hmixed' heq).symm
    · exact hdst heq.symm

instance (links : List Link) : Decidable (OneLinkPerPort links) :=
  decidable_of_iff' _ oneLinkPerPort_iff

/-- The end of a link at a switch. -/
def Link.endAt (link : Link) (s : Dpid) : LinkEnd :=
  if link.src.dpid = s then link.src else link.dst

variable {links : List Link} {s t : Dpid}

lemma Link.Joins.connects {link : Link} (h : link.Joins s t) (hne : s ≠ t) :
    link.Connects ⟨s, (link.endAt s).portNo⟩ ⟨t, (link.endAt t).portNo⟩ := by
  rcases h with ⟨rfl, rfl⟩ | ⟨rfl, rfl⟩
  · rw [endAt, endAt, if_pos rfl, if_neg hne]
    exact .inl ⟨rfl, rfl⟩
  · rw [endAt, endAt, if_pos rfl, if_neg hne.symm]
    exact .inr ⟨rfl, rfl⟩

/-! ### The port to a neighbor -/

lemma LinkEnd.find?_entries (e : LinkEnd) (t' s t : Dpid) :
    (e.entries t' s).find? (fun nb => t = nb.2) =
      if e.dpid = s ∧ t' = t then some (e.portNo, t) else none := by
  rw [entries]
  by_cases hs : e.dpid = s
  · by_cases ht : t' = t
    · simp [hs, ht]
    · simp [hs, ht, eq_comm]
  · simp [hs]

lemma Link.find?_entries (link : Link) (hne : s ≠ t) :
    (link.entries s).find? (fun nb => t = nb.2) =
      if link.Joins s t then some ((link.endAt s).portNo, t) else none := by
  rw [entries, List.find?_append, LinkEnd.find?_entries, LinkEnd.find?_entries, endAt]
  by_cases hsrc : link.src.dpid = s
  · simp [Joins, hsrc, hne]
  · simp [Joins, hsrc, and_comm]

/-- The port to another switch is an end of the first link between the two. -/
lemma getPortToNeighbor_neighborsOf (hne : s ≠ t) :
    getPortToNeighbor (neighborsOf links s) t =
      (links.find? fun link => link.Joins s t).map fun link => (link.endAt s).portNo := by
  have hentries : (links.findSome? fun link => (link.entries s).find? fun nb => t = nb.2) =
      (links.find? fun link => link.Joins s t).map fun link => ((link.endAt s).portNo, t) := by
    rw [List.find?_eq_findSome?_guard, List.map_findSome?]
    congr 1
    funext link
    rw [Function.comp_apply, link.find?_entries hne, Option.guard]
    split_ifs <;> simp_all
  calc getPortToNeighbor (neighborsOf links s) t
      = ((links.flatMap fun link => link.entries s).find? fun nb => t = nb.2).map Prod.fst := by
        rw [getPortToNeighbor, neighborsOf, find?_foldl_appendNew, List.nil_append]
    _ = ((links.find? fun link => link.Joins s t).map fun link =>
          ((link.endAt s).portNo, t)).map Prod.fst := by rw [List.find?_flatMap, hentries]
    _ = (links.find? fun link => link.Joins s t).map fun link => (link.endAt s).portNo := by
        rw [Option.map_map]
        rfl

/-- Both lookups come to the same link, from its two ends. -/
lemma exists_connects (hne : s ≠ t) (h : ∃ link ∈ links, link.Joins s t) :
    ∃ link ∈ links, ∃ port port', getPortToNeighbor (neighborsOf links s) t = some port ∧
      getPortToNeighbor (neighborsOf links t) s = some port' ∧
      link.Connects ⟨s, port⟩ ⟨t, port'⟩ := by
  have hfind : (links.find? fun link => link.Joins s t).isSome := by
    rw [List.find?_isSome]
    simpa using h
  obtain ⟨link, hlink⟩ := Option.isSome_iff_exists.mp hfind
  have hback : (links.find? fun link => link.Joins t s) = some link := by
    simpa only [Link.joins_comm] using hlink
  have hjoins : link.Joins s t := by simpa using List.find?_some hlink
  refine ⟨link, List.mem_of_find?_eq_some hlink, _, _, ?_, ?_, hjoins.connects hne⟩
  · rw [getPortToNeighbor_neighborsOf hne, hlink, Option.map_some]
  · rw [getPortToNeighbor_neighborsOf hne.symm, hback, Option.map_some]

/-! ### The graph in which paths are found -/

section

variable {switches : List Dpid} {g : LinkGraph} (hg : Built switches links g)

include hg

lemma Built.closed : ∀ node ∈ g.nodes, ∀ nb ∈ node.2, (g.nodes.lookup nb.2).isSome := by
  rintro ⟨s, neighbors⟩ hnode ⟨port, t⟩ hmem
  obtain ⟨neighbors', hnode', -⟩ :=
    hg.mutual ((List.lookup_eq_some_iff_mem g.nodup).mpr hnode) hmem
  exact Option.isSome_of_eq_some hnode'

/-- The switches with their neighbors. -/
def Built.graph : Graph := ⟨g.nodes, hg.closed⟩

lemma Built.portTo_eq (s t : Dpid) :
    portTo hg.graph s t =
      if s ∈ switches then getPortToNeighbor (neighborsOf links s) t else none := by
  have hnode : hg.graph.getNode s = g.getNode s := rfl
  rw [portTo, hnode, hg.getNode]
  split_ifs <;> rfl

lemma Built.exists_joins (h : hg.graph.Adj s t) : ∃ link ∈ links, link.Joins s t := by
  obtain ⟨neighbors, port, hnode, hmem⟩ := h
  exact exists_joins_iff.mpr (hg.isNeighbor_iff.mp ⟨neighbors, hnode, port, hmem⟩)

/-- **The ports between two neighbors.**  They are the ends of one link. -/
lemma Built.ports (hne : s ≠ t) (h : hg.graph.Adj s t) :
    ∃ link ∈ links, ∃ port port', portTo hg.graph s t = some port ∧
      portTo hg.graph t s = some port' ∧ link.Connects ⟨s, port⟩ ⟨t, port'⟩ := by
  obtain ⟨link, hlink, hends⟩ := hg.exists_joins h
  rw [hg.portTo_eq, hg.portTo_eq, if_pos (hg.listed.joins hlink hends.symm),
    if_pos (hg.listed.joins hlink hends)]
  exact exists_connects hne (hg.exists_joins h)

end

/-! ### The hops of a path -/

/-- A switch and the next one on a path, with the port from each to the other. -/
lemma consecutive_hops {graph : Graph} {path : List Dpid} {inPort : Option Port} {outPort : Port}
    {before after : List Hop} {hop hop' : Hop}
    (h : hops graph path inPort outPort = before ++ hop :: hop' :: after) :
    hop.outPort = portTo graph hop.dpid hop'.dpid ∧
      hop'.inPort = portTo graph hop'.dpid hop.dpid := by
  induction path generalizing inPort before with
  | nil => simp [hops] at h
  | cons d path ih =>
      cases path with
      | nil => cases before <;> simp [hops] at h
      | cons d' path =>
          rw [hops] at h
          cases before with
          | nil =>
              obtain ⟨rfl, hrest⟩ := List.cons.inj h
              obtain ⟨hhead, hin⟩ := head_hops hrest
              obtain rfl := Option.some.inj hhead
              exact ⟨rfl, hin⟩
          | cons first before => exact ih (List.cons.inj h).2

lemma IsPath.adj_of_hops {graph : Graph} {src dst : Dpid} {path : List Dpid}
    (hpath : IsPath graph src dst path) {inPort : Option Port} {outPort : Port}
    {before after : List Hop} {hop hop' : Hop}
    (h : hops graph path inPort outPort = before ++ hop :: hop' :: after) :
    graph.Adj hop.dpid hop'.dpid ∧ hop.dpid ≠ hop'.dpid := by
  have hdpids := map_dpid_hops graph path inPort outPort
  rw [h, List.map_append, List.map_cons, List.map_cons] at hdpids
  have hadj := hpath.adj
  have hnodup := hpath.nodup
  rw [← hdpids] at hadj hnodup
  have hpair := (List.nodup_append.mp hnodup).2.1
  refine ⟨(List.isChain_append_cons_cons.mp hadj).2.1, fun heq => ?_⟩
  exact (List.nodup_cons.mp hpair).1 (heq ▸ List.mem_cons_self)

/-- The ports from one neighbor to the other and back are the two ends of one link.  On a path, the
port into the next switch is where the port out of the one before leads, and it leads nowhere
else. -/
structure PortsMatch (links : List Link) (graph : Graph) : Prop where
  ends : ∀ s t, s ≠ t → graph.Adj s t →
    ∃ link ∈ links, ∃ port port', portTo graph s t = some port ∧
      portTo graph t s = some port' ∧ link.Connects ⟨s, port⟩ ⟨t, port'⟩
  hops : ∀ src dst path inPort outPort before hop hop' after, IsPath graph src dst path →
    hops graph path inPort outPort = before ++ hop :: hop' :: after →
    ∃ port port', hop.outPort = some port ∧ hop'.inPort = some port' ∧
      ∀ e, Connected links ⟨hop.dpid, port⟩ e ↔ e = ⟨hop'.dpid, port'⟩

/-- **Ports that belong together.**  In the graph that is built, with each port an end of at most
one link, whatever the order and the directions of the reports. -/
theorem portsMatch_buildGraph {order switches : List Dpid} {g : LinkGraph}
    (hports : OneLinkPerPort links) (h : buildGraph order switches links = some g) :
    PortsMatch links (built_buildGraph h).graph where
  ends := fun s t hne hadj => (built_buildGraph h).ports hne hadj
  hops := by
    intro src dst path inPort outPort before hop hop' after hpath hhops
    obtain ⟨hadj, hne⟩ := hpath.adj_of_hops hhops
    obtain ⟨hout, hin⟩ := consecutive_hops hhops
    obtain ⟨link, hlink, port, port', hport, hport', hconn⟩ := (built_buildGraph h).ports hne hadj
    refine ⟨port, port', hout.trans hport, hin.trans hport', fun e => ⟨fun he => ?_, ?_⟩⟩
    · exact hports _ _ _ he ⟨link, hlink, hconn⟩
    · rintro rfl
      exact ⟨link, hlink, hconn⟩

/-- Two links between two switches; the second one is reported from the other side. -/
def parallelLinks : List Link :=
  [⟨⟨1, 1⟩, ⟨2, 1⟩⟩, ⟨⟨2, 2⟩, ⟨1, 2⟩⟩, ⟨⟨2, 1⟩, ⟨1, 1⟩⟩]

theorem portsMatch_parallelLinks :
    OneLinkPerPort parallelLinks ∧
      ∃ g, ∃ h : buildGraph [2, 1] [1, 2] parallelLinks = some g,
        PortsMatch parallelLinks (built_buildGraph h).graph :=
  ⟨by decide, _, rfl, portsMatch_buildGraph (by decide) rfl⟩

/-! ### Networks that are wired as reported -/

/-- What is plugged into a port: the cable to the other end of a link, to a middlebox or to a
sender. -/
inductive Plugged (links : List Link) (net : Topology) (e : LinkEnd) : Peer → Prop
  | link {e' : LinkEnd} (h : Connected links e e') : Plugged links net e (.switch e'.dpid e'.portNo)
  | middlebox {mb : Str} (h : net.middleboxToSwitchMapping mb = some (e.dpid, e.portNo)) :
      Plugged links net e (.middlebox mb)
  | sender {host : Str} (h : net.hostsThatSendPackets host = some (e.dpid, e.portNo)) :
      Plugged links net e (.host host)

/-- One cable at most is plugged into each port. -/
def OneCablePerPort (links : List Link) (net : Topology) : Prop :=
  ∀ e peer peer', Plugged links net e peer → Plugged links net e peer' → peer = peer'

/-- The cable at a port. -/
noncomputable def cableAt (links : List Link) (net : Topology) (dpid : Dpid) (port : Port) :
    Option Peer :=
  open Classical in
  if h : ∃ peer, Plugged links net ⟨dpid, port⟩ peer then some h.choose else none

lemma Connected.symm {e e' : LinkEnd} (h : Connected links e e') : Connected links e' e := by
  obtain ⟨link, hlink, hconn⟩ := h
  exact ⟨link, hlink, hconn.symm⟩

section

variable {net : Topology} {dpid : Dpid} {port : Port} {peer : Peer}

lemma cableAt_eq_some_iff (hone : OneCablePerPort links net) :
    cableAt links net dpid port = some peer ↔ Plugged links net ⟨dpid, port⟩ peer := by
  rw [cableAt]
  constructor
  · intro h
    split_ifs at h with hpeer
    obtain rfl := Option.some.inj h
    exact hpeer.choose_spec
  · intro h
    have hpeer : ∃ peer, Plugged links net ⟨dpid, port⟩ peer := ⟨peer, h⟩
    rw [dif_pos hpeer, hone _ _ _ hpeer.choose_spec h]

variable {switches : List Dpid} {g : LinkGraph}

lemma Built.adj_symm (hg : Built switches links g) (h : hg.graph.Adj s t) :
    hg.graph.Adj t s := by
  obtain ⟨neighbors, port, hnode, hmem⟩ := h
  obtain ⟨neighbors', hnode', port', hmem'⟩ := hg.mutual hnode hmem
  exact ⟨neighbors', port', hnode', hmem'⟩

/-- How a network is wired whose graph is built from the links that are reported.  None of them
leads from a switch to itself. -/
noncomputable def Built.wiring (hg : Built switches links g) (hgraph : net.graph = hg.graph)
    (hone : OneCablePerPort links net)
    (hloop : ∀ link ∈ links, link.src.dpid ≠ link.dst.dpid) : Wiring net where
  cable := cableAt links net
  ends dpid port dpid' port' h := by
    rw [cableAt_eq_some_iff hone] at h ⊢
    generalize hpeer : Peer.switch dpid' port' = peer at h
    cases h with
    | link h =>
        cases hpeer
        exact .link h.symm
    | middlebox | sender => cases hpeer
  symm dpid dpid' h := by
    rw [hgraph] at h ⊢
    exact hg.adj_symm h
  link dpid dpid' port port' h h' := by
    rw [hgraph] at h h'
    have hadj := adj_of_portTo h
    have hne : dpid ≠ dpid' := by
      rintro rfl
      obtain ⟨link, hlink, ⟨hsrc, hdst⟩ | ⟨hsrc, hdst⟩⟩ := hg.exists_joins hadj
      · exact hloop link hlink (hsrc.trans hdst.symm)
      · exact hloop link hlink (hsrc.trans hdst.symm)
    obtain ⟨link, hlink, p, p', hp, hp', hconn⟩ := hg.ports hne hadj
    obtain rfl := Option.some.inj (h.symm.trans hp)
    obtain rfl := Option.some.inj (h'.symm.trans hp')
    exact (cableAt_eq_some_iff hone).mpr (.link ⟨link, hlink, hconn⟩)
  middlebox mb dpid port h := (cableAt_eq_some_iff hone).mpr (.middlebox h)
  sender host dpid port h := (cableAt_eq_some_iff hone).mpr (.sender h)

end

example : ∃ g, ∃ h : buildGraph [1, 2] [1, 2] [oneWay] = some g,
    (built_buildGraph h).graph = twoSwitches.graph := ⟨_, rfl, rfl⟩

end FtThesis.Tsa
