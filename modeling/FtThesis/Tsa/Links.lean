/-
The graph of the switches, as it is built from the links that the controller reports.

* `LinkGraph`: the nodes and the edges of a graph, with `addNode`, `addEdge` and `deleteEdge`;
* `buildGraph`: each report adds an edge and an entry at both of its ends; then the links in one
  direction are to be removed;
* `Built`: the neighbors of each switch, in the order of the reports, and the edges;
* `removeOneDirectionLinks_eq`: all entries are mutual, and nothing is removed;
* `phantomFree_iff`: links in one direction are absent exactly if there are none.
-/
import FtThesis.Tsa.Network

namespace FtThesis.Tsa

open AppendedLists

/-! ### Graphs -/

/-- A graph: the nodes with their neighbors, each with the port that leads to it, and the edges.
Each node is there once. -/
structure LinkGraph where
  nodes : List (Dpid × List (Port × Dpid))
  edges : List (Dpid × Dpid)
  nodup : (nodes.map Prod.fst).Nodup

/-- One end of a link. -/
structure LinkEnd where
  dpid : Dpid
  portNo : Port
deriving DecidableEq

/-- A link as it is reported, from one of its ends to the other one. -/
structure Link where
  src : LinkEnd
  dst : LinkEnd
deriving DecidableEq

/-- `isNeighborExist`: there is a neighbor, by a port or, without one, by any of them. -/
def isNeighborExist (neighbors : List (Port × Dpid)) (viaPort : Option Port)
    (toDestDpid : Dpid) : Bool :=
  neighbors.any fun nb => nb.2 = toDestDpid && viaPort.all fun port => nb.1 = port

lemma isNeighborExist_some {neighbors : List (Port × Dpid)} {port : Port} {dpid : Dpid} :
    isNeighborExist neighbors (some port) dpid ↔ (port, dpid) ∈ neighbors := by
  simp only [isNeighborExist, List.any_eq_true, Bool.and_eq_true, decide_eq_true_eq,
    Option.all_some]
  constructor
  · rintro ⟨⟨port', dpid'⟩, hmem, rfl, rfl⟩
    exact hmem
  · exact fun hmem => ⟨_, hmem, rfl, rfl⟩

lemma isNeighborExist_none {neighbors : List (Port × Dpid)} {dpid : Dpid} :
    isNeighborExist neighbors none dpid ↔ ∃ port, (port, dpid) ∈ neighbors := by
  simp only [isNeighborExist, List.any_eq_true, Bool.and_eq_true, decide_eq_true_eq,
    Option.all_none, and_true]
  constructor
  · rintro ⟨⟨port, dpid'⟩, hmem, rfl⟩
    exact ⟨port, hmem⟩
  · exact fun ⟨port, hmem⟩ => ⟨_, hmem, rfl⟩

namespace LinkGraph

/-- `getNode`, for the neighbors of a switch. -/
def getNode (g : LinkGraph) (dpid : Dpid) : Option (List (Port × Dpid)) := g.nodes.lookup dpid

/-- There is an edge between two switches, in whichever order it is kept. -/
def HasEdge (g : LinkGraph) (a b : Dpid) : Prop := (a, b) ∈ g.edges ∨ (b, a) ∈ g.edges

instance (g : LinkGraph) (a b : Dpid) : Decidable (g.HasEdge a b) :=
  inferInstanceAs (Decidable (_ ∨ _))

/-- A graph without nodes. -/
def empty : LinkGraph := ⟨[], [], List.nodup_nil⟩

/-- `add_node`, for a switch without neighbors. -/
def addNode (g : LinkGraph) (label : Dpid) : LinkGraph :=
  if h : label ∈ g.nodes.map Prod.fst then g
  else { g with
    nodes := g.nodes ++ [(label, [])]
    nodup := by
      rw [List.map_append, List.map_singleton]
      exact List.nodup_append_comm.mp (List.nodup_cons.mpr ⟨h, g.nodup⟩) }

/-- `add_edge`. -/
def addEdge (g : LinkGraph) (a b : Dpid) : LinkGraph :=
  if (a, b) ∈ g.edges ∨ (b, a) ∈ g.edges then g
  else { g with edges := g.edges ++ [(a, b)] }

/-- `delete_edge`, with whether there was one. -/
def deleteEdge (g : LinkGraph) (a b : Dpid) : Bool × LinkGraph :=
  if (a, b) ∈ g.edges then (true, { g with edges := g.edges.erase (a, b) })
  else if (b, a) ∈ g.edges then (true, { g with edges := g.edges.erase (b, a) })
  else (false, g)

/-- The neighbors of a switch are changed. -/
def setNeighbors (g : LinkGraph) (dpid : Dpid) (neighbors : List (Port × Dpid)) : LinkGraph :=
  { g with
    nodes := g.nodes.map fun node => (node.1, if node.1 = dpid then neighbors else node.2)
    nodup := by
      rw [List.map_map]
      exact g.nodup }

/-- A neighbor is appended to those of the switch at an end, unless it is there with this port.
It fails if the switch is not in the graph. -/
def noteNeighbor (g : LinkGraph) (e : LinkEnd) (toDestDpid : Dpid) : Option LinkGraph :=
  match g.getNode e.dpid with
  | none => none
  | some neighbors =>
      if isNeighborExist neighbors (some e.portNo) toDestDpid then some g
      else some (g.setNeighbors e.dpid (neighbors ++ [(e.portNo, toDestDpid)]))

/-- One round of the loop over the links that are reported. -/
def addLink (g : LinkGraph) (link : Link) : Option LinkGraph :=
  ((g.addEdge link.src.dpid link.dst.dpid).noteNeighbor link.src link.dst.dpid).bind fun g =>
    g.noteNeighbor link.dst link.src.dpid

/-- The loop of `removeOneDirectionLinks` over a copy of the neighbors of a switch.  What it removes
from the neighbors is an entry that is still among them. -/
def removeOneDirectionNeighbors (nodeDpid : Dpid) : List (Port × Dpid) → LinkGraph → LinkGraph
  | [], g => g
  | nb :: neighborsCopy, g =>
      let neighborNeighbors := g.getNode nb.2
      if neighborNeighbors.all fun neighbors => !isNeighborExist neighbors none nodeDpid then
        let neighbors := (g.getNode nodeDpid).getD []
        removeOneDirectionNeighbors nodeDpid neighborsCopy
          ((g.setNeighbors nodeDpid (neighbors.erase nb)).deleteEdge nodeDpid nb.2).2
      else removeOneDirectionNeighbors nodeDpid neighborsCopy g

/-- `removeOneDirectionLinks`, with the switches in some order: which one it is depends on the
dictionary. -/
def removeOneDirectionLinks (order : List Dpid) (g : LinkGraph) : LinkGraph :=
  order.foldl (fun g nodeDpid =>
    removeOneDirectionNeighbors nodeDpid ((g.getNode nodeDpid).getD []) g) g

end LinkGraph

/-- `buildGraph`, from the switches and the links that the controller reports.  An end on another
switch raises an exception. -/
def buildGraph (order : List Dpid) (switches : List Dpid) (links : List Link) :
    Option LinkGraph :=
  (links.foldlM LinkGraph.addLink (switches.foldl LinkGraph.addNode .empty)).map
    (LinkGraph.removeOneDirectionLinks order)

/-! ### What each step does -/

/-- What an end brings to the neighbors of a switch, if the link leads to another one. -/
def LinkEnd.entries (e : LinkEnd) (t s : Dpid) : List (Port × Dpid) :=
  if e.dpid = s then [(e.portNo, t)] else []

/-- What a link brings to the neighbors of a switch. -/
def Link.entries (link : Link) (s : Dpid) : List (Port × Dpid) :=
  link.src.entries link.dst.dpid s ++ link.dst.entries link.src.dpid s

/-- A link joins two switches, in whichever direction it is reported. -/
def Link.Joins (link : Link) (s t : Dpid) : Prop :=
  link.src.dpid = s ∧ link.dst.dpid = t ∨ link.src.dpid = t ∧ link.dst.dpid = s

instance (link : Link) (s t : Dpid) : Decidable (link.Joins s t) :=
  inferInstanceAs (Decidable (_ ∨ _))

lemma Link.joins_comm {link : Link} {s t : Dpid} : link.Joins s t ↔ link.Joins t s := or_comm

lemma LinkEnd.mem_entries {e : LinkEnd} {s t t' : Dpid} {port : Port} :
    (port, t') ∈ e.entries t s ↔ e = ⟨s, port⟩ ∧ t = t' := by
  obtain ⟨dpid, portNo⟩ := e
  rw [entries]
  split_ifs with hs
  · subst hs
    simp only [List.mem_singleton, Prod.mk.injEq, LinkEnd.mk.injEq, true_and]
    exact and_congr eq_comm eq_comm
  · simp only [List.not_mem_nil, LinkEnd.mk.injEq, false_iff]
    exact fun h => hs h.1.1

lemma Link.mem_entries {link : Link} {s t : Dpid} {port : Port} :
    (port, t) ∈ link.entries s ↔
      link.src = ⟨s, port⟩ ∧ link.dst.dpid = t ∨ link.dst = ⟨s, port⟩ ∧ link.src.dpid = t := by
  rw [entries, List.mem_append, LinkEnd.mem_entries, LinkEnd.mem_entries]

/-- The entries for a switch are there at the other one, too. -/
lemma Link.joins_iff {link : Link} {s t : Dpid} :
    link.Joins s t ↔ ∃ port, (port, t) ∈ link.entries s := by
  simp only [mem_entries]
  constructor
  · rintro (⟨rfl, rfl⟩ | ⟨rfl, rfl⟩)
    · exact ⟨link.src.portNo, .inl ⟨rfl, rfl⟩⟩
    · exact ⟨link.dst.portNo, .inr ⟨rfl, rfl⟩⟩
  · rintro ⟨port, ⟨hsrc, rfl⟩ | ⟨hdst, rfl⟩⟩
    · exact .inl ⟨by rw [hsrc], rfl⟩
    · exact .inr ⟨rfl, by rw [hdst]⟩

namespace LinkGraph

variable {g g' : LinkGraph}

lemma getNode_addNode (g : LinkGraph) (label s : Dpid) :
    (g.addNode label).getNode s = (g.getNode s).or (if s = label then some [] else none) := by
  rw [addNode]
  split_ifs with hmem hs hs
  · obtain ⟨⟨_, neighbors⟩, hnode, rfl⟩ := List.mem_map.mp hmem
    have hsome : g.getNode s = some neighbors := by
      rw [hs]
      exact (List.lookup_eq_some_iff_mem g.nodup).mpr hnode
    rw [hsome, Option.some_or]
  · rw [Option.or_none]
  · rw [getNode, getNode, List.lookup_append, hs, List.lookup_cons_self]
  · have hnone : [(label, ([] : List (Port × Dpid)))].lookup s = none :=
      List.lookup_eq_none_iff.mpr (by simpa using hs)
    rw [getNode, getNode, List.lookup_append, hnone, Option.or_none]

lemma edges_addNode (g : LinkGraph) (label : Dpid) : (g.addNode label).edges = g.edges := by
  rw [addNode]
  split_ifs <;> rfl

lemma getNode_addNodes (g : LinkGraph) (switches : List Dpid) (s : Dpid) :
    (switches.foldl addNode g).getNode s =
      (g.getNode s).or (if s ∈ switches then some [] else none) := by
  induction switches generalizing g with
  | nil => simp
  | cons label switches ih =>
      rw [List.foldl_cons, ih, getNode_addNode, Option.or_assoc]
      by_cases hs : s = label <;> simp [hs]

lemma edges_addNodes (g : LinkGraph) (switches : List Dpid) :
    (switches.foldl addNode g).edges = g.edges := by
  induction switches generalizing g with
  | nil => rfl
  | cons label switches ih => rw [List.foldl_cons, ih, edges_addNode]

lemma getNode_addEdge (g : LinkGraph) (a b s : Dpid) :
    (g.addEdge a b).getNode s = g.getNode s := by
  rw [addEdge]
  split_ifs <;> rfl

lemma hasEdge_addEdge {a b s t : Dpid} :
    (g.addEdge a b).HasEdge s t ↔ g.HasEdge s t ∨ a = s ∧ b = t ∨ a = t ∧ b = s := by
  rw [addEdge]
  split_ifs with h
  · refine ⟨.inl, ?_⟩
    rintro (hst | ⟨rfl, rfl⟩ | ⟨rfl, rfl⟩)
    · exact hst
    · exact h
    · exact h.symm
  · simp only [HasEdge, List.mem_append, List.mem_singleton, Prod.mk.injEq]
    grind

lemma getNode_setNeighbors (g : LinkGraph) (dpid s : Dpid) (neighbors : List (Port × Dpid)) :
    (g.setNeighbors dpid neighbors).getNode s =
      (g.getNode s).map fun old => if s = dpid then neighbors else old :=
  List.lookup_map_snd (fun d old => if d = dpid then neighbors else old) g.nodes s

lemma isSome_noteNeighbor (g : LinkGraph) (e : LinkEnd) (t : Dpid) :
    (g.noteNeighbor e t).isSome ↔ (g.getNode e.dpid).isSome := by
  rw [noteNeighbor]
  cases g.getNode e.dpid with
  | none => rfl
  | some neighbors => simp only [apply_ite Option.isSome, Option.isSome_some, ite_self]

lemma getNode_noteNeighbor {e : LinkEnd} {t : Dpid} (h : g.noteNeighbor e t = some g')
    (s : Dpid) :
    g'.getNode s = (g.getNode s).map fun old => (e.entries t s).foldl appendNew old := by
  rw [noteNeighbor] at h
  cases hnode : g.getNode e.dpid with
  | none =>
      rw [hnode] at h
      cases h
  | some neighbors =>
      simp only [hnode, isNeighborExist_some] at h
      have happend : (if (e.portNo, t) ∈ neighbors then g else
          g.setNeighbors e.dpid (neighbors ++ [(e.portNo, t)])) = g' := by
        split_ifs at h ⊢ <;> exact Option.some.inj h
      rw [← happend]
      by_cases hs : e.dpid = s
      · subst hs
        rw [LinkEnd.entries, if_pos rfl]
        split_ifs with hmem <;> simp [getNode_setNeighbors, hnode, appendNew, hmem]
      · have hs' : s ≠ e.dpid := fun h => hs h.symm
        rw [LinkEnd.entries, if_neg hs]
        split_ifs with hmem <;> simp [getNode_setNeighbors, hs']

lemma edges_noteNeighbor {e : LinkEnd} {t : Dpid} (h : g.noteNeighbor e t = some g') :
    g'.edges = g.edges := by
  rw [noteNeighbor] at h
  cases hnode : g.getNode e.dpid with
  | none =>
      rw [hnode] at h
      cases h
  | some neighbors =>
      simp only [hnode] at h
      split_ifs at h <;> cases h <;> rfl

/-! ### What the loop does -/

variable {link : Link} {links : List Link}

lemma getNode_addLink (h : g.addLink link = some g') (s : Dpid) :
    g'.getNode s = (g.getNode s).map fun old => (link.entries s).foldl appendNew old := by
  obtain ⟨g₁, hsrc, hdst⟩ := Option.bind_eq_some_iff.mp h
  rw [getNode_noteNeighbor hdst, getNode_noteNeighbor hsrc, getNode_addEdge, Option.map_map]
  simp only [Link.entries, List.foldl_append, Function.comp_def]

lemma hasEdge_addLink (h : g.addLink link = some g') {s t : Dpid} :
    g'.HasEdge s t ↔ g.HasEdge s t ∨ link.Joins s t := by
  obtain ⟨g₁, hsrc, hdst⟩ := Option.bind_eq_some_iff.mp h
  rw [HasEdge, edges_noteNeighbor hdst, edges_noteNeighbor hsrc]
  exact hasEdge_addEdge

lemma isSome_addLink (g : LinkGraph) (link : Link) :
    (g.addLink link).isSome ↔
      (g.getNode link.src.dpid).isSome ∧ (g.getNode link.dst.dpid).isSome := by
  have hsome := isSome_noteNeighbor (g.addEdge link.src.dpid link.dst.dpid) link.src link.dst.dpid
  rw [getNode_addEdge] at hsome
  rw [addLink]
  cases hsrc : (g.addEdge link.src.dpid link.dst.dpid).noteNeighbor link.src link.dst.dpid with
  | none =>
      rw [hsrc] at hsome
      exact ⟨nofun, fun h => hsome.mpr h.1⟩
  | some g₁ =>
      rw [hsrc] at hsome
      rw [Option.bind_some, isSome_noteNeighbor, getNode_noteNeighbor hsrc, getNode_addEdge,
        Option.isSome_map]
      exact ⟨fun h => ⟨hsome.mp rfl, h⟩, And.right⟩

/-- The entries come in the order of the reports. -/
lemma getNode_addLinks (h : links.foldlM addLink g = some g') (s : Dpid) :
    g'.getNode s = (g.getNode s).map fun old =>
      (links.flatMap fun link => link.entries s).foldl appendNew old := by
  induction links generalizing g with
  | nil =>
      cases h
      simp
  | cons link links ih =>
      obtain ⟨g₁, hfirst, hrest⟩ := Option.bind_eq_some_iff.mp h
      rw [ih hrest, getNode_addLink hfirst, Option.map_map]
      simp only [List.flatMap_cons, List.foldl_append, Function.comp_def]

lemma hasEdge_addLinks (h : links.foldlM addLink g = some g') {s t : Dpid} :
    g'.HasEdge s t ↔ g.HasEdge s t ∨ ∃ link ∈ links, link.Joins s t := by
  induction links generalizing g with
  | nil =>
      cases h
      simp
  | cons link links ih =>
      obtain ⟨g₁, hfirst, hrest⟩ := Option.bind_eq_some_iff.mp h
      rw [ih hrest, hasEdge_addLink hfirst, or_assoc, List.exists_mem_cons_iff]

lemma isSome_addLinks (g : LinkGraph) (links : List Link) :
    (links.foldlM addLink g).isSome ↔
      ∀ link ∈ links, (g.getNode link.src.dpid).isSome ∧ (g.getNode link.dst.dpid).isSome := by
  induction links generalizing g with
  | nil => simp
  | cons link links ih =>
      rw [List.forall_mem_cons, ← isSome_addLink, List.foldlM_cons]
      cases hfirst : g.addLink link with
      | none => simp
      | some g₁ =>
          have hnodes : ∀ s, (g₁.getNode s).isSome = (g.getNode s).isSome := by
            intro s
            rw [getNode_addLink hfirst, Option.isSome_map]
          simpa [hnodes] using ih g₁

end LinkGraph

/-! ### What is built -/

/-- The neighbors that the links bring to a switch, in the order of the reports. -/
def neighborsOf (links : List Link) (s : Dpid) : List (Port × Dpid) :=
  (links.flatMap fun link => link.entries s).foldl appendNew []

/-- Each end of a link is on a listed switch. -/
def Listed (switches : List Dpid) (links : List Link) : Prop :=
  ∀ link ∈ links, link.src.dpid ∈ switches ∧ link.dst.dpid ∈ switches

instance (switches : List Dpid) (links : List Link) : Decidable (Listed switches links) :=
  inferInstanceAs (Decidable (∀ link ∈ links, _))

/-- The graph of the switches with the links between them. -/
structure Built (switches : List Dpid) (links : List Link) (g : LinkGraph) : Prop where
  listed : Listed switches links
  getNode : ∀ s, g.getNode s = if s ∈ switches then some (neighborsOf links s) else none
  edge : ∀ s t, g.HasEdge s t ↔ ∃ link ∈ links, link.Joins s t

variable {order switches : List Dpid} {links : List Link} {g : LinkGraph} {s t : Dpid}

lemma mem_neighborsOf {port : Port} :
    (port, t) ∈ neighborsOf links s ↔ ∃ link ∈ links, (port, t) ∈ link.entries s := by
  rw [neighborsOf, mem_foldl_appendNew, List.mem_flatMap]
  simp

lemma exists_mem_neighborsOf :
    (∃ port, (port, t) ∈ neighborsOf links s) ↔ ∃ link ∈ links, link.Joins s t := by
  simp only [mem_neighborsOf, Link.joins_iff]
  exact ⟨fun ⟨port, link, hlink, hmem⟩ => ⟨link, hlink, port, hmem⟩,
    fun ⟨link, hlink, port, hmem⟩ => ⟨port, link, hlink, hmem⟩⟩

lemma Listed.joins (h : Listed switches links) {link : Link} (hlink : link ∈ links)
    (hjoins : link.Joins s t) : t ∈ switches := by
  obtain ⟨hsrc, hdst⟩ := h link hlink
  rcases hjoins with ⟨rfl, rfl⟩ | ⟨rfl, rfl⟩
  · exact hdst
  · exact hsrc

/-- A neighbor has the switch among its own neighbors. -/
lemma Built.mutual (hg : Built switches links g) {neighbors : List (Port × Dpid)} {port : Port}
    (hnode : g.getNode s = some neighbors) (hmem : (port, t) ∈ neighbors) :
    ∃ neighbors', g.getNode t = some neighbors' ∧ ∃ port', (port', s) ∈ neighbors' := by
  rw [hg.getNode] at hnode
  split_ifs at hnode
  obtain rfl := Option.some.inj hnode
  obtain ⟨link, hlink, hjoins⟩ := exists_mem_neighborsOf.mp ⟨port, hmem⟩
  refine ⟨neighborsOf links t, ?_, exists_mem_neighborsOf.mpr ⟨link, hlink, hjoins.symm⟩⟩
  rw [hg.getNode, if_pos (hg.listed.joins hlink hjoins)]

namespace LinkGraph

/-- Nothing is removed from the neighbors of a switch. -/
lemma removeOneDirectionNeighbors_eq (hg : Built switches links g)
    {neighbors : List (Port × Dpid)} (hnode : g.getNode s = some neighbors)
    {neighborsCopy : List (Port × Dpid)} (hcopy : neighborsCopy ⊆ neighbors) :
    removeOneDirectionNeighbors s neighborsCopy g = g := by
  induction neighborsCopy with
  | nil => rfl
  | cons nb neighborsCopy ih =>
      obtain ⟨hmem, hcopy⟩ := List.cons_subset.mp hcopy
      obtain ⟨neighbors', hnode', hback⟩ := hg.mutual hnode hmem
      -- the loop over the links has put an entry back there, with the port of the other end
      have hexists : isNeighborExist neighbors' none s := isNeighborExist_none.mpr hback
      rw [removeOneDirectionNeighbors, hnode', Option.all_some, hexists, Bool.not_true,
        if_neg Bool.false_ne_true]
      exact ih hcopy

/-- Nothing is removed from the graph. -/
lemma removeOneDirectionLinks_eq (hg : Built switches links g) (order : List Dpid) :
    removeOneDirectionLinks order g = g := by
  induction order with
  | nil => rfl
  | cons s order ih =>
      rw [removeOneDirectionLinks, List.foldl_cons]
      cases hnode : g.getNode s with
      | none => exact ih
      | some neighbors =>
          rw [Option.getD_some, removeOneDirectionNeighbors_eq hg hnode (List.Subset.refl _)]
          exact ih

end LinkGraph

open LinkGraph

lemma getNode_initial (switches : List Dpid) (s : Dpid) :
    (switches.foldl addNode .empty).getNode s = if s ∈ switches then some [] else none := by
  rw [getNode_addNodes]
  rfl

/-- The graph before the links in one direction are removed. -/
lemma built_addLinks
    (h : links.foldlM addLink (switches.foldl addNode .empty) = some g) :
    Built switches links g where
  listed := by
    have hsome := (isSome_addLinks (switches.foldl addNode .empty) links).mp
      (Option.isSome_of_eq_some h)
    intro link hlink
    have hends := hsome link hlink
    simp only [getNode_initial, Option.isSome_ite] at hends
    exact hends
  getNode := fun s => by
    rw [getNode_addLinks h, getNode_initial]
    split_ifs <;> rfl
  edge := fun s t => by
    rw [hasEdge_addLinks h, HasEdge, edges_addNodes]
    simp [LinkGraph.empty]

/-- **The graph that is built.**  It has all links, in the order in which they are reported. -/
theorem built_buildGraph (h : buildGraph order switches links = some g) :
    Built switches links g := by
  obtain ⟨g₁, hlinks, rfl⟩ := Option.map_eq_some_iff.mp h
  have hg₁ := built_addLinks hlinks
  rwa [removeOneDirectionLinks_eq hg₁]

lemma exists_buildGraph (hlisted : Listed switches links) (order : List Dpid) :
    ∃ g, buildGraph order switches links = some g := by
  have hsome : (links.foldlM addLink (switches.foldl addNode .empty)).isSome := by
    refine (isSome_addLinks _ links).mpr fun link hlink => ?_
    simpa only [getNode_initial, Option.isSome_ite] using hlisted link hlink
  obtain ⟨g, hg⟩ := Option.isSome_iff_exists.mp hsome
  exact ⟨_, by rw [buildGraph, hg, Option.map_some]⟩

/-! ### Links in one direction -/

/-- A link from one switch to another one is reported. -/
def Reported (links : List Link) (s t : Dpid) : Prop :=
  ∃ link ∈ links, link.src.dpid = s ∧ link.dst.dpid = t

instance (links : List Link) (s t : Dpid) : Decidable (Reported links s t) :=
  inferInstanceAs (Decidable (∃ link ∈ links, _))

/-- The second switch is in the neighbor list of the first one. -/
def LinkGraph.IsNeighbor (g : LinkGraph) (s t : Dpid) : Prop :=
  ∃ neighbors, g.getNode s = some neighbors ∧ ∃ port, (port, t) ∈ neighbors

/-- Switches are neighbors, and there is an edge between them, exactly if links are reported from
each of them to the other one.  A link in one direction leaves nothing. -/
structure PhantomFree (links : List Link) (g : LinkGraph) : Prop where
  neighbor : ∀ s t, g.IsNeighbor s t ↔ Reported links s t ∧ Reported links t s
  edge : ∀ s t, g.HasEdge s t ↔ Reported links s t ∧ Reported links t s
  phantom : ∀ s t, Reported links s t → ¬ Reported links t s →
    ¬ g.IsNeighbor s t ∧ ¬ g.IsNeighbor t s ∧ ¬ g.HasEdge s t

lemma exists_joins_iff :
    (∃ link ∈ links, link.Joins s t) ↔ Reported links s t ∨ Reported links t s := by
  simp only [Link.Joins, and_or_left, exists_or]
  rfl

lemma Built.isNeighbor_iff (hg : Built switches links g) :
    g.IsNeighbor s t ↔ Reported links s t ∨ Reported links t s := by
  rw [← exists_joins_iff]
  constructor
  · rintro ⟨neighbors, hnode, hmem⟩
    rw [hg.getNode] at hnode
    split_ifs at hnode
    obtain rfl := Option.some.inj hnode
    exact exists_mem_neighborsOf.mp hmem
  · rintro ⟨link, hlink, hjoins⟩
    refine ⟨neighborsOf links s, ?_, exists_mem_neighborsOf.mpr ⟨link, hlink, hjoins⟩⟩
    rw [hg.getNode, if_pos (hg.listed.joins hlink hjoins.symm)]

lemma Built.hasEdge_iff (hg : Built switches links g) :
    g.HasEdge s t ↔ Reported links s t ∨ Reported links t s :=
  (hg.edge s t).trans exists_joins_iff

/-- With all links in both directions, it does not matter that none is removed. -/
lemma Built.phantomFree (hg : Built switches links g)
    (hboth : ∀ s t, Reported links s t → Reported links t s) : PhantomFree links g := by
  have hand : ∀ s t, Reported links s t ∨ Reported links t s ↔
      Reported links s t ∧ Reported links t s := fun s t =>
    ⟨fun h => h.elim (fun h => ⟨h, hboth s t h⟩) (fun h => ⟨hboth t s h, h⟩), fun h => .inl h.1⟩
  exact
    { neighbor := fun s t => hg.isNeighbor_iff.trans (hand s t)
      edge := fun s t => hg.hasEdge_iff.trans (hand s t)
      phantom := fun s t h hno => absurd (hboth s t h) hno }

/-- **Links in one direction.**  They are absent from the graph exactly if each link from a switch
to another one has one back. -/
theorem phantomFree_iff (hlisted : Listed switches links) (order : List Dpid) :
    ∃ g, buildGraph order switches links = some g ∧
      (PhantomFree links g ↔ ∀ s t, Reported links s t → Reported links t s) := by
  obtain ⟨g, hg⟩ := exists_buildGraph hlisted order
  have hbuilt := built_buildGraph hg
  refine ⟨g, hg, fun h s t hst => ?_, hbuilt.phantomFree⟩
  exact ((h.neighbor s t).mp (hbuilt.isNeighbor_iff.mpr (.inl hst))).2

/-- A link from the first switch to the second one. -/
def oneWay : Link := ⟨⟨1, 1⟩, ⟨2, 1⟩⟩

theorem phantomFree_twoWays :
    Listed [1, 2] [oneWay, ⟨⟨2, 1⟩, ⟨1, 1⟩⟩] ∧
      ∃ g, buildGraph [1, 2] [1, 2] [oneWay, ⟨⟨2, 1⟩, ⟨1, 1⟩⟩] = some g ∧
        PhantomFree [oneWay, ⟨⟨2, 1⟩, ⟨1, 1⟩⟩] g := by
  obtain ⟨g, hg, hiff⟩ := phantomFree_iff
    (show Listed [1, 2] [oneWay, ⟨⟨2, 1⟩, ⟨1, 1⟩⟩] by decide) [1, 2]
  refine ⟨by decide, g, hg, hiff.mpr ?_⟩
  rintro s t ⟨link, hlink, rfl, rfl⟩
  simp only [List.mem_cons, List.not_mem_nil, or_false] at hlink
  rcases hlink with rfl | rfl
  · exact ⟨⟨⟨2, 1⟩, ⟨1, 1⟩⟩, by decide, rfl, rfl⟩
  · exact ⟨oneWay, by decide, rfl, rfl⟩

/-- A link that is reported from one switch only stays in the graph. -/
theorem not_phantomFree :
    Listed [1, 2] [oneWay] ∧ ∃ g, buildGraph [1, 2] [1, 2] [oneWay] = some g ∧
      ¬ PhantomFree [oneWay] g := by
  refine ⟨by decide, _, rfl, fun h => ?_⟩
  have hboth := (h.edge 1 2).mp (by decide)
  exact absurd hboth.2 (by decide)

end FtThesis.Tsa
