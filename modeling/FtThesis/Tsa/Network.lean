/-
The graph of the switches, and the search for a path between two of them.

* `Graph`: the switches, each with the ports that lead to its neighbors;
* `getPath`, `findPathBetweenNodes`: the search, which marks the switches it has visited;
* `Search`: what a search is to do, whether it finds a path or not;
* `search_getPath`, `search_getNeighborsPath`: it does so, and there is enough fuel;
* `findPathBetweenNodes_spec`, `findPathBetweenNodes_iff`: a path is found exactly if there is one,
  and a search comes to its end whatever the fuel is.
-/
import Mathlib.Tactic
import Mathlib.Logic.Relation
import FtThesis.Library.Lists

namespace FtThesis.Tsa

/-- The datapath id of a switch. -/
abbrev Dpid := ℕ

/-- A port of a switch. -/
abbrev Port := ℕ

/-- The graph: the switches with their neighbors, each with the port that leads to it.  The
neighbors are switches of the graph. -/
structure Graph where
  nodes : List (Dpid × List (Port × Dpid))
  closed : ∀ node ∈ nodes, ∀ nb ∈ node.2, (nodes.lookup nb.2).isSome

namespace Graph

/-- `getNode`, for the neighbors of a switch. -/
def getNode (g : Graph) (dpid : Dpid) : Option (List (Port × Dpid)) := g.nodes.lookup dpid

lemma isSome_getNode_of_mem {g : Graph} {dpid : Dpid} {neighbors : List (Port × Dpid)}
    (h : g.getNode dpid = some neighbors) {nb : Port × Dpid} (hnb : nb ∈ neighbors) :
    (g.getNode nb.2).isSome :=
  g.closed _ (List.mem_of_lookup_eq_some h) nb hnb

/-- The second switch is a neighbor of the first one. -/
def Adj (g : Graph) (d d' : Dpid) : Prop :=
  ∃ neighbors port, g.getNode d = some neighbors ∧ (port, d') ∈ neighbors

/-- From each switch each other one can be reached. -/
def Connected (g : Graph) : Prop :=
  ∀ d d', (g.getNode d).isSome → (g.getNode d').isSome → Relation.ReflTransGen g.Adj d d'

end Graph

/-- The `isVisited` flags of the switches. -/
abbrev Visited := Dpid → Bool

/-- What a search returns, with the flags after it.  It fails at a switch that is not in the
graph. -/
abbrev SearchResult := Option (Option (List Dpid) × Visited)

/-- The loop of `getPath` over the neighbors of a switch, with the search from one of them. -/
def getNeighborsPath (path : Visited → Dpid → SearchResult) :
    List (Port × Dpid) → Visited → SearchResult
  | [], visited => some (none, visited)
  | (_, neighborDpid) :: neighbors, visited =>
      match path visited neighborDpid with
      | none => none
      | some (some tail, visited) => some (some tail, visited)
      | some (none, visited) => getNeighborsPath path neighbors visited

/-- `getPath`, for a search that is at most as deep as the fuel. -/
def getPath (g : Graph) (dstDpid : Dpid) : ℕ → Visited → Dpid → SearchResult
  | 0, _, _ => none
  | n + 1, visited, srcDpid =>
      match g.getNode srcDpid with
      | none => none
      | some neighbors =>
          if visited srcDpid then some (none, visited)
          else
            let visited := Function.update visited srcDpid true
            if srcDpid = dstDpid then some (some [srcDpid], visited)
            else
              (getNeighborsPath (getPath g dstDpid n) neighbors visited).map
                fun (tail, visited) => (tail.map (srcDpid :: ·), visited)

/-- `turnOffVisitedBit`. -/
def turnOffVisitedBit (g : Graph) (visited : Visited) : Visited :=
  fun d => if (g.getNode d).isSome then false else visited d

/-- `findPathBetweenNodes`. -/
def findPathBetweenNodes (g : Graph) (visited : Visited) (srcDpid dstDpid : Dpid) :
    SearchResult :=
  getPath g dstDpid (g.nodes.length + 1) (turnOffVisitedBit g visited) srcDpid

/-- `getPortToNeighbor`. -/
def getPortToNeighbor (neighbors : List (Port × Dpid)) (destDpid : Dpid) : Option Port :=
  (neighbors.find? fun nb => destDpid = nb.2).map Prod.fst

/-! ### What a search does -/

/-- A path between two switches that repeats none. -/
structure IsPath (g : Graph) (src dst : Dpid) (p : List Dpid) : Prop where
  head : p.head? = some src
  last : p.getLast? = some dst
  adj : p.IsChain g.Adj
  nodup : p.Nodup

/-- The result of a search from some switches: a path over switches that were not visited; or
all these switches are visited then, and of the switches that have become so none is the
destination and all have their neighbors visited. -/
structure Search (g : Graph) (dst : Dpid) (visited : Visited) (srcs : List Dpid)
    (r : Option (List Dpid)) (visited' : Visited) : Prop where
  mono : ∀ d, visited d = true → visited' d = true
  found : ∀ p, r = some p →
    ∃ src ∈ srcs, IsPath g src dst p ∧ ∀ d ∈ p, visited d = false
  missed : r = none → (∀ src ∈ srcs, visited' src = true) ∧
    ∀ d, visited' d = true → visited d = false →
      d ≠ dst ∧ ∀ d', g.Adj d d' → visited' d' = true

/-- The switches that are not visited. -/
def unvisited (g : Graph) (visited : Visited) : ℕ :=
  (g.nodes.filter fun node => visited node.1 = false).length

lemma unvisited_le_of_mono {g : Graph} {visited visited' : Visited}
    (h : ∀ d, visited d = true → visited' d = true) :
    unvisited g visited' ≤ unvisited g visited := by
  refine (List.monotone_filter_right _ fun node hnode => ?_).length_le
  simp only [decide_eq_true_eq] at hnode ⊢
  cases hv : visited node.1 with
  | false => rfl
  | true => simp [h _ hv] at hnode

/-- Visiting a switch leaves fewer of them. -/
lemma unvisited_update_lt {g : Graph} {visited : Visited} {d : Dpid}
    (hd : (g.getNode d).isSome) (hv : visited d = false) :
    unvisited g (Function.update visited d true) < unvisited g visited := by
  obtain ⟨neighbors, hnode⟩ := Option.isSome_iff_exists.mp hd
  obtain ⟨before, after, hnodes, -⟩ := List.lookup_eq_some_iff.mp hnode
  have hfilter : (g.nodes.filter fun node => Function.update visited d true node.1 = false) =
      (g.nodes.filter fun node => visited node.1 = false).filter fun node => node.1 ≠ d := by
    rw [List.filter_filter]
    refine List.filter_congr fun node _ => ?_
    by_cases h : node.1 = d <;> simp [h]
  rw [unvisited, unvisited, hfilter, List.length_filter_lt_length_iff_exists]
  exact ⟨(d, neighbors), by simp [hnodes, hv], by simp⟩

variable {g : Graph} {dst : Dpid}

/-- A path from a neighbor over switches that were not visited after this one. -/
lemma IsPath.cons {src nb : Dpid} {p : List Dpid} {visited : Visited} (hadj : g.Adj src nb)
    (hp : IsPath g nb dst p)
    (hnew : ∀ d ∈ p, Function.update visited src true d = false) : IsPath g src dst (src :: p) := by
  have hsrc : src ∉ p := fun hmem => by simpa using hnew src hmem
  have hne : p ≠ [] := by
    rintro rfl
    simpa using hp.head
  refine ⟨rfl, ?_, ?_, List.nodup_cons.mpr ⟨hsrc, hp.nodup⟩⟩
  · rw [List.getLast?_cons_of_ne_nil hne, hp.last]
  · refine List.isChain_cons.mpr ⟨fun d hd => ?_, hp.adj⟩
    rw [hp.head] at hd
    cases hd
    exact hadj

section

variable {visited visited' visited₂ : Visited} {src : Dpid} {srcs : List Dpid}
  {r : Option (List Dpid)}

/-- What is not visited in the end was not visited before. -/
lemma Search.eq_false (h : Search g dst visited srcs r visited') {d : Dpid}
    (hd : visited' d = false) : visited d = false := by
  by_contra hv
  have := h.mono d (by simpa using hv)
  rw [hd] at this
  cases this

lemma Search.of_visited (hv : visited src = true) : Search g dst visited [src] none visited := by
  refine ⟨fun d h => h, nofun, fun _ => ⟨?_, fun d h h' => ?_⟩⟩
  · simpa using hv
  · rw [h] at h'
    cases h'

lemma Search.nil : Search g dst visited [] none visited := by
  refine ⟨fun d h => h, nofun, fun _ => ⟨nofun, fun d h h' => ?_⟩⟩
  rw [h] at h'
  cases h'

/-- The switches after the first one are not needed, if a path is found from this one. -/
lemma Search.found_first {tail : List Dpid}
    (h : Search g dst visited [src] (some tail) visited') :
    Search g dst visited (src :: srcs) (some tail) visited' := by
  refine ⟨h.mono, fun p hp => ?_, nofun⟩
  obtain ⟨src', hsrc, hp⟩ := h.found p hp
  obtain rfl := List.mem_singleton.mp hsrc
  exact ⟨src', List.mem_cons_self, hp⟩

/-- A search that finds nothing, and one from the other switches after it. -/
lemma Search.missed_first (h : Search g dst visited [src] none visited')
    (h₂ : Search g dst visited' srcs r visited₂) :
    Search g dst visited (src :: srcs) r visited₂ := by
  obtain ⟨hsrc, hmissed⟩ := h.missed rfl
  refine ⟨fun d hd => h₂.mono d (h.mono d hd), fun p hp => ?_, fun hnone => ?_⟩
  · obtain ⟨src', hmem, hp, hnew⟩ := h₂.found p hp
    exact ⟨src', List.mem_cons_of_mem _ hmem, hp, fun d hd => h.eq_false (hnew d hd)⟩
  · obtain ⟨hsrcs, hmissed₂⟩ := h₂.missed hnone
    refine ⟨fun src' hmem => ?_, fun d hd hv => ?_⟩
    · rcases List.mem_cons.mp hmem with rfl | hmem
      · exact h₂.mono _ (hsrc _ List.mem_cons_self)
      · exact hsrcs src' hmem
    · cases hv' : visited' d with
      | true =>
          obtain ⟨hdst, hadj⟩ := hmissed d hv' hv
          exact ⟨hdst, fun d' h => h₂.mono d' (hadj d' h)⟩
      | false => exact hmissed₂ d hd hv'

lemma mono_update {d : Dpid} (hd : visited d = true) :
    Function.update visited src true d = true := by
  rcases eq_or_ne d src with rfl | hne <;> simp [*]

/-- A search ends at its destination. -/
lemma Search.of_dst (hv : visited dst = false) :
    Search g dst visited [dst] (some [dst]) (Function.update visited dst true) := by
  refine ⟨fun d hd => mono_update hd, fun p hp => ?_, nofun⟩
  cases hp
  exact ⟨dst, by simp, ⟨rfl, rfl, List.isChain_singleton _, by simp⟩, by simpa using hv⟩

/-- A search from the neighbors of a switch that becomes visited is one from this switch. -/
lemma Search.of_neighbors {neighbors : List (Port × Dpid)} (hnode : g.getNode src = some neighbors)
    (hv : visited src = false) (hne : src ≠ dst)
    (h : Search g dst (Function.update visited src true) (neighbors.map Prod.snd) r visited') :
    Search g dst visited [src] (r.map (src :: ·)) visited' := by
  refine ⟨fun d hd => h.mono d (mono_update hd), fun p hp => ?_, fun hnone => ?_⟩
  · obtain ⟨tail, rfl, rfl⟩ := Option.map_eq_some_iff.mp hp
    obtain ⟨nb, hnb, hpath, hnew⟩ := h.found tail rfl
    obtain ⟨⟨port, nb⟩, hmem, rfl⟩ := List.mem_map.mp hnb
    refine ⟨src, by simp, hpath.cons ⟨neighbors, port, hnode, hmem⟩ hnew, ?_⟩
    refine List.forall_mem_cons.mpr ⟨hv, fun d hd => ?_⟩
    by_contra hd'
    have hnew' := hnew d hd
    rw [mono_update (by simpa using hd')] at hnew'
    cases hnew'
  · obtain ⟨hnbs, hmissed⟩ := h.missed (Option.map_eq_none_iff.mp hnone)
    refine ⟨?_, fun d hd hd' => ?_⟩
    · simpa using h.mono src (by simp)
    · rcases eq_or_ne d src with rfl | hne'
      · refine ⟨hne, fun d' hadj => ?_⟩
        obtain ⟨neighbors', port, hnode', hmem⟩ := hadj
        obtain rfl := Option.some.inj (hnode.symm.trans hnode')
        exact hnbs d' (List.mem_map_of_mem hmem)
      · exact hmissed d hd (by rwa [Function.update_of_ne hne'])

end

/-- A search from each switch of a list, if there is one from any of them. -/
lemma search_getNeighborsPath {path : Visited → Dpid → SearchResult} {n : ℕ}
    (neighbors : List (Port × Dpid)) (visited : Visited) (hn : unvisited g visited < n)
    (hpath : ∀ nb ∈ neighbors, ∀ visited, unvisited g visited < n →
      ∃ r visited', path visited nb.2 = some (r, visited') ∧
        Search g dst visited [nb.2] r visited') :
    ∃ r visited', getNeighborsPath path neighbors visited = some (r, visited') ∧
      Search g dst visited (neighbors.map Prod.snd) r visited' := by
  induction neighbors generalizing visited with
  | nil => exact ⟨none, visited, rfl, .nil⟩
  | cons nb neighbors ih =>
      obtain ⟨r, visited', hr, hsearch⟩ := hpath nb List.mem_cons_self visited hn
      rw [getNeighborsPath, hr]
      cases r with
      | some tail => exact ⟨_, _, rfl, hsearch.found_first⟩
      | none =>
          obtain ⟨r, visited₂, hr₂, hsearch₂⟩ := ih visited'
            ((unvisited_le_of_mono hsearch.mono).trans_lt hn)
            fun nb' hnb' => hpath nb' (List.mem_cons_of_mem _ hnb')
          exact ⟨r, visited₂, hr₂, hsearch.missed_first hsearch₂⟩

/-- With enough fuel, the search is one from its source. -/
theorem search_getPath {n : ℕ} {visited : Visited} {src : Dpid}
    (hn : unvisited g visited < n) (hsrc : (g.getNode src).isSome) :
    ∃ r visited', getPath g dst n visited src = some (r, visited') ∧
      Search g dst visited [src] r visited' := by
  induction n generalizing visited src with
  | zero => omega
  | succ n ih =>
      obtain ⟨neighbors, hnode⟩ := Option.isSome_iff_exists.mp hsrc
      rw [getPath, hnode]
      cases hv : visited src with
      | true => exact ⟨none, visited, by simp, .of_visited hv⟩
      | false =>
          by_cases heq : src = dst
          · subst heq
            exact ⟨some [src], _, by simp, .of_dst hv⟩
          · have hpath : ∀ nb ∈ neighbors, ∀ visited, unvisited g visited < n →
                ∃ r visited', getPath g dst n visited nb.2 = some (r, visited') ∧
                  Search g dst visited [nb.2] r visited' :=
              fun nb hnb visited hlt => ih hlt (Graph.isSome_getNode_of_mem hnode hnb)
            obtain ⟨r, visited', hr, hsearch⟩ :=
              search_getNeighborsPath neighbors (Function.update visited src true)
                ((unvisited_update_lt hsrc hv).trans_le (Nat.le_of_lt_succ hn)) hpath
            exact ⟨r.map (src :: ·), visited', by simp [heq, hr],
              .of_neighbors hnode hv heq hsearch⟩

/-- **Paths are found.**  A path from a switch is found exactly if the other switch can be reached
from it. -/
theorem findPathBetweenNodes_spec (visited : Visited) {src : Dpid}
    (hsrc : (g.getNode src).isSome) :
    ∃ r visited', findPathBetweenNodes g visited src dst = some (r, visited') ∧
      (∀ p, r = some p → IsPath g src dst p) ∧
      (r = none → ¬ Relation.ReflTransGen g.Adj src dst) := by
  have hfuel : unvisited g (turnOffVisitedBit g visited) < g.nodes.length + 1 :=
    Nat.lt_succ_of_le (List.length_filter_le _ _)
  obtain ⟨r, visited', hr, hsearch⟩ := @search_getPath g dst _ _ _ hfuel hsrc
  refine ⟨r, visited', hr, fun p hp => ?_, fun hnone hreach => ?_⟩
  · obtain ⟨_, hmem, hpath, -⟩ := hsearch.found p hp
    rwa [List.mem_singleton.mp hmem] at hpath
  · obtain ⟨hstart, hmissed⟩ := hsearch.missed hnone
    have hoff : ∀ d, (g.getNode d).isSome → turnOffVisitedBit g visited d = false := by
      intro d hd
      rw [turnOffVisitedBit, if_pos hd]
    have hall : ∀ d, Relation.ReflTransGen g.Adj src d →
        visited' d = true ∧ (g.getNode d).isSome := by
      intro d hd
      induction hd with
      | refl => exact ⟨hstart src (by simp), hsrc⟩
      | tail _ hadj ih =>
          obtain ⟨hv, hnode⟩ := ih
          refine ⟨(hmissed _ hv (hoff _ hnode)).2 _ hadj, ?_⟩
          obtain ⟨neighbors, port, hnode, hmem⟩ := hadj
          exact Graph.isSome_getNode_of_mem hnode hmem
    obtain ⟨hv, hnode⟩ := hall dst hreach
    exact (hmissed dst hv (hoff dst hnode)).1 rfl

/-! ### Searches with more fuel -/

lemma getNeighborsPath_mono {path path' : Visited → Dpid → SearchResult}
    (hpath : ∀ v d r, path v d = some r → path' v d = some r) {neighbors : List (Port × Dpid)}
    {v : Visited} {r : Option (List Dpid) × Visited}
    (h : getNeighborsPath path neighbors v = some r) :
    getNeighborsPath path' neighbors v = some r := by
  induction neighbors generalizing v with
  | nil => exact h
  | cons nb neighbors ih =>
      rw [getNeighborsPath] at h ⊢
      rcases hr : path v nb.2 with _ | ⟨_ | tail, w⟩ <;> rw [hr] at h
      · cases h
      · rw [hpath _ _ _ hr]
        exact ih h
      · rw [hpath _ _ _ hr]
        exact h

/-- A search that comes to its end is the same with more fuel. -/
lemma getPath_mono {n m : ℕ} (hle : n ≤ m) {v : Visited} {src : Dpid}
    {r : Option (List Dpid) × Visited} (h : getPath g dst n v src = some r) :
    getPath g dst m v src = some r := by
  induction n generalizing m v src r with
  | zero => cases h
  | succ n ih =>
      obtain ⟨m, rfl⟩ := Nat.exists_eq_succ_of_ne_zero (Nat.ne_zero_of_lt hle)
      have hpath : ∀ v d r, getPath g dst n v d = some r → getPath g dst m v d = some r :=
        fun v d r => ih (Nat.le_of_succ_le_succ hle)
      rw [getPath] at h ⊢
      cases hnode : g.getNode src with
      | none =>
          rw [hnode] at h
          cases h
      | some neighbors =>
          rw [hnode] at h
          simp only at h ⊢
          split_ifs at h ⊢
          · exact h
          · exact h
          · obtain ⟨r', hr', rfl⟩ := Option.map_eq_some_iff.mp h
            rw [getNeighborsPath_mono hpath hr']
            rfl

/-- Along a path the last switch is reached. -/
lemma IsPath.reachable {src : Dpid} {p : List Dpid} (h : IsPath g src dst p) :
    Relation.ReflTransGen g.Adj src dst := by
  obtain ⟨hhead, hlast, hadj, -⟩ := h
  have hne : p ≠ [] := by
    rintro rfl
    cases hhead
  have hreach := List.relationReflTransGen_of_exists_isChain p hadj hne
  rw [List.head?_eq_some_head hne] at hhead
  rw [List.getLast?_eq_some_getLast hne] at hlast
  rwa [Option.some.inj hhead, Option.some.inj hlast] at hreach

/-- **The search for a path.**  From a switch of the graph, with whichever flags, the search comes
to its end, as deep as there are switches at most: it returns a path that repeats no switch if the
other switch can be reached, and nothing otherwise.  The interpreter's limit on the depth of a
recursion is left out: the search goes as deep as it needs to. -/
theorem findPathBetweenNodes_iff (visited : Visited) {src : Dpid}
    (hsrc : (g.getNode src).isSome) (dst : Dpid) :
    ∃ r visited', findPathBetweenNodes g visited src dst = some (r, visited') ∧
      (∀ n, g.nodes.length < n →
        getPath g dst n (turnOffVisitedBit g visited) src = some (r, visited')) ∧
      (Relation.ReflTransGen g.Adj src dst → ∃ p, r = some p ∧ IsPath g src dst p) ∧
      (¬ Relation.ReflTransGen g.Adj src dst → r = none) := by
  obtain ⟨r, visited', hr, hfound, hmissed⟩ := @findPathBetweenNodes_spec g dst visited src hsrc
  refine ⟨r, visited', hr, fun n hn => getPath_mono hn hr, fun hreach => ?_, fun hno => ?_⟩
  · cases r with
    | none => exact absurd hreach (hmissed rfl)
    | some p => exact ⟨p, rfl, hfound p rfl⟩
  · cases r with
    | none => rfl
    | some p => exact absurd (hfound p rfl).reachable hno

/-- A graph in which a search first comes to a switch without neighbors. -/
def deadEnd : Graph := ⟨[(1, [(1, 2), (2, 3)]), (2, []), (3, [(1, 1)])], by decide⟩

theorem findPathBetweenNodes_deadEnd :
    ∃ r visited', findPathBetweenNodes deadEnd (fun _ => true) 1 3 = some (r, visited') ∧
      (∀ n, 3 < n →
        getPath deadEnd 3 n (turnOffVisitedBit deadEnd fun _ => true) 1 = some (r, visited')) ∧
      (Relation.ReflTransGen deadEnd.Adj 1 3 → ∃ p, r = some p ∧ IsPath deadEnd 1 3 p) ∧
      (¬ Relation.ReflTransGen deadEnd.Adj 1 3 → r = none) :=
  findPathBetweenNodes_iff _ rfl 3

/-! ### The flags do not matter -/

/-- The flags of the switches of the graph are the same. -/
def SameFlags (g : Graph) (v v' : Visited) : Prop :=
  ∀ d, (g.getNode d).isSome → v d = v' d

/-- Two searches that return the same, with the same flags. -/
def SameResult (g : Graph) : SearchResult → SearchResult → Prop
  | none, none => True
  | some (r, v), some (r', v') => r = r' ∧ SameFlags g v v'
  | _, _ => False

lemma getNeighborsPath_congr {path : Visited → Dpid → SearchResult}
    (hpath : ∀ v v' d, SameFlags g v v' → SameResult g (path v d) (path v' d))
    (neighbors : List (Port × Dpid)) {v v' : Visited} (hv : SameFlags g v v') :
    SameResult g (getNeighborsPath path neighbors v) (getNeighborsPath path neighbors v') := by
  induction neighbors generalizing v v' with
  | nil => exact ⟨rfl, hv⟩
  | cons nb neighbors ih =>
      have h := hpath v v' nb.2 hv
      rw [getNeighborsPath, getNeighborsPath]
      rcases hr : path v nb.2 with _ | ⟨_ | tail, w⟩ <;>
        rcases hr' : path v' nb.2 with _ | ⟨_ | tail', w'⟩ <;> rw [hr, hr'] at h
      · trivial
      · exact False.elim h
      · exact False.elim h
      · exact False.elim h
      · exact ih h.2
      · cases h.1
      · exact False.elim h
      · cases h.1
      · exact h

/-- The flags of what is not a switch do not matter. -/
lemma getPath_congr (n : ℕ) {v v' : Visited} (src : Dpid) (hv : SameFlags g v v') :
    SameResult g (getPath g dst n v src) (getPath g dst n v' src) := by
  induction n generalizing v v' src with
  | zero => trivial
  | succ n ih =>
      rw [getPath, getPath]
      cases hnode : g.getNode src with
      | none => trivial
      | some neighbors =>
          have hsrc : v src = v' src := hv src (by simp [hnode])
          have hupdate : SameFlags g (Function.update v src true)
              (Function.update v' src true) := by
            intro d hd
            rcases eq_or_ne d src with rfl | hne
            · simp
            · simpa [hne] using hv d hd
          simp only [← hsrc]
          split_ifs
          · exact ⟨rfl, hv⟩
          · exact ⟨rfl, hupdate⟩
          · have hpath : ∀ v v' d, SameFlags g v v' →
                SameResult g (getPath g dst n v d) (getPath g dst n v' d) :=
              fun v v' d hv => ih d hv
            have h := getNeighborsPath_congr hpath neighbors hupdate
            revert h
            rcases getNeighborsPath (getPath g dst n) neighbors (Function.update v src true) with
              _ | ⟨r, w⟩ <;>
              rcases getNeighborsPath (getPath g dst n) neighbors (Function.update v' src true) with
                _ | ⟨r', w'⟩
            · exact id
            · exact id
            · exact id
            · rintro ⟨rfl, hw⟩
              exact ⟨rfl, hw⟩

/-- The path that a search finds, whatever the flags are. -/
def pathBetween (g : Graph) (src dst : Dpid) : Option (List Dpid) :=
  (findPathBetweenNodes g (fun _ => false) src dst).bind Prod.fst

lemma findPathBetweenNodes_eq (g : Graph) (visited : Visited) (src dst : Dpid) :
    (findPathBetweenNodes g visited src dst).bind Prod.fst = pathBetween g src dst := by
  have hflags : SameFlags g (turnOffVisitedBit g visited) (turnOffVisitedBit g fun _ => false) := by
    intro d hd
    rw [turnOffVisitedBit, turnOffVisitedBit, if_pos hd, if_pos hd]
  have h := @getPath_congr g dst (g.nodes.length + 1) _ _ src hflags
  rw [pathBetween, findPathBetweenNodes, findPathBetweenNodes]
  revert h
  rcases getPath g dst (g.nodes.length + 1) (turnOffVisitedBit g visited) src with _ | ⟨r, w⟩ <;>
    rcases getPath g dst (g.nodes.length + 1) (turnOffVisitedBit g fun _ => false) src with
      _ | ⟨r', w'⟩
  · exact fun _ => rfl
  · exact False.elim
  · exact False.elim
  · rintro ⟨rfl, -⟩
    rfl

/-- What is found is a path. -/
lemma isPath_of_pathBetween {src : Dpid} {p : List Dpid} (h : pathBetween g src dst = some p) :
    IsPath g src dst p := by
  cases hsrc : g.getNode src with
  | none =>
      rw [pathBetween, findPathBetweenNodes, getPath, hsrc] at h
      cases h
  | some neighbors =>
      obtain ⟨r, visited', hr, hpath, -⟩ :=
        @findPathBetweenNodes_spec g dst (fun _ => false) src (by simp [hsrc])
      rw [pathBetween, hr] at h
      exact hpath p h

end FtThesis.Tsa
