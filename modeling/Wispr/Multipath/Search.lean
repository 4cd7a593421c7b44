import Wispr.Foundation.Worklist
import Wispr.Controller.PortMaps

/-!
# Path search of the group-based controllers

`get_paths` and `get_optimal_paths` as `ryu_multipath2.py` and `ryu_multipath_3.py` have them: a
depth-first search with an explicit stack over the adjacency map, and the cheapest paths of its
result. The two applications differ in `MAX_PATHS` only. State, link costs and path costs are those
of `ryu_multipath.py`, and the test `next is dst` is read as equality of datapath ids.

The search goes through a set in an order that Python leaves open; that order is a parameter, and
may differ each time a switch is popped.
-/

open Wispr.Foundation.Effects Wispr.Foundation.Worklist

namespace Wispr.Multipath.Search

open Controller.Paths Controller.PortMaps

/-- `MAX_PATHS` of `ryu_multipath2.py`. -/
def maxPaths2 : ℕ := 5

/-- `MAX_PATHS` of `ryu_multipath_3.py`. -/
def maxPaths3 : ℕ := 3

/-- The order of iteration over `set(self.adjacency[node].keys()) - set(path)`. -/
abbrev SetOrder := Dpid → List Dpid → List Dpid

/-- An iteration visits exactly the elements of the set, each once. -/
structure SetOrder.Iterates (order : SetOrder) (topo : TopologyState) : Prop where
  nodup : ∀ node path, (order node path).Nodup
  mem_iff : ∀ node path next, next ∈ order node path ↔
    (topo.adjacency node next).isSome ∧ next ∉ path

/-- The body of the inner loop: the stack, top first, and the paths found so far. -/
def visit (dst : Dpid) (path : List Dpid)
    (state : List (Dpid × List Dpid) × List (List Dpid)) (next : Dpid) :
    List (Dpid × List Dpid) × List (List Dpid) :=
  if next = dst then (state.1, state.2 ++ [path ++ [next]])
  else ((next, path ++ [next]) :: state.1, state.2)

/-- `while stack`, for at most `fuel` iterations. -/
def searchLoop (order : SetOrder) (dst : Dpid) :
    ℕ → List (Dpid × List Dpid) → List (List Dpid) → Except PyExc (List (List Dpid))
  | _, [], paths => .ok paths
  | 0, _ :: _, _ => .error .unfinished
  | fuel + 1, (node, path) :: stack, paths =>
      let state := (order node path).foldl (visit dst path) (stack, paths)
      searchLoop order dst fuel state.1 state.2

def getPaths (order : SetOrder) (fuel : ℕ) (src dst : Dpid) : Except PyExc (List (List Dpid)) :=
  if src = dst then .ok [[src]] else searchLoop order dst fuel [(src, [src])] []

/-- `sorted(paths, key=...)`: a stable sort by the keys, all of which are computed first. -/
def sortedByCost (topo : TopologyState) (paths : List (List Dpid)) :
    Except PyExc (List (List Dpid)) := do
  let costs ← paths.mapM (getPathCost topo)
  return ((costs.zip paths).mergeSort fun left right ↦ decide (left.1 ≤ right.1)).map Prod.snd

/-- `get_optimal_paths`, for a given `MAX_PATHS`. -/
def getOptimalPaths (topo : TopologyState) (order : SetOrder) (maxPaths fuel : ℕ)
    (src dst : Dpid) : Except PyExc (List (List Dpid)) := do
  let paths ← getPaths order fuel src dst
  let pathsCount := if paths.length < maxPaths then paths.length else maxPaths
  let sorted ← sortedByCost topo paths
  return sorted.take pathsCount

/-- `get_optimal_paths` of `ryu_multipath2.py`. -/
def getOptimalPaths2 (topo : TopologyState) (order : SetOrder) :
    ℕ → Dpid → Dpid → Except PyExc (List (List Dpid)) :=
  getOptimalPaths topo order maxPaths2

/-- `get_optimal_paths` of `ryu_multipath_3.py`. -/
def getOptimalPaths3 (topo : TopologyState) (order : SetOrder) :
    ℕ → Dpid → Dpid → Except PyExc (List (List Dpid)) :=
  getOptimalPaths topo order maxPaths3

/-! ## The search tree -/

/-- A path of the adjacency map that repeats no switch. -/
structure SimplePath (topo : TopologyState) (src dst : Dpid) (path : List Dpid) : Prop where
  starts : path.head? = some src
  ends : path.getLast? = some dst
  nodup : path.Nodup
  linked : path.IsChain fun u v ↦ (topo.adjacency u v).isSome

variable {topo : TopologyState} {order : SetOrder} {switches : Finset Dpid}

/-- The stack entries reached from a stack entry, and the paths found at it. -/
def emitted (order : SetOrder) (dst : Dpid) (entry : Dpid × List Dpid) : List (List Dpid) :=
  ((order entry.1 entry.2).filter (· = dst)).map fun next ↦ entry.2 ++ [next]

def pushed (order : SetOrder) (dst : Dpid) (entry : Dpid × List Dpid) :
    List (Dpid × List Dpid) :=
  ((order entry.1 entry.2).filter (· ≠ dst)).map fun next ↦ (next, entry.2 ++ [next])

theorem mem_pushed {dst : Dpid} {entry child : Dpid × List Dpid} :
    child ∈ pushed order dst entry ↔
      ∃ next ∈ order entry.1 entry.2, next ≠ dst ∧ child = (next, entry.2 ++ [next]) := by
  simp only [pushed, List.mem_map, List.mem_filter, decide_eq_true_eq]
  constructor
  · rintro ⟨next, ⟨hnext, hdst⟩, rfl⟩
    exact ⟨next, hnext, hdst, rfl⟩
  · rintro ⟨next, hnext, hdst, rfl⟩
    exact ⟨next, ⟨hnext, hdst⟩, rfl⟩

/-- All neighbours belong to one finite set of switches. -/
def Within (topo : TopologyState) (switches : Finset Dpid) : Prop :=
  ∀ u v, (topo.adjacency u v).isSome → v ∈ switches

/-- The rank of a stack entry is the number of switches its path has not visited. -/
def searchTree (horder : order.Iterates topo) (hwithin : Within topo switches) (dst : Dpid) :
    Tree (Dpid × List Dpid) (List Dpid) where
  emit := emitted order dst
  children := pushed order dst
  rank entry := (switches.filter (· ∉ entry.2)).card
  rank_lt := by
    intro entry child hchild
    obtain ⟨next, hnext, -, rfl⟩ := mem_pushed.mp hchild
    obtain ⟨hlinked, hfresh⟩ := (horder.mem_iff _ _ _).mp hnext
    apply Finset.card_lt_card
    rw [Finset.ssubset_iff_of_subset]
    · exact ⟨next, by simp [hwithin _ _ hlinked, hfresh], by simp⟩
    · intro switch hswitch
      simp only [Finset.mem_filter, List.mem_append, not_or] at hswitch ⊢
      exact ⟨hswitch.1, hswitch.2.1⟩

/-- The inner loop pushes the children in order and appends the paths found. -/
theorem foldl_visit (dst : Dpid) (path : List Dpid) (nexts : List Dpid)
    (stack : List (Dpid × List Dpid)) (paths : List (List Dpid)) :
    nexts.foldl (visit dst path) (stack, paths) =
      (((nexts.filter (· ≠ dst)).map fun next ↦ (next, path ++ [next])).reverse ++ stack,
        paths ++ (nexts.filter (· = dst)).map fun next ↦ path ++ [next]) := by
  induction nexts generalizing stack paths with
  | nil => simp
  | cons next nexts ih =>
    rw [List.foldl_cons, visit]
    by_cases hdst : next = dst
    · rw [if_pos hdst, ih]
      simp [hdst]
    · rw [if_neg hdst, ih]
      simp [hdst]

theorem searchLoop_eq (horder : order.Iterates topo) (hwithin : Within topo switches) (dst : Dpid)
    (fuel : ℕ) (stack : List (Dpid × List Dpid)) (paths : List (List Dpid)) :
    searchLoop order dst fuel stack paths =
      match (searchTree horder hwithin dst).loop fuel stack paths with
      | some result => .ok result
      | none => .error .unfinished := by
  induction fuel generalizing stack paths with
  | zero =>
    cases stack with
    | nil => rfl
    | cons entry stack => rfl
  | succ fuel ih =>
    cases stack with
    | nil => rfl
    | cons entry stack =>
      simp only [searchLoop, foldl_visit]
      exact ih _ _

/-- A continuation of the path of a stack entry to the destination. -/
structure Extension (topo : TopologyState) (dst : Dpid) (entry : Dpid × List Dpid)
    (rest : List Dpid) : Prop where
  linked : (entry.1 :: rest).IsChain fun u v ↦ (topo.adjacency u v).isSome
  nodup : rest.Nodup
  fresh : ∀ switch ∈ rest, switch ∉ entry.2
  ends : rest.getLast? = some dst

/-- One step of a continuation: it ends, or goes on from the next switch. -/
theorem extension_cons {dst next : Dpid} {entry : Dpid × List Dpid} {rest : List Dpid}
    (hdst : next ≠ dst) : Extension topo dst entry (next :: rest) ↔
      ((topo.adjacency entry.1 next).isSome ∧ next ∉ entry.2) ∧
        Extension topo dst (next, entry.2 ++ [next]) rest := by
  constructor
  · rintro ⟨hlinked, hnodup, hfresh, hends⟩
    obtain ⟨hfirst, hrest⟩ := List.isChain_cons_cons.mp hlinked
    obtain ⟨hnew, hnodup⟩ := List.nodup_cons.mp hnodup
    refine ⟨⟨hfirst, hfresh next (List.mem_cons_self ..)⟩, hrest, hnodup, ?_, ?_⟩
    · intro switch hswitch
      simp only [List.mem_append, List.mem_singleton, not_or]
      refine ⟨hfresh switch (List.mem_cons_of_mem _ hswitch), ?_⟩
      intro hsame
      exact hnew (hsame ▸ hswitch)
    · cases rest with
      | nil => exact absurd (by simpa using hends) hdst
      | cons second rest => simpa using hends
  · rintro ⟨⟨hfirst, hnew⟩, hlinked, hnodup, hfresh, hends⟩
    refine ⟨List.isChain_cons_cons.mpr ⟨hfirst, hlinked⟩, List.nodup_cons.mpr ⟨?_, hnodup⟩, ?_, ?_⟩
    · intro hrepeated
      exact hfresh next hrepeated (by simp)
    · intro switch hswitch
      rcases List.mem_cons.mp hswitch with rfl | hlater
      · exact hnew
      · have hunvisited := hfresh switch hlater
        simp only [List.mem_append, not_or] at hunvisited
        exact hunvisited.1
    · cases rest with
      | nil => simp at hends
      | cons second rest => simpa using hends

theorem extension_dst {dst : Dpid} {entry : Dpid × List Dpid} {rest : List Dpid} :
    Extension topo dst entry (dst :: rest) ↔
      ((topo.adjacency entry.1 dst).isSome ∧ dst ∉ entry.2) ∧ rest = [] := by
  constructor
  · rintro ⟨hlinked, hnodup, hfresh, hends⟩
    refine ⟨⟨(List.isChain_cons_cons.mp hlinked).1, hfresh dst (List.mem_cons_self ..)⟩, ?_⟩
    cases rest with
    | nil => rfl
    | cons second rest =>
      rw [List.getLast?_cons_cons] at hends
      exact absurd (List.mem_of_getLast? hends) (List.nodup_cons.mp hnodup).1
  · rintro ⟨⟨hlinked, hnew⟩, rfl⟩
    exact ⟨by simpa using hlinked, by simp, by simpa using hnew, rfl⟩

/-- Below a stack entry the search finds exactly the continuations of its path. -/
theorem mem_outputs (horder : order.Iterates topo) (hwithin : Within topo switches) (dst : Dpid)
    (entry : Dpid × List Dpid) (found : List Dpid) :
    found ∈ (searchTree horder hwithin dst).outputs entry ↔
      ∃ rest, found = entry.2 ++ rest ∧ Extension topo dst entry rest := by
  induction entry using (searchTree horder hwithin dst).induction generalizing found with
  | step entry ih =>
    have hchildren : (∃ child ∈ pushed order dst entry,
        found ∈ (searchTree horder hwithin dst).outputs child) ↔
          ∃ next rest, next ≠ dst ∧ found = entry.2 ++ next :: rest ∧
            Extension topo dst entry (next :: rest) := by
      constructor
      · rintro ⟨child, hchild, hfound⟩
        obtain ⟨next, hnext, hdst, rfl⟩ := mem_pushed.mp hchild
        obtain ⟨rest, rfl, hrest⟩ := (ih _ hchild found).mp hfound
        refine ⟨next, rest, hdst, by simp, ?_⟩
        exact (extension_cons hdst).mpr ⟨(horder.mem_iff _ _ _).mp hnext, hrest⟩
      · rintro ⟨next, rest, hdst, rfl, hextension⟩
        obtain ⟨hnext, hrest⟩ := (extension_cons hdst).mp hextension
        have hchild : (next, entry.2 ++ [next]) ∈ pushed order dst entry :=
          mem_pushed.mpr ⟨next, (horder.mem_iff _ _ _).mpr hnext, hdst, rfl⟩
        exact ⟨_, hchild, (ih _ hchild _).mpr ⟨rest, by simp, hrest⟩⟩
    have hemitted : found ∈ emitted order dst entry ↔
        found = entry.2 ++ [dst] ∧ Extension topo dst entry [dst] := by
      simp only [emitted, List.mem_map, List.mem_filter, decide_eq_true_eq, extension_dst,
        ← horder.mem_iff, and_true]
      constructor
      · rintro ⟨next, ⟨hnext, rfl⟩, rfl⟩
        exact ⟨rfl, hnext⟩
      · rintro ⟨rfl, hnext⟩
        exact ⟨dst, ⟨hnext, rfl⟩, rfl⟩
    rw [Tree.outputs_eq, List.mem_append, List.mem_flatMap]
    refine (or_congr hemitted hchildren).trans ?_
    constructor
    · rintro (⟨hfound, hextension⟩ | ⟨next, rest, -, hfound, hextension⟩)
      · exact ⟨[dst], hfound, hextension⟩
      · exact ⟨next :: rest, hfound, hextension⟩
    · rintro ⟨rest, hfound, hextension⟩
      cases rest with
      | nil => cases hextension.ends
      | cons next rest =>
        by_cases hdst : next = dst
        · subst hdst
          obtain rfl := (extension_dst.mp hextension).2
          exact .inl ⟨hfound, hextension⟩
        · exact .inr ⟨next, rest, hdst, hfound, hextension⟩

theorem mem_outputs_pushed (horder : order.Iterates topo) (hwithin : Within topo switches)
    {dst next : Dpid} {path found : List Dpid}
    (h : found ∈ (searchTree horder hwithin dst).outputs (next, path ++ [next])) :
    ∃ rest, found = path ++ next :: rest := by
  obtain ⟨rest, rfl, -⟩ := (mem_outputs horder hwithin dst _ _).mp h
  exact ⟨rest, by simp⟩

theorem nodup_outputs (horder : order.Iterates topo) (hwithin : Within topo switches) (dst : Dpid)
    (entry : Dpid × List Dpid) : ((searchTree horder hwithin dst).outputs entry).Nodup := by
  induction entry using (searchTree horder hwithin dst).induction with
  | step entry ih =>
    have hnexts : ((order entry.1 entry.2).filter (· ≠ dst)).Nodup := (horder.nodup _ _).filter _
    have hinjective : Function.Injective fun next : Dpid ↦ entry.2 ++ [next] := by
      intro next next' hsame
      simpa using hsame
    rw [Tree.outputs_eq]
    apply List.Nodup.append
    · exact ((horder.nodup _ _).filter _).map hinjective
    · apply List.nodup_flatMap.mpr
      refine ⟨ih, ?_⟩
      -- Children differ in the switch after the common path, and so do the paths below them.
      apply List.pairwise_map.mpr
      apply hnexts.imp
      intro next next' hdiffer found hfound hfound'
      obtain ⟨rest, rfl⟩ := mem_outputs_pushed horder hwithin hfound
      obtain ⟨rest', hsame⟩ := mem_outputs_pushed horder hwithin hfound'
      have htail := List.append_cancel_left hsame
      exact hdiffer (List.cons.inj htail).1
    · intro found hemitted hbelow
      obtain ⟨next, hnext, rfl⟩ := List.mem_map.mp hemitted
      have hdst := of_decide_eq_true (List.mem_filter.mp hnext).2
      obtain ⟨child, hchild, hfound⟩ := List.mem_flatMap.mp hbelow
      obtain ⟨other, -, hother, rfl⟩ := mem_pushed.mp hchild
      obtain ⟨rest, hsame⟩ := mem_outputs_pushed horder hwithin hfound
      have htail := List.append_cancel_left hsame
      exact hother ((List.cons.inj htail).1.symm.trans hdst)

theorem extension_start {src dst : Dpid} (hends : src ≠ dst) {path : List Dpid} :
    (∃ rest, path = [src] ++ rest ∧ Extension topo dst (src, [src]) rest) ↔
      SimplePath topo src dst path := by
  constructor
  · rintro ⟨rest, rfl, hlinked, hnodup, hfresh, hlast⟩
    refine ⟨rfl, ?_, List.nodup_cons.mpr ⟨?_, hnodup⟩, hlinked⟩
    · cases rest with
      | nil => simp at hlast
      | cons next rest => simpa using hlast
    · intro hrepeated
      exact hfresh src hrepeated (List.mem_singleton_self _)
  · rintro ⟨hstarts, hlast, hnodup, hlinked⟩
    cases path with
    | nil => simp at hstarts
    | cons first rest =>
      obtain rfl : first = src := by simpa using hstarts
      obtain ⟨hnew, hrest⟩ := List.nodup_cons.mp hnodup
      refine ⟨rest, rfl, hlinked, hrest, ?_, ?_⟩
      · intro switch hswitch hvisited
        rw [List.mem_singleton] at hvisited
        exact hnew (hvisited ▸ hswitch)
      · cases rest with
        | nil => exact absurd (by simpa using hlast) hends
        | cons next rest => simpa using hlast

theorem simplePath_self {src : Dpid} {path : List Dpid} :
    SimplePath topo src src path ↔ path = [src] := by
  constructor
  · rintro ⟨hstarts, hlast, hnodup, -⟩
    cases path with
    | nil => simp at hstarts
    | cons first rest =>
      obtain rfl : first = src := by simpa using hstarts
      cases rest with
      | nil => rfl
      | cons next rest =>
        rw [List.getLast?_cons_cons] at hlast
        exact absurd (List.mem_of_getLast? hlast) (List.nodup_cons.mp hnodup).1
  · rintro rfl
    exact ⟨rfl, rfl, by simp, by simp⟩

/-- `get_paths` terminates with every simple path, each once. -/
theorem getPaths_spec (horder : order.Iterates topo) (hwithin : Within topo switches)
    (src dst : Dpid) :
    ∃ paths, (∃ bound, ∀ fuel ≥ bound, getPaths order fuel src dst = .ok paths) ∧ paths.Nodup ∧
      ∀ path, path ∈ paths ↔ SimplePath topo src dst path := by
  by_cases hends : src = dst
  · subst hends
    refine ⟨[[src]], ⟨0, fun fuel _ ↦ if_pos rfl⟩, by simp, ?_⟩
    intro path
    rw [List.mem_singleton, simplePath_self]
  · let tree := searchTree horder hwithin dst
    obtain ⟨paths, hloop, hperm⟩ := tree.loop_perm [(src, [src])] [] le_rfl
    rw [List.nil_append, List.flatMap_singleton] at hperm
    refine ⟨paths, ⟨([(src, [src])].map tree.size).sum, ?_⟩, ?_, ?_⟩
    · intro fuel hfuel
      rw [getPaths, if_neg hends, searchLoop_eq horder hwithin, tree.loop_mono hloop hfuel]
    · exact hperm.nodup_iff.mpr (nodup_outputs horder hwithin dst _)
    · intro path
      rw [hperm.mem_iff, mem_outputs, extension_start hends]

theorem getPaths_mono (horder : order.Iterates topo) (hwithin : Within topo switches)
    {src dst : Dpid} {fuel fuel' : ℕ} {paths : List (List Dpid)}
    (h : getPaths order fuel src dst = .ok paths) (hle : fuel ≤ fuel') :
    getPaths order fuel' src dst = .ok paths := by
  unfold getPaths at h ⊢
  split
  · rename_i hends
    rwa [if_pos hends] at h
  · rename_i hends
    rw [if_neg hends, searchLoop_eq horder hwithin] at h
    rw [searchLoop_eq horder hwithin]
    split at h
    · rename_i found hloop
      cases h
      rw [(searchTree horder hwithin dst).loop_mono hloop hle]
    · cases h

theorem getPaths_ok (horder : order.Iterates topo) (hwithin : Within topo switches)
    {src dst : Dpid} {fuel : ℕ} {paths : List (List Dpid)}
    (h : getPaths order fuel src dst = .ok paths) :
    paths.Nodup ∧ ∀ path, path ∈ paths ↔ SimplePath topo src dst path := by
  obtain ⟨all, ⟨bound, hall⟩, hnodup, hmem⟩ := getPaths_spec horder hwithin src dst
  have hsame := getPaths_mono horder hwithin h (le_max_left fuel bound)
  rw [hall _ (le_max_right fuel bound)] at hsame
  cases hsame
  exact ⟨hnodup, hmem⟩

/-- Both costs are defined and the first is at most the second. -/
def CostLe (topo : TopologyState) (left right : List Dpid) : Prop :=
  ∃ cost cost', getPathCost topo left = .ok cost ∧ getPathCost topo right = .ok cost' ∧
    cost ≤ cost'

/-- Links have a port at each end, and a positive bandwidth at each. -/
structure Usable (topo : TopologyState) : Prop where
  both : ∀ u v, (topo.adjacency u v).isSome → (topo.adjacency v u).isSome
  bandwidth : ∀ u v port, topo.adjacency u v = some port → 0 < topo.bandwidths u port

theorem getLinkCost_completes (husable : Usable topo) {u v : Dpid}
    (hlinked : (topo.adjacency u v).isSome) : ∃ cost, getLinkCost topo u v = .ok cost := by
  obtain ⟨e1, he1⟩ := Option.isSome_iff_exists.mp hlinked
  obtain ⟨e2, he2⟩ := Option.isSome_iff_exists.mp (husable.both u v hlinked)
  have hpositive : min (topo.bandwidths u e1) (topo.bandwidths v e2) ≠ 0 := by
    have h1 := husable.bandwidth u v e1 he1
    have h2 := husable.bandwidth v u e2 he2
    omega
  refine ⟨referenceBw / min (topo.bandwidths u e1) (topo.bandwidths v e2), ?_⟩
  simp only [getLinkCost, adjacencyPort, he1, he2, bind, Except.bind, hpositive, if_false]
  rfl

theorem getPathCostFrom_completes (husable : Usable topo) {path : List Dpid}
    (hlinked : path.IsChain fun u v ↦ (topo.adjacency u v).isSome) (cost : ℕ) :
    ∃ total, getPathCostFrom topo cost path = .ok total := by
  induction path generalizing cost with
  | nil => exact ⟨cost, rfl⟩
  | cons u rest ih =>
    cases rest with
    | nil => exact ⟨cost, rfl⟩
    | cons v rest =>
      obtain ⟨hlink, hrest⟩ := List.isChain_cons_cons.mp hlinked
      obtain ⟨linkCost, hcost⟩ := getLinkCost_completes husable hlink
      obtain ⟨total, htotal⟩ := ih hrest (cost + linkCost)
      exact ⟨total, by simpa only [getPathCostFrom, hcost, bind, Except.bind] using htotal⟩

/-- Sorting rearranges the paths by cost when all costs are defined. -/
theorem sortedByCost_spec {paths : List (List Dpid)}
    (hcosts : ∀ path ∈ paths, ∃ cost, getPathCost topo path = .ok cost) :
    ∃ sorted, sortedByCost topo paths = .ok sorted ∧ sorted.Perm paths ∧
      sorted.Pairwise (CostLe topo) := by
  obtain ⟨costs, hmapM⟩ := mapM_completes hcosts
  have hresults := mapM_ok hmapM
  have hpairs : ∀ pair ∈ costs.zip paths, getPathCost topo pair.2 = .ok pair.1 := by
    intro pair hpair
    obtain ⟨index, hindex, rfl⟩ := List.getElem_of_mem hpair
    rw [List.length_zip] at hindex
    rw [List.getElem_zip]
    exact hresults.get (by omega) (by omega)
  let sorted := (costs.zip paths).mergeSort fun left right ↦ decide (left.1 ≤ right.1)
  have hperm : sorted.Perm (costs.zip paths) := List.mergeSort_perm _ _
  have hsorted : sorted.Pairwise fun left right ↦ decide (left.1 ≤ right.1) = true := by
    apply List.pairwise_mergeSort
    · intro a b c hab hbc
      exact decide_eq_true ((of_decide_eq_true hab).trans (of_decide_eq_true hbc))
    · intro a b
      simpa using le_total a.1 b.1
  refine ⟨sorted.map Prod.snd, ?_, ?_, ?_⟩
  · rw [sortedByCost, hmapM]
    rfl
  · have hzip : (costs.zip paths).map Prod.snd = paths :=
      List.map_snd_zip hresults.length_eq.le
    exact hzip ▸ hperm.map Prod.snd
  · apply List.pairwise_map.mpr
    apply hsorted.imp_of_mem
    intro left right hleft hright hle
    exact ⟨left.1, right.1, hpairs left (hperm.mem_iff.mp hleft),
      hpairs right (hperm.mem_iff.mp hright), of_decide_eq_true hle⟩

theorem sortedByCost_of_sorted {paths : List (List Dpid)} {costs : List ℕ}
    (hcosts : paths.mapM (getPathCost topo) = .ok costs) (hsorted : costs.Pairwise (· ≤ ·)) :
    sortedByCost topo paths = .ok paths := by
  have hlength := (mapM_ok hcosts).length_eq
  have hpairs : (costs.zip paths).Pairwise fun left right ↦ decide (left.1 ≤ right.1) = true := by
    simp only [decide_eq_true_eq]
    apply List.pairwise_map.mp
    rwa [List.map_fst_zip hlength.symm.le]
  rw [sortedByCost, hcosts]
  simp only [bind, Except.bind, List.mergeSort_of_pairwise hpairs, List.map_snd_zip hlength.le]
  rfl

/-- A path with a cost has a port at each end of its links. -/
theorem linked_of_getPathCostFrom {path : List Dpid} {cost total : ℕ}
    (h : getPathCostFrom topo cost path = .ok total) :
    path.IsChain fun u v ↦ (topo.adjacency u v).isSome ∧ (topo.adjacency v u).isSome := by
  induction path generalizing cost with
  | nil => exact .nil
  | cons u rest ih =>
    cases rest with
    | nil => exact .singleton u
    | cons v rest =>
      simp only [getPathCostFrom, getLinkCost] at h
      cases hout : adjacencyPort topo u v with
      | error exception => simp [hout, bind, Except.bind] at h
      | ok outPort =>
        cases hin : adjacencyPort topo v u with
        | error exception => simp [hout, hin, bind, Except.bind] at h
        | ok inPort =>
          simp only [hout, hin, bind, Except.bind] at h
          split at h
          · cases h
          · have hlinked : (topo.adjacency u v).isSome ∧ (topo.adjacency v u).isSome := by
              rw [adjacencyPort_ok hout, adjacencyPort_ok hin]
              exact ⟨rfl, rfl⟩
            exact List.isChain_cons_cons.mpr ⟨hlinked, ih h⟩

theorem sum_ne_zero_iff {paths : List (List Dpid)} {pw : List ℕ}
    (hpw : paths.mapM (getPathCost topo) = .ok pw) :
    pw.sum ≠ 0 ↔ ∃ path ∈ paths, getPathCost topo path ≠ .ok 0 := by
  have hcosts := mapM_ok hpw
  rw [ne_eq, List.sum_eq_zero_iff, not_forall]
  simp only [Classical.not_imp]
  constructor
  · rintro ⟨cost, hcost, hpositive⟩
    obtain ⟨index, hindex, rfl⟩ := List.getElem_of_mem hcost
    have hindex' : index < paths.length := hcosts.length_eq ▸ hindex
    refine ⟨paths[index], List.getElem_mem hindex', ?_⟩
    intro hzero
    exact hpositive (Except.ok.inj ((hcosts.get hindex' hindex).symm.trans hzero))
  · rintro ⟨path, hpath, hpositive⟩
    obtain ⟨cost, hcost, hpathCost⟩ := mapM_ok_of_mem hpw hpath
    refine ⟨cost, hcost, ?_⟩
    intro hzero
    exact hpositive (hpathCost.trans (congrArg _ hzero))

/-- Sorting that returns has rearranged the paths, and each of them has a cost. -/
theorem sortedByCost_ok {paths sorted : List (List Dpid)}
    (h : sortedByCost topo paths = .ok sorted) :
    sorted.Perm paths ∧ ∀ path ∈ paths, ∃ cost, getPathCost topo path = .ok cost := by
  have hcosts : ∀ path ∈ paths, ∃ cost, getPathCost topo path = .ok cost := by
    rw [sortedByCost] at h
    cases hmapM : paths.mapM (getPathCost topo) with
    | error exception => simp [hmapM, bind, Except.bind] at h
    | ok costs =>
      intro path hpath
      obtain ⟨cost, -, hcost⟩ := mapM_ok_of_mem hmapM hpath
      exact ⟨cost, hcost⟩
  obtain ⟨result, hresult, hperm, -⟩ := sortedByCost_spec hcosts
  obtain rfl : sorted = result := Except.ok.inj (h.symm.trans hresult)
  exact ⟨hperm, hcosts⟩

/-- What `get_optimal_paths` has to return among all simple paths. -/
structure Cheapest (topo : TopologyState) (maxPaths : ℕ) (paths optimal : List (List Dpid)) :
    Prop where
  length : optimal.length = min paths.length maxPaths
  nodup : optimal.Nodup
  subset : ∀ path ∈ optimal, path ∈ paths
  sorted : optimal.Pairwise (CostLe topo)
  others : ∀ path ∈ paths, path ∉ optimal → ∀ chosen ∈ optimal, CostLe topo chosen path

/-- A prefix of a sorted rearrangement is cheapest. -/
theorem cheapest_take {paths sorted : List (List Dpid)} (hnodup : paths.Nodup)
    (hperm : sorted.Perm paths) (hsorted : sorted.Pairwise (CostLe topo)) (maxPaths : ℕ) :
    Cheapest topo maxPaths paths
      (sorted.take (if paths.length < maxPaths then paths.length else maxPaths)) := by
  have hcount : (if paths.length < maxPaths then paths.length else maxPaths) =
      min paths.length maxPaths := by
    split <;> omega
  rw [hcount]
  have hsplit := List.take_append_drop (min paths.length maxPaths) sorted
  refine ⟨?_, ?_, ?_, ?_, ?_⟩
  · rw [List.length_take, hperm.length_eq]
    omega
  · exact (hperm.nodup_iff.mpr hnodup).sublist (List.take_sublist _ _)
  · intro path hpath
    exact hperm.mem_iff.mp (List.mem_of_mem_take hpath)
  · exact hsorted.sublist (List.take_sublist _ _)
  · intro path hpath hleft chosen hchosen
    have hmem : path ∈ sorted := hperm.mem_iff.mpr hpath
    rw [← hsplit] at hmem hsorted
    have hdropped := (List.mem_append.mp hmem).resolve_left hleft
    exact (List.pairwise_append.mp hsorted).2.2 chosen hchosen path hdropped

/-- `get_optimal_paths` terminates with the cheapest of the paths that `get_paths` finds. -/
theorem getOptimalPaths_spec (husable : Usable topo) {src dst : Dpid} {bound : ℕ}
    {paths : List (List Dpid)} (hpaths : ∀ fuel ≥ bound, getPaths order fuel src dst = .ok paths)
    (hnodup : paths.Nodup) (hsimple : ∀ path ∈ paths, SimplePath topo src dst path)
    (maxPaths : ℕ) :
    ∃ optimal,
      (∃ bound, ∀ fuel ≥ bound, getOptimalPaths topo order maxPaths fuel src dst = .ok optimal) ∧
      Cheapest topo maxPaths paths optimal := by
  have hcosts : ∀ path ∈ paths, ∃ cost, getPathCost topo path = .ok cost := by
    intro path hpath
    exact getPathCostFrom_completes husable (hsimple path hpath).linked 0
  obtain ⟨sorted, hsorted, hperm, hpairwise⟩ := sortedByCost_spec hcosts
  refine ⟨_, ⟨bound, ?_⟩, cheapest_take hnodup hperm hpairwise maxPaths⟩
  intro fuel hfuel
  rw [getOptimalPaths, hpaths fuel hfuel]
  simp only [bind, Except.bind, hsorted]
  rfl

theorem getOptimalPaths_parts {maxPaths fuel : ℕ} {src dst : Dpid} {optimal : List (List Dpid)}
    (h : getOptimalPaths topo order maxPaths fuel src dst = .ok optimal) :
    ∃ paths sorted, getPaths order fuel src dst = .ok paths ∧
      sortedByCost topo paths = .ok sorted ∧
      optimal = sorted.take (if paths.length < maxPaths then paths.length else maxPaths) := by
  rw [getOptimalPaths] at h
  cases hpaths : getPaths order fuel src dst with
  | error exception => simp [hpaths, bind, Except.bind] at h
  | ok paths =>
    cases hsorted : sortedByCost topo paths with
    | error exception => simp [hpaths, hsorted, bind, Except.bind] at h
    | ok sorted =>
      simp only [hpaths, hsorted, bind, Except.bind, pure, Except.pure, Except.ok.injEq] at h
      exact ⟨paths, sorted, rfl, hsorted, h.symm⟩

/-- What `get_optimal_paths` has returned: simple paths whose links have a port at each end, each
once, and at least one if the switches are connected. -/
theorem getOptimalPaths_ok (horder : order.Iterates topo) (hwithin : Within topo switches)
    {maxPaths fuel : ℕ} {src dst : Dpid} {optimal : List (List Dpid)}
    (h : getOptimalPaths topo order maxPaths fuel src dst = .ok optimal) :
    optimal.Nodup ∧ (∀ path ∈ optimal, AdjacencyPath topo src dst path) ∧
      (0 < maxPaths → (∃ path, SimplePath topo src dst path) → optimal ≠ []) := by
  obtain ⟨paths, sorted, hpaths, hsorted, rfl⟩ := getOptimalPaths_parts h
  obtain ⟨hnodup, hmem⟩ := getPaths_ok horder hwithin hpaths
  obtain ⟨hperm, hcosts⟩ := sortedByCost_ok hsorted
  refine ⟨(hperm.nodup_iff.mpr hnodup).sublist (List.take_sublist _ _), ?_, ?_⟩
  · intro path hpath
    have hfound := hperm.mem_iff.mp (List.mem_of_mem_take hpath)
    obtain ⟨cost, hcost⟩ := hcosts path hfound
    have hsimple := (hmem path).mp hfound
    exact ⟨hsimple.starts, hsimple.ends, hsimple.nodup, linked_of_getPathCostFrom hcost⟩
  · rintro hpositive ⟨path, hpath⟩ hempty
    have hsome := List.length_pos_of_mem ((hmem path).mpr hpath)
    have hlength := congrArg List.length hempty
    rw [List.length_take, hperm.length_eq, List.length_nil] at hlength
    split at hlength
    · omega
    · omega

theorem getOptimalPaths_perm {maxPaths fuel : ℕ} {src dst : Dpid} {paths optimal : List (List Dpid)}
    (h : getOptimalPaths topo order maxPaths fuel src dst = .ok optimal)
    (hpaths : getPaths order fuel src dst = .ok paths) (hfew : paths.length < maxPaths) :
    optimal.Perm paths := by
  obtain ⟨found, sorted, hfound, hsorted, rfl⟩ := getOptimalPaths_parts h
  obtain rfl : found = paths := Except.ok.inj (hfound.symm.trans hpaths)
  have hperm := (sortedByCost_ok hsorted).1
  rwa [if_pos hfew, ← hperm.length_eq, List.take_length]

theorem getOptimalPaths_costs {maxPaths fuel : ℕ} {src dst : Dpid} {optimal : List (List Dpid)}
    (h : getOptimalPaths topo order maxPaths fuel src dst = .ok optimal) :
    ∀ path ∈ optimal, ∃ cost, getPathCost topo path = .ok cost := by
  obtain ⟨paths, sorted, -, hsorted, rfl⟩ := getOptimalPaths_parts h
  obtain ⟨hperm, hcosts⟩ := sortedByCost_ok hsorted
  intro path hpath
  exact hcosts path (hperm.mem_iff.mp (List.mem_of_mem_take hpath))

theorem getOptimalPaths_mono (horder : order.Iterates topo) (hwithin : Within topo switches)
    {maxPaths fuel fuel' : ℕ} {src dst : Dpid} {optimal : List (List Dpid)}
    (h : getOptimalPaths topo order maxPaths fuel src dst = .ok optimal) (hle : fuel ≤ fuel') :
    getOptimalPaths topo order maxPaths fuel' src dst = .ok optimal := by
  unfold getOptimalPaths at h ⊢
  cases hpaths : getPaths order fuel src dst with
  | error exception => simp [hpaths, bind, Except.bind] at h
  | ok paths =>
    rw [getPaths_mono horder hwithin hpaths hle]
    rwa [hpaths] at h

/-- Few enough paths that the search finds by increasing cost are returned as they are. -/
theorem getOptimalPaths_of_sorted {maxPaths fuel : ℕ} {src dst : Dpid} {paths : List (List Dpid)}
    (costs : List ℕ) (hpaths : getPaths order fuel src dst = .ok paths)
    (hcosts : paths.mapM (getPathCost topo) = .ok costs) (hsorted : costs.Pairwise (· ≤ ·))
    (hfew : paths.length < maxPaths) :
    getOptimalPaths topo order maxPaths fuel src dst = .ok paths := by
  rw [getOptimalPaths, hpaths]
  simp only [bind, Except.bind, sortedByCost_of_sorted hcosts hsorted, if_pos hfew,
    List.take_length]
  rfl

theorem within_links {links : Finset (Dpid × Dpid)}
    (hfinite : ∀ u v, (topo.adjacency u v).isSome → (u, v) ∈ links) :
    Within topo (links.image Prod.snd) := by
  intro u v hlinked
  exact Finset.mem_image_of_mem Prod.snd (hfinite u v hlinked)

/-- **Cheapest simple paths.** Over a finite adjacency map with positive bandwidths and both
directions of every link, for every order of iteration, the search terminates with every simple path
from source to destination and nothing else, each once, and of these the optimal paths are the
cheapest ones, by increasing cost, as many as the `MAX_PATHS` of the application allows. -/
theorem cheapest_simple_paths (topo : TopologyState) (order : SetOrder)
    (links : Finset (Dpid × Dpid)) (horder : order.Iterates topo)
    (hfinite : ∀ u v, (topo.adjacency u v).isSome → (u, v) ∈ links) (husable : Usable topo)
    (src dst : Dpid) :
    ∃ paths, (∃ bound, ∀ fuel ≥ bound, getPaths order fuel src dst = .ok paths) ∧ paths.Nodup ∧
      (∀ path, path ∈ paths ↔ SimplePath topo src dst path) ∧
      (∃ optimal,
        (∃ bound, ∀ fuel ≥ bound, getOptimalPaths2 topo order fuel src dst = .ok optimal) ∧
        Cheapest topo maxPaths2 paths optimal) ∧
      (∃ optimal,
        (∃ bound, ∀ fuel ≥ bound, getOptimalPaths3 topo order fuel src dst = .ok optimal) ∧
        Cheapest topo maxPaths3 paths optimal) := by
  obtain ⟨paths, ⟨bound, hpaths⟩, hnodup, hmem⟩ :=
    getPaths_spec horder (within_links hfinite) src dst
  have hsimple : ∀ path ∈ paths, SimplePath topo src dst path := fun path ↦ (hmem path).mp
  refine ⟨paths, ⟨bound, hpaths⟩, hnodup, hmem, ?_, ?_⟩
  · exact getOptimalPaths_spec husable hpaths hnodup hsimple maxPaths2
  · exact getOptimalPaths_spec husable hpaths hnodup hsimple maxPaths3

/-- Three switches, each linked to the other two; increasing order of the neighbours. -/
def triangleOrder : SetOrder := fun node path ↦
  [1, 2, 3].filter fun next ↦ (triangle.adjacency node next).isSome ∧ next ∉ path

theorem triangleOrder_iterates : triangleOrder.Iterates triangle where
  nodup _ _ := List.Nodup.filter _ (by decide)
  mem_iff node path next := by
    simp only [triangleOrder, List.mem_filter, decide_eq_true_eq, and_iff_right_iff_imp]
    rintro ⟨hlinked, -⟩
    simp only [triangle, Option.isSome_ite] at hlinked
    exact hlinked.2.2

theorem usable_triangle : Usable triangle where
  both u v hlinked := by
    simp only [triangle, Option.isSome_ite] at hlinked ⊢
    exact ⟨hlinked.1.symm, hlinked.2.2, hlinked.2.1⟩
  bandwidth _ _ _ _ := (by decide : 0 < defaultBw)

theorem cheapest_simple_paths_triangle :
    ∃ paths, SimplePath triangle 1 3 [1, 3] ∧ [1, 3] ∈ paths ∧
      ∃ optimal, (∃ bound, ∀ fuel ≥ bound,
        getOptimalPaths2 triangle triangleOrder fuel 1 3 = .ok optimal) ∧
        Cheapest triangle maxPaths2 paths optimal := by
  have hfinite : ∀ u v, (triangle.adjacency u v).isSome →
      (u, v) ∈ ({1, 2, 3} ×ˢ {1, 2, 3} : Finset (Dpid × Dpid)) := by
    intro u v hlinked
    simp only [triangle, Option.isSome_ite] at hlinked
    simpa using hlinked.2
  obtain ⟨paths, -, -, hmem, htwo, -⟩ := cheapest_simple_paths triangle triangleOrder _
    triangleOrder_iterates hfinite usable_triangle 1 3
  have hdirect : SimplePath triangle 1 3 [1, 3] := ⟨rfl, rfl, by decide, by decide⟩
  exact ⟨paths, hdirect, (hmem _).mpr hdirect, htwo⟩

end Wispr.Multipath.Search
