import Wispr.Controller.Install

/-!
# Port dictionaries of paths

`add_ports_to_paths` forgets the order of a path: its dictionary maps each switch to the port the
path enters it on and the port it leaves it on. Where different neighbours of a switch hang on
different ports the dictionary still determines the path, so the guard `MirriorPath == path` of the
drawing loop compares paths.
-/

open Wispr.Foundation.Effects

namespace Wispr.Controller.PortMaps

open Paths Install

/-- Different neighbours of a switch are reached through different ports. -/
def DistinctPorts (topo : TopologyState) : Prop :=
  ∀ u v w port, topo.adjacency u v = some port → topo.adjacency u w = some port → v = w

/-- A path over the adjacency map that repeats no switch. Every link has a port at each end. -/
structure AdjacencyPath (topo : TopologyState) (src dst : Dpid) (path : List Dpid) : Prop where
  starts : path.head? = some src
  ends : path.getLast? = some dst
  nodup : path.Nodup
  linked : path.IsChain fun u v ↦ (topo.adjacency u v).isSome ∧ (topo.adjacency v u).isSome

/-- What the dictionary of a path has to be: its keys are the switches of the path, and each
switch has the port towards its predecessor and the port towards its successor, with the given
ports at the two ends. -/
structure Annotates (topo : TopologyState) (firstPort lastPort : Port) (path : List Dpid)
    (dictionary : PathPorts) : Prop where
  keys : ∀ node, node ∈ dictionary.map Prod.fst ↔ node ∈ path
  distinctKeys : (dictionary.map Prod.fst).Nodup
  first : ∀ node, path[0]? = some node →
    ∃ outPort, dictionary.lookup node = some (firstPort, outPort)
  entry : ∀ i previous node, path[i]? = some previous → path[i + 1]? = some node →
    ∃ inPort outPort, dictionary.lookup node = some (inPort, outPort) ∧
      topo.adjacency node previous = some inPort
  exit : ∀ i node next, path[i]? = some node → path[i + 1]? = some next →
    ∃ inPort outPort, dictionary.lookup node = some (inPort, outPort) ∧
      topo.adjacency node next = some outPort
  last : ∀ node, path.getLast? = some node →
    ∃ inPort, dictionary.lookup node = some (inPort, lastPort)

variable {topo : TopologyState} {firstPort lastPort inPort : Port}

theorem lookup_cons_of_ne {node key : Dpid} {ports : Port × Port} {rest : PathPorts}
    (h : node ≠ key) : ((key, ports) :: rest : PathPorts).lookup node = rest.lookup node := by
  rw [List.lookup_cons, beq_eq_false_iff_ne.mpr h]

theorem lookup_cons_self (node : Dpid) (ports : Port × Port) (rest : PathPorts) :
    ((node, ports) :: rest : PathPorts).lookup node = some ports := by
  rw [List.lookup_cons, beq_self_eq_true]

theorem addPortsToPath_completes {path : List Dpid} (p : PathPorts) (hnonempty : path ≠ [])
    (hlinked : path.IsChain fun u v ↦ (topo.adjacency u v).isSome ∧ (topo.adjacency v u).isSome) :
    ∃ result, addPortsToPath topo lastPort inPort p path = .ok result := by
  induction path generalizing inPort p with
  | nil => exact absurd rfl hnonempty
  | cons node rest ih =>
    cases rest with
    | nil => exact ⟨_, rfl⟩
    | cons next rest =>
      obtain ⟨⟨hout, hin⟩, hrest⟩ := List.isChain_cons_cons.mp hlinked
      obtain ⟨outPort, hout⟩ := Option.isSome_iff_exists.mp hout
      obtain ⟨nextIn, hin⟩ := Option.isSome_iff_exists.mp hin
      obtain ⟨result, hresult⟩ : ∃ result, addPortsToPath topo lastPort nextIn
          (setItem p node (inPort, outPort)) (next :: rest) = .ok result :=
        ih _ (List.cons_ne_nil _ _) hrest
      refine ⟨result, ?_⟩
      simp only [addPortsToPath, adjacencyPort, hout, hin, bind, Except.bind]
      exact hresult

/-- The dictionary built along a simple path annotates it. -/
theorem annotates_of_portsAlong {path : List Dpid} {ports : PathPorts}
    (h : PortsAlong topo lastPort inPort path ports) (hnodup : path.Nodup) :
    Annotates topo inPort lastPort path ports := by
  induction h with
  | last inPort node =>
    refine ⟨by simp, by simp, ?_, by simp, by simp, ?_⟩
    · intro first hfirst
      obtain rfl : node = first := by simpa using hfirst
      exact ⟨lastPort, lookup_cons_self ..⟩
    · intro only hlast
      obtain rfl : node = only := by simpa using hlast
      exact ⟨inPort, lookup_cons_self ..⟩
  | @hop inPort outPort nextIn node next rest ports hout hin hrest ih =>
    obtain ⟨hnode, hnodup⟩ := List.nodup_cons.mp hnodup
    have htail := ih hnodup
    -- The entries of later switches are those of the rest of the path.
    have hlater : ∀ other ∈ next :: rest,
        ((node, inPort, outPort) :: ports : PathPorts).lookup other = ports.lookup other := by
      intro other hother
      apply lookup_cons_of_ne
      intro hsame
      exact hnode (hsame ▸ hother)
    refine ⟨?_, ?_, ?_, ?_, ?_, ?_⟩
    · intro other
      simp only [List.map_cons, List.mem_cons, htail.keys other]
    · rw [List.map_cons, hrest.keys]
      exact List.nodup_cons.mpr ⟨hnode, hnodup⟩
    · intro first hfirst
      obtain rfl : node = first := by simpa using hfirst
      exact ⟨outPort, lookup_cons_self ..⟩
    · intro i previous current hprevious hcurrent
      cases i with
      | zero =>
        obtain rfl : node = previous := by simpa using hprevious
        obtain rfl : next = current := by simpa using hcurrent
        obtain ⟨exit, hexit⟩ := htail.first next rfl
        exact ⟨nextIn, exit, by rw [hlater next (List.mem_cons_self ..), hexit], hin⟩
      | succ i =>
        rw [List.getElem?_cons_succ] at hprevious hcurrent
        rw [hlater current (List.mem_of_getElem? hcurrent)]
        exact htail.entry i previous current hprevious hcurrent
    · intro i current following hcurrent hfollowing
      cases i with
      | zero =>
        obtain rfl : node = current := by simpa using hcurrent
        obtain rfl : next = following := by simpa using hfollowing
        exact ⟨inPort, outPort, lookup_cons_self .., hout⟩
      | succ i =>
        rw [List.getElem?_cons_succ] at hcurrent hfollowing
        rw [hlater current (List.mem_of_getElem? hcurrent)]
        exact htail.exit i current following hcurrent hfollowing
    · intro final hfinal
      rw [List.getLast?_cons_cons] at hfinal
      rw [hlater final (List.mem_of_getLast? hfinal)]
      exact htail.last final hfinal

/-- Simple paths from one switch with equal dictionaries are equal. The induction follows them to
the first switch where they would part: its egress ports differ there. -/
theorem path_eq_of_perm (hdistinct : DistinctPorts topo) {path path' : List Dpid}
    {ports ports' : PathPorts} (h : PortsAlong topo lastPort inPort path ports)
    (h' : PortsAlong topo lastPort inPort path' ports') (hnodup : path.Nodup)
    (hstarts : path.head? = path'.head?) (hperm : ports.Perm ports') : path = path' := by
  induction h generalizing path' ports' with
  | last inPort node =>
    cases h' with
    | last _ node' => simpa using hstarts
    | hop hout' hin' hrest' =>
      have hempty := (List.cons_perm_iff_perm_erase.mp hperm.symm).2
      have hkeys := hrest'.keys
      simp_all
  | @hop inPort outPort nextIn node next rest ports hout hin hrest ih =>
    obtain ⟨hnode, hrestNodup⟩ := List.nodup_cons.mp hnodup
    cases h' with
    | last _ node' =>
      have hkeys := (hperm.map Prod.fst).length_eq
      rw [List.map_cons, hrest.keys] at hkeys
      simp at hkeys
    | @hop _ outPort' nextIn' node' next' rest' ports' hout' hin' hrest' =>
      obtain rfl : node = node' := by simpa using hstarts
      have hitem : (node, inPort, outPort') ∈ (node, inPort, outPort) :: ports :=
        hperm.mem_iff.mpr (List.mem_cons_self ..)
      have hport : outPort' = outPort := by
        rcases List.mem_cons.mp hitem with hsame | hlater
        · simpa using hsame
        · have hkey := List.mem_map_of_mem (f := Prod.fst) hlater
          rw [hrest.keys] at hkey
          exact absurd hkey hnode
      subst hport
      obtain rfl : next = next' := hdistinct node next next' outPort' hout hout'
      obtain rfl : nextIn = nextIn' := Option.some.inj (hin.symm.trans hin')
      rw [ih hrest' hrestNodup rfl hperm.cons_inv]

/-- The mirror loop goes on for as long as the draws give the path itself. -/
theorem chooseMirror_append {pathsWithPorts : List PathPorts} {path : PathPorts}
    {draws : List ℕ} (h : chooseMirror pathsWithPorts path draws = .error .unfinished)
    (later : List ℕ) : chooseMirror pathsWithPorts path (draws ++ later) =
      chooseMirror pathsWithPorts path later := by
  induction draws with
  | nil => rfl
  | cons draw draws ih =>
    rw [List.cons_append]
    simp only [chooseMirror] at h ⊢
    split at h
    · cases h
    · split at h
      · rename_i hsame
        rw [if_pos hsame]
        exact ih h
      · cases h

/-- A draw that gives another path ends the loop. -/
theorem chooseMirror_exits {pathsWithPorts : List PathPorts} {path mirror : PathPorts} {draw : ℕ}
    (hdraw : pathsWithPorts[draw]? = some mirror)
    (hother : pathsWithPorts.length ≤ 1 ∨ ¬ mirror.Perm path) :
    chooseMirror pathsWithPorts path [draw] = .ok (mirror, []) := by
  have hbound : draw < pathsWithPorts.length := (List.getElem?_eq_some_iff.mp hdraw).1
  simp only [chooseMirror, Nat.mod_eq_of_lt hbound, hdraw]
  rw [if_neg]
  rintro ⟨hmany, hsame⟩
  rcases hother with hfew | hdifferent
  · exact absurd hmany (not_lt.mpr hfew)
  · exact hdifferent hsame

/-- The dictionaries of simple paths, in the order of the paths. -/
theorem addPortsToPaths_portsAlong {src dst : Dpid} {paths : List (List Dpid)}
    (hsimple : ∀ path ∈ paths, AdjacencyPath topo src dst path) (firstPort lastPort : Port) :
    ∃ dictionaries, addPortsToPaths topo paths firstPort lastPort = .ok dictionaries ∧
      List.Forall₂ (PortsAlong topo lastPort firstPort) paths dictionaries := by
  have hstep : ∀ path ∈ paths,
      ∃ result, addPortsToPath topo lastPort firstPort [] path = .ok result := by
    intro path hpath
    apply addPortsToPath_completes
    · intro hempty
      have hstarts := (hsimple path hpath).starts
      simp [hempty] at hstarts
    · exact (hsimple path hpath).linked
  obtain ⟨dictionaries, hdictionaries⟩ := mapM_completes hstep
  refine ⟨dictionaries, hdictionaries, ?_⟩
  have hresults := mapM_ok hdictionaries
  rw [List.forall₂_iff_get] at hresults ⊢
  refine ⟨hresults.1, ?_⟩
  intro index hindex hindex'
  have hpath := hsimple _ (List.get_mem paths ⟨index, hindex⟩)
  obtain ⟨ports, hports, halong⟩ := addPortsToPath_ok (hresults.2 index hindex hindex') hpath.nodup
    (by simp)
  rw [List.nil_append] at hports
  rwa [hports]

/-- Different paths of the list have different dictionaries. -/
theorem not_perm_of_ne (hdistinct : DistinctPorts topo) {src dst : Dpid} {paths : List (List Dpid)}
    {dictionaries : List PathPorts} (hsimple : ∀ path ∈ paths, AdjacencyPath topo src dst path)
    (halong : List.Forall₂ (PortsAlong topo lastPort firstPort) paths dictionaries)
    {i j : ℕ} {path path' : List Dpid} {ports ports' : PathPorts} (hpath : paths[i]? = some path)
    (hpath' : paths[j]? = some path') (hports : dictionaries[i]? = some ports)
    (hports' : dictionaries[j]? = some ports') (hne : path ≠ path') : ¬ ports.Perm ports' := by
  have hat : ∀ {k : ℕ} {p : List Dpid} {d : PathPorts}, paths[k]? = some p →
      dictionaries[k]? = some d → PortsAlong topo lastPort firstPort p d := by
    intro k p d hp hd
    obtain ⟨hk, rfl⟩ := List.getElem?_eq_some_iff.mp hp
    obtain ⟨hk', rfl⟩ := List.getElem?_eq_some_iff.mp hd
    exact halong.get hk hk'
  have hsimplePath := hsimple path (List.mem_of_getElem? hpath)
  have hsimplePath' := hsimple path' (List.mem_of_getElem? hpath')
  intro hperm
  exact hne (path_eq_of_perm hdistinct (hat hpath hports) (hat hpath' hports') hsimplePath.nodup
    (hsimplePath.starts.trans hsimplePath'.starts.symm) hperm)

/-- The selection of the mirror for one primary path: every draw on which the loop exits gives the
dictionary of a listed path, another one than the primary if there are two, and at every iteration
some draw lets it exit. -/
structure MirrorSelection (paths : List (List Dpid)) (dictionaries : List PathPorts)
    (path : List Dpid) (ports : PathPorts) : Prop where
  mirror_of_exit : ∀ draws mirror rest,
    chooseMirror dictionaries ports draws = .ok (mirror, rest) →
      ∃ (j : ℕ) (mirrorPath : List Dpid), paths[j]? = some mirrorPath ∧
        dictionaries[j]? = some mirror ∧ (1 < paths.length → mirrorPath ≠ path)
  exit_available : ∀ draws, chooseMirror dictionaries ports draws = .error .unfinished →
    ∃ draw < dictionaries.length, ∃ mirror,
      chooseMirror dictionaries ports (draws ++ [draw]) = .ok (mirror, [])

theorem mirrorSelection_of_distinct {paths : List (List Dpid)} {dictionaries : List PathPorts}
    (hlength : paths.length = dictionaries.length) (hpaths : paths.Nodup)
    (hdifferent : ∀ {i j : ℕ} {path path' : List Dpid} {ports ports' : PathPorts},
      paths[i]? = some path → paths[j]? = some path' → dictionaries[i]? = some ports →
      dictionaries[j]? = some ports' → path ≠ path' → ¬ ports.Perm ports')
    {k : ℕ} {path : List Dpid} {ports : PathPorts} (hpath : paths[k]? = some path)
    (hports : dictionaries[k]? = some ports) : MirrorSelection paths dictionaries path ports := by
  have hk : k < dictionaries.length := (List.getElem?_eq_some_iff.mp hports).1
  constructor
  · intro draws mirror rest hexit
    obtain ⟨hmem, hother⟩ := chooseMirror_ok hexit
    obtain ⟨j, hj⟩ := List.mem_iff_getElem?.mp hmem
    have hj' : j < paths.length := hlength ▸ (List.getElem?_eq_some_iff.mp hj).1
    refine ⟨j, paths[j], List.getElem?_eq_getElem hj', hj, ?_⟩
    intro hmany hsame
    -- Equal paths of the list stand at one position, so the mirror would be the path itself.
    have hkj : paths[j]? = paths[k]? := by rw [List.getElem?_eq_getElem hj', hsame, hpath]
    obtain rfl : j = k := (List.getElem?_inj hj' hpaths).mp hkj
    obtain rfl : mirror = ports := Option.some.inj (hj.symm.trans hports)
    exact hother (hlength ▸ hmany) (.refl _)
  · intro draws hdraws
    by_cases hmany : 1 < dictionaries.length
    · -- Some other position has another path, and its dictionary is another one.
      obtain ⟨j, hj, hjk⟩ : ∃ j < dictionaries.length, j ≠ k := by
        rcases Nat.eq_zero_or_pos k with rfl | hpositive
        · exact ⟨1, hmany, by decide⟩
        · exact ⟨0, by omega, by omega⟩
      have hj' : j < paths.length := hlength ▸ hj
      refine ⟨j, hj, dictionaries[j], ?_⟩
      rw [chooseMirror_append hdraws]
      apply chooseMirror_exits (List.getElem?_eq_getElem hj)
      right
      apply hdifferent (List.getElem?_eq_getElem hj') hpath (List.getElem?_eq_getElem hj) hports
      intro hsame
      have hpositions : paths[j]? = paths[k]? := by
        rw [List.getElem?_eq_getElem hj', hsame, hpath]
      exact hjk ((List.getElem?_inj hj' hpaths).mp hpositions)
    · refine ⟨k, hk, ports, ?_⟩
      rw [chooseMirror_append hdraws]
      exact chooseMirror_exits hports (.inl (not_lt.mp hmany))

/-- Annotation with ports is faithful and injective, so a mirror differs from its primary path. -/
theorem annotation_faithful (topo : TopologyState) (hports : DistinctPorts topo) (src dst : Dpid)
    (firstPort lastPort : Port) (paths : List (List Dpid)) (hpaths : paths.Nodup)
    (hsimple : ∀ path ∈ paths, AdjacencyPath topo src dst path) :
    ∃ dictionaries, addPortsToPaths topo paths firstPort lastPort = .ok dictionaries ∧
      List.Forall₂ (Annotates topo firstPort lastPort) paths dictionaries ∧
      (∀ (i j : ℕ) (ports ports' : PathPorts), dictionaries[i]? = some ports →
        dictionaries[j]? = some ports' → i ≠ j → ¬ ports.Perm ports') ∧
      ∀ (k : ℕ) (path : List Dpid) (ports : PathPorts), paths[k]? = some path →
        dictionaries[k]? = some ports → MirrorSelection paths dictionaries path ports := by
  obtain ⟨dictionaries, hresult, halong⟩ := addPortsToPaths_portsAlong hsimple firstPort lastPort
  have hlength := halong.length_eq
  refine ⟨dictionaries, hresult, ?_, ?_, ?_⟩
  · rw [List.forall₂_iff_get] at halong ⊢
    refine ⟨halong.1, ?_⟩
    intro index hindex hindex'
    have hpath := hsimple _ (List.get_mem paths ⟨index, hindex⟩)
    exact annotates_of_portsAlong (halong.2 index hindex hindex') hpath.nodup
  · intro i j ports ports' hi hj hij
    have hi' : i < paths.length := hlength ▸ (List.getElem?_eq_some_iff.mp hi).1
    have hj' : j < paths.length := hlength ▸ (List.getElem?_eq_some_iff.mp hj).1
    apply not_perm_of_ne hports hsimple halong (List.getElem?_eq_getElem hi')
      (List.getElem?_eq_getElem hj') hi hj
    intro hsame
    exact hij ((List.Nodup.getElem_inj_iff hpaths).mp hsame)
  · intro k path ports hpath hk
    exact mirrorSelection_of_distinct hlength hpaths
      (not_perm_of_ne hports hsimple halong) hpath hk

/-- Switches 1, 2 and 3, each linked to the other two; port `v + 2` leads to switch `v`. -/
def triangle : TopologyState :=
  { TopologyState.init with
    adjacency := fun u v ↦ if u ≠ v ∧ u ∈ [1, 2, 3] ∧ v ∈ [1, 2, 3] then some (v + 2) else none }

theorem distinctPorts_triangle : DistinctPorts triangle := by
  intro u v w port hv hw
  simp only [triangle, Option.ite_none_right_eq_some, Option.some.injEq] at hv hw
  exact Nat.add_right_cancel (hv.2.trans hw.2.symm)

theorem adjacencyPath_triangle :
    ∀ path ∈ [[1, 3], [1, 2, 3]], AdjacencyPath triangle 1 3 path := by
  intro path hpath
  rcases List.mem_pair.mp hpath with rfl | rfl
  · exact ⟨rfl, rfl, by decide, by decide⟩
  · exact ⟨rfl, rfl, by decide, by decide⟩

theorem annotation_faithful_triangle :
    ∃ dictionaries, addPortsToPaths triangle [[1, 3], [1, 2, 3]] 7 8 = .ok dictionaries ∧
      MirrorSelection [[1, 3], [1, 2, 3]] dictionaries [1, 3] [(1, 7, 5), (3, 3, 8)] := by
  obtain ⟨dictionaries, hresult, -, -, hmirror⟩ := annotation_faithful triangle
    distinctPorts_triangle 1 3 7 8 [[1, 3], [1, 2, 3]] (by decide) adjacencyPath_triangle
  refine ⟨dictionaries, hresult, hmirror 0 [1, 3] _ rfl ?_⟩
  have hdictionaries : dictionaries = [[(1, 7, 5), (3, 3, 8)], [(1, 7, 4), (2, 3, 5), (3, 4, 8)]] :=
    Except.ok.inj (hresult.symm.trans rfl)
  rw [hdictionaries]
  rfl

end Wispr.Controller.PortMaps
