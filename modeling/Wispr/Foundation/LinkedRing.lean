import Mathlib.Tactic

/-!
# Doubly linked rings

Nodes linked in both directions in a ring through a root node. A ring holds a list when following
the links forward from the root meets its nodes in order and ends at the root again, and the
backward links are those reversed. A node is taken out by joining its neighbours and put in by
joining it to the two nodes it comes between.
-/

namespace Wispr.Foundation.LinkedRing

variable {N : Type} [DecidableEq N]

structure Links (N : Type) where
  next : N → N
  prev : N → N

/-- `first` is followed by `second`, and the other way back. -/
def Links.join (ring : Links N) (first second : N) : Links N :=
  ⟨Function.update ring.next first second, Function.update ring.prev second first⟩

/-- Two nodes that follow each other. -/
def Links.Adjacent (ring : Links N) (first second : N) : Prop :=
  ring.next first = second ∧ ring.prev second = first

/-- The nodes from the root around to the root. -/
structure Holds (ring : Links N) (root : N) (nodes : List N) : Prop where
  nodup : (root :: nodes).Nodup
  linked : (root :: nodes ++ [root]).IsChain ring.Adjacent

/-- The nodes met from a node on until the root, at most as many as the fuel allows. -/
def Links.walk (ring : Links N) (root : N) : ℕ → N → List N
  | 0, _ => []
  | fuel + 1, node => if node = root then [] else node :: ring.walk root fuel (ring.next node)

omit [DecidableEq N] in
/-- A chain stays one if its links survive, and no link starts at its last node or ends at its
first. -/
theorem isChain_of_inner {R R' : N → N → Prop} {nodes : List N} (h : nodes.IsChain R)
    (hkept : ∀ first ∈ nodes.dropLast, ∀ second ∈ nodes.tail, R first second → R' first second) :
    nodes.IsChain R' := by
  induction nodes with
  | nil => exact .nil
  | cons first rest ih =>
    cases rest with
    | nil => exact .singleton first
    | cons second rest =>
      obtain ⟨hlink, hrest⟩ := List.isChain_cons_cons.mp h
      refine List.isChain_cons_cons.mpr ⟨hkept first (by simp) second (by simp) hlink, ?_⟩
      refine ih hrest ?_
      intro a ha b hb
      refine hkept a ?_ b (List.mem_cons_of_mem _ hb)
      rw [List.dropLast_cons_cons]
      exact List.mem_cons_of_mem _ ha

/-- Joining two nodes elsewhere leaves a chain as it is. -/
theorem isChain_of_join {ring : Links N} {nodes : List N} {first second : N}
    (h : nodes.IsChain ring.Adjacent) (hfirst : first ∉ nodes.dropLast)
    (hsecond : second ∉ nodes.tail) : nodes.IsChain (ring.join first second).Adjacent := by
  refine isChain_of_inner h ?_
  rintro a ha b hb ⟨hnext, hprev⟩
  have haFirst : a ≠ first := fun hsame ↦ hfirst (hsame ▸ ha)
  have hbSecond : b ≠ second := fun hsame ↦ hsecond (hsame ▸ hb)
  exact ⟨(Function.update_of_ne haFirst ..).trans hnext,
    (Function.update_of_ne hbSecond ..).trans hprev⟩

theorem isChain_append_of_join {ring : Links N} {left right : List N} {first second : N}
    (hleft : left.IsChain ring.Adjacent) (hright : right.IsChain ring.Adjacent)
    (hlast : left.getLast? = some first) (hhead : right.head? = some second)
    (hfirst : first ∉ left.dropLast) (hfirst' : first ∉ right.dropLast)
    (hsecond : second ∉ left.tail) (hsecond' : second ∉ right.tail) :
    (left ++ right).IsChain (ring.join first second).Adjacent := by
  rw [List.isChain_append]
  refine ⟨isChain_of_join hleft hfirst hsecond, isChain_of_join hright hfirst' hsecond', ?_⟩
  intro a ha b hb
  rw [hlast, Option.mem_some_iff] at ha
  rw [hhead, Option.mem_some_iff] at hb
  subst ha hb
  exact ⟨Function.update_self .., Function.update_self ..⟩

omit [DecidableEq N] in
theorem getLast_notMem_dropLast {nodes : List N} (hnodup : nodes.Nodup) {last : N}
    (hlast : nodes.getLast? = some last) : last ∉ nodes.dropLast := by
  rw [← List.dropLast_append_getLast? last hlast] at hnodup
  intro hmem
  exact (List.nodup_append.mp hnodup).2.2 last hmem last (by simp) rfl

omit [DecidableEq N] in
theorem head_notMem_tail {nodes : List N} (hnodup : nodes.Nodup) {head : N}
    (hhead : nodes.head? = some head) : head ∉ nodes.tail := by
  cases nodes with
  | nil => cases hhead
  | cons first rest =>
    cases hhead
    exact (List.nodup_cons.mp hnodup).1

section Operations

variable {ring : Links N} {root node first second : N} {front back : List N}

/-- The two ends of a place in the ring: the node before it and the node behind it. -/
structure Between (root : N) (front back : List N) (first second : N) : Prop where
  last : (root :: front).getLast? = some first
  head : (back ++ [root]).head? = some second

omit [DecidableEq N] in
theorem exists_between (root : N) (front back : List N) :
    ∃ first second, Between root front back first second := by
  refine ⟨(root :: front).getLast (List.cons_ne_nil _ _), (back ++ [root]).head (by simp), ?_, ?_⟩
  · exact List.getLast?_eq_some_getLast _
  · exact List.head?_eq_some_head _

omit [DecidableEq N] in
/-- Around a place, neither part of the ring meets the node of the other. -/
theorem Between.apart (h : Between root front back first second)
    (hnodup : (root :: (front ++ back)).Nodup) :
    first ∉ (root :: front).dropLast ∧ first ∉ (back ++ [root]).dropLast ∧
      second ∉ (root :: front).tail ∧ second ∉ (back ++ [root]).tail := by
  rw [← List.cons_append] at hnodup
  obtain ⟨hfront, hback, hdisjoint⟩ := List.nodup_append.mp hnodup
  have hroot : root ∉ back := fun hmem ↦ hdisjoint root (List.mem_cons_self ..) root hmem rfl
  have hbackRoot : (back ++ [root]).Nodup := by
    rw [List.nodup_append]
    refine ⟨hback, List.nodup_singleton root, ?_⟩
    intro a ha b hb
    rw [List.mem_singleton.mp hb]
    exact fun hsame ↦ hroot (hsame ▸ ha)
  refine ⟨getLast_notMem_dropLast hfront h.last, ?_, ?_, head_notMem_tail hbackRoot h.head⟩
  · rw [List.dropLast_concat]
    intro hmem
    exact hdisjoint first (List.mem_of_getLast? h.last) first hmem rfl
  · rw [List.tail_cons]
    intro hmem
    rcases List.mem_append.mp (List.mem_of_head? h.head) with hsecond | hsecond
    · exact hdisjoint second (List.mem_cons_of_mem _ hmem) second hsecond rfl
    · rw [List.mem_singleton.mp hsecond] at hmem
      exact (List.nodup_cons.mp hfront).1 hmem

/-- A node is taken out by joining its neighbours. -/
theorem Holds.remove (h : Holds ring root (front ++ node :: back)) :
    Holds (ring.join (ring.prev node) (ring.next node)) root (front ++ back) := by
  obtain ⟨first, second, hbetween⟩ := exists_between root front back
  have hnodup : (root :: (front ++ back)).Nodup := by
    refine h.nodup.sublist ?_
    exact ((List.Sublist.refl front).append (List.sublist_cons_self node back)).cons_cons root
  have hlinked : ((root :: front) ++ node :: (back ++ [root])).IsChain ring.Adjacent := by
    simpa using h.linked
  obtain ⟨hfront, hrest, hbefore⟩ := List.isChain_append.mp hlinked
  obtain ⟨hafter, hback⟩ := List.isChain_cons.mp hrest
  have hprev : ring.prev node = first := (hbefore first hbetween.last node rfl).2
  have hnext : ring.next node = second := (hafter second hbetween.head).1
  obtain ⟨hfirst, hfirst', hsecond, hsecond'⟩ := hbetween.apart hnodup
  refine ⟨hnodup, ?_⟩
  rw [hprev, hnext, List.cons_append, List.append_assoc, ← List.cons_append]
  exact isChain_append_of_join hfront hback hbetween.last hbetween.head hfirst hfirst' hsecond
    hsecond'

/-- A new node is put in by joining it to the nodes around its place. -/
theorem Holds.insert (h : Holds ring root (front ++ back)) (hnew : node ∉ root :: (front ++ back))
    (hbetween : Between root front back first second) :
    Holds ((ring.join first node).join node second) root (front ++ node :: back) := by
  obtain ⟨hfirst, hfirst', hsecond, hsecond'⟩ := hbetween.apart h.nodup
  have hnodup : (root :: (front ++ node :: back)).Nodup := by
    have hperm : (root :: (front ++ node :: back)).Perm (node :: root :: (front ++ back)) :=
      (List.perm_middle.cons root).trans (List.Perm.swap ..)
    exact hperm.nodup_iff.mpr (List.nodup_cons.mpr ⟨hnew, h.nodup⟩)
  have hlinked : ((root :: front) ++ (back ++ [root])).IsChain ring.Adjacent := by
    simpa using h.linked
  obtain ⟨hfront, hback, -⟩ := List.isChain_append.mp hlinked
  have hnewFront : node ∉ root :: front := by
    intro hmem
    exact hnew (by
      rcases List.mem_cons.mp hmem with rfl | hmem
      · exact List.mem_cons_self ..
      · exact List.mem_cons_of_mem _ (List.mem_append_left _ hmem))
  have hnewBack : node ∉ back ++ [root] := by
    intro hmem
    exact hnew (by
      rcases List.mem_append.mp hmem with hmem | hmem
      · exact List.mem_cons_of_mem _ (List.mem_append_right _ hmem)
      · rw [List.mem_singleton.mp hmem]
        exact List.mem_cons_self ..)
  -- first the new node goes to the end of the front, then the back goes behind it
  have hgrown : ((root :: front) ++ [node]).IsChain (ring.join first node).Adjacent :=
    isChain_append_of_join hfront (.singleton node) hbetween.last rfl hfirst (by simp)
      (fun hmem ↦ hnewFront (List.mem_of_mem_tail hmem)) (by simp)
  have hkept : (back ++ [root]).IsChain (ring.join first node).Adjacent :=
    isChain_of_join hback hfirst' fun hmem ↦ hnewBack (List.mem_of_mem_tail hmem)
  refine ⟨hnodup, ?_⟩
  have hresult : ((root :: front) ++ [node] ++ (back ++ [root])).IsChain
      ((ring.join first node).join node second).Adjacent := by
    refine isChain_append_of_join hgrown hkept List.getLast?_concat hbetween.head ?_ ?_ ?_ hsecond'
    · rw [List.dropLast_concat]
      exact hnewFront
    · intro hmem
      exact hnewBack (List.dropLast_subset _ hmem)
    · rw [List.cons_append, List.tail_cons]
      intro hmem
      rcases List.mem_append.mp hmem with hmem | hmem
      · exact hsecond (by rwa [List.tail_cons])
      · rw [List.mem_singleton] at hmem
        exact hnewBack (hmem ▸ List.mem_of_head? hbetween.head)
  simpa using hresult

omit [DecidableEq N] in
theorem Holds.behind {nodes : List N} (h : Holds ring root nodes) :
    Between root nodes [] (ring.prev root) root := by
  refine ⟨?_, rfl⟩
  obtain ⟨-, -, hlast⟩ := List.isChain_append.mp h.linked
  have hend := List.getLast?_eq_some_getLast (List.cons_ne_nil root nodes)
  rw [hend, (hlast _ hend root rfl).2]

omit [DecidableEq N] in
theorem Holds.before {nodes : List N} (h : Holds ring root nodes) :
    Between root [] nodes root (ring.next root) := by
  refine ⟨rfl, ?_⟩
  have hlinked : (root :: (nodes ++ [root])).IsChain ring.Adjacent := h.linked
  obtain ⟨hfirst, -⟩ := List.isChain_cons.mp hlinked
  have hstart : (nodes ++ [root]).head? = some ((nodes ++ [root]).head (by simp)) :=
    List.head?_eq_some_head _
  rw [hstart, (hfirst _ hstart).1]

theorem Holds.walk {nodes : List N} (h : Holds ring root nodes) {fuel : ℕ}
    (hfuel : nodes.length < fuel) : ring.walk root fuel (ring.next root) = nodes := by
  have hwalk : ∀ (rest : List N) (start : N) (fuel : ℕ), root ∉ rest → rest.length < fuel →
      (start :: rest ++ [root]).IsChain ring.Adjacent →
        ring.walk root fuel (ring.next start) = rest := by
    intro rest
    induction rest with
    | nil =>
      intro start fuel _ hfuel hchain
      obtain ⟨hlink, -⟩ := List.isChain_cons_cons.mp hchain
      obtain ⟨fuel, rfl⟩ := Nat.exists_eq_succ_of_ne_zero (Nat.ne_of_gt hfuel)
      rw [Links.walk, hlink.1, if_pos rfl]
    | cons node rest ih =>
      intro start fuel hroot hfuel hchain
      obtain ⟨hlink, hrest⟩ := List.isChain_cons_cons.mp hchain
      obtain ⟨fuel, rfl⟩ := Nat.exists_eq_succ_of_ne_zero (Nat.ne_of_gt (Nat.zero_lt_of_lt hfuel))
      have hnode : node ≠ root := fun hsame ↦ hroot (hsame ▸ List.mem_cons_self ..)
      rw [Links.walk, hlink.1, if_neg hnode,
        ih node fuel (fun hmem ↦ hroot (List.mem_cons_of_mem _ hmem))
          (Nat.lt_of_succ_lt_succ hfuel) hrest]
  exact hwalk nodes root fuel (List.nodup_cons.mp h.nodup).1 hfuel h.linked

end Operations

end Wispr.Foundation.LinkedRing
