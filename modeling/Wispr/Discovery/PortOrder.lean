import Wispr.Discovery.Probing
import Wispr.Foundation.LinkedRing

/-!
# The linked nodes under the ports

`PortDataState` of `ryu/topology/switches.py` as the class keeps it: a dictionary of the port data,
a ring of node objects with their keys, and a dictionary from a key to its node. Every sequence of
calls has the answers of the list of `Ports`, and `items` returns that list; so it does in every run
of the discovery service.
-/

namespace Wispr.Discovery.PortOrder

open Foundation.LinkedRing Controller.Paths Lldp Ports Switches Probing

/-- `_root`, the first node made. -/
def root : ℕ := 0

/-- The attributes of a `PortDataState`. Nodes are numbered in the order they are made. -/
structure PortLinks where
  ring : Links ℕ
  key : ℕ → Option LinkEnd
  fresh : ℕ
  map : LinkEnd → Option ℕ
  data : LinkEnd → Option PortData

namespace PortLinks

/-- `__init__`: the root is linked to itself. -/
def init : PortLinks where
  ring := ⟨fun _ ↦ root, fun _ ↦ root⟩
  key := fun _ ↦ none
  fresh := root + 1
  map := fun _ ↦ none
  data := fun _ ↦ none

/-- `self[port] = data`, the dictionary entry of a port. -/
def put (links : PortLinks) (port : LinkEnd) (data : PortData) : PortLinks :=
  { links with data := Function.update links.data port (some data) }

/-- `_remove_key`; absent on a `KeyError`. -/
def removeKey (links : PortLinks) (port : LinkEnd) : Option PortLinks :=
  (links.map port).map fun node ↦
    { links with
      ring := links.ring.join (links.ring.prev node) (links.ring.next node)
      map := Function.update links.map port none }

/-- A new node of a key between two nodes. -/
def insertKey (links : PortLinks) (port : LinkEnd) (linkPrev linkNext : ℕ) : PortLinks :=
  { links with
    ring := (links.ring.join linkPrev links.fresh).join links.fresh linkNext
    key := Function.update links.key links.fresh (some port)
    fresh := links.fresh + 1
    map := Function.update links.map port (some links.fresh) }

/-- `_append_key`. -/
def appendKey (links : PortLinks) (port : LinkEnd) : PortLinks :=
  links.insertKey port (links.ring.prev root) root

/-- `_prepend_key`. -/
def prependKey (links : PortLinks) (port : LinkEnd) : PortLinks :=
  links.insertKey port root (links.ring.next root)

/-- `_move_last_key`. -/
def moveLastKey (links : PortLinks) (port : LinkEnd) : Option PortLinks :=
  (links.removeKey port).map fun links ↦ links.appendKey port

/-- `_move_front_key`. -/
def moveFrontKey (links : PortLinks) (port : LinkEnd) : Option PortLinks :=
  (links.removeKey port).map fun links ↦ links.prependKey port

/-- `add_port`. -/
def addPort (links : PortLinks) (port : LinkEnd) (isDown : Bool) (lldpData : Bytes) : PortLinks :=
  match links.data port with
  | none => (links.prependKey port).put port ⟨isDown, lldpData, none, 0⟩
  | some data => links.put port { data with isDown := isDown }

/-- `lldp_sent`; absent on a `KeyError`. -/
def lldpSent (links : PortLinks) (port : LinkEnd) (now : ℤ) : Option (PortData × PortLinks) := do
  let data ← links.data port
  let data := { data with timestamp := some now, sent := data.sent + 1 }
  let links ← (links.put port data).moveLastKey port
  return (data, links)

/-- `lldp_received`; absent on a `KeyError`. -/
def lldpReceived (links : PortLinks) (port : LinkEnd) : Option PortLinks := do
  let data ← links.data port
  return links.put port { data with sent := 0 }

/-- `move_front`. -/
def moveFront (links : PortLinks) (port : LinkEnd) : Option PortLinks :=
  match links.data port with
  | none => some links
  | some data => (links.put port { data with timestamp := none }).moveFrontKey port

/-- `set_down`; absent on a `KeyError`. -/
def setDown (links : PortLinks) (port : LinkEnd) (isDown : Bool) : Option PortLinks := do
  let data ← links.data port
  let links := links.put port { data with isDown := isDown, timestamp := none }
  if isDown then return links
  links.moveFrontKey port

/-- `del_port`; absent on a `KeyError`. -/
def delPort (links : PortLinks) (port : LinkEnd) : Option PortLinks := do
  let _ ← links.data port
  { links with data := Function.update links.data port none }.removeKey port

/-- `items`, over at most as many nodes as the fuel allows; absent on a `KeyError`. -/
def items (links : PortLinks) (fuel : ℕ) : Option PortDataState :=
  (links.ring.walk root fuel (links.ring.next root)).mapM fun node ↦ do
    let key ← links.key node
    let data ← links.data key
    return (key, data)

@[simp] theorem put_data (links : PortLinks) (port : LinkEnd) (data : PortData) :
    (links.put port data).data = Function.update links.data port (some data) := rfl

/-- The node of a port that has one. -/
def node (links : PortLinks) (port : LinkEnd) : ℕ := (links.map port).getD root

end PortLinks

/-- The ring holds the nodes of the ports in their order, and each node has its port as its key. -/
structure InOrder (links : PortLinks) (ports : List LinkEnd) : Prop where
  holds : Holds links.ring root (ports.map links.node)
  named : ∀ port ∈ ports, ∃ node, links.map port = some node ∧ links.key node = some port ∧
    node < links.fresh
  started : root < links.fresh

variable {links after : PortLinks} {port : LinkEnd} {ports front back : List LinkEnd}

theorem inOrder_init : InOrder .init [] where
  holds := ⟨by simp, by simp [PortLinks.init, Links.Adjacent]⟩
  named := by simp
  started := Nat.zero_lt_one

theorem InOrder.nodup (h : InOrder links ports) : ports.Nodup :=
  .of_map links.node (List.nodup_cons.mp h.holds.nodup).2

theorem InOrder.node_eq (h : InOrder links ports) (hport : port ∈ ports) :
    links.map port = some (links.node port) := by
  obtain ⟨node, hnode, -⟩ := h.named port hport
  rw [PortLinks.node, hnode, Option.getD_some]

/-- Nodes in order stay so when only the dictionary of the data changes. -/
theorem InOrder.withData (h : InOrder links ports) (data : LinkEnd → Option PortData) :
    InOrder { links with data := data } ports := ⟨h.holds, h.named, h.started⟩

/-- `_remove_key` takes the node of the port out and no other. -/
theorem InOrder.removeKey (h : InOrder links (front ++ port :: back)) :
    ∃ after, links.removeKey port = some after ∧ after.data = links.data ∧
      InOrder after (front ++ back) := by
  have hnode := h.node_eq (List.mem_append_right front (List.mem_cons_self ..))
  have hport : port ∉ front ++ back := by
    have hnodup := h.nodup
    rw [List.nodup_middle] at hnodup
    exact (List.nodup_cons.mp hnodup).1
  have hothers : ∀ other ∈ front ++ back, Function.update links.map port none other =
      links.map other :=
    fun other hother ↦ Function.update_of_ne (ne_of_mem_of_not_mem hother hport) ..
  refine ⟨_, congrArg (Option.map _) hnode, rfl, ?_, ?_, h.started⟩
  · have hholds := h.holds
    rw [List.map_append, List.map_cons] at hholds
    have hrest := hholds.remove
    rw [← List.map_append] at hrest
    convert hrest using 1
    refine List.map_congr_left fun other hother ↦ ?_
    simp only [PortLinks.node, hothers other hother]
  · intro other hother
    have hmem : other ∈ front ++ port :: back := by
      rcases List.mem_append.mp hother with hother | hother
      · exact List.mem_append_left _ hother
      · exact List.mem_append_right _ (List.mem_cons_of_mem _ hother)
    obtain ⟨node, hmap, hkey⟩ := h.named other hmem
    exact ⟨node, (hothers other hother).trans hmap, hkey⟩

/-- A node for a new port goes to the place it is linked into. -/
theorem InOrder.insertKey {linkPrev linkNext : ℕ} (h : InOrder links (front ++ back))
    (hport : port ∉ front ++ back)
    (hbetween : Between root (front.map links.node) (back.map links.node) linkPrev linkNext) :
    InOrder (links.insertKey port linkPrev linkNext) (front ++ port :: back) := by
  have hold : ∀ other ∈ front ++ back, links.node other < links.fresh := by
    intro other hother
    obtain ⟨node, hmap, -, hfresh⟩ := h.named other hother
    rwa [PortLinks.node, hmap, Option.getD_some]
  have hsame : ∀ other ∈ front ++ back,
      (links.insertKey port linkPrev linkNext).node other = links.node other := by
    intro other hother
    simp only [PortLinks.node, PortLinks.insertKey]
    rw [Function.update_of_ne (ne_of_mem_of_not_mem hother hport)]
  have hself : (links.insertKey port linkPrev linkNext).node port = links.fresh := by
    simp [PortLinks.node, PortLinks.insertKey]
  have hnew : links.fresh ∉ root :: (front.map links.node ++ back.map links.node) := by
    rw [← List.map_append, List.mem_cons, List.mem_map]
    rintro (hroot | ⟨other, hother, hfresh⟩)
    · exact absurd h.started (by rw [← hroot]; exact lt_irrefl _)
    · exact (hold other hother).ne hfresh
  refine ⟨?_, ?_, Nat.lt_succ_of_lt h.started⟩
  · have hholds := h.holds
    rw [List.map_append] at hholds
    have hnodes : (front ++ port :: back).map (links.insertKey port linkPrev linkNext).node =
        front.map links.node ++ links.fresh :: back.map links.node := by
      rw [List.map_append, List.map_cons, hself]
      congr 1
      · exact List.map_congr_left fun other hother ↦ hsame other (List.mem_append_left _ hother)
      · congr 1
        exact List.map_congr_left fun other hother ↦ hsame other (List.mem_append_right _ hother)
    rw [hnodes]
    exact hholds.insert hnew hbetween
  · intro other hother
    by_cases hsamePort : other = port
    · subst hsamePort
      exact ⟨links.fresh, Function.update_self .., Function.update_self .., Nat.lt_succ_self _⟩
    · have hmem : other ∈ front ++ back := by
        rcases List.mem_append.mp hother with hother | hother
        · exact List.mem_append_left _ hother
        · exact List.mem_append_right _ ((List.mem_cons.mp hother).resolve_left hsamePort)
      obtain ⟨node, hmap, hkey, hfresh⟩ := h.named other hmem
      exact ⟨node, (Function.update_of_ne hsamePort ..).trans hmap,
        (Function.update_of_ne hfresh.ne ..).trans hkey, Nat.lt_succ_of_lt hfresh⟩

theorem InOrder.appendKey (h : InOrder links ports) (hport : port ∉ ports) :
    InOrder (links.appendKey port) (ports ++ [port]) := by
  refine InOrder.insertKey (by rwa [List.append_nil]) (by rwa [List.append_nil]) ?_
  exact h.holds.behind

theorem InOrder.prependKey (h : InOrder links ports) (hport : port ∉ ports) :
    InOrder (links.prependKey port) (port :: ports) :=
  @InOrder.insertKey links port [] ports root _ h hport h.holds.before

/-! ## The list it stands for -/

/-- The nodes are those of the list in its order, and the dictionary has its data. -/
structure Represents (links : PortLinks) (state : PortDataState) : Prop where
  order : InOrder links (state.map Prod.fst)
  data : ∀ port, links.data port = state.get? port

variable {state : PortDataState} {data : PortData}

theorem get?_of_mem {item : LinkEnd × PortData} (hnodup : (state.map Prod.fst).Nodup)
    (hitem : item ∈ state) : state.get? item.1 = some item.2 := by
  induction state with
  | nil => cases hitem
  | cons first rest ih =>
    rw [List.map_cons, List.nodup_cons] at hnodup
    rw [PortDataState.get?, List.lookup_cons]
    rcases List.mem_cons.mp hitem with rfl | hitem
    · simp
    · have hother : item.1 ≠ first.1 := fun hsame ↦
        hnodup.1 (hsame ▸ List.mem_map_of_mem hitem)
      rw [beq_false_of_ne hother]
      exact ih hnodup.2 hitem

theorem get?_eq_none_iff : state.get? port = none ↔ port ∉ state.map Prod.fst := by
  rw [PortDataState.get?, List.lookup_eq_none_iff, List.mem_map]
  simp only [bne_iff_ne, ne_eq]
  constructor
  · rintro h ⟨item, hitem, rfl⟩
    exact h item hitem rfl
  · rintro h item hitem rfl
    exact h ⟨item, hitem, rfl⟩

theorem get?_cons (item : LinkEnd × PortData) (rest : PortDataState) (port : LinkEnd) :
    PortDataState.get? (item :: rest) port =
      if port = item.1 then some item.2 else rest.get? port := by
  rw [PortDataState.get?, List.lookup_cons]
  split
  · rename_i hsame
    rw [if_pos (by simpa using hsame)]
  · rename_i hother
    rw [if_neg (by simpa using hother)]
    rfl

theorem get?_concat (state : PortDataState) (port other : LinkEnd) (data : PortData) :
    PortDataState.get? (state ++ [(port, data)]) other =
      (state.get? other).or (if other = port then some data else none) := by
  induction state with
  | nil => rw [List.nil_append, get?_cons]; rfl
  | cons item rest ih =>
    rw [List.cons_append, get?_cons, get?_cons, ih]
    split
    · rw [Option.some_or]
    · rfl

theorem get?_modify (state : PortDataState) (port other : LinkEnd) (change : PortData → PortData) :
    (state.modify port change).get? other =
      if other = port then (state.get? other).map change else state.get? other := by
  induction state with
  | nil => simp [PortDataState.modify, PortDataState.get?]
  | cons item rest ih =>
    rw [PortDataState.modify, List.map_cons, get?_cons, get?_cons]
    rw [PortDataState.modify] at ih
    by_cases hitem : other = item.1
    · subst hitem
      by_cases hport : item.1 = port <;> simp [hport]
    · have hkept : (if item.1 = port then (item.1, change item.2) else item).1 = item.1 := by
        split <;> rfl
      rw [hkept, if_neg hitem, if_neg hitem]
      exact ih

theorem get?_without (state : PortDataState) (port other : LinkEnd) :
    (state.without port).get? other = if other = port then none else state.get? other := by
  induction state with
  | nil => simp [PortDataState.without, PortDataState.get?]
  | cons item rest ih =>
    rw [PortDataState.without] at ih
    rw [PortDataState.without, List.filter_cons, get?_cons]
    by_cases hitem : item.1 = port
    · rw [if_neg (by simpa using hitem), ih]
      by_cases hother : other = port
      · rw [if_pos hother, if_pos hother]
      · rw [if_neg hother, if_neg hother, if_neg (hitem ▸ hother)]
    · rw [if_pos (by simpa using hitem), get?_cons, ih]
      by_cases hother : other = port
      · rw [if_pos hother, if_pos hother, if_neg fun hsame ↦ hitem (hsame.symm.trans hother)]
      · rw [if_neg hother, if_neg hother]

theorem keys_modify (state : PortDataState) (port : LinkEnd) (change : PortData → PortData) :
    (state.modify port change).map Prod.fst = state.map Prod.fst := by
  rw [PortDataState.modify, List.map_map]
  refine List.map_congr_left fun item _ ↦ ?_
  rw [Function.comp_apply]
  split <;> rfl

theorem keys_without (state : PortDataState) (port : LinkEnd) :
    (state.without port).map Prod.fst = (state.map Prod.fst).filter (· ≠ port) := by
  rw [PortDataState.without, List.filter_map]
  rfl

theorem represents_init : Represents .init [] := ⟨inOrder_init, fun _ ↦ rfl⟩

theorem mapM_self {α : Type} {read : α → Option α} {items : List α}
    (h : ∀ item ∈ items, read item = some item) : items.mapM read = some items := by
  induction items with
  | nil => rfl
  | cons item rest ih =>
    rw [List.mapM_cons, h item (List.mem_cons_self ..),
      ih fun other hother ↦ h other (List.mem_cons_of_mem _ hother)]
    rfl

/-- `items` of the linked nodes is the list. -/
theorem Represents.items (h : Represents links state) {fuel : ℕ} (hfuel : state.length < fuel) :
    links.items fuel = some state := by
  have hlength : ((state.map Prod.fst).map links.node).length < fuel := by simpa using hfuel
  rw [PortLinks.items, h.order.holds.walk hlength, List.map_map, List.mapM_map]
  refine mapM_self fun item hitem ↦ ?_
  obtain ⟨node, hmap, hkey, -⟩ := h.order.named item.1 (List.mem_map_of_mem hitem)
  have hnode : links.node item.1 = node := by rw [PortLinks.node, hmap, Option.getD_some]
  have hdata : links.data item.1 = some item.2 := by
    rw [h.data, get?_of_mem h.order.nodup hitem]
  simp only [Function.comp_apply, hnode, hkey, hdata, Option.bind_eq_bind, Option.bind_some]
  rfl

/-- The keys around a known port, and without it. -/
theorem keys_around (hnodup : (state.map Prod.fst).Nodup) (hport : state.get? port = some data) :
    ∃ front back, state.map Prod.fst = front ++ port :: back ∧
      (state.without port).map Prod.fst = front ++ back := by
  have hmem : port ∈ state.map Prod.fst := List.mem_map_of_mem (mem_of_get? hport)
  obtain ⟨front, back, hkeys⟩ := List.append_of_mem hmem
  refine ⟨front, back, hkeys, ?_⟩
  rw [hkeys, List.nodup_middle, List.nodup_cons] at hnodup
  have hothers : ∀ other ∈ front ++ back, other ≠ port :=
    fun other hother ↦ ne_of_mem_of_not_mem hother hnodup.1
  rw [keys_without, hkeys, List.filter_append, List.filter_cons, if_neg (by simp),
    ← List.filter_append, List.filter_eq_self]
  exact fun other hother ↦ decide_eq_true (hothers other hother)

/-- New data of a known port, where it is. -/
theorem Represents.put (h : Represents links state) (hport : state.get? port = some data)
    (change : PortData → PortData) :
    Represents (links.put port (change data)) (state.modify port change) := by
  constructor
  · rw [keys_modify]
    exact h.order.withData _
  · intro other
    rw [get?_modify, PortLinks.put_data]
    by_cases hother : other = port
    · rw [if_pos hother, hother, hport, Function.update_self, Option.map_some]
    · rw [if_neg hother, Function.update_of_ne hother, h.data]

/-- Without a known port the dictionary and the nodes are those of the other ports. -/
theorem Represents.remove (h : Represents links state) (hport : state.get? port = some data)
    (table : LinkEnd → Option PortData) :
    ∃ rest, { links with data := table }.removeKey port = some rest ∧ rest.data = table ∧
      InOrder rest ((state.without port).map Prod.fst) ∧
      port ∉ (state.without port).map Prod.fst := by
  obtain ⟨front, back, hkeys, hwithout⟩ := keys_around h.order.nodup hport
  have horder := h.order.withData table
  rw [hkeys] at horder
  obtain ⟨rest, hrest, hdata, hinOrder⟩ := horder.removeKey
  refine ⟨rest, hrest, hdata, hwithout ▸ hinOrder, ?_⟩
  rw [← get?_eq_none_iff, get?_without, if_pos rfl]

theorem Represents.moveLast (h : Represents links state) {old : PortData}
    (hport : state.get? port = some old) (data : PortData) :
    ∃ after, (links.put port data).moveLastKey port = some after ∧
      Represents after (state.without port ++ [(port, data)]) := by
  obtain ⟨rest, hrest, hdata, horder, hnew⟩ :=
    h.remove hport (Function.update links.data port (some data))
  refine ⟨rest.appendKey port, congrArg (Option.map _) hrest, ?_, ?_⟩
  · rw [List.map_append]
    exact horder.appendKey hnew
  · intro other
    have hkept : (rest.appendKey port).data = rest.data := rfl
    rw [hkept, hdata, get?_concat, get?_without]
    by_cases hother : other = port
    · rw [if_pos hother, if_pos hother, hother, Function.update_self, Option.none_or]
    · rw [if_neg hother, if_neg hother, Function.update_of_ne hother, h.data, Option.or_none]

theorem Represents.moveFront (h : Represents links state) {old : PortData}
    (hport : state.get? port = some old) (data : PortData) :
    ∃ after, (links.put port data).moveFrontKey port = some after ∧
      Represents after ((port, data) :: state.without port) := by
  obtain ⟨rest, hrest, hdata, horder, hnew⟩ :=
    h.remove hport (Function.update links.data port (some data))
  refine ⟨rest.prependKey port, congrArg (Option.map _) hrest, horder.prependKey hnew, ?_⟩
  intro other
  have hkept : (rest.prependKey port).data = rest.data := rfl
  rw [hkept, hdata, get?_cons, get?_without]
  by_cases hother : other = port
  · rw [if_pos hother, hother, Function.update_self]
  · rw [if_neg hother, if_neg hother, Function.update_of_ne hother, h.data]

/-- The calls of the discovery service. -/
inductive Call where
  | addPort (port : LinkEnd) (isDown : Bool) (lldpData : Bytes)
  | lldpSent (port : LinkEnd) (now : ℤ)
  | lldpReceived (port : LinkEnd)
  | moveFront (port : LinkEnd)
  | setDown (port : LinkEnd) (isDown : Bool)
  | getPort (port : LinkEnd)
  | delPort (port : LinkEnd)

/-- A call on the linked nodes: the port data it returns, if any, and the state it leaves. Absent on
a `KeyError`. -/
def PortLinks.call (links : PortLinks) : Call → Option (Option PortData × PortLinks)
  | .addPort port isDown lldpData => some (none, links.addPort port isDown lldpData)
  | .lldpSent port now => (links.lldpSent port now).map fun (data, links) ↦ (some data, links)
  | .lldpReceived port => (links.lldpReceived port).map fun links ↦ (none, links)
  | .moveFront port => (links.moveFront port).map fun links ↦ (none, links)
  | .setDown port isDown => (links.setDown port isDown).map fun links ↦ (none, links)
  | .getPort port => (links.data port).map fun data ↦ (some data, links)
  | .delPort port => (links.delPort port).map fun links ↦ (none, links)

/-- The same call on the list. -/
def callList (state : PortDataState) : Call → Option (Option PortData × PortDataState)
  | .addPort port isDown lldpData => some (none, state.addPort port isDown lldpData)
  | .lldpSent port now => (state.lldpSent port now).map fun (data, state) ↦ (some data, state)
  | .lldpReceived port => (state.get? port).map fun _ ↦ (none, state.lldpReceived port)
  | .moveFront port => some (none, state.moveFront port)
  | .setDown port isDown => (state.setDown port isDown).map fun state ↦ (none, state)
  | .getPort port => (state.get? port).map fun data ↦ (some data, state)
  | .delPort port => (state.delPort port).map fun state ↦ (none, state)

/-- Both results of a call: neither is there, or both return the same and leave states of which one
stands for the other. -/
def SameResult (found : Option (Option PortData × PortLinks))
    (expected : Option (Option PortData × PortDataState)) : Prop :=
  Option.Rel (fun result wanted ↦ result.1 = wanted.1 ∧ Represents result.2 wanted.2) found expected

variable {found : Option (Option PortData × PortLinks)}
  {expected : Option (Option PortData × PortDataState)}

theorem SameResult.returned (h : SameResult found expected) :
    found.map Prod.fst = expected.map Prod.fst := by
  cases h with
  | none => rfl
  | some hsame => exact congrArg some hsame.1

theorem SameResult.left (h : SameResult found expected) (hbefore : Represents links state) :
    Represents ((found.map Prod.snd).getD links) ((expected.map Prod.snd).getD state) := by
  cases h with
  | none => exact hbefore
  | some hsame => exact hsame.2

theorem Represents.addPort (h : Represents links state) (port : LinkEnd) (isDown : Bool)
    (lldpData : Bytes) :
    Represents (links.addPort port isDown lldpData) (state.addPort port isDown lldpData) := by
  rw [PortLinks.addPort, PortDataState.addPort, h.data]
  cases hport : state.get? port with
  | none =>
    refine ⟨(h.order.prependKey (get?_eq_none_iff.mp hport)).withData _, ?_⟩
    intro other
    have hkept : (links.prependKey port).data = links.data := rfl
    rw [PortLinks.put_data, hkept, get?_cons]
    by_cases hother : other = port
    · rw [if_pos hother, hother, Function.update_self]
    · rw [if_neg hother, Function.update_of_ne hother, h.data]
  | some data => exact h.put hport fun data ↦ { data with isDown := isDown }

/-- Every call has the same result on both. A `KeyError` comes from the dictionary of the data
before anything is changed, never from the nodes. -/
theorem Represents.call (h : Represents links state) (call : Call) :
    SameResult (links.call call) (callList state call) := by
  cases call with
  | addPort port isDown lldpData => exact .some ⟨rfl, h.addPort port isDown lldpData⟩
  | lldpSent port now =>
    simp only [PortLinks.call, callList, PortLinks.lldpSent, PortDataState.lldpSent, h.data]
    cases hport : state.get? port with
    | none => exact .none
    | some data =>
      obtain ⟨after, hafter, hsame⟩ := h.moveLast hport
        { data with timestamp := some now, sent := data.sent + 1 }
      simp only [Option.bind_eq_bind, Option.bind_some, hafter]
      exact .some ⟨rfl, hsame⟩
  | lldpReceived port =>
    simp only [PortLinks.call, callList, PortLinks.lldpReceived, h.data]
    cases hport : state.get? port with
    | none => exact .none
    | some data => exact .some ⟨rfl, h.put hport fun data ↦ { data with sent := 0 }⟩
  | moveFront port =>
    simp only [PortLinks.call, callList, PortLinks.moveFront, PortDataState.moveFront, h.data]
    cases hport : state.get? port with
    | none => exact .some ⟨rfl, h⟩
    | some data =>
      obtain ⟨after, hafter, hsame⟩ := h.moveFront hport { data with timestamp := none }
      simp only [hafter]
      exact .some ⟨rfl, hsame⟩
  | setDown port isDown =>
    simp only [PortLinks.call, callList, PortLinks.setDown, PortDataState.setDown, h.data]
    cases hport : state.get? port with
    | none => exact .none
    | some data =>
      cases isDown with
      | true =>
        exact .some ⟨rfl, h.put hport fun data ↦ { data with isDown := true, timestamp := none }⟩
      | false =>
        obtain ⟨after, hafter, hsame⟩ := h.moveFront hport
          { data with isDown := false, timestamp := none }
        simp only [Option.bind_eq_bind, Option.bind_some, hafter]
        exact .some ⟨rfl, hsame⟩
  | getPort port =>
    simp only [PortLinks.call, callList, h.data]
    cases hport : state.get? port with
    | none => exact .none
    | some data => exact .some ⟨rfl, h⟩
  | delPort port =>
    simp only [PortLinks.call, callList, PortLinks.delPort, PortDataState.delPort, h.data]
    cases hport : state.get? port with
    | none => exact .none
    | some data =>
      obtain ⟨rest, hrest, hdata, horder, -⟩ :=
        h.remove hport (Function.update links.data port none)
      simp only [Option.bind_eq_bind, Option.bind_some, hrest]
      refine .some ⟨rfl, horder, ?_⟩
      intro other
      simp only [hdata, get?_without]
      by_cases hother : other = port
      · rw [if_pos hother, hother, Function.update_self]
      · rw [if_neg hother, Function.update_of_ne hother, h.data]

/-- The state after the calls. The callers go on after a `KeyError`. -/
def stateAfter {σ : Type} (perform : σ → Call → Option (Option PortData × σ)) (state : σ)
    (calls : List Call) : σ :=
  calls.foldl (fun state call ↦ ((perform state call).map Prod.snd).getD state) state

theorem represents_after (calls : List Call) :
    Represents (stateAfter PortLinks.call .init calls) (stateAfter callList [] calls) := by
  refine List.foldl_rel represents_init ?_
  intro call _ links state h
  exact (h.call call).left h

/-- After any calls the linked nodes are those of the list: the loop over `items` ends and returns
the list, and every further call returns the same or fails on both. -/
theorem ports_in_linked_order (calls : List Call) :
    (∀ fuel, (stateAfter callList [] calls).length < fuel →
        (stateAfter PortLinks.call .init calls).items fuel = some (stateAfter callList [] calls)) ∧
      ∀ call, ((stateAfter PortLinks.call .init calls).call call).map Prod.fst =
        (callList (stateAfter callList [] calls) call).map Prod.fst := by
  have h := represents_after calls
  exact ⟨fun fuel hfuel ↦ h.items hfuel, fun call ↦ (h.call call).returned⟩

theorem stateAfter_append {σ : Type} (perform : σ → Call → Option (Option PortData × σ)) (first : σ)
    (calls : List Call) (call : Call) :
    stateAfter perform first (calls ++ [call]) =
      ((perform (stateAfter perform first calls) call).map Prod.snd).getD
        (stateAfter perform first calls) := by
  rw [stateAfter, stateAfter, List.foldl_append, List.foldl_cons, List.foldl_nil]

theorem modify_unknown (h : state.get? port = none) (change : PortData → PortData) :
    state.modify port change = state := by
  rw [PortDataState.modify]
  conv_rhs => rw [← List.map_id state]
  refine List.map_congr_left fun item hitem ↦ ?_
  have hother : item.1 ≠ port := by
    rintro rfl
    exact get?_eq_none_iff.mp h (List.mem_map_of_mem hitem)
  rw [if_neg hother, id]

/-- Each change of the ports is a call. -/
theorem Change.call {frame : LinkEnd → Bytes → Prop} {time : ℤ → Prop} {next : PortDataState}
    (h : Change frame time state next) :
    ∃ call, ((callList state call).map Prod.snd).getD state = next := by
  cases h with
  | @added port lldpData isDown _ => exact ⟨.addPort port isDown lldpData, rfl⟩
  | received port =>
    refine ⟨.lldpReceived port, ?_⟩
    cases hport : state.get? port with
    | none =>
      rw [callList, hport, PortDataState.lldpReceived, modify_unknown hport]
      rfl
    | some data =>
      rw [callList, hport]
      rfl
  | front port => exact ⟨.moveFront port, rfl⟩
  | @down port isDown _ hdown => exact ⟨.setDown port isDown, by rw [callList, hdown]; rfl⟩
  | @gone port _ hgone => exact ⟨.delPort port, by rw [callList, hgone]; rfl⟩
  | @sent port now _ _ hsent _ => exact ⟨.lldpSent port now, by rw [callList, hsent]; rfl⟩

theorem Changes.calls {frame : LinkEnd → Bytes → Prop} {time : ℤ → Prop} {next : PortDataState}
    (h : Changes frame time state next) {calls : List Call}
    (hstate : stateAfter callList [] calls = state) :
    ∃ calls, stateAfter callList [] calls = next := by
  induction h with
  | refl => exact ⟨calls, hstate⟩
  | tail _ hchange ih =>
    obtain ⟨calls, rfl⟩ := ih
    obtain ⟨call, hcall⟩ := Change.call hchange
    exact ⟨calls ++ [call], (stateAfter_append ..).trans hcall⟩

/-- The ports of the service are those of linked nodes, in every run. -/
theorem history_ports_linked (inputs : List Input) :
    ∃ calls, Represents (stateAfter PortLinks.call .init calls) (history inputs).service.ports := by
  have hcalls : ∃ calls, stateAfter callList [] calls = (history inputs).service.ports := by
    induction inputs using List.reverseRecOn with
    | nil => exact ⟨[], rfl⟩
    | append_singleton inputs input ih =>
      obtain ⟨calls, hpast⟩ := ih
      have hchanges : Changes (fun _ _ ↦ True) (SendsAt input) (history inputs).service.ports
          (step (history inputs).service input).service.ports :=
        step_changes _ _ fun _ _ _ ↦ trivial
      rw [history_append]
      exact Changes.calls hchanges hpast
  obtain ⟨calls, hpast⟩ := hcalls
  exact ⟨calls, hpast ▸ represents_after calls⟩

end Wispr.Discovery.PortOrder
