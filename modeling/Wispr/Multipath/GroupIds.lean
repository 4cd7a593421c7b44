import Wispr.Multipath.Cycles

/-!
# Numbers of groups

`generate_openflow_gid` repeats its draw as long as the number is in `group_ids`, a list that
nothing is ever added to, and draws from a range that ends at `2 ** 32`, beyond the last number
`OFPG_MAX` of a group. So the numbers recorded for the pairs at the switches are the numbers drawn,
one for each new group, and they are valid and different exactly when the draws are. The calls may
have any topologies, orders and draws, and may end with an exception, which keeps what was recorded
before.
-/

open Wispr.Foundation.Effects Wispr.Foundation.FlowTable

namespace Wispr.Multipath.GroupIds

open Controller.Paths Search Groups Tables Cycles
open Controller.Install hiding installPaths

/-- The same numbers are recorded and the same groups are installed. -/
structure SameGroups (network network' : Network) : Prop where
  ids : network'.multipathGroupIds = network.multipathGroupIds
  groups : ∀ node, (network'.switches node).groups = (network.switches node).groups

theorem SameGroups.refl (network : Network) : SameGroups network network := ⟨rfl, fun _ ↦ rfl⟩

theorem SameGroups.trans (network network' network'' : Network) (h : SameGroups network network')
    (h' : SameGroups network' network'') : SameGroups network network'' :=
  ⟨h'.ids.trans h.ids, fun node ↦ (h'.groups node).trans (h.groups node)⟩

/-- A method that neither records numbers nor changes groups. -/
abbrev Quiet {α : Type} (method : Method α) : Prop := Relates SameGroups method

theorem quiet_addFlow (node : Dpid) (priority : ℕ) (condition : OFPMatch) (actions : List Action) :
    Quiet (addFlow node priority condition actions) := by
  apply relates_sendMsg SameGroups.refl
  intro network
  refine ⟨rfl, fun other ↦ ?_⟩
  by_cases hother : other = node
  · rw [hother, setTables_self]
    rfl
  · rw [setTables_of_ne _ _ hother]

theorem quiet_addFlows (call : GroupCall) (node : Dpid) (actions : List Action) :
    Quiet (addFlows call node actions) :=
  (quiet_addFlow node 32768 _ actions).bind SameGroups.trans fun _ ↦ quiet_addFlow node 1 _ actions

theorem quiet_installVlans (topo : TopologyState) (orders : Orders) (call : GroupCall) (vlan : ℕ)
    (paths : List PathPorts) : Quiet (installVlans topo orders call vlan paths) :=
  relates_installVlans SameGroups.refl SameGroups.trans
    (fun _ node _ _ rule _ ↦ quiet_addFlow node rule.priority rule.condition rule.actions) vlan
    paths

/-- A key of `multipath_group_ids`: the switch, the source and the destination. -/
abbrev Key := Dpid × Dpid × Dpid

/-- A row that gets a group: the state when its number is looked up, the number, and whether it was
drawn for it. A new number is sent with `OFPGC_ADD`, a recorded one with `OFPGC_MODIFY`. -/
structure GroupUse where
  before : Network
  key : Key
  groupId : ℕ
  groupNew : Bool

/-- The group of a row. -/
def rowUses (call : GroupCall) (node : Dpid) (draws : List ℕ) (network : Network) :
    List (Port × ℕ) → List GroupUse
  | _ :: _ :: _ =>
      match groupIdFor call node draws network with
      | .ok (groupId, groupNew) _ => [⟨network, (node, call.src, call.dst), groupId, groupNew⟩]
      | .error _ _ => []
  | _ => []

/-- What follows a method has uses only if the method returns. -/
def usesAfter {α : Type} (result : EStateM.Result PyExc Network α)
    (nextUses : Network → List GroupUse) : List GroupUse :=
  match result with
  | .ok _ network => nextUses network
  | .error _ _ => []

/-- The groups of the rows of a switch. -/
def rowsUses (call : GroupCall) (sumOfPw : ℕ) (node : Dpid) (draws : List ℕ) :
    PortRows → Network → List GroupUse
  | [], _ => []
  | row :: rest, network =>
      rowUses call node draws network row.2 ++
        usesAfter (installRow call sumOfPw node draws row.2 network)
          (rowsUses call sumOfPw node draws rest)

/-- The groups of the loop over `switches_in_paths`. -/
def switchesUses (topo : TopologyState) (orders : Orders) (draws : Dpid → List ℕ)
    (call : GroupCall) (sumOfPw : ℕ) (weighted : List (PathPorts × ℕ)) :
    List Dpid → Network → List GroupUse
  | [], _ => []
  | node :: rest, network =>
      usesAfter (datapathOf topo node network) fun network ↦
        rowsUses call sumOfPw node (draws node) (orders.rows node (nodePorts node weighted))
            network ++
          usesAfter (installRows call sumOfPw node (draws node)
            (orders.rows node (nodePorts node weighted)) network)
            (switchesUses topo orders draws call sumOfPw weighted rest)

/-- The entries are the numbers recorded so far, in order, and every group installed at a switch is
one of a pair at that switch. -/
structure Recorded (network : Network) (entries : List (Key × ℕ)) : Prop where
  keys : (entries.map Prod.fst).Nodup
  ids : ∀ key groupId, network.multipathGroupIds key = some groupId ↔ (key, groupId) ∈ entries
  groups : ∀ node groupId, ((network.switches node).groups groupId).isSome →
    ∃ src dst, ((node, src, dst), groupId) ∈ entries

variable {network network' : Network} {entries : List (Key × ℕ)} {key : Key} {groupId : ℕ}

theorem recorded_init : Recorded .init [] where
  keys := List.nodup_nil
  ids key groupId := by simp [Network.init]
  groups node groupId hinstalled := by cases hinstalled

theorem Recorded.of_same (h : Recorded network entries) (hsame : SameGroups network network') :
    Recorded network' entries where
  keys := h.keys
  ids key groupId := by rw [hsame.ids, h.ids]
  groups node groupId hinstalled := by
    rw [hsame.groups] at hinstalled
    exact h.groups node groupId hinstalled

theorem Recorded.not_mem_keys (h : Recorded network entries)
    (hnone : network.multipathGroupIds key = none) : key ∉ entries.map Prod.fst := by
  intro hmem
  obtain ⟨⟨found, groupId⟩, hentry, rfl⟩ := List.mem_map.mp hmem
  rw [(h.ids found groupId).mpr hentry] at hnone
  cases hnone

theorem Recorded.recordGroup (h : Recorded network entries)
    (hnone : network.multipathGroupIds key = none) (groupId : ℕ) :
    Recorded (network.recordGroup key groupId) (entries ++ [(key, groupId)]) where
  keys := by
    rw [List.map_append]
    exact List.nodup_append.mpr ⟨h.keys, List.nodup_singleton key, by
      intro other hother found hfound
      obtain rfl := List.mem_singleton.mp hfound
      exact fun hsame ↦ h.not_mem_keys hnone (hsame ▸ hother)⟩
  ids other id := by
    rw [List.mem_append, List.mem_singleton, Prod.mk.injEq, ← h.ids]
    by_cases hother : other = key
    · simp [Network.recordGroup, hother, hnone, eq_comm]
    · simp [Network.recordGroup, hother]
  groups node id hinstalled := by
    obtain ⟨src, dst, hentry⟩ := h.groups node id hinstalled
    exact ⟨src, dst, List.mem_append_left _ hentry⟩

/-- A group-mod installs nothing but its own group. -/
theorem isSome_of_receive {tables : SwitchTables} {command : GroupCommand} {buckets : List Bucket}
    {other : ℕ}
    (h : ((tables.receive (.groupMod command groupId buckets)).groups other).isSome) :
    other = groupId ∨ (tables.groups other).isSome := by
  by_cases hother : other = groupId
  · exact .inl hother
  · right
    cases command with
    | add =>
      simp only [SwitchTables.receive] at h
      split at h
      · simpa only [Function.update_of_ne hother] using h
      · exact h
    | modify =>
      simp only [SwitchTables.receive] at h
      split at h
      · simpa only [Function.update_of_ne hother] using h
      · exact h

theorem Recorded.sendGroupMod {node src dst : Dpid} (h : Recorded network entries)
    (hentry : ((node, src, dst), groupId) ∈ entries) (command : GroupCommand)
    (buckets : List Bucket) :
    Recorded (network.setTables node
      ((network.switches node).receive (.groupMod command groupId buckets))) entries where
  keys := h.keys
  ids := h.ids
  groups other id hinstalled := by
    by_cases hother : other = node
    · subst hother
      rw [setTables_self] at hinstalled
      rcases isSome_of_receive hinstalled with rfl | hold
      · exact ⟨src, dst, hentry⟩
      · exact h.groups other id hold
    · rw [setTables_of_ne _ _ hother] at hinstalled
      exact h.groups other id hinstalled

/-- The numbers drawn in a run, each with its key. -/
def newEntries (uses : List GroupUse) : List (Key × ℕ) :=
  uses.filterMap fun use ↦ if use.groupNew then some (use.key, use.groupId) else none

/-- The uses follow each other: from the entries at the start, each finds what was recorded before
it, and the final network has recorded them all. -/
def Traced : List (Key × ℕ) → List GroupUse → Network → Prop
  | entries, [], final => Recorded final entries
  | entries, use :: rest, final =>
      Recorded use.before entries ∧
        (use.groupNew = false → (use.key, use.groupId) ∈ entries) ∧
        Traced (entries ++ newEntries [use]) rest final

variable {uses uses' : List GroupUse} {middle final : Network}

theorem newEntries_append (uses uses' : List GroupUse) :
    newEntries (uses ++ uses') = newEntries uses ++ newEntries uses' :=
  List.filterMap_append ..

theorem newEntries_cons (use : GroupUse) (uses : List GroupUse) :
    newEntries (use :: uses) = newEntries [use] ++ newEntries uses :=
  newEntries_append [use] uses

theorem Traced.recorded (h : Traced entries uses final) :
    Recorded final (entries ++ newEntries uses) := by
  induction uses generalizing entries with
  | nil =>
    have hempty : newEntries [] = [] := rfl
    rw [hempty, List.append_nil]
    exact h
  | cons use rest ih =>
    have hrest := ih h.2.2
    rwa [List.append_assoc, ← newEntries_cons] at hrest

/-- Uses of one part of a run, then those of the rest. -/
theorem Traced.append (h : Traced entries uses middle)
    (hrest : ∀ later, Recorded middle later → Traced later uses' final) :
    Traced entries (uses ++ uses') final := by
  induction uses generalizing entries with
  | nil => exact hrest entries h
  | cons use rest ih => exact ⟨h.1, h.2.1, ih h.2.2⟩

theorem Traced.of_same (h : Traced entries uses middle) (hsame : SameGroups middle final) :
    Traced entries uses final := by
  induction uses generalizing entries with
  | nil => exact Recorded.of_same h hsame
  | cons use rest ih => exact ⟨h.1, h.2.1, ih h.2.2⟩

theorem Traced.bind {α β : Type} {first : Method α} {next : α → Method β}
    {nextUses : Network → List GroupUse} (hfirst : Traced entries uses (stateOf (first network)))
    (hnext : ∀ value middle later, Recorded middle later →
      Traced later (nextUses middle) (stateOf (next value middle))) :
    Traced entries (uses ++ usesAfter (first network) nextUses)
      (stateOf ((first >>= next) network)) := by
  rw [bind_apply]
  cases hresult : first network with
  | ok value middle =>
    rw [hresult] at hfirst
    exact hfirst.append fun later ↦ hnext value middle later
  | error exception middle =>
    rw [hresult] at hfirst
    rw [usesAfter, List.append_nil]
    exact hfirst

/-- What follows uses no groups. -/
theorem Traced.bind_quiet {α β : Type} {first : Method α} {next : α → Method β}
    (hfirst : Traced entries uses (stateOf (first network)))
    (hnext : ∀ value, Quiet (next value)) :
    Traced entries uses (stateOf ((first >>= next) network)) := by
  rw [bind_apply]
  cases hresult : first network with
  | ok value middle =>
    rw [hresult] at hfirst
    exact hfirst.of_same (hnext value middle)
  | error exception middle =>
    rw [hresult] at hfirst
    exact hfirst

variable {call : GroupCall} {sumOfPw : ℕ} {node : Dpid} {draws : List ℕ}

/-- The same entries are recorded before and after. -/
def RecordedKept (entries : List (Key × ℕ)) (network network' : Network) : Prop :=
  Recorded network entries → Recorded network' entries

theorem RecordedKept.refl (entries : List (Key × ℕ)) (network : Network) :
    RecordedKept entries network network := id

theorem RecordedKept.trans (entries : List (Key × ℕ)) (network network' network'' : Network)
    (h : RecordedKept entries network network') (h' : RecordedKept entries network' network'') :
    RecordedKept entries network network'' := h' ∘ h

/-- The group-mod and the rules of a row whose group has a number. -/
theorem recorded_of_group {groupNew : Bool} {outPorts : List (Port × ℕ)}
    (hentry : ((node, call.src, call.dst), groupId) ∈ entries) :
    Relates (RecordedKept entries) (do
      let buckets ← fromExcept (outPorts.mapM (bucketFor sumOfPw))
      sendMsg node (.groupMod (if groupNew then .add else .modify) groupId buckets)
      addFlows call node [.group groupId]) := by
  have hrefl := RecordedKept.refl entries
  have htrans := RecordedKept.trans entries
  refine (relates_fromExcept hrefl _).bind htrans fun buckets ↦ ?_
  refine (relates_sendMsg hrefl fun network h ↦ ?_).bind htrans fun _ network h ↦ ?_
  · exact h.sendGroupMod hentry _ buckets
  · exact h.of_same (quiet_addFlows call node [.group groupId] network)

theorem installRow_traced (h : Recorded network entries) (outPorts : List (Port × ℕ)) :
    Traced entries (rowUses call node draws network outPorts)
      (stateOf (installRow call sumOfPw node draws outPorts network)) := by
  match outPorts with
  | [] => exact h
  | [(outPort, weight)] => exact h.of_same (quiet_addFlows call node [.output outPort] network)
  | first :: second :: rest =>
    rcases groupIdFor_cases call node draws network with
      ⟨groupId, hid, hgroup⟩ | ⟨groupId, -, hnone, hgroup⟩ | ⟨-, -, hgroup⟩
    · have hentry := (h.ids _ _).mp hid
      have hempty : newEntries [⟨network, (node, call.src, call.dst), groupId, false⟩] = [] := rfl
      rw [rowUses, hgroup, installRow_several, bind_apply, hgroup]
      refine ⟨h, fun _ ↦ hentry, ?_⟩
      rw [hempty, List.append_nil]
      exact recorded_of_group hentry network h
    · have hnew := h.recordGroup hnone groupId
      rw [rowUses, hgroup, installRow_several, bind_apply, hgroup]
      refine ⟨h, by simp, ?_⟩
      exact recorded_of_group (List.mem_append_right _ List.mem_cons_self) _ hnew
    · rw [rowUses, hgroup, installRow_several, bind_apply, hgroup]
      exact h

/-! ## Whole calls -/

theorem installRows_traced (h : Recorded network entries) (rows : PortRows) :
    Traced entries (rowsUses call sumOfPw node draws rows network)
      (stateOf (installRows call sumOfPw node draws rows network)) := by
  induction rows generalizing network entries with
  | nil => exact h
  | cons row rest ih =>
    have hrow := @installRow_traced network entries call sumOfPw node draws h row.2
    rw [rowsUses, installRows]
    exact hrow.bind fun _ _ _ hlater ↦ ih hlater

theorem datapathOf_traced (topo : TopologyState) (node : Dpid) (h : Recorded network entries) :
    Traced entries [] (stateOf (datapathOf topo node network)) :=
  h.of_same (relates_fromExcept SameGroups.refl (datapath topo node) network)

theorem installSwitches_traced {topo : TopologyState} {orders : Orders} {draws : Dpid → List ℕ}
    {weighted : List (PathPorts × ℕ)} (h : Recorded network entries) (nodes : List Dpid) :
    Traced entries (switchesUses topo orders draws call sumOfPw weighted nodes network)
      (stateOf (installSwitches topo orders draws call sumOfPw weighted nodes network)) := by
  induction nodes generalizing network entries with
  | nil => exact h
  | cons node rest ih =>
    rw [switchesUses, installSwitches]
    refine (datapathOf_traced topo node h).bind ?_
    intro _ middle later hlater
    have hrows := @installRows_traced middle later call sumOfPw node (draws node) hlater
      (orders.rows node (nodePorts node weighted))
    exact hrows.bind fun _ _ _ hlast ↦ ih hlast

/-- The groups of a call. -/
def callUses (network : Network) (invocation : Invocation) : List GroupUse :=
  match invocation.prepare with
  | .error _ => []
  | .ok (paths, pw, pathsWithPorts) =>
      switchesUses invocation.topo invocation.orders invocation.draws invocation.call pw.sum
        (pathsWithPorts.zip pw) (invocation.orders.switches paths.flatten.dedup) network

theorem installPaths_traced (h : Recorded network entries) (invocation : Invocation) :
    Traced entries (callUses network invocation) (afterCall network invocation) := by
  rw [callUses, afterCall, installPaths_eq, bind_apply]
  cases invocation.prepare with
  | error exception => exact h
  | ok prepared =>
    obtain ⟨paths, pw, pathsWithPorts⟩ := prepared
    have hswitches := @installSwitches_traced network entries invocation.call pw.sum
      invocation.topo invocation.orders invocation.draws (pathsWithPorts.zip pw) h
      (invocation.orders.switches paths.flatten.dedup)
    -- The rules with VLAN ids, and the port returned, use no groups.
    exact hswitches.bind_quiet fun _ ↦
      (quiet_installVlans _ _ _ _ _).bind SameGroups.trans fun _ ↦
        relates_fromExcept SameGroups.refl _

/-- The groups of a run of calls. -/
def runUses : Network → List Invocation → List GroupUse
  | _, [] => []
  | network, invocation :: rest =>
      callUses network invocation ++ runUses (afterCall network invocation) rest

theorem run_traced (h : Recorded network entries) (invocations : List Invocation) :
    Traced entries (runUses network invocations) (afterCalls network invocations) := by
  induction invocations generalizing network entries with
  | nil => exact h
  | cons invocation rest ih =>
    exact (installPaths_traced h invocation).append fun later hlater ↦ ih hlater

theorem runUses_append (network : Network) (front back : List Invocation) :
    runUses network (front ++ back) =
      runUses network front ++ runUses (afterCalls network front) back := by
  induction front generalizing network with
  | nil => rfl
  | cons invocation rest ih =>
    rw [List.cons_append, runUses, ih, runUses, List.append_assoc]
    rfl

/-- The numbers that `random.randint` gave in a run, in order. -/
def drawnNumbers (invocations : List Invocation) : List ℕ :=
  (newEntries (runUses .init invocations)).map Prod.snd

/-- The recorded numbers are different for different keys, and are numbers of groups. -/
structure IdsSound (network : Network) : Prop where
  distinct : ∀ key key' groupId, network.multipathGroupIds key = some groupId →
    network.multipathGroupIds key' = some groupId → key = key'
  valid : ∀ key groupId, network.multipathGroupIds key = some groupId → groupId ≤ ofpgMax

/-- An `OFPGC_ADD` does not meet an installed group, and an `OFPGC_MODIFY` only the group of its own
pair. -/
structure GroupUse.Safe (use : GroupUse) : Prop where
  add : use.groupNew = true → (use.before.switches use.key.1).groups use.groupId = none
  modify : use.groupNew = false → ∀ key,
    use.before.multipathGroupIds key = some use.groupId ↔ key = use.key

theorem idsSound_iff (h : Recorded network entries) :
    IdsSound network ↔ (entries.map Prod.snd).Nodup ∧ ∀ n ∈ entries.map Prod.snd, n ≤ ofpgMax := by
  constructor
  · intro hsound
    constructor
    · refine List.Nodup.map_on ?_ (List.Nodup.of_map _ h.keys)
      intro ⟨key, groupId⟩ hentry ⟨key', groupId'⟩ hentry' hsame
      obtain rfl : groupId = groupId' := hsame
      have hkey := hsound.distinct key key' groupId ((h.ids _ _).mpr hentry)
        ((h.ids _ _).mpr hentry')
      rw [hkey]
    · intro n hn
      obtain ⟨⟨key, groupId⟩, hentry, rfl⟩ := List.mem_map.mp hn
      exact hsound.valid key groupId ((h.ids _ _).mpr hentry)
  · intro ⟨hnodup, hvalid⟩
    constructor
    · intro key key' groupId hkey hkey'
      have hsame := List.inj_on_of_nodup_map hnodup ((h.ids _ _).mp hkey) ((h.ids _ _).mp hkey') rfl
      exact congrArg Prod.fst hsame
    · intro key groupId hkey
      exact hvalid groupId (List.mem_map_of_mem ((h.ids _ _).mp hkey))

/-- Where all numbers are different, every use of a group is safe. -/
theorem Traced.safe (h : Traced entries uses final)
    (hnodup : ((entries ++ newEntries uses).map Prod.snd).Nodup) : ∀ use ∈ uses, use.Safe := by
  induction uses generalizing entries with
  | nil =>
    intro use huse
    cases huse
  | cons first rest ih =>
    obtain ⟨hrecorded, hold, hrest⟩ := h
    rw [newEntries_cons, ← List.append_assoc] at hnodup
    have hentries : ((entries ++ newEntries [first]).map Prod.snd).Nodup := by
      rw [List.map_append] at hnodup
      exact (List.nodup_append.mp hnodup).1
    rw [List.map_append] at hentries
    obtain ⟨hbefore, -, hdisjoint⟩ := List.nodup_append.mp hentries
    intro use huse
    rcases List.mem_cons.mp huse with rfl | hlater
    · constructor
      · intro hnew
        rw [← Option.not_isSome_iff_eq_none]
        intro hinstalled
        obtain ⟨src, dst, hentry⟩ := hrecorded.groups _ _ hinstalled
        have hdrawn : use.groupId ∈ (newEntries [use]).map Prod.snd := by
          simp [newEntries, hnew]
        exact hdisjoint _ (List.mem_map_of_mem hentry) _ hdrawn rfl
      · intro hnew key
        rw [hrecorded.ids]
        constructor
        · intro hkey
          exact congrArg Prod.fst (List.inj_on_of_nodup_map hbefore hkey (hold hnew) rfl)
        · rintro rfl
          exact hold hnew
    · exact ih hrest hnodup use hlater

/-- **Numbers of groups are as good as their draws.** In every run of calls the recorded numbers are
numbers of groups and different for different keys after every call, and every group is added under
a free number and modified by its own pair, exactly when the numbers drawn are different and none of
them exceeds `OFPG_MAX`. -/
theorem group_ids_fresh_iff (invocations : List Invocation) :
    ((∀ front, front <+: invocations → IdsSound (afterCalls .init front)) ∧
        ∀ use ∈ runUses .init invocations, use.Safe) ↔
      (drawnNumbers invocations).Nodup ∧ ∀ n ∈ drawnNumbers invocations, n ≤ ofpgMax := by
  have htraced := run_traced recorded_init invocations
  constructor
  · intro ⟨hsound, _⟩
    have hfinal := (idsSound_iff htraced.recorded).mp (hsound invocations (List.prefix_refl _))
    exact hfinal
  · intro ⟨hnodup, hlegal⟩
    refine ⟨?_, htraced.safe hnodup⟩
    rintro front ⟨back, rfl⟩
    have hfront := run_traced recorded_init front
    have hsplit : drawnNumbers (front ++ back) = drawnNumbers front ++
        (newEntries (runUses (afterCalls .init front) back)).map Prod.snd := by
      rw [drawnNumbers, runUses_append, newEntries_append, List.map_append]
      rfl
    rw [hsplit] at hnodup hlegal
    apply (idsSound_iff hfront.recorded).mpr
    exact ⟨(List.nodup_append.mp hnodup).1, fun n hn ↦ hlegal n (List.mem_append_left _ hn)⟩

/-- Two pairs of the triangle, and the first one again. -/
def twoPairs : List Invocation := [fromOne 3 7, fromOne 2 8, fromOne 3 9]

theorem runUses_twoPairs :
    (runUses .init twoPairs).map (fun use ↦ (use.key, use.groupId, use.groupNew)) =
      [((1, 1, 3), 7, true), ((1, 1, 2), 8, true), ((1, 1, 3), 7, false)] := by
  simp only [twoPairs, runUses, callUses, prepare_fromOne_two, prepare_fromOne_three, afterCall,
    installPaths_eq]
  decide +kernel

theorem drawnNumbers_twoPairs : drawnNumbers twoPairs = [7, 8] := by
  simp only [drawnNumbers, twoPairs, runUses, callUses, prepare_fromOne_two, prepare_fromOne_three,
    afterCall, installPaths_eq]
  decide +kernel

/-- The two pairs have groups of their own, and the third call modifies the group of the first. -/
theorem group_ids_fresh_two_pairs : IdsSound (afterCalls .init twoPairs) ∧
    ∃ use ∈ runUses .init twoPairs, use.key = (1, 1, 3) ∧ use.groupId = 7 ∧
      use.groupNew = false ∧ use.Safe := by
  obtain ⟨hsound, hsafe⟩ := (group_ids_fresh_iff twoPairs).mpr (by
    rw [drawnNumbers_twoPairs]
    decide)
  refine ⟨hsound _ (List.prefix_refl _), ?_⟩
  have hthird : ((1, 1, 3), 7, false) ∈ (runUses .init twoPairs).map
      (fun use ↦ (use.key, use.groupId, use.groupNew)) := by
    rw [runUses_twoPairs]
    decide
  obtain ⟨use, huse, hview⟩ := List.mem_map.mp hthird
  obtain ⟨hkey, hnumber, hnew⟩ : use.key = (1, 1, 3) ∧ use.groupId = 7 ∧ use.groupNew = false := by
    simpa using hview
  exact ⟨use, huse, hkey, hnumber, hnew, hsafe use huse⟩

/-- A number beyond the last one of a group is recorded as it is. -/
theorem not_idsSound_beyond {invocations : List Invocation} {n : ℕ} (hbeyond : ofpgMax < n)
    (hmem : n ∈ drawnNumbers invocations) : ¬ IdsSound (afterCalls .init invocations) := by
  intro hsound
  have hnumbers := (idsSound_iff (run_traced recorded_init invocations).recorded).mp hsound
  exact absurd (hnumbers.2 n hmem) (not_le.mpr hbeyond)

theorem mem_drawnNumbers_all : 0xfffffffc ∈ drawnNumbers [fromOne 3 0xfffffffc] := by
  simp only [drawnNumbers, runUses, callUses, prepare_fromOne_three]
  decide +kernel

theorem mem_drawnNumbers_unpacked : 2 ^ 32 ∈ drawnNumbers [fromOne 3 (2 ^ 32)] := by
  simp only [drawnNumbers, runUses, callUses, prepare_fromOne_three]
  decide +kernel

/-- Two pairs that draw 7 share group 7 of switch 1, which is installed when it is added again. The
numbers `OFPG_ALL` and 2 ** 32 are recorded as they are; after the first the switch has no group,
and the second cannot be packed, so that the rules of its row are not sent. -/
theorem group_ids_repeated :
    drawnNumbers [fromOne 3 7, fromOne 2 7] = [7, 7] ∧
      (((afterCalls .init [fromOne 3 7]).switches 1).groups 7).isSome = true ∧
      ¬ IdsSound (afterCalls .init [fromOne 3 7, fromOne 2 7]) ∧
      ¬ IdsSound (afterCalls .init [fromOne 3 0xfffffffc]) ∧
      ((afterCalls .init [fromOne 3 0xfffffffc]).switches 1).groups 0xfffffffc = none ∧
      ¬ IdsSound (afterCalls .init [fromOne 3 (2 ^ 32)]) ∧
      ((afterCalls .init [fromOne 3 (2 ^ 32)]).switches 1).flows.length = 1 := by
  have hdrawn : drawnNumbers [fromOne 3 7, fromOne 2 7] = [7, 7] := by
    simp only [drawnNumbers, runUses, callUses, prepare_fromOne_two, prepare_fromOne_three,
      afterCall, installPaths_eq]
    decide +kernel
  refine ⟨hdrawn, ?_, ?_, not_idsSound_beyond (by decide) mem_drawnNumbers_all, ?_,
    not_idsSound_beyond (by decide) mem_drawnNumbers_unpacked, ?_⟩
  · simp only [afterCalls, List.foldl_cons, List.foldl_nil, afterCall, installPaths_eq,
      prepare_fromOne_three]
    decide +kernel
  · intro hsound
    have hrecorded := (run_traced recorded_init [fromOne 3 7, fromOne 2 7]).recorded
    have hnumbers := (idsSound_iff hrecorded).mp hsound
    have hnodup : (drawnNumbers [fromOne 3 7, fromOne 2 7]).Nodup := hnumbers.1
    rw [hdrawn] at hnodup
    exact absurd hnodup (by decide)
  · simp only [afterCalls, List.foldl_cons, List.foldl_nil, afterCall, installPaths_eq,
      prepare_fromOne_three]
    decide +kernel
  · simp only [afterCalls, List.foldl_cons, List.foldl_nil, afterCall, installPaths_eq,
      prepare_fromOne_three]
    decide +kernel

end Wispr.Multipath.GroupIds
