import Wispr.Daemon.HashRequests
import Wispr.Daemon.Dedupe

/-!
# The daemon over its hash tables

The handlers of the daemon with the tables they really use: sessions hang in the chains of uthash
tables, found by the Jenkins hash of the eight key bytes, added by `HASH_ADD` and written through
the returned pointer. Through the abstraction to maps, every call of `process_newpkt` does what the
handlers over maps do, so every run has the same outputs, the same faults and the same sessions.
-/

open Wispr.Foundation.ByteBuffer Wispr.Foundation.Run

namespace Wispr.Daemon.HashedTables

open Proto Net Uthash

variable {build : Build}

/-- The bytes of a `uint32_t` in the memory of a little-endian host. -/
def bytesOf (word : UInt32) : List UInt8 :=
  [word.toUInt8, (word >>> 8).toUInt8, (word >>> 16).toUInt8, (word >>> 24).toUInt8]

/-- `HASH_VALUE` of a `wispr_key_t`. -/
def hashKey (key : SessionKey) : UInt32 := hashJen (bytesOf key.srcIp ++ bytesOf key.dstIp)

/-- `HASH_VALUE` of an address. -/
def hashIp (ip : UInt32) : UInt32 := hashJen (bytesOf ip)

/-- The heads of the global tables. -/
structure Heads (build : Build) where
  wispringress : Option (HashTable SessionKey IngressSession)
  hostIp : Option (HashTable UInt32 Unit)
  wisprmirt : Option (HashTable SessionKey (MirrorSession build))

/-- `init_wisprtables`. -/
def initHeads (build : Build) : Heads build := ⟨none, none, none⟩

/-- `get_or_add_ingresssession`. -/
def getOrAddIngresssession (heads : Heads build) (key : SessionKey) :
    Heads build × IngressSession :=
  let (head, session) := getOrAdd hashKey heads.wispringress key .zero
  ({ heads with wispringress := head }, session)

/-- `get_or_add_mirror_session`. -/
def getOrAddMirrorSession (heads : Heads build) (key : SessionKey) :
    Heads build × MirrorSession build :=
  let (head, session) := getOrAdd hashKey heads.wisprmirt key (.zero build)
  ({ heads with wisprmirt := head }, session)

/-- The stores through the session pointer of `process_ingress0`. -/
def Heads.setIngress (heads : Heads build) (key : SessionKey) (session : IngressSession) :
    Heads build :=
  { heads with
    wispringress := heads.wispringress.map fun tbl ↦ hashWrite hashKey tbl key session }

/-- The stores through the session pointer of `process_wispr0_vlan`. -/
def Heads.setMirror (heads : Heads build) (key : SessionKey) (session : MirrorSession build) :
    Heads build :=
  { heads with wisprmirt := heads.wisprmirt.map fun tbl ↦ hashWrite hashKey tbl key session }

/-- `add_Src_ip_host`. -/
def addSrcIpHost (heads : Heads build) (key : UInt32) : Heads build :=
  { heads with hostIp := (getOrAdd hashIp heads.hostIp key ()).1 }

/-- `check_dst_ip_host`. -/
def checkDstIpHost (heads : Heads build) (key : UInt32) : ℤ :=
  match hashFind hashIp heads.hostIp key with
  | none => -1
  | some _ => 1

/-- `process_ingress0`. -/
def processIngress0 (heads : Heads build) (buf : Buf) (numbytes : ℤ) :
    Except Fault (Heads build × List Frame) := do
  let key := ingressKey buf
  let (heads, tmp) := getOrAddIngresssession heads key
  let tmp := { tmp with vlanId := nextVlanId build tmp.vlanId }
  let heads := heads.setIngress key tmp
  let sent ← sendPacketWithkey buf numbytes tmp.vlanId
  return (heads, sent)

/-- `process_wispr0_vlan`. -/
def processWispr0Vlan (heads : Heads build) (buf : Buf) (numbytes : ℤ) (now : Timeval) :
    Except Fault (Heads build × List Frame) :=
  let key := egressKey buf
  let vlanId := receivedTag buf
  let previousProtocol := ntohs (buf.load16 (sizeofEthhdr + 2))
  if wisprMode vlanId = 3 then .ok (heads, [])
  else
    let (heads, tmp) := getOrAddMirrorSession heads key
    if hgroup : groupId vlanId < build.numberOfGroups then
      if hpacket : packetNumber vlanId < build.numberOfPaths + 1 then
        let group : Fin build.numberOfGroups := ⟨groupId vlanId, hgroup⟩
        let packet : Fin (build.numberOfPaths + 1) := ⟨packetNumber vlanId, hpacket⟩
        if timeDiff (tmp.tv group packet) now > timeout ∨ build.numberOfPaths = 1 then do
          let row := Function.update (tmp.tv group) packet now
          let heads := heads.setMirror key ⟨Function.update tmp.tv group row⟩
          let sent ← removeVlan buf numbytes previousProtocol
          return (heads, [sent])
        else .ok (heads, [])
      else .error .index
    else .error .index

/-- `process_wispr0`. -/
def processWispr0 (iface : Iface) (heads : Heads build) (buf : Buf) (numbytes : ℤ) :
    Except Fault (List Frame) :=
  if (hashFind hashIp heads.hostIp (buf.load32 (sizeofEthhdr + 16))).isSome ||
      destIs buf iface.gateWayIporMAC then do
    let remLen := toInt (numbytes - sizeofIphdr - sizeofEthhdr - sizeofWisprPacket)
    let remBuf ← buf.load (sizeofIphdr + sizeofEthhdr + sizeofWisprPacket) (toSize remLen)
    let buf ← buf.fill (sizeofEthhdr + sizeofIphdr) (toSize (remLen + sizeofWisprPacket)) 0
    let buf ← buf.store (sizeofEthhdr + sizeofIphdr) remBuf
    let totLen := ntohs (buf.load16 (sizeofEthhdr + 2)) - 8
    let buf := buf.store16 (sizeofEthhdr + 2) (htons totLen)
    let buf := buf.setByte (sizeofEthhdr + 9) 6
    let sent ← buf.load 0 (toSize (numbytes - sizeofWisprPacket))
    return [sent]
  else do
    let sent ← buf.load 0 (toSize numbytes)
    return [sent]

/-- `handle_ipv4pkt`. -/
def handleIpv4pkt (iface : Iface) (heads : Heads build) (buf : Buf) (numbytes : ℤ) :
    Except Fault (Heads build × List Frame) :=
  if buf.load32 (sizeofEthhdr + 12) = loopback ∨ buf.load32 (sizeofEthhdr + 16) = loopback then
    .ok (heads, [])
  else if destIs buf iface.mac then .ok (heads, [])
  else if destIs buf broadcastMac then .ok (heads, [])
  else if ipProtocol buf = 1 ∨ ipProtocol buf = 17 ∨ ipProtocol buf = 6 then
    processIngress0 heads buf numbytes
  else if ipProtocol buf = 47 then
    match parseWisprPkt buf with
    | none => .ok (heads, [])
    | some key =>
        if (wisprIngressKeyAt buf key).mode = 0 then do
          let sent ← processWispr0 iface heads buf numbytes
          return (heads, sent)
        else .ok (heads, [])
  else do
    let sent ← buf.load 0 (toSize numbytes)
    return (heads, [sent])

/-- `process_newpkt`. -/
def processNewpkt (iface : Iface) (heads : Heads build) (input : Input) :
    Except Fault (Heads build × List Frame) :=
  let buf := input.recv.buf
  let numbytes := input.recv.numbytes
  if destIs buf iface.mac then .ok (heads, [])
  else if destIs buf broadcastMac then .ok (heads, [])
  else if destIs buf ignoredMac then .ok (heads, [])
  else if destIs buf lldpMac then .ok (heads, [])
  else if etherType buf = 0x8100 then processWispr0Vlan heads buf numbytes input.now
  else if etherType buf = 0x86dd then .ok (heads, [])
  else if etherType buf = 0x0800 then handleIpv4pkt iface heads buf numbytes
  else .ok (heads, [])

/-! ## Abstraction -/

/-- The maps the heads stand for. -/
def Heads.tables (heads : Heads build) : Tables build where
  wispringress := contents hashKey heads.wispringress
  hostIp ip := (hashFind hashIp heads.hostIp ip).isSome
  wisprmirt := contents hashKey heads.wisprmirt

/-- All three tables are absent or valid. -/
structure Heads.Valid (heads : Heads build) : Prop where
  wispringress : ValidHead hashKey heads.wispringress
  hostIp : ValidHead hashIp heads.hostIp
  wisprmirt : ValidHead hashKey heads.wisprmirt

theorem initHeads_valid (build : Build) : (initHeads build).Valid where
  wispringress := nofun
  hostIp := nofun
  wisprmirt := nofun

/-- The map after a session has been looked up or added. -/
theorem getOrAddIngresssession_eq (tables : Tables build) (key : SessionKey) :
    Proto.getOrAddIngresssession tables key =
      (tables.setIngress key ((tables.wispringress key).getD .zero),
        (tables.wispringress key).getD .zero) := by
  unfold Proto.getOrAddIngresssession
  cases hkey : tables.wispringress key with
  | some session =>
    dsimp only
    rw [Option.getD_some, Tables.setIngress, Function.update_eq_self_iff.mpr hkey.symm]
  | none => rfl

theorem getOrAddMirrorSession_eq (tables : Tables build) (key : SessionKey) :
    Proto.getOrAddMirrorSession tables key =
      (tables.setMirror key ((tables.wisprmirt key).getD (.zero build)),
        (tables.wisprmirt key).getD (.zero build)) := by
  unfold Proto.getOrAddMirrorSession
  cases hkey : tables.wisprmirt key with
  | some session =>
    dsimp only
    rw [Option.getD_some, Tables.setMirror, Function.update_eq_self_iff.mpr hkey.symm]
  | none => rfl

theorem getOrAddIngresssession_spec {heads : Heads build} (hvalid : heads.Valid)
    (key : SessionKey) :
    (getOrAddIngresssession heads key).1.Valid ∧
      (getOrAddIngresssession heads key).1.tables.wispringress key ≠ none ∧
      Prod.map Heads.tables id (getOrAddIngresssession heads key) =
        Proto.getOrAddIngresssession heads.tables key := by
  obtain ⟨hhead, hsession, hcontents⟩ := getOrAdd_spec hvalid.wispringress key IngressSession.zero
  refine ⟨⟨hhead, hvalid.hostIp, hvalid.wisprmirt⟩, ?_, ?_⟩
  · simp only [Heads.tables, getOrAddIngresssession, hcontents, Function.update_self]
    exact Option.some_ne_none _
  · rw [getOrAddIngresssession_eq]
    simp only [Prod.map, Heads.tables, getOrAddIngresssession, Tables.setIngress, hcontents,
      hsession, id]

theorem getOrAddMirrorSession_spec {heads : Heads build} (hvalid : heads.Valid)
    (key : SessionKey) :
    (getOrAddMirrorSession heads key).1.Valid ∧
      (getOrAddMirrorSession heads key).1.tables.wisprmirt key ≠ none ∧
      Prod.map Heads.tables id (getOrAddMirrorSession heads key) =
        Proto.getOrAddMirrorSession heads.tables key := by
  obtain ⟨hhead, hsession, hcontents⟩ :=
    getOrAdd_spec hvalid.wisprmirt key (MirrorSession.zero build)
  refine ⟨⟨hvalid.wispringress, hvalid.hostIp, hhead⟩, ?_, ?_⟩
  · simp only [Heads.tables, getOrAddMirrorSession, hcontents, Function.update_self]
    exact Option.some_ne_none _
  · rw [getOrAddMirrorSession_eq]
    simp only [Prod.map, Heads.tables, getOrAddMirrorSession, Tables.setMirror, hcontents,
      hsession, id]

theorem setIngress_spec {heads : Heads build} (hvalid : heads.Valid) {key : SessionKey}
    (hpresent : heads.tables.wispringress key ≠ none) (session : IngressSession) :
    (heads.setIngress key session).Valid ∧
      (heads.setIngress key session).tables = heads.tables.setIngress key session := by
  obtain ⟨hhead, hcontents⟩ := assign_spec hvalid.wispringress hpresent session
  refine ⟨⟨hhead, hvalid.hostIp, hvalid.wisprmirt⟩, ?_⟩
  simp only [Heads.tables, Heads.setIngress, Tables.setIngress, hcontents]

theorem setMirror_spec {heads : Heads build} (hvalid : heads.Valid) {key : SessionKey}
    (hpresent : heads.tables.wisprmirt key ≠ none) (session : MirrorSession build) :
    (heads.setMirror key session).Valid ∧
      (heads.setMirror key session).tables = heads.tables.setMirror key session := by
  obtain ⟨hhead, hcontents⟩ := assign_spec hvalid.wisprmirt hpresent session
  refine ⟨⟨hvalid.wispringress, hvalid.hostIp, hhead⟩, ?_⟩
  simp only [Heads.tables, Heads.setMirror, Tables.setMirror, hcontents]

/-- A source that has been added is found, and no other address changes its answer. -/
theorem addSrcIpHost_spec {heads : Heads build} (hvalid : heads.Valid) (key : UInt32) :
    (addSrcIpHost heads key).Valid ∧ ∀ ip,
      checkDstIpHost (addSrcIpHost heads key) ip =
        if ip = key then 1 else checkDstIpHost heads ip := by
  have hcheck : ∀ (heads : Heads build) (ip : UInt32),
      checkDstIpHost heads ip = if contents hashIp heads.hostIp ip = none then -1 else 1 := by
    intro heads ip
    simp only [checkDstIpHost, contents_eq_none]
    split
    · rename_i hfind
      rw [if_pos hfind]
    · rename_i hfind
      rw [hfind, if_neg (Option.some_ne_none _)]
  obtain ⟨hhead, -, hcontents⟩ := getOrAdd_spec hvalid.hostIp key ()
  refine ⟨⟨hvalid.wispringress, hhead, hvalid.wisprmirt⟩, ?_⟩
  intro ip
  rw [hcheck, hcheck, addSrcIpHost, hcontents]
  by_cases hip : ip = key
  · rw [hip, Function.update_self, if_neg (Option.some_ne_none _), if_pos rfl]
  · rw [Function.update_of_ne hip, if_neg hip]

/-- A result over the tables stands for a result over the maps: the same fault, or valid tables with
the same frames. -/
def Abstracts (result : Except Fault (Heads build × List Frame))
    (expected : Except Fault (Tables build × List Frame)) : Prop :=
  result.map (Prod.map Heads.tables id) = expected ∧
    ∀ next sent, result = .ok (next, sent) → next.Valid

theorem Abstracts.ok {heads : Heads build} (hvalid : heads.Valid) (sent : List Frame) :
    Abstracts (.ok (heads, sent)) (.ok (heads.tables, sent)) := by
  refine ⟨rfl, ?_⟩
  intro next frames hnext
  cases hnext
  exact hvalid

/-- Work on the frame alone, and then valid tables. -/
theorem Abstracts.bind {A : Type} {heads : Heads build} (hvalid : heads.Valid)
    (work : Except Fault A) (frames : A → List Frame) :
    Abstracts (work >>= fun sent ↦ .ok (heads, frames sent))
      (work >>= fun sent ↦ .ok (heads.tables, frames sent)) := by
  cases work with
  | error fault => exact ⟨rfl, nofun⟩
  | ok sent => exact .ok hvalid (frames sent)

theorem processIngress0_abstracts {heads : Heads build} (hvalid : heads.Valid) (buf : Buf)
    (numbytes : ℤ) :
    Abstracts (processIngress0 heads buf numbytes)
      (Proto.processIngress0 heads.tables buf numbytes) := by
  obtain ⟨hsession, hpresent, hsame⟩ := getOrAddIngresssession_spec hvalid (ingressKey buf)
  unfold processIngress0 Proto.processIngress0
  dsimp only
  rw [← hsame]
  generalize getOrAddIngresssession heads (ingressKey buf) = found at hsession hpresent
  obtain ⟨next, tmp⟩ := found
  obtain ⟨hstored, htables⟩ := setIngress_spec hsession hpresent
    { tmp with vlanId := nextVlanId build tmp.vlanId }
  simp only [Prod.map, id, ← htables]
  exact Abstracts.bind hstored _ _

theorem processWispr0Vlan_abstracts {heads : Heads build} (hvalid : heads.Valid) (buf : Buf)
    (numbytes : ℤ) (now : Timeval) :
    Abstracts (processWispr0Vlan heads buf numbytes now)
      (Proto.processWispr0Vlan heads.tables buf numbytes now) := by
  obtain ⟨hsession, hpresent, hsame⟩ := getOrAddMirrorSession_spec hvalid (egressKey buf)
  unfold processWispr0Vlan Proto.processWispr0Vlan
  dsimp only
  rw [← hsame]
  generalize getOrAddMirrorSession heads (egressKey buf) = found at hsession hpresent
  obtain ⟨next, tmp⟩ := found
  simp only [Prod.map, id]
  by_cases hmode : wisprMode (receivedTag buf) = 3
  · rw [if_pos hmode, if_pos hmode]
    exact .ok hvalid []
  rw [if_neg hmode, if_neg hmode]
  by_cases hgroup : groupId (receivedTag buf) < build.numberOfGroups
  · by_cases hpacket : packetNumber (receivedTag buf) < build.numberOfPaths + 1
    · rw [dif_pos hgroup, dif_pos hpacket, dif_pos ⟨hgroup, hpacket⟩]
      split
      · obtain ⟨hstored, htables⟩ := setMirror_spec hsession hpresent ⟨Function.update tmp.tv
          ⟨groupId (receivedTag buf), hgroup⟩ (Function.update (tmp.tv ⟨groupId (receivedTag buf),
            hgroup⟩) ⟨packetNumber (receivedTag buf), hpacket⟩ now)⟩
        rw [← htables]
        exact Abstracts.bind hstored _ _
      · exact .ok hsession []
    · rw [dif_pos hgroup, dif_neg hpacket, dif_neg fun hslot ↦ hpacket hslot.2]
      exact ⟨rfl, nofun⟩
  · rw [dif_neg hgroup, dif_neg fun hslot ↦ hgroup hslot.1]
    exact ⟨rfl, nofun⟩

theorem handleIpv4pkt_abstracts (iface : Iface) {heads : Heads build} (hvalid : heads.Valid)
    (buf : Buf) (numbytes : ℤ) :
    Abstracts (handleIpv4pkt iface heads buf numbytes)
      (Net.handleIpv4pkt iface heads.tables buf numbytes) := by
  unfold handleIpv4pkt Net.handleIpv4pkt
  split
  · exact .ok hvalid []
  split
  · exact .ok hvalid []
  split
  · exact .ok hvalid []
  split
  · exact processIngress0_abstracts hvalid buf numbytes
  split
  · cases parseWisprPkt buf with
    | none => exact .ok hvalid []
    | some key =>
      dsimp only
      split
      · exact Abstracts.bind hvalid (processWispr0 iface heads buf numbytes) id
      · exact .ok hvalid []
  · exact Abstracts.bind hvalid (buf.load 0 (toSize numbytes)) fun sent ↦ [sent]

theorem processNewpkt_abstracts (iface : Iface) {heads : Heads build} (hvalid : heads.Valid)
    (input : Input) :
    Abstracts (processNewpkt iface heads input) (Net.processNewpkt iface heads.tables input) := by
  unfold processNewpkt Net.processNewpkt
  dsimp only
  split
  · exact .ok hvalid []
  split
  · exact .ok hvalid []
  split
  · exact .ok hvalid []
  split
  · exact .ok hvalid []
  split
  · exact processWispr0Vlan_abstracts hvalid _ _ _
  split
  · exact .ok hvalid []
  split
  · exact handleIpv4pkt_abstracts iface hvalid _ _
  · exact .ok hvalid []

/-- From any valid tables, the daemon over uthash and the daemon over maps make the same run: the
same frames in the same order, the same fault if there is one, the same sessions at the end, and
the tables stay valid. -/
theorem hashed_run_as_maps (iface : Iface) {heads : Heads build} (hvalid : heads.Valid)
    (inputs : List Input) :
    (run (processNewpkt iface) heads inputs).map (Prod.map Heads.tables id) =
        run (Net.processNewpkt iface) heads.tables inputs ∧
      ∀ final outputs, run (processNewpkt iface) heads inputs = .ok (final, outputs) →
        final.Valid := by
  have hkept : ∀ {state next : Heads build} {input : Input} {output : List Frame}, state.Valid →
      processNewpkt iface state input = .ok (next, output) → next.Valid :=
    fun hstate hstep ↦ (processNewpkt_abstracts iface hstate _).2 _ _ hstep
  constructor
  · exact run_abstracts Heads.tables Heads.Valid
      (fun input hstate ↦ (processNewpkt_abstracts iface hstate input).1) hkept hvalid inputs
  · intro final outputs hrun
    exact run_invariant Heads.Valid hkept hvalid hrun

/-- The tables of a node that knows one host. -/
def oneHost : Heads wisprBuild := addSrcIpHost (initHeads wisprBuild) 0x0100000A

/-- A frame and its mirror, 500 microseconds apart. -/
def twoCopies : List Input := [Dedupe.tcpArrival 1000, Dedupe.tcpArrival 1500]

theorem hashed_run_as_maps_two_copies :
    (run (processNewpkt Striping.plainIface) oneHost twoCopies).map (Prod.map Heads.tables id) =
        run (Net.processNewpkt Striping.plainIface) oneHost.tables twoCopies ∧
      ∀ final outputs,
        run (processNewpkt Striping.plainIface) oneHost twoCopies = .ok (final, outputs) →
          final.Valid :=
  hashed_run_as_maps Striping.plainIface (addSrcIpHost_spec (initHeads_valid wisprBuild) _).1 _

end Wispr.Daemon.HashedTables
