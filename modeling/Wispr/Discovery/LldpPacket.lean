import Mathlib.Data.List.DropRight
import Mathlib.Data.Nat.Digits.Lemmas
import Wispr.Discovery.Lldp

/-!
# Probe frames of link discovery

`LLDPPacket` of `ryu/topology/switches.py`: a probe names the switch and the port it is sent from,
in a chassis id `dpid:` with sixteen hexadecimal digits and a port id of four bytes. `lldp_parse`
reads the two back from a received frame.

A frame of another protocol than LLDP goes through the parser of that protocol, which is not part of
the model, so what `lldp_parse` raises on it is a parameter. Digits and spaces outside ASCII, which
`int` accepts as well, are left out, and so are encoded surrogates, which only Python 2 decodes.
-/

namespace Wispr.Discovery.LldpPacket

open Lldp

/-- The lower-case digit of a value below sixteen. -/
def hexDigit (value : ℕ) : UInt8 := UInt8.ofNat (if value < 10 then 48 + value else 87 + value)

/-- The value of a digit in either case. -/
def hexValue (char : UInt8) : Option ℕ :=
  if 48 ≤ char.toNat ∧ char.toNat ≤ 57 then some (char.toNat - 48)
  else if 97 ≤ char.toNat ∧ char.toNat ≤ 102 then some (char.toNat - 87)
  else if 65 ≤ char.toNat ∧ char.toNat ≤ 70 then some (char.toNat - 55)
  else none

/-- `dpid_to_str`: `'%016x'`. -/
def dpidToStr (dpid : ℕ) : Bytes :=
  let digits := (Nat.digits 16 dpid).reverse.map hexDigit
  List.replicate (16 - digits.length) 48 ++ digits

/-- The characters `int` strips. -/
def isSpace (char : UInt8) : Bool :=
  (9 ≤ char.toNat && char.toNat ≤ 13) || (28 ≤ char.toNat && char.toNat ≤ 32)

/-- The digits of a number behind sign and `0x`. -/
def parseDigits (text : Bytes) : Option ℕ :=
  if text = [] then none
  else (text.mapM hexValue).map fun digits ↦ digits.foldl (fun value digit ↦ value * 16 + digit) 0

/-- An optional `0x` or `0X`. -/
def parseUnsigned : Bytes → Option ℕ
  | 48 :: 120 :: digits => parseDigits digits
  | 48 :: 88 :: digits => parseDigits digits
  | digits => parseDigits digits

/-- `int(text, 16)`; absent on a `ValueError`. -/
def intBase16 (text : Bytes) : Option ℤ :=
  match (text.dropWhile isSpace).rdropWhile isSpace with
  | 45 :: digits => (parseUnsigned digits).map fun value ↦ -(value : ℤ)
  | 43 :: digits => (parseUnsigned digits).map fun value ↦ (value : ℤ)
  | digits => (parseUnsigned digits).map fun value ↦ (value : ℤ)

/-- What the first byte of a character says of its other bytes: how many they are, and the range of
the second one. Absent on a byte that starts no character. -/
def characterTail (lead : UInt8) : Option (ℕ × UInt8 × UInt8) :=
  if lead < 0x80 then some (0, 0x80, 0xbf)
  else if 0xc2 ≤ lead ∧ lead ≤ 0xdf then some (1, 0x80, 0xbf)
  else if 0xe0 ≤ lead ∧ lead ≤ 0xef then
    some (2, if lead = 0xe0 then 0xa0 else 0x80, if lead = 0xed then 0x9f else 0xbf)
  else if 0xf0 ≤ lead ∧ lead ≤ 0xf4 then
    some (3, if lead = 0xf0 then 0x90 else 0x80, if lead = 0xf4 then 0x8f else 0xbf)
  else none

/-- The number of characters of a text from the middle of one on, which still has some bytes with
the next one in a range. -/
def characters : ℕ → UInt8 → UInt8 → Bytes → Option ℕ
  | 0, _, _, [] => some 0
  | _ + 1, _, _, [] => none
  | 0, _, _, lead :: rest =>
      match characterTail lead with
      | none => none
      | some (owed, low, high) => (characters owed low high rest).map (· + 1)
  | owed + 1, low, high, byte :: rest =>
      if low ≤ byte ∧ byte ≤ high then characters owed 0x80 0xbf rest else none

/-- `len(text.decode('utf-8'))`; absent on a `UnicodeDecodeError`. -/
def decodedLength (text : Bytes) : Option ℕ := characters 0 0x80 0xbf text

/-- The exceptions that `lldp_parse` lets through. A `UnicodeDecodeError` is a `ValueError`; those
of the parsers of other protocols are one kind. -/
inductive ParseExc where
  | unknownFormat
  | stopIteration
  | assertionError
  | valueError
  | typeError
  | otherProtocol
  deriving DecidableEq, Repr

/-- `str_to_dpid`. -/
def strToDpid (text : Bytes) : Except ParseExc ℤ :=
  if decodedLength text = some 16 then
    match intBase16 text with
    | some dpid => .ok dpid
    | none => .error .valueError
  else .error .assertionError

/-- `LLDP_MAC_NEAREST_BRIDGE`. -/
def lldpMacNearestBridge : Bytes := [0x01, 0x80, 0xc2, 0x00, 0x00, 0x0e]

/-- `ETH_TYPE_LLDP`. -/
def ethTypeLldp : ℕ := 0x88cc

/-- `CHASSIS_ID_PREFIX`. -/
def chassisIdPrefix : Bytes := [100, 112, 105, 100, 58]

/-- `ChassisID.SUB_LOCALLY_ASSIGNED`. -/
def subLocallyAssigned : UInt8 := 7

/-- `PortID.SUB_PORT_COMPONENT`. -/
def subPortComponent : UInt8 := 2

/-- The padding `ethernet.serialize` appends to a short payload. -/
def pad (payload : Bytes) : Bytes := payload ++ List.replicate (46 - payload.length) 0

/-- `lldp_packet`. -/
def lldpPacket (dpid portNo : ℕ) (dlAddr : Fin 6 → UInt8) (ttl : ℕ) : Bytes :=
  lldpMacNearestBridge ++ List.ofFn dlAddr ++ pack16 ethTypeLldp ++
    pad (serialize [.chassisId subLocallyAssigned (chassisIdPrefix ++ dpidToStr dpid),
      .portId subPortComponent (pack32 portNo), .ttl ttl, .endMark])

/-- The part of `lldp_parse` after the test of the chassis id. The message about a port id of
another length formats its bytes as a number. -/
def parsePort (dpid : ℤ) (subtype : UInt8) (port : Bytes) : Except ParseExc (ℤ × ℕ) :=
  if subtype ≠ subPortComponent then .error .unknownFormat
  else
    match port with
    | [b3, b2, b1, b0] => .ok (dpid, unpack32 b3 b2 b1 b0)
    | _ => .error .typeError

/-- `lldp_parse` on the TLVs of a data unit, which start with a chassis id and a port id. -/
def parseProbe : List Tlv → Except ParseExc (ℤ × ℕ)
  | .chassisId chassisSubtype chassis :: .portId portSubtype port :: _ =>
      if chassisSubtype ≠ subLocallyAssigned then .error .unknownFormat
      else if decodedLength chassis = none then .error .valueError
      else if ¬ chassisIdPrefix <+: chassis then .error .unknownFormat
      else do
        let dpid ← strToDpid (chassis.drop chassisIdPrefix.length)
        parsePort dpid portSubtype port
  | _ => .error .unknownFormat

/-- `lldp_parse`. A packet without a byte that is not zero has no protocol, one that is too short
for its Ethernet header has nothing but bytes, and a payload of zeros is taken for padding. -/
def lldpParse (other : ParseExc) (data : Bytes) : Except ParseExc (ℤ × ℕ) :=
  if data.all (· = 0) then .error .stopIteration
  else if data.length < 14 then .error .assertionError
  else if (data.drop 14).all (· = 0) then .error .stopIteration
  else if unpack16 (data.getD 12 0) (data.getD 13 0) ≠ ethTypeLldp then .error other
  else
    match parser (data.drop 14) with
    | some (tlvs, _) => parseProbe tlvs
    | none => .error .unknownFormat

theorem hexValue_hexDigit {value : ℕ} (hvalue : value < 16) :
    hexValue (hexDigit value) = some value := by
  interval_cases value <;> rfl

theorem hexDigit_ordinary {value : ℕ} (hvalue : value < 16) :
    isSpace (hexDigit value) = false ∧ hexDigit value ≠ 45 ∧ hexDigit value ≠ 43 ∧
      hexDigit value ≠ 120 ∧ hexDigit value ≠ 88 := by
  interval_cases value <;> decide

section Digits

variable {digits : List ℕ} (hdigits : ∀ digit ∈ digits, digit < 16)

include hdigits

theorem mapM_hexValue : (digits.map hexDigit).mapM hexValue = some digits := by
  induction digits with
  | nil => rfl
  | cons first rest ih =>
    rw [List.map_cons, List.mapM_cons, hexValue_hexDigit (hdigits first (List.mem_cons_self ..)),
      ih fun digit hdigit ↦ hdigits digit (List.mem_cons_of_mem _ hdigit)]
    rfl

theorem parseDigits_hexDigit (hsome : digits ≠ []) :
    parseDigits (digits.map hexDigit) =
      some (digits.foldl (fun value digit ↦ value * 16 + digit) 0) := by
  rw [parseDigits, if_neg (by simpa using hsome), mapM_hexValue hdigits]
  rfl

theorem parseUnsigned_hexDigit (hsome : digits ≠ []) :
    parseUnsigned (digits.map hexDigit) =
      some (digits.foldl (fun value digit ↦ value * 16 + digit) 0) := by
  rw [← parseDigits_hexDigit hdigits hsome]
  unfold parseUnsigned
  split
  · rename_i hmarker
    obtain ⟨first, rest, rfl, -, hrest⟩ := List.map_eq_cons_iff.mp hmarker
    obtain ⟨second, rest, rfl, hsecond, -⟩ := List.map_eq_cons_iff.mp hrest
    exact absurd hsecond (hexDigit_ordinary (hdigits second (by simp))).2.2.2.1
  · rename_i hmarker
    obtain ⟨first, rest, rfl, -, hrest⟩ := List.map_eq_cons_iff.mp hmarker
    obtain ⟨second, rest, rfl, hsecond, -⟩ := List.map_eq_cons_iff.mp hrest
    exact absurd hsecond (hexDigit_ordinary (hdigits second (by simp))).2.2.2.2
  · rfl

theorem intBase16_hexDigit (hsome : digits ≠ []) :
    intBase16 (digits.map hexDigit) =
      some ((digits.foldl (fun value digit ↦ value * 16 + digit) 0 : ℕ) : ℤ) := by
  have hspace : ∀ char ∈ digits.map hexDigit, isSpace char = false := by
    intro char hchar
    obtain ⟨digit, hdigit, rfl⟩ := List.mem_map.mp hchar
    exact (hexDigit_ordinary (hdigits digit hdigit)).1
  have hfront : (digits.map hexDigit).dropWhile isSpace = digits.map hexDigit := by
    apply List.dropWhile_eq_self_iff.mpr
    intro hpos
    rw [hspace _ (List.getElem_mem hpos)]
    exact Bool.false_ne_true
  have hback : (digits.map hexDigit).rdropWhile isSpace = digits.map hexDigit := by
    apply List.rdropWhile_eq_self_iff.mpr
    intro hnonempty
    rw [hspace _ (List.getLast_mem hnonempty)]
    exact Bool.false_ne_true
  rw [intBase16, hfront, hback]
  split
  · rename_i hsign
    obtain ⟨first, rest, rfl, hfirst, -⟩ := List.map_eq_cons_iff.mp hsign
    exact absurd hfirst (hexDigit_ordinary (hdigits first (by simp))).2.1
  · rename_i hsign
    obtain ⟨first, rest, rfl, hfirst, -⟩ := List.map_eq_cons_iff.mp hsign
    exact absurd hfirst (hexDigit_ordinary (hdigits first (by simp))).2.2.1
  · rw [parseUnsigned_hexDigit hdigits hsome]
    rfl

end Digits

/-- The sixteen digits of a datapath id. -/
def dpidDigits (dpid : ℕ) : List ℕ :=
  List.replicate (16 - (Nat.digits 16 dpid).length) 0 ++ (Nat.digits 16 dpid).reverse

theorem dpidToStr_eq (dpid : ℕ) : dpidToStr dpid = (dpidDigits dpid).map hexDigit := by
  simp [dpidToStr, dpidDigits, hexDigit]

theorem dpidDigits_lt (dpid : ℕ) : ∀ digit ∈ dpidDigits dpid, digit < 16 := by
  intro digit hdigit
  rcases List.mem_append.mp hdigit with hzero | hdigit
  · rw [List.eq_of_mem_replicate hzero]
    exact (by decide : 0 < 16)
  · exact Nat.digits_lt_base (by decide) (List.mem_reverse.mp hdigit)

theorem dpidDigits_length {dpid : ℕ} (hdpid : dpid < 2 ^ 64) : (dpidDigits dpid).length = 16 := by
  have hbound : (Nat.digits 16 dpid).length ≤ 16 :=
    (Nat.digits_length_le_iff (by decide) dpid).mpr (hdpid.trans_eq (by decide))
  simp only [dpidDigits, List.length_append, List.length_replicate, List.length_reverse]
  omega

theorem dpidDigits_value (dpid : ℕ) :
    (dpidDigits dpid).foldl (fun value digit ↦ value * 16 + digit) 0 = dpid := by
  have hzeros : ∀ count : ℕ,
      (List.replicate count 0).foldl (fun value digit ↦ value * 16 + digit) 0 = 0 := by
    intro count
    induction count with
    | zero => rfl
    | succ count ih => rw [List.replicate_succ, List.foldl_cons, ih]
  rw [dpidDigits, List.foldl_append, hzeros, List.foldl_reverse]
  calc
    (Nat.digits 16 dpid).foldr (fun digit value ↦ value * 16 + digit) 0
        = (Nat.digits 16 dpid).foldr (fun digit value ↦ digit + 16 * value) 0 := by
      congr 1
      funext digit value
      omega
    _ = Nat.ofDigits 16 (Nat.digits 16 dpid) := by
      rw [Nat.ofDigits_eq_foldr]
      rfl
    _ = dpid := Nat.ofDigits_digits 16 dpid

/-- A text of ASCII characters has as many characters as bytes. -/
theorem decodedLength_ascii {text : Bytes} (hascii : ∀ char ∈ text, char < 0x80) :
    decodedLength text = some text.length := by
  unfold decodedLength
  induction text with
  | nil => rfl
  | cons char rest ih =>
    have hchar : characterTail char = some (0, 0x80, 0xbf) :=
      if_pos (hascii char (List.mem_cons_self ..))
    rw [characters, hchar]
    simp only [ih fun other hother ↦ hascii other (List.mem_cons_of_mem _ hother),
      Option.map_some, List.length_cons]

theorem hexDigit_ascii {value : ℕ} (hvalue : value < 16) : hexDigit value < 0x80 := by
  interval_cases value <;> decide

theorem dpidToStr_ascii (dpid : ℕ) : ∀ char ∈ dpidToStr dpid, char < 0x80 := by
  intro char hchar
  rw [dpidToStr_eq] at hchar
  obtain ⟨digit, hdigit, rfl⟩ := List.mem_map.mp hchar
  exact hexDigit_ascii (dpidDigits_lt dpid digit hdigit)

theorem strToDpid_dpidToStr {dpid : ℕ} (hdpid : dpid < 2 ^ 64) :
    strToDpid (dpidToStr dpid) = .ok (dpid : ℤ) := by
  have hlength := dpidDigits_length hdpid
  have hsome : dpidDigits dpid ≠ [] := by
    intro hempty
    rw [hempty] at hlength
    cases hlength
  have hdecoded : decodedLength (dpidToStr dpid) = some 16 := by
    rw [decodedLength_ascii (dpidToStr_ascii dpid), dpidToStr_eq, List.length_map, hlength]
  rw [strToDpid, if_pos hdecoded, dpidToStr_eq, intBase16_hexDigit (dpidDigits_lt dpid) hsome,
    dpidDigits_value]

/-- The data unit of a probe. -/
def probe {dpid ttl : ℕ} (portNo : ℕ) (hdpid : dpid < 2 ^ 64) (httl : ttl < 65536) : DataUnit where
  chassis := (subLocallyAssigned, chassisIdPrefix ++ dpidToStr dpid)
  port := (subPortComponent, pack32 portNo)
  seconds := ttl
  optional := []
  chassis_valid := by
    have hlength : (chassisIdPrefix ++ dpidToStr dpid).length = 21 := by
      rw [dpidToStr_eq, List.length_append, List.length_map, dpidDigits_length hdpid]
      rfl
    simp only [Tlv.Valid, hlength]
    decide
  port_valid := (by decide : 1 ≤ 4 ∧ 4 ≤ 255)
  seconds_valid := httl
  optional_valid := nofun
  optional_inner := nofun

theorem probe_tlvs {dpid ttl : ℕ} (portNo : ℕ) (hdpid : dpid < 2 ^ 64) (httl : ttl < 65536) :
    (probe portNo hdpid httl).tlvs =
      [.chassisId subLocallyAssigned (chassisIdPrefix ++ dpidToStr dpid),
        .portId subPortComponent (pack32 portNo), .ttl ttl, .endMark] := rfl

theorem parseProbe_probe {dpid portNo ttl : ℕ} (hdpid : dpid < 2 ^ 64) (hport : portNo < 2 ^ 32)
    (httl : ttl < 65536) :
    parseProbe (probe portNo hdpid httl).tlvs = .ok ((dpid : ℤ), portNo) := by
  have hprefix : chassisIdPrefix.all (· < 0x80) = true := by decide
  have hascii : ∀ char ∈ chassisIdPrefix ++ dpidToStr dpid, char < 0x80 := by
    intro char hchar
    rcases List.mem_append.mp hchar with hchar | hchar
    · exact of_decide_eq_true (List.all_eq_true.mp hprefix char hchar)
    · exact dpidToStr_ascii dpid char hchar
  have hport4 : parsePort dpid subPortComponent (pack32 portNo) = .ok ((dpid : ℤ), portNo) := by
    simp only [parsePort, ne_eq, not_true_eq_false, if_false, pack32, pack16, List.cons_append,
      List.nil_append]
    rw [unpack32_pack32 hport]
  rw [probe_tlvs]
  simp only [parseProbe, ne_eq, not_true_eq_false, if_false, decodedLength_ascii hascii,
    reduceCtorEq, List.prefix_append, List.drop_left, strToDpid_dpidToStr hdpid]
  exact hport4

/-- A frame with an LLDP header and a data unit behind it. -/
theorem lldpParse_frame (other : ParseExc) {header payload : Bytes} {parsed : List Tlv × Bytes}
    (hlength : header.length = 14)
    (htype : unpack16 (header.getD 12 0) (header.getD 13 0) = ethTypeLldp)
    (hsome : ¬ payload.all (· = 0) = true) (hparser : parser payload = some parsed) :
    lldpParse other (header ++ payload) = parseProbe parsed.1 := by
  have hdata : ¬ (header ++ payload).all (· = 0) = true := by
    rw [List.all_append, Bool.and_eq_true]
    exact fun hzero ↦ hsome hzero.2
  have hlong : ¬ (header ++ payload).length < 14 := by
    rw [List.length_append]
    omega
  have hdrop : (header ++ payload).drop 14 = payload := List.drop_left' hlength
  have hheader : ∀ index < 14, (header ++ payload).getD index 0 = header.getD index 0 := by
    intro index hindex
    rw [List.getD_eq_getElem?_getD, List.getD_eq_getElem?_getD,
      List.getElem?_append_left (hindex.trans_eq hlength.symm)]
  rw [lldpParse, if_neg hdata, if_neg hlong, hdrop, if_neg hsome, hheader 12 (by decide),
    hheader 13 (by decide), if_neg (not_not_intro htype), hparser]

/-- A probe names its port: wherever it is received, whatever bytes a switch or a link has appended
to it, `lldp_parse` gives back the switch and the port it was made for. -/
theorem lldpParse_lldpPacket (other : ParseExc) (dpid portNo ttl : ℕ) (dlAddr : Fin 6 → UInt8)
    (trailer : Bytes) (hdpid : dpid < 2 ^ 64) (hport : portNo < 2 ^ 32) (httl : ttl < 65536) :
    lldpParse other (lldpPacket dpid portNo dlAddr ttl ++ trailer) = .ok ((dpid : ℤ), portNo) := by
  -- the frame is the header, the data unit of the probe, and bytes behind its end mark
  obtain ⟨rest, hframe⟩ : ∃ rest, lldpPacket dpid portNo dlAddr ttl ++ trailer =
      [0x01, 0x80, 0xc2, 0x00, 0x00, 0x0e, dlAddr 0, dlAddr 1, dlAddr 2, dlAddr 3, dlAddr 4,
        dlAddr 5, 0x88, 0xcc] ++ (serialize (probe portNo hdpid httl).tlvs ++ rest) := by
    refine ⟨List.replicate (46 - (serialize (probe portNo hdpid httl).tlvs).length) 0 ++ trailer,
      ?_⟩
    rw [probe_tlvs, lldpPacket, pad, lldpMacNearestBridge, List.append_assoc, List.append_assoc,
      List.append_assoc, List.append_assoc]
    simp [List.ofFn_succ, pack16, ethTypeLldp]
  have hnonzero : ¬ (serialize (probe portNo hdpid httl).tlvs ++ rest).all (· = 0) = true := by
    rw [List.all_eq_true]
    intro hzero
    have hletter : (100 : UInt8) ∈ serialize (probe portNo hdpid httl).tlvs ++ rest := by
      simp [probe_tlvs, serialize, Tlv.serialize, Tlv.info, chassisIdPrefix]
    exact absurd (hzero 100 hletter) (by decide)
  rw [hframe]
  refine (lldpParse_frame other rfl ?_ hnonzero (parser_serialize _ rest)).trans ?_
  · exact (by decide : unpack16 0x88 0xcc = ethTypeLldp)
  · exact parseProbe_probe hdpid hport httl

end Wispr.Discovery.LldpPacket
