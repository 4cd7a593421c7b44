import Mathlib.Tactic

/-!
# Link layer discovery data units

The codec `ryu/lib/packet/lldp.py`: a data unit is a sequence of TLVs, each with a type of seven
bits and a length of nine, first chassis, port and time to live, last the end mark. `serialize`
writes what the constructors of the TLV classes accept; `parser` reads any byte string and returns
nothing when a TLV has an unknown type, runs past the buffer or is too short for its fields, and
when the mandatory TLVs are not in their places.

`lldp.parser` turns every exception into a missing result, so all failures are one here. The address
length test of `ManagementAddress` joins its two bounds by `or` and holds of every length.
-/

namespace Wispr.Discovery.Lldp

abbrev Bytes := List UInt8

/-- `struct.pack('!H', value)`. -/
def pack16 (value : ℕ) : Bytes := [UInt8.ofNat (value / 256), UInt8.ofNat value]

/-- `struct.pack('!I', value)`. -/
def pack32 (value : ℕ) : Bytes := pack16 (value / 65536) ++ pack16 value

/-- `struct.unpack('!H', ...)`. -/
def unpack16 (high low : UInt8) : ℕ := high.toNat * 256 + low.toNat

/-- `struct.unpack('!I', ...)`. -/
def unpack32 (b3 b2 b1 b0 : UInt8) : ℕ := unpack16 b3 b2 * 65536 + unpack16 b1 b0

theorem unpack16_pack16 {value : ℕ} (hvalue : value < 65536) :
    unpack16 (UInt8.ofNat (value / 256)) (UInt8.ofNat value) = value := by
  simp only [unpack16, UInt8.toNat_ofNat']
  omega

theorem unpack32_pack32 {value : ℕ} (hvalue : value < 4294967296) :
    unpack32 (UInt8.ofNat (value / 65536 / 256)) (UInt8.ofNat (value / 65536))
      (UInt8.ofNat (value / 256)) (UInt8.ofNat value) = value := by
  rw [unpack32, unpack16_pack16 (by omega)]
  simp only [unpack16, UInt8.toNat_ofNat']
  omega

/-- The first two bytes of a TLV. -/
def typelen (tlvType len : ℕ) : ℕ := (tlvType <<< 9) ||| len

/-- `(typelen & LLDP_TLV_TYPE_MASK) >> LLDP_TLV_TYPE_SHIFT`. -/
def typeOf (typelen : ℕ) : ℕ := (typelen &&& 0xfe00) >>> 9

/-- `typelen & LLDP_TLV_LENGTH_MASK`. -/
def lenOf (typelen : ℕ) : ℕ := typelen &&& 0x01ff

theorem typelen_eq {tlvType len : ℕ} (hlen : len < 512) :
    typelen tlvType len = tlvType * 512 + len := by
  rw [typelen, ← Nat.shiftLeft_add_eq_or_of_lt hlen, Nat.shiftLeft_eq]

theorem typeOf_eq (value : ℕ) : typeOf value = value / 512 % 128 := by
  rw [typeOf, Nat.shiftRight_and_distrib, Nat.shiftRight_eq_div_pow]
  exact Nat.and_two_pow_sub_one_eq_mod _ 7

theorem lenOf_eq (value : ℕ) : lenOf value = value % 512 :=
  Nat.and_two_pow_sub_one_eq_mod value 9

/-- The TLV classes with the attributes of their instances. -/
inductive Tlv where
  | endMark
  | chassisId (subtype : UInt8) (id : Bytes)
  | portId (subtype : UInt8) (id : Bytes)
  | ttl (seconds : ℕ)
  | portDescription (text : Bytes)
  | systemName (text : Bytes)
  | systemDescription (text : Bytes)
  | systemCapabilities (subtype : UInt8) (systemCap enabledCap : ℕ)
  | managementAddress (addrSubtype : UInt8) (addr : Bytes) (intfSubtype : UInt8) (intfNum : ℕ)
      (oid : Bytes)
  | organizationallySpecific (oui : UInt8 × UInt8 × UInt8) (subtype : UInt8) (info : Bytes)
  deriving DecidableEq, Repr

/-- `tlv_type`. -/
def Tlv.tlvType : Tlv → ℕ
  | endMark => 0
  | chassisId .. => 1
  | portId .. => 2
  | ttl .. => 3
  | portDescription .. => 4
  | systemName .. => 5
  | systemDescription .. => 6
  | systemCapabilities .. => 7
  | managementAddress .. => 8
  | organizationallySpecific .. => 127

/-- The bytes after the type and the length. -/
def Tlv.info : Tlv → Bytes
  | endMark => []
  | chassisId subtype id => subtype :: id
  | portId subtype id => subtype :: id
  | ttl seconds => pack16 seconds
  | portDescription text => text
  | systemName text => text
  | systemDescription text => text
  | systemCapabilities subtype systemCap enabledCap =>
      subtype :: (pack16 systemCap ++ pack16 enabledCap)
  | managementAddress addrSubtype addr intfSubtype intfNum oid =>
      UInt8.ofNat (addr.length + 1) :: addrSubtype ::
        (addr ++ (intfSubtype :: (pack32 intfNum ++ (UInt8.ofNat oid.length :: oid))))
  | organizationallySpecific oui subtype info => oui.1 :: oui.2.1 :: oui.2.2 :: subtype :: info

/-- `serialize` of a TLV. -/
def Tlv.serialize (tlv : Tlv) : Bytes := pack16 (typelen tlv.tlvType tlv.info.length) ++ tlv.info

/-- What the constructors assert of the lengths, and what `struct.pack` takes. -/
def Tlv.Valid : Tlv → Prop
  | endMark => True
  | chassisId _ id => 1 ≤ id.length ∧ id.length ≤ 255
  | portId _ id => 1 ≤ id.length ∧ id.length ≤ 255
  | ttl seconds => seconds < 65536
  | portDescription text => text.length ≤ 255
  | systemName text => text.length ≤ 255
  | systemDescription text => text.length ≤ 255
  | systemCapabilities _ systemCap enabledCap => systemCap < 65536 ∧ enabledCap < 65536
  | managementAddress _ addr _ intfNum oid =>
      oid.length ≤ 128 ∧ 9 ≤ 8 + addr.length + oid.length ∧ 8 + addr.length + oid.length ≤ 167 ∧
        intfNum < 4294967296
  | organizationallySpecific _ _ info => info.length ≤ 507

/-- The constructor of the class of a type, applied to the bytes after the length. -/
def parseInfo : ℕ → Bytes → Option Tlv
  | 0, _ => some .endMark
  | 1, subtype :: id => some (.chassisId subtype id)
  | 2, subtype :: id => some (.portId subtype id)
  | 3, high :: low :: _ => some (.ttl (unpack16 high low))
  | 4, text => some (.portDescription text)
  | 5, text => some (.systemName text)
  | 6, text => some (.systemDescription text)
  | 7, subtype :: s1 :: s0 :: e1 :: e0 :: _ =>
      some (.systemCapabilities subtype (unpack16 s1 s0) (unpack16 e1 e0))
  | 8, addrLen :: addrSubtype :: rest =>
      let offset := 2 + addrLen.toNat - 1
      match (addrLen :: addrSubtype :: rest).drop offset with
      | intfSubtype :: n3 :: n2 :: n1 :: n0 :: oidLen :: oid =>
          if oidLen.toNat ≤ 128 then
            some (.managementAddress addrSubtype (rest.take (offset - 2)) intfSubtype
              (unpack32 n3 n2 n1 n0) oid)
          else none
      | _ => none
  | 127, o2 :: o1 :: o0 :: subtype :: info =>
      some (.organizationallySpecific (o2, o1, o0) subtype info)
  | _, _ => none

/-- One turn of the loop of `_parser`: the TLV at the front of the buffer and its length. -/
def parseTlv : Bytes → Option (Tlv × ℕ)
  | high :: low :: rest =>
      let value := unpack16 high low
      if lenOf value ≤ rest.length then
        (parseInfo (typeOf value) (rest.take (lenOf value))).map fun tlv ↦ (tlv, lenOf value)
      else none
  | _ => none

/-- The loop of `_parser`: the TLVs up to the end mark and the rest of the buffer. -/
def parseTlvs : Bytes → Option (List Tlv × Bytes)
  | [] => some ([], [])
  | first :: more =>
      match parseTlv (first :: more) with
      | none => none
      | some (tlv, len) =>
          let rest := (first :: more).drop (2 + len)
          if tlv.tlvType = 0 then some ([tlv], rest)
          else if rest = [] then none
          else (parseTlvs rest).map fun parsed ↦ (tlv :: parsed.1, parsed.2)
  termination_by buf => buf.length
  decreasing_by
    simp only [List.length_drop, List.length_cons]
    omega

/-- `_tlvs_len_valid` and `_tlvs_valid`. -/
def tlvsValid (tlvs : List Tlv) : Bool :=
  decide (4 ≤ tlvs.length) && decide ((tlvs[0]?.map Tlv.tlvType) = some 1) &&
    decide ((tlvs[1]?.map Tlv.tlvType) = some 2) && decide ((tlvs[2]?.map Tlv.tlvType) = some 3) &&
    decide ((tlvs.getLast?.map Tlv.tlvType) = some 0)

/-- `lldp.parser`. -/
def parser (buf : Bytes) : Option (List Tlv × Bytes) :=
  (parseTlvs buf).filter fun parsed ↦ tlvsValid parsed.1

/-- `lldp.serialize`. -/
def serialize (tlvs : List Tlv) : Bytes := tlvs.flatMap Tlv.serialize

/-! ## Round trip -/

theorem Tlv.Valid.info_length {tlv : Tlv} (hvalid : tlv.Valid) : tlv.info.length < 512 := by
  cases tlv with
  | endMark => exact (by decide : 0 < 512)
  | chassisId subtype id | portId subtype id =>
    simp only [Tlv.Valid] at hvalid
    simp only [Tlv.info, List.length_cons]
    omega
  | ttl seconds => exact (by decide : 2 < 512)
  | portDescription text | systemName text | systemDescription text =>
    simp only [Tlv.Valid] at hvalid
    simp only [Tlv.info]
    omega
  | systemCapabilities subtype systemCap enabledCap => exact (by decide : 5 < 512)
  | managementAddress addrSubtype addr intfSubtype intfNum oid =>
    simp only [Tlv.Valid] at hvalid
    simp only [Tlv.info, pack32, pack16, List.length_cons, List.length_append, List.length_nil]
    omega
  | organizationallySpecific oui subtype info =>
    simp only [Tlv.Valid] at hvalid
    simp only [Tlv.info, List.length_cons]
    omega

theorem Tlv.tlvType_lt (tlv : Tlv) : tlv.tlvType < 128 := by
  cases tlv <;> simp [tlvType]

/-- Only the end mark has type zero. -/
theorem Tlv.tlvType_eq_zero {tlv : Tlv} : tlv.tlvType = 0 ↔ tlv = .endMark := by
  cases tlv <;> simp [tlvType]

/-- Every class reads its own bytes back. -/
theorem parseInfo_info {tlv : Tlv} (hvalid : tlv.Valid) :
    parseInfo tlv.tlvType tlv.info = some tlv := by
  cases tlv with
  | endMark | chassisId | portId | portDescription | systemName | systemDescription
  | organizationallySpecific => rfl
  | ttl seconds =>
    simp only [Tlv.tlvType, Tlv.info, pack16, parseInfo, unpack16_pack16 hvalid]
  | systemCapabilities subtype systemCap enabledCap =>
    simp only [Tlv.tlvType, Tlv.info, pack16, List.cons_append, List.nil_append, parseInfo,
      unpack16_pack16 hvalid.1, unpack16_pack16 hvalid.2]
  | managementAddress addrSubtype addr intfSubtype intfNum oid =>
    obtain ⟨hoid, -, htotal, hintf⟩ := hvalid
    have haddrLen : (UInt8.ofNat (addr.length + 1)).toNat = addr.length + 1 := by
      rw [UInt8.toNat_ofNat']
      omega
    have hoidLen : (UInt8.ofNat oid.length).toNat = oid.length := by
      rw [UInt8.toNat_ofNat']
      omega
    have hoffset : 2 + (addr.length + 1) - 1 = addr.length + 2 := by omega
    simp only [Tlv.tlvType, Tlv.info, parseInfo, haddrLen, hoffset, List.drop_succ_cons,
      List.drop_left, List.take_left, Nat.add_sub_cancel, pack32, pack16, List.cons_append,
      List.nil_append, hoidLen, hoid, if_true, unpack32_pack32 hintf]

theorem parseTlv_serialize {tlv : Tlv} (hvalid : tlv.Valid) (rest : Bytes) :
    parseTlv (tlv.serialize ++ rest) = some (tlv, tlv.info.length) := by
  have hlen := hvalid.info_length
  have htype := tlv.tlvType_lt
  have hvalue : unpack16 (UInt8.ofNat (typelen tlv.tlvType tlv.info.length / 256))
      (UInt8.ofNat (typelen tlv.tlvType tlv.info.length)) =
        tlv.tlvType * 512 + tlv.info.length := by
    rw [unpack16_pack16, typelen_eq hlen]
    rw [typelen_eq hlen]
    omega
  have htypeOf : typeOf (tlv.tlvType * 512 + tlv.info.length) = tlv.tlvType := by
    rw [typeOf_eq]
    omega
  have hlenOf : lenOf (tlv.tlvType * 512 + tlv.info.length) = tlv.info.length := by
    rw [lenOf_eq]
    omega
  simp only [Tlv.serialize, pack16, List.cons_append, List.nil_append, parseTlv, hvalue, htypeOf,
    hlenOf, List.length_append, Nat.le_add_right, if_true, List.take_left, parseInfo_info hvalid,
    Option.map_some]

theorem Tlv.serialize_length (tlv : Tlv) : tlv.serialize.length = 2 + tlv.info.length := by
  rw [serialize, List.length_append]
  rfl

theorem Tlv.serialize_ne_nil (tlv : Tlv) : tlv.serialize ≠ [] := by
  intro hempty
  have hlength := tlv.serialize_length
  rw [hempty, List.length_nil] at hlength
  omega

/-- The loop on a buffer that starts with a TLV. -/
theorem parseTlvs_cons {tlv : Tlv} (hvalid : tlv.Valid) (rest : Bytes) :
    parseTlvs (tlv.serialize ++ rest) =
      if tlv.tlvType = 0 then some ([tlv], rest)
      else if rest = [] then none
      else (parseTlvs rest).map fun parsed ↦ (tlv :: parsed.1, parsed.2) := by
  have hparse := parseTlv_serialize hvalid rest
  have hdrop : (tlv.serialize ++ rest).drop (2 + tlv.info.length) = rest := by
    rw [← tlv.serialize_length, List.drop_left]
  cases hbuf : tlv.serialize ++ rest with
  | nil => exact absurd (List.append_eq_nil_iff.mp hbuf).1 tlv.serialize_ne_nil
  | cons first more =>
    rw [hbuf] at hparse hdrop
    rw [parseTlvs, hparse]
    simp only [hdrop]

/-- The TLVs up to the first end mark come back, and the bytes behind it are left over. The
induction is on the TLVs before the end mark. -/
theorem parseTlvs_serialize {tlvs : List Tlv} (hvalid : ∀ tlv ∈ tlvs, tlv.Valid)
    (hinner : ∀ tlv ∈ tlvs, tlv ≠ .endMark) (rest : Bytes) :
    parseTlvs (serialize (tlvs ++ [.endMark]) ++ rest) = some (tlvs ++ [.endMark], rest) := by
  induction tlvs with
  | nil =>
    have hend : Tlv.Valid .endMark := trivial
    simpa [serialize, Tlv.tlvType] using parseTlvs_cons hend rest
  | cons tlv tlvs ih =>
    have htail := ih (fun other hother ↦ hvalid other (List.mem_cons_of_mem _ hother))
      fun other hother ↦ hinner other (List.mem_cons_of_mem _ hother)
    have htype : tlv.tlvType ≠ 0 := fun hzero ↦
      hinner tlv (List.mem_cons_self ..) (Tlv.tlvType_eq_zero.mp hzero)
    have hmore : serialize (tlvs ++ [.endMark]) ++ rest ≠ [] := by
      intro hempty
      rw [hempty, parseTlvs] at htail
      simp at htail
    have hsplit : serialize (tlv :: tlvs ++ [.endMark]) ++ rest =
        tlv.serialize ++ (serialize (tlvs ++ [.endMark]) ++ rest) := by
      simp [serialize]
    rw [hsplit, parseTlvs_cons (hvalid tlv (List.mem_cons_self ..)), if_neg htype, if_neg hmore,
      htail]
    rfl

/-- A data unit as the constructors build it: chassis, port and time to live first, any other TLVs
next, the end mark last and nowhere else. -/
structure DataUnit where
  chassis : UInt8 × Bytes
  port : UInt8 × Bytes
  seconds : ℕ
  optional : List Tlv
  chassis_valid : (Tlv.chassisId chassis.1 chassis.2).Valid
  port_valid : (Tlv.portId port.1 port.2).Valid
  seconds_valid : (Tlv.ttl seconds).Valid
  optional_valid : ∀ tlv ∈ optional, tlv.Valid
  optional_inner : ∀ tlv ∈ optional, tlv ≠ .endMark

/-- `lldp.tlvs`. -/
def DataUnit.tlvs (unit : DataUnit) : List Tlv :=
  .chassisId unit.chassis.1 unit.chassis.2 :: .portId unit.port.1 unit.port.2 ::
    .ttl unit.seconds :: unit.optional ++ [.endMark]

theorem DataUnit.tlvsValid (unit : DataUnit) : tlvsValid unit.tlvs = true := by
  have hlast : unit.tlvs.getLast? = some .endMark := List.getLast?_concat
  have hlength : 4 ≤ unit.tlvs.length := by simp [tlvs]
  rw [Lldp.tlvsValid, hlast, decide_eq_true hlength]
  rfl

/-- A data unit is read back as it was built, and the bytes that follow it are left over. -/
theorem parser_serialize (unit : DataUnit) (rest : Bytes) :
    parser (serialize unit.tlvs ++ rest) = some (unit.tlvs, rest) := by
  have hparsed : parseTlvs (serialize unit.tlvs ++ rest) = some (unit.tlvs, rest) := by
    refine @parseTlvs_serialize (_ :: _ :: _ :: unit.optional) ?_ ?_ rest
    · intro tlv hmem
      simp only [List.mem_cons] at hmem
      rcases hmem with rfl | rfl | rfl | hmem
      · exact unit.chassis_valid
      · exact unit.port_valid
      · exact unit.seconds_valid
      · exact unit.optional_valid tlv hmem
    · intro tlv hmem
      simp only [List.mem_cons] at hmem
      rcases hmem with rfl | rfl | rfl | hmem
      · exact nofun
      · exact nofun
      · exact nofun
      · exact unit.optional_inner tlv hmem
  rw [parser, hparsed]
  simp [unit.tlvsValid]

/-- Every data unit is read back as it was built, whatever follows it, and its bytes are those of no
other: where one data unit ends in a buffer, and what it says, is never ambiguous. -/
theorem lldp_round_trip (unit : DataUnit) (rest : Bytes) :
    parser (serialize unit.tlvs ++ rest) = some (unit.tlvs, rest) ∧
      ∀ (other : DataUnit) (rest' : Bytes),
        serialize other.tlvs ++ rest' = serialize unit.tlvs ++ rest →
          other.tlvs = unit.tlvs ∧ rest' = rest := by
  refine ⟨parser_serialize unit rest, ?_⟩
  intro other rest' hsame
  have hparsed := parser_serialize other rest'
  rw [hsame, parser_serialize unit rest] at hparsed
  obtain ⟨htlvs, hrest⟩ := Prod.mk.inj (Option.some.inj hparsed)
  exact ⟨htlvs.symm, hrest.symm⟩

end Wispr.Discovery.Lldp
