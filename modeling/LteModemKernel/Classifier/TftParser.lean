import LteModemKernel.Classifier.Packet

/-!
# The TFT parser

`Qa_BearerMod_Process_Filter` reads the packet filters of a received traffic flow template into
`tft_recvd`.  It trusts the lengths in the message: the length of a filter is counted down in 8
bits by the sizes of its components, and nothing limits the number of filters.

Here a read behind the template and a write behind the array end the run with a fault.  A template
is read without one exactly if it consists of at most 16 filters whose components fill them.

Main results:

- Theorem `processFilter_encode`: what is read from the encoding of some filters.
- Theorem `tft_parsed_safely`: which templates are read without a fault.
- Theorem `tft_parsed_exactly`: the components of a filter are read back, apart from the next
  header and the first byte of the upper ends of port ranges.
-/

namespace LteModemKernel.Classifier

/-- The components of packet filters, with their values. -/
inductive Component where
  | ipv4RemoteAddress (entry : AddrMask 4)
  | ipv6RemoteAddress (entry : AddrMask 16)
  | protocol (value : UInt8)
  | nextHeader (value : UInt8)
  | localPort (port : UInt16)
  | localPortRange (range : PortEntry)
  | remotePort (port : UInt16)
  | remotePortRange (range : PortEntry)
  | securityParameterIndex (value : UInt32)
  | typeOfService (entry : DscpEntry)
  | trafficClass (entry : DscpEntry)
  | flowLabel (label : Vector UInt8 3)

open UInt32 UInt8 List Nat
open List (append_assoc forall_mem_cons length_append length_cons mem_cons_of_mem mem_cons_self
  mem_map)

/-! ## The parser -/

/-- What the parser must not do, and the end of the fuel. -/
inductive Fault where
  | read
  | write
  | fuel
  deriving DecidableEq

/-- The cases of the `switch` over the component type; `NEXT_HEADER_TYPE` is not one of
them. -/
def componentOf (pftype : UInt8) : Option ComponentType :=
  [(0x10, ComponentType.ipv4DestinationAddress), (0x20, .ipv6DestinationAddress),
    (0x30, .protocolIdentifier), (0x40, .singleSourcePort), (0x50, .singleDestinationPort),
    (0x51, .destinationPortRange), (0x41, .sourcePortRange), (0x60, .securityParameterIndex),
    (0x70, .typeOfService), (0x71, .trafficClass), (0x80, .flowLabel)].lookup pftype

/-- The bytes that a case takes. -/
def ComponentType.size : ComponentType → Nat
  | .ipv4DestinationAddress => 8
  | .ipv6DestinationAddress => 32
  | .protocolIdentifier => 1
  | .nextHeader => 1
  | .singleSourcePort => 2
  | .singleDestinationPort => 2
  | .destinationPortRange => 4
  | .sourcePortRange => 4
  | .securityParameterIndex => 4
  | .typeOfService => 2
  | .trafficClass => 2
  | .flowLabel => 3

/-- The bytes behind a component type; an unknown type has none. -/
def valueSize (pftype : UInt8) : Nat :=
  ((componentOf pftype).map ComponentType.size).getD 0

/-- Two bytes, the upper one first. -/
def be16 (v : List UInt8) (i : Nat) : UInt16 :=
  (v.getD i 0).toUInt16 <<< 8 ||| (v.getD (i + 1) 0).toUInt16

/-- What a case stores.  The upper end of a port range is composed with `sEntry[1].u16Entry1`, the
lower half of a number of entries, and its first byte is lost. -/
def PacketFilter.store (f : PacketFilter) (c : ComponentType) (v : List UInt8) : PacketFilter :=
  let f := { f with claMask := f.claMask ||| c.bit }
  match c with
  | .ipv4DestinationAddress =>
    { f with ipv4DestAddrMask := ⟨.ofFn fun i => v.getD i 0, .ofFn fun i => v.getD (4 + i) 0⟩ }
  | .ipv6DestinationAddress =>
    { f with ipv6DestAddrMask := ⟨.ofFn fun i => v.getD i 0, .ofFn fun i => v.getD (16 + i) 0⟩ }
  | .protocolIdentifier => { f with ipProt := v.getD 0 0 }
  | .nextHeader => f
  | .singleSourcePort => { f with ipSrcPort := { f.ipSrcPort with entry1 := be16 v 0 } }
  | .singleDestinationPort =>
    { f with destPortNum := 1, ipDestPort := { f.ipDestPort with entry1 := be16 v 0 } }
  | .destinationPortRange => { f with
      destPortNum := 2
      ipDestPort := ⟨be16 v 0, f.spiNum.toUInt16 <<< 8 ||| (v.getD 3 0).toUInt16⟩ }
  | .sourcePortRange =>
    { f with ipSrcPort := ⟨be16 v 0, f.destPortNum.toUInt16 <<< 8 ||| (v.getD 3 0).toUInt16⟩ }
  | .securityParameterIndex =>
    { f with spiNum := 1, spi := (((v.getD 0 0).toUInt32 <<< 8 ||| (v.getD 1 0).toUInt32) <<< 8 |||
      (v.getD 2 0).toUInt32) <<< 8 ||| (v.getD 3 0).toUInt32 }
  | .typeOfService => { f with dscp := ⟨v.getD 0 0, v.getD 1 0⟩ }
  | .trafficClass => { f with dscp := ⟨v.getD 0 0, v.getD 1 0⟩ }
  | .flowLabel => { f with ipv6FlowLabel := #v[v.getD 2 0, v.getD 1 0, v.getD 0 0] }

/-- The `switch` as a whole. -/
def PacketFilter.storeType (f : PacketFilter) (pftype : UInt8) (v : List UInt8) : PacketFilter :=
  match componentOf pftype with
  | some c => f.store c v
  | none => f

/-- The loop over the contents of a filter; `pktfilter_con_len` has 8 bits. -/
def readContents : Nat → UInt8 → List UInt8 → PacketFilter →
    Except Fault (PacketFilter × List UInt8)
  | 0, _, _, _ => .error .fuel
  | fuel + 1, conLen, data, f =>
    if conLen = 0 then .ok (f, data)
    else
      match data with
      | [] => .error .read
      | pftype :: data =>
        if data.length < valueSize pftype then .error .read
        else
          readContents fuel (conLen - 1 - UInt8.ofNat (valueSize pftype))
            (data.drop (valueSize pftype)) (f.storeType pftype (data.take (valueSize pftype)))

/-- A filter of `tft_recvd`, which was cleared, with the first two bytes of a filter. -/
def newFilter (bearerId head precedence : UInt8) : PacketFilter :=
  { PacketFilter.zero with
    epsId := bearerId
    direction := (head &&& 0x30) >>> 4
    packetFilterIdentifier := head &&& 0x0f
    packetFilterPrecedence := precedence }

/-- The loop over the filters.  The difference of the 16-bit counters is a signed one; the filters
that are filled in stand in `done`. -/
def readFilters (offsetlenZ : UInt16) (bearerId : UInt8) : Nat → UInt16 → List UInt8 →
    List PacketFilter → Except Fault (List PacketFilter)
  | 0, _, _, _ => .error .fuel
  | fuel + 1, readIndex, data, done =>
    if 0 < (offsetlenZ.toNat : Int) - readIndex.toNat then
      if maxFiltersPerTft ≤ done.length then .error .write
      else
        match data with
        | head :: precedence :: conLen :: data =>
          match readContents (data.length + 1) conLen data
              (newFilter bearerId head precedence) with
          | .error fault => .error fault
          | .ok (f, data) =>
            readFilters offsetlenZ bearerId fuel (readIndex + 3 + conLen.toUInt16) data
              (done ++ [f])
        | _ => .error .read
    else .ok done

/-- `Qa_BearerMod_Process_Filter` with the bytes of the template behind its first one. -/
def processFilter (offsetlen : UInt16) (bearerId : UInt8) (data : List UInt8) :
    Except Fault (List PacketFilter) :=
  readFilters (offsetlen - 1) bearerId (data.length + 1) 0 data []

/-! ## Encoded filters -/

/-- A packet filter as it stands in a template, with its components as types and values. -/
structure RawFilter where
  head : UInt8
  precedence : UInt8
  components : List (UInt8 × List UInt8)

/-- The contents of a filter. -/
def encodeComponents (components : List (UInt8 × List UInt8)) : List UInt8 :=
  components.flatMap fun c => c.1 :: c.2

namespace RawFilter

/-- The encoding of a filter. -/
def encode (r : RawFilter) : List UInt8 :=
  r.head :: r.precedence :: ofNat (encodeComponents r.components).length ::
    encodeComponents r.components

/-- The values have the sizes of their types, and the length of the contents fits its byte. -/
def Valid (r : RawFilter) : Prop :=
  (∀ c ∈ r.components, c.2.length = valueSize c.1) ∧ (encodeComponents r.components).length < 256

/-- What the parser makes of a filter. -/
def parsed (r : RawFilter) (bearerId : UInt8) : PacketFilter :=
  r.components.foldl (fun f c => f.storeType c.1 c.2) (newFilter bearerId r.head r.precedence)

end RawFilter

/-- The encoding of several filters. -/
def encodeFilters (rs : List RawFilter) : List UInt8 :=
  rs.flatMap RawFilter.encode

variable {components : List (UInt8 × List UInt8)} {rest data : List UInt8} {bearerId : UInt8}
  {rs : List RawFilter} {fuel : Nat} {offsetlen offsetlenZ readIndex : UInt16}
  {done : List PacketFilter}

/-- There are not more pieces than bytes. -/
theorem length_le_flatMap {α : Type*} (xs : List α) {g : α → List UInt8}
    (h : ∀ x, 1 ≤ (g x).length) : xs.length ≤ (xs.flatMap g).length := by
  induction xs with
  | nil => exact le_rfl
  | cons x xs ih =>
    have hx := h x
    rw [flatMap_cons, length_append, length_cons]
    omega

theorem ofNat_sub_size {n size : Nat} :
    UInt8.ofNat (n + size + 1) - 1 - UInt8.ofNat size = UInt8.ofNat n := by
  simp

theorem readContents_encode (hsize : ∀ c ∈ components, c.2.length = valueSize c.1)
    (hlength : (encodeComponents components).length < 256) (hfuel : components.length < fuel)
    (f : PacketFilter) :
    readContents fuel (ofNat (encodeComponents components).length)
      (encodeComponents components ++ rest) f =
      .ok (components.foldl (fun f c => f.storeType c.1 c.2) f, rest) := by
  induction components generalizing fuel f with
  | nil =>
    cases fuel with
    | zero => omega
    | succ fuel => rfl
  | cons c components ih =>
    rcases c with ⟨pftype, v⟩
    have hv : v.length = valueSize pftype := hsize _ mem_cons_self
    have hcons : encodeComponents ((pftype, v) :: components) =
        pftype :: (v ++ encodeComponents components) := rfl
    have hcount : (encodeComponents ((pftype, v) :: components)).length =
        (encodeComponents components).length + valueSize pftype + 1 := by
      rw [hcons, length_cons, length_append, hv]
      omega
    cases fuel with
    | zero => omega
    | succ fuel =>
      have hnonzero : UInt8.ofNat (encodeComponents ((pftype, v) :: components)).length ≠ 0 := by
        intro heq
        have hmod := congrArg UInt8.toNat heq
        rw [UInt8.toNat_ofNat', UInt8.toNat_zero] at hmod
        omega
      have hroom : ¬((v ++ encodeComponents components) ++ rest).length < valueSize pftype := by
        rw [append_assoc, length_append, hv]
        omega
      rw [hcons] at hnonzero ⊢
      rw [cons_append, readContents, if_neg hnonzero]
      simp only [if_neg hroom]
      rw [← hcons, hcount, ofNat_sub_size, append_assoc, ← hv, drop_left, take_left]
      exact ih (fun c hc => hsize c (mem_cons_of_mem _ hc)) (by omega)
        (lt_of_succ_lt_succ hfuel) _

theorem encode_of_readContents {conLen : UInt8} {f f' : PacketFilter}
    (h : readContents fuel conLen data f = .ok (f', rest)) :
    ∃ components, (∀ c ∈ components, c.2.length = valueSize c.1) ∧
      data = encodeComponents components ++ rest ∧
      conLen = UInt8.ofNat (encodeComponents components).length := by
  induction fuel generalizing conLen data f with
  | zero => cases h
  | succ fuel ih =>
    rw [readContents.eq_def] at h
    simp only at h
    split_ifs at h with hzero
    · cases h
      exact ⟨[], nofun, rfl, hzero⟩
    · split at h
      · cases h
      next pftype data =>
      split_ifs at h with hroom
      rcases ih h with ⟨components, hsize, hdata, hconLen⟩
      have htake : (data.take (valueSize pftype)).length = valueSize pftype := by
        rw [length_take]
        omega
      refine ⟨(pftype, data.take (valueSize pftype)) :: components,
        forall_mem_cons.mpr ⟨htake, hsize⟩, ?_, ?_⟩
      · show pftype :: data =
          pftype :: (data.take (valueSize pftype) ++ encodeComponents components) ++ rest
        rw [cons_append, append_assoc, ← hdata, take_append_drop]
      · show conLen = .ofNat
          (data.take (valueSize pftype) ++ encodeComponents components).length.succ
        rw [length_append, htake, add_comm, succ_eq_add_one, UInt8.ofNat_add, UInt8.ofNat_add,
          ← hconLen]
        simp

theorem readIndex_add (readIndex : UInt16) {n : Nat} (hn : n < 256)
    (hbound : readIndex.toNat + 3 + n < 2 ^ 16) :
    (readIndex + 3 + (UInt8.ofNat n).toUInt16).toNat = readIndex.toNat + 3 + n := by
  show ((readIndex.toNat + 3) % 2 ^ 16 + n % 2 ^ 8) % 2 ^ 16 = readIndex.toNat + 3 + n
  omega

theorem toNat_sub_one (h : offsetlen.toNat ≠ 0) : (offsetlen - 1).toNat = offsetlen.toNat - 1 := by
  refine UInt16.toNat_sub_of_le _ _ (UInt16.le_iff_toNat_le.mpr ?_)
  show 1 ≤ offsetlen.toNat
  omega

theorem readFilters_encode (hvalid : ∀ r ∈ rs, r.Valid)
    (hcount : done.length + rs.length ≤ maxFiltersPerTft)
    (hindex : readIndex.toNat + (encodeFilters rs).length = offsetlenZ.toNat)
    (hfuel : rs.length < fuel) :
    readFilters offsetlenZ bearerId fuel readIndex (encodeFilters rs) done =
      .ok (done ++ rs.map (RawFilter.parsed · bearerId)) := by
  induction rs generalizing fuel readIndex done with
  | nil =>
    cases fuel with
    | zero => omega
    | succ fuel =>
      rw [show (encodeFilters []).length = 0 from rfl] at hindex
      rw [readFilters.eq_def, map_nil, append_nil]
      exact if_neg (by omega)
  | cons r rs ih =>
    rcases hvalid r mem_cons_self with ⟨hsize, hlength⟩
    have hcons : encodeFilters (r :: rs) = r.head :: r.precedence ::
        .ofNat (encodeComponents r.components).length ::
          (encodeComponents r.components ++ encodeFilters rs) := rfl
    have htotal : (encodeFilters (r :: rs)).length =
        3 + (encodeComponents r.components).length + (encodeFilters rs).length := by
      rw [hcons]
      simp only [length_cons, length_append]
      omega
    have hcomponents : r.components.length ≤ (encodeComponents r.components).length :=
      length_le_flatMap _ fun c => succ_le_succ (zero_le _)
    rw [length_cons] at hcount
    have hbound := offsetlenZ.toNat_lt
    have hstep := readIndex_add readIndex hlength (by omega)
    cases fuel with
    | zero => omega
    | succ fuel =>
      rw [hcons, readFilters, if_pos (by omega), if_neg (by omega)]
      rw [readContents_encode hsize hlength (by rw [length_append]; omega)]
      simp only
      rw [ih (fun r hr => hvalid r (mem_cons_of_mem _ hr))
        (by rw [length_append, length_singleton]; omega) (by omega)
        (lt_of_succ_lt_succ hfuel), append_assoc]
      rfl

/-- The encoding of at most 16 filters is read without a fault. -/
theorem processFilter_encode (hvalid : ∀ r ∈ rs, r.Valid) (hcount : rs.length ≤ maxFiltersPerTft)
    (hlength : (encodeFilters rs).length + 1 = offsetlen.toNat) :
    processFilter offsetlen bearerId (encodeFilters rs) =
      .ok (rs.map (RawFilter.parsed · bearerId)) := by
  have hbound := offsetlen.toNat_lt
  have hrs : rs.length ≤ (encodeFilters rs).length :=
    length_le_flatMap _ fun r => succ_le_succ (zero_le _)
  refine readFilters_encode hvalid (by simpa using hcount) ?_ (by omega)
  rw [toNat_sub_one (by omega), UInt16.toNat_zero]
  omega

/-! ## Which templates are read without a fault -/

theorem encode_of_readFilters {fs : List PacketFilter} (hdone : done.length ≤ maxFiltersPerTft)
    (hindex : readIndex.toNat + data.length = offsetlenZ.toNat) (hshort : offsetlenZ.toNat < 256)
    (h : readFilters offsetlenZ bearerId fuel readIndex data done = .ok fs) :
    ∃ rs : List RawFilter, (∀ r ∈ rs, r.Valid) ∧ data = encodeFilters rs ∧
      fs.length = done.length + rs.length ∧ fs.length ≤ maxFiltersPerTft := by
  induction fuel generalizing readIndex data done with
  | zero => cases h
  | succ fuel ih =>
    rw [readFilters.eq_def] at h
    simp only at h
    split_ifs at h with hmore hroom
    · split at h
      · rename_i head precedence conLen data
        simp only [length_cons] at hindex
        split at h
        · cases h
        · rename_i f rest hread
          rcases encode_of_readContents hread with ⟨components, hsize, rfl, rfl⟩
          rw [length_append] at hindex
          have hlength : (encodeComponents components).length < 256 := by omega
          have hstep : (readIndex + 3 +
              (UInt8.ofNat (encodeComponents components).length).toUInt16).toNat =
              readIndex.toNat + 3 + (encodeComponents components).length :=
            readIndex_add readIndex hlength (by omega)
          rcases ih (by rw [length_append, length_singleton]; omega) (by omega) h with
            ⟨rs, hvalid, rfl, hcount, hmax⟩
          refine ⟨⟨head, precedence, components⟩ :: rs,
            forall_mem_cons.mpr ⟨⟨hsize, hlength⟩, hvalid⟩, rfl, ?_, hmax⟩
          rw [hcount, length_append, length_singleton, length_cons]
          omega
      · cases h
    · cases h
      have hnil : data = [] := eq_nil_of_length_eq_zero (by omega)
      exact ⟨[], nofun, hnil, rfl, hdone⟩

/-- `Qa_BearerMod_Process_Filter` returns, reads no byte behind the template and fills at most 16
filters exactly if the template is not empty and is the encoding of at most 16 filters whose
components fill them. -/
theorem tft_parsed_safely (tftLength bearerId : UInt8) (data : List UInt8)
    (hdata : data.length = tftLength.toNat - 1) :
    (∃ fs, processFilter tftLength.toUInt16 bearerId data = .ok fs ∧
      fs.length ≤ maxFiltersPerTft) ↔
    tftLength ≠ 0 ∧ ∃ rs : List RawFilter, rs.length ≤ maxFiltersPerTft ∧ (∀ r ∈ rs, r.Valid) ∧
      data = encodeFilters rs := by
  have hbound := tftLength.toNat_lt
  constructor
  · rintro ⟨fs, hread, -⟩
    have hne : tftLength ≠ 0 := by
      rintro rfl
      rw [eq_nil_of_length_eq_zero hdata] at hread
      cases hread
    have hpos : tftLength.toNat ≠ 0 := fun heq => hne (UInt8.toNat_inj.mp heq)
    have hsub : (tftLength.toUInt16 - 1).toNat = tftLength.toNat - 1 := by
      rw [toNat_sub_one (by rw [UInt8.toNat_toUInt16]; omega), UInt8.toNat_toUInt16]
    rcases encode_of_readFilters (zero_le _) (by rw [hsub, hdata]; exact zero_add _)
      (by omega) hread with ⟨rs, hvalid, hdata, hcount, hmax⟩
    rw [hcount, length_nil, zero_add] at hmax
    exact ⟨hne, rs, hmax, hvalid, hdata⟩
  · rintro ⟨hne, rs, hcount, hvalid, rfl⟩
    have hpos : tftLength.toNat ≠ 0 := fun heq => hne (UInt8.toNat_inj.mp heq)
    refine ⟨_, processFilter_encode hvalid hcount ?_, ?_⟩
    · rw [UInt8.toNat_toUInt16]
      omega
    · rw [length_map]
      exact hcount

/-- A filter whose length reaches behind the template, and a template with 17 filters. -/
theorem tft_parsed_unsafely :
    processFilter (4 : UInt8).toUInt16 5 [0x11, 1, 5] = .error .read ∧
      processFilter (52 : UInt8).toUInt16 5 (replicate 17 [0x11, 1, 0]).flatten =
        .error .write := by
  decide +kernel

/-- A template with one filter for the protocol TCP. -/
theorem tft_parsed_safely_protocol :
    ∃ fs, processFilter (6 : UInt8).toUInt16 5 [0x21, 1, 2, 0x30, 6] = .ok fs ∧
      fs.length ≤ maxFiltersPerTft :=
  (tft_parsed_safely 6 5 [0x21, 1, 2, 0x30, 6] rfl).mpr
    ⟨by decide, [⟨0x21, 1, [(0x30, [6])]⟩], by decide, fun r hr => by
        rw [mem_singleton.mp hr]
        exact ⟨by decide, by decide⟩, rfl⟩

/-! ## What is read back -/

open Component

/-- The bytes of a 16-bit value. -/
def bytes16 (n : UInt16) : List UInt8 :=
  [(n >>> 8).toUInt8, n.toUInt8]

namespace Component

/-- The bit for a component. -/
def type : Component → ComponentType
  | ipv4RemoteAddress _ => .ipv4DestinationAddress
  | ipv6RemoteAddress _ => .ipv6DestinationAddress
  | protocol _ => .protocolIdentifier
  | nextHeader _ => .nextHeader
  | localPort _ => .singleSourcePort
  | localPortRange _ => .sourcePortRange
  | remotePort _ => .singleDestinationPort
  | remotePortRange _ => .destinationPortRange
  | securityParameterIndex _ => .securityParameterIndex
  | typeOfService _ => .typeOfService
  | trafficClass _ => .trafficClass
  | flowLabel _ => .flowLabel

/-- The component type identifiers of the encoding. -/
def code : ComponentType → UInt8
  | .ipv4DestinationAddress => 0x10
  | .ipv6DestinationAddress => 0x20
  | .protocolIdentifier => 0x30
  | .nextHeader => 0x31
  | .singleSourcePort => 0x40
  | .sourcePortRange => 0x41
  | .singleDestinationPort => 0x50
  | .destinationPortRange => 0x51
  | .securityParameterIndex => 0x60
  | .typeOfService => 0x70
  | .trafficClass => 0x71
  | .flowLabel => 0x80

/-- The value of a component, the most significant byte of a number first. -/
def value : Component → List UInt8
  | ipv4RemoteAddress entry => entry.entry1.toList ++ entry.entry2.toList
  | ipv6RemoteAddress entry => entry.entry1.toList ++ entry.entry2.toList
  | protocol value => [value]
  | nextHeader value => [value]
  | localPort port => bytes16 port
  | localPortRange range => bytes16 range.entry1 ++ bytes16 range.entry2
  | remotePort port => bytes16 port
  | remotePortRange range => bytes16 range.entry1 ++ bytes16 range.entry2
  | securityParameterIndex value =>
    [(value >>> 24).toUInt8, (value >>> 16).toUInt8, (value >>> 8).toUInt8, value.toUInt8]
  | typeOfService entry => [entry.entry1, entry.entry2]
  | trafficClass entry => [entry.entry1, entry.entry2]
  | flowLabel label => [label.get 2, label.get 1, label.get 0]

/-- The filter has the value of the component. -/
def StoredIn (f : PacketFilter) : Component → Prop
  | ipv4RemoteAddress entry => f.ipv4DestAddrMask = entry
  | ipv6RemoteAddress entry => f.ipv6DestAddrMask = entry
  | protocol value => f.ipProt = value
  | nextHeader value => f.ipProt = value
  | localPort port => f.ipSrcPort.entry1 = port
  | localPortRange range => f.ipSrcPort = range
  | remotePort port => f.ipDestPort.entry1 = port
  | remotePortRange range => f.ipDestPort = range
  | securityParameterIndex value => f.spi = value
  | typeOfService entry => f.dscp = entry
  | trafficClass entry => f.dscp = entry
  | flowLabel label => f.ipv6FlowLabel = label

/-- The components that have a field of a filter to themselves, by the first of them. -/
def field : Component → ComponentType
  | nextHeader _ => .protocolIdentifier
  | localPortRange _ => .singleSourcePort
  | remotePortRange _ => .singleDestinationPort
  | trafficClass _ => .typeOfService
  | c => c.type

/-- The parser reads the components: none is a next header, and the first byte of the upper end of
a port range is the number of entries that stands in its place. -/
def Readable : UInt32 → UInt32 → List Component → Prop
  | _, _, [] => True
  | _, _, nextHeader _ :: _ => False
  | dest, spi, localPortRange range :: cs =>
    range.entry2 >>> 8 = dest.toUInt16 ∧ Readable dest spi cs
  | _, spi, remotePort _ :: cs => Readable 1 spi cs
  | _, spi, remotePortRange range :: cs => range.entry2 >>> 8 = spi.toUInt16 ∧ Readable 2 spi cs
  | dest, _, securityParameterIndex _ :: cs => Readable dest 1 cs
  | dest, spi, _ :: cs => Readable dest spi cs

end Component

/-- A packet filter to be encoded. -/
structure FilterSpec where
  identifier : Fin 16
  direction : Fin 4
  precedence : UInt8
  components : List Component

/-- The encoding of a packet filter. -/
def FilterSpec.raw (s : FilterSpec) : RawFilter where
  head := ofNat (s.direction.val * 16 + s.identifier.val)
  precedence := s.precedence
  components := s.components.map fun c => (Component.code c.type, c.value)

/-- The filter that was read is the one that was encoded. -/
structure FilterSpec.ReadAs (bearerId : UInt8) (s : FilterSpec) (f : PacketFilter) : Prop where
  epsId : f.epsId = bearerId
  identifier : f.packetFilterIdentifier.toNat = s.identifier.val
  direction : f.direction.toNat = s.direction.val
  precedence : f.packetFilterPrecedence = s.precedence
  mask : f.claMask = s.components.foldl (fun mask c => mask ||| c.type.bit) 0
  values : ∀ c ∈ s.components, c.StoredIn f

variable {c c' : Component} {f : PacketFilter} {cs : List Component} {s : FilterSpec}

theorem length_value (c : Component) : c.value.length = c.type.size := by
  cases c <;> simp [value, type, ComponentType.size, bytes16]

theorem be16_bytes16 (n : UInt16) (v : List UInt8) : be16 (bytes16 n ++ v) 0 = n := by
  show (n >>> 8).toUInt8.toUInt16 <<< 8 ||| n.toUInt8.toUInt16 = n
  apply UInt16.toBitVec_inj.mp
  ext i hi
  simp [-UInt16.toUInt16_toUInt8]
  grind

theorem be32_bytes (n : UInt32) :
    (((n >>> 24).toUInt8.toUInt32 <<< 8 ||| (n >>> 16).toUInt8.toUInt32) <<< 8 |||
      (n >>> 8).toUInt8.toUInt32) <<< 8 ||| n.toUInt8.toUInt32 = n := by
  apply UInt32.toBitVec_inj.mp
  ext i hi
  simp [-toUInt32_toUInt8]
  grind

theorem or_low_byte (n : UInt16) : n >>> 8 <<< 8 ||| n.toUInt8.toUInt16 = n := by
  apply UInt16.toBitVec_inj.mp
  ext i hi
  simp [-UInt16.toUInt16_toUInt8]
  grind

/-- A component that can be read is stored. -/
theorem readable_cons (h : Readable f.destPortNum f.spiNum (c :: cs)) :
    componentOf (Component.code c.type) = some c.type ∧ c.StoredIn (f.store c.type c.value) ∧
      Readable (f.store c.type c.value).destPortNum (f.store c.type c.value).spiNum cs := by
  have haddr {n : Nat} (entry : AddrMask n) :
      (⟨.ofFn fun i => (entry.entry1.toList ++ entry.entry2.toList).getD i 0,
        .ofFn fun i => (entry.entry1.toList ++ entry.entry2.toList).getD (n + i) 0⟩ :
          AddrMask n) = entry := by
    rcases entry with ⟨entry1, entry2⟩
    congr 1
    · ext i hi
      simp [getElem?_append_left]
    · ext i hi
      simp
  have hrange {num : UInt16} (range : PortEntry) (h : range.entry2 >>> 8 = num) :
      (⟨be16 (bytes16 range.entry1 ++ bytes16 range.entry2) 0,
        num <<< 8 ||| range.entry2.toUInt8.toUInt16⟩ : PortEntry) = range := by
    rw [be16_bytes16, ← h, or_low_byte]
  cases c with
  | ipv4RemoteAddress entry | ipv6RemoteAddress entry => exact ⟨rfl, haddr entry, h⟩
  | protocol value | typeOfService entry | trafficClass entry => exact ⟨rfl, rfl, h⟩
  | nextHeader value => exact h.elim
  | localPort port | remotePort port => exact ⟨rfl, be16_bytes16 port [], h⟩
  | localPortRange range | remotePortRange range => exact ⟨rfl, hrange range h.1, h.2⟩
  | securityParameterIndex value => exact ⟨rfl, be32_bytes value, h⟩
  | flowLabel label =>
    refine ⟨rfl, ?_, h⟩
    ext i hi
    rcases i with _ | _ | _ | i <;> first | rfl | omega

theorem readable_known (h : Readable f.destPortNum f.spiNum cs) :
    ∀ c ∈ cs, componentOf (Component.code c.type) = some c.type := by
  induction cs generalizing f with
  | nil => exact nofun
  | cons c cs ih =>
    rcases readable_cons h with ⟨hknown, -, hrest⟩
    exact forall_mem_cons.mpr ⟨hknown, ih hrest⟩

theorem StoredIn.store_of_ne (hne : c.field ≠ c'.field) (h : c.StoredIn f) (v : List UInt8) :
    c.StoredIn (f.store c'.type v) := by
  cases c <;> cases c' <;> first | exact (hne rfl).elim | exact h

theorem storeAll_header (cs : List Component) (f : PacketFilter) :
    let g := cs.foldl (fun f c => f.store c.type c.value) f
    g.epsId = f.epsId ∧ g.packetFilterIdentifier = f.packetFilterIdentifier ∧
      g.direction = f.direction ∧ g.packetFilterPrecedence = f.packetFilterPrecedence ∧
      g.claMask = cs.foldl (fun mask c => mask ||| c.type.bit) f.claMask := by
  induction cs generalizing f with
  | nil => exact ⟨rfl, rfl, rfl, rfl, rfl⟩
  | cons c cs ih =>
    have hrest := ih (f.store c.type c.value)
    cases c <;> exact hrest

theorem StoredIn.storeAll (hfields : ∀ c' ∈ cs, c.field ≠ c'.field) (h : c.StoredIn f) :
    c.StoredIn (cs.foldl (fun f c => f.store c.type c.value) f) := by
  induction cs generalizing f with
  | nil => exact h
  | cons c' cs ih =>
    rcases forall_mem_cons.mp hfields with ⟨hhead, htail⟩
    exact ih htail (StoredIn.store_of_ne hhead h _)

theorem storeAll_storedIn (hread : Readable f.destPortNum f.spiNum cs)
    (hfields : cs.Pairwise fun c c' => c.field ≠ c'.field) :
    ∀ c ∈ cs, c.StoredIn (cs.foldl (fun f c => f.store c.type c.value) f) := by
  induction cs generalizing f with
  | nil => exact nofun
  | cons c cs ih =>
    rcases pairwise_cons.mp hfields with ⟨hc, hcs⟩
    rcases readable_cons hread with ⟨-, hhead, htail⟩
    exact forall_mem_cons.mpr
      ⟨StoredIn.storeAll (f := f.store c.type c.value) hc hhead, ih htail hcs⟩

theorem FilterSpec.readAs (hread : Readable 0 0 s.components)
    (hfields : s.components.Pairwise fun c c' => c.field ≠ c'.field) (bearerId : UInt8) :
    s.ReadAs bearerId (s.raw.parsed bearerId) := by
  have hparsed : s.raw.parsed bearerId = s.components.foldl
      (fun f c => f.store c.type c.value) (newFilter bearerId s.raw.head s.precedence) := by
    rw [RawFilter.parsed, FilterSpec.raw, foldl_map]
    refine foldl_ext _ _ _ fun f c hc => ?_
    rw [PacketFilter.storeType, readable_known (f := .zero) hread c hc]
  rcases storeAll_header s.components (newFilter bearerId s.raw.head s.precedence) with
    ⟨heps, hid, hdir, hprec, hmask⟩
  have hhead : ∀ (d : Fin 4) (i : Fin 16),
      (UInt8.ofNat (d.val * 16 + i.val) &&& 0x0f).toNat = i.val ∧
        ((UInt8.ofNat (d.val * 16 + i.val) &&& 0x30) >>> 4).toNat = d.val := by
    decide
  rw [hparsed]
  exact ⟨heps, (congrArg UInt8.toNat hid).trans (hhead _ _).1,
    (congrArg UInt8.toNat hdir).trans (hhead _ _).2, hprec, hmask,
    storeAll_storedIn hread hfields⟩

/-- The fields. -/
def fields : List ComponentType :=
  [.ipv4DestinationAddress, .ipv6DestinationAddress, .protocolIdentifier, .singleSourcePort,
    .singleDestinationPort, .securityParameterIndex, .typeOfService, .flowLabel]

/-- The most that a component of a field takes, with its type. -/
def fieldSize : ComponentType → Nat
  | .singleSourcePort => 5
  | .singleDestinationPort => 5
  | t => t.size + 1

/-- The components of different fields fit into the contents of a filter. -/
theorem FilterSpec.raw_valid (hread : Readable 0 0 s.components)
    (hfields : s.components.Pairwise fun c c' => c.field ≠ c'.field) : s.raw.Valid := by
  constructor
  · intro c hc
    rcases mem_map.mp hc with ⟨c, hmem, rfl⟩
    rw [valueSize, readable_known (f := .zero) hread c hmem, length_value]
    rfl
  · have hsub : s.components.map field ⊆ fields := by
      intro t ht
      rcases mem_map.mp ht with ⟨c, -, rfl⟩
      cases c <;> simp [field, type, fields]
    rcases subperm_of_subset (pairwise_map.mpr hfields) hsub with ⟨l, hl, hsublist⟩
    have hle : ∀ c ∈ s.components, c.value.length + 1 ≤ fieldSize c.field := by
      intro c _
      rw [length_value]
      cases c <;> simp [field, type, fieldSize, ComponentType.size]
    calc (encodeComponents s.raw.components).length
        = (s.components.map fun c => c.value.length + 1).sum := by
          rw [encodeComponents, length_flatMap]
          simp [FilterSpec.raw, Function.comp_def]
      _ ≤ (s.components.map fun c => fieldSize c.field).sum := sum_le_sum hle
      _ = (l.map fieldSize).sum := by
          rw [(hl.map fieldSize).sum_eq, map_map]
          rfl
      _ ≤ (fields.map fieldSize).sum := (hsublist.map fieldSize).sum_le_sum fun _ _ => zero_le _
      _ < 256 := by decide

/-- `Qa_BearerMod_Process_Filter` reads back every list of at most 16 filters from its encoding,
if their components can be read and do not share a field. -/
theorem tft_parsed_exactly (filters : List FilterSpec) (bearerId : UInt8) (offsetlen : UInt16)
    (hcount : filters.length ≤ 16)
    (hread : ∀ s ∈ filters, Readable 0 0 s.components)
    (hfields : ∀ s ∈ filters, s.components.Pairwise fun c c' => c.field ≠ c'.field)
    (hlength : offsetlen.toNat = (encodeFilters (filters.map FilterSpec.raw)).length + 1) :
    ∃ fs, processFilter offsetlen bearerId (encodeFilters (filters.map FilterSpec.raw)) = .ok fs ∧
      List.Forall₂ (FilterSpec.ReadAs bearerId) filters fs := by
  refine ⟨_, processFilter_encode (fun r hr => ?_) ?_ hlength.symm, ?_⟩
  · rcases mem_map.mp hr with ⟨s, hs, rfl⟩
    exact FilterSpec.raw_valid (hread s hs) (hfields s hs)
  · rw [length_map]
    exact hcount
  · rw [map_map, forall₂_map_right_iff, forall₂_same]
    exact fun s hs => FilterSpec.readAs (hread s hs) (hfields s hs) bearerId

/-- The upper end of the local ports 80 to 8080 is read as 144, and a next header is not read. -/
theorem tft_parsed_wrongly :
    (processFilter 9 5
        (encodeFilters [(FilterSpec.mk 1 2 10 [.localPortRange ⟨80, 8080⟩]).raw])).map
        (·.map PacketFilter.ipSrcPort) = .ok [⟨80, 144⟩] ∧
      (processFilter 6 5 (encodeFilters [(FilterSpec.mk 1 2 10 [.nextHeader 6]).raw])).map
        (·.map PacketFilter.claMask) = .ok [0] := by
  decide +kernel

/-- A filter for TCP to the port 443 from the ports 1 to 456. -/
theorem tft_parsed_exactly_ports : ∃ fs, processFilter 14 5
    (encodeFilters
      ([FilterSpec.mk 1 2 10 [.protocol 6, .remotePort 443, .localPortRange ⟨1, 456⟩]].map
      FilterSpec.raw)) = .ok fs ∧
    List.Forall₂ (FilterSpec.ReadAs 5)
      [FilterSpec.mk 1 2 10 [.protocol 6, .remotePort 443, .localPortRange ⟨1, 456⟩]] fs := by
  refine tft_parsed_exactly _ 5 14 (by decide) ?_ ?_ rfl
  · simp only [forall_mem_singleton, Readable, and_true]
    decide
  · simp [field, type]

end LteModemKernel.Classifier
