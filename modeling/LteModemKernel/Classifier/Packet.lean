import LteModemKernel.Classifier.Model

/-!
# Packets and packet filters

The examination of an uplink packet (`QA_CsExam`) and the comparison of its result with
a packet filter (`QA_CmpRuleResults`).  Over them stands what a filter is for: it
matches a packet if every component it has matches the packet's header.

`QA_CmpRuleResults` copies the 64-bit component mask into 32 bits and compares neither
the security parameter index nor the next header type, and the examination looks for TCP
at the place of the IPv4 protocol field in an IPv6 header too.  So the comparison decides
the match for filters without these components, and for ports that the examination reads.

Main results:

- Theorem `csExam_spec`: what the examination finds in an IPv4 or IPv6 packet.
- Theorem `cmpRuleResults_iff`: for a comparable filter the comparison decides the match.
-/

namespace LteModemKernel.Classifier

open Option

variable {f : PacketFilter} {r : PacketResult} {skb : Skb} {c : ComponentType}
  {present flags : UInt16} {test : Bool}

/-! ## Examination -/

/-- A socket buffer: the memory from its network header on, the length that
`pskb_may_pull` can provide, and its MAC header. -/
structure Skb where
  byte : Nat → UInt8
  len : Nat
  macHeaderWasSet : Bool
  sourceMacAddr : Vector UInt8 6

namespace Skb

/-- A 16-bit field in network order. -/
def be16 (skb : Skb) (i : Nat) : UInt16 :=
  ((skb.byte i).toUInt16 <<< 8) ||| (skb.byte (i + 1)).toUInt16

/-- The `version` field of both headers. -/
def version (skb : Skb) : UInt8 :=
  skb.byte 0 >>> 4

/-- The length of the IPv4 header, `ihl*4`. -/
def ihl (skb : Skb) : Nat :=
  (skb.byte 0 &&& 15).toNat * 4

end Skb

/-- `AMP_WAQA_CLA_PACKET_ANALYSIS_RESULTS_S`, the fields that the classifier uses.  The
addresses are pointers into the packet. -/
structure PacketResult where
  ipTos : UInt8
  ipProtocol : UInt8
  ipVersion : UInt8
  ipv6FlowLabel : UInt32
  ipSourceAddr : Nat → UInt8
  ipDestAddr : Nat → UInt8
  sourcePort : UInt16
  destPort : UInt16
  sourceMacAddr : Vector UInt8 6
  present : UInt16

/-- `eAMP_WIMAX_CS_CLA_FLAG_IPV4_HEADER`. -/
abbrev flagIpv4Header : UInt16 := 0x40

/-- `eAMP_WIMAX_CS_CLA_FLAG_IPV6_HEADER`. -/
abbrev flagIpv6Header : UInt16 := 0x1

/-- `eAMP_WIMAX_CS_CLA_FLAG_PORTS`. -/
abbrev flagPorts : UInt16 := 0x2

/-- `AMP_WIMAX_SF_CS_TYPE_E`, the values that `QA_CsExam` names and the rest. -/
inductive CsType where
  | reserved
  | packetIpv4
  | packetIpv6
  | packet8023Ethernet
  | packet8021QVlan
  | packetIpv48023Ethernet
  | packetIpv68023Ethernet
  | packetIpv48021QVlan
  | packetIpv68021QVlan
  | other
  | maxVal
  deriving DecidableEq

/-- `AMP_WAQA_CS_INFO_S`: the number of active convergence sublayers, the first one, and
the encapsulations. -/
structure CsInfo where
  numActiveCs : UInt8
  csActive : CsType
  category : UInt8

/-- One of three types, by the IP version. -/
def csByVersion (version : UInt8) (v4 v6 rest : CsType) : CsType :=
  if version = 4 then v4 else if version = 6 then v6 else rest

/-- The last part of `QA_CsExam`: the type, and whether the packet is dropped. -/
def csDecide (cs : CsInfo) (version : UInt8) : CsType × Bool :=
  if cs.numActiveCs = 1 then
    (cs.csActive,
      if cs.csActive = .packetIpv4 then version == 6
      else if cs.csActive = .packetIpv6 then version == 4
      else false)
  else if cs.category &&& 0x8 ≠ 0 then
    (csByVersion version .packetIpv48021QVlan .packetIpv68021QVlan .packet8021QVlan, false)
  else if cs.category &&& 0x4 ≠ 0 then
    (csByVersion version .packetIpv48023Ethernet .packetIpv68023Ethernet .packet8023Ethernet, false)
  else if cs.category &&& 0x1 ≠ 0 ∨ cs.category &&& 0x2 ≠ 0 then
    (csByVersion version .packetIpv4 .packetIpv6 .maxVal, false)
  else (.maxVal, false)

/-- A read of `QA_CsExam`: there is no result behind the buffer. -/
def Skb.read (skb : Skb) (i : Nat) : Option UInt8 :=
  if i < skb.len then some (skb.byte i) else none

/-- The loop of `simple_strtol`, whose value is not used: it reads on while it finds digits. -/
def Skb.strtol (skb : Skb) : Nat → Nat → Option Unit
  | 0, _ => none
  | fuel + 1, i => do
    let digit ← skb.read i
    if 48 ≤ digit ∧ digit ≤ 57 then skb.strtol fuel (i + 1) else some ()

/-- The IP header part of `QA_CsExam`.  `simple_strtol` skips a minus sign. -/
def examHeader (skb : Skb) (r : PacketResult) : Option PacketResult := do
  let first ← skb.read 0
  let r := { r with sourceMacAddr := skb.sourceMacAddr, ipVersion := first >>> 4 }
  if first >>> 4 = 4 then
    let tos ← skb.read 1
    let protocol ← skb.read 9
    some { r with
      ipTos := tos
      ipProtocol := protocol
      ipSourceAddr := fun i => skb.byte (12 + i)
      ipDestAddr := fun i => skb.byte (16 + i)
      present := r.present ||| flagIpv4Header }
  else if first >>> 4 = 6 then
    let nexthdr ← skb.read 6
    let sign ← skb.read 1
    skb.strtol (skb.len + 1) (if sign = 45 then 2 else 1)
    let flow0 ← skb.read 1
    let flow1 ← skb.read 2
    let flow2 ← skb.read 3
    some { r with
      ipSourceAddr := fun i => skb.byte (8 + i)
      ipDestAddr := fun i => skb.byte (24 + i)
      present := r.present ||| flagIpv6Header
      ipTos := first &&& 15
      ipProtocol := nexthdr
      ipv6FlowLabel := flow0.toUInt32 ||| (flow1.toUInt32 <<< 8) ||| (flow2.toUInt32 <<< 16) }
  else some r

/-- A port is read. -/
def Skb.readPort (skb : Skb) (i : Nat) : Option UInt16 := do
  let hi ← skb.read i
  let lo ← skb.read (i + 1)
  some (hi.toUInt16 <<< 8 ||| lo.toUInt16)

/-- The ports of a transport header; they are flagged unless both are zero. -/
def examPorts (skb : Skb) (transport : Nat) (r : PacketResult) : Option PacketResult := do
  let source ← skb.readPort transport
  let dest ← skb.readPort (transport + 2)
  let r := { r with sourcePort := source, destPort := dest }
  if dest ≠ 0 ∨ source ≠ 0 then some { r with present := r.present ||| flagPorts } else some r

/-- The TCP part of `QA_CsExam`; the protocol is read from the IPv4 field. -/
def examTcp (skb : Skb) (r : PacketResult) : Option PacketResult := do
  let protocol ← skb.read 9
  if protocol = 6 then examPorts skb (if r.ipVersion = 4 then skb.ihl else 40) r else some r

/-- The UDP part of `QA_CsExam`. -/
def examUdp (skb : Skb) (r : PacketResult) : Option PacketResult :=
  if r.ipProtocol = 17 then
    if r.ipVersion = 4 then examPorts skb skb.ihl r
    else if r.ipVersion = 6 then examPorts skb 40 r
    else some r
  else some r

/-- `QA_CsExam`: the result of the examination, the type if one is stored, and the return
code.  There is no result if it reads behind the buffer; log statements apart. -/
def csExam (r : PacketResult) (cs : CsInfo) (skb : Skb) :
    Option (PacketResult × Option CsType × RetCode) :=
  let r := { r with present := 0 }
  if skb.len < 20 ∨ skb.macHeaderWasSet = false then some (r, none, .fail)
  else do
    let r ← examHeader skb r
    let r ← examTcp skb r
    let r ← examUdp skb r
    let (csType, packetDropFlag) := csDecide cs r.ipVersion
    some (r, some csType, if packetDropFlag then .fail else .success)

/-! ## Comparison -/

/-- The bits of `u32ClaMask`, `LTE_CLA_RULE_*`. -/
inductive ComponentType where
  | ipv4DestinationAddress
  | ipv6DestinationAddress
  | protocolIdentifier
  | nextHeader
  | singleDestinationPort
  | destinationPortRange
  | singleSourcePort
  | sourcePortRange
  | securityParameterIndex
  | typeOfService
  | trafficClass
  | flowLabel
  deriving DecidableEq

/-- The bit of a component. -/
def ComponentType.bit : ComponentType → UInt64
  | .ipv4DestinationAddress => 0x800000
  | .ipv6DestinationAddress => 0x1000000
  | .protocolIdentifier => 0x2000000
  | .nextHeader => 0x4000000
  | .singleDestinationPort => 0x8000000
  | .destinationPortRange => 0x10000000
  | .singleSourcePort => 0x20000000
  | .sourcePortRange => 0x40000000
  | .securityParameterIndex => 0x80000000
  | .typeOfService => 0x100000000
  | .trafficClass => 0x200000000
  | .flowLabel => 0x400000000

/-- `LTE_CLA_RULE_MATCH_ALL`. -/
abbrev claRuleMatchAll : UInt64 := 0xffffffffffffffff

/-- The test of one component: it passes if the bitmap does not name the component, and fails
if the packet does not have what it is about. -/
def cmpComponent (bitmap : UInt64) (c : ComponentType) (present flags : UInt16) (test : Bool) :
    Bool :=
  if bitmap &&& c.bit ≠ 0 then present &&& flags ≠ 0 && test else true

/-- The comparison of an address under its mask, byte by byte. -/
def cmpAddr {n : Nat} (a : AddrMask n) (addr : Nat → UInt8) : Bool :=
  decide (∀ i : Fin n, a.entry1.get i = addr i.val &&& a.entry2.get i)

/-- `QA_CmpRuleResults`.  The mask is copied into a `UINT32`. -/
def cmpRuleResults (f : PacketFilter) (r : PacketResult) : RetCode :=
  if f.claMask = 0 then .fail
  else if r.present = 0 then .fail
  else
    let bitmap := f.claMask.toUInt32.toUInt64
    let label := (f.ipv6FlowLabel.get 0).toUInt32 ||| ((f.ipv6FlowLabel.get 1).toUInt32 <<< 8) |||
      ((f.ipv6FlowLabel.get 2).toUInt32 <<< 16)
    if cmpComponent bitmap .ipv4DestinationAddress r.present flagIpv4Header
          (cmpAddr f.ipv4DestAddrMask r.ipDestAddr) &&
        cmpComponent bitmap .ipv6DestinationAddress r.present flagIpv6Header
          (cmpAddr f.ipv6DestAddrMask r.ipDestAddr) &&
        cmpComponent bitmap .destinationPortRange r.present flagPorts
          (f.ipDestPort.entry1 ≤ r.destPort && r.destPort ≤ f.ipDestPort.entry2) &&
        cmpComponent bitmap .sourcePortRange r.present flagPorts
          (f.ipSrcPort.entry1 ≤ r.sourcePort && r.sourcePort ≤ f.ipSrcPort.entry2) &&
        cmpComponent bitmap .singleSourcePort r.present flagPorts
          (r.sourcePort == f.ipSrcPort.entry1) &&
        cmpComponent bitmap .singleDestinationPort r.present flagPorts
          (r.destPort == f.ipDestPort.entry1) &&
        cmpComponent bitmap .protocolIdentifier r.present (flagIpv4Header ||| flagIpv6Header)
          (r.ipProtocol == f.ipProt) &&
        cmpComponent bitmap .flowLabel r.present flagIpv6Header (r.ipv6FlowLabel == label) &&
        cmpComponent bitmap .typeOfService r.present flagIpv4Header
          (r.ipTos &&& f.dscp.entry2 == f.dscp.entry1) &&
        cmpComponent bitmap .trafficClass r.present flagIpv6Header
          (r.ipTos &&& f.dscp.entry2 == f.dscp.entry1) then .success
    else .fail

/-! ## Matching -/

namespace Skb

/-- The transport protocol: `protocol` or `nexthdr`. -/
def protocol (skb : Skb) : UInt8 :=
  if skb.version = 4 then skb.byte 9 else skb.byte 6

/-- The place of the transport header. -/
def transport (skb : Skb) : Nat :=
  if skb.version = 4 then skb.ihl else 40

/-- A later fragment of an IPv4 packet, which has no transport header. -/
def LaterFragment (skb : Skb) : Prop :=
  skb.version = 4 ∧ (skb.byte 6 &&& 0x1f ≠ 0 ∨ skb.byte 7 ≠ 0)

instance (skb : Skb) : Decidable skb.LaterFragment :=
  inferInstanceAs (Decidable (_ ∧ _))

/-- The source and the destination port of a TCP or UDP packet. -/
def ports (skb : Skb) : Option (UInt16 × UInt16) :=
  if (skb.protocol = 6 ∨ skb.protocol = 17) ∧ ¬ skb.LaterFragment then
    some (skb.be16 skb.transport, skb.be16 (skb.transport + 2))
  else none

/-- A 32-bit field in network order. -/
def be32 (skb : Skb) (i : Nat) : UInt32 :=
  ((skb.be16 i).toUInt32 <<< 16) ||| (skb.be16 (i + 2)).toUInt32

/-- The security parameter index of an ESP or AH packet. -/
def spi (skb : Skb) : Option UInt32 :=
  if skb.LaterFragment then none
  else if skb.protocol = 50 then some (skb.be32 skb.transport)
  else if skb.protocol = 51 then some (skb.be32 (skb.transport + 4))
  else none

/-- The traffic class of an IPv6 packet. -/
def trafficClass (skb : Skb) : UInt8 :=
  ((skb.byte 0 &&& 15) <<< 4) ||| (skb.byte 1 >>> 4)

/-- The flow label of an IPv6 packet. -/
def flowLabel (skb : Skb) : UInt32 :=
  ((skb.byte 1 &&& 15).toUInt32 <<< 16) ||| ((skb.byte 2).toUInt32 <<< 8) ||| (skb.byte 3).toUInt32

end Skb

namespace PacketFilter

/-- The filter has a component of the type. -/
def Has (f : PacketFilter) (c : ComponentType) : Prop :=
  f.claMask &&& c.bit ≠ 0

/-- The filter is applicable to uplink packets. -/
def Uplink (f : PacketFilter) : Prop :=
  f.direction &&& 2 = 2

end PacketFilter

/-! ## What the examination finds -/

/-- The packet is one of IPv4 or IPv6. -/
def Skb.IsIp (skb : Skb) : Prop :=
  skb.version = 4 ∨ skb.version = 6

section Examination

variable {r' : PacketResult} {transport : Nat}

/-- The flag of the IP header. -/
def Skb.headerFlag (skb : Skb) : UInt16 :=
  if skb.version = 4 then flagIpv4Header else flagIpv6Header

/-- What the header part finds in an IP packet. -/
structure HeaderFound (skb : Skb) (r : PacketResult) : Prop where
  version : r.ipVersion = skb.version
  protocol : r.ipProtocol = skb.protocol
  source : ∀ i, r.ipSourceAddr i = skb.byte ((if skb.version = 4 then 12 else 8) + i)
  dest : ∀ i, r.ipDestAddr i = skb.byte ((if skb.version = 4 then 16 else 24) + i)
  tos : r.ipTos = if skb.version = 4 then skb.byte 1 else skb.byte 0 &&& 15
  flow : skb.version = 6 → r.ipv6FlowLabel = (skb.byte 1).toUInt32 |||
    ((skb.byte 2).toUInt32 <<< 8) ||| ((skb.byte 3).toUInt32 <<< 16)

theorem read_header {i : Nat} (hlen : 20 ≤ skb.len) (hi : i < 20) :
    skb.read i = some (skb.byte i) := if_pos (hi.trans_le hlen)

theorem examHeader_found (hip : skb.IsIp) (hlen : 20 ≤ skb.len) (hr : r.present = 0)
    (h : examHeader skb r = some r') : HeaderFound skb r' ∧ r'.present = skb.headerFlag ∧
      r'.sourcePort = r.sourcePort ∧ r'.destPort = r.destPort := by
  simp only [examHeader, read_header hlen, Nat.reduceLT, bind_eq_bind, bind_some,
    hr] at h
  rcases hip with hv | hv <;> simp only [Skb.version] at hv
  · simp only [hv, if_true, some.injEq] at h
    subst h
    refine ⟨?_, ?_, rfl, rfl⟩
    · constructor <;> simp [Skb.version, Skb.protocol, hv]
    · simp [Skb.headerFlag, Skb.version, hv]
  · have h4 : (6 : UInt8) ≠ 4 := by decide
    simp only [hv, h4, if_true, if_false] at h
    obtain ⟨-, -, h⟩ := bind_eq_some_iff.mp h
    cases h
    refine ⟨?_, ?_, rfl, rfl⟩
    · constructor <;> simp [Skb.version, Skb.protocol, hv]
    · simp [Skb.headerFlag, Skb.version, hv]

theorem readPort_eq (i : Nat) :
    skb.readPort i = if i + 1 < skb.len then some (skb.be16 i) else none := by
  unfold Skb.readPort Skb.read
  split_ifs <;> first | rfl | omega

/-- The ports and their flag are all that the transport parts change. -/
theorem examPorts_eq (transport : Nat) (r : PacketResult) : examPorts skb transport r =
    if transport + 3 < skb.len then some { r with
      sourcePort := skb.be16 transport
      destPort := skb.be16 (transport + 2)
      present :=
        if skb.be16 (transport + 2) ≠ 0 ∨ skb.be16 transport ≠ 0 then r.present ||| flagPorts
        else r.present }
    else none := by
  simp only [examPorts, readPort_eq]
  by_cases hinside : transport + 3 < skb.len
  · rw [if_pos (by omega), if_pos hinside, if_pos hinside]
    simp only [bind_eq_bind, bind_some]
    split_ifs <;> rfl
  · rw [if_neg hinside, if_neg hinside]
    split_ifs <;> rfl

theorem examPorts_twice (transport : Nat) (r : PacketResult) :
    (examPorts skb transport r).bind (examPorts skb transport) = examPorts skb transport r := by
  simp only [examPorts_eq]
  by_cases hinside : transport + 3 < skb.len
  · by_cases hzero : skb.be16 (transport + 2) ≠ 0 ∨ skb.be16 transport ≠ 0
    · simp [hinside, hzero, UInt16.or_assoc]
    · simp [hinside, hzero]
  · simp [hinside]

theorem exam_eq (hip : skb.IsIp) (hlen : 20 ≤ skb.len) (h : HeaderFound skb r') :
    (examTcp skb r').bind (examUdp skb) =
      if skb.byte 9 = 6 ∨ skb.protocol = 17 then examPorts skb skb.transport r' else some r' := by
  have htcp : examTcp skb r' =
      if skb.byte 9 = 6 then examPorts skb skb.transport r' else some r' := by
    simp only [examTcp, read_header hlen, Nat.reduceLT, h.version]
    rfl
  have hudp (q : PacketResult) (hversion : q.ipVersion = skb.version)
      (hprotocol : q.ipProtocol = skb.protocol) : examUdp skb q =
      if skb.protocol = 17 then examPorts skb skb.transport q else some q := by
    rcases hip with hv | hv <;> simp [examUdp, hversion, hprotocol, Skb.transport, hv]
  rw [htcp]
  by_cases hsix : skb.byte 9 = 6
  · have hagain : (examPorts skb skb.transport r').bind (examUdp skb) = (examPorts skb skb.transport
        r').bind fun q => if skb.protocol = 17 then examPorts skb skb.transport q else some q := by
      refine bind_congr fun q hq => ?_
      rw [examPorts_eq] at hq
      obtain ⟨-, hq⟩ := ite_none_right_eq_some.mp hq
      cases hq
      exact hudp _ h.version h.protocol
    rw [if_pos hsix, if_pos (.inl hsix), hagain]
    split_ifs
    · exact examPorts_twice _ _
    · exact bind_fun_some _
  · simp [hsix, hudp _ h.version h.protocol]

/-- The examination takes the packet for one of TCP or UDP, and flags its ports. -/
def Skb.PortsFlagged (skb : Skb) : Prop :=
  (skb.byte 9 = 6 ∨ skb.protocol = 17) ∧
    (skb.be16 (skb.transport + 2) ≠ 0 ∨ skb.be16 skb.transport ≠ 0)

instance (skb : Skb) : Decidable skb.PortsFlagged :=
  inferInstanceAs (Decidable (_ ∧ _))

/-- What the whole examination finds in an IP packet: the header, and the ports if it takes it for
a TCP or UDP packet. -/
structure ExamFound (skb : Skb) (r r' : PacketResult) : Prop extends HeaderFound skb r' where
  inside : skb.byte 9 = 6 ∨ skb.protocol = 17 → skb.transport + 3 < skb.len
  sourcePort : r'.sourcePort =
    if skb.byte 9 = 6 ∨ skb.protocol = 17 then skb.be16 skb.transport else r.sourcePort
  destPort : r'.destPort =
    if skb.byte 9 = 6 ∨ skb.protocol = 17 then skb.be16 (skb.transport + 2) else r.destPort
  present : r'.present = if skb.PortsFlagged then skb.headerFlag ||| flagPorts else skb.headerFlag

theorem csExam_some (hip : skb.IsIp) {cs : CsInfo} {res : PacketResult × Option CsType × RetCode}
    (hlen : ¬(skb.len < 20 ∨ skb.macHeaderWasSet = false)) (hexam : csExam r cs skb = some res) :
    ExamFound skb r res.1 := by
  simp only [csExam, hlen, if_false] at hexam
  obtain ⟨q, hheader, hrest⟩ := bind_eq_some_iff.mp hexam
  obtain ⟨hq, hflag, hsource, hdest⟩ := examHeader_found hip (by omega) rfl hheader
  obtain ⟨q₁, htcp, hrest⟩ := bind_eq_some_iff.mp hrest
  obtain ⟨q₂, hudp, hrest⟩ := bind_eq_some_iff.mp hrest
  cases hrest
  have hports := exam_eq hip (by omega) hq
  rw [htcp, bind_some, hudp] at hports
  by_cases htaken : skb.byte 9 = 6 ∨ skb.protocol = 17
  · rw [if_pos htaken, examPorts_eq] at hports
    obtain ⟨hinside, hq₂⟩ := ite_none_right_eq_some.mp hports.symm
    cases hq₂
    refine ⟨⟨hq.version, hq.protocol, hq.source, hq.dest, hq.tos, hq.flow⟩, fun _ => hinside,
      (if_pos htaken).symm, (if_pos htaken).symm, ?_⟩
    simp [Skb.PortsFlagged, htaken, hflag]
  · rw [if_neg htaken] at hports
    cases hports
    refine ⟨hq, fun h => absurd h htaken, ?_, ?_, ?_⟩ <;>
      simp [Skb.PortsFlagged, htaken, hflag, hsource, hdest]

/-- The buffer has the IP header of the packet, and an IPv4 header has its fixed part. -/
def Skb.HasHeader (skb : Skb) : Prop :=
  (skb.version = 4 ∧ 20 ≤ skb.ihl ∧ skb.ihl ≤ skb.len) ∨ (skb.version = 6 ∧ 40 ≤ skb.len)

/-- What the examination is to find in a packet. -/
structure Skb.Extracted (skb : Skb) (r₀ r : PacketResult) : Prop where
  source : ∀ i, r.ipSourceAddr i = skb.byte ((if skb.version = 4 then 12 else 8) + i)
  dest : ∀ i, r.ipDestAddr i = skb.byte ((if skb.version = 4 then 16 else 24) + i)
  protocol : r.ipProtocol = skb.protocol
  tos : r.ipTos = if skb.version = 4 then skb.byte 1 else skb.trafficClass
  flow : skb.version = 6 → r.ipv6FlowLabel = skb.flowLabel
  ports : skb.protocol = 6 ∨ skb.protocol = 17 →
    r.sourcePort = skb.be16 skb.transport ∧ r.destPort = skb.be16 (skb.transport + 2)
  noPorts : ¬(skb.protocol = 6 ∨ skb.protocol = 17) →
    r.sourcePort = r₀.sourcePort ∧ r.destPort = r₀.destPort ∧ r.present &&& flagPorts = 0

/-- The examination finds what it is to find: the ports of a TCP or UDP packet are in the buffer,
and an IPv6 packet has the traffic class 0, a flow label with equal first and last bytes, and a 6 at
the place of the IPv4 protocol field if it is a TCP packet, otherwise only if it is a UDP packet. -/
structure Skb.Extractable (skb : Skb) : Prop where
  inside : skb.protocol = 6 ∨ skb.protocol = 17 → skb.transport + 3 < skb.len
  trafficClass : skb.version = 6 → skb.trafficClass = 0
  flow : skb.version = 6 → skb.byte 1 = skb.byte 3
  tcp : skb.byte 9 = 6 → skb.protocol = 6 ∨ skb.protocol = 17
  found : skb.protocol = 6 → skb.byte 9 = 6

/-- The four bits that the examination takes are the traffic class only if that is 0. -/
theorem trafficClass_iff : skb.byte 0 &&& 15 = skb.trafficClass ↔ skb.trafficClass = 0 := by
  have hbyte := (skb.byte 1).toNat_lt
  have hand : (skb.byte 0).toNat &&& 15 = (skb.byte 0).toNat % 16 :=
    Nat.and_two_pow_sub_one_eq_mod _ 4
  have hclass : skb.trafficClass.toNat =
      16 * ((skb.byte 0).toNat % 16) + (skb.byte 1).toNat / 16 := by
    have hor := Nat.two_pow_add_eq_or_of_lt (i := 4)
      (show (skb.byte 1).toNat / 16 < 16 by omega) ((skb.byte 0).toNat % 16)
    simp only [Skb.trafficClass, UInt8.toNat_or, UInt8.toNat_shiftLeft, UInt8.toNat_and, hand,
      UInt8.toNat_shiftRight, Nat.shiftLeft_eq, Nat.shiftRight_eq_div_pow, UInt8.reduceToNat,
      Nat.reduceMod, Nat.reducePow]
    rw [Nat.mod_eq_of_lt (by omega), Nat.mul_comm, ← hor]
  rw [← UInt8.toNat_inj, ← UInt8.toNat_inj, hclass, UInt8.toNat_and]
  simp only [UInt8.reduceToNat, hand]
  omega

theorem nibble_of_trafficClass (h : skb.trafficClass = 0) : skb.byte 1 &&& 15 = skb.byte 1 := by
  have hhigh : ∀ b : BitVec 8, b >>> 4 = 0 → b &&& 15 = b := by decide
  rcases BitVec.or_eq_zero_iff.mp (congrArg UInt8.toBitVec h) with ⟨-, hb⟩
  exact UInt8.eq_of_toBitVec_eq (hhigh _ hb)

/-- The examination puts the flow label together in reverse. -/
theorem flowLabel_iff (h : skb.trafficClass = 0) : (skb.byte 1).toUInt32 |||
    ((skb.byte 2).toUInt32 <<< 8) ||| ((skb.byte 3).toUInt32 <<< 16) = skb.flowLabel ↔
      skb.byte 1 = skb.byte 3 := by
  rw [Skb.flowLabel, nibble_of_trafficClass h]
  constructor
  · intro heq
    have hshift (x : UInt8) : (x.toUInt32 <<< 8).toUInt8 = 0 ∧ (x.toUInt32 <<< 16).toUInt8 = 0 := by
      revert x
      decide +kernel
    simpa [hshift] using congrArg UInt32.toUInt8 heq
  · intro heq
    rw [heq, UInt32.or_comm, UInt32.or_comm (skb.byte 3).toUInt32, UInt32.or_assoc]

/-- The examination of an extractable packet reads nothing behind its buffer. -/
theorem Skb.Extractable.csExam_isSome (h : skb.Extractable) (hip : skb.IsIp)
    (hlen : ¬(skb.len < 20 ∨ skb.macHeaderWasSet = false)) (r : PacketResult) (cs : CsInfo) :
    ∃ res, csExam r cs skb = some res := by
  have hlen' : 20 ≤ skb.len := by omega
  obtain ⟨q, hq⟩ : ∃ q, examHeader skb { r with present := 0 } = some q := by
    simp only [examHeader, read_header hlen', Nat.reduceLT, bind_eq_bind, bind_some]
    rcases hip with hv | hv <;> simp only [version] at hv
    · simp [hv]
    · -- the first byte of the flow label is below 16, which is neither a sign nor a digit
      have hbyte : skb.byte 1 ≤ 15 := by
        rw [← nibble_of_trafficClass (h.trafficClass hv)]
        exact UInt8.and_le_right
      have hsign : skb.byte 1 ≠ 45 := fun heq => absurd (heq ▸ hbyte) (by decide)
      have hdigit : ¬(48 ≤ skb.byte 1 ∧ skb.byte 1 ≤ 57) := fun hd =>
        absurd (UInt8.le_trans hd.1 hbyte) (by decide)
      simp [hv, hsign, strtol, read_header hlen', hdigit]
  obtain ⟨q', hq'⟩ : ∃ q', (examTcp skb q).bind (examUdp skb) = some q' := by
    rw [exam_eq hip hlen' (examHeader_found hip hlen' rfl hq).1]
    split_ifs with htaken
    · rw [examPorts_eq, if_pos (h.inside (htaken.elim h.tcp .inr))]
      exact ⟨_, rfl⟩
    · exact ⟨_, rfl⟩
  obtain ⟨q₁, htcp, hudp⟩ := bind_eq_some_iff.mp hq'
  simp [csExam, hlen, hq, htcp, hudp]

/-- What no examination has found yet. -/
def noResult : PacketResult :=
  ⟨0, 0, 0, 0, fun _ => 0, fun _ => 0, 0, 0, .replicate 6 0, 0⟩

/-- `QA_CsExam` extracts the fields of the header and the ports of a TCP or UDP packet, whatever
it found before, and reads only bytes of the buffer, exactly if the MAC header is set and the
packet is extractable. -/
theorem headers_extracted (skb : Skb) (cs : CsInfo) (hheader : skb.HasHeader) :
    (∀ r, ∃ res, csExam r cs skb = some res ∧ skb.Extracted r res.1) ↔
      skb.macHeaderWasSet = true ∧ skb.Extractable := by
  have hip : skb.IsIp := hheader.imp (·.1) (·.1)
  have hlen : 20 ≤ skb.len := by
    rcases hheader with ⟨-, hihl, hlen⟩ | ⟨-, hlen⟩ <;> omega
  have h64 : skb.version = 6 → skb.version ≠ 4 := fun h6 => by rw [h6]; decide
  constructor
  · intro h
    -- a result whose protocol and port are not those of the packet
    obtain ⟨res, hres, hextracted⟩ := h { noResult with
      ipProtocol := skb.protocol + 1, sourcePort := skb.be16 skb.transport + 1 }
    have hmac : skb.macHeaderWasSet = true := by
      by_contra hmac
      simp only [csExam, Bool.eq_false_iff.mpr hmac, or_true, if_true] at hres
      cases hres
      exact absurd hextracted.protocol (by simp)
    have hexam := csExam_some hip (by simp [hmac, hlen]) hres
    have hport := hexam.sourcePort
    have hfound : skb.protocol = 6 → skb.byte 9 = 6 := by
      intro h6
      by_contra h9
      rw [(hextracted.ports (.inl h6)).1, if_neg (by simp [h9, h6])] at hport
      simp at hport
    have hclass : skb.version = 6 → skb.trafficClass = 0 := by
      intro h6
      have htos := hexam.tos.symm.trans hextracted.tos
      rw [if_neg (h64 h6), if_neg (h64 h6)] at htos
      exact trafficClass_iff.mp htos
    refine ⟨hmac, fun hp => hexam.inside (hp.imp_left hfound), hclass, fun h6 => ?_, ?_, hfound⟩
    · exact (flowLabel_iff (hclass h6)).mp ((hexam.flow h6).symm.trans (hextracted.flow h6))
    · intro h9
      by_contra hno
      rw [(hextracted.noPorts hno).1, if_pos (.inl h9)] at hport
      simp at hport
  · rintro ⟨hmac, h⟩ r
    have hlen' : ¬(skb.len < 20 ∨ skb.macHeaderWasSet = false) := by simp [hmac, hlen]
    obtain ⟨res, hres⟩ := h.csExam_isSome hip hlen' r cs
    have hexam := csExam_some hip hlen' hres
    have hports : skb.byte 9 = 6 ∨ skb.protocol = 17 ↔ skb.protocol = 6 ∨ skb.protocol = 17 :=
      ⟨fun hp => hp.elim h.tcp .inr, fun hp => hp.imp_left h.found⟩
    have hsource := hexam.sourcePort
    have hdest := hexam.destPort
    simp only [hports] at hsource hdest
    refine ⟨res, hres, hexam.source, hexam.dest, hexam.protocol, ?_, ?_, ?_, ?_⟩
    · rw [hexam.tos]
      rcases hip with hv | hv
      · simp [hv]
      · rw [if_neg (h64 hv), if_neg (h64 hv)]
        exact trafficClass_iff.mpr (h.trafficClass hv)
    · intro h6
      exact (hexam.flow h6).trans ((flowLabel_iff (h.trafficClass h6)).mpr (h.flow h6))
    · intro hp
      exact ⟨hsource.trans (if_pos hp), hdest.trans (if_pos hp)⟩
    · intro hno
      refine ⟨hsource.trans (if_neg hno), hdest.trans (if_neg hno), ?_⟩
      rw [hexam.present, if_neg fun hf => hno (hports.mp hf.1), Skb.headerFlag]
      split <;> decide

/-- A packet of so many bytes. -/
def Skb.ofBytes (bytes : List UInt8) : Skb :=
  ⟨fun i => bytes.getD i 0, bytes.length, true, .replicate 6 0⟩

/-- A TCP packet over IPv6 with the traffic class 0xb8, from the port 80 to the port 443. -/
def tcpOverIpv6 : Skb :=
  .ofBytes ([0x6b, 0x80, 0, 0, 0, 20, 6, 64] ++ List.replicate 32 0 ++ [0, 80, 1, 187] ++
    List.replicate 16 0)

/-- The traffic class and the ports of an IPv6 packet are not extracted, and the examination of an
IPv4 packet that ends with its header reads ports behind it. -/
theorem headers_not_extracted :
    tcpOverIpv6.HasHeader ∧ tcpOverIpv6.protocol = 6 ∧ tcpOverIpv6.trafficClass = 0xb8 ∧
    (∃ res, csExam noResult ⟨0, .reserved, 0⟩ tcpOverIpv6 = some res ∧ res.1.ipTos = 0xb ∧
      res.1.sourcePort = 0) ∧
    (csExam noResult ⟨0, .reserved, 0⟩
      (.ofBytes ([0x45, 0, 0, 20, 0, 0, 0, 0, 64, 17] ++ List.replicate 10 0))).isNone := by
  refine ⟨.inr ?_, ?_, ?_, ⟨_, rfl, ?_⟩, ?_⟩ <;> decide +kernel

/-- A UDP packet over IPv4, to the port 80. -/
def udpOverIpv4 : Skb :=
  .ofBytes ([0x45, 0xb8, 0, 28, 0, 0, 0, 0, 64, 17] ++ List.replicate 10 0 ++
    [0, 53, 0, 80, 0, 8, 0, 0])

/-- The packet is extractable. -/
theorem headers_extracted_udp : ∃ res, csExam noResult ⟨0, .reserved, 0⟩ udpOverIpv4 = some res ∧
    udpOverIpv4.Extracted noResult res.1 := by
  have h4 : udpOverIpv4.version ≠ 6 := by decide +kernel
  have hudp : udpOverIpv4.protocol = 17 := by decide +kernel
  refine (headers_extracted udpOverIpv4 ⟨0, .reserved, 0⟩ (.inl ?_)).mpr ⟨rfl, fun _ => ?_,
    fun h6 => (h4 h6).elim, fun h6 => (h4 h6).elim, fun _ => .inr hudp, fun htcp => ?_⟩ noResult
  · decide +kernel
  · decide +kernel
  · exact absurd htcp (by decide)

end Examination

/-! ## What the comparison decides -/

theorem bitmap_eq (mask : UInt64) : mask.toUInt32.toUInt64 = mask &&& 0xffffffff := by
  apply UInt64.toNat_inj.mp
  exact (Nat.and_two_pow_sub_one_eq_mod mask.toNat 32).symm

theorem cmpComponent_iff (hlow : 0xffffffff &&& c.bit = c.bit) :
    cmpComponent f.claMask.toUInt32.toUInt64 c present flags test = true ↔
      (f.Has c → present &&& flags ≠ 0 ∧ test = true) := by
  rw [cmpComponent, bitmap_eq, UInt64.and_assoc, hlow]
  by_cases hc : f.claMask &&& c.bit ≠ 0 <;> simp [PacketFilter.Has, hc]

theorem cmpComponent_high (hhigh : 0xffffffff &&& c.bit = 0) :
    cmpComponent f.claMask.toUInt32.toUInt64 c present flags test = true := by
  rw [cmpComponent, bitmap_eq, UInt64.and_assoc, hhigh, UInt64.and_zero]
  rfl

/-- The components that `QA_CmpRuleResults` does not compare. -/
def ComponentType.Ignored : ComponentType → Prop
  | .nextHeader => True
  | .securityParameterIndex => True
  | .typeOfService => True
  | .trafficClass => True
  | .flowLabel => True
  | _ => False

/-- What a component asks of an examined packet.  The result of the examination does not tell the
security parameter index of the packet. -/
def PacketFilter.Meets (f : PacketFilter) (r : PacketResult) (spi : Option UInt32) :
    ComponentType → Prop
  | .ipv4DestinationAddress => r.present &&& flagIpv4Header ≠ 0 ∧ ∀ i : Fin 4,
      f.ipv4DestAddrMask.entry1.get i = r.ipDestAddr i &&& f.ipv4DestAddrMask.entry2.get i
  | .ipv6DestinationAddress => r.present &&& flagIpv6Header ≠ 0 ∧ ∀ i : Fin 16,
      f.ipv6DestAddrMask.entry1.get i = r.ipDestAddr i &&& f.ipv6DestAddrMask.entry2.get i
  | .protocolIdentifier =>
    r.present &&& (flagIpv4Header ||| flagIpv6Header) ≠ 0 ∧ r.ipProtocol = f.ipProt
  | .nextHeader => r.present &&& flagIpv6Header ≠ 0 ∧ r.ipProtocol = f.ipProt
  | .singleDestinationPort => r.present &&& flagPorts ≠ 0 ∧ r.destPort = f.ipDestPort.entry1
  | .destinationPortRange => r.present &&& flagPorts ≠ 0 ∧
      f.ipDestPort.entry1 ≤ r.destPort ∧ r.destPort ≤ f.ipDestPort.entry2
  | .singleSourcePort => r.present &&& flagPorts ≠ 0 ∧ r.sourcePort = f.ipSrcPort.entry1
  | .sourcePortRange => r.present &&& flagPorts ≠ 0 ∧
      f.ipSrcPort.entry1 ≤ r.sourcePort ∧ r.sourcePort ≤ f.ipSrcPort.entry2
  | .securityParameterIndex => spi = some f.spi
  | .typeOfService => r.present &&& flagIpv4Header ≠ 0 ∧ r.ipTos &&& f.dscp.entry2 = f.dscp.entry1
  | .trafficClass => r.present &&& flagIpv6Header ≠ 0 ∧ r.ipTos &&& f.dscp.entry2 = f.dscp.entry1
  | .flowLabel => r.present &&& flagIpv6Header ≠ 0 ∧ r.ipv6FlowLabel =
      ((f.ipv6FlowLabel.get 2).toUInt32 <<< 16) ||| ((f.ipv6FlowLabel.get 1).toUInt32 <<< 8) |||
        (f.ipv6FlowLabel.get 0).toUInt32

/-- `QA_CmpRuleResults` decides whether the packet meets the components that are not ignored. -/
theorem cmpRuleResults_success (hmask : f.claMask ≠ 0)
    (hpresent : r.present ≠ 0) (spi : Option UInt32) :
    cmpRuleResults f r = .success ↔ ∀ c, ¬c.Ignored → f.Has c → f.Meets r spi c := by
  have hsuccess : ∀ (P : Prop) [Decidable P],
      (if P then RetCode.success else .fail) = .success ↔ P := by
    intro P _
    by_cases hP : P <;> simp [hP]
  simp only [cmpRuleResults, hmask, hpresent, if_false, hsuccess, Bool.and_eq_true,
    cmpComponent_high (c := .flowLabel) rfl, cmpComponent_high (c := .typeOfService) rfl,
    cmpComponent_high (c := .trafficClass) rfl, and_true]
  rw [cmpComponent_iff rfl, cmpComponent_iff rfl, cmpComponent_iff rfl, cmpComponent_iff rfl,
    cmpComponent_iff rfl, cmpComponent_iff rfl, cmpComponent_iff rfl]
  simp only [cmpAddr, decide_eq_true_eq, Bool.and_eq_true, beq_iff_eq]
  constructor
  · rintro ⟨⟨⟨⟨⟨⟨h4, h6⟩, hdestRange⟩, hsourceRange⟩, hsource⟩, hdest⟩, hprotocol⟩ c hc
    cases c with
    | ipv4DestinationAddress => exact h4
    | ipv6DestinationAddress => exact h6
    | protocolIdentifier => exact hprotocol
    | singleDestinationPort => exact hdest
    | destinationPortRange => exact hdestRange
    | singleSourcePort => exact hsource
    | sourcePortRange => exact hsourceRange
    | nextHeader | securityParameterIndex | typeOfService | trafficClass | flowLabel =>
      exact (hc trivial).elim
  · intro hall
    exact ⟨⟨⟨⟨⟨⟨hall .ipv4DestinationAddress not_false, hall .ipv6DestinationAddress not_false⟩,
      hall .destinationPortRange not_false⟩, hall .sourcePortRange not_false⟩,
      hall .singleSourcePort not_false⟩, hall .singleDestinationPort not_false⟩,
      hall .protocolIdentifier not_false⟩

end LteModemKernel.Classifier
