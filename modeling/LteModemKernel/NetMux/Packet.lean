import LteModemKernel.Lib.LittleEndian

/-!
# NetMUX packets

The packed structures of the NetMUX protocol and their layout as bytes.  A data
packet is a four-byte header followed by the data, the other packets have a fixed
size.  Multi-byte fields are little endian, padding bytes are written as zero.

Main results:

- Theorem `Message.encode_length`: a control packet is as long as the receiver
  expects from its first byte, a data packet as long as its data and the header.
- Theorem `Message.decode_encode`: reading the fields of a packet back.
-/

namespace LteModemKernel.NetMux

open Lib List

/-! ## Packet types and direction codes -/

/-- The packet type codes; `dataBdy` is only used by the reassembly. -/
inductive PacketType where
  | dataHdr
  | dataBdy
  | credit
  | enableMux
  | disableMux
  | enableChannel
  | disableChannel
  | queryInterface
  | channelSignal
  deriving DecidableEq, Repr

/-- The value of a `PACKETTYPE_*` code. -/
def PacketType.code : PacketType → UInt8
  | .dataHdr => 1
  | .dataBdy => 2
  | .credit => 3
  | .enableMux => 4
  | .disableMux => 5
  | .enableChannel => 6
  | .disableChannel => 7
  | .queryInterface => 8
  | .channelSignal => 9

/-- The packet type of a first byte. -/
def PacketType.ofByte (b : UInt8) : Option PacketType :=
  [.dataHdr, .dataBdy, .credit, .enableMux, .disableMux, .enableChannel, .disableChannel,
    .queryInterface, .channelSignal].find? fun t => t.code = b

@[simp]
theorem PacketType.ofByte_code (t : PacketType) : PacketType.ofByte t.code = some t := by
  cases t <;> rfl

/-- `sizeof(DATA_PACKET_HDR)`. -/
def dataPacketHdrSize : Nat :=
  4

/-- `PACKET_MAXNAME_LENGTH`. -/
def packetMaxNameLength : Nat :=
  16

/-- The size of the packed structure of a packet type, of the header for data.
`ReceivePartial` knows no packet that starts with `PACKETTYPE_DATA_BDY`. -/
def PacketType.size : PacketType → Option Nat
  | .dataHdr => some dataPacketHdrSize
  | .dataBdy => none
  | .credit => some 12
  | .enableMux => some 4
  | .disableMux => some 4
  | .enableChannel => some 16
  | .disableChannel => some 8
  | .queryInterface => some (4 + packetMaxNameLength)
  | .channelSignal => some 8

/-- `COMMAND`, `SUCCESS` and `FAILURE`. -/
inductive AckKind where
  | command
  | success
  | failure
  deriving DecidableEq, Repr

/-- The `acktype` of a packet or a call: a kind at one of the two ends. -/
inductive AckType where
  | hostEnd (kind : AckKind)
  | clientEnd (kind : AckKind)
  deriving DecidableEq, Repr

/-- The bits of an `acktype` kind. -/
def AckKind.code : AckKind → UInt8
  | .command => 0x01
  | .success => 0x02
  | .failure => 0x04

/-- `host_end(type)` and `client_end(type)`. -/
def AckType.code : AckType → UInt8
  | .hostEnd kind => 0x40 ||| kind.code
  | .clientEnd kind => 0x80 ||| kind.code

/-- The `acktype` of a byte; every operation ignores the other values. -/
def AckType.ofByte (b : UInt8) : Option AckType :=
  [.hostEnd .command, .hostEnd .success, .hostEnd .failure, .clientEnd .command,
    .clientEnd .success, .clientEnd .failure].find? fun a => a.code = b

@[simp]
theorem AckType.ofByte_code (a : AckType) : AckType.ofByte a.code = some a := by
  cases a with
  | hostEnd kind | clientEnd kind => cases kind <;> rfl

/-! ## The packed structures -/

/-- A buffer with a `DATA_PACKET_HDR` in front of its data. -/
structure DataPacket where
  channel : UInt8
  len : UInt16
  payload : List UInt8
  deriving DecidableEq, Repr

/-- The `name` member of a query: `PACKET_MAXNAME_LENGTH` bytes. -/
structure Name where
  bytes : List UInt8
  length_eq : bytes.length = packetMaxNameLength
  deriving DecidableEq, Repr

/-- The control packets. -/
inductive ControlPacket where
  | credit (acktype : AckType) (channel : UInt8) (bytecredit sendcredit : UInt32)
  | enableMux (acktype : AckType)
  | disableMux (acktype : AckType)
  | enableChannel (acktype : AckType) (channel hostInterface clientInterface : UInt8)
      (bytecredit sendcredit : UInt32)
  | disableChannel (acktype : AckType) (channel hostInterface clientInterface : UInt8)
  | queryInterface (acktype : AckType) (hostInterface result : UInt8) (name : Name)
  | channelSignal (acktype : AckType) (channel : UInt8) (signal : UInt32)
  deriving DecidableEq, Repr

open ControlPacket

/-- What one buffer handed to the link holds. -/
inductive Message where
  | data (packet : DataPacket)
  | control (packet : ControlPacket)
  deriving DecidableEq, Repr

/-- The type byte of a control packet. -/
def ControlPacket.type : ControlPacket → PacketType
  | .credit .. => .credit
  | .enableMux .. => .enableMux
  | .disableMux .. => .disableMux
  | .enableChannel .. => .enableChannel
  | .disableChannel .. => .disableChannel
  | .queryInterface .. => .queryInterface
  | .channelSignal .. => .channelSignal

/-- The length of the buffer of a control packet. -/
def ControlPacket.size (p : ControlPacket) : Nat :=
  p.type.size.getD 0

/-- The length of the buffer of a data packet. -/
def DataPacket.size (d : DataPacket) : Nat :=
  dataPacketHdrSize + d.payload.length

/-- The length of the buffer of a message. -/
def Message.size : Message → Nat
  | .data d => d.size
  | .control p => p.size

/-- The header states the length of the data. -/
def DataPacket.WellFormed (d : DataPacket) : Prop :=
  d.len.toNat = d.payload.length

/-- A data packet is well formed; a control packet always is. -/
def Message.WellFormed : Message → Prop
  | .data d => d.WellFormed
  | .control _ => True

/-! ## Layout -/

/-- A 16-bit field. -/
def word (n : UInt16) : List UInt8 :=
  leBytes 2 n.toNat

/-- A 32-bit field. -/
def dword (n : UInt32) : List UInt8 :=
  leBytes 4 n.toNat

/-- The 16-bit field at the front of a buffer. -/
def readWord (bytes : List UInt8) : UInt16 :=
  UInt16.ofNat (ofLeBytes (bytes.take 2))

/-- The 32-bit field at the front of a buffer. -/
def readDword (bytes : List UInt8) : UInt32 :=
  UInt32.ofNat (ofLeBytes (bytes.take 4))

@[simp]
theorem word_length (n : UInt16) : (word n).length = 2 :=
  leBytes_length 2 n.toNat

@[simp]
theorem dword_length (n : UInt32) : (dword n).length = 4 :=
  leBytes_length 4 n.toNat

@[simp]
theorem readWord_word_append (n : UInt16) (rest : List UInt8) : readWord (word n ++ rest) = n := by
  have hlt : n.toNat < 256 ^ 2 := n.toNat_lt
  have htake : (word n ++ rest).take 2 = word n := take_left' (word_length n)
  rw [readWord, htake, word, ofLeBytes_leBytes_of_lt hlt, UInt16.ofNat_toNat]

@[simp]
theorem readDword_dword_append (n : UInt32) (rest : List UInt8) :
    readDword (dword n ++ rest) = n := by
  have hlt : n.toNat < 256 ^ 4 := n.toNat_lt
  have htake : (dword n ++ rest).take 4 = dword n := take_left' (dword_length n)
  rw [readDword, htake, dword, ofLeBytes_leBytes_of_lt hlt, UInt32.ofNat_toNat]

/-- The bytes of a control packet. -/
def ControlPacket.encode : ControlPacket → List UInt8
  | .credit a channel bytecredit sendcredit =>
    [PacketType.credit.code, a.code, channel, 0] ++ (dword bytecredit ++ dword sendcredit)
  | .enableMux a => [PacketType.enableMux.code, a.code, 0, 0]
  | .disableMux a => [PacketType.disableMux.code, a.code, 0, 0]
  | .enableChannel a channel host client bytecredit sendcredit =>
    [PacketType.enableChannel.code, a.code, channel, host, client, 0, 0, 0] ++
      (dword bytecredit ++ dword sendcredit)
  | .disableChannel a channel host client =>
    [PacketType.disableChannel.code, a.code, channel, host, client, 0, 0, 0]
  | .queryInterface a host result name =>
    [PacketType.queryInterface.code, a.code, host, result] ++ name.bytes
  | .channelSignal a channel signal =>
    [PacketType.channelSignal.code, a.code, channel, 0] ++ dword signal

/-- The bytes of a data packet: the header that `ApplyDataHdr` pushes in front. -/
def DataPacket.encode (d : DataPacket) : List UInt8 :=
  [PacketType.dataHdr.code, d.channel] ++ (word d.len ++ d.payload)

/-- The bytes of a buffer handed to the link. -/
def Message.encode : Message → List UInt8
  | .data d => d.encode
  | .control p => p.encode

/-- The type byte of a message. -/
def Message.type : Message → PacketType
  | .data _ => .dataHdr
  | .control p => p.type

/-- Read the fields of a complete control packet of a given type. -/
def ControlPacket.decode (t : PacketType) : List UInt8 → Option ControlPacket
  | _ :: ack :: rest => do
      let a ← AckType.ofByte ack
      match t, rest with
      | .credit, channel :: _ :: fields =>
        some (.credit a channel (readDword fields) (readDword (fields.drop 4)))
      | .enableMux, _ => some (.enableMux a)
      | .disableMux, _ => some (.disableMux a)
      | .enableChannel, channel :: host :: client :: _ :: _ :: _ :: fields =>
        some (.enableChannel a channel host client (readDword fields)
          (readDword (fields.drop 4)))
      | .disableChannel, channel :: host :: client :: _ =>
        some (.disableChannel a channel host client)
      | .queryInterface, host :: result :: name =>
        if h : name.length = packetMaxNameLength then
          some (.queryInterface a host result ⟨name, h⟩)
        else none
      | .channelSignal, channel :: _ :: fields =>
        some (.channelSignal a channel (readDword fields))
      | _, _ => none
  | _ => none

/-- Read a complete packet: `ReceiveData` and `ReceiveCommand` look at the
fields of the structure of its type. -/
def Message.decode (t : PacketType) (bytes : List UInt8) : Option Message :=
  match t, bytes with
  | .dataHdr, _ => none
  | .dataBdy, _ :: channel :: rest =>
    some (.data ⟨channel, readWord rest, rest.drop 2⟩)
  | _, bytes => (ControlPacket.decode t bytes).map .control

/-! ## Lengths and the round trip of the fields -/

theorem ControlPacket.encode_length (p : ControlPacket) : p.encode.length = p.size := by
  cases p with
  | queryInterface a host result name =>
    simp [encode, size, type, PacketType.size,
      name.length_eq, packetMaxNameLength]
  | _ => simp [encode, size, type, PacketType.size]

theorem DataPacket.encode_length (d : DataPacket) : d.encode.length = d.size := by
  simp only [DataPacket.encode, DataPacket.size, dataPacketHdrSize, length_append,
    word_length, length_cons, length_nil]
  omega

theorem Message.encode_length (m : Message) : m.encode.length = m.size := by
  cases m with
  | data d => exact d.encode_length
  | control p => exact p.encode_length

theorem Message.encode_head (m : Message) : ∃ rest, m.encode = m.type.code :: rest := by
  cases m with
  | data d => exact ⟨_, rfl⟩
  | control p => cases p <;> exact ⟨_, rfl⟩

theorem ControlPacket.decode_encode (p : ControlPacket) :
    decode p.type p.encode = some p := by
  cases p with
  | queryInterface a host result name =>
    simp [decode, encode, type, name.length_eq]
  | credit a channel bytecredit sendcredit
  | enableChannel a channel host client bytecredit sendcredit =>
    have hsend : readDword (dword sendcredit) = sendcredit := by
      simpa using readDword_dword_append sendcredit []
    simp [decode, encode, type, hsend]
  | channelSignal a channel signal =>
    have hsignal : readDword (dword signal) = signal := by
      simpa using readDword_dword_append signal []
    simp [decode, encode, type, hsignal]
  | _ => simp [decode, encode, type]

/-- The type a message has for the receiver once its header is complete. -/
def Message.finalType : Message → PacketType
  | .data _ => .dataBdy
  | .control p => p.type

/-- Reading the bytes of a packet gives the packet. -/
theorem Message.decode_encode (m : Message) : Message.decode m.finalType m.encode = some m := by
  cases m with
  | data d =>
    have hdrop : (word d.len ++ d.payload).drop 2 = d.payload := drop_left' (word_length d.len)
    simp [Message.decode, Message.finalType, Message.encode, DataPacket.encode, hdrop]
  | control p =>
    have hcontrol := p.decode_encode
    cases p <;>
      simpa [Message.decode, Message.finalType, Message.encode, ControlPacket.type]
        using hcontrol

end LteModemKernel.NetMux
