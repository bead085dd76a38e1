import Mathlib

/-!
# Building TS 27.010 frames

The sender of `ts27010_mux.c`: the check sequence table, the frame header with
its one-byte and two-byte length forms, and `ts0710_pkt_send`, which reads the
length back from the header and adds the check sequence and the two flags.

Main results:

- Theorem `crcCalc_crcEnd`: the check sequence of a header, appended to it,
  leaves the constant `CRC_VALID`.
- Theorem `sendFrame_eq`: the bytes of a sent frame.
- Theorem `addrByte_ne_flag`: the address byte of a valid channel is not the flag.
-/

namespace LteModemKernel.Ts27010

open Nat UInt8

/-! ## Check sequence -/

/-- `TS0710_BASIC_FLAG`. -/
def basicFlag : UInt8 := 0xF9

/-- `CRC_VALID`. -/
def crcValid : UInt8 := 0xcf

/-- The inner loop of `ts0710_crc_create_table`: shift in the given number of
bits of `data`, lowest first. -/
def crcShift : Nat → UInt8 → UInt8 → UInt8
  | 0, _, sr => sr
  | n + 1, data, sr =>
    crcShift n (data >>> 1)
      (if (data &&& 1) ^^^ (sr &&& 1) ≠ 0 then (sr >>> 1) ^^^ 0xe0 else sr >>> 1)

/-- The table of `ts0710_crc_create_table`. -/
def crctable (j : UInt8) : UInt8 := crcShift 8 j 0

/-- `ts0710_crc_start`. -/
def crcStart : UInt8 := 0xff

/-- `ts0710_crc_calc`. -/
def crcCalc (fcs c : UInt8) : UInt8 := crctable (fcs ^^^ c)

/-- `ts0710_crc_end`. -/
def crcEnd (fcs : UInt8) : UInt8 := 0xff - fcs

/-- `ts0710_crc_check`. -/
def crcCheck (fcs : UInt8) : Bool := fcs = crcValid

/-- `ts0710_crc_data`. -/
def crcData (data : List UInt8) : UInt8 := crcEnd (data.foldl crcCalc crcStart)

/-- Reading a check sequence after the bytes it was made from gives the constant
that the receiver looks for. -/
theorem crcCalc_crcEnd (fcs : UInt8) : crcCalc fcs (crcEnd fcs) = crcValid := by
  have hxor : ∀ x : BitVec 8, x ^^^ (0xff - x) = 0xff := by decide
  rw [crcCalc, crcEnd, show fcs ^^^ (0xff - fcs) = 0xff from UInt8.toBitVec_inj.mp (hxor _)]
  decide

/-! ## Frames -/

/-- `SHORT_PAYLOAD_SIZE`. -/
def shortPayloadSize : Nat := 127

/-- The byte of `struct address_field`. -/
def addrByte (addrEa addrCr : Bool) (addrDlci : Nat) : UInt8 :=
  ofNat (addrEa.toNat + 2 * addrCr.toNat + 4 * (addrDlci % 2)
    + 8 * (addrDlci / 2 % 32))

/-- The bytes of the length field: `struct short_length` or
`struct long_length`. -/
def lengthBytes (len : Nat) : List UInt8 :=
  if len > shortPayloadSize then
    [ofNat (2 * (len % 128)), ofNat (len / 128 % 256)]
  else [ofNat (1 + 2 * (len % 128))]

/-- `ts0710_pkt_set_header`: the bytes from `data + 1` on. -/
def pktSetHeader (len : Nat) (addrEa addrCr : Bool) (addrDlci : Nat) (control : UInt8) :
    List UInt8 :=
  addrByte addrEa addrCr addrDlci :: control :: lengthBytes len

/-- `TS0710_FRAME_SIZE`. -/
def frameSize (len : Nat) : Nat :=
  if len > shortPayloadSize then len + 2 + 4 + 1 else len + 2 + 3 + 1

/-- `ts0710_pkt_send` on a packet that starts with its header: the length is read
back from the header, and the frame handed to the line discipline is returned. -/
def pktSend (pkt : List UInt8) : List UInt8 :=
  let first := pkt.getD 2 0
  let short := first &&& 1 = 1
  let len := if short then (first >>> 1).toNat
    else (pkt.getD 3 0).toNat <<< 7 ||| (first >>> 1).toNat
  let headerLen := if short then 3 else 4
  (basicFlag :: pkt.take (headerLen + len) ++ [crcData (pkt.take headerLen), basicFlag]).take
    (frameSize len)

/-- A frame as the sender's callers describe it. -/
structure FrameSpec where
  addrEa : Bool
  addrCr : Bool
  addrDlci : Nat
  control : UInt8
  payload : List UInt8

/-- Build the packet and send it. -/
def sendFrame (f : FrameSpec) : List UInt8 :=
  pktSend (pktSetHeader f.payload.length f.addrEa f.addrCr f.addrDlci f.control ++ f.payload)

/-- The address byte of the frame. -/
def FrameSpec.addr (f : FrameSpec) : UInt8 := addrByte f.addrEa f.addrCr f.addrDlci

theorem shortLen_and_one (len : Nat) : ofNat (1 + 2 * (len % 128)) &&& 1 = 1 := by
  apply UInt8.toNat_inj.mp
  rw [UInt8.toNat_and]
  simp only [toNat_ofNat', toNat_one, and_one_is_mod]
  omega

theorem longLen_and_one (len : Nat) : UInt8.ofNat (2 * (len % 128)) &&& 1 ≠ 1 := by
  intro h
  have hnat := congrArg toNat h
  rw [UInt8.toNat_and] at hnat
  simp only [toNat_ofNat', toNat_one, and_one_is_mod] at hnat
  omega

theorem shortLen_shift (len : Nat) (h : len ≤ shortPayloadSize) :
    (UInt8.ofNat (1 + 2 * (len % 128)) >>> 1).toNat = len := by
  unfold shortPayloadSize at h
  rw [UInt8.toNat_shiftRight]
  simp [shiftRight_eq_div_pow]
  omega

theorem longLen_shift (len : Nat) : (UInt8.ofNat (2 * (len % 128)) >>> 1).toNat = len % 128 := by
  rw [UInt8.toNat_shiftRight]
  simp [shiftRight_eq_div_pow]
  omega

/-- The two length bytes put together again, in either order of the operands. -/
theorem long_len_join (len : Nat) (h : len < 2 ^ 15) :
    len % 128 ||| (ofNat (len / 128 % 256)).toNat <<< 7 = len := by
  have hhigh : (ofNat (len / 128 % 256)).toNat = len / 128 := by
    simp
    omega
  rw [hhigh, Nat.or_comm, ← Nat.shiftLeft_add_eq_or_of_lt (Nat.mod_lt _ (by decide)), shiftLeft_eq]
  omega

/-- The header as a whole. -/
def FrameSpec.header (f : FrameSpec) : List UInt8 :=
  f.addr :: f.control :: lengthBytes f.payload.length

/-- A sent frame: flag, header, payload, check sequence of the header, flag. -/
theorem sendFrame_eq (f : FrameSpec) (h : f.payload.length < 2 ^ 15) :
    sendFrame f = basicFlag :: f.header ++ f.payload ++ [crcData f.header, basicFlag] := by
  unfold sendFrame pktSetHeader FrameSpec.header FrameSpec.addr lengthBytes
  split_ifs with hlong
  · have hlen : (ofNat (f.payload.length / 128 % 256)).toNat <<< 7 |||
        (ofNat (2 * (f.payload.length % 128)) >>> 1).toNat = f.payload.length := by
      rw [longLen_shift, Nat.or_comm, long_len_join _ h]
    have hbit := longLen_and_one f.payload.length
    generalize ofNat (2 * (f.payload.length % 128)) = lo at hlen hbit ⊢
    simp only [pktSend, List.cons_append, List.nil_append, List.getD_cons_succ,
      List.getD_cons_zero, hbit, if_false, hlen, frameSize, if_pos hlong]
    simp [add_comm 4]
  · have hlen := shortLen_shift f.payload.length (Nat.le_of_not_lt hlong)
    have hbit := shortLen_and_one f.payload.length
    generalize ofNat (1 + 2 * (f.payload.length % 128)) = short at hlen hbit ⊢
    simp only [pktSend, List.cons_append, List.nil_append, List.getD_cons_succ,
      List.getD_cons_zero, hbit, if_true, hlen, frameSize, if_neg hlong]
    simp [add_comm 3]

/-- The address byte of a channel up to 16 is not the flag. -/
theorem addrByte_ne_flag (addrEa addrCr : Bool) (addrDlci : Nat) (h : addrDlci ≤ 16) :
    addrByte addrEa addrCr addrDlci ≠ basicFlag := by
  intro heq
  have hnat := congrArg toNat heq
  have hea := Bool.toNat_le addrEa
  have hcr := Bool.toNat_le addrCr
  have hflag : basicFlag.toNat = 249 := rfl
  rw [hflag, addrByte, toNat_ofNat'] at hnat
  omega

end LteModemKernel.Ts27010
