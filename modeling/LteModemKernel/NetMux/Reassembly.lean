import LteModemKernel.Lib.Scanner
import LteModemKernel.NetMux.Packet

/-!
# Reassembly of received fragments

The link may cut a message into fragments, but never puts two messages into one.
`ReceivePartial` merges the fragments, finds out the expected length from the type
byte and for data again from the complete header, and hands the message on once it is
there.  A fragment of unknown type or with too many bytes ends in a panic.

Main results:

- Theorem `reassembler_cut`: a well-formed message, cut into any non-empty
  fragments, is reassembled to exactly this message.
- Theorem `reassembler_append`: the same behind fragments that end with a message.
-/

namespace LteModemKernel.NetMux

open Lib List Nat Message

/-! ## Definitions -/

/-- A piece of a message as the link delivers it. -/
abbrev Fragment : Type := List UInt8

/-- `PARTIAL_RECEIVE`: cleared, or the bytes so far with the expected length. -/
inductive PartialReceive where
  | empty
  | building (buffer : List UInt8) (expectedLen : Nat) (type : PacketType)
  deriving DecidableEq, Repr

/-- The second half of `ReceivePartial`: look whether the header and the message
are complete. -/
def checkPartial (bytes : List UInt8) (expectedLen : Nat) (type : PacketType) :
    Option (PartialReceive × Option Message) :=
  if bytes.length < expectedLen then some (.building bytes expectedLen type, none)
  else
    -- we got at least a header: in the data case it says how much more there is
    let isHeader := type = .dataHdr
    let type := if isHeader then .dataBdy else type
    let expectedLen :=
      if isHeader then expectedLen + (readWord (bytes.drop 2)).toNat else expectedLen
    if bytes.length = expectedLen then some (.empty, Message.decode type bytes)
    else if expectedLen < bytes.length then none
    else some (.building bytes expectedLen type, none)

/-- `ReceivePartial`; a panic has no result. -/
def receivePartial (p : PartialReceive) (fragment : Fragment) :
    Option (PartialReceive × Option Message) :=
  match p with
  | .building buffer expectedLen type => checkPartial (buffer ++ fragment) expectedLen type
  | .empty =>
    match fragment with
    | [] => none
    | first :: _ => do
        let type ← PacketType.ofByte first
        let size ← type.size
        checkPartial fragment size type

/-- The receive side as a scanner of fragments; `none` is the state after a panic. -/
def reassembler : Scanner (Option PartialReceive) Fragment Message where
  start := some .empty
  step
    | none, _ => (none, none)
    | some p, fragment =>
      match receivePartial p fragment with
      | none => (none, none)
      | some (p', out) => (some p', out)

/-- The link may cut a message like this: non-empty fragments that make up its bytes. -/
def CutOf (bytes : List UInt8) (cut : List Fragment) : Prop :=
  cut.flatten = bytes ∧ ∀ f ∈ cut, f ≠ []

instance (bytes : List UInt8) (cut : List Fragment) : Decidable (CutOf bytes cut) :=
  inferInstanceAs (Decidable (_ ∧ _))

/-! ## One message -/

/-- The state of the receiver after a front part of a message that is not complete. -/
def partialOf (m : Message) (bytes : List UInt8) : PartialReceive :=
  if bytes = [] then .empty
  else match m with
  | .control p => .building bytes p.size p.type
  | .data d =>
    if bytes.length < dataPacketHdrSize then .building bytes dataPacketHdrSize .dataHdr
    else .building bytes d.size .dataBdy

/-- What the receiver makes of a non-empty front part of a message. -/
def afterBytes (m : Message) (bytes : List UInt8) : PartialReceive × Option Message :=
  if bytes = m.encode then (.empty, some m) else (partialOf m bytes, none)

theorem ControlPacket.size_eq (p : ControlPacket) : p.type.size = some p.size := by
  cases p <;> rfl

theorem ControlPacket.type_ne_dataHdr (p : ControlPacket) : p.type ≠ .dataHdr := by
  cases p <;> simp [ControlPacket.type]

variable {m : Message} {bytes : List UInt8} {d : DataPacket} {fragment : Fragment}
  {cut : List Fragment} {ms : List Message}

theorem length_lt_of_prefix_ne (hpre : bytes <+: m.encode) (hne : bytes ≠ m.encode) :
    bytes.length < m.size := by
  rw [← m.encode_length]
  rcases lt_or_ge bytes.length m.encode.length with hlt | hge
  · exact hlt
  · exact absurd (hpre.eq_of_length_le hge) hne

/-- A front part of a message whose type is already known. -/
theorem checkPartial_of_prefix {type : PacketType} (hpre : bytes <+: m.encode)
    (htype : type ≠ .dataHdr) (hdecode : decode type m.encode = some m)
    (hpart : partialOf m bytes = .building bytes m.size type) :
    checkPartial bytes m.size type = some (afterBytes m bytes) := by
  by_cases hall : bytes = m.encode
  · rw [afterBytes, if_pos hall, hall]
    simp [checkPartial, m.encode_length, htype, hdecode]
  · rw [afterBytes, if_neg hall, hpart]
    simp [checkPartial, length_lt_of_prefix_ne hpre hall]

theorem checkPartial_control {p : ControlPacket} (hne : bytes ≠ []) (hpre : bytes <+: p.encode) :
    checkPartial bytes p.size p.type = some (afterBytes (.control p) bytes) :=
  checkPartial_of_prefix (m := .control p) hpre p.type_ne_dataHdr (decode_encode (.control p))
    (if_neg hne)

/-- The body of a data packet whose header is already known. -/
theorem checkPartial_body (hlen : dataPacketHdrSize ≤ bytes.length) (hpre : bytes <+: d.encode) :
    checkPartial bytes d.size .dataBdy = some (afterBytes (.data d) bytes) := by
  have hne : bytes ≠ [] := ne_nil_of_length_pos (Nat.lt_of_lt_of_le (by decide) hlen)
  apply checkPartial_of_prefix (m := .data d) hpre PacketType.noConfusion (decode_encode (.data d))
  rw [partialOf, if_neg hne, if_neg (not_lt.mpr hlen)]
  rfl

theorem readWord_header (hlen : dataPacketHdrSize ≤ bytes.length) (hpre : bytes <+: d.encode) :
    readWord (bytes.drop 2) = d.len := by
  have htake : bytes = d.encode.take bytes.length := prefix_iff_eq_take.mp hpre
  have hword : (bytes.drop 2).take 2 = word d.len := by
    rw [htake, drop_take, take_take]
    have hmin : min 2 (bytes.length - 2) = 2 := by
      simp only [dataPacketHdrSize] at hlen
      omega
    rw [hmin]
    exact take_left' (word_length d.len)
  have hread : readWord (word d.len) = d.len := by
    simpa using readWord_word_append d.len []
  have htwo : (word d.len).take 2 = word d.len := take_of_length_le (word_length d.len).le
  calc readWord (bytes.drop 2) = .ofNat (ofLeBytes (word d.len)) := by
        rw [readWord, hword]
    _ = readWord (word d.len) := by rw [readWord, htwo]
    _ = d.len := hread

theorem checkPartial_header (hwf : d.WellFormed) (hne : bytes ≠ []) (hpre : bytes <+: d.encode) :
    checkPartial bytes dataPacketHdrSize .dataHdr = some (afterBytes (.data d) bytes) := by
  rcases lt_or_ge bytes.length dataPacketHdrSize with hlt | hge
  · have hnall : bytes ≠ d.encode := by
      intro hall
      rw [hall, d.encode_length, DataPacket.size] at hlt
      omega
    have hafter : afterBytes (.data d) bytes =
        (.building bytes dataPacketHdrSize .dataHdr, none) := by
      simp [afterBytes, encode, if_neg hnall, partialOf, if_neg hne, if_pos hlt]
    simp [checkPartial, if_pos hlt, hafter]
  · -- with the header complete the type becomes DATA_BDY and the length is added
    have hlen : dataPacketHdrSize + (readWord (bytes.drop 2)).toNat = d.size := by
      rw [readWord_header hge hpre, hwf, DataPacket.size]
    rw [← checkPartial_body hge hpre]
    have hnlt : ¬ bytes.length < dataPacketHdrSize := not_lt.mpr hge
    have hle : bytes.length ≤ d.size := d.encode_length ▸ hpre.length_le
    rcases lt_or_ge bytes.length d.size with hlt | hge'
    · have hne' : bytes.length ≠ d.size := Nat.ne_of_lt hlt
      simp [checkPartial, hnlt, hlen, hlt, hne', not_lt.mpr hle]
    · have heq : bytes.length = d.size := le_antisymm hle hge'
      have hnlt' : ¬ bytes.length < d.size := not_lt.mpr hge'
      simp only [checkPartial, if_neg hnlt, if_neg hnlt', if_true, hlen, if_pos heq]
      simp [heq]

/-- One fragment of a message: the receiver goes to the state of the longer front part,
or hands the message on. -/
theorem receivePartial_partialOf (hwf : m.WellFormed) (hne : fragment ≠ [])
    (hpre : bytes ++ fragment <+: m.encode) :
    receivePartial (partialOf m bytes) fragment = some (afterBytes m (bytes ++ fragment)) := by
  have hne' : bytes ++ fragment ≠ [] := by simp [hne]
  by_cases hnil : bytes = []
  · subst hnil
    rcases m.encode_head with ⟨rest, hhead⟩
    cases fragment with
    | nil => exact absurd rfl hne
    | cons first tail =>
      rw [nil_append, hhead] at hpre
      have hfirst : first = m.type.code := (cons_prefix_cons.mp hpre).1
      rw [← hhead] at hpre
      simp only [partialOf, if_true, nil_append, receivePartial, hfirst, PacketType.ofByte_code]
      rw [← hfirst]
      cases m with
      | data d => exact checkPartial_header hwf hne hpre
      | control p =>
        simp only [type, Option.bind_eq_bind, Option.bind_some, ControlPacket.size_eq]
        exact checkPartial_control hne hpre
  · cases m with
    | control p =>
      simp only [partialOf, if_neg hnil, receivePartial]
      exact checkPartial_control hne' hpre
    | data d =>
      rcases lt_or_ge bytes.length dataPacketHdrSize with hlt | hge
      · simp only [partialOf, if_neg hnil, if_pos hlt, receivePartial]
        exact checkPartial_header hwf hne' hpre
      · have hge' : dataPacketHdrSize ≤ (bytes ++ fragment).length := by
          rw [length_append]
          omega
        simp only [partialOf, if_neg hnil, if_neg (not_lt.mpr hge), receivePartial]
        exact checkPartial_body hge' hpre

/-! ## Sequences of fragments -/

theorem reassembler_step {p p' : PartialReceive} {out : Option Message}
    (h : receivePartial p fragment = some (p', out)) :
    reassembler.step (some p) fragment = (some p', out) := by
  simp [reassembler, h]

/-- Nothing is received after a panic. -/
theorem reassembler_run_none (fragments : List Fragment) :
    reassembler.run none fragments = (none, []) := by
  induction fragments with
  | nil => rfl
  | cons f rest ih =>
    rw [Scanner.run_cons]
    simp only [reassembler] at ih ⊢
    simp [ih]

theorem reassembler_rest (hwf : m.WellFormed) (hcut : ∀ f ∈ cut, f ≠ [])
    (hrest : bytes ++ cut.flatten = m.encode) (hne : bytes ≠ m.encode) :
    reassembler.run (some (partialOf m bytes)) cut = (some .empty, [m]) := by
  induction cut generalizing bytes with
  | nil =>
    rw [flatten_nil, append_nil] at hrest
    exact absurd hrest hne
  | cons f rest ih =>
    have hassoc : (bytes ++ f) ++ rest.flatten = m.encode := by
      rw [← hrest, flatten_cons, append_assoc]
    have hpre : bytes ++ f <+: m.encode := ⟨rest.flatten, hassoc⟩
    have hf : f ≠ [] := hcut f mem_cons_self
    have hrecv := receivePartial_partialOf hwf hf hpre
    by_cases hall : bytes ++ f = m.encode
    · -- the message is complete, so no fragment of it is left
      have hafter : afterBytes m (bytes ++ f) = (.empty, some m) := if_pos hall
      have hnil : rest = [] := by
        cases rest with
        | nil => rfl
        | cons g more =>
          have hg : g ≠ [] := hcut g (by simp)
          rw [hall] at hassoc
          have hflat : (g :: more).flatten = [] := append_cancel_left
            (hassoc.trans (append_nil _).symm)
          simp only [flatten_cons, append_eq_nil_iff] at hflat
          exact absurd hflat.1 hg
      rw [hafter] at hrecv
      rw [Scanner.run_cons, reassembler_step hrecv, hnil]
      simp
    · have hafter : afterBytes m (bytes ++ f) = (partialOf m (bytes ++ f), none) :=
        if_neg hall
      rw [hafter] at hrecv
      have hrun := ih (fun g hg => hcut g (mem_cons_of_mem f hg)) hassoc hall
      rw [Scanner.run_cons, reassembler_step hrecv, hrun]
      simp

/-- A well-formed message is reassembled from any cut into non-empty fragments. -/
theorem reassembler_cut (hwf : m.WellFormed) (hcut : CutOf m.encode cut) :
    reassembler.run (some .empty) cut = (some .empty, [m]) := by
  have hne : [] ≠ m.encode := by
    rcases m.encode_head with ⟨rest, hhead⟩
    rw [hhead]
    exact (cons_ne_nil _ _).symm
  have hrest : [] ++ cut.flatten = m.encode := hcut.1
  exact reassembler_rest hwf hcut.2 hrest hne

theorem reassembler_append (hwf : m.WellFormed) {p : Option PartialReceive}
    {fragments : List Fragment} (hrun : reassembler.run p fragments = (some .empty, ms))
    (hcut : CutOf m.encode cut) :
    reassembler.run p (fragments ++ cut) = (some .empty, ms ++ [m]) := by
  rw [Scanner.run_append, hrun, reassembler_cut hwf hcut]

theorem reassembler_first {p : PartialReceive} {f : Fragment} {rest : List Fragment}
    (hrun : reassembler.run (some p) (f :: rest) = (some .empty, ms)) :
    ∃ p' out ms', receivePartial p f = some (p', out) ∧ ms = out.toList ++ ms' ∧
      reassembler.run (some p') rest = (some .empty, ms') := by
  cases hrecv : receivePartial p f with
  | none =>
    have hstep : reassembler.step (some p) f = (none, none) := by
      simp [reassembler, hrecv]
    rw [Scanner.run_cons, hstep, reassembler_run_none] at hrun
    cases hrun
  | some r =>
    rcases r with ⟨p', out⟩
    rw [Scanner.run_cons, reassembler_step hrecv] at hrun
    have hfst : (reassembler.run (some p') rest).1 = some .empty := congrArg Prod.fst hrun
    have hsnd : out.toList ++ (reassembler.run (some p') rest).2 = ms :=
      congrArg Prod.snd hrun
    exact ⟨p', out, _, rfl, hsnd.symm, Prod.ext hfst rfl⟩

end LteModemKernel.NetMux
