import LteModemKernel.Lib.Runs

/-!
# Reading back a panic dump

`apanic_proc_read` gives a part of the console or of the threads text that a panic left in the
flash memory.  A call reads one flash page into the bounce buffer and copies the bytes behind the
position in that page.  It takes the position in the page off the number of bytes that it was asked
for, and a call that asks for more bytes than the file has left gets nothing.

Main results:

- Theorem `procRead_served`: what a call copies that asks for bytes of the file and for more than
  lie before its position in the page.
- Theorem `dump_read_back`: a reader all of whose calls are such reads the whole file.
- Theorem `dump_read_short`: two readers that do not.
-/

namespace LteModemKernel.Apanic

open Lib List

/-! ## The driver -/

/-- The flash memory and `apanic_bbt`; `read` gives the page at a physical offset, or fails. -/
structure Mtd where
  writesize : Nat
  erasesizeShift : Nat
  eraseBlocks : Nat
  getBb : Nat → Bool
  read : Nat → Option (Nat → UInt8)

/-- The extents of `struct panic_header`. -/
structure PanicHeader where
  consoleOffset : Nat
  consoleLength : Nat
  threadsOffset : Nat
  threadsLength : Nat

/-- The extent of a file, its offset and its length. -/
structure Extent where
  offset : Nat
  length : Nat

/-- The file that `dat` stands for. -/
def PanicHeader.file (curr : PanicHeader) : Nat → Option Extent
  | 1 => some ⟨curr.consoleOffset, curr.consoleLength⟩
  | 2 => some ⟨curr.threadsOffset, curr.threadsLength⟩
  | _ => none

def invalidOffset : Nat := 0xFFFFFFFF

/-- The loop of `phy_offset`: the block with which `goal` good ones are counted. -/
def phyBlock (mtd : Mtd) (goal : Nat) : List Nat → Nat → Option Nat
  | [], _ => none
  | block :: blocks, goodBlock =>
    let goodBlock := if mtd.getBb block then goodBlock else goodBlock + 1
    if goodBlock = goal then some block else phyBlock mtd goal blocks goodBlock

def phyOffset (mtd : Mtd) (offset : Nat) : Nat :=
  let logicBlock := offset >>> mtd.erasesizeShift
  match phyBlock mtd ((logicBlock + 1) % 2 ^ 32) (range mtd.eraseBlocks) 0 with
  | none => invalidOffset
  | some block => (offset + (block - logicBlock) <<< mtd.erasesizeShift) % 2 ^ 32

/-- What a call returns, with the source, the size and the bytes of its `memcpy`. -/
structure Result where
  ret : Int
  pageOffset : Nat := 0
  copied : Nat := 0
  bytes : List UInt8 := []
  peof : Bool := false

def einval : Int := 22

/-- `apanic_proc_read`, with the bounce buffer before and behind it. -/
def procRead (mtd : Mtd) (curr : PanicHeader) (dat : Nat) (bounce : Nat → UInt8)
    (offset count : Nat) : Result × (Nat → UInt8) :=
  if count = 0 then ({ ret := 0 }, bounce)
  else match curr.file dat with
    | none => ({ ret := -einval }, bounce)
    | some file =>
      if file.length < (offset + count) % 2 ^ 32 then ({ ret := 0 }, bounce)
      else
        let count := min count mtd.writesize
        let pageNo : Nat := (file.offset + offset) % 2 ^ 32 / mtd.writesize
        let pageOffset : Nat := (file.offset + offset) % 2 ^ 32 % mtd.writesize
        let phy := phyOffset mtd (pageNo * mtd.writesize)
        if phy = invalidOffset then ({ ret := -einval }, bounce)
        else
          -- a failing read is not noticed
          let bounce := (mtd.read phy).getD bounce
          let count : Int := (count : Int) - pageOffset
          -- `memcpy` takes the count as a `size_t`
          let copied := (count % 2 ^ 32).toNat
          (⟨count, pageOffset, copied, (range copied).map fun i => bounce (pageOffset + i),
            (offset + count) % 2 ^ 32 = file.length⟩, bounce)

/-! ## Readers -/

/-- A reader of a file, with the counts and the results of its calls. -/
structure Reader where
  bounce : Nat → UInt8
  offset : Nat
  calls : List (Nat × Result)

namespace Reader

/-- The bytes that were returned. -/
def bytes (s : Reader) : List UInt8 := s.calls.flatMap fun call => call.2.bytes

/-- The last call has returned 0 or an error. -/
def Ended (s : Reader) : Prop := ∃ call ∈ s.calls.getLast?, call.2.ret ≤ 0

instance (s : Reader) : Decidable s.Ended :=
  inferInstanceAs (Decidable (∃ call ∈ s.calls.getLast?, call.2.ret ≤ 0))

/-- A call with a count, after which the reader advances by the value returned. -/
def exec (mtd : Mtd) (curr : PanicHeader) (dat : Nat) (s : Reader) (count : Nat) : Option Reader :=
  if 0 < count ∧ count < 2 ^ 31 ∧ ¬s.Ended then
    let (result, bounce) := procRead mtd curr dat s.bounce s.offset count
    some ⟨bounce, (s.offset + result.ret).toNat, s.calls ++ [(count, result)]⟩
  else none

end Reader

def system (mtd : Mtd) (curr : PanicHeader) (dat : Nat) : TransitionSystem Reader Nat :=
  .ofExec (fun s => s.offset = 0 ∧ s.calls = []) (Reader.exec mtd curr dat)

variable {mtd : Mtd} {curr : PanicHeader} {dat count : Nat} {file : Extent}
  {pages : Nat → Nat → UInt8} {s : Reader}

/-- The position in the flash page. -/
def inPage (mtd : Mtd) (file : Extent) (offset : Nat) : Nat :=
  (file.offset + offset) % mtd.writesize

/-- The bytes of the file, where the flash pages hold `pages`. -/
def data (mtd : Mtd) (file : Extent) (pages : Nat → Nat → UInt8) (i : Nat) : UInt8 :=
  pages ((file.offset + i) / mtd.writesize) (inPage mtd file i)

/-- The flash pages of the file can be read, and its positions are values of `off_t`. -/
structure Stored (mtd : Mtd) (file : Extent) (pages : Nat → Nat → UInt8) : Prop where
  writesize : 0 < mtd.writesize
  small : file.length < 2 ^ 31
  fits : file.offset + file.length ≤ 2 ^ 32
  page : ∀ i < file.length,
    let pageNo := (file.offset + i) / mtd.writesize
    let phy := phyOffset mtd (pageNo * mtd.writesize)
    phy ≠ invalidOffset ∧ mtd.read phy = some (pages pageNo)

/-- The call asks for bytes of the file, and for more than lie before the position in its page. -/
def Served (mtd : Mtd) (file : Extent) (s : Reader) (count : Nat) : Prop :=
  s.offset < file.length →
    s.offset + count ≤ file.length ∧ inPage mtd file s.offset < min count mtd.writesize

instance (s : Reader) (count : Nat) : Decidable (Served mtd file s count) := by
  unfold Served
  infer_instance

/-- A call inside the file copies the bytes from the position on. -/
theorem procRead_served (h : Stored mtd file pages) (hfile : curr.file dat = some file)
    (bounce : Nat → UInt8) {offset : Nat} (hoffset : offset < file.length)
    (hcount : offset + count ≤ file.length)
    (hmore : inPage mtd file offset < min count mtd.writesize) :
    ∃ n > 0, offset + n ≤ file.length ∧ n ≤ count ∧ inPage mtd file offset + n ≤ mtd.writesize ∧
      ∃ peof bounce', procRead mtd curr dat bounce offset count =
        (⟨n, inPage mtd file offset, n,
          (range n).map fun i => data mtd file pages (offset + i), peof⟩, bounce') := by
  have hfits := h.fits
  have hposition : (file.offset + offset) % 2 ^ 32 = file.offset + offset := by omega
  have hend : ¬file.length < (offset + count) % 2 ^ 32 := by omega
  have hin : (file.offset + offset) % mtd.writesize = inPage mtd file offset := rfl
  rcases h.page offset hoffset with ⟨hvalid, hread⟩
  have hsmall := h.small
  generalize hn : min count mtd.writesize - inPage mtd file offset = n
  have hret : (min count mtd.writesize : Nat) - (inPage mtd file offset : Int) = n := by omega
  have hcopied : (n : Int) % 2 ^ 32 = n := by omega
  refine ⟨n, by omega, by omega, by omega, by omega, ?_⟩
  unfold procRead
  simp only [show count ≠ 0 by omega, if_false, hfile, hend, hposition, hvalid, hread,
    hin, hret, hcopied, Int.toNat_natCast, Option.getD_some]
  refine ⟨_, _, congrArg (fun bytes => (Result.mk _ _ _ bytes _, _)) (map_congr_left ?_)⟩
  -- the bytes are those of one page
  intro i hi
  have hlt : inPage mtd file offset + i < mtd.writesize := by
    have hi := mem_range.mp hi
    omega
  have hsum : inPage mtd file offset + i + mtd.writesize * ((file.offset + offset) / mtd.writesize)
      = file.offset + (offset + i) := by
    have hsplit := Nat.mod_add_div (file.offset + offset) mtd.writesize
    omega
  rcases (Nat.div_mod_unique h.writesize).mpr ⟨hsum, hlt⟩ with ⟨hdiv, hmod⟩
  unfold data
  rw [hdiv]
  exact congrArg _ hmod.symm

/-- The calls have returned the bytes of the file up to the position, from inside the bounce
buffer and into the buffers of the caller, and the last one ends where the file ends. -/
structure ReadBack (mtd : Mtd) (file : Extent) (pages : Nat → Nat → UInt8) (s : Reader) : Prop where
  calls : ∀ call ∈ s.calls, 0 ≤ call.2.ret ∧
    call.2.pageOffset + call.2.copied ≤ mtd.writesize ∧ call.2.copied ≤ call.1
  bytes : s.bytes = (range s.offset).map (data mtd file pages)
  le : s.offset ≤ file.length
  whole : s.Ended → s.offset = file.length
  few : s.calls.length ≤ s.offset ∨ s.Ended ∧ s.calls.length ≤ s.offset + 1

/-- A call that copies the next bytes of the file, or ends with it. -/
theorem ReadBack.append {n pageOffset : Nat} {peof : Bool} {bounce : Nat → UInt8}
    (h : ReadBack mtd file pages s) (hended : ¬s.Ended) (hle : s.offset + n ≤ file.length)
    (hcaller : n ≤ count) (hbounce : pageOffset + n ≤ mtd.writesize)
    (hlast : n = 0 → s.offset = file.length) :
    ReadBack mtd file pages ⟨bounce, (s.offset + (n : Int)).toNat,
      s.calls ++ [(count, ⟨n, pageOffset, n,
        (range n).map fun i => data mtd file pages (s.offset + i), peof⟩)]⟩ := by
  have hfew := h.few.resolve_right fun hfew => hended hfew.1
  have hoffset : (s.offset + (n : Int)).toNat = s.offset + n := Int.toNat_natCast (s.offset + n)
  rw [hoffset]
  refine ⟨?_, ?_, hle, ?_, ?_⟩
  · exact forall_mem_append.mpr
      ⟨h.calls, forall_mem_singleton.mpr ⟨Int.natCast_nonneg n, hbounce, hcaller⟩⟩
  · have hbytes := h.bytes
    unfold Reader.bytes at hbytes ⊢
    rw [flatMap_append, flatMap_singleton, hbytes, range_add, map_append, map_map]
    rfl
  · intro hend
    have hzero : n = 0 := by simpa [Reader.Ended] using hend
    rw [hzero]
    exact hlast hzero
  · rw [length_append]
    rcases Nat.eq_zero_or_pos n with hzero | hpos
    · refine .inr ⟨?_, Nat.succ_le_succ (Nat.le_add_right_of_le hfew)⟩
      simp [Reader.Ended, hzero]
    · exact .inl (Nat.add_le_add hfew hpos)

theorem ReadBack.exec {s' : Reader} (hstored : Stored mtd file pages)
    (hfile : curr.file dat = some file) (h : ReadBack mtd file pages s)
    (hserved : Served mtd file s count) (hexec : s.exec mtd curr dat count = some s') :
    ReadBack mtd file pages s' := by
  rcases Option.ite_none_right_eq_some.mp hexec with ⟨⟨hpos, hint, hended⟩, hs'⟩
  by_cases hlt : s.offset < file.length
  · rcases hserved hlt with ⟨hcount, hmore⟩
    rcases procRead_served hstored hfile s.bounce hlt hcount hmore with
      ⟨n, hn, hle, hcaller, hbounce, peof, bounce', hread⟩
    rw [hread] at hs'
    cases hs'
    exact h.append hended hle hcaller hbounce fun hzero => by omega
  · have hlength : s.offset = file.length := by have := h.le; omega
    have hread : procRead mtd curr dat s.bounce s.offset count = ({ ret := 0 }, s.bounce) := by
      have hsmall := hstored.small
      have hend : file.length < (s.offset + count) % 2 ^ 32 := by omega
      simp only [procRead, hfile, hend, if_true, ite_self]
    rw [hread] at hs'
    cases hs'
    exact h.append (n := 0) hended h.le (Nat.zero_le _) (Nat.zero_le _) fun _ => hlength

/-- Every reader whose calls are served gets the bytes of the file in order, and all of them when
a call returns 0, after at most one call more than the file has bytes. -/
theorem dump_read_back (hstored : Stored mtd file pages) (hfile : curr.file dat = some file)
    {s : Reader} (hs : (system mtd curr dat).ReachableUnder (Served mtd file) s) :
    ReadBack mtd file pages s := by
  refine hs.invariant ?_ fun _ _ _ h hserved hexec => h.exec hstored hfile hserved hexec
  rintro ⟨bounce, offset, calls⟩ ⟨⟨⟩, ⟨⟩⟩
  exact ⟨nofun, rfl, Nat.zero_le _, nofun, .inl (Nat.zero_le _)⟩

/-- A flash memory with pages of four bytes and a console text behind the header page. -/
def smallFlash : Mtd := ⟨4, 4, 1, fun _ => false, fun phy => some fun i => .ofNat (phy + i)⟩

/-- A text of six bytes. -/
theorem dump_read_back_six : ∃ s, (system smallFlash ⟨4, 6, 0, 0⟩ 1).Reachable s ∧ s.Ended ∧
    s.bytes = [4, 5, 6, 7, 8, 9] ∧
    ReadBack smallFlash ⟨4, 6⟩ (fun n i => .ofNat (n * 4 + i)) s := by
  have hstored : Stored smallFlash ⟨4, 6⟩ fun n i => .ofNat (n * 4 + i) := by
    refine ⟨by decide, by decide, by decide, ?_⟩
    have hpages : ∀ i < 6, phyOffset smallFlash ((4 + i) / 4 * 4) = (4 + i) / 4 * 4 ∧
        (4 + i) / 4 * 4 ≠ invalidOffset := by decide
    intro i hi
    rcases hpages i hi with ⟨hphy, hvalid⟩
    exact ⟨fun h => hvalid (hphy.symm.trans h), congrArg smallFlash.read hphy⟩
  have hstart : (system smallFlash ⟨4, 6, 0, 0⟩ 1).ReachableUnder (Served smallFlash ⟨4, 6⟩)
      ⟨fun _ => 0, 0, []⟩ := .init ⟨rfl, rfl⟩
  rcases hstart.exists_observed (P := fun s => s.Ended ∧ s.bytes = [4, 5, 6, 7, 8, 9]) [4, 2, 1]
    (by decide +kernel) with ⟨s, hs, hended, hbytes⟩
  exact ⟨s, hs.reachable, hended, hbytes, dump_read_back hstored rfl hs⟩

/-- A reader that asks for four bytes each time loses the rest of the file, and one that asks for
a byte at the end of a page gets a negative number of bytes. -/
theorem dump_read_short :
    (∃ s, (system smallFlash ⟨4, 6, 0, 0⟩ 1).Reachable s ∧ s.Ended ∧ s.bytes = [4, 5, 6, 7]) ∧
    ∃ s, (system smallFlash ⟨4, 6, 0, 0⟩ 1).Reachable s ∧
      s.calls.map (fun call => call.2.ret) = [3, -2] := by
  have hstart : (system smallFlash ⟨4, 6, 0, 0⟩ 1).Reachable ⟨fun _ => 0, 0, []⟩ :=
    .start ⟨rfl, rfl⟩
  constructor
  · exact hstart.exists_observed [4, 4] (by decide +kernel)
  · exact hstart.exists_observed [3, 1] (by decide +kernel)

end LteModemKernel.Apanic
