import Mathlib.Data.Nat.Bitwise
import RelizOS.Library.ByteMemory
import RelizOS.Library.RadixTable
import RelizOS.Paging.FrameAllocator

/-!
# Page tables

A page table is a 4 KiB frame of 512 entries of 64 bits. `map_page` works on the tables through the
bootloader's mapping of all physical memory at `PHYS_MEM_OFFSET`; the processor reads the same bytes
by physical address when it translates. Both are here: first the entries, then `map_page` as the
kernel computes it, then the walk of the processor, which is the meaning of the tables.

## What is taken from the `x86_64` crate

An entry is unused when it is zero; its address is bits 12 to 51, its flags are the other bits;
`set_addr` stores their union and asserts that the address is aligned. `PhysAddr::new` asserts that
an address is below `2 ^ 52`, `VirtAddr::new` that the bits from 47 on are all equal, or only bit 47
is set.
-/

open ByteMemory

namespace RelizOS

/-! ## Entries -/

/-- The address bits of an entry. -/
def addrMask : UInt64 := 0x000ffffffffff000

/-- Flags of an entry: bits outside the address. -/
structure PageTableFlags where
  /-- The bits. -/
  bits : UInt64
  bits_and : bits &&& addrMask = 0
  deriving DecidableEq

namespace PageTableFlags

/-- The entry is in use by the processor. -/
def PRESENT : UInt64 := 1

/-- The page may be written. -/
def WRITABLE : UInt64 := 2

/-- The page may be accessed from user mode. -/
def USER_ACCESSIBLE : UInt64 := 4

/-- The entry of a level 3 or level 2 table maps a page itself. -/
def HUGE_PAGE : UInt64 := 0x80

/-- `flags.contains(flag)` for a single flag. -/
def contains (bits flag : UInt64) : Prop := bits &&& flag ≠ 0

instance (bits flag : UInt64) : Decidable (contains bits flag) :=
  inferInstanceAs (Decidable (_ ≠ _))

/-- The flags of an intermediate table. -/
def table : PageTableFlags := ⟨PRESENT ||| WRITABLE ||| USER_ACCESSIBLE, by decide⟩

end PageTableFlags

/-- The address in an entry. -/
def entryAddr (entry : UInt64) : ℕ := (entry &&& addrMask).toNat

/-- The flags of an entry. -/
def entryFlags (entry : UInt64) : UInt64 := entry &&& ~~~addrMask

/-- The entry with a given address and given flags. -/
def mkEntry (phys : ℕ) (flags : PageTableFlags) : UInt64 := UInt64.ofNat phys ||| flags.bits

/-- `PhysAddr::new`. -/
def physAddrNew (phys : ℕ) : Checked ℕ := do
  Checked.ensure (phys < 2 ^ 52)
  return phys

/-- `VirtAddr::new`. -/
def virtAddrNew (virt : ℕ) : Checked Unit :=
  Checked.ensure (virt / 2 ^ 47 = 0 ∨ virt / 2 ^ 47 = 1 ∨ virt / 2 ^ 47 = 0x1FFFF)

/-! ## The kernel's side -/

/-- What the paging code works on. -/
structure Paging where
  /-- `PHYS_MEM_OFFSET`. -/
  physMemOffset : ℕ
  /-- Memory, by virtual address, where physical memory is mapped. -/
  mem : Mem
  /-- The number of the frame of the level 4 table. -/
  cr3 : ℕ
  /-- `FRAME_ALLOCATOR`. -/
  frameAllocator : Option BootInfoFrameAllocator

/-- The `?` operator on a computation that ends in `Ok` or in `Err`: go on after `Ok`, stop at
`Err`. -/
def andThen {α β : Type} (x : Checked (Except String α × Paging))
    (f : α → Paging → Checked (Except String β × Paging)) : Checked (Except String β × Paging) := do
  match ← x with
  | (.ok a, s) => f a s
  | (.error e, s) => return (.error e, s)

namespace Paging

/-- Convert a physical address to a virtual one. -/
def physToVirt (s : Paging) (phys : ℕ) : Checked ℕ := Checked.add 64 phys s.physMemOffset

/-- Allocate a physical frame, zero it, and return its physical address. -/
def allocZeroedFrame (s : Paging) : Checked (Except String ℕ × Paging) :=
  match s.frameAllocator with
  | none => return (.error "Frame allocator not initialized", s)
  | some alloc => do
    let (frame, alloc) ← alloc.allocateFrame
    let s := { s with frameAllocator := some alloc }
    match frame with
    | none => return (.error "Out of physical frames", s)
    | some phys =>
      let virt ← s.physToVirt phys
      return (.ok phys, { s with mem := zeroFill s.mem virt 4096 })

/-- The table the processor starts at. -/
def activeLevel4Table (s : Paging) : Checked ℕ := s.physToVirt (s.cr3 * 4096)

/-- The address of `table[index]`. -/
def entryPtr (table index : ℕ) : Checked ℕ :=
  if index < 512 then .ok (table + 8 * index) else .error .bounds

/-- `entry.set_addr(addr, flags)`. -/
def setAddr (s : Paging) (entry phys : ℕ) (flags : PageTableFlags) : Checked Paging := do
  Checked.ensure (4096 ∣ phys)
  return { s with mem := writeU64 s.mem entry (mkEntry phys flags) }

/-- Get or create the table that an entry of `table` points to. -/
def nextTable (s : Paging) (table index : ℕ) : Checked (Except String ℕ × Paging) := do
  let entry ← entryPtr table index
  if readU64 s.mem entry = 0 then
    andThen s.allocZeroedFrame fun framePhys s ↦ do
      let phys ← physAddrNew framePhys
      let s ← s.setAddr entry phys .table
      return (.ok (← s.physToVirt (entryAddr (readU64 s.mem entry))), s)
  else
    return (.ok (← s.physToVirt (entryAddr (readU64 s.mem entry))), s)

/-- Map a virtual page to a physical frame, allocating intermediate tables as needed. -/
def mapPage (s : Paging) (virtPage physFrame : ℕ) (flags : PageTableFlags) :
    Checked (Except String Unit × Paging) := do
  let l4Table ← s.activeLevel4Table
  let l4Index := (virtPage >>> 39) &&& 0x1FF
  let l3Index := (virtPage >>> 30) &&& 0x1FF
  let l2Index := (virtPage >>> 21) &&& 0x1FF
  let l1Index := (virtPage >>> 12) &&& 0x1FF
  andThen (s.nextTable l4Table l4Index) fun l3Table s ↦
    andThen (s.nextTable l3Table l3Index) fun l2Table s ↦
      andThen (s.nextTable l2Table l2Index) fun l1Table s ↦ do
        let entry ← entryPtr l1Table l1Index
        let phys ← physAddrNew physFrame
        let s ← s.setAddr entry phys flags
        virtAddrNew virtPage
        return (.ok (), s)

end Paging

/-! ## The processor's side -/

/-- The result of a translation: the entry that maps the page, and its level, 0 for a 4 KiB page. -/
structure Leaf where
  /-- How many indices of the page the mapping leaves unused. -/
  level : ℕ
  /-- The physical address in the entry. -/
  addr : ℕ
  /-- The flags of the entry. -/
  flags : UInt64
  deriving DecidableEq, Repr

/-- What the processor takes an entry to mean. Entries of a last-level table map a page; above, the
huge-page flag makes an entry a mapping, except in the level 4 table, where it is reserved. -/
def entryMeaning (level : ℕ) (entry : UInt64) : RadixTable.Meaning ℕ Leaf :=
  if ¬PageTableFlags.contains entry PageTableFlags.PRESENT then .absent
  else if level = 0 then .leaf ⟨0, entryAddr entry, entryFlags entry⟩
  else if PageTableFlags.contains entry PageTableFlags.HUGE_PAGE then
    if level = 3 then .absent else .leaf ⟨level, entryAddr entry, entryFlags entry⟩
  else .table (entryAddr entry / 4096)

/-- One 9-bit index of a virtual address. -/
def pageIndex (virt shift : ℕ) : Fin 512 := ⟨virt / 2 ^ shift % 512, Nat.mod_lt _ (by decide)⟩

/-- The indices of a virtual address, from level 4 to level 1. -/
def pagePath (virt : ℕ) : List (Fin 512) :=
  [pageIndex virt 39, pageIndex virt 30, pageIndex virt 21, pageIndex virt 12]

namespace Paging

/-- The entries of the frame with a given number. -/
def tables (s : Paging) (frame : ℕ) (index : Fin 512) : UInt64 :=
  readU64 s.mem (frame * 4096 + s.physMemOffset + 8 * index)

/-- The translation of a virtual address. -/
def translate (s : Paging) (virt : ℕ) : Option Leaf :=
  RadixTable.lookup entryMeaning s.tables s.cr3 (pagePath virt)

/-- The frame of the table at a position of the hierarchy. -/
def tableAt (s : Paging) (position : List (Fin 512)) : Option ℕ :=
  RadixTable.tableAt entryMeaning s.tables 4 s.cr3 position

end Paging

/-- The bits of a virtual address from 47 on are all equal. -/
def Canonical (virt : ℕ) : Prop := virt / 2 ^ 47 = 0 ∨ virt / 2 ^ 47 = 0x1FFFF

/-! ## Facts about entries -/

theorem or_and_distrib (a b c : UInt64) : (a ||| b) &&& c = (a &&& c) ||| (b &&& c) := by
  apply UInt64.toBitVec_inj.mp
  ext i
  simp [Bool.and_or_distrib_right]

/-- A 4 KiB aligned address below `2 ^ 52` consists of address bits. -/
private theorem land_addrMask {phys : ℕ} (haligned : 4096 ∣ phys) (hlt : phys < 2 ^ 52) :
    UInt64.ofNat phys &&& addrMask = UInt64.ofNat phys := by
  obtain ⟨k, rfl⟩ := haligned
  apply UInt64.toNat_inj.mp
  have hmod : 4096 * k % 2 ^ 64 = 4096 * k := Nat.mod_eq_of_lt (by omega)
  have hmask : addrMask.toNat = 2 ^ 12 * (2 ^ 40 - 1) := by decide
  rw [UInt64.toNat_and, UInt64.toNat_ofNat', hmod, hmask]
  refine Nat.eq_of_testBit_eq fun i ↦ ?_
  rw [show 4096 * k = 2 ^ 12 * k from rfl, Nat.testBit_and, Nat.testBit_two_pow_mul,
    Nat.testBit_two_pow_mul, Nat.testBit_two_pow_sub_one]
  by_cases hi : i - 12 < 40
  · by_cases h12 : 12 ≤ i <;> simp [hi, h12]
  · have hbit : k.testBit (i - 12) = false :=
      Nat.testBit_lt_two_pow (lt_of_lt_of_le (show k < 2 ^ 40 by omega)
        (Nat.pow_le_pow_right (by omega) (Nat.le_of_not_lt hi)))
    simp [hbit]

private theorem land_eq_zero {phys : ℕ} (haligned : 4096 ∣ phys) (hlt : phys < 2 ^ 52)
    {flag : UInt64} (hflag : addrMask &&& flag = 0) : UInt64.ofNat phys &&& flag = 0 := by
  rw [← land_addrMask haligned hlt, UInt64.and_assoc, hflag, UInt64.and_zero]

section MkEntry

variable {phys : ℕ} {flags : PageTableFlags}

theorem entryAddr_mkEntry (haligned : 4096 ∣ phys) (hlt : phys < 2 ^ 52) :
    entryAddr (mkEntry phys flags) = phys := by
  rw [entryAddr, mkEntry, or_and_distrib, flags.bits_and, UInt64.or_zero,
    land_addrMask haligned hlt, UInt64.toNat_ofNat', Nat.mod_eq_of_lt (by omega)]

theorem entryFlags_mkEntry (haligned : 4096 ∣ phys) (hlt : phys < 2 ^ 52) :
    entryFlags (mkEntry phys flags) = flags.bits := by
  have hflags : flags.bits &&& ~~~addrMask = flags.bits := by
    calc flags.bits &&& ~~~addrMask
        = (flags.bits &&& addrMask) ||| (flags.bits &&& ~~~addrMask) := by
          rw [flags.bits_and, UInt64.zero_or]
      _ = flags.bits := by
          rw [UInt64.and_comm, UInt64.and_comm flags.bits, ← or_and_distrib, UInt64.or_not_self,
            UInt64.neg_one_and]
  rw [entryFlags, mkEntry, or_and_distrib, hflags,
    land_eq_zero haligned hlt UInt64.and_not_self, UInt64.zero_or]

theorem contains_mkEntry (haligned : 4096 ∣ phys) (hlt : phys < 2 ^ 52) {flag : UInt64}
    (hflag : addrMask &&& flag = 0) :
    PageTableFlags.contains (mkEntry phys flags) flag ↔
      PageTableFlags.contains flags.bits flag := by
  rw [PageTableFlags.contains, PageTableFlags.contains, mkEntry, or_and_distrib,
    land_eq_zero haligned hlt hflag, UInt64.zero_or]

theorem entryMeaning_leaf (haligned : 4096 ∣ phys) (hlt : phys < 2 ^ 52)
    (hpresent : PageTableFlags.contains flags.bits PageTableFlags.PRESENT) :
    entryMeaning 0 (mkEntry phys flags) = .leaf ⟨0, phys, flags.bits⟩ := by
  have hp := (contains_mkEntry haligned hlt (by decide)).mpr hpresent
  rw [entryMeaning, if_neg (not_not.mpr hp), if_pos rfl, entryAddr_mkEntry haligned hlt,
    entryFlags_mkEntry haligned hlt]

theorem entryMeaning_table (haligned : 4096 ∣ phys) (hlt : phys < 2 ^ 52) {level : ℕ}
    (hlevel : level ≠ 0) :
    entryMeaning level (mkEntry phys .table) = .table (phys / 4096) := by
  have hp : PageTableFlags.contains (mkEntry phys .table) PageTableFlags.PRESENT :=
    (contains_mkEntry haligned hlt (by decide)).mpr (by decide)
  have hhuge : ¬PageTableFlags.contains (mkEntry phys .table) PageTableFlags.HUGE_PAGE :=
    mt (contains_mkEntry haligned hlt (by decide)).mp (by decide)
  rw [entryMeaning, if_neg (not_not.mpr hp), if_neg hlevel, if_neg hhuge,
    entryAddr_mkEntry haligned hlt]

end MkEntry

theorem entryMeaning_zero (level : ℕ) : entryMeaning level 0 = .absent := by
  rw [entryMeaning, if_pos (by decide)]

theorem entryAddr_lt (entry : UInt64) : entryAddr entry < 2 ^ 52 := by
  have hle : entryAddr entry ≤ addrMask.toNat := by
    rw [entryAddr, UInt64.toNat_and]
    exact Nat.and_le_right
  exact lt_of_le_of_lt hle (by decide)

theorem dvd_entryAddr (entry : UInt64) : 4096 ∣ entryAddr entry := by
  rw [entryAddr, UInt64.toNat_and]
  refine Nat.dvd_of_mod_eq_zero (Nat.eq_of_testBit_eq fun i ↦ ?_)
  rw [show 4096 = 2 ^ 12 from rfl, Nat.testBit_mod_two_pow, Nat.testBit_and,
    show addrMask.toNat = 2 ^ 12 * (2 ^ 40 - 1) by decide, Nat.testBit_two_pow_mul]
  by_cases hi : i < 12
  · simp [Nat.not_le.mpr hi]
  · simp [hi]

theorem entryAddr_of_table {level : ℕ} {entry : UInt64} {frame : ℕ}
    (h : entryMeaning level entry = .table frame) : entryAddr entry = frame * 4096 := by
  rw [entryMeaning] at h
  split_ifs at h
  rw [← RadixTable.Meaning.table.inj h, Nat.div_mul_cancel (dvd_entryAddr entry)]

end RelizOS
