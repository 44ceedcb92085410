import RelizOS.Library.ByteStrings
import RelizOS.Library.Slice

/-!
# Reading a sector

`AtaPio::read_sector` writes an address into the registers of the controller, issues the read
command, polls the status port until the sector is there, and takes it from the data port word by
word.

The controller is anything that answers port reads: it has a stream of statuses and a stream of
words, and each read takes the next. Whatever they are, the function ends after at most 100000
polls. The first status that is not pending decides how (`poll_eq`): the buffer is filled with the
next 256 words when it is ready, and in all other cases nothing is taken and the buffer stays as it
was (`readSector_correct`).
-/

open ByteMemory

namespace RelizOS.Ata

/-! ## The ports -/

/-- The registers that address a sector. -/
structure Registers where
  device : UInt8
  sectorCount : UInt8
  lbaLow : UInt8
  lbaMid : UInt8
  lbaHigh : UInt8
  deriving DecidableEq

/-- What the controller answers to reads of the status port and of the data port, one after
another. -/
structure Controller where
  status : ℕ → UInt8
  data : ℕ → UInt16

/-- What has been read and written so far. -/
structure Bus where
  regs : Registers
  statusReads : ℕ
  errorReads : ℕ
  dataReads : ℕ
  /-- The commands issued, each with the registers at that time. -/
  commands : List (UInt8 × Registers)
  deriving DecidableEq

namespace Bus

/-- `command_port.read()`. -/
def readStatus (c : Controller) (bus : Bus) : UInt8 × Bus :=
  (c.status bus.statusReads, { bus with statusReads := bus.statusReads + 1 })

/-- `error_port.read()`, whose value is not used. -/
def readError (bus : Bus) : Bus := { bus with errorReads := bus.errorReads + 1 }

/-- `data_port.read()`. -/
def readData (c : Controller) (bus : Bus) : UInt16 × Bus :=
  (c.data bus.dataReads, { bus with dataReads := bus.dataReads + 1 })

/-- `command_port.write(command)`. -/
def writeCommand (bus : Bus) (command : UInt8) : Bus :=
  { bus with commands := bus.commands ++ [(command, bus.regs)] }

/-- The bus after some more reads of the status port. -/
def polled (bus : Bus) (n : ℕ) : Bus := { bus with statusReads := bus.statusReads + n }

end Bus

/-! ## `read_sector` -/

/-- Steps 1 to 4: select the device, address the sector and issue the read command. -/
def issueRead (c : Controller) (drive : UInt8) (lba : UInt32) (bus : Bus) : Bus :=
  let driveSelect : UInt8 := if drive = 0 then 0xE0 else 0xF0
  let deviceVal := driveSelect ||| ((lba >>> 24) &&& 0x0F).toUInt8
  let bus := { bus with regs := { bus.regs with device := deviceVal } }
  let bus := (List.range 4).foldl (fun bus _ ↦ (bus.readStatus c).2) bus
  let bus := { bus with regs := { bus.regs with sectorCount := 1 } }
  let bus := { bus with regs := { bus.regs with lbaLow := (lba &&& 0xFF).toUInt8 } }
  let bus := { bus with regs := { bus.regs with lbaMid := ((lba >>> 8) &&& 0xFF).toUInt8 } }
  let bus := { bus with regs := { bus.regs with lbaHigh := ((lba >>> 16) &&& 0xFF).toUInt8 } }
  bus.writeCommand 0x20

/-- Step 5: the loop that polls the status port. -/
def poll (c : Controller) : ℕ → ℕ → Bus → Checked (Except String Unit × Bus)
  | 0, _, _ => .error .diverges
  | fuel + 1, timeout, bus =>
    let (status, bus) := bus.readStatus c
    if status = 0xFF then return (.error "No ATA drive detected (port reads 0xFF)", bus)
    else if status &&& 0x01 ≠ 0 then
      return (.error "ATA Controller reported a read error", bus.readError)
    else if status &&& 0x80 = 0 ∧ status &&& 0x08 ≠ 0 then return (.ok (), bus)
    else do
      let timeout ← Checked.sub timeout 1
      if timeout = 0 then return (.error "ATA polling timed out", bus)
      else poll c fuel timeout bus

/-- An iteration of the loop that reads the data port. -/
def readWord (c : Controller) (bus : Bus) (buffer : Slice UInt8) (i : ℕ) :
    Checked (Bus × Slice UInt8) := do
  let (word, bus) := bus.readData c
  let buffer ← buffer.write (i * 2) (word &&& 0xFF).toUInt8
  let buffer ← buffer.write (i * 2 + 1) ((word >>> 8) &&& 0xFF).toUInt8
  return (bus, buffer)

/-- Step 6: the sector is read into the buffer. -/
def readWords (c : Controller) (bus : Bus) (buffer : Slice UInt8) : Checked (Bus × Slice UInt8) :=
  (List.range 256).foldlM (fun (s : Bus × Slice UInt8) i ↦ readWord c s.1 s.2 i) (bus, buffer)

/-- `read_sector`: the result, the bus and the buffer. -/
def readSector (c : Controller) (drive : UInt8) (lba : UInt32) (bus : Bus) (buffer : Slice UInt8) :
    Checked (Except String Unit × Bus × Slice UInt8) :=
  if drive > 1 then
    return (.error "Invalid drive index (only 0 or 1 supported)", bus, buffer)
  else do
    let (result, bus) ← poll c 100000 100000 (issueRead c drive lba bus)
    match result with
    | .error e => return (.error e, bus, buffer)
    | .ok () => do
      let (bus, buffer) ← readWords c bus buffer
      return (.ok (), bus, buffer)

/-! ## Polling -/

/-- The sector is there: BSY and ERR are clear and DRQ is set. -/
def Ready (status : UInt8) : Prop := status &&& 0x80 = 0 ∧ status &&& 0x08 ≠ 0 ∧ status &&& 0x01 = 0

/-- There is a drive, it has no error, and it is not ready. -/
def Pending (status : UInt8) : Prop := status ≠ 0xFF ∧ status &&& 0x01 = 0 ∧ ¬Ready status

instance (status : UInt8) : Decidable (Ready status) := inferInstanceAs (Decidable (_ ∧ _))

instance (status : UInt8) : Decidable (Pending status) := inferInstanceAs (Decidable (_ ∧ _))

/-- What a status that is not pending leads to, and the bus then. -/
def verdict (status : UInt8) (bus : Bus) : Except String Unit × Bus :=
  if status = 0xFF then (.error "No ATA drive detected (port reads 0xFF)", bus)
  else if status &&& 0x01 ≠ 0 then (.error "ATA Controller reported a read error", bus.readError)
  else (.ok (), bus)

section

variable {c : Controller} {fuel timeout : ℕ} {bus : Bus}

theorem polled_polled (bus : Bus) (m n : ℕ) : (bus.polled m).polled n = bus.polled (m + n) := by
  rw [Bus.polled, Bus.polled, Bus.polled, add_assoc]

theorem poll_of_not_pending (h : ¬Pending (c.status bus.statusReads)) :
    poll c (fuel + 1) timeout bus = .ok (verdict (c.status bus.statusReads) (bus.polled 1)) := by
  rw [poll, Bus.readStatus, verdict, Bus.polled]
  dsimp only
  by_cases hnone : c.status bus.statusReads = 0xFF
  · rw [if_pos hnone, if_pos hnone]
    rfl
  by_cases herr : c.status bus.statusReads &&& 0x01 ≠ 0
  · rw [if_neg hnone, if_neg hnone, if_pos herr, if_pos herr]
    rfl
  · have hready : Ready (c.status bus.statusReads) := by
      by_contra hready
      exact h ⟨hnone, not_not.mp herr, hready⟩
    rw [if_neg hnone, if_neg hnone, if_neg herr, if_neg herr, if_pos ⟨hready.1, hready.2.1⟩]
    rfl

theorem poll_of_pending (h : Pending (c.status bus.statusReads)) :
    poll c (fuel + 1) (timeout + 1) bus =
      if timeout = 0 then .ok (.error "ATA polling timed out", bus.polled 1)
      else poll c fuel timeout (bus.polled 1) := by
  obtain ⟨hnone, herr, hready⟩ := h
  rw [poll, Bus.readStatus]
  dsimp only
  rw [if_neg hnone, if_neg (not_not.mpr herr), if_neg fun hdone ↦ hready ⟨hdone.1, hdone.2, herr⟩,
    Checked.sub_of_le (show 1 ≤ timeout + 1 by omega), Checked.ok_bind, Nat.add_sub_cancel]
  rfl

/-- **The first status that is not pending decides**, if it comes in time. -/
theorem poll_eq (c : Controller) (bus : Bus) (hpos : 0 < timeout) (hfuel : timeout ≤ fuel) :
    (∃ k < timeout, (∀ j < k, Pending (c.status (bus.statusReads + j))) ∧
      ¬Pending (c.status (bus.statusReads + k)) ∧ poll c fuel timeout bus =
        .ok (verdict (c.status (bus.statusReads + k)) (bus.polled (k + 1)))) ∨
    ((∀ j < timeout, Pending (c.status (bus.statusReads + j))) ∧
      poll c fuel timeout bus = .ok (.error "ATA polling timed out", bus.polled timeout)) := by
  induction fuel generalizing timeout bus with
  | zero => omega
  | succ fuel ih =>
    obtain ⟨timeout, rfl⟩ := Nat.exists_eq_succ_of_ne_zero hpos.ne'
    by_cases hpending : Pending (c.status bus.statusReads)
    · rw [Nat.succ_eq_add_one, poll_of_pending hpending]
      by_cases hlast : timeout = 0
      · rw [if_pos hlast]
        refine Or.inr ⟨fun j hj ↦ ?_, by rw [hlast]⟩
        obtain rfl : j = 0 := by omega
        exact hpending
      · rw [if_neg hlast]
        -- the rest of the stream begins at the next status
        have hshift : ∀ j, c.status ((bus.polled 1).statusReads + j) =
            c.status (bus.statusReads + (j + 1)) := fun j ↦ by
          rw [Bus.polled, add_assoc, add_comm 1 j]
        rcases ih (bus.polled 1) (Nat.pos_of_ne_zero hlast) (Nat.le_of_succ_le_succ hfuel) with
          ⟨k, hk, hbefore, hdecides, hpoll⟩ | ⟨hall, hpoll⟩
        · refine Or.inl ⟨k + 1, Nat.succ_lt_succ hk, fun j hj ↦ ?_, hshift k ▸ hdecides, ?_⟩
          · cases j with
            | zero => exact hpending
            | succ j => exact hshift j ▸ hbefore j (Nat.lt_of_succ_lt_succ hj)
          · rw [hpoll, hshift, polled_polled, add_comm 1]
        · refine Or.inr ⟨fun j hj ↦ ?_, ?_⟩
          · cases j with
            | zero => exact hpending
            | succ j => exact hshift j ▸ hall j (Nat.lt_of_succ_lt_succ hj)
          · rw [hpoll, polled_polled, add_comm 1]
    · refine Or.inl ⟨0, hpos, fun j hj ↦ absurd hj (Nat.not_lt_zero j), hpending, ?_⟩
      exact poll_of_not_pending hpending

end

/-! ## The sector -/

theorem toUInt8_and (word : UInt16) : (word &&& 0xFF).toUInt8 = UInt8.ofNat word.toNat := by
  apply UInt8.toNat_inj.mp
  rw [UInt16.toNat_toUInt8, UInt16.toNat_and, UInt8.toNat_ofNat',
    show UInt16.toNat 0xFF = 2 ^ 8 - 1 from rfl, Nat.and_two_pow_sub_one_eq_mod, Nat.mod_mod]

theorem leBytes_word (word : UInt16) :
    leBytes 2 word.toNat = [(word &&& 0xFF).toUInt8, ((word >>> 8) &&& 0xFF).toUInt8] := by
  have hhigh : (word >>> 8).toNat = word.toNat / 256 := by
    rw [UInt16.toNat_shiftRight]
    exact Nat.shiftRight_eq_div_pow word.toNat 8
  rw [toUInt8_and, toUInt8_and, hhigh]
  rfl

section

variable {buffer : Slice UInt8}

theorem readWord_eq (c : Controller) (bus : Bus) {i : ℕ} (hlen : i * 2 + 1 < buffer.len) :
    ∃ buffer', readWord c bus buffer i =
        .ok ({ bus with dataReads := bus.dataReads + 1 }, buffer') ∧ buffer'.len = buffer.len ∧
      buffer'.segment (i * 2) 2 = leBytes 2 (c.data bus.dataReads).toNat ∧
      ∀ a, a < i * 2 → buffer'.get a = buffer.get a := by
  rw [readWord, Bus.readData]
  dsimp only
  rw [Slice.write_of_lt (by omega), Checked.ok_bind, Slice.write_of_lt (by exact hlen),
    Checked.ok_bind]
  refine ⟨_, rfl, rfl, ?_, fun a ha ↦ ?_⟩
  · rw [leBytes_word]
    simp [Slice.segment, List.range_succ]
  · dsimp only
    rw [Function.update_of_ne (by omega), Function.update_of_ne (by omega)]

/-- **The buffer is filled** with the next 256 words. -/
theorem readWords_eq (c : Controller) (bus : Bus) (hlen : buffer.len = 512) :
    ∃ buffer', readWords c bus buffer =
        .ok ({ bus with dataReads := bus.dataReads + 256 }, buffer') ∧ buffer'.len = 512 ∧
      ∀ i < 256, buffer'.segment (i * 2) 2 = leBytes 2 (c.data (bus.dataReads + i)).toNat := by
  obtain ⟨⟨bus', buffer'⟩, hrun, rfl, hlen', hwords⟩ := Checked.foldlM_range
    (f := fun (s : Bus × Slice UInt8) i ↦ readWord c s.1 s.2 i) (s := (bus, buffer)) (n := 256)
    (fun k s ↦ s.1 = { bus with dataReads := bus.dataReads + k } ∧ s.2.len = 512 ∧
      ∀ i < k, s.2.segment (i * 2) 2 = leBytes 2 (c.data (bus.dataReads + i)).toNat)
    ⟨rfl, hlen, fun i hi ↦ absurd hi (Nat.not_lt_zero i)⟩
    (by
      rintro k hk ⟨_, t⟩ ⟨rfl, hlen, hwords⟩
      obtain ⟨t', hstep, hlen', hword, hkept⟩ :=
        readWord_eq c { bus with dataReads := bus.dataReads + k } (show k * 2 + 1 < t.len by
          dsimp only at hlen
          omega)
      refine ⟨_, hstep, rfl, hlen'.trans hlen, fun i hi ↦ ?_⟩
      rcases Nat.lt_succ_iff_lt_or_eq.mp hi with hlt | rfl
      · rw [← hwords i hlt]
        exact Slice.segment_congr fun j hj ↦ hkept _ (by omega)
      · exact hword)
  exact ⟨buffer', hrun, hlen', hwords⟩

end

/-! ## The result -/

/-- The status that poll `k` reads, behind the four reads of the wait. -/
def polledStatus (c : Controller) (bus : Bus) (k : ℕ) : UInt8 := c.status (bus.statusReads + 4 + k)

theorem ready_of_verdict {status : UInt8} (bus : Bus) (hpending : ¬Pending status) :
    (verdict status bus).1 = .ok () ↔ Ready status := by
  rw [verdict]
  by_cases hnone : status = 0xFF
  · rw [if_pos hnone, hnone]
    exact iff_of_false (fun h ↦ nomatch h) (by decide)
  by_cases herr : status &&& 0x01 ≠ 0
  · rw [if_neg hnone, if_pos herr]
    exact iff_of_false (fun h ↦ nomatch h) fun h ↦ herr h.2.2
  · rw [if_neg hnone, if_neg herr]
    refine iff_of_true rfl ?_
    by_contra hready
    exact hpending ⟨hnone, not_not.mp herr, hready⟩

theorem verdict_bus (status : UInt8) (bus : Bus) :
    ∃ n, (verdict status bus).2 = { bus with errorReads := n } := by
  rw [verdict]
  split_ifs
  · exact ⟨_, rfl⟩
  · exact ⟨_, rfl⟩
  · exact ⟨_, rfl⟩

/-- Only the first status that is not pending can be the one that is ready. -/
theorem exists_ready_iff {p : ℕ → UInt8} {k n : ℕ} (hk : k < n) (hbefore : ∀ j < k, Pending (p j))
    (hdecides : ¬Pending (p k)) :
    (∃ i < n, Ready (p i) ∧ ∀ j < i, Pending (p j)) ↔ Ready (p k) := by
  constructor
  · rintro ⟨i, -, hready, hpending⟩
    rcases Nat.lt_trichotomy i k with hlt | rfl | hgt
    · exact absurd hready (hbefore i hlt).2.2
    · exact hready
    · exact absurd (hpending k hgt) hdecides
  · intro hready
    exact ⟨k, hk, hready, hbefore⟩

/-- The function returns a result with the bus and the buffer as they should be: no more than the
wait and 100000 polls have been read; with `Ok` the buffer has the next 256 words, and with an `Err`
it is as it was, and no word has been read. -/
structure Reads (c : Controller) (bus : Bus) (buffer : Slice UInt8) (result : Except String Unit)
    (bus' : Bus) (buffer' : Slice UInt8) : Prop where
  polls : bus'.statusReads ≤ bus.statusReads + 4 + 100000
  ok_iff : result = .ok () ↔ ∃ k < 100000, Ready (polledStatus c bus k) ∧
    ∀ j < k, Pending (polledStatus c bus j)
  ok : result = .ok () → buffer'.len = 512 ∧ bus'.dataReads = bus.dataReads + 256 ∧
    ∀ i < 256, buffer'.segment (i * 2) 2 = leBytes 2 (c.data (bus.dataReads + i)).toNat
  error : ∀ e, result = .error e → buffer' = buffer ∧ bus'.dataReads = bus.dataReads

/-- What the function does with a valid drive. The read command is issued once, before the polls. -/
theorem readSector_spec {drive : UInt8} (hdrive : drive ≤ 1) {buffer : Slice UInt8}
    (hlen : buffer.len = 512) (c : Controller) (lba : UInt32) (bus : Bus) :
    ∃ result bus' buffer', readSector c drive lba bus buffer = .ok (result, bus', buffer') ∧
      bus'.commands = (issueRead c drive lba bus).commands ∧
      Reads c bus buffer result bus' buffer' := by
  rw [readSector, if_neg (UInt8.not_lt.mpr hdrive)]
  rcases poll_eq c (issueRead c drive lba bus) (show 0 < 100000 by omega) le_rfl
    with ⟨k, hk, hbefore, hdecides, hpoll⟩ | ⟨hall, hpoll⟩
  · have hpoll : poll c 100000 100000 (issueRead c drive lba bus) =
        .ok (verdict (polledStatus c bus k) ((issueRead c drive lba bus).polled (k + 1))) := hpoll
    have hok := (ready_of_verdict ((issueRead c drive lba bus).polled (k + 1)) hdecides).trans
      (exists_ready_iff hk hbefore hdecides).symm
    obtain ⟨n, hbus⟩ := verdict_bus (polledStatus c bus k)
      ((issueRead c drive lba bus).polled (k + 1))
    have hpolls : bus.statusReads + 4 + (k + 1) ≤ bus.statusReads + 4 + 100000 := by omega
    rw [hpoll, Checked.ok_bind]
    rcases hverdict : verdict (polledStatus c bus k)
      ((issueRead c drive lba bus).polled (k + 1)) with ⟨result, bus₁⟩
    rw [hverdict] at hbus
    obtain rfl : bus₁ = _ := hbus
    have hok : result = .ok () ↔ _ := (congrArg (·.1 = .ok ()) hverdict.symm).to_iff.trans hok
    dsimp only
    cases result with
    | error e =>
      exact ⟨_, _, _, rfl, rfl, hpolls, hok, fun h ↦ (nomatch h), fun _ _ ↦ ⟨rfl, rfl⟩⟩
    | ok u =>
      obtain ⟨buffer', hrun, hlen', hwords⟩ := readWords_eq c
        { (issueRead c drive lba bus).polled (k + 1) with errorReads := n } hlen
      dsimp only
      rw [hrun, Checked.ok_bind]
      exact ⟨_, _, _, rfl, rfl, hpolls, hok, fun _ ↦ ⟨hlen', rfl, hwords⟩, fun e h ↦ (nomatch h)⟩
  · rw [hpoll, Checked.ok_bind]
    refine ⟨_, _, _, rfl, rfl, le_rfl, iff_of_false (fun h ↦ nomatch h) ?_, fun h ↦ (nomatch h),
      fun _ _ ↦ ⟨rfl, rfl⟩⟩
    rintro ⟨k, hk, hready, -⟩
    exact (hall k hk).2.2 hready

/-- **Reading a sector** ends, whatever the controller answers, and fills the buffer or leaves it
alone. -/
theorem readSector_correct {drive : UInt8} (hdrive : drive ≤ 1) {buffer : Slice UInt8}
    (hlen : buffer.len = 512) (c : Controller) (lba : UInt32) (bus : Bus) :
    ∃ result bus' buffer', readSector c drive lba bus buffer = .ok (result, bus', buffer') ∧
      Reads c bus buffer result bus' buffer' := by
  obtain ⟨result, bus', buffer', hrun, -, hreads⟩ := readSector_spec hdrive hlen c lba bus
  exact ⟨result, bus', buffer', hrun, hreads⟩

/-- A controller that is always ready, and counts in its data port. -/
def readyController : Controller := ⟨fun _ ↦ 0x58, UInt16.ofNat⟩

/-- A controller that is busy for five polls and has no data at the sixth. -/
def slowController : Controller where
  status n := if n < 9 then 0x80 else if n = 9 then 0x50 else 0x58
  data := UInt16.ofNat

/-- A bus that has not been used. -/
def newBus : Bus := ⟨⟨0, 0, 0, 0, 0⟩, 0, 0, 0, []⟩

theorem readSector_correct_slow : ∃ bus' buffer',
    readSector slowController 0 40002 newBus ⟨fun _ ↦ 0, 512⟩ = .ok (.ok (), bus', buffer') ∧
      bus'.dataReads = 256 ∧ buffer'.segment 510 2 = [255, 0] := by
  have hdrive : (0 : UInt8) ≤ 1 := by decide
  have hlen : (Slice.mk (fun _ ↦ (0 : UInt8)) 512).len = 512 := rfl
  obtain ⟨result, bus', buffer', hrun, hreads⟩ :=
    readSector_correct hdrive hlen slowController 40002 newBus
  have hok : result = .ok () := hreads.ok_iff.mpr ⟨6, by omega, by decide, by decide⟩
  subst hok
  obtain ⟨-, hdata, hwords⟩ := hreads.ok rfl
  exact ⟨bus', buffer', hrun, hdata, hwords 255 (by omega)⟩

end RelizOS.Ata
