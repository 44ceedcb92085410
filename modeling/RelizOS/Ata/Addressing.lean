import RelizOS.Ata.ReadSector
import RelizOS.RelizFs.Format

/-!
# The address that is sent

The address of a sector has 28 bits on its way to the drive: four in the device register, beside the
bit for the drive, and eight in each of three others. `read_sector` takes an address of 32 bits and
drops the upper four without a word, whereas it answers a wrong drive number with an error. So the
drive receives what was asked for exactly when the address has no more than 28 bits, and two
addresses are sent alike exactly when they differ in the upper four only (`addressing_iff`).
-/

namespace RelizOS.Ata

/-! ## What the registers say -/

namespace Registers

/-- The drive that the registers select. -/
def drive (r : Registers) : ℕ := r.device.toNat / 2 ^ 4 % 2

/-- The address that the registers have for the drive. -/
def lba (r : Registers) : ℕ :=
  r.device.toNat % 2 ^ 4 * 2 ^ 24 + r.lbaHigh.toNat * 2 ^ 16 + r.lbaMid.toNat * 2 ^ 8 +
    r.lbaLow.toNat

end Registers

/-- The registers when the read command is issued. -/
def programmed (drive : UInt8) (lba : UInt32) : Registers where
  device := (if drive = 0 then (0xE0 : UInt8) else 0xF0) ||| ((lba >>> 24) &&& 0x0F).toUInt8
  sectorCount := 1
  lbaLow := (lba &&& 0xFF).toUInt8
  lbaMid := ((lba >>> 8) &&& 0xFF).toUInt8
  lbaHigh := ((lba >>> 16) &&& 0xFF).toUInt8

theorem issueRead_commands (c : Controller) (drive : UInt8) (lba : UInt32) (bus : Bus) :
    (issueRead c drive lba bus).commands = bus.commands ++ [(0x20, programmed drive lba)] := rfl

/-- Masking with `2 ^ k - 1` and cutting to a byte. -/
theorem toNat_toUInt8_and (x m : UInt32) {k : ℕ} (hm : m.toNat = 2 ^ k - 1) (hk : k ≤ 8) :
    (x &&& m).toUInt8.toNat = x.toNat % 2 ^ k := by
  rw [UInt32.toNat_toUInt8, UInt32.toNat_and, hm, Nat.and_two_pow_sub_one_eq_mod]
  exact Nat.mod_eq_of_lt (lt_of_lt_of_le (Nat.mod_lt _ (Nat.two_pow_pos k))
    (Nat.pow_le_pow_right (by omega) hk))

theorem toNat_device (drive : UInt8) (lba : UInt32) :
    (programmed drive lba).device.toNat =
      (if drive = 0 then 14 else 15) * 2 ^ 4 + lba.toNat / 2 ^ 24 % 2 ^ 4 := by
  have hupper : ((lba >>> 24) &&& 0x0F).toUInt8.toNat = lba.toNat / 2 ^ 24 % 2 ^ 4 := by
    rw [toNat_toUInt8_and (k := 4) _ _ rfl (by omega), UInt32.toNat_shiftRight]
    exact congrArg (· % 2 ^ 4) (Nat.shiftRight_eq_div_pow lba.toNat 24)
  have hlt : lba.toNat / 2 ^ 24 % 2 ^ 4 < 2 ^ 4 := Nat.mod_lt _ (by omega)
  rw [programmed]
  dsimp only
  rw [UInt8.toNat_or, hupper]
  split
  · rw [mul_comm, Nat.two_pow_add_eq_or_of_lt hlt]
    rfl
  · rw [mul_comm, Nat.two_pow_add_eq_or_of_lt hlt]
    rfl

/-- **The drive receives** the drive number that was asked for. -/
theorem drive_programmed {drive : UInt8} (hdrive : drive ≤ 1) (lba : UInt32) :
    (programmed drive lba).drive = drive.toNat := by
  have hle : drive.toNat ≤ 1 := UInt8.le_iff_toNat_le.mp hdrive
  have hzero : drive = 0 ↔ drive.toNat = 0 := by rw [← UInt8.toNat_inj]; rfl
  rw [Registers.drive, toNat_device]
  split
  · next h =>
    rw [hzero] at h
    omega
  · next h =>
    rw [hzero] at h
    omega

/-- **The drive receives the low 28 bits** of the address. -/
theorem lba_programmed (drive : UInt8) (lba : UInt32) :
    (programmed drive lba).lba = lba.toNat % 2 ^ 28 := by
  have hlow : (programmed drive lba).lbaLow.toNat = lba.toNat % 2 ^ 8 :=
    toNat_toUInt8_and _ _ rfl le_rfl
  have hmid : (programmed drive lba).lbaMid.toNat = lba.toNat / 2 ^ 8 % 2 ^ 8 := by
    refine (toNat_toUInt8_and (k := 8) _ _ rfl le_rfl).trans ?_
    exact congrArg (· % 2 ^ 8) (Nat.shiftRight_eq_div_pow lba.toNat 8)
  have hhigh : (programmed drive lba).lbaHigh.toNat = lba.toNat / 2 ^ 16 % 2 ^ 8 := by
    refine (toNat_toUInt8_and (k := 8) _ _ rfl le_rfl).trans ?_
    exact congrArg (· % 2 ^ 8) (Nat.shiftRight_eq_div_pow lba.toNat 16)
  rw [Registers.lba, toNat_device, hlow, hmid, hhigh]
  split <;> omega

/-! ## Requests -/

/-- The read command is issued with some registers. -/
def Sends (c : Controller) (drive : UInt8) (lba : UInt32) (bus : Bus) (buffer : Slice UInt8)
    (regs : Registers) : Prop :=
  ∃ result bus' buffer', readSector c drive lba bus buffer = .ok (result, bus', buffer') ∧
    bus'.commands = bus.commands ++ [(0x20, regs)]

/-- A request is refused: it ends with an error, and no command is issued. -/
def Refuses (c : Controller) (drive : UInt8) (lba : UInt32) (bus : Bus) (buffer : Slice UInt8) :
    Prop :=
  ∃ e bus' buffer', readSector c drive lba bus buffer = .ok (.error e, bus', buffer') ∧
    bus'.commands = bus.commands

/-- A request is refused, or the drive receives the drive number and the address that were asked
for. -/
def Addressed (c : Controller) (drive : UInt8) (lba : UInt32) (bus : Bus) (buffer : Slice UInt8) :
    Prop :=
  (∃ regs, Sends c drive lba bus buffer regs ∧ regs.drive = drive.toNat ∧ regs.lba = lba.toNat) ∨
    Refuses c drive lba bus buffer

/-- Two requests are sent to the drive as the same sector. -/
def SentAlike (c : Controller) (drive : UInt8) (lba lba' : UInt32) (bus : Bus)
    (buffer : Slice UInt8) : Prop :=
  ∃ regs regs', Sends c drive lba bus buffer regs ∧ Sends c drive lba' bus buffer regs' ∧
    regs.lba = regs'.lba

section

variable {c : Controller} {drive : UInt8} {lba : UInt32} {bus : Bus} {buffer : Slice UInt8}

theorem readSector_of_lt (hdrive : 1 < drive) : readSector c drive lba bus buffer =
    .ok (.error "Invalid drive index (only 0 or 1 supported)", bus, buffer) := if_pos hdrive

/-- **The registers that are sent** are those of the address, for a valid drive. -/
theorem sends_iff (hlen : buffer.len = 512) {regs : Registers} :
    Sends c drive lba bus buffer regs ↔ drive ≤ 1 ∧ regs = programmed drive lba := by
  by_cases hdrive : drive ≤ 1
  · obtain ⟨result, bus', buffer', hrun, hcommands, -⟩ := readSector_spec hdrive hlen c lba bus
    rw [issueRead_commands] at hcommands
    constructor
    · rintro ⟨_, _, _, hrun', hcommands'⟩
      obtain ⟨-, h⟩ := Prod.mk.inj (Except.ok.inj (hrun.symm.trans hrun'))
      obtain ⟨rfl, -⟩ := Prod.mk.inj h
      have hlast := List.append_cancel_left (hcommands.symm.trans hcommands')
      simpa [hdrive, eq_comm] using hlast
    · rintro ⟨-, rfl⟩
      exact ⟨_, _, _, hrun, hcommands⟩
  · refine iff_of_false ?_ fun h ↦ hdrive h.1
    rintro ⟨_, _, _, hrun, hcommands⟩
    rw [readSector_of_lt (UInt8.not_le.mp hdrive)] at hrun
    obtain ⟨-, h⟩ := Prod.mk.inj (Except.ok.inj hrun)
    obtain ⟨rfl, -⟩ := Prod.mk.inj h
    simp at hcommands

theorem refuses_iff (hlen : buffer.len = 512) : Refuses c drive lba bus buffer ↔ 1 < drive := by
  constructor
  · rintro ⟨e, bus', buffer', hrun, hcommands⟩
    by_contra hdrive
    obtain ⟨_, _, _, hrun', hcommands', -⟩ :=
      readSector_spec (UInt8.not_lt.mp hdrive) hlen c lba bus
    obtain ⟨-, h⟩ := Prod.mk.inj (Except.ok.inj (hrun.symm.trans hrun'))
    obtain ⟨rfl, -⟩ := Prod.mk.inj h
    rw [hcommands, issueRead_commands] at hcommands'
    simp at hcommands'
  · intro hdrive
    exact ⟨_, _, _, readSector_of_lt hdrive, rfl⟩

theorem addressed_iff (hlen : buffer.len = 512) :
    Addressed c drive lba bus buffer ↔ 1 < drive ∨ lba.toNat < 2 ^ 28 := by
  rw [Addressed, refuses_iff hlen]
  simp only [sends_iff hlen]
  by_cases hdrive : drive ≤ 1
  · have hnot : ¬1 < drive := UInt8.not_lt.mpr hdrive
    constructor
    · rintro (⟨regs, ⟨-, rfl⟩, -, hlba⟩ | h)
      · rw [lba_programmed] at hlba
        omega
      · exact absurd h hnot
    · rintro (h | hlt)
      · exact absurd h hnot
      · exact Or.inl ⟨_, ⟨hdrive, rfl⟩, drive_programmed hdrive lba,
          (lba_programmed drive lba).trans (Nat.mod_eq_of_lt hlt)⟩
  · have hlt : 1 < drive := UInt8.not_le.mp hdrive
    exact iff_of_true (Or.inr hlt) (Or.inl hlt)

theorem sentAlike_iff (hlen : buffer.len = 512) {lba' : UInt32} :
    SentAlike c drive lba lba' bus buffer ↔
      drive ≤ 1 ∧ lba.toNat % 2 ^ 28 = lba'.toNat % 2 ^ 28 := by
  simp only [SentAlike, sends_iff hlen]
  constructor
  · rintro ⟨_, _, ⟨hdrive, rfl⟩, ⟨-, rfl⟩, h⟩
    rw [lba_programmed, lba_programmed] at h
    exact ⟨hdrive, h⟩
  · rintro ⟨hdrive, h⟩
    refine ⟨_, _, ⟨hdrive, rfl⟩, ⟨hdrive, rfl⟩, ?_⟩
    rw [lba_programmed, lba_programmed, h]

end

/-- **The drive receives what was asked for** exactly when the address has 28 bits or the request is
refused, and no two addresses are sent as the same sector but those that agree in the low 28
bits. -/
theorem addressing_iff {buffer : Slice UInt8} (hlen : buffer.len = 512) (c : Controller)
    (drive : UInt8) (lba : UInt32) (bus : Bus) :
    (Addressed c drive lba bus buffer ↔ 1 < drive ∨ lba.toNat < 2 ^ 28) ∧
      ∀ lba' : UInt32, ¬SentAlike c drive lba lba' bus buffer ↔
        1 < drive ∨ lba.toNat % 2 ^ 28 ≠ lba'.toNat % 2 ^ 28 := by
  refine ⟨addressed_iff hlen, fun lba' ↦ ?_⟩
  rw [sentAlike_iff hlen, not_and_or, UInt8.not_le]

theorem addressing_iff_ready :
    Addressed readyController 0 40002 newBus ⟨fun _ ↦ 0, 512⟩ ∧
      ¬SentAlike readyController 0 40002 40003 newBus ⟨fun _ ↦ 0, 512⟩ := by
  have hlen : (Slice.mk (fun _ ↦ (0 : UInt8)) 512).len = 512 := rfl
  obtain ⟨haddressed, halike⟩ := addressing_iff hlen readyController 0 40002 newBus
  exact ⟨haddressed.mpr (by decide), (halike 40003).mpr (by decide)⟩

/-- **An address of 29 bits** is not refused, and the drive is sent sector 0. -/
theorem not_addressed :
    ¬∀ (c : Controller) (drive : UInt8) (lba : UInt32) (bus : Bus) (buffer : Slice UInt8),
      buffer.len = 512 → Addressed c drive lba bus buffer ∧
        ∀ lba' ≠ lba, ¬SentAlike c drive lba lba' bus buffer := by
  intro h
  obtain ⟨haddressed, -⟩ := h readyController 0 0x10000000 newBus ⟨fun _ ↦ 0, 512⟩ rfl
  exact absurd ((addressed_iff rfl).mp haddressed) (by decide)

/-! ## The drive of the file system -/

/-- What the readers of the file system take for the content of a sector is what the drive has at
the address that is sent. -/
theorem readSector_eq_programmed (d : RelizFs.Drive) (lba : UInt32) :
    RelizFs.readSector d lba.toNat = d (programmed 0 lba).lba := by
  rw [lba_programmed]
  rfl

end RelizOS.Ata
