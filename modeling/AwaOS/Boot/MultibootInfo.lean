import AwaOS.Boot.SaveInfo

/-!
The saved information is faithful. That it fits in `mb_info` is left to the bootloader.
-/

namespace AwaOS

open LoggedMem multibootInfo

namespace saveMultibootInfo

/--
One pointer of the saved header is set to the end of what was saved before, and its area is copied there.
-/
def relocate (m : LoggedMem) (destination : Word) (field current : Nat) (base size : Word) : LoggedMem :=
  (saveSubset (destination + BitVec.ofNat 32 current) base size
    (m.store32 (destination + BitVec.ofNat 32 field) (destination + BitVec.ofNat 32 current))).2

/--
What `relocate` does.
-/
structure Relocated (m m' : LoggedMem) (destination : Word) (field current : Nat) (base : Word)
    (size : Nat) : Prop where
  copied : ∀ i, i < size →
    m'.byte (destination + BitVec.ofNat 32 (current + i)) = m.byte (base + BitVec.ofNat 32 i)
  field_eq : m'.load32 (destination + BitVec.ofNat 32 field) = destination + BitVec.ofNat 32 current
  kept : ∀ b, ¬(field ≤ offsetFrom destination b ∧ offsetFrom destination b < field + 4) →
    ¬(current ≤ offsetFrom destination b ∧ offsetFrom destination b < current + size) → m'.byte b = m.byte b
  written : ∀ b, b ∈ m'.written
    ↔ (current ≤ offsetFrom destination b ∧ offsetFrom destination b < current + size)
      ∨ (field ≤ offsetFrom destination b ∧ offsetFrom destination b < field + 4) ∨ b ∈ m.written

section Relocate

variable {m : LoggedMem} {destination base size : Word} {field current : Nat}

theorem relocated (hfield : field + 4 ≤ current) (hcurrent : current + size.toNat ≤ 2 ^ 32)
    (hapart : Apart base size.toNat destination (current + size.toNat))
    : Relocated m (relocate m destination field current base size) destination field current base size.toNat := by
  have hsize := Nat.le_of_lt size.isLt
  have hsource : Apart base size.toNat (destination + BitVec.ofNat 32 current) size.toNat := by
    intro c hc hin
    rw [offsetFrom_add_lt_iff destination c hcurrent] at hin
    exact hapart c hc hin.2
  have hcopy := (m.store32 (destination + BitVec.ofNat 32 field) (destination + BitVec.ofNat 32 current)).byte_fold_copy
    (destination + BitVec.ofNat 32 current) base hsize hsource
  have hstore : ∀ b, ¬(field ≤ offsetFrom destination b ∧ offsetFrom destination b < field + 4) →
      (m.store32 (destination + BitVec.ofNat 32 field) (destination + BitVec.ofNat 32 current)).byte b = m.byte b := by
    intro b hb
    rw [← offsetFrom_add_lt_iff destination b (by omega)] at hb
    exact if_neg hb
  constructor
  . intro i hi
    have hoffset :
        offsetFrom (destination + BitVec.ofNat 32 current) (destination + BitVec.ofNat 32 (current + i)) = i := by
      rw [offsetFrom_add_eq _ _ (by rw [offsetFrom_add destination (by omega)]; omega),
        offsetFrom_add destination (by omega), Nat.add_sub_cancel_left]
    have hbase : ¬offsetFrom destination (base + BitVec.ofNat 32 i) < current + size.toNat := by
      apply hapart
      rw [offsetFrom_add base (by omega)]
      exact hi
    unfold relocate saveSubset
    rw [hcopy, hoffset, if_pos hi, hstore _ (by omega)]
  . have hsame : ∀ b, offsetFrom (destination + BitVec.ofNat 32 field) b < 4 →
        (relocate m destination field current base size).byte b
          = (m.store32 (destination + BitVec.ofNat 32 field) (destination + BitVec.ofNat 32 current)).byte b := by
      intro b hb
      rw [offsetFrom_add_lt_iff destination b (by omega)] at hb
      unfold relocate saveSubset
      rw [hcopy, if_neg]
      rw [offsetFrom_add_lt_iff destination b hcurrent]
      omega
    rw [load32_congr _ hsame]
    apply load32_store32_self
  . intro b hb hb'
    rw [← offsetFrom_add_lt_iff destination b hcurrent] at hb'
    unfold relocate saveSubset
    rw [hcopy, if_neg hb', hstore b hb]
  . intro b
    unfold relocate saveSubset
    rw [mem_written_fold_store8 _ _ (fun i m => m.byte (base + BitVec.ofNat 32 i)) hsize, mem_written_store32,
      offsetFrom_add_lt_iff destination b hcurrent, offsetFrom_add_lt_iff destination b (by omega)]

end Relocate

theorem Relocated.sameOutside {m m' : LoggedMem} {destination base : Word} {field current size : Nat}
    (h : Relocated m m' destination field current base size) (hfield : field + 4 ≤ current)
    : SameOutside m m' destination (current + size) := by
  intro b hb
  apply h.kept
  . omega
  . omega

end saveMultibootInfo

namespace multibootInfo

def hasDrives (m : LoggedMem) (info : Word) : Bool :=
  present (flags m info) multibootInfoDriveInfo

/--
The number of bytes from the saved header to the end of the last area that is saved.
-/
def savedSize (m : LoggedMem) (info : Word) : Nat :=
  sizeofMultibootInfo + (mmapLength m info).toNat + if hasDrives m info then (drivesLength m info).toNat else 0

/--
What is saved is not where it is saved to.
-/
structure SavedElsewhere (m : LoggedMem) (info destination : Word) : Prop where
  header : Apart info sizeofMultibootInfo destination (savedSize m info)
  mmap : Apart (mmapAddr m info) (mmapLength m info).toNat destination (savedSize m info)
  drives : hasDrives m info = true →
    Apart (drivesAddr m info) (drivesLength m info).toNat destination (savedSize m info)

end multibootInfo

namespace saveMultibootInfo

section Phases

variable {m m' : LoggedMem} {info destination : Word}

theorem savedSize_lt (h : SavedElsewhere m info destination) : savedSize m info < 2 ^ 32 := by
  by_contra hge
  have hzero : offsetFrom info info = 0 := by
    unfold offsetFrom
    rw [BitVec.sub_self]
    rfl
  have hlt := offsetFrom_lt destination info
  refine h.header info ?_ (by omega)
  rw [hzero]
  decide

theorem le_savedSize (m : LoggedMem) (info : Word)
    : sizeofMultibootInfo + (mmapLength m info).toNat ≤ savedSize m info :=
  Nat.le_add_right _ _

/--
Nothing that is saved changes the members that are read from the original header.
-/
theorem SavedElsewhere.load32_eq (h : SavedElsewhere m info destination)
    (hsame : SameOutside m m' destination (savedSize m info)) {field : Nat}
    (hfield : field + 4 ≤ sizeofMultibootInfo)
    : m'.load32 (info + BitVec.ofNat 32 field) = m.load32 (info + BitVec.ofNat 32 field) :=
  hsame.load32_eq h.header hfield (by decide)

theorem sameOutside_copyHeader (h : SavedElsewhere m info destination)
    : SameOutside m (copyHeader info destination m) destination sizeofMultibootInfo := by
  have hle := le_savedSize m info
  have hapart : Apart info sizeofMultibootInfo destination sizeofMultibootInfo :=
    fun c hc hin => h.header c hc (by omega)
  intro b hb
  unfold copyHeader
  rw [m.byte_fold_copy destination info (by decide) hapart, if_neg hb]

theorem sameOutside_store32 {field : Nat} (hfield : field + 4 ≤ sizeofMultibootInfo) (value : Word)
    : SameOutside m (m.store32 (destination + BitVec.ofNat 32 field) value) destination sizeofMultibootInfo := by
  unfold sizeofMultibootInfo at *
  intro b hb
  apply if_neg
  rw [offsetFrom_add_lt_iff destination b (by omega)]
  omega

/--
The state after the memory map was saved.
-/
def saveMmap (info destination : Word) (m : LoggedMem) : LoggedMem :=
  relocate (copyHeader info destination m) destination mmapAddrOffset sizeofMultibootInfo (mmapAddr m info)
    (mmapLength m info)

theorem relocated_saveMmap (h : SavedElsewhere m info destination)
    : Relocated (copyHeader info destination m) (saveMmap info destination m) destination mmapAddrOffset
        sizeofMultibootInfo (mmapAddr m info) (mmapLength m info).toNat := by
  have hle := le_savedSize m info
  have hlt := savedSize_lt h
  apply relocated
  . decide
  . omega
  . exact fun c hc hin => h.mmap c hc (by omega)

theorem sameOutside_saveMmap (h : SavedElsewhere m info destination)
    : SameOutside m (saveMmap info destination m) destination (sizeofMultibootInfo + (mmapLength m info).toNat) :=
  ((sameOutside_copyHeader h).mono (Nat.le_add_right _ _)).trans
    ((relocated_saveMmap h).sameOutside (by decide))

theorem saveMultibootInfo_eq (h : SavedElsewhere m info destination)
    : saveMultibootInfo info destination m
        =
      if hasDrives m info then
        relocate (saveMmap info destination m) destination drivesAddrOffset
          (sizeofMultibootInfo + (mmapLength m info).toNat) (drivesAddr m info) (drivesLength m info)
      else
        saveMmap info destination m := by
  have hle := le_savedSize m info
  have hheader : SameOutside m (copyHeader info destination m) destination (savedSize m info) :=
    (sameOutside_copyHeader h).mono (by omega)
  have hmmap : SameOutside m (saveMmap info destination m) destination (savedSize m info) :=
    (sameOutside_saveMmap h).mono hle
  -- the state when the first area is copied, and the one when the second is
  have hset : ∀ value, SameOutside m (setMmapAddr (copyHeader info destination m) destination value) destination
      (savedSize m info) :=
    fun value => hheader.trans ((sameOutside_store32 (by decide) value).mono (by omega))
  have hset' : ∀ value,
    SameOutside m (setDrivesAddr (saveMmap info destination m) destination value) destination
      (savedSize m info) :=
    fun value => hmmap.trans ((sameOutside_store32 (by decide) value).mono (by omega))
  have hend : BitVec.ofNat 32 sizeofMultibootInfo + mmapLength m info
      = BitVec.ofNat 32 (sizeofMultibootInfo + (mmapLength m info).toNat) := by
    rw [BitVec.ofNat_add, BitVec.ofNat_toNat, BitVec.setWidth_eq]
  have hmap : ∀ value, (saveSubset (destination + BitVec.ofNat 32 sizeofMultibootInfo)
      (mmapAddr (setMmapAddr (copyHeader info destination m) destination value) info)
      (mmapLength (setMmapAddr (copyHeader info destination m) destination value) info)
      (setMmapAddr (copyHeader info destination m) destination value))
        = saveSubset (destination + BitVec.ofNat 32 sizeofMultibootInfo) (mmapAddr m info) (mmapLength m info)
            (setMmapAddr (copyHeader info destination m) destination value) := by
    intro value
    unfold mmapAddr mmapLength
    rw [SavedElsewhere.load32_eq h (hset value) (by decide),
      SavedElsewhere.load32_eq h (hset value) (by decide)]
  have hflags : flags (saveMmap info destination m) info = flags m info :=
    SavedElsewhere.load32_eq h hmmap (by decide)
  have hdrives : ∀ value, drivesAddr (setDrivesAddr (saveMmap info destination m) destination value) info
      = drivesAddr m info := fun value => SavedElsewhere.load32_eq h (hset' value) (by decide)
  have hdrives' : ∀ value, drivesLength (setDrivesAddr (saveMmap info destination m) destination value) info
      = drivesLength m info := fun value => SavedElsewhere.load32_eq h (hset' value) (by decide)
  have hcopy : (saveSubset (destination + BitVec.ofNat 32 sizeofMultibootInfo) (mmapAddr m info) (mmapLength m info)
      (setMmapAddr (copyHeader info destination m) destination (destination + BitVec.ofNat 32 sizeofMultibootInfo)))
        = (mmapLength m info, saveMmap info destination m) := by
    rfl
  unfold saveMultibootInfo
  dsimp only
  rw [hmap, hcopy]
  unfold saveDrives
  dsimp only
  rw [hflags, hend, hdrives, hdrives']
  rfl

theorem saveMultibootInfo_of_noDrives (h : SavedElsewhere m info destination)
    (hdrives : hasDrives m info = false)
    : saveMultibootInfo info destination m = saveMmap info destination m := by
  rw [saveMultibootInfo_eq h, hdrives, if_neg (by decide)]

theorem relocated_saveMultibootInfo (h : SavedElsewhere m info destination) (hdrives : hasDrives m info = true)
    : Relocated (saveMmap info destination m) (saveMultibootInfo info destination m) destination drivesAddrOffset
        (sizeofMultibootInfo + (mmapLength m info).toNat) (drivesAddr m info) (drivesLength m info).toNat := by
  have hlt := savedSize_lt h
  have hapart := h.drives hdrives
  have hsize :
      savedSize m info = sizeofMultibootInfo + (mmapLength m info).toNat + (drivesLength m info).toNat := by
    unfold savedSize
    rw [if_pos hdrives]
  rw [hsize] at hlt hapart
  rw [saveMultibootInfo_eq h, if_pos hdrives]
  apply relocated
  . unfold drivesAddrOffset sizeofMultibootInfo
    omega
  . omega
  . exact hapart

section Relocated

variable {base : Word} {field current size : Nat}

theorem Relocated.byte_kept (h : Relocated m m' destination field current base size)
    (hcurrent : current ≤ 2 ^ 32) {i : Nat} (hi : i < current) (hfield : ¬(field ≤ i ∧ i < field + 4))
    : m'.byte (destination + BitVec.ofNat 32 i) = m.byte (destination + BitVec.ofNat 32 i) := by
  have hoffset := offsetFrom_add destination (show i < 2 ^ 32 by omega)
  apply h.kept
  . rw [hoffset]
    exact hfield
  . rw [hoffset]
    omega

theorem Relocated.written_iff (h : Relocated m m' destination field current base size)
    (hfield : field + 4 ≤ current)
    (hwritten : ∀ b, b ∈ m.written ↔ offsetFrom destination b < current) (b : Word)
    : b ∈ m'.written ↔ offsetFrom destination b < current + size := by
  rw [h.written, hwritten]
  omega

/--
The area that was copied, where the pointer says that it is.
-/
theorem Relocated.copied_at (h : Relocated m m' destination field current base size) {i : Nat} (hi : i < size)
    : m'.byte (m'.load32 (destination + BitVec.ofNat 32 field) + BitVec.ofNat 32 i)
        =
      m.byte (base + BitVec.ofNat 32 i) := by
  rw [h.field_eq, BitVec.add_assoc, ← BitVec.ofNat_add]
  exact h.copied i hi

theorem apart_of_le {n k l : Nat} (hle : n ≤ k) (hfits : k + l ≤ 2 ^ 32)
    : Apart destination n (destination + BitVec.ofNat 32 k) l := by
  intro c hc hin
  rw [offsetFrom_add_lt_iff destination c hfits] at hin
  omega

end Relocated

end Phases

end saveMultibootInfo

open saveMultibootInfo

/--
What `_save_multiboot_info` is for. `m'` is the memory afterwards.
-/
structure SavesInfo (m m' : LoggedMem) (info destination : Word) : Prop where
  mmap : ∀ i, i < (mmapLength m info).toNat →
    m'.byte (mmapAddr m' destination + BitVec.ofNat 32 i) = m.byte (mmapAddr m info + BitVec.ofNat 32 i)
  drives : hasDrives m info = true → ∀ i, i < (drivesLength m info).toNat →
    m'.byte (drivesAddr m' destination + BitVec.ofNat 32 i) = m.byte (drivesAddr m info + BitVec.ofNat 32 i)
  mmap_apart : Apart destination sizeofMultibootInfo (mmapAddr m' destination) (mmapLength m info).toNat
  drives_apart : hasDrives m info = true →
    Apart destination sizeofMultibootInfo (drivesAddr m' destination) (drivesLength m info).toNat
      ∧ Apart (mmapAddr m' destination) (mmapLength m info).toNat (drivesAddr m' destination)
        (drivesLength m info).toNat
  header : ∀ i, i < sizeofMultibootInfo → ¬(mmapAddrOffset ≤ i ∧ i < mmapAddrOffset + 4) →
    (hasDrives m info = true → ¬(drivesAddrOffset ≤ i ∧ i < drivesAddrOffset + 4)) →
    m'.byte (destination + BitVec.ofNat 32 i) = m.byte (info + BitVec.ofNat 32 i)
  inside : m'.Inside destination mbInfoSize

section SavesInfo

variable {m : LoggedMem} {byte : Word → BitVec 8} {info destination : Word}

theorem byte_copyHeader (h : SavedElsewhere m info destination) {i : Nat} (hi : i < sizeofMultibootInfo)
    : (copyHeader info destination m).byte (destination + BitVec.ofNat 32 i)
        =
      m.byte (info + BitVec.ofNat 32 i) := by
  have hle := le_savedSize m info
  have hapart : Apart info sizeofMultibootInfo destination sizeofMultibootInfo :=
    fun c hc hin => h.header c hc (by omega)
  have hoffset := offsetFrom_add destination (show i < 2 ^ 32 by unfold sizeofMultibootInfo at hi; omega)
  unfold copyHeader
  rw [m.byte_fold_copy destination info (by decide) hapart, hoffset, if_pos hi]

/--
All bytes up to the end of what is saved are written, and no others.
-/
theorem mem_written_saveMultibootInfo (h : SavedElsewhere ⟨byte, []⟩ info destination) (b : Word)
    : b ∈ (saveMultibootInfo info destination ⟨byte, []⟩).written
        ↔
      offsetFrom destination b < savedSize ⟨byte, []⟩ info := by
  have hlt := savedSize_lt h
  have hheader : ∀ b, b ∈ (copyHeader info destination ⟨byte, []⟩).written
      ↔ offsetFrom destination b < sizeofMultibootInfo := by
    intro b
    unfold copyHeader
    rw [mem_written_fold_store8 _ _ (fun i m => m.byte (info + BitVec.ofNat 32 i)) (by decide),
      or_iff_left List.not_mem_nil]
  have hmmap := (relocated_saveMmap h).written_iff (by decide) hheader
  unfold savedSize
  cases hdrives : hasDrives ⟨byte, []⟩ info with
  | false =>
    rw [saveMultibootInfo_of_noDrives h hdrives, if_neg (by decide)]
    exact hmmap b
  | true =>
    rw [if_pos rfl]
    apply (relocated_saveMultibootInfo h hdrives).written_iff
    . unfold drivesAddrOffset sizeofMultibootInfo
      omega
    . exact hmmap

/--
The memory map and the header, after the drive table was saved too.
-/
theorem byte_saveMultibootInfo (h : SavedElsewhere m info destination) {i : Nat}
    (hi : i < sizeofMultibootInfo + (mmapLength m info).toNat)
    (hfield : hasDrives m info = true → ¬(drivesAddrOffset ≤ i ∧ i < drivesAddrOffset + 4))
    : (saveMultibootInfo info destination m).byte (destination + BitVec.ofNat 32 i)
        =
      (saveMmap info destination m).byte (destination + BitVec.ofNat 32 i) := by
  have hlt := savedSize_lt h
  have hle := le_savedSize m info
  cases hdrives : hasDrives m info with
  | false => rw [saveMultibootInfo_of_noDrives h hdrives]
  | true => exact (relocated_saveMultibootInfo h hdrives).byte_kept (by omega) hi (hfield hdrives)

theorem mmapAddr_saveMultibootInfo (h : SavedElsewhere m info destination)
    : mmapAddr (saveMultibootInfo info destination m) destination
        =
      destination + BitVec.ofNat 32 sizeofMultibootInfo := by
  have hfield : mmapAddr (saveMmap info destination m) destination = _ := (relocated_saveMmap h).field_eq
  have hsame : mmapAddr (saveMultibootInfo info destination m) destination
      = mmapAddr (saveMmap info destination m) destination := by
    apply load32_congr
    intro b hb
    unfold mmapAddrOffset at hb
    rw [offsetFrom_add_lt_iff destination b (by omega)] at hb
    rw [← add_offsetFrom destination b]
    apply byte_saveMultibootInfo h
    . unfold sizeofMultibootInfo
      omega
    . unfold drivesAddrOffset
      omega
  rw [hsame, hfield]

theorem savesInfo_of_le (h : SavedElsewhere ⟨byte, []⟩ info destination)
    (hfits : savedSize ⟨byte, []⟩ info ≤ mbInfoSize)
    : SavesInfo ⟨byte, []⟩ (saveMultibootInfo info destination ⟨byte, []⟩) info destination := by
  have hlt := savedSize_lt h
  have hle := le_savedSize ⟨byte, []⟩ info
  have hsame := sameOutside_copyHeader h
  have hmmap := relocated_saveMmap h
  have haddr := mmapAddr_saveMultibootInfo h
  constructor
  . intro i hi
    have hcopied := hmmap.copied i hi
    rw [haddr, BitVec.add_assoc, ← BitVec.ofNat_add, byte_saveMultibootInfo h (by omega)
      (fun _ => by unfold drivesAddrOffset sizeofMultibootInfo; omega), hcopied]
    apply (hsame.mono (Nat.le_trans (Nat.le_add_right _ _) hle)).byte_eq h.mmap hi
    exact Nat.le_of_lt (BitVec.isLt _)
  . intro hdrives i hi
    have hsame' := (sameOutside_saveMmap h).mono hle
    unfold drivesAddr
    rw [(relocated_saveMultibootInfo h hdrives).copied_at hi]
    exact hsame'.byte_eq (h.drives hdrives) hi (Nat.le_of_lt (BitVec.isLt _))
  . rw [haddr]
    exact apart_of_le (Nat.le_refl _) (by omega)
  . intro hdrives
    have haddr' : drivesAddr (saveMultibootInfo info destination ⟨byte, []⟩) destination = _ :=
      (relocated_saveMultibootInfo h hdrives).field_eq
    have hsize : savedSize ⟨byte, []⟩ info = sizeofMultibootInfo + (mmapLength ⟨byte, []⟩ info).toNat
        + (drivesLength ⟨byte, []⟩ info).toNat := by
      unfold savedSize
      rw [if_pos hdrives]
    rw [haddr, haddr']
    constructor
    . exact apart_of_le (by omega) (by omega)
    . intro c hc hin
      rw [offsetFrom_add_lt_iff destination c (by omega)] at hc hin
      omega
  . intro i hi hfield hfield'
    have hsize : sizeofMultibootInfo ≤ 2 ^ 32 := by decide
    rw [byte_saveMultibootInfo h (by omega) hfield', hmmap.byte_kept hsize hi hfield, byte_copyHeader h hi]
  . intro b hb
    rw [mem_written_saveMultibootInfo h] at hb
    omega

end SavesInfo

/--
The boot information is saved as it was, and within `mb_info`, if and only if all of it fits there. Nothing compares
the lengths with the size of `mb_info`.
-/
theorem saveMultibootInfo_savesInfo_iff {byte : Word → BitVec 8} {info destination : Word}
    (h : SavedElsewhere ⟨byte, []⟩ info destination)
    : SavesInfo ⟨byte, []⟩ (saveMultibootInfo info destination ⟨byte, []⟩) info destination
        ↔
      savedSize ⟨byte, []⟩ info ≤ mbInfoSize := by
  constructor
  . intro hsaves
    by_contra hlarge
    have hlt := savedSize_lt h
    unfold mbInfoSize at hlarge
    -- the last byte that is saved
    have hoffset := offsetFrom_add destination (show savedSize ⟨byte, []⟩ info - 1 < 2 ^ 32 by omega)
    have hlast := hsaves.inside _ ((mem_written_saveMultibootInfo h _).mpr (by rw [hoffset]; omega))
    rw [hoffset] at hlast
    unfold mbInfoSize at hlast
    omega
  . exact savesInfo_of_le h

/--
A header at 0x10000 without a drive table, and a memory map of `length` bytes at 0x20000.
-/
def bootloaderMemory (length : Word) : Word → BitVec 8 :=
  (setMmapAddr ((⟨fun _ => 0, []⟩ : LoggedMem).store32 (0x10000 + BitVec.ofNat 32 mmapLengthOffset) length)
    0x10000 0x20000).byte

section BootloaderMemory

variable (length : Word)

theorem mmapLength_bootloaderMemory : mmapLength ⟨bootloaderMemory length, []⟩ 0x10000 = length := by
  have hkept := @load32_store32_of_apart
    (LoggedMem.store32 ⟨fun _ => 0, []⟩ (0x10000 + BitVec.ofNat 32 mmapLengthOffset) length)
    0x10000 0x20000 mmapAddrOffset mmapLengthOffset (by decide) (by decide) (by decide)
  exact hkept.trans (load32_store32_self _ _ _)

theorem mmapAddr_bootloaderMemory : mmapAddr ⟨bootloaderMemory length, []⟩ 0x10000 = 0x20000 :=
  load32_store32_self _ _ _

theorem hasDrives_bootloaderMemory : hasDrives ⟨bootloaderMemory length, []⟩ 0x10000 = false := by
  have hflags : flags ⟨bootloaderMemory length, []⟩ 0x10000 = 0 := by
    have hkept := @load32_store32_of_apart
      (LoggedMem.store32 ⟨fun _ => 0, []⟩ (0x10000 + BitVec.ofNat 32 mmapLengthOffset) length)
      0x10000 0x20000 mmapAddrOffset flagsOffset (by decide) (by decide) (by decide)
    have hkept' := @load32_store32_of_apart ⟨fun _ => 0, []⟩ 0x10000 length mmapLengthOffset flagsOffset
      (by decide) (by decide) (by decide)
    exact hkept.trans hkept'
  unfold hasDrives
  rw [hflags]
  decide

theorem savedSize_bootloaderMemory
    : savedSize ⟨bootloaderMemory length, []⟩ 0x10000 = sizeofMultibootInfo + length.toNat := by
  unfold savedSize
  rw [hasDrives_bootloaderMemory, mmapLength_bootloaderMemory, if_neg (by decide), Nat.add_zero]

theorem savedElsewhere_bootloaderMemory {length : Word} (hlength : length.toNat ≤ 0x10000)
    : SavedElsewhere ⟨bootloaderMemory length, []⟩ 0x10000 0x102000 where
  header := by
    have hdestination : (0x102000 : Word) = 0x10000 + BitVec.ofNat 32 0xF2000 := by decide
    rw [savedSize_bootloaderMemory, hdestination]
    unfold sizeofMultibootInfo
    apply apart_of_le
    . decide
    . omega
  mmap := by
    have hdestination : (0x102000 : Word) = 0x20000 + BitVec.ofNat 32 0xE2000 := by decide
    rw [savedSize_bootloaderMemory, mmapAddr_bootloaderMemory, mmapLength_bootloaderMemory, hdestination]
    unfold sizeofMultibootInfo
    apply apart_of_le
    . omega
    . omega
  drives := by
    intro hdrives
    rw [hasDrives_bootloaderMemory] at hdrives
    contradiction

end BootloaderMemory

theorem saveMultibootInfo_savesInfo_small
    : SavesInfo ⟨bootloaderMemory 144, []⟩ (saveMultibootInfo 0x10000 0x102000 ⟨bootloaderMemory 144, []⟩)
        0x10000 0x102000 :=
  (saveMultibootInfo_savesInfo_iff (savedElsewhere_bootloaderMemory (by decide))).mpr (by
    rw [savedSize_bootloaderMemory]
    decide)

/--
A memory map of 166 entries is written past the end of `mb_info`.
-/
theorem saveMultibootInfo_overruns
    : ¬∀ (byte : Word → BitVec 8) (info destination : Word), SavedElsewhere ⟨byte, []⟩ info destination →
        SavesInfo ⟨byte, []⟩ (saveMultibootInfo info destination ⟨byte, []⟩) info destination := by
  intro hall
  have helsewhere := savedElsewhere_bootloaderMemory (show (3984 : Word).toNat ≤ 0x10000 by decide)
  have hsaves := hall _ _ _ helsewhere
  rw [saveMultibootInfo_savesInfo_iff helsewhere, savedSize_bootloaderMemory] at hsaves
  exact absurd hsaves (by decide)

end AwaOS
