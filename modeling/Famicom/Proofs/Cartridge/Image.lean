import Famicom.Proofs.Action
import Famicom.Proofs.Cartridge

/-! Images by their bytes: which of them are accepted, and what the cartridge of an accepted image
answers, whatever has been done with it. -/

namespace Famicom

namespace Image

variable (image : Array UInt8)

/-- A byte of the image as a number. -/
def byte (i : Nat) : Nat := (image.getD i 0).toNat

/-- Where the program starts: behind the header, and behind the trainer if there is one. -/
def start : Nat := 16 + if byte image 6 / 4 % 2 = 1 then 512 else 0

def prgLength : Nat := 0x4000 * byte image 4

def chrLength : Nat := 0x2000 * byte image 5

def declaredLength : Nat := start image + prgLength image + chrLength image

/-- The number of the board, in the upper halves of two bytes. -/
def mapper : Nat := 16 * (byte image 7 / 16) + byte image 6 / 16

/-- What the board is checked for, in this order, and the fault of each check. -/
def boardChecks : List (Bool × Cartridge.Fault) :=
  [(mapper image = 0, .unsupportedMapper (.ofNat (mapper image))),
    (byte image 4 = 1 ∨ byte image 4 = 2, .unsupportedPrgSize (prgLength image)),
    (byte image 5 = 0 ∨ byte image 5 = 1, .unsupportedChrSize (chrLength image))]

/-- What an image is checked for, in this order. -/
def checks : List (Bool × Cartridge.Fault) :=
  (24592 ≤ image.size, .tooSmall image.size) ::
  ([0x4E, 0x45, 0x53, 0x1A] <+: image.toList, .badMagic) ::
  (declaredLength image ≤ image.size, .truncated (declaredLength image) image.size) ::
  boardChecks image

/-- The fault of the first check that is failed. -/
def firstFault? (checks : List (Bool × Cartridge.Fault)) : Option Cartridge.Fault :=
  (checks.find? fun check => !check.1).map (·.2)

theorem firstFault?_cons (passed : Bool) (fault : Cartridge.Fault)
    (rest : List (Bool × Cartridge.Fault)) : firstFault? ((passed, fault) :: rest) =
      if passed then firstFault? rest else some fault := by
  cases passed <;> rfl

theorem magic_iff (image : Array UInt8) :
    image.extract 0 4 = Header.magic ↔ [0x4E, 0x45, 0x53, 0x1A] <+: image.toList := by
  rw [← Array.toList_inj, List.prefix_iff_eq_take]
  simp [Header.magic, eq_comm]

theorem halves_eq (low high : UInt8) :
    (low >>> 4 ||| high &&& 0xF0).toNat = 16 * (high.toNat / 16) + low.toNat / 16 := by
  -- the lower byte is shifted below the four bits that the mask clears
  have hhigh : ∀ n : Fin 256, n.val &&& 0xF0 = (n.val / 16) <<< 4 := by decide +kernel
  have hlow : low.toNat / 16 < 2 ^ 4 := by
    have hlt := low.toNat_lt
    omega
  calc (low >>> 4 ||| high &&& 0xF0).toNat
    _ = low.toNat >>> 4 ||| high.toNat &&& 0xF0 := by simp
    _ = low.toNat / 16 ||| (high.toNat / 16) <<< 4 := by
      rw [hhigh ⟨high.toNat, high.toNat_lt⟩, Nat.shiftRight_eq_div_pow]
    _ = (high.toNat / 16) <<< 4 + low.toNat / 16 := by
      rw [Nat.or_comm, Nat.shiftLeft_add_eq_or_of_lt hlow]
    _ = 16 * (high.toNat / 16) + low.toNat / 16 := by
      rw [Nat.shiftLeft_eq, Nat.mul_comm]

theorem trainer_iff (flags : UInt8) : flags &&& 0x04 ≠ 0 ↔ flags.toNat / 4 % 2 = 1 := by
  have hbit : ∀ n : Fin 256, n.val &&& 0x04 ≠ 0 ↔ n.val / 4 % 2 = 1 := by decide +kernel
  rw [← hbit ⟨flags.toNat, flags.toNat_lt⟩, ne_eq, ← UInt8.toNat_inj, UInt8.toNat_and]
  rfl

/-- The header is made of the bytes of the image. -/
structure Declares (image : Array UInt8) (h : Header) : Prop where
  prgBanks_eq : h.prgBanks.toNat = byte image 4
  chrBanks_eq : h.chrBanks.toNat = byte image 5
  mapper_eq : h.mapper.toNat = mapper image
  prgStart_eq : h.prgStart = start image

variable {image : Array UInt8} {h : Header}

theorem Declares.prgSize_eq (hd : Declares image h) : h.prgSize = prgLength image := by
  rw [Header.prgSize, hd.prgBanks_eq, Nat.mul_comm]
  rfl

theorem Declares.chrSize_eq (hd : Declares image h) : h.chrSize = chrLength image := by
  rw [Header.chrSize, hd.chrBanks_eq, Nat.mul_comm]
  rfl

theorem Declares.imageSize_eq (hd : Declares image h) : h.imageSize = declaredLength image := by
  rw [Header.imageSize, Header.chrStart, hd.prgStart_eq, hd.prgSize_eq, hd.chrSize_eq]
  rfl

theorem parse_of_magic (hsize : 24592 ≤ image.size)
    (hmagic : [0x4E, 0x45, 0x53, 0x1A] <+: image.toList) :
    ∃ h, Header.parse image = .ok h ∧ Declares image h := by
  unfold Header.parse
  rw [if_neg (show ¬image.size < Header.minImageSize from Nat.not_lt.mpr hsize),
    if_neg (not_not.mpr ((magic_iff image).mpr hmagic))]
  refine ⟨_, rfl, rfl, rfl, halves_eq _ _, ?_⟩
  unfold Header.prgStart start byte
  simp only [decide_eq_true_eq, trainer_iff]
  rfl

theorem boardFault?_eq (hd : Declares image h) :
    Cartridge.boardFault? h = firstFault? (boardChecks image) := by
  have hmapper : h.mapper = .ofNat (mapper image) := by
    rw [← hd.mapper_eq, UInt8.ofNat_toNat]
  have hzero : h.mapper ≠ 0 ↔ ¬mapper image = 0 := by
    rw [← hd.mapper_eq, ne_eq, ← UInt8.toNat_inj]
    rfl
  have hprg : h.prgBanks ≠ 1 ∧ h.prgBanks ≠ 2 ↔ ¬(byte image 4 = 1 ∨ byte image 4 = 2) := by
    rw [← hd.prgBanks_eq, not_or, ne_eq, ne_eq, ← UInt8.toNat_inj, ← UInt8.toNat_inj]
    rfl
  have hchr : 1 < h.chrBanks ↔ ¬(byte image 5 = 0 ∨ byte image 5 = 1) := by
    rw [← hd.chrBanks_eq, UInt8.lt_iff_toNat_lt, show (1 : UInt8).toNat = 1 from rfl]
    omega
  unfold Cartridge.boardFault? boardChecks
  simp only [hzero, hprg, hchr, hd.prgSize_eq, hd.chrSize_eq, firstFault?_cons, ite_not,
    decide_eq_true_eq]
  rw [hmapper]
  rfl

theorem firstFault?_eq_none (checks : List (Bool × Cartridge.Fault)) :
    firstFault? checks = none ↔ ∀ check ∈ checks, check.1 = true := by
  unfold firstFault?
  rw [Option.map_eq_none_iff, List.find?_eq_none]
  simp

theorem firstFault?_checks_eq_none (image : Array UInt8) :
    firstFault? (checks image) = none ↔ 24592 ≤ image.size ∧
      [0x4E, 0x45, 0x53, 0x1A] <+: image.toList ∧ declaredLength image ≤ image.size ∧
      mapper image = 0 ∧ (byte image 4 = 1 ∨ byte image 4 = 2) ∧
      (byte image 5 = 0 ∨ byte image 5 = 1) := by
  rw [firstFault?_eq_none]
  simp [checks, boardChecks]

/-- The cartridge of an image as it has been loaded. -/
structure Loaded (image : Array UInt8) (c : Cartridge) : Prop where
  declares : Declares image c.header
  declared_le : declaredLength image ≤ image.size
  prgBanks : byte image 4 = 1 ∨ byte image 4 = 2
  chrBanks : byte image 5 = 0 ∨ byte image 5 = 1
  prg_eq : c.prg = (Cartridge.slice image (start image) (prgLength image)).toArray
  chr_eq : c.chr = if byte image 5 = 0 then .replicate 0x2000 0
    else Cartridge.slice image (start image + prgLength image) 0x2000
  ram_eq : c.ram = .replicate 0x2000 0

theorem header?_of_magic (hsize : 24592 ≤ image.size)
    (hmagic : [0x4E, 0x45, 0x53, 0x1A] <+: image.toList) :
    ∃ h, Declares image h ∧ Cartridge.header? image =
      if image.size < declaredLength image then
        .error (.truncated (declaredLength image) image.size)
      else .ok h := by
  obtain ⟨h, hparse, hd⟩ := parse_of_magic hsize hmagic
  refine ⟨h, hd, ?_⟩
  unfold Cartridge.header?
  rw [hparse]
  dsimp only [Bind.bind, Except.bind]
  rw [hd.imageSize_eq]

theorem ofImage_of_error {e : Cartridge.Fault} (h : Cartridge.header? image = .error e) :
    Cartridge.ofImage image = .error e := by
  unfold Cartridge.ofImage
  rw [h]
  rfl

theorem ofImage_of_boardFault {e : Cartridge.Fault} (hheader : Cartridge.header? image = .ok h)
    (hfault : Cartridge.boardFault? h = some e) : Cartridge.ofImage image = .error e := by
  unfold Cartridge.ofImage
  rw [hheader]
  dsimp only [Bind.bind, Except.bind]
  split
  next e' he =>
    rw [hfault] at he
    cases he
    rfl
  next he =>
    rw [hfault] at he
    cases he

theorem ofImage_of_sound (hheader : Cartridge.header? image = .ok h)
    (hsound : Cartridge.boardFault? h = none) : ∃ c, Cartridge.ofImage image = .ok c ∧
      c.header = h ∧ c.prg = (Cartridge.slice image h.prgStart h.prgSize).toArray ∧
      c.chr = (if h.hasChrRam then .replicate 0x2000 0
        else Cartridge.slice image h.chrStart 0x2000) ∧
      c.ram = .replicate 0x2000 0 := by
  unfold Cartridge.ofImage
  rw [hheader]
  dsimp only [Bind.bind, Except.bind]
  split
  next e he =>
    rw [hsound] at he
    cases he
  next he => exact ⟨_, rfl, rfl, rfl, rfl, rfl⟩

theorem hasChrRam_iff (hd : Declares image h) : h.hasChrRam = true ↔ byte image 5 = 0 := by
  unfold Header.hasChrRam
  rw [beq_iff_eq, ← UInt8.toNat_inj, hd.chrBanks_eq]
  rfl

/-- An image is refused for the first check that it fails, and it is loaded if it fails none. -/
theorem ofImage_cases (image : Array UInt8) :
    (∃ e, firstFault? (checks image) = some e ∧ Cartridge.ofImage image = .error e) ∨
      firstFault? (checks image) = none ∧
        ∃ c, Cartridge.ofImage image = .ok c ∧ Loaded image c := by
  unfold checks
  simp only [firstFault?_cons, decide_eq_true_eq]
  -- the checks of the header come first, and only what passes them gets to the board
  by_cases hsize : 24592 ≤ image.size
  swap
  · refine Or.inl ⟨_, if_neg hsize, ofImage_of_error ?_⟩
    unfold Cartridge.header? Header.parse
    rw [if_pos (show image.size < Header.minImageSize from Nat.not_le.mp hsize)]
    rfl
  rw [if_pos hsize]
  by_cases hmagic : [0x4E, 0x45, 0x53, 0x1A] <+: image.toList
  swap
  · refine Or.inl ⟨_, if_neg hmagic, ofImage_of_error ?_⟩
    unfold Cartridge.header? Header.parse
    rw [if_neg (show ¬image.size < Header.minImageSize from Nat.not_lt.mpr hsize),
      if_pos (mt (magic_iff image).mp hmagic)]
    rfl
  rw [if_pos hmagic]
  obtain ⟨h, hd, hheader⟩ := header?_of_magic hsize hmagic
  by_cases hlength : declaredLength image ≤ image.size
  swap
  · rw [if_pos (Nat.not_le.mp hlength)] at hheader
    exact Or.inl ⟨_, if_neg hlength, ofImage_of_error hheader⟩
  rw [if_neg (Nat.not_lt.mpr hlength)] at hheader
  rw [if_pos hlength, ← boardFault?_eq hd]
  rcases hboard : Cartridge.boardFault? h with _ | e
  · obtain ⟨c, hc, rfl, hprg, hchr, hram⟩ := ofImage_of_sound hheader hboard
    rw [boardFault?_eq hd, firstFault?_eq_none] at hboard
    obtain ⟨-, hprgBanks, hchrBanks⟩ := by simpa [boardChecks] using hboard
    refine Or.inr ⟨rfl, c, hc, hd, hlength, hprgBanks, hchrBanks, ?_, ?_, hram⟩
    · rw [hprg, hd.prgStart_eq, hd.prgSize_eq]
    · rw [hchr, Header.chrStart, hd.prgStart_eq, hd.prgSize_eq]
      simp only [hasChrRam_iff hd]
  · exact Or.inl ⟨e, rfl, ofImage_of_boardFault hheader hboard⟩

end Image

namespace Cartridge

/-- The two sides from which a cartridge is reached. -/
inductive Side
  | processor
  | picture
deriving DecidableEq, Repr

/-- An access to a cartridge. -/
inductive Use
  | read (side : Side) (addr : UInt16)
  | write (side : Side) (addr : UInt16) (v : UInt8)

/-- The cartridge after an access, whether or not it has been taken. -/
def use (c : Cartridge) : Use → Cartridge
  | .read _ _ => c
  | .write .processor addr v => (write addr v c).state
  | .write .picture addr v => (writePattern addr v c).state

def uses (c : Cartridge) (us : List Use) : Cartridge := us.foldl use c

theorem uses_concat (c : Cartridge) (us : List Use) (u : Use) :
    c.uses (us ++ [u]) = (c.uses us).use u := by
  unfold uses
  rw [List.foldl_append]
  rfl

theorem header_use (c : Cartridge) (u : Use) : (c.use u).header = c.header := by
  rcases u with ⟨side, addr⟩ | ⟨_ | _, addr, v⟩
  · rfl
  · unfold use write
    simp only [Action.ite_apply]
    split_ifs <;> rfl
  · unfold use writePattern
    dsimp only
    split
    · rw [Action.view_bind, Action.ite_apply]
      split_ifs <;> rfl
    · rfl

theorem header_uses (c : Cartridge) (us : List Use) : (c.uses us).header = c.header := by
  induction us using List.reverseRecOn with
  | nil => rfl
  | append_singleton us u ih => rw [uses_concat, header_use, ih]

/-- The last byte that has been written at an address of a side, or zero. -/
def lastWritten (side : Side) (addr : UInt16) (us : List Use) : UInt8 :=
  us.foldl (fun last u => match u with
    | .read _ _ => last
    | .write s a v => if s = side ∧ a = addr then v else last) 0

section

variable {side s : Side} {addr a : UInt16} {v : UInt8} {us : List Use}

@[simp] theorem lastWritten_read : lastWritten side addr (us ++ [.read s a]) =
    lastWritten side addr us := by
  unfold lastWritten
  rw [List.foldl_append]
  rfl

@[simp] theorem lastWritten_write : lastWritten side addr (us ++ [.write s a v]) =
    if s = side ∧ a = addr then v else lastWritten side addr us := by
  unfold lastWritten
  rw [List.foldl_append]
  rfl

end

/-- The cartridge of an image after some accesses: its ROM is as it was loaded, and its RAM holds
what was last written there. -/
structure Holds (image : Array UInt8) (us : List Use) (c : Cartridge) : Prop where
  hasChrRam_iff : c.header.hasChrRam = true ↔ Image.byte image 5 = 0
  prg_eq : c.prg = (slice image (Image.start image) (Image.prgLength image)).toArray
  chrRom_eq : Image.byte image 5 ≠ 0 →
    c.chr = slice image (Image.start image + Image.prgLength image) 0x2000
  chrRam_eq : Image.byte image 5 = 0 → ∀ (addr : UInt16) (h : addr.toNat < 0x2000),
    c.chr[addr.toNat] = lastWritten .picture addr us
  ram_eq : ∀ addr : UInt16, 0x6000 ≤ addr.toNat → addr.toNat < 0x8000 →
    getElem c.ram (ramIndex addr) (ramIndex addr).isLt = lastWritten .processor addr us

variable {image : Array UInt8} {us : List Use} {c d : Cartridge}

theorem holds_of_loaded (h : Image.Loaded image c) : Holds image [] c where
  hasChrRam_iff := Image.hasChrRam_iff h.declares
  prg_eq := h.prg_eq
  chrRom_eq := fun hrom => by rw [h.chr_eq, if_neg hrom]
  chrRam_eq := fun hram addr haddr => by
    rw [h.chr_eq]
    simp only [if_pos hram, Vector.getElem_replicate]
    rfl
  ram_eq := fun addr _ _ => by
    rw [h.ram_eq, Fin.getElem_fin, Vector.getElem_replicate]
    rfl

theorem holds_write (h : Holds image us c) (a : UInt16) (v : UInt8) :
    Holds image (us ++ [.write .processor a v]) (write a v c).state := by
  -- elsewhere than in the RAM the write has no effect
  have hkept : ¬(0x6000 ≤ a.toNat ∧ a.toNat < 0x8000) →
      Holds image (us ++ [.write .processor a v]) c := by
    intro houtside
    refine { h with chrRam_eq := ?_, ram_eq := ?_ }
    · intro hram addr haddr
      rw [h.chrRam_eq hram addr haddr]
      simp
    · intro addr hlow hhigh
      have hne : a ≠ addr := by
        rintro rfl
        exact houtside ⟨hlow, hhigh⟩
      rw [h.ram_eq addr hlow hhigh]
      simp [hne]
  unfold write
  rw [Action.ite_apply, Action.ite_apply]
  split
  next hlow =>
    exact hkept fun hin => absurd (UInt16.lt_iff_toNat_lt.mp hlow) (Nat.not_lt.mpr hin.1)
  split
  next hlow hhigh =>
    have hle : 0x6000 ≤ a.toNat :=
      Nat.not_lt.mp fun hlt => hlow (UInt16.lt_iff_toNat_lt.mpr hlt)
    have hlt : a.toNat < 0x8000 := UInt16.lt_iff_toNat_lt.mp hhigh
    refine { h with chrRam_eq := ?_, ram_eq := ?_ }
    · intro hram addr haddr
      rw [lastWritten_write, if_neg (by simp)]
      exact h.chrRam_eq hram addr haddr
    · intro addr hlow' hhigh'
      -- different addresses of the RAM have different places
      have hplace : (ramIndex a : Nat) = ramIndex addr ↔ a = addr := by
        unfold ramIndex
        rw [← UInt16.toNat_inj]
        dsimp only
        omega
      have hram := h.ram_eq addr hlow' hhigh'
      rw [Fin.getElem_fin] at hram
      simp only [Action.update_apply, Fin.getElem_fin, Vector.getElem_set, hplace,
        lastWritten_write, true_and, hram]
  next hlow hhigh =>
    exact hkept fun hin => hhigh (UInt16.lt_iff_toNat_lt.mpr hin.2)

theorem holds_writePattern (h : Holds image us c) (a : UInt16) (v : UInt8) :
    Holds image (us ++ [.write .picture a v]) (writePattern a v c).state := by
  have hram : ∀ addr : UInt16, 0x6000 ≤ addr.toNat → addr.toNat < 0x8000 →
      c.ram[ramIndex addr] = lastWritten .processor addr (us ++ [.write .picture a v]) := by
    intro addr hlow hhigh
    rw [h.ram_eq addr hlow hhigh]
    simp
  unfold writePattern
  split
  next ha =>
    rw [Action.view_bind, Action.ite_apply]
    split
    next hboard =>
      have hchr := h.hasChrRam_iff.mp hboard
      refine { h with chrRom_eq := fun hrom => absurd hchr hrom, chrRam_eq := ?_, ram_eq := hram }
      intro _ addr haddr
      simp only [Action.update_apply, Vector.getElem_set, UInt16.toNat_inj, lastWritten_write,
        true_and, h.chrRam_eq hchr addr haddr]
    next hboard =>
      -- a write to the pattern ROM is lost
      have hchr := mt h.hasChrRam_iff.mpr hboard
      exact { h with chrRam_eq := fun hzero => absurd hzero hchr, ram_eq := hram }
  next ha =>
    -- the address is none of the pattern tables
    refine { h with chrRam_eq := ?_, ram_eq := hram }
    intro hchr addr haddr
    have hne : a ≠ addr := by
      rintro rfl
      exact ha haddr
    rw [Action.fail_apply, h.chrRam_eq hchr addr haddr]
    simp [hne]

theorem holds_use (h : Holds image us c) (u : Use) : Holds image (us ++ [u]) (c.use u) := by
  rcases u with ⟨side, a⟩ | ⟨_ | _, a, v⟩
  · refine { h with chrRam_eq := ?_, ram_eq := ?_ }
    · intro hchr addr haddr
      rw [lastWritten_read]
      exact h.chrRam_eq hchr addr haddr
    · intro addr hlow hhigh
      rw [lastWritten_read]
      exact h.ram_eq addr hlow hhigh
  · exact holds_write h a v
  · exact holds_writePattern h a v

theorem holds_uses (h : Image.Loaded image c) (us : List Use) : Holds image us (c.uses us) := by
  induction us using List.reverseRecOn with
  | nil => exact holds_of_loaded h
  | append_singleton us u ih =>
    rw [uses_concat]
    exact holds_use ih u

/-- A slice within the image holds its bytes. -/
theorem getElem_slice {start size i : Nat} (h : start + size ≤ image.size) (hi : i < size) :
    image[start + i]? = some (slice image start size)[i] := by
  have hlt : start + i < image.size := by omega
  unfold slice
  rw [Vector.getElem_ofFn, Array.getD_eq_getD_getElem?, Array.getElem?_eq_getElem hlt]
  rfl

/-- The program is seen from `0x8000` on, a single bank twice. -/
theorem prgByte_of_holds (hl : Image.Loaded image c) (h : Holds image us d) {addr : UInt16}
    (ha : 0x8000 ≤ addr.toNat) :
    image[Image.start image + (addr.toNat - 0x8000) % Image.prgLength image]? =
      some (d.prgByte addr) := by
  have hbanks := hl.prgBanks
  have hle := hl.declared_le
  unfold Image.declaredLength at hle
  have hlength : Image.prgLength image = 0x4000 ∨ Image.prgLength image = 0x8000 := by
    unfold Image.prgLength
    omega
  have hin : (addr.toNat - 0x8000) % Image.prgLength image < Image.prgLength image :=
    Nat.mod_lt _ (by omega)
  have hsize : d.prg.size = Image.prgLength image := by
    rw [h.prg_eq, Vector.size_toArray]
  -- both lengths divide `0x8000`
  have hplace : addr.toNat % d.prg.size = (addr.toNat - 0x8000) % Image.prgLength image := by
    rw [hsize]
    rcases hlength with hone | htwo
    · rw [hone]
      omega
    · rw [htwo]
      omega
  calc image[Image.start image + (addr.toNat - 0x8000) % Image.prgLength image]?
    _ = some (slice image (Image.start image) (Image.prgLength image))[(addr.toNat - 0x8000) %
        Image.prgLength image] := getElem_slice (by omega) hin
    _ = d.prg[(addr.toNat - 0x8000) % Image.prgLength image]? := by
      rw [h.prg_eq, Vector.getElem?_toArray, Vector.getElem?_eq_getElem hin]
    _ = some (d.prgByte addr) := by
      rw [← hplace]
      exact Array.getElem?_eq_getElem _

theorem not_lt_of_toNat_le {k addr : UInt16} (h : k.toNat ≤ addr.toNat) : ¬addr < k :=
  fun hlt => absurd (UInt16.lt_iff_toNat_lt.mp hlt) (Nat.not_lt.mpr h)

theorem read_program (hl : Image.Loaded image c) (h : Holds image us d) {addr : UInt16}
    (ha : 0x8000 ≤ addr.toNat) : ∃ v,
      image[Image.start image + (addr.toNat - 0x8000) % Image.prgLength image]? = some v ∧
        d.read addr = .ok v := by
  have hlow : UInt16.toNat 0x6000 ≤ addr.toNat := le_trans (by decide) ha
  refine ⟨_, prgByte_of_holds hl h ha, ?_⟩
  unfold read
  rw [if_neg (not_lt_of_toNat_le hlow), if_neg (not_lt_of_toNat_le (k := 0x8000) ha)]

theorem read_ram (h : Holds image us d) {addr : UInt16} (hlow : 0x6000 ≤ addr.toNat)
    (hhigh : addr.toNat < 0x8000) : d.read addr = .ok (lastWritten .processor addr us) := by
  unfold read
  rw [if_neg (not_lt_of_toNat_le (k := 0x6000) hlow),
    if_pos (UInt16.lt_iff_toNat_lt.mpr hhigh), h.ram_eq addr hlow hhigh]

theorem readPattern_rom (hl : Image.Loaded image c) (h : Holds image us d)
    (hrom : Image.byte image 5 = 1) {addr : UInt16} (ha : addr.toNat < 0x2000) : ∃ v,
      image[Image.start image + Image.prgLength image + addr.toNat]? = some v ∧
        d.readPattern addr = .ok v := by
  have hle := hl.declared_le
  unfold Image.declaredLength Image.chrLength at hle
  have hchr := h.chrRom_eq (by omega)
  refine ⟨d.chr[addr.toNat], ?_, ?_⟩
  · rw [getElem_slice (by omega) ha, hchr]
  · unfold readPattern
    rw [dif_pos ha]

theorem readPattern_ram (h : Holds image us d) (hram : Image.byte image 5 = 0) {addr : UInt16}
    (ha : addr.toNat < 0x2000) : d.readPattern addr = .ok (lastWritten .picture addr us) := by
  unfold readPattern
  rw [dif_pos ha, h.chrRam_eq hram addr ha]

/-- An image is accepted if it passes all checks, and else it is refused for the first that it
fails. Whatever has been done with the cartridge, its ROM is read as it is in the image, and each
byte of its RAM as it was written last. -/
theorem ofImage_answers (image : Array UInt8) :
    ((∃ c, ofImage image = .ok c) ↔ 24592 ≤ image.size ∧
      [0x4E, 0x45, 0x53, 0x1A] <+: image.toList ∧ Image.declaredLength image ≤ image.size ∧
      Image.mapper image = 0 ∧ (Image.byte image 4 = 1 ∨ Image.byte image 4 = 2) ∧
      (Image.byte image 5 = 0 ∨ Image.byte image 5 = 1)) ∧
    (∀ e, ofImage image = .error e ↔ Image.firstFault? (Image.checks image) = some e) ∧
    ∀ c, ofImage image = .ok c → ∀ us : List Use,
      (∀ addr : UInt16, 0x8000 ≤ addr.toNat → ∃ v,
        image[Image.start image + (addr.toNat - 0x8000) % Image.prgLength image]? = some v ∧
          (c.uses us).read addr = .ok v) ∧
      (Image.byte image 5 = 1 → ∀ addr : UInt16, addr.toNat < 0x2000 → ∃ v,
        image[Image.start image + Image.prgLength image + addr.toNat]? = some v ∧
          (c.uses us).readPattern addr = .ok v) ∧
      (Image.byte image 5 = 0 → ∀ addr : UInt16, addr.toNat < 0x2000 →
        (c.uses us).readPattern addr = .ok (lastWritten .picture addr us)) ∧
      ∀ addr : UInt16, 0x6000 ≤ addr.toNat → addr.toNat < 0x8000 →
        (c.uses us).read addr = .ok (lastWritten .processor addr us) := by
  rw [← Image.firstFault?_checks_eq_none]
  rcases Image.ofImage_cases image with ⟨e, hfault, hrefused⟩ | ⟨hnone, c, hc, hl⟩
  · refine ⟨?_, ?_, ?_⟩
    · simp [hfault, hrefused]
    · simp [hfault, hrefused]
    · intro c hc
      rw [hrefused] at hc
      cases hc
  · refine ⟨?_, ?_, ?_⟩
    · simp [hnone, hc]
    · simp [hnone, hc]
    · intro d hd us
      rw [hc] at hd
      cases hd
      -- whatever is done with a cartridge, it holds the image and what was written to it
      have h := holds_uses hl us
      exact ⟨fun addr ha => read_program hl h ha, fun hrom addr ha => readPattern_rom hl h hrom ha,
        fun hram addr ha => readPattern_ram h hram ha, fun addr hlow hhigh => read_ram h hlow hhigh⟩

/-- A plain image, and an empty one. The writes go to the RAM, to the pattern ROM and to the
program, and only the first of them is seen. -/
theorem ofImage_answers_of_plain :
    ofImage #[] = .error (.tooSmall 0) ∧
    ∃ c, ofImage (plainImage (.replicate 0x4000 0xEA) (.replicate 0x2000 0x55)) = .ok c ∧
      let d := c.uses [.write .processor 0x6001 7, .write .picture 0 8, .write .processor 0xC000 9]
      d.read 0x6001 = .ok 7 ∧ d.read 0x6002 = .ok 0 ∧ d.read 0xC000 = .ok 0xEA ∧
        d.readPattern 0 = .ok 0x55 := by
  refine ⟨((ofImage_answers #[]).2.1 _).mpr rfl, ?_⟩
  have hbyte : ∀ i, i < 16 → Image.byte (plainImage (.replicate 0x4000 0xEA)
      (.replicate 0x2000 0x55)) i = (plainHeaderBytes.getD i 0).toNat := by
    intro i hi
    rw [Image.byte, getD_plainImage _ _ hi]
  generalize himage : plainImage (.replicate 0x4000 0xEA) (.replicate 0x2000 0x55) = image at hbyte
  have hstart : Image.start image = 16 := by
    rw [Image.start, hbyte 6 (by decide)]
    rfl
  have hlength : Image.prgLength image = 0x4000 := by
    rw [Image.prgLength, hbyte 4 (by decide)]
    rfl
  have hsize : image.size = 24592 := himage ▸ size_plainImage _ _
  have hprg : image[16 + 0]? = some 0xEA := by
    rw [getElem_slice (by rw [hsize]; decide : 16 + 0x4000 ≤ image.size) (by decide)]
    simp only [← himage, slice_prg]
    rfl
  have hchr : image[16 + 0x4000 + 0]? = some 0x55 := by
    rw [getElem_slice (by rw [hsize] : 16 + 0x4000 + 0x2000 ≤ image.size) (by decide)]
    simp only [← himage, show 16 + 0x4000 = 0x4010 from rfl, slice_chr]
    rfl
  have hc : ofImage image = .ok (plain _ _) := himage ▸ ofImage_plainImage _ _
  obtain ⟨hprogram, hrom, -, hram⟩ := (ofImage_answers image).2.2 _ hc
    [.write .processor 0x6001 7, .write .picture 0 8, .write .processor 0xC000 9]
  obtain ⟨v, hv, hread⟩ := hprogram 0xC000 (by decide)
  obtain ⟨w, hw, hpattern⟩ := hrom (hbyte 5 (by decide)) 0 (by decide)
  rw [hstart, hlength] at hv hw
  cases hprg.symm.trans hv
  cases hchr.symm.trans hw
  exact ⟨_, hc, hram 0x6001 (by decide) (by decide), hram 0x6002 (by decide) (by decide), hread,
    hpattern⟩

end Cartridge

end Famicom
