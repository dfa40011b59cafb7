import Mathlib.Tactic
import Famicom.Cartridge.Basic

/-! Images of plain cartridges, with one bank of program ROM and one of pattern ROM. -/

namespace Famicom.Cartridge

def plainHeader : Header where
  prgBanks := 1
  chrBanks := 1
  mapper := 0
  mirroring := .horizontal
  hasTrainer := false
  fourScreen := false

def plainHeaderBytes : Array UInt8 := Header.magic ++ #[1, 1, 0, 0, 0, 0, 0, 0, 0, 0, 0, 0]

variable (prg : Vector UInt8 0x4000) (chr : Vector UInt8 0x2000)

def plainImage : Array UInt8 := plainHeaderBytes ++ (prg.toArray ++ chr.toArray)

def plain : Cartridge where
  header := plainHeader
  prg := prg.toArray
  chr := chr
  ram := .replicate 0x2000 0
  prg_size := Or.inl prg.size_toArray

theorem size_plainImage : (plainImage prg chr).size = 24592 := by
  unfold plainImage
  rw [Array.size_append, Array.size_append, prg.size_toArray, chr.size_toArray]
  rfl

theorem magic_plainImage : (plainImage prg chr).extract 0 4 = Header.magic := by
  unfold plainImage
  rw [Array.extract_append, show 4 - plainHeaderBytes.size = 0 from rfl, Nat.zero_sub,
    Array.extract_zero, Array.append_empty]
  rfl

theorem getD_plainImage {i : Nat} (hi : i < 16) :
    (plainImage prg chr).getD i 0 = plainHeaderBytes.getD i 0 := by
  unfold plainImage
  rw [Array.getD_eq_getD_getElem?, Array.getD_eq_getD_getElem?, Array.getElem?_append_left hi]

theorem parse_plainImage : Header.parse (plainImage prg chr) = .ok plainHeader := by
  unfold Header.parse
  rw [size_plainImage, if_neg (by decide), magic_plainImage, if_neg (fun h => h rfl)]
  dsimp only
  rw [getD_plainImage _ _ (by decide), getD_plainImage _ _ (by decide),
    getD_plainImage _ _ (by decide), getD_plainImage _ _ (by decide)]
  rfl

theorem slice_prg : slice (plainImage prg chr) 16 0x4000 = prg := by
  apply Vector.ext
  intro i hi
  unfold slice plainImage
  rw [Vector.getElem_ofFn, Array.getD_eq_getD_getElem?,
    Array.getElem?_append_right (Nat.le_add_right 16 i),
    show 16 + i - plainHeaderBytes.size = i from Nat.add_sub_cancel_left 16 i,
    Array.getElem?_append_left (by rw [prg.size_toArray]; exact hi), Vector.getElem?_toArray,
    Vector.getElem?_eq_getElem hi]
  rfl

theorem slice_chr : slice (plainImage prg chr) 0x4010 0x2000 = chr := by
  apply Vector.ext
  intro i hi
  unfold slice plainImage
  rw [Vector.getElem_ofFn, Array.getD_eq_getD_getElem?,
    Array.getElem?_append_right (le_trans (by decide : 16 ≤ 0x4010) (Nat.le_add_right 0x4010 i)),
    Array.getElem?_append_right (by
      rw [prg.size_toArray, show plainHeaderBytes.size = 16 from rfl]
      omega),
    prg.size_toArray, show 0x4010 + i - plainHeaderBytes.size - 0x4000 = i by
      rw [show plainHeaderBytes.size = 16 from rfl]
      omega,
    Vector.getElem?_toArray, Vector.getElem?_eq_getElem hi]
  rfl

theorem header_plainImage : header? (plainImage prg chr) = .ok plainHeader := by
  unfold header?
  rw [parse_plainImage]
  dsimp only [Bind.bind, Except.bind]
  rw [size_plainImage, if_neg (by decide)]

/-- A cartridge is accepted as it was put into its image. -/
theorem ofImage_plainImage : ofImage (plainImage prg chr) = .ok (plain prg chr) := by
  have hprg : slice (plainImage prg chr) plainHeader.prgStart plainHeader.prgSize = prg :=
    slice_prg prg chr
  have hchr : slice (plainImage prg chr) plainHeader.chrStart 0x2000 = chr := slice_chr prg chr
  unfold ofImage
  rw [header_plainImage]
  dsimp only [Bind.bind, Except.bind]
  split <;> rename_i hfault
  · cases hfault
  · unfold plain
    simp only [hprg, hchr]
    rfl

/-- The bank of a plain cartridge is seen twice. -/
theorem read_plain {addr : UInt16} (h : 0x8000 ≤ addr.toNat) :
    (plain prg chr).read addr = .ok prg[addr.toNat % 0x4000] := by
  have hge : ∀ bound : UInt16, bound.toNat ≤ 0x8000 → ¬addr < bound := fun bound hle hlt =>
    absurd (UInt16.lt_iff_toNat_lt.mp hlt) (by omega)
  have hsize : (plain prg chr).prg.size = 0x4000 := prg.size_toArray
  have hbyte : (plain prg chr).prgByte addr = prg[addr.toNat % 0x4000] := by
    unfold prgByte
    simp only [hsize]
    exact Vector.getElem_toArray _
  unfold read
  rw [if_neg (hge _ (by decide)), if_neg (hge _ (by decide)), hbyte]

end Famicom.Cartridge
