import Famicom.Proofs.Cartridge
import Famicom.Proofs.Picture.Registers

/-! The ranges that the fields of a picture unit keep under any traffic on its registers, and the
sums and differences of its dots, none of which leaves its own range. -/

namespace Famicom.Picture

open Famicom.Action

/-- What a picture unit can come to from power on with an accepted cartridge in the slot. -/
inductive Plugged : Picture → Prop
  | insert {image : Array UInt8} {c : Cartridge} :
      Cartridge.ofImage image = .ok c → Plugged (powerOn.insert c)
  | tick {p : Picture} : Plugged p → Plugged (tick p).state
  | read {p : Picture} (addr : UInt16) : Plugged p → Plugged (readRegister addr p).state
  | write {p : Picture} (addr : UInt16) (data : UInt8) :
      Plugged p → Plugged (writeRegister addr data p).state
  | transfer {p : Picture} (bytes : List UInt8) : Plugged p → Plugged (p.writeOamAll bytes)
  | takeNmi {p : Picture} : Plugged p → Plugged (takeNmi (ε := Bus.Fault) p).state
  | takeFrame {p : Picture} : Plugged p → Plugged (takeFrame (ε := Bus.Fault) p).state

structure InRange (p : Picture) : Prop where
  scanline_le : p.scanline ≤ 261
  dot_le : p.dot ≤ 340
  v_le : p.v ≤ 0x7FFF
  t_le : p.t ≤ 0x7FFF
  fineX_le : p.fineX ≤ 7
  sprites_le : p.sprites.length ≤ 8
  row_lt : ∀ s ∈ p.sprites, s.row < if s.tall then 16 else 8
  line_colour : ∀ q, some q ∈ p.line → q.colour.toNat < 16 ∧ q.colour.toNat % 4 ≠ 0
  palette_le : ∀ c ∈ p.memory.palette, c ≤ 0x3F
  pixels_le : ∀ c ∈ p.pixels, c ≤ 0x3F

/-- An address of the pattern tables, the plain sum `n`, with the upper half of its row. -/
structure PatternPlace (addr : UInt16) (n : Nat) : Prop where
  low_eq : addr.toNat = n
  high_eq : (addr + 8).toNat = n + 8
  high_lt : n + 8 < 0x2000

/-- What a dot computes from its fields is the sum or the difference of their numbers. -/
structure Exact (p : Picture) : Prop where
  shift_eq : (15 - p.fineX.toUInt16).toNat + p.fineX.toNat = 15
  flipped_eq : ∀ s ∈ p.sprites, s.flippedVertically = true →
    s.patternRow + s.row = if s.tall then 15 else 7
  pixel_lt : p.scanline < 240 → 1 ≤ p.dot → p.dot ≤ 256 →
    p.scanline * 256 + (p.dot - 1) < 256 * 240
  scroll_eq : ∀ v ∈ [p.v, Scroll.nextTile p.v],
    (v + 1).toNat = v.toNat + 1 ∧ (v + 0x1000).toNat = v.toNat + 0x1000
  address_eq : (p.v + Control.addressStep p.ctrl).toNat =
    p.v.toNat + (Control.addressStep p.ctrl).toNat
  background : PatternPlace p.backgroundPatternAddress
    ((Control.backgroundTable p.ctrl).toNat + p.latch.tile.toNat * 16 + (Scroll.fineY p.v).toNat)
  sprite : ∀ s ∈ p.sprites, PatternPlace (s.patternAddress p.ctrl)
    (if s.tall then
      s.tile.toNat % 2 * 4096 + (s.tile.toNat / 2 * 2 + s.patternRow / 8) * 16 + s.patternRow % 8
    else (Control.spriteTable p.ctrl).toNat + s.tile.toNat * 16 + s.patternRow)

variable {x : Position} {p : Picture} {addr : UInt16}

theorem Steady.here (h : Steady x p) : Steady p.position p := { h with position_eq := rfl }

theorem steady_of_plugged (h : Plugged p) : Steady p.position p := by
  induction h with
  | insert himage => exact { sound_powerOn with cartridge := rfl, position_eq := rfl }
  | tick _ ih =>
    obtain ⟨q, es, htick, hq⟩ := tick_of_steady ih
    rw [htick]
    exact hq.here
  | read addr _ ih => exact (keeps_readRegister addr _ ih).1.here
  | write addr data _ ih => exact (keeps_writeRegister addr data _ ih).1.here
  | transfer bytes _ ih => exact (steady_writeOamAll ih bytes).here
  | takeNmi _ ih => exact { ih with position_eq := rfl }
  | takeFrame _ ih => exact { ih with position_eq := rfl }

theorem position_tick_of_plugged (h : Plugged p) :
    (tick p).state.position = p.position.next := by
  obtain ⟨q, es, htick, hq⟩ := tick_of_steady (steady_of_plugged h)
  rw [htick]
  exact hq.position_eq

/-! Which accesses are refused. -/

/-- The registers repeat every eight bytes. -/
theorem toNat_registerAt (hlow : 0x2000 ≤ addr) (hhigh : addr < 0x4000) :
    (registerAt addr).toNat = 0x2000 + addr.toNat % 8 := by
  have hlow : 0x2000 ≤ addr.toNat := UInt16.le_iff_toNat_le.mp hlow
  have hhigh : addr.toNat < 0x4000 := UInt16.lt_iff_toNat_lt.mp hhigh
  have hbase : addr.toNat &&& 0x2000 = addr.toNat / 8192 % 2 * 8192 :=
    Bits.and_digit addr.toNat 13 1
  have hnumber : addr.toNat &&& 7 = addr.toNat % 8 := Nat.and_two_pow_sub_one_eq_mod _ 3
  unfold registerAt
  rw [UInt16.toNat_and]
  calc addr.toNat &&& 0x2007
    _ = (addr.toNat &&& 0x2000) + (addr.toNat &&& 7) :=
      Scroll.and_or_of_disjoint addr.toNat 0x2000 7 rfl
    _ = 0x2000 + addr.toNat % 8 := by omega

/-- The number of a register, from the place that it stands for. -/
theorem registerAt_eq_iff (hlow : 0x2000 ≤ addr) (hhigh : addr < 0x4000) (r : UInt16) :
    registerAt addr = r ↔ 0x2000 + addr.toNat % 8 = r.toNat := by
  rw [← toNat_registerAt hlow hhigh, UInt16.toNat_inj]

/-- What is read answers, except at a register that is write-only. -/
theorem readRegister_refused (h : Steady x p) (hlow : 0x2000 ≤ addr) (hhigh : addr < 0x4000)
    {e : Bus.Fault} (he : (readRegister addr p).answer = .error e) :
    e = .writeOnlyRegister addr ∧ addr.toNat % 8 ∈ [0, 1, 3, 5, 6] := by
  have hrefused := (registerKeeps_steady.readRegister addr p h).2 e he
  obtain ⟨rfl, hstatus, hoam, hdata⟩ := hrefused.resolve_left id
  refine ⟨rfl, ?_⟩
  -- of the eight numbers those of the three registers that answer are ruled out
  rw [ne_eq, registerAt_eq_iff hlow hhigh, show UInt16.toNat 0x2002 = 0x2002 from rfl] at hstatus
  rw [ne_eq, registerAt_eq_iff hlow hhigh, show UInt16.toNat 0x2004 = 0x2004 from rfl] at hoam
  rw [ne_eq, registerAt_eq_iff hlow hhigh, show UInt16.toNat 0x2007 = 0x2007 from rfl] at hdata
  simp only [List.mem_cons, List.not_mem_nil, or_false]
  omega

/-- What is written is taken, except at the status. -/
theorem writeRegister_refused (h : Steady x p) (hlow : 0x2000 ≤ addr) (hhigh : addr < 0x4000)
    {data : UInt8} {e : Bus.Fault} (he : (writeRegister addr data p).answer = .error e) :
    e = .readOnlyRegister addr ∧ addr.toNat % 8 = 2 := by
  have hrefused := (registerKeeps_steady.write addr data p h).2 e he
  obtain ⟨rfl, hstatus⟩ := hrefused.resolve_left id
  rw [registerAt_eq_iff hlow hhigh, show UInt16.toNat 0x2002 = 0x2002 from rfl] at hstatus
  exact ⟨rfl, by omega⟩

/-! What follows from the ranges. -/

theorem inRange_of_sound (h : Sound p) : InRange p where
  scanline_le := Nat.le_of_lt_succ h.scanline_lt
  dot_le := Nat.le_of_lt_succ h.dot_lt
  v_le := UInt16.le_iff_toNat_le.mpr (Nat.le_of_lt_succ h.v_lt)
  t_le := UInt16.le_iff_toNat_le.mpr (Nat.le_of_lt_succ h.t_lt)
  fineX_le := UInt8.le_iff_toNat_le.mpr h.fineX_le
  sprites_le := h.sprites_le
  row_lt := h.row_lt
  line_colour := h.line_sound
  palette_le := h.palette_le
  pixels_le := h.pixels_le

theorem toNat_add_of_lt {v w : UInt16} (h : v.toNat + w.toNat < 0x10000) :
    (v + w).toNat = v.toNat + w.toNat := by
  rw [UInt16.toNat_add]
  exact Nat.mod_eq_of_lt h

theorem patternPlace_of_lt {n : Nat} (heq : addr.toNat = n) (hlt : addr.toNat + 8 < 0x2000) :
    PatternPlace addr n := by
  have hhigh : (addr + 8).toNat = addr.toNat + 8 := toNat_add_of_lt (lt_trans hlt (by decide))
  exact ⟨heq, heq ▸ hhigh, heq ▸ hlt⟩

theorem patternRow_add_row {s : Sprite} (hrow : s.row < s.height)
    (hflipped : s.flippedVertically = true) :
    s.patternRow + s.row = if s.tall then 15 else 7 := by
  unfold Sprite.height at hrow
  unfold Sprite.patternRow
  rw [if_pos hflipped]
  split at hrow
  · rw [if_pos ‹_›]
    omega
  · rw [if_neg ‹_›]
    omega

theorem exact_of_sound (h : Sound p) : Exact p where
  shift_eq := by
    have hfine := h.fineX_le
    rw [UInt16.toNat_sub_of_le _ _ (UInt16.le_iff_toNat_le.mpr (by
      rw [UInt8.toNat_toUInt16]
      exact le_trans hfine (by decide))), UInt8.toNat_toUInt16, show UInt16.toNat 15 = 15 from rfl]
    omega
  flipped_eq s hs hflipped := patternRow_add_row (h.row_lt s hs) hflipped
  pixel_lt hscanline _ hdot := by omega
  scroll_eq v hv := by
    have hlt : v.toNat < 0x8000 := by
      rcases List.mem_pair.mp hv with rfl | rfl
      · exact h.v_lt
      · exact nextTile_lt h.v_lt
    constructor
    · exact toNat_add_of_lt (by rw [show UInt16.toNat 1 = 1 from rfl]; omega)
    · exact toNat_add_of_lt (by rw [show UInt16.toNat 0x1000 = 0x1000 from rfl]; omega)
  address_eq := by
    have hlt := h.v_lt
    have hstep : (Control.addressStep p.ctrl).toNat ≤ 32 := by
      unfold Control.addressStep
      split <;> decide
    exact toNat_add_of_lt (by omega)
  background := by
    apply patternPlace_of_lt _ (backgroundPatternAddress_lt p)
    rw [toNat_backgroundPatternAddress, Control.toNat_backgroundTable, Scroll.toNat_fineY]
    rfl
  sprite s hs := by
    have hrow := h.row_lt s hs
    apply patternPlace_of_lt _ (Sprite.patternAddress_lt p.ctrl hrow)
    rw [Sprite.toNat_patternAddress p.ctrl hrow, Control.toNat_spriteTable]

/-- With an accepted cartridge in the slot no dot fails, and an access to a register fails only by
reading one that is write-only or by writing the status; every field stays in its range, and so
does what is computed from them. -/
theorem safe_of_plugged (h : Plugged p) :
    (tick p).answer = .ok () ∧
    (∀ addr : UInt16, 0x2000 ≤ addr → addr < 0x4000 →
      (∀ e, (readRegister addr p).answer = .error e →
        e = .writeOnlyRegister addr ∧ addr.toNat % 8 ∈ [0, 1, 3, 5, 6]) ∧
      ∀ data e, (writeRegister addr data p).answer = .error e →
        e = .readOnlyRegister addr ∧ addr.toNat % 8 = 2) ∧
    InRange p ∧ Exact p := by
  have hsteady := steady_of_plugged h
  obtain ⟨q, es, htick, -⟩ := tick_of_steady hsteady
  refine ⟨by rw [htick], ?_, inRange_of_sound hsteady.toSound, exact_of_sound hsteady.toSound⟩
  intro addr hlow hhigh
  constructor
  · intro e he
    exact readRegister_refused hsteady hlow hhigh he
  · intro data e he
    exact writeRegister_refused hsteady hlow hhigh he

/-- Tall sprites, both layers and a video address at the end of the colours. -/
def busy : Picture :=
  (writeRegister 0x2006 0xFF (writeRegister 0x3FFE 0x3F (writeRegister 0x2001 0x1E
    (writeRegister 0x2000 0x24 ((powerOn.insert (Cartridge.plain (.replicate 0x4000 0)
      (.replicate 0x2000 0xFF))).writeOamAll [0x10, 0xFF, 0x80, 0xF8])).state).state).state).state

theorem safe_of_busy : busy.v = 0x3FFF ∧ (tick busy).answer = .ok () ∧ InRange (tick busy).state ∧
    Exact (tick busy).state := by
  have himage := Cartridge.ofImage_plainImage (.replicate 0x4000 0) (.replicate 0x2000 0xFF)
  have hbusy : Plugged busy :=
    .write _ _ (.write _ _ (.write _ _ (.write _ _ (.transfer _ (.insert himage)))))
  refine ⟨by decide, (safe_of_plugged hbusy).1, ?_⟩
  exact (safe_of_plugged (.tick hbusy)).2.2

end Famicom.Picture
