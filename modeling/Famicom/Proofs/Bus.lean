import Famicom.Bus
import Famicom.Proofs.Picture.Registers

/-! With a cartridge in the slot, an access of the processor fails only where no device
takes it, and it does not move the picture unit from its place. -/

namespace Famicom.Bus

open Famicom.Action

/-- Faults of accesses that no device takes; the cartridge plays no part in them. -/
def Fault.Refused : Fault → Prop
  | .writeOnlyRegister _ => True
  | .readOnlyRegister _ => True
  | .invalidAddress _ => True
  | .noCartridge => False
  | .cartridge _ => False

/-- The processor has `slot`, and `J` holds of the picture unit. -/
abbrev Has (slot : Option Nat) (J : Picture → Prop) (b : Bus) : Prop :=
  b.slot = slot ∧ J b.picture

variable {ε α : Type} {slot : Option Nat} {J : Picture → Prop} {E : ε → Prop}

theorem keeps_onPicture {y : Action ε Picture α} (h : Keeps J E y) :
    Keeps (Has slot J) E (onPicture y) := by
  rintro ⟨ram, picture, one, two, dmaPending, own⟩ ⟨hslot, hb⟩
  have hy := h picture hb
  dsimp only [onPicture]
  rcases hp : y picture with ⟨answer, picture', es⟩
  rw [hp] at hy
  exact ⟨⟨hslot, hy.1⟩, hy.2⟩

theorem keeps_onController (player : Player) {y : Action ε Controller α}
    (h : Keeps (fun _ => True) E y) : Keeps (Has slot J) E (onController player y) := by
  rintro ⟨ram, picture, one, two, dmaPending, own⟩ hb
  cases player with
  | one =>
    have hy := h one trivial
    dsimp only [onController]
    rcases hp : y one with ⟨answer, one', es⟩
    rw [hp] at hy
    exact ⟨hb, hy.2⟩
  | two =>
    have hy := h two trivial
    dsimp only [onController]
    rcases hp : y two with ⟨answer, two', es⟩
    rw [hp] at hy
    exact ⟨hb, hy.2⟩

theorem keeps_read_controller : Keeps (fun _ => True) E (Controller.read : Action ε _ _) := by
  intro c _
  refine ⟨trivial, ?_⟩
  unfold Controller.read
  split
  · exact fun e he => by cases he
  split
  · exact fun e he => by cases he
  · exact fun e he => by cases he

theorem keeps_write_controller (v : UInt8) :
    Keeps (fun _ => True) E (Controller.write v : Action ε _ _) := by
  unfold Controller.write
  exact keeps_bind (keeps_update fun _ _ => trivial) fun _ => keeps_report _

variable {x : Picture.Position}

/-- Both sides of the bus have the same cartridge in their slots, or none. -/
def Wired (b : Bus) : Prop := b.slot = b.picture.memory.slot

theorem Wired.cartridge_eq {b : Bus} (h : b.Wired) : b.cartridge = b.picture.memory.cartridge :=
  congrArg b.picture.memory.cartridgeIn h

/-- The picture unit stands at some place, and both sides of the bus have `slot`. -/
structure Steady (slot : Option Nat) (x : Picture.Position) (b : Bus) : Prop where
  picture : b.picture.Steady x
  slot_eq : b.slot = slot
  memory_slot : b.picture.memory.slot = slot

theorem Steady.wired {b : Bus} (h : b.Steady slot x) : b.Wired :=
  h.slot_eq.trans h.memory_slot.symm

theorem Steady.cartridge {b : Bus} (h : b.Steady slot x) : b.cartridge.isSome := by
  rw [h.wired.cartridge_eq]
  exact h.picture.cartridge

theorem readCartridge_of_steady {b : Bus} (h : b.Steady slot x) {addr : UInt16}
    (ha : ¬addr < 0x6000) : ∃ v, b.readCartridge addr = .ok v := by
  obtain ⟨c, hc⟩ := Option.isSome_iff_exists.mp h.cartridge
  unfold readCartridge
  rw [hc]
  dsimp only
  unfold Cartridge.read
  rw [if_neg ha]
  split
  · exact ⟨_, rfl⟩
  · exact ⟨_, rfl⟩

/-- Above the devices of the console the addresses are the cartridge's. -/
theorem read_eq_inspect {addr : UInt16} (h : ¬addr < 0x6000) :
    read addr = inspect fun b => b.readCartridge addr := by
  have hle : 0x6000 ≤ addr.toNat := Nat.not_lt.mp fun hlt => h (UInt16.lt_iff_toNat_lt.mpr hlt)
  have hlow : ∀ k : UInt16, k.toNat ≤ 0x6000 → ¬addr < k := fun k hk hlt =>
    absurd (UInt16.lt_iff_toNat_lt.mp hlt) (by omega)
  have hne : ∀ k : UInt16, k.toNat < 0x6000 → ¬addr = k := by
    rintro k hk rfl
    omega
  unfold read
  rw [if_neg (hlow _ (by decide)), if_neg (hlow _ (by decide)), if_neg (hne _ (by decide)),
    if_neg (hne _ (by decide)), if_neg (hne _ (by decide)), if_neg (hlow _ (by decide)), if_neg h]

/-- What the registers, the sprites and the cartridge in `slot` keep of the picture unit, where they
fail only within `F`. -/
structure PictureKeeps (slot : Option Nat) (J : Picture → Prop) (F : Fault → Prop) : Prop where
  refused : ∀ e : Fault, e.Refused → F e
  readRegister : ∀ addr, Keeps J F (Picture.readRegister addr)
  writeRegister : ∀ addr v, Keeps J F (Picture.writeRegister addr v)
  writeOamAll : ∀ p bytes, J p → J (p.writeOamAll bytes)
  readCartridge : ∀ (b : Bus) addr e, b.Has slot J → ¬addr < 0x6000 →
    b.readCartridge addr = .error e → F e
  writeCartridge : ∀ addr v, ¬addr < 0x6000 →
    Keeps J F (Picture.onMemory (Picture.VideoMemory.onSlot slot (Cartridge.write addr v)))

namespace PictureKeeps

variable {F : Fault → Prop} (h : PictureKeeps slot J F)
include h

theorem read (addr : UInt16) : Keeps (Has slot J) F (read addr) := by
  unfold Bus.read
  apply keeps_ite fun _ => keeps_view _
  intro _
  apply keeps_ite fun _ => keeps_onPicture (h.readRegister addr)
  intro _
  apply keeps_ite fun _ => keeps_fail (h.refused (.writeOnlyRegister addr) trivial)
  intro _
  apply keeps_ite fun _ => keeps_onController _ keeps_read_controller
  intro _
  apply keeps_ite fun _ => keeps_onController _ keeps_read_controller
  intro _
  apply keeps_ite fun _ => keeps_pure _
  intro _
  apply keeps_ite fun _ => keeps_fail (h.refused (.invalidAddress addr) trivial)
  intro hcartridge
  apply keeps_inspect
  exact fun b hb e he => h.readCartridge b addr e hb hcartridge he

theorem oamDma (page : UInt8) : Keeps (Has slot J) F (oamDma page) := by
  unfold Bus.oamDma
  -- the page is read byte by byte, and any of its addresses may be refused
  apply keeps_bind (keeps_mapM _ fun i => h.read _)
  intro bytes
  apply keeps_bind
  · apply keeps_onPicture
    exact keeps_update fun p hp => h.writeOamAll p bytes hp
  intro _
  exact keeps_bind (keeps_update fun b hb => hb) fun _ => keeps_report _

theorem write (addr : UInt16) (v : UInt8) : Keeps (Has slot J) F (write addr v) := by
  unfold Bus.write
  apply keeps_ite
  · exact fun _ => keeps_update fun b hb => hb
  intro _
  apply keeps_ite fun _ => keeps_onPicture (h.writeRegister addr v)
  intro _
  apply keeps_ite fun _ => h.oamDma v
  intro _
  apply keeps_ite
  · intro _
    apply keeps_bind (keeps_onController _ (keeps_write_controller v))
    exact fun _ => keeps_onController _ (keeps_write_controller v)
  intro _
  apply keeps_ite fun _ => keeps_pure _
  intro _
  apply keeps_ite fun _ => keeps_fail (h.refused (.invalidAddress addr) trivial)
  rintro hcartridge b ⟨rfl, hb⟩
  rw [view_bind]
  exact keeps_onPicture (h.writeCartridge addr v hcartridge) b ⟨rfl, hb⟩

end PictureKeeps

theorem keeps_cartridge_write {addr : UInt16} (v : UInt8) (h : ¬addr < 0x6000) :
    Keeps (fun _ => True) (fun _ => False) (Cartridge.write addr v) := by
  unfold Cartridge.write
  rw [if_neg h]
  apply keeps_ite
  · exact fun _ => keeps_update fun _ _ => trivial
  · exact fun _ => keeps_report _

theorem pictureKeeps_steady (slot : Option Nat) :
    PictureKeeps slot (fun p => p.Steady x ∧ p.memory.slot = slot) Fault.Refused where
  refused _ h := h
  readRegister addr := by
    apply ((Picture.keeps_readRegister addr).and
      ((Picture.registerKeeps_slot slot).readRegister addr)).mono
    rintro _ ⟨rfl, -⟩
    trivial
  writeRegister addr v := by
    apply ((Picture.keeps_writeRegister addr v).and
      ((Picture.registerKeeps_slot slot).write addr v)).mono
    rintro _ ⟨rfl, -⟩
    trivial
  writeOamAll _ bytes h := ⟨Picture.steady_writeOamAll h.1 bytes,
    (Picture.registerKeeps_slot slot).writeOamAll h.2 bytes⟩
  readCartridge b addr e h hcartridge he := by
    obtain ⟨hslot, hb, hslot'⟩ := h
    obtain ⟨v, hv⟩ := readCartridge_of_steady ⟨hb, hslot, hslot'⟩ hcartridge
    rw [hv] at he
    cases he
  writeCartridge addr v hcartridge := by
    apply (Picture.keeps_steady_onMemory (Picture.VideoMemory.keeps_onSlot
      (keeps_cartridge_write v hcartridge) slot)).mono
    exact fun _ => False.elim

theorem keeps_of_has {y : Action Fault Bus α} {F : Fault → Prop}
    (h : Keeps (Has slot fun p => p.Steady x ∧ p.memory.slot = slot) F y) :
    Keeps (Steady slot x) F y := by
  intro b hb
  obtain ⟨⟨hslot, hpicture, hmemory⟩, hfault⟩ := h b ⟨hb.slot_eq, hb.picture, hb.memory_slot⟩
  exact ⟨⟨hpicture, hslot, hmemory⟩, hfault⟩

theorem keeps_read (addr : UInt16) : Keeps (Steady slot x) Fault.Refused (read addr) :=
  keeps_of_has ((pictureKeeps_steady slot).read addr)

theorem keeps_write (addr : UInt16) (v : UInt8) :
    Keeps (Steady slot x) Fault.Refused (write addr v) :=
  keeps_of_has ((pictureKeeps_steady slot).write addr v)

end Famicom.Bus
