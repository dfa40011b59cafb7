import Famicom.Picture.Register
import Famicom.Proofs.Picture.Slots
import Famicom.Proofs.Picture.Sound

/-! Accesses to the registers keep what holds of the picture unit. They fail only at a
register that cannot be read, or at one that cannot be written. -/

namespace Famicom.Picture

open Famicom.Action

variable {x : Position} {p : Picture}

namespace Scroll

theorem or_lt {a b : UInt16} (ha : a.toNat < 0x8000) (hb : b.toNat < 0x8000) :
    (a ||| b).toNat < 0x8000 := by
  rw [UInt16.toNat_or]
  exact Nat.or_lt_two_pow (n := 15) ha hb

theorem and_lt {a : UInt16} (b : UInt16) (ha : a.toNat < 0x8000) :
    (a &&& b).toNat < 0x8000 := by
  rw [UInt16.toNat_and]
  exact lt_of_le_of_lt Nat.and_le_left ha

theorem masked_lt (a : UInt16) {b : UInt16} (hb : b.toNat < 0x8000) :
    (a &&& b).toNat < 0x8000 := by
  rw [UInt16.and_comm]
  exact and_lt a hb

/-- A byte within a mask stays low when it is shifted. -/
theorem shifted_lt (b m : UInt8) (k : UInt16) (hk : k.toNat < 16)
    (hm : m.toNat * 2 ^ k.toNat < 0x8000) : ((b &&& m).toUInt16 <<< k).toNat < 0x8000 := by
  have hle : (b &&& m).toNat ≤ m.toNat := by
    rw [UInt8.toNat_and]
    exact Nat.and_le_right
  have hmul := Nat.mul_le_mul_right (2 ^ k.toNat) hle
  rw [UInt16.toNat_shiftLeft, UInt8.toNat_toUInt16, Nat.mod_eq_of_lt hk, Nat.shiftLeft_eq]
  exact lt_of_le_of_lt (Nat.mod_le _ _) (lt_of_le_of_lt hmul hm)

theorem selectNametable_lt {t : UInt16} (ctrl : UInt8) (h : t.toNat < 0x8000) :
    (selectNametable t ctrl).toNat < 0x8000 :=
  or_lt (and_lt _ h) (shifted_lt _ _ _ (by decide) (by decide))

theorem scrollX_lt {t : UInt16} (data : UInt8) (h : t.toNat < 0x8000) :
    (scrollX t data).1.toNat < 0x8000 := by
  apply or_lt (and_lt _ h)
  rw [UInt8.toNat_toUInt16]
  exact lt_trans (UInt8.toNat_lt _) (by decide)

theorem fineX_scrollX_le (t : UInt16) (data : UInt8) : (scrollX t data).2.toNat ≤ 7 := by
  change (data &&& 7).toNat ≤ 7
  rw [UInt8.toNat_and]
  exact Nat.and_le_right

theorem scrollY_lt {t : UInt16} (data : UInt8) (h : t.toNat < 0x8000) :
    (scrollY t data).toNat < 0x8000 :=
  or_lt (or_lt (and_lt _ h) (shifted_lt _ _ _ (by decide) (by decide)))
    (shifted_lt _ _ _ (by decide) (by decide))

theorem addressHigh_lt {t : UInt16} (data : UInt8) (h : t.toNat < 0x8000) :
    (addressHigh t data).toNat < 0x8000 :=
  or_lt (and_lt _ h) (shifted_lt _ _ _ (by decide) (by decide))

theorem addressLow_lt (t : UInt16) (data : UInt8) : (addressLow t data).toNat < 0x8000 := by
  apply or_lt (masked_lt t (by decide))
  rw [UInt8.toNat_toUInt16]
  exact lt_trans data.toNat_lt (by decide)

end Scroll

namespace VideoMemory

/-- A cartridge is in the slot, and colours have six bits. -/
structure Ready (m : VideoMemory) : Prop where
  cartridge : m.cartridge.isSome
  palette_le : ∀ c ∈ m.palette, c ≤ 0x3F

/-- With a cartridge in the slot every read of the address space answers. -/
theorem read_of_ready {m : VideoMemory} (h : m.cartridge.isSome) (addr : UInt16) :
    ∃ b, m.read addr = .ok b := by
  unfold VideoMemory.read
  dsimp only
  split
  · rename_i hlow
    exact ⟨_, pattern_eq_patternByte h (UInt16.lt_iff_toNat_lt.mp hlow)⟩
  split
  · exact ⟨_, rfl⟩
  · exact ⟨_, rfl⟩

/-- An operation on the cartridge of the picture unit, through its own slot or another one. -/
theorem keeps_onSlot {α : Type} {y : Action Cartridge.Fault Cartridge α}
    (h : Keeps (fun _ => True) (fun _ => False) y) (slot : Option Nat) :
    Keeps (fun m => Ready m ∧ m.slot = slot) (fun _ => False) (onSlot slot y) := by
  rintro m ⟨hm, hslot⟩
  refine onSlot_keeps (J := fun m => Ready m ∧ m.slot = slot) (E := fun _ => False) ?_ ?_
  · intro hempty
    have hfull := hm.cartridge
    rw [cartridge, hslot, hempty] at hfull
    cases hfull
  -- the access answers with a cartridge again, so the slot does not become empty
  · intro c hc
    exact ⟨⟨⟨isSome_cartridgeIn_replace hc hm.cartridge, hm.palette_le⟩, hslot⟩,
      fun e he => ((h c trivial).2 e he).elim⟩

theorem keeps_onCartridge {α : Type} {y : Action Cartridge.Fault Cartridge α}
    (h : Keeps (fun _ => True) (fun _ => False) y) :
    Keeps Ready (fun _ => False) (onCartridge y) := by
  intro m hm
  rw [onCartridge_eq]
  obtain ⟨⟨hready, -⟩, hfault⟩ := keeps_onSlot h m.slot m ⟨hm, rfl⟩
  exact ⟨hready, hfault⟩

theorem keeps_writePattern {addr : UInt16} (v : UInt8) (h : addr.toNat < 0x2000) :
    Keeps (fun _ => True) (fun _ => False) (Cartridge.writePattern addr v) := by
  unfold Cartridge.writePattern
  rw [dif_pos h]
  apply keeps_bind (keeps_view _)
  intro hasRam
  apply keeps_ite
  · exact fun _ => keeps_update fun _ _ => trivial
  · exact fun _ => keeps_report _

theorem keeps_write (addr : UInt16) (v : UInt8) :
    Keeps Ready (fun _ => False) (VideoMemory.write addr v) := by
  unfold VideoMemory.write
  dsimp only
  apply keeps_ite
  · intro hlow
    exact keeps_onCartridge (keeps_writePattern v (UInt16.lt_iff_toNat_lt.mp hlow))
  intro _
  apply keeps_ite
  · exact fun _ => keeps_update fun m hm => { hm with }
  intro _
  apply keeps_update
  intro m hm
  refine { hm with palette_le := ?_ }
  intro c hc
  -- a colour is cut to six bits before it is stored
  rcases @Vector.mem_or_eq_of_mem_set _ _ _ _ _ _ (paletteIndex _).isLt hc with hmem | rfl
  · exact hm.palette_le c hmem
  · rw [UInt8.le_iff_toNat_le, UInt8.toNat_and]
    exact Nat.and_le_right

/-- Only what connects a cartridge changes the slot. -/
theorem keeps_slot_onSlot {α : Type} (y : Action Cartridge.Fault Cartridge α)
    (slot : Option Nat) (own : Option Nat) :
    Keeps (fun m => m.slot = own) (fun _ => True) (onSlot slot y) :=
  fun _ hm => onSlot_keeps (J := fun m => m.slot = own) (E := fun _ => True)
    (fun _ => ⟨hm, trivial⟩) fun _ _ => ⟨hm, fun _ _ => trivial⟩

theorem keeps_slot_write (addr : UInt16) (v : UInt8) (own : Option Nat) :
    Keeps (fun m => m.slot = own) (fun _ => True) (VideoMemory.write addr v) := by
  unfold VideoMemory.write
  dsimp only
  apply keeps_ite
  · intro _ m hm
    rw [onCartridge_eq]
    exact keeps_slot_onSlot _ _ own m hm
  intro _
  apply keeps_ite
  · exact fun _ => keeps_update fun m hm => hm
  · exact fun _ => keeps_update fun m hm => hm

end VideoMemory

theorem keeps_onMemory_of {ε α : Type} {J : VideoMemory → Prop} {E : ε → Prop}
    {y : Action ε VideoMemory α} (h : Keeps J E y) :
    Keeps (fun p => J p.memory) E (onMemory y) := by
  intro p hp
  have hy := h p.memory hp
  unfold onMemory
  dsimp only
  rcases hm : y p.memory with ⟨answer, m, es⟩
  rw [hm] at hy
  exact hy

/-- What the memory needs to answer is all that the unit needs of it. -/
theorem keeps_steady_onMemory {ε α : Type} {J : VideoMemory → Prop} {E : ε → Prop}
    {y : Action ε VideoMemory α} (h : Keeps (fun m => m.Ready ∧ J m) E y) :
    Keeps (fun p => Steady x p ∧ J p.memory) E (onMemory y) := by
  rintro p ⟨hp, hJ⟩
  have hy := h p.memory ⟨⟨hp.cartridge, hp.palette_le⟩, hJ⟩
  unfold onMemory
  dsimp only
  rcases hm : y p.memory with ⟨answer, m, es⟩
  rw [hm] at hy
  obtain ⟨⟨hready, hJ'⟩, hfault⟩ := hy
  exact ⟨⟨{ hp with cartridge := hready.cartridge, palette_le := hready.palette_le }, hJ'⟩, hfault⟩

theorem keeps_onMemory {ε α : Type} {E : ε → Prop} {y : Action ε VideoMemory α}
    (h : Keeps VideoMemory.Ready E y) : Keeps (Steady x) E (onMemory y) := by
  intro p hp
  have hboth := keeps_steady_onMemory (x := x) (J := fun _ => True) (E := E) (y := y)
    (fun m hm => ⟨⟨(h m hm.1).1, trivial⟩, (h m hm.1).2⟩) p ⟨hp, trivial⟩
  exact ⟨hboth.1.1, hboth.2⟩

/-- Each change that an access to a register other than the control and the status can make keeps
`J`, and from `J` the memory refuses an access only within `E`. -/
structure QuietKeeps (J : Picture → Prop) (E : Bus.Fault → Prop) : Prop where
  buffer : ∀ p data, J p → J { p with readBuffer := data }
  stepAddress : ∀ p, J p → J p.stepAddress
  mask : ∀ p data, J p → J { p with mask := data }
  oamAddress : ∀ p data, J p → J { p with oamAddress := data }
  oam : ∀ p data, J p → J (p.writeOam data)
  scroll : ∀ p data, J p → J (p.writeScroll data)
  address : ∀ p data, J p → J (p.writeAddress data)
  readFault : ∀ p addr e, J p → p.memory.read addr = .error e → E e
  memory : ∀ addr data, Keeps J E (onMemory (VideoMemory.write addr data))

/-- So does each change that an access to a register other than the control can make. -/
structure AccessKeeps (J : Picture → Prop) (E : Bus.Fault → Prop) : Prop
    extends QuietKeeps J E where
  status : ∀ p, J p → J { p with status := p.status &&& ~~~Status.vblank, secondWrite := false }

/-- So does each change that any access can make. -/
structure RegisterKeeps (J : Picture → Prop) (E : Bus.Fault → Prop) : Prop
    extends AccessKeeps J E where
  control : ∀ p data, J p → J (p.writeControl data)

section

variable {J : Picture → Prop} {E : Bus.Fault → Prop}

/-- A read of the data changes the buffer and the address alone. -/
theorem keeps_readData (hbuffer : ∀ p data, J p → J { p with readBuffer := data })
    (hstep : ∀ p, J p → J p.stepAddress)
    (hfault : ∀ p addr e, J p → p.memory.read addr = .error e → E e) : Keeps J E readData := by
  have hread : ∀ addr, Keeps J E (inspect fun p : Picture => p.memory.read addr) :=
    fun addr => keeps_inspect fun p hp e he => hfault p addr e hp he
  unfold readData
  apply keeps_bind (keeps_view _)
  intro addr
  apply keeps_bind (hread addr)
  intro data
  apply keeps_bind (keeps_view _)
  intro buffered
  -- both kinds of reads end alike
  have hrest : Keeps J E (do
      update stepAddress
      return if paletteBase ≤ addr then data else buffered) :=
    keeps_bind (keeps_update hstep) fun _ => keeps_pure _
  apply keeps_ite
  · intro _
    apply keeps_bind (hread (addr - 0x1000))
    intro below
    exact keeps_bind (keeps_update fun p hp => hbuffer p below hp) fun _ => hrest
  · intro _
    exact keeps_bind (keeps_update fun p hp => hbuffer p data hp) fun _ => hrest

/-- A write of the data changes the memory and the address alone. -/
theorem keeps_writeData (hmemory : ∀ addr data, Keeps J E (onMemory (VideoMemory.write addr data)))
    (hstep : ∀ p, J p → J p.stepAddress) (data : UInt8) : Keeps J E (writeData data) := by
  unfold writeData
  apply keeps_bind (keeps_view _)
  intro addr
  exact keeps_bind (hmemory addr data) fun _ => keeps_update hstep

end

namespace QuietKeeps

variable {J : Picture → Prop} {E : Bus.Fault → Prop} (h : QuietKeeps J E)
include h

theorem readRegister (addr : UInt16) (hstatus : registerAt addr = 0x2002 → ∀ p, J p →
      J { p with status := p.status &&& ~~~Status.vblank, secondWrite := false }) :
    Keeps J (fun e => E e ∨ e = .writeOnlyRegister addr ∧ registerAt addr ≠ 0x2002 ∧
      registerAt addr ≠ 0x2004 ∧ registerAt addr ≠ 0x2007) (readRegister addr) := by
  unfold Picture.readRegister
  split
  · exact fun p hp => ⟨hstatus ‹_› p hp, fun e he => by cases he⟩
  · exact keeps_view _
  · exact (keeps_readData h.buffer h.stepAddress h.readFault).mono fun _ => Or.inl
  · exact keeps_fail (Or.inr ⟨rfl, ‹_›, ‹_›, ‹_›⟩)

theorem writeRegister (addr : UInt16) (data : UInt8)
    (hcontrol : registerAt addr = 0x2000 → ∀ p, J p → J (p.writeControl data)) :
    Keeps J (fun e => E e ∨ e = .readOnlyRegister addr ∧ registerAt addr = 0x2002)
      (writeRegister addr data) := by
  unfold Picture.writeRegister
  apply keeps_bind (keeps_report _)
  intro _
  split
  · exact keeps_update (hcontrol ‹_›)
  · exact keeps_update fun p hp => h.mask p data hp
  · exact keeps_fail (Or.inr ⟨rfl, ‹_›⟩)
  · exact keeps_update fun p hp => h.oamAddress p data hp
  · exact keeps_update fun p hp => h.oam p data hp
  · exact keeps_update fun p hp => h.scroll p data hp
  · exact keeps_update fun p hp => h.address p data hp
  · exact (keeps_writeData h.memory h.stepAddress data).mono fun _ => Or.inl

theorem writeOamAll {p : Picture} (hp : J p) (bytes : List UInt8) : J (p.writeOamAll bytes) := by
  unfold Picture.writeOamAll
  induction bytes generalizing p with
  | nil => exact hp
  | cons data bytes ih => exact ih (h.oam p data hp)

end QuietKeeps

theorem AccessKeeps.readRegister {J : Picture → Prop} {E : Bus.Fault → Prop}
    (h : AccessKeeps J E) (addr : UInt16) :
    Keeps J (fun e => E e ∨ e = .writeOnlyRegister addr ∧ registerAt addr ≠ 0x2002 ∧
      registerAt addr ≠ 0x2004 ∧ registerAt addr ≠ 0x2007) (Picture.readRegister addr) :=
  h.toQuietKeeps.readRegister addr fun _ => h.status

theorem RegisterKeeps.write {J : Picture → Prop} {E : Bus.Fault → Prop}
    (h : RegisterKeeps J E) (addr : UInt16) (data : UInt8) :
    Keeps J (fun e => E e ∨ e = .readOnlyRegister addr ∧ registerAt addr = 0x2002)
      (writeRegister addr data) :=
  h.writeRegister addr data fun _ p hp => h.control p data hp

theorem steady_writeScroll (h : Steady x p) (data : UInt8) : Steady x (p.writeScroll data) := by
  unfold writeScroll
  split
  · exact { h with t_lt := Scroll.scrollY_lt data h.t_lt }
  · exact { h with
      t_lt := Scroll.scrollX_lt data h.t_lt
      fineX_le := Scroll.fineX_scrollX_le p.t data }

theorem steady_writeAddress (h : Steady x p) (data : UInt8) : Steady x (p.writeAddress data) := by
  unfold writeAddress
  split
  · exact { h with
      t_lt := Scroll.addressLow_lt p.t data
      v_lt := Scroll.addressLow_lt p.t data }
  · exact { h with t_lt := Scroll.addressHigh_lt data h.t_lt }

theorem registerKeeps_steady : RegisterKeeps (Steady x) (fun _ => False) where
  status _ h := { h with }
  buffer _ _ h := { h with }
  stepAddress _ h := { h with v_lt := Scroll.masked_lt _ (by decide) }
  control _ data h := { h with t_lt := Scroll.selectNametable_lt data h.t_lt }
  mask _ _ h := { h with }
  oamAddress _ _ h := { h with }
  oam _ _ h := { h with }
  scroll _ data h := steady_writeScroll h data
  address _ data h := steady_writeAddress h data
  readFault p addr e h he := by
    obtain ⟨b, hb⟩ := VideoMemory.read_of_ready h.cartridge addr
    rw [hb] at he
    cases he
  memory addr data := keeps_onMemory (VideoMemory.keeps_write addr data)

/-- No access to a register connects a cartridge. -/
theorem registerKeeps_slot (slot : Option Nat) :
    RegisterKeeps (fun p => p.memory.slot = slot) (fun _ => True) where
  status _ h := h
  buffer _ _ h := h
  stepAddress _ h := h
  control _ _ h := h
  mask _ _ h := h
  oamAddress _ _ h := h
  oam _ _ h := h
  scroll p _ h := by
    unfold writeScroll
    split <;> exact h
  address p _ h := by
    unfold writeAddress
    split <;> exact h
  readFault _ _ _ _ _ := trivial
  memory addr data := keeps_onMemory_of (VideoMemory.keeps_slot_write addr data slot)

theorem keeps_readRegister (addr : UInt16) :
    Keeps (Steady x) (fun e => e = .writeOnlyRegister addr) (readRegister addr) :=
  (registerKeeps_steady.readRegister addr).mono fun _ he => (he.resolve_left id).1

theorem keeps_writeRegister (addr : UInt16) (data : UInt8) :
    Keeps (Steady x) (fun e => e = .readOnlyRegister addr) (writeRegister addr data) :=
  (registerKeeps_steady.write addr data).mono fun _ he => (he.resolve_left id).1

theorem steady_writeOamAll (h : Steady x p) (bytes : List UInt8) :
    Steady x (p.writeOamAll bytes) :=
  registerKeeps_steady.writeOamAll h bytes

/-- What a poll leaves. -/
def polled (p : Picture) : Picture := { p with nmiPending := false }

theorem takeNmi_eq {ε : Type} (p : Picture) :
    (takeNmi : Action ε Picture Bool) p = ⟨.ok p.nmiPending, p.polled, []⟩ := rfl

theorem steady_polled (h : Steady x p) : Steady x p.polled := { h with }

/-- What a picture unit can come to, with a cartridge in the slot or without one. -/
inductive Reached : Picture → Prop
  | powerOn : Reached powerOn
  | tick {p : Picture} : Reached p → Reached (tick p).state
  | read {p : Picture} (addr : UInt16) : Reached p → Reached (readRegister addr p).state
  | write {p : Picture} (addr : UInt16) (data : UInt8) :
      Reached p → Reached (writeRegister addr data p).state
  | transfer {p : Picture} (bytes : List UInt8) : Reached p → Reached (p.writeOamAll bytes)
  | takeNmi {p : Picture} : Reached p → Reached (takeNmi (ε := Bus.Fault) p).state
  | takeFrame {p : Picture} : Reached p → Reached (takeFrame (ε := Bus.Fault) p).state
  | insert {p : Picture} (c : Cartridge) : Reached p → Reached (p.insert c)
  | eject {p : Picture} : Reached p → Reached p.eject

/-- Fine X is the offset of a pixel within a tile. -/
def FineSound (p : Picture) : Prop := p.fineX.toNat ≤ 7

theorem fineSound_tick {p : Picture} (h : FineSound p) : FineSound (tick p).state := by
  unfold FineSound
  rw [(static_tick p).fineX]
  exact h

theorem registerKeeps_fineSound : RegisterKeeps FineSound (fun _ => True) where
  status _ h := h
  buffer _ _ h := h
  stepAddress _ h := h
  control _ _ h := h
  mask _ _ h := h
  oamAddress _ _ h := h
  oam _ _ h := h
  scroll p data h := by
    unfold writeScroll
    split
    · exact h
    · exact Scroll.fineX_scrollX_le p.t data
  address p _ h := by
    unfold writeAddress
    split <;> exact h
  readFault _ _ _ _ _ := trivial
  memory _ _ := fun _ hp => ⟨hp, fun _ _ => trivial⟩

/-- However a unit is used, its fine X has three bits. -/
theorem fineSound_of_reached {p : Picture} (h : Reached p) : FineSound p := by
  induction h with
  | powerOn => exact Nat.zero_le 7
  | tick _ ih => exact fineSound_tick ih
  | read addr _ ih => exact (registerKeeps_fineSound.readRegister addr _ ih).1
  | write addr data _ ih => exact (registerKeeps_fineSound.write addr data _ ih).1
  | transfer bytes _ ih => exact registerKeeps_fineSound.writeOamAll ih bytes
  | takeNmi _ ih => exact ih
  | takeFrame _ ih => exact ih
  | insert c _ ih => exact ih
  | eject _ ih => exact ih

end Famicom.Picture
