import Famicom.Proofs.Bus.Refusal
import Famicom.Proofs.Cartridge

/-! The address space of the processor, with a cartridge in the slot: at which addresses a byte that
is written is read, which writes are lost, how the registers of the picture unit repeat, and which
reads have an effect. -/

namespace Famicom

open Famicom.Action

namespace Picture

variable {p : Picture} {m : VideoMemory} {addr : UInt16}

/-- The first of the addresses at which a register is seen. -/
def registerAddress (addr : UInt16) : UInt16 := UInt16.ofNat (0x2000 + addr.toNat % 8)

theorem toNat_registerAddress (addr : UInt16) :
    (registerAddress addr).toNat = 0x2000 + addr.toNat % 8 := by
  have hlt : addr.toNat % 8 < 8 := Nat.mod_lt _ (by decide)
  exact UInt16.toNat_ofNat_of_lt' (show 0x2000 + addr.toNat % 8 < 65536 by omega)

theorem place_registerAddress (addr : UInt16) : 0x2000 ≤ registerAddress addr ∧
    registerAddress addr < 0x4000 ∧ (registerAddress addr).toNat % 8 = addr.toNat % 8 := by
  have hplace := toNat_registerAddress addr
  refine ⟨UInt16.le_iff_toNat_le.mpr ?_, UInt16.lt_iff_toNat_lt.mpr ?_, ?_⟩
  · exact le_of_le_of_eq (Nat.le_add_right _ _) hplace.symm
  · change (registerAddress addr).toNat < 0x4000
    omega
  · omega

theorem registerAt_registerAddress (hlow : 0x2000 ≤ addr) (hhigh : addr < 0x4000) :
    registerAt (registerAddress addr) = registerAt addr := by
  obtain ⟨hlow', hhigh', hnumber⟩ := place_registerAddress addr
  rw [registerAt_eq hlow hhigh, registerAt_eq hlow' hhigh', hnumber]

/-- A read by the number of the register. -/
theorem readRegister_eq (hlow : 0x2000 ≤ addr) (hhigh : addr < 0x4000) : readRegister addr =
    if addr.toNat % 8 = 2 then readStatus
    else if addr.toNat % 8 = 4 then view readOam
    else if addr.toNat % 8 = 7 then readData
    else fail (.writeOnlyRegister addr) := by
  have hlt : addr.toNat % 8 < 8 := Nat.mod_lt _ (by decide)
  unfold readRegister
  rw [registerAt_eq hlow hhigh]
  generalize addr.toNat % 8 = number at hlt ⊢
  interval_cases number <;> rfl

/-- The same register answers to all its addresses, and only a refusal tells them apart. -/
theorem readRegister_cases (hlow : 0x2000 ≤ addr) (hhigh : addr < 0x4000) :
    readRegister addr = readRegister (registerAddress addr) ∧ addr.toNat % 8 ∈ [2, 4, 7] ∨
    readRegister addr = fail (.writeOnlyRegister addr) ∧
      readRegister (registerAddress addr) = fail (.writeOnlyRegister (registerAddress addr)) := by
  obtain ⟨hlow', hhigh', hnumber⟩ := place_registerAddress addr
  rw [readRegister_eq hlow hhigh, readRegister_eq hlow' hhigh', hnumber]
  split
  next hstatus => exact Or.inl ⟨rfl, by simp [hstatus]⟩
  split
  next hsprites => exact Or.inl ⟨rfl, by simp [hsprites]⟩
  split
  next hdata => exact Or.inl ⟨rfl, by simp [hdata]⟩
  next => exact Or.inr ⟨rfl, rfl⟩

theorem writeRegister_cases (v : UInt8) (hlow : 0x2000 ≤ addr) (hhigh : addr < 0x4000) :
    writeRegister addr v = writeRegister (registerAddress addr) v ∧ addr.toNat % 8 ≠ 2 ∨
    ∃ event, writeRegister addr v = (do report event; fail (.readOnlyRegister addr)) ∧
      writeRegister (registerAddress addr) v =
        (do report event; fail (.readOnlyRegister (registerAddress addr))) := by
  have hlt : addr.toNat % 8 < 8 := Nat.mod_lt _ (by decide)
  unfold writeRegister
  rw [registerAt_registerAddress hlow hhigh, registerAt_eq hlow hhigh]
  -- of the eight numbers only the status cannot be written
  generalize addr.toNat % 8 = number at hlt ⊢
  interval_cases number
  · exact Or.inl ⟨rfl, by decide⟩
  · exact Or.inl ⟨rfl, by decide⟩
  · exact Or.inr ⟨_, rfl, rfl⟩
  · exact Or.inl ⟨rfl, by decide⟩
  · exact Or.inl ⟨rfl, by decide⟩
  · exact Or.inl ⟨rfl, by decide⟩
  · exact Or.inl ⟨rfl, by decide⟩
  · exact Or.inl ⟨rfl, by decide⟩

/-- A read has no effect but on the status and on the data. -/
theorem state_readRegister (hlow : 0x2000 ≤ addr) (hhigh : addr < 0x4000)
    (h : addr.toNat % 8 ≠ 2 ∧ addr.toNat % 8 ≠ 7) : (readRegister addr p).state = p := by
  rw [readRegister_eq hlow hhigh, if_neg h.1]
  split
  · rfl
  · rw [if_neg h.2]
    rfl

/-- Of the memory, the answer of the data register depends on what is read at the video address,
and below the colours on whether something can be. -/
theorem answer_readData_eq (p : Picture) : (readData p).answer = (do
    let data ← p.memory.read (p.v &&& 0x3FFF)
    if paletteBase ≤ p.v &&& 0x3FFF then do
      let _ ← p.memory.read ((p.v &&& 0x3FFF) - 0x1000)
      return data
    else return p.readBuffer) := by
  unfold readData
  rw [view_bind]
  -- a read of a colour goes to the memory twice, and either read may fail
  cases hdata : p.memory.read (p.v &&& 0x3FFF) with
  | error e =>
    have hfirst : inspect (fun q : Picture => q.memory.read (p.v &&& 0x3FFF)) p =
        ⟨.error e, p, []⟩ := by rw [inspect_apply, hdata]
    rw [bind_of_error hfirst]
    rfl
  | ok data =>
    rw [inspect_bind (g := fun q : Picture => q.memory.read (p.v &&& 0x3FFF)) hdata, view_bind,
      Action.ite_apply]
    split
    next hcolour =>
      cases hbelow : p.memory.read ((p.v &&& 0x3FFF) - 0x1000) with
      | error e =>
        have hsecond : inspect (fun q : Picture => q.memory.read ((p.v &&& 0x3FFF) - 0x1000)) p =
            ⟨.error e, p, []⟩ := by rw [inspect_apply, hbelow]
        rw [bind_of_error hsecond]
        rfl
      | ok below =>
        rw [inspect_bind (g := fun q : Picture => q.memory.read ((p.v &&& 0x3FFF) - 0x1000)) hbelow]
        simp
        rfl
    next hplain =>
      simp
      rfl

theorem answer_readRegister (hlow : 0x2000 ≤ addr) (hhigh : addr < 0x4000)
    (hm : ∀ a, m.read a = p.memory.read a) :
    (readRegister addr { p with memory := m }).answer = (readRegister addr p).answer := by
  -- no other register looks into the memory
  have hdata : (readData { p with memory := m }).answer = (readData p).answer := by
    simp only [answer_readData_eq, hm]
  rw [readRegister_eq hlow hhigh]
  split
  · rfl
  split
  · rfl
  split
  · exact hdata
  · rfl

namespace VideoMemory

variable {c d : Cartridge}

/-- The picture unit sees of a cartridge only its pattern memory. -/
theorem read_replace {slot : Option Nat} (h : m.cartridgeIn slot = some c) (hchr : d.chr = c.chr)
    (addr : UInt16) : (m.replace slot d).read addr = m.read addr := by
  have hpattern : ∀ addr, (m.replace slot d).pattern addr = m.pattern addr := by
    intro addr
    have hcartridge : (m.replace slot d).cartridge =
        if m.slot = slot then some d else m.cartridge := cartridgeIn_replace h m.slot
    unfold pattern
    rw [hcartridge]
    by_cases hslot : m.slot = slot
    · rw [if_pos hslot, cartridge, hslot, h]
      simp only [Cartridge.readPattern, hchr]
    · rw [if_neg hslot]
  unfold VideoMemory.read
  simp only [hpattern]
  rfl

end VideoMemory

end Picture

namespace Cartridge

/-- The RAM on the processor's side has a byte for each of its addresses. -/
theorem read_of_ram_set (c : Cartridge) {a addr : UInt16} (hlow : 0x6000 ≤ a.toNat)
    (hhigh : a.toNat < 0x8000) (v : UInt8) (haddr : 0x6000 ≤ addr.toNat) :
    Cartridge.read { c with ram := c.ram.set (ramIndex a) v (ramIndex a).isLt } addr =
      if addr = a then .ok v else c.read addr := by
  have hplace : ¬addr < 0x6000 := mt UInt16.lt_iff_toNat_lt.mp (Nat.not_lt.mpr haddr)
  unfold Cartridge.read
  simp only [if_neg hplace]
  by_cases hram : addr.toNat < 0x8000
  · have hindex : (ramIndex a).val = (ramIndex addr).val ↔ addr = a := by
      rw [← UInt16.toNat_inj]
      change a.toNat % 0x2000 = addr.toNat % 0x2000 ↔ addr.toNat = a.toNat
      omega
    simp only [show addr < 0x8000 from UInt16.lt_iff_toNat_lt.mpr hram, if_true,
      Vector.getElem_set, Fin.getElem_fin, hindex]
    split <;> rfl
  · have hne : addr ≠ a := by
      rintro rfl
      exact hram hhigh
    have hrom : ¬addr < 0x8000 := mt UInt16.lt_iff_toNat_lt.mp hram
    simp only [if_neg hrom, if_neg hne]
    rfl

theorem write_of_ram (c : Cartridge) {a : UInt16} (hlow : 0x6000 ≤ a.toNat)
    (hhigh : a.toNat < 0x8000) (v : UInt8) :
    write a v c = ⟨.ok (), { c with ram := c.ram.set (ramIndex a) v (ramIndex a).isLt }, []⟩ := by
  have hplace : ¬a < 0x6000 := mt UInt16.lt_iff_toNat_lt.mp (Nat.not_lt.mpr hlow)
  unfold Cartridge.write
  rw [if_neg hplace, if_pos (UInt16.lt_iff_toNat_lt.mpr hhigh)]
  rfl

theorem write_of_rom (c : Cartridge) {a : UInt16} (h : 0x8000 ≤ a.toNat) (v : UInt8) :
    write a v c = ⟨.ok (), c, [.prgWriteIgnored v a]⟩ := by
  have hplace : ¬a < 0x6000 := mt UInt16.lt_iff_toNat_lt.mp (by
    change ¬a.toNat < 0x6000
    omega)
  have hrom : ¬a < 0x8000 := mt UInt16.lt_iff_toNat_lt.mp (Nat.not_lt.mpr h)
  unfold Cartridge.write
  rw [if_neg hplace, if_neg hrom]
  rfl

end Cartridge

namespace Bus

variable {b : Bus} {c d : Cartridge} {a addr : UInt16} {ε α : Type}

theorem onPicture_apply (x : Action ε Picture α) (b : Bus) : onPicture x b =
    ⟨(x b.picture).answer, { b with picture := (x b.picture).state }, (x b.picture).events⟩ := rfl

theorem read_eq_readRegister (hlow : 0x2000 ≤ addr.toNat) (hhigh : addr.toNat < 0x4000) :
    read addr = onPicture (Picture.readRegister addr) := by
  obtain ⟨hram, hregisters, -⟩ := place_iff addr
  unfold read
  rw [if_neg (mt hram.mp (Nat.not_lt.mpr hlow)), if_pos (hregisters.mpr hhigh)]

theorem write_eq_writeRegister (hlow : 0x2000 ≤ addr.toNat) (hhigh : addr.toNat < 0x4000)
    (v : UInt8) : write addr v = onPicture (Picture.writeRegister addr v) := by
  obtain ⟨hram, hregisters, -⟩ := place_iff addr
  unfold write
  rw [if_neg (mt hram.mp (Nat.not_lt.mpr hlow)), if_pos (hregisters.mpr hhigh)]

/-- The work RAM is read at the addresses below the registers, and it is all that is read there. -/
theorem answer_read_of_ram (b : Bus) (ram : Vector UInt8 0x800) (addr : UInt16) :
    (read addr { b with ram := ram }).answer =
      if addr.toNat < 0x2000 then .ok (peekRam { b with ram := ram } addr)
      else (read addr b).answer := by
  obtain ⟨hram, -⟩ := place_iff addr
  unfold read
  simp only [hram]
  split
  · rfl
  · repeat' split
    all_goals rfl

/-- A byte of the work RAM is read at all its addresses, and no other one changes with it. -/
theorem answer_read_of_ram_set (b : Bus) (a addr : UInt16) (v : UInt8) :
    (read addr { b with ram := b.ram.set (ramIndex a) v (ramIndex a).isLt }).answer =
      if addr.toNat < 0x2000 ∧ addr.toNat % 0x800 = a.toNat % 0x800 then .ok v
      else (read addr b).answer := by
  have hbefore := answer_read_of_ram b b.ram addr
  rw [answer_read_of_ram]
  by_cases hlow : addr.toNat < 0x2000
  · have hindex : (ramIndex a).val = (ramIndex addr).val ↔ addr.toNat % 0x800 = a.toNat % 0x800 :=
      eq_comm
    rw [if_pos hlow] at hbefore
    simp only [hlow, if_true, true_and, hbefore, peekRam, Fin.getElem_fin, Vector.getElem_set,
      hindex]
    split <;> rfl
  · simp only [hlow, if_false, false_and]

/-- The bus with another cartridge in place of the one that the processor reaches. -/
def withCartridge (b : Bus) (c : Cartridge) : Bus :=
  { b with picture := { b.picture with memory := b.picture.memory.replace b.slot c } }

theorem cartridge_withCartridge (h : b.cartridge = some c) (d : Cartridge) :
    (b.withCartridge d).cartridge = some d :=
  Picture.VideoMemory.cartridgeIn_replace_self h

theorem withCartridge_self (h : b.cartridge = some c) : b.withCartridge c = b := by
  unfold withCartridge
  rw [Picture.VideoMemory.replace_self h]

theorem write_of_cartridge (h : b.cartridge = some c) (ha : 0x6000 ≤ a.toNat) {v : UInt8}
    {es : List Event} (hc : Cartridge.write a v c = ⟨.ok (), d, es⟩) :
    write a v b = ⟨.ok (), b.withCartridge d, es⟩ := by
  have hmemory := Picture.VideoMemory.onSlot_of_full (x := Cartridge.write a v) h
  rw [hc] at hmemory
  rw [write_eq_onSlot ha, onPicture_apply]
  unfold Picture.onMemory
  dsimp only
  rw [hmemory]
  rfl

theorem read_eq_cartridge (h : b.cartridge = some c) (ha : 0x6000 ≤ addr.toNat) :
    read addr b = ⟨(c.read addr).mapError .cartridge, b, []⟩ := by
  obtain ⟨-, -, -, hcartridge, -⟩ := place_iff addr
  rw [read_eq_inspect (mt hcartridge.mp (Nat.not_lt.mpr ha)), inspect_apply]
  unfold readCartridge
  rw [h]

/-- Below its own addresses only the pattern memory of a cartridge is seen. -/
theorem answer_read_withCartridge (h : b.cartridge = some c) (hchr : d.chr = c.chr)
    (ha : addr.toNat < 0x6000) :
    (read addr (b.withCartridge d)).answer = (read addr b).answer := by
  obtain ⟨hram, hregisters, hports, hcartridge, -⟩ := place_iff addr
  by_cases hpicture : 0x2000 ≤ addr.toNat ∧ addr.toNat < 0x4000
  · rw [read_eq_readRegister hpicture.1 hpicture.2, onPicture_apply, onPicture_apply]
    apply Picture.answer_readRegister (UInt16.le_iff_toNat_le.mpr hpicture.1)
      (hregisters.mpr hpicture.2)
    exact Picture.VideoMemory.read_replace h hchr
  · unfold read
    simp only [hram, hregisters, hports, hcartridge]
    rw [if_pos ha]
    repeat' split
    all_goals first | rfl | omega

/-- An access at one address is the same as at another, but that each refuses in its own name. Data
that no cartridge holds is refused without a name. -/
structure Echoes (access : UInt16 → Action Fault Bus α) (refusal : UInt16 → Fault)
    (a a' : UInt16) (b : Bus) : Prop where
  state_eq : (access a b).state = (access a' b).state
  events_eq : (access a b).events = (access a' b).events
  answer : (∃ r, (access a b).answer = .ok r ∧ (access a' b).answer = .ok r) ∨
    (access a b).answer = .error (refusal a) ∧ (access a' b).answer = .error (refusal a') ∨
    b.picture.Unpatterned ∧ (access a b).answer = (access a' b).answer

theorem echoes_of_eq {access : UInt16 → Action Fault Bus α} {refusal : UInt16 → Fault}
    {a a' : UInt16} (h : access a = access a')
    (hok : (∃ e, (access a b).answer = .error e) → b.picture.Unpatterned) :
    Echoes access refusal a a' b := by
  refine ⟨by rw [h], by rw [h], ?_⟩
  rw [← h]
  rcases hanswer : (access a b).answer with e | r
  · exact .inr (.inr ⟨hok ⟨e, hanswer⟩, rfl⟩)
  · exact .inl ⟨r, rfl, rfl⟩

theorem echoes_of_refused {access : UInt16 → Action Fault Bus α} {refusal : UInt16 → Fault}
    {a a' : UInt16} {es : List Event} (h : access a b = ⟨.error (refusal a), b, es⟩)
    (h' : access a' b = ⟨.error (refusal a'), b, es⟩) : Echoes access refusal a a' b := by
  refine ⟨?_, ?_, .inr (.inl ⟨?_, ?_⟩)⟩
  · rw [h, h']
  · rw [h, h']
  · rw [h]
  · rw [h']

/-- With the cartridge in the slots of both sides, the data can be accessed wherever the video
address leads. -/
theorem patterned_of_cartridge (hwired : b.Wired) (h : b.cartridge = some c) :
    ¬b.picture.Unpatterned := by
  rintro ⟨-, hempty⟩
  rw [← hwired.cartridge_eq, h] at hempty
  cases hempty

theorem read_echoes (b : Bus) (hlow : 0x2000 ≤ a.toNat) (hhigh : a.toNat < 0x4000) :
    Echoes read .writeOnlyRegister a (Picture.registerAddress a) b := by
  have hplace := Picture.toNat_registerAddress a
  have hread := read_eq_readRegister hlow hhigh
  have hread' : read (Picture.registerAddress a) =
      onPicture (Picture.readRegister (Picture.registerAddress a)) :=
    read_eq_readRegister (by omega) (by omega)
  rcases Picture.readRegister_cases (UInt16.le_iff_toNat_le.mpr hlow)
    (UInt16.lt_iff_toNat_lt.mpr hhigh) with ⟨heq, hnumber⟩ | ⟨hrefused, hrefused'⟩
  · apply echoes_of_eq (by rw [hread, hread', heq])
    rw [error_iff_of_refuses (refuses_read a)]
    rintro (⟨-, -, hwriteOnly⟩ | ⟨-, -, -, hpattern⟩ | htransfer | hunwired | ⟨hcartridge, -⟩)
    · simp only [List.mem_cons, List.not_mem_nil, or_false] at hnumber hwriteOnly
      omega
    · exact hpattern
    all_goals omega
  · rw [hrefused] at hread
    rw [hrefused'] at hread'
    exact echoes_of_refused (congrFun hread b) (congrFun hread' b)

theorem write_echoes (b : Bus) (hlow : 0x2000 ≤ a.toNat) (hhigh : a.toNat < 0x4000) (v : UInt8) :
    Echoes (fun addr => write addr v) .readOnlyRegister a (Picture.registerAddress a) b := by
  have hplace := Picture.toNat_registerAddress a
  have hwrite := write_eq_writeRegister hlow hhigh v
  have hwrite' : write (Picture.registerAddress a) v =
      onPicture (Picture.writeRegister (Picture.registerAddress a) v) :=
    write_eq_writeRegister (by omega) (by omega) v
  rcases Picture.writeRegister_cases v (UInt16.le_iff_toNat_le.mpr hlow)
    (UInt16.lt_iff_toNat_lt.mpr hhigh) with ⟨heq, hnumber⟩ | ⟨event, hrefused, hrefused'⟩
  · apply echoes_of_eq (by rw [hwrite, hwrite', heq])
    rw [error_iff_of_refuses (refuses_write a v)]
    rintro (⟨-, -, hreadOnly⟩ | ⟨-, -, -, hpattern⟩ | ⟨htransfer, -⟩ | hunwired | ⟨hcartridge, -⟩)
    · exact absurd hreadOnly hnumber
    · exact hpattern
    all_goals omega
  · rw [hrefused] at hwrite
    rw [hrefused'] at hwrite'
    exact echoes_of_refused (congrFun hwrite b) (congrFun hwrite' b)

/-- The reads with an effect are those of the controllers, of the status and of the data. -/
theorem effect_of_read (h : (read addr b).state ≠ b) :
    addr = controllerOneAddress ∨ addr = controllerTwoAddress ∨
      0x2000 ≤ addr.toNat ∧ addr.toNat < 0x4000 ∧ (addr.toNat % 8 = 2 ∨ addr.toNat % 8 = 7) := by
  obtain ⟨hram, hregisters, -⟩ := place_iff addr
  by_contra hother
  obtain ⟨hone, htwo, hregister⟩ : addr ≠ controllerOneAddress ∧ addr ≠ controllerTwoAddress ∧
      ¬(0x2000 ≤ addr.toNat ∧ addr.toNat < 0x4000 ∧
        (addr.toNat % 8 = 2 ∨ addr.toNat % 8 = 7)) := by simpa only [not_or] using hother
  apply h
  by_cases hpicture : 0x2000 ≤ addr.toNat ∧ addr.toNat < 0x4000
  · have hstate := Picture.state_readRegister (p := b.picture)
      (UInt16.le_iff_toNat_le.mpr hpicture.1) (hregisters.mpr hpicture.2)
      (not_or.mp fun hnumber => hregister ⟨hpicture.1, hpicture.2, hnumber⟩)
    rw [read_eq_readRegister hpicture.1 hpicture.2, onPicture_apply, hstate]
  · unfold read
    simp only [hram, hregisters, if_neg hone, if_neg htwo]
    repeat' split
    all_goals first | rfl | omega

/-- The address space with a cartridge. A write to the work RAM is read at all addresses at which
that byte repeats, a write to the cartridge's RAM at its own address, and what else is read stays as
it was; the program ROM and the sound registers take no write. The registers of the picture unit
repeat every eight addresses, and with the cartridge in the slots of both sides, where it is put, an
access to them fails only in the name of its address. Only the controllers, the status and the data
are changed by a read. -/
theorem address_space_with_cartridge (h : b.cartridge = some c) (a addr : UInt16) (v : UInt8) :
    (a.toNat < 0x2000 → (write a v b).answer = .ok () ∧
      (read addr (write a v b).state).answer =
        if addr.toNat < 0x2000 ∧ addr.toNat % 0x800 = a.toNat % 0x800 then .ok v
        else (read addr b).answer) ∧
    (0x6000 ≤ a.toNat → a.toNat < 0x8000 → (write a v b).answer = .ok () ∧
      (read addr (write a v b).state).answer =
        if addr = a then .ok v else (read addr b).answer) ∧
    (0x8000 ≤ a.toNat ∨ 0x4000 ≤ a.toNat ∧ a.toNat < 0x4020 ∧ a ≠ oamDmaAddress ∧
      a ≠ controllerOneAddress → (write a v b).answer = .ok () ∧ (write a v b).state = b) ∧
    (0x2000 ≤ a.toNat → a.toNat < 0x4000 →
      Echoes read .writeOnlyRegister a (UInt16.ofNat (0x2000 + a.toNat % 8)) b ∧
      Echoes (fun addr => write addr v) .readOnlyRegister a
        (UInt16.ofNat (0x2000 + a.toNat % 8)) b) ∧
    (b.Wired → ¬b.picture.Unpatterned) ∧
    ((read addr b).state ≠ b → addr = controllerOneAddress ∨ addr = controllerTwoAddress ∨
      0x2000 ≤ addr.toNat ∧ addr.toNat < 0x4000 ∧
        (addr.toNat % 8 = 2 ∨ addr.toNat % 8 = 7)) := by
  refine ⟨?_, ?_, ?_, ?_, fun hwired => patterned_of_cartridge hwired h, effect_of_read⟩
  · intro hram
    have hwrite : write a v b =
        ⟨.ok (), { b with ram := b.ram.set (ramIndex a) v (ramIndex a).isLt }, []⟩ := by
      unfold write
      rw [if_pos ((place_iff a).1.mpr hram)]
      rfl
    rw [hwrite]
    exact ⟨rfl, answer_read_of_ram_set b a addr v⟩
  · intro hlow hhigh
    have hwrite := write_of_cartridge h hlow (c.write_of_ram hlow hhigh v)
    rw [hwrite]
    refine ⟨rfl, ?_⟩
    -- the cartridge is also in view of the data register, which sees only its pattern memory
    by_cases hcartridge : 0x6000 ≤ addr.toNat
    · rw [read_eq_cartridge (cartridge_withCartridge h _) hcartridge, read_eq_cartridge h hcartridge,
        c.read_of_ram_set hlow hhigh v hcartridge]
      split <;> rfl
    · have hne : addr ≠ a := by
        rintro rfl
        exact hcartridge hlow
      rw [if_neg hne]
      exact answer_read_withCartridge h rfl (Nat.not_le.mp hcartridge)
  · rintro (hrom | ⟨hlow, hhigh, hdma, hone⟩)
    · have hwrite := write_of_cartridge h (le_trans (by decide) hrom) (c.write_of_rom hrom v)
      rw [hwrite]
      exact ⟨rfl, withCartridge_self h⟩
    · obtain ⟨hram, hregisters, hports, -⟩ := place_iff a
      unfold write
      simp only [hram, hregisters, hports, if_neg hdma, if_neg hone]
      rw [if_neg (by omega), if_neg (by omega), if_pos hhigh]
      exact ⟨rfl, rfl⟩
  · intro hlow hhigh
    exact ⟨read_echoes b hlow hhigh, write_echoes b hlow hhigh v⟩

/-- The bus at power-on, with a cartridge of zeros. -/
def loaded : Bus :=
  ({} : Bus).insert (.plain (.replicate 0x4000 0) (.replicate 0x2000 0))

/-- The work RAM, the cartridge's two memories, the status and a sound register. -/
theorem address_space_of_loaded :
    (read 0x0801 (write 0x1801 0x77 loaded).state).answer = .ok 0x77 ∧
    (read 0x0802 (write 0x1801 0x77 loaded).state).answer = (read 0x0802 loaded).answer ∧
    (read 0x7FFF (write 0x7FFF 0x77 loaded).state).answer = .ok 0x77 ∧
    (write 0xFFFF 0x77 loaded).state = loaded ∧ (write 0x4017 0x77 loaded).state = loaded ∧
    Echoes (fun addr => write addr 0x77) .readOnlyRegister 0x3FFA 0x2002 loaded ∧
    ¬loaded.picture.Unpatterned ∧ (read 0x3FF8 loaded).state = loaded := by
  have hslot : loaded.cartridge = some (.plain (.replicate 0x4000 0) (.replicate 0x2000 0)) := rfl
  obtain ⟨hram, -⟩ := address_space_with_cartridge hslot 0x1801 0x0801 0x77
  obtain ⟨hother, -⟩ := address_space_with_cartridge hslot 0x1801 0x0802 0x77
  obtain ⟨-, hcartridge, -⟩ := address_space_with_cartridge hslot 0x7FFF 0x7FFF 0x77
  obtain ⟨-, -, hrom, -⟩ := address_space_with_cartridge hslot 0xFFFF 0 0x77
  obtain ⟨-, -, hsound, -⟩ := address_space_with_cartridge hslot 0x4017 0 0x77
  obtain ⟨-, -, -, hstatus, hwired, hread⟩ := address_space_with_cartridge hslot 0x3FFA 0x3FF8 0x77
  refine ⟨(hram (by decide)).2, (hother (by decide)).2, (hcartridge (by decide) (by decide)).2,
    (hrom (Or.inl (by decide))).2,
    (hsound (Or.inr ⟨by decide, by decide, by decide, by decide⟩)).2,
    (hstatus (by decide) (by decide)).2, hwired rfl, ?_⟩
  by_contra heffect
  exact absurd (hread heffect) (by decide)

end Bus

end Famicom
