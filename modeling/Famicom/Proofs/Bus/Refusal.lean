import Famicom.Proofs.Bus
import Famicom.Proofs.Picture.Bounds

/-! Accesses of the processor that are refused. They are refused before anything has happened, so
that the bus is left as it was; a transfer too is refused by the first of its reads that could have
done anything. -/

namespace Famicom

open Famicom.Action

namespace Picture

variable {ε α : Type} {addr : UInt16}

/-- The fourteen bits of a video address. -/
theorem toNat_and_mask (v : UInt16) : (v &&& 0x3FFF).toNat = v.toNat % 0x4000 := by
  rw [UInt16.toNat_and]
  exact Nat.and_two_pow_sub_one_eq_mod _ 14

namespace VideoMemory

variable {m : VideoMemory}

/-- The pattern tables are addressed, and there is no cartridge that holds them. -/
def Unpatterned (addr : UInt16) (m : VideoMemory) : Prop :=
  addr.toNat % 0x4000 < 0x2000 ∧ m.cartridge = none

theorem lt_pattern_iff (addr : UInt16) :
    addr &&& 0x3FFF < 0x2000 ↔ addr.toNat % 0x4000 < 0x2000 := by
  rw [UInt16.lt_iff_toNat_lt, toNat_and_mask]
  rfl

theorem read_of_unpatterned (h : m.Unpatterned addr) : m.read addr = .error .noCartridge := by
  obtain ⟨hlow, hempty⟩ := h
  unfold VideoMemory.read
  dsimp only
  rw [if_pos ((lt_pattern_iff addr).mpr hlow)]
  unfold pattern
  rw [hempty]

theorem read_of_patterned (h : ¬m.Unpatterned addr) : ∃ b, m.read addr = .ok b := by
  by_cases hc : m.cartridge = none
  · have hhigh : ¬addr &&& 0x3FFF < 0x2000 := fun hlow => h ⟨(lt_pattern_iff addr).mp hlow, hc⟩
    unfold VideoMemory.read
    dsimp only
    rw [if_neg hhigh]
    split
    · exact ⟨_, rfl⟩
    · exact ⟨_, rfl⟩
  · exact read_of_ready (Option.isSome_iff_ne_none.mpr hc) addr

theorem refuses_onSlot {x : Action Cartridge.Fault Cartridge α} (h : Refuses (fun _ => False) x)
    (slot : Option Nat) : Refuses (fun m => m.cartridgeIn slot = none) (onSlot slot x) := by
  intro m
  constructor
  · exact fun hempty => ⟨_, _, onSlot_of_empty hempty⟩
  · intro hfull
    obtain ⟨c, hc⟩ := Option.ne_none_iff_exists'.mp hfull
    obtain ⟨a, d, es, hx⟩ := (h c).2 id
    rw [onSlot_of_full hc, hx]
    exact ⟨a, _, es, rfl⟩

theorem refuses_onCartridge {x : Action Cartridge.Fault Cartridge α}
    (h : Refuses (fun _ => False) x) :
    Refuses (fun m => m.cartridge = none) (onCartridge x) := by
  intro m
  rw [onCartridge_eq]
  exact refuses_onSlot h m.slot m

theorem refuses_writePattern {addr : UInt16} (v : UInt8) (h : addr.toNat < 0x2000) :
    Refuses (fun _ => False) (Cartridge.writePattern addr v) := by
  apply refuses_of_ok
  intro c
  unfold Cartridge.writePattern
  rw [dif_pos h, view_bind, Action.ite_apply]
  split
  · exact ⟨_, _, _, rfl⟩
  · exact ⟨_, _, _, rfl⟩

theorem refuses_write (addr : UInt16) (v : UInt8) :
    Refuses (Unpatterned addr) (VideoMemory.write addr v) := by
  unfold VideoMemory.write
  dsimp only
  split
  next hlow =>
    have hplace := (lt_pattern_iff addr).mp hlow
    apply (refuses_onCartridge (refuses_writePattern v (UInt16.lt_iff_toNat_lt.mp hlow))).congr
    intro m
    exact ⟨And.right, fun hempty => ⟨hplace, hempty⟩⟩
  next hhigh =>
    have hnone : ∀ m, ¬Unpatterned addr m := fun m hm => hhigh ((lt_pattern_iff addr).mpr hm.1)
    split
    · exact (refuses_update _).congr fun m => iff_of_false (hnone m) id
    · exact (refuses_update _).congr fun m => iff_of_false (hnone m) id

end VideoMemory

theorem refuses_onMemory {F : VideoMemory → Prop} {x : Action ε VideoMemory α}
    (h : Refuses F x) : Refuses (fun p => F p.memory) (onMemory x) := by
  intro p
  obtain ⟨hrefused, hanswered⟩ := h p.memory
  unfold onMemory
  dsimp only
  constructor
  · intro hp
    obtain ⟨e, es, hx⟩ := hrefused hp
    rw [hx]
    exact ⟨e, es, rfl⟩
  · intro hp
    obtain ⟨a, m, es, hx⟩ := hanswered hp
    rw [hx]
    exact ⟨a, _, es, rfl⟩

/-- The data that the video address stands for is in the pattern tables of a missing cartridge. -/
def Unpatterned (p : Picture) : Prop := p.memory.Unpatterned p.v

theorem refuses_readData : Refuses Unpatterned readData := by
  intro p
  -- the mask takes nothing from where the address leads
  have hplace : p.memory.Unpatterned (p.v &&& 0x3FFF) ↔ p.Unpatterned := by
    unfold Unpatterned VideoMemory.Unpatterned
    rw [toNat_and_mask, Nat.mod_mod]
  constructor
  · intro hp
    have hread := VideoMemory.read_of_unpatterned (hplace.mpr hp)
    have hfirst : inspect (fun q : Picture => q.memory.read (p.v &&& 0x3FFF)) p =
        ⟨.error .noCartridge, p, []⟩ := by rw [inspect_apply, hread]
    refine ⟨.noCartridge, [], ?_⟩
    unfold readData
    rw [view_bind]
    exact bind_of_error hfirst
  · intro hp
    obtain ⟨data, hread⟩ := VideoMemory.read_of_patterned (mt hplace.mp hp)
    unfold readData
    rw [view_bind, inspect_bind (g := fun q : Picture => q.memory.read (p.v &&& 0x3FFF)) hread,
      view_bind, Action.ite_apply]
    split
    next hcolour =>
      -- below the colours lie nametables, which need no cartridge
      have hbelow : ¬p.memory.Unpatterned ((p.v &&& 0x3FFF) - 0x1000) := by
        rintro ⟨hlow, -⟩
        have hle : 0x3F00 ≤ (p.v &&& 0x3FFF).toNat := UInt16.le_iff_toNat_le.mp hcolour
        have hlt : (p.v &&& 0x3FFF).toNat < 0x4000 := by
          rw [toNat_and_mask]
          exact Nat.mod_lt _ (by decide)
        rw [UInt16.toNat_sub_of_le _ _ (UInt16.le_iff_toNat_le.mpr (le_trans (by decide) hle)),
          show UInt16.toNat 0x1000 = 0x1000 from rfl] at hlow
        omega
      obtain ⟨below, hbelow⟩ := VideoMemory.read_of_patterned hbelow
      rw [inspect_bind (g := fun q : Picture => q.memory.read ((p.v &&& 0x3FFF) - 0x1000)) hbelow]
      exact ⟨_, _, _, rfl⟩
    next => exact ⟨_, _, _, rfl⟩

theorem refuses_writeData (data : UInt8) : Refuses Unpatterned (writeData data) := by
  intro p
  have hplace : p.memory.Unpatterned (p.v &&& 0x3FFF) ↔ p.Unpatterned := by
    unfold Unpatterned VideoMemory.Unpatterned
    rw [toNat_and_mask, Nat.mod_mod]
  have hwrite := refuses_bind (refuses_onMemory (VideoMemory.refuses_write (p.v &&& 0x3FFF) data))
    (fun _ => refuses_update Picture.stepAddress) p
  rw [hplace] at hwrite
  exact hwrite

/-- The registers by their numbers. -/
theorem registerAt_eq {addr : UInt16} (hlow : 0x2000 ≤ addr) (hhigh : addr < 0x4000) :
    registerAt addr = UInt16.ofNat (0x2000 + addr.toNat % 8) := by
  have hlt : addr.toNat % 8 < 8 := Nat.mod_lt _ (by decide)
  rw [registerAt_eq_iff hlow hhigh, UInt16.toNat_ofNat_of_lt']
  exact lt_trans (Nat.add_lt_add_left hlt _) (by decide)

theorem refuses_readRegister {addr : UInt16} (hlow : 0x2000 ≤ addr) (hhigh : addr < 0x4000) :
    Refuses (fun p => addr.toNat % 8 ∈ [0, 1, 3, 5, 6] ∨ addr.toNat % 8 = 7 ∧ p.Unpatterned)
      (readRegister addr) := by
  have hlt : addr.toNat % 8 < 8 := Nat.mod_lt _ (by decide)
  have hfail : Refuses (fun _ => True)
      (fail (.writeOnlyRegister addr) : Action Bus.Fault Picture UInt8) := refuses_fail _
  have hstatus : Refuses (fun _ => False) readStatus := refuses_of_ok fun p => ⟨_, _, _, rfl⟩
  have hoam : Refuses (fun _ => False) (view readOam : Action Bus.Fault Picture UInt8) :=
    refuses_of_ok fun p => ⟨_, _, _, rfl⟩
  unfold readRegister
  rw [registerAt_eq hlow hhigh]
  generalize addr.toNat % 8 = number at hlt ⊢
  interval_cases number
  · exact hfail.congr (by simp)
  · exact hfail.congr (by simp)
  · exact hstatus.congr (by simp)
  · exact hfail.congr (by simp)
  · exact hoam.congr (by simp)
  · exact hfail.congr (by simp)
  · exact hfail.congr (by simp)
  · exact refuses_readData.congr (by simp)

theorem refuses_writeRegister {addr : UInt16} (data : UInt8) (hlow : 0x2000 ≤ addr)
    (hhigh : addr < 0x4000) :
    Refuses (fun p => addr.toNat % 8 = 2 ∨ addr.toNat % 8 = 7 ∧ p.Unpatterned)
      (writeRegister addr data) := by
  have hlt : addr.toNat % 8 < 8 := Nat.mod_lt _ (by decide)
  have hupdate : ∀ f : Picture → Picture,
      Refuses (fun _ => False) (update f : Action Bus.Fault Picture Unit) := refuses_update
  unfold writeRegister
  apply refuses_report_bind
  rw [registerAt_eq hlow hhigh]
  generalize addr.toNat % 8 = number at hlt ⊢
  interval_cases number
  · exact (hupdate _).congr (by simp)
  · exact (hupdate _).congr (by simp)
  · exact (refuses_fail _).congr (by simp)
  · exact (hupdate _).congr (by simp)
  · exact (hupdate _).congr (by simp)
  · exact (hupdate _).congr (by simp)
  · exact (hupdate _).congr (by simp)
  · exact (refuses_writeData data).congr (by simp)

end Picture

namespace Bus

variable {b : Bus} {addr : UInt16} {ε α : Type}

theorem refuses_onPicture {F : Picture → Prop} {x : Action ε Picture α} (h : Refuses F x) :
    Refuses (fun b => F b.picture) (onPicture x) := by
  rintro ⟨ram, picture, one, two, dmaPending, slot⟩
  obtain ⟨hrefused, hanswered⟩ := h picture
  unfold onPicture
  dsimp only
  constructor
  · intro hp
    obtain ⟨e, es, hx⟩ := hrefused hp
    rw [hx]
    exact ⟨e, es, rfl⟩
  · intro hp
    obtain ⟨a, p, es, hx⟩ := hanswered hp
    rw [hx]
    exact ⟨a, _, es, rfl⟩

theorem refuses_onController (player : Player) {x : Action ε Controller α}
    (h : Refuses (fun _ => False) x) : Refuses (fun _ => False) (onController player x) := by
  apply refuses_of_ok
  rintro ⟨ram, picture, one, two, dmaPending, slot⟩
  unfold onController
  cases player with
  | one =>
    obtain ⟨a, c, es, hx⟩ := (h one).2 id
    dsimp only
    rw [hx]
    exact ⟨a, _, es, rfl⟩
  | two =>
    obtain ⟨a, c, es, hx⟩ := (h two).2 id
    dsimp only
    rw [hx]
    exact ⟨a, _, es, rfl⟩

theorem refuses_read_controller :
    Refuses (fun _ => False) (Controller.read : Action ε Controller UInt8) := by
  apply refuses_of_ok
  intro c
  unfold Controller.read
  split
  · exact ⟨_, _, _, rfl⟩
  split
  · exact ⟨_, _, _, rfl⟩
  · exact ⟨_, _, _, rfl⟩

theorem refuses_write_controller (v : UInt8) :
    Refuses (fun _ => False) (Controller.write v : Action ε Controller Unit) :=
  refuses_of_ok fun _ => ⟨_, _, _, rfl⟩

/-- What is read in vain: registers that are only written, the pattern tables and the memory of a
missing cartridge, and places where there is no device. -/
inductive ReadRefused (b : Bus) (addr : UInt16) : Prop
  | writeOnly : 0x2000 ≤ addr.toNat → addr.toNat < 0x4000 → addr.toNat % 8 ∈ [0, 1, 3, 5, 6] →
      ReadRefused b addr
  | pattern : 0x2000 ≤ addr.toNat → addr.toNat < 0x4000 → addr.toNat % 8 = 7 →
      b.picture.Unpatterned → ReadRefused b addr
  | transfer : addr.toNat = 0x4014 → ReadRefused b addr
  | unwired : 0x4020 ≤ addr.toNat → addr.toNat < 0x6000 → ReadRefused b addr
  | empty : 0x6000 ≤ addr.toNat → b.cartridge = none → ReadRefused b addr

/-- A page with an address that cannot be read. -/
def PageRefused (b : Bus) (page : UInt8) : Prop :=
  0x20 ≤ page.toNat ∧ page.toNat < 0x60 ∨ 0x60 ≤ page.toNat ∧ b.cartridge = none

/-- What is written in vain. A transfer is, if its page cannot be read. -/
inductive WriteRefused (b : Bus) (addr : UInt16) (v : UInt8) : Prop
  | readOnly : 0x2000 ≤ addr.toNat → addr.toNat < 0x4000 → addr.toNat % 8 = 2 →
      WriteRefused b addr v
  | pattern : 0x2000 ≤ addr.toNat → addr.toNat < 0x4000 → addr.toNat % 8 = 7 →
      b.picture.Unpatterned → WriteRefused b addr v
  | transfer : addr.toNat = 0x4014 → b.PageRefused v → WriteRefused b addr v
  | unwired : 0x4020 ≤ addr.toNat → addr.toNat < 0x6000 → WriteRefused b addr v
  | empty : 0x6000 ≤ addr.toNat → b.cartridge = none → WriteRefused b addr v

theorem readCartridge_of_full (h : ¬addr < 0x6000) (hfull : b.cartridge ≠ none) :
    ∃ v, b.readCartridge addr = .ok v := by
  obtain ⟨c, hc⟩ := Option.ne_none_iff_exists'.mp hfull
  unfold readCartridge
  rw [hc]
  dsimp only
  unfold Cartridge.read
  rw [if_neg h]
  split
  · exact ⟨_, rfl⟩
  · exact ⟨_, rfl⟩

theorem refuses_readCartridge (h : ¬addr < 0x6000) :
    Refuses (fun b : Bus => b.cartridge = none) (inspect fun b : Bus => b.readCartridge addr) := by
  intro b
  rw [inspect_apply]
  constructor
  · intro hempty
    unfold readCartridge
    rw [hempty]
    exact ⟨_, _, rfl⟩
  · intro hfull
    obtain ⟨v, hv⟩ := readCartridge_of_full h hfull
    rw [hv]
    exact ⟨v, b, [], rfl⟩

theorem refuses_write_cartridge (v : UInt8) (h : ¬addr < 0x6000) :
    Refuses (fun _ => False) (Cartridge.write addr v) := by
  apply refuses_of_ok
  intro c
  unfold Cartridge.write
  rw [if_neg h, Action.ite_apply]
  split
  · exact ⟨_, _, _, rfl⟩
  · exact ⟨_, _, _, rfl⟩

/-- The places of the bus by their numbers. -/
theorem place_iff (addr : UInt16) : (addr < 0x2000 ↔ addr.toNat < 0x2000) ∧
    (addr < 0x4000 ↔ addr.toNat < 0x4000) ∧ (addr < 0x4020 ↔ addr.toNat < 0x4020) ∧
    (addr < 0x6000 ↔ addr.toNat < 0x6000) ∧ (addr = oamDmaAddress ↔ addr.toNat = 0x4014) ∧
    (addr = controllerOneAddress ↔ addr.toNat = 0x4016) ∧
    (addr = controllerTwoAddress ↔ addr.toNat = 0x4017) :=
  ⟨UInt16.lt_iff_toNat_lt, UInt16.lt_iff_toNat_lt, UInt16.lt_iff_toNat_lt, UInt16.lt_iff_toNat_lt,
    UInt16.toNat_inj.symm, UInt16.toNat_inj.symm, UInt16.toNat_inj.symm⟩

/-- Above the devices of the console the processor writes to the cartridge. -/
theorem write_eq_onSlot {addr : UInt16} (h : 0x6000 ≤ addr.toNat) (v : UInt8) (b : Bus) :
    write addr v b = onPicture
      (Picture.onMemory (Picture.VideoMemory.onSlot b.slot (Cartridge.write addr v))) b := by
  obtain ⟨hram, hregisters, hports, hcartridge, hdma, hone, -⟩ := place_iff addr
  unfold write
  simp only [hram, hregisters, hports, hcartridge, hdma, hone]
  rw [if_neg (by omega), if_neg (by omega), if_neg (by omega), if_neg (by omega),
    if_neg (by omega), if_neg (by omega), view_bind]

theorem refuses_read (addr : UInt16) : Refuses (fun b => b.ReadRefused addr) (read addr) := by
  obtain ⟨hram, hregisters, hports, hcartridge, hdma, hone, htwo⟩ := place_iff addr
  -- where no access is refused, the place is not among those that are
  have hnever : ∀ {x : Action Fault Bus UInt8}, Refuses (fun _ => False) x →
      (∀ b : Bus, ¬b.ReadRefused addr) → Refuses (fun b => b.ReadRefused addr) x :=
    fun hx hb => hx.congr fun b => iff_of_false (hb b) id
  unfold read
  simp only [hram, hregisters, hports, hcartridge, hdma, hone, htwo]
  split
  · apply hnever (refuses_of_ok fun b => ⟨_, _, _, rfl⟩)
    rintro b (_ | _ | _ | _ | _) <;> omega
  split
  next hlow hhigh =>
    apply (refuses_onPicture (Picture.refuses_readRegister
      (UInt16.le_iff_toNat_le.mpr (Nat.not_lt.mp hlow)) (hregisters.mpr hhigh))).congr
    intro b
    constructor
    · rintro (⟨-, -, h⟩ | ⟨-, -, h, hp⟩ | h | h | h)
      · exact Or.inl h
      · exact Or.inr ⟨h, hp⟩
      all_goals omega
    · rintro (h | ⟨h, hp⟩)
      · exact .writeOnly (Nat.not_lt.mp hlow) hhigh h
      · exact .pattern (Nat.not_lt.mp hlow) hhigh h hp
  split
  next h => exact (refuses_fail _).congr fun b => iff_of_true (.transfer h) trivial
  split
  · apply hnever (refuses_onController _ refuses_read_controller)
    rintro b (_ | _ | _ | _ | _) <;> omega
  split
  · apply hnever (refuses_onController _ refuses_read_controller)
    rintro b (_ | _ | _ | _ | _) <;> omega
  split
  · apply hnever (refuses_of_ok fun b => ⟨_, _, _, rfl⟩)
    rintro b (_ | _ | _ | _ | _) <;> omega
  split
  next hlow hhigh =>
    exact (refuses_fail _).congr fun b => iff_of_true (.unwired (Nat.not_lt.mp hlow) hhigh) trivial
  next hhigh =>
    have hplace := Nat.not_lt.mp hhigh
    apply (refuses_readCartridge (mt hcartridge.mp hhigh)).congr
    intro b
    refine ⟨?_, .empty hplace⟩
    rintro (h | h | h | h | ⟨-, h⟩)
    all_goals first | exact h | omega

/-- Reads of memories and of the sound registers have no effect. -/
theorem read_quiet (h : addr.toNat < 0x2000 ∨ 0x4000 ≤ addr.toNat ∧ addr.toNat < 0x4014 ∨
    0x6000 ≤ addr.toNat ∧ b.cartridge ≠ none) : ∃ a es, read addr b = ⟨.ok a, b, es⟩ := by
  obtain ⟨hram, hregisters, hports, hcartridge, hdma, hone, htwo⟩ := place_iff addr
  rcases h with hlow | ⟨hlow, hhigh⟩ | ⟨hhigh, hfull⟩
  · unfold read
    rw [if_pos (hram.mpr hlow)]
    exact ⟨_, _, rfl⟩
  · unfold read
    simp only [hram, hregisters, hports, hdma, hone, htwo]
    rw [if_neg (by omega), if_neg (by omega), if_neg (by omega), if_neg (by omega),
      if_neg (by omega), if_pos (by omega)]
    exact ⟨_, _, rfl⟩
  · have hwired : ¬addr < 0x6000 := mt hcartridge.mp (Nat.not_lt.mpr hhigh)
    obtain ⟨v, hv⟩ := readCartridge_of_full hwired hfull
    rw [read_eq_inspect hwired, inspect_apply, hv]
    exact ⟨v, [], rfl⟩

theorem toNat_pageAddress (page : UInt8) {i : Nat} (hi : i < 256) :
    (pageAddress page i).toNat = page.toNat * 256 + i := by
  have hlt := page.toNat_lt
  have hpage : (page.toUInt16 <<< 8).toNat = page.toNat <<< 8 := by
    rw [UInt16.toNat_shiftLeft, UInt8.toNat_toUInt16]
    refine Nat.mod_eq_of_lt (lt_of_eq_of_lt (Nat.shiftLeft_eq _ 8) ?_)
    omega
  have hindex : (UInt16.ofNat i).toNat = i :=
    UInt16.toNat_ofNat_of_lt' (lt_trans hi (by decide))
  unfold pageAddress
  rw [UInt16.toNat_or, hpage, hindex, ← Nat.shiftLeft_add_eq_or_of_lt (i := 8) hi, Nat.shiftLeft_eq]

theorem range_split {k n : Nat} (h : k < n) :
    List.range n = List.range k ++ k :: List.range' (k + 1) (n - k - 1) := by
  have hn : n = k + (n - k - 1 + 1) := by omega
  calc List.range n
    _ = List.range' 0 (k + (n - k - 1 + 1)) := by rw [← hn, List.range_eq_range']
    _ = List.range' 0 k ++ List.range' (0 + k) (n - k - 1 + 1) := List.range'_append_1.symm
    _ = List.range k ++ k :: List.range' (k + 1) (n - k - 1) := by
      rw [List.range'_succ, List.range_eq_range', Nat.zero_add]

/-- The first address of a page that cannot be read comes before any whose read has an effect. -/
theorem refuses_page (page : UInt8) : Refuses (fun b => b.PageRefused page)
    ((List.range 256).mapM fun i => read (pageAddress page i)) := by
  have hplace := fun i (hi : i < 256) => toNat_pageAddress page hi
  have hlt := page.toNat_lt
  intro b
  constructor
  · intro hpage
    by_cases hports : page.toNat = 0x40
    -- the page of the ports can be read up to the transfer itself
    · rw [range_split (show 20 < 256 by decide)]
      apply mapM_of_refused
      -- up to there lie the sound registers
      · intro i hi
        have hi : i < 20 := List.mem_range.mp hi
        have haddr := hplace i (by omega)
        exact read_quiet (by omega)
      · have haddr := hplace 20 (by decide)
        exact (refuses_read _ b).1 (.transfer (by omega))
    -- of the other pages already the first address is refused
    · have haddr := hplace 0 (by decide)
      rw [range_split (show 0 < 256 by decide)]
      refine mapM_of_refused (fun i hi => by cases hi) ((refuses_read _ b).1 ?_)
      rcases hpage with ⟨hlow, hhigh⟩ | ⟨hhigh, hempty⟩
      · by_cases hregisters : page.toNat < 0x40
        · refine .writeOnly (by omega) (by omega) ?_
          rw [show (pageAddress page 0).toNat % 8 = 0 by omega]
          exact List.mem_cons_self
        · exact .unwired (by omega) (by omega)
      · exact .empty (by omega) hempty
  · intro hpage
    have hreadable : page.toNat < 0x20 ∨ 0x60 ≤ page.toNat ∧ b.cartridge ≠ none := by
      obtain ⟨hlow, hfull⟩ := not_or.mp hpage
      by_cases hhigh : 0x60 ≤ page.toNat
      · exact Or.inr ⟨hhigh, fun hempty => hfull ⟨hhigh, hempty⟩⟩
      · left
        omega
    -- the pages that are left have no address whose read has an effect
    obtain ⟨as, es, hread⟩ := mapM_of_quiet (f := fun i => read (pageAddress page i)) (s := b)
      (l := List.range 256) (by
        intro i hi
        have hi : i < 256 := List.mem_range.mp hi
        have haddr := hplace i hi
        apply read_quiet
        rcases hreadable with hlow | ⟨hhigh, hfull⟩
        · left
          omega
        · exact Or.inr (Or.inr ⟨by omega, hfull⟩))
    exact ⟨as, b, es, hread⟩

theorem refuses_oamDma (page : UInt8) : Refuses (fun b => b.PageRefused page) (oamDma page) := by
  unfold oamDma
  apply refuses_bind (refuses_page page)
  intro bytes
  exact refuses_of_ok fun b => ⟨_, _, _, rfl⟩

theorem refuses_write (addr : UInt16) (v : UInt8) :
    Refuses (fun b => b.WriteRefused addr v) (write addr v) := by
  obtain ⟨hram, hregisters, hports, hcartridge, hdma, hone, htwo⟩ := place_iff addr
  have hnever : ∀ {x : Action Fault Bus Unit}, Refuses (fun _ => False) x →
      (∀ b : Bus, ¬b.WriteRefused addr v) → Refuses (fun b => b.WriteRefused addr v) x :=
    fun hx hb => hx.congr fun b => iff_of_false (hb b) id
  unfold write
  simp only [hram, hregisters, hports, hcartridge, hdma, hone]
  -- one case for each device, from the lowest addresses on; the refusals of the others are out of
  -- its range
  split
  · apply hnever (refuses_update _)
    rintro b (_ | _ | _ | _ | _) <;> omega
  split
  next hlow hhigh =>
    apply (refuses_onPicture (Picture.refuses_writeRegister v
      (UInt16.le_iff_toNat_le.mpr (Nat.not_lt.mp hlow)) (hregisters.mpr hhigh))).congr
    intro b
    constructor
    · rintro (⟨-, -, h⟩ | ⟨-, -, h, hp⟩ | h | h | h)
      · exact Or.inl h
      · exact Or.inr ⟨h, hp⟩
      all_goals omega
    · rintro (h | ⟨h, hp⟩)
      · exact .readOnly (Nat.not_lt.mp hlow) hhigh h
      · exact .pattern (Nat.not_lt.mp hlow) hhigh h hp
  split
  next h =>
    apply (refuses_oamDma v).congr
    intro b
    refine ⟨?_, .transfer h⟩
    rintro (_ | _ | ⟨-, hpage⟩ | _ | _)
    all_goals first | exact hpage | omega
  split
  · apply hnever
    · apply refuses_bind (refuses_onController _ (refuses_write_controller v))
      exact fun _ => refuses_onController _ (refuses_write_controller v)
    · rintro b (_ | _ | _ | _ | _) <;> omega
  split
  · apply hnever (refuses_of_ok fun b => ⟨_, _, _, rfl⟩)
    rintro b (_ | _ | _ | _ | _) <;> omega
  split
  next hlow hhigh =>
    exact (refuses_fail _).congr fun b => iff_of_true (.unwired (Nat.not_lt.mp hlow) hhigh) trivial
  next hhigh =>
    have hplace := Nat.not_lt.mp hhigh
    -- where the cartridge is wired, only an empty slot refuses
    have hslot : Refuses (fun b : Bus => b.cartridge = none) (do
        let slot ← view (·.slot)
        onPicture (Picture.onMemory
          (Picture.VideoMemory.onSlot slot (Cartridge.write addr v)))) := by
      intro b
      rw [view_bind]
      exact refuses_onPicture (Picture.refuses_onMemory (Picture.VideoMemory.refuses_onSlot
        (refuses_write_cartridge v (mt hcartridge.mp hhigh)) b.slot)) b
    apply hslot.congr
    intro b
    refine ⟨?_, .empty hplace⟩
    rintro (_ | _ | _ | _ | ⟨-, h⟩)
    all_goals first | exact h | omega

/-- An access that fails leaves the whole bus as it was, whichever device refuses it. The accesses
that fail are those that no device takes, and the transfers of pages with an address that cannot be
read. -/
theorem failed_accesses_have_no_effect (b : Bus) (addr : UInt16) (v : UInt8) :
    (∀ e, (read addr b).answer = .error e → (read addr b).state = b) ∧
    (∀ e, (write addr v b).answer = .error e → (write addr v b).state = b) ∧
    ((∃ e, (read addr b).answer = .error e) ↔ b.ReadRefused addr) ∧
    ((∃ e, (write addr v b).answer = .error e) ↔ b.WriteRefused addr v) :=
  ⟨fun _ he => state_of_refuses (refuses_read addr) he,
    fun _ he => state_of_refuses (refuses_write addr v) he,
    error_iff_of_refuses (refuses_read addr), error_iff_of_refuses (refuses_write addr v)⟩

/-- A bus without a cartridge, with three buttons of its first controller shifted out. -/
def halfway : Bus := { one := { buttons := 0xFF, shifted := 3 }, dmaPending := true }

/-- A transfer of the page in which the controllers lie, and a read of the pattern tables. -/
theorem failed_accesses_of_halfway :
    (∃ e, (write oamDmaAddress 0x40 halfway).answer = .error e) ∧
    (write oamDmaAddress 0x40 halfway).state = halfway ∧
    (∃ e, (read 0x2007 halfway).answer = .error e) ∧ (read 0x2007 halfway).state = halfway := by
  obtain ⟨-, hwrite, -, hrefused⟩ := failed_accesses_have_no_effect halfway oamDmaAddress 0x40
  obtain ⟨hread, -, hunread, -⟩ := failed_accesses_have_no_effect halfway 0x2007 0
  have hports : WriteRefused halfway oamDmaAddress 0x40 :=
    .transfer rfl (Or.inl ⟨by decide, by decide⟩)
  have hpattern : ReadRefused halfway 0x2007 :=
    .pattern (by decide) (by decide) rfl ⟨by decide, rfl⟩
  obtain ⟨e, he⟩ := hrefused.mpr hports
  obtain ⟨e', he'⟩ := hunread.mpr hpattern
  exact ⟨⟨e, he⟩, hwrite e he, ⟨e', he'⟩, hread e' he'⟩

end Bus

end Famicom
