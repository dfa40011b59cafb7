import Famicom.Proofs.Bus.Refusal

/-! A transfer of sprites against a copy made byte by byte through the data port of the sprites.
Both succeed on the pages of the memories, and they leave the same sprites: the page, from the
sprite address onwards and round the end. -/

namespace Famicom

open Famicom.Action

namespace Picture

variable {p : Picture} {bytes : List UInt8}

theorem writeOamAll_append (p : Picture) (bytes : List UInt8) (v : UInt8) :
    p.writeOamAll (bytes ++ [v]) = (p.writeOamAll bytes).writeOam v :=
  List.foldl_concat _ _ _ _

/-- The sprite address moves on by one for each byte, and wraps. -/
theorem toNat_oamAddress_writeOamAll (p : Picture) (bytes : List UInt8) :
    (p.writeOamAll bytes).oamAddress.toNat = (p.oamAddress.toNat + bytes.length) % 256 := by
  induction bytes using List.reverseRecOn with
  | nil => exact (Nat.mod_eq_of_lt p.oamAddress.toNat_lt).symm
  | append_singleton bytes v ih =>
    rw [writeOamAll_append]
    calc ((p.writeOamAll bytes).oamAddress + 1).toNat
      _ = ((p.oamAddress.toNat + bytes.length) % 256 + 1) % 256 := by
        rw [UInt8.toNat_add, ih]
        rfl
      _ = (p.oamAddress.toNat + (bytes ++ [v]).length) % 256 := by
        rw [Nat.mod_add_mod, List.length_append, List.length_singleton, Nat.add_assoc]

theorem writeOamAll_eq (p : Picture) (bytes : List UInt8) : p.writeOamAll bytes =
    { p with
      oam := (p.writeOamAll bytes).oam
      oamAddress := (p.writeOamAll bytes).oamAddress } := by
  induction bytes using List.reverseRecOn with
  | nil => rfl
  | append_singleton bytes v ih =>
    rw [writeOamAll_append]
    unfold writeOam
    rw [ih]

/-- As long as the bytes do not come round to where the first of them lies, each is where the
sprite address had come to when it was written. -/
theorem getElem_writeOamAll (h : bytes.length ≤ 256) {i : Nat} (hi : i < bytes.length) :
    (p.writeOamAll bytes).oam[(p.oamAddress.toNat + i) % 256] = bytes[i] := by
  induction bytes using List.reverseRecOn with
  | nil => cases hi
  | append_singleton bytes v ih =>
    rw [List.length_append, List.length_singleton] at h hi
    have haddress := toNat_oamAddress_writeOamAll p bytes
    simp only [writeOamAll_append, writeOam, Vector.getElem_set]
    -- the last byte is at a place of its own, so that it takes none of the others away
    by_cases hlast : i = bytes.length
    · subst hlast
      rw [if_pos haddress, List.getElem_concat_length rfl]
    · have hbefore : i < bytes.length := by omega
      rw [if_neg (by omega), ih (by omega) hbefore, List.getElem_append_left hbefore]

/-- A page is as long as the sprites, so that the sprite address comes back to where it was. -/
theorem writeOamAll_of_page (h : bytes.length = 256) :
    p.writeOamAll bytes = { p with oam := (p.writeOamAll bytes).oam } := by
  have hback : (p.writeOamAll bytes).oamAddress = p.oamAddress := by
    apply UInt8.toNat_inj.mp
    rw [toNat_oamAddress_writeOamAll, h, Nat.add_mod_right]
    exact Nat.mod_eq_of_lt p.oamAddress.toNat_lt
  rw [writeOamAll_eq, hback]

end Picture

namespace Bus

variable {b : Bus} {page : UInt8}

/-- The port through which the processor stores a byte as the next of the sprites. -/
def oamDataAddress : UInt16 := 0x2004

theorem write_oamDataAddress (v : UInt8) (b : Bus) : write oamDataAddress v b =
    ⟨.ok (), { b with picture := b.picture.writeOam v }, [.registerWrite v oamDataAddress]⟩ := rfl

/-- The byte `i` of a page is read, and stored through the data port. -/
def copyByte (page : UInt8) (i : Nat) : Action Fault Bus Unit := do
  let v ← read (UInt16.ofNat (256 * page.toNat + i))
  write oamDataAddress v

/-- The copy of a page that a program makes without a transfer. -/
def copyPage (page : UInt8) : Action Fault Bus Unit := (List.range 256).forM (copyByte page)

theorem pageAddress_eq (page : UInt8) {i : Nat} (hi : i < 256) :
    pageAddress page i = UInt16.ofNat (256 * page.toNat + i) := by
  have hlt := page.toNat_lt
  apply UInt16.toNat_inj.mp
  have hplace : 256 * page.toNat + i < 65536 := by omega
  rw [toNat_pageAddress page hi, UInt16.toNat_ofNat_of_lt' hplace, Nat.mul_comm]

/-- What a memory holds does not depend on what else the picture unit is about. -/
theorem read_of_memory {addr : UInt16} (h : addr.toNat < 0x2000 ∨ 0x6000 ≤ addr.toNat) {p : Picture}
    (hp : p.memory = b.picture.memory) :
    read addr { b with picture := p } = ⟨(read addr b).answer, { b with picture := p }, []⟩ := by
  obtain ⟨hram, -, -, hcartridge, -, -, -⟩ := place_iff addr
  rcases h with hlow | hhigh
  · unfold read
    rw [if_pos (hram.mpr hlow)]
    rfl
  · have hslot : Bus.cartridge { b with picture := p } = b.cartridge := by
      unfold Bus.cartridge
      rw [hp]
    rw [read_eq_inspect (mt hcartridge.mp (Nat.not_lt.mpr hhigh))]
    simp only [inspect_apply, readCartridge, hslot]

/-- The pages that can be read as a whole are those of the memories. -/
theorem not_pageRefused_iff : ¬b.PageRefused page ↔
    page.toNat ≤ 0x1F ∨ 0x60 ≤ page.toNat ∧ b.cartridge ≠ none := by
  unfold PageRefused
  by_cases hempty : b.cartridge = none
  · simp only [hempty, and_true, ne_eq, not_true, and_false, or_false]
    omega
  · simp only [hempty, and_false, or_false, ne_eq, not_false_eq_true, and_true]
    omega

/-- The bytes of a page in the memories, which are there whatever becomes of the sprites. -/
def PageHolds (b : Bus) (page : UInt8) (byte : Nat → UInt8) : Prop :=
  ∀ i < 256, ∀ p : Picture, p.memory = b.picture.memory →
    read (pageAddress page i) { b with picture := p } = ⟨.ok (byte i), { b with picture := p }, []⟩

theorem exists_pageHolds (h : ¬b.PageRefused page) : ∃ byte, b.PageHolds page byte := by
  have hbyte : ∀ i, ∃ v, i < 256 → (read (pageAddress page i) b).answer = .ok v := by
    intro i
    by_cases hi : i < 256
    · have hplace := toNat_pageAddress page hi
      have hquiet : ∃ v es, read (pageAddress page i) b = ⟨.ok v, b, es⟩ := by
        apply read_quiet
        rcases not_pageRefused_iff.mp h with hlow | ⟨hhigh, hfull⟩
        · exact Or.inl (by omega)
        · exact Or.inr (Or.inr ⟨by omega, hfull⟩)
      obtain ⟨v, es, hread⟩ := hquiet
      exact ⟨v, fun _ => by rw [hread]⟩
    · exact ⟨0, fun hlt => absurd hlt hi⟩
  choose byte hbyte using hbyte
  refine ⟨byte, ?_⟩
  intro i hi p hp
  have hmemory : (pageAddress page i).toNat < 0x2000 ∨ 0x6000 ≤ (pageAddress page i).toNat := by
    rw [toNat_pageAddress page hi]
    rcases not_pageRefused_iff.mp h with hlow | ⟨hhigh, -⟩ <;> omega
  rw [read_of_memory hmemory hp, hbyte i hi]

variable {byte : Nat → UInt8}

theorem oamDma_of_pageHolds (h : b.PageHolds page byte) : oamDma page b =
    ⟨.ok (), { b with
      picture := b.picture.writeOamAll ((List.range 256).map byte)
      dmaPending := true }, [.oamDma page]⟩ := by
  have hreads : (List.range 256).mapM (fun i => read (pageAddress page i)) b =
      ⟨.ok ((List.range 256).map byte), b, []⟩ :=
    mapM_of_seen fun i hi => h i (List.mem_range.mp hi) b.picture rfl
  unfold oamDma
  rw [bind_of_quiet hreads]
  -- what is stored may be any list; the numbers of this one are not to be counted out
  generalize (List.range 256).map byte = bytes
  rfl

theorem copyByte_of_pageHolds (h : b.PageHolds page byte) {p : Picture}
    (hp : p.memory = b.picture.memory) {i : Nat} (hi : i < 256) :
    copyByte page i { b with picture := p } =
      ⟨.ok (), { b with picture := p.writeOam (byte i) },
        [.registerWrite (byte i) oamDataAddress]⟩ := by
  have hread := h i hi p hp
  rw [pageAddress_eq page hi] at hread
  unfold copyByte
  rw [bind_of_quiet hread, write_oamDataAddress]

/-- A copy changes the sprites while it reads, which changes nothing of what is still to be read. -/
theorem forM_copyByte (h : b.PageHolds page byte) {p : Picture}
    (hp : p.memory = b.picture.memory) {l : List Nat} (hl : ∀ i ∈ l, i < 256) :
    ∃ es, l.forM (copyByte page) { b with picture := p } =
      ⟨.ok (), { b with picture := p.writeOamAll (l.map byte) }, es⟩ := by
  induction l generalizing p with
  | nil => exact ⟨[], rfl⟩
  | cons i l ih =>
    have hstep := copyByte_of_pageHolds h hp (hl i List.mem_cons_self)
    obtain ⟨es, hrest⟩ := ih (p := p.writeOam (byte i)) hp fun j hj =>
      hl j (List.mem_cons_of_mem i hj)
    have hrun : (i :: l).forM (copyByte page) =
        copyByte page i >>= fun _ => l.forM (copyByte page) := List.forM_cons
    rw [hrun, bind_of_ok hstep, hrest]
    exact ⟨_, rfl⟩

/-- A transfer succeeds on the pages of the memories. It stores the page from the sprite address
onwards and round the end, and nothing else changes but that the processor must stall; a copy byte
by byte through the data port leaves the same sprites. -/
theorem transfer_copies_page (b : Bus) (page : UInt8) :
    ((write oamDmaAddress page b).answer = .ok () ↔
      page.toNat ≤ 0x1F ∨ 0x60 ≤ page.toNat ∧ b.cartridge ≠ none) ∧
    ((write oamDmaAddress page b).answer = .ok () → ∃ oam : Vector UInt8 256,
      (write oamDmaAddress page b).state =
        { b with picture := { b.picture with oam := oam }, dmaPending := true } ∧
      (∀ i < 256, (read (UInt16.ofNat (256 * page.toNat + i)) b).answer =
        .ok oam[(b.picture.oamAddress.toNat + i) % 256]) ∧
      (copyPage page b).answer = .ok () ∧
      (copyPage page b).state = { b with picture := { b.picture with oam := oam } }) := by
  have hsuccess : (write oamDmaAddress page b).answer = .ok () ↔ ¬b.PageRefused page := by
    change (oamDma page b).answer = .ok () ↔ ¬b.PageRefused page
    constructor
    · intro hok hrefused
      obtain ⟨e, he⟩ := (error_iff_of_refuses (refuses_oamDma page)).mpr hrefused
      rw [hok] at he
      cases he
    · intro hreadable
      obtain ⟨byte, hbyte⟩ := exists_pageHolds hreadable
      rw [oamDma_of_pageHolds hbyte]
  refine ⟨hsuccess.trans not_pageRefused_iff, ?_⟩
  -- a page that is not refused holds bytes, which both ways of copying find
  intro hok
  obtain ⟨byte, hbyte⟩ := exists_pageHolds (hsuccess.mp hok)
  have hlength : ((List.range 256).map byte).length = 256 := by
    rw [List.length_map, List.length_range]
  have hpicture := Picture.writeOamAll_of_page (p := b.picture) hlength
  refine ⟨(b.picture.writeOamAll ((List.range 256).map byte)).oam, ?_, ?_, ?_⟩
  · change (oamDma page b).state = _
    rw [oamDma_of_pageHolds hbyte, ← hpicture]
  · intro i hi
    rw [← pageAddress_eq page hi, hbyte i hi b.picture rfl,
      Picture.getElem_writeOamAll (le_of_eq hlength) (lt_of_lt_of_eq hi hlength.symm),
      List.getElem_map, List.getElem_range]
  · obtain ⟨es, hcopy⟩ := forM_copyByte hbyte (p := b.picture) rfl (l := List.range 256)
      fun i => List.mem_range.mp
    unfold copyPage
    rw [hcopy, ← hpicture]
    exact ⟨rfl, rfl⟩

/-- A sprite address near the end, and one byte of the first page that is not 0. -/
def wrapping : Bus :=
  { ram := (Vector.replicate 0x800 0).set 5 0x77, picture := { oamAddress := 0xFE } }

/-- The byte at 5 comes to lie at 3, two places from the end. -/
theorem transfer_copies_page_of_wrapping : (write oamDmaAddress 0 wrapping).answer = .ok () ∧
    ∃ oam : Vector UInt8 256, oam[3] = 0x77 ∧
      (write oamDmaAddress 0 wrapping).state =
        { wrapping with picture := { wrapping.picture with oam := oam }, dmaPending := true } ∧
      (copyPage 0 wrapping).state =
        { wrapping with picture := { wrapping.picture with oam := oam } } := by
  obtain ⟨hsuccess, hcopies⟩ := transfer_copies_page wrapping 0
  have hok := hsuccess.mpr (Or.inl (by decide))
  obtain ⟨oam, hstate, hbytes, -, hcopy⟩ := hcopies hok
  have hread : (read (UInt16.ofNat (256 * UInt8.toNat 0 + 5)) wrapping).answer = .ok 0x77 := rfl
  have hbyte := (hbytes 5 (by decide)).symm.trans hread
  exact ⟨hok, oam, Except.ok.inj hbyte, hstate, hcopy⟩

end Bus

end Famicom
