import Famicom.Proofs.Bus.Refusal
import Famicom.Proofs.Cartridge.Image
import Famicom.Proofs.Console.Kept

/-! The slots of the console over its requests. All parts of the console share the cartridge of the
image that was accepted last, and a request that is turned down may as well not have been made. -/

namespace Famicom

open Famicom.Action

namespace Picture

namespace VideoMemory

/-- The slot is empty, or it holds the cartridge of an image after some accesses, and the
mirroring is that of the image. -/
def Holds (image? : Option (Array UInt8)) (m : VideoMemory) : Prop :=
  match image? with
  | none => m.slot = none
  | some image => ∃ k us, Cartridge.ofImage image = .ok k ∧ m.cartridge = some (k.uses us) ∧
    m.mirroring = k.header.mirroring

variable {α : Type} {image? : Option (Array UInt8)} {addr : UInt16}

/-- Through whichever slot a cartridge is reached, the one in the picture unit's slot is changed
by accesses only. -/
theorem keeps_access {x : Action Cartridge.Fault Cartridge α} (u : Cartridge.Use)
    (hx : ∀ c, (x c).state = c.use u) (slot : Option Nat) :
    Keeps (Holds image?) (fun _ => True) (onSlot slot x) := by
  intro m hm
  refine onSlot_keeps (fun _ => ⟨hm, trivial⟩) fun c hc => ⟨?_, fun _ _ => trivial⟩
  cases image? with
  | none => exact hm
  | some image =>
    obtain ⟨k, us, hk, hslot, hmirroring⟩ := hm
    by_cases hown : m.slot = slot
    -- the access is one more in the list, whether or not the cartridge takes it
    · subst hown
      obtain rfl : k.uses us = c := Option.some.inj (hslot.symm.trans hc)
      refine ⟨k, us ++ [u], hk, ?_, hmirroring⟩
      rw [Cartridge.uses_concat, ← hx]
      exact cartridgeIn_replace_self hc
    · exact ⟨k, us, hk, (cartridgeIn_replace hc _).trans ((if_neg hown).trans hslot), hmirroring⟩

theorem keeps_write_of (addr : UInt16) (v : UInt8) :
    Keeps (Holds image?) (fun _ => True) (write addr v) := by
  unfold write
  dsimp only
  apply keeps_ite
  · intro _
    exact keeps_bind (keeps_view _)
      (keeps_access (.write .picture (addr &&& 0x3FFF) v) fun _ => rfl)
  intro _
  apply keeps_ite
  · exact fun _ => keeps_update fun m hm => by cases image? <;> exact hm
  · exact fun _ => keeps_update fun m hm => by cases image? <;> exact hm

theorem and_mask_of_lt (h : addr.toNat < 0x2000) : addr &&& 0x3FFF = addr := by
  rw [← UInt16.toNat_inj, toNat_and_mask]
  exact Nat.mod_eq_of_lt (lt_trans h (by decide))

/-- The pattern tables are the cartridge's. -/
theorem read_eq_pattern (h : addr.toNat < 0x2000) (m : VideoMemory) :
    m.read addr = m.pattern addr := by
  unfold VideoMemory.read
  dsimp only
  rw [and_mask_of_lt h, if_pos (UInt16.lt_iff_toNat_lt.mpr h)]

theorem write_eq_onSlot (h : addr.toNat < 0x2000) (v : UInt8) (m : VideoMemory) :
    write addr v m = onSlot m.slot (Cartridge.writePattern addr v) m := by
  unfold write
  simp only [and_mask_of_lt h]
  rw [if_pos (UInt16.lt_iff_toNat_lt.mpr h), onCartridge_eq]

end VideoMemory

variable {image? : Option (Array UInt8)}

theorem registerKeeps_holds :
    RegisterKeeps (fun p => p.memory.Holds image?) (fun _ => True) where
  status _ h := h
  buffer _ _ h := h
  stepAddress _ h := h
  control _ _ h := h
  mask _ _ h := h
  oamAddress _ _ h := h
  oam _ _ h := h
  scroll p _ h := by
    unfold writeScroll
    split <;> exact h
  address p _ h := by
    unfold writeAddress
    split <;> exact h
  readFault _ _ _ _ _ := trivial
  memory addr data := keeps_onMemory_of (VideoMemory.keeps_write_of addr data)

end Picture

theorem Bus.memoryKeeps_holds (image? : Option (Array UInt8)) :
    Bus.MemoryKeeps (Picture.VideoMemory.Holds image?) := fun slot => {
  refused _ _ := trivial
  readRegister addr := (Picture.registerKeeps_holds.readRegister addr).mono fun _ _ => trivial
  writeRegister addr v := (Picture.registerKeeps_holds.write addr v).mono fun _ _ => trivial
  writeOamAll _ bytes hp := Picture.registerKeeps_holds.writeOamAll hp bytes
  readCartridge _ _ _ _ _ _ := trivial
  writeCartridge addr v _ := Picture.keeps_onMemory_of
    (Picture.VideoMemory.keeps_access (.write .processor addr v) (fun _ => rfl) slot) }

namespace Console

/-- The image in the slot after a request. -/
def Request.slot (before : Option (Array UInt8)) : Request → Option (Array UInt8)
  | .insert image | .insertFile (.ok image) =>
    if (Cartridge.ofImage image).isOk then some image else before
  | .mount id image =>
    if id = "Cartridge" ∧ (Cartridge.ofImage image).isOk then some image else before
  | .eject => none
  | .unmount id => if id = "Cartridge" then none else before
  | .insertFile (.error _) | .powerUp | .runFrame | .stepFrame | .run _ | .press _ _
  | .release _ _ => before

def imageFault? (image : Array UInt8) : Option Fault :=
  match Cartridge.ofImage image with
  | .ok _ => none
  | .error e => some (.cartridge e)

/-- The fault with which a request is turned down, if it is. -/
def Request.rejection? (c : Console) : Request → Option Fault
  | .insert image | .insertFile (.ok image) => imageFault? image
  | .insertFile (.error reason) => some (.unreadable reason)
  | .mount id image =>
    if id = "Cartridge" then imageFault? image else some (.unknownMountPoint id)
  | .unmount id => if id = "Cartridge" then none else some (.unknownMountPoint id)
  | .powerUp | .run _ => if c.cartridge.isSome then none else some .noCartridge
  | .stepFrame => if c.powered || c.cartridge.isSome then none else some .noCartridge
  | .runFrame => if c.powered then none else some .notPoweredUp
  | .eject | .press _ _ | .release _ _ => none

/-- The image in the slot of a console after its requests. -/
def imageIn (rs : List Request) : Option (Array UInt8) := rs.foldl Request.slot none

/-- The frames that requests hand out one after another, and the console that they leave. -/
def serveAll (c : Console) : List Request → List Frame × Console
  | [] => ([], c)
  | r :: rs =>
    let served := r.serve c
    let rest := serveAll served.2.state rs
    (served.1 ++ rest.1, rest.2)

theorem serveAll_append (c : Console) (rs rs' : List Request) : serveAll c (rs ++ rs') =
    ((serveAll c rs).1 ++ (serveAll (serveAll c rs).2 rs').1,
      (serveAll (serveAll c rs).2 rs').2) := by
  induction rs generalizing c with
  | nil => rfl
  | cons r rs ih =>
    rw [List.cons_append, serveAll, serveAll, ih]
    simp only [List.append_assoc]

theorem reached_serveAll (rs : List Request) : Reached (serveAll {} rs).2 (serveAll {} rs).1 := by
  induction rs using List.reverseRecOn with
  | nil => exact .new
  | append_singleton rs r ih =>
    have hserved := ih.serve r
    rw [serveAll_append, serveAll, serveAll, List.append_nil]
    exact hserved

variable {c : Console} {image? : Option (Array UInt8)}

theorem handles_insert (h : c.picture.memory.Holds image?) (image : Array UInt8) :
    Handles (Picture.VideoMemory.Holds (Request.slot image? (.insert image))) c
      (imageFault? image) ([], Console.insert image c) := by
  unfold imageFault?
  rw [Request.slot]
  rcases hk : Cartridge.ofImage image with e | k
  · rw [insert_of_error hk]
    exact .refused _ h rfl
  · rw [insert_of_ok hk]
    refine .served ⟨k, [], hk, ?_, ?_⟩ fun e he => by cases he
    · exact Picture.VideoMemory.cartridgeIn_add _ _
    · exact Picture.VideoMemory.mirroring_insert _ _

theorem mount_of_ne {id : String} (h : id ≠ "Cartridge") (image : Array UInt8) (c : Console) :
    Console.mount id image c = ⟨.error (.unknownMountPoint id), c, []⟩ := by
  unfold Console.mount
  rw [Action.ite_apply, if_neg (show ¬id = cartridgeSlot.id from h)]
  rfl

/-- To mount an image is to insert it. -/
theorem mount_cartridge (image : Array UInt8) (c : Console) :
    Console.mount "Cartridge" image c =
      (do Console.insert image; .report (.mounted image.size) : Action Fault Console Unit) c := by
  unfold Console.mount
  rw [Action.ite_apply, if_pos (show "Cartridge" = cartridgeSlot.id from rfl)]

theorem unmount_of_ne {id : String} (h : id ≠ "Cartridge") (c : Console) :
    Console.unmount id c = ⟨.error (.unknownMountPoint id), c, []⟩ := by
  unfold Console.unmount
  rw [Action.ite_apply, if_neg (show ¬id = cartridgeSlot.id from h)]
  rfl

theorem handles_mount (h : c.picture.memory.Holds image?) (id : String) (image : Array UInt8) :
    Handles (Picture.VideoMemory.Holds (Request.slot image? (.mount id image))) c
      (Request.rejection? c (.mount id image)) ([], Console.mount id image c) := by
  rw [Request.rejection?]
  by_cases hid : id = "Cartridge"
  · have hinsert := handles_insert h image
    have hslot : Request.slot image? (.mount "Cartridge" image) =
        Request.slot image? (.insert image) := if_congr (and_iff_right rfl) rfl rfl
    rw [if_pos hid, hid, hslot, mount_cartridge]
    generalize imageFault? image = fault? at hinsert ⊢
    -- the report comes last, and only if the image has been accepted
    rcases hi : Console.insert image c with ⟨e | _, d, es⟩
    · rw [hi] at hinsert
      rw [bind_of_error hi]
      exact hinsert
    · rw [hi] at hinsert
      rw [bind_of_ok hi]
      cases hinsert with
      | served hm _ => exact .served hm fun e he => by cases he
  · rw [if_neg hid, mount_of_ne hid, Request.slot, if_neg fun hboth => hid hboth.1]
    exact .refused [] h rfl

theorem handles_unmount (h : c.picture.memory.Holds image?) (id : String) :
    Handles (Picture.VideoMemory.Holds (Request.slot image? (.unmount id))) c
      (Request.rejection? c (.unmount id)) ([], Console.unmount id c) := by
  rw [Request.rejection?, Request.slot]
  by_cases hid : id = "Cartridge"
  · rw [if_pos hid, if_pos hid, hid]
    exact .served rfl fun e he => by cases he
  · rw [if_neg hid, if_neg hid, unmount_of_ne hid]
    exact .refused [] h rfl

/-- A request puts its image into the slot if it is accepted. If it is turned down, it hands out
nothing and leaves the whole console as it was. -/
theorem handles_serve (h : c.picture.memory.Holds image?) (r : Request) :
    Handles (Picture.VideoMemory.Holds (r.slot image?)) c (r.rejection? c) (r.serve c) := by
  have hkeeps := Bus.memoryKeeps_holds image?
  cases r with
  | insert image => exact handles_insert h image
  | insertFile contents =>
    cases contents with
    | error reason => exact .refused [] h rfl
    | ok image => exact handles_insert h image
  | eject => exact .served rfl fun e he => by cases he
  | mount id image => exact handles_mount h id image
  | unmount id => exact handles_unmount h id
  | powerUp => exact handles_powerUp hkeeps h
  | runFrame => exact handles_runFrame hkeeps h
  | stepFrame => exact handles_stepFrame hkeeps h
  | run n => exact handles_run hkeeps n h
  | press player button =>
    refine .served ?_ fun e he => by cases he
    cases player <;> exact h
  | release player button =>
    refine .served ?_ fun e he => by cases he
    cases player <;> exact h

theorem holds_serveAll (rs : List Request) :
    (serveAll {} rs).2.picture.memory.Holds (imageIn rs) := by
  unfold imageIn
  -- the induction is from the end, where the request that is served last stands
  induction rs using List.reverseRecOn with
  | nil => rfl
  | append_singleton rs r ih =>
    have hserved := (handles_serve ih r).memory
    rw [serveAll_append, serveAll, serveAll, List.foldl_append]
    exact hserved

/-- The slots of all parts of the console are empty, and so they find them. -/
structure Vacant (c : Console) : Prop where
  slot_eq : c.slot = none
  processor_slot_eq : c.bus.slot = none
  picture_slot_eq : c.picture.memory.slot = none
  header?_eq : c.header? = none
  isMounted_eq : c.isMounted "Cartridge" = false
  powered_eq : c.powered = false
  read_eq : ∀ addr : UInt16, 0x6000 ≤ addr.toNat →
    (Bus.read addr c.bus).answer = .error .noCartridge
  readPattern_eq : ∀ addr : UInt16, addr.toNat < 0x2000 →
    c.picture.memory.read addr = .error .noCartridge

/-- All parts of the console have one cartridge in their slots, which is `k` now. -/
structure Shares (k : Cartridge) (c : Console) : Prop extends c.Wired where
  cartridge_eq : c.cartridge = some k
  processor_eq : c.bus.cartridge = some k
  picture_eq : c.picture.memory.cartridge = some k

/-- The cartridge `k` is in the slots. What either side of the console reads is the cartridge's
answer, and what either side writes all parts find in it. -/
structure Occupied (k : Cartridge) (c : Console) : Prop extends Shares k c where
  header?_eq : c.header? = some k.header
  isMounted_eq : c.isMounted "Cartridge" = true
  mirroring_eq : c.picture.memory.mirroring = k.header.mirroring
  read_eq : ∀ addr : UInt16, 0x6000 ≤ addr.toNat →
    (Bus.read addr c.bus).answer = (k.read addr).mapError .cartridge
  write_eq : ∀ (addr : UInt16) (v : UInt8), 0x6000 ≤ addr.toNat →
    Shares (k.use (.write .processor addr v)) (onBus (Bus.write addr v) c).state
  readPattern_eq : ∀ addr : UInt16, addr.toNat < 0x2000 →
    c.picture.memory.read addr = (k.readPattern addr).mapError .cartridge
  writePattern_eq : ∀ (addr : UInt16) (v : UInt8), addr.toNat < 0x2000 →
    Shares (k.use (.write .picture addr v))
      (onBus (Bus.onPicture (Picture.onMemory (Picture.VideoMemory.write addr v))) c).state

theorem vacant_of_wired (hw : c.Wired) (h : c.picture.memory.slot = none)
    (hp : c.powered = false) : c.Vacant := by
  have hslot : c.slot = none := hw.memory_slot.trans h
  have hown : c.cartridge = none := congrArg c.picture.memory.cartridgeIn hslot
  have hbus : c.bus.cartridge = none := hw.bus_cartridge.trans hown
  have hmemory : c.picture.memory.cartridge = none := hw.memory_cartridge.trans hown
  exact {
    slot_eq := hslot
    processor_slot_eq := hw.bus.trans h
    picture_slot_eq := h
    header?_eq := by
      rw [header?, hown]
      rfl
    isMounted_eq := by
      rw [isMounted, hown]
      rfl
    powered_eq := hp
    read_eq := fun addr ha => by
      rw [Bus.read_eq_inspect fun hlt => Nat.not_lt.mpr ha (UInt16.lt_iff_toNat_lt.mp hlt),
        inspect_apply, Bus.readCartridge, hbus]
    readPattern_eq := fun addr ha => by
      rw [Picture.VideoMemory.read_eq_pattern ha, Picture.VideoMemory.pattern, hmemory] }

theorem shares_of_wired {k : Cartridge} (hw : c.Wired) (h : c.picture.memory.cartridge = some k) :
    c.Shares k :=
  have hown : c.cartridge = some k := hw.memory_cartridge.symm.trans h
  { hw with cartridge_eq := hown, processor_eq := hw.bus_cartridge.trans hown, picture_eq := h }

section

variable {α : Type}

theorem state_onBus (y : Action Bus.Fault Bus α) (c : Console) : (onBus y c).state =
    { c with processor := { c.processor with memory := (y c.bus).state } } := by
  rw [bus]
  unfold onBus
  dsimp only
  rcases y c.processor.memory with ⟨e | a, b, es⟩
  · rfl
  · rfl

/-- What is done to the cartridge in one slot all parts of the console find done. -/
theorem shares_onSlot {k : Cartridge} (h : c.Shares k) (x : Action Cartridge.Fault Cartridge α) :
    Shares (x k).state (c.withPicture { c.picture with
      memory := (Picture.VideoMemory.onSlot c.picture.memory.slot x c.picture.memory).state }) := by
  rw [Picture.VideoMemory.onSlot_of_full h.picture_eq]
  exact shares_of_wired ⟨h.slot_eq, h.bus⟩
    (Picture.VideoMemory.cartridgeIn_replace_self h.picture_eq)

end

theorem occupied_of_wired {k : Cartridge} (hw : c.Wired) (h : c.picture.memory.cartridge = some k)
    (hm : c.picture.memory.mirroring = k.header.mirroring) : c.Occupied k := by
  have hshares := shares_of_wired hw h
  -- what each part answers follows from the cartridge that its own slot leads to
  exact { hshares with
    header?_eq := by
      rw [header?, hshares.cartridge_eq]
      rfl
    isMounted_eq := by
      rw [isMounted, hshares.cartridge_eq]
      rfl
    mirroring_eq := hm
    read_eq := fun addr ha => by
      rw [Bus.read_eq_inspect fun hlt => Nat.not_lt.mpr ha (UInt16.lt_iff_toNat_lt.mp hlt),
        inspect_apply, Bus.readCartridge, hshares.processor_eq]
    write_eq := fun addr v ha => by
      rw [state_onBus, Bus.write_eq_onSlot ha, hw.bus]
      exact shares_onSlot hshares (Cartridge.write addr v)
    readPattern_eq := fun addr ha => by
      rw [Picture.VideoMemory.read_eq_pattern ha, Picture.VideoMemory.pattern, h]
    writePattern_eq := fun addr v ha => by
      have hwrite := Picture.VideoMemory.write_eq_onSlot ha v c.picture.memory
      have hwritten := shares_onSlot hshares (Cartridge.writePattern addr v)
      rw [← hwrite] at hwritten
      rw [state_onBus]
      exact hwritten }

/-- The slots follow the requests. All of them are empty while no image is in them, and the power is
then off; otherwise all parts of the console share the cartridge of the image that was accepted
last. A request is turned down for a reason of its own, and leaves the console as it was, so that
everything goes on as if it had not been made. -/
theorem slot_follows_requests (rs : List Request) :
    (imageIn rs = none → (serveAll {} rs).2.Vacant) ∧
    (∀ image, imageIn rs = some image → ∃ k us, Cartridge.ofImage image = .ok k ∧
      (serveAll {} rs).2.Occupied (k.uses us)) ∧
    ∀ (r : Request) (e : Fault),
      ((r.serve (serveAll {} rs).2).2.answer = .error e ∧ e.isRejection ↔
        r.rejection? (serveAll {} rs).2 = some e) ∧
      (r.rejection? (serveAll {} rs).2 = some e →
        (r.serve (serveAll {} rs).2).1 = [] ∧
        (r.serve (serveAll {} rs).2).2.state = (serveAll {} rs).2 ∧
        ∀ rs', serveAll {} (rs ++ r :: rs') = serveAll {} (rs ++ rs')) := by
  have hholds := holds_serveAll rs
  have hsound := (sound_of_reached (reached_serveAll rs)).1
  refine ⟨?_, ?_, ?_⟩
  · intro hnone
    rw [hnone] at hholds
    refine vacant_of_wired hsound.wired hholds (eq_false_of_ne_true fun hp => ?_)
    -- the power is never on without a cartridge
    have hfull := hsound.cartridge_of_powered hp
    rw [cartridge, hsound.wired.memory_slot, show _ = none from hholds] at hfull
    cases hfull
  · intro image himage
    rw [himage] at hholds
    obtain ⟨k, us, hk, hslot, hmirroring⟩ := hholds
    refine ⟨k, us, hk, occupied_of_wired hsound.wired hslot ?_⟩
    rw [Cartridge.header_uses]
    exact hmirroring
  · intro r e
    have hhandles := handles_serve hholds r
    refine ⟨hhandles.rejected_iff e, ?_⟩
    intro he
    obtain ⟨hnone, hsame⟩ := hhandles.unchanged he
    refine ⟨hnone, hsame, ?_⟩
    intro rs'
    rw [serveAll_append, serveAll_append, serveAll, hnone, hsame, List.nil_append]

/-- An image is inserted, and a request for another slot is turned down. -/
theorem slot_follows_requests_of_plain : ∃ image k us, Cartridge.ofImage image = .ok k ∧
    (serveAll {} []).2.Vacant ∧ (serveAll {} [.insert image]).2.Occupied (k.uses us) ∧
    serveAll {} [.insert image, .mount "Tape" image, .stepFrame] =
      serveAll {} [.insert image, .stepFrame] := by
  have hk := Cartridge.ofImage_plainImage (.replicate 0x4000 0) (.replicate 0x2000 0)
  generalize Cartridge.plainImage _ _ = image at hk
  have himage : imageIn [.insert image] = some image := by
    unfold imageIn
    rw [List.foldl_cons, Request.slot, hk]
    rfl
  obtain ⟨hvacant, -⟩ := slot_follows_requests []
  obtain ⟨-, hoccupied, hrejected⟩ := slot_follows_requests [.insert image]
  obtain ⟨k, us, hk', hc⟩ := hoccupied image himage
  obtain ⟨-, hrest⟩ := hrejected (.mount "Tape" image) (.unknownMountPoint "Tape")
  obtain ⟨-, -, hsame⟩ := hrest (by rw [Request.rejection?, if_neg (by decide)])
  exact ⟨image, k, us, hk', hvacant rfl, hc, hsame [.stepFrame]⟩

end Console

end Famicom
