import Famicom.Bus
import Famicom.Frame.Basic
import Famicom.Processor.Clock
import Famicom.Text.Quoted

/-!
The console: a processor on the console's bus. In each clock the processor has one cycle and the
picture unit three dots.
-/

namespace Famicom

structure Console where
  processor : Processor Bus := .powerOn {}
  /-- The number of the cartridge that has been put in. -/
  slot : Option Nat := none
  powered : Bool := false

inductive Console.Fault
  | cartridge (fault : Cartridge.Fault)
  | processor (fault : Processor.Fault Bus.Fault)
  | bus (fault : Bus.Fault)
  | noCartridge
  | notPoweredUp
  | unknownMountPoint (id : String)
  | unreadable (reason : String)
deriving DecidableEq, Repr

def Console.Fault.message : Console.Fault → String
  | .cartridge fault => fault.message
  | .processor fault => fault.message Bus.Fault.message
  | .bus fault => fault.message
  | .noCartridge => "no cartridge inserted"
  | .notPoweredUp => "console has not been powered up"
  | .unknownMountPoint id => s!"unknown mount point {Text.quote id}"
  | .unreadable reason => s!"failed to read ROM: {reason}"

/-- A place where media can be put in. -/
structure MountPoint where
  id : String
  name : String
  extensions : List String
  required : Bool
deriving DecidableEq, Repr

namespace Console

def bus (c : Console) : Bus := c.processor.memory

def picture (c : Console) : Picture := c.bus.picture

def cartridge (c : Console) : Option Cartridge := c.picture.memory.cartridgeIn c.slot

def header? (c : Console) : Option Header := c.cartridge.map (·.header)

def frameCount (c : Console) : Nat := c.picture.frameCount

variable {α : Type}

@[inline] def onProcessor (x : Action (Processor.Fault Bus.Fault) (Processor Bus) α) :
    Action Fault Console α :=
  fun ⟨processor, slot, powered⟩ =>
    match x processor with
    | ⟨.ok a, processor, es⟩ => ⟨.ok a, ⟨processor, slot, powered⟩, es⟩
    | ⟨.error e, processor, es⟩ => ⟨.error (.processor e), ⟨processor, slot, powered⟩, es⟩

@[inline] def onBus (x : Action Bus.Fault Bus α) : Action Fault Console α :=
  fun ⟨⟨registers, cycles, pending, stall, memory⟩, slot, powered⟩ =>
    match x memory with
    | ⟨.ok a, memory, es⟩ =>
      ⟨.ok a, ⟨⟨registers, cycles, pending, stall, memory⟩, slot, powered⟩, es⟩
    | ⟨.error e, memory, es⟩ =>
      ⟨.error (.bus e), ⟨⟨registers, cycles, pending, stall, memory⟩, slot, powered⟩, es⟩

/-- Puts a cartridge into the slots of all parts and turns the power off, unless the image is
refused. -/
def insert (image : Array UInt8) : Action Fault Console Unit := fun c =>
  let es := Cartridge.loadEvents image
  match Cartridge.ofImage image with
  | .error e => ⟨.error (.cartridge e), c, es⟩
  | .ok cartridge =>
    let number := c.bus.nextNumber
    match onBus (.update fun b => (b.add cartridge).connect number) c with
    | ⟨answer, c, _⟩ => ⟨answer, { c with slot := some number, powered := false }, es⟩

/-- Inserts the contents of a file, which may not be readable. -/
def insertFile : Except String (Array UInt8) → Action Fault Console Unit
  | .error reason => .fail (.unreadable reason)
  | .ok image => insert image

def eject : Action Fault Console Unit := do
  onBus (.update (·.eject))
  .update fun c => { c with slot := none, powered := false }

/-- Starts the processor from the reset vector of the cartridge. -/
def powerUp : Action Fault Console Unit := do
  if ← .view (·.cartridge.isNone) then
    .fail .noCartridge
  onProcessor Processor.reset
  .update fun c => { c with powered := true }

/-- The stall for a transfer that the processor's last cycle asked for. -/
def serveDma : Action (Processor.Fault Bus.Fault) (Processor Bus) Unit := do
  if ← Processor.onMemory Bus.takeDma then
    .update Processor.transfer

/-- One cycle of the processor. -/
def clockProcessor : Action (Processor.Fault Bus.Fault) (Processor Bus) Unit := fun p =>
  match Processor.cycle p with
  | ⟨.ok (), p, es⟩ =>
    match serveDma p with
    | ⟨answer, p, es'⟩ => ⟨answer, p, es ++ es'⟩
  | ⟨.error e, p, es⟩ =>
    let pc := p.registers.pc
    ⟨.error e, p, es ++ [.halted pc e]⟩

/-- One dot of the picture unit, and the interrupt that it may raise. -/
def clockPicture : Action Fault Console Unit := do
  onBus (Bus.onPicture Picture.tick)
  if ← onBus (Bus.onPicture Picture.takeNmi) then
    onProcessor Processor.nmi

def clock : Action Fault Console Unit := do
  onProcessor clockProcessor
  clockPicture
  clockPicture
  clockPicture

def frameOf (pixels : Vector UInt8 (Picture.width * Picture.height)) : Frame :=
  { width := 256, height := 240, pixels := pixels.toArray }

/-- The frame that has been completed, if there is one. -/
def takeFrame : Action Fault Console (Option Frame) := do
  let pixels ← onBus (Bus.onPicture Picture.takeFrame)
  return pixels.map frameOf

/-- Clocks until a frame is complete, at most `n + 1` times, after the events of the past. The
picture as it stands is answered if that does not suffice. -/
def clockUntilFrame (n : Nat) (past : Array Event) (c : Console) : Outcome Fault Console Frame :=
  match (do clock; takeFrame : Action Fault Console (Option Frame)) c with
  | ⟨.error e, c, es⟩ => ⟨.error e, c, (past ++ es).toList⟩
  | ⟨.ok (some frame), c, es⟩ => ⟨.ok frame, c, (past ++ es).toList⟩
  | ⟨.ok none, c, es⟩ =>
    match n with
    | 0 => ⟨.ok (frameOf c.picture.pixels), c, (past ++ es).toList⟩
    | n + 1 => clockUntilFrame n (past ++ es) c

/-- Runs until the picture unit completes a frame. Three dots pass in each clock, so the dots left
say how many clocks are needed. -/
def runFrame : Action Fault Console Frame := fun c =>
  if c.powered then
    let n := c.picture.dotsLeft / 3
    clockUntilFrame n #[] c
  else ⟨.error .notPoweredUp, c, []⟩

/-- The frames of up to `n` runs, and how the last run ended. -/
def runFrames : Nat → Console → List Frame × Outcome Fault Console Unit
  | 0, c => ([], ⟨.ok (), c, []⟩)
  | n + 1, c =>
    match runFrame c with
    | ⟨.error e, c, es⟩ => ([], ⟨.error e, c, es⟩)
    | ⟨.ok frame, c, es⟩ =>
      let (frames, rest) := runFrames n c
      (frame :: frames, { rest with events := es ++ rest.events })

/-- Powers up and runs for `n` frames. -/
def run (n : Nat) (c : Console) : List Frame × Outcome Fault Console Unit :=
  match powerUp c with
  | ⟨.error e, c, es⟩ => ([], ⟨.error e, c, es⟩)
  | ⟨.ok (), c, es⟩ =>
    let (frames, rest) := runFrames n c
    (frames, { rest with events := es ++ rest.events })

/-- Runs for a frame, after powering up if that has not been done. -/
def stepFrame : Action Fault Console Frame := do
  unless ← .view (·.powered) do
    powerUp
  runFrame

def press (player : Player) (button : Button) (c : Console) : Console :=
  (onBus (Bus.onController player (.update (·.press button))) c).state

def release (player : Player) (button : Button) (c : Console) : Console :=
  (onBus (Bus.onController player (.update (·.release button))) c).state

def cartridgeSlot : MountPoint :=
  { id := "Cartridge", name := "Cartridge Slot", extensions := ["nes"], required := true }

def mountPoints : List MountPoint := [cartridgeSlot]

def mount (id : String) (image : Array UInt8) : Action Fault Console Unit :=
  if id = cartridgeSlot.id then do
    insert image
    .report (.mounted image.size)
  else
    .fail (.unknownMountPoint id)

def unmount (id : String) : Action Fault Console Unit :=
  if id = cartridgeSlot.id then eject else .fail (.unknownMountPoint id)

def isMounted (c : Console) (id : String) : Bool :=
  id = cartridgeSlot.id && c.cartridge.isSome

end Console

end Famicom
