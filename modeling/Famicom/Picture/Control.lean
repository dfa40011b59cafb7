/-!
The bits of the picture unit's control, mask and status registers.
-/

namespace Famicom.Picture

namespace Control

/-- The step of the video address after each access to its data: along a row or down a column. -/
def addressStep (ctrl : UInt8) : UInt16 := if ctrl &&& 0x04 != 0 then 32 else 1

/-- The pattern table of sprites that are one tile high. -/
def spriteTable (ctrl : UInt8) : UInt16 := if ctrl &&& 0x08 != 0 then 0x1000 else 0

def backgroundTable (ctrl : UInt8) : UInt16 := if ctrl &&& 0x10 != 0 then 0x1000 else 0

def spriteHeight (ctrl : UInt8) : Nat := if ctrl &&& 0x20 != 0 then 16 else 8

def nmiEnabled (ctrl : UInt8) : Bool := ctrl &&& 0x80 != 0

end Control

namespace Mask

def greyscale (mask : UInt8) : Bool := mask &&& 0x01 != 0

/-- Whether the background is shown in the leftmost eight pixels. -/
def backgroundLeft (mask : UInt8) : Bool := mask &&& 0x02 != 0

/-- Whether sprites are shown in the leftmost eight pixels. -/
def spritesLeft (mask : UInt8) : Bool := mask &&& 0x04 != 0

def background (mask : UInt8) : Bool := mask &&& 0x08 != 0

def sprites (mask : UInt8) : Bool := mask &&& 0x10 != 0

/-- Rendering goes on as long as either layer is shown. -/
def rendering (mask : UInt8) : Bool := mask &&& 0x18 != 0

end Mask

namespace Status

def spriteOverflow : UInt8 := 0x20

def spriteZeroHit : UInt8 := 0x40

def vblank : UInt8 := 0x80

end Status

end Famicom.Picture
