/-!
Finished pictures: a colour number for each pixel, row by row.
-/

namespace Famicom

/-- The number of pixels need not be that of the size. -/
structure Frame where
  width : UInt32
  height : UInt32
  pixels : Array UInt8
deriving DecidableEq, Repr

namespace Frame

/-- A frame in colour 0. -/
def blank (width height : UInt32) : Frame :=
  ⟨width, height, .replicate (width.toNat * height.toNat) 0⟩

/-- The colour at a place, if it lies in the frame and has a pixel. -/
def pixel? (f : Frame) (x y : UInt32) : Option UInt8 :=
  if x < f.width ∧ y < f.height then f.pixels[y.toNat * f.width.toNat + x.toNat]? else none

end Frame

end Famicom
