import Famicom.Frame.Basic
import Famicom.Json.Value

/-!
Frames as JSON: an object of width, height and pixels. The reader also takes the three as an
array, takes the members of the object in any order and passes over members that it does not know.
-/

namespace Famicom.Frame

/-- How frames are kept as JSON: how values are written and read, and which value a frame is. -/
structure Codec where
  print : Json.Value → String
  parse : String → Option Json.Value
  toValue : Frame → Json.Value
  ofValue : Json.Value → Option Frame

namespace Codec

def encode (c : Codec) (f : Frame) : String := c.print (c.toValue f)

def decode (c : Codec) (text : String) : Option Frame := c.parse text >>= c.ofValue

end Codec

/-- The values of the fields of a frame, under their names. -/
def fields (f : Frame) : List (List Char × Json.Value) :=
  [("width".toList, Json.numberOf f.width.toNat), ("height".toList, Json.numberOf f.height.toNat),
    ("pixels".toList, .array (f.pixels.toList.map fun p => Json.numberOf p.toNat))]

/-- The only member with a key; a key that is missing or given twice has none. -/
def member? (members : List (List Char × Json.Value)) (key : String) : Option Json.Value :=
  match members.filter (·.1 = key.toList) with
  | [(_, v)] => some v
  | _ => none

def ofFields? (width height pixels : Json.Value) : Option Frame := do
  let width ← width.nat? UInt32.size
  let height ← height.nat? UInt32.size
  let pixels ← (← pixels.elements?).mapM (·.nat? UInt8.size)
  return ⟨.ofNat width, .ofNat height, (pixels.map UInt8.ofNat).toArray⟩

def ofValue? : Json.Value → Option Frame
  | .array [width, height, pixels] => ofFields? width height pixels
  | .object members => do
    let members ← members.mapM fun (key, v) => (Json.decode key).map (·, v)
    ofFields? (← member? members "width") (← member? members "height")
      (← member? members "pixels")
  | _ => none

def codec : Codec where
  print := Json.Value.print
  parse text := Json.parse text.toList
  toValue f := .object f.fields
  ofValue := ofValue?

end Famicom.Frame
