import Famicom.Headless.Desk
import Famicom.Main
import Famicom.Proofs.Action
import Famicom.Proofs.Processor.Composed
import Famicom.Proofs.Processor.Stepping
import Famicom.Proofs.Cartridge
import Famicom.Proofs.Picture.Scroll
import Famicom.Proofs.Picture.Pattern
import Famicom.Proofs.Picture.Position
import Famicom.Proofs.Picture.Registers
import Famicom.Proofs.Bus
import Famicom.Proofs.Console.Clock
import Famicom.Proofs.Console.Frame
import Famicom.Proofs.Console.Idle
import Famicom.Proofs.Console.Request
import Famicom.Proofs.Console.Faults
import Famicom.Proofs.Console.Timing
import Famicom.Proofs.Picture.Dot
import Famicom.Proofs.Picture.Compositor
import Famicom.Proofs.Picture.Stream
import Famicom.Proofs.Picture.Tiles
import Famicom.Proofs.Picture.Pipeline
import Famicom.Proofs.Picture.Line
import Famicom.Proofs.Picture.Effect
import Famicom.Proofs.Picture.Colour
import Famicom.Proofs.Picture.Drawing
import Famicom.Proofs.Picture.Still
import Famicom.Proofs.Picture.Bounds
import Famicom.Proofs.Picture.Interrupt
import Famicom.Proofs.Picture.SpriteFetch
import Famicom.Proofs.Console.Completion
import Famicom.Proofs.Bus.Refusal
import Famicom.Proofs.Console.Transfer
import Famicom.Proofs.Cartridge.Image
import Famicom.Proofs.Console.Kept
import Famicom.Proofs.Console.Control
import Famicom.Proofs.Console.Debts
import Famicom.Proofs.Processor.Account
import Famicom.Proofs.Bits
import Famicom.Proofs.Processor.Nesting
import Famicom.Proofs.Picture.Flags
import Famicom.Proofs.Picture.History
import Famicom.Proofs.Picture.Layers
import Famicom.Proofs.Console.Jam
import Famicom.Proofs.Headless.Run
import Famicom.Proofs.Processor.Trace
import Famicom.Proofs.Processor.Flat
import Famicom.Proofs.Processor.MultiByte
import Famicom.Proofs.Processor.Combined
import Famicom.Proofs.Picture.SpriteLine
import Famicom.Proofs.Processor.Datasheet
import Famicom.Proofs.Processor.Completed
import Famicom.Proofs.Processor.Cost
import Famicom.Proofs.Bus.PageCopy
import Famicom.Proofs.Picture.Cells
import Famicom.Proofs.Bus.AddressSpace
import Famicom.Proofs.Bus.Ports
import Famicom.Proofs.Picture.ScrollWrites
import Famicom.Proofs.Picture.Upload
import Famicom.Proofs.Text
import Famicom.Proofs.Log.Spec
import Famicom.Proofs.Log.Request
import Famicom.Proofs.Log.Limit
import Famicom.Proofs.Headless.Delivery
import Famicom.Proofs.Frame.Json
