import Dynarec.Guest.Window

/-!
# Images

An `Image` is what instructions are decoded from: `size` bytes, indexed from guest address 0 on. It
is a function on indices, so a reader can only depend on the bytes it asks for; no byte at or past
`size` is ever asked for.
-/

namespace Dynarec.Guest

/-- A source of guest code. -/
structure Image where
  size : Nat
  byte : Nat → Byte

namespace Image

/-- The image that consists of the given bytes. -/
def ofArray (data : Array Byte) : Image := ⟨data.size, fun i => data.getD i 0⟩

/-- The image that consists of the given bytes. -/
def ofList (data : List Byte) : Image := ofArray data.toArray

/-- The first `count` bytes of an image. -/
def take (image : Image) (count : Nat) : Image := ⟨min count image.size, image.byte⟩

end Image

/-- The whole of guest memory as an image. -/
def Window.image (w : Window) : Image := ⟨0x10000, fun i => w.get (BitVec.ofNat 16 i)⟩

end Dynarec.Guest
