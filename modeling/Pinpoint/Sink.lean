/-!
# Sinks for text

A sink takes texts one after the other, and may refuse to take one. `Sink.limited` takes bytes until
it holds as many as it has room for: of the text that finds it full it takes what still fits, and it
refuses every text after that.
-/

namespace Pinpoint

/-- Something that text is written to, by the states that writing leaves it in. -/
structure Sink (σ : Type) where
  /-- The state after a text, and whether the whole text was taken. -/
  write : σ → String → σ × Bool

/-- The bytes a sink holds, and how many more it takes; one without a limit takes any number. -/
structure Bucket where
  held : ByteArray
  room : Option Nat

namespace Bucket

def empty (limit : Option Nat) : Bucket := ⟨ByteArray.empty, limit⟩

/-- Pours bytes in, as far as they fit. -/
def pour (b : Bucket) (bytes : ByteArray) : Bucket × Bool :=
  match b.room with
  | none => ({ b with held := b.held ++ bytes }, true)
  | some room =>
    if bytes.size ≤ room then (⟨b.held ++ bytes, some (room - bytes.size)⟩, true)
    else (⟨b.held ++ bytes.extract 0 room, some 0⟩, false)

end Bucket

namespace Sink

/-- A sink that takes bytes until it is full. -/
def limited : Sink Bucket := ⟨fun b text => b.pour text.toUTF8⟩

/-- A sink that takes every text. -/
def unlimited : Sink String := ⟨fun held text => (held ++ text, true)⟩

end Sink

end Pinpoint
