import SwiftLens.Action

/-!
# Readers of source text

Source text is read through a reader, which may have a state of its own: a file can change between one
reading and the next. A store of source files is a reader without a state.
-/

namespace SwiftLens

variable {σ δ : Type}

/-- A way to read source text; `σ` is its state. -/
structure SourceReader (σ : Type) where
  /-- The whole text of a file. -/
  whole : (file : Text) → Action σ Text
  /-- The text of a range of a file's bytes. -/
  range : (file : Text) → (offset length : Double) → Action σ Text

/-- The reader on the second part of a state. -/
def SourceReader.second (reader : SourceReader σ) : SourceReader (δ × σ) where
  whole file := (reader.whole file).second
  range file offset length := (reader.range file offset length).second

/-- A store of source files as a reader. -/
def Sources.reader (sources : Sources) : SourceReader σ where
  whole file := Action.ofExcept ((sources.readAll file).mapError .source)
  range file offset length := Action.ofExcept ((sources.readRange file offset length).mapError .source)

instance : Coe Sources (SourceReader σ) := ⟨Sources.reader⟩

end SwiftLens
