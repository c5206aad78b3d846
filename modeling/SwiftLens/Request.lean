import SwiftLens.Backend

/-!
# Requests

Two requests are made: one opens a file or a text, and one asks what stands at an offset. The second
is a template, made once for a list of compiler arguments; only its file and its offset change between
one use and the next.
-/

namespace SwiftLens

/-- Where source text comes from. -/
inductive SourceInput where
  /-- A file. -/
  | file (path : Text)
  /-- The text itself. -/
  | text (source : Text)
  deriving DecidableEq, Repr

namespace Request

variable {σ : Type}

/-- The request, under the given identifier, that opens a source. -/
def opening (uid : Int) : SourceInput → Entries Value
  | .file path => [(Key.request, .uint64 uid), (Key.name, .string ""), (Key.sourceFile, .string path)]
  | .text source => [(Key.request, .uint64 uid), (Key.name, .string ""), (Key.sourceText, .string source)]

/-- The request that opens a source, its identifier asked of the backend. -/
def openSource (backend : Backend σ) (source : SourceInput) : Action σ (Entries Value) := do
  let uid ← backend.uidOf Kind.openRequest
  pure (opening uid source)

end Request

/-- A request for what stands at an offset: a dictionary that is used again and again. -/
abbrev CursorQuery := Entries Value

namespace CursorQuery

variable {σ : Type}

/-- The template, under the given identifier, for a list of compiler arguments. -/
def template (uid : Int) (compilerArgs : List Text) : CursorQuery :=
  [(Key.request, .uint64 uid), (Key.compilerArgs, .array (compilerArgs.map .string))]

/-- The template for a list of compiler arguments, its identifier asked of the backend. -/
def create (backend : Backend σ) (compilerArgs : List Text) : Action σ CursorQuery := do
  let uid ← backend.uidOf Kind.cursorRequest
  pure (template uid compilerArgs)

/-- The file that is asked about. -/
def sourceFile? (q : CursorQuery) : Option Text := q.string? Key.sourceFile

/-- Ask about a file from now on. -/
def setSourceFile (q : CursorQuery) (file : Text) : CursorQuery := Entries.set Key.sourceFile (.string file) q

/-- Ask about an offset from now on. -/
def setOffset (q : CursorQuery) (offset : Int) : CursorQuery := Entries.set Key.offset (.int64 offset) q

/-- Send the template as it stands; only a dictionary counts as an answer. -/
def send (backend : Backend σ) : Action (CursorQuery × σ) (Option Value) := do
  let q ← Action.read Prod.fst
  let reply ← (backend.respond q).second
  pure (if reply.isDictionary then some reply else none)

end CursorQuery

end SwiftLens
