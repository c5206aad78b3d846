import SwiftLens.Labelling
import SwiftLens.Token.Documented
import SwiftLens.Token.Named

/-!
# Inspections

What can be asked about Swift files: the structure of a file, its tokens, the documentation of the
files among compiler arguments, and the offsets of a file's documented identifiers. All inspections of
one session share the names that were found.
-/

namespace SwiftLens

/-- Whether a path is that of a Swift file. -/
def isSwiftFile (path : Text) : Bool := path.endsWith ".swift"

/-- The Swift files among compiler arguments, in order. -/
def swiftFiles (compilerArgs : List Text) : List Text := compilerArgs.filter isSwiftFile

/-- The documentation of a file. -/
structure FileDocs where
  file : Text
  response : Entries Value

namespace Inspection

variable {σ : Type}

/-- The response to opening a source, which has to be a dictionary. -/
def openSource (backend : Backend σ) (source : SourceInput) : Action σ (Entries Value) := do
  let request ← Request.openSource backend source
  match ← backend.respond request with
  | .dictionary response => pure response
  | found => Action.fail (.notDictionary found)

/-- The table of tokens in a response. -/
def tokenBytes (response : Entries Value) : Except Fault Utf8.Bytes :=
  match response.get? Key.syntaxMap with
  | some (.data bytes) => .ok bytes
  | found => .error (.noTokens found)

/-- A response labelled: the tree that is left, and the failure that stopped the walk if one did. -/
def labelled (guide : Guide σ) (response : Entries Value) : Action (NameCache × σ) (Entries Value) :=
  fun s =>
    match Labelling.label guide (response, s) with
    | (.ok (), (tree, s)) => (.ok tree, s)
    | (.error e, (_, s)) => (.error e, s)

/-- The structure of a file. -/
def structureOf (backend : Backend σ) (sources : SourceReader σ) (file : Text) :
    Action (NameCache × σ) (Entries Value) := do
  let response ← (openSource backend (.file file)).second
  labelled ⟨backend.nameOf, none, sources⟩ (response.erase Key.syntaxMap)

/-- The tokens of a source. -/
def tokensOf (backend : Backend σ) (source : SourceInput) : Action (NameCache × σ) (List Token) := do
  let response ← (openSource backend source).second
  let bytes ← Action.ofExcept (tokenBytes response)
  Token.readAll backend.nameOf bytes

/-- The documentation of one file, with a cursor query at hand. -/
def fileDocs (backend : Backend σ) (sources : SourceReader σ) (file : Text) :
    Action (NameCache × (CursorQuery × σ)) FileDocs := do
  Action.modify fun s => (s.1, (s.2.1.setSourceFile file, s.2.2))
  let response ← (openSource backend (.file file)).second.second
  let tree ← labelled
    ⟨fun uid => (backend.nameOf uid).second, some (CursorQuery.supplement backend), sources.second⟩
    (response.erase Key.syntaxMap)
  pure ⟨file, tree⟩

/-- The documentation of the Swift files among compiler arguments. -/
def docs (backend : Backend σ) (sources : SourceReader σ) (compilerArgs : List Text) :
    Action (NameCache × σ) (List FileDocs) := do
  let query ← (CursorQuery.create backend compilerArgs).second
  Action.withLocal query (Action.each (fileDocs backend sources) (swiftFiles compilerArgs))

/-- The offsets of the documented identifiers of a file. -/
def documentedOffsets (backend : Backend σ) (sources : SourceReader σ) (file : Text) :
    Action (NameCache × σ) (List Int) := do
  let response ← (openSource backend (.file file)).second
  let bytes ← Action.ofExcept (tokenBytes response)
  let identifiers ← Token.identifierOffsets backend.nameOf bytes
  let source ← (sources.whole file).second
  pure (Documented.offsets source identifiers)

end Inspection

end SwiftLens
