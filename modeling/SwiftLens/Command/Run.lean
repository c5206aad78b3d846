import SwiftLens.Helper.Attached
import SwiftLens.Inspection
import SwiftLens.Settings

/-!
# Running the program

A run reads its command line and settings, connects to the helper, carries out the command, and
disconnects whatever happened. Documents go to the output, everything else to the error output. A run
fails when the command cannot be carried out or a document cannot be printed; a session that cannot be
ended only gets a warning.

`Session.run` is the part between connecting and disconnecting, over any backend; `Program.run` is a
whole run on a host.
-/

namespace SwiftLens

/-- What a run has printed. -/
structure Console where
  /-- Whether notes for information are printed. -/
  verbose : Bool
  output : Text
  errors : Text
  deriving DecidableEq, Repr

namespace Console

/-- Nothing printed yet. -/
def blank (verbose : Bool) : Console := ⟨verbose, "", ""⟩

/-- Print a document. -/
def print (c : Console) (document : Text) : Console := { c with output := c.output ++ document ++ "\n" }

/-- Print a line of the error output. -/
def report (c : Console) (line : Text) : Console := { c with errors := c.errors ++ line ++ "\n" }

/-- Print a note. -/
def tell (c : Console) : Note → Console
  | .info text => if c.verbose then c.report text else c
  | .warning text => c.report ("WARN: " ++ text)

end Console

/-! ## Sessions -/

namespace Session

variable {σ : Type}

/-- An action of a backend, after which its notes are printed. -/
def noted {α : Type} (backend : Backend σ) (act : Action σ α) : Action (Console × σ) α := fun s =>
  match act s.2 with
  | (r, t) =>
    match backend.notes t with
    | (notes, t) => (r, (notes.foldl Console.tell s.1, t))

/-- A backend whose notes are printed as they come. -/
def printing (backend : Backend σ) : Backend (Console × σ) where
  connect := noted backend backend.connect
  uidOf name := noted backend (backend.uidOf name)
  nameOf uid := noted backend (backend.nameOf uid)
  respond request := noted backend (backend.respond request)
  disconnect := noted backend backend.disconnect
  notes s := ([], s)

/-- Tell the user something. -/
def tell (note : Note) : Action (Console × σ) Unit := Action.modify fun s => (s.1.tell note, s.2)

/-- Print a tree as a document. -/
def printTree (tree : Value) : Action (Console × σ) Unit := do
  let document ← Action.ofExcept ((Document.render 0 tree).mapError .document)
  Action.modify fun s => (s.1.print document, s.2)

/-- An inspection with no names found yet. -/
def inspect {α : Type} (act : Action (NameCache × (Console × σ)) α) : Action (Console × σ) α := fun s =>
  match act ([], s) with
  | (r, (_, s)) => (r, s)

/-- Print the documentation of a file. -/
def printDocs (docs : FileDocs) : Action (Console × σ) Unit := do
  tell (.info ("Documented " ++ docs.file))
  printTree (.dictionary docs.response)

/-- Carry out a command. -/
def carryOut (backend : Backend (Console × σ)) (sources : SourceReader (Console × σ)) :
    Command → Action (Console × σ) Unit
  | .outline file => do
    let tree ← inspect (Inspection.structureOf backend sources file)
    printTree (.dictionary tree)
  | .tokens file => do
    let tokens ← inspect (Inspection.tokensOf backend (.file file))
    printTree (.array (tokens.map Token.toValue))
  | .tokensOfText source => do
    let tokens ← inspect (Inspection.tokensOf backend (.text source))
    printTree (.array (tokens.map Token.toValue))
  | .docOffsets file => do
    let offsets ← inspect (Inspection.documentedOffsets backend sources file)
    printTree (.array (offsets.map .int64))
  | .docs compilerArgs => do
    let results ← inspect (Inspection.docs backend sources compilerArgs)
    if results.isEmpty then tell (.warning "No .swift files found among the compiler arguments.")
    else pure ()
    let _ ← Action.each printDocs results
    pure ()

/-- End a session; that it could not be ended is only worth a warning. -/
def leave (backend : Backend (Console × σ)) (s : Console × σ) : Console × σ :=
  match backend.disconnect s with
  | (.ok (), s) => s
  | (.error e, s) => (s.1.tell (.warning ("Bridge shutdown failed: " ++ e.format)), s.2)

/-- A session: the outcome of the command, and what has been printed when the session is over. -/
def run (backend : Backend σ) (sources : SourceReader σ) (command : Command) (s : Console × σ) :
    Except Fault Unit × (Console × σ) :=
  let backend := printing backend
  let act : Action (Console × σ) Unit := do
    backend.connect
    carryOut backend sources.second command
  match act s with
  | (r, s) => (r, leave backend s)

end Session

/-! ## Programs -/

/-- What the loading of a file of settings comes to. -/
structure Loading where
  /-- The environment after it. -/
  environment : Entries Text
  /-- What it has written to the output. -/
  output : Text

/-- What a run finds where it runs; `τ` is the state of the operating system. -/
structure Host (τ : Type) where
  /-- The working directory. -/
  directory : Text
  /-- The environment. -/
  environment : Entries Text
  /-- The library that loads a file of settings before anything else: what it makes of the words of the
  command line and of the environment. -/
  load : (words : List Text) → (environment : Entries Text) → Loading
  /-- The bytes of a file, or why it cannot be read. -/
  read : Text → Except SystemError Utf8.Bytes
  /-- The process of a command with its arguments and its environment. -/
  process : (command : Text) → (args : List Text) → (environment : Entries Text) → Launcher τ
  store : Store τ
  /-- The point in time at which the run begins. -/
  now : Int

namespace Program

variable {τ : Type}

/-- How the program is used. -/
def usage : Text :=
  "sourcekit-json\n\nUsage:\n  sourcekit-json --structure <file>\n  sourcekit-json --syntax <file>\n"
    ++ "  sourcekit-json --syntax-text <swift source>\n  sourcekit-json --doc-offsets <file>\n"
    ++ "  sourcekit-json [options] --docs <compiler arguments...>\n\nOptions:\n"
    ++ "  --bridge <path>      sourcekitd helper executable (default from SOURCEKIT_BRIDGE_PATH)\n"
    ++ "  --timeout-ms <num>   Per-request timeout (default from SOURCEKIT_TIMEOUT_MS)\n"
    ++ "  --audit              Record bridge traffic under the state directory\n"
    ++ "  --verbose            Print bridge diagnostics to stderr\n"
    ++ "  -h, --help           Show help\n"

/-- What a run has printed, and its exit code. -/
structure Outcome where
  output : Text
  errors : Text
  exitCode : Nat

/-- The journal of a run, if one is kept. -/
def journal? (host : Host τ) (settings : Settings) : Except Fault (Option Journal) :=
  if settings.audit then
    (Calendar.sessionId host.now).map fun session => some (Journal.ofSession settings.stateDir session)
  else .ok none

/-- The end of a run that has failed. -/
def fatal (c : Console) (e : Fault) : Outcome :=
  let c := c.report ("Fatal error: " ++ e.format)
  ⟨c.output, c.errors, 1⟩

/-- Run a command with a journal, or without one. -/
def runCommand (host : Host τ) (environment : Entries Text) (settings : Settings)
    (journal : Option Journal) (command : Command) (c : Console) (t : τ) : Outcome × τ :=
  let c := match journal with
    | some j => c.tell (.info ("Auditing bridge traffic to " ++ j.file))
    | none => c
  let attachment : Attachment τ :=
    { process := host.process settings.helper settings.helperArgs environment
      journal := journal
      store := host.store
      timeout := settings.timeout
      beginning := host.now }
  match Session.run attachment.backend (Sources.ofSystem host.read) command (c, attachment.begin t) with
  | (.ok (), (c, s)) => (⟨c.output, c.errors, 0⟩, s.2.outside)
  | (.error e, (c, s)) => (fatal c e, s.2.outside)

/-- Run the program. -/
def run (host : Host τ) (words : List Text) (t : τ) : Outcome × τ :=
  let loading := host.load words host.environment
  let options := Options.parse words
  let settings := Settings.load host.directory options loading.environment
  let c := { Console.blank settings.verbose with output := loading.output }
  if options.help then (⟨c.output ++ usage, "", 0⟩, t)
  else
    let c := (options.problems.map Note.warning).foldl Console.tell c
    match options.command with
    | none => (⟨c.output ++ usage, c.errors, 1⟩, t)
    | some command =>
      match journal? host settings with
      | .error e => (fatal c e, t)
      | .ok journal => runCommand host loading.environment settings journal command c t

end Program

end SwiftLens
