import SwiftLens.Helper.Lines
import SwiftLens.Helper.Link
import SwiftLens.Text.Stream

/-!
# The channel to the helper's process

A channel turns a process into something that lines can be sent to and signals come from. While a
process runs, starting another is nothing to do; when none runs, nothing can be sent and there is
nothing to close. A process that fails to start, or that ends, leaves the channel without a process.

Lines travel as UTF-8. What the process writes to its output is decoded as one stream; what it writes to
its error output is decoded piece by piece, so that a character cut in two is lost there.
-/

namespace SwiftLens

/-- What a process does. -/
inductive ProcessEvent where
  /-- It writes to its output. -/
  | output (bytes : Utf8.Bytes)
  /-- It writes to its error output. -/
  | diagnostics (bytes : Utf8.Bytes)
  /-- It could not be run. -/
  | failed (message : Text)
  /-- It has ended and its output is read. -/
  | closed (code : Option Int)
  deriving DecidableEq, Repr

/-- What a channel needs of the operating system, whose state is a `τ`. -/
structure Launcher (τ : Type) where
  /-- Run the process. -/
  spawn : Action τ Unit
  /-- Write to its input. -/
  write : Utf8.Bytes → τ → τ
  /-- End its input. -/
  finish : τ → τ
  /-- What the process has done since this was last asked. -/
  poll : τ → List ProcessEvent × τ

/-- A channel: whether a process runs, and the character and the line that its output has begun. -/
structure Channel where
  running : Bool
  stream : Utf8.Stream
  lines : Lines
  deriving DecidableEq, Repr

namespace Channel

variable {τ : Type}

/-- A channel without a process. -/
def idle : Channel := ⟨false, Utf8.Stream.fresh, Lines.fresh⟩

/-- Run a process, unless one runs. -/
def start (process : Launcher τ) : Action (Channel × τ) Unit := do
  if ← Action.read fun s => s.1.running then pure ()
  else do
    process.spawn.second
    Action.modify fun s => ({ idle with running := true }, s.2)

/-- Send a line to the process. -/
def send (process : Launcher τ) (line : Text) : Action (Channel × τ) Unit := do
  if ← Action.read fun s => s.1.running then
    Action.modify fun s => (s.1, process.write (Utf8.encode (line ++ "\n")) s.2)
  else Action.fail (.outside "Bridge process is not running.")

/-- Tell the process that nothing more will be sent. -/
def close (process : Launcher τ) : Action (Channel × τ) Unit :=
  Action.modify fun s => if s.1.running then (s.1, process.finish s.2) else s

/-- Hear what the process does. -/
def hear (c : Channel) : ProcessEvent → List Signal × Channel
  | .output bytes =>
    match c.stream.feed bytes with
    | (text, stream) =>
      match c.lines.feed text with
      | (lines, rest) => (lines.map .line, { c with stream := stream, lines := rest })
  | .diagnostics bytes => ([.diagnostics (Utf8.decode bytes)], c)
  | .failed message => ([.failure message], { c with running := false })
  | .closed code => (c.lines.finish.map .line ++ [.exit (code.map Double.ofInt)], idle)

end Channel

end SwiftLens
