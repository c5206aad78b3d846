import SwiftLens.Number.Layout
import SwiftLens.Text.Blank

/-!
# The command line

A command line is a list of words. Commands and options may come in any order; a later option
overrides an earlier one, but only the first command counts. What cannot be understood is noted and
skipped. The documentation command takes all words after it for the compiler, whatever they look like.
Empty words are skipped, and an option whose value is missing or empty is skipped as well.
-/

namespace SwiftLens

/-- What the program is asked to do. -/
inductive Command where
  /-- To print the structure of a file. -/
  | outline (file : Text)
  /-- To print the tokens of a file. -/
  | tokens (file : Text)
  /-- To print the tokens of a text. -/
  | tokensOfText (source : Text)
  /-- To print the offsets of the documented identifiers of a file. -/
  | docOffsets (file : Text)
  /-- To print the documentation of the Swift files among compiler arguments. -/
  | docs (compilerArgs : List Text)
  deriving DecidableEq, Repr

/-- The name of a command. -/
def Command.name : Command → Text
  | outline _ => "structure"
  | tokens _ => "syntax"
  | tokensOfText _ => "syntax-text"
  | docOffsets _ => "doc-offsets"
  | docs _ => "docs"

/-! ## Numbers -/

namespace Setting

/-- The integer that a text begins with, after white space and a sign; what follows its digits does
not matter. -/
def leadingInteger? (t : Text) : Option Int :=
  let read (digits : Text) : Option Nat :=
    if digits.isEmpty then none else some digits.digitsValue
  match t.trimStart with
  | CodeUnit.minus :: rest => (read (rest.takeWhile CodeUnit.isDigit)).map fun n => -(n : Int)
  | CodeUnit.plus :: rest => (read (rest.takeWhile CodeUnit.isDigit)).map fun n => (n : Int)
  | rest => (read (rest.takeWhile CodeUnit.isDigit)).map fun n => (n : Int)

/-- The positive integer that a text begins with, as a double, unless it is too great for one. -/
def positive? (t : Text) : Option Double :=
  match leadingInteger? t with
  | some n => if 0 < n ∧ (Double.ofInt n).isFinite then some (Double.ofInt n) else none
  | none => none

end Setting

/-! ## Options -/

/-- What a command line says; an option that it does not mention is absent. -/
structure Options where
  command : Option Command
  helper : Option Text
  timeout : Option Double
  audit : Option Bool
  verbose : Option Bool
  help : Bool
  /-- What could not be understood, in words. -/
  problems : List Text
  deriving DecidableEq, Repr

namespace Options

/-- The empty command line. -/
def empty : Options := ⟨none, none, none, none, none, false, []⟩

/-- Note a problem. -/
def note (o : Options) (problem : Text) : Options := { o with problems := o.problems ++ [problem] }

/-- Take a command, unless there is one already. -/
def take (o : Options) (command : Command) : Options :=
  if o.command.isSome then o.note ("Only one command may be given; ignoring --" ++ command.name ++ ".")
  else { o with command := some command }

/-- The command on a file that a word stands for. -/
def fileCommand? (word : Text) : Option (Text → Command) :=
  if word = "--structure" then some .outline
  else if word = "--syntax" then some .tokens
  else if word = "--doc-offsets" then some .docOffsets
  else none

/-- Take the value of a waiting time. -/
def takeTimeout (o : Options) (value : Text) : Options :=
  match Setting.positive? value with
  | some ms => { o with timeout := some ms }
  | none => o.note ("--timeout-ms expects a positive integer, got " ++ Text.quoted value ++ ".")

/-- Take a word that has no value. -/
def takeFlag (o : Options) (word : Text) : Options :=
  if word = "--audit" then { o with audit := some true }
  else if word = "--verbose" then { o with verbose := some true }
  else if word = "--help" ∨ word = "-h" then { o with help := true }
  else o.note ("Unknown argument " ++ Text.quoted word ++ ".")

/-- Read the words of a command line, after what has been read before. -/
def parseFrom (o : Options) : List Text → Options
  | [] => o
  | word :: rest =>
    if word = "" then parseFrom o rest
    else if word = "--docs" then o.take (.docs rest)
    else
      match fileCommand? word, rest with
      | some _, [] => o.note (word ++ " needs a file path.")
      | some command, value :: after =>
        if value = "" then parseFrom (o.note (word ++ " needs a file path.")) (value :: after)
        else parseFrom (o.take (command value)) after
      | none, [] =>
        if word = "--syntax-text" then o.note "--syntax-text needs source text."
        else if word = "--bridge" ∨ word = "--timeout-ms" then o
        else o.takeFlag word
      | none, value :: after =>
        if word = "--syntax-text" then parseFrom (o.take (.tokensOfText value)) after
        else if word = "--bridge" ∨ word = "--timeout-ms" then
          if value = "" then parseFrom o (value :: after)
          else if word = "--bridge" then parseFrom { o with helper := some value } after
          else parseFrom (o.takeTimeout value) after
        else parseFrom (o.takeFlag word) (value :: after)

/-- Read the words of a command line. -/
def parse (words : List Text) : Options := parseFrom empty words

end Options

end SwiftLens
