import SwiftLens.Command.Options
import SwiftLens.Entries
import SwiftLens.Path
import SwiftLens.Text.Words

/-!
# Settings

The settings of a run come from three places: what the command line says, then the environment, then
a default.
-/

namespace SwiftLens

namespace Setting

/-- The yes or no that a word means, in any case of its letters and with white space around it. Only
ASCII letters have to be lowered: no other letter has one of these words' letters as its lower case. -/
def boolean? (t : Text) : Option Bool :=
  let word := t.trim.lower
  if List.contains (["1", "true", "yes", "on"] : List Text) word then some true
  else if List.contains (["0", "false", "no", "off"] : List Text) word then some false
  else none

/-- The yes or no of a variable, or a default when it has none. -/
def booleanOr (value : Option Text) (default : Bool) : Bool := (value.bind boolean?).getD default

/-- The positive integer of a variable, or a default when it has none. -/
def positiveOr (value : Option Text) (default : Double) : Double :=
  (value.bind Setting.positive?).getD default

end Setting

/-- The settings of a run. -/
structure Settings where
  /-- The directory in which the program runs. -/
  root : Text
  /-- The helper's executable. -/
  helper : Text
  /-- The helper's arguments. -/
  helperArgs : List Text
  /-- How many milliseconds a question may wait. -/
  timeout : Double
  /-- The directory for what is kept between runs. -/
  stateDir : Text
  /-- Whether a journal is kept. -/
  audit : Bool
  /-- Whether the user wants to know everything. -/
  verbose : Bool

namespace Settings

/-- The time that a question may wait if nothing else is said. -/
def defaultTimeout : Double := Double.ofNat 120000

/-- The settings for a directory, a command line and an environment. -/
def load (root : Text) (options : Options) (environment : Entries Text) : Settings :=
  let root := Path.resolve "/" root
  { root := root
    helper := (options.helper <|> environment.get? "SOURCEKIT_BRIDGE_PATH").getD "sourcekitd-bridge"
    helperArgs := ((environment.get? "SOURCEKIT_BRIDGE_ARGS").getD "").words
    timeout := options.timeout.getD
      (Setting.positiveOr (environment.get? "SOURCEKIT_TIMEOUT_MS") defaultTimeout)
    stateDir := Path.resolve root ((environment.get? "SOURCEKIT_STATE_DIR").getD ".sourcekit-json")
    audit := options.audit.getD (Setting.booleanOr (environment.get? "SOURCEKIT_AUDIT") false)
    verbose := options.verbose.getD (Setting.booleanOr (environment.get? "SOURCEKIT_VERBOSE") false) }

end Settings

end SwiftLens
