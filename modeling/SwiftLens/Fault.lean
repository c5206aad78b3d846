import SwiftLens.Helper.Reply
import SwiftLens.Source
import SwiftLens.Token.Basic
import SwiftLens.Tree.Document
import SwiftLens.Tree.Vocabulary

/-!
# Faults

Every way in which the library can fail, as a cause. A cause has words, and most causes have a code,
by which a program tells them apart, and details. The causes without a code are those that come from
outside, such as a file that cannot be written, that of a point in time without a date, and those that end a
walk or a question that cannot go on.
-/

namespace SwiftLens

/-- The class of a fault. -/
inductive Code where
  | unresolvableIdentifier
  | malformedPayload
  | sourceRead
  | serialization
  | helperUnavailable
  | helperProtocol
  | helperTimeout
  | requestFailed
  deriving DecidableEq, Repr

/-- A code as it is printed. -/
def Code.text : Code → Text
  | unresolvableIdentifier => "unresolvable_required_identifier"
  | malformedPayload => "malformed_binary_payload"
  | sourceRead => "source_read_failure"
  | serialization => "serialization_contract_violation"
  | helperUnavailable => "bridge_unavailable"
  | helperProtocol => "bridge_protocol_error"
  | helperTimeout => "bridge_timeout"
  | requestFailed => "bridge_request_failed"

/-- A cause of failure. -/
inductive Fault where
  /-- A tree cannot be printed. -/
  | document (defect : Located Document.Defect)
  /-- A JSON value, reached by the path `base`, is not the wire form of a tree. -/
  | wire (base : Text) (defect : Located Wire.Defect)
  /-- A byte string does not give tokens. -/
  | token (defect : Token.Defect)
  /-- A response holds no table of tokens but something else, or nothing, in its place. -/
  | noTokens (found : Option Value)
  /-- The response to opening a file is not a dictionary. -/
  | notDictionary (found : Value)
  /-- Source text cannot be read. -/
  | source (defect : Source.Defect)
  /-- A mark comment does not say where its text is. -/
  | lostMark (offset length : Option Int) (file : Option Text)
  /-- A line of the helper is no reply. -/
  | reply (defect : Reply.Defect)
  /-- The body of a reply does not answer the question. -/
  | body (defect : BodyDefect)
  /-- The helper exited. -/
  | exited (code : Option Double)
  /-- The helper failed. -/
  | failed (message : Text)
  /-- A question could not be written to the helper. -/
  | unwritable (message : Text)
  /-- A question was not answered in time. -/
  | timedOut (seq : Nat) (command : Text) (timeout : Double)
  /-- The helper refused a question, with or without a message. -/
  | refused (seq : Nat) (command : Text) (message : Option Text)
  /-- A request was rejected by a backend that numbers no questions. -/
  | rejected (message : Text)
  /-- The operating system failed. -/
  | system (cause : SystemError)
  /-- Whatever else the library runs on failed. -/
  | outside (message : Text)
  /-- Something without words of its own, in print. -/
  | foreign (shown : Text)
  /-- A point in time lies outside the calendar. -/
  | invalidTime
  /-- A tree grew deeper, while it was walked, than the walk goes. -/
  | tooDeep
  /-- A question was given the answer to another question. -/
  | mismatched

namespace Fault

/-- The path of a fault in a tree. -/
def pathFrom (base : Text) (location : Location) : Text := base ++ location.text

/-- The class of a fault. -/
def code? : Fault → Option Code
  | document _ => some .serialization
  | wire _ _ => some .helperProtocol
  | token (.unnamedKind _ _) => some .unresolvableIdentifier
  | token _ => some .malformedPayload
  | noTokens _ => some .malformedPayload
  | notDictionary _ => some .helperProtocol
  | source _ => some .sourceRead
  | lostMark _ _ _ => some .sourceRead
  | reply _ => some .helperProtocol
  | body _ => some .helperProtocol
  | exited _ => some .helperUnavailable
  | failed _ => some .helperUnavailable
  | unwritable _ => some .helperUnavailable
  | timedOut _ _ _ => some .helperTimeout
  | refused _ _ _ => some .requestFailed
  | rejected _ => some .requestFailed
  | system _ => none
  | outside _ => none
  | foreign _ => none
  | invalidTime => none
  | tooDeep => none
  | mismatched => none

/-- A wire defect at a path, in words. -/
def wireMessage (base : Text) (e : Located Wire.Defect) : Text :=
  "Invalid wire value at " ++ pathFrom base e.location ++ ": " ++ e.defect.message

/-- Where the response stands in the body of a reply. -/
def responsePath : Text := "$.response"

/-- A fault in words. -/
def message : Fault → Text
  | document e => e.defect.message (pathFrom "$" e.location)
  | wire base e => wireMessage base e
  | token defect => defect.message
  | noTokens _ => "Response has no binary " ++ Key.syntaxMap ++ "."
  | notDictionary found => "Expected a dictionary reply to editor.open, got " ++ found.shape ++ "."
  | source defect => defect.message
  | lostMark _ _ _ => "Mark comment is missing its offset, length or source file."
  | reply defect => defect.message
  | body (.missing command field) => "Reply to " ++ command ++ " is missing " ++ Text.quoted field ++ "."
  | body (.badUid name) => "Bridge returned an invalid UID for " ++ Text.quoted name ++ "."
  | body (.badName uid) => "Bridge returned a non-string name for UID " ++ Text.ofInt uid ++ "."
  | body (.badResponse e) => wireMessage responsePath e
  | exited code =>
    "Bridge process exited with code " ++ (match code with | some n => n.text | none => "null") ++ "."
  | failed message => "Bridge process failed: " ++ message
  | unwritable message => "Could not write to bridge: " ++ message
  | timedOut seq command timeout =>
    "Bridge request " ++ Text.ofNat seq ++ " (" ++ command ++ ") timed out after "
      ++ timeout.text ++ "ms."
  | refused _ command none => "Bridge reported failure for " ++ command ++ "."
  | refused _ _ (some message) => message
  | rejected message => message
  | system cause => cause.message
  | outside message => message
  | foreign shown => shown
  | invalidTime => "Invalid time value"
  | tooDeep => "The response grew too deep while it was walked."
  | mismatched => "The answer does not belong to the question."

/-- A member that is present only if there is something to say. -/
def optional (key : Text) : Option (Json Double) → Entries (Json Double)
  | some value => [(key, value)]
  | none => []

/-- The details of a fault. -/
def details? : Fault → Option (Entries (Json Double))
  | document e =>
    let path : Json Double := .string (pathFrom "$" e.location)
    match e.defect with
    | .binary byteLength => some [("path", path), ("byteLength", Json.ofNat byteLength)]
    | .notFinite value => some [("path", path), ("value", .string value.text)]
  | wire base e => some [("path", .string (pathFrom base e.location))]
  | token (.noHeader byteLength) => some [("byteLength", Json.ofNat byteLength)]
  | token (.tooShort declared byteLength) =>
    some [("declaredTokens", .string (Text.ofNat declared)), ("byteLength", Json.ofNat byteLength)]
  | token (.unnamedKind uid index) =>
    some [("uid", .string (Text.ofNat uid)), ("tokenIndex", Json.ofNat index)]
  | noTokens found =>
    some [("found", .string (match found with | some value => value.shape | none => "missing"))]
  | notDictionary found => some [("request", .string "editor.open"), ("type", .string found.shape)]
  | source (.unreadable file cause) =>
    some [("filePath", .string file), ("errno", .string cause.code)]
  | source (.unknown file) => some [("filePath", .string file)]
  | source (.outside file offset length byteLength) =>
    some [("filePath", .string file), ("offset", .number offset), ("length", .number length),
      ("byteLength", Json.ofNat byteLength)]
  | source (.splitsCharacter file offset length) =>
    some [("filePath", .string file), ("offset", .number offset), ("length", .number length)]
  | lostMark offset length file =>
    some (optional "offset" (offset.map Json.ofInt) ++ optional "length" (length.map Json.ofInt)
      ++ optional "filePath" (file.map .string))
  | body (.missing command field) => some [("command", .string command), ("field", .string field)]
  | body (.badUid name) => some [("name", .string name)]
  | body (.badName uid) => some [("uid", .string (Text.ofInt uid))]
  | body (.badResponse e) => some [("path", .string (pathFrom responsePath e.location))]
  | exited code => some [("code", match code with | some n => .number n | none => .null)]
  | timedOut seq command _ => some [("seq", Json.ofNat seq), ("command", .string command)]
  | refused seq command _ => some [("seq", Json.ofNat seq), ("command", .string command)]
  | _ => none

/-- A failure as it is shown to a user, given its code and its words: with the code, or, when there
is none, with a hint if the words tell of a missing file. -/
def describe (code : Option Text) (message : Text) : Text :=
  match code with
  | some code => "Error [" ++ code ++ "]: " ++ message
  | none =>
    if Text.includes "ENOENT" message then "Error: File or directory not found: " ++ message
    else "Error: " ++ message

/-- A fault as it is shown to a user. -/
def format : Fault → Text
  | foreign shown => "Error: " ++ shown
  | f => describe (f.code?.map Code.text) f.message

end Fault

end SwiftLens
