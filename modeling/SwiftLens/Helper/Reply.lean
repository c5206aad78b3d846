import SwiftLens.Helper.Ask
import SwiftLens.Json.Reader
import SwiftLens.Text.Words

/-!
# Replies of the helper

A reply is a line with an object that carries the number of the question, whether it succeeded, and
a message or a body. A line of any other form is no reply. The body is read only by the question that
it answers: a body that does not fit is a defect of its own.
-/

namespace SwiftLens

/-- A reply of the helper. -/
structure Reply where
  seq : Double
  success : Bool
  message : Option Text
  body : Option (Json Double)

namespace Reply

/-- Why a line is no reply. -/
inductive Defect where
  /-- The line is not JSON. -/
  | notJson (line : Text)
  /-- The value is not an object. -/
  | notObject
  /-- The number or the outcome is missing. -/
  | noOutcome
  deriving DecidableEq, Repr

/-- A defect in words; of a long line only the beginning is shown. -/
def Defect.message : Defect → Text
  | notJson line => "Bridge wrote a non-JSON line: " ++ line.clip (Double.ofNat 200)
  | notObject => "Bridge response is not an object."
  | noOutcome => "Bridge response needs a numeric seq and a boolean success."

/-- The reply in an object. -/
def ofMembers (members : Entries (Json Double)) : Except Defect Reply :=
  match members.get? "seq", members.get? "success" with
  | some (.number seq), some (.bool success) =>
    let message := match members.get? "message" with
      | some (.string t) => some t
      | _ => none
    .ok ⟨seq, success, message, members.get? "body"⟩
  | _, _ => .error .noOutcome

/-- The reply in a line. -/
def read (line : Text) : Except Defect Reply :=
  match Json.parse? line with
  | none => .error (.notJson line)
  | some (.object members) => ofMembers members
  | some _ => .error .notObject

/-- Whether a reply belongs to the question with the given number. -/
def answers (r : Reply) (seq : Nat) : Bool := r.seq.toInt? == some (seq : Int)

end Reply

/-! ## Bodies -/

/-- Why the body of a reply does not answer the question. -/
inductive BodyDefect where
  /-- A field is missing. -/
  | missing (command field : Text)
  /-- The identifier of a name is not a string of digits. -/
  | badUid (name : Text)
  /-- The name of an identifier is neither a string nor null. -/
  | badName (uid : Int)
  /-- The response is not the wire form of a tree. -/
  | badResponse (defect : Located Wire.Defect)

namespace Ask

/-- A field of the body of the reply to a question. -/
def field (ask : Ask) (name : Text) (body : Option (Json Double)) : Except BodyDefect (Json Double) :=
  match body.bind (Json.member? name) with
  | some value => .ok value
  | none => .error (.missing ask.command name)

/-- The answer in the body of a reply to a question. -/
def interpret (ask : Ask) (body : Option (Json Double)) : Except BodyDefect Answer :=
  match ask with
  | connect => .ok .done
  | disconnect => .ok .done
  | uidOf name =>
    match ask.field "uid" body with
    | .error e => .error e
    | .ok (.string digits) =>
      match digits.toNat? with
      | some n => .ok (.uid n)
      | none => .error (.badUid name)
    | .ok _ => .error (.badUid name)
  | nameOf uid =>
    match ask.field "name" body with
    | .error e => .error e
    | .ok (.string t) => .ok (.name (some t))
    | .ok .null => .ok (.name none)
    | .ok _ => .error (.badName uid)
  | respond _ =>
    match ask.field "response" body with
    | .error e => .error e
    | .ok raw =>
      match Wire.decode raw with
      | .ok tree => .ok (.response tree)
      | .error e => .error (.badResponse e)

end Ask

end SwiftLens
