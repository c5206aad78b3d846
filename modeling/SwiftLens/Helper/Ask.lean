import SwiftLens.Tree.Wire

/-!
# Questions to the helper

The helper answers five questions, one line each way. A question travels as an object with its
number, its command and its arguments; the last are left out when there are none.
-/

namespace SwiftLens

/-- A question to the helper. -/
inductive Ask where
  /-- To begin the session. -/
  | connect
  /-- For the identifier of a name. -/
  | uidOf (name : Text)
  /-- For the name of an identifier. -/
  | nameOf (uid : Int)
  /-- For the response to a request. -/
  | respond (request : Value)
  /-- To end the session. -/
  | disconnect

/-- What a question asks for, once it is answered. -/
inductive Answer where
  /-- Nothing more than that it was done. -/
  | done
  /-- An identifier. -/
  | uid (uid : Nat)
  /-- A name, if there is one. -/
  | name (name : Option Text)
  /-- A response. -/
  | response (tree : Value)

namespace Ask

/-- The command of a question. -/
def command : Ask → Text
  | connect => "initialize"
  | uidOf _ => "uid.get_from_string"
  | nameOf _ => "uid.get_string"
  | respond _ => "request.send"
  | disconnect => "shutdown"

/-- The arguments of a question. -/
def arguments? : Ask → Option (Json Double)
  | connect => none
  | uidOf name => some (.object [("name", .string name)])
  | nameOf uid => some (.object [("uid", .string (Text.ofInt uid))])
  | respond request => some (.object [("request", Wire.encode request)])
  | disconnect => none

/-- A numbered question as an object. -/
def toJson (seq : Nat) (ask : Ask) : Json Double :=
  match ask.arguments? with
  | some arguments =>
    .object [("seq", Json.ofNat seq), ("command", .string ask.command), ("arguments", arguments)]
  | none => .object [("seq", Json.ofNat seq), ("command", .string ask.command)]

/-- The line of a numbered question. -/
def line (seq : Nat) (ask : Ask) : Text := (ask.toJson seq).write

end Ask

end SwiftLens
