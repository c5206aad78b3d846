import SwiftLens.NameCache
import SwiftLens.Request
import SwiftLens.SourceReader

/-!
# Labelling a tree

Labelling walks a dictionary and writes, in the place of each identifier that has a name, that name.
Identifiers are the unsigned integers that stand directly under a key; the walk goes through arrays
and dictionaries alike but looks at the keys of dictionaries only.

With a supplement the walk does more at a node whose kind has just been written. At a declaration it
asks the supplement what stands at the offset of the declaration's name and merges the answer into the
node, leaving the kind as it is. At a mark comment it reads the comment's text and writes it as the
node's name.

The keys of a node are listed when the walk enters it, and each value is looked at when its turn
comes. So a merge may change what the walk is about to meet, and the walk may descend into what a merge
brought in. Its depth is therefore bounded by a count, which allows for the depth of the tree and for
`allowance` levels more, far more than a reply can have; a walk that would go deeper fails with
`Fault.tooDeep`. When a walk fails, the tree stays as far as it was labelled.
-/

namespace SwiftLens

/-- A second source of information, asked while a tree is labelled; `σ` is its state. -/
structure Supplement (σ : Type) where
  /-- The file that the tree is about. -/
  sourceFile? : σ → Option Text
  /-- Move to an offset. -/
  setOffset : Int → σ → σ
  /-- Ask what stands at the offset. -/
  send : Action σ (Option Value)

/-- What a walk works with. -/
structure Guide (σ : Type) where
  /-- How the name of an identifier is found. -/
  lookup : Int → Action σ (Option Text)
  /-- What is asked about declarations and marks, if anything is. -/
  supplement : Option (Supplement σ)
  /-- How the text of marks is read. -/
  sources : SourceReader σ

namespace Labelling

variable {σ : Type}

/-- The state of a walk: the names found so far and the state of the guide. -/
abbrev State (σ : Type) := NameCache × σ

/-- How many levels a walk may go beyond the depth of the tree it was given. -/
def allowance : Nat := 1000000000000000

/-! ## At a node with a kind -/

/-- A dictionary with the entries of a reply written into it, all but the kind. -/
def merge (reply : Entries Value) (node : Entries Value) : Entries Value :=
  reply.foldl (fun node entry => if entry.1 = Key.kind then node else Entries.set entry.1 entry.2 node) node

/-- Ask about a declaration and merge the answer. A declaration that does not say where its name is,
is not asked about. -/
def addDeclaration (supplement : Supplement σ) : Action (Entries Value × State σ) Unit := do
  match ← Action.read fun s => s.1.integer? Key.nameOffset with
  | none => pure ()
  | some offset =>
    if offset < 0 then pure ()
    else do
      Action.modify fun s => (s.1, (s.2.1, supplement.setOffset offset s.2.2))
      match ← supplement.send.second.second with
      | some (.dictionary reply) => Action.modify fun s => (merge reply s.1, s.2)
      | _ => pure ()

/-- Read the text of a mark comment and write it as the node's name. -/
def addMark (supplement : Supplement σ) (sources : SourceReader σ) :
    Action (Entries Value × State σ) Unit := do
  let node ← Action.read Prod.fst
  let file? ← Action.read fun s => supplement.sourceFile? s.2.2
  match node.integer? Key.offset, node.integer? Key.length, file? with
  | some offset, some length, some file =>
    let text ← (sources.range file (Double.ofInt offset) (Double.ofInt length)).second.second
    Action.modify fun s => (Entries.set Key.name (.string text) s.1, s.2)
  | offset, length, file? => Action.fail (.lostMark offset length file?)

/-- What there is to do at a node whose kind has been written as `kind`. -/
def addForKind (guide : Guide σ) (kind : Text) : Action (Entries Value × State σ) Unit :=
  match guide.supplement with
  | none => pure ()
  | some supplement =>
    if kind.startsWith Kind.declaration then addDeclaration supplement
    else if kind = Kind.mark then addMark supplement guide.sources
    else pure ()

/-! ## The walk -/

/-- An action on the value at a key, which is written back whatever comes of it. -/
def atKey (key : Text) (value : Value) (walk : Action (Value × State σ) Unit) :
    Action (Entries Value × State σ) Unit := fun s =>
  match walk (value, s.2) with
  | (r, (value, t)) => (r, (Entries.set key value s.1, t))

/-- Label the entry at a key; `walk` labels a value. -/
def labelKey (guide : Guide σ) (walk : Action (Value × State σ) Unit) (key : Text) :
    Action (Entries Value × State σ) Unit := do
  match ← Action.read fun s => s.1.get? key with
  | none => pure ()
  | some (.uint64 uid) =>
    match ← (NameCache.resolve guide.lookup uid).second with
    | none => pure ()
    | some name => do
      Action.modify fun s => (Entries.set key (.string name) s.1, s.2)
      if key = Key.kind then addForKind guide name else pure ()
  | some value => atKey key value walk

/-- Label the entries at keys in turn. -/
def labelKeys (guide : Guide σ) (walk : Action (Value × State σ) Unit) :
    List Text → Action (Entries Value × State σ) Unit
  | [] => pure ()
  | key :: rest => do
    labelKey guide walk key
    labelKeys guide walk rest

/-- Label items in turn; those after a failure stay as they are. -/
def labelItems (walk : Action (Value × State σ) Unit) :
    List Value → State σ → Except Fault Unit × (List Value × State σ)
  | [], s => (.ok (), ([], s))
  | item :: rest, s =>
    match walk (item, s) with
    | (.error e, (item, s)) => (.error e, (item :: rest, s))
    | (.ok (), (item, s)) =>
      match labelItems walk rest s with
      | (r, (rest, s)) => (r, (item :: rest, s))

/-- Label a value, through at most the given number of levels. -/
def labelValue (guide : Guide σ) : Nat → Action (Value × State σ) Unit
  | 0 => fun s =>
    match s.1 with
    | .array _ => (.error .tooDeep, s)
    | .dictionary _ => (.error .tooDeep, s)
    | _ => (.ok (), s)
  | levels + 1 => fun s =>
    match s.1 with
    | .array items =>
      match labelItems (labelValue guide levels) items s.2 with
      | (r, (items, t)) => (r, (.array items, t))
    | .dictionary entries =>
      match labelKeys guide (labelValue guide levels) (Entries.keys entries) (entries, s.2) with
      | (r, (entries, t)) => (r, (.dictionary entries, t))
    | _ => (.ok (), s)

/-- Label a dictionary. -/
def label (guide : Guide σ) : Action (Entries Value × State σ) Unit := fun s =>
  labelKeys guide (labelValue guide (Value.entriesDepth s.1 + allowance)) (Entries.keys s.1) s

end Labelling

/-- The cursor query as a supplement. -/
def CursorQuery.supplement {σ : Type} (backend : Backend σ) : Supplement (CursorQuery × σ) where
  sourceFile? s := s.1.sourceFile?
  setOffset offset s := (s.1.setOffset offset, s.2)
  send := CursorQuery.send backend

end SwiftLens
