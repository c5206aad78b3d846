import SwiftLens.Text

/-!
# Vocabulary

The keys and names with which the helper and the library understand each other: keys of
dictionaries, names of requests, and the kinds that the library treats in a particular way.
-/

namespace SwiftLens

namespace Key

/-- The request that is made. -/
def request : Text := "key.request"

/-- The name of a declaration, or the text of a mark. -/
def name : Text := "key.name"

/-- The path of a source file. -/
def sourceFile : Text := "key.sourcefile"

/-- Source text given in place of a file. -/
def sourceText : Text := "key.sourcetext"

/-- The arguments of the compiler. -/
def compilerArgs : Text := "key.compilerargs"

/-- A byte offset. -/
def offset : Text := "key.offset"

/-- A length in bytes. -/
def length : Text := "key.length"

/-- The kind of a node. -/
def kind : Text := "key.kind"

/-- The byte offset of the name of a declaration. -/
def nameOffset : Text := "key.nameoffset"

/-- The table of tokens of a file. -/
def syntaxMap : Text := "key.syntaxmap"

end Key

namespace Kind

/-- The request that opens a file or a text. -/
def openRequest : Text := "source.request.editor.open"

/-- The request for what stands at an offset. -/
def cursorRequest : Text := "source.request.cursorinfo"

/-- How the kinds of declarations begin. -/
def declaration : Text := "source.lang.swift.decl."

/-- The kind of a mark comment. -/
def mark : Text := "source.lang.swift.syntaxtype.comment.mark"

/-- The kind of an identifier token. -/
def identifier : Text := "source.lang.swift.syntaxtype.identifier"

end Kind

/-- The least number that can be the identifier of a name. -/
def leastUid : Int := 4300000000

end SwiftLens
