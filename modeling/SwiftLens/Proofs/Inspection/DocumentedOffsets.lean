import SwiftLens.Inspection
import SwiftLens.Proofs.Labelling.Names
import SwiftLens.Proofs.Token.Documented
import SwiftLens.Proofs.Token.Table

/-!
# Where documented identifiers are looked for

The offsets of identifiers come from a table of tokens and count the bytes of the file. The ends of the
comments are found in the text that the bytes were decoded to. `documentedOffsets_of_file` says what comes
of comparing the two: a comment that ends with a line feed of the file gets the least identifier that
stands from there on, but "there" is not the position of the line feed in the file. It is the number of
bytes that the text before it takes, which is larger where bytes that are no UTF-8 have been replaced. For
a file that is the encoding of a text the two are the same.

`documentedOffsets_replaced` is a file with one such byte, in which the only identifier comes right after a
comment and is not found.
-/

namespace SwiftLens

variable {σ : Type}

/-! ### Kinds that have names -/

open NameCache (Resolves)

/-- The offsets of the records whose kind is that of identifiers. -/
def Token.identifiersOf (kind : Int → Text) (records : List Token.Record) : List Int :=
  (records.filter fun r => kind r.uid = Kind.identifier).map fun r => (r.offset : Int)

/-- When every kind has a name, the identifiers are found. -/
theorem Token.identifiersAmong_of_resolves {lookup : Int → Action σ (Option Text)} {names : NameCache}
    {kind : Int → Text} {records : List Record}
    (h : ∀ r ∈ records, Resolves lookup names r.uid (kind r.uid)) (index : Nat) (s : σ) :
    ∃ t, identifiersAmong lookup index records (names, s) = (.ok (identifiersOf kind records), t) := by
  obtain ⟨t, htokens⟩ := nameAll_of_resolves h index s
  refine ⟨t, ?_⟩
  rw [identifiersAmong_eq, htokens, Except.map, identifiersIn, List.filter_map, List.map_map]
  rfl

/-! ### The offsets of a file -/

namespace Inspection

open Documented CodeUnit

variable {backend : Backend σ} {sources : Sources} {file : Text} {s : NameCache × σ}
  {response : Entries Value} {table bytes : Utf8.Bytes} {records : List Token.Record} {kind : Int → Text}

/-- The offsets of a file whose tokens and text can be read. -/
theorem documentedOffsets_eq (hopen : (openSource backend (.file file) s.2).1 = .ok response)
    (htable : response.get? Key.syntaxMap = some (.data table))
    (hrecords : Token.records table = .ok records)
    (hkinds : ∀ r ∈ records, Resolves backend.nameOf s.1 r.uid (kind r.uid))
    (hfile : sources.contents file = .ok bytes) :
    (documentedOffsets backend sources file s).1 =
      .ok (offsets (Utf8.decode bytes) (Token.identifiersOf kind records)) := by
  obtain ⟨t, ht⟩ : ∃ t, openSource backend (.file file) s.2 = (.ok response, t) :=
    ⟨_, Prod.ext hopen rfl⟩
  have hresponse : (openSource backend (.file file)).second s = (.ok response, (s.1, t)) := by
    rw [Action.second, ht]
  have hbytes : tokenBytes response = .ok table := by rw [tokenBytes, htable]
  obtain ⟨u, hidentifiers⟩ := Token.identifiersAmong_of_resolves hkinds 0 t
  have hoffsets : Token.identifierOffsets backend.nameOf table (s.1, t) =
      (.ok (Token.identifiersOf kind records), u) := by
    rw [Token.identifierOffsets, Token.recordsOf, hrecords]
    exact hidentifiers
  have hsource : (sources.readAll file).mapError Fault.source = .ok (Utf8.decode bytes) := by
    rw [Sources.readAll, hfile]
    rfl
  rw [documentedOffsets, Action.bind_of_ok hresponse, hbytes]
  show ((Token.identifierOffsets backend.nameOf table >>= _) (s.1, t)).1 = _
  rw [Action.bind_of_ok hoffsets]
  simp only [Sources.reader, hsource]
  rfl

/-- The text up to the end of a comment, and the bytes up to the line feed of the same number. -/
theorem upTo_commentEnd {ends : List Nat} (hscans : Scans 0 (Utf8.decode bytes) ends) {e : Nat}
    (he : e ∈ ends) :
    let position := Utf8.afterLineFeed (((Utf8.decode bytes).take e).count lineFeed) bytes
    Utf8.decode (bytes.take position) = (Utf8.decode bytes).take e ∧
      position ≤ Utf8.size ((Utf8.decode bytes).take e) ∧
      ((∃ original, bytes = Utf8.encode original) → position = Utf8.size ((Utf8.decode bytes).take e)) := by
  obtain ⟨before, after, htext, rfl⟩ := hscans.exists_split e he
  have htake : (Utf8.decode bytes).take (0 + before.length + 1) = before ++ [lineFeed] := by
    rw [htext, Nat.zero_add]
    exact take_past_lineFeed before after 0
  rw [htake, List.count_append, List.count_singleton_self]
  exact Utf8.upTo_lineFeed htext

/-- The documented identifiers of a file whose tokens and text can be read. The comments of its text are
found from left to right, and for each in turn the result holds the least offset of an identifier, if there
is one, from the end of the comment on. The end is the size of the text that the bytes decode to, up to and
with the line feed of the comment. This is never before the position of that line feed in the file, and for
the encoding of a text it is that position. -/
theorem documentedOffsets_of_file (hopen : (openSource backend (.file file) s.2).1 = .ok response)
    (htable : response.get? Key.syntaxMap = some (.data table))
    (hrecords : Token.records table = .ok records)
    (hkinds : ∀ r ∈ records, Resolves backend.nameOf s.1 r.uid (kind r.uid))
    (hfile : sources.contents file = .ok bytes) :
    let text := Utf8.decode bytes
    let identifiers := Token.identifiersOf kind records
    let position := fun e => Utf8.afterLineFeed ((text.take e).count lineFeed) bytes
    let result := (documentedOffsets backend sources file s).1
    ∃ ends, Scans 0 text ends ∧
      result = .ok (ends.filterMap fun e =>
        leastFrom (Utf8.size (Utf8.decode (bytes.take (position e)))) identifiers) ∧
      (∀ e ∈ ends, position e ≤ Utf8.size (Utf8.decode (bytes.take (position e)))) ∧
      ((∃ original, bytes = Utf8.encode original) →
        result = .ok (ends.filterMap fun e => leastFrom (position e) identifiers)) := by
  intro text identifiers position result
  have hscans : Scans 0 text (commentEnds 0 0 text) := scans_commentEnds 0 text
  have hresult : result = .ok (offsets text identifiers) :=
    documentedOffsets_eq hopen htable hrecords hkinds hfile
  rw [offsets_eq hscans] at hresult
  refine ⟨_, hscans, ?_, ?_, ?_⟩
  · rw [hresult]
    congr 1
    exact List.filterMap_congr fun e he => by rw [(upTo_commentEnd hscans he).1]
  · intro e he
    obtain ⟨hfront, hle, -⟩ := upTo_commentEnd hscans he
    rw [hfront]
    exact hle
  · intro hencoded
    rw [hresult]
    congr 1
    refine List.filterMap_congr fun e he => ?_
    have hposition : position e = Utf8.size (text.take e) := (upTo_commentEnd hscans he).2.2 hencoded
    rw [hposition]

/-- A service that answers every request with a table of tokens, all of one kind. -/
def tokenService (table : Utf8.Bytes) (kind : Text) : Backend Unit where
  connect := pure ()
  uidOf _ := pure leastUid
  nameOf _ := pure (some kind)
  respond _ := pure (.dictionary [(Key.syntaxMap, .data table)])
  disconnect := pure ()
  notes s := ([], s)

/-- A table of one token, of one byte. -/
def oneToken (offset : UInt8) : Utf8.Bytes :=
  [0, 0, 0, 0, 0, 0, 0, 0, 0x10, 0, 0, 0, 0, 0, 0, 0,
    0x0B, 0xCB, 0x4C, 0, 1, 0, 0, 0, offset, 0, 0, 0, 2, 0, 0, 0]

/-- The kind of the one token is named by the service. -/
theorem resolves_tokenService (table : Utf8.Bytes) (kind : Text) (offset : Nat) :
    ∀ r ∈ [(⟨4300000011, offset, 1⟩ : Token.Record)],
      Resolves (tokenService table kind).nameOf [] r.uid kind := by
  intro r hr
  rw [List.mem_singleton.mp hr]
  refine ⟨?_, .inr ⟨rfl, fun _ => rfl⟩⟩
  show leastUid ≤ 4300000011
  decide

/-- A file whose comment has a character of two bytes, with an identifier right after the comment. -/
theorem documentedOffsets_of_file_accented :
    let bytes := Utf8.encode "/// é\nx = 1\n"
    let position := fun e => Utf8.afterLineFeed (((Utf8.decode bytes).take e).count lineFeed) bytes
    ∃ ends, Scans 0 (Utf8.decode bytes) ends ∧ ends.map position = [7] ∧
      (documentedOffsets (tokenService (oneToken 7) Kind.identifier) (Sources.ofSystem fun _ => .ok bytes)
        "a.swift" ([], ())).1 = .ok [7] := by
  intro bytes position
  let kind : Int → Text := fun _ => Kind.identifier
  have hkinds : ∀ r ∈ [(⟨4300000011, 7, 1⟩ : Token.Record)],
      Resolves (tokenService (oneToken 7) Kind.identifier).nameOf [] r.uid (kind r.uid) :=
    resolves_tokenService _ _ 7
  have hrecords : Token.records (oneToken 7) = .ok [⟨4300000011, 7, 1⟩] := by decide
  have hfile : (Sources.ofSystem fun _ => .ok bytes).contents "a.swift" = .ok bytes := rfl
  obtain ⟨ends, hscans, -, -, hencoded⟩ :=
    documentedOffsets_of_file (s := ([], ())) rfl rfl hrecords hkinds hfile
  obtain rfl : ends = [6] := hscans.eq_commentEnds.trans (by decide +kernel)
  exact ⟨[6], hscans, by decide +kernel, hencoded ⟨_, rfl⟩⟩

/-- The byte that is replaced counts as three: the comment ends before the sixth byte and the identifier
begins there, but it is not found. -/
theorem documentedOffsets_replaced :
    let bytes := Utf8.encode "/// " ++ 0xFF :: Utf8.encode "\ny = 1\n"
    let text := Utf8.decode bytes
    let position := fun e => Utf8.afterLineFeed ((text.take e).count lineFeed) bytes
    Scans 0 text [6] ∧ [6].map position = [6] ∧
      [6].filterMap (fun e => leastFrom (position e) [6]) = [6] ∧
      (documentedOffsets (tokenService (oneToken 6) Kind.identifier) (Sources.ofSystem fun _ => .ok bytes)
        "a.swift" ([], ())).1 = .ok [] := by
  intro bytes text position
  let kind : Int → Text := fun _ => Kind.identifier
  have hkinds : ∀ r ∈ [(⟨4300000011, 6, 1⟩ : Token.Record)],
      Resolves (tokenService (oneToken 6) Kind.identifier).nameOf [] r.uid (kind r.uid) :=
    resolves_tokenService _ _ 6
  have hrecords : Token.records (oneToken 6) = .ok [⟨4300000011, 6, 1⟩] := by decide
  have hfile : (Sources.ofSystem fun _ => .ok bytes).contents "a.swift" = .ok bytes := rfl
  have hends : commentEnds 0 0 text = [6] := by decide +kernel
  have hoffsets : offsets text (Token.identifiersOf kind [⟨4300000011, 6, 1⟩]) = [] := by decide +kernel
  refine ⟨hends ▸ scans_commentEnds 0 text, by decide +kernel, by decide +kernel, ?_⟩
  rw [documentedOffsets_eq (s := ([], ())) rfl rfl hrecords hkinds hfile, hoffsets]

end Inspection

end SwiftLens
