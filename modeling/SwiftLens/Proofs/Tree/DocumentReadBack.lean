import SwiftLens.Command.Run
import SwiftLens.Proofs.Number.ReadBack

/-!
# Printed documents read back

`Document.printed_documents_read_back`: trees without byte strings and without numbers that are not
finite can be printed, each document is JSON, and a reader that keeps the order of members and every
digit finds in the documents, printed one after the other, exactly the contents of the trees. Two rows
of trees that are printed alike therefore have the same contents.

`Value.contents` is what a tree has in common with its document: signed and unsigned integers are no
longer told apart, and a double is the numeral it is written as, which denotes that double again. The
proof is one recursion through trees, items and entries over `Json.Reads`; the layout enters through
`enclose` alone.
-/

namespace SwiftLens

/-! ### Contents -/

namespace Value

mutual

/-- The tree has a printed form: there is no byte string in it, and every number is finite. -/
def IsPrintable : Value → Prop
  | data _ => False
  | double x => x.isFinite = true
  | array items => ItemsArePrintable items
  | dictionary entries => EntriesArePrintable entries
  | _ => True

/-- Every item has a printed form. -/
def ItemsArePrintable : List Value → Prop
  | [] => True
  | item :: rest => IsPrintable item ∧ ItemsArePrintable rest

/-- Every entry's value has a printed form. -/
def EntriesArePrintable : List (Text × Value) → Prop
  | [] => True
  | (_, value) :: rest => IsPrintable value ∧ EntriesArePrintable rest

end

mutual

/-- What a tree with a printed form says, as a JSON document; byte strings are left out as null. -/
def contents : Value → Json Numeral
  | null => .null
  | bool b => .bool b
  | int64 n => .number (Numeral.ofInt n)
  | uint64 n => .number (Numeral.ofInt n)
  | double x => .number x.numeral
  | string t => .string t
  | data _ => .null
  | array items => .array (itemsContents items)
  | dictionary entries => .object (entriesContents entries)

/-- The contents of items. -/
def itemsContents : List Value → List (Json Numeral)
  | [] => []
  | item :: rest => contents item :: itemsContents rest

/-- The contents of entries, under the same keys. -/
def entriesContents : List (Text × Value) → List (Text × Json Numeral)
  | [] => []
  | (key, value) :: rest => (key, contents value) :: entriesContents rest

end

end Value

namespace Json

mutual

/-- No object of the document has a key twice. -/
def HasDistinctKeys : Json Numeral → Prop
  | array items => ItemsHaveDistinctKeys items
  | object members => (Entries.keys members).Nodup ∧ MembersHaveDistinctKeys members
  | _ => True

/-- No object in the items has a key twice. -/
def ItemsHaveDistinctKeys : List (Json Numeral) → Prop
  | [] => True
  | item :: rest => HasDistinctKeys item ∧ ItemsHaveDistinctKeys rest

/-- No object in the values of the members has a key twice. -/
def MembersHaveDistinctKeys : List (Text × Json Numeral) → Prop
  | [] => True
  | (_, value) :: rest => HasDistinctKeys value ∧ MembersHaveDistinctKeys rest

end

end Json

namespace Value

/-- The contents of entries have the same keys in the same order. -/
theorem keys_entriesContents (entries : List (Text × Value)) :
    Entries.keys (entriesContents entries) = Entries.keys entries := by
  induction entries with
  | nil => rfl
  | cons entry rest ih => exact congrArg (entry.1 :: ·) ih

mutual

/-- The contents of a tree have distinct keys when the tree has. -/
theorem HasDistinctKeys.contents :
    (v : Value) → HasDistinctKeys v → v.contents.HasDistinctKeys
  | .null, _ | .bool _, _ | .int64 _, _ | .uint64 _, _ | .double _, _ | .string _, _
  | .data _, _ => trivial
  | .array items, h => ItemsHaveDistinctKeys.contents items h
  | .dictionary entries, h => by
      refine ⟨?_, EntriesHaveDistinctKeys.contents entries h.2⟩
      rw [keys_entriesContents]
      exact h.1

/-- The contents of items have distinct keys when the items have. -/
theorem ItemsHaveDistinctKeys.contents :
    (items : List Value) → ItemsHaveDistinctKeys items →
      Json.ItemsHaveDistinctKeys (itemsContents items)
  | [], _ => trivial
  | item :: rest, h =>
      ⟨HasDistinctKeys.contents item h.1, ItemsHaveDistinctKeys.contents rest h.2⟩

/-- The contents of entries have distinct keys when the values of the entries have. -/
theorem EntriesHaveDistinctKeys.contents :
    (entries : List (Text × Value)) → EntriesHaveDistinctKeys entries →
      Json.MembersHaveDistinctKeys (entriesContents entries)
  | [], _ => trivial
  | (_, value) :: rest, h =>
      ⟨HasDistinctKeys.contents value h.1, EntriesHaveDistinctKeys.contents rest h.2⟩

end

end Value

/-! ### Several documents -/

namespace Json

/-- The documents of a text, one after the other with blanks between them, of which there are fewer
than `fuel`. -/
def readAll : (fuel : Nat) → Text → Option (List (Json Numeral))
  | 0, _ => none
  | fuel + 1, t =>
    if (skip t).isEmpty then some []
    else do
      let (document, rest) ← readFront t
      (readAll fuel rest).map fun documents => document :: documents

/-- The documents that a whole text consists of. Each takes at least one unit. -/
def readStream? (t : Text) : Option (List (Json Numeral)) := readAll (t.length + 1) t

/-- There is no value in blanks. -/
theorem readValue_of_skip_nil {t : Text} (h : skip t = []) (fuel : Nat) : readValue fuel t = none := by
  cases fuel with
  | zero => rfl
  | succ fuel =>
    rw [readValue, h]
    rfl

/-- A text that reads as a value is not blank. -/
theorem Reads.skip_isEmpty {t : Text} {j : Json Numeral} (h : Reads t j) {rest : Text}
    (hrest : endsValue rest = true) : (skip (t ++ rest)).isEmpty = false := by
  rw [List.isEmpty_eq_false_iff]
  intro hnil
  have hread := h t.length rest le_rfl hrest
  rw [readValue_of_skip_nil hnil] at hread
  cases hread

end Json

namespace Document

/-- Documents as they are printed, each followed by a line feed. -/
def printed (documents : List Text) : Text := documents.flatMap fun document => document ++ "\n"

/-- Printing documents one after the other adds them to the output. -/
theorem output_foldl_print (documents : List Text) (c : Console) :
    (documents.foldl Console.print c).output = c.output ++ printed documents := by
  induction documents generalizing c with
  | nil => simp [printed]
  | cons document rest ih =>
    rw [List.foldl_cons, ih]
    simp [printed, Console.print, List.append_assoc]

/-- Printed texts that read as values are told apart again. -/
theorem readAll_printed {documents : List Text} {js : List (Json Numeral)}
    (h : List.Forall₂ Json.Reads documents js) (fuel : Nat) (hfuel : documents.length < fuel)
    (blanks : Text) (hblanks : blanks.all Json.isSeparator = true) :
    Json.readAll fuel (blanks ++ printed documents) = some js := by
  induction h generalizing fuel blanks with
  | nil =>
    obtain ⟨fuel, rfl⟩ : ∃ n, fuel = n + 1 := ⟨fuel - 1, by simp at hfuel; omega⟩
    have hskip : Json.skip (blanks ++ printed []) = [] := by
      rw [Json.skip_append hblanks]
      rfl
    rw [Json.readAll, hskip]
    rfl
  | @cons document j documents js hread _ ih =>
    obtain ⟨fuel, rfl⟩ : ∃ n, fuel = n + 1 := ⟨fuel - 1, by omega⟩
    have hfirst : Json.Reads (blanks ++ document) j := hread.blank hblanks
    have htext : blanks ++ printed (document :: documents)
        = (blanks ++ document) ++ ("\n" ++ printed documents) := by
      simp [printed, List.append_assoc]
    have hends : Json.endsValue ("\n" ++ printed documents) = true := rfl
    have hmore := ih fuel (by simpa using hfuel) "\n" rfl
    rw [htext, Json.readAll, hfirst.skip_isEmpty hends, hfirst.readFront hends]
    simp only [Bool.false_eq_true, if_false, Option.bind_eq_bind, Option.bind_some]
    rw [hmore]
    rfl

/-- There are at most as many documents as units. -/
theorem length_le_length_printed (documents : List Text) :
    documents.length ≤ (printed documents).length := by
  induction documents with
  | nil => simp
  | cons document rest ih =>
    have hcons : printed (document :: rest) = document ++ "\n" ++ printed rest := by
      simp [printed]
    have hfeed : (Text.ofString "\n").length = 1 := rfl
    rw [hcons, List.length_append, List.length_append, hfeed, List.length_cons]
    omega

/-- Texts that read as values, printed one after the other, are read as these values. -/
theorem readStream?_printed {documents : List Text} {js : List (Json Numeral)}
    (h : List.Forall₂ Json.Reads documents js) : Json.readStream? (printed documents) = some js := by
  have hlength := length_le_length_printed documents
  exact readAll_printed h _ (by omega) [] rfl

end Document

/-! ### Layout -/

namespace Document

open CodeUnit Json

/-- The indentation is blank. -/
theorem all_isSeparator_indent (level : Nat) : (indent level).all isSeparator = true := by
  rw [List.all_eq_true]
  intro c hc
  rw [List.eq_of_mem_replicate hc]
  rfl

/-- What stands before the closing bracket is blank. -/
theorem all_isSeparator_closing (level : Nat) : ("\n" ++ indent level : Text).all isSeparator = true := by
  rw [List.all_append, all_isSeparator_indent]
  rfl

/-- Lines of their own, with commas between them. `R` says what one line reads as, `S` what a text up to
the closing unit does: it is enough that `S` holds of a last line and is kept when a line and a comma come
before. -/
theorem reads_join {α : Type} {R : Text → α → Prop} {S : Text → List α → Prop} {closing : CodeUnit}
    (hlast : ∀ {line a ahead after}, R line a → ahead.all isSeparator = true →
      after.all isSeparator = true → S (ahead ++ line ++ (after ++ [closing])) [a])
    (hcons : ∀ {line a ahead u as}, R line a → ahead.all isSeparator = true → S u as →
      S (ahead ++ line ++ comma :: u) (a :: as))
    {lines : List Text} {as : List α} (h : List.Forall₂ R lines as) (hne : lines ≠ []) (level : Nat)
    {after : Text} (hafter : after.all isSeparator = true) (ahead : Text)
    (hahead : ahead.all isSeparator = true) :
    S (ahead ++ (Text.join ",\n" (lines.map fun line => indent level ++ line)
      ++ (after ++ [closing]))) as := by
  induction h generalizing ahead with
  | nil => exact absurd rfl hne
  | @cons line a lines as hline hrest ih =>
    have hblank : (ahead ++ indent level).all isSeparator = true := by
      rw [List.all_append, hahead, all_isSeparator_indent, Bool.and_self]
    cases lines with
    | nil =>
      cases hrest
      have hwhole := hlast hline hblank hafter
      rw [List.map_singleton, Text.join]
      rwa [List.append_assoc, List.append_assoc, ← List.append_assoc (indent level)] at hwhole
    | cons next lines =>
      -- The line feed after the comma is blank ahead of the next line.
      have hmore := ih (by simp) "\n" rfl
      have htext : ahead ++ (Text.join ",\n" ((line :: next :: lines).map fun line => indent level ++ line)
          ++ (after ++ [closing]))
          = (ahead ++ indent level) ++ line ++ comma :: ("\n" ++ (Text.join ",\n"
            ((next :: lines).map fun line => indent level ++ line) ++ (after ++ [closing]))) := by
        simp only [List.map_cons, Text.join, List.append_assoc]
        rfl
      rw [htext]
      exact hcons hline hblank hmore

/-- A line reads as a member: it is a key, a colon, a space and a value. -/
def ReadsMember (line : Text) (member : Text × Json Numeral) : Prop :=
  ∃ t, line = writeString member.1 ++ ": " ++ t ∧ Reads t member.2

/-- With blanks ahead of it, a line that reads as a member is the text of one. -/
theorem ReadsMember.eq_memberText {line : Text} {member : Text × Json Numeral}
    (h : ReadsMember line member) (ahead : Text) :
    ∃ value, ahead ++ line = memberText ahead member.1 value ∧ Reads value member.2 := by
  obtain ⟨t, rfl, ht⟩ := h
  have hspace : [space].all isSeparator = true := rfl
  refine ⟨space :: t, ?_, ht.blank hspace⟩
  rw [memberText, List.append_assoc]
  rfl

/-- Lines that read as items, in brackets, read as an array. -/
theorem reads_enclose_items {lines : List Text} {js : List (Json Numeral)}
    (h : List.Forall₂ Reads lines js) (level : Nat) : Reads (enclose "[" "]" level lines) (array js) := by
  cases h with
  | nil => exact reads_array_nil [] rfl
  | @cons line j lines js hline hrest =>
    refine reads_array (reads_join ?_ ?_ (.cons hline hrest) (by simp) (level + 1)
      (all_isSeparator_closing level) "\n" rfl)
    · intro line j ahead after hline hahead hafter
      exact readsItems_last (hline.blank hahead) hafter
    · intro line j ahead u js hline hahead hu
      have hnone : List.all ([] : Text) isSeparator = true := rfl
      exact readsItems_cons (hline.blank hahead) hnone hu

/-- Lines that read as members, in braces, read as an object. -/
theorem reads_enclose_members {lines : List Text} {members : List (Text × Json Numeral)}
    (h : List.Forall₂ ReadsMember lines members) (level : Nat) :
    Reads (enclose "\x7b" "\x7d" level lines) (object members) := by
  cases h with
  | nil => exact reads_object_nil [] rfl
  | @cons line member lines members hline hrest =>
    refine reads_object (reads_join ?_ ?_ (.cons hline hrest) (by simp) (level + 1)
      (all_isSeparator_closing level) "\n" rfl)
    · intro line member ahead after hline hahead hafter
      obtain ⟨value, htext, hvalue⟩ := hline.eq_memberText ahead
      rw [htext]
      exact readsMembers_last hvalue hahead hafter
    · intro line member ahead u members hline hahead hu
      obtain ⟨value, htext, hvalue⟩ := hline.eq_memberText ahead
      have hnone : List.all ([] : Text) isSeparator = true := rfl
      rw [htext]
      exact readsMembers_cons hvalue hahead hnone hu

/-! ### Trees -/

open Value

mutual

/-- A tree with a printed form is printed, at any level, as a text that reads as its contents. -/
theorem exists_render :
    (v : Value) → IsPrintable v → ∀ level, ∃ t, render level v = .ok t ∧ Reads t v.contents
  | .null, _, _ => ⟨_, rfl, reads_null⟩
  | .bool true, _, _ => ⟨_, rfl, reads_bool true⟩
  | .bool false, _, _ => ⟨_, rfl, reads_bool false⟩
  | .int64 n, _, _ => ⟨_, rfl, reads_integer n⟩
  | .uint64 n, _, _ => ⟨_, rfl, reads_integer n⟩
  | .double x, hx, _ => ⟨_, if_pos hx, Double.reads_text hx⟩
  | .string t, _, _ => ⟨_, rfl, reads_string t⟩
  | .data _, h, _ => absurd h id
  | .array items, h, level => by
      obtain ⟨lines, hlines, hreads⟩ := exists_renderItems items h (level + 1) 0
      refine ⟨_, ?_, reads_enclose_items hreads level⟩
      rw [render, hlines]
      rfl
  | .dictionary entries, h, level => by
      obtain ⟨lines, hlines, hreads⟩ := exists_renderEntries entries h (level + 1)
      refine ⟨_, ?_, reads_enclose_members hreads level⟩
      rw [render, hlines]
      rfl

/-- Items with a printed form are printed as texts that read as their contents. -/
theorem exists_renderItems :
    (items : List Value) → ItemsArePrintable items → ∀ level index,
      ∃ lines, renderItems level index items = .ok lines ∧
        List.Forall₂ Reads lines (itemsContents items)
  | [], _, _, _ => ⟨[], rfl, .nil⟩
  | item :: rest, h, level, index => by
      obtain ⟨line, hline, hread⟩ := exists_render item h.1 level
      obtain ⟨lines, hlines, hreads⟩ := exists_renderItems rest h.2 level (index + 1)
      refine ⟨line :: lines, ?_, .cons hread hreads⟩
      rw [renderItems, hline]
      simp only [Located.under]
      rw [hlines]
      rfl

/-- Entries with a printed form are printed as lines that read as their keys and contents. -/
theorem exists_renderEntries :
    (entries : List (Text × Value)) → EntriesArePrintable entries → ∀ level,
      ∃ lines, renderEntries level entries = .ok lines ∧
        List.Forall₂ ReadsMember lines (entriesContents entries)
  | [], _, _ => ⟨[], rfl, .nil⟩
  | (key, value) :: rest, h, level => by
      obtain ⟨line, hline, hread⟩ := exists_render value h.1 level
      obtain ⟨lines, hlines, hreads⟩ := exists_renderEntries rest h.2 level
      refine ⟨(writeString key ++ ": " ++ line) :: lines, ?_, .cons ⟨line, rfl, hread⟩ hreads⟩
      rw [renderEntries, hline]
      simp only [Located.under]
      rw [hlines]
      rfl

end

/-- Trees with a printed form are printed as texts that read as their contents. -/
theorem exists_documents {vs : List Value} (h : ∀ v ∈ vs, v.IsPrintable) :
    ∃ documents, vs.mapM (render 0) = .ok documents ∧
      List.Forall₂ Reads documents (vs.map contents) := by
  induction vs with
  | nil => exact ⟨[], rfl, .nil⟩
  | cons v vs ih =>
    obtain ⟨document, hrender, hread⟩ := exists_render v (h v List.mem_cons_self) 0
    obtain ⟨documents, hrenders, hreads⟩ := ih fun w hw => h w (List.mem_cons_of_mem v hw)
    refine ⟨document :: documents, ?_, .cons hread hreads⟩
    rw [List.mapM_cons, hrender, hrenders]
    rfl

/-- Trees without byte strings and without numbers that are not finite are printed as JSON documents.
Printed one after the other they are read as exactly the contents of the trees, in which no key is
duplicated and every double is the number that was printed, and other trees that are printed as the same
text have the same contents. -/
theorem printed_documents_read_back (vs : List Value) (hkeys : ∀ v ∈ vs, v.HasDistinctKeys)
    (hprintable : ∀ v ∈ vs, v.IsPrintable) :
    ∃ documents, vs.mapM (render 0) = .ok documents ∧
      (∀ c : Console, (documents.foldl Console.print c).output = c.output ++ printed documents) ∧
      List.Forall₂ (fun document v => Json.read? document = some v.contents) documents vs ∧
      Json.readStream? (printed documents) = some (vs.map contents) ∧
      (∀ v ∈ vs, v.contents.HasDistinctKeys) ∧
      (∀ x : Double, x.isFinite = true → x.numeral.toDouble = x.asWritten) ∧
      ∀ ws : List Value, (∀ w ∈ ws, w.IsPrintable) →
        (ws.mapM (render 0)).map printed = .ok (printed documents) →
          ws.map contents = vs.map contents := by
  obtain ⟨documents, hrender, hreads⟩ := exists_documents hprintable
  have hstream := readStream?_printed hreads
  refine ⟨documents, hrender, output_foldl_print documents, ?_, hstream,
    fun v hv => (hkeys v hv).contents, fun x hx => Double.toDouble_numeral hx, ?_⟩
  · rw [List.forall₂_map_right_iff] at hreads
    refine hreads.imp fun document v hread => ?_
    have hnone : List.all ([] : Text) isSeparator = true := rfl
    have hdocument := hread.read? hnone
    rwa [List.append_nil] at hdocument
  · intro ws hws hsame
    obtain ⟨others, hrender', hreads'⟩ := exists_documents hws
    rw [hrender'] at hsame
    have htext : printed others = printed documents := Except.ok.inj hsame
    have hstream' := readStream?_printed hreads'
    rw [htext, hstream] at hstream'
    exact (Option.some.inj hstream').symm

/-- A dictionary with a negative integer, one and a half, and a string of half a surrogate pair and a
quotation mark, and after it the greatest unsigned integer. -/
def sampleTrees : List Value :=
  [.dictionary [("a", .array [.int64 (-1), .double ⟨0x3FF8000000000000⟩]), ("b", .string [0xD800, quote])],
    .uint64 (2 ^ 64 - 1)]

/-- The sample trees are printed, and what is printed is read back as what they hold. -/
theorem printed_documents_read_back_sampleTrees :
    ∃ documents, sampleTrees.mapM (render 0) = .ok documents ∧
      Json.readStream? (printed documents) = some (sampleTrees.map contents) := by
  have hkeys : ∀ v ∈ sampleTrees, v.HasDistinctKeys :=
    List.forall_mem_cons.mpr ⟨⟨by decide, ⟨trivial, trivial, trivial⟩, trivial, trivial⟩,
      List.forall_mem_singleton.mpr trivial⟩
  have hfinite : Double.isFinite ⟨0x3FF8000000000000⟩ = true := by decide
  have hprintable : ∀ v ∈ sampleTrees, v.IsPrintable :=
    List.forall_mem_cons.mpr ⟨⟨⟨trivial, hfinite, trivial⟩, trivial, trivial⟩,
      List.forall_mem_singleton.mpr trivial⟩
  obtain ⟨documents, hrender, _, _, hstream, _⟩ :=
    printed_documents_read_back sampleTrees hkeys hprintable
  exact ⟨documents, hrender, hstream⟩

end Document

end SwiftLens
