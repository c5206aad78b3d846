import SwiftLens.Proofs.Json.Layout
import SwiftLens.Proofs.Tree.DocumentReadBack

/-!
# The layout of a document

A document is laid out as the standard lays out JSON with a gap of two spaces. `Document.document_layout`
says so in two ways: what is printed is what the writer of the standard writes, which keeps no count of
levels but a growing and shrinking indentation, and its lines are those of the outline, where everything
stands two spaces deeper than the brackets around it.

`Value.figures` is what is laid out: the tree as JSON, with integers, signed and unsigned, apart from
doubles. That both writers agree is `render_eq_laidOut`, by recursion on the tree; containers meet in
`enclose_eq_wrap`.
-/

namespace SwiftLens

namespace Value

mutual

/-- What a tree with a printed form says, as JSON whose numbers are integers and doubles; byte strings are
left out as null. -/
def figures : Value → Json (Int ⊕ Double)
  | null => .null
  | bool b => .bool b
  | int64 n => .number (.inl n)
  | uint64 n => .number (.inl n)
  | double x => .number (.inr x)
  | string t => .string t
  | data _ => .null
  | array items => .array (itemsFigures items)
  | dictionary entries => .object (entriesFigures entries)

/-- What items say. -/
def itemsFigures : List Value → List (Json (Int ⊕ Double))
  | [] => []
  | item :: rest => figures item :: itemsFigures rest

/-- What entries say, under the same keys. -/
def entriesFigures : List (Text × Value) → List (Text × Json (Int ⊕ Double))
  | [] => []
  | (key, value) :: rest => (key, figures value) :: entriesFigures rest

end

end Value

namespace Document

open Value Json

/-- An integer digit for digit, or a double as written. -/
def figureText : Int ⊕ Double → Text := Sum.elim Text.ofInt writeNumber

/-- An integer is written without control characters. -/
theorem isControlFree_ofInt (n : Int) : (Text.ofInt n).isControlFree = true := by
  unfold Text.ofInt
  split_ifs
  · exact Text.isControlFree_ofNat n.natAbs
  · exact Text.isControlFree_ofNat n.natAbs

/-- A number of a document is written without control characters. -/
theorem isControlFree_figureText : ∀ n, (figureText n).isControlFree = true
  | .inl n => isControlFree_ofInt n
  | .inr x => isControlFree_writeNumber x

/-- Members are enclosed at a level as they are wrapped at its indentation. -/
theorem enclose_eq_wrap (opening closing : Text) (level : Nat) (lines : List Text) :
    enclose opening closing level lines =
      wrap "  " opening closing (indent (level + 1)) (indent level) lines := by
  cases lines with
  | nil => rfl
  | cons line rest =>
    show opening ++ "\n" ++ (Text.join ",\n" ((line :: rest).map (indent (level + 1) ++ ·))
      ++ ("\n" ++ indent level ++ closing)) = _
    rw [Text.join_map_append _ _ (List.cons_ne_nil line rest), wrap_cons (by decide)]
    simp only [List.append_assoc]

mutual

/-- A tree is printed at a level as it is laid out at the indentation of that level. -/
theorem render_eq_laidOut : (v : Value) → v.IsPrintable → ∀ level,
    render level v = .ok (laidOut "  " figureText (indent level) v.figures)
  | .null, _, _ | .bool true, _, _ | .bool false, _, _ | .int64 _, _, _ | .uint64 _, _, _
  | .string _, _, _ => rfl
  | .double x, h, level => by
      have hx : x.isFinite = true := h
      show (if x.isFinite then _ else _) = Except.ok (if x.isFinite then _ else _)
      rw [if_pos hx, if_pos hx]
  | .data _, h, _ => absurd h id
  | .array items, h, level => by
      rw [render, renderItems_eq_laidOut items h (level + 1) 0, figures, laidOut_array,
        show indent level ++ "  " = indent (level + 1) from margin_append level]
      exact congrArg Except.ok (enclose_eq_wrap _ _ level _)
  | .dictionary entries, h, level => by
      rw [render, renderEntries_eq_laidOut entries h (level + 1), figures, laidOut_object,
        show indent level ++ "  " = indent (level + 1) from margin_append level]
      exact congrArg Except.ok (enclose_eq_wrap _ _ level _)

/-- Items with a printed form are printed as they are laid out. -/
theorem renderItems_eq_laidOut : (items : List Value) → ItemsArePrintable items → ∀ level index,
    renderItems level index items =
      .ok ((itemsFigures items).map (laidOut "  " figureText (indent level)))
  | [], _, _, _ => rfl
  | item :: rest, h, level, index => by
      rw [renderItems, render_eq_laidOut item h.1 level]
      show (renderItems level (index + 1) rest).map _ = _
      rw [renderItems_eq_laidOut rest h.2 level (index + 1)]
      rfl

/-- Entries with a printed form are printed as they are laid out. -/
theorem renderEntries_eq_laidOut : (entries : List (Text × Value)) → EntriesArePrintable entries →
    ∀ level, renderEntries level entries =
      .ok ((entriesFigures entries).map (memberLaidOut "  " figureText (indent level)))
  | [], _, _ => rfl
  | (key, value) :: rest, h, level => by
      rw [renderEntries, render_eq_laidOut value h.1 level]
      show (renderEntries level rest).map _ = _
      rw [renderEntries_eq_laidOut rest h.2 level]
      rfl

end

/-- A tree without byte strings and without numbers that are not finite is printed as the standard lays it
out with a gap of two spaces. The lines of the document are those of the outline: two spaces for each level,
the members of a container each on a line of its own one level deeper than its brackets, and empty
containers on one line. -/
theorem document_layout (v : Value) (h : v.IsPrintable) :
    ∃ t, render 0 v = .ok t ∧
      (layOut "  " figureText v.figures).run [] = (t, []) ∧
      t.splitOn (· == CodeUnit.lineFeed) = (outline figureText 0 [] [] v.figures).map Line.print :=
  ⟨_, render_eq_laidOut v h 0, layOut_run _ _ _ _, splitOn_laidOut isControlFree_figureText v.figures⟩

/-- A dictionary that holds an empty container of either kind, and two levels down the least signed integer
and a double. -/
def nestedTree : Value :=
  .dictionary [("a", .array []),
    ("b", .array [.int64 (-(2 ^ 63)), .dictionary [("c", .double ⟨0x3FF8000000000000⟩)], .dictionary []])]

/-- The sample is printed on ten lines, its empty containers on one each. -/
theorem document_layout_nestedTree :
    nestedTree.IsPrintable ∧ ∃ t, render 0 nestedTree = .ok t ∧
      t.splitOn (· == CodeUnit.lineFeed) =
        (["\x7b", "  \"a\": [],", "  \"b\": [", "    -9223372036854775808,", "    \x7b", "      \"c\": 1.5",
          "    \x7d,", "    \x7b\x7d", "  ]", "\x7d"] : List String).map Text.ofString := by
  have hfinite : Double.isFinite ⟨0x3FF8000000000000⟩ = true := by decide
  have hprintable : nestedTree.IsPrintable :=
    ⟨trivial, ⟨trivial, ⟨hfinite, trivial⟩, trivial, trivial⟩, trivial⟩
  obtain ⟨t, hrender, -, hlines⟩ := document_layout nestedTree hprintable
  refine ⟨hprintable, t, hrender, hlines.trans ?_⟩
  decide +kernel

end Document

end SwiftLens
