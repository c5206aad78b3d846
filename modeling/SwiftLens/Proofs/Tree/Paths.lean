import SwiftLens.Proofs.Text.Decimal
import SwiftLens.Tree.Location

/-!
# Paths as they are spelled

A path names the way to a node step by step: a step to a name is spelled as a full stop and the name, a
step to a number as the number in decimal between brackets. `Location.Spells` says so of a text without
mentioning how paths are printed, so that what is said about a fault can give its path in these terms; the
printed path spells out the way (`Location.spells_text`).
-/

namespace SwiftLens

/-- A text is the numeral of a number: digits of that value, with no zero in front of others. -/
structure Text.IsNumeral (t : Text) (n : Nat) : Prop where
  digits : t.isDigits = true
  value : t.digitsValue = n
  leading : t.head? = some CodeUnit.zero → t = [CodeUnit.zero]

/-- A number is printed as its numeral. -/
theorem Text.isNumeral_ofNat (n : Nat) : (Text.ofNat n).IsNumeral n where
  digits := by simp [isDigits, all_isDigit_ofNat, ofNat_ne_nil]
  value := digitsValue_ofNat n
  leading := by
    intro hzero
    by_cases hn : n = 0
    · subst hn
      rfl
    · exact absurd hzero (head?_ofNat_ne_zero hn)

namespace Location

/-- A text spells out the way to a node. -/
inductive Spells : Location → Text → Prop
  /-- The node itself has the empty path. -/
  | here : Spells [] []
  /-- A step to a name is `.` and the name. -/
  | field (name : Text) {rest : Location} {way : Text} (h : Spells rest way) :
      Spells (.field name :: rest) (CodeUnit.dot :: name ++ way)
  /-- A step to a number is its numeral between `[` and `]`. -/
  | item {index : Nat} {numeral : Text} (hnumeral : numeral.IsNumeral index) {rest : Location} {way : Text}
      (h : Spells rest way) :
      Spells (.item index :: rest) (CodeUnit.openBracket :: numeral ++ CodeUnit.closeBracket :: way)

/-- The printed path spells out the way. -/
theorem spells_text (steps : Location) : Spells steps steps.text := by
  induction steps with
  | nil => exact .here
  | cons step rest ih =>
    cases step with
    | field name => exact .field name ih
    | item index =>
      have hitem := Spells.item (Text.isNumeral_ofNat index) ih
      have htext : Location.text (.item index :: rest) =
          CodeUnit.openBracket :: Text.ofNat index ++ CodeUnit.closeBracket :: text rest := by
        simp only [Location.text, List.flatMap_cons, Step.text]
        rw [List.append_assoc, List.append_assoc]
        rfl
      rwa [htext]

end Location

end SwiftLens
