import SwiftLens.Proofs.Json.Strings

/-!
# Texts that read as values

`Reads t j` says that the reader takes exactly `t` from the front of any text that goes on after `t` as
a text may go on after a value, and makes `j` of it. The lemmas below build such texts up in the way
the grammar does: words, strings and numerals read as what they are, and items or members that read as
such read as an array or object once brackets and commas are put around them. Blanks may stand wherever
the grammar has them, so that the lemmas serve every layout.

The readers of arrays and objects count their steps. A text is never shorter than the number of steps
it takes, which is why `Reads` bounds the steps by the length.
-/

namespace SwiftLens.Json

open CodeUnit

/-! ### Blanks -/

/-- Blanks at the front are skipped. -/
theorem skip_append {blanks : Text} (h : blanks.all isSeparator = true) (t : Text) :
    skip (blanks ++ t) = skip t := by
  rw [skip, skip, List.dropWhile_append_of_pos (List.all_eq_true.mp h)]

/-- A token is not skipped. -/
theorem skip_cons {c : CodeUnit} (h : isSeparator c = false) (t : Text) :
    skip (c :: t) = c :: t := by
  rw [skip, List.dropWhile_cons, h]
  rfl

/-- Between two tokens there may be any blanks. -/
theorem skip_append_cons {blanks : Text} (h : blanks.all isSeparator = true) {c : CodeUnit}
    (hc : isSeparator c = false) (t : Text) : skip (blanks ++ c :: t) = c :: t := by
  rw [skip_append h, skip_cons hc]

/-- Skipping twice skips no more. -/
theorem skip_skip (t : Text) : skip (skip t) = skip t :=
  List.dropWhile_idempotent isSeparator t

/-- The reader of values looks at the first token only. -/
theorem readValue_congr {t u : Text} (h : skip t = skip u) (fuel : Nat) :
    readValue fuel t = readValue fuel u := by
  cases fuel with
  | zero => rfl
  | succ fuel => rw [readValue, readValue, h]

/-- The reader of items looks at the first token only. -/
theorem readItems_congr {t u : Text} (h : skip t = skip u) (fuel : Nat) :
    readItems fuel t = readItems fuel u := by
  cases fuel with
  | zero => rfl
  | succ fuel => rw [readItems, readItems, readValue_congr h]

/-- The reader of members looks at the first token only. -/
theorem readMembers_congr {t u : Text} (h : skip t = skip u) (fuel : Nat) :
    readMembers fuel t = readMembers fuel u := by
  cases fuel with
  | zero => rfl
  | succ fuel => rw [readMembers, readMembers, h]

/-! ### The first unit of a value -/

/-- A quotation mark begins a string. -/
theorem readValue_of_quote {t rest : Text} (h : skip t = quote :: rest) (fuel : Nat) :
    readValue (fuel + 1) t = (readString rest).map fun (s, rest) => (string s, rest) := by
  rw [readValue, h]
  rfl

/-- A bracket begins an array. -/
theorem readValue_of_bracket {t rest : Text} (h : skip t = openBracket :: rest) (fuel : Nat) :
    readValue (fuel + 1) t = match skip rest with
      | closeBracket :: rest => some (array [], rest)
      | rest => (readItems fuel rest).map fun (items, rest) => (array items, rest) := by
  rw [readValue, h]
  rfl

/-- A brace begins an object. -/
theorem readValue_of_brace {t rest : Text} (h : skip t = openBrace :: rest) (fuel : Nat) :
    readValue (fuel + 1) t = match skip rest with
      | closeBrace :: rest => some (object [], rest)
      | rest => (readMembers fuel rest).map fun (members, rest) => (object members, rest) := by
  rw [readValue, h]
  rfl

/-- Whether a unit may begin a numeral. -/
def beginsNumeral (c : CodeUnit) : Bool := c == minus || c.isDigit

/-- A unit that begins a numeral is none of those that do not. -/
theorem ne_of_beginsNumeral {c d : CodeUnit} (hc : beginsNumeral c = true)
    (hd : beginsNumeral d = false) : c ≠ d := by
  rintro rfl
  rw [hc] at hd
  cases hd

/-- A unit that begins a numeral is no blank. -/
theorem isSeparator_of_beginsNumeral {c : CodeUnit} (hc : beginsNumeral c = true) :
    isSeparator c = false := by
  rw [Bool.eq_false_iff]
  intro h
  simp only [isSeparator, Bool.or_eq_true, beq_iff_eq] at h
  rcases h with ((rfl | rfl) | rfl) | rfl <;> exact absurd hc (by decide)

/-- A text that begins with another unit does not begin with a word. -/
theorem readWord_of_ne {c d : CodeUnit} (h : d ≠ c) (word rest : Text) :
    readWord (d :: word) (c :: rest) = none := by
  have hstart : Text.startsWith (c :: rest) (d :: word) = false := by
    rw [Text.startsWith, List.isPrefixOf, beq_eq_false_iff_ne.mpr h, Bool.false_and]
  rw [readWord, hstart]
  rfl

/-- Where no container, string or word begins, a numeral is read. -/
theorem readValue_of_beginsNumeral {t rest : Text} {c : CodeUnit} (h : skip t = c :: rest)
    (hc : beginsNumeral c = true) (fuel : Nat) :
    readValue (fuel + 1) t = (readNumeral (c :: rest)).map fun (n, rest) => (number n, rest) := by
  have hnull : readWord "null" (c :: rest) = none :=
    readWord_of_ne (ne_of_beginsNumeral hc (by decide)).symm "ull" rest
  have htrue : readWord "true" (c :: rest) = none :=
    readWord_of_ne (ne_of_beginsNumeral hc (by decide)).symm "rue" rest
  have hfalse : readWord "false" (c :: rest) = none :=
    readWord_of_ne (ne_of_beginsNumeral hc (by decide)).symm "alse" rest
  rw [readValue, h]
  split
  · next heq => cases heq; exact absurd hc (by decide)
  · next heq => cases heq; exact absurd hc (by decide)
  · next heq => cases heq; exact absurd hc (by decide)
  · rw [hnull, htrue, hfalse]

/-! ### Texts that read as values -/

/-- Whether a value may end where the given text goes on: at its end, at a blank, or at the unit that
follows a value in an array or object. -/
def endsValue : Text → Bool
  | [] => true
  | c :: _ => isSeparator c || c == comma || c == closeBracket || c == closeBrace

/-- The reader makes `j` of the text and leaves what follows. -/
def Reads (t : Text) (j : Json Numeral) : Prop :=
  ∀ fuel rest, t.length ≤ fuel → endsValue rest = true → readValue fuel (t ++ rest) = some (j, rest)

/-- The reader makes `js` of the text, which ends with the closing bracket, and leaves what follows. -/
def ReadsItems (t : Text) (js : List (Json Numeral)) : Prop :=
  ∀ fuel rest, t.length ≤ fuel → readItems fuel (t ++ rest) = some (js, rest)

/-- The reader makes `members` of the text, which ends with the closing brace, and leaves what
follows. -/
def ReadsMembers (t : Text) (members : List (Text × Json Numeral)) : Prop :=
  ∀ fuel rest, t.length ≤ fuel → readMembers fuel (t ++ rest) = some (members, rest)

/-- A value may end at blanks or at any of the units that follow a value. -/
theorem endsValue_append_cons {blanks : Text} (h : blanks.all isSeparator = true) {c : CodeUnit}
    (hc : c = comma ∨ c = closeBracket ∨ c = closeBrace) (rest : Text) :
    endsValue (blanks ++ c :: rest) = true := by
  cases blanks with
  | nil => rcases hc with rfl | rfl | rfl <;> rfl
  | cons b blanks =>
    have hb : isSeparator b = true := List.all_eq_true.mp h b List.mem_cons_self
    simp only [List.cons_append, endsValue, hb, Bool.true_or]

/-- Blanks in front of a value change nothing. -/
theorem Reads.blank {t blanks : Text} {j : Json Numeral} (h : Reads t j)
    (hblanks : blanks.all isSeparator = true) : Reads (blanks ++ t) j := by
  intro fuel rest hfuel hrest
  have hskip : skip (blanks ++ t ++ rest) = skip (t ++ rest) := by
    rw [List.append_assoc, skip_append hblanks]
  have ht : t.length ≤ fuel := by
    rw [List.length_append] at hfuel
    omega
  rw [readValue_congr hskip]
  exact h fuel rest ht hrest

/-! ### Leaves -/

/-- The word `null` reads as null. -/
theorem reads_null : Reads "null" null := by
  intro fuel rest hfuel _
  cases fuel with
  | zero => exact absurd hfuel (by decide)
  | succ fuel => rfl

/-- A truth value reads as itself. -/
theorem reads_bool (b : Bool) : Reads (if b then "true" else "false") (bool b) := by
  intro fuel rest hfuel _
  cases fuel with
  | zero => cases b <;> exact absurd hfuel (by decide)
  | succ fuel => cases b <;> rfl

/-- A written string reads as that string. -/
theorem reads_string (t : Text) : Reads (writeString t) (string t) := by
  intro fuel rest hfuel _
  cases fuel with
  | zero => simp [writeString] at hfuel; exact absurd hfuel.1 (by decide)
  | succ fuel =>
    have hskip : skip (writeString t ++ rest) = quote :: (escapeAll t ++ quote :: rest) := by
      rw [writeString_append, skip_cons (by decide)]
    rw [readValue_of_quote hskip, readString_escapeAll]
    rfl

/-- What the reader takes for a numeral reads as a number, provided that it begins as numerals do. -/
theorem reads_number {c : CodeUnit} {t : Text} {m : Numeral} (hc : beginsNumeral c = true)
    (h : ∀ rest, endsValue rest = true → readNumeral (c :: t ++ rest) = some (m, rest)) :
    Reads (c :: t) (number m) := by
  intro fuel rest hfuel hrest
  cases fuel with
  | zero => simp at hfuel
  | succ fuel =>
    have hskip : skip (c :: t ++ rest) = c :: (t ++ rest) := by
      rw [List.cons_append, skip_cons (isSeparator_of_beginsNumeral hc)]
    rw [readValue_of_beginsNumeral hskip hc, ← List.cons_append, h rest hrest]
    rfl

/-! ### Arrays -/

/-- Two brackets, with any blanks between them, read as the empty array. -/
theorem reads_array_nil (blanks : Text) (hblanks : blanks.all isSeparator = true) :
    Reads (openBracket :: (blanks ++ [closeBracket])) (array []) := by
  intro fuel rest hfuel _
  cases fuel with
  | zero => simp at hfuel
  | succ fuel =>
    rw [List.cons_append, readValue_of_bracket (skip_cons (by decide) _), List.append_assoc,
      List.singleton_append, skip_append_cons hblanks (by decide)]
    rfl

/-- An item before the closing bracket ends the items. -/
theorem readItems_of_closeBracket {t rest rest' : Text} {j : Json Numeral} {fuel : Nat}
    (hitem : readValue fuel t = some (j, rest)) (hrest : skip rest = closeBracket :: rest') :
    readItems (fuel + 1) t = some ([j], rest') := by
  rw [readItems, hitem, Option.bind_eq_bind, Option.bind_some]
  dsimp only
  rw [hrest]
  rfl

/-- An item before a comma is followed by more items. -/
theorem readItems_of_comma {t rest rest' : Text} {j : Json Numeral} {fuel : Nat}
    (hitem : readValue fuel t = some (j, rest)) (hrest : skip rest = comma :: rest') :
    readItems (fuel + 1) t = (readItems fuel rest').map fun (js, rest) => (j :: js, rest) := by
  rw [readItems, hitem, Option.bind_eq_bind, Option.bind_some]
  dsimp only
  rw [hrest]
  rfl

/-- The last item of an array is followed by the closing bracket. -/
theorem readsItems_last {t blanks : Text} {j : Json Numeral} (h : Reads t j)
    (hblanks : blanks.all isSeparator = true) :
    ReadsItems (t ++ (blanks ++ [closeBracket])) [j] := by
  intro fuel rest hfuel
  simp only [List.length_append, List.length_singleton] at hfuel
  cases fuel with
  | zero => omega
  | succ fuel =>
    have hitem := h fuel (blanks ++ closeBracket :: rest) (by omega)
      (endsValue_append_cons hblanks (by simp) rest)
    simp only [List.append_assoc, List.singleton_append]
    exact readItems_of_closeBracket hitem (skip_append_cons hblanks (by decide) rest)

/-- An item before others is followed by a comma. -/
theorem readsItems_cons {t blanks u : Text} {j : Json Numeral} {js : List (Json Numeral)}
    (h : Reads t j) (hblanks : blanks.all isSeparator = true) (hu : ReadsItems u js) :
    ReadsItems (t ++ (blanks ++ comma :: u)) (j :: js) := by
  intro fuel rest hfuel
  simp only [List.length_append, List.length_cons] at hfuel
  cases fuel with
  | zero => omega
  | succ fuel =>
    have hitem := h fuel (blanks ++ comma :: (u ++ rest)) (by omega)
      (endsValue_append_cons hblanks (by simp) _)
    simp only [List.append_assoc, List.cons_append]
    rw [readItems_of_comma hitem (skip_append_cons hblanks (by decide) _), hu fuel rest (by omega)]
    rfl

/-- No value begins with a closing bracket. -/
theorem readValue_of_closeBracket {t rest : Text} (h : skip t = closeBracket :: rest) (fuel : Nat) :
    readValue fuel t = none := by
  cases fuel with
  | zero => rfl
  | succ fuel =>
    rw [readValue, h]
    rfl

/-- No items begin with a closing bracket. -/
theorem readItems_of_closeBracket_front {t rest : Text} (h : skip t = closeBracket :: rest)
    (fuel : Nat) : readItems fuel t = none := by
  cases fuel with
  | zero => rfl
  | succ fuel =>
    rw [readItems, readValue_of_closeBracket h]
    rfl

/-- Items after an opening bracket read as an array. -/
theorem reads_array {u : Text} {js : List (Json Numeral)} (hu : ReadsItems u js) :
    Reads (openBracket :: u) (array js) := by
  intro fuel rest hfuel _
  cases fuel with
  | zero => simp at hfuel
  | succ fuel =>
    have hitems := hu fuel rest (by simpa using hfuel)
    rw [List.cons_append, readValue_of_bracket (skip_cons (by decide) _)]
    split
    · next rest' heq =>
      -- Nothing that reads as items begins with the closing bracket.
      rw [readItems_of_closeBracket_front heq] at hitems
      cases hitems
    · rw [readItems_congr (skip_skip _), hitems]
      rfl

/-! ### Objects -/

/-- Two braces, with any blanks between them, read as the empty object. -/
theorem reads_object_nil (blanks : Text) (hblanks : blanks.all isSeparator = true) :
    Reads (openBrace :: (blanks ++ [closeBrace])) (object []) := by
  intro fuel rest hfuel _
  cases fuel with
  | zero => simp at hfuel
  | succ fuel =>
    rw [List.cons_append, readValue_of_brace (skip_cons (by decide) _), List.append_assoc,
      List.singleton_append, skip_append_cons hblanks (by decide)]
    rfl

/-- A key, a colon and a value, with any blanks before the key. -/
def memberText (blanks key value : Text) : Text := blanks ++ (writeString key ++ colon :: value)

/-- The length of a member. -/
theorem length_memberText (blanks key value : Text) :
    value.length < (memberText blanks key value).length := by
  simp only [memberText, List.length_append, List.length_cons]
  omega

/-- What is done with the text after the value of a member. -/
def readMore (fuel : Nat) (key : Text) (value : Json Numeral) (rest : Text) :
    Option (List (Text × Json Numeral) × Text) :=
  match skip rest with
  | comma :: rest =>
    (readMembers fuel rest).map fun (members, rest) => ((key, value) :: members, rest)
  | closeBrace :: rest => some ([(key, value)], rest)
  | _ => none

/-- Reading members begins with reading a member. -/
theorem readMembers_memberText {blanks key value rest : Text} {j : Json Numeral} {fuel : Nat}
    (hblanks : blanks.all isSeparator = true)
    (hvalue : readValue fuel (value ++ rest) = some (j, rest)) :
    readMembers (fuel + 1) (memberText blanks key value ++ rest) = readMore fuel key j rest := by
  have hskip : skip (memberText blanks key value ++ rest)
      = quote :: (escapeAll key ++ quote :: (colon :: (value ++ rest))) := by
    rw [memberText, List.append_assoc, skip_append hblanks, List.append_assoc, writeString_append,
      skip_cons (by decide), List.cons_append]
  have hcolon : skip (colon :: (value ++ rest)) = colon :: (value ++ rest) := skip_cons (by decide) _
  rw [readMembers, hskip]
  change (readString _).bind _ = _
  rw [readString_escapeAll, Option.bind_some]
  dsimp only
  rw [hcolon]
  change (readValue fuel _).bind _ = _
  rw [hvalue, Option.bind_some]
  rfl

/-- The last member of an object is followed by the closing brace. -/
theorem readsMembers_last {before key value after : Text} {j : Json Numeral} (h : Reads value j)
    (hbefore : before.all isSeparator = true) (hafter : after.all isSeparator = true) :
    ReadsMembers (memberText before key value ++ (after ++ [closeBrace])) [(key, j)] := by
  intro fuel rest hfuel
  have hlength := length_memberText before key value
  simp only [List.length_append, List.length_singleton] at hfuel
  cases fuel with
  | zero => omega
  | succ fuel =>
    have hvalue := h fuel (after ++ closeBrace :: rest) (by omega)
      (endsValue_append_cons hafter (by simp) rest)
    simp only [List.append_assoc, List.singleton_append]
    rw [readMembers_memberText hbefore hvalue, readMore, skip_append_cons hafter (by decide)]
    rfl

/-- A member before others is followed by a comma. -/
theorem readsMembers_cons {before key value after u : Text} {j : Json Numeral}
    {members : List (Text × Json Numeral)} (h : Reads value j)
    (hbefore : before.all isSeparator = true) (hafter : after.all isSeparator = true)
    (hu : ReadsMembers u members) :
    ReadsMembers (memberText before key value ++ (after ++ comma :: u)) ((key, j) :: members) := by
  intro fuel rest hfuel
  have hlength := length_memberText before key value
  simp only [List.length_append, List.length_cons] at hfuel
  cases fuel with
  | zero => omega
  | succ fuel =>
    have hvalue := h fuel (after ++ comma :: (u ++ rest)) (by omega)
      (endsValue_append_cons hafter (by simp) _)
    simp only [List.append_assoc, List.cons_append]
    rw [readMembers_memberText hbefore hvalue, readMore, skip_append_cons hafter (by decide)]
    change (readMembers fuel (u ++ rest)).map _ = _
    rw [hu fuel rest (by omega)]
    rfl

/-- No members begin with a closing brace. -/
theorem readMembers_of_closeBrace_front {t rest : Text} (h : skip t = closeBrace :: rest)
    (fuel : Nat) : readMembers fuel t = none := by
  cases fuel with
  | zero => rfl
  | succ fuel =>
    rw [readMembers, h]
    rfl

/-- Members after an opening brace read as an object. -/
theorem reads_object {u : Text} {members : List (Text × Json Numeral)} (hu : ReadsMembers u members) :
    Reads (openBrace :: u) (object members) := by
  intro fuel rest hfuel _
  cases fuel with
  | zero => simp at hfuel
  | succ fuel =>
    have hmembers := hu fuel rest (by simpa using hfuel)
    rw [List.cons_append, readValue_of_brace (skip_cons (by decide) _)]
    split
    · next rest' heq =>
      rw [readMembers_of_closeBrace_front heq] at hmembers
      cases hmembers
    · rw [readMembers_congr (skip_skip _), hmembers]
      rfl

/-! ### Whole texts -/

/-- A text that reads as a value is taken from the front of any text that goes on as after a value. -/
theorem Reads.readFront {t : Text} {j : Json Numeral} (h : Reads t j) {rest : Text}
    (hrest : endsValue rest = true) : readFront (t ++ rest) = some (j, rest) := by
  refine h _ rest ?_ hrest
  rw [List.length_append]
  omega

/-- A text that reads as a value is a document, also with blanks after it. -/
theorem Reads.read? {t blanks : Text} {j : Json Numeral} (h : Reads t j)
    (hblanks : blanks.all isSeparator = true) : read? (t ++ blanks) = some j := by
  have hends : endsValue blanks = true := by
    cases blanks with
    | nil => rfl
    | cons b blanks =>
      have hb : isSeparator b = true := List.all_eq_true.mp hblanks b List.mem_cons_self
      simp only [endsValue, hb, Bool.true_or]
  have hskip : skip blanks = [] := by
    rw [← List.append_nil blanks, skip_append hblanks]
    rfl
  rw [Json.read?, h.readFront hends, Option.bind_eq_bind, Option.bind_some]
  dsimp only
  rw [hskip]
  rfl

end SwiftLens.Json
