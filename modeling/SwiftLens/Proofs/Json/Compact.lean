import SwiftLens.Proofs.Number.ReadBack

/-!
# Values as single lines

A value is written without blanks and with every control character escaped, so that its text is a single
line (`isControlFree_write`), whatever strings and keys it holds. The text reads back:
`Json.parse?_write` says that the meaning of what was written is the value itself, except that a number
that is not finite has become null and a negative zero has lost its sign (`Json.asWritten`).

The meaning of an object is not its list of members: a repeated key would be merged and array indices
would come first. `HasPlainKeys` says of a value that neither happens to any of its objects.
-/

namespace SwiftLens

/-! ### Control characters -/

/-- No unit of the text is a control character, so that the text has no line ends. -/
def Text.isControlFree (t : Text) : Bool := t.all fun c => 0x20 ≤ c

namespace Text

/-- There are no control characters in two texts together if there are none in either. -/
@[simp] theorem isControlFree_append (t u : Text) :
    isControlFree (t ++ u) = (isControlFree t && isControlFree u) := List.all_append

/-- A unit below the space does not occur in a text without control characters. -/
theorem not_mem_of_isControlFree {t : Text} (h : isControlFree t = true) {c : CodeUnit}
    (hc : c < 0x20) : c ∉ t := by
  intro hmem
  have hle : (0x20 : CodeUnit) ≤ c := by simpa using List.all_eq_true.mp h c hmem
  exact absurd hc (UInt16.not_lt.mpr hle)

/-- Every unit of the text is a printable character of ASCII, the space among them. -/
def isPrintable (t : Text) : Bool := t.all fun c => 0x20 ≤ c && c < 0x7F

/-- Two texts together are printable if both are. -/
@[simp] theorem isPrintable_append (t u : Text) :
    isPrintable (t ++ u) = (isPrintable t && isPrintable u) := List.all_append

/-- Printable characters are no control characters. -/
theorem isControlFree_of_isPrintable {t : Text} (h : isPrintable t = true) : isControlFree t = true := by
  rw [isPrintable, List.all_eq_true] at h
  exact List.all_eq_true.mpr fun c hc => (Bool.and_eq_true _ _ ▸ h c hc).1

/-- Digits are printable. -/
theorem isPrintable_of_isDigit {t : Text} (h : t.all CodeUnit.isDigit = true) : isPrintable t = true := by
  rw [List.all_eq_true] at h
  refine List.all_eq_true.mpr fun c hc => ?_
  have hdigit := h c hc
  simp only [CodeUnit.isDigit, Bool.and_eq_true, decide_eq_true_eq] at hdigit ⊢
  exact ⟨UInt16.le_trans (by decide) hdigit.1, UInt16.lt_of_le_of_lt hdigit.2 (by decide)⟩

/-- The digits of a number are printable. -/
theorem isPrintable_ofNat (n : Nat) : isPrintable (ofNat n) = true :=
  isPrintable_of_isDigit (all_isDigit_ofNat n)

/-- The digits of a number are no control characters. -/
theorem isControlFree_ofNat (n : Nat) : isControlFree (ofNat n) = true :=
  isControlFree_of_isPrintable (isPrintable_ofNat n)

/-- A hexadecimal digit is printable. -/
theorem isPrintable_hexDigit {n : Nat} (h : n < 16) : isPrintable [hexDigit n] = true := by
  interval_cases n <;> rfl

/-- Four hexadecimal digits are printable. -/
theorem isPrintable_hex4 (c : CodeUnit) : isPrintable (hex4 c) = true := by
  have hc : c.toNat < 0x10000 := c.toNat_lt
  have hsplit : hex4 c = [hexDigit (c.toNat / 0x1000)] ++ [hexDigit (c.toNat / 0x100 % 0x10)]
      ++ [hexDigit (c.toNat / 0x10 % 0x10)] ++ [hexDigit (c.toNat % 0x10)] := rfl
  rw [hsplit, isPrintable_append, isPrintable_append, isPrintable_append,
    isPrintable_hexDigit (by omega), isPrintable_hexDigit (by omega),
    isPrintable_hexDigit (by omega), isPrintable_hexDigit (by omega)]
  rfl

/-- Hexadecimal digits are no control characters. -/
theorem isControlFree_hex4 (c : CodeUnit) : isControlFree (hex4 c) = true :=
  isControlFree_of_isPrintable (isPrintable_hex4 c)

end Text

namespace NumberFormat

open Text

/-- Digits are printable. -/
theorem isPrintable_digitText (digits : List Nat) : isPrintable (digitText digits) = true := by
  refine List.all_eq_true.mpr fun c hc => ?_
  obtain ⟨n, -, hmem⟩ := List.mem_flatMap.mp hc
  exact List.all_eq_true.mp (isPrintable_ofNat n) c hmem

/-- Zeros are printable. -/
theorem isPrintable_zeros (n : Nat) : isPrintable (zeros n) = true :=
  isPrintable_of_isDigit (Decimal.all_isDigit_zeros n)

/-- However a decimal is laid out, its text is made of digits, a point and an exponent. -/
theorem isPrintable_decimal (f : NumberFormat) (d : Decimal) : isPrintable (f.decimal d) = true := by
  have hdot : isPrintable "." = true := rfl
  have hzero : isPrintable "0." = true := rfl
  have hminus : isPrintable "e-" = true := rfl
  have hplus : isPrintable "e+" = true := rfl
  have hempty : isPrintable "" = true := rfl
  unfold decimal
  dsimp only
  split_ifs <;> simp only [isPrintable_append, isPrintable_digitText, isPrintable_zeros,
    isPrintable_ofNat, hdot, hzero, hminus, hplus, hempty, Bool.and_self]

/-- A number is printable in every format. -/
theorem isPrintable_text (f : NumberFormat) (x : Double) : isPrintable (f.text x) = true := by
  have hnan : isPrintable "NaN" = true := rfl
  have hsign : ∀ b : Bool, isPrintable (if b then "-" else "") = true := by
    intro b
    cases b <;> rfl
  have hinfinity : isPrintable "Infinity" = true := rfl
  have hzero : isPrintable "0" = true := rfl
  unfold text
  dsimp only
  split
  · exact hnan
  split
  · rw [isPrintable_append, hsign, hinfinity, Bool.and_self]
  split
  · rw [isPrintable_append, hsign, hzero, Bool.and_self]
  · rw [isPrintable_append, hsign, isPrintable_decimal, Bool.and_self]

end NumberFormat

namespace Json

open CodeUnit Text

/-- A unit is escaped if it is a control character, and everything that an escape is made of is none. -/
theorem isControlFree_escape (c : CodeUnit) : isControlFree (escape c) = true := by
  have hu : isControlFree "\\u" = true := rfl
  unfold escape
  split_ifs with h1 h2 h3 h4 h5 h6 h7 h8
  · rfl
  · rfl
  · rfl
  · rfl
  · rfl
  · rfl
  · rfl
  · rw [isControlFree_append, hu, isControlFree_hex4, Bool.and_self]
  · refine List.all_eq_true.mpr fun d hd => decide_eq_true ?_
    rw [List.mem_singleton.mp hd]
    exact UInt16.not_lt.mp h8

/-- An escaped unit is no control character. -/
theorem isControlFree_escapeAlone (c : CodeUnit) : isControlFree (escapeAlone c) = true := by
  have hu : isControlFree "\\u" = true := rfl
  unfold escapeAlone
  split
  · rw [isControlFree_append, hu, isControlFree_hex4, Bool.and_self]
  · exact isControlFree_escape c

/-- The halves of a surrogate pair, which stand for themselves, are no control characters. -/
theorem isControlFree_pair {c d : CodeUnit} (h : (c.isHighSurrogate && d.isLowSurrogate) = true) :
    isControlFree [c, d] = true := by
  simp only [isHighSurrogate, isLowSurrogate, Bool.and_eq_true, decide_eq_true_eq] at h
  obtain ⟨⟨hc, -⟩, hd, -⟩ := h
  have hc' : (0x20 : CodeUnit) ≤ c := UInt16.le_trans (by decide) hc
  have hd' : (0x20 : CodeUnit) ≤ d := UInt16.le_trans (by decide) hd
  simp [isControlFree, hc', hd']

/-- An escaped text has no control characters. -/
theorem isControlFree_escapeAll (t : Text) : isControlFree (escapeAll t) = true := by
  fun_induction escapeAll t with
  | case1 => rfl
  | case2 c => exact isControlFree_escapeAlone c
  | case3 c d rest hpair ih =>
    show isControlFree ([c, d] ++ escapeAll rest) = true
    rw [isControlFree_append, isControlFree_pair hpair, ih, Bool.and_self]
  | case4 c d rest _ ih =>
    rw [isControlFree_append, isControlFree_escapeAlone, ih, Bool.and_self]

/-- A string is written without control characters. -/
theorem isControlFree_writeString (t : Text) : isControlFree (writeString t) = true := by
  have hquote : isControlFree "\"" = true := rfl
  rw [writeString, isControlFree_append, isControlFree_append, hquote, isControlFree_escapeAll]
  rfl

/-- A number is written without control characters. -/
theorem isControlFree_writeNumber (x : Double) : isControlFree (writeNumber x) = true := by
  unfold writeNumber
  split
  · exact isControlFree_of_isPrintable (NumberFormat.isPrintable_text _ x)
  · rfl

mutual

/-- A written value has no control characters: it is a single line. -/
theorem isControlFree_write : (j : Json Double) → isControlFree (write j) = true
  | .null | .bool true | .bool false => rfl
  | .number x => isControlFree_writeNumber x
  | .string t => isControlFree_writeString t
  | .array items => by
      rw [write, isControlFree_append, isControlFree_append, isControlFree_writeItems items]
      rfl
  | .object members => by
      rw [write, isControlFree_append, isControlFree_append, isControlFree_writeMembers members]
      rfl

/-- Items are written without control characters. -/
theorem isControlFree_writeItems : (items : List (Json Double)) →
    isControlFree (writeItems items) = true
  | [] => rfl
  | [item] => isControlFree_write item
  | item :: next :: rest => by
      show isControlFree (write item ++ "," ++ writeItems (next :: rest)) = true
      rw [isControlFree_append, isControlFree_append, isControlFree_write item,
        isControlFree_writeItems (next :: rest)]
      rfl

/-- Members are written without control characters. -/
theorem isControlFree_writeMembers : (members : List (Text × Json Double)) →
    isControlFree (writeMembers members) = true
  | [] => rfl
  | [(key, value)] => by
      show isControlFree (writeString key ++ ":" ++ write value) = true
      rw [isControlFree_append, isControlFree_append, isControlFree_writeString,
        isControlFree_write value]
      rfl
  | (key, value) :: next :: rest => by
      show isControlFree (writeString key ++ ":" ++ write value ++ "," ++ writeMembers (next :: rest))
        = true
      rw [isControlFree_append, isControlFree_append, isControlFree_append, isControlFree_append,
        isControlFree_writeString, isControlFree_write value, isControlFree_writeMembers (next :: rest)]
      rfl

end

/-! ### The document that is written -/

mutual

/-- The document that a value is written as. -/
def numerals : Json Double → Json Numeral
  | null => null
  | bool b => bool b
  | number x => if x.isFinite then number x.numeral else null
  | string t => string t
  | array items => array (itemsNumerals items)
  | object members => object (membersNumerals members)

/-- The documents that items are written as. -/
def itemsNumerals : List (Json Double) → List (Json Numeral)
  | [] => []
  | item :: rest => numerals item :: itemsNumerals rest

/-- The documents that the values of members are written as, under the same keys. -/
def membersNumerals : List (Text × Json Double) → List (Text × Json Numeral)
  | [] => []
  | (key, value) :: rest => (key, numerals value) :: membersNumerals rest

end

/-- Between the tokens of a written value there is nothing. -/
theorem nothing_isSeparator : List.all ([] : Text) isSeparator = true := rfl

mutual

/-- The text of a value reads as the document that it is written as. -/
theorem reads_write : (j : Json Double) → Reads (write j) j.numerals
  | .null => reads_null
  | .bool true => reads_bool true
  | .bool false => reads_bool false
  | .number x => by
      rw [write, numerals, writeNumber]
      split
      · next hx => exact Double.reads_text hx
      · exact reads_null
  | .string t => reads_string t
  | .array items => by
      cases hitems : items with
      | nil => exact reads_array_nil [] rfl
      | cons item rest =>
        have hne : items ≠ [] := by simp [hitems]
        rw [← hitems]
        exact reads_array (readsItems_writeItems items hne)
  | .object members => by
      cases hmembers : members with
      | nil => exact reads_object_nil [] rfl
      | cons member rest =>
        have hne : members ≠ [] := by simp [hmembers]
        rw [← hmembers]
        exact reads_object (readsMembers_writeMembers members hne)

/-- The texts of items, up to the closing bracket, read as the documents of these items. -/
theorem readsItems_writeItems : (items : List (Json Double)) → items ≠ [] →
    ReadsItems (writeItems items ++ [closeBracket]) (itemsNumerals items)
  | [], h => absurd rfl h
  | [item], _ => readsItems_last (reads_write item) nothing_isSeparator
  | item :: next :: rest, _ => by
      have hmore := readsItems_cons (reads_write item) nothing_isSeparator
        (readsItems_writeItems (next :: rest) (by simp))
      have htext : writeItems (item :: next :: rest) ++ [closeBracket]
          = write item ++ ([] ++ comma :: (writeItems (next :: rest) ++ [closeBracket])) := by
        show write item ++ "," ++ writeItems (next :: rest) ++ [closeBracket] = _
        rw [List.append_assoc, List.append_assoc]
        rfl
      rw [htext]
      exact hmore

/-- The texts of members, up to the closing brace, read as the documents of these members. -/
theorem readsMembers_writeMembers : (members : List (Text × Json Double)) → members ≠ [] →
    ReadsMembers (writeMembers members ++ [closeBrace]) (membersNumerals members)
  | [], h => absurd rfl h
  | [(key, value)], _ => by
      have hlast : ReadsMembers (memberText [] key (write value) ++ ([] ++ [closeBrace]))
          [(key, numerals value)] :=
        readsMembers_last (reads_write value) nothing_isSeparator nothing_isSeparator
      have htext : writeMembers [(key, value)] ++ [closeBrace]
          = memberText [] key (write value) ++ ([] ++ [closeBrace]) := by
        show writeString key ++ ":" ++ write value ++ [closeBrace] = _
        rw [memberText, List.append_assoc (writeString key)]
        rfl
      rw [htext]
      exact hlast
  | (key, value) :: next :: rest, _ => by
      have hmore : ReadsMembers (memberText [] key (write value)
            ++ ([] ++ comma :: (writeMembers (next :: rest) ++ [closeBrace])))
          ((key, numerals value) :: membersNumerals (next :: rest)) :=
        readsMembers_cons (reads_write value) nothing_isSeparator nothing_isSeparator
          (readsMembers_writeMembers (next :: rest) (by simp))
      have htext : writeMembers ((key, value) :: next :: rest) ++ [closeBrace]
          = memberText [] key (write value)
            ++ ([] ++ comma :: (writeMembers (next :: rest) ++ [closeBrace])) := by
        show writeString key ++ ":" ++ write value ++ "," ++ writeMembers (next :: rest)
          ++ [closeBrace] = _
        rw [memberText, List.append_assoc (writeString key), List.append_assoc _ (Text.ofString ","),
          List.append_assoc]
        rfl
      rw [htext]
      exact hmore

end

/-! ### The meaning of what is written -/

mutual

/-- What a value is after it was written: a number that is not finite is null, and zero has no sign. -/
def asWritten : Json Double → Json Double
  | null => null
  | bool b => bool b
  | number x => if x.isFinite then number x.asWritten else null
  | string t => string t
  | array items => array (itemsAsWritten items)
  | object members => object (membersAsWritten members)

/-- Items after they were written. -/
def itemsAsWritten : List (Json Double) → List (Json Double)
  | [] => []
  | item :: rest => asWritten item :: itemsAsWritten rest

/-- The values of members after they were written, under the same keys. -/
def membersAsWritten : List (Text × Json Double) → List (Text × Json Double)
  | [] => []
  | (key, value) :: rest => (key, asWritten value) :: membersAsWritten rest

end

mutual

/-- No object of the value has a key twice or a key that is an array index. -/
def HasPlainKeys : Json Double → Prop
  | array items => ItemsHavePlainKeys items
  | object members => (Entries.keys members).Nodup ∧
      (∀ key ∈ Entries.keys members, Entries.index? key = none) ∧ MembersHavePlainKeys members
  | _ => True

/-- The objects in the items have plain keys. -/
def ItemsHavePlainKeys : List (Json Double) → Prop
  | [] => True
  | item :: rest => HasPlainKeys item ∧ ItemsHavePlainKeys rest

/-- The objects in the values of the members have plain keys. -/
def MembersHavePlainKeys : List (Text × Json Double) → Prop
  | [] => True
  | (_, value) :: rest => HasPlainKeys value ∧ MembersHavePlainKeys rest

end

end Json

namespace Entries

variable {α : Type}

/-- A new key is written at the end. -/
theorem set_of_notMem {key : Text} {d : Entries α} (h : key ∉ keys d) (value : α) :
    set key value d = d ++ [(key, value)] := by
  induction d with
  | nil => rfl
  | cons entry rest ih =>
    have hne : entry.1 ≠ key := fun heq => h (heq ▸ List.mem_cons_self)
    have hrest : key ∉ keys rest := fun hmem => h (List.mem_cons_of_mem _ hmem)
    rw [set, if_neg hne, ih hrest]
    rfl

/-- Pairs whose keys are distinct are entries as they stand. -/
theorem ofPairs_of_nodup {pairs : List (Text × α)} (h : (keys pairs).Nodup) : ofPairs pairs = pairs := by
  -- the entries that were written so far come first
  have hfold : ∀ before : Entries α, (keys (before ++ pairs)).Nodup →
      pairs.foldl (fun d pair => set pair.1 pair.2 d) before = before ++ pairs := by
    clear h
    induction pairs with
    | nil => simp
    | cons pair rest ih =>
      intro before hnodup
      have hnew : pair.1 ∉ keys before := by
        rw [keys, List.map_append] at hnodup
        exact fun hmem => List.disjoint_of_nodup_append hnodup hmem List.mem_cons_self
      rw [List.append_cons] at hnodup ⊢
      rw [List.foldl_cons, set_of_notMem hnew, ih _ hnodup]
  exact hfold [] h

/-- Entries without array indices are in property order as they stand. -/
theorem inPropertyOrder_of_plain {d : Entries α} (h : ∀ key ∈ keys d, index? key = none) :
    inPropertyOrder d = d := by
  have hentry : ∀ entry ∈ d, index? entry.1 = none := fun entry hmem => h _ (List.mem_map_of_mem hmem)
  have hindexed : (d.filterMap fun entry => (index? entry.1).map fun n => (n, entry)) = [] := by
    refine List.filterMap_eq_nil_iff.mpr fun entry hmem => ?_
    rw [hentry entry hmem]
    rfl
  have hplain : (d.filter fun entry => (index? entry.1).isNone) = d := by
    refine List.filter_eq_self.mpr fun entry hmem => ?_
    rw [hentry entry hmem]
    rfl
  rw [inPropertyOrder, hindexed, hplain, List.mergeSort_nil]
  rfl

end Entries

namespace Json

/-- Members keep their keys when they are written. -/
theorem keys_membersAsWritten (members : List (Text × Json Double)) :
    Entries.keys (membersAsWritten members) = Entries.keys members := by
  induction members with
  | nil => rfl
  | cons member rest ih => exact congrArg (member.1 :: ·) ih

mutual

/-- The meaning of the document of a value is the value as it was written. -/
theorem evaluate_numerals : (j : Json Double) → HasPlainKeys j → evaluate j.numerals = j.asWritten
  | .null, _ | .bool _, _ | .string _, _ => rfl
  | .number x, _ => by
      rw [numerals, asWritten]
      split
      · next hx => rw [evaluate, Double.toDouble_numeral hx]
      · rfl
  | .array items, h => by
      rw [numerals, asWritten, evaluate, evaluateItems_numerals items h]
  | .object members, h => by
      obtain ⟨hnodup, hplain, hvalues⟩ := h
      rw [← keys_membersAsWritten] at hnodup hplain
      rw [numerals, asWritten, evaluate, evaluateMembers_numerals members hvalues,
        Entries.ofPairs_of_nodup hnodup, Entries.inPropertyOrder_of_plain hplain]

/-- The documents of items have the values of the items after they were written. -/
theorem evaluateItems_numerals : (items : List (Json Double)) → ItemsHavePlainKeys items →
    evaluateItems (itemsNumerals items) = itemsAsWritten items
  | [], _ => rfl
  | item :: rest, h => by
      rw [itemsNumerals, itemsAsWritten, evaluateItems, evaluate_numerals item h.1,
        evaluateItems_numerals rest h.2]

/-- The documents of members have the values of the members after they were written. -/
theorem evaluateMembers_numerals : (members : List (Text × Json Double)) →
    MembersHavePlainKeys members → evaluateMembers (membersNumerals members) = membersAsWritten members
  | [], _ => rfl
  | (key, value) :: rest, h => by
      rw [membersNumerals, membersAsWritten, evaluateMembers, evaluate_numerals value h.1,
        evaluateMembers_numerals rest h.2]

end

/-- A value with plain keys is read back from its text as it was written. -/
theorem parse?_write {j : Json Double} (h : j.HasPlainKeys) : parse? j.write = some j.asWritten := by
  have hread := (reads_write j).read? nothing_isSeparator
  rw [List.append_nil] at hread
  rw [parse?, hread, Option.map_some, evaluate_numerals j h]

end Json

end SwiftLens
