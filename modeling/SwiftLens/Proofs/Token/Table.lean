import Mathlib
import SwiftLens.Proofs.Labelling.Names
import SwiftLens.Token.Named

/-!
# Tables of tokens

A table is what a helper writes and `Token.readAll` reads: a header with the number of rows, a row for each
token, and whatever comes after. `Row` and `Table` carry the widths of their fields and also what a reader
has to ignore: the first half of the header, the low bits of the count and of each length, and the bytes
at the end. `Table.bytes` lays a table out.

`Table.records_bytes` is that the records of the laid-out table are its rows, and `readAll_table` that,
when the kinds have names, the tokens are read back, whatever stands in the ignored places. Both rest on
one law of numbers with their low byte first (`littleEndian_bytesOf`) and on one row being taken off the
front at a time.
-/

namespace SwiftLens.Token

/-! ### Numbers -/

/-- The given number of bytes of a number, low byte first. -/
def bytesOf : (width n : Nat) → Utf8.Bytes
  | 0, _ => []
  | width + 1, n => UInt8.ofNat n :: bytesOf width (n / 256)

/-- A number takes as many bytes as are given. -/
@[simp] theorem length_bytesOf (width n : Nat) : (bytesOf width n).length = width := by
  induction width generalizing n with
  | zero => rfl
  | succ width ih => rw [bytesOf, List.length_cons, ih]

/-- Bytes give back the number, as far as it has its place in them. -/
theorem littleEndian_bytesOf (width n : Nat) : littleEndian (bytesOf width n) = n % 256 ^ width := by
  induction width generalizing n with
  | zero => rw [bytesOf, littleEndian, pow_zero, Nat.mod_one]
  | succ width ih =>
    have hlow : (UInt8.ofNat n).toNat = n % 256 := rfl
    rw [bytesOf, littleEndian, ih, hlow, pow_succ', Nat.mod_mul]

/-! ### Rows and tables -/

/-- A record within the widths of its fields, and the bit below its length. -/
structure Row extends Record where
  uid_lt : uid < 2 ^ 64
  offset_lt : offset < 2 ^ 32
  length_lt : length < 2 ^ 31
  /-- The bit of the last word that is not part of the length. -/
  spare : Fin 2

/-- The sixteen bytes of a row. -/
def Row.bytes (r : Row) : Utf8.Bytes :=
  bytesOf 8 r.uid ++ (bytesOf 4 r.offset ++ bytesOf 4 (2 * r.length + r.spare))

/-- A table: its rows, and what surrounds them. -/
structure Table where
  /-- The first half of the header. -/
  reserved : Utf8.Bytes
  reserved_length : reserved.length = 8
  rows : List Row
  /-- Of the eight bytes of the count four bits are not part of it. -/
  rows_lt : rows.length < 2 ^ 60
  /-- The four bits of the count word that are not part of the count. -/
  spare : Fin 16
  /-- The bytes after the last row. -/
  trailing : Utf8.Bytes

/-- The bytes of a table. -/
def Table.bytes (t : Table) : Utf8.Bytes :=
  t.reserved ++ (bytesOf 8 (16 * t.rows.length + t.spare) ++ (t.rows.flatMap Row.bytes ++ t.trailing))

/-! ### Reading records back -/

/-- A row takes sixteen bytes. -/
@[simp] theorem Row.length_bytes (r : Row) : r.bytes.length = recordSize := by
  simp [Row.bytes, recordSize]

/-- A row is read back as its record; the bit below the length is dropped. -/
theorem Record.ofBytes_row (r : Row) : Record.ofBytes r.bytes = r.toRecord := by
  have huid : littleEndian (r.bytes.take 8) = r.uid := by
    rw [Row.bytes, List.take_left' (length_bytesOf 8 _), littleEndian_bytesOf,
      Nat.mod_eq_of_lt (lt_of_lt_of_eq r.uid_lt (by norm_num))]
  have hoffset : littleEndian ((r.bytes.drop 8).take 4) = r.offset := by
    rw [Row.bytes, List.drop_left' (length_bytesOf 8 _), List.take_left' (length_bytesOf 4 _),
      littleEndian_bytesOf, Nat.mod_eq_of_lt (lt_of_lt_of_eq r.offset_lt (by norm_num))]
  have hlast : (r.bytes.drop 12).take 4 = bytesOf 4 (2 * r.length + r.spare) := by
    rw [Row.bytes, ← List.append_assoc, List.drop_left' (by simp), List.take_of_length_le (by simp)]
  have hlength : littleEndian ((r.bytes.drop 12).take 4) / 2 = r.length := by
    have hlt := r.length_lt
    have hspare := r.spare.isLt
    rw [hlast, littleEndian_bytesOf]
    omega
  rw [Record.ofBytes, huid, hoffset, hlength]

/-- The rows are taken off the front one by one, and what comes after them is not looked at. -/
theorem takeRecords_rows (rows : List Row) (trailing : Utf8.Bytes) :
    takeRecords rows.length (rows.flatMap Row.bytes ++ trailing) = rows.map Row.toRecord := by
  induction rows with
  | nil => rfl
  | cons r rest ih =>
    rw [List.length_cons, takeRecords, List.flatMap_cons, List.append_assoc,
      List.take_left' r.length_bytes, List.drop_left' r.length_bytes, ih, Record.ofBytes_row,
      List.map_cons]

/-- Rows take sixteen bytes each. -/
theorem length_flatMap_bytes (rows : List Row) :
    (rows.flatMap Row.bytes).length = rows.length * recordSize := by
  induction rows with
  | nil => rfl
  | cons r rest ih =>
    rw [List.flatMap_cons, List.length_append, ih, Row.length_bytes, List.length_cons]
    ring

namespace Table

/-- A table takes its header, its rows and what comes after them. -/
theorem length_bytes (t : Table) :
    t.bytes.length = recordSize + t.rows.length * recordSize + t.trailing.length := by
  simp only [bytes, List.length_append, length_bytesOf, t.reserved_length, length_flatMap_bytes, recordSize]
  omega

/-- The header declares the rows; the bits below the count are dropped. -/
theorem declaredCount_bytes (t : Table) : declaredCount t.bytes = t.rows.length := by
  have hlt := t.rows_lt
  have hspare := t.spare.isLt
  rw [declaredCount, bytes, List.drop_left' t.reserved_length, List.take_left' (length_bytesOf 8 _),
    littleEndian_bytesOf]
  omega

/-- After the header come the rows and then what comes after them. -/
theorem drop_header (t : Table) : t.bytes.drop recordSize = t.rows.flatMap Row.bytes ++ t.trailing := by
  have hheader : (t.reserved ++ bytesOf 8 (16 * t.rows.length + t.spare)).length = recordSize := by
    rw [List.length_append, t.reserved_length, length_bytesOf]
    rfl
  rw [bytes, ← List.append_assoc, List.drop_left' hheader]

/-- The records of a table are its rows. -/
theorem records_bytes (t : Table) : records t.bytes = .ok (t.rows.map Row.toRecord) := by
  have hlength := t.length_bytes
  rw [records, if_neg (by omega), declaredCount_bytes, if_neg (by omega), drop_header, takeRecords_rows]

end Table

/-! ### Naming the kinds -/

variable {σ : Type} {lookup : Int → Action σ (Option Text)} {names : NameCache} {kind : Int → Text}

open NameCache (Resolves)

/-- A kind that has a name is found, and all kinds keep the names they had. -/
theorem kindOf_of_resolves {r : Record} (h : Resolves lookup names r.uid (kind r.uid)) (index : Nat)
    (s : σ) :
    ∃ names' t, kindOf lookup index r (names, s) = (.ok (kind r.uid), (names', t)) ∧
      ∀ uid name, Resolves lookup names uid name → Resolves lookup names' uid name := by
  obtain ⟨names', t, hresolve, hkeep⟩ := h.resolve s
  refine ⟨names', t, ?_, hkeep⟩
  rw [kindOf, Action.bind_of_ok hresolve]
  rfl

/-- When every kind has a name, every record becomes a token. -/
theorem nameAll_of_resolves {records : List Record}
    (h : ∀ r ∈ records, Resolves lookup names r.uid (kind r.uid)) (index : Nat) (s : σ) :
    ∃ t, nameAll lookup index records (names, s) =
      (.ok (records.map fun r => ⟨kind r.uid, r.offset, r.length⟩), t) := by
  induction records generalizing names index s with
  | nil => exact ⟨_, rfl⟩
  | cons r rest ih =>
    obtain ⟨names', t, hkind, hkeep⟩ := kindOf_of_resolves (h r List.mem_cons_self) index s
    obtain ⟨u, hrest⟩ := ih (fun r' hr' => hkeep _ _ (h r' (List.mem_cons_of_mem r hr'))) (index + 1) t
    refine ⟨u, ?_⟩
    rw [nameAll, Action.bind_of_ok hkind, Action.bind_of_ok hrest]
    rfl

/-- Whatever the table holds in the places that mean nothing, and whatever names have been found before,
reading it gives a token for each row, in order: the name of its kind, its offset and its length. -/
theorem readAll_table (t : Table)
    (h : ∀ r ∈ t.rows, Resolves lookup names r.uid (kind r.uid)) (s : σ) :
    (readAll lookup t.bytes (names, s)).1 =
      .ok (t.rows.map fun r => ⟨kind r.uid, r.offset, r.length⟩) := by
  have hrecords : recordsOf t.bytes = .ok (t.rows.map Row.toRecord) := by
    rw [recordsOf, t.records_bytes]
    rfl
  have hnamed : ∀ r ∈ t.rows.map Row.toRecord, Resolves lookup names r.uid (kind r.uid) := by
    intro r hr
    obtain ⟨row, hrow, rfl⟩ := List.mem_map.mp hr
    exact h row hrow
  obtain ⟨u, hread⟩ := nameAll_of_resolves hnamed 0 s
  rw [readAll, hrecords]
  show (nameAll lookup 0 (t.rows.map Row.toRecord) (names, s)).1 = _
  rw [hread, List.map_map]
  rfl

/-- Two rows with the greatest offset and length, the least and the greatest identifier of a kind, and
ones in every place that means nothing. -/
def crammedTable : Table where
  reserved := List.replicate 8 0xFF
  reserved_length := rfl
  rows := [⟨⟨4300000000, 0, 2 ^ 31 - 1⟩, by decide, by decide, by decide, 1⟩,
    ⟨⟨2 ^ 64 - 1, 2 ^ 32 - 1, 0⟩, by decide, by decide, by decide, 1⟩]
  rows_lt := by decide
  spare := 15
  trailing := [0xFF, 0, 0xFF]

/-- The rows of the crammed table are read as they were put in. -/
theorem readAll_table_crammed :
    let lookup : Int → Action Unit (Option Text) := fun uid =>
      pure (some (if uid = leastUid then "keyword" else ""))
    (∀ r ∈ crammedTable.rows,
      Resolves lookup [] r.uid (if (r.uid : Int) = leastUid then "keyword" else "")) ∧
    crammedTable.bytes.length = 51 ∧
    (readAll lookup crammedTable.bytes ([], ())).1 =
      .ok [⟨"keyword", 0, 2147483647⟩, ⟨"", 4294967295, 0⟩] := by
  intro lookup
  let kind (uid : Int) : Text := if uid = leastUid then "keyword" else ""
  have hkinds : ∀ r ∈ crammedTable.rows, Resolves lookup [] r.uid (kind r.uid) := by
    simp only [crammedTable, List.forall_mem_cons]
    exact ⟨⟨by decide, .inr ⟨rfl, fun _ => rfl⟩⟩, ⟨by decide, .inr ⟨rfl, fun _ => rfl⟩⟩, by simp⟩
  refine ⟨hkinds, crammedTable.length_bytes, ?_⟩
  exact readAll_table crammedTable hkinds ()

/-! ### The identifiers among the tokens -/

/-- The offsets of the identifiers among tokens. -/
def identifiersIn (tokens : List Token) : List Int :=
  (tokens.filter fun t => t.kind = Kind.identifier).map offset

/-- An offset of an identifier is that of a token. -/
theorem mem_identifiersIn {tokens : List Token} {n : Int} (h : n ∈ identifiersIn tokens) :
    ∃ t ∈ tokens, t.kind = Kind.identifier ∧ t.offset = n := by
  obtain ⟨t, ht, rfl⟩ := List.mem_map.mp h
  rw [List.mem_filter, decide_eq_true_eq] at ht
  exact ⟨t, ht.1, ht.2, rfl⟩

/-- To find the identifiers among records is to name all of them and to keep the identifiers. -/
theorem identifiersAmong_eq (lookup : Int → Action σ (Option Text)) (index : Nat) (records : List Record)
    (s : NameCache × σ) :
    identifiersAmong lookup index records s =
      ((nameAll lookup index records s).1.map identifiersIn, (nameAll lookup index records s).2) := by
  induction records generalizing index s with
  | nil => rfl
  | cons r rest ih =>
    rw [identifiersAmong, nameAll]
    rcases hkind : kindOf lookup index r s with ⟨e | kind, t⟩
    · rw [Action.bind_of_error hkind, Action.bind_of_error hkind]
      rfl
    · rw [Action.bind_of_ok hkind, Action.bind_of_ok hkind]
      have hrest := ih (index + 1) t
      rcases htokens : nameAll lookup (index + 1) rest t with ⟨e | tokens, u⟩
      · rw [htokens] at hrest
        rw [Action.bind_of_error hrest, Action.bind_of_error htokens]
        rfl
      · rw [htokens] at hrest
        rw [Action.bind_of_ok hrest, Action.bind_of_ok htokens]
        by_cases hidentifier : kind = Kind.identifier
        · simp [identifiersIn, hidentifier, Except.map]
        · simp [identifiersIn, hidentifier, Except.map]

/-- Reading the identifiers is reading the tokens with less kept of them: the same look-ups are made in the
same order, whatever they answer and whether they fail, the same names are found, and the result is that of
reading the tokens, with these turned to the offsets of the identifiers among them. -/
theorem identifierOffsets_eq (lookup : Int → Action σ (Option Text)) (bytes : Utf8.Bytes)
    (s : NameCache × σ) :
    identifierOffsets lookup bytes s =
      ((readAll lookup bytes s).1.map identifiersIn, (readAll lookup bytes s).2) := by
  unfold identifierOffsets readAll
  rcases hrecords : recordsOf bytes with e | records
  · rfl
  · exact identifiersAmong_eq lookup 0 records s

end SwiftLens.Token
