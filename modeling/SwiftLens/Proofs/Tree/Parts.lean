import SwiftLens.Proofs.Tree.WireRoundTrip
import SwiftLens.Tree.Value

/-!
# Parts of a tree

What entries hold at a key before and after something is written there, and what passes from a tree to its
parts: its depth, the distinctness of its keys, its dictionaries (`Value.dictionaries`) and the keys of
these (`Value.keysWithin`).
-/

namespace SwiftLens

/-! ### Entries in place -/

namespace Entries

variable {α : Type}

/-- The keys of entries are that of the first and those of the rest. -/
theorem keys_cons (key : Text) (value : α) (rest : Entries α) :
    keys ((key, value) :: rest) = key :: keys rest := rfl

/-- The value at a key that does not occur before its place. -/
theorem get?_append_cons {before : Entries α} {key : Text} (h : key ∉ keys before) (value : α)
    (rest : Entries α) : get? key (before ++ (key, value) :: rest) = some value := by
  induction before with
  | nil => simp [get?]
  | cons entry before ih =>
    obtain ⟨hne, hbefore⟩ := List.ne_and_not_mem_of_not_mem_cons (h : key ∉ entry.1 :: keys before)
    rw [List.cons_append, get?, if_neg (Ne.symm hne)]
    exact ih hbefore

/-- Writing at a key that does not occur before its place. -/
theorem set_append_cons {before : Entries α} {key : Text} (h : key ∉ keys before) (new value : α)
    (rest : Entries α) :
    set key new (before ++ (key, value) :: rest) = before ++ (key, new) :: rest := by
  induction before with
  | nil => simp [set]
  | cons entry before ih =>
    obtain ⟨hne, hbefore⟩ := List.ne_and_not_mem_of_not_mem_cons (h : key ∉ entry.1 :: keys before)
    rw [List.cons_append, set, if_neg (Ne.symm hne), ih hbefore, List.cons_append]

/-- Writing what is there changes nothing. -/
theorem set_of_get?_eq {d : Entries α} {key : Text} {value : α} (h : get? key d = some value) :
    set key value d = d := by
  induction d with
  | nil => simp [get?] at h
  | cons entry rest ih =>
    obtain ⟨k, v⟩ := entry
    rw [get?] at h
    rw [set]
    split_ifs at h ⊢ with hk
    · rw [Option.some.inj h]
    · rw [ih h]

/-! ### Writing entries -/

/-- What is found after a writing: the new value at its key, and what was there at any other. -/
theorem get?_set (k key : Text) (value : α) (d : Entries α) :
    get? k (set key value d) = if key = k then some value else get? k d := by
  induction d with
  | nil => simp [set, get?]
  | cons entry rest ih =>
    obtain ⟨k', v⟩ := entry
    by_cases hk : k' = key
    · subst hk
      by_cases hkey : k' = k
      · simp [set, get?, hkey]
      · simp [set, get?, hkey]
    · by_cases hk' : k' = k
      · subst hk'
        simp [set, get?, hk, Ne.symm hk]
      · simp [set, get?, hk, hk', ih]

/-- What is found is an entry. -/
theorem mem_of_get? {k : Text} {value : α} {d : Entries α} (h : get? k d = some value) :
    (k, value) ∈ d := by
  induction d with
  | nil => cases h
  | cons entry rest ih =>
    obtain ⟨k', v⟩ := entry
    rw [get?] at h
    split_ifs at h with hk
    · rw [← hk, ← Option.some.inj h]
      exact List.mem_cons_self
    · exact List.mem_cons_of_mem _ (ih h)

/-- Keys that do not include the written one are left alone. -/
theorem get?_set_of_notMem {k key : Text} {keys : List Text} (hk : k ∈ keys) (hkey : key ∉ keys)
    (value : α) (d : Entries α) : get? k (set key value d) = get? k d := by
  rw [get?_set, if_neg]
  rintro rfl
  exact hkey hk

/-- Entries with others written into them. -/
def setAll (writes d : Entries α) : Entries α := writes.foldl (fun d entry => set entry.1 entry.2 d) d

/-- Writing nothing changes nothing. -/
@[simp] theorem setAll_nil (d : Entries α) : setAll [] d = d := rfl

/-- The first entry is written first. -/
@[simp] theorem setAll_cons (entry : Text × α) (writes d : Entries α) :
    setAll (entry :: writes) d = setAll writes (set entry.1 entry.2 d) := rfl

/-- What stands at a key after writing has been written or was there. -/
theorem get?_setAll {k : Text} {value : α} {writes d : Entries α}
    (h : get? k (setAll writes d) = some value) : get? k d = some value ∨ (k, value) ∈ writes := by
  induction writes generalizing d with
  | nil => exact .inl h
  | cons entry rest ih =>
    rcases ih h with hset | hmem
    · rw [get?_set] at hset
      split_ifs at hset with hk
      · refine .inr ?_
        rw [← hk, ← Option.some.inj hset]
        exact List.mem_cons_self
      · exact .inl hset
    · exact .inr (List.mem_cons_of_mem _ hmem)

end Entries

namespace Value

/-! ### Members -/

/-- An item is no deeper than the items are. -/
theorem depth_le_itemsDepth {items : List Value} {item : Value} (h : item ∈ items) :
    item.depth ≤ itemsDepth items := by
  induction items with
  | nil => cases h
  | cons first rest ih =>
    rw [itemsDepth]
    rcases List.mem_cons.mp h with rfl | h
    · exact Nat.le_max_left _ _
    · exact Nat.le_trans (ih h) (Nat.le_max_right _ _)

/-- The value of an entry is no deeper than the entries are. -/
theorem depth_le_entriesDepth {entries : List (Text × Value)} {entry : Text × Value}
    (h : entry ∈ entries) : entry.2.depth ≤ entriesDepth entries := by
  induction entries with
  | nil => cases h
  | cons first rest ih =>
    rw [entriesDepth]
    rcases List.mem_cons.mp h with rfl | h
    · exact Nat.le_max_left _ _
    · exact Nat.le_trans (ih h) (Nat.le_max_right _ _)

/-- What is found at a key is no deeper than the entries are. -/
theorem depth_le_of_get? {key : Text} {entries : Entries Value} {value : Value}
    (h : entries.get? key = some value) : value.depth ≤ entriesDepth entries :=
  depth_le_entriesDepth (Entries.mem_of_get? h)

/-- An item of items without a key twice has none. -/
theorem ItemsHaveDistinctKeys.of_mem {items : List Value} (hitems : ItemsHaveDistinctKeys items)
    {item : Value} (h : item ∈ items) : item.HasDistinctKeys := by
  induction items with
  | nil => cases h
  | cons first rest ih =>
    rcases List.mem_cons.mp h with rfl | h
    · exact hitems.1
    · exact ih hitems.2 h

/-- A value of entries without a key twice has none. -/
theorem EntriesHaveDistinctKeys.of_mem {entries : List (Text × Value)}
    (hentries : EntriesHaveDistinctKeys entries) {entry : Text × Value} (h : entry ∈ entries) :
    entry.2.HasDistinctKeys := by
  induction entries with
  | nil => cases h
  | cons first rest ih =>
    rcases List.mem_cons.mp h with rfl | h
    · exact hentries.1
    · exact ih hentries.2 h

/-! ### Dictionaries -/

mutual

/-- The number of dictionaries of a tree. -/
def dictionaries : Value → Nat
  | array items => itemsDictionaries items
  | dictionary entries => entriesDictionaries entries + 1
  | _ => 0

/-- The number of dictionaries inside items. -/
def itemsDictionaries : List Value → Nat
  | [] => 0
  | item :: rest => dictionaries item + itemsDictionaries rest

/-- The number of dictionaries inside entries. -/
def entriesDictionaries : List (Text × Value) → Nat
  | [] => 0
  | (_, value) :: rest => dictionaries value + entriesDictionaries rest

end

mutual

/-- The keys of all dictionaries of a tree. -/
def keysWithin : Value → List Text
  | array items => itemsKeysWithin items
  | dictionary entries => entriesKeysWithin entries
  | _ => []

/-- The keys of all dictionaries inside items. -/
def itemsKeysWithin : List Value → List Text
  | [] => []
  | item :: rest => keysWithin item ++ itemsKeysWithin rest

/-- The keys of entries and of all dictionaries inside them. -/
def entriesKeysWithin : List (Text × Value) → List Text
  | [] => []
  | (key, value) :: rest => (key :: keysWithin value) ++ entriesKeysWithin rest

end

mutual

/-- Without dictionaries there are no keys. -/
theorem keysWithin_of_dictionaries_eq_zero : (value : Value) → dictionaries value = 0 →
    keysWithin value = []
  | .null, _ | .bool _, _ | .int64 _, _ | .uint64 _, _ | .double _, _ | .string _, _ | .data _, _ => rfl
  | .array items, h => itemsKeysWithin_of_dictionaries_eq_zero items h
  | .dictionary _, h => absurd h (Nat.succ_ne_zero _)

/-- Without dictionaries there are no keys. -/
theorem itemsKeysWithin_of_dictionaries_eq_zero : (items : List Value) → itemsDictionaries items = 0 →
    itemsKeysWithin items = []
  | [], _ => rfl
  | item :: rest, h => by
      rw [itemsDictionaries] at h
      rw [itemsKeysWithin, keysWithin_of_dictionaries_eq_zero item (by omega),
        itemsKeysWithin_of_dictionaries_eq_zero rest (by omega), List.append_nil]

end

/-- A tree without containers has no dictionaries. -/
theorem dictionaries_of_depth_eq_zero {value : Value} (h : value.depth = 0) : value.dictionaries = 0 := by
  cases value with
  | array items => cases h
  | dictionary entries => cases h
  | _ => rfl

/-- The keys inside an item are keys inside the items. -/
theorem itemsKeysWithin_of_mem {items : List Value} {item : Value} (h : item ∈ items) :
    keysWithin item ⊆ itemsKeysWithin items := by
  induction items with
  | nil => cases h
  | cons first rest ih =>
    rw [itemsKeysWithin]
    rcases List.mem_cons.mp h with rfl | h
    · exact List.subset_append_left _ _
    · exact List.subset_append_of_subset_right _ (ih h)

/-- The key of an entry and the keys inside it are keys of the entries. -/
theorem entriesKeysWithin_of_mem {entries : List (Text × Value)} {entry : Text × Value}
    (h : entry ∈ entries) : entry.1 :: keysWithin entry.2 ⊆ entriesKeysWithin entries := by
  induction entries with
  | nil => cases h
  | cons first rest ih =>
    rw [entriesKeysWithin]
    rcases List.mem_cons.mp h with rfl | h
    · exact List.subset_append_left _ _
    · exact List.subset_append_of_subset_right _ (ih h)

/-- Entries without dictionaries inside. -/
theorem entriesDictionaries_eq_zero {entries : Entries Value}
    (h : ∀ entry ∈ entries, entry.2.dictionaries = 0) : entriesDictionaries entries = 0 := by
  induction entries with
  | nil => rfl
  | cons entry rest ih =>
    rw [entriesDictionaries, h entry List.mem_cons_self,
      ih fun e he => h e (List.mem_cons_of_mem _ he)]

/-- Entries without containers have no depth. -/
theorem entriesDepth_eq_zero {entries : Entries Value} (h : ∀ entry ∈ entries, entry.2.depth = 0) :
    entriesDepth entries = 0 := by
  induction entries with
  | nil => rfl
  | cons entry rest ih =>
    rw [entriesDepth, h entry List.mem_cons_self, ih fun e he => h e (List.mem_cons_of_mem _ he),
      Nat.max_self]

/-- The number of dictionaries of what stands at a key. -/
def dictionariesAt (d : Entries Value) (key : Text) : Nat :=
  match d.get? key with
  | some value => value.dictionaries
  | none => 0

/-- The dictionaries at a key are those of what is found there. -/
theorem dictionariesAt_of_get? {d : Entries Value} {key : Text} {value : Value}
    (h : d.get? key = some value) : dictionariesAt d key = value.dictionaries := by
  rw [dictionariesAt, h]

/-- A writing changes the number of dictionaries at its own key. -/
theorem dictionariesAt_set (k key : Text) (value : Value) (d : Entries Value) :
    dictionariesAt (Entries.set key value d) k =
      if key = k then value.dictionaries else dictionariesAt d k := by
  unfold dictionariesAt
  rw [Entries.get?_set]
  split_ifs <;> rfl

/-- The number of dictionaries of what stands at keys. -/
def dictionariesAmong (d : Entries Value) (keys : List Text) : Nat := (keys.map (dictionariesAt d)).sum

/-- At no keys there are no dictionaries. -/
@[simp] theorem dictionariesAmong_nil (d : Entries Value) : dictionariesAmong d [] = 0 := rfl

/-- The dictionaries at keys are those at the first and those at the rest. -/
@[simp] theorem dictionariesAmong_cons (d : Entries Value) (key : Text) (rest : List Text) :
    dictionariesAmong d (key :: rest) = dictionariesAt d key + dictionariesAmong d rest := rfl

/-- A writing at another key changes no number of dictionaries. -/
theorem dictionariesAmong_set_of_notMem {key : Text} {keys : List Text} (h : key ∉ keys) (value : Value)
    (d : Entries Value) : dictionariesAmong (Entries.set key value d) keys = dictionariesAmong d keys := by
  induction keys with
  | nil => rfl
  | cons k rest ih =>
    obtain ⟨hne, hrest⟩ := List.ne_and_not_mem_of_not_mem_cons h
    rw [dictionariesAmong_cons, dictionariesAmong_cons, dictionariesAt_set, if_neg hne, ih hrest]

/-- Writing at a key brings in no more dictionaries than are in what is written. -/
theorem dictionariesAmong_set_le {keys : List Text} (hkeys : keys.Nodup) (key : Text) (value : Value)
    (d : Entries Value) :
    dictionariesAmong (Entries.set key value d) keys ≤ value.dictionaries + dictionariesAmong d keys := by
  induction keys with
  | nil => exact Nat.zero_le _
  | cons k rest ih =>
    obtain ⟨hnew, hrest⟩ := List.nodup_cons.mp hkeys
    rw [dictionariesAmong_cons, dictionariesAmong_cons, dictionariesAt_set]
    split_ifs with hk
    · subst hk
      rw [dictionariesAmong_set_of_notMem hnew]
      omega
    · have hle := ih hrest
      omega

/-- All dictionaries inside entries are inside what stands at their keys. -/
theorem dictionariesAmong_keys {entries : Entries Value} (h : (Entries.keys entries).Nodup) :
    dictionariesAmong entries (Entries.keys entries) = entriesDictionaries entries := by
  induction entries with
  | nil => rfl
  | cons entry rest ih =>
    obtain ⟨key, value⟩ := entry
    rw [Entries.keys_cons] at h ⊢
    obtain ⟨hnew, hrest⟩ := List.nodup_cons.mp h
    have hlater : dictionariesAmong ((key, value) :: rest) (Entries.keys rest) =
        dictionariesAmong rest (Entries.keys rest) := by
      unfold dictionariesAmong
      congr 1
      apply List.map_congr_left
      intro k hk
      have hne : key ≠ k := fun heq => hnew (heq ▸ hk)
      rw [dictionariesAt, dictionariesAt, Entries.get?, if_neg hne]
    rw [dictionariesAmong_cons, hlater, ih hrest, entriesDictionaries]
    simp [dictionariesAt, Entries.get?]

end Value

end SwiftLens
