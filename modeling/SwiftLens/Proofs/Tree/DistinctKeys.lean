import SwiftLens.Proofs.Json.Compact
import SwiftLens.Proofs.Labelling.Answers
import SwiftLens.Proofs.Tree.WireRecognition

/-!
# No key twice

A dictionary is a list of entries, and nothing in its type keeps a key from standing there twice. That none
does is kept up by whatever makes or changes a tree. `KeepsKeysDistinct` lists these, one law for each, and
says besides where an entry goes that is written or removed; `keysDistinct_kept` is that all of them hold.

Everything is brought back to writing one entry (`HasDistinctKeys.set`): building from pairs, copying,
merging a reply and changing a request are sequences of writings. For the walk, what happens at one key is
said first and then carried through keys, items and levels. The tree that a walk leaves when it fails needs
no argument of its own, since `Action.Preserves` speaks of the state that is left in either case.
-/

namespace SwiftLens

/-! ### Entries -/

namespace Entries

variable {α : Type}

/-- Writing leaves the keys as they are, or adds one at the end. -/
theorem keys_set (key : Text) (value : α) (d : Entries α) :
    keys (set key value d) = if key ∈ keys d then keys d else keys d ++ [key] := by
  split_ifs with h
  · obtain ⟨entry, hentry, rfl⟩ := List.mem_map.mp h
    obtain ⟨before, after, hkeys, hnew⟩ := List.eq_append_cons_of_mem h
    obtain ⟨before, rest, rfl, rfl, hrest⟩ := List.map_eq_append_iff.mp hkeys
    obtain ⟨⟨key, old⟩, after, rfl, hkey, rfl⟩ := List.map_eq_cons_iff.mp hrest
    obtain rfl : key = entry.1 := hkey
    rw [set_append_cons hnew, keys_append, keys_append, keys_cons, keys_cons]
  · rw [set_of_notMem h, keys_append]
    rfl

/-- Writing an entry leaves no key twice. -/
theorem nodup_keys_set {d : Entries α} (h : (keys d).Nodup) (key : Text) (value : α) :
    (keys (set key value d)).Nodup := by
  rw [keys_set]
  split_ifs with hmem
  · exact h
  · exact List.Nodup.append h (List.nodup_singleton key) (List.disjoint_singleton.mpr hmem)

/-- What stands in entries after writing was written or was there. -/
theorem mem_set {key : Text} {value : α} {d : Entries α} {entry : Text × α}
    (h : entry ∈ set key value d) : entry = (key, value) ∨ entry ∈ d := by
  induction d with
  | nil => exact .inl (List.mem_singleton.mp h)
  | cons first rest ih =>
    rw [set] at h
    split_ifs at h with hkey
    · rcases List.mem_cons.mp h with rfl | h
      · exact .inl (by rw [hkey])
      · exact .inr (List.mem_cons_of_mem _ h)
    · rcases List.mem_cons.mp h with rfl | h
      · exact .inr List.mem_cons_self
      · exact (ih h).imp_right (List.mem_cons_of_mem _)

/-- The last pair is written last. -/
theorem ofPairs_concat (pairs : List (Text × α)) (pair : Text × α) :
    ofPairs (pairs ++ [pair]) = set pair.1 pair.2 (ofPairs pairs) := by
  rw [ofPairs, List.foldl_append]
  rfl

/-- Built from pairs, every key stands where it first came up. -/
theorem keys_ofPairs (pairs : List (Text × α)) : keys (ofPairs pairs) = (keys pairs).eraseDups := by
  induction pairs using List.reverseRecOn with
  | nil => rfl
  | append_singleton pairs pair ih =>
    have hlast : keys [pair] = [pair.1] := rfl
    rw [ofPairs_concat, keys_set, ih, keys_append, List.eraseDups_append, hlast]
    split_ifs with hmem
    · rw [List.mem_eraseDups] at hmem
      simp [List.removeAll, hmem]
    · rw [List.mem_eraseDups] at hmem
      simp [List.removeAll, hmem, List.eraseDups_cons]

/-- Built from pairs, every key has the value that came last. -/
theorem get?_ofPairs (key : Text) (pairs : List (Text × α)) :
    get? key (ofPairs pairs) = get? key pairs.reverse := by
  induction pairs using List.reverseRecOn with
  | nil => rfl
  | append_singleton pairs pair ih =>
    rw [ofPairs_concat, get?_set, ih, List.reverse_append, List.reverse_singleton, List.singleton_append,
      get?]

/-- Removing a key that stands once takes out its entry and nothing else. -/
theorem erase_append_cons {before after : Entries α} {key : Text} {value : α}
    (h : (keys (before ++ (key, value) :: after)).Nodup) :
    erase key (before ++ (key, value) :: after) = before ++ after := by
  rw [keys_append, keys_cons, List.nodup_middle, List.nodup_cons, ← keys_append] at h
  have hother : (before ++ after).filter (fun entry => entry.1 ≠ key) = before ++ after := by
    rw [List.filter_eq_self]
    intro entry hentry
    exact decide_eq_true fun heq => h.1 (heq ▸ List.mem_map_of_mem hentry)
  rw [List.filter_append] at hother
  rw [erase, List.filter_append, List.filter_cons_of_neg (by simp), hother]

/-- Removing a key that is not there changes nothing. -/
theorem erase_of_notMem {d : Entries α} {key : Text} (h : key ∉ keys d) : erase key d = d := by
  rw [erase, List.filter_eq_self]
  intro entry hentry
  exact decide_eq_true fun heq => h (heq ▸ List.mem_map_of_mem hentry)

end Entries

/-! ### Trees -/

namespace Value

/-- Items have no key twice if none of them has. -/
theorem itemsHaveDistinctKeys_iff {items : List Value} :
    ItemsHaveDistinctKeys items ↔ ∀ item ∈ items, item.HasDistinctKeys := by
  constructor
  · exact fun h item hitem => h.of_mem hitem
  · intro h
    induction items with
    | nil => trivial
    | cons item rest ih =>
      exact ⟨h item List.mem_cons_self, ih fun i hi => h i (List.mem_cons_of_mem _ hi)⟩

/-- Values of entries have no key twice if none of them has. -/
theorem entriesHaveDistinctKeys_iff {entries : Entries Value} :
    EntriesHaveDistinctKeys entries ↔ ∀ entry ∈ entries, entry.2.HasDistinctKeys := by
  constructor
  · exact fun h entry hentry => h.of_mem hentry
  · intro h
    induction entries with
    | nil => trivial
    | cons entry rest ih =>
      exact ⟨h entry List.mem_cons_self, ih fun e he => h e (List.mem_cons_of_mem _ he)⟩

/-- Writing an entry. -/
theorem HasDistinctKeys.set {d : Entries Value} (h : (dictionary d).HasDistinctKeys) {value : Value}
    (hvalue : value.HasDistinctKeys) (key : Text) :
    (dictionary (Entries.set key value d)).HasDistinctKeys := by
  refine ⟨Entries.nodup_keys_set h.1 key value, entriesHaveDistinctKeys_iff.mpr ?_⟩
  intro entry hentry
  rcases Entries.mem_set hentry with rfl | hentry
  · exact hvalue
  · exact h.2.of_mem hentry

/-- Writing entries one after the other. -/
theorem HasDistinctKeys.setAll {d writes : Entries Value} (h : (dictionary d).HasDistinctKeys)
    (hwrites : ∀ entry ∈ writes, entry.2.HasDistinctKeys) :
    (dictionary (Entries.setAll writes d)).HasDistinctKeys := by
  induction writes generalizing d with
  | nil => exact h
  | cons entry rest ih =>
    rw [Entries.setAll_cons]
    apply ih
    · exact h.set (hwrites entry List.mem_cons_self) entry.1
    · exact fun e he => hwrites e (List.mem_cons_of_mem _ he)

/-- The empty dictionary has no key twice. -/
theorem hasDistinctKeys_nil : (dictionary []).HasDistinctKeys := ⟨List.nodup_nil, trivial⟩

/-- Building from pairs, whose keys may repeat. -/
theorem hasDistinctKeys_ofPairs {pairs : List (Text × Value)} (h : EntriesHaveDistinctKeys pairs) :
    (dictionary (Entries.ofPairs pairs)).HasDistinctKeys :=
  hasDistinctKeys_nil.setAll (entriesHaveDistinctKeys_iff.mp h)

/-- Removing an entry. -/
theorem HasDistinctKeys.erase {d : Entries Value} (h : (dictionary d).HasDistinctKeys) (key : Text) :
    (dictionary (Entries.erase key d)).HasDistinctKeys := by
  refine ⟨h.1.sublist (List.filter_sublist.map Prod.fst), entriesHaveDistinctKeys_iff.mpr ?_⟩
  exact fun entry hentry => h.2.of_mem (List.mem_of_mem_filter hentry)

mutual

/-- A copy is built anew at every level, so it has distinct keys whatever it is a copy of. -/
theorem hasDistinctKeys_copy : (v : Value) → v.copy.HasDistinctKeys
  | .null | .bool _ | .int64 _ | .uint64 _ | .double _ | .string _ | .data _ => trivial
  | .array items => itemsHaveDistinctKeys_copyItems items
  | .dictionary entries => hasDistinctKeys_ofPairs (entriesHaveDistinctKeys_copyEntries entries)

/-- Copied items have no key twice. -/
theorem itemsHaveDistinctKeys_copyItems : (items : List Value) → ItemsHaveDistinctKeys (copyItems items)
  | [] => trivial
  | item :: rest => ⟨hasDistinctKeys_copy item, itemsHaveDistinctKeys_copyItems rest⟩

/-- Copied entries have no key twice. -/
theorem entriesHaveDistinctKeys_copyEntries :
    (entries : List (Text × Value)) → EntriesHaveDistinctKeys (copyEntries entries)
  | [] => trivial
  | (_, value) :: rest => ⟨hasDistinctKeys_copy value, entriesHaveDistinctKeys_copyEntries rest⟩

end

/-- What is read from the wire. -/
theorem hasDistinctKeys_of_decode {raw : Json Double} {v : Value} (h : Wire.decode raw = .ok v) :
    v.HasDistinctKeys :=
  (Wire.kept_of_decode h).2

end Value

/-! ### The walk -/

open Value (HasDistinctKeys)

variable {σ : Type}

/-- A guide whose supplement answers with trees that have distinct keys. -/
def Guide.AnswersDistinctly (guide : Guide σ) : Prop :=
  ∀ supplement ∈ guide.supplement, ∀ s t reply, supplement.send s = (.ok (some reply), t) →
    reply.HasDistinctKeys

namespace Labelling

/-- The keys of the node are distinct, and so are those of all that is in it. -/
def NodeDistinct (s : Entries Value × State σ) : Prop := (Value.dictionary s.1).HasDistinctKeys

variable {guide : Guide σ} {walk : Action (Value × State σ) Unit}

/-- What a reply offers has distinct keys if the reply has. -/
theorem hasDistinctKeys_offered {answer : Except Fault (Option Value)}
    (h : ∀ reply, answer = .ok (some reply) → reply.HasDistinctKeys) :
    ∀ entry ∈ offered answer, entry.2.HasDistinctKeys := by
  intro entry hentry
  unfold offered at hentry
  split at hentry
  · next reply => exact (h _ rfl).2.of_mem (List.mem_of_mem_filter hentry)
  · exact absurd hentry List.not_mem_nil

/-- What is added for a kind leaves no key twice. -/
theorem preserves_addForKind (hguide : guide.AnswersDistinctly) (kind : Text) :
    (addForKind guide kind).Preserves NodeDistinct := by
  rintro ⟨node, t⟩ h
  cases hsupplement : guide.supplement with
  | none =>
    simp only [addForKind, hsupplement]
    exact h
  | some supplement =>
    simp only [addForKind, hsupplement]
    split_ifs
    · rcases addDeclaration_cases supplement node t with hout | ⟨offset, answer, s, hsend, hout⟩
      · rw [hout]
        exact h
      · rw [hout]
        apply h.setAll
        apply hasDistinctKeys_offered
        rintro reply rfl
        exact hguide supplement hsupplement _ _ reply hsend
    · rcases addMark_cases supplement guide.sources node t with
        ⟨_, _, _, hout⟩ | ⟨_, _, _, ⟨_, _, -, hout⟩ | ⟨text, _, -, hout⟩⟩
      · rw [hout]
        exact h
      · rw [hout]
        exact h
      · rw [hout]
        exact h.set (show (Value.string text).HasDistinctKeys from trivial) Key.name
    · exact h

/-- Labelling at a key leaves no key twice. -/
theorem preserves_labelKey (hguide : guide.AnswersDistinctly)
    (hwalk : walk.Preserves fun s => s.1.HasDistinctKeys) (key : Text) :
    (labelKey guide walk key).Preserves NodeDistinct := by
  rintro ⟨node, t⟩ h
  cases hget : node.get? key with
  | none =>
    rw [labelKey_of_absent hget]
    exact h
  | some value =>
    rcases uint64_or_not value with ⟨uid, rfl⟩ | hnot
    · rcases hresolve : NameCache.resolve guide.lookup uid t with ⟨e | _ | name, t'⟩
      · rw [labelKey_of_unresolved hget hresolve]
        exact h
      · rw [labelKey_of_unnamed hget hresolve]
        exact h
      · rw [labelKey_of_named hget hresolve]
        have hnamed : NodeDistinct (Entries.set key (.string name) node, t') :=
          h.set (show (Value.string name).HasDistinctKeys from trivial) key
        split_ifs
        · exact preserves_addForKind hguide name _ hnamed
        · exact hnamed
    · rw [labelKey_of_not_uid hget hnot]
      have hvalue : value.HasDistinctKeys := h.2.of_mem (Entries.mem_of_get? hget)
      exact h.set (hwalk (value, t) hvalue) key

/-- Labelling at keys in turn leaves no key twice. -/
theorem preserves_labelKeys (hguide : guide.AnswersDistinctly)
    (hwalk : walk.Preserves fun s => s.1.HasDistinctKeys) (keys : List Text) :
    (labelKeys guide walk keys).Preserves NodeDistinct := by
  induction keys with
  | nil => exact Action.Preserves.pure ()
  | cons key rest ih => exact (preserves_labelKey hguide hwalk key).bind fun _ => ih

/-- Labelling items leaves no key twice. -/
theorem hasDistinctKeys_labelItems (hwalk : walk.Preserves fun s => s.1.HasDistinctKeys)
    {items : List Value} (h : Value.ItemsHaveDistinctKeys items) (t : State σ) :
    Value.ItemsHaveDistinctKeys (labelItems walk items t).2.1 := by
  induction items generalizing t with
  | nil => trivial
  | cons item rest ih =>
    have hitem := hwalk (item, t) h.1
    rw [labelItems]
    rcases hrun : walk (item, t) with ⟨e | ⟨⟩, item', t'⟩
    · rw [hrun] at hitem
      exact ⟨hitem, h.2⟩
    · rw [hrun] at hitem
      exact ⟨hitem, ih h.2 t'⟩

/-- Labelling a value leaves no key twice. -/
theorem preserves_labelValue (hguide : guide.AnswersDistinctly) (levels : Nat) :
    (labelValue guide levels).Preserves fun s => s.1.HasDistinctKeys := by
  induction levels with
  | zero =>
    rintro ⟨value, t⟩ h
    cases value <;> exact h
  | succ levels ih =>
    rintro ⟨value, t⟩ h
    cases value with
    | array items => exact hasDistinctKeys_labelItems ih h t
    | dictionary entries => exact preserves_labelKeys hguide ih (Entries.keys entries) (entries, t) h
    | _ => exact h

/-- A walk leaves a tree with distinct keys, whether it comes to its end or not. -/
theorem preserves_label (hguide : guide.AnswersDistinctly) : (label guide).Preserves NodeDistinct :=
  fun s h => preserves_labelKeys hguide (preserves_labelValue hguide _) (Entries.keys s.1) s h

end Labelling

/-! ### Requests -/

/-- The request that opens a source has no key twice. -/
theorem Request.hasDistinctKeys_opening (uid : Int) (source : SourceInput) :
    (Value.dictionary (opening uid source)).HasDistinctKeys := by
  cases source with
  | file path =>
    refine ⟨?_, trivial, trivial, trivial, trivial⟩
    show [Key.request, Key.name, Key.sourceFile].Nodup
    decide
  | text source =>
    refine ⟨?_, trivial, trivial, trivial, trivial⟩
    show [Key.request, Key.name, Key.sourceText].Nodup
    decide

namespace CursorQuery

/-- A change to a cursor query. -/
inductive Change where
  | sourceFile (file : Text)
  | offset (offset : Int)

/-- A cursor query with a change made. -/
def change (q : CursorQuery) : Change → CursorQuery
  | .sourceFile file => q.setSourceFile file
  | .offset offset => q.setOffset offset

/-- A fresh cursor query has no key twice. -/
theorem hasDistinctKeys_template (uid : Int) (args : List Text) :
    (Value.dictionary (template uid args)).HasDistinctKeys := by
  refine ⟨?_, trivial, ?_, trivial⟩
  · show [Key.request, Key.compilerArgs].Nodup
    decide
  · show Value.ItemsHaveDistinctKeys (args.map .string)
    rw [Value.itemsHaveDistinctKeys_iff]
    intro item hitem
    obtain ⟨arg, -, rfl⟩ := List.mem_map.mp hitem
    trivial

/-- A change to a cursor query leaves no key twice. -/
theorem hasDistinctKeys_change {q : CursorQuery} (h : (Value.dictionary q).HasDistinctKeys) (c : Change) :
    (Value.dictionary (q.change c)).HasDistinctKeys := by
  cases c with
  | sourceFile file => exact h.set (show (Value.string file).HasDistinctKeys from trivial) Key.sourceFile
  | offset offset => exact h.set (show (Value.int64 offset).HasDistinctKeys from trivial) Key.offset

/-- Any number of changes to a cursor query leave no key twice. -/
theorem hasDistinctKeys_changes {q : CursorQuery} (h : (Value.dictionary q).HasDistinctKeys)
    (changes : List Change) : (Value.dictionary (changes.foldl change q)).HasDistinctKeys := by
  induction changes generalizing q with
  | nil => exact h
  | cons c rest ih => exact ih (hasDistinctKeys_change h c)

end CursorQuery

/-! ### The whole statement -/

/-- Whatever makes or changes a tree leaves no key twice in any of its dictionaries; and writing, removing
and building put every entry in its place. -/
structure KeepsKeysDistinct (σ : Type) : Prop where
  /-- A dictionary is built from pairs; keys may repeat. -/
  built : ∀ pairs : List (Text × Value), Value.EntriesHaveDistinctKeys pairs →
    (Value.dictionary (Entries.ofPairs pairs)).HasDistinctKeys
  /-- A tree is read from the wire. -/
  decoded : ∀ raw v, Wire.decode raw = .ok v → v.HasDistinctKeys
  /-- A tree is copied. -/
  copied : ∀ v : Value, v.copy.HasDistinctKeys
  /-- A tree is labelled, with whatever merging and reading, and whether or not the walk fails. -/
  labelled : ∀ (guide : Guide σ) tree s, guide.AnswersDistinctly →
    (Value.dictionary tree).HasDistinctKeys →
    (Value.dictionary (Labelling.label guide (tree, s)).2.1).HasDistinctKeys
  /-- The request that opens a source is made. -/
  opening : ∀ uid source, (Value.dictionary (Request.opening uid source)).HasDistinctKeys
  /-- A cursor query is made and changed any number of times. -/
  queried : ∀ uid args changes,
    (Value.dictionary (List.foldl CursorQuery.change (CursorQuery.template uid args) changes)).HasDistinctKeys
  /-- An entry is written. -/
  written : ∀ d key value, (Value.dictionary d).HasDistinctKeys → value.HasDistinctKeys →
    (Value.dictionary (Entries.set key value d)).HasDistinctKeys
  /-- An entry, such as the table of tokens, is removed. -/
  removed : ∀ d key, (Value.dictionary d).HasDistinctKeys →
    (Value.dictionary (Entries.erase key d)).HasDistinctKeys
  /-- Writing at a key that is there keeps its place and touches no other entry. -/
  set_present : ∀ (before after : Entries Value) key old value, key ∉ Entries.keys before →
    Entries.set key value (before ++ (key, old) :: after) = before ++ (key, value) :: after
  /-- Writing at a new key appends it. -/
  set_absent : ∀ (d : Entries Value) key value, key ∉ Entries.keys d →
    Entries.set key value d = d ++ [(key, value)]
  /-- Removing a key takes out its entry and keeps the others as they stand. -/
  erase_present : ∀ (before after : Entries Value) key value,
    (Entries.keys (before ++ (key, value) :: after)).Nodup →
    Entries.erase key (before ++ (key, value) :: after) = before ++ after
  /-- Removing a key that is not there changes nothing. -/
  erase_absent : ∀ (d : Entries Value) key, key ∉ Entries.keys d → Entries.erase key d = d
  /-- Built from pairs, each key stands at its first place ... -/
  places : ∀ pairs : List (Text × Value),
    Entries.keys (Entries.ofPairs pairs) = (Entries.keys pairs).eraseDups
  /-- ... with its last value. -/
  values : ∀ (pairs : List (Text × Value)) key,
    Entries.get? key (Entries.ofPairs pairs) = Entries.get? key pairs.reverse

/-- All that makes or changes a tree keeps its keys distinct. -/
theorem keysDistinct_kept (σ : Type) : KeepsKeysDistinct σ where
  built _ h := Value.hasDistinctKeys_ofPairs h
  decoded _ _ h := Value.hasDistinctKeys_of_decode h
  copied := Value.hasDistinctKeys_copy
  labelled _ tree s hguide htree := Labelling.preserves_label hguide (tree, s) htree
  opening := Request.hasDistinctKeys_opening
  queried uid args changes :=
    CursorQuery.hasDistinctKeys_changes (CursorQuery.hasDistinctKeys_template uid args) changes
  written _ key _ h hvalue := h.set hvalue key
  removed _ key h := h.erase key
  set_present _ after _ old value h := Entries.set_append_cons h value old after
  set_absent _ _ value h := Entries.set_of_notMem h value
  erase_present _ _ _ _ h := Entries.erase_append_cons h
  erase_absent _ _ h := Entries.erase_of_notMem h
  places := Entries.keys_ofPairs
  values pairs key := Entries.get?_ofPairs key pairs

/-- A guide that knows one kind, that of a class, fails on all other identifiers, and answers with a name,
a kind and something new. -/
def faultyGuide : Guide Unit where
  lookup uid s := (if uid = leastUid then .ok (some "source.lang.swift.decl.class") else .error .tooDeep, s)
  supplement := some
    { sourceFile? := fun _ => none
      setOffset := fun _ s => s
      send := pure (some (.dictionary [(Key.name, .string "C"), (Key.kind, .null), ("key.usr", .null)])) }
  sources := Sources.ofTexts []

/-- A walk that merges an answer and then fails: the name is replaced where it stands, the kind stays, what
is new comes at the end, and no key is there twice. -/
theorem keysDistinct_kept_interrupted :
    let tree : Entries Value := [(Key.name, .null), (Key.kind, .uint64 leastUid),
      (Key.nameOffset, .int64 0), ("key.type", .uint64 (leastUid + 1))]
    let out := Labelling.label faultyGuide (tree, ([], ()))
    out.1 = .error .tooDeep ∧
      out.2.1 = [(Key.name, .string "C"), (Key.kind, .string "source.lang.swift.decl.class"),
        (Key.nameOffset, .int64 0), ("key.type", .uint64 (leastUid + 1)), ("key.usr", .null)] ∧
      (Value.dictionary out.2.1).HasDistinctKeys := by
  intro tree out
  have hguide : faultyGuide.AnswersDistinctly := by
    rintro _ ⟨⟩ s t reply hsend
    obtain ⟨hreply, -⟩ := Prod.mk.inj hsend
    cases hreply
    refine ⟨?_, trivial, trivial, trivial, trivial⟩
    show [Key.name, Key.kind, "key.usr"].Nodup
    decide
  have htree : (Value.dictionary tree).HasDistinctKeys := by
    refine ⟨?_, trivial, trivial, trivial, trivial, trivial⟩
    show [Key.name, Key.kind, Key.nameOffset, "key.type"].Nodup
    decide
  exact ⟨rfl, rfl, (keysDistinct_kept Unit).labelled faultyGuide tree ([], ()) hguide htree⟩

end SwiftLens
