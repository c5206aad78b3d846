import SwiftLens.Proofs.Labelling.Renaming

/-!
# Interrupted labelling

A tree is labelled in place, and what was labelled before a look-up failed stays labelled. So a tree can
be labelled again after a failure, with the names that were found. `relabel` does this for a list of
look-ups, one for each run, which may fail at any time but otherwise give the names of `f`.

`relabel_interrupted` says what the trees are that come up. A run that fails has renamed what stands
before the identifier that failed and nothing else. Renaming such a tree gives what renaming the first
tree gives (`renameEntries_renameFirst`), so the first run that succeeds leaves the tree that one run
without failures leaves; and a renamed tree has nothing left to rename (`renameFirstEntries_rename`), so
no later run changes it, whether it fails or not.
-/

namespace SwiftLens.Labelling

open NameCache

variable {σ : Type} {f : Int → Option Text}

/-! ### Renaming twice -/

/-- What has been named is not named again. -/
@[simp] theorem nameUid_nameUid (value : Value) : nameUid f (nameUid f value) = nameUid f value := by
  cases value with
  | uint64 uid => cases hname : name? f uid <;> simp [nameUid, hname]
  | _ => rfl

/-- What an identifier under a key has become is not renamed any further. -/
theorem renameFirst_nameUid_uint64 (n : Nat) (uid : Int) :
    renameFirst f n (nameUid f (.uint64 uid)) = nameUid f (.uint64 uid) := by
  cases hname : name? f uid <;> simp [nameUid, hname, renameFirst]

/-- What an identifier under a key has become is not renamed. -/
theorem rename_nameUid_uint64 (uid : Int) :
    rename f (nameUid f (.uint64 uid)) = nameUid f (.uint64 uid) := by
  cases hname : name? f uid <;> simp [nameUid, hname, rename]

/-- What is no identifier does not become one. -/
theorem rename_not_uid {value : Value} (h : ∀ uid, value ≠ .uint64 uid) (uid : Int) :
    rename f value ≠ .uint64 uid := by
  cases value with
  | uint64 uid => exact absurd rfl (h uid)
  | _ => simp [rename]

/-- In what has been renamed under a key, nothing is left to name. -/
theorem nameFirst_nameUid_rename {n : Nat} {value : Value}
    (hinside : renameFirst f n (rename f value) = rename f value) :
    nameFirst f n (nameUid f (rename f value)) = nameUid f (rename f value) := by
  rcases uint64_or_not value with ⟨uid, rfl⟩ | hnot
  · unfold nameFirst
    split_ifs
    · rfl
    · show nameUid f (renameFirst f n (nameUid f (.uint64 uid))) = nameUid f (.uint64 uid)
      rw [renameFirst_nameUid_uint64, nameUid_nameUid]
  · rw [nameUid_rename_of_not_uid hnot, nameFirst_of_not_uid (rename_not_uid hnot), hinside]

mutual

/-- In a renamed tree nothing is left to rename. -/
theorem renameFirst_rename : (value : Value) → ∀ n : Nat,
    renameFirst f n (rename f value) = rename f value
  | .null, _ | .bool _, _ | .int64 _, _ | .uint64 _, _ | .double _, _ | .string _, _ | .data _, _ => rfl
  | .array items, n => congrArg Value.array (renameFirstItems_rename items n)
  | .dictionary entries, n => congrArg Value.dictionary (renameFirstEntries_rename entries n)

/-- In renamed items nothing is left to rename. -/
theorem renameFirstItems_rename : (items : List Value) → ∀ n : Nat,
    renameFirstItems f n (renameItems f items) = renameItems f items
  | [], _ => rfl
  | item :: rest, n => by
      rw [renameItems, renameFirstItems, renameFirst_rename item, renameFirstItems_rename rest]

/-- In a tree that is renamed there is nothing left to rename. -/
theorem renameFirstEntries_rename : (entries : List (Text × Value)) → ∀ n : Nat,
    renameFirstEntries f n (renameEntries f entries) = renameEntries f entries
  | [], _ => rfl
  | (key, value) :: rest, n => by
      rw [renameEntries, renameFirstEntries_cons, nameFirst_nameUid_rename (renameFirst_rename value n),
        renameFirstEntries_rename rest]

end

/-- To name some of what stands under a key and then the rest is to name all of it. -/
theorem nameUid_rename_nameFirst {n : Nat} {value : Value}
    (hinside : rename f (renameFirst f n value) = rename f value) :
    nameUid f (rename f (nameFirst f n value)) = nameUid f (rename f value) := by
  rcases uint64_or_not value with ⟨uid, rfl⟩ | hnot
  · unfold nameFirst
    split_ifs
    · rfl
    · show nameUid f (rename f (nameUid f (.uint64 uid))) = nameUid f (.uint64 uid)
      rw [rename_nameUid_uint64, nameUid_nameUid]
  · rw [nameFirst_of_not_uid hnot, hinside]

mutual

/-- To rename some of a tree and then the rest is to rename all of it. -/
theorem rename_renameFirst : (value : Value) → ∀ n : Nat,
    rename f (renameFirst f n value) = rename f value
  | .null, _ | .bool _, _ | .int64 _, _ | .uint64 _, _ | .double _, _ | .string _, _ | .data _, _ => rfl
  | .array items, n => congrArg Value.array (renameItems_renameFirst items n)
  | .dictionary entries, n => congrArg Value.dictionary (renameEntries_renameFirst entries n)

/-- To rename some of the items and then the rest is to rename all of them. -/
theorem renameItems_renameFirst : (items : List Value) → ∀ n : Nat,
    renameItems f (renameFirstItems f n items) = renameItems f items
  | [], _ => rfl
  | item :: rest, n => by
      rw [renameFirstItems, renameItems, renameItems, rename_renameFirst item,
        renameItems_renameFirst rest]

/-- Renaming a tree of which the beginning is renamed gives the renamed tree. -/
theorem renameEntries_renameFirst : (entries : List (Text × Value)) → ∀ n : Nat,
    renameEntries f (renameFirstEntries f n entries) = renameEntries f entries
  | [], _ => rfl
  | (key, value) :: rest, n => by
      rw [renameFirstEntries_cons, renameEntries, renameEntries,
        nameUid_rename_nameFirst (rename_renameFirst value n), renameEntries_renameFirst rest]

end

/-! ### Keys stay as they are -/

/-- Renaming keeps the keys. -/
theorem keys_renameFirstEntries (entries : Entries Value) (n : Nat) :
    Entries.keys (renameFirstEntries f n entries) = Entries.keys entries := by
  induction entries generalizing n with
  | nil => rfl
  | cons entry rest ih =>
    obtain ⟨key, value⟩ := entry
    rw [renameFirstEntries_cons, Entries.keys_cons, Entries.keys_cons, ih]

/-- What stands under a key has no key twice when some of it has been named. -/
theorem hasDistinctKeys_nameFirst {n : Nat} {value : Value} (h : value.HasDistinctKeys)
    (hinside : (renameFirst f n value).HasDistinctKeys) : (nameFirst f n value).HasDistinctKeys := by
  rcases uint64_or_not value with ⟨uid, rfl⟩ | hnot
  · unfold nameFirst
    split_ifs
    · exact h
    · cases hname : name? f uid <;> simp [renameFirst, nameUid, hname, Value.HasDistinctKeys]
  · rw [nameFirst_of_not_uid hnot]
    exact hinside

mutual

/-- A tree has no key twice when some of it has been renamed. -/
theorem hasDistinctKeys_renameFirst : (value : Value) → ∀ n : Nat, value.HasDistinctKeys →
    (renameFirst f n value).HasDistinctKeys
  | .null, _, h | .bool _, _, h | .int64 _, _, h | .uint64 _, _, h | .double _, _, h | .string _, _, h
  | .data _, _, h => h
  | .array items, n, h => itemsHaveDistinctKeys_renameFirst items n h
  | .dictionary entries, n, h => by
      rw [Value.HasDistinctKeys] at h
      rw [renameFirst, Value.HasDistinctKeys, keys_renameFirstEntries]
      exact ⟨h.1, entriesHaveDistinctKeys_renameFirst entries n h.2⟩

/-- Items have no key twice when some of them have been renamed. -/
theorem itemsHaveDistinctKeys_renameFirst : (items : List Value) → ∀ n : Nat,
    Value.ItemsHaveDistinctKeys items → Value.ItemsHaveDistinctKeys (renameFirstItems f n items)
  | [], _, h => h
  | item :: rest, n, h =>
      ⟨hasDistinctKeys_renameFirst item n h.1, itemsHaveDistinctKeys_renameFirst rest _ h.2⟩

/-- Entries have no key twice when some of them have been renamed. -/
theorem entriesHaveDistinctKeys_renameFirst : (entries : List (Text × Value)) → ∀ n : Nat,
    Value.EntriesHaveDistinctKeys entries → Value.EntriesHaveDistinctKeys (renameFirstEntries f n entries)
  | [], _, h => h
  | (_, value) :: rest, n, h =>
      ⟨hasDistinctKeys_nameFirst h.1 (hasDistinctKeys_renameFirst value n h.1),
        entriesHaveDistinctKeys_renameFirst rest _ h.2⟩

end

/-! ### Runs -/

/-- Label a tree once for each of the look-ups, whatever comes of each run. -/
def relabel (sources : SourceReader σ) : List (Int → Action σ (Option Text)) →
    Entries Value × State σ → List (Except Fault Unit) × (Entries Value × State σ)
  | [], s => ([], s)
  | lookup :: rest, s =>
    match label ⟨lookup, none, sources⟩ s with
    | (result, s) =>
      match relabel sources rest s with
      | (results, s) => (result :: results, s)

/-- The tree is on its way from `tree` to what renaming makes of `tree`, and the names found are those of
`f`. -/
structure OnTheWay (f : Int → Option Text) (tree : Entries Value) (s : Entries Value × State σ) : Prop where
  distinct : (Value.dictionary s.1).HasDistinctKeys
  renames : renameEntries f s.1 = renameEntries f tree
  agrees : Agrees f s.2.1

variable (sources : SourceReader σ) {lookup : Int → Action σ (Option Text)} {tree : Entries Value}
  {s : Entries Value × State σ}

/-- A run on a tree that is on its way resolves what is left in turn, and renames as much of it. -/
theorem OnTheWay.label_eq (h : OnTheWay f tree s) (hlookup : Gives f lookup) :
    let row := inTurn lookup (keyedUidsOfEntries s.1) s.2
    label ⟨lookup, none, sources⟩ s =
      (row.result, (renameFirstEntries f row.count s.1, row.state)) :=
  label_inTurn sources hlookup h.distinct h.agrees

/-- A run, whether it fails or not, leaves the tree on its way. -/
theorem OnTheWay.label (h : OnTheWay f tree s) (hlookup : Gives f lookup) :
    OnTheWay f tree (label ⟨lookup, none, sources⟩ s).2 := by
  rw [h.label_eq sources hlookup]
  refine ⟨?_, ?_, ?_⟩
  · exact hasDistinctKeys_renameFirst (.dictionary s.1) _ h.distinct
  · exact (renameEntries_renameFirst s.1 _).trans h.renames
  · exact agrees_inTurn hlookup _ h.agrees

/-- A run that succeeds leaves the tree renamed. -/
theorem OnTheWay.label_of_ok (h : OnTheWay f tree s) (hlookup : Gives f lookup)
    (hok : (Labelling.label ⟨lookup, none, sources⟩ s).1 = .ok ()) :
    (Labelling.label ⟨lookup, none, sources⟩ s).2.1 = renameEntries f tree := by
  rw [h.label_eq sources hlookup] at hok ⊢
  rw [← h.renames]
  exact renameFirstEntries_of_le s.1 (Nat.le_of_eq (count_of_ok hok).symm)

/-- A run, whether it fails or not, does not change a tree that is renamed. -/
theorem OnTheWay.label_of_renamed (h : OnTheWay f tree s) (hlookup : Gives f lookup)
    (hs : s.1 = renameEntries f tree) :
    (Labelling.label ⟨lookup, none, sources⟩ s).2.1 = renameEntries f tree := by
  rw [h.label_eq sources hlookup, hs]
  exact renameFirstEntries_rename tree _

variable {before : List (Int → Action σ (Option Text))}

/-- Further runs leave the tree on its way. -/
theorem OnTheWay.relabel (h : OnTheWay f tree s) (hbefore : ∀ lookup ∈ before, Gives f lookup) :
    OnTheWay f tree (relabel sources before s).2 := by
  induction before generalizing s with
  | nil => exact h
  | cons lookup rest ih =>
    exact ih (h.label sources (hbefore lookup List.mem_cons_self))
      fun l hl => hbefore l (List.mem_cons_of_mem _ hl)

/-- Further runs leave a renamed tree as it is. -/
theorem OnTheWay.relabel_of_renamed (h : OnTheWay f tree s)
    (hbefore : ∀ lookup ∈ before, Gives f lookup) (hs : s.1 = renameEntries f tree) :
    (Labelling.relabel sources before s).2.1 = renameEntries f tree := by
  induction before generalizing s with
  | nil => exact hs
  | cons lookup rest ih =>
    have hlookup := hbefore lookup List.mem_cons_self
    exact ih (h.label sources hlookup) (fun l hl => hbefore l (List.mem_cons_of_mem _ hl))
      (h.label_of_renamed sources hlookup hs)

/-- After a run that has succeeded, the tree is renamed, however many runs have followed. -/
theorem OnTheWay.relabel_of_ok_mem (h : OnTheWay f tree s)
    (hbefore : ∀ lookup ∈ before, Gives f lookup)
    (hok : .ok () ∈ (Labelling.relabel sources before s).1) :
    (Labelling.relabel sources before s).2.1 = renameEntries f tree := by
  induction before generalizing s with
  | nil => cases hok
  | cons lookup rest ih =>
    have hlookup := hbefore lookup List.mem_cons_self
    have hrest : ∀ l ∈ rest, Gives f l := fun l hl => hbefore l (List.mem_cons_of_mem _ hl)
    rcases List.mem_cons.mp hok with hfirst | hlater
    · exact (h.label sources hlookup).relabel_of_renamed sources hrest
        (h.label_of_ok sources hlookup hfirst.symm)
    · exact ih (h.label sources hlookup) hrest hlater

/-- A tree is labelled again and again, with the names found before and with look-ups that may fail at
any time but otherwise give the names of `f`. Any run resolves the identifiers under keys in turn and
fails with the first look-up that fails; then what stands before the identifier that failed is renamed,
and it and everything after it is as it was before the run. The first run that succeeds leaves the tree as
a single run without failures leaves it, and no run after it changes the tree. -/
theorem relabel_interrupted (htree : (Value.dictionary tree).HasDistinctKeys) {cache : NameCache}
    (hcache : cache.Agrees f) (hbefore : ∀ lookup ∈ before, Gives f lookup) (hlookup : Gives f lookup)
    (s : σ) :
    let runs := relabel sources before (tree, (cache, s))
    let start := runs.2
    let out := label ⟨lookup, none, sources⟩ start
    let row := inTurn lookup (keyedUidsOfEntries start.1) start.2
    out = (row.result, (renameFirstEntries f row.count start.1, row.state)) ∧
    (∀ e, out.1 = .error e → ∃ n uid t, (keyedUidsOfEntries start.1)[n]? = some uid ∧
      inTurn lookup ((keyedUidsOfEntries start.1).take n) start.2 = ⟨n, .ok (), t⟩ ∧
      lookup uid t.2 = (.error e, out.2.2.2) ∧ out.2.1 = renameFirstEntries f n start.1) ∧
    (out.1 = .ok () → out.2.1 = renameEntries f tree) ∧
    (.ok () ∈ runs.1 → start.1 = renameEntries f tree ∧ out.2.1 = start.1) ∧
    ∀ note, ∃ t, label ⟨fixedLookup f note, none, sources⟩ (tree, (cache, s)) =
      (.ok (), (renameEntries f tree, t)) := by
  intro runs start out row
  have hfirst : OnTheWay f tree (tree, (cache, s)) := ⟨htree, rfl, hcache⟩
  have hstart : OnTheWay f tree start := hfirst.relabel sources hbefore
  have hout : out = (row.result, (renameFirstEntries f row.count start.1, row.state)) :=
    hstart.label_eq sources hlookup
  refine ⟨hout, ?_, ?_, ?_, ?_⟩
  · intro e he
    rw [hout] at he ⊢
    obtain ⟨uid, t, huid, htaken, hfails⟩ := stop_of_error he
    exact ⟨row.count, uid, t, huid, htaken, lookup_of_resolve_error hfails, rfl⟩
  · exact hstart.label_of_ok sources hlookup
  · intro hok
    have hrenamed := hfirst.relabel_of_ok_mem sources hbefore hok
    exact ⟨hrenamed, (hstart.label_of_renamed sources hlookup hrenamed).trans hrenamed.symm⟩
  · intro note
    exact ⟨_, label_fixed note sources htree hcache⟩

/-- Look-ups of the sample's names that fail where there is none. -/
def brittleLookup (uid : Int) : Action (List Int) (Option Text) := fun log =>
  (if uid = 4300000005 then .ok (some "kind") else .error (.outside "gone"), log ++ [uid])

/-- The sample labelled with look-ups that fail midway, and then again with look-ups that do not. -/
theorem relabel_interrupted_sampleNode :
    let start := (relabel (Sources.ofTexts [] : SourceReader (List Int)) [brittleLookup]
      (sampleNode, ([], []))).2
    (label ⟨fixedLookup sampleNames writtenDown, none, Sources.ofTexts []⟩ start).2.1 =
      labelledSample := by
  have hgives : Gives sampleNames brittleLookup := by
    intro uid s name? h
    by_cases huid : uid = 4300000005
    · simp only [brittleLookup, if_pos huid] at h
      rw [sampleNames, if_pos huid]
      exact (Except.ok.inj h).symm
    · simp only [brittleLookup, if_neg huid] at h
      cases h
  intro start
  obtain ⟨-, -, hok, -⟩ := relabel_interrupted (Sources.ofTexts []) hasDistinctKeys_sampleNode
    (agrees_nil sampleNames) (List.forall_mem_singleton.mpr hgives)
    (gives_fixedLookup writtenDown sampleNames) []
  exact hok rfl

end SwiftLens.Labelling
