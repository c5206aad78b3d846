import SwiftLens.Proofs.Labelling.Reading

/-!
# Labelling with fixed names

With names that do not change and no supplement, labelling is a map: `label_eq_rename` says that it
succeeds, that the tree it leaves is `rename f` of the tree it was given, and which look-ups it makes,
in which order.

The look-ups are those of the identifiers under keys in reading order (`keyedUids`), less what was known
before and what has become known on the way (`lookups`). What one identifier does to the cache and to the
source of names is `resolved`, what a row of them does is `visited`; with fixed names no look-up fails, so
the row that a walk resolves comes to its end (`inTurn_fixed`).
-/

namespace SwiftLens

/-! ### Names that do not change -/

namespace Labelling

open NameCache

variable {σ : Type} (f : Int → Option Text) (note : Int → σ → σ)

/-- A look-up with the fixed names `f`; `note` is what being asked does to the source of names. -/
def fixedLookup (uid : Int) : Action σ (Option Text) := fun s => (.ok (f uid), note uid s)

/-- The cache and the source of names after one identifier has been resolved. -/
def resolved (uid : Int) (s : State σ) : State σ :=
  if uid < leastUid ∨ s.1.has uid = true then s
  else (match f uid with | some name => s.1 ++ [(uid, name)] | none => s.1, note uid s.2)

/-- The cache and the source of names after identifiers have been resolved in turn. -/
def visited (uids : List Int) (s : State σ) : State σ :=
  uids.foldl (fun s uid => resolved f note uid s) s

/-- No visits change nothing. -/
@[simp] theorem visited_nil (s : State σ) : visited f note [] s = s := rfl

variable {f}

/-- Resolving keeps the agreement of the cache with the fixed names. -/
theorem agrees_resolved {s : State σ} (h : Agrees f s.1) (uid : Int) :
    Agrees f (resolved f note uid s).1 := by
  unfold resolved
  split_ifs with hknown
  · exact h
  · cases hname : f uid with
    | none => exact h
    | some name => exact h.concat hname

/-- With fixed names, and a cache that agrees with them, resolving gives the name. -/
theorem resolve_fixed {s : State σ} (h : Agrees f s.1) (uid : Int) :
    NameCache.resolve (fixedLookup f note) uid s = (.ok (name? f uid), resolved f note uid s) := by
  unfold NameCache.resolve name? resolved
  by_cases hsmall : uid < leastUid
  · simp [hsmall]
  · simp only [hsmall, if_false, false_or]
    cases hfind : s.1.find? uid with
    | some name =>
      have hhas : s.1.has uid = true := by simp [NameCache.has, hfind]
      simp [Action.bind_apply, hfind, hhas, h uid name hfind]
    | none =>
      have hhas : s.1.has uid = false := by simp [NameCache.has, hfind]
      cases hname : f uid <;>
        simp [Action.bind_apply, hfind, hhas, Action.second, fixedLookup, hname]

/-- Look-ups of fixed names give these. -/
theorem gives_fixedLookup (f : Int → Option Text) : Gives f (fixedLookup f note) := by
  intro uid s name? h
  exact (Except.ok.inj h).symm

/-- With fixed names a row of identifiers is resolved to its end. -/
theorem inTurn_fixed {s : State σ} (h : Agrees f s.1) (uids : List Int) :
    inTurn (fixedLookup f note) uids s = ⟨uids.length, .ok (), visited f note uids s⟩ := by
  induction uids generalizing s with
  | nil => rfl
  | cons uid rest ih =>
    rw [inTurn_cons_of_ok (resolve_fixed note h uid), ih (agrees_resolved note h uid), Progress.after,
      Nat.add_comm, List.length_cons, visited, visited, List.foldl_cons]

/-! ### The walk renames -/

variable (sources : SourceReader σ)

/-- The guide of a walk with fixed names and no supplement. -/
def fixedGuide (f : Int → Option Text) (note : Int → σ → σ) (sources : SourceReader σ) : Guide σ :=
  ⟨fixedLookup f note, none, sources⟩

/-- Labelling a dictionary renames it. -/
theorem label_fixed {tree : Entries Value} (htree : (Value.dictionary tree).HasDistinctKeys)
    {s : State σ} (hs : Agrees f s.1) :
    label (fixedGuide f note sources) (tree, s) =
      (.ok (), (renameEntries f tree, visited f note (keyedUidsOfEntries tree) s)) := by
  have hlabel := label_inTurn sources (gives_fixedLookup note f) htree hs
  simp only [inTurn_fixed note hs, renameFirstEntries_of_le tree (Nat.le_refl _)] at hlabel
  exact hlabel

/-! ### The look-ups -/

/-- The look-ups that are made for a row of identifiers, after those of `before`: for one that is in
the cache none, for another one without a name each time, and for one with a name the first time. -/
def lookups (f : Int → Option Text) (cache : NameCache) (before : List Int) : List Int → List Int
  | [] => []
  | uid :: rest =>
    if cache.has uid = true ∨ ((f uid).isSome = true ∧ uid ∈ before) then
      lookups f cache (before ++ [uid]) rest
    else uid :: lookups f cache (before ++ [uid]) rest

/-- The cache after the identifiers of `before`: the names that were there, and theirs. -/
def Knows (f : Int → Option Text) (cache : NameCache) (before : List Int) (now : NameCache) : Prop :=
  ∀ uid, now.find? uid = if cache.has uid = true ∨ uid ∈ before then f uid else none

/-- At first a cache knows what it holds. -/
theorem knows_start {cache : NameCache} (h : Agrees f cache) : Knows f cache [] cache := by
  intro uid
  cases hfind : cache.find? uid with
  | none => simp [NameCache.has, hfind]
  | some name => simp [NameCache.has, hfind, h uid name hfind]

/-- Resolving one more identifier makes the look-up that is due and adds to what is known. -/
theorem knows_resolved {cache now : NameCache} {before : List Int} (hcache : Agrees f cache)
    (h : Knows f cache before now) {uid : Int} (huid : leastUid ≤ uid) (s : σ) :
    Knows f cache (before ++ [uid]) (resolved f note uid (now, s)).1 ∧
      (resolved f note uid (now, s)).2 =
        if cache.has uid = true ∨ ((f uid).isSome = true ∧ uid ∈ before) then s else note uid s := by
  have hnamed : cache.has uid = true → (f uid).isSome = true := by
    intro hhas
    obtain ⟨name, hname⟩ := Option.isSome_iff_exists.mp hhas
    rw [hcache uid name hname, Option.isSome_some]
  have hsmall : ¬uid < leastUid := by omega
  -- The identifier is found in the cache just in case it has a name that is known already.
  have hfound : now.has uid = true ↔
      cache.has uid = true ∨ ((f uid).isSome = true ∧ uid ∈ before) := by
    rw [NameCache.has, h uid]
    split_ifs with hknown
    · constructor
      · intro hsome
        rcases hknown with hknown | hknown
        · exact .inl hknown
        · exact .inr ⟨hsome, hknown⟩
      · rintro (hhas | ⟨hsome, -⟩)
        · exact hnamed hhas
        · exact hsome
    · simp only [Option.isSome_none, Bool.false_eq_true, false_iff]
      rintro (hhas | ⟨-, hmem⟩)
      · exact hknown (.inl hhas)
      · exact hknown (.inr hmem)
  constructor
  · intro u
    have hnow := h u
    by_cases hu : u = uid
    · subst hu
      have hgoal : (resolved f note u (now, s)).1.find? u = f u := by
        unfold resolved
        simp only [hsmall, false_or]
        split_ifs with hhas
        · obtain ⟨name, hname⟩ := Option.isSome_iff_exists.mp hhas
          have hagree : f u = some name := by
            rw [hnow] at hname
            exact (Option.ite_none_right_eq_some.mp hname).2
          rw [hname, hagree]
        · have hmiss : now.find? u = none := by simpa [NameCache.has] using hhas
          cases hname : f u with
          | none => exact hmiss
          | some name => simp [find?_concat, hmiss]
      rw [hgoal]
      simp
    · have hgoal : (resolved f note uid (now, s)).1.find? u = now.find? u := by
        unfold resolved
        split_ifs
        · rfl
        · cases f uid with
          | none => rfl
          | some name => simp [find?_concat, Ne.symm hu]
      rw [hgoal, hnow]
      simp [hu]
  · unfold resolved
    simp only [hsmall, false_or]
    by_cases hhas : now.has uid = true
    · rw [if_pos hhas, if_pos (hfound.mp hhas)]
    · rw [if_neg hhas, if_neg fun hdue => hhas (hfound.mpr hdue)]

/-- Resolving identifiers in turn makes the look-ups that are due and adds to what is known. -/
theorem knows_visited {cache now : NameCache} {before : List Int} (hcache : Agrees f cache)
    (h : Knows f cache before now) (uids : List Int) (s : σ) :
    Knows f cache (before ++ uids.filter (leastUid ≤ ·)) (visited f note uids (now, s)).1 ∧
      (visited f note uids (now, s)).2 =
        (lookups f cache before (uids.filter (leastUid ≤ ·))).foldl (fun s uid => note uid s) s := by
  induction uids generalizing before now s with
  | nil => exact ⟨by simpa using h, rfl⟩
  | cons uid rest ih =>
    rw [visited, List.foldl_cons, ← visited]
    by_cases huid : leastUid ≤ uid
    · obtain ⟨hknows, hsource⟩ := knows_resolved note hcache h huid s
      obtain ⟨hrest, hlookups⟩ := ih hknows (resolved f note uid (now, s)).2
      rw [List.filter_cons_of_pos (by simpa using huid), List.append_cons]
      refine ⟨hrest, hlookups.trans ?_⟩
      rw [lookups, hsource]
      split_ifs <;> rfl
    · have hsmall : resolved f note uid (now, s) = (now, s) := by
        unfold resolved
        rw [if_pos (.inl (by omega))]
      rw [hsmall, List.filter_cons_of_neg (by simpa using huid)]
      exact ih h s

/-- How often an identifier is looked up. -/
theorem count_lookups (cache : NameCache) (before uids : List Int) (uid : Int) :
    (lookups f cache before uids).count uid =
      if cache.has uid = true then 0
      else if (f uid).isSome = true then (if uid ∈ before ∨ uid ∉ uids then 0 else 1)
      else uids.count uid := by
  induction uids generalizing before with
  | nil => simp [lookups]
  | cons first rest ih =>
    rw [lookups]
    by_cases hfirst : first = uid
    · subst hfirst
      split_ifs <;> simp_all
    · have hfirst' : ¬uid = first := fun h => hfirst h.symm
      split_ifs <;> simp_all

/-- The identifiers that stand under keys, in reading order. -/
def identifiers (tree : Entries Value) : List Int := (keyedUidsOfEntries tree).filter (leastUid ≤ ·)

/-- With fixed names and no supplement, labelling a dictionary succeeds and renames it. The look-ups
are those of `lookups` for its identifiers, one after the other: none for an identifier that is in the
cache, one for any other that has a name, and one for each occurrence of one that has none. Afterwards
the cache holds the names of all that were met. -/
theorem label_eq_rename (f : Int → Option Text) (note : Int → σ → σ) (sources : SourceReader σ)
    {tree : Entries Value} (htree : (Value.dictionary tree).HasDistinctKeys) {cache : NameCache}
    (hcache : cache.Agrees f) (s : σ) :
    ∃ found : NameCache,
      label ⟨fixedLookup f note, none, sources⟩ (tree, (cache, s)) =
        (.ok (), (renameEntries f tree,
          (found, (lookups f cache [] (identifiers tree)).foldl (fun s uid => note uid s) s))) ∧
      (∀ uid, (lookups f cache [] (identifiers tree)).count uid =
        if cache.has uid = true then 0
        else if (f uid).isSome = true then (if uid ∈ identifiers tree then 1 else 0)
        else (identifiers tree).count uid) ∧
      ∀ uid, found.find? uid =
        if cache.has uid = true ∨ uid ∈ identifiers tree then f uid else none := by
  obtain ⟨hknows, hsource⟩ :=
    knows_visited note hcache (knows_start hcache) (keyedUidsOfEntries tree) s
  refine ⟨(visited f note (keyedUidsOfEntries tree) (cache, s)).1, ?_, ?_, ?_⟩
  · rw [← identifiers] at hsource
    rw [← hsource]
    exact label_fixed note sources htree hcache
  · intro uid
    rw [count_lookups]
    simp only [List.not_mem_nil, false_or, ite_not]
  · exact hknows

/-- A kind and a list of nodes, with a number under a key that is too small for an identifier, an
identifier in an array and one without a name that occurs twice. -/
def sampleNode : Entries Value :=
  [("key.kind", .uint64 4300000005),
    ("key.nodes", .array
      [.dictionary [("a", .uint64 4300000006), ("b", .uint64 4300000005), ("c", .uint64 4300000006)],
        .uint64 4300000005, .int64 4300000005]),
    ("key.count", .uint64 7)]

/-- No dictionary of the sample has a key twice. -/
theorem hasDistinctKeys_sampleNode : (Value.dictionary sampleNode).HasDistinctKeys :=
  ⟨by decide, trivial, ⟨⟨by decide, trivial, trivial, trivial, trivial⟩, trivial, trivial, trivial⟩,
    trivial, trivial⟩

/-- Names in which one identifier has a name. -/
def sampleNames (uid : Int) : Option Text := if uid = 4300000005 then some "kind" else none

/-- A source of names that writes down what it is asked. -/
def writtenDown (uid : Int) (log : List Int) : List Int := log ++ [uid]

/-- The sample as it is labelled. -/
def labelledSample : Entries Value :=
  [("key.kind", .string "kind"),
    ("key.nodes", .array
      [.dictionary [("a", .uint64 4300000006), ("b", .string "kind"), ("c", .uint64 4300000006)],
        .uint64 4300000005, .int64 4300000005]),
    ("key.count", .uint64 7)]

/-- The sample is labelled; an identifier that has no name is looked up each time it comes. -/
theorem label_eq_rename_sampleNode : ∃ found : NameCache,
    label ⟨fixedLookup sampleNames writtenDown, none, Sources.ofTexts []⟩ (sampleNode, ([], [])) =
      (.ok (), (labelledSample, (found, [4300000005, 4300000006, 4300000006]))) ∧
    found.find? 4300000005 = some "kind" := by
  obtain ⟨found, hlabel, -, hfound⟩ := label_eq_rename sampleNames writtenDown (Sources.ofTexts [])
    hasDistinctKeys_sampleNode (agrees_nil sampleNames) []
  exact ⟨found, hlabel, hfound 4300000005⟩

end Labelling

end SwiftLens
