import SwiftLens.Proofs.Labelling.Answers
import SwiftLens.Proofs.Labelling.Renaming

/-!
# How often a supplement is asked

The keys of a node are listed before its declaration is asked about, but what stands at them is looked at
afterwards. So an answer that offers something at a key of the node, in the place of what was there, is
walked into, and the declarations in it are asked about in their turn.

`length_answers_of_label` bounds the questions nevertheless. Each is about a dictionary, and that dictionary
is one of the tree or one that an answer has brought in. The proof is a payment: a dictionary ahead of the
walk pays for the question about it, and an answer pays in for the dictionaries it brings (`IsFrugal`,
`frugal_labelKey`). Only what is brought in at keys that a walk can meet counts; `K` stands for these keys.
If no answer offers a dictionary at a key of the tree, there are no more questions than dictionaries in the
tree. The levels of a walk are accounted for in the same way (`AgreeWithin`): what is ahead of it is no
deeper than the tree and what answers have brought in. So a walk comes to its end unless answers bring in
more levels than it is allowed, and if they offer only leaves at keys of the tree, it goes no deeper than
the tree.

`answers_outnumber_dictionaries` is what happens otherwise: one dictionary and two questions, and answers
with which a walk comes to no end.
-/

namespace SwiftLens

variable {σ : Type}

/-- None of the questions that the guide puts fails for depth; that is the walk's own fault. -/
structure Guide.IsShallow (guide : Guide σ) : Prop where
  lookup : ∀ uid s, (guide.lookup uid s).1 ≠ .error .tooDeep
  send : ∀ supplement ∈ guide.supplement, ∀ s, (supplement.send s).1 ≠ .error .tooDeep
  range : ∀ file offset length s, (guide.sources.range file offset length s).1 ≠ .error .tooDeep

/-- A guide that lists answers fails for depth no more than the guide. -/
theorem Guide.IsShallow.listed {guide : Guide σ} (h : guide.IsShallow) : guide.listed.IsShallow where
  lookup uid s := h.lookup uid s.2
  send := by
    intro _ hmem s
    obtain ⟨supplement, hsupplement, rfl⟩ := Option.mem_map.mp hmem
    exact h.send supplement hsupplement s.2
  range file offset length s := h.range file offset length s.2

namespace Labelling

open NameCache

section Keys

variable {K : Text → Prop} [DecidablePred K] {guide : Guide σ}
  {walk walk' : Action (Value × State (Answers × σ)) Unit} {key : Text} {node node' : Entries Value}
  {t t' : State (Answers × σ)} {r : Except Fault Unit}

/-! ### Answers are paid for -/

/-- A walk that asks no more often than the tree has dictionaries and answers bring in. -/
structure IsFrugal (K : Text → Prop) [DecidablePred K] (walk : Action (Value × State (Answers × σ)) Unit) :
    Prop where
  grows : Grows walk
  frugal : ∀ {value value' : Value} {t t' : State (Answers × σ)} {r : Except Fault Unit},
    walk (value, t) = (r, (value', t')) → IsTame K value → TameAnswers K t'.2.1 →
      t'.2.1.length + brought K t.2.1 ≤ t.2.1.length + value.dictionaries + brought K t'.2.1

/-- One key: a question, or what stands there, and what is to come. -/
theorem frugal_labelKey (hwalk : IsFrugal K walk)
    (hrun : labelKey guide.listed walk key (node, t) = (r, (node', t')))
    (hanswers : TameAnswers K t'.2.1) {rest : List Text} (hkeys : (key :: rest).Nodup)
    (hK : ∀ k ∈ key :: rest, K k) (hnode : TameAt K (key :: rest) node) :
    t'.2.1.length + Value.dictionariesAmong node' rest + brought K t.2.1 ≤
      t.2.1.length + [key].count Key.kind + Value.dictionariesAmong node (key :: rest) +
        brought K t'.2.1 := by
  obtain ⟨hnew, hrest⟩ := List.nodup_cons.mp hkeys
  rw [Value.dictionariesAmong_cons]
  rcases labelKey_cases hrun with ⟨value, value', hget, hdown, rfl⟩ | hwrites
  · have hpaid := hwalk.frugal hdown (hnode key List.mem_cons_self value hget) hanswers
    rw [Value.dictionariesAmong_set_of_notMem hnew, Value.dictionariesAt_of_get? hget]
    omega
  · have hpaid := hwrites.dictionariesAmong_le hrest fun k hk => hK k (List.mem_cons_of_mem _ hk)
    omega

/-- Keys are labelled with no more questions than there are kinds and dictionaries at them and in what answers
bring in. -/
theorem frugal_labelKeys (hwalk : IsFrugal K walk) {keys : List Text} (hkeys : keys.Nodup)
    (hK : ∀ k ∈ keys, K k) (hnode : TameAt K keys node)
    (hrun : labelKeys guide.listed walk keys (node, t) = (r, (node', t')))
    (hanswers : TameAnswers K t'.2.1) :
    t'.2.1.length + brought K t.2.1 ≤
      t.2.1.length + keys.count Key.kind + Value.dictionariesAmong node keys + brought K t'.2.1 := by
  induction keys generalizing node t with
  | nil =>
    obtain ⟨-, -, rfl⟩ : .ok () = r ∧ node = node' ∧ t = t' := by simpa [labelKeys] using hrun
    omega
  | cons key rest ih =>
    obtain ⟨hnew, hrest⟩ := List.nodup_cons.mp hkeys
    have hKrest : ∀ k ∈ rest, K k := fun k hk => hK k (List.mem_cons_of_mem _ hk)
    rw [labelKeys] at hrun
    rcases hfirst : labelKey guide.listed walk key (node, t) with ⟨e | ⟨⟩, node₁, t₁⟩
    · rw [Action.bind_of_error hfirst] at hrun
      obtain ⟨-, -, rfl⟩ : .error e = r ∧ node₁ = node' ∧ t₁ = t' := by simpa using hrun
      have hpaid := frugal_labelKey hwalk hfirst hanswers hkeys hK hnode
      have hcount : [key].count Key.kind ≤ (key :: rest).count Key.kind :=
        List.Sublist.count_le Key.kind (by simp)
      omega
    · rw [Action.bind_of_ok hfirst] at hrun
      have hearlier : TameAnswers K t₁.2.1 := hanswers.of_prefix (hwalk.grows.prefix_labelKeys hrun)
      have hpaid := frugal_labelKey hwalk hfirst hearlier hkeys hK hnode
      have hlater := ih hrest hKrest (tameAt_of_labelKey hfirst hearlier hnew hKrest
        fun k hk => hnode k (List.mem_cons_of_mem _ hk)) hrun
      have hcount : (key :: rest).count Key.kind = [key].count Key.kind + rest.count Key.kind := by
        rw [← List.singleton_append, List.count_append]
      omega

/-- Items are labelled with no more questions than there are dictionaries in them and in what answers bring
in. -/
theorem frugal_labelItems (hwalk : IsFrugal K walk) {items items' : List Value}
    (hitems : ∀ item ∈ items, IsTame K item) (hrun : labelItems walk items t = (r, (items', t')))
    (hanswers : TameAnswers K t'.2.1) :
    t'.2.1.length + brought K t.2.1 ≤
      t.2.1.length + Value.itemsDictionaries items + brought K t'.2.1 := by
  induction items generalizing items' t with
  | nil =>
    obtain ⟨-, -, rfl⟩ : .ok () = r ∧ [] = items' ∧ t = t' := by simpa [labelItems] using hrun
    omega
  | cons item rest ih =>
    rw [labelItems] at hrun
    rw [Value.itemsDictionaries]
    rcases hfirst : walk (item, t) with ⟨e | ⟨⟩, item₁, t₁⟩
    · simp only [hfirst, Prod.mk.injEq] at hrun
      obtain ⟨-, -, rfl⟩ := hrun
      have hpaid := hwalk.frugal hfirst (hitems item List.mem_cons_self) hanswers
      omega
    · rcases hrest : labelItems walk rest t₁ with ⟨r₂, items₂, t₂⟩
      simp only [hfirst, hrest, Prod.mk.injEq] at hrun
      obtain ⟨rfl, -, rfl⟩ := hrun
      have hearlier : TameAnswers K t₁.2.1 := hanswers.of_prefix (hwalk.grows.prefix_labelItems hrest)
      have hpaid := hwalk.frugal hfirst (hitems item List.mem_cons_self) hearlier
      have hlater := ih (fun i hi => hitems i (List.mem_cons_of_mem _ hi)) hrest
      omega

/-- A dictionary is paid for by the question about it and by the dictionaries inside it. -/
theorem frugal_dictionary (hwalk : IsFrugal K walk) (hnode : IsTame K (.dictionary node))
    (hrun : labelKeys guide.listed walk (Entries.keys node) (node, t) = (r, (node', t')))
    (hanswers : TameAnswers K t'.2.1) :
    t'.2.1.length + brought K t.2.1 ≤
      t.2.1.length + (Value.dictionary node).dictionaries + brought K t'.2.1 := by
  have hpaid := frugal_labelKeys hwalk hnode.1.1 hnode.keys hnode.tameAt hrun hanswers
  have hcount := List.nodup_iff_count_le_one.mp hnode.1.1 Key.kind
  rw [Value.dictionariesAmong_keys hnode.1.1] at hpaid
  rw [Value.dictionaries]
  omega

/-- Labelling a value is frugal. -/
theorem isFrugal_labelValue (guide : Guide σ) (levels : Nat) :
    IsFrugal K (labelValue guide.listed levels) := by
  induction levels with
  | zero =>
    refine ⟨grows_labelValue guide 0, ?_⟩
    intro value value' t t' r hrun _ _
    obtain rfl : t = t' := by
      cases value <;> exact congrArg (fun out => out.2.2) hrun
    omega
  | succ levels ih =>
    refine ⟨grows_labelValue guide (levels + 1), ?_⟩
    intro value value' t t' r hrun hvalue hanswers
    cases value with
    | array items =>
      obtain ⟨items', -, hitems⟩ := labelItems_of_labelValue hrun
      exact frugal_labelItems ih (fun item hitem => hvalue.of_mem_items hitem) hitems hanswers
    | dictionary entries =>
      obtain ⟨entries', -, hkeys⟩ := labelKeys_of_labelValue hrun
      exact frugal_dictionary ih hvalue hkeys hanswers
    | _ =>
      obtain rfl : t = t' := congrArg (fun out => out.2.2) hrun
      omega

/-! ### Failing for depth -/

section Shallow

variable {guide : Guide σ} {walk : Action (Value × State σ) Unit} {t t' : State σ}

/-- What is added for a kind does not fail for depth. -/
theorem addForKind_ne_tooDeep (hguide : guide.IsShallow) (name : Text) (node : Entries Value)
    (t : State σ) : (addForKind guide name (node, t)).1 ≠ .error .tooDeep := by
  unfold addForKind
  cases hsupplement : guide.supplement with
  | none => simp
  | some supplement =>
    simp only
    split_ifs
    · rcases addDeclaration_cases supplement node t with hout | ⟨offset, answer, s, hsend, hout⟩
      · simp [hout]
      · have hanswer := hguide.send supplement hsupplement (supplement.setOffset offset t.2)
        rw [hsend] at hanswer
        rw [hout]
        cases answer with
        | error e => simpa [Except.map] using hanswer
        | ok reply => simp [Except.map]
    · rcases addMark_cases supplement guide.sources node t with
        ⟨_, _, _, hout⟩ | ⟨file, offset, length, ⟨e, s, hread, hout⟩ | ⟨text, s, hread, hout⟩⟩
      · simp [hout]
      · have htext := hguide.range file offset length t.2
        rw [hread] at htext
        rw [hout]
        simpa using htext
      · simp [hout]
    · simp

/-- At a key only the walk down into what stands there fails for depth. -/
theorem exists_tooDeep_of_labelKey (hguide : guide.IsShallow)
    (hrun : labelKey guide walk key (node, t) = (.error .tooDeep, (node', t'))) :
    ∃ value value', node.get? key = some value ∧ walk (value, t) = (.error .tooDeep, (value', t')) := by
  cases hget : node.get? key with
  | none =>
    rw [labelKey_of_absent hget] at hrun
    cases hrun
  | some value =>
    rcases uint64_or_not value with ⟨uid, rfl⟩ | hnot
    · rcases hresolve : resolve guide.lookup uid t with ⟨e | _ | name, s⟩
      · rw [labelKey_of_unresolved hget hresolve] at hrun
        have hlookup := hguide.lookup uid t.2
        rw [lookup_of_resolve_error hresolve] at hlookup
        exact absurd (congrArg Prod.fst hrun) (by simpa using hlookup)
      · rw [labelKey_of_unnamed hget hresolve] at hrun
        cases hrun
      · rw [labelKey_of_named hget hresolve] at hrun
        split_ifs at hrun
        · exact absurd (congrArg Prod.fst hrun) (addForKind_ne_tooDeep hguide name _ s)
        · cases hrun
    · rw [labelKey_of_not_uid hget hnot] at hrun
      rcases hdown : walk (value, t) with ⟨r, value', t₁⟩
      simp only [atKey, hdown, Prod.mk.injEq] at hrun
      obtain ⟨rfl, -, rfl⟩ := hrun
      exact ⟨value, value', rfl, hdown⟩

end Shallow

/-! ### Levels -/

/-- Two walks do the same where what is ahead, with what answers bring in, is no deeper than given, and
they do not fail for depth there, if the guide does not. -/
def AgreeWithin (K : Text → Prop) [DecidablePred K] (guide : Guide σ) (levels : Nat)
    (walk walk' : Action (Value × State (Answers × σ)) Unit) : Prop :=
  ∀ {value value' : Value} {t t' : State (Answers × σ)} {r : Except Fault Unit},
    walk (value, t) = (r, (value', t')) → IsTame K value → TameAnswers K t'.2.1 →
      value.depth + broughtLevels K t'.2.1 ≤ levels + broughtLevels K t.2.1 →
      walk' (value, t) = (r, (value', t')) ∧ (guide.IsShallow → r ≠ .error .tooDeep)

variable {levels : Nat}

/-- At a key the walk down into what stands there is all that depends on the walk. -/
theorem labelKey_congr {guide : Guide σ} {walk walk' : Action (Value × State σ) Unit} {t : State σ}
    (h : ∀ value, node.get? key = some value → (∀ uid, value ≠ .uint64 uid) →
      walk' (value, t) = walk (value, t)) :
    labelKey guide walk' key (node, t) = labelKey guide walk key (node, t) := by
  unfold labelKey
  simp only [Action.bind_apply, Action.read_apply]
  cases hget : node.get? key with
  | none => rfl
  | some value =>
    cases value with
    | uint64 uid => rfl
    | _ =>
      show atKey key _ walk' (node, t) = atKey key _ walk (node, t)
      rw [atKey, atKey, h _ hget (by simp)]

/-- Two walks that agree within some levels do the same at a key, and do not fail for depth there. -/
theorem agree_labelKey (h : AgreeWithin K guide levels walk walk')
    (hrun : labelKey guide.listed walk key (node, t) = (r, (node', t')))
    (hanswers : TameAnswers K t'.2.1) {keys : List Text} (hkey : key ∈ keys)
    (hnode : TameAt K keys node) {depth : Nat} (hdeep : DeepAt keys depth node)
    (hlevels : depth + broughtLevels K t'.2.1 ≤ levels + broughtLevels K t.2.1) :
    labelKey guide.listed walk' key (node, t) = (r, (node', t')) ∧
      (guide.IsShallow → r ≠ .error .tooDeep) := by
  have hdown : ∀ {value value' : Value} {r : Except Fault Unit}, node.get? key = some value →
      walk (value, t) = (r, (value', t')) → walk' (value, t) = (r, (value', t')) ∧
        (guide.IsShallow → r ≠ .error .tooDeep) := by
    intro value value' r hget hwalk
    have hle := hdeep key hkey value hget
    exact h hwalk (hnode key hkey value hget) hanswers (by omega)
  refine ⟨?_, ?_⟩
  · rw [← hrun]
    apply labelKey_congr
    intro value hget hnot
    rw [labelKey_of_not_uid hget hnot] at hrun
    rcases hwalk : walk (value, t) with ⟨r₁, value₁, t₁⟩
    simp only [atKey, hwalk, Prod.mk.injEq] at hrun
    obtain ⟨-, -, rfl⟩ := hrun
    exact (hdown hget hwalk).1
  · rintro hguide rfl
    obtain ⟨value, value', hget, hwalk⟩ := exists_tooDeep_of_labelKey hguide.listed hrun
    exact (hdown hget hwalk).2 hguide rfl

/-- Two walks that agree within some levels do the same at keys in turn, and do not fail for depth. -/
theorem agree_labelKeys (h : AgreeWithin K guide levels walk walk') (hgrows : Grows walk) {keys : List Text}
    (hkeys : keys.Nodup) (hK : ∀ k ∈ keys, K k) (hnode : TameAt K keys node) {depth : Nat}
    (hdeep : DeepAt keys depth node)
    (hrun : labelKeys guide.listed walk keys (node, t) = (r, (node', t')))
    (hanswers : TameAnswers K t'.2.1)
    (hlevels : depth + broughtLevels K t'.2.1 ≤ levels + broughtLevels K t.2.1) :
    labelKeys guide.listed walk' keys (node, t) = (r, (node', t')) ∧
      (guide.IsShallow → r ≠ .error .tooDeep) := by
  induction keys generalizing node t depth with
  | nil =>
    obtain ⟨rfl, -⟩ := Prod.mk.inj hrun
    exact ⟨hrun, by simp⟩
  | cons key rest ih =>
    obtain ⟨hnew, hrest⟩ := List.nodup_cons.mp hkeys
    have hKrest : ∀ k ∈ rest, K k := fun k hk => hK k (List.mem_cons_of_mem _ hk)
    rw [labelKeys] at hrun ⊢
    rcases hfirst : labelKey guide.listed walk key (node, t) with ⟨e | ⟨⟩, node₁, t₁⟩
    · rw [Action.bind_of_error hfirst] at hrun
      obtain ⟨rfl, rfl, rfl⟩ : .error e = r ∧ node₁ = node' ∧ t₁ = t' := by simpa using hrun
      obtain ⟨hagree, hshallow⟩ :=
        agree_labelKey h hfirst hanswers List.mem_cons_self hnode hdeep hlevels
      exact ⟨Action.bind_of_error hagree _, hshallow⟩
    · rw [Action.bind_of_ok hfirst] at hrun
      have hgrown := hgrows.prefix_labelKeys hrun
      have hearlier := hanswers.of_prefix hgrown
      have hle := broughtLevels_le_of_prefix (K := K) hgrown
      have hle₁ := broughtLevels_le_of_prefix (K := K) (hgrows.prefix_labelKey hfirst)
      rw [Action.bind_of_ok
        (agree_labelKey h hfirst hearlier List.mem_cons_self hnode hdeep (by omega)).1]
      have htame := tameAt_of_labelKey hfirst hearlier hnew hKrest
        fun k hk => hnode k (List.mem_cons_of_mem _ hk)
      have hdeep₁ := deepAt_of_labelKey hfirst hnew hKrest
        fun k hk => hdeep k (List.mem_cons_of_mem _ hk)
      exact ih hrest hKrest htame hdeep₁ hrun (by omega)

/-- Two walks that agree within some levels do the same in items, and do not fail for depth. -/
theorem agree_labelItems (h : AgreeWithin K guide levels walk walk') (hgrows : Grows walk)
    {items items' : List Value} (hitems : ∀ item ∈ items, IsTame K item)
    (hrun : labelItems walk items t = (r, (items', t'))) (hanswers : TameAnswers K t'.2.1)
    (hlevels : Value.itemsDepth items + broughtLevels K t'.2.1 ≤ levels + broughtLevels K t.2.1) :
    labelItems walk' items t = (r, (items', t')) ∧ (guide.IsShallow → r ≠ .error .tooDeep) := by
  induction items generalizing items' t with
  | nil =>
    obtain ⟨rfl, -⟩ := Prod.mk.inj hrun
    exact ⟨hrun, by simp⟩
  | cons item rest ih =>
    rw [Value.itemsDepth] at hlevels
    rw [labelItems] at hrun ⊢
    rcases hfirst : walk (item, t) with ⟨e | ⟨⟩, item₁, t₁⟩
    · simp only [hfirst] at hrun
      obtain ⟨rfl, -, rfl⟩ : .error e = r ∧ item₁ :: rest = items' ∧ t₁ = t' := by simpa using hrun
      obtain ⟨hagree, hshallow⟩ := h hfirst (hitems item List.mem_cons_self) hanswers (by omega)
      rw [hagree]
      exact ⟨hrun, hshallow⟩
    · rcases hrest : labelItems walk rest t₁ with ⟨r₂, items₂, t₂⟩
      simp only [hfirst, hrest] at hrun
      obtain ⟨rfl, rfl, rfl⟩ : r₂ = r ∧ item₁ :: items₂ = items' ∧ t₂ = t' := by simpa using hrun
      have hgrown := hgrows.prefix_labelItems hrest
      have hearlier := hanswers.of_prefix hgrown
      have hle := broughtLevels_le_of_prefix (K := K) hgrown
      have hle₁ := broughtLevels_le_of_prefix (K := K) (hgrows.prefix_of_eq hfirst)
      rw [(h hfirst (hitems item List.mem_cons_self) hearlier (by omega)).1]
      obtain ⟨hagree, hshallow⟩ := ih (fun i hi => hitems i (List.mem_cons_of_mem _ hi)) hrest (by omega)
      simp only [hagree]
      exact ⟨trivial, hshallow⟩

/-- No key of a dictionary leads deeper than the dictionary is. -/
theorem deepAt_keys (entries : Entries Value) :
    DeepAt (Entries.keys entries) (Value.entriesDepth entries) entries :=
  fun _ _ _ hget => Value.depth_le_of_get? hget

/-- Walks that may go as deep as is needed do the same, however much deeper they may go. -/
theorem agree_labelValue (guide : Guide σ) {levels n m : Nat} (hn : levels ≤ n) (hm : levels ≤ m) :
    AgreeWithin K guide levels (labelValue guide.listed n) (labelValue guide.listed m) := by
  induction levels generalizing n m with
  | zero =>
    intro value value' t t' r hrun _ _ hlevels
    have hle := broughtLevels_le_of_prefix (K := K) ((grows_labelValue guide n).prefix_of_eq hrun)
    cases value with
    | array items =>
      rw [Value.depth] at hlevels
      omega
    | dictionary entries =>
      rw [Value.depth] at hlevels
      omega
    | _ =>
      obtain rfl : r = .ok () := by cases n <;> exact (congrArg Prod.fst hrun).symm
      exact ⟨by cases n <;> cases m <;> exact hrun, by simp⟩
  | succ levels ih =>
    obtain ⟨n, rfl⟩ : ∃ k, n = k + 1 := ⟨n - 1, by omega⟩
    obtain ⟨m, rfl⟩ : ∃ k, m = k + 1 := ⟨m - 1, by omega⟩
    have hwalk : AgreeWithin K guide levels (labelValue guide.listed n) (labelValue guide.listed m) :=
      ih (by omega) (by omega)
    have hgrows := grows_labelValue guide n
    intro value value' t t' r hrun hvalue hanswers hlevels
    cases value with
    | array items =>
      rw [Value.depth] at hlevels
      obtain ⟨items', rfl, hitems⟩ := labelItems_of_labelValue hrun
      obtain ⟨hagree, hshallow⟩ := agree_labelItems hwalk hgrows
        (fun item hitem => hvalue.of_mem_items hitem) hitems hanswers (by omega)
      exact ⟨labelValue_of_labelItems hagree, hshallow⟩
    | dictionary entries =>
      rw [Value.depth] at hlevels
      obtain ⟨entries', rfl, hkeys⟩ := labelKeys_of_labelValue hrun
      obtain ⟨hagree, hshallow⟩ := agree_labelKeys hwalk hgrows hvalue.1.1 hvalue.keys hvalue.tameAt
        (deepAt_keys entries) hkeys hanswers (by omega)
      exact ⟨labelValue_of_labelKeys hagree, hshallow⟩
    | _ =>
      obtain rfl : r = .ok () := (congrArg Prod.fst hrun).symm
      exact ⟨hrun, by simp⟩

/-! ### Whole trees -/

/-- A run over a tree is paid for. -/
theorem length_answers_le (guide : Guide σ) {tree tree' : Entries Value} {cache : NameCache} {s : σ}
    (htree : IsTame K (.dictionary tree))
    (hrun : label guide.listed (tree, (cache, ([], s))) = (r, (tree', t')))
    (hanswers : TameAnswers K t'.2.1) :
    t'.2.1.length ≤ (Value.dictionary tree).dictionaries + brought K t'.2.1 := by
  have hpaid := frugal_dictionary (isFrugal_labelValue guide _) htree hrun hanswers
  simpa using hpaid

/-- A run over a tree does not depend on how deep it may go, if it may go as deep as the tree and what
answers bring in; and it does not fail for depth. -/
theorem label_of_levels (guide : Guide σ) {tree tree' : Entries Value} {cache : NameCache} {s : σ}
    (htree : IsTame K (.dictionary tree))
    (hrun : label guide.listed (tree, (cache, ([], s))) = (r, (tree', t')))
    (hanswers : TameAnswers K t'.2.1) (hallowed : broughtLevels K t'.2.1 ≤ allowance) {levels : Nat}
    (hlevels : Value.entriesDepth tree + broughtLevels K t'.2.1 ≤ levels) :
    labelKeys guide.listed (labelValue guide.listed levels) (Entries.keys tree) (tree, (cache, ([], s))) =
        (r, (tree', t')) ∧
      (guide.IsShallow → r ≠ .error .tooDeep) := by
  have hagree : AgreeWithin K guide (Value.entriesDepth tree + broughtLevels K t'.2.1)
      (labelValue guide.listed (Value.entriesDepth tree + allowance)) (labelValue guide.listed levels) :=
    agree_labelValue guide (by omega) hlevels
  exact agree_labelKeys hagree (grows_labelValue guide _) htree.1.1 htree.keys htree.tameAt
    (deepAt_keys tree) hrun hanswers (Nat.le_refl _)

end Keys

/-- The keys of a tree. -/
def OfTree (tree : Entries Value) (key : Text) : Prop := key ∈ Value.entriesKeysWithin tree

instance (tree : Entries Value) : DecidablePred (OfTree tree) :=
  fun key => inferInstanceAs (Decidable (key ∈ Value.entriesKeysWithin tree))

/-- A supplement is asked no more often than there are dictionaries in the tree and in what its answers
offer, and the walk comes to its end unless they offer more levels than `allowance`. If no answer offers a
dictionary at a key of the tree, the supplement is asked no more often than there are dictionaries in the
tree; and if no answer offers an array or a dictionary at a key of the tree, the walk comes to its end and
goes no deeper than the tree: it is the same whatever bound is put on its depth. -/
theorem length_answers_of_label (guide : Guide σ) {tree : Entries Value}
    (htree : (Value.dictionary tree).HasDistinctKeys) (cache : NameCache) (s : σ) :
    let out := label guide.listed (tree, (cache, ([], s)))
    let answers := out.2.2.2.1
    label guide (tree, (cache, s)) = forgetList out ∧
    ((∀ answer ∈ answers, Value.EntriesHaveDistinctKeys (offered answer)) →
      answers.length ≤ (Value.dictionary tree).dictionaries + brought (fun _ => True) answers ∧
      (guide.IsShallow → broughtLevels (fun _ => True) answers ≤ allowance →
        (label guide (tree, (cache, s))).1 ≠ .error .tooDeep) ∧
      ((∀ answer ∈ answers, ∀ entry ∈ incoming (OfTree tree) answer, entry.2.dictionaries = 0) →
        answers.length ≤ (Value.dictionary tree).dictionaries) ∧
      ((∀ answer ∈ answers, ∀ entry ∈ incoming (OfTree tree) answer, entry.2.depth = 0) →
        (guide.IsShallow → (label guide (tree, (cache, s))).1 ≠ .error .tooDeep) ∧
        ∀ levels, Value.entriesDepth tree ≤ levels →
          labelKeys guide (labelValue guide levels) (Entries.keys tree) (tree, (cache, s)) =
            label guide (tree, (cache, s)))) := by
  intro out answers
  have hforget : label guide (tree, (cache, s)) = forgetList out :=
    labelKeys_forgetting_list guide _ _ tree cache [] s
  have hofTree : IsTame (OfTree tree) (.dictionary tree) := ⟨htree, fun k hk => hk⟩
  rcases hout : out with ⟨r, tree', t'⟩
  have hanswers : answers = t'.2.1 := congrArg (fun out => out.2.2.2.1) hout
  refine ⟨hout ▸ hforget, ?_⟩
  rw [hanswers]
  intro hdistinct
  have hall : TameAnswers (fun _ => True) t'.2.1 := fun answer hanswer entry hentry =>
    ⟨(hdistinct answer hanswer).of_mem (List.mem_of_mem_filter hentry), fun _ _ => trivial⟩
  have hany : IsTame (fun _ => True) (.dictionary tree) := ⟨htree, fun _ _ => trivial⟩
  have hresult : (label guide (tree, (cache, s))).1 = r := by
    rw [hforget, hout]
    rfl
  refine ⟨length_answers_le guide hany hout hall, ?_, ?_, ?_⟩
  · intro hguide hallowed
    rw [hresult]
    exact (label_of_levels guide hany hout hall hallowed (Nat.le_refl _)).2 hguide
  · intro hnone
    have hpaid := length_answers_le guide hofTree hout
      (tameAnswers_of_dictionaries_eq_zero hdistinct hnone)
    rw [brought_eq_zero hnone] at hpaid
    exact hpaid
  · intro hflat
    have hnone : ∀ answer ∈ t'.2.1, ∀ entry ∈ incoming (OfTree tree) answer,
        entry.2.dictionaries = 0 := fun answer hanswer entry hentry =>
      Value.dictionaries_of_depth_eq_zero (hflat answer hanswer entry hentry)
    have hzero := broughtLevels_eq_zero hflat
    have hlabel : ∀ {levels : Nat}, Value.entriesDepth tree ≤ levels →
        labelKeys guide.listed (labelValue guide.listed levels) (Entries.keys tree)
            (tree, (cache, ([], s))) = (r, (tree', t')) ∧
          (guide.IsShallow → r ≠ .error .tooDeep) := fun hlevels =>
      label_of_levels guide hofTree hout (tameAnswers_of_dictionaries_eq_zero hdistinct hnone) (by omega)
        (by omega)
    refine ⟨?_, ?_⟩
    · rw [hresult]
      exact (hlabel (Nat.le_refl _)).2
    · intro levels hlevels
      rw [hforget, labelKeys_forgetting_list guide levels _ tree cache [] s, (hlabel hlevels).1, hout]

/-! ### Answers that are walked into -/

/-- The name of a kind of declarations. -/
def classKind : Text := "source.lang.swift.decl.class"

/-- A declaration whose name is at an offset, with nodes below it. -/
def classNode (kind : Value) (offset : Int) (nodes : List Value) : Entries Value :=
  [(Key.kind, kind), (Key.nameOffset, .int64 offset), ("key.substructure", .array nodes)]

/-- A declaration as it comes. -/
def unnamedClass (offset : Int) : Entries Value := classNode (.uint64 leastUid) offset []

/-- A supplement that answers by the offset. -/
def offsetSupplement (answer : Int → Option Value) : Supplement Int where
  sourceFile? _ := some "a.swift"
  setOffset offset _ := offset
  send offset := (.ok (answer offset), offset)

/-- A guide with one name and a supplement that answers by the offset. -/
def classGuide (answer : Int → Option Value) : Guide Int :=
  ⟨fixedLookup (fun _ => some classKind) fun _ s => s, some (offsetSupplement answer), Sources.ofTexts []⟩

/-- An answer that offers a declaration, at the given offset, at a key. -/
def nestedAnswer (key : Text) (offset : Int) : Value :=
  .dictionary [(key, .array [.dictionary (unnamedClass offset)])]

/-- The guide of the samples never fails for depth. -/
theorem isShallow_classGuide (answer : Int → Option Value) : (classGuide answer).IsShallow where
  lookup _ _ := by simp [classGuide, fixedLookup]
  send := by
    rintro _ ⟨⟩ offset
    simp [offsetSupplement]
  range file offset length s := by
    show ((Sources.ofTexts []).readRange file offset length).mapError Fault.source ≠ .error .tooDeep
    cases (Sources.ofTexts []).readRange file offset length <;> simp [Except.mapError]

/-- A declaration is offered at a key that the tree does not have: it is not walked into. -/
theorem length_answers_of_label_related :
    let guide := classGuide fun _ => some (nestedAnswer "key.related" 1)
    let answers := (label guide.listed (unnamedClass 0, ([], ([], 0)))).2.2.2.1
    answers.length = 1 ∧ answers.length ≤ (Value.dictionary (unnamedClass 0)).dictionaries ∧
      (label guide (unnamedClass 0, ([], 0))).1 ≠ .error .tooDeep ∧
      ∀ levels, 1 ≤ levels → labelKeys guide (labelValue guide levels)
        (Entries.keys (unnamedClass 0)) (unnamedClass 0, ([], 0)) = label guide (unnamedClass 0, ([], 0)) := by
  intro guide answers
  have hanswers : answers = [.ok (some (nestedAnswer "key.related" 1))] := rfl
  have htree : (Value.dictionary (unnamedClass 0)).HasDistinctKeys :=
    ⟨by decide, trivial, trivial, trivial, trivial⟩
  have hnone : ∀ answer ∈ answers, incoming (OfTree (unnamedClass 0)) answer = [] := by
    rw [hanswers, List.forall_mem_singleton]
    rfl
  obtain ⟨-, hbounds⟩ := length_answers_of_label guide htree [] 0
  obtain ⟨-, -, hlength, hdepth⟩ := hbounds (by
    show ∀ answer ∈ answers, _
    rw [hanswers, List.forall_mem_singleton]
    exact ⟨⟨⟨by decide, trivial, trivial, trivial, trivial⟩, trivial⟩, trivial⟩)
  obtain ⟨hshallow, hlevels⟩ := hdepth fun answer hanswer entry hentry => by
    rw [hnone answer hanswer] at hentry
    cases hentry
  refine ⟨rfl, hlength ?_, hshallow (isShallow_classGuide _), hlevels⟩
  intro answer hanswer entry hentry
  rw [hnone answer hanswer] at hentry
  cases hentry

/-- A guide whose supplement offers a declaration at the key of nodes, whatever it is asked. -/
def endlessGuide : Guide Int := classGuide fun _ => some (nestedAnswer "key.substructure" 0)

/-- The declaration when its kind has been named and the answer has been merged. -/
theorem labelKey_endless {cache : NameCache} (h : Agrees (fun _ => some classKind) cache) (n : Int)
    (walk : Action (Value × State Int) Unit) :
    ∃ found : NameCache, Agrees (fun _ => some classKind) found ∧
      labelKey endlessGuide walk Key.kind (unnamedClass 0, (cache, n)) =
        (.ok (), (classNode (.string classKind) 0 [.dictionary (unnamedClass 0)], (found, 0))) := by
  have hresolve := resolve_fixed (s := (cache, n)) (fun _ s => s) h leastUid
  have hname : name? (fun _ => some classKind) leastUid = some classKind := rfl
  have hget : (unnamedClass 0).get? Key.kind = some (.uint64 leastUid) := rfl
  have hoffset : Entries.integer? (Entries.set Key.kind (.string classKind) (unnamedClass 0))
      Key.nameOffset = some 0 := rfl
  rw [hname] at hresolve
  refine ⟨(resolved (fun _ => some classKind) (fun _ s => s) leastUid (cache, n)).1,
    agrees_resolved _ h leastUid, ?_⟩
  let supplement := offsetSupplement fun _ => some (nestedAnswer "key.substructure" 0)
  have hsend : supplement.send (supplement.setOffset 0 n) =
      (.ok (some (nestedAnswer "key.substructure" 0)), 0) := rfl
  have hadd : addForKind endlessGuide classKind = addDeclaration supplement := rfl
  rw [labelKey_of_named hget hresolve, if_pos rfl, hadd]
  exact addDeclaration_of_placed hoffset (by decide) _ hsend

/-- With such answers the walk goes down as deep as it may, and would go further. -/
theorem endless_walk (levels : Nat) {cache : NameCache} (h : Agrees (fun _ => some classKind) cache)
    (n : Int) :
    (labelKeys endlessGuide (labelValue endlessGuide levels) (Entries.keys (unnamedClass 0))
      (unnamedClass 0, (cache, n))).1 = .error .tooDeep := by
  induction levels using Nat.strong_induction_on generalizing cache n with
  | h levels ih =>
    obtain ⟨found, hfound, hkind⟩ := labelKey_endless h n (labelValue endlessGuide levels)
    let merged := classNode (.string classKind) 0 [.dictionary (unnamedClass 0)]
    have hoffset : labelKey endlessGuide (labelValue endlessGuide levels) Key.nameOffset
        (merged, (found, 0)) = (.ok (), (merged, (found, 0))) := by
      cases levels <;> rfl
    -- the node that the answer has brought in is the node that was there
    have hdown : (labelValue endlessGuide levels (.array [.dictionary (unnamedClass 0)], (found, 0))).1 =
        .error .tooDeep := by
      match levels with
      | 0 => rfl
      | 1 => rfl
      | levels + 2 =>
        have hinside := ih levels (by omega) hfound 0
        rcases hkeys : labelKeys endlessGuide (labelValue endlessGuide levels)
          (Entries.keys (unnamedClass 0)) (unnamedClass 0, (found, 0)) with ⟨r, node, t⟩
        rw [hkeys] at hinside
        obtain rfl : r = .error .tooDeep := hinside
        have hitem := labelValue_of_labelKeys hkeys
        simp only [labelValue, labelItems] at hitem ⊢
        rw [hitem]
    rcases hrun : labelValue endlessGuide levels (.array [.dictionary (unnamedClass 0)], (found, 0)) with
      ⟨r, value, t⟩
    rw [hrun] at hdown
    obtain rfl : r = .error .tooDeep := hdown
    have hget : merged.get? "key.substructure" = some (.array [.dictionary (unnamedClass 0)]) := rfl
    have hnodes : labelKey endlessGuide (labelValue endlessGuide levels) "key.substructure"
        (merged, (found, 0)) =
          (.error .tooDeep, (Entries.set "key.substructure" value merged, t)) := by
      rw [labelKey_of_not_uid hget (by simp), atKey, hrun]
    have hkeys : Entries.keys (unnamedClass 0) = [Key.kind, Key.nameOffset, "key.substructure"] := rfl
    rw [hkeys, labelKeys, Action.bind_of_ok hkind, labelKeys, Action.bind_of_ok hoffset, labelKeys,
      Action.bind_of_error hnodes]

/-- A tree of one dictionary about which two questions are put, because the answer to the first offers a
declaration at a key of the node; and a tree that is walked without end, because every answer does. -/
theorem answers_outnumber_dictionaries :
    ((Value.dictionary (unnamedClass 0)).dictionaries = 1 ∧
      (label (classGuide fun offset =>
          if offset = 0 then some (nestedAnswer "key.substructure" 1) else none).listed
        (unnamedClass 0, ([], ([], 0)))).2.2.2.1.length = 2) ∧
    ∀ levels, (labelKeys endlessGuide (labelValue endlessGuide levels) (Entries.keys (unnamedClass 0))
      (unnamedClass 0, ([], 0))).1 = .error .tooDeep :=
  ⟨⟨rfl, rfl⟩, fun levels => endless_walk levels (agrees_nil _) 0⟩

end Labelling

end SwiftLens
