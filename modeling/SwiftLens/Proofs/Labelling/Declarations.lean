import SwiftLens.Proofs.Labelling.Rounds
import SwiftLens.Proofs.Labelling.Merging
import SwiftLens.Proofs.Labelling.Queries

/-!
# Questions are about declarations

A tree and what it has been labelled as show which kinds have been named: where an identifier stands at the
key of the kind in the one, a string does in the other. `kinds` lists their names in reading order, each with
the offset that its node gives when the walk comes to the kind. What stands at the key of the offset is then
still as it was, unless that key comes first; so `kindsOfEntries` carries it along.

`questions_are_declarations` is about any tree, any look-ups and any supplement. The questions come in
rounds. When the supplement has nothing to offer, and no kind is that of a mark, they are put at the offsets
of the declarations in this list, one for each that gives an offset. The tree is then what labelling comes to
without a supplement; for this the look-ups must not be able to tell whether the supplement has been asked
(`Guide.Undisturbed`).

The proof goes along the walk. What it does at a key leaves all others alone (`tally_labelKey`), since the
only thing that does not is the text of a mark. So what is at a key when its turn is over stays there, and
what is at a key that is still to come is what was there at first (`tally_labelKeys`).
-/

namespace SwiftLens

variable {σ : Type}

/-- Where no key stands twice, an entry is found at its key. -/
theorem Entries.get?_of_mem {α : Type} {d : Entries α} (hkeys : (keys d).Nodup) {entry : Text × α}
    (hentry : entry ∈ d) : d.get? entry.1 = some entry.2 := by
  obtain ⟨before, after, rfl⟩ := List.append_of_mem hentry
  apply get?_append_cons
  intro hmem
  rw [keys_append] at hkeys
  exact List.disjoint_of_nodup_append hkeys hmem List.mem_cons_self

namespace Labelling

/-! ### Kinds that have been named -/

/-- A kind that has been named, and the offset that its node gives. -/
structure NamedKind where
  name : Text
  offset : Option Int

/-- The offset that a value gives: an integer, signed or not, that is not negative and that a double holds
exactly. -/
def offset? : Option Value → Option Int
  | some (.int64 n) => if 0 ≤ n ∧ n ≤ 2 ^ 53 - 1 then some n else none
  | some (.uint64 n) => if 0 ≤ n ∧ n ≤ 2 ^ 53 - 1 then some n else none
  | _ => none

/-- The kind of a node, if it was an identifier and is a name now; `place` is what stands at the key of the
offset. -/
def namedKind (place : Option Value) : Value → Value → List NamedKind
  | .uint64 _, .string name => [⟨name, offset? place⟩]
  | _, _ => []

mutual

/-- The kinds that have been named in a tree, in reading order, given what it has been labelled as. -/
def kinds : Value → Value → List NamedKind
  | .array items, .array labelled => kindsOfItems items labelled
  | .dictionary entries, .dictionary labelled =>
    kindsOfEntries labelled (Entries.get? Key.nameOffset entries) entries
  | _, _ => []

/-- The kinds that have been named in items. -/
def kindsOfItems : List Value → List Value → List NamedKind
  | item :: rest, now :: labelled => kinds item now ++ kindsOfItems rest labelled
  | _, _ => []

/-- The kinds that have been named among entries, where `place` stands at the key of the offset until it has
its turn. -/
def kindsOfEntries (labelled : Entries Value) (place : Option Value) :
    List (Text × Value) → List NamedKind
  | [] => []
  | (key, value) :: rest =>
    let now := (labelled.get? key).getD value
    (if key = Key.kind then namedKind place value now else []) ++ kinds value now
      ++ kindsOfEntries labelled (if key = Key.nameOffset then some now else place) rest

end

/-- No kind is that of a mark. -/
def MarkFree (ks : List NamedKind) : Prop := Kind.mark ∉ ks.map NamedKind.name

/-- The offsets of declarations. -/
def declaredOffsets (ks : List NamedKind) : List Int :=
  ks.filterMap fun kind => if kind.name.startsWith Kind.declaration then kind.offset else none

/-! ### Reading a list of kinds -/

/-- No kind is that of a mark if none is in either part. -/
theorem markFree_append {first second : List NamedKind} :
    MarkFree (first ++ second) ↔ MarkFree first ∧ MarkFree second := by
  rw [MarkFree, List.map_append, List.mem_append, not_or]
  rfl

/-- The offsets of declarations come in the order of the kinds. -/
@[simp] theorem declaredOffsets_append (first second : List NamedKind) :
    declaredOffsets (first ++ second) = declaredOffsets first ++ declaredOffsets second :=
  List.filterMap_append

/-- What was no identifier has not been named. -/
theorem namedKind_of_not_uid {value : Value} (h : ∀ uid, value ≠ .uint64 uid) (place : Option Value)
    (now : Value) : namedKind place value now = [] := by
  cases value with
  | uint64 uid => exact absurd rfl (h uid)
  | _ => rfl

/-- What stayed as it was has not been named. -/
theorem namedKind_self (place : Option Value) (value : Value) : namedKind place value value = [] := by
  cases value <;> rfl

/-- There are no kinds in an identifier. -/
theorem kinds_uint64 (uid : Int) (now : Value) : kinds (.uint64 uid) now = [] := by
  cases now <;> rfl

section Entries

variable {labelled : Entries Value} {place : Option Value} {key : Text} {value now : Value}
  {rest : Entries Value}

/-- The kinds of an entry come before those of the rest, at the offset that stood there until then. -/
theorem kindsOfEntries_cons (h : labelled.get? key = some now) (place : Option Value) (value : Value)
    (rest : Entries Value) :
    kindsOfEntries labelled place ((key, value) :: rest) =
      (if key = Key.kind then namedKind place value now else []) ++ kinds value now
        ++ kindsOfEntries labelled (if key = Key.nameOffset then some now else place) rest := by
  rw [kindsOfEntries, h]
  rfl

/-- The names are the same whatever stands at the key of the offset. -/
theorem names_kindsOfEntries (labelled : Entries Value) (place place' : Option Value)
    (entries : Entries Value) :
    (kindsOfEntries labelled place entries).map NamedKind.name =
      (kindsOfEntries labelled place' entries).map NamedKind.name := by
  induction entries generalizing place place' with
  | nil => rfl
  | cons entry rest ih =>
    obtain ⟨key, value⟩ := entry
    have hkind : ∀ now, (namedKind place value now).map NamedKind.name =
        (namedKind place' value now).map NamedKind.name := by
      intro now
      unfold namedKind
      split <;> rfl
    rw [kindsOfEntries, kindsOfEntries]
    simp only [List.map_append]
    rw [ih _ (if key = Key.nameOffset then some ((labelled.get? key).getD value) else place')]
    split_ifs <;> simp [hkind]

/-- A mark that has been named is in the list. -/
theorem not_markFree_of_get? {uid : Int} (h : labelled.get? Key.kind = some (.string Kind.mark)) :
    ¬MarkFree (kindsOfEntries labelled place ((Key.kind, .uint64 uid) :: rest)) := by
  rw [kindsOfEntries_cons h, if_pos rfl]
  simp [MarkFree, namedKind]

end Entries

mutual

/-- In a tree that has been left as it was, no kind has been named. -/
theorem kinds_self : (value : Value) → value.HasDistinctKeys → kinds value value = []
  | .null, _ | .bool _, _ | .int64 _, _ | .uint64 _, _ | .double _, _ | .string _, _ | .data _, _ => rfl
  | .array items, h => kindsOfItems_self items h
  | .dictionary entries, h =>
      kindsOfEntries_of_get? entries h.2 fun _ hentry => Entries.get?_of_mem h.1 hentry

/-- In items that stayed as they were no kind has been named. -/
theorem kindsOfItems_self : (items : List Value) → Value.ItemsHaveDistinctKeys items →
    kindsOfItems items items = []
  | [], _ => rfl
  | item :: rest, h => by
      rw [kindsOfItems, kinds_self item h.1, kindsOfItems_self rest h.2, List.append_nil]

/-- Among entries that stayed as they were no kind has been named. -/
theorem kindsOfEntries_of_get? : (entries : List (Text × Value)) → Value.EntriesHaveDistinctKeys entries →
    ∀ {labelled : Entries Value} {place : Option Value},
      (∀ entry ∈ entries, labelled.get? entry.1 = some entry.2) →
      kindsOfEntries labelled place entries = []
  | [], _, _, _, _ => rfl
  | (key, value) :: rest, h, labelled, place, hget => by
      obtain ⟨hfirst, hrest⟩ := List.forall_mem_cons.mp hget
      rw [kindsOfEntries_cons hfirst, kinds_self value h.1, namedKind_self, ite_self,
        kindsOfEntries_of_get? rest h.2 hrest]
      rfl

end

/-- What gives an offset is an integer that can be read and is not negative. -/
theorem offset?_get? (d : Entries Value) :
    offset? (d.get? Key.nameOffset) =
      (d.integer? Key.nameOffset).bind fun n => if n < 0 then none else some n := by
  have hsafe : ∀ n : Int, (if 0 ≤ n ∧ n ≤ 2 ^ 53 - 1 then some n else none) =
      (if Double.isSafe n then some n else none).bind fun n => if n < 0 then none else some n := by
    intro n
    have hiff : Double.isSafe n = true ↔ n.natAbs ≤ 2 ^ 53 - 1 := decide_eq_true_iff
    by_cases hn : Double.isSafe n = true
    · have hle := hiff.mp hn
      rw [if_pos hn, Option.bind_some]
      by_cases hneg : n < 0
      · rw [if_pos hneg, if_neg (by omega)]
      · rw [if_neg hneg, if_pos (by omega)]
    · have hgt := mt hiff.mpr hn
      rw [if_neg hn, if_neg (by omega), Option.bind_none]
  unfold Entries.integer?
  cases d.get? Key.nameOffset with
  | none => rfl
  | some value =>
    cases value with
    | int64 n => exact hsafe n
    | uint64 n => exact hsafe n
    | _ => rfl

/-! ### Notes of a supplement that has nothing to offer -/

/-- The offsets that a supplement was told. -/
def offsetsTold (notes : List Supplement.Note) : List Int :=
  notes.filterMap fun
    | .move n => some n
    | .send _ => none

/-- Whether this is no question, or one that did not fail and was not answered with a dictionary. -/
def isQuiet : Supplement.Note → Bool
  | .move _ => true
  | .send (.error _) => false
  | .send (.ok (some (.dictionary _))) => false
  | .send (.ok _) => true

/-- No question failed, and none was answered with a dictionary. -/
def Quiet (notes : List Supplement.Note) : Prop := ∀ note ∈ notes, isQuiet note = true

instance (notes : List Supplement.Note) : Decidable (Quiet notes) :=
  inferInstanceAs (Decidable (∀ note ∈ notes, isQuiet note = true))

instance (ks : List NamedKind) : Decidable (MarkFree ks) :=
  inferInstanceAs (Decidable (Kind.mark ∉ ks.map NamedKind.name))

/-- The first of quiet notes are quiet. -/
theorem Quiet.of_prefix {notes notes' : List Supplement.Note} (h : Quiet notes') (hp : notes <+: notes') :
    Quiet notes := fun note hnote => h note (hp.subset hnote)

/-- Such an answer offers nothing. -/
theorem offered_of_isQuiet {answer : Except Fault (Option Value)} (h : isQuiet (.send answer) = true) :
    (answer.map fun _ => ()) = .ok () ∧ offered answer = [] := by
  rcases answer with e | _ | reply
  · cases h
  · exact ⟨rfl, rfl⟩
  · cases reply with
    | dictionary entries => cases h
    | _ => exact ⟨rfl, rfl⟩

end Labelling

/-! ### Without the supplement -/

/-- Look-ups that answer as `given` does in related states, whatever the supplement is told and asked. -/
structure Guide.Undisturbed (guide : Guide σ) {ν : Type} (R : σ → ν → Prop)
    (given : Int → Action ν (Option Text)) : Prop where
  lookup : ∀ uid, Action.Matches R (guide.lookup uid) (given uid)
  setOffset : ∀ supplement ∈ guide.supplement, ∀ n s l, R s l → R (supplement.setOffset n s) l
  send : ∀ supplement ∈ guide.supplement, ∀ s l, R s l → R (supplement.send s).2 l

namespace Labelling

/-- A run comes to the same without the supplement. -/
def SameWithout (guide : Guide σ) {α : Type} (run : {ν : Type} → Guide ν → Action (α × State ν) Unit)
    (a : α) (t : Noted σ) (r : Except Fault Unit) (a' : α)
    (t' : Noted σ) : Prop :=
  ∀ {ν : Type} {R : σ → ν → Prop} {given : Int → Action ν (Option Text)}, guide.Undisturbed R given →
    ∀ (sources : SourceReader ν) {l : ν}, R t.2.2 l →
      ∃ l', run ⟨given, none, sources⟩ (a, (t.1, l)) = (r, (a', (t'.1, l'))) ∧ R t'.2.2 l'

/-- A run has told the offsets of declarations, and comes to the same without the supplement. -/
structure Tally (guide : Guide σ) {α : Type} (run : {ν : Type} → Guide ν → Action (α × State ν) Unit)
    (a : α) (t : Noted σ) (r : Except Fault Unit) (a' : α) (t' : Noted σ) (ks : List NamedKind) : Prop where
  offsets : offsetsTold t'.2.1 = offsetsTold t.2.1 ++ declaredOffsets ks
  same : SameWithout guide run a t r a' t'

variable {guide : Guide σ} {supplement : Supplement σ} {t t₁ t' : Noted σ} {r : Except Fault Unit}
  {levels : Nat}

/-- A walk that is quiet, through a value without marks, tells the offsets of the declarations in it. -/
def Tallies (guide : Guide σ) (levels : Nat) (value : Value) : Prop :=
  ∀ {t t' : Noted σ} {r : Except Fault Unit} {now : Value},
    labelValue guide.noted levels (value, t) = (r, (now, t')) → Quiet t'.2.1 →
      MarkFree (kinds value now) →
      Tally guide (fun guide => labelValue guide levels) value t r now t' (kinds value now)

/-- Undisturbed look-ups make resolving the same as the look-ups that are given. -/
theorem resolve_undisturbed {ν : Type} {R : σ → ν → Prop} {given : Int → Action ν (Option Text)}
    (h : guide.Undisturbed R given) {uid : Int} {cache names : NameCache} {s s' : σ}
    {found : Except Fault (Option Text)}
    (hrun : NameCache.resolve guide.lookup uid (cache, s) = (found, (names, s'))) {l : ν} (hl : R s l) :
    ∃ l', NameCache.resolve given uid (cache, l) = (found, (names, l')) ∧ R s' l' := by
  obtain ⟨hfound, hnames, hstate⟩ :=
    NameCache.matches_resolve h.lookup uid (cache, s) (cache, l) ⟨rfl, hl⟩
  rw [hrun] at hfound hnames hstate
  exact ⟨_, Prod.ext hfound.symm (Prod.ext hnames.symm rfl), hstate⟩

/-! ### At a node with a kind -/

/-- At a declaration that gives an offset a question is put there, and nothing else is done. -/
theorem addDeclaration_quiet {node node' : Entries Value} (hguide : guide.supplement = some supplement)
    (hrun : addDeclaration supplement.noted (node, t) = (r, (node', t'))) (hquiet : Quiet t'.2.1) :
    r = .ok () ∧ node' = node ∧ t'.1 = t.1 ∧
      offsetsTold t'.2.1 = offsetsTold t.2.1 ++ (offset? (node.get? Key.nameOffset)).toList ∧
      ∀ {ν : Type} {R : σ → ν → Prop} {given : Int → Action ν (Option Text)},
        guide.Undisturbed R given → ∀ l, R t.2.2 l → R t'.2.2 l := by
  by_cases hplaced : ∃ offset, node.integer? Key.nameOffset = some offset ∧ ¬offset < 0
  · obtain ⟨offset, hoffset, hneg⟩ := hplaced
    rcases hsend : supplement.send (supplement.setOffset offset t.2.2) with ⟨answer, s⟩
    rw [addDeclaration_of_placed hoffset hneg t.1 (Supplement.send_noted hsend)] at hrun
    obtain ⟨rfl, rfl, rfl⟩ : _ = r ∧ _ = node' ∧ _ = t' := by simpa only [Prod.mk.injEq] using hrun
    obtain ⟨hresult, hoffered⟩ := offered_of_isQuiet (hquiet (.send answer) (by simp))
    refine ⟨hresult, ?_, rfl, ?_, ?_⟩
    · rw [hoffered, Entries.setAll_nil]
    · rw [offset?_get?, hoffset, Option.bind_some, if_neg hneg]
      simp [offsetsTold, List.filterMap_append]
    · intro ν R given h l hl
      have hstate := h.send supplement hguide _ l (h.setOffset supplement hguide offset _ l hl)
      rw [hsend] at hstate
      exact hstate
  · have hunplaced : ∀ offset, node.integer? Key.nameOffset = some offset → offset < 0 :=
      fun offset hoffset => not_not.mp fun hneg => hplaced ⟨offset, hoffset, hneg⟩
    rw [addDeclaration_of_unplaced supplement.noted t hunplaced] at hrun
    obtain ⟨rfl, rfl, rfl⟩ : .ok () = r ∧ node = node' ∧ t = t' := by simpa using hrun
    refine ⟨rfl, rfl, rfl, ?_, fun _ _ hl => hl⟩
    rw [offset?_get?]
    cases hoffset : node.integer? Key.nameOffset with
    | none => simp
    | some offset => simp [hunplaced offset hoffset]

/-- At a kind that is not that of a mark, the offset is told if it is that of a declaration. -/
theorem addForKind_quiet {node node' : Entries Value} (hguide : guide.supplement = some supplement)
    {name : Text} (hname : name ≠ Kind.mark)
    (hrun : addForKind guide.noted name (node, t) = (r, (node', t'))) (hquiet : Quiet t'.2.1) :
    r = .ok () ∧ node' = node ∧ t'.1 = t.1 ∧
      offsetsTold t'.2.1 = offsetsTold t.2.1 ++
        declaredOffsets [⟨name, offset? (node.get? Key.nameOffset)⟩] ∧
      ∀ {ν : Type} {R : σ → ν → Prop} {given : Int → Action ν (Option Text)},
        guide.Undisturbed R given → ∀ l, R t.2.2 l → R t'.2.2 l := by
  have hnoted : guide.noted.supplement = some supplement.noted := by simp [Guide.noted, hguide]
  simp only [addForKind, hnoted, if_neg hname] at hrun
  split_ifs at hrun with hdeclaration
  · obtain ⟨hr, hnode, hcache, hoffsets, hstate⟩ := addDeclaration_quiet hguide hrun hquiet
    refine ⟨hr, hnode, hcache, ?_, hstate⟩
    rw [hoffsets]
    cases hoffset : offset? (node.get? Key.nameOffset) <;> simp [declaredOffsets, hdeclaration]
  · obtain ⟨rfl, rfl, rfl⟩ : .ok () = r ∧ node = node' ∧ t = t' := by simpa using hrun
    exact ⟨rfl, rfl, rfl, by simp [declaredOffsets, hdeclaration], fun _ _ hl => hl⟩

/-- A mark leaves the kind of its node. -/
theorem get?_kind_addForKind_mark (hguide : guide.supplement = some supplement) (node : Entries Value)
    (t : Noted σ) :
    (addForKind guide.noted Kind.mark (node, t)).2.1.get? Key.kind = node.get? Key.kind := by
  have hnoted : guide.noted.supplement = some supplement.noted := by simp [Guide.noted, hguide]
  rw [addForKind_mark hnoted]
  rcases addMark_cases supplement.noted guide.noted.sources node t with
    ⟨_, _, _, hout⟩ | ⟨_, _, _, ⟨e, s, -, hout⟩ | ⟨text, s, -, hout⟩⟩
  · rw [hout]
  · rw [hout]
  · rw [hout, Entries.get?_set, if_neg (by decide)]

/-! ### One key -/

section Walk

variable {key : Text} {value : Value} {node node₁ node' : Entries Value}

/-- What a walk does at the key of an identifier: it writes the kind of a mark, or it replaces the identifier
and leaves everything else alone. -/
theorem tally_identifier (hguide : guide.supplement = some supplement) {uid : Int}
    (hget : node.get? key = some (.uint64 uid))
    (hrun : labelKey guide.noted (labelValue guide.noted levels) key (node, t) = (r, (node', t')))
    (hquiet : Quiet t'.2.1) :
    (key = Key.kind ∧ node'.get? Key.kind = some (.string Kind.mark)) ∨
      ∃ now, node' = Entries.set key now node ∧
        Tally guide (fun guide => labelKey guide (labelValue guide levels) key) node t r node' t'
          (if key = Key.kind then namedKind (node.get? Key.nameOffset) (.uint64 uid) now else []) := by
  have hkept : node = Entries.set key (.uint64 uid) node := (Entries.set_of_get?_eq hget).symm
  have hresolve := resolve_noted guide uid t
  rcases hfound : NameCache.resolve guide.lookup uid (t.1, t.2.2) with ⟨e | _ | name, names, s⟩
  · rw [hfound] at hresolve
    rw [labelKey_of_unresolved hget hresolve] at hrun
    obtain ⟨rfl, rfl, rfl⟩ : _ = r ∧ _ = node' ∧ _ = t' := by simpa only [Prod.mk.injEq] using hrun
    refine .inr ⟨_, hkept, by simp [namedKind, declaredOffsets], ?_⟩
    intro ν R given h sources l hl
    obtain ⟨l', hgiven, hl'⟩ := resolve_undisturbed h hfound hl
    exact ⟨l', labelKey_of_unresolved hget hgiven, hl'⟩
  · rw [hfound] at hresolve
    rw [labelKey_of_unnamed hget hresolve] at hrun
    obtain ⟨rfl, rfl, rfl⟩ : _ = r ∧ _ = node' ∧ _ = t' := by simpa only [Prod.mk.injEq] using hrun
    refine .inr ⟨_, hkept, by simp [namedKind, declaredOffsets], ?_⟩
    intro ν R given h sources l hl
    obtain ⟨l', hgiven, hl'⟩ := resolve_undisturbed h hfound hl
    exact ⟨l', labelKey_of_unnamed hget hgiven, hl'⟩
  · rw [hfound] at hresolve
    rw [labelKey_of_named hget hresolve] at hrun
    split_ifs at hrun with hkey
    · subst hkey
      by_cases hmark : name = Kind.mark
      · subst hmark
        have hkind := get?_kind_addForKind_mark hguide (Entries.set Key.kind (.string Kind.mark) node)
          (names, (t.2.1, s))
        rw [hrun, Entries.get?_set, if_pos rfl] at hkind
        exact .inl ⟨rfl, hkind⟩
      · obtain ⟨rfl, rfl, hcache, hoffsets, hstate⟩ := addForKind_quiet hguide hmark hrun hquiet
        rw [Entries.get?_set, if_neg (by decide)] at hoffsets
        simp only [if_true]
        refine .inr ⟨_, rfl, hoffsets, ?_⟩
        intro ν R given h sources l hl
        obtain ⟨l', hgiven, hl'⟩ := resolve_undisturbed h hfound hl
        refine ⟨l', (labelKey_of_named hget hgiven).trans ?_, hstate h l' hl'⟩
        rw [if_pos rfl, hcache]
        rfl
    · obtain ⟨rfl, rfl, rfl⟩ : _ = r ∧ _ = node' ∧ _ = t' := by simpa using hrun
      refine .inr ⟨_, rfl, by simp [hkey, declaredOffsets], ?_⟩
      intro ν R given h sources l hl
      obtain ⟨l', hgiven, hl'⟩ := resolve_undisturbed h hfound hl
      refine ⟨l', (labelKey_of_named hget hgiven).trans ?_, hl'⟩
      rw [if_neg hkey]
      rfl

/-- What a walk does at a key: it writes the kind of a mark, or it replaces what stands there and leaves
everything else alone. -/
theorem tally_labelKey (hguide : guide.supplement = some supplement) (hget : node.get? key = some value)
    (hvalue : Tallies guide levels value)
    (hrun : labelKey guide.noted (labelValue guide.noted levels) key (node, t) = (r, (node', t')))
    (hquiet : Quiet t'.2.1) :
    (key = Key.kind ∧ (∃ uid, value = .uint64 uid) ∧ node'.get? Key.kind = some (.string Kind.mark)) ∨
      ∃ now, node' = Entries.set key now node ∧ (MarkFree (kinds value now) →
        Tally guide (fun guide => labelKey guide (labelValue guide levels) key) node t r node' t'
          ((if key = Key.kind then namedKind (node.get? Key.nameOffset) value now else [])
            ++ kinds value now)) := by
  rcases uint64_or_not value with ⟨uid, rfl⟩ | hnot
  · rcases tally_identifier hguide hget hrun hquiet with ⟨hkey, hmarked⟩ | ⟨now, hnode, htally⟩
    · exact .inl ⟨hkey, ⟨uid, rfl⟩, hmarked⟩
    · -- nothing is inside an identifier
      rw [← List.append_nil (if key = Key.kind then _ else _), ← kinds_uint64 uid now] at htally
      exact .inr ⟨now, hnode, fun _ => htally⟩
  · rw [labelKey_of_not_uid hget hnot] at hrun
    rcases hwalk : labelValue guide.noted levels (value, t) with ⟨r₁, now, t₁⟩
    simp only [atKey, hwalk, Prod.mk.injEq] at hrun
    obtain ⟨rfl, rfl, rfl⟩ := hrun
    refine .inr ⟨now, rfl, fun hmark => ?_⟩
    obtain ⟨hoffsets, hsame⟩ := hvalue hwalk hquiet hmark
    rw [namedKind_of_not_uid hnot, ite_self, List.nil_append]
    refine ⟨hoffsets, ?_⟩
    intro ν R given h sources l hl
    obtain ⟨l', hgiven, hl'⟩ := hsame h sources hl
    refine ⟨l', (labelKey_of_not_uid hget hnot).trans ?_, hl'⟩
    simp only [atKey, hgiven]

/-! ### One after the other -/

section Sequence

variable {rest : List Text} {items items' : List Value} {item item' : Value} {first later : List NamedKind}

/-- A walk that fails at its first key has the tally of that key. -/
theorem Tally.labelKeys_of_error {e : Fault}
    (h : Tally guide (fun guide => labelKey guide (labelValue guide levels) key) node t (.error e) node' t'
      first) (rest : List Text) :
    Tally guide (fun guide => labelKeys guide (labelValue guide levels) (key :: rest)) node t (.error e)
      node' t' first := by
  refine ⟨h.offsets, ?_⟩
  intro ν R given hgiven sources l hl
  obtain ⟨l', hrun, hl'⟩ := h.same hgiven sources hl
  exact ⟨l', Action.bind_of_error hrun _, hl'⟩

/-- The tally of keys is that of the first and then that of the others. -/
theorem Tally.labelKeys_of_ok
    (h : Tally guide (fun guide => labelKey guide (labelValue guide levels) key) node t (.ok ()) node₁ t₁
      first)
    (hrest : Tally guide (fun guide => labelKeys guide (labelValue guide levels) rest) node₁ t₁ r node' t'
      later) :
    Tally guide (fun guide => labelKeys guide (labelValue guide levels) (key :: rest)) node t r node' t'
      (first ++ later) := by
  refine ⟨by rw [hrest.offsets, h.offsets, List.append_assoc, ← declaredOffsets_append], ?_⟩
  intro ν R given hgiven sources l hl
  obtain ⟨l₁, hrun₁, hl₁⟩ := h.same hgiven sources hl
  obtain ⟨l', hrun, hl'⟩ := hrest.same hgiven sources hl₁
  exact ⟨l', (Action.bind_of_ok hrun₁ _).trans hrun, hl'⟩

/-- A walk that fails at its first item has the tally of that item. -/
theorem Tally.labelItems_of_error {e : Fault}
    (h : Tally guide (fun guide => labelValue guide levels) item t (.error e) item' t' first)
    (rest : List Value) :
    Tally guide (fun guide s => labelItems (labelValue guide levels) s.1 s.2) (item :: rest) t (.error e)
      (item' :: rest) t' first := by
  refine ⟨h.offsets, ?_⟩
  intro ν R given hgiven sources l hl
  obtain ⟨l', hrun, hl'⟩ := h.same hgiven sources hl
  exact ⟨l', by simp only [labelItems, hrun], hl'⟩

/-- The tally of items is that of the first and then that of the others. -/
theorem Tally.labelItems_of_ok
    (h : Tally guide (fun guide => labelValue guide levels) item t (.ok ()) item' t₁ first)
    (hrest : Tally guide (fun guide s => labelItems (labelValue guide levels) s.1 s.2) items t₁ r items' t'
      later) :
    Tally guide (fun guide s => labelItems (labelValue guide levels) s.1 s.2) (item :: items) t r
      (item' :: items') t' (first ++ later) := by
  refine ⟨by rw [hrest.offsets, h.offsets, List.append_assoc, ← declaredOffsets_append], ?_⟩
  intro ν R given hgiven sources l hl
  obtain ⟨l₁, hrun₁, hl₁⟩ := h.same hgiven sources hl
  obtain ⟨l', hrun, hl'⟩ := hrest.same hgiven sources hl₁
  exact ⟨l', by simp only [labelItems, hrun₁, hrun], hl'⟩

end Sequence

/-! ### All keys and all items -/

/-- The kind of a mark stays when the turn of the keys after it is over. -/
theorem get?_kind_labelKeys {rest : List Text} (hrest : Key.kind ∉ rest)
    (hmarked : node.get? Key.kind = some (.string Kind.mark))
    (hrun : labelKeys guide.noted (labelValue guide.noted levels) rest (node, t) = (r, (node', t'))) :
    node'.get? Key.kind = some (.string Kind.mark) := by
  have hkept := preserves_string_labelKeys guide.noted hrest
    (fun t => congrArg (·.2.1) (Visit.labelValue_string guide.noted levels Kind.mark t)) Key.kind
    (node, t) hmarked
  rw [hrun] at hkept
  exact hkept

/-- A quiet walk through keys leaves all others alone, and tells the offsets of the declarations at these. -/
theorem tally_labelKeys (hguide : guide.supplement = some supplement) {rest : Entries Value}
    (hrest : ∀ entry ∈ rest, Tallies guide levels entry.2)
    (hdistinct : Value.EntriesHaveDistinctKeys rest) (hkeys : (Entries.keys rest).Nodup)
    (hnode : ∀ entry ∈ rest, node.get? entry.1 = some entry.2)
    (hrun : labelKeys guide.noted (labelValue guide.noted levels) (Entries.keys rest) (node, t) =
      (r, (node', t')))
    (hquiet : Quiet t'.2.1)
    (hmark : MarkFree (kindsOfEntries node' (node.get? Key.nameOffset) rest)) :
    (∀ k ∉ Entries.keys rest, node'.get? k = node.get? k) ∧
      Tally guide (fun guide => labelKeys guide (labelValue guide levels) (Entries.keys rest)) node t r
        node' t' (kindsOfEntries node' (node.get? Key.nameOffset) rest) := by
  induction rest generalizing node t with
  | nil =>
    obtain ⟨rfl, rfl, rfl⟩ : .ok () = r ∧ node = node' ∧ t = t' := by
      simpa [Entries.keys, labelKeys] using hrun
    exact ⟨fun _ _ => rfl, by simp [kindsOfEntries, declaredOffsets], fun _ _ l hl => ⟨l, rfl, hl⟩⟩
  | cons entry rest ih =>
    obtain ⟨key, value⟩ := entry
    obtain ⟨hvalue, hrest⟩ := List.forall_mem_cons.mp hrest
    obtain ⟨hnew, hkeys⟩ : key ∉ Entries.keys rest ∧ (Entries.keys rest).Nodup := List.nodup_cons.mp hkeys
    obtain ⟨hget, hnode⟩ := List.forall_mem_cons.mp hnode
    have hlater : ∀ now, ∀ entry ∈ rest, (Entries.set key now node).get? entry.1 = some entry.2 := by
      intro now entry hentry
      rw [Entries.get?_set_of_notMem (List.mem_map_of_mem hentry) hnew]
      exact hnode entry hentry
    have hothers : ∀ now, ∀ k ∉ key :: Entries.keys rest,
        (Entries.set key now node).get? k = node.get? k := by
      intro now k hk
      rw [Entries.get?_set, if_neg (Ne.symm (List.ne_of_not_mem_cons hk))]
    rw [Entries.keys_cons, labelKeys] at hrun
    rcases hfirst : labelKey guide.noted (labelValue guide.noted levels) key (node, t) with
      ⟨e | ⟨⟩, node₁, t₁⟩
    · -- the walk stops here, and what is to come stays as it is
      rw [Action.bind_of_error hfirst] at hrun
      obtain ⟨rfl, rfl, rfl⟩ : _ = r ∧ _ = node' ∧ _ = t' := by simpa using hrun
      rcases tally_labelKey hguide hget hvalue hfirst hquiet with
        ⟨rfl, ⟨uid, rfl⟩, hmarked⟩ | ⟨now, rfl, htally⟩
      · exact absurd hmark (not_markFree_of_get? hmarked)
      · have hnow : (Entries.set key now node).get? key = some now := by rw [Entries.get?_set, if_pos rfl]
        rw [kindsOfEntries_cons hnow, kindsOfEntries_of_get? rest hdistinct.2 (hlater now),
          List.append_nil] at hmark ⊢
        exact ⟨hothers now, (htally (markFree_append.mp hmark).2).labelKeys_of_error _⟩
    · rw [Action.bind_of_ok hfirst] at hrun
      have hgrown := (addsRounds_labelKeys guide (asks_labelValue guide levels) (Entries.keys rest) node₁
        t₁).isPrefix
      rw [hrun] at hgrown
      rcases tally_labelKey hguide hget hvalue hfirst (hquiet.of_prefix hgrown) with
        ⟨rfl, ⟨uid, rfl⟩, hmarked⟩ | ⟨now, rfl, htally⟩
      · exact absurd hmark (not_markFree_of_get? (get?_kind_labelKeys hnew hmarked hrun))
      · -- what stands at the key of the offset does not matter for marks, so the rest comes first
        have hmarkRest : MarkFree
            (kindsOfEntries node' ((Entries.set key now node).get? Key.nameOffset) rest) := by
          rw [kindsOfEntries] at hmark
          rw [MarkFree, names_kindsOfEntries]
          exact (markFree_append.mp hmark).2
        obtain ⟨hkept, htallyRest⟩ := ih hrest hdistinct.2 hkeys (hlater now) hrun hmarkRest
        have hnow : node'.get? key = some now := by rw [hkept key hnew, Entries.get?_set, if_pos rfl]
        rw [kindsOfEntries_cons hnow] at hmark ⊢
        rw [Entries.get?_set] at htallyRest
        refine ⟨?_, (htally (markFree_append.mp (markFree_append.mp hmark).1).2).labelKeys_of_ok htallyRest⟩
        intro k hk
        rw [hkept k (List.not_mem_of_not_mem_cons hk), hothers now k hk]

/-- A quiet walk through items tells the offsets of the declarations in them. -/
theorem tally_labelItems {items items' : List Value} (hitems : ∀ item ∈ items, Tallies guide levels item)
    (hdistinct : Value.ItemsHaveDistinctKeys items)
    (hrun : labelItems (labelValue guide.noted levels) items t = (r, (items', t')))
    (hquiet : Quiet t'.2.1) (hmark : MarkFree (kindsOfItems items items')) :
    Tally guide (fun guide s => labelItems (labelValue guide levels) s.1 s.2) items t r items' t'
      (kindsOfItems items items') := by
  induction items generalizing items' t with
  | nil =>
    obtain ⟨rfl, rfl, rfl⟩ : .ok () = r ∧ [] = items' ∧ t = t' := by simpa [labelItems] using hrun
    exact ⟨by simp [kindsOfItems, declaredOffsets], fun _ _ l hl => ⟨l, rfl, hl⟩⟩
  | cons item rest ih =>
    obtain ⟨hitem, hrest⟩ := List.forall_mem_cons.mp hitems
    rw [labelItems] at hrun
    rcases hfirst : labelValue guide.noted levels (item, t) with ⟨e | ⟨⟩, now, t₁⟩
    · simp only [hfirst, Prod.mk.injEq] at hrun
      obtain ⟨rfl, rfl, rfl⟩ := hrun
      rw [kindsOfItems, kindsOfItems_self rest hdistinct.2, List.append_nil] at hmark ⊢
      exact (hitem hfirst hquiet hmark).labelItems_of_error rest
    · rcases hlater : labelItems (labelValue guide.noted levels) rest t₁ with ⟨r₂, items₂, t₂⟩
      simp only [hfirst, hlater, Prod.mk.injEq] at hrun
      obtain ⟨rfl, rfl, rfl⟩ := hrun
      have hgrown := (addsRounds_labelItems (asks_labelValue guide levels) rest t₁).isPrefix
      rw [hlater] at hgrown
      rw [kindsOfItems] at hmark ⊢
      obtain ⟨hmarkItem, hmarkRest⟩ := markFree_append.mp hmark
      exact (hitem hfirst (hquiet.of_prefix hgrown) hmarkItem).labelItems_of_ok
        (ih hrest hdistinct.2 hlater hmarkRest)

/-! ### All levels -/

/-- A quiet walk through a dictionary tells the offsets of the declarations in it. -/
theorem tally_dictionary (hguide : guide.supplement = some supplement) {entries entries' : Entries Value}
    (hentries : ∀ entry ∈ entries, Tallies guide levels entry.2)
    (hdistinct : (Value.dictionary entries).HasDistinctKeys)
    (hrun : labelKeys guide.noted (labelValue guide.noted levels) (Entries.keys entries) (entries, t) =
      (r, (entries', t')))
    (hquiet : Quiet t'.2.1) (hmark : MarkFree (kinds (.dictionary entries) (.dictionary entries'))) :
    Tally guide (fun guide => labelKeys guide (labelValue guide levels) (Entries.keys entries)) entries t r
      entries' t' (kinds (.dictionary entries) (.dictionary entries')) :=
  (tally_labelKeys hguide hentries hdistinct.2 hdistinct.1
    (fun _ hentry => Entries.get?_of_mem hdistinct.1 hentry) hrun hquiet hmark).2

/-- Where no walk does anything, there is nothing to tell. -/
theorem tallies_of_idle (hdistinct : value.HasDistinctKeys) (result : Except Fault Unit)
    (hidle : ∀ {ν : Type} (guide : Guide ν) (t : State ν),
      labelValue guide levels (value, t) = (result, (value, t))) : Tallies guide levels value := by
  intro t t' r now hrun _ _
  rw [hidle] at hrun
  obtain ⟨rfl, rfl, rfl⟩ : result = r ∧ value = now ∧ t = t' := by simpa using hrun
  rw [kinds_self value hdistinct]
  exact ⟨by simp [declaredOffsets], fun _ sources l hl => ⟨l, hidle _ _, hl⟩⟩

/-- A quiet walk through any value tells the offsets of the declarations in it. -/
theorem tallies_labelValue (hguide : guide.supplement = some supplement) (levels : Nat) :
    ∀ value : Value, value.HasDistinctKeys → Tallies guide levels value := by
  induction levels with
  | zero =>
    intro value hdistinct
    cases value with
    | array _ | dictionary _ => exact tallies_of_idle hdistinct (.error .tooDeep) fun _ _ => rfl
    | _ => exact tallies_of_idle hdistinct (.ok ()) fun _ _ => rfl
  | succ levels ih =>
    intro value hdistinct
    cases value with
    | array items =>
      intro t t' r now hrun hquiet hmark
      obtain ⟨items', rfl, hitems⟩ := labelItems_of_labelValue hrun
      obtain ⟨hoffsets, hsame⟩ := tally_labelItems (fun item hitem => ih item (hdistinct.of_mem hitem))
        hdistinct hitems hquiet hmark
      refine ⟨hoffsets, ?_⟩
      intro ν R given h sources l hl
      obtain ⟨l', hgiven, hl'⟩ := hsame h sources hl
      exact ⟨l', labelValue_of_labelItems hgiven, hl'⟩
    | dictionary entries =>
      intro t t' r now hrun hquiet hmark
      obtain ⟨entries', rfl, hentries⟩ := labelKeys_of_labelValue hrun
      obtain ⟨hoffsets, hsame⟩ := tally_dictionary hguide
        (fun entry hentry => ih entry.2 (hdistinct.2.of_mem hentry)) hdistinct hentries hquiet hmark
      refine ⟨hoffsets, ?_⟩
      intro ν R given h sources l hl
      obtain ⟨l', hgiven, hl'⟩ := hsame h sources hl
      exact ⟨l', labelValue_of_labelKeys hgiven, hl'⟩
    | _ => exact tallies_of_idle hdistinct (.ok ()) fun _ _ => rfl

end Walk

/-- Labelling a dictionary with a supplement that has nothing to offer tells the offsets of the declarations,
and comes to the same without the supplement. -/
theorem tally_label (hguide : guide.supplement = some supplement) {tree tree' : Entries Value}
    (htree : (Value.dictionary tree).HasDistinctKeys)
    (hrun : label guide.noted (tree, t) = (r, (tree', t'))) (hquiet : Quiet t'.2.1)
    (hmark : MarkFree (kinds (.dictionary tree) (.dictionary tree'))) :
    Tally guide (fun guide => label guide) tree t r tree' t'
      (kinds (.dictionary tree) (.dictionary tree')) := by
  obtain ⟨hoffsets, hsame⟩ := tally_dictionary hguide
    (fun entry hentry => tallies_labelValue hguide (Value.entriesDepth tree + allowance) entry.2
      (htree.2.of_mem hentry)) htree hrun hquiet hmark
  exact ⟨hoffsets, fun h sources _ hl => hsame h sources hl⟩

/-- The questions that are put to a supplement while a tree is labelled come in rounds: it is told an offset
that is not negative and that a double holds exactly, and asked; a question that fails is the last, and
labelling fails with it. If no question fails and none is answered with a dictionary, and no kind is that of
a mark, then the offsets are those of the declarations in the tree, in reading order and each as it stands
when the kind is named, and the tree is labelled as it is without a supplement, by any look-ups that answer as
these do. Look-ups by fixed names, for instance, put the name of each identifier in its place. -/
theorem questions_are_declarations (lookup : Int → Action σ (Option Text)) (supplement : Supplement σ)
    (sources : SourceReader σ) {tree : Entries Value} (htree : (Value.dictionary tree).HasDistinctKeys)
    (cache : NameCache) (s : σ) :
    let guide : Guide σ := ⟨lookup, some supplement, sources⟩
    ∃ r tree' cache' notes s',
      label guide.noted (tree, (cache, ([], s))) = (r, (tree', (cache', (notes, s')))) ∧
      label guide (tree, (cache, s)) = (r, (tree', (cache', s'))) ∧
      (∃ rounds, notes = notesOf rounds ∧ Orderly rounds r) ∧
      (Quiet notes → MarkFree (kinds (.dictionary tree) (.dictionary tree')) →
        offsetsTold notes = declaredOffsets (kinds (.dictionary tree) (.dictionary tree')) ∧
        (∀ {ν : Type} {R : σ → ν → Prop} {given : Int → Action ν (Option Text)},
          guide.Undisturbed R given → ∀ (others : SourceReader ν) {l : ν}, R s l →
            ∃ l', label ⟨given, none, others⟩ (tree, (cache, l)) = (r, (tree', (cache', l')))) ∧
        ∀ f, (∀ uid s, (lookup uid s).1 = .ok (f uid)) → cache.Agrees f →
          r = .ok () ∧ tree' = renameEntries f tree) := by
  intro guide
  have hguide : guide.supplement = some supplement := rfl
  have hforget := label_forgetting_notes guide tree cache [] s
  have hrounds := addsRounds_label guide tree (cache, ([], s))
  rcases hrun : label guide.noted (tree, (cache, ([], s))) with ⟨r, tree', cache', notes, s'⟩
  rw [hrun] at hforget hrounds
  refine ⟨r, tree', cache', notes, s', rfl, hforget, hrounds, ?_⟩
  intro hquiet hmark
  obtain ⟨hoffsets, hsame⟩ := tally_label hguide htree hrun hquiet hmark
  refine ⟨hoffsets, ?_, ?_⟩
  · intro ν R given h others l hl
    obtain ⟨l', hgiven, -⟩ := hsame h others hl
    exact ⟨l', hgiven⟩
  · intro f hf hcache
    have hfixed : guide.Undisturbed (fun _ _ => True) (fixedLookup f fun _ (u : Unit) => u) :=
      ⟨fun uid s _ _ => ⟨hf uid s, trivial⟩, fun _ _ _ _ _ _ => trivial, fun _ _ _ _ _ => trivial⟩
    obtain ⟨l', hgiven, -⟩ := hsame hfixed (Sources.ofTexts []) (l := ()) trivial
    have hlabel := label_fixed (fun _ (u : Unit) => u) (Sources.ofTexts []) htree (s := (cache, ())) hcache
    obtain ⟨hresult, hrest⟩ := Prod.mk.inj (hgiven.symm.trans hlabel)
    exact ⟨hresult, (Prod.mk.inj hrest).1⟩

/-- Declarations, one inside another. One has an identifier for an offset, which is named before the kind, and
one has it after the kind; one has a negative offset, and one an offset that no double holds. -/
def sampleDeclarations : Entries Value :=
  [("key.substructure", .array
    [.dictionary [(Key.nameOffset, .uint64 7), (Key.kind, .uint64 leastUid),
        ("key.substructure", .array [.dictionary (unnamedClass 12)])],
      .dictionary [(Key.nameOffset, .uint64 leastUid), (Key.kind, .uint64 leastUid)],
      .dictionary [(Key.kind, .uint64 leastUid), (Key.nameOffset, .uint64 leastUid)],
      .dictionary (unnamedClass (-1)), .dictionary (unnamedClass (2 ^ 53))])]

/-- No dictionary of the sample has a key twice. -/
theorem hasDistinctKeys_sampleDeclarations : (Value.dictionary sampleDeclarations).HasDistinctKeys := by
  have hclass : ∀ offset, (Value.dictionary (unnamedClass offset)).HasDistinctKeys := by
    intro offset
    have hkeys : (Entries.keys (unnamedClass 0)).Nodup := by decide
    exact ⟨hkeys, trivial, trivial, trivial, trivial⟩
  exact ⟨by decide, ⟨⟨by decide, trivial, trivial, ⟨hclass 12, trivial⟩, trivial⟩,
    ⟨by decide, trivial, trivial, trivial⟩, ⟨by decide, trivial, trivial, trivial⟩, hclass (-1),
    hclass (2 ^ 53), trivial⟩, trivial⟩

/-- Of the declarations of the sample three give an offset that can be told, and these are asked about, in
reading order. -/
theorem questions_are_declarations_sampleDeclarations :
    let guide := classGuide fun _ => none
    ∃ tree' cache' notes s',
      label guide.noted (sampleDeclarations, ([], ([], 0))) = (.ok (), (tree', (cache', (notes, s')))) ∧
      offsetsTold notes = [7, 12, leastUid] ∧
      tree' = renameEntries (fun _ => some classKind) sampleDeclarations ∧
      ∃ l, label ⟨guide.lookup, none, guide.sources⟩ (sampleDeclarations, ([], 0)) =
        (.ok (), (tree', (cache', l))) := by
  intro guide
  have hquiet : Quiet (label guide.noted (sampleDeclarations, ([], ([], 0)))).2.2.2.1 := by
    decide +kernel
  have hmark : MarkFree (kinds (.dictionary sampleDeclarations)
      (.dictionary (label guide.noted (sampleDeclarations, ([], ([], 0)))).2.1)) := by
    decide +kernel
  have hdeclared : declaredOffsets (kinds (.dictionary sampleDeclarations)
      (.dictionary (label guide.noted (sampleDeclarations, ([], ([], 0)))).2.1)) = [7, 12, leastUid] := by
    decide +kernel
  have hundisturbed : guide.Undisturbed (fun _ _ => True) guide.lookup :=
    ⟨fun _ _ _ _ => ⟨rfl, trivial⟩, fun _ _ _ _ _ _ => trivial, fun _ _ _ _ _ => trivial⟩
  obtain ⟨r, tree', cache', notes, s', hrun, -, -, hrest⟩ := questions_are_declarations guide.lookup
    (offsetSupplement fun _ => none) guide.sources hasDistinctKeys_sampleDeclarations [] 0
  have hrun' : label guide.noted (sampleDeclarations, ([], ([], 0))) =
    (r, (tree', (cache', (notes, s')))) := hrun
  rw [hrun'] at hquiet hmark hdeclared
  obtain ⟨hoffsets, hsame, hfixed⟩ := hrest hquiet hmark
  obtain ⟨rfl, htree⟩ := hfixed (fun _ => some classKind) (fun _ _ => rfl) (NameCache.agrees_nil _)
  exact ⟨tree', cache', notes, s', hrun', hoffsets.trans hdeclared, htree,
    hsame hundisturbed guide.sources trivial⟩

end Labelling

end SwiftLens
