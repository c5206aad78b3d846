import SwiftLens.Proofs.Tree.DistinctKeys

/-!
# What a walk writes into a node

Whatever a walk does to a dictionary, it does by writing entries, one after the other. `writesAmong` is the
list of these for the keys of a node in turn: the name of an identifier, what the walk left of a value that
it went into, and, when the name of a kind has been written, what an answer offers or the text of a mark
(`writesForKind`). `labelKeys_writes` is that the node which the walk leaves, failed or not, is the node it
found with these entries written into it.

A beginning of the list is a node at a moment of the walk, so whatever holds of every list of writings holds
at every moment: keys stay in their places (`Entries.keys_isPrefix_setAll`). At any other key than that of
the kind nothing is written but at the key itself, so the keys are the same afterwards
(`preserves_keys_labelKeys`).
-/

namespace SwiftLens

/-! ### Keys and values after writing -/

namespace Entries

variable {α : Type}

/-- What is found at a key is an entry with that key. -/
theorem mem_keys_of_get? {key : Text} {value : α} {d : Entries α} (h : d.get? key = some value) :
    key ∈ keys d :=
  List.mem_map_of_mem (mem_of_get? h)

/-- Entries are written one after the other. -/
theorem setAll_append (first second d : Entries α) :
    setAll (first ++ second) d = setAll second (setAll first d) := by
  rw [setAll, List.foldl_append]
  rfl

/-- Writing over what is there leaves the keys as they are. -/
theorem keys_set_of_get? {key : Text} {old : α} {d : Entries α} (h : d.get? key = some old) (new : α) :
    keys (set key new d) = keys d := by
  rw [keys_set, if_pos (mem_keys_of_get? h)]

/-- Writing an entry keeps the keys that are there, in their order. -/
theorem keys_isPrefix_set (key : Text) (value : α) (d : Entries α) : keys d <+: keys (set key value d) := by
  rw [keys_set]
  split_ifs
  · exact List.prefix_rfl
  · exact List.prefix_append _ _

/-- Keys that are there stay in their places. -/
theorem keys_isPrefix_setAll (writes d : Entries α) : keys d <+: keys (setAll writes d) := by
  induction writes generalizing d with
  | nil => exact List.prefix_rfl
  | cons entry rest ih => exact (keys_isPrefix_set entry.1 entry.2 d).trans (ih _)

/-- Entries with distinct keys add those of their keys that are not there, in their order. -/
theorem keys_setAll {writes : Entries α} (h : (keys writes).Nodup) (d : Entries α) :
    keys (setAll writes d) = keys d ++ (keys writes).filter (· ∉ keys d) := by
  induction writes generalizing d with
  | nil => exact (List.append_nil _).symm
  | cons entry rest ih =>
    obtain ⟨key, value⟩ := entry
    obtain ⟨hnew, hrest⟩ := List.nodup_cons.mp (h : (key :: keys rest).Nodup)
    rw [setAll_cons, ih hrest, keys_set, keys_cons]
    split_ifs with hmem
    · rw [List.filter_cons_of_neg (by simpa using hmem)]
    · -- the key is now there, but it does not come up again
      have hsame : (keys rest).filter (· ∉ keys d ++ [key]) = (keys rest).filter (· ∉ keys d) := by
        apply List.filter_congr
        intro k hk
        have hne : k ≠ key := fun heq => hnew (heq ▸ hk)
        simp [hne]
      rw [hsame, List.filter_cons_of_pos (by simpa using hmem), List.append_assoc,
        List.singleton_append]

/-- Writing entries leaves all other keys alone. -/
theorem get?_setAll_of_notMem {key : Text} {writes : Entries α} (h : key ∉ keys writes) (d : Entries α) :
    get? key (setAll writes d) = get? key d := by
  induction writes generalizing d with
  | nil => rfl
  | cons entry rest ih =>
    obtain ⟨hne, hrest⟩ := List.ne_and_not_mem_of_not_mem_cons (h : key ∉ entry.1 :: keys rest)
    rw [setAll_cons, ih hrest, get?_set, if_neg (Ne.symm hne)]

/-- The last writing at a key is what stands there. -/
theorem get?_setAll_append_cons {key : Text} {later : Entries α} (h : key ∉ keys later)
    (first : Entries α) (value : α) (d : Entries α) :
    get? key (setAll (first ++ (key, value) :: later) d) = some value := by
  rw [setAll_append, setAll_cons, get?_setAll_of_notMem h, get?_set, if_pos rfl]

/-- Writing an entry leaves the integers at other keys alone. -/
theorem integer?_set_of_ne {key k : Text} (h : key ≠ k) (value : Value) (d : Entries Value) :
    integer? (set key value d) k = integer? d k := by
  rw [integer?, integer?, get?_set, if_neg h]

end Entries

namespace Labelling

variable {σ : Type} {guide : Guide σ} {walk : Action (Value × State σ) Unit}

/-! ### At a node with a kind -/

/-- What is written into a declaration: what the answer offers, if it is asked about. -/
def writesForDeclaration (supplement : Supplement σ) (node : Entries Value) (s : σ) : Entries Value :=
  match node.integer? Key.nameOffset with
  | none => []
  | some offset =>
    if offset < 0 then [] else offered (supplement.send (supplement.setOffset offset s)).1

/-- What is written into a mark comment: its text, if it can be read. -/
def writesForMark (supplement : Supplement σ) (sources : SourceReader σ) (node : Entries Value) (s : σ) :
    Entries Value :=
  match node.integer? Key.offset, node.integer? Key.length, supplement.sourceFile? s with
  | some offset, some length, some file =>
    match (sources.range file (Double.ofInt offset) (Double.ofInt length) s).1 with
    | .ok text => [(Key.name, .string text)]
    | .error _ => []
  | _, _, _ => []

/-- What is written into a node whose kind has been written as `kind`. -/
def writesForKind (guide : Guide σ) (kind : Text) (node : Entries Value) (s : σ) : Entries Value :=
  match guide.supplement with
  | none => []
  | some supplement =>
    if kind.startsWith Kind.declaration then writesForDeclaration supplement node s
    else if kind = Kind.mark then writesForMark supplement guide.sources node s
    else []

/-- What is added to a declaration is what is written into it. -/
theorem addDeclaration_writes (supplement : Supplement σ) (node : Entries Value) (t : State σ) :
    (addDeclaration supplement (node, t)).2.1 =
      Entries.setAll (writesForDeclaration supplement node t.2) node := by
  unfold writesForDeclaration
  cases hoffset : node.integer? Key.nameOffset with
  | none =>
    rw [addDeclaration_of_unplaced supplement t (by simp [hoffset])]
    rfl
  | some offset =>
    by_cases hneg : offset < 0
    · rw [addDeclaration_of_unplaced supplement t (by simpa [hoffset] using hneg)]
      simp only [if_pos hneg, Entries.setAll_nil]
    · rcases hsend : supplement.send (supplement.setOffset offset t.2) with ⟨answer, u⟩
      rw [addDeclaration_of_placed hoffset hneg t.1 hsend]
      simp only [if_neg hneg, hsend]

/-- A declaration that says where its name is and is done with has been answered. -/
theorem writesForDeclaration_of_ok {supplement : Supplement σ} {node : Entries Value} {t : State σ}
    (h : (addDeclaration supplement (node, t)).1 = .ok ()) {offset : Int}
    (hoffset : node.integer? Key.nameOffset = some offset) (hneg : ¬ offset < 0) :
    ∃ reply u, supplement.send (supplement.setOffset offset t.2) = (.ok reply, u) ∧
      writesForDeclaration supplement node t.2 = offered (.ok reply) := by
  rcases hsend : supplement.send (supplement.setOffset offset t.2) with ⟨e | reply, u⟩
  · rw [addDeclaration_of_placed hoffset hneg t.1 hsend] at h
    cases h
  · refine ⟨reply, u, rfl, ?_⟩
    simp only [writesForDeclaration, hoffset, if_neg hneg, hsend]

/-- A mark comment is given the text that stands where it is, or nothing is written and the walk fails. -/
theorem addMark_or_fails (supplement : Supplement σ) (sources : SourceReader σ) (node : Entries Value)
    (t : State σ) :
    (∃ offset length file text u, node.integer? Key.offset = some offset ∧
        node.integer? Key.length = some length ∧ supplement.sourceFile? t.2 = some file ∧
        sources.range file (Double.ofInt offset) (Double.ofInt length) t.2 = (.ok text, u) ∧
        writesForMark supplement sources node t.2 = [(Key.name, .string text)] ∧
        addMark supplement sources (node, t) =
          (.ok (), (Entries.set Key.name (.string text) node, (t.1, u)))) ∨
      ∃ e u, writesForMark supplement sources node t.2 = [] ∧
        addMark supplement sources (node, t) = (.error e, (node, (t.1, u))) := by
  simp only [addMark, Action.bind_apply, Action.read_apply, writesForMark]
  rcases node.integer? Key.offset with _ | offset
  · exact .inr ⟨_, t.2, rfl, rfl⟩
  rcases node.integer? Key.length with _ | length
  · exact .inr ⟨_, t.2, rfl, rfl⟩
  rcases supplement.sourceFile? t.2 with _ | file
  · exact .inr ⟨_, t.2, rfl, rfl⟩
  rcases hread : sources.range file (Double.ofInt offset) (Double.ofInt length) t.2 with ⟨e | text, u⟩
  · exact .inr ⟨e, u, by simp only [hread], by simp only [Action.bind_apply, Action.second, hread]⟩
  · exact .inl ⟨offset, length, file, text, u, rfl, rfl, rfl, hread, by simp only [hread],
      by simp [Action.bind_apply, Action.second, hread]⟩

/-- What is added for a kind is what is written for it. -/
theorem addForKind_writes (guide : Guide σ) (kind : Text) (node : Entries Value) (t : State σ) :
    (addForKind guide kind (node, t)).2.1 =
      Entries.setAll (writesForKind guide kind node t.2) node := by
  unfold addForKind writesForKind
  cases guide.supplement with
  | none => rfl
  | some supplement =>
    simp only
    split_ifs
    · exact addDeclaration_writes supplement node t
    · rcases addMark_or_fails supplement guide.sources node t with
        ⟨_, _, _, text, _, -, -, -, -, hwrites, hout⟩ | ⟨e, _, hwrites, hout⟩
      · rw [hwrites, hout, Entries.setAll_cons, Entries.setAll_nil]
      · rw [hwrites, hout, Entries.setAll_nil]
    · rfl

/-- The kind of marks is no kind of declarations. -/
theorem mark_not_declaration : ¬ Kind.mark.startsWith Kind.declaration := by decide

section Kind

variable {supplement : Supplement σ} (hsupplement : guide.supplement = some supplement)
include hsupplement

/-- For a kind of declarations a question is asked. -/
theorem addForKind_of_declaration {kind : Text} (hkind : kind.startsWith Kind.declaration) :
    addForKind guide kind = addDeclaration supplement := by
  rw [addForKind, hsupplement]
  exact if_pos hkind

/-- For a kind of declarations the answer is written. -/
theorem writesForKind_of_declaration {kind : Text} (hkind : kind.startsWith Kind.declaration)
    (node : Entries Value) (s : σ) :
    writesForKind guide kind node s = writesForDeclaration supplement node s := by
  rw [writesForKind, hsupplement]
  exact if_pos hkind

/-- For the kind of marks the source is read. -/
theorem addForKind_mark : addForKind guide Kind.mark = addMark supplement guide.sources := by
  simp only [addForKind, hsupplement, if_neg mark_not_declaration, if_true]

/-- For the kind of marks the text is written. -/
theorem writesForKind_mark (node : Entries Value) (s : σ) :
    writesForKind guide Kind.mark node s = writesForMark supplement guide.sources node s := by
  simp only [writesForKind, hsupplement, if_neg mark_not_declaration, if_true]

end Kind

/-- The keys that a reply offers are distinct if the reply has distinct keys. -/
theorem nodup_keys_offered {answer : Except Fault (Option Value)}
    (h : ∀ reply, answer = .ok (some reply) → reply.HasDistinctKeys) :
    (Entries.keys (offered answer)).Nodup := by
  unfold offered
  split
  · next reply => exact (h _ rfl).1.sublist (List.filter_sublist.map Prod.fst)
  · exact List.nodup_nil

/-- No answer offers a kind. -/
theorem kind_notMem_offered (answer : Except Fault (Option Value)) :
    Key.kind ∉ Entries.keys (offered answer) := by
  unfold offered
  split
  · simp [Entries.keys]
  · exact List.not_mem_nil

/-- A kind is never written over. -/
theorem kind_notMem_writesForKind (guide : Guide σ) (kind : Text) (node : Entries Value) (s : σ) :
    Key.kind ∉ Entries.keys (writesForKind guide kind node s) := by
  have hname : Key.kind ∉ [Key.name] := by decide
  unfold writesForKind
  split
  · exact List.not_mem_nil
  split_ifs
  · unfold writesForDeclaration
    split
    · exact List.not_mem_nil
    · split_ifs
      · exact List.not_mem_nil
      · exact kind_notMem_offered _
  · unfold writesForMark
    split
    · split
      · exact hname
      · exact List.not_mem_nil
    · exact List.not_mem_nil
  · exact List.not_mem_nil

/-! ### At keys -/

/-- What is written when it is the turn of a key. -/
def writesAt (guide : Guide σ) (walk : Action (Value × State σ) Unit) (key : Text)
    (s : Entries Value × State σ) : Entries Value :=
  match s.1.get? key with
  | none => []
  | some (.uint64 uid) =>
    match NameCache.resolve guide.lookup uid s.2 with
    | (.ok (some name), t) =>
      (key, .string name) ::
        if key = Key.kind then writesForKind guide name (Entries.set key (.string name) s.1) t.2 else []
    | _ => []
  | some value => [(key, (walk (value, s.2)).2.1)]

/-- What is written when it is the turn of keys, one after the other. After a failure nothing is. -/
def writesAmong (guide : Guide σ) (walk : Action (Value × State σ) Unit) :
    List Text → Entries Value × State σ → Entries Value
  | [], _ => []
  | key :: rest, s =>
    match labelKey guide walk key s with
    | (.ok (), t) => writesAt guide walk key s ++ writesAmong guide walk rest t
    | (.error _, _) => writesAt guide walk key s

section Key

variable {key : Text} {node : Entries Value} {t t' : State σ} {uid : Int}

/-- At an identifier with a name that name is written, and at the key of the kind what is written for it. -/
theorem writesAt_of_named {name : Text} (hget : node.get? key = some (.uint64 uid))
    (hresolve : NameCache.resolve guide.lookup uid t = (.ok (some name), t')) :
    writesAt guide walk key (node, t) = (key, .string name) ::
      if key = Key.kind then writesForKind guide name (Entries.set key (.string name) node) t'.2
      else [] := by
  simp only [writesAt, hget, hresolve]

/-- At anything but an identifier its value is written as the walk leaves it. -/
theorem writesAt_of_not_uid {value : Value} (hget : node.get? key = some value)
    (hnot : ∀ uid, value ≠ .uint64 uid) :
    writesAt guide walk key (node, t) = [(key, (walk (value, t)).2.1)] := by
  cases value with
  | uint64 uid => exact absurd rfl (hnot uid)
  | _ => simp only [writesAt, hget]

/-- What labelling does at a key is to write. -/
theorem labelKey_writes (guide : Guide σ) (walk : Action (Value × State σ) Unit) (key : Text)
    (node : Entries Value) (t : State σ) :
    (labelKey guide walk key (node, t)).2.1 =
      Entries.setAll (writesAt guide walk key (node, t)) node := by
  cases hget : node.get? key with
  | none =>
    rw [labelKey_of_absent hget]
    simp [writesAt, hget]
  | some value =>
    rcases uint64_or_not value with ⟨uid, rfl⟩ | hnot
    · rcases hresolve : NameCache.resolve guide.lookup uid t with ⟨e | _ | name, t'⟩
      · rw [labelKey_of_unresolved hget hresolve]
        simp [writesAt, hget, hresolve]
      · rw [labelKey_of_unnamed hget hresolve]
        simp [writesAt, hget, hresolve]
      · rw [labelKey_of_named hget hresolve, writesAt_of_named hget hresolve, Entries.setAll_cons]
        split_ifs
        · exact addForKind_writes guide name _ t'
        · rfl
    · rw [labelKey_of_not_uid hget hnot, writesAt_of_not_uid hget hnot]
      rfl

/-- At the turn of a key, nothing is written or the value there is replaced, unless the key is that of a kind
which has a name. A string is replaced by what the walk leaves of it. -/
theorem writesAt_of_plain (guide : Guide σ) (walk : Action (Value × State σ) Unit)
    (hplain : key = Key.kind → ∀ uid name t', node.get? key = some (.uint64 uid) →
      NameCache.resolve guide.lookup uid t ≠ (.ok (some name), t')) :
    writesAt guide walk key (node, t) = [] ∨
      ∃ old new, node.get? key = some old ∧ writesAt guide walk key (node, t) = [(key, new)] ∧
        ∀ text, old = .string text → new = (walk (.string text, t)).2.1 := by
  cases hget : node.get? key with
  | none => exact .inl (by simp only [writesAt, hget])
  | some value =>
    rcases uint64_or_not value with ⟨uid, rfl⟩ | hnot
    · rcases hresolve : NameCache.resolve guide.lookup uid t with ⟨e | _ | name, t'⟩
      · exact .inl (by simp only [writesAt, hget, hresolve])
      · exact .inl (by simp only [writesAt, hget, hresolve])
      · have hkey : key ≠ Key.kind := fun hkey => hplain hkey uid name t' hget hresolve
        refine .inr ⟨_, .string name, rfl, ?_, nofun⟩
        rw [writesAt_of_named hget hresolve, if_neg hkey]
    · refine .inr ⟨value, _, rfl, writesAt_of_not_uid hget hnot, ?_⟩
      rintro text rfl
      rfl

/-- At any key but the kind nothing is written elsewhere. -/
theorem keys_writesAt_subset (hkey : key ≠ Key.kind) (s : Entries Value × State σ) :
    Entries.keys (writesAt guide walk key s) ⊆ [key] := by
  rcases writesAt_of_plain guide walk fun h => absurd h hkey with hwrites | ⟨_, _, -, hwrites, -⟩
  · rw [hwrites]
    exact List.nil_subset _
  · rw [hwrites]
    exact List.Subset.refl _

/-- The keys of a node are the same after such a turn, ... -/
theorem keys_labelKey (hplain : key = Key.kind → ∀ uid name t', node.get? key = some (.uint64 uid) →
      NameCache.resolve guide.lookup uid t ≠ (.ok (some name), t')) :
    Entries.keys (labelKey guide walk key (node, t)).2.1 = Entries.keys node := by
  rw [labelKey_writes]
  rcases writesAt_of_plain guide walk hplain with hwrites | ⟨old, new, hget, hwrites, -⟩
  · rw [hwrites, Entries.setAll_nil]
  · rw [hwrites, Entries.setAll_cons, Entries.setAll_nil, Entries.keys_set_of_get? hget]

/-- ... and where the walk leaves strings alone, they stay too. -/
theorem preserves_string_labelKey (hkey : key ≠ Key.kind) {text : Text}
    (hwalk : ∀ t, (walk (.string text, t)).2.1 = .string text) (k : Text) :
    (labelKey guide walk key).Preserves fun s => s.1.get? k = some (.string text) := by
  rintro ⟨node, t⟩ (h : node.get? k = some (.string text))
  show (labelKey guide walk key (node, t)).2.1.get? k = some (.string text)
  rw [labelKey_writes]
  rcases writesAt_of_plain guide walk fun h => absurd h hkey with hwrites | ⟨old, new, hget, hwrites, hnew⟩
  · rw [hwrites, Entries.setAll_nil, h]
  · rw [hwrites, Entries.setAll_cons, Entries.setAll_nil, Entries.get?_set]
    split_ifs with heq
    · subst heq
      rw [hnew text (Option.some.inj (hget.symm.trans h)), hwalk t]
    · exact h

end Key

section Keys

variable {keys first second : List Text} {s t : Entries Value × State σ}

/-- Keys are labelled one after the other. -/
theorem labelKeys_append (first second : List Text) (s : Entries Value × State σ) :
    labelKeys guide walk (first ++ second) s =
      (labelKeys guide walk first >>= fun _ => labelKeys guide walk second) s := by
  induction first generalizing s with
  | nil => rfl
  | cons key rest ih =>
    rcases hrun : labelKey guide walk key s with ⟨e | ⟨⟩, t⟩
    · simp [labelKeys, Action.bind_apply, hrun]
    · have hrest := ih t
      rw [Action.bind_apply] at hrest
      simp [labelKeys, Action.bind_apply, hrun, hrest]

/-- The node that is left is the node that was found with all that is written on the way. -/
theorem labelKeys_writes (guide : Guide σ) (walk : Action (Value × State σ) Unit) (keys : List Text)
    (s : Entries Value × State σ) :
    (labelKeys guide walk keys s).2.1 = Entries.setAll (writesAmong guide walk keys s) s.1 := by
  induction keys generalizing s with
  | nil => rfl
  | cons key rest ih =>
    have hkey := labelKey_writes guide walk key s.1 s.2
    rw [labelKeys, writesAmong]
    rcases hrun : labelKey guide walk key s with ⟨e | ⟨⟩, t⟩
    · rw [Action.bind_of_error hrun, ← hkey, hrun]
    · rw [Action.bind_of_ok hrun, ih, Entries.setAll_append, ← hkey, hrun]

/-- What is written at keys is what is written at the first and then at the others. -/
theorem writesAmong_append_of_ok (h : labelKeys guide walk first s = (.ok (), t)) (second : List Text) :
    writesAmong guide walk (first ++ second) s =
      writesAmong guide walk first s ++ writesAmong guide walk second t := by
  induction first generalizing s with
  | nil =>
    cases h
    rfl
  | cons key rest ih =>
    rw [List.cons_append, writesAmong, writesAmong]
    rcases hrun : labelKey guide walk key s with ⟨e | ⟨⟩, u⟩
    · rw [labelKeys, Action.bind_of_error hrun] at h
      cases h
    · rw [labelKeys, Action.bind_of_ok hrun] at h
      simp only [ih h, List.append_assoc]

/-- Only at these keys is anything written, unless the kind is among them. -/
theorem keys_writesAmong_subset (hkeys : Key.kind ∉ keys) (s : Entries Value × State σ) :
    Entries.keys (writesAmong guide walk keys s) ⊆ keys := by
  induction keys generalizing s with
  | nil => exact List.nil_subset _
  | cons key rest ih =>
    obtain ⟨hne, hrest⟩ := List.ne_and_not_mem_of_not_mem_cons hkeys
    have hhere : Entries.keys (writesAt guide walk key s) ⊆ key :: rest :=
      fun k hk => List.mem_cons.mpr (.inl (List.mem_singleton.mp (keys_writesAt_subset (Ne.symm hne) s hk)))
    rw [writesAmong]
    rcases labelKey guide walk key s with ⟨e | ⟨⟩, t⟩
    · exact hhere
    · rw [Entries.keys_append]
      exact List.append_subset.mpr ⟨hhere, List.subset_cons_of_subset key (ih hrest t)⟩

/-- What is written at the turn of a key comes first among what is written from then on. -/
theorem writesAmong_cons (guide : Guide σ) (walk : Action (Value × State σ) Unit) (key : Text)
    (rest : List Text) (s : Entries Value × State σ) :
    ∃ later, writesAmong guide walk (key :: rest) s = writesAt guide walk key s ++ later ∧
      (Key.kind ∉ rest → Entries.keys later ⊆ rest) := by
  rw [writesAmong]
  rcases labelKey guide walk key s with ⟨e | ⟨⟩, t⟩
  · exact ⟨[], (List.append_nil _).symm, fun _ => List.nil_subset _⟩
  · exact ⟨_, rfl, fun hrest => keys_writesAmong_subset hrest t⟩

/-- Labelling at keys without the kind among them keeps the keys. -/
theorem preserves_keys_labelKeys (guide : Guide σ) (walk : Action (Value × State σ) Unit)
    (hkeys : Key.kind ∉ keys) (original : List Text) :
    (labelKeys guide walk keys).Preserves fun s => Entries.keys s.1 = original := by
  induction keys with
  | nil => exact Action.Preserves.pure ()
  | cons key rest ih =>
    obtain ⟨hne, hrest⟩ := List.ne_and_not_mem_of_not_mem_cons hkeys
    have hkey : (labelKey guide walk key).Preserves fun s => Entries.keys s.1 = original := by
      intro s hs
      rw [keys_labelKey fun heq => absurd heq.symm hne]
      exact hs
    exact hkey.bind fun _ => ih hrest

/-- Labelling at keys without the kind among them leaves a string as it is, wherever it stands. -/
theorem preserves_string_labelKeys (guide : Guide σ) (hkeys : Key.kind ∉ keys) {text : Text}
    (hwalk : ∀ t, (walk (.string text, t)).2.1 = .string text) (k : Text) :
    (labelKeys guide walk keys).Preserves fun s => s.1.get? k = some (.string text) := by
  induction keys with
  | nil => exact Action.Preserves.pure ()
  | cons key rest ih =>
    obtain ⟨hne, hrest⟩ := List.ne_and_not_mem_of_not_mem_cons hkeys
    exact (preserves_string_labelKey (Ne.symm hne) hwalk k).bind fun _ => ih hrest

end Keys

end Labelling

end SwiftLens
