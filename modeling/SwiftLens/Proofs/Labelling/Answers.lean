import SwiftLens.Proofs.Inspection.Correspondence
import SwiftLens.Proofs.Labelling.Reading

/-!
# What a walk does with answers

With a supplement a walk asks about declarations and merges the answers into their nodes. A guide can be
had that lists the answers (`Guide.listed`); with the list forgotten it is the guide itself
(`labelKeys_forgetting_list`).

What a walk does at one key is then this, and no more (`labelKey_cases`): it descends into what stands
there, or it writes strings into the node, or, at the key of the kind, it asks once and writes what the
answer offers. So what stands at a key that is still to come was there before, or is a string, or was
brought in by the answer (`Writes.get?`); `incoming`, `brought` and `broughtLevels` are what answers bring
in, how many dictionaries that is and how many levels. The list of answers only grows (`Grows`).
-/

namespace SwiftLens

/-! ### Answers -/

variable {σ : Type}

/-- The answers of a supplement, in the order in which they were given. -/
abbrev Answers := List (Except Fault (Option Value))

/-- A supplement that lists what it answers. -/
def Supplement.listed (supplement : Supplement σ) : Supplement (Answers × σ) where
  sourceFile? s := supplement.sourceFile? s.2
  setOffset offset s := (s.1, supplement.setOffset offset s.2)
  send s :=
    match supplement.send s.2 with
    | (answer, t) => (answer, (s.1 ++ [answer], t))

/-- A guide that lists what its supplement answers. -/
def Guide.listed (guide : Guide σ) : Guide (Answers × σ) where
  lookup uid := (guide.lookup uid).second
  supplement := guide.supplement.map Supplement.listed
  sources := guide.sources.second

namespace Labelling

/-- The entries that an answer offers to a node. -/
def offered : Except Fault (Option Value) → Entries Value
  | .ok (some (.dictionary reply)) => reply.filter fun entry => entry.1 ≠ Key.kind
  | _ => []

/-- To merge a reply into a node is to write what it offers. -/
theorem merge_eq_setAll (reply node : Entries Value) :
    merge reply node = Entries.setAll (offered (.ok (some (.dictionary reply)))) node := by
  unfold merge offered Entries.setAll
  rw [List.foldl_filter]
  congr 1
  funext node entry
  simp

/-! ### What happens at a key -/

/-- What a walk does at a key into which it does not descend: it writes strings, or it asks about the
node and writes what the answer offers. -/
inductive Writes (key : Text) (node : Entries Value) (answers : Answers) :
    Entries Value → Answers → Prop
  | strings (writes : Entries Value) (h : ∀ entry ∈ writes, ∃ text, entry.2 = .string text) :
      Writes key node answers (Entries.setAll writes node) answers
  | asked (name : Text) (answer : Except Fault (Option Value)) (hkey : key = Key.kind) :
      Writes key node answers (Entries.setAll ((key, .string name) :: offered answer) node)
        (answers ++ [answer])

/-- About a declaration that has no offset, or a negative one, nothing is asked. -/
theorem addDeclaration_of_unplaced (supplement : Supplement σ) {node : Entries Value} (t : State σ)
    (h : ∀ offset, node.integer? Key.nameOffset = some offset → offset < 0) :
    addDeclaration supplement (node, t) = (.ok (), (node, t)) := by
  cases hoffset : node.integer? Key.nameOffset with
  | none => simp [addDeclaration, Action.bind_apply, hoffset]
  | some offset => simp [addDeclaration, Action.bind_apply, hoffset, h offset hoffset]

/-- A declaration that says where its name is, is asked about. -/
theorem addDeclaration_of_placed {supplement : Supplement σ} {node : Entries Value} {offset : Int}
    (hoffset : node.integer? Key.nameOffset = some offset) (hneg : ¬ offset < 0) (names : NameCache)
    {s s' : σ} {answer : Except Fault (Option Value)}
    (hsend : supplement.send (supplement.setOffset offset s) = (answer, s')) :
    addDeclaration supplement (node, (names, s)) =
      (answer.map fun _ => (), (Entries.setAll (offered answer) node, (names, s'))) := by
  simp only [addDeclaration, Action.bind_apply, Action.read_apply, hoffset, if_neg hneg,
    Action.modify_apply, Action.second, hsend]
  rcases answer with e | _ | reply
  · rfl
  · rfl
  · cases reply with
    | dictionary entries =>
      rw [← merge_eq_setAll]
      rfl
    | null | bool | int64 | uint64 | double | string | data | array => rfl

/-- Nothing is asked about a declaration, or one question is, and what its answer offers is written. -/
theorem addDeclaration_cases (supplement : Supplement σ) (node : Entries Value) (t : State σ) :
    addDeclaration supplement (node, t) = (.ok (), (node, t)) ∨
      ∃ offset answer s, supplement.send (supplement.setOffset offset t.2) = (answer, s) ∧
        addDeclaration supplement (node, t) =
          (answer.map fun _ => (), (Entries.setAll (offered answer) node, (t.1, s))) := by
  by_cases hplaced : ∃ offset, node.integer? Key.nameOffset = some offset ∧ ¬ offset < 0
  · obtain ⟨offset, hoffset, hneg⟩ := hplaced
    rcases hsend : supplement.send (supplement.setOffset offset t.2) with ⟨answer, s⟩
    exact .inr ⟨offset, answer, s, hsend, addDeclaration_of_placed hoffset hneg t.1 hsend⟩
  · exact .inl (addDeclaration_of_unplaced supplement t fun offset hoffset =>
      not_not.mp fun hneg => hplaced ⟨offset, hoffset, hneg⟩)

/-- At a mark comment that says where its text is, the text is read; any other is lost. -/
theorem addMark_cases (supplement : Supplement σ) (sources : SourceReader σ) (node : Entries Value)
    (t : State σ) :
    (∃ offset length file, addMark supplement sources (node, t) =
        (.error (.lostMark offset length file), (node, t))) ∨
      ∃ file offset length,
        (∃ e s, sources.range file offset length t.2 = (.error e, s) ∧
          addMark supplement sources (node, t) = (.error e, (node, (t.1, s)))) ∨
        ∃ text s, sources.range file offset length t.2 = (.ok text, s) ∧
          addMark supplement sources (node, t) =
            (.ok (), (Entries.set Key.name (.string text) node, (t.1, s))) := by
  simp only [addMark, Action.bind_apply, Action.read_apply]
  rcases node.integer? Key.offset with _ | offset
  · exact .inl ⟨_, _, _, rfl⟩
  rcases node.integer? Key.length with _ | length
  · exact .inl ⟨_, _, _, rfl⟩
  rcases supplement.sourceFile? t.2 with _ | file
  · exact .inl ⟨_, _, _, rfl⟩
  right
  refine ⟨file, Double.ofInt offset, Double.ofInt length, ?_⟩
  rcases hread : sources.range file (Double.ofInt offset) (Double.ofInt length) t.2 with ⟨e | text, s⟩
  · exact .inl ⟨e, s, rfl, by simp only [Action.bind_apply, Action.second, hread]⟩
  · exact .inr ⟨text, s, rfl, by simp [Action.bind_apply, Action.second, hread]⟩

/-- What is done at a node when the name of its kind has been written. -/
theorem writes_addForKind (guide : Guide σ) (name : Text) (node : Entries Value)
    (t : State (Answers × σ)) :
    let out := addForKind guide.listed name (Entries.set Key.kind (.string name) node, t)
    Writes Key.kind node t.2.1 out.2.1 out.2.2.2.1 := by
  have hnamed : Writes Key.kind node t.2.1 (Entries.set Key.kind (.string name) node) t.2.1 :=
    .strings [(Key.kind, .string name)] (by simp)
  unfold addForKind Guide.listed
  cases guide.supplement with
  | none => exact hnamed
  | some supplement =>
    simp only [Option.map_some]
    split_ifs
    · rcases addDeclaration_cases supplement.listed (Entries.set Key.kind (.string name) node) t with
        hout | ⟨offset, answer, s, hsend, hout⟩
      · rw [hout]
        exact hnamed
      · rw [hout]
        obtain ⟨rfl, rfl⟩ := Prod.mk.inj hsend
        exact .asked name _ rfl
    · rcases addMark_cases supplement.listed guide.sources.second
        (Entries.set Key.kind (.string name) node) t with
        ⟨_, _, _, hout⟩ | ⟨_, _, _, ⟨e, s, hread, hout⟩ | ⟨text, s, hread, hout⟩⟩
      · rw [hout]
        exact hnamed
      · rw [hout]
        obtain ⟨-, rfl⟩ := Prod.mk.inj hread
        exact hnamed
      · rw [hout]
        obtain ⟨-, rfl⟩ := Prod.mk.inj hread
        exact .strings [(Key.kind, .string name), (Key.name, .string text)] (by simp)
    · exact hnamed

variable {guide : Guide σ} {walk : Action (Value × State (Answers × σ)) Unit} {key : Text}
  {node node' : Entries Value} {t t' : State (Answers × σ)} {r : Except Fault Unit}

/-- Resolving leaves the list as it was. -/
theorem resolve_listed {uid : Int} {found : Except Fault (Option Text)} {names : NameCache} {s : σ}
    (h : NameCache.resolve guide.lookup uid (t.1, t.2.2) = (found, (names, s))) :
    NameCache.resolve guide.listed.lookup uid t = (found, (names, (t.2.1, s))) := by
  have hresolve := NameCache.resolve_second guide.lookup uid t.1 t.2.1 t.2.2
  rw [h] at hresolve
  exact hresolve

/-- At a key a walk descends into what stands there, or it writes. -/
theorem labelKey_listed (guide : Guide σ) (walk : Action (Value × State (Answers × σ)) Unit) (key : Text)
    (node : Entries Value) (t : State (Answers × σ)) :
    (∃ value, node.get? key = some value ∧
        labelKey guide.listed walk key (node, t) = atKey key value walk (node, t)) ∨
      Writes key node t.2.1 (labelKey guide.listed walk key (node, t)).2.1
        (labelKey guide.listed walk key (node, t)).2.2.2.1 := by
  have hkept : Writes key node t.2.1 node t.2.1 := .strings [] (by simp)
  cases hget : node.get? key with
  | none =>
    rw [labelKey_of_absent hget]
    exact .inr hkept
  | some value =>
    rcases uint64_or_not value with ⟨uid, rfl⟩ | hnot
    · right
      rcases hrun : NameCache.resolve guide.lookup uid (t.1, t.2.2) with ⟨e | _ | name, names, s⟩
      · rw [labelKey_of_unresolved hget (resolve_listed hrun)]
        exact hkept
      · rw [labelKey_of_unnamed hget (resolve_listed hrun)]
        exact hkept
      · rw [labelKey_of_named hget (resolve_listed hrun)]
        split_ifs with hkey
        · subst hkey
          exact writes_addForKind guide name node (names, (t.2.1, s))
        · exact .strings [(key, .string name)] (by simp)
    · exact .inl ⟨value, rfl, labelKey_of_not_uid hget hnot⟩

/-- What a walk does at a key: it descends into what stands there, or it writes. -/
theorem labelKey_cases (hrun : labelKey guide.listed walk key (node, t) = (r, (node', t'))) :
    (∃ value value', node.get? key = some value ∧ walk (value, t) = (r, (value', t')) ∧
        node' = Entries.set key value' node) ∨
      Writes key node t.2.1 node' t'.2.1 := by
  rcases labelKey_listed guide walk key node t with ⟨value, hget, hat⟩ | hwrites
  · left
    rcases hwalk : walk (value, t) with ⟨r₁, value', t₁⟩
    rw [hrun] at hat
    simp only [atKey, hwalk, Prod.mk.injEq] at hat
    obtain ⟨rfl, rfl, rfl⟩ := hat
    exact ⟨value, value', hget, hwalk, rfl⟩
  · right
    rw [hrun] at hwrites
    exact hwrites

/-! ### Tame trees -/

section Tame

variable {K : Text → Prop}

/-- A tree whose dictionaries have distinct keys, all of `K`. -/
def IsTame (K : Text → Prop) (value : Value) : Prop :=
  value.HasDistinctKeys ∧ ∀ k ∈ value.keysWithin, K k

/-- What stands at keys of a node is tame. -/
def TameAt (K : Text → Prop) (keys : List Text) (node : Entries Value) : Prop :=
  ∀ k ∈ keys, ∀ value, node.get? k = some value → IsTame K value

/-- The items of a tame array are tame. -/
theorem IsTame.of_mem_items {items : List Value} (h : IsTame K (.array items)) {item : Value}
    (hitem : item ∈ items) : IsTame K item :=
  ⟨h.1.of_mem hitem, fun k hk => h.2 k (Value.itemsKeysWithin_of_mem hitem hk)⟩

/-- What stands in a tame dictionary is tame. -/
theorem IsTame.of_mem_entries {entries : Entries Value} (h : IsTame K (.dictionary entries))
    {entry : Text × Value} (hentry : entry ∈ entries) : IsTame K entry.2 :=
  ⟨h.1.2.of_mem hentry,
    fun k hk => h.2 k (Value.entriesKeysWithin_of_mem hentry (List.mem_cons_of_mem _ hk))⟩

/-- A tame dictionary is tame at all its keys. -/
theorem IsTame.tameAt {entries : Entries Value} (h : IsTame K (.dictionary entries)) :
    TameAt K (Entries.keys entries) entries :=
  fun _ _ _ hget => h.of_mem_entries (Entries.mem_of_get? hget)

/-- The keys of a tame dictionary are among those given. -/
theorem IsTame.keys {entries : Entries Value} (h : IsTame K (.dictionary entries)) :
    ∀ k ∈ Entries.keys entries, K k := by
  intro k hk
  obtain ⟨entry, hentry, rfl⟩ := List.mem_map.mp hk
  exact h.2 entry.1 (Value.entriesKeysWithin_of_mem hentry List.mem_cons_self)

/-- A string is tame. -/
theorem isTame_string (text : Text) : IsTame K (.string text) := ⟨trivial, by simp [Value.keysWithin]⟩

end Tame

/-! ### What answers bring in -/

section Incoming

variable {K : Text → Prop} [DecidablePred K] {answers answers' : Answers}

/-- The entries that an answer offers to a node at keys of `K`. -/
def incoming (K : Text → Prop) [DecidablePred K] (answer : Except Fault (Option Value)) : Entries Value :=
  (offered answer).filter fun entry => K entry.1

/-- The dictionaries that answers bring in at keys of `K`. -/
def brought (K : Text → Prop) [DecidablePred K] (answers : Answers) : Nat :=
  (answers.map fun answer => Value.entriesDictionaries (incoming K answer)).sum

/-- The levels that answers bring in at keys of `K`. -/
def broughtLevels (K : Text → Prop) [DecidablePred K] (answers : Answers) : Nat :=
  (answers.map fun answer => Value.entriesDepth (incoming K answer)).sum

/-- What answers bring in at keys of `K` is tame. -/
def TameAnswers (K : Text → Prop) [DecidablePred K] (answers : Answers) : Prop :=
  ∀ answer ∈ answers, ∀ entry ∈ incoming K answer, IsTame K entry.2

/-- No answers bring in nothing. -/
@[simp] theorem brought_nil : brought K [] = 0 := rfl

/-- No answers bring in no levels. -/
@[simp] theorem broughtLevels_nil : broughtLevels K [] = 0 := rfl

/-- What answers bring in is what the first and the later ones bring in. -/
theorem brought_append (first second : Answers) :
    brought K (first ++ second) = brought K first + brought K second := by simp [brought]

/-- The levels that answers bring in are those of the first and the later ones. -/
theorem broughtLevels_append (first second : Answers) :
    broughtLevels K (first ++ second) = broughtLevels K first + broughtLevels K second := by
  simp [broughtLevels]

/-- Further answers take no levels away. -/
theorem broughtLevels_le_of_prefix {first second : Answers} (h : first <+: second) :
    broughtLevels K first ≤ broughtLevels K second := by
  obtain ⟨rest, rfl⟩ := h
  rw [broughtLevels_append]
  exact Nat.le_add_right _ _

/-- The first of tame answers are tame. -/
theorem TameAnswers.of_prefix {first second : Answers} (h : TameAnswers K second) (hp : first <+: second) :
    TameAnswers K first :=
  fun answer hanswer => h answer (hp.subset hanswer)

/-- Answers without dictionaries bring in none. -/
theorem brought_eq_zero
    (h : ∀ answer ∈ answers, ∀ entry ∈ incoming K answer, entry.2.dictionaries = 0) :
    brought K answers = 0 := by
  apply List.sum_eq_zero
  intro n hn
  obtain ⟨answer, hanswer, rfl⟩ := List.mem_map.mp hn
  exact Value.entriesDictionaries_eq_zero (h answer hanswer)

/-- Answers without levels bring in none. -/
theorem broughtLevels_eq_zero
    (h : ∀ answer ∈ answers, ∀ entry ∈ incoming K answer, entry.2.depth = 0) :
    broughtLevels K answers = 0 := by
  apply List.sum_eq_zero
  intro n hn
  obtain ⟨answer, hanswer, rfl⟩ := List.mem_map.mp hn
  exact Value.entriesDepth_eq_zero (h answer hanswer)

/-- What brings in no dictionaries is tame. -/
theorem tameAnswers_of_dictionaries_eq_zero
    (hdistinct : ∀ answer ∈ answers, Value.EntriesHaveDistinctKeys (offered answer))
    (h : ∀ answer ∈ answers, ∀ entry ∈ incoming K answer, entry.2.dictionaries = 0) :
    TameAnswers K answers := by
  intro answer hanswer entry hentry
  refine ⟨(hdistinct answer hanswer).of_mem (List.mem_of_mem_filter hentry), ?_⟩
  rw [Value.keysWithin_of_dictionaries_eq_zero _ (h answer hanswer entry hentry)]
  simp

/-- Writing entries brings in no more dictionaries, at keys of `K`, than are in those entries. -/
theorem dictionariesAmong_setAll_le {keys : List Text} (hkeys : keys.Nodup) (hK : ∀ k ∈ keys, K k)
    (writes node : Entries Value) :
    Value.dictionariesAmong (Entries.setAll writes node) keys ≤
      Value.entriesDictionaries (writes.filter fun entry => K entry.1) +
        Value.dictionariesAmong node keys := by
  induction writes generalizing node with
  | nil => simp
  | cons entry rest ih =>
    have hrest := ih (Entries.set entry.1 entry.2 node)
    rw [Entries.setAll_cons]
    by_cases hentry : K entry.1
    · have hset := Value.dictionariesAmong_set_le hkeys entry.1 entry.2 node
      rw [List.filter_cons_of_pos (by simpa using hentry), Value.entriesDictionaries]
      omega
    · have hnot : entry.1 ∉ keys := fun hmem => hentry (hK _ hmem)
      rw [Value.dictionariesAmong_set_of_notMem hnot] at hrest
      rw [List.filter_cons_of_neg (by simpa using hentry)]
      exact hrest

/-- Strings bring in no dictionaries. -/
theorem entriesDictionaries_of_strings {writes : Entries Value}
    (h : ∀ entry ∈ writes, ∃ text, entry.2 = .string text) : Value.entriesDictionaries writes = 0 := by
  apply Value.entriesDictionaries_eq_zero
  intro entry hentry
  obtain ⟨text, htext⟩ := h entry hentry
  rw [htext]
  rfl

/-- Writing brings in no more dictionaries than the answers do, if any was given. A question is put at
the key of the kind only. -/
theorem Writes.dictionariesAmong_le (h : Writes key node answers node' answers') {keys : List Text}
    (hkeys : keys.Nodup) (hK : ∀ k ∈ keys, K k) :
    answers'.length + Value.dictionariesAmong node' keys + brought K answers ≤
      answers.length + [key].count Key.kind + Value.dictionariesAmong node keys + brought K answers' := by
  cases h with
  | strings writes hstrings =>
    have hle := dictionariesAmong_setAll_le hkeys hK writes node
    rw [entriesDictionaries_of_strings fun e he => hstrings e (List.mem_of_mem_filter he)] at hle
    omega
  | asked name answer hkey =>
    subst hkey
    have hle := dictionariesAmong_setAll_le hkeys hK ((Key.kind, .string name) :: offered answer) node
    have hbrought : Value.entriesDictionaries
        (((Key.kind, .string name) :: offered answer).filter fun entry => K entry.1) =
          brought K [answer] := by
      rw [List.filter_cons]
      split_ifs <;> simp [brought, incoming, Value.entriesDictionaries, Value.dictionaries]
    rw [hbrought] at hle
    rw [brought_append, List.length_append, List.length_singleton, List.count_singleton_self]
    omega

/-- What stands at another key after writing was there, or is a string, or was brought in by an answer. -/
theorem Writes.get? (h : Writes key node answers node' answers') {k : Text} {value : Value}
    (hk : K k) (hget : node'.get? k = some value) :
    node.get? k = some value ∨ (∃ text, value = .string text) ∨
      ∃ answer, answers' = answers ++ [answer] ∧ (k, value) ∈ incoming K answer := by
  cases h with
  | strings writes hstrings =>
    rcases Entries.get?_setAll hget with hold | hmem
    · exact .inl hold
    · exact .inr (.inl (hstrings _ hmem))
  | asked name answer hkey =>
    rcases Entries.get?_setAll hget with hold | hmem
    · exact .inl hold
    · rcases List.mem_cons.mp hmem with heq | hmem
      · exact .inr (.inl ⟨name, (Prod.mk.inj heq).2⟩)
      · exact .inr (.inr ⟨answer, rfl, List.mem_filter.mpr ⟨hmem, by simpa using hk⟩⟩)

/-- Writing leaves what stands at keys of `K` tame. -/
theorem Writes.tameAt (h : Writes key node answers node' answers') (hanswers : TameAnswers K answers')
    {keys : List Text} (hK : ∀ k ∈ keys, K k) (hnode : TameAt K keys node) : TameAt K keys node' := by
  intro k hk value hget
  rcases h.get? (hK k hk) hget with hold | ⟨text, rfl⟩ | ⟨answer, rfl, hmem⟩
  · exact hnode k hk value hold
  · exact isTame_string text
  · exact hanswers answer (by simp) _ hmem

/-- What stands at keys of a node is no deeper than given. -/
def DeepAt (keys : List Text) (depth : Nat) (node : Entries Value) : Prop :=
  ∀ k ∈ keys, ∀ value, node.get? k = some value → value.depth ≤ depth

/-- Writing makes what stands at keys of `K` deeper by no more than the answer brings in, if any was
given. -/
theorem Writes.deepAt (h : Writes key node answers node' answers') {keys : List Text}
    (hK : ∀ k ∈ keys, K k) {depth : Nat} (hnode : DeepAt keys depth node) :
    DeepAt keys (depth + (broughtLevels K answers' - broughtLevels K answers)) node' := by
  intro k hk value hget
  rcases h.get? (hK k hk) hget with hold | ⟨text, rfl⟩ | ⟨answer, rfl, hmem⟩
  · exact Nat.le_add_right_of_le (hnode k hk value hold)
  · exact Nat.zero_le _
  · have hle : value.depth ≤ Value.entriesDepth (incoming K answer) := Value.depth_le_entriesDepth hmem
    have hbrought : broughtLevels K [answer] = Value.entriesDepth (incoming K answer) := by
      simp [broughtLevels]
    rw [broughtLevels_append]
    omega

/-! ### One key -/

/-- After a key has been labelled, what stands at the keys to come is tame, ... -/
theorem tameAt_of_labelKey (hrun : labelKey guide.listed walk key (node, t) = (r, (node', t')))
    (hanswers : TameAnswers K t'.2.1) {rest : List Text} (hnew : key ∉ rest) (hK : ∀ k ∈ rest, K k)
    (hnode : TameAt K rest node) : TameAt K rest node' := by
  rcases labelKey_cases hrun with ⟨value, value', -, -, rfl⟩ | hwrites
  · intro k hk v hget
    rw [Entries.get?_set_of_notMem hk hnew] at hget
    exact hnode k hk v hget
  · exact hwrites.tameAt hanswers hK hnode

/-- ... and it is no deeper than it was, but for what answers have brought in. -/
theorem deepAt_of_labelKey (hrun : labelKey guide.listed walk key (node, t) = (r, (node', t')))
    {rest : List Text} (hnew : key ∉ rest) (hK : ∀ k ∈ rest, K k) {depth : Nat}
    (hnode : DeepAt rest depth node) :
    DeepAt rest (depth + (broughtLevels K t'.2.1 - broughtLevels K t.2.1)) node' := by
  rcases labelKey_cases hrun with ⟨value, value', -, -, rfl⟩ | hwrites
  · intro k hk v hget
    rw [Entries.get?_set_of_notMem hk hnew] at hget
    exact Nat.le_add_right_of_le (hnode k hk v hget)
  · exact hwrites.deepAt hK hnode

end Incoming

/-! ### One level down -/

section Down

variable {guide : Guide σ} {levels : Nat} {t t' : State σ} {r : Except Fault Unit}

/-- An array is labelled by labelling its items. -/
theorem labelValue_of_labelItems {items items' : List Value}
    (h : labelItems (labelValue guide levels) items t = (r, (items', t'))) :
    labelValue guide (levels + 1) (.array items, t) = (r, (.array items', t')) := by
  simp only [labelValue, h]

/-- What comes of an array comes of its items. -/
theorem labelItems_of_labelValue {items : List Value} {value' : Value}
    (h : labelValue guide (levels + 1) (.array items, t) = (r, (value', t'))) :
    ∃ items', value' = .array items' ∧
      labelItems (labelValue guide levels) items t = (r, (items', t')) := by
  rcases hitems : labelItems (labelValue guide levels) items t with ⟨r₁, items', t₁⟩
  rw [labelValue_of_labelItems hitems] at h
  obtain ⟨rfl, rfl, rfl⟩ : r₁ = r ∧ .array items' = value' ∧ t₁ = t' := by simpa using h
  exact ⟨items', rfl, rfl⟩

/-- A dictionary is labelled at its keys, in the order in which they are found. -/
theorem labelValue_of_labelKeys {entries entries' : Entries Value}
    (h : labelKeys guide (labelValue guide levels) (Entries.keys entries) (entries, t) =
      (r, (entries', t'))) :
    labelValue guide (levels + 1) (.dictionary entries, t) = (r, (.dictionary entries', t')) := by
  simp only [labelValue, h]

/-- What comes of a dictionary comes of its keys. -/
theorem labelKeys_of_labelValue {entries : Entries Value} {value' : Value}
    (h : labelValue guide (levels + 1) (.dictionary entries, t) = (r, (value', t'))) :
    ∃ entries', value' = .dictionary entries' ∧
      labelKeys guide (labelValue guide levels) (Entries.keys entries) (entries, t) =
        (r, (entries', t')) := by
  rcases hkeys : labelKeys guide (labelValue guide levels) (Entries.keys entries) (entries, t) with
    ⟨r₁, entries', t₁⟩
  rw [labelValue_of_labelKeys hkeys] at h
  obtain ⟨rfl, rfl, rfl⟩ : r₁ = r ∧ .dictionary entries' = value' ∧ t₁ = t' := by simpa using h
  exact ⟨entries', rfl, rfl⟩

end Down

/-! ### The list grows -/

/-- The same state, in which the list begins with the given answers. -/
def Extends (answers : Answers) (s t : State (Answers × σ)) : Prop := s = t ∧ answers <+: t.2.1

/-- A guide that lists answers only adds to the list. -/
theorem extends_listed (guide : Guide σ) (answers : Answers) :
    guide.listed.Matches (Extends answers) guide.listed where
  resolve := by
    rintro uid s _ ⟨rfl, hs⟩
    refine ⟨rfl, rfl, ?_⟩
    rcases hrun : NameCache.resolve guide.lookup uid (s.1, s.2.2) with ⟨found, names, s'⟩
    rw [resolve_listed hrun]
    exact hs
  supplement := by
    unfold Guide.listed
    cases guide.supplement with
    | none => exact .none
    | some supplement =>
      refine .some ⟨?_, ?_, ?_⟩
      · rintro s _ ⟨rfl, -⟩
        rfl
      · rintro n s _ ⟨rfl, hs⟩
        exact ⟨rfl, hs⟩
      · rintro s _ ⟨rfl, hs⟩
        exact ⟨rfl, rfl, hs.trans (List.prefix_append _ _)⟩
  range := by
    rintro file offset length s _ ⟨rfl, hs⟩
    exact ⟨rfl, rfl, hs⟩

/-- A walk that only adds to the list. -/
def Grows (walk : Action (Value × State (Answers × σ)) Unit) : Prop :=
  ∀ answers, Action.Matches (Action.SameFirst (Extends answers)) walk walk

/-- Labelling a value only adds to the list. -/
theorem grows_labelValue (guide : Guide σ) (levels : Nat) : Grows (labelValue guide.listed levels) :=
  fun answers => matches_labelValue (extends_listed guide answers) levels

/-- After a walk that only adds to the list, the list goes on from where it was. -/
theorem Grows.prefix_of_eq (h : Grows walk) {value value' : Value}
    (hrun : walk (value, t) = (r, (value', t'))) : t.2.1 <+: t'.2.1 := by
  have hgrown := (h t.2.1 (value, t) (value, t) ⟨rfl, rfl, List.prefix_rfl⟩).2.2.2
  rw [hrun] at hgrown
  exact hgrown

/-- So it does after labelling at a key. -/
theorem Grows.prefix_labelKey (h : Grows walk)
    (hrun : labelKey guide.listed walk key (node, t) = (r, (node', t'))) : t.2.1 <+: t'.2.1 := by
  have hgrown := (matches_labelKey (extends_listed guide t.2.1) (h t.2.1) key (node, t) (node, t)
    ⟨rfl, rfl, List.prefix_rfl⟩).2.2.2
  rw [hrun] at hgrown
  exact hgrown

/-- So it does after labelling at keys in turn. -/
theorem Grows.prefix_labelKeys (h : Grows walk) {keys : List Text}
    (hrun : labelKeys guide.listed walk keys (node, t) = (r, (node', t'))) : t.2.1 <+: t'.2.1 := by
  have hgrown := (matches_labelKeys (extends_listed guide t.2.1) (h t.2.1) keys (node, t) (node, t)
    ⟨rfl, rfl, List.prefix_rfl⟩).2.2.2
  rw [hrun] at hgrown
  exact hgrown

/-- So it does after labelling items. -/
theorem Grows.prefix_labelItems (h : Grows walk) {items items' : List Value}
    (hrun : labelItems walk items t = (r, (items', t'))) : t.2.1 <+: t'.2.1 := by
  have hgrown := (matches_labelItems (h t.2.1) items (s := t) (t := t) ⟨rfl, List.prefix_rfl⟩).2.2.2
  rw [hrun] at hgrown
  exact hgrown

/-! ### Without the list -/

/-- A guide with a list is the guide, when the list is forgotten. -/
theorem matches_listed (guide : Guide σ) :
    guide.listed.Matches (Action.SameFirst fun s t => s.2 = t) guide where
  resolve := by
    apply NameCache.matches_resolve
    rintro uid s _ rfl
    exact ⟨rfl, rfl⟩
  supplement := by
    unfold Guide.listed
    cases guide.supplement with
    | none => exact .none
    | some supplement =>
      refine .some ⟨?_, ?_, ?_⟩
      · rintro s t ⟨-, hs⟩
        rw [← hs]
        rfl
      · rintro n s t ⟨hnames, hs⟩
        exact ⟨hnames, congrArg (supplement.setOffset n) hs⟩
      · rintro ⟨_, s⟩ ⟨_, _⟩ ⟨rfl, rfl⟩
        exact ⟨rfl, rfl, rfl⟩
  range := by
    rintro file offset length ⟨_, s⟩ ⟨_, _⟩ ⟨rfl, rfl⟩
    exact ⟨rfl, rfl, rfl⟩

/-- What a run with a list comes to without it. -/
def forgetList (out : Except Fault Unit × (Entries Value × State (Answers × σ))) :
    Except Fault Unit × (Entries Value × State σ) :=
  (out.1, (out.2.1, (out.2.2.1, out.2.2.2.2)))

/-- Labelling with a list of answers is labelling, when the list is forgotten. -/
theorem labelKeys_forgetting_list (guide : Guide σ) (levels : Nat) (keys : List Text)
    (node : Entries Value) (cache : NameCache) (answers : Answers) (s : σ) :
    labelKeys guide (labelValue guide levels) keys (node, (cache, s)) =
      forgetList (labelKeys guide.listed (labelValue guide.listed levels) keys
        (node, (cache, (answers, s)))) := by
  obtain ⟨hresult, htree, hnames, hstate⟩ := matches_labelKeys (matches_listed guide)
    (matches_labelValue (matches_listed guide) levels) keys (node, (cache, (answers, s)))
    (node, (cache, s)) ⟨rfl, rfl, rfl⟩
  exact Prod.ext hresult.symm (Prod.ext htree.symm (Prod.ext hnames.symm hstate.symm))

end Labelling

end SwiftLens
