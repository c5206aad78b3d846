import SwiftLens.Proofs.Inspection.IdentifierTokens
import SwiftLens.Proofs.Labelling.Writings

/-!
# Merging neither removes nor reorders

The dictionaries that a walk enters are those of the tree and those that answers have put in the place of
something still to come. `Visit` is one such dictionary as it is found, and `Visit.Opens` says which others
are entered while the walk is in it. Since the walk writes entries into a dictionary one after the other
(`Visit.writes`), the dictionary at any moment is the one that was found with the first of them written
(`Visit.after`), and what it is left as is the last of these.

Two lists say what the walk does to it. `Visit.Keeps` holds at every moment, also of a walk that fails: the
keys that were found come first and in their order, a kind that has its name keeps it, and a dictionary that
has been left stands as it was left until something else is written in its place. `Visit.Adds` says which
keys have been added when the dictionary is done with. `merging_keeps` is that both hold of every dictionary
that is entered, in a tree that has no key twice and with answers that have none.

That a kind is not written over is in the list of writings: nothing after the name of the kind is written at
its key. The rest goes by the turns before, at and after the kind. Before and after it the keys do not
change, and at it they change by what is written for the kind.
-/

namespace SwiftLens

namespace Labelling

variable {σ : Type}

/-! ### Visits -/

/-- A dictionary as a walk finds it. -/
structure Visit (σ : Type) where
  /-- How many levels the walk may go down from here. -/
  levels : Nat
  /-- What is in the dictionary. -/
  node : Entries Value
  /-- The state of the walk. -/
  state : State σ

namespace Visit

/-- The dictionary that the whole walk is for: `label` is its run. -/
def root (tree : Entries Value) (s : State σ) : Visit σ := ⟨Value.entriesDepth tree + allowance, tree, s⟩

/-- What comes of a visit. -/
def run (guide : Guide σ) (visit : Visit σ) : Except Fault Unit × (Entries Value × State σ) :=
  labelKeys guide (labelValue guide visit.levels) (Entries.keys visit.node) (visit.node, visit.state)

/-- The walk goes through the whole dictionary. -/
def Completes (guide : Guide σ) (visit : Visit σ) : Prop := (visit.run guide).1 = .ok ()

/-- The dictionary as the walk leaves it, failed or not. -/
def left (guide : Guide σ) (visit : Visit σ) : Entries Value := (visit.run guide).2.1

/-- What is written into the dictionary, one entry after the other. -/
def writes (guide : Guide σ) (visit : Visit σ) : Entries Value :=
  writesAmong guide (labelValue guide visit.levels) (Entries.keys visit.node) (visit.node, visit.state)

/-- The dictionary when `n` entries have been written. -/
def after (guide : Guide σ) (visit : Visit σ) (n : Nat) : Entries Value :=
  Entries.setAll ((visit.writes guide).take n) visit.node

/-- The turns of the keys that come before the kind. -/
def upToKind (guide : Guide σ) (visit : Visit σ) : Except Fault Unit × (Entries Value × State σ) :=
  labelKeys guide (labelValue guide visit.levels)
    ((Entries.keys visit.node).takeWhile fun key => key ≠ Key.kind) (visit.node, visit.state)

/-- When it is the turn of the kind, the dictionary is `node` and its kind is an identifier which turns out
to be that of `name`; the walk is then in state `t`. -/
def FindsKind (guide : Guide σ) (visit : Visit σ) (name : Text) (node : Entries Value) (t : State σ) :
    Prop :=
  ∃ uid found, visit.upToKind guide = (.ok (), (node, found)) ∧
    node.get? Key.kind = some (.uint64 uid) ∧
    NameCache.resolve guide.lookup uid found = (.ok (some name), t)

end Visit

/-- The dictionaries that a walk on a value comes to first: the value, or those among its items that are
reached. -/
inductive Reaches (guide : Guide σ) : Nat → Value → State σ → Visit σ → Prop
  | dictionary (levels : Nat) (node : Entries Value) (s : State σ) :
      Reaches guide (levels + 1) (.dictionary node) s ⟨levels, node, s⟩
  | item {levels : Nat} {before before' : List Value} {item : Value} (after : List Value)
      {s t : State σ} {visit : Visit σ}
      (hbefore : labelItems (labelValue guide levels) before s = (.ok (), (before', t)))
      (hitem : Reaches guide levels item t visit) :
      Reaches guide (levels + 1) (.array (before ++ item :: after)) s visit

/-- While the walk is in one dictionary it enters another, which it reaches at the turn of a key. -/
inductive Visit.Opens (guide : Guide σ) (outer inner : Visit σ) : Prop
  | atKey {before after : List Text} {key : Text} {node : Entries Value} {t : State σ} {value : Value}
      (hkeys : Entries.keys outer.node = before ++ key :: after)
      (hbefore : labelKeys guide (labelValue guide outer.levels) before (outer.node, outer.state) =
        (.ok (), (node, t)))
      (hget : node.get? key = some value) (hvalue : Reaches guide outer.levels value t inner)

/-- A walk on a tree enters a dictionary. -/
def Enters (guide : Guide σ) (tree : Entries Value) (s : State σ) : Visit σ → Prop :=
  Relation.ReflTransGen (Visit.Opens guide) (Visit.root tree s)

/-- A value is a dictionary or has it among its items. -/
inductive Holds (node : Entries Value) : Value → Prop
  | here : Holds node (.dictionary node)
  | item {items : List Value} {item : Value} (hmem : item ∈ items) (hitem : Holds node item) :
      Holds node (.array items)

variable {guide : Guide σ} {walk : Action (Value × State σ) Unit}

/-! ### Inside a visit -/

/-- What comes of an item stands among what comes of the items, and the items are not done with before
it is. -/
theorem labelItems_append_cons {before before' : List Value} {item : Value} {s t : State σ}
    (hbefore : labelItems walk before s = (.ok (), (before', t))) (after : List Value) :
    (walk (item, t)).2.1 ∈ (labelItems walk (before ++ item :: after) s).2.1 ∧
      ((labelItems walk (before ++ item :: after) s).1 = .ok () → (walk (item, t)).1 = .ok ()) := by
  induction before generalizing s before' with
  | nil =>
    cases hbefore
    rw [List.nil_append, labelItems]
    rcases walk (item, t) with ⟨e | ⟨⟩, item', u⟩
    · refine ⟨List.mem_cons_self, fun hok => ?_⟩
      cases hok
    · exact ⟨List.mem_cons_self, fun _ => rfl⟩
  | cons first rest ih =>
    rw [labelItems] at hbefore
    rw [List.cons_append, labelItems]
    rcases hfirst : walk (first, s) with ⟨e | ⟨⟩, first', u⟩
    · rw [hfirst] at hbefore
      cases hbefore
    · rw [hfirst] at hbefore
      rcases hrest : labelItems walk rest u with ⟨r, rest', v⟩
      simp only [hrest, Prod.mk.injEq] at hbefore
      obtain ⟨rfl, rfl, rfl⟩ := hbefore
      obtain ⟨hmem, hok⟩ := ih hrest
      exact ⟨List.mem_cons_of_mem _ hmem, hok⟩

namespace Reaches

variable {levels : Nat} {value : Value} {s : State σ} {visit : Visit σ}

/-- A walk reaches no dictionary in an identifier. -/
theorem not_uid (h : Reaches guide levels value s visit) (uid : Int) : value ≠ .uint64 uid := by
  cases h with
  | dictionary => exact nofun
  | item => exact nofun

/-- What a walk leaves of a value holds what it leaves of the dictionaries it reaches, ... -/
theorem holds_left (h : Reaches guide levels value s visit) :
    Holds (visit.left guide) (labelValue guide levels (value, s)).2.1 := by
  induction h with
  | dictionary levels node s => exact .here
  | item after hbefore hitem ih => exact .item (labelItems_append_cons hbefore after).1 ih

/-- ... and a walk that comes to its end has gone through all of them. -/
theorem completes (h : Reaches guide levels value s visit)
    (hok : (labelValue guide levels (value, s)).1 = .ok ()) : visit.Completes guide := by
  induction h with
  | dictionary levels node s => exact hok
  | item after hbefore hitem ih => exact ih ((labelItems_append_cons hbefore after).2 hok)

/-- A dictionary that is reached has no key twice if the value has none. -/
theorem hasDistinctKeys (h : Reaches guide levels value s visit) (hvalue : value.HasDistinctKeys) :
    (Value.dictionary visit.node).HasDistinctKeys := by
  induction h with
  | dictionary levels node s => exact hvalue
  | item after hbefore hitem ih =>
    exact ih (Value.ItemsHaveDistinctKeys.of_mem hvalue (List.mem_append_right _ List.mem_cons_self))

end Reaches

namespace Visit

variable {visit outer inner : Visit σ}

/-- When a dictionary is gone through to its end, so are those that are entered meanwhile. -/
theorem Opens.completes (h : outer.Opens guide inner) (hok : outer.Completes guide) :
    inner.Completes guide := by
  obtain ⟨hkeys, hbefore, hget, hvalue⟩ := h
  rw [Completes, run, hkeys, labelKeys_append, Action.bind_of_ok hbefore] at hok
  obtain ⟨⟨⟩, u, hkey, -⟩ := Action.exists_of_bind_ok (Prod.ext hok rfl)
  rw [labelKey_of_not_uid hget hvalue.not_uid] at hkey
  exact hvalue.completes (Prod.ext_iff.mp hkey).1

/-- A dictionary that is entered has no key twice if the outer one and the answers have none. -/
theorem Opens.hasDistinctKeys (hguide : guide.AnswersDistinctly) (h : outer.Opens guide inner)
    (houter : (Value.dictionary outer.node).HasDistinctKeys) :
    (Value.dictionary inner.node).HasDistinctKeys := by
  obtain @⟨before, -, key, node, t, value, -, hbefore, hget, hvalue⟩ := h
  have hnode := preserves_labelKeys hguide (preserves_labelValue hguide outer.levels) before
    (outer.node, outer.state) houter
  rw [hbefore] at hnode
  exact hvalue.hasDistinctKeys (hnode.2.of_mem (Entries.mem_of_get? hget))

/-- A dictionary is left with all that is written into it. -/
theorem left_eq_setAll (guide : Guide σ) (visit : Visit σ) :
    visit.left guide = Entries.setAll (visit.writes guide) visit.node :=
  labelKeys_writes guide _ _ _

/-- What the turns of keys make of the dictionary. -/
theorem setAll_of_turns {keys : List Text} {node : Entries Value} {t : State σ} {r : Except Fault Unit}
    (h : labelKeys guide (labelValue guide visit.levels) keys (visit.node, visit.state) = (r, (node, t))) :
    Entries.setAll (writesAmong guide (labelValue guide visit.levels) keys (visit.node, visit.state))
      visit.node = node := by
  rw [← labelKeys_writes, h]

/-- After the first writings these have been written. -/
theorem after_length {first later : Entries Value} (hwrites : visit.writes guide = first ++ later) :
    visit.after guide first.length = Entries.setAll first visit.node := by
  rw [after, hwrites, List.take_left]

/-- After more than the first writings the next one has been written, and some of those after it. -/
theorem after_of_lt {entry : Text × Value} {first later : Entries Value} {m : Nat}
    (hwrites : visit.writes guide = first ++ entry :: later) (hm : first.length < m) :
    visit.after guide m =
      Entries.setAll (first ++ entry :: later.take (m - first.length - 1)) visit.node := by
  obtain ⟨count, rfl⟩ : ∃ count, m = first.length + (count + 1) := ⟨m - first.length - 1, by omega⟩
  rw [after, hwrites, List.take_length_add_append, List.take_succ_cons, Nat.add_sub_cancel_left,
    Nat.add_sub_cancel]

/-- What has been written stands until something else is written in its place. -/
theorem get?_after {key : Text} {value : Value} {first later : Entries Value} {m : Nat}
    (hwrites : visit.writes guide = first ++ (key, value) :: later) (hm : first.length < m) :
    (visit.after guide m).get? key = some value ∨
      ∃ i other, first.length < i ∧ i < m ∧ (visit.writes guide)[i]? = some (key, other) := by
  by_cases hmem : key ∈ Entries.keys (later.take (m - first.length - 1))
  · right
    obtain ⟨entry, hentry, rfl⟩ := List.mem_map.mp hmem
    obtain ⟨i, hi⟩ := List.mem_iff_getElem?.mp hentry
    rw [List.getElem?_take] at hi
    split_ifs at hi with hlt
    refine ⟨first.length + (i + 1), entry.2, by omega, by omega, ?_⟩
    rw [hwrites, List.getElem?_append_right (Nat.le_add_right _ _), Nat.add_sub_cancel_left,
      List.getElem?_cons_succ, hi]
  · left
    rw [after_of_lt hwrites hm]
    exact Entries.get?_setAll_append_cons hmem first value visit.node

/-- The writing after the first ones. -/
theorem getElem?_writes {entry : Text × Value} {first later : Entries Value}
    (hwrites : visit.writes guide = first ++ entry :: later) :
    (visit.writes guide)[first.length]? = some entry := by
  rw [hwrites, List.getElem?_append_right (Nat.le_refl _), Nat.sub_self, List.getElem?_cons_zero]

/-- A dictionary that is entered at the turn of a key is written back there. -/
theorem Opens.exists_write (h : outer.Opens guide inner) :
    ∃ first key held later, outer.writes guide = first ++ (key, held) :: later ∧
      Holds (inner.left guide) held := by
  obtain @⟨before, rest, key, node, t, value, hkeys, hbefore, hget, hvalue⟩ := h
  obtain ⟨later, hlater, -⟩ :=
    writesAmong_cons guide (labelValue guide outer.levels) key rest (node, t)
  rw [writesAt_of_not_uid hget hvalue.not_uid] at hlater
  have hwrites := writesAmong_append_of_ok hbefore (key :: rest)
  rw [hlater, ← hkeys] at hwrites
  exact ⟨_, key, _, later, hwrites, hvalue.holds_left⟩

/-! ### The turn of the kind -/

section Kind

variable {name : Text} {node : Entries Value} {t : State σ}

/-- The kind is not among the keys that come before it. -/
theorem kind_notMem_takeWhile (keys : List Text) :
    Key.kind ∉ keys.takeWhile fun key => key ≠ Key.kind := by
  intro hmem
  simpa using List.mem_takeWhile_imp hmem

/-- The keys are those before the kind, the kind, and those after it. -/
theorem exists_afterKind (hdistinct : (Entries.keys visit.node).Nodup)
    (hmem : Key.kind ∈ Entries.keys visit.node) :
    ∃ rest, Entries.keys visit.node =
        ((Entries.keys visit.node).takeWhile fun key => key ≠ Key.kind) ++ Key.kind :: rest ∧
      Key.kind ∉ rest := by
  obtain ⟨before, rest, hkeys, hbefore⟩ := List.eq_append_cons_of_mem hmem
  have htake : (Entries.keys visit.node).takeWhile (fun key => key ≠ Key.kind) = before := by
    rw [hkeys, List.takeWhile_append_of_pos]
    · simp
    · exact fun key hkey => decide_eq_true fun heq => hbefore (heq ▸ hkey)
  rw [hkeys] at hdistinct
  refine ⟨rest, htake.symm ▸ hkeys, ?_⟩
  exact (List.nodup_cons.mp hdistinct.of_append_right).1

/-- The turns before the kind leave the keys as they are. -/
theorem keys_of_upToKind {r : Except Fault Unit} (h : visit.upToKind guide = (r, (node, t))) :
    Entries.keys node = Entries.keys visit.node := by
  have hkeys := preserves_keys_labelKeys guide (labelValue guide visit.levels)
    (kind_notMem_takeWhile (Entries.keys visit.node)) (Entries.keys visit.node)
    (visit.node, visit.state) rfl
  rw [← upToKind, h] at hkeys
  exact hkeys

/-- A kind that is found was there when the dictionary was. -/
theorem FindsKind.mem_keys (h : visit.FindsKind guide name node t) :
    Key.kind ∈ Entries.keys visit.node := by
  obtain ⟨uid, found, hbefore, hget, -⟩ := h
  rw [← keys_of_upToKind hbefore]
  exact Entries.mem_keys_of_get? hget

/-- The name of the kind is written, and after it nothing at the key of the kind. -/
theorem FindsKind.exists_write (hdistinct : (Entries.keys visit.node).Nodup)
    (h : visit.FindsKind guide name node t) :
    ∃ first later, visit.writes guide = first ++ (Key.kind, .string name) :: later ∧
      Entries.setAll first visit.node = node ∧ Key.kind ∉ Entries.keys later := by
  obtain ⟨rest, hkeys, hrest⟩ := exists_afterKind hdistinct h.mem_keys
  obtain ⟨uid, found, hbefore, hget, hresolve⟩ := h
  obtain ⟨later, hlater, hsubset⟩ :=
    writesAmong_cons guide (labelValue guide visit.levels) Key.kind rest (node, found)
  rw [writesAt_of_named hget hresolve, if_pos rfl, List.cons_append] at hlater
  -- after the name comes what is written for the kind, and then what is written at the keys after it
  have hwrites := writesAmong_append_of_ok hbefore (Key.kind :: rest)
  rw [hlater, ← hkeys] at hwrites
  refine ⟨_, _, hwrites, setAll_of_turns hbefore, ?_⟩
  rw [Entries.keys_append, List.mem_append]
  rintro (hmem | hmem)
  · exact kind_notMem_writesForKind _ _ _ _ hmem
  · exact hrest (hsubset hrest hmem)

/-- The keys of a dictionary that is done with are those it had after the turn of the kind; and what was a
string then is the same string. -/
structure TurnedTo (guide : Guide σ) (visit : Visit σ) (node : Entries Value) : Prop where
  keys : Entries.keys (visit.left guide) = Entries.keys node
  strings : ∀ key text, node.get? key = some (.string text) →
    (visit.left guide).get? key = some (.string text)

/-- A string is left as it is. -/
theorem labelValue_string (guide : Guide σ) (levels : Nat) (text : Text) (t : State σ) :
    labelValue guide levels (.string text, t) = (.ok (), (.string text, t)) := by
  cases levels <;> rfl

/-- A dictionary with a kind that is done with has had the turn of the kind. -/
theorem exists_turn (hdistinct : (Entries.keys visit.node).Nodup)
    (hmem : Key.kind ∈ Entries.keys visit.node) (hok : visit.Completes guide) :
    ∃ node found next t, visit.upToKind guide = (.ok (), (node, found)) ∧
      labelKey guide (labelValue guide visit.levels) Key.kind (node, found) = (.ok (), (next, t)) ∧
      visit.TurnedTo guide next := by
  obtain ⟨rest, hkeys, hrest⟩ := exists_afterKind hdistinct hmem
  -- the run is that of the turns before the kind, its own turn, and the turns after it
  obtain ⟨out, hrun⟩ : ∃ out, visit.run guide = (.ok (), out) := ⟨_, Prod.ext hok rfl⟩
  have hleft : visit.left guide = out.1 := by rw [left, hrun]
  rw [run, hkeys, labelKeys_append] at hrun
  obtain ⟨⟨⟩, ⟨node, found⟩, hbefore, hrun⟩ := Action.exists_of_bind_ok hrun
  rw [labelKeys] at hrun
  obtain ⟨⟨⟩, ⟨next, t⟩, hkind, hrun⟩ := Action.exists_of_bind_ok hrun
  refine ⟨node, found, next, t, hbefore, hkind, ?_, ?_⟩
  · have h := preserves_keys_labelKeys guide (labelValue guide visit.levels) hrest (Entries.keys next)
      (next, t) rfl
    rw [hrun] at h
    rw [hleft]
    exact h
  · intro key text hget
    have hwalk : ∀ t, (labelValue guide visit.levels (.string text, t)).2.1 = .string text :=
      fun t => by rw [labelValue_string]
    have h := preserves_string_labelKeys guide hrest hwalk key (next, t) hget
    rw [hrun] at h
    rw [hleft]
    exact h

/-- What is done for a kind, in a dictionary that is done with. -/
theorem FindsKind.turned (hdistinct : (Entries.keys visit.node).Nodup)
    (h : visit.FindsKind guide name node t) (hok : visit.Completes guide) :
    (addForKind guide name (Entries.set Key.kind (.string name) node, t)).1 = .ok () ∧
      visit.TurnedTo guide
        (Entries.setAll (writesForKind guide name (Entries.set Key.kind (.string name) node) t.2)
          (Entries.set Key.kind (.string name) node)) := by
  obtain ⟨node', found', next, t', hbefore', hkind, hturned⟩ := exists_turn hdistinct h.mem_keys hok
  obtain ⟨uid, found, hbefore, hget, hresolve⟩ := h
  rw [hbefore] at hbefore'
  cases hbefore'
  rw [labelKey_of_named hget hresolve, if_pos rfl] at hkind
  rw [← addForKind_writes, hkind]
  exact ⟨rfl, hturned⟩

/-- To write the name of a kind adds no key. -/
theorem FindsKind.keys_named (h : visit.FindsKind guide name node t) :
    Entries.keys (Entries.set Key.kind (.string name) node) = Entries.keys visit.node := by
  obtain ⟨uid, found, hbefore, hget, -⟩ := h
  rw [Entries.keys_set_of_get? hget, keys_of_upToKind hbefore]

/-- In a dictionary that is done with, what was written for the kind has added its keys. -/
theorem FindsKind.keys_left (hdistinct : (Entries.keys visit.node).Nodup)
    (h : visit.FindsKind guide name node t) (hok : visit.Completes guide) {written : Entries Value}
    (hwritten : writesForKind guide name (Entries.set Key.kind (.string name) node) t.2 = written)
    (hnodup : (Entries.keys written).Nodup) :
    Entries.keys (visit.left guide) =
      Entries.keys visit.node ++ (Entries.keys written).filter (· ∉ Entries.keys visit.node) := by
  have hkeys := (h.turned hdistinct hok).2.keys
  rw [hwritten, Entries.keys_setAll hnodup, h.keys_named] at hkeys
  exact hkeys

end Kind

/-! ### What is kept and what is added -/

/-- What holds of a dictionary at every moment from when the walk enters it, whatever becomes of the
walk. -/
structure Keeps (guide : Guide σ) (visit : Visit σ) : Prop where
  /-- It is left with all that is written into it. -/
  written : visit.left guide = visit.after guide (visit.writes guide).length
  /-- When it is the turn of a key, it is as it is after some of the writings. -/
  turns : ∀ before rest node t, Entries.keys visit.node = before ++ rest →
    labelKeys guide (labelValue guide visit.levels) before (visit.node, visit.state) =
      (.ok (), (node, t)) → ∃ n, visit.after guide n = node
  /-- The keys it was found with come first, in their order. -/
  inOrder : ∀ n, Entries.keys visit.node <+: Entries.keys (visit.after guide n)
  /-- A kind that has a name is written as that name, and stays so. -/
  named : ∀ name node t, visit.FindsKind guide name node t →
    ∃ n, visit.after guide n = node ∧ (visit.writes guide)[n]? = some (Key.kind, .string name) ∧
      ∀ m, n < m → (visit.after guide m).get? Key.kind = some (.string name)
  /-- A dictionary inside that has been left stands as it was left, until something else is written in the
  place of what holds it. -/
  inside : ∀ inner, visit.Opens guide inner →
    ∃ n key held, (visit.writes guide)[n]? = some (key, held) ∧ Holds (inner.left guide) held ∧
      ∀ m, n < m → (visit.after guide m).get? key = some held ∨
        ∃ i other, n < i ∧ i < m ∧ (visit.writes guide)[i]? = some (key, other)

/-- The keys of a reply that a dictionary does not have, but for the kind, in the order of the reply. -/
def lacking (node : Entries Value) : Option Value → List Text
  | some (.dictionary reply) =>
    (Entries.keys reply).filter fun key => key ≠ Key.kind ∧ node.has key = false
  | _ => []

/-- The keys that have been added to a dictionary which is done with. -/
structure Adds (guide : Guide σ) (visit : Visit σ) : Prop where
  /-- None, if its kind is not an identifier that has a name. -/
  unnamed : (∀ name node t, ¬ visit.FindsKind guide name node t) →
    Entries.keys (visit.left guide) = Entries.keys visit.node
  /-- None, if there is no supplement or the kind is neither that of a declaration nor that of a mark. -/
  plain : ∀ name node t, visit.FindsKind guide name node t →
    (∀ supplement ∈ guide.supplement, ¬ name.startsWith Kind.declaration ∧ name ≠ Kind.mark) →
    Entries.keys (visit.left guide) = Entries.keys visit.node
  /-- None, if a declaration does not say where its name is. -/
  unasked : ∀ name node t, visit.FindsKind guide name node t → name.startsWith Kind.declaration →
    (∀ offset, node.integer? Key.nameOffset = some offset → offset < 0) →
    Entries.keys (visit.left guide) = Entries.keys visit.node
  /-- Those that a declaration lacks of the reply, if it is asked about. -/
  answered : ∀ supplement ∈ guide.supplement, ∀ name node t, visit.FindsKind guide name node t →
    name.startsWith Kind.declaration → ∀ offset, node.integer? Key.nameOffset = some offset → 0 ≤ offset →
    ∃ reply u, supplement.send (supplement.setOffset offset t.2) = (.ok reply, u) ∧
      Entries.keys (visit.left guide) = Entries.keys visit.node ++ lacking visit.node reply
  /-- That of the name, if a mark lacks it; and its name is the text that stands where the mark is. -/
  marked : ∀ supplement ∈ guide.supplement, ∀ node t, visit.FindsKind guide Kind.mark node t →
    ∃ offset length file text u, node.integer? Key.offset = some offset ∧
      node.integer? Key.length = some length ∧ supplement.sourceFile? t.2 = some file ∧
      guide.sources.range file (Double.ofInt offset) (Double.ofInt length) t.2 = (.ok text, u) ∧
      (visit.left guide).get? Key.name = some (.string text) ∧
      Entries.keys (visit.left guide) =
        if Key.name ∈ Entries.keys visit.node then Entries.keys visit.node
        else Entries.keys visit.node ++ [Key.name]

/-- Every dictionary without a key twice is kept as `Visit.Keeps` says. -/
theorem keeps (hdistinct : (Entries.keys visit.node).Nodup) : visit.Keeps guide where
  written := by rw [after, List.take_length, left_eq_setAll]
  turns before rest node t hkeys hbefore := by
    have hwrites := writesAmong_append_of_ok hbefore rest
    rw [← hkeys] at hwrites
    exact ⟨_, (after_length hwrites).trans (setAll_of_turns hbefore)⟩
  inOrder n := Entries.keys_isPrefix_setAll _ _
  named name node t h := by
    obtain ⟨first, later, hwrites, hfirst, hlater⟩ := h.exists_write hdistinct
    refine ⟨first.length, (after_length hwrites).trans hfirst, getElem?_writes hwrites, fun m hm => ?_⟩
    have htaken : Key.kind ∉ Entries.keys (later.take (m - first.length - 1)) :=
      fun hmem => hlater (List.map_subset Prod.fst (List.take_subset _ later) hmem)
    rw [after_of_lt hwrites hm]
    exact Entries.get?_setAll_append_cons htaken first _ visit.node
  inside inner h := by
    obtain ⟨first, key, held, later, hwrites, hheld⟩ := h.exists_write
    exact ⟨first.length, key, held, getElem?_writes hwrites, hheld, fun m hm => get?_after hwrites hm⟩

/-- To a dictionary whose kind gets no name no key is added. -/
theorem keys_left_of_unnamed (hdistinct : (Entries.keys visit.node).Nodup) (hok : visit.Completes guide)
    (h : ∀ name node t, ¬ visit.FindsKind guide name node t) :
    Entries.keys (visit.left guide) = Entries.keys visit.node := by
  by_cases hmem : Key.kind ∈ Entries.keys visit.node
  · obtain ⟨node, found, next, t, hbefore, hkind, hturned⟩ := exists_turn hdistinct hmem hok
    have hsame : Entries.keys
        (labelKey guide (labelValue guide visit.levels) Key.kind (node, found)).2.1 = Entries.keys node :=
      keys_labelKey fun _ uid name t' hget hresolve =>
        h name node t' ⟨uid, found, hbefore, hget, hresolve⟩
    rw [hkind] at hsame
    rw [hturned.keys, ← keys_of_upToKind hbefore]
    exact hsame
  · exact preserves_keys_labelKeys guide (labelValue guide visit.levels) hmem _
      (visit.node, visit.state) rfl

/-- To a dictionary for whose kind nothing is written no key is added. -/
theorem FindsKind.keys_left_of_nil (hdistinct : (Entries.keys visit.node).Nodup) {name : Text}
    {node : Entries Value} {t : State σ} (h : visit.FindsKind guide name node t)
    (hok : visit.Completes guide)
    (hnone : writesForKind guide name (Entries.set Key.kind (.string name) node) t.2 = []) :
    Entries.keys (visit.left guide) = Entries.keys visit.node := by
  rw [h.keys_left hdistinct hok hnone List.nodup_nil]
  exact List.append_nil _

/-- What a reply offers adds the keys that are lacking. -/
theorem filter_keys_offered (node : Entries Value) (reply : Option Value) :
    (Entries.keys (offered (.ok reply))).filter (· ∉ Entries.keys node) = lacking node reply := by
  match reply with
  | some (.dictionary reply) =>
    have hkeys : Entries.keys (reply.filter fun entry => entry.1 ≠ Key.kind) =
        (Entries.keys reply).filter (· ≠ Key.kind) := by
      rw [Entries.keys, Entries.keys, List.filter_map]
      rfl
    rw [offered, lacking, hkeys, List.filter_filter]
    apply List.filter_congr
    intro key _
    rw [Bool.eq_iff_iff, Bool.and_eq_true, decide_eq_true_eq, decide_eq_true_eq, decide_eq_true_eq,
      ← Entries.has_iff_mem_keys, Bool.not_eq_true]
    exact and_comm
  | none => rfl
  | some .null | some (.bool _) | some (.int64 _) | some (.uint64 _) | some (.double _)
  | some (.string _) | some (.data _) | some (.array _) => rfl

/-- Every dictionary without a key twice that is done with is added to as `Visit.Adds` says. -/
theorem adds (hguide : guide.AnswersDistinctly) (hdistinct : (Entries.keys visit.node).Nodup)
    (hok : visit.Completes guide) : visit.Adds guide where
  unnamed h := keys_left_of_unnamed hdistinct hok h
  plain name node t h hplain := by
    apply h.keys_left_of_nil hdistinct hok
    unfold writesForKind
    split
    · rfl
    · next supplement hsupplement =>
      obtain ⟨hdeclaration, hmark⟩ := hplain supplement hsupplement
      rw [if_neg hdeclaration, if_neg hmark]
  unasked name node t h hdeclaration hunplaced := by
    apply h.keys_left_of_nil hdistinct hok
    unfold writesForKind
    split
    · rfl
    · rw [if_pos hdeclaration, writesForDeclaration, Entries.integer?_set_of_ne (by decide)]
      split
      · rfl
      · next offset hoffset => rw [if_pos (hunplaced offset hoffset)]
  answered supplement hsupplement name node t h hdeclaration offset hoffset hplaced := by
    obtain ⟨hadded, -⟩ := h.turned hdistinct hok
    rw [addForKind_of_declaration hsupplement hdeclaration] at hadded
    rw [← Entries.integer?_set_of_ne (by decide : Key.kind ≠ Key.nameOffset) (.string name)] at hoffset
    obtain ⟨reply, u, hsend, hoffered⟩ :=
      writesForDeclaration_of_ok hadded hoffset (Int.not_lt.mpr hplaced)
    rw [← writesForKind_of_declaration hsupplement hdeclaration] at hoffered
    refine ⟨reply, u, hsend, ?_⟩
    rw [h.keys_left hdistinct hok hoffered, filter_keys_offered]
    apply nodup_keys_offered
    intro tree htree
    rw [htree] at hsend
    exact hguide supplement hsupplement _ _ tree hsend
  marked supplement hsupplement node t h := by
    obtain ⟨hadded, hturned⟩ := h.turned hdistinct hok
    rw [addForKind_mark hsupplement] at hadded
    rw [writesForKind_mark hsupplement] at hturned
    rcases addMark_or_fails supplement guide.sources (Entries.set Key.kind (.string Kind.mark) node) t with
      ⟨offset, length, file, text, u, hoffset, hlength, hfile, htext, hwritten, -⟩ | ⟨e, u, -, hout⟩
    · rw [Entries.integer?_set_of_ne (by decide)] at hoffset hlength
      rw [hwritten, Entries.setAll_cons, Entries.setAll_nil] at hturned
      refine ⟨offset, length, file, text, u, hoffset, hlength, hfile, htext, ?_, ?_⟩
      · apply hturned.strings
        rw [Entries.get?_set, if_pos rfl]
      · rw [hturned.keys, Entries.keys_set, h.keys_named]
    · rw [hout] at hadded
      cases hadded

end Visit

/-- Every dictionary that is entered has no key twice. -/
theorem Enters.hasDistinctKeys (hguide : guide.AnswersDistinctly) {tree : Entries Value} {s : State σ}
    (htree : (Value.dictionary tree).HasDistinctKeys) {visit : Visit σ}
    (h : Enters guide tree s visit) : (Value.dictionary visit.node).HasDistinctKeys := by
  induction h with
  | refl => exact htree
  | tail _ hopens ih => exact hopens.hasDistinctKeys hguide ih

/-- A walk that comes to its end is done with every dictionary it entered. -/
theorem Enters.completes {tree : Entries Value} {s : State σ} {visit : Visit σ}
    (h : Enters guide tree s visit) (hok : (label guide (tree, s)).1 = .ok ()) :
    visit.Completes guide := by
  induction h with
  | refl => exact hok
  | tail _ hopens ih => exact hopens.completes ih

/-- Every dictionary that a walk enters keeps at every moment the keys it was found with, in their order and
before all others, and the name of its kind once it has it; this also when the walk fails. When the walk is
done with it, the keys that have been added are those of the answer or that of the name of a mark, and it is
done with all of them when it comes to its end. -/
theorem merging_keeps (hguide : guide.AnswersDistinctly) {tree : Entries Value} {s : State σ}
    (htree : (Value.dictionary tree).HasDistinctKeys) {visit : Visit σ}
    (hvisit : Enters guide tree s visit) :
    visit.Keeps guide ∧ (visit.Completes guide → visit.Adds guide) ∧
      ((label guide (tree, s)).1 = .ok () → visit.Completes guide) := by
  have hdistinct : (Entries.keys visit.node).Nodup := (hvisit.hasDistinctKeys hguide htree).1
  exact ⟨Visit.keeps hdistinct, Visit.adds hguide hdistinct, hvisit.completes⟩

/-- A guide that knows the kinds of a class and of a mark, and answers that there is a mark inside. -/
def outlineGuide : Guide Unit where
  lookup uid s :=
    (.ok (if uid = leastUid then some "source.lang.swift.decl.class"
      else if uid = leastUid + 1 then some Kind.mark else none), s)
  supplement := some
    { sourceFile? := fun _ => some "C.swift"
      setOffset := fun _ s => s
      send := pure (some (.dictionary
        [(Key.kind, .null), (Key.name, .string "C"), ("key.substructure", .array [.dictionary
          [(Key.offset, .int64 11), (Key.kind, .uint64 (leastUid + 1)), (Key.length, .int64 11)]])])) }
  sources := Sources.ofTexts [("C.swift", "class C\n// MARK: Tests")]

/-- A class as it is found. -/
def plainClass : Entries Value :=
  [(Key.kind, .uint64 leastUid), (Key.nameOffset, .int64 6), ("key.substructure", .null)]

/-- The mark that comes with the answer about the class, as it is found. -/
def broughtMark : Visit Unit where
  levels := allowance - 2
  node := [(Key.offset, .int64 11), (Key.kind, .uint64 (leastUid + 1)), (Key.length, .int64 11)]
  state := ([(leastUid, "source.lang.swift.decl.class")], ())

/-- The mark in the answer is entered. -/
theorem enters_broughtMark : Enters outlineGuide plainClass ([], ()) broughtMark := by
  let node : Entries Value := [(Key.kind, .string "source.lang.swift.decl.class"), (Key.nameOffset, .int64 6),
    ("key.substructure", .array [.dictionary broughtMark.node]), (Key.name, .string "C")]
  have hbefore : labelKeys outlineGuide (labelValue outlineGuide (Visit.root plainClass ([], ())).levels)
      [Key.kind, Key.nameOffset] (plainClass, ([], ())) = (.ok (), (node, broughtMark.state)) := rfl
  have hreaches : Reaches outlineGuide (Visit.root plainClass ([], ())).levels
      (.array ([] ++ [.dictionary broughtMark.node])) broughtMark.state broughtMark :=
    .item [] rfl (.dictionary _ _ _)
  exact .single (.atKey rfl hbefore rfl hreaches)

/-- A mark that an answer brings in is entered and given its text. -/
theorem merging_keeps_brought_mark :
    broughtMark.left outlineGuide = [(Key.offset, .int64 11), (Key.kind, .string Kind.mark),
        (Key.length, .int64 11), (Key.name, .string "MARK: Tests")] ∧
      broughtMark.Keeps outlineGuide ∧ broughtMark.Adds outlineGuide := by
  have hguide : outlineGuide.AnswersDistinctly := by
    rintro _ ⟨⟩ s t reply hsend
    obtain ⟨hreply, -⟩ := Prod.mk.inj hsend
    cases hreply
    refine ⟨?_, trivial, trivial, ⟨⟨?_, trivial, trivial, trivial, trivial⟩, trivial⟩, trivial⟩
    · show [Key.kind, Key.name, "key.substructure"].Nodup
      decide
    · show [Key.offset, Key.kind, Key.length].Nodup
      decide
  have htree : (Value.dictionary plainClass).HasDistinctKeys := by
    refine ⟨?_, trivial, trivial, trivial, trivial⟩
    show [Key.kind, Key.nameOffset, "key.substructure"].Nodup
    decide
  obtain ⟨hkeeps, hadds, -⟩ := merging_keeps hguide htree enters_broughtMark
  exact ⟨rfl, hkeeps, hadds rfl⟩

end Labelling

end SwiftLens
