import SwiftLens.Labelling
import SwiftLens.Proofs.Labelling.Names
import SwiftLens.Proofs.Tree.Parts

/-!
# Labelling in reading order

Without a supplement, labelling does one thing after the other: it resolves the identifiers under keys in
reading order (`keyedUids`) and writes each name in its place. A look-up that fails ends it there. So a
walk is the row of its identifiers resolved in turn (`inTurn`), and the tree it leaves is the tree with
as many of them named as have been resolved (`renameFirst`), which is all of them, `rename`, when none
failed. `label_inTurn` says this for all look-ups that give the names of `f` when they give an answer.

`rename` replaces what stands directly under a key and goes through everything else, so it keeps every
key, every length and every order.
-/

namespace SwiftLens

namespace Labelling

open NameCache

variable {σ : Type} {f : Int → Option Text}

/-! ### Renaming a tree -/

/-- The name that an unsigned integer under a key gives way to. -/
def name? (f : Int → Option Text) (uid : Int) : Option Text := if uid < leastUid then none else f uid

/-- An identifier as it stands under a key once it has been named; anything else is left alone. -/
def nameUid (f : Int → Option Text) : Value → Value
  | .uint64 uid => match name? f uid with | some name => .string name | none => .uint64 uid
  | value => value

mutual

/-- The tree with the name of each identifier in its place, wherever it stands under a key. -/
def rename (f : Int → Option Text) : Value → Value
  | .array items => .array (renameItems f items)
  | .dictionary entries => .dictionary (renameEntries f entries)
  | leaf => leaf

/-- Items renamed inside. -/
def renameItems (f : Int → Option Text) : List Value → List Value
  | [] => []
  | item :: rest => rename f item :: renameItems f rest

/-- Entries renamed inside, and named where they are identifiers. -/
def renameEntries (f : Int → Option Text) : List (Text × Value) → List (Text × Value)
  | [] => []
  | (key, value) :: rest => (key, nameUid f (rename f value)) :: renameEntries f rest

end

/-- The unsigned integer that a value is, if it is one. -/
def ownUid : Value → List Int
  | .uint64 uid => [uid]
  | _ => []

mutual

/-- The unsigned integers that stand under keys, in reading order. -/
def keyedUids : Value → List Int
  | .array items => keyedUidsOfItems items
  | .dictionary entries => keyedUidsOfEntries entries
  | _ => []

/-- The unsigned integers that stand under keys inside items. -/
def keyedUidsOfItems : List Value → List Int
  | [] => []
  | item :: rest => keyedUids item ++ keyedUidsOfItems rest

/-- The unsigned integers that stand under keys among entries or inside them. -/
def keyedUidsOfEntries : List (Text × Value) → List Int
  | [] => []
  | (_, value) :: rest => (ownUid value ++ keyedUids value) ++ keyedUidsOfEntries rest

end

/-- A value is an unsigned integer or it is not. -/
theorem uint64_or_not (value : Value) : (∃ uid, value = .uint64 uid) ∨ ∀ uid, value ≠ .uint64 uid := by
  cases value with
  | uint64 uid => exact .inl ⟨uid, rfl⟩
  | _ => exact .inr fun uid h => Value.noConfusion h

/-- Renaming makes no identifier out of something else. -/
theorem nameUid_rename_of_not_uid {f : Int → Option Text} {value : Value}
    (h : ∀ uid, value ≠ .uint64 uid) : nameUid f (rename f value) = rename f value := by
  cases value with
  | uint64 uid => exact absurd rfl (h uid)
  | _ => rfl

/-! ### Renaming the beginning of a tree -/

mutual

/-- The tree with the first `n` unsigned integers under keys renamed. -/
def renameFirst (f : Int → Option Text) (n : Nat) : Value → Value
  | .array items => .array (renameFirstItems f n items)
  | .dictionary entries => .dictionary (renameFirstEntries f n entries)
  | leaf => leaf

/-- Items with the first `n` unsigned integers under keys renamed. -/
def renameFirstItems (f : Int → Option Text) (n : Nat) : List Value → List Value
  | [] => []
  | item :: rest => renameFirst f n item :: renameFirstItems f (n - (keyedUids item).length) rest

/-- Entries with the first `n` unsigned integers under keys renamed. -/
def renameFirstEntries (f : Int → Option Text) (n : Nat) : List (Text × Value) → List (Text × Value)
  | [] => []
  | (key, value) :: rest =>
    (key, if n = 0 then value else nameUid f (renameFirst f n value)) ::
      renameFirstEntries f (n - (ownUid value ++ keyedUids value).length) rest

end

/-- What stands under a key with the first `n` unsigned integers renamed. -/
def nameFirst (f : Int → Option Text) (n : Nat) (value : Value) : Value :=
  if n = 0 then value else nameUid f (renameFirst f n value)

/-- The first entry is named as far as there are identifiers left to name, and the rest with those it leaves. -/
theorem renameFirstEntries_cons (n : Nat) (key : Text) (value : Value) (rest : Entries Value) :
    renameFirstEntries f n ((key, value) :: rest) = (key, nameFirst f n value) ::
      renameFirstEntries f (n - (ownUid value ++ keyedUids value).length) rest := by
  rw [renameFirstEntries]
  rfl

mutual

/-- With no identifiers to name a tree stays as it is. -/
theorem renameFirst_zero : (value : Value) → renameFirst f 0 value = value
  | .null | .bool _ | .int64 _ | .uint64 _ | .double _ | .string _ | .data _ => rfl
  | .array items => congrArg Value.array (renameFirstItems_zero items)
  | .dictionary entries => congrArg Value.dictionary (renameFirstEntries_zero entries)

/-- With no identifiers to name items stay as they are. -/
theorem renameFirstItems_zero : (items : List Value) → renameFirstItems f 0 items = items
  | [] => rfl
  | item :: rest => by
      rw [renameFirstItems, renameFirst_zero item, Nat.zero_sub, renameFirstItems_zero rest]

/-- When none of them is renamed, entries stay as they are. -/
theorem renameFirstEntries_zero : (entries : List (Text × Value)) → renameFirstEntries f 0 entries = entries
  | [] => rfl
  | (key, value) :: rest => by
      rw [renameFirstEntries, if_pos rfl, Nat.zero_sub, renameFirstEntries_zero rest]

end

/-- With no identifiers to name, what stands under a key stays as it is. -/
@[simp] theorem nameFirst_zero (value : Value) : nameFirst f 0 value = value := rfl

/-- What was no identifier is not one after renaming. -/
theorem nameUid_renameFirst_of_not_uid {value : Value} (h : ∀ uid, value ≠ .uint64 uid) (n : Nat) :
    nameUid f (renameFirst f n value) = renameFirst f n value := by
  cases value with
  | uint64 uid => exact absurd rfl (h uid)
  | _ => rfl

/-- Below a key that holds no identifier itself, what is renamed is inside. -/
theorem nameFirst_of_not_uid {value : Value} (h : ∀ uid, value ≠ .uint64 uid) (n : Nat) :
    nameFirst f n value = renameFirst f n value := by
  unfold nameFirst
  split_ifs with hn
  · rw [hn, renameFirst_zero]
  · exact nameUid_renameFirst_of_not_uid h n

/-- An identifier under a key is renamed when there is one to rename. -/
theorem nameFirst_uint64 {n : Nat} (hn : 0 < n) (uid : Int) :
    nameFirst f n (.uint64 uid) = nameUid f (.uint64 uid) :=
  if_neg (Nat.ne_of_gt hn)

/-- With as many identifiers to name as stand under a key, all of it is named. -/
theorem nameFirst_of_le {n : Nat} {value : Value}
    (hinside : (keyedUids value).length ≤ n → renameFirst f n value = rename f value)
    (h : (ownUid value ++ keyedUids value).length ≤ n) :
    nameFirst f n value = nameUid f (rename f value) := by
  rcases uint64_or_not value with ⟨uid, rfl⟩ | hnot
  · exact nameFirst_uint64 h uid
  · rw [List.length_append] at h
    rw [nameFirst_of_not_uid hnot, nameUid_rename_of_not_uid hnot]
    exact hinside (by omega)

mutual

/-- With as many identifiers to name as a tree has, all of it is renamed. -/
theorem renameFirst_of_le : (value : Value) → ∀ {n : Nat}, (keyedUids value).length ≤ n →
    renameFirst f n value = rename f value
  | .null, _, _ | .bool _, _, _ | .int64 _, _, _ | .uint64 _, _, _ | .double _, _, _ | .string _, _, _
  | .data _, _, _ => rfl
  | .array items, _, h => congrArg Value.array (renameFirstItems_of_le items h)
  | .dictionary entries, _, h => congrArg Value.dictionary (renameFirstEntries_of_le entries h)

/-- With as many identifiers to name as items have, all of them are renamed. -/
theorem renameFirstItems_of_le : (items : List Value) → ∀ {n : Nat},
    (keyedUidsOfItems items).length ≤ n → renameFirstItems f n items = renameItems f items
  | [], _, _ => rfl
  | item :: rest, n, h => by
      rw [keyedUidsOfItems, List.length_append] at h
      rw [renameFirstItems, renameItems, renameFirst_of_le item (by omega),
        renameFirstItems_of_le rest (by omega)]

/-- When there are no more than `n` unsigned integers under keys, all are renamed. -/
theorem renameFirstEntries_of_le : (entries : List (Text × Value)) → ∀ {n : Nat},
    (keyedUidsOfEntries entries).length ≤ n → renameFirstEntries f n entries = renameEntries f entries
  | [], _, _ => rfl
  | (key, value) :: rest, n, h => by
      rw [keyedUidsOfEntries, List.length_append] at h
      rw [renameFirstEntries_cons, renameEntries,
        nameFirst_of_le (fun hle => renameFirst_of_le value hle) (by omega),
        renameFirstEntries_of_le rest (by omega)]

end

/-! ### Identifiers in turn -/

/-- How far a row of identifiers has been resolved: how many of them, with what result, and in which
state. -/
structure Progress (σ : Type) where
  count : Nat
  result : Except Fault Unit
  state : State σ

/-- The progress when `n` more identifiers have gone before. -/
def Progress.after (n : Nat) (p : Progress σ) : Progress σ := ⟨n + p.count, p.result, p.state⟩

/-- Resolve identifiers in turn until one of them fails. -/
def inTurn (lookup : Int → Action σ (Option Text)) : List Int → State σ → Progress σ
  | [], s => ⟨0, .ok (), s⟩
  | uid :: rest, s =>
    match resolve lookup uid s with
    | (.error e, t) => ⟨0, .error e, t⟩
    | (.ok _, t) => (inTurn lookup rest t).after 1

section Row

variable {lookup : Int → Action σ (Option Text)} {uids : List Int} {s t : State σ}

/-- After an identifier that is resolved the others follow. -/
theorem inTurn_cons_of_ok {uid : Int} {name? : Option Text} (h : resolve lookup uid s = (.ok name?, t))
    (rest : List Int) : inTurn lookup (uid :: rest) s = (inTurn lookup rest t).after 1 := by
  rw [inTurn, h]

/-- An identifier that fails ends the row. -/
theorem inTurn_cons_of_error {uid : Int} {e : Fault} (h : resolve lookup uid s = (.error e, t))
    (rest : List Int) : inTurn lookup (uid :: rest) s = ⟨0, .error e, t⟩ := by
  rw [inTurn, h]

/-- A row that came to its end has all its identifiers resolved. -/
theorem count_of_ok (h : (inTurn lookup uids s).result = .ok ()) :
    (inTurn lookup uids s).count = uids.length := by
  induction uids generalizing s with
  | nil => rfl
  | cons uid rest ih =>
    rcases hrun : resolve lookup uid s with ⟨e | name?, t⟩
    · rw [inTurn_cons_of_error hrun] at h
      cases h
    · rw [inTurn_cons_of_ok hrun] at h ⊢
      rw [Progress.after, ih h, List.length_cons, Nat.add_comm]

/-- A row that did not come to its end stopped at one of its identifiers: those before it are resolved,
and it fails. -/
theorem stop_of_error {e : Fault} (h : (inTurn lookup uids s).result = .error e) :
    ∃ uid t, uids[(inTurn lookup uids s).count]? = some uid ∧
      inTurn lookup (uids.take (inTurn lookup uids s).count) s =
        ⟨(inTurn lookup uids s).count, .ok (), t⟩ ∧
      resolve lookup uid t = (.error e, (inTurn lookup uids s).state) := by
  induction uids generalizing s with
  | nil => cases h
  | cons uid rest ih =>
    rcases hrun : resolve lookup uid s with ⟨e' | name?, t⟩
    · rw [inTurn_cons_of_error hrun] at h ⊢
      obtain rfl : e' = e := Except.error.inj h
      exact ⟨uid, s, rfl, rfl, hrun⟩
    · rw [inTurn_cons_of_ok hrun] at h ⊢
      obtain ⟨last, t', hlast, htaken, hfails⟩ := ih h
      rw [Progress.after, Nat.add_comm]
      refine ⟨last, t', hlast, ?_, hfails⟩
      rw [List.take_succ_cons, inTurn_cons_of_ok hrun, htaken, Progress.after, Nat.add_comm]

/-- No more identifiers are resolved than there are. -/
theorem count_le : (inTurn lookup uids s).count ≤ uids.length := by
  rcases hresult : (inTurn lookup uids s).result with e | ⟨⟩
  · obtain ⟨uid, -, huid, -⟩ := stop_of_error hresult
    exact Nat.le_of_lt (List.getElem?_eq_some_iff.mp huid).1
  · exact Nat.le_of_eq (count_of_ok hresult)

/-- A row that was resolved to its end goes on with the next one. -/
theorem inTurn_append_of_ok (h : (inTurn lookup uids s).result = .ok ()) (more : List Int) :
    inTurn lookup (uids ++ more) s =
      (inTurn lookup more (inTurn lookup uids s).state).after uids.length := by
  induction uids generalizing s with
  | nil => simp [inTurn, Progress.after]
  | cons uid rest ih =>
    rcases hrun : resolve lookup uid s with ⟨e | name?, t⟩
    · rw [inTurn_cons_of_error hrun] at h
      cases h
    · rw [inTurn_cons_of_ok hrun] at h ⊢
      rw [List.cons_append, inTurn_cons_of_ok hrun, ih h]
      simp only [Progress.after, List.length_cons, Progress.mk.injEq, and_true]
      omega

/-- A row that failed does not go on. -/
theorem inTurn_append_of_error {e : Fault} (h : (inTurn lookup uids s).result = .error e)
    (more : List Int) : inTurn lookup (uids ++ more) s = inTurn lookup uids s := by
  induction uids generalizing s with
  | nil => cases h
  | cons uid rest ih =>
    rcases hrun : resolve lookup uid s with ⟨e' | name?, t⟩
    · rw [List.cons_append, inTurn_cons_of_error hrun, inTurn_cons_of_error hrun]
    · rw [inTurn_cons_of_ok hrun] at h
      rw [List.cons_append, inTurn_cons_of_ok hrun, inTurn_cons_of_ok hrun, ih h]

/-- Resolving in turn finds only right names. -/
theorem agrees_inTurn (hlookup : Gives f lookup) (uids : List Int) (hs : Agrees f s.1) :
    Agrees f (inTurn lookup uids s).state.1 := by
  induction uids generalizing s with
  | nil => exact hs
  | cons uid rest ih =>
    have hnext := agrees_resolve hlookup uid hs
    rcases hrun : resolve lookup uid s with ⟨e | name?, t⟩
    · rw [inTurn_cons_of_error hrun]
      rw [hrun] at hnext
      exact hnext
    · rw [inTurn_cons_of_ok hrun]
      rw [hrun] at hnext
      exact ih hnext

/-- With names that agree with `f`, an identifier that is resolved has its name of `f`. -/
theorem eq_name?_of_resolve (hlookup : Gives f lookup) (hs : Agrees f s.1) {uid : Int}
    {found : Option Text} (h : resolve lookup uid s = (.ok found, t)) : found = name? f uid := by
  rw [resolve_eq] at h
  unfold name?
  split_ifs at h ⊢
  · exact (Except.ok.inj (Prod.ext_iff.mp h).1).symm
  · cases hfind : find? uid s.1 with
    | some name =>
      rw [hfind] at h
      rw [hs uid name hfind]
      exact (Except.ok.inj (Prod.ext_iff.mp h).1).symm
    | none =>
      rw [hfind] at h
      exact hlookup uid s.2 found (Prod.ext_iff.mp h).1

end Row

/-! ### One key -/

section Key

variable {guide : Guide σ} {walk : Action (Value × State σ) Unit} {key : Text} {node : Entries Value}
  {s t : State σ} {uid : Int}

/-- At a key that is not there nothing is done. -/
theorem labelKey_of_absent (hget : node.get? key = none) :
    labelKey guide walk key (node, s) = (.ok (), (node, s)) := by
  simp [labelKey, Action.bind_apply, hget]

/-- An identifier that cannot be resolved stays, ... -/
theorem labelKey_of_unresolved {e : Fault} (hget : node.get? key = some (.uint64 uid))
    (hresolve : resolve guide.lookup uid s = (.error e, t)) :
    labelKey guide walk key (node, s) = (.error e, (node, t)) := by
  simp [labelKey, Action.bind_apply, hget, Action.second, hresolve]

/-- ... and so does one without a name. -/
theorem labelKey_of_unnamed (hget : node.get? key = some (.uint64 uid))
    (hresolve : resolve guide.lookup uid s = (.ok none, t)) :
    labelKey guide walk key (node, s) = (.ok (), (node, t)) := by
  simp [labelKey, Action.bind_apply, hget, Action.second, hresolve]

/-- A name is written in the place of its identifier; if it is that of a kind, there may be more to do. -/
theorem labelKey_of_named {name : Text} (hget : node.get? key = some (.uint64 uid))
    (hresolve : resolve guide.lookup uid s = (.ok (some name), t)) :
    labelKey guide walk key (node, s) =
      (if key = Key.kind then addForKind guide name else pure ())
        (Entries.set key (.string name) node, t) := by
  simp [labelKey, Action.bind_apply, hget, Action.second, hresolve]

/-- What is no identifier is walked into. -/
theorem labelKey_of_not_uid {value : Value} (hget : node.get? key = some value)
    (hnot : ∀ uid, value ≠ .uint64 uid) :
    labelKey guide walk key (node, s) = atKey key value walk (node, s) := by
  cases value with
  | uint64 uid => exact absurd rfl (hnot uid)
  | _ => simp [labelKey, Action.bind_apply, hget]

end Key

/-! ### The walk -/

/-- A walk on a value resolves its identifiers in turn and renames as many as were resolved. -/
def NamesInTurn (f : Int → Option Text) (lookup : Int → Action σ (Option Text))
    (walk : Action (Value × State σ) Unit) (value : Value) : Prop :=
  ∀ s : State σ, Agrees f s.1 →
    let row := inTurn lookup (keyedUids value) s
    walk (value, s) = (row.result, (renameFirst f row.count value, row.state))

variable {lookup : Int → Action σ (Option Text)} (sources : SourceReader σ)
  {walk : Action (Value × State σ) Unit}

/-- Labelling the entry at a key resolves it, or what is inside it. -/
theorem labelKey_inTurn (hlookup : Gives f lookup) {key : Text} {value : Value} {node : Entries Value}
    {s : State σ} (hget : node.get? key = some value) (hs : Agrees f s.1)
    (hwalk : NamesInTurn f lookup walk value) :
    let row := inTurn lookup (ownUid value ++ keyedUids value) s
    labelKey ⟨lookup, none, sources⟩ walk key (node, s) =
      (row.result, (Entries.set key (nameFirst f row.count value) node, row.state)) := by
  intro row
  rcases uint64_or_not value with ⟨uid, rfl⟩ | hnot
  · have hset : Entries.set key (.uint64 uid) node = node := Entries.set_of_get?_eq hget
    rcases hrun : resolve lookup uid s with ⟨e | found, t⟩
    · have hrow : row = ⟨0, .error e, t⟩ := inTurn_cons_of_error hrun []
      rw [labelKey_of_unresolved hget hrun, hrow, nameFirst_zero, hset]
    · have hrow : row = ⟨1, .ok (), t⟩ := inTurn_cons_of_ok hrun []
      obtain rfl := eq_name?_of_resolve hlookup hs hrun
      rw [hrow, nameFirst_uint64 Nat.one_pos, nameUid]
      cases hname : name? f uid with
      | none =>
        rw [hname] at hrun
        rw [labelKey_of_unnamed hget hrun]
        simp only [hset]
      | some name =>
        rw [hname] at hrun
        rw [labelKey_of_named hget hrun, addForKind, ite_self]
        rfl
  · have hrow : row = inTurn lookup (keyedUids value) s := by
      cases value with
      | uint64 uid => exact absurd rfl (hnot uid)
      | _ => rfl
    rw [labelKey_of_not_uid hget hnot, nameFirst_of_not_uid hnot, atKey, hwalk s hs, hrow]

/-- Labelling the entries at keys, after entries that have been labelled. -/
theorem labelKeys_inTurn (hlookup : Gives f lookup) {rest : Entries Value}
    (hwalk : ∀ entry ∈ rest, NamesInTurn f lookup walk entry.2) {before : Entries Value}
    (hkeys : (Entries.keys (before ++ rest)).Nodup) {s : State σ} (hs : Agrees f s.1) :
    let row := inTurn lookup (keyedUidsOfEntries rest) s
    labelKeys ⟨lookup, none, sources⟩ walk (Entries.keys rest) (before ++ rest, s) =
      (row.result, (before ++ renameFirstEntries f row.count rest, row.state)) := by
  induction rest generalizing before s with
  | nil => rfl
  | cons entry rest ih =>
    obtain ⟨key, value⟩ := entry
    intro row
    have hnew : key ∉ Entries.keys before := by
      intro hmem
      rw [Entries.keys_append] at hkeys
      exact List.disjoint_of_nodup_append hkeys hmem List.mem_cons_self
    have hfirst := labelKey_inTurn sources hlookup (Entries.get?_append_cons hnew value rest) hs
      (hwalk (key, value) List.mem_cons_self)
    simp only [Entries.set_append_cons hnew] at hfirst
    rw [Entries.keys_cons, labelKeys, renameFirstEntries_cons]
    rcases hresult : (inTurn lookup (ownUid value ++ keyedUids value) s).result with e | ⟨⟩
    · -- the entry fails, and nothing after it has been looked at
      have hrow : row = inTurn lookup (ownUid value ++ keyedUids value) s :=
        inTurn_append_of_error hresult _
      have hzero : row.count - (ownUid value ++ keyedUids value).length = 0 := by
        rw [hrow]
        exact Nat.sub_eq_zero_of_le count_le
      rw [hresult] at hfirst
      rw [Action.bind_of_error hfirst, hzero, renameFirstEntries_zero, hrow, hresult]
    · have hrow : row = _ := inTurn_append_of_ok hresult (keyedUidsOfEntries rest)
      have hkeys' : (Entries.keys ((before ++ [(key, nameUid f (rename f value))]) ++ rest)).Nodup := by
        rw [List.append_assoc, Entries.keys_append]
        rw [Entries.keys_append] at hkeys
        exact hkeys
      have hrest := ih (fun e he => hwalk e (List.mem_cons_of_mem _ he)) hkeys'
        (agrees_inTurn hlookup (ownUid value ++ keyedUids value) hs)
      have hall : ∀ n, (ownUid value ++ keyedUids value).length ≤ n →
          nameFirst f n value = nameUid f (rename f value) :=
        fun n => nameFirst_of_le fun hle => renameFirst_of_le value hle
      rw [hresult, count_of_ok hresult, hall _ (Nat.le_refl _)] at hfirst
      rw [← List.append_cons] at hrest
      rw [Action.bind_of_ok hfirst, hrest, hrow]
      simp only [Progress.after]
      rw [hall _ (Nat.le_add_right _ _), Nat.add_sub_cancel_left, ← List.append_cons]

/-- A dictionary is labelled by resolving its identifiers in turn, and as many are named as were resolved. -/
theorem labelKeys_inTurn_all (hlookup : Gives f lookup) {entries : Entries Value}
    (hwalk : ∀ entry ∈ entries, NamesInTurn f lookup walk entry.2)
    (hkeys : (Entries.keys entries).Nodup) {s : State σ} (hs : Agrees f s.1) :
    let row := inTurn lookup (keyedUidsOfEntries entries) s
    labelKeys ⟨lookup, none, sources⟩ walk (Entries.keys entries) (entries, s) =
      (row.result, (renameFirstEntries f row.count entries, row.state)) := by
  have hkeys' : (Entries.keys ([] ++ entries)).Nodup := hkeys
  exact labelKeys_inTurn sources hlookup hwalk hkeys' hs

/-- Items are labelled by resolving their identifiers in turn, and as many are named as were resolved. -/
theorem labelItems_inTurn (hlookup : Gives f lookup) {items : List Value}
    (hwalk : ∀ item ∈ items, NamesInTurn f lookup walk item) {s : State σ} (hs : Agrees f s.1) :
    let row := inTurn lookup (keyedUidsOfItems items) s
    labelItems walk items s = (row.result, (renameFirstItems f row.count items, row.state)) := by
  induction items generalizing s with
  | nil => rfl
  | cons item rest ih =>
    intro row
    have hitem := hwalk item List.mem_cons_self s hs
    rw [labelItems, hitem, renameFirstItems]
    rcases hresult : (inTurn lookup (keyedUids item) s).result with e | ⟨⟩
    · have hrow : row = inTurn lookup (keyedUids item) s := inTurn_append_of_error hresult _
      have hzero : row.count - (keyedUids item).length = 0 := by
        rw [hrow]
        exact Nat.sub_eq_zero_of_le count_le
      rw [hzero, renameFirstItems_zero, hrow, hresult]
    · have hrow : row = _ := inTurn_append_of_ok hresult (keyedUidsOfItems rest)
      have hrest := ih (fun i hi => hwalk i (List.mem_cons_of_mem item hi))
        (agrees_inTurn hlookup (keyedUids item) hs)
      simp only [hrest, hrow, Progress.after]
      rw [Nat.add_sub_cancel_left, renameFirst_of_le item (Nat.le_of_eq (count_of_ok hresult).symm),
        renameFirst_of_le item (Nat.le_add_right _ _)]

/-- A walk that goes deep enough resolves the identifiers in turn. -/
theorem namesInTurn_labelValue (hlookup : Gives f lookup) (levels : Nat) : ∀ value : Value,
    value.depth ≤ levels → value.HasDistinctKeys →
      NamesInTurn f lookup (labelValue ⟨lookup, none, sources⟩ levels) value := by
  induction levels with
  | zero =>
    intro value hdepth hkeys s hs
    cases value with
    | array items => simp [Value.depth] at hdepth
    | dictionary entries => simp [Value.depth] at hdepth
    | _ => rfl
  | succ levels ih =>
    intro value hdepth hkeys s hs
    cases value with
    | array items =>
      have hwalk : ∀ item ∈ items,
          NamesInTurn f lookup (labelValue ⟨lookup, none, sources⟩ levels) item := by
        intro item hitem
        have hle := Value.depth_le_itemsDepth hitem
        rw [Value.depth] at hdepth
        exact ih item (by omega) (hkeys.of_mem hitem)
      simp only [labelValue, labelItems_inTurn hlookup hwalk hs, renameFirst, keyedUids]
    | dictionary entries =>
      have hwalk : ∀ entry ∈ entries,
          NamesInTurn f lookup (labelValue ⟨lookup, none, sources⟩ levels) entry.2 := by
        intro entry hentry
        have hle := Value.depth_le_entriesDepth hentry
        rw [Value.depth] at hdepth
        exact ih entry.2 (by omega) (hkeys.2.of_mem hentry)
      simp only [labelValue, labelKeys_inTurn_all sources hlookup hwalk hkeys.1 hs, renameFirst,
        keyedUids]
    | _ => rfl

/-- Labelling a dictionary resolves its identifiers in turn, until one fails, and renames as many as were
resolved. -/
theorem label_inTurn (hlookup : Gives f lookup) {tree : Entries Value}
    (htree : (Value.dictionary tree).HasDistinctKeys) {s : State σ} (hs : Agrees f s.1) :
    let row := inTurn lookup (keyedUidsOfEntries tree) s
    label ⟨lookup, none, sources⟩ (tree, s) =
      (row.result, (renameFirstEntries f row.count tree, row.state)) := by
  have hwalk : ∀ entry ∈ tree, NamesInTurn f lookup
      (labelValue ⟨lookup, none, sources⟩ (Value.entriesDepth tree + allowance)) entry.2 := by
    intro entry hentry
    have hle := Value.depth_le_entriesDepth hentry
    exact namesInTurn_labelValue sources hlookup _ entry.2 (Nat.le_add_right_of_le hle)
      (htree.2.of_mem hentry)
  exact labelKeys_inTurn_all sources hlookup hwalk htree.1 hs

end Labelling

end SwiftLens
