import SwiftLens.Inspection
import SwiftLens.Proofs.Labelling.Names

/-!
# Two inspections side by side

An inspection uses its service, its reader and the names found so far through what they answer and
never looks at their state. So when the states of two runs are related in such a way that both get the
same answers, and stay related, the two inspections have the same result, fault or not.
`Action.Matches` says this of two actions, with one rule for each way to build an action.

What the relation is, is left open. It is on the names found so far together with the state of the
service, and a name is one answer, whether it is looked up or known already: `Guide.Matches` and
`Peers` ask of it that the two runs resolve an identifier alike. The walk and the inspections are
then carried through once for all relations.
-/

namespace SwiftLens

variable {S T α β δ σ τ : Type}

/-! ### Actions -/

namespace Action

/-- From related states the two actions have the same result, and they leave related states. -/
def Matches (R : S → T → Prop) (a : Action S α) (b : Action T α) : Prop :=
  ∀ s t, R s t → (a s).1 = (b t).1 ∧ R (a s).2 (b t).2

/-- Related in the second part, and the same in the first. -/
def SameFirst (R : S → T → Prop) (s : δ × S) (t : δ × T) : Prop := s.1 = t.1 ∧ R s.2 t.2

/-- Related when the middle part is left out, and the same in that part. -/
def SameMiddle (R : δ × S → δ × T → Prop) (s : δ × (β × S)) (t : δ × (β × T)) : Prop :=
  s.2.1 = t.2.1 ∧ R (s.1, s.2.2) (t.1, t.2.2)

/-- An action on the second part of a state, step by step. -/
theorem second_bind (a : Action S α) (k : α → Action S β) :
    ((a >>= k).second : Action (δ × S) β) = a.second >>= fun x => (k x).second := by
  funext s
  rcases hrun : a s.2 with ⟨e | x, t⟩
  · simp [second, bind_apply, hrun]
  · simp [second, bind_apply, hrun]

variable {R : S → T → Prop}

/-- To return a value matches itself. -/
theorem Matches.pure (x : α) : Matches R (pure x) (pure x) := fun _ _ h => ⟨rfl, h⟩

/-- To fail matches itself. -/
theorem Matches.fail (e : Fault) : Matches R (fail e : Action S α) (fail e) := fun _ _ h => ⟨rfl, h⟩

/-- A result that needs no state matches itself. -/
theorem Matches.ofExcept (r : Except Fault α) : Matches R (ofExcept r) (ofExcept r) :=
  fun _ _ h => ⟨rfl, h⟩

/-- Looks at related states match if they see the same. -/
theorem Matches.read {g : S → α} {g' : T → α} (h : ∀ s t, R s t → g s = g' t) :
    Matches R (read g) (read g') :=
  fun s t hs => ⟨congrArg Except.ok (h s t hs), hs⟩

/-- Changes that keep states related match. -/
theorem Matches.modify {g : S → S} {g' : T → T} (h : ∀ s t, R s t → R (g s) (g' t)) :
    Matches R (modify g) (modify g') :=
  fun s t hs => ⟨rfl, h s t hs⟩

/-- Actions that match, followed by actions that match, match. -/
theorem Matches.bind {a : Action S α} {b : Action T α} {k : α → Action S β} {l : α → Action T β}
    (h : Matches R a b) (hk : ∀ x, Matches R (k x) (l x)) : Matches R (a >>= k) (b >>= l) := by
  intro s t hs
  obtain ⟨hresult, hstate⟩ := h s t hs
  rcases ha : a s with ⟨r, s'⟩
  rcases hb : b t with ⟨r', t'⟩
  rw [ha, hb] at hresult hstate
  obtain rfl : r = r' := hresult
  cases r with
  | ok x =>
    rw [bind_of_ok ha, bind_of_ok hb]
    exact hk x s' t' hstate
  | error e =>
    rw [bind_of_error ha, bind_of_error hb]
    exact ⟨rfl, hstate⟩

/-- What matches for whatever is seen matches after looks that see the same. -/
theorem Matches.read_bind {g : S → α} {g' : T → α} {k : α → Action S β} {l : α → Action T β}
    (h : ∀ s t, R s t → g s = g' t) (hk : ∀ x, Matches R (k x) (l x)) :
    Matches R (Action.read g >>= k) (Action.read g' >>= l) :=
  (Matches.read h).bind hk

/-- What matches on the last part of a state matches with the same first part beside it. -/
theorem Matches.second {a : Action S α} {b : Action T α} (h : Matches R a b) :
    Matches (SameFirst R : δ × S → δ × T → Prop) a.second b.second := by
  intro s t hs
  obtain ⟨hresult, hstate⟩ := h s.2 t.2 hs.2
  exact ⟨hresult, hs.1, hstate⟩

/-- What matches for each element matches for a list of them. -/
theorem Matches.each {k : β → Action S α} {l : β → Action T α} (h : ∀ x, Matches R (k x) (l x))
    (xs : List β) : Matches R (each k xs) (each l xs) := by
  induction xs with
  | nil => exact Matches.pure []
  | cons x rest ih => exact (h x).bind fun y => ih.bind fun ys => Matches.pure (y :: ys)

section Middle

variable {R : δ × S → δ × T → Prop}

/-- What matches on the last part of a state matches with another part in the middle. -/
theorem Matches.middle {a : Action S α} {b : Action T α}
    (h : Matches R (a.second : Action (δ × S) α) b.second) :
    Matches (SameMiddle R : δ × (β × S) → δ × (β × T) → Prop) a.second.second b.second.second := by
  intro s t hs
  obtain ⟨hresult, hstate⟩ := h (s.1, s.2.2) (t.1, t.2.2) hs.2
  exact ⟨hresult, hs.1, hstate⟩

/-- What matches with a part of its own matches when that part is dropped at the end. -/
theorem Matches.withLocal {a : Action (δ × (β × S)) α} {b : Action (δ × (β × T)) α}
    (h : Matches (SameMiddle R) a b) (x : β) :
    Matches R (Action.withLocal x a) (Action.withLocal x b) := by
  intro s t hs
  obtain ⟨hresult, hstate⟩ := h (s.1, (x, s.2)) (t.1, (x, t.2)) ⟨rfl, hs⟩
  exact ⟨hresult, hstate.2⟩

end Middle

/-! ### One action beside itself -/

/-- A property of the state that holds after the action, whatever comes of it, if it holds before. -/
def Preserves (P : S → Prop) (a : Action S α) : Prop := ∀ s, P s → P (a s).2

/-- One and the same state, which has the given property. -/
def Diagonal (P : S → Prop) (s t : S) : Prop := s = t ∧ P s

section Diagonal

variable {P : S → Prop}

/-- To preserve a property is to match itself from each state that has it. -/
theorem matches_diagonal_iff {a : Action S α} : Matches (Diagonal P) a a ↔ Preserves P a := by
  constructor
  · exact fun h s hs => (h s s ⟨rfl, hs⟩).2.2
  · rintro h s _ ⟨rfl, hs⟩
    exact ⟨rfl, rfl, h s hs⟩

/-- A property of the second part is preserved if the action matches itself there. -/
theorem matches_sameFirst_diagonal_iff {a : Action (δ × S) α} :
    Matches (SameFirst (Diagonal P)) a a ↔ Preserves (fun s => P s.2) a := by
  constructor
  · exact fun h s hs => (h s s ⟨rfl, rfl, hs⟩).2.2.2
  · rintro h ⟨x, s⟩ ⟨_, _⟩ ⟨rfl, rfl, hs⟩
    exact ⟨rfl, rfl, rfl, h (x, s) hs⟩

/-- To return a value preserves everything. -/
theorem Preserves.pure (x : α) : Preserves P (Pure.pure x : Action S α) := fun _ hs => hs

/-- What an action and all that can follow it preserve, they preserve together. -/
theorem Preserves.bind {a : Action S α} {k : α → Action S β} (h : Preserves P a)
    (hk : ∀ x, Preserves P (k x)) : Preserves P (a >>= k) :=
  matches_diagonal_iff.mp
    ((matches_diagonal_iff.mpr h).bind fun x => matches_diagonal_iff.mpr (hk x))

/-- What is preserved on the second part of a state is preserved of that part. -/
theorem Preserves.second {a : Action S α} (h : Preserves P a) :
    Preserves (fun s : δ × S => P s.2) a.second := fun s hs => h s.2 hs

end Diagonal

end Action

open SwiftLens.Action (Matches SameFirst SameMiddle)

/-! ### Names -/

namespace NameCache

/-- With the same names found so far, look-ups that match make resolving match. -/
theorem matches_resolve {Q : σ → τ → Prop} {lookup : Int → Action σ (Option Text)}
    {lookup' : Int → Action τ (Option Text)} (h : ∀ uid, Matches Q (lookup uid) (lookup' uid))
    (uid : Int) : Matches (SameFirst Q) (resolve lookup uid) (resolve lookup' uid) := by
  unfold resolve
  split_ifs
  · exact Matches.pure none
  · apply Matches.read_bind
    · exact fun s t hs => congrArg (find? uid) hs.1
    · intro found
      cases found with
      | some name => exact Matches.pure (some name)
      | none =>
        refine (h uid).second.bind fun name? => ?_
        cases name? with
        | none => exact Matches.pure none
        | some name =>
          apply Matches.bind
          · exact Matches.modify fun s t hs => ⟨congrArg (· ++ [(uid, name)]) hs.1, hs.2⟩
          · exact fun _ => Matches.pure (some name)

/-- Where resolving matches, it matches with another part in the middle of the state. -/
theorem matches_resolve_middle {R : NameCache × σ → NameCache × τ → Prop}
    {lookup : Int → Action σ (Option Text)} {lookup' : Int → Action τ (Option Text)}
    (h : ∀ uid, Matches R (resolve lookup uid) (resolve lookup' uid)) (uid : Int) :
    Matches (SameMiddle R : NameCache × (δ × σ) → NameCache × (δ × τ) → Prop)
      (resolve (fun uid => (lookup uid).second) uid) (resolve (fun uid => (lookup' uid).second) uid) := by
  rintro ⟨cache, x, s⟩ ⟨cache', x', t⟩ hs
  obtain ⟨hresult, hstate⟩ := h uid (cache, s) (cache', t) hs.2
  rw [resolve_second, resolve_second]
  exact ⟨hresult, hs.1, hstate⟩

end NameCache

/-! ### The walk -/

section Walk

variable {R : Labelling.State σ → Labelling.State τ → Prop}

/-- Supplements that answer alike in related states. -/
structure Supplement.Matches (R : Labelling.State σ → Labelling.State τ → Prop)
    (supplement : Supplement σ) (supplement' : Supplement τ) : Prop where
  sourceFile : ∀ s t, R s t → supplement.sourceFile? s.2 = supplement'.sourceFile? t.2
  setOffset : ∀ n s t, R s t → R (s.1, supplement.setOffset n s.2) (t.1, supplement'.setOffset n t.2)
  send : Action.Matches R supplement.send.second supplement'.send.second

/-- Guides that answer alike in related states. -/
structure Guide.Matches (R : Labelling.State σ → Labelling.State τ → Prop) (guide : Guide σ)
    (guide' : Guide τ) : Prop where
  resolve : ∀ uid,
    Action.Matches R (NameCache.resolve guide.lookup uid) (NameCache.resolve guide'.lookup uid)
  supplement : Option.Rel (Supplement.Matches R) guide.supplement guide'.supplement
  range : ∀ file offset length, Action.Matches R (guide.sources.range file offset length).second
    (guide'.sources.range file offset length).second

namespace Labelling

variable {supplement : Supplement σ} {supplement' : Supplement τ} {guide : Guide σ} {guide' : Guide τ}

/-- With supplements that match, adding what belongs to a declaration matches. -/
theorem matches_addDeclaration (h : supplement.Matches R supplement') :
    Matches (SameFirst R) (addDeclaration supplement) (addDeclaration supplement') := by
  unfold addDeclaration
  apply Matches.read_bind
  · exact fun s t hs => congrArg (·.integer? Key.nameOffset) hs.1
  · intro offset?
    cases offset? with
    | none => exact Matches.pure ()
    | some offset =>
      dsimp only
      split_ifs
      · exact Matches.pure ()
      · apply Matches.bind
        · exact Matches.modify fun s t hs => ⟨hs.1, h.setOffset offset s.2 t.2 hs.2⟩
        · intro _
          apply Matches.bind h.send.second
          intro reply
          split
          · exact Matches.modify fun s t hs => ⟨congrArg (merge _) hs.1, hs.2⟩
          · exact Matches.pure ()

/-- With supplements and readers that match, adding what belongs to a mark matches. -/
theorem matches_addMark (h : supplement.Matches R supplement') {sources : SourceReader σ}
    {sources' : SourceReader τ}
    (hrange : ∀ file offset length, Matches R (sources.range file offset length).second
      (sources'.range file offset length).second) :
    Matches (SameFirst R) (addMark supplement sources) (addMark supplement' sources') := by
  unfold addMark
  apply Matches.read_bind
  · exact fun s t hs => hs.1
  · intro node
    apply Matches.read_bind
    · exact fun s t hs => h.sourceFile s.2 t.2 hs.2
    · intro file?
      split
      · apply Matches.bind (hrange _ _ _).second
        intro text
        exact Matches.modify fun s t hs =>
          ⟨congrArg (Entries.set Key.name (.string text)) hs.1, hs.2⟩
      · exact Matches.fail _

/-- With guides that match, adding what belongs to a kind matches. -/
theorem matches_addForKind (h : guide.Matches R guide') (kind : Text) :
    Matches (SameFirst R) (addForKind guide kind) (addForKind guide' kind) := by
  obtain ⟨_, supplement?, _⟩ := guide
  obtain ⟨_, supplement?', _⟩ := guide'
  have hsupplement : Option.Rel (Supplement.Matches R) supplement? supplement?' := h.supplement
  unfold addForKind
  cases hsupplement with
  | none => exact Matches.pure ()
  | some hsupplement =>
    dsimp only
    split_ifs
    · exact matches_addDeclaration hsupplement
    · exact matches_addMark hsupplement h.range
    · exact Matches.pure ()

variable {walk : Action (Value × State σ) Unit} {walk' : Action (Value × State τ) Unit}

/-- Walks that match do so below a key as well. -/
theorem matches_atKey (hwalk : Matches (SameFirst R) walk walk') (key : Text) (value : Value) :
    Matches (SameFirst R) (atKey key value walk) (atKey key value walk') := by
  intro s t hs
  obtain ⟨hresult, hvalue, hstate⟩ := hwalk (value, s.2) (value, t.2) ⟨rfl, hs.2⟩
  exact ⟨hresult, congrArg₂ (Entries.set key) hvalue hs.1, hstate⟩

/-- With guides and walks that match, labelling at a key matches. -/
theorem matches_labelKey (h : guide.Matches R guide') (hwalk : Matches (SameFirst R) walk walk')
    (key : Text) : Matches (SameFirst R) (labelKey guide walk key) (labelKey guide' walk' key) := by
  unfold labelKey
  apply Matches.read_bind
  · exact fun s t hs => congrArg (Entries.get? key) hs.1
  · intro value?
    split
    · exact Matches.pure ()
    · refine (h.resolve _).second.bind fun name? => ?_
      cases name? with
      | none => exact Matches.pure ()
      | some name =>
        apply Matches.bind
        · exact Matches.modify fun s t hs => ⟨congrArg (Entries.set key (.string name)) hs.1, hs.2⟩
        · intro _
          split_ifs
          · exact matches_addForKind h name
          · exact Matches.pure ()
    · exact matches_atKey hwalk key _

/-- With guides and walks that match, labelling at keys in turn matches. -/
theorem matches_labelKeys (h : guide.Matches R guide') (hwalk : Matches (SameFirst R) walk walk')
    (keys : List Text) :
    Matches (SameFirst R) (labelKeys guide walk keys) (labelKeys guide' walk' keys) := by
  induction keys with
  | nil => exact Matches.pure ()
  | cons key rest ih => exact (matches_labelKey h hwalk key).bind fun _ => ih

/-- With walks that match, the items of an array are labelled alike. -/
theorem matches_labelItems (hwalk : Matches (SameFirst R) walk walk') (items : List Value)
    {s : State σ} {t : State τ} (hs : R s t) :
    (labelItems walk items s).1 = (labelItems walk' items t).1 ∧
      SameFirst R (labelItems walk items s).2 (labelItems walk' items t).2 := by
  induction items generalizing s t with
  | nil => exact ⟨rfl, rfl, hs⟩
  | cons item rest ih =>
    obtain ⟨hresult, hitem, hstate⟩ := hwalk (item, s) (item, t) ⟨rfl, hs⟩
    rcases hrun : walk (item, s) with ⟨r, item₁, s'⟩
    rcases hrun' : walk' (item, t) with ⟨r', item₂, t'⟩
    rw [hrun, hrun'] at hresult hitem hstate
    obtain rfl : r = r' := hresult
    obtain rfl : item₁ = item₂ := hitem
    cases r with
    | error e =>
      simp only [labelItems, hrun, hrun']
      exact ⟨trivial, rfl, hstate⟩
    | ok _ =>
      obtain ⟨hrest, hitems, hend⟩ := ih hstate
      simp only [labelItems, hrun, hrun']
      exact ⟨hrest, congrArg (item₁ :: ·) hitems, hend⟩

/-- With guides that match, labelling a value matches, however many levels are allowed. -/
theorem matches_labelValue (h : guide.Matches R guide') (levels : Nat) :
    Matches (SameFirst R) (labelValue guide levels) (labelValue guide' levels) := by
  induction levels with
  | zero =>
    rintro ⟨value, s⟩ ⟨_, t⟩ ⟨rfl, hs⟩
    cases value <;> exact ⟨rfl, rfl, hs⟩
  | succ levels ih =>
    rintro ⟨value, s⟩ ⟨_, t⟩ ⟨rfl, hs⟩
    cases value with
    | array items =>
      obtain ⟨hresult, hitems, hstate⟩ := matches_labelItems ih items hs
      exact ⟨hresult, congrArg Value.array hitems, hstate⟩
    | dictionary entries =>
      obtain ⟨hresult, hentries, hstate⟩ :=
        matches_labelKeys h ih (Entries.keys entries) (entries, s) (entries, t) ⟨rfl, hs⟩
      exact ⟨hresult, congrArg Value.dictionary hentries, hstate⟩
    | _ => exact ⟨rfl, rfl, hs⟩

/-- With guides that match, labelling matches. -/
theorem matches_label (h : guide.Matches R guide') :
    Matches (SameFirst R) (label guide) (label guide') := by
  rintro ⟨tree, s⟩ ⟨_, t⟩ ⟨rfl, hs⟩
  exact matches_labelKeys h (matches_labelValue h _) (Entries.keys tree) _ _ ⟨rfl, hs⟩

end Labelling

/-- With guides that match, labelling a response matches. -/
theorem Inspection.matches_labelled {guide : Guide σ} {guide' : Guide τ} (h : guide.Matches R guide')
    (response : Entries Value) : Matches R (labelled guide response) (labelled guide' response) := by
  intro s t hs
  obtain ⟨hresult, htree, hstate⟩ := Labelling.matches_label h (response, s) (response, t) ⟨rfl, hs⟩
  rcases hrun : Labelling.label guide (response, s) with ⟨r, tree, s'⟩
  rcases hrun' : Labelling.label guide' (response, t) with ⟨r', tree', t'⟩
  rw [hrun, hrun'] at hresult htree hstate
  obtain rfl : r = r' := hresult
  obtain rfl : tree = tree' := htree
  cases r with
  | ok _ =>
    simp only [labelled, hrun, hrun']
    exact ⟨trivial, hstate⟩
  | error e =>
    simp only [labelled, hrun, hrun']
    exact ⟨trivial, hstate⟩

end Walk

/-! ### Tokens -/

namespace Token

variable {R : NameCache × σ → NameCache × τ → Prop} {lookup : Int → Action σ (Option Text)}
  {lookup' : Int → Action τ (Option Text)}

/-- With look-ups that match, finding the kind of a token matches. -/
theorem matches_kindOf
    (h : ∀ uid, Matches R (NameCache.resolve lookup uid) (NameCache.resolve lookup' uid))
    (index : Nat) (r : Record) : Matches R (kindOf lookup index r) (kindOf lookup' index r) := by
  refine (h r.uid).bind fun kind? => ?_
  cases kind? with
  | some kind => exact Matches.pure kind
  | none => exact Matches.fail _

/-- With look-ups that match, naming the tokens of a table matches. -/
theorem matches_nameAll
    (h : ∀ uid, Matches R (NameCache.resolve lookup uid) (NameCache.resolve lookup' uid))
    (records : List Record) (index : Nat) :
    Matches R (nameAll lookup index records) (nameAll lookup' index records) := by
  induction records generalizing index with
  | nil => exact Matches.pure []
  | cons r rest ih =>
    apply Matches.bind (matches_kindOf h index r)
    intro kind
    exact (ih (index + 1)).bind fun tokens => Matches.pure _

/-- With look-ups that match, finding the identifiers of a table matches. -/
theorem matches_identifiersAmong
    (h : ∀ uid, Matches R (NameCache.resolve lookup uid) (NameCache.resolve lookup' uid))
    (records : List Record) (index : Nat) :
    Matches R (identifiersAmong lookup index records) (identifiersAmong lookup' index records) := by
  induction records generalizing index with
  | nil => exact Matches.pure []
  | cons r rest ih =>
    apply Matches.bind (matches_kindOf h index r)
    intro kind
    exact (ih (index + 1)).bind fun offsets => Matches.pure _

end Token

/-! ### Inspections -/

/-- Services and readers that answer alike in related states. -/
structure Peers (R : NameCache × σ → NameCache × τ → Prop) (backend : Backend σ) (backend' : Backend τ)
    (reader : SourceReader σ) (reader' : SourceReader τ) : Prop where
  uidOf : ∀ name, Action.Matches R (backend.uidOf name).second (backend'.uidOf name).second
  resolve : ∀ uid,
    Action.Matches R (NameCache.resolve backend.nameOf uid) (NameCache.resolve backend'.nameOf uid)
  respond : ∀ request, Action.Matches R (backend.respond request).second (backend'.respond request).second
  whole : ∀ file, Action.Matches R (reader.whole file).second (reader'.whole file).second
  range : ∀ file offset length,
    Action.Matches R (reader.range file offset length).second (reader'.range file offset length).second

namespace Inspection

variable {R : NameCache × σ → NameCache × τ → Prop} {backend : Backend σ} {backend' : Backend τ}
  {reader : SourceReader σ} {reader' : SourceReader τ}

/-- With services that match, opening a source matches. -/
theorem matches_openSource (h : Peers R backend backend' reader reader') (source : SourceInput) :
    Matches R (openSource backend source).second (openSource backend' source).second := by
  unfold openSource Request.openSource
  simp only [Action.second_bind]
  apply Matches.bind
  · exact (h.uidOf Kind.openRequest).bind fun uid => Matches.pure _
  · intro request
    apply Matches.bind (h.respond request)
    intro found
    cases found with
    | dictionary response => exact Matches.pure response
    | _ => exact Matches.fail _

/-- With services and readers that match, the inspection of a structure matches. -/
theorem matches_structureOf (h : Peers R backend backend' reader reader') (file : Text) :
    Matches R (structureOf backend reader file) (structureOf backend' reader' file) := by
  apply Matches.bind (matches_openSource h (.file file))
  intro response
  exact matches_labelled ⟨h.resolve, .none, h.range⟩ _

/-- With services that match, the inspection of tokens matches. -/
theorem matches_tokensOf (h : Peers R backend backend' reader reader') (source : SourceInput) :
    Matches R (tokensOf backend source) (tokensOf backend' source) := by
  apply Matches.bind (matches_openSource h source)
  intro response
  apply Matches.bind (Matches.ofExcept _)
  intro bytes
  apply Matches.bind (Matches.ofExcept _)
  intro records
  exact Token.matches_nameAll h.resolve records 0

/-- With services and readers that match, the inspection of documented identifiers matches. -/
theorem matches_documentedOffsets (h : Peers R backend backend' reader reader') (file : Text) :
    Matches R (documentedOffsets backend reader file) (documentedOffsets backend' reader' file) := by
  apply Matches.bind (matches_openSource h (.file file))
  intro response
  apply Matches.bind (Matches.ofExcept _)
  intro bytes
  apply Matches.bind
  · apply Matches.bind (Matches.ofExcept _)
    exact fun records => Token.matches_identifiersAmong h.resolve records 0
  · intro identifiers
    exact (h.whole file).bind fun source => Matches.pure _

/-- The requests about offsets match over services that match. -/
theorem matches_cursorSupplement (h : Peers R backend backend' reader reader') :
    (CursorQuery.supplement backend).Matches (SameMiddle R) (CursorQuery.supplement backend') where
  sourceFile s t hs := congrArg CursorQuery.sourceFile? hs.1
  setOffset n s t hs := ⟨congrArg (·.setOffset n) hs.1, hs.2⟩
  send := by
    unfold CursorQuery.supplement CursorQuery.send
    simp only [Action.second_bind]
    apply Matches.bind
    · exact Matches.read fun s t hs => hs.1
    · intro q
      apply Matches.bind (h.respond q).middle
      exact fun reply => Matches.pure _

/-- With services and readers that match, documenting a file matches. -/
theorem matches_fileDocs (h : Peers R backend backend' reader reader') (file : Text) :
    Matches (SameMiddle R) (fileDocs backend reader file) (fileDocs backend' reader' file) := by
  apply Matches.bind
  · exact Matches.modify fun s t hs => ⟨congrArg (·.setSourceFile file) hs.1, hs.2⟩
  · intro _
    apply Matches.bind (matches_openSource h (.file file)).middle
    intro response
    apply Matches.bind
    · apply matches_labelled
      exact ⟨NameCache.matches_resolve_middle h.resolve, .some (matches_cursorSupplement h),
        fun file offset length => (h.range file offset length).middle⟩
    · exact fun tree => Matches.pure (FileDocs.mk file tree)

/-- With services and readers that match, the inspection of documentation matches. -/
theorem matches_docs (h : Peers R backend backend' reader reader') (args : List Text) :
    Matches R (docs backend reader args) (docs backend' reader' args) := by
  unfold docs CursorQuery.create
  simp only [Action.second_bind]
  apply Matches.bind
  · exact (h.uidOf Kind.cursorRequest).bind fun uid => Matches.pure (CursorQuery.template uid args)
  · intro query
    exact (Matches.each (matches_fileDocs h) (swiftFiles args)).withLocal query

end Inspection

end SwiftLens
