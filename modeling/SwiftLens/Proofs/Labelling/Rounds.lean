import SwiftLens.Proofs.Labelling.Answers
import SwiftLens.Proofs.Labelling.Discipline

/-!
# What a supplement is told and asked

A guide can be had that notes what its supplement is told and asked, one thing after the other
(`Guide.noted`); with the notes forgotten it is the guide itself (`label_forgetting_notes`).

The notes of a walk come in rounds. A round tells the supplement an offset, which is neither negative nor
larger than a double can hold exactly, and asks. A question that fails is the last, and the walk fails with
it. `addsRounds_label` says this of every walk: one function of the walk after the other adds rounds, and
what adds rounds after rounds that were all answered adds rounds (`AddsRounds.trans`).
-/

namespace SwiftLens

variable {σ : Type}

/-! ### Notes -/

/-- Something that a supplement is told or asked. -/
inductive Supplement.Note where
  /-- It is told to move to an offset. -/
  | move (offset : Int)
  /-- It is asked what stands there, with what comes of it. -/
  | send (answer : Except Fault (Option Value))

/-- A supplement that notes what it is told and asked. -/
def Supplement.noted (supplement : Supplement σ) : Supplement (List Supplement.Note × σ) where
  sourceFile? s := supplement.sourceFile? s.2
  setOffset offset s := (s.1 ++ [.move offset], supplement.setOffset offset s.2)
  send s :=
    match supplement.send s.2 with
    | (answer, t) => (answer, (s.1 ++ [.send answer], t))

/-- A supplement that is asked at an offset notes both. -/
theorem Supplement.send_noted {supplement : Supplement σ} {offset : Int} {notes : List Supplement.Note}
    {s s' : σ} {answer : Except Fault (Option Value)}
    (h : supplement.send (supplement.setOffset offset s) = (answer, s')) :
    supplement.noted.send (supplement.noted.setOffset offset (notes, s)) =
      (answer, (notes ++ [.move offset] ++ [.send answer], s')) := by
  simp only [noted, h]

/-- A guide that notes what its supplement is told and asked. -/
def Guide.noted (guide : Guide σ) : Guide (List Supplement.Note × σ) where
  lookup uid := (guide.lookup uid).second
  supplement := guide.supplement.map Supplement.noted
  sources := guide.sources.second

namespace Labelling

/-- The state of a walk that is noted. -/
abbrev Noted (σ : Type) := State (List Supplement.Note × σ)

/-- A guide with notes is the guide, when the notes are forgotten. -/
theorem matches_noted (guide : Guide σ) :
    guide.noted.Matches (Action.SameFirst fun s t => s.2 = t) guide where
  resolve := by
    apply NameCache.matches_resolve
    rintro uid s _ rfl
    exact ⟨rfl, rfl⟩
  supplement := by
    unfold Guide.noted
    cases guide.supplement with
    | none => exact .none
    | some supplement =>
      refine .some ⟨?_, ?_, ?_⟩
      · rintro s t ⟨-, hs⟩
        rw [← hs]
        rfl
      · rintro n s t ⟨hnames, hs⟩
        exact ⟨hnames, congrArg (supplement.setOffset n) hs⟩
      · rintro ⟨_, s⟩ ⟨_, _⟩ ⟨rfl, rfl⟩
        exact ⟨rfl, rfl, rfl⟩
  range := by
    rintro file offset length ⟨_, s⟩ ⟨_, _⟩ ⟨rfl, rfl⟩
    exact ⟨rfl, rfl, rfl⟩

/-- What a run with notes comes to without them. -/
def forgetNotes (out : Except Fault Unit × (Entries Value × Noted σ)) :
    Except Fault Unit × (Entries Value × State σ) :=
  (out.1, (out.2.1, (out.2.2.1, out.2.2.2.2)))

/-- Labelling with notes is labelling, when the notes are forgotten. -/
theorem label_forgetting_notes (guide : Guide σ) (tree : Entries Value) (cache : NameCache)
    (notes : List Supplement.Note) (s : σ) :
    label guide (tree, (cache, s)) = forgetNotes (label guide.noted (tree, (cache, (notes, s)))) := by
  obtain ⟨hresult, htree, hnames, hstate⟩ := matches_label (matches_noted guide)
    (tree, (cache, (notes, s))) (tree, (cache, s)) ⟨rfl, rfl, rfl⟩
  exact Prod.ext hresult.symm (Prod.ext htree.symm (Prod.ext hnames.symm hstate.symm))

/-! ### Rounds -/

/-- A question: the offset that was told, and the answer. -/
abbrev Round := Int × Except Fault (Option Value)

/-- The notes of rounds. -/
def notesOf (rounds : List Round) : List Supplement.Note :=
  rounds.flatMap fun round => [.move round.1, .send round.2]

/-- All rounds have been answered. -/
def Answered (rounds : List Round) : Prop := ∀ round ∈ rounds, ∃ reply, round.2 = .ok reply

/-- The rounds of a run with the given result: every offset is one that can be told, and if a round fails, it
is the last one, and the run fails with it. -/
structure Orderly (rounds : List Round) (r : Except Fault Unit) : Prop where
  offset : ∀ round ∈ rounds, 0 ≤ round.1 ∧ round.1 ≤ 2 ^ 53 - 1
  ending : Answered rounds ∨
    ∃ before n e, rounds = before ++ [(n, .error e)] ∧ Answered before ∧ r = .error e

/-- A run from one state to another notes rounds, which its result is that of. -/
def AddsRounds (t : Noted σ) (r : Except Fault Unit) (t' : Noted σ) : Prop :=
  ∃ rounds, t'.2.1 = t.2.1 ++ notesOf rounds ∧ Orderly rounds r

section Rounds

variable {t t₁ t' : Noted σ} {r : Except Fault Unit}

/-- Rounds are noted in their order. -/
@[simp] theorem notesOf_append (first second : List Round) :
    notesOf (first ++ second) = notesOf first ++ notesOf second := List.flatMap_append

/-- All rounds have been answered if all in either part have. -/
theorem answered_append {first second : List Round} :
    Answered (first ++ second) ↔ Answered first ∧ Answered second := List.forall_mem_append

/-- In a run that succeeds all rounds have been answered. -/
theorem Orderly.answered {rounds : List Round} (h : Orderly rounds (.ok ())) : Answered rounds := by
  rcases h.ending with hall | ⟨_, _, _, -, -, hresult⟩
  · exact hall
  · cases hresult

/-- What notes nothing adds no rounds. -/
theorem AddsRounds.of_eq (h : t'.2.1 = t.2.1) (r : Except Fault Unit) : AddsRounds t r t' :=
  ⟨[], by simp [notesOf, h], ⟨by simp, .inl (by simp [Answered])⟩⟩

/-- A run and the one after it add the rounds of both. -/
theorem AddsRounds.trans (h : AddsRounds t (.ok ()) t₁) (h' : AddsRounds t₁ r t') :
    AddsRounds t r t' := by
  obtain ⟨first, hfirst, horderly⟩ := h
  obtain ⟨second, hsecond, horderly'⟩ := h'
  refine ⟨first ++ second, by rw [hsecond, hfirst, notesOf_append, List.append_assoc],
    List.forall_mem_append.mpr ⟨horderly.offset, horderly'.offset⟩, ?_⟩
  rcases horderly'.ending with hall | ⟨before, n, e, rfl, hbefore, hresult⟩
  · exact .inl (answered_append.mpr ⟨horderly.answered, hall⟩)
  · exact .inr ⟨first ++ before, n, e, (List.append_assoc _ _ _).symm,
      answered_append.mpr ⟨horderly.answered, hbefore⟩, hresult⟩

/-- One round. -/
theorem addsRounds_of_answer {n : Int} (hneg : ¬n < 0) (hle : n ≤ 2 ^ 53 - 1)
    {answer : Except Fault (Option Value)} (h : t'.2.1 = t.2.1 ++ [.move n] ++ [.send answer]) :
    AddsRounds t (answer.map fun _ => ()) t' := by
  refine ⟨[(n, answer)], by simp [notesOf, h], ?_, ?_⟩
  · simp only [List.mem_singleton, forall_eq]
    exact ⟨Int.not_lt.mp hneg, hle⟩
  · cases answer with
    | ok reply => exact .inl (by simp [Answered])
    | error e => exact .inr ⟨[], n, e, rfl, by simp [Answered], rfl⟩

/-- Notes are only added to. -/
theorem AddsRounds.isPrefix (h : AddsRounds t r t') : t.2.1 <+: t'.2.1 := by
  obtain ⟨rounds, hrounds, -⟩ := h
  exact ⟨_, hrounds.symm⟩

end Rounds

/-! ### At a node with a kind -/

section Kind

variable (node : Entries Value) (t : Noted σ)

/-- Adding what belongs to a declaration adds rounds. -/
theorem addsRounds_addDeclaration (supplement : Supplement σ) :
    let out := addDeclaration supplement.noted (node, t)
    AddsRounds t out.1 out.2.2 := by
  by_cases hplaced : ∃ offset, node.integer? Key.nameOffset = some offset ∧ ¬offset < 0
  · obtain ⟨offset, hoffset, hneg⟩ := hplaced
    rcases hsend : supplement.send (supplement.setOffset offset t.2.2) with ⟨answer, s⟩
    rw [addDeclaration_of_placed hoffset hneg t.1 (Supplement.send_noted hsend)]
    exact addsRounds_of_answer hneg (Entries.integer?_le hoffset) rfl
  · rw [addDeclaration_of_unplaced supplement.noted t fun offset hoffset =>
      not_not.mp fun hneg => hplaced ⟨offset, hoffset, hneg⟩]
    exact .of_eq rfl _

/-- Adding what belongs to a mark notes nothing. -/
theorem notes_addMark (supplement : Supplement σ) (sources : SourceReader σ) :
    (addMark supplement.noted sources.second (node, t)).2.2.2.1 = t.2.1 := by
  rcases addMark_cases supplement.noted sources.second node t with
    ⟨_, _, _, hout⟩ | ⟨_, _, _, ⟨e, s, hread, hout⟩ | ⟨text, s, hread, hout⟩⟩
  · rw [hout]
  · rw [hout]
    exact (congrArg (·.2.1) hread).symm
  · rw [hout]
    exact (congrArg (·.2.1) hread).symm

/-- Adding what belongs to a kind adds rounds. -/
theorem addsRounds_addForKind (guide : Guide σ) (kind : Text) :
    let out := addForKind guide.noted kind (node, t)
    AddsRounds t out.1 out.2.2 := by
  unfold addForKind Guide.noted
  cases guide.supplement with
  | none => exact .of_eq rfl _
  | some supplement =>
    simp only [Option.map_some]
    split_ifs
    · exact addsRounds_addDeclaration node t supplement
    · exact .of_eq (notes_addMark node t supplement guide.sources) _
    · exact .of_eq rfl _

end Kind

/-! ### The walk -/

section Walk

variable (guide : Guide σ) {walk : Action (Value × Noted σ) Unit}

/-- Resolving a name notes nothing. -/
theorem resolve_noted (uid : Int) (t : Noted σ) :
    NameCache.resolve guide.noted.lookup uid t =
      ((NameCache.resolve guide.lookup uid (t.1, t.2.2)).1,
        ((NameCache.resolve guide.lookup uid (t.1, t.2.2)).2.1,
          (t.2.1, (NameCache.resolve guide.lookup uid (t.1, t.2.2)).2.2))) :=
  NameCache.resolve_second guide.lookup uid t.1 t.2.1 t.2.2

/-- A walk that adds rounds. -/
def Asks (walk : Action (Value × Noted σ) Unit) : Prop :=
  ∀ value t, AddsRounds t (walk (value, t)).1 (walk (value, t)).2.2

/-- Labelling at a key adds rounds. -/
theorem addsRounds_labelKey (hwalk : Asks walk) (key : Text) (node : Entries Value)
    (t : Noted σ) :
    let out := labelKey guide.noted walk key (node, t)
    AddsRounds t out.1 out.2.2 := by
  cases hget : node.get? key with
  | none =>
    rw [labelKey_of_absent hget]
    exact .of_eq rfl _
  | some value =>
    rcases uint64_or_not value with ⟨uid, rfl⟩ | hnot
    · have hresolve := resolve_noted guide uid t
      rcases hrun : NameCache.resolve guide.lookup uid (t.1, t.2.2) with ⟨e | _ | name, names, s⟩
      · rw [hrun] at hresolve
        rw [labelKey_of_unresolved hget hresolve]
        exact .of_eq rfl _
      · rw [hrun] at hresolve
        rw [labelKey_of_unnamed hget hresolve]
        exact .of_eq rfl _
      · rw [hrun] at hresolve
        rw [labelKey_of_named hget hresolve]
        split_ifs
        · exact addsRounds_addForKind _ (names, (t.2.1, s)) guide name
        · exact .of_eq rfl _
    · rw [labelKey_of_not_uid hget hnot]
      exact hwalk value t

/-- Labelling at keys in turn adds rounds. -/
theorem addsRounds_labelKeys (hwalk : Asks walk) (keys : List Text) (node : Entries Value)
    (t : Noted σ) :
    let out := labelKeys guide.noted walk keys (node, t)
    AddsRounds t out.1 out.2.2 := by
  induction keys generalizing node t with
  | nil => exact .of_eq rfl _
  | cons key rest ih =>
    have hkey := addsRounds_labelKey guide hwalk key node t
    rw [labelKeys]
    rcases hrun : labelKey guide.noted walk key (node, t) with ⟨e | ⟨⟩, node₁, t₁⟩
    · rw [hrun] at hkey
      rw [Action.bind_of_error hrun]
      exact hkey
    · rw [hrun] at hkey
      rw [Action.bind_of_ok hrun]
      exact hkey.trans (ih node₁ t₁)

/-- Labelling items adds rounds. -/
theorem addsRounds_labelItems (hwalk : Asks walk) (items : List Value) (t : Noted σ) :
    let out := labelItems walk items t
    AddsRounds t out.1 out.2.2 := by
  induction items generalizing t with
  | nil => exact .of_eq rfl _
  | cons item rest ih =>
    have hitem := hwalk item t
    rw [labelItems]
    rcases hrun : walk (item, t) with ⟨e | ⟨⟩, item₁, t₁⟩
    · rw [hrun] at hitem
      exact hitem
    · rw [hrun] at hitem
      exact hitem.trans (ih t₁)

/-- Labelling a value adds rounds. -/
theorem asks_labelValue (levels : Nat) : Asks (labelValue guide.noted levels) := by
  induction levels with
  | zero =>
    intro value t
    cases value <;> exact .of_eq rfl _
  | succ levels ih =>
    intro value t
    cases value with
    | array items => exact addsRounds_labelItems ih items t
    | dictionary entries => exact addsRounds_labelKeys guide ih (Entries.keys entries) entries t
    | _ => exact .of_eq rfl _

/-- Labelling a tree adds rounds. -/
theorem addsRounds_label (tree : Entries Value) (t : Noted σ) :
    let out := label guide.noted (tree, t)
    AddsRounds t out.1 out.2.2 :=
  addsRounds_labelKeys guide (asks_labelValue guide _) (Entries.keys tree) tree t

end Walk

end Labelling

end SwiftLens
