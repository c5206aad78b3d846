import SwiftLens.Inspection
import SwiftLens.Proofs.Inspection.Recording
import SwiftLens.Proofs.Labelling.Renaming

/-!
# What a walk asks

A walk asks what its guide asks and nothing else, and it stops at the first question that fails. Of its
own accord it stops in two cases only: at a mark comment that does not say where its text is, and when
it has gone deeper than it may (`keeps_labelled`). The second needs replies that together are deeper
than `allowance`: a walk goes down only into what the tree held and into what replies brought, so the
depth of what lies before it grows by no more than the depth of each reply. `Fits` states this as an
invariant of the walk, together with the guide's own invariant, and each part of the walk is shown to
keep it.
-/

namespace SwiftLens

/-! ### Depths -/

namespace Value

/-- A value that is written makes a dictionary no deeper than the value is. -/
theorem entriesDepth_set_le (key : Text) (value : Value) (entries : Entries Value) :
    entriesDepth (Entries.set key value entries) ≤ max value.depth (entriesDepth entries) := by
  induction entries with
  | nil => simp [Entries.set, entriesDepth]
  | cons entry rest ih =>
    obtain ⟨k, v⟩ := entry
    rw [Entries.set]
    split_ifs
    · simp only [entriesDepth]
      omega
    · simp only [entriesDepth]
      omega

end Value

namespace Labelling

/-- A reply that is merged makes a node no deeper than the reply is. -/
theorem entriesDepth_merge_le (reply node : Entries Value) :
    Value.entriesDepth (merge reply node) ≤
      max (Value.entriesDepth reply) (Value.entriesDepth node) := by
  unfold merge
  induction reply generalizing node with
  | nil => exact Nat.le_max_right _ _
  | cons entry rest ih =>
    obtain ⟨key, value⟩ := entry
    have hset := Value.entriesDepth_set_le key value node
    simp only [List.foldl_cons, Value.entriesDepth]
    split_ifs
    · have hrest := ih node
      omega
    · have hrest := ih (Entries.set key value node)
      omega

end Labelling

/-- An integer that can be read is at most the greatest safe one. -/
theorem Entries.integer?_le {d : Entries Value} {key : Text} {n : Int} (h : d.integer? key = some n) :
    n ≤ 2 ^ 53 - 1 := by
  have hsafe : Double.isSafe n = true := by
    unfold integer? at h
    split at h
    · obtain ⟨hsafe, heq⟩ := Option.ite_none_right_eq_some.mp h
      rwa [← Option.some.inj heq]
    · obtain ⟨hsafe, heq⟩ := Option.ite_none_right_eq_some.mp h
      rwa [← Option.some.inj heq]
    · cases h
  have hle : n.natAbs ≤ 2 ^ 53 - 1 := of_decide_eq_true hsafe
  omega

/-! ### Guides that keep to an invariant -/

variable {σ : Type}

/-- A guide that makes allowed exchanges only, in states that satisfy `inv`, and whose supplement is
about the given file. -/
structure Guide.IsSteady (guide : Guide σ) (log : σ → List Exchange) (allows : Exchange → Prop)
    (inv : σ → Prop) (file : Text) : Prop where
  lookup : ∀ uid s, inv s → (Terms.strict log allows).Keeps (guide.lookup uid) s fun _ t => inv t
  range : ∀ offset length s, inv s →
    (Terms.strict log allows).Keeps (guide.sources.range file offset length) s fun _ t => inv t
  sourceFile : ∀ supplement ∈ guide.supplement, ∀ s, inv s → supplement.sourceFile? s = some file
  log_setOffset : ∀ supplement ∈ guide.supplement, ∀ n s, log (supplement.setOffset n s) = log s
  send : ∀ supplement ∈ guide.supplement, ∀ n s, 0 ≤ n → n ≤ 2 ^ 53 - 1 → inv s →
    (Terms.strict log allows).Keeps supplement.send (supplement.setOffset n s) fun reply t =>
      inv t ∧ ∀ value ∈ reply, repliesDepth (log s) + value.depth ≤ repliesDepth (log t)

namespace Labelling

/-- The fault of a mark comment that does not say where in the file its text is, when the kind of mark
comments has been met. -/
def IsLostMark (file : Text) (names : NameCache) (e : Fault) : Prop :=
  ∃ offset length, e = .lostMark offset length (some file) ∧ (offset = none ∨ length = none) ∧
    Kind.mark ∈ names.map Prod.snd

/-- The terms of a walk that may meet replies of the given depth in all. -/
def terms (log : σ → List Exchange) (allows : Exchange → Prop) (file : Text) (limit : Nat) :
    Terms (State σ) where
  log s := log s.2
  allows := allows
  owns e s := IsLostMark file s.1 e ∨ (e = .tooDeep ∧ limit < repliesDepth (log s.2))

/-- The walk is no further down than the tree and the replies so far account for, when it stands
before something of the given depth and may go down the given number of levels. -/
def Fits (log : σ → List Exchange) (inv : σ → Prop) (limit levels depth : Nat) (s : State σ) : Prop :=
  inv s.2 ∧ depth + limit ≤ levels + repliesDepth (log s.2)

variable {log : σ → List Exchange} {allows : Exchange → Prop} {inv : σ → Prop} {file : Text}
  {limit levels : Nat} {guide : Guide σ}

/-- What fits goes on fitting while the record grows. -/
theorem Fits.of_prefix {depth : Nat} {s t : State σ} (h : Fits log inv limit levels depth s)
    (hinv : inv t.2) (hlog : log s.2 <+: log t.2) : Fits log inv limit levels depth t := by
  have hgrown := repliesDepth_le_of_prefix hlog
  have hdepth := h.2
  exact ⟨hinv, by omega⟩

/-- What is less deep fits as well. -/
theorem Fits.of_le {depth depth' : Nat} {s : State σ} (h : Fits log inv limit levels depth s)
    (hle : depth' ≤ depth) : Fits log inv limit levels depth' s := by
  have hdepth := h.2
  exact ⟨h.1, by omega⟩

/-- Writing a value that fits into a node that fits. -/
theorem Fits.set {node : Entries Value} {value : Value} {s : State σ}
    (hvalue : Fits log inv limit levels value.depth s)
    (hnode : Fits log inv limit levels (Value.entriesDepth node) s) (key : Text) :
    Fits log inv limit levels (Value.entriesDepth (Entries.set key value node)) s := by
  have hset := Value.entriesDepth_set_le key value node
  rcases Nat.le_total value.depth (Value.entriesDepth node) with hle | hle
  · exact hnode.of_le (by omega)
  · exact hvalue.of_le (by omega)

/-- With a string in it a node fits as before. -/
theorem Fits.set_string {node : Entries Value} {s : State σ}
    (h : Fits log inv limit levels (Value.entriesDepth node) s) (key text : Text) :
    Fits log inv limit levels (Value.entriesDepth (Entries.set key (.string text) node)) s :=
  Fits.set (h.of_le (Nat.zero_le _)) h key

/-- What the guide is asked keeps the terms of the walk. -/
theorem keeps_ask {α : Type} {a : Action σ α} {s : State σ} {post : α → State σ → Prop}
    (h : (Terms.strict log allows).Keeps a s.2 fun x t => post x (s.1, t)) :
    (terms log allows file limit).Keeps a.second s post :=
  Terms.Ends.imp h rfl (fun _ hx => hx) (fun _ he => he.elim) fun _ _ hx => hx

/-! ### At a node -/

/-- A name that is resolved is among the names found. -/
theorem keeps_resolve (hguide : guide.IsSteady log allows inv file) (uid : Int) {s : State σ}
    (h : inv s.2) :
    (terms log allows file limit).Keeps (NameCache.resolve guide.lookup uid) s fun name? t =>
      inv t.2 ∧ ∀ name ∈ name?, name ∈ t.1.map Prod.snd := by
  unfold NameCache.resolve
  split_ifs
  · exact Terms.keeps_pure ⟨h, by simp⟩
  · apply Terms.keeps_bind
    apply Terms.keeps_read
    cases hfind : NameCache.find? uid s.1 with
    | some name =>
      refine Terms.keeps_pure ⟨h, ?_⟩
      rintro _ ⟨⟩
      exact NameCache.mem_of_find? hfind
    | none =>
      apply Terms.keeps_bind
      apply keeps_ask
      refine (hguide.lookup uid s.2 h).imp ?_
      intro name? t _ ht
      cases name? with
      | none => exact Terms.keeps_pure ⟨ht, by simp⟩
      | some name =>
        apply Terms.keeps_bind
        apply Terms.keeps_modify rfl
        exact Terms.keeps_pure ⟨ht, by simp⟩

/-- Asking about a declaration. What the reply brings into the node is no deeper than the reply. -/
theorem keeps_addDeclaration (hguide : guide.IsSteady log allows inv file)
    {supplement : Supplement σ} (hsupplement : supplement ∈ guide.supplement) {node : Entries Value}
    {s : State σ} (h : Fits log inv limit levels (Value.entriesDepth node) s) :
    (terms log allows file limit).second.Keeps (addDeclaration supplement) (node, s) fun _ t =>
      Fits log inv limit levels (Value.entriesDepth t.1) t.2 := by
  unfold addDeclaration
  apply Terms.keeps_bind
  apply Terms.keeps_read
  cases hoffset : Entries.integer? node Key.nameOffset with
  | none => exact Terms.keeps_pure h
  | some offset =>
    dsimp only
    split_ifs with hneg
    · exact Terms.keeps_pure h
    · apply Terms.keeps_bind
      apply Terms.keeps_modify (hguide.log_setOffset supplement hsupplement offset s.2)
      apply Terms.keeps_bind
      apply Terms.keeps_second
      apply keeps_ask
      have hsend := hguide.send supplement hsupplement offset s.2 (by omega)
        (Entries.integer?_le hoffset) h.1
      refine hsend.imp ?_
      intro reply t hlog ⟨hinv, hreply⟩
      have hgrown : log s.2 <+: log t := by
        rw [← hguide.log_setOffset supplement hsupplement offset]
        exact hlog
      have hnode : Fits log inv limit levels (Value.entriesDepth node) (s.1, t) :=
        h.of_prefix hinv hgrown
      cases reply with
      | none => exact Terms.keeps_pure hnode
      | some value =>
        cases value with
        | dictionary reply =>
          -- The depth of the reply stands in the record now, so the node may have grown by as much.
          have hmerge := entriesDepth_merge_le reply node
          have hbrought := hreply (.dictionary reply) rfl
          have hdepth := h.2
          rw [Value.depth] at hbrought
          apply Terms.keeps_modify rfl
          refine ⟨hinv, ?_⟩
          dsimp only
          omega
        | _ => exact Terms.keeps_pure hnode

/-- Reading the text of a mark. -/
theorem keeps_addMark (hguide : guide.IsSteady log allows inv file)
    {supplement : Supplement σ} (hsupplement : supplement ∈ guide.supplement) {node : Entries Value}
    {s : State σ} (hmark : Kind.mark ∈ s.1.map Prod.snd)
    (h : Fits log inv limit levels (Value.entriesDepth node) s) :
    (terms log allows file limit).second.Keeps (addMark supplement guide.sources) (node, s) fun _ t =>
      Fits log inv limit levels (Value.entriesDepth t.1) t.2 := by
  unfold addMark
  apply Terms.keeps_bind
  apply Terms.keeps_read
  apply Terms.keeps_bind
  apply Terms.keeps_read
  simp only [hguide.sourceFile supplement hsupplement s.2 h.1]
  cases Entries.integer? node Key.offset with
  | none => exact Terms.keeps_fail (.inl ⟨none, _, rfl, .inl rfl, hmark⟩)
  | some offset =>
    cases Entries.integer? node Key.length with
    | none => exact Terms.keeps_fail (.inl ⟨some offset, none, rfl, .inr rfl, hmark⟩)
    | some length =>
      apply Terms.keeps_bind
      apply Terms.keeps_second
      apply keeps_ask
      refine (hguide.range _ _ s.2 h.1).imp ?_
      intro text t hlog hinv
      have hnode : Fits log inv limit levels (Value.entriesDepth node) (s.1, t) :=
        h.of_prefix hinv hlog
      apply Terms.keeps_modify rfl
      exact hnode.set_string Key.name text

/-- What is done at a node whose kind has been found. -/
theorem keeps_addForKind (hguide : guide.IsSteady log allows inv file) {kind : Text}
    {node : Entries Value} {s : State σ} (hkind : kind ∈ s.1.map Prod.snd)
    (h : Fits log inv limit levels (Value.entriesDepth node) s) :
    (terms log allows file limit).second.Keeps (addForKind guide kind) (node, s) fun _ t =>
      Fits log inv limit levels (Value.entriesDepth t.1) t.2 := by
  unfold addForKind
  cases hsupplement : guide.supplement with
  | none => exact Terms.keeps_pure h
  | some supplement =>
    dsimp only
    split_ifs with hdeclaration hmark
    · exact keeps_addDeclaration hguide hsupplement h
    · exact keeps_addMark hguide hsupplement (hmark ▸ hkind) h
    · exact Terms.keeps_pure h

/-! ### The walk -/

/-- A walk of values that keeps the terms, through the given number of levels. -/
def IsFitting (log : σ → List Exchange) (allows : Exchange → Prop) (inv : σ → Prop) (file : Text)
    (limit levels : Nat) (walk : Action (Value × State σ) Unit) : Prop :=
  ∀ value s, Fits log inv limit levels value.depth s →
    (terms log allows file limit).second.Keeps walk (value, s) fun _ t =>
      Fits log inv limit levels t.1.depth t.2

variable {walk : Action (Value × State σ) Unit}

/-- The value at a key is walked, and what comes of it is written back. -/
theorem keeps_atKey (hwalk : IsFitting log allows inv file limit levels walk) {key : Text}
    {value : Value} {node : Entries Value} {s : State σ} (hvalue : Entries.get? key node = some value)
    (h : Fits log inv limit levels (Value.entriesDepth node) s) :
    (terms log allows file limit).second.Keeps (atKey key value walk) (node, s) fun _ t =>
      Fits log inv limit levels (Value.entriesDepth t.1) t.2 := by
  have hkeeps := hwalk value s (h.of_le (Value.depth_le_of_get? hvalue))
  refine Terms.Ends.imp hkeeps rfl (fun _ hx => hx) (fun _ he => he) ?_
  intro _ hlog hwalked
  exact hwalked.set (h.of_prefix hwalked.1 hlog) key

/-- Labelling at a key keeps the terms, and what it leaves fits. -/
theorem keeps_labelKey (hguide : guide.IsSteady log allows inv file)
    (hwalk : IsFitting log allows inv file limit levels walk) (key : Text) {node : Entries Value}
    {s : State σ} (h : Fits log inv limit levels (Value.entriesDepth node) s) :
    (terms log allows file limit).second.Keeps (labelKey guide walk key) (node, s) fun _ t =>
      Fits log inv limit levels (Value.entriesDepth t.1) t.2 := by
  unfold labelKey
  apply Terms.keeps_bind
  apply Terms.keeps_read
  dsimp only
  cases hvalue : Entries.get? key node with
  | none => exact Terms.keeps_pure h
  | some value =>
    cases value with
    | uint64 uid =>
      apply Terms.keeps_bind
      apply Terms.keeps_second
      refine (keeps_resolve hguide uid h.1).imp ?_
      intro name? t hlog ⟨hinv, hname⟩
      have hnode : Fits log inv limit levels (Value.entriesDepth node) t := h.of_prefix hinv hlog
      cases name? with
      | none => exact Terms.keeps_pure hnode
      | some name =>
        apply Terms.keeps_bind
        apply Terms.keeps_modify rfl
        split_ifs
        · exact keeps_addForKind hguide (hname name rfl) (hnode.set_string key name)
        · exact Terms.keeps_pure (hnode.set_string key name)
    | _ => exact keeps_atKey hwalk hvalue h

/-- Labelling at keys in turn keeps the terms, and what it leaves fits. -/
theorem keeps_labelKeys (hguide : guide.IsSteady log allows inv file)
    (hwalk : IsFitting log allows inv file limit levels walk) (keys : List Text) {node : Entries Value}
    {s : State σ} (h : Fits log inv limit levels (Value.entriesDepth node) s) :
    (terms log allows file limit).second.Keeps (labelKeys guide walk keys) (node, s) fun _ t =>
      Fits log inv limit levels (Value.entriesDepth t.1) t.2 := by
  induction keys generalizing node s with
  | nil => exact Terms.keeps_pure h
  | cons key rest ih =>
    apply Terms.keeps_bind
    refine (keeps_labelKey hguide hwalk key h).imp ?_
    intro _ t _ ht
    exact ih ht

/-- Items fit if the first does and the others do. -/
theorem Fits.cons {item : Value} {items : List Value} {s : State σ}
    (hitem : Fits log inv limit levels item.depth s)
    (hitems : Fits log inv limit levels (Value.itemsDepth items) s) :
    Fits log inv limit levels (Value.itemsDepth (item :: items)) s := by
  have hdepth := hitem.2
  have hdepths := hitems.2
  refine ⟨hitem.1, ?_⟩
  rw [Value.itemsDepth]
  omega

/-- Labelling items keeps the terms, and what it leaves fits. -/
theorem keeps_labelItems (hwalk : IsFitting log allows inv file limit levels walk) (items : List Value)
    {s : State σ} (h : Fits log inv limit levels (Value.itemsDepth items) s) :
    (terms log allows file limit).second.Keeps (fun s => labelItems walk s.1 s.2) (items, s) fun _ t =>
      Fits log inv limit levels (Value.itemsDepth t.1) t.2 := by
  induction items generalizing s with
  | nil => exact Terms.ends_ok h
  | cons item rest ih =>
    have hitem := hwalk item s (h.of_le (Nat.le_max_left _ _))
    have hrest : Fits log inv limit levels (Value.itemsDepth rest) s := h.of_le (Nat.le_max_right _ _)
    unfold Terms.Keeps at hitem ⊢
    rcases hrun : walk (item, s) with ⟨r, item', t⟩
    rw [hrun] at hitem
    simp only [labelItems, hrun]
    cases r with
    | error e =>
      refine Terms.Ends.imp hitem rfl (fun _ hx => hx) (fun _ he => he) ?_
      intro _ hlog ht
      exact ht.cons (hrest.of_prefix ht.1 hlog)
    | ok _ =>
      obtain ⟨made, hmade, hallowed, hanswered, ht⟩ := hitem
      have hstart : log s.2 <+: log t.2 := ⟨made, hmade.symm⟩
      have hwalked := ih (hrest.of_prefix ht.1 hstart)
      unfold Terms.Keeps at hwalked
      rcases hrest' : labelItems walk rest t with ⟨r', rest', t'⟩
      simp only [hrest'] at hwalked ⊢
      refine Terms.Ends.continued (t := (rest, t)) ?_ hmade hallowed hanswered
      refine Terms.Ends.imp hwalked rfl (fun _ hx => hx) (fun _ he => he) ?_
      intro _ hlog ht'
      exact Fits.cons (ht.of_prefix ht'.1 hlog) ht'

/-- One level down: a container is one deeper than what it holds. -/
theorem fits_succ_iff {depth : Nat} {s : State σ} :
    Fits log inv limit (levels + 1) (depth + 1) s ↔ Fits log inv limit levels depth s := by
  unfold Fits
  rw [Nat.add_right_comm depth, Nat.add_right_comm levels, Nat.succ_le_succ_iff]

/-- Labelling a value keeps the terms. -/
theorem isFitting_labelValue (hguide : guide.IsSteady log allows inv file) (levels : Nat) :
    IsFitting log allows inv file limit levels (labelValue guide levels) := by
  induction levels with
  | zero =>
    intro value s h
    -- A container that still fits here has been brought in by replies.
    have hdeep : 0 < value.depth → limit < repliesDepth (log s.2) := by
      intro hpos
      have hdepth := h.2
      omega
    cases value with
    | array items => exact Terms.ends_error (.inr ⟨rfl, hdeep (Nat.succ_pos _)⟩)
    | dictionary entries => exact Terms.ends_error (.inr ⟨rfl, hdeep (Nat.succ_pos _)⟩)
    | _ => exact Terms.ends_ok h
  | succ levels ih =>
    intro value s h
    cases value with
    | array items =>
      have hitems := keeps_labelItems ih items (fits_succ_iff.mp h)
      refine Terms.Ends.imp hitems rfl (fun _ hx => hx) (fun _ he => he) ?_
      intro _ _ ht
      exact fits_succ_iff.mpr ht
    | dictionary entries =>
      have hkeys := keeps_labelKeys hguide ih (Entries.keys entries) (fits_succ_iff.mp h)
      refine Terms.Ends.imp hkeys rfl (fun _ hx => hx) (fun _ he => he) ?_
      intro _ _ ht
      exact fits_succ_iff.mpr ht
    | _ => exact Terms.ends_ok h

/-- Labelling a response makes allowed exchanges only and stops at the first that fails. Of its own
accord it stops at a lost mark, or when the replies it was given are deeper than `allowance` in all. -/
theorem keeps_labelled (hguide : guide.IsSteady log allows inv file) (response : Entries Value)
    {s : State σ} (h : inv s.2) :
    (terms log allows file (allowance + repliesDepth (log s.2))).Keeps
      (Inspection.labelled guide response) s fun _ t => inv t.2 := by
  have hfits : Fits log inv (allowance + repliesDepth (log s.2))
      (Value.entriesDepth response + allowance) (Value.entriesDepth response) s :=
    ⟨h, by omega⟩
  have hkeys := keeps_labelKeys hguide (isFitting_labelValue hguide _) (Entries.keys response) hfits
  obtain ⟨made, hmade, hallowed, hsettles⟩ := hkeys.imp fun _ _ _ ht => ht.1
  unfold Terms.Keeps Inspection.labelled
  rcases hrun : label guide (response, s) with ⟨r, tree, t⟩
  rw [label] at hrun
  rw [hrun] at hmade hsettles
  cases r with
  | ok _ => exact ⟨made, hmade, hallowed, hsettles⟩
  | error e => exact ⟨made, hmade, hallowed, hsettles⟩

end Labelling

end SwiftLens
