import Mathlib.Data.List.Nodup
import SwiftLens.Proofs.Inspection.Transparency

/-!
# Sessions

The inspections of a session share the names that were found. A name is found by any of them, also by
one that fails later on, and it is used by all that come after. `results_of_session` says that nobody
sees this in a result: with a service and a reader whose answers depend on nothing but the question,
each inspection of a session has the result, or the fault, that it has on its own, with no names found
before. What can be seen is what is asked: in a whole session no identifier is named twice.

Both come from one relation between the state of the session and that of the inspection on its own:
each knows only names that the service gives, and in the session the names known are those, one by one,
that the service has given (`KeepsAccount`). Every question keeps the relation, so inspections that are
related go on alike (`Inspection.matches_perform`).
-/

namespace SwiftLens

variable {σ τ : Type}

/-! ### Sessions -/

/-- An inspection to make. -/
inductive Inquiry where
  /-- For the structure of a file. -/
  | outline (file : Text)
  /-- For the tokens of a source. -/
  | tokens (source : SourceInput)
  /-- For the documentation of the files among compiler arguments. -/
  | docs (compilerArgs : List Text)
  /-- For the offsets of the documented identifiers of a file. -/
  | docOffsets (file : Text)

/-- What an inspection finds. -/
inductive Finding where
  | outline (tree : Entries Value)
  | tokens (tokens : List Token)
  | docs (files : List FileDocs)
  | docOffsets (offsets : List Int)

namespace Inspection

/-- Make an inspection. -/
def perform (backend : Backend σ) (reader : SourceReader σ) :
    Inquiry → Action (NameCache × σ) Finding
  | .outline file => do
    let tree ← structureOf backend reader file
    pure (.outline tree)
  | .tokens source => do
    let tokens ← tokensOf backend source
    pure (.tokens tokens)
  | .docs compilerArgs => do
    let files ← docs backend reader compilerArgs
    pure (.docs files)
  | .docOffsets file => do
    let offsets ← documentedOffsets backend reader file
    pure (.docOffsets offsets)

/-- Make inspections one after the other, whatever comes of each. -/
def session (backend : Backend σ) (reader : SourceReader σ) :
    List Inquiry → NameCache × σ → List (Except Fault Finding) × (NameCache × σ)
  | [], s => ([], s)
  | inquiry :: rest, s =>
    match perform backend reader inquiry s with
    | (result, s) =>
      match session backend reader rest s with
      | (results, s) => (result :: results, s)

/-- A session makes its first inspection and then the others, from what that one left. -/
theorem session_cons (backend : Backend σ) (reader : SourceReader σ) (inquiry : Inquiry)
    (rest : List Inquiry) (s : NameCache × σ) :
    session backend reader (inquiry :: rest) s =
      ((perform backend reader inquiry s).1 ::
          (session backend reader rest (perform backend reader inquiry s).2).1,
        (session backend reader rest (perform backend reader inquiry s).2).2) := rfl

/-- With services and readers that match, every inspection matches. -/
theorem matches_perform {R : NameCache × σ → NameCache × τ → Prop} {backend : Backend σ}
    {backend' : Backend τ} {reader : SourceReader σ} {reader' : SourceReader τ}
    (h : Peers R backend backend' reader reader') (inquiry : Inquiry) :
    Action.Matches R (perform backend reader inquiry) (perform backend' reader' inquiry) := by
  cases inquiry with
  | outline file => exact (matches_structureOf h file).bind fun _ => Action.Matches.pure _
  | tokens source => exact (matches_tokensOf h source).bind fun _ => Action.Matches.pure _
  | docs args => exact (matches_docs h args).bind fun _ => Action.Matches.pure _
  | docOffsets file => exact (matches_documentedOffsets h file).bind fun _ => Action.Matches.pure _

/-- With services and readers that match, sessions have the same results. -/
theorem matches_session {R : NameCache × σ → NameCache × τ → Prop} {backend : Backend σ}
    {backend' : Backend τ} {reader : SourceReader σ} {reader' : SourceReader τ}
    (h : Peers R backend backend' reader reader') (inquiries : List Inquiry) {s : NameCache × σ}
    {t : NameCache × τ} (hs : R s t) :
    (session backend reader inquiries s).1 = (session backend' reader' inquiries t).1 ∧
      R (session backend reader inquiries s).2 (session backend' reader' inquiries t).2 := by
  induction inquiries generalizing s t with
  | nil => exact ⟨rfl, hs⟩
  | cons inquiry rest ih =>
    obtain ⟨hresult, hstate⟩ := matches_perform h inquiry s t hs
    obtain ⟨hresults, hend⟩ := ih hstate
    rw [session_cons, session_cons, hresult, hresults]
    exact ⟨rfl, hend⟩

end Inspection

/-! ### Answers that depend on the question only -/

/-- The result of an action is the same in every state. -/
def Action.IsConstant {α : Type} (a : Action σ α) : Prop := ∀ s t, (a s).1 = (a t).1

/-- A service whose answers and faults depend on the question only. -/
structure Backend.IsConstant (backend : Backend σ) : Prop where
  uidOf : ∀ name, (backend.uidOf name).IsConstant
  nameOf : ∀ uid, (backend.nameOf uid).IsConstant
  respond : ∀ request, (backend.respond request).IsConstant

/-- A reader of source text that does not change. -/
structure SourceReader.IsConstant (reader : SourceReader σ) : Prop where
  whole : ∀ file, (reader.whole file).IsConstant
  range : ∀ file offset length, (reader.range file offset length).IsConstant

/-- The names that a service gives in a state. -/
def Backend.names (backend : Backend σ) (s : σ) (uid : Int) : Option Text :=
  match (backend.nameOf uid s).1 with
  | .ok name? => name?
  | .error _ => none

/-- The names that a constant service gives do not depend on the state it is asked in. -/
theorem Backend.names_eq_some_iff {backend : Backend σ} (h : backend.IsConstant) {s t : σ} {uid : Int}
    {name : Text} : backend.names s uid = some name ↔ (backend.nameOf uid t).1 = .ok (some name) := by
  rw [h.nameOf uid t s]
  unfold names
  cases (backend.nameOf uid s).1 <;> simp

/-! ### The names of a session -/

/-- The identifier that an exchange names. -/
def Exchange.named? : Exchange → Option Int
  | nameOf uid (.ok (some _)) => some uid
  | _ => none

/-- In a session with a record, the names known are those of `f`, and they are those that the service has
been asked for and has given, each once. -/
structure KeepsAccount (f : Int → Option Text) (s : NameCache × (List Exchange × σ)) : Prop where
  agrees : s.1.Agrees f
  account : s.2.1.filterMap Exchange.named? = s.1.map Prod.fst
  nodup : (s.1.map Prod.fst).Nodup

variable {f : Int → Option Text}

/-- A session that has not begun keeps its account. -/
theorem keepsAccount_nil (s : σ) : KeepsAccount f ([], ([], s)) :=
  ⟨NameCache.agrees_nil f, rfl, List.nodup_nil⟩

/-- An exchange that names nothing leaves the account as it is. -/
theorem KeepsAccount.of_unnamed {s : NameCache × (List Exchange × σ)} (h : KeepsAccount f s)
    {x : Exchange} (hx : x.named? = none) (t : σ) : KeepsAccount f (s.1, (s.2.1 ++ [x], t)) := by
  refine ⟨h.agrees, ?_, h.nodup⟩
  rw [List.filterMap_append, h.account]
  simp [hx]

/-- A name that is given is new and is kept. -/
theorem KeepsAccount.of_named {s : NameCache × (List Exchange × σ)} (h : KeepsAccount f s) {uid : Int}
    {name : Text} (hname : f uid = some name) (hnew : s.1.find? uid = none) (t : σ) :
    KeepsAccount f (s.1 ++ [(uid, name)], (s.2.1 ++ [.nameOf uid (.ok (some name))], t)) := by
  rw [NameCache.find?_eq_none_iff] at hnew
  refine ⟨h.agrees.concat hname, ?_, ?_⟩
  · rw [List.filterMap_append, h.account, List.map_append]
    rfl
  · rw [List.map_append]
    exact List.Nodup.append h.nodup (List.nodup_singleton uid) (List.disjoint_singleton.mpr hnew)

/-- Resolving with a record keeps the account. -/
theorem KeepsAccount.resolve {backend : Backend σ} (hgives : NameCache.Gives f backend.nameOf)
    {s : NameCache × (List Exchange × σ)} (h : KeepsAccount f s) (uid : Int) :
    KeepsAccount f (NameCache.resolve backend.recorded.nameOf uid s).2 := by
  rw [NameCache.resolve_eq]
  split_ifs
  · exact h
  · cases hfind : s.1.find? uid with
    | some name => exact h
    | none =>
      rcases hrun : backend.nameOf uid s.2.2 with ⟨answer, t⟩
      have hnoted : backend.recorded.nameOf uid s.2 = (answer, (s.2.1 ++ [.nameOf uid answer], t)) :=
        Action.noted_of_eq hrun
      rw [hnoted]
      match answer with
      | .error e => exact h.of_unnamed rfl t
      | .ok none => exact h.of_unnamed rfl t
      | .ok (some name) =>
        have hname := hgives uid s.2.2 (some name) (by rw [hrun])
        exact h.of_named hname.symm hfind t

/-- With names that agree with those of the service, resolving has the result of looking up. -/
theorem NameCache.resolve_of_agrees {lookup : Int → Action σ (Option Text)} {uid : Int}
    {s : NameCache × σ} (hnames : ∀ name, f uid = some name → (lookup uid s.2).1 = .ok (some name))
    (h : s.1.Agrees f) :
    (resolve lookup uid s).1 = if uid < leastUid then .ok none else (lookup uid s.2).1 := by
  rw [resolve_eq]
  split_ifs
  · rfl
  · cases hfind : find? uid s.1 with
    | some name => exact (hnames name (h uid name hfind)).symm
    | none => rfl

/-! ### A session and an inspection on its own -/

/-- The state of a session with a record, and a state without one in which the names known are right. -/
def InStep (f : Int → Option Text) (s : NameCache × (List Exchange × σ)) (t : NameCache × σ) : Prop :=
  KeepsAccount f s ∧ t.1.Agrees f

/-- A question other than for a name has the same answer on both sides and changes no names. -/
theorem matches_of_constant {α : Type} {a : Action σ α} (ha : a.IsConstant)
    {note : Except Fault α → Exchange} (hnote : ∀ r, (note r).named? = none) :
    Action.Matches (InStep f) (a.noted note).second a.second :=
  fun s t hs => ⟨ha s.2.2 t.2, hs.1.of_unnamed (hnote _) _, hs.2⟩

/-- A recorded service keeps step with the service, if its answers do not change. -/
theorem peers_inStep {backend : Backend σ} {reader : SourceReader σ} (hbackend : backend.IsConstant)
    (hreader : reader.IsConstant) (s₀ : σ) :
    Peers (InStep (backend.names s₀)) backend.recorded backend reader.recorded reader where
  uidOf name := matches_of_constant (hbackend.uidOf name) fun _ => rfl
  resolve := by
    have hgives : NameCache.Gives (backend.names s₀) backend.nameOf := by
      intro uid s name? h
      rw [Backend.names, hbackend.nameOf uid s₀ s, h]
    intro uid s t hs
    refine ⟨?_, hs.1.resolve hgives uid, NameCache.agrees_resolve hgives uid hs.2⟩
    have hleft : (NameCache.resolve backend.recorded.nameOf uid s).1 =
        if uid < leastUid then .ok none else (backend.nameOf uid s.2.2).1 :=
      NameCache.resolve_of_agrees (fun name => (Backend.names_eq_some_iff hbackend).mp) hs.1.agrees
    have hright : (NameCache.resolve backend.nameOf uid t).1 =
        if uid < leastUid then .ok none else (backend.nameOf uid t.2).1 :=
      NameCache.resolve_of_agrees (fun name => (Backend.names_eq_some_iff hbackend).mp) hs.2
    rw [hleft, hright, hbackend.nameOf uid s.2.2 t.2]
  respond request := matches_of_constant (hbackend.respond request) fun _ => rfl
  whole file := matches_of_constant (hreader.whole file) fun _ => rfl
  range file offset length := matches_of_constant (hreader.range file offset length) fun _ => rfl

namespace Inspection

variable {backend : Backend σ} {reader : SourceReader σ}

/-- The results of a session are those of its inspections, each on its own, and it keeps its account. -/
theorem session_recorded (hbackend : backend.IsConstant) (hreader : reader.IsConstant) (s₀ t : σ)
    (inquiries : List Inquiry) {s : NameCache × (List Exchange × σ)}
    (h : KeepsAccount (backend.names s₀) s) :
    (session backend.recorded reader.recorded inquiries s).1 =
        inquiries.map (fun inquiry => (perform backend reader inquiry ([], t)).1) ∧
      KeepsAccount (backend.names s₀) (session backend.recorded reader.recorded inquiries s).2 := by
  induction inquiries generalizing s with
  | nil => exact ⟨rfl, h⟩
  | cons inquiry rest ih =>
    obtain ⟨hresult, hstep⟩ := matches_perform (peers_inStep hbackend hreader s₀) inquiry s ([], t)
      ⟨h, NameCache.agrees_nil _⟩
    obtain ⟨hresults, haccount⟩ := ih hstep.1
    rw [session_cons, List.map_cons, hresult, hresults]
    exact ⟨rfl, haccount⟩

/-- The service and the reader of a session may have any state, as long as their answers depend on the
question only. Then every inspection of the session, also after others that failed, has the result that
it has with no names found before and in any other state. And in the whole session, as its record
shows, no identifier is given a name twice. -/
theorem results_of_session (hbackend : backend.IsConstant) (hreader : reader.IsConstant)
    (inquiries : List Inquiry) (s t : σ) :
    let recorded := session backend.recorded reader.recorded inquiries ([], ([], s))
    (session backend reader inquiries ([], s)).1 =
        inquiries.map (fun inquiry => (perform backend reader inquiry ([], t)).1) ∧
      session backend reader inquiries ([], s) =
        (recorded.1, (recorded.2.1, recorded.2.2.2)) ∧
      ∀ uid, (recorded.2.2.1.filterMap Exchange.named?).count uid ≤ 1 := by
  intro recorded
  obtain ⟨hresults, haccount⟩ := session_recorded hbackend hreader s t inquiries (keepsAccount_nil s)
  have hforget : Action.SameFirst (fun s t => s.2 = t) (([], ([], s)) : NameCache × (List Exchange × σ))
      ([], s) := ⟨rfl, rfl⟩
  obtain ⟨hsame, hnames, hstate⟩ := matches_session (peers_recorded backend reader) inquiries hforget
  refine ⟨?_, ?_, ?_⟩
  · rw [← hsame]
    exact hresults
  · exact Prod.ext hsame.symm (Prod.ext hnames.symm hstate.symm)
  · intro uid
    rw [haccount.account]
    exact List.nodup_iff_count_le_one.mp haccount.nodup uid

/-- A service that knows one name, opens every source with a kind of that name, and has no tokens. -/
def oneName : Backend Nat where
  connect := pure ()
  uidOf _ := pure leastUid
  nameOf uid := fun n => (.ok (if uid = leastUid then some "kind" else none), n + 1)
  respond _ := pure (.dictionary [(Key.kind, .uint64 leastUid)])
  disconnect := pure ()
  notes s := ([], s)

/-- In a session of two outlines, with an inspection in between that fails, the second outline is the
first one again, and the name is asked for once. -/
theorem results_of_session_oneName :
    let reader : SourceReader Nat := Sources.ofTexts []
    let inquiries : List Inquiry := [.outline "a.swift", .tokens (.text ""), .outline "b.swift"]
    let tree : Entries Value := [(Key.kind, .string "kind")]
    (session oneName reader inquiries ([], 0)).1 =
        [.ok (.outline tree), .error (.noTokens none), .ok (.outline tree)] ∧
      ∀ uid, ((session oneName.recorded reader.recorded inquiries ([], ([], 0))).2.2.1.filterMap
        Exchange.named?).count uid ≤ 1 := by
  intro reader inquiries tree
  have hbackend : oneName.IsConstant :=
    ⟨fun _ _ _ => rfl, fun _ _ _ => rfl, fun _ _ _ => rfl⟩
  have hreader : reader.IsConstant := ⟨fun _ _ _ => rfl, fun _ _ _ _ _ => rfl⟩
  obtain ⟨hresults, -, hcount⟩ := results_of_session hbackend hreader inquiries 0 7
  refine ⟨?_, hcount⟩
  rw [hresults]
  rfl

end Inspection

end SwiftLens
