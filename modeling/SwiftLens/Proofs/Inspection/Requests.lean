import SwiftLens.Proofs.Inspection.Discipline
import SwiftLens.Proofs.Inspection.Session

/-!
# The requests of a session

A session makes two kinds of requests, and each is built under an identifier for which the service was
asked: `Request.IsBuilt` says what they look like and `Request.IsGrounded` that the record shows the
identifier. `allGrounded_session` is that every request of every session is grounded, whatever the
service answers. So what is known of the identifiers that a service gives is known of the requests that
it gets.

A property of the state that every question preserves is preserved by a whole session
(`session_preserves`): it is the case of two inspections side by side that are one and the same.
-/

namespace SwiftLens

variable {α σ : Type}

/-! ### What a session preserves -/

open SwiftLens.Action (Matches SameFirst Diagonal matches_diagonal_iff matches_sameFirst_diagonal_iff)

/-- What each question to a service and each reading of source text preserves. -/
structure Preserved (P : σ → Prop) (backend : Backend σ) (reader : SourceReader σ) : Prop where
  uidOf : ∀ name, (backend.uidOf name).Preserves P
  nameOf : ∀ uid, (backend.nameOf uid).Preserves P
  respond : ∀ request, (backend.respond request).Preserves P
  whole : ∀ file, (reader.whole file).Preserves P
  range : ∀ file offset length, (reader.range file offset length).Preserves P

/-- What every question preserves makes a service and a reader match themselves. -/
theorem Preserved.peers {P : σ → Prop} {backend : Backend σ} {reader : SourceReader σ}
    (h : Preserved P backend reader) :
    Peers (SameFirst (Diagonal P)) backend backend reader reader where
  uidOf name := (matches_diagonal_iff.mpr (h.uidOf name)).second
  resolve := NameCache.matches_resolve fun uid => matches_diagonal_iff.mpr (h.nameOf uid)
  respond request := (matches_diagonal_iff.mpr (h.respond request)).second
  whole file := (matches_diagonal_iff.mpr (h.whole file)).second
  range file offset length := (matches_diagonal_iff.mpr (h.range file offset length)).second

/-- What each question preserves is preserved by an inspection. -/
theorem Inspection.perform_preserves {P : σ → Prop} {backend : Backend σ} {reader : SourceReader σ}
    (h : Preserved P backend reader) (inquiry : Inquiry) :
    (perform backend reader inquiry).Preserves fun s => P s.2 :=
  matches_sameFirst_diagonal_iff.mp (matches_perform h.peers inquiry)

/-- What each question preserves is preserved by a session. -/
theorem Inspection.session_preserves {P : σ → Prop} {backend : Backend σ} {reader : SourceReader σ}
    (h : Preserved P backend reader) (inquiries : List Inquiry) {s : NameCache × σ} (hs : P s.2) :
    P (session backend reader inquiries s).2.2 :=
  (matches_session h.peers inquiries (t := s) ⟨rfl, rfl, hs⟩).2.2.2

/-! ### Requests -/

namespace Request

/-- The requests that are built under the identifier of a name: to open a source, and to ask what stands
at an offset that a double can count. -/
inductive IsBuilt (uid : Int) : (name : Text) → Entries Value → Prop where
  | opening (source : SourceInput) : IsBuilt uid Kind.openRequest (opening uid source)
  | cursor (args : List Text) (file : Text) {offset : Int} (hlow : 0 ≤ offset)
      (hhigh : offset ≤ 2 ^ 53 - 1) :
      IsBuilt uid Kind.cursorRequest (CursorQuery.complete uid args file offset)

/-- A request is built under an identifier that the record shows. -/
def IsGrounded (record : List Exchange) (request : Entries Value) : Prop :=
  ∃ name uid, .uidOf name (.ok uid) ∈ record ∧ IsBuilt uid name request

/-- A request that is grounded stays so when the record goes on. -/
theorem IsGrounded.mono {record more : List Exchange} {request : Entries Value}
    (h : IsGrounded record request) (hsub : record ⊆ more) : IsGrounded more request := by
  obtain ⟨name, uid, hmem, hbuilt⟩ := h
  exact ⟨name, uid, hsub hmem, hbuilt⟩

end Request

open Request (IsBuilt IsGrounded)

/-- Every request of a record is grounded in it. -/
def AllGrounded (record : List Exchange) : Prop :=
  ∀ request answer, .respond request answer ∈ record → IsGrounded record request

/-- Where no request was made all are grounded. -/
theorem allGrounded_nil : AllGrounded [] := fun _ _ h => absurd h List.not_mem_nil

/-- Two records in which all requests are grounded are one such record. -/
theorem AllGrounded.append {record more : List Exchange} (h : AllGrounded record)
    (hmore : AllGrounded more) : AllGrounded (record ++ more) := by
  intro request answer hmem
  rcases List.mem_append.mp hmem with hmem | hmem
  · exact (h request answer hmem).mono (List.subset_append_left record more)
  · exact (hmore request answer hmem).mono (List.subset_append_right record more)

/-- An exchange that is no request needs no ground. -/
theorem allGrounded_singleton {x : Exchange} (hx : ∀ request answer, x ≠ .respond request answer) :
    AllGrounded [x] := by
  intro request answer hmem
  exact absurd (List.mem_singleton.mp hmem).symm (hx request answer)

/-- What is written down and is no request leaves all requests grounded. -/
theorem AllGrounded.noted {a : Action σ α} {note : Except Fault α → Exchange}
    (hnote : ∀ r request answer, note r ≠ .respond request answer) :
    (a.noted note).Preserves fun s => AllGrounded s.1 :=
  fun _ hs => hs.append (allGrounded_singleton (hnote _))

namespace Inspection

variable {backend : Backend σ} {reader : SourceReader σ}

/-! ### Openings -/

/-- Opening a source asks for an identifier and makes one request under it. -/
theorem allGrounded_openSource (source : SourceInput) :
    (openSource backend.recorded source).Preserves fun s => AllGrounded s.1 := by
  intro s hs
  rcases huid : backend.uidOf Kind.openRequest s.2 with ⟨r, t⟩
  have hnamed : backend.recorded.uidOf Kind.openRequest s =
      (r, (s.1 ++ [.uidOf Kind.openRequest r], t)) := Action.noted_of_eq huid
  have hasked : AllGrounded (s.1 ++ [.uidOf Kind.openRequest r]) :=
    hs.append (allGrounded_singleton (by simp))
  cases r with
  | error e =>
    have hrequest := Action.bind_of_error hnamed fun uid => pure (Request.opening uid source)
    unfold openSource Request.openSource
    rw [Action.bind_of_error hrequest]
    exact hasked
  | ok uid =>
    have hrequest : Request.openSource backend.recorded source s =
        (.ok (Request.opening uid source), (s.1 ++ [.uidOf Kind.openRequest (.ok uid)], t)) :=
      Action.bind_of_ok hnamed _
    rcases hreply : backend.respond (Request.opening uid source) t with ⟨r, t'⟩
    have hresponse : backend.recorded.respond (Request.opening uid source)
          (s.1 ++ [.uidOf Kind.openRequest (.ok uid)], t) =
        (r, (s.1 ++ [.uidOf Kind.openRequest (.ok uid)] ++ [.respond (Request.opening uid source) r],
          t')) := Action.noted_of_eq hreply
    have hgrounded : AllGrounded (s.1 ++ [.uidOf Kind.openRequest (.ok uid)]
        ++ [.respond (Request.opening uid source) r]) := by
      intro request answer hmem
      rcases List.mem_append.mp hmem with hmem | hmem
      · exact (hasked request answer hmem).mono (List.subset_append_left _ _)
      · obtain ⟨rfl, -⟩ := Exchange.respond.inj (List.mem_singleton.mp hmem)
        exact ⟨Kind.openRequest, uid, by simp, .opening source⟩
    unfold openSource
    rw [Action.bind_of_ok hrequest]
    cases r with
    | error e =>
      rw [Action.bind_of_error hresponse]
      exact hgrounded
    | ok found =>
      rw [Action.bind_of_ok hresponse]
      cases found <;> exact hgrounded

/-- What the record of an inspection without requests other than its opening may be. -/
abbrev Grounded (σ : Type) : List Exchange × σ → List Exchange × σ → Prop :=
  Diagonal fun s => AllGrounded s.1

/-- Opening a source makes grounded requests. -/
theorem matches_openSource_grounded (source : SourceInput) :
    Matches (SameFirst (Grounded σ) : NameCache × _ → NameCache × _ → Prop)
      (openSource backend.recorded source).second (openSource backend.recorded source).second :=
  (matches_diagonal_iff.mpr (allGrounded_openSource source)).second

/-- Resolving makes no request. -/
theorem matches_resolve_grounded (uid : Int) :
    Matches (SameFirst (Grounded σ)) (NameCache.resolve backend.recorded.nameOf uid)
      (NameCache.resolve backend.recorded.nameOf uid) :=
  NameCache.matches_resolve (fun _ => matches_diagonal_iff.mpr (AllGrounded.noted (by simp))) uid

/-- The inspection of a structure makes grounded requests. -/
theorem matches_structureOf_grounded (file : Text) :
    Matches (SameFirst (Grounded σ)) (structureOf backend.recorded reader.recorded file)
      (structureOf backend.recorded reader.recorded file) := by
  apply Matches.bind (matches_openSource_grounded (.file file))
  intro response
  refine matches_labelled ⟨matches_resolve_grounded, .none, fun file offset length => ?_⟩ _
  exact (matches_diagonal_iff.mpr (AllGrounded.noted (by simp))).second

/-- The inspection of tokens makes grounded requests. -/
theorem matches_tokensOf_grounded (source : SourceInput) :
    Matches (SameFirst (Grounded σ)) (tokensOf backend.recorded source)
      (tokensOf backend.recorded source) := by
  apply Matches.bind (matches_openSource_grounded source)
  intro response
  apply Matches.bind (Matches.ofExcept _)
  intro bytes
  apply Matches.bind (Matches.ofExcept _)
  intro records
  exact Token.matches_nameAll matches_resolve_grounded records 0

/-- The inspection of documented identifiers makes grounded requests. -/
theorem matches_documentedOffsets_grounded (file : Text) :
    Matches (SameFirst (Grounded σ)) (documentedOffsets backend.recorded reader.recorded file)
      (documentedOffsets backend.recorded reader.recorded file) := by
  apply Matches.bind (matches_openSource_grounded (.file file))
  intro response
  apply Matches.bind (Matches.ofExcept _)
  intro bytes
  apply Matches.bind
  · apply Matches.bind (Matches.ofExcept _)
    exact fun records => Token.matches_identifiersAmong matches_resolve_grounded records 0
  · intro identifiers
    apply Matches.bind
    · exact (matches_diagonal_iff.mpr (AllGrounded.noted (by simp))).second
    · exact fun source => Matches.pure _

/-! ### Documentation -/

/-- Where a file is opened, every request is grounded. -/
theorem Opens.isGrounded {file : Text} {opening : List Exchange} {r : Except Fault (Entries Value)}
    (h : Opens file opening r) {request : Entries Value} {answer : Except Fault Value}
    (hmem : .respond request answer ∈ opening) : IsGrounded opening request := by
  cases h with
  | unnamed => simp at hmem
  | refused uid | unfit uid | answered uid =>
    obtain ⟨rfl, -⟩ : request = openRequest uid file ∧ _ := by simpa using hmem
    exact ⟨Kind.openRequest, uid, by simp, .opening (.file file)⟩

/-- Once the identifier of the request about offsets is known, everything about a file is grounded. -/
theorem isGrounded_of_followUps {uid : Int} {args : List Text} {file : Text}
    {opening followUps : List Exchange} {r : Except Fault (Entries Value)} (hopens : Opens file opening r)
    (hfollow : ∀ x ∈ followUps, IsFollowUp uid args file x) {request : Entries Value}
    {answer : Except Fault Value} (hmem : .respond request answer ∈ opening ++ followUps) :
    IsGrounded (.uidOf Kind.cursorRequest (.ok uid) :: (opening ++ followUps)) request := by
  rcases List.mem_append.mp hmem with hmem | hmem
  · refine (hopens.isGrounded hmem).mono fun x hx => ?_
    exact List.mem_cons_of_mem _ (List.mem_append_left followUps hx)
  · obtain ⟨offset, hlow, hhigh, rfl⟩ := hfollow _ hmem
    exact ⟨Kind.cursorRequest, uid, List.mem_cons_self, .cursor args file hlow hhigh⟩

/-- Where a file is inspected to the end, every request is grounded in the exchanges about it, with the
identifier that was asked for at the beginning. -/
theorem IsInspected.isGrounded {uid : Int} {args : List Text} {file : Text} {segment : List Exchange}
    (h : IsInspected uid args file segment) {request : Entries Value} {answer : Except Fault Value}
    (hmem : .respond request answer ∈ segment) :
    IsGrounded (.uidOf Kind.cursorRequest (.ok uid) :: segment) request := by
  obtain ⟨opening, response, followUps, rfl, hopens, hfollow, -⟩ := h
  exact isGrounded_of_followUps hopens hfollow hmem

/-- So is every request where the inspection of a file stops. -/
theorem IsStopped.isGrounded {uid : Int} {args : List Text} {names : NameCache} {file : Text}
    {segment : List Exchange} {e : Fault} (h : IsStopped uid args names file segment e)
    {request : Entries Value} {answer : Except Fault Value} (hmem : .respond request answer ∈ segment) :
    IsGrounded (.uidOf Kind.cursorRequest (.ok uid) :: segment) request := by
  rcases h with hopens | ⟨opening, response, followUps, rfl, hopens, hfollow, -⟩
  · exact (hopens.isGrounded hmem).mono (List.subset_cons_self _ _)
  · exact isGrounded_of_followUps hopens hfollow hmem

/-- Each file has its segment, and a request is made in one of them. -/
theorem Proceeds.isGrounded {uid : Int} {args : List Text} {names : NameCache} {files : List Text}
    {segments : List (List Exchange)} {result : Except Fault (List FileDocs)}
    (h : Proceeds uid args names files segments result) {request : Entries Value}
    {answer : Except Fault Value} (hmem : .respond request answer ∈ segments.flatten) :
    IsGrounded (.uidOf Kind.cursorRequest (.ok uid) :: segments.flatten) request := by
  obtain ⟨segment, hsegment, hin⟩ := List.mem_flatten.mp hmem
  have hinspected : ∀ {files : List Text} {inspected : List (List Exchange)},
      List.Forall₂ (IsInspected uid args) files inspected → segment ∈ inspected →
        IsGrounded (.uidOf Kind.cursorRequest (.ok uid) :: segment) request := by
    intro files inspected hall hmember
    obtain ⟨i, hi, rfl⟩ := List.mem_iff_getElem.mp hmember
    exact (hall.get (by rw [hall.length_eq]; exact hi) hi).isGrounded hin
  have hgrounded : IsGrounded (.uidOf Kind.cursorRequest (.ok uid) :: segment) request := by
    rcases h with ⟨results, -, -, hall⟩ |
      ⟨e, before, file, after, inspected, last, -, -, rfl, hall, hstopped⟩
    · exact hinspected hall hsegment
    · rcases List.mem_append.mp hsegment with hearlier | hlast
      · exact hinspected hall hearlier
      · obtain rfl := List.mem_singleton.mp hlast
        exact hstopped.isGrounded hin
  refine hgrounded.mono (List.cons_subset_cons _ ?_)
  exact fun x hx => List.mem_flatten.mpr ⟨segment, hsegment, hx⟩

/-- In the course of an inspection of documentation every request is grounded. -/
theorem Course.allGrounded {args : List Text} {names : NameCache} {log : List Exchange}
    {result : Except Fault (List FileDocs)} (h : Course args names log result) : AllGrounded log := by
  rcases h with ⟨e, rfl, -⟩ | ⟨uid, segments, rfl, hproceeds⟩
  · exact allGrounded_singleton (by simp)
  · intro request answer hmem
    rcases List.mem_cons.mp hmem with heq | hmem
    · cases heq
    · exact hproceeds.isGrounded hmem

/-! ### Sessions -/

/-- A record may have been begun before. -/
theorem peers_prefixed (backend : Backend σ) (reader : SourceReader σ) (before : List Exchange) :
    Peers (SameFirst fun s t => s.1 = before ++ t.1 ∧ s.2 = t.2) backend.recorded backend.recorded
      reader.recorded reader.recorded := by
  have hnoted : ∀ {α : Type} (a : Action σ α) (note : Except Fault α → Exchange),
      Matches (fun s t : List Exchange × σ => s.1 = before ++ t.1 ∧ s.2 = t.2) (a.noted note)
        (a.noted note) := by
    rintro α a note ⟨_, _⟩ ⟨record, s⟩ hs
    obtain ⟨rfl, rfl⟩ : _ = before ++ record ∧ _ = s := hs
    exact ⟨rfl, List.append_assoc _ _ _, rfl⟩
  exact ⟨fun _ => (hnoted _ _).second, NameCache.matches_resolve fun _ => hnoted _ _,
    fun _ => (hnoted _ _).second, fun _ => (hnoted _ _).second, fun _ _ _ => (hnoted _ _).second⟩

/-- The inspection of documentation makes grounded requests. -/
theorem matches_docs_grounded (args : List Text) :
    Matches (SameFirst (Grounded σ)) (docs backend.recorded reader.recorded args)
      (docs backend.recorded reader.recorded args) := by
  rw [matches_sameFirst_diagonal_iff]
  rintro ⟨names, before, s⟩ hs
  obtain ⟨result, names', log, s', hrun, hcourse⟩ := course_docs_recorded backend reader args names s
  obtain ⟨-, -, hrecord, -⟩ := matches_docs (peers_prefixed backend reader before) args
    (names, (before, s)) (names, ([], s)) ⟨rfl, (List.append_nil before).symm, rfl⟩
  rw [hrun] at hrecord
  rw [hrecord]
  exact hs.append hcourse.allGrounded

/-- Every inspection makes grounded requests. -/
theorem matches_perform_grounded (inquiry : Inquiry) :
    Matches (SameFirst (Grounded σ)) (perform backend.recorded reader.recorded inquiry)
      (perform backend.recorded reader.recorded inquiry) := by
  cases inquiry with
  | outline file => exact (matches_structureOf_grounded file).bind fun _ => Matches.pure _
  | tokens source => exact (matches_tokensOf_grounded source).bind fun _ => Matches.pure _
  | docs args => exact (matches_docs_grounded args).bind fun _ => Matches.pure _
  | docOffsets file => exact (matches_documentedOffsets_grounded file).bind fun _ => Matches.pure _

/-- Every request of a session is built under an identifier that the service has given in it. -/
theorem allGrounded_session (backend : Backend σ) (reader : SourceReader σ) (inquiries : List Inquiry)
    {s : NameCache × (List Exchange × σ)} (hs : AllGrounded s.2.1) :
    AllGrounded (session backend.recorded reader.recorded inquiries s).2.2.1 := by
  induction inquiries generalizing s with
  | nil => exact hs
  | cons inquiry rest ih =>
    rw [session_cons]
    exact ih (matches_sameFirst_diagonal_iff.mp (matches_perform_grounded inquiry) s hs)

end Inspection

end SwiftLens
