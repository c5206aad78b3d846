import SwiftLens.Proofs.Inspection.Transparency
import SwiftLens.Proofs.Labelling.Discipline

/-!
# What an inspection of documentation asks

The documentation of a list of files is asked for with one template, whose file and offset change from
one use to the next, and the template is used from deep inside a walk. `exchanges_of_docs` says what
goes over the wire nevertheless, for every service and every reader of source text: the identifier of
the request for what stands at an offset is asked for once; then the files come in turn, each with its
opening (`Opens`), then the names of identifiers, requests about that very file and readings of it
(`IsFollowUp`). The first exchange that fails is the last one, and its fault is the result.

If all exchanges are answered, there is a result for each file, with three exceptions (`IsStopped`):
the response to an opening is not a dictionary, a mark comment does not say where its text is, or the
replies are so deep in all that the walk does not reach their end. The first two are seen in
`answered_docs_without_result`.
-/

namespace SwiftLens

variable {σ : Type}

/-! ### The template -/

namespace CursorQuery

/-- The request for what stands at an offset of a file. -/
def complete (uid : Int) (args : List Text) (file : Text) (offset : Int) : CursorQuery :=
  [(Key.request, .uint64 uid), (Key.compilerArgs, .array (args.map .string)),
    (Key.sourceFile, .string file), (Key.offset, .int64 offset)]

/-- The template when it is about a file: with no offset yet, or with that of its last use. -/
def IsAbout (uid : Int) (args : List Text) (file : Text) (q : CursorQuery) : Prop :=
  q = template uid args ++ [(Key.sourceFile, .string file)] ∨
    ∃ offset, q = complete uid args file offset

variable {uid : Int} {args : List Text} {file : Text} {q : CursorQuery}

/-- The fresh template is about the file that it is set to. -/
theorem isAbout_setSourceFile_template (uid : Int) (args : List Text) (file : Text) :
    IsAbout uid args file ((template uid args).setSourceFile file) := .inl rfl

/-- A template that is set to another file is about that one. -/
theorem IsAbout.setSourceFile (h : IsAbout uid args file q) (next : Text) :
    IsAbout uid args next (q.setSourceFile next) := by
  rcases h with rfl | ⟨offset, rfl⟩
  · exact .inl rfl
  · exact .inr ⟨offset, rfl⟩

/-- A template that is given an offset is the request for what stands there. -/
theorem IsAbout.setOffset (h : IsAbout uid args file q) (offset : Int) :
    q.setOffset offset = complete uid args file offset := by
  rcases h with rfl | ⟨_, rfl⟩
  · rfl
  · rfl

/-- A template names the file that it is about. -/
theorem IsAbout.sourceFile (h : IsAbout uid args file q) : q.sourceFile? = some file := by
  rcases h with rfl | ⟨_, rfl⟩
  · rfl
  · rfl

end CursorQuery

namespace Inspection

open CursorQuery (IsAbout complete)

variable {uid : Int} {args : List Text} {file : Text}

/-! ### The exchanges about a file -/

/-- The request that opens a file. -/
def openRequest (uid : Int) (file : Text) : Entries Value :=
  [(Key.request, .uint64 uid), (Key.name, .string ""), (Key.sourceFile, .string file)]

/-- The exchanges that open a file, and the response or the fault they come to. -/
inductive Opens (file : Text) : List Exchange → Except Fault (Entries Value) → Prop
  | unnamed (e : Fault) : Opens file [.uidOf Kind.openRequest (.error e)] (.error e)
  | refused (uid : Int) (e : Fault) :
    Opens file [.uidOf Kind.openRequest (.ok uid), .respond (openRequest uid file) (.error e)]
      (.error e)
  | unfit (uid : Int) (found : Value) (hfound : found.isDictionary = false) :
    Opens file [.uidOf Kind.openRequest (.ok uid), .respond (openRequest uid file) (.ok found)]
      (.error (.notDictionary found))
  | answered (uid : Int) (response : Entries Value) :
    Opens file
      [.uidOf Kind.openRequest (.ok uid), .respond (openRequest uid file) (.ok (.dictionary response))]
      (.ok response)

/-- An exchange that may be made once a file is open: for a name, about an offset of this file, or to
read a part of it. -/
def IsFollowUp (uid : Int) (args : List Text) (file : Text) : Exchange → Prop
  | .nameOf _ _ => True
  | .respond request _ =>
    ∃ offset : Int, 0 ≤ offset ∧ offset ≤ 2 ^ 53 - 1 ∧ request = complete uid args file offset
  | .range source _ _ _ => source = file
  | _ => False

/-- The exchanges about a file that was inspected to the end. -/
def IsInspected (uid : Int) (args : List Text) (file : Text) (segment : List Exchange) : Prop :=
  ∃ opening response followUps, segment = opening ++ followUps ∧ Opens file opening (.ok response) ∧
    (∀ x ∈ followUps, IsFollowUp uid args file x) ∧ AllAnswered followUps

/-- The exchanges about a file at which the inspection stopped with a fault. -/
def IsStopped (uid : Int) (args : List Text) (names : NameCache) (file : Text)
    (segment : List Exchange) (e : Fault) : Prop :=
  Opens file segment (.error e) ∨
    ∃ opening response followUps, segment = opening ++ followUps ∧ Opens file opening (.ok response) ∧
      (∀ x ∈ followUps, IsFollowUp uid args file x) ∧
      (BreaksOff followUps e ∨ (AllAnswered followUps ∧ (Labelling.IsLostMark file names e ∨
        (e = .tooDeep ∧ Labelling.allowance < repliesDepth followUps))))

/-- Where opening a file came to a response, no exchange failed. -/
theorem Opens.allAnswered {opening : List Exchange} {response : Entries Value}
    (h : Opens file opening (.ok response)) : AllAnswered opening := by
  cases h
  simp

/-- About a file that was inspected to the end no exchange failed. -/
theorem IsInspected.allAnswered {segment : List Exchange} (h : IsInspected uid args file segment) :
    AllAnswered segment := by
  obtain ⟨opening, response, followUps, rfl, hopens, -, hanswered⟩ := h
  exact allAnswered_append.mpr ⟨hopens.allAnswered, hanswered⟩

/-- Where the inspection stopped, an exchange failed with its fault, or none failed. -/
theorem IsStopped.breaksOff_or_allAnswered {names : NameCache} {segment : List Exchange} {e : Fault}
    (h : IsStopped uid args names file segment e) : BreaksOff segment e ∨ AllAnswered segment := by
  rcases h with hopens | ⟨opening, response, followUps, rfl, hopens, -, hend⟩
  · cases hopens with
    | unnamed => exact .inl (breaksOff_singleton rfl)
    | refused => exact .inl ⟨[_], _, rfl, by simp, rfl⟩
    | unfit => exact .inr (by simp)
  · rcases hend with hbreaks | ⟨hanswered, -⟩
    · exact .inl (hbreaks.append_left hopens.allAnswered)
    · exact .inr (allAnswered_append.mpr ⟨hopens.allAnswered, hanswered⟩)

/-! ### One file -/

/-- Opening a file, with the exchanges written down. -/
theorem opens_openSource (backend : Backend σ) (file : Text) (s : List Exchange × σ) :
    ∃ r opening t, openSource backend.recorded (.file file) s = (r, (s.1 ++ opening, t)) ∧
      Opens file opening r := by
  rcases huid : backend.uidOf Kind.openRequest s.2 with ⟨r, t⟩
  have hnamed : backend.recorded.uidOf Kind.openRequest s =
      (r, (s.1 ++ [.uidOf Kind.openRequest r], t)) := Action.noted_of_eq huid
  cases r with
  | error e =>
    have hrequest := Action.bind_of_error hnamed fun uid => pure (Request.opening uid (.file file))
    exact ⟨_, _, t, Action.bind_of_error hrequest _, .unnamed e⟩
  | ok uid =>
    have hrequest : Request.openSource backend.recorded (.file file) s =
        (.ok (openRequest uid file), (s.1 ++ [.uidOf Kind.openRequest (.ok uid)], t)) :=
      Action.bind_of_ok hnamed _
    rcases hreply : backend.respond (openRequest uid file) t with ⟨r, t'⟩
    have hresponse : backend.recorded.respond (openRequest uid file)
          (s.1 ++ [.uidOf Kind.openRequest (.ok uid)], t) =
        (r, (s.1 ++ [.uidOf Kind.openRequest (.ok uid)] ++ [.respond (openRequest uid file) r], t')) :=
      Action.noted_of_eq hreply
    rw [List.append_assoc] at hresponse
    unfold openSource
    rw [Action.bind_of_ok hrequest]
    cases r with
    | error e => exact ⟨_, _, t', Action.bind_of_error hresponse _, .refused uid e⟩
    | ok found =>
      rw [Action.bind_of_ok hresponse]
      cases found with
      | dictionary response => exact ⟨_, _, t', rfl, .answered uid response⟩
      | _ => exact ⟨_, _, t', rfl, .unfit uid _ rfl⟩

/-- The guide with which a file is inspected. -/
def docsGuide (backend : Backend σ) (reader : SourceReader σ) : Guide (CursorQuery × σ) :=
  ⟨fun uid => (backend.nameOf uid).second, some (CursorQuery.supplement backend), reader.second⟩

/-- The guide asks about its file and nothing else, as long as the template is about that file. -/
theorem isSteady_docsGuide (backend : Backend σ) (reader : SourceReader σ) (uid : Int)
    (args : List Text) (file : Text) :
    (docsGuide backend.recorded reader.recorded).IsSteady (fun s => s.2.1) (IsFollowUp uid args file)
      (fun s => IsAbout uid args file s.1) file where
  lookup := by
    intro u s h
    exact Terms.keeps_noted_second (fun _ => rfl) (fun _ => trivial) fun _ _ => h
  range := by
    intro offset length s h
    exact Terms.keeps_noted_second (fun _ => rfl) (fun _ => rfl) fun _ _ => h
  sourceFile := by
    rintro _ ⟨⟩ s h
    exact h.sourceFile
  log_setOffset := by
    rintro _ ⟨⟩ n s
    rfl
  send := by
    rintro _ ⟨⟩ n s hn hsafe h
    have hset : ((CursorQuery.supplement backend.recorded).setOffset n s).1 =
        complete uid args file n := h.setOffset n
    apply Terms.keeps_bind
    apply Terms.keeps_read
    apply Terms.keeps_bind
    refine Terms.keeps_noted_second (fun _ => rfl) (fun _ => ⟨n, hn, hsafe, hset⟩) ?_
    intro reply t
    apply Terms.keeps_pure
    refine ⟨.inr ⟨n, hset⟩, ?_⟩
    intro value hvalue
    obtain rfl : reply = value := by
      split_ifs at hvalue
      · exact Option.some.inj hvalue
      · cases hvalue
    simp [CursorQuery.supplement, repliesDepth, Exchange.replyDepth]

/-- The state of an inspection of files, with a record. -/
abbrev DocsState (σ : Type) := NameCache × (CursorQuery × (List Exchange × σ))

/-- Inspecting a file, when the template has been set to it. -/
theorem fileDocs_recorded (backend : Backend σ) (reader : SourceReader σ) {s : DocsState σ}
    (h : IsAbout uid args file (s.2.1.setSourceFile file)) :
    ∃ r t segment, fileDocs backend.recorded reader.recorded file s = (r, t) ∧
      t.2.2.1 = s.2.2.1 ++ segment ∧
      ((∃ tree, r = .ok ⟨file, tree⟩ ∧ IsInspected uid args file segment ∧
          IsAbout uid args file t.2.1) ∨
        ∃ e, r = .error e ∧ IsStopped uid args t.1 file segment e) := by
  obtain ⟨names, q, s⟩ := s
  obtain ⟨r, opening, t, hopen, hopens⟩ := opens_openSource backend file s
  have hopened : (openSource backend.recorded (.file file)).second.second
      (names, (q.setSourceFile file, s)) =
        (r, (names, (q.setSourceFile file, (s.1 ++ opening, t)))) := by
    simp only [Action.second, hopen]
  unfold fileDocs
  rw [Action.bind_of_ok (Action.modify_apply _ _)]
  cases r with
  | error e =>
    rw [Action.bind_of_error hopened]
    exact ⟨_, _, opening, rfl, rfl, .inr ⟨e, rfl, .inl hopens⟩⟩
  | ok response =>
    rw [Action.bind_of_ok hopened]
    -- From here on the walk asks, and the template stays about the file.
    obtain ⟨followUps, hlog, hallowed, hsettles⟩ :=
      Labelling.keeps_labelled (isSteady_docsGuide backend reader uid args file)
        (response.erase Key.syntaxMap) (s := (names, (q.setSourceFile file, (s.1 ++ opening, t)))) h
    rcases hrun : labelled (docsGuide backend.recorded reader.recorded) (response.erase Key.syntaxMap)
      (names, (q.setSourceFile file, (s.1 ++ opening, t))) with ⟨r, t'⟩
    rw [hrun] at hlog hsettles
    have hrecord : t'.2.2.1 = s.1 ++ opening ++ followUps := hlog
    have hdepth : repliesDepth t'.2.2.1 = repliesDepth (s.1 ++ opening) + repliesDepth followUps := by
      rw [hrecord, repliesDepth_append]
    rw [List.append_assoc] at hrecord
    cases r with
    | ok tree =>
      refine ⟨_, t', opening ++ followUps, Action.bind_of_ok hrun _, hrecord, .inl ?_⟩
      refine ⟨tree, rfl, ?_, ?_⟩
      · exact ⟨opening, response, followUps, rfl, hopens, hallowed, hsettles.1⟩
      · exact hsettles.2
    | error e =>
      refine ⟨_, t', opening ++ followUps, Action.bind_of_error hrun _, hrecord, .inr ?_⟩
      refine ⟨e, rfl, .inr ?_⟩
      refine ⟨opening, response, followUps, rfl, hopens, hallowed, ?_⟩
      rcases hsettles with hbreaks | ⟨hanswered, hlost | ⟨rfl, hdeep⟩⟩
      · exact .inl hbreaks
      · exact .inr ⟨hanswered, .inl hlost⟩
      · have hdeeper : Labelling.allowance + repliesDepth (s.1 ++ opening) < repliesDepth t'.2.2.1 :=
          hdeep
        exact .inr ⟨hanswered, .inr ⟨rfl, by omega⟩⟩

/-! ### All files -/

/-- How the inspection of files goes: each has its exchanges and its result, or it stops at one of
them. -/
def Proceeds (uid : Int) (args : List Text) (names : NameCache) (files : List Text)
    (segments : List (List Exchange)) (result : Except Fault (List FileDocs)) : Prop :=
  (∃ results, result = .ok results ∧ results.map FileDocs.file = files ∧
      List.Forall₂ (IsInspected uid args) files segments) ∨
    ∃ e before file after inspected segment, result = .error e ∧ files = before ++ file :: after ∧
      segments = inspected ++ [segment] ∧ List.Forall₂ (IsInspected uid args) before inspected ∧
      IsStopped uid args names file segment e

/-- Inspecting files one after the other. Whatever the template was about, it is set to each file
before that file is opened. -/
theorem each_fileDocs_recorded (backend : Backend σ) (reader : SourceReader σ) (files : List Text)
    {s : DocsState σ} (h : ∀ file, IsAbout uid args file (s.2.1.setSourceFile file)) :
    ∃ r t segments, Action.each (fileDocs backend.recorded reader.recorded) files s = (r, t) ∧
      t.2.2.1 = s.2.2.1 ++ segments.flatten ∧ Proceeds uid args t.1 files segments r := by
  induction files generalizing s with
  | nil => exact ⟨_, s, [], rfl, by simp, .inl ⟨[], rfl, rfl, .nil⟩⟩
  | cons file rest ih =>
    obtain ⟨r, t, segment, hrun, hlog, ⟨tree, rfl, hinspected, habout⟩ | ⟨e, rfl, hstopped⟩⟩ :=
      fileDocs_recorded backend reader (h file)
    · obtain ⟨r, t', segments, hrest, hlog', hproceeds⟩ := ih habout.setSourceFile
      have hrecord : t'.2.2.1 = s.2.2.1 ++ (segment :: segments).flatten := by
        rw [hlog', hlog, List.flatten_cons, List.append_assoc]
      rw [Action.each, Action.bind_of_ok hrun]
      rcases hproceeds with ⟨results, rfl, hfiles, hall⟩ |
        ⟨e, before, last, after, inspected, final, rfl, rfl, rfl, hall, hstopped⟩
      · refine ⟨_, t', segment :: segments, Action.bind_of_ok hrest _, hrecord, .inl ?_⟩
        exact ⟨⟨file, tree⟩ :: results, rfl, congrArg (file :: ·) hfiles, .cons hinspected hall⟩
      · refine ⟨_, t', _, Action.bind_of_error hrest _, hrecord, .inr ?_⟩
        exact ⟨e, file :: before, last, after, segment :: inspected, final, rfl, rfl, rfl,
          .cons hinspected hall, hstopped⟩
    · refine ⟨_, t, [segment], Action.bind_of_error hrun _, by simpa using hlog, .inr ?_⟩
      exact ⟨e, [], file, rest, [], segment, rfl, rfl, rfl, .nil, hstopped⟩

/-- About files that were all inspected to the end no exchange failed. -/
theorem allAnswered_flatten {files : List Text} {segments : List (List Exchange)}
    (h : List.Forall₂ (IsInspected uid args) files segments) : AllAnswered segments.flatten := by
  induction h with
  | nil => exact allAnswered_nil
  | cons hfirst _ ih => exact allAnswered_append.mpr ⟨hfirst.allAnswered, ih⟩

/-- Where files are inspected, either no exchange fails, or the last one fails with what is the
result. -/
theorem Proceeds.breaksOff_or_allAnswered {names : NameCache} {files : List Text}
    {segments : List (List Exchange)} {result : Except Fault (List FileDocs)}
    (h : Proceeds uid args names files segments result) :
    (∃ e, result = .error e ∧ BreaksOff segments.flatten e) ∨ AllAnswered segments.flatten := by
  rcases h with ⟨results, -, -, hall⟩ |
    ⟨e, _, file, _, inspected, segment, rfl, -, rfl, hall, hstopped⟩
  · exact .inr (allAnswered_flatten hall)
  · have hbefore := allAnswered_flatten hall
    rw [List.flatten_append, List.flatten_singleton]
    rcases hstopped.breaksOff_or_allAnswered with hbreaks | hanswered
    · exact .inl ⟨e, rfl, hbreaks.append_left hbefore⟩
    · exact .inr (allAnswered_append.mpr ⟨hbefore, hanswered⟩)

/-! ### The whole inspection -/

/-- The course of an inspection of documentation: the identifier of the request for what stands at an
offset is asked for, once, and then the Swift files among the arguments are inspected in turn. -/
def Course (args : List Text) (names : NameCache) (log : List Exchange)
    (result : Except Fault (List FileDocs)) : Prop :=
  (∃ e, log = [.uidOf Kind.cursorRequest (.error e)] ∧ result = .error e) ∨
    ∃ uid segments, log = .uidOf Kind.cursorRequest (.ok uid) :: segments.flatten ∧
      Proceeds uid args names (args.filter fun arg => arg.endsWith ".swift") segments result

/-- An exchange that fails is the last, and its fault is the result. -/
theorem Course.after_eq_nil {names : NameCache} {log : List Exchange}
    {result : Except Fault (List FileDocs)} (h : Course args names log result)
    {before after : List Exchange} {x : Exchange} {e : Fault} (hsplit : log = before ++ x :: after)
    (hx : x.fault? = some e) : after = [] ∧ result = .error e := by
  have hbreaks : (∃ e, result = .error e ∧ BreaksOff log e) ∨ AllAnswered log := by
    rcases h with ⟨e, rfl, rfl⟩ | ⟨uid, segments, rfl, hproceeds⟩
    · exact .inl ⟨e, rfl, breaksOff_singleton rfl⟩
    · have hfirst : AllAnswered [.uidOf Kind.cursorRequest (.ok uid)] := by simp
      rcases hproceeds.breaksOff_or_allAnswered with ⟨e, hresult, hbreaks⟩ | hanswered
      · exact .inl ⟨e, hresult, hbreaks.append_left hfirst⟩
      · exact .inr (allAnswered_append.mpr ⟨hfirst, hanswered⟩)
  rcases hbreaks with ⟨d, rfl, hbreaks⟩ | hanswered
  · obtain ⟨hafter, rfl⟩ := hbreaks.after_eq_nil hsplit hx
    exact ⟨hafter, rfl⟩
  · rw [hanswered x (by simp [hsplit])] at hx
    cases hx

/-- The inspection with a record takes its course. -/
theorem course_docs_recorded (backend : Backend σ) (reader : SourceReader σ) (args : List Text)
    (names : NameCache) (s : σ) :
    ∃ result names' log s',
      docs backend.recorded reader.recorded args (names, ([], s)) = (result, (names', (log, s'))) ∧
      Course args names' log result := by
  rcases huid : backend.uidOf Kind.cursorRequest s with ⟨r, t⟩
  have hnamed : backend.recorded.uidOf Kind.cursorRequest ([], s) =
      (r, ([.uidOf Kind.cursorRequest r], t)) := Action.noted_of_eq huid
  unfold docs
  cases r with
  | error e =>
    have hquery : (CursorQuery.create backend.recorded args).second (names, ([], s)) =
        (.error e, (names, ([.uidOf Kind.cursorRequest (.error e)], t))) := by
      simp only [Action.second, CursorQuery.create, Action.bind_of_error hnamed]
    exact ⟨_, names, _, t, Action.bind_of_error hquery _, .inl ⟨e, rfl, rfl⟩⟩
  | ok uid =>
    have hquery : (CursorQuery.create backend.recorded args).second (names, ([], s)) =
        (.ok (CursorQuery.template uid args),
          (names, ([.uidOf Kind.cursorRequest (.ok uid)], t))) := by
      simp only [Action.second, CursorQuery.create, Action.bind_of_ok hnamed, Action.pure_apply]
    obtain ⟨r, t', segments, hrun, hlog, hproceeds⟩ :=
      each_fileDocs_recorded backend reader (swiftFiles args)
        (s := (names, (CursorQuery.template uid args, ([.uidOf Kind.cursorRequest (.ok uid)], t))))
        (CursorQuery.isAbout_setSourceFile_template uid args)
    rw [Action.bind_of_ok hquery]
    refine ⟨r, t'.1, t'.2.2.1, t'.2.2.2, ?_, .inr ⟨uid, segments, hlog, hproceeds⟩⟩
    simp only [Action.withLocal, hrun]

/-- What an inspection of documentation asks, for every service and every reader of source text: with a
record it does what it does without, and the record shows that it took the course of `Course`. An
exchange that fails is the last, and its fault is the result. -/
theorem exchanges_of_docs (backend : Backend σ) (reader : SourceReader σ) (args : List Text)
    (names : NameCache) (s : σ) :
    ∃ result names' log s',
      docs backend reader args (names, s) = (result, (names', s')) ∧
      docs backend.recorded reader.recorded args (names, ([], s)) = (result, (names', (log, s'))) ∧
      Course args names' log result ∧
      ∀ before x after e, log = before ++ x :: after → x.fault? = some e →
        after = [] ∧ result = .error e := by
  obtain ⟨result, names', log, s', hrecorded, hcourse⟩ :=
    course_docs_recorded backend reader args names s
  have hplain := docs_forgetting_record backend reader args (names, ([], s))
  rw [hrecorded] at hplain
  refine ⟨result, names', log, s', hplain, hrecorded, hcourse, ?_⟩
  intro before x after e hsplit hx
  exact hcourse.after_eq_nil hsplit hx

/-- A service that gives all identifiers the same name, if any, and all requests the same response. -/
def uniformBackend (name : Option Text) (response : Value) : Backend Unit where
  connect := pure ()
  uidOf _ := pure leastUid
  nameOf _ := pure name
  respond _ := pure response
  disconnect := pure ()
  notes s := ([], s)

/-- Two inspections in which no exchange fails and which yet have no result for their one file: a list
comes in response to the opening, and a mark comment comes without its place. -/
theorem answered_docs_without_result :
    (∃ log, docs (uniformBackend none (.array [])).recorded
          (Sources.ofTexts [] : SourceReader Unit).recorded ["a.swift"] ([], ([], ())) =
        (.error (.notDictionary (.array [])), ([], (log, ()))) ∧ AllAnswered log) ∧
      ∃ names log, docs
          (uniformBackend (some Kind.mark) (.dictionary [(Key.kind, .uint64 leastUid)])).recorded
          (Sources.ofTexts [] : SourceReader Unit).recorded ["a.swift"] ([], ([], ())) =
        (.error (.lostMark none none (some "a.swift")), (names, (log, ()))) ∧ AllAnswered log := by
  constructor
  · exact ⟨_, rfl, by simp⟩
  · exact ⟨_, _, rfl, by simp⟩

end Inspection

end SwiftLens
