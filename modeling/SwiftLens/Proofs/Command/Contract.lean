import SwiftLens.Proofs.Inspection.Requests
import SwiftLens.Proofs.Tree.DocumentReadBack

/-!
# What a run of a command does

Whatever the service answers and wherever it fails, a run of a command connects first and disconnects
last, once each; it prints the documents that the command comes to, up to the first that cannot be
printed, and nothing else; and it fails if connecting, the inspection or the printing fails, and in no
other case. `Contract` says this of a session over any service, and `contract_of_run` that every session is
so, and that a whole run of the program with a command is such a session.

A command is one inspection and the presentation of what it finds (`carryOut_eq`). The inspection only talks
to the service, so it prints no document, and the presentation only prints, so it asks nothing. What the
inspection preserves is what each question preserves (`Inspection.perform_preserves`).
-/

namespace SwiftLens

variable {σ α : Type}

open SwiftLens.Action (Matches SameFirst)

/-! ### Commands as inspections -/

/-- The inspection of a command. -/
def Command.inquiry : Command → Inquiry
  | .outline file => .outline file
  | .tokens file => .tokens (.file file)
  | .tokensOfText source => .tokens (.text source)
  | .docOffsets file => .docOffsets file
  | .docs compilerArgs => .docs compilerArgs

/-- The trees that are printed for what an inspection has found. -/
def Finding.documents : Finding → List Value
  | .outline tree => [.dictionary tree]
  | .tokens found => [.array (found.map Token.toValue)]
  | .docs files => files.map fun file => .dictionary file.response
  | .docOffsets offsets => [.array (offsets.map .int64)]

/-- Whether an exchange begins or ends a session. -/
def Exchange.isBorder : Exchange → Bool
  | .connect _ => true
  | .disconnect _ => true
  | _ => false

/-- A note is no part of the output. -/
theorem Console.output_tell (c : Console) (note : Note) : (c.tell note).output = c.output := by
  cases note with
  | info text => unfold tell; split_ifs <;> rfl
  | warning text => rfl

/-- Notes are no part of the output. -/
theorem Console.output_foldl_tell (notes : List Note) (c : Console) :
    (notes.foldl Console.tell c).output = c.output := by
  induction notes generalizing c with
  | nil => rfl
  | cons note rest ih => rw [List.foldl_cons, ih, output_tell]

namespace Session

/-- Print what an inspection has found. -/
def present : Finding → Action (Console × σ) Unit
  | .outline tree => printTree (.dictionary tree)
  | .tokens found => printTree (.array (found.map Token.toValue))
  | .docOffsets offsets => printTree (.array (offsets.map .int64))
  | .docs files => do
    if files.isEmpty then tell (.warning "No .swift files found among the compiler arguments.")
    else pure ()
    let _ ← Action.each printDocs files
    pure ()

/-- What an inspection finds may be put in its form inside the inspection or after it. -/
theorem inspect_bind_pure {β : Type} (act : Action (NameCache × (Console × σ)) α) (f : α → Finding)
    (k : Finding → Action (Console × σ) β) :
    (inspect (act >>= fun x => pure (f x)) >>= k) = inspect act >>= fun x => k (f x) := by
  funext s
  rcases hrun : act ([], s) with ⟨e | x, cache, t⟩
  · simp [inspect, Action.bind_apply, hrun]
  · simp [inspect, Action.bind_apply, hrun]

/-- To carry out a command is to make its inspection and to present what it finds. -/
theorem carryOut_eq (backend : Backend (Console × σ)) (sources : SourceReader (Console × σ))
    (command : Command) :
    carryOut backend sources command =
      inspect (Inspection.perform backend sources command.inquiry) >>= present := by
  cases command with
  | outline file =>
    exact (inspect_bind_pure (Inspection.structureOf backend sources file) .outline present).symm
  | tokens file =>
    exact (inspect_bind_pure (Inspection.tokensOf backend (.file file)) .tokens present).symm
  | tokensOfText source =>
    exact (inspect_bind_pure (Inspection.tokensOf backend (.text source)) .tokens present).symm
  | docOffsets file =>
    exact (inspect_bind_pure (Inspection.documentedOffsets backend sources file) .docOffsets present).symm
  | docs compilerArgs =>
    exact (inspect_bind_pure (Inspection.docs backend sources compilerArgs) .docs present).symm

/-- Connect, and make the inspection of a command. -/
def attempt (backend : Backend σ) (sources : SourceReader σ) (command : Command) :
    Action (Console × σ) Finding := do
  (printing backend).connect
  inspect (Inspection.perform (printing backend) sources.second command.inquiry)

/-- A session is an attempt and its presentation, and then its end. -/
theorem run_eq (backend : Backend σ) (sources : SourceReader σ) (command : Command) (s : Console × σ) :
    run backend sources command s =
      (((attempt backend sources command >>= present) s).1,
        leave (printing backend) ((attempt backend sources command >>= present) s).2) := by
  have hact : (attempt backend sources command >>= present) s =
      ((printing backend).connect >>= fun _ =>
        carryOut (printing backend) sources.second command) s := by
    rw [carryOut_eq]
    rcases hconnect : (printing backend).connect s with ⟨e | x, t⟩
    · simp only [attempt, Action.bind_apply, hconnect]
    · simp only [attempt, Action.bind_apply, hconnect]
  rw [hact]
  rfl

/-! ### What is printed -/

/-- The texts are those of the trees as documents, one for each. -/
abbrev AreDocuments (trees : List Value) (texts : List Text) : Prop :=
  List.Forall₂ (fun tree text => Document.render 0 tree = .ok text) trees texts

/-- Every tree of which there is a document has a printed form. -/
theorem AreDocuments.exists_text {trees : List Value} {texts : List Text} (h : AreDocuments trees texts)
    {tree : Value} (htree : tree ∈ trees) : ∃ text, Document.render 0 tree = .ok text := by
  induction h with
  | nil => exact absurd htree List.not_mem_nil
  | cons hrender _ ih =>
    rcases List.mem_cons.mp htree with rfl | htree
    · exact ⟨_, hrender⟩
    · exact ih htree

/-- Trees are printed in turn: the result, and the texts of those that were printed. -/
inductive Prints (trees : List Value) : Except Fault Unit → List Text → Prop where
  /-- All of them are printed. -/
  | all {texts : List Text} (htexts : AreDocuments trees texts) : Prints trees (.ok ()) texts
  /-- Those before the first that has no printed form are. -/
  | upTo {before after : List Value} {tree : Value} {texts : List Text}
      {defect : Located Document.Defect} (hsplit : trees = before ++ tree :: after)
      (htexts : AreDocuments before texts) (hdefect : Document.render 0 tree = .error defect) :
      Prints trees (.error (.document defect)) texts

/-- A tree with a printed form is printed before the rest. -/
theorem Prints.cons {tree : Value} {trees : List Value} {text : Text} {texts : List Text}
    {r : Except Fault Unit} (htree : Document.render 0 tree = .ok text) (h : Prints trees r texts) :
    Prints (tree :: trees) r (text :: texts) := by
  cases h with
  | all htexts => exact .all (.cons htree htexts)
  | upTo hsplit htexts hdefect =>
    exact .upTo (congrArg (tree :: ·) hsplit) (.cons htree htexts) hdefect

/-- A run from the given state has printed trees, and has done nothing else to the state. -/
def Presents (trees : List Value) (s : Console × σ) (out : Except Fault Unit × (Console × σ)) : Prop :=
  ∃ texts, Prints trees out.1 texts ∧ out.2.1.output = s.1.output ++ Document.printed texts ∧
    out.2.2 = s.2

/-- A tree with a printed form is put out. -/
theorem printTree_of_ok {tree : Value} {text : Text} (h : Document.render 0 tree = .ok text)
    (s : Console × σ) : printTree tree s = (.ok (), (s.1.print text, s.2)) := by
  simp only [printTree, h]
  rfl

/-- A tree without a printed form is refused, and nothing is put out. -/
theorem printTree_of_error {tree : Value} {defect : Located Document.Defect}
    (h : Document.render 0 tree = .error defect) (s : Console × σ) :
    printTree tree s = (.error (.document defect), s) := by
  simp only [printTree, h]
  rfl

/-- One tree is printed. -/
theorem presents_printTree (tree : Value) (s : Console × σ) : Presents [tree] s (printTree tree s) := by
  cases h : Document.render 0 tree with
  | ok text =>
    rw [printTree_of_ok h]
    refine ⟨[text], .all (.cons h .nil), ?_, rfl⟩
    simp [Console.print, Document.printed, List.append_assoc]
  | error defect =>
    rw [printTree_of_error h]
    exact ⟨[], .upTo (List.nil_append [tree]).symm .nil h, (List.append_nil _).symm, rfl⟩

/-- The first file is dealt with before the rest. -/
theorem each_cons_discard (f : FileDocs → Action (Console × σ) Unit) (file : FileDocs)
    (rest : List FileDocs) (s : Console × σ) :
    (Action.each f (file :: rest) >>= fun _ => pure ()) s =
      (f file >>= fun _ => Action.each f rest >>= fun _ => pure ()) s := by
  rcases hfile : f file s with ⟨e | x, t⟩
  · simp [Action.each, Action.bind_apply, hfile]
  · rcases hrest : Action.each f rest t with ⟨e | xs, u⟩
    · simp [Action.each, Action.bind_apply, hfile, hrest]
    · simp [Action.each, Action.bind_apply, hfile, hrest]

/-- The documents of files are printed in turn. -/
theorem presents_each_printDocs (files : List FileDocs) (s : Console × σ) :
    Presents (files.map fun file => .dictionary file.response) s
      ((Action.each printDocs files >>= fun _ => pure ()) s) := by
  induction files generalizing s with
  | nil => exact ⟨[], .all .nil, (List.append_nil _).symm, rfl⟩
  | cons file rest ih =>
    let told : Console × σ := (s.1.tell (.info ("Documented " ++ file.file)), s.2)
    have htold : told.1.output = s.1.output := Console.output_tell _ _
    have hfile : printDocs file s = printTree (.dictionary file.response) told := rfl
    rw [each_cons_discard, List.map_cons]
    cases hrender : Document.render 0 (.dictionary file.response) with
    | error defect =>
      rw [Action.bind_of_error (hfile.trans (printTree_of_error hrender told))]
      refine ⟨[], .upTo (List.nil_append _).symm .nil hrender, ?_, rfl⟩
      exact htold.trans (List.append_nil _).symm
    | ok text =>
      rw [Action.bind_of_ok (hfile.trans (printTree_of_ok hrender told))]
      obtain ⟨texts, hprints, houtput, hstate⟩ := ih (told.1.print text, s.2)
      refine ⟨text :: texts, hprints.cons hrender, houtput.trans ?_, hstate⟩
      simp [Console.print, htold, Document.printed, List.append_assoc]

/-- What an inspection has found is printed, and nothing else is. -/
theorem presents_present (finding : Finding) (s : Console × σ) :
    Presents finding.documents s (present finding s) := by
  cases finding with
  | outline tree => exact presents_printTree _ s
  | tokens found => exact presents_printTree _ s
  | docOffsets offsets => exact presents_printTree _ s
  | docs files =>
    cases files with
    | nil => exact ⟨[], .all .nil, (List.append_nil _).symm, rfl⟩
    | cons file rest => exact presents_each_printDocs (file :: rest) s

/-! ### What comes of a session -/

/-- What comes of a session after an attempt: its result, and the texts of the documents it prints. -/
inductive Ends (attempt : Except Fault Finding) : Except Fault Unit → List Text → Prop where
  /-- Connecting or the inspection fails, and nothing is printed. -/
  | failed {e : Fault} (h : attempt = .error e) : Ends attempt (.error e) []
  /-- The trees of what was found are printed in turn. -/
  | presented {finding : Finding} {r : Except Fault Unit} {texts : List Text} (h : attempt = .ok finding)
      (hprints : Prints finding.documents r texts) : Ends attempt r texts

/-- What a question makes the service note is no part of the output. -/
theorem output_noted (backend : Backend σ) (act : Action σ α) (s : Console × σ) :
    (noted backend act s).2.1.output = s.1.output :=
  Console.output_foldl_tell _ _

/-- The end of a session puts nothing out. -/
theorem output_leave (backend : Backend σ) (s : Console × σ) :
    (leave (printing backend) s).1.output = s.1.output := by
  have houtput := output_noted backend backend.disconnect s
  unfold leave
  rcases hrun : (printing backend).disconnect s with ⟨e | ⟨⟩, t⟩
  · have ht : t.1.output = s.1.output := by
      rw [← houtput]
      exact congrArg (·.2.1.output) hrun.symm
    exact (Console.output_tell _ _).trans ht
  · rw [← houtput]
    exact congrArg (·.2.1.output) hrun.symm

/-- What an action on the state keeps is kept when it is carried out with a cache of its own. -/
theorem preserves_inspect {P : Console × σ → Prop} {act : Action (NameCache × (Console × σ)) α}
    (h : act.Preserves fun s => P s.2) : (inspect act).Preserves P :=
  fun s hs => h ([], s) hs

/-- An attempt prints no document. -/
theorem output_attempt (backend : Backend σ) (sources : SourceReader σ) (command : Command)
    (s : Console × σ) : (attempt backend sources command s).2.1.output = s.1.output := by
  let P (t : Console × σ) : Prop := t.1.output = s.1.output
  have hquestion : ∀ {β : Type} (act : Action σ β), (noted backend act).Preserves P :=
    fun act t ht => (output_noted backend act t).trans ht
  have hquestions : Preserved P (printing backend) sources.second :=
    { uidOf := fun name => hquestion _
      nameOf := fun uid => hquestion _
      respond := fun request => hquestion _
      whole := fun file t ht => ht
      range := fun file offset length t ht => ht }
  have hattempt : (attempt backend sources command).Preserves P :=
    (hquestion backend.connect).bind fun _ =>
      preserves_inspect (Inspection.perform_preserves hquestions command.inquiry)
  exact hattempt s rfl

/-- A session prints what the attempt at its command comes to. -/
theorem ends_run (backend : Backend σ) (sources : SourceReader σ) (command : Command) (s : Console × σ) :
    ∃ texts, Ends (attempt backend sources command s).1 (run backend sources command s).1 texts ∧
      (run backend sources command s).2.1.output = s.1.output ++ Document.printed texts := by
  have houtput := output_attempt backend sources command s
  rw [run_eq]
  dsimp only
  rw [output_leave]
  rcases hattempt : attempt backend sources command s with ⟨e | finding, t⟩
  · rw [Action.bind_of_error hattempt]
    rw [hattempt] at houtput
    exact ⟨[], .failed rfl, houtput.trans (List.append_nil _).symm⟩
  · rw [Action.bind_of_ok hattempt]
    rw [hattempt] at houtput
    obtain ⟨texts, hprints, hprinted, -⟩ := presents_present finding t
    exact ⟨texts, .presented rfl hprints, by rw [hprinted, houtput]⟩

/-! ### What is asked -/

/-- What is said when a session cannot be ended. -/
def farewell (e : Fault) : Text := "WARN: " ++ ("Bridge shutdown failed: " ++ e.format) ++ "\n"

/-- A question that is recorded adds itself and its answer to the record. -/
theorem record_noted (backend : Backend σ) (act : Action σ α) (note : Except Fault α → Exchange)
    (s : Console × (List Exchange × σ)) :
    (noted backend.recorded (act.noted note) s).2.2.1 = s.2.1 ++ [note (act s.2.2).1] := rfl

/-- The end of a session is asked for once, and if it fails there is a warning. -/
theorem record_leave (backend : Backend σ) (s : Console × (List Exchange × σ)) :
    ∃ ended, (leave (printing backend.recorded) s).2.1 = s.2.1 ++ [.disconnect ended] ∧
      ∀ e, ended = .error e → farewell e <:+ (leave (printing backend.recorded) s).1.errors := by
  have hrecord := record_noted backend backend.disconnect .disconnect s
  have hresult : ((printing backend.recorded).disconnect s).1 = (backend.disconnect s.2.2).1 := rfl
  refine ⟨(backend.disconnect s.2.2).1, ?_, ?_⟩
  · rw [← hrecord]
    unfold leave
    rcases hrun : (printing backend.recorded).disconnect s with ⟨e | ⟨⟩, t⟩
    · exact congrArg (·.2.2.1) hrun.symm
    · exact congrArg (·.2.2.1) hrun.symm
  · intro e he
    rw [he] at hresult
    unfold leave
    rcases hrun : (printing backend.recorded).disconnect s with ⟨e' | ⟨⟩, t⟩
    · rw [hrun] at hresult
      obtain rfl : e' = e := Except.error.inj hresult
      refine ⟨t.1.errors, ?_⟩
      simp [farewell, Console.tell, Console.report, List.append_assoc]
    · rw [hrun] at hresult
      cases hresult

/-- An attempt asks to connect before anything else; when it could not connect it asks nothing else, and
in no case to end the session. -/
theorem record_attempt (backend : Backend σ) (sources : SourceReader σ) (command : Command) (c : Console)
    (s : σ) :
    ∃ begun inner,
      (attempt backend.recorded sources.recorded command (c, ([], s))).2.2.1 = .connect begun :: inner ∧
      (∀ x ∈ inner, x.isBorder = false) ∧ ∀ e, begun = .error e → inner = [] := by
  let P (t : Console × (List Exchange × σ)) : Prop :=
    ∃ inner, t.2.1 = .connect (backend.connect s).1 :: inner ∧ ∀ x ∈ inner, x.isBorder = false
  have hask : ∀ {t : Console × (List Exchange × σ)} {x : Exchange} {u : Console × (List Exchange × σ)},
      P t → u.2.1 = t.2.1 ++ [x] → x.isBorder = false → P u := by
    rintro t x u ⟨inner, hinner, hborder⟩ hu hx
    refine ⟨inner ++ [x], by rw [hu, hinner, List.cons_append], ?_⟩
    rw [List.forall_mem_append]
    exact ⟨hborder, List.forall_mem_singleton.mpr hx⟩
  have hquestions : Preserved P (printing backend.recorded) sources.recorded.second :=
    { uidOf := fun name t ht => hask ht (record_noted backend _ _ t) rfl
      nameOf := fun uid t ht => hask ht (record_noted backend _ _ t) rfl
      respond := fun request t ht => hask ht (record_noted backend _ _ t) rfl
      whole := fun file t ht => hask ht rfl rfl
      range := fun file offset length t ht => hask ht rfl rfl }
  have hrecord := record_noted backend backend.connect .connect (c, ([], s))
  have hresult : ((printing backend.recorded).connect (c, ([], s))).1 = (backend.connect s).1 := rfl
  rcases hconnect : (printing backend.recorded).connect (c, ([], s)) with ⟨e | ⟨⟩, t⟩
  · have ht : t.2.1 = [.connect (backend.connect s).1] := by
      rw [← List.nil_append [_], ← hrecord]
      exact congrArg (·.2.2.1) hconnect.symm
    rw [attempt, Action.bind_of_error hconnect]
    exact ⟨_, [], ht, by simp, fun _ _ => rfl⟩
  · have ht : t.2.1 = [.connect (backend.connect s).1] := by
      rw [← List.nil_append [_], ← hrecord]
      exact congrArg (·.2.2.1) hconnect.symm
    rw [attempt, Action.bind_of_ok hconnect]
    obtain ⟨inner, hinner, hborder⟩ :=
      preserves_inspect (Inspection.perform_preserves hquestions command.inquiry) t ⟨[], ht, by simp⟩
    refine ⟨_, inner, hinner, hborder, ?_⟩
    intro e he
    rw [hconnect, he] at hresult
    cases hresult

/-- A session asks to connect before anything else and to disconnect after everything else, and nothing
in between when it could not connect. -/
theorem record_run (backend : Backend σ) (sources : SourceReader σ) (command : Command) (c : Console)
    (s : σ) :
    let out := run backend.recorded sources.recorded command (c, ([], s))
    ∃ begun inner ended, out.2.2.1 = .connect begun :: (inner ++ [.disconnect ended]) ∧
      (∀ x ∈ inner, x.isBorder = false) ∧ (∀ e, begun = .error e → inner = []) ∧
      (∀ e, ended = .error e → farewell e <:+ out.2.1.errors) := by
  intro out
  obtain ⟨begun, inner, hattempt, hborder, hfailed⟩ := record_attempt backend sources command c s
  have hpresent : ((attempt backend.recorded sources.recorded command >>= present) (c, ([], s))).2.2 =
      (attempt backend.recorded sources.recorded command (c, ([], s))).2.2 := by
    rcases hrun : attempt backend.recorded sources.recorded command (c, ([], s)) with ⟨e | finding, t⟩
    · rw [Action.bind_of_error hrun]
    · rw [Action.bind_of_ok hrun]
      obtain ⟨-, -, -, hstate⟩ := presents_present finding t
      exact hstate
  obtain ⟨ended, hended, hwarned⟩ := record_leave backend
    ((attempt backend.recorded sources.recorded command >>= present) (c, ([], s))).2
  have hout : out.2 = leave (printing backend.recorded)
      ((attempt backend.recorded sources.recorded command >>= present) (c, ([], s))).2 :=
    congrArg Prod.snd (run_eq _ _ _ _)
  rw [← hout, hpresent, hattempt] at hended
  rw [← hout] at hwarned
  exact ⟨begun, inner, ended, hended, hborder, hfailed, hwarned⟩

/-! ### The record changes nothing -/

/-- The states with a record and without one. -/
abbrev Unrecorded : Console × (List Exchange × σ) → Console × σ → Prop := SameFirst fun s t => s.2 = t

/-- A recorded question does what the question does. -/
theorem matches_noted {backend : Backend σ} {act : Action (List Exchange × σ) α} {act' : Action σ α}
    (h : Matches (fun s t => s.2 = t) act act') :
    Matches Unrecorded (noted backend.recorded act) (noted backend act') := by
  rintro ⟨c, s⟩ ⟨_, t⟩ ⟨rfl, hs⟩
  obtain ⟨hresult, hstate⟩ := h s t hs
  refine ⟨hresult, ?_, ?_⟩
  · show (backend.notes (act s).2.2).1.foldl Console.tell c = (backend.notes (act' t).2).1.foldl _ c
    rw [hstate]
  · show (backend.notes (act s).2.2).2 = (backend.notes (act' t).2).2
    rw [hstate]

/-- All questions over a recorded service do what they do over the service. -/
theorem peers_printing (backend : Backend σ) (sources : SourceReader σ) :
    Peers (SameFirst Unrecorded) (printing backend.recorded) (printing backend) sources.recorded.second
      sources.second where
  uidOf _ := (matches_noted (Action.matches_noted _ _)).second
  resolve := NameCache.matches_resolve fun _ => matches_noted (Action.matches_noted _ _)
  respond _ := (matches_noted (Action.matches_noted _ _)).second
  whole _ := (Action.matches_noted _ _).second.second
  range _ _ _ := (Action.matches_noted _ _).second.second

/-- An attempt at a command goes the same way with a record as without. -/
theorem matches_attempt (backend : Backend σ) (sources : SourceReader σ) (command : Command) :
    Matches Unrecorded (attempt backend.recorded sources.recorded command)
      (attempt backend sources command) := by
  apply Matches.bind
  · exact matches_noted (Action.matches_noted _ _)
  · intro _ s t hs
    obtain ⟨hresult, hstate⟩ := Inspection.matches_perform (peers_printing backend sources)
      command.inquiry ([], s) ([], t) ⟨rfl, hs⟩
    exact ⟨hresult, hstate.2⟩

/-- A note is the same with a record as without. -/
theorem matches_tell (note : Note) :
    Matches (Unrecorded (σ := σ)) (tell note) (tell note) :=
  Matches.modify fun _ _ hs => ⟨congrArg (·.tell note) hs.1, hs.2⟩

/-- A tree is printed the same with a record as without. -/
theorem matches_printTree (tree : Value) :
    Matches (Unrecorded (σ := σ)) (printTree tree) (printTree tree) := by
  apply Matches.bind (Matches.ofExcept _)
  intro document
  exact Matches.modify fun _ _ hs => ⟨congrArg (·.print document) hs.1, hs.2⟩

/-- What was found is presented the same with a record as without. -/
theorem matches_present (finding : Finding) :
    Matches (Unrecorded (σ := σ)) (present finding) (present finding) := by
  cases finding with
  | outline tree => exact matches_printTree _
  | tokens found => exact matches_printTree _
  | docOffsets offsets => exact matches_printTree _
  | docs files =>
    have hfiles := Matches.each (R := Unrecorded (σ := σ)) (k := printDocs) (l := printDocs)
      (fun file => (matches_tell _).bind fun _ => matches_printTree _) files
    cases files with
    | nil => exact (matches_tell _).bind fun _ => hfiles.bind fun _ => Matches.pure ()
    | cons file rest => exact hfiles.bind fun _ => Matches.pure ()

/-- A session ends the same with a record as without. -/
theorem unrecorded_leave (backend : Backend σ) {s : Console × (List Exchange × σ)} {t : Console × σ}
    (hs : Unrecorded s t) :
    Unrecorded (leave (printing backend.recorded) s) (leave (printing backend) t) := by
  have hdisconnect : Matches Unrecorded (printing backend.recorded).disconnect
      (printing backend).disconnect := matches_noted (Action.matches_noted _ _)
  obtain ⟨hresult, hconsole, hstate⟩ := hdisconnect s t hs
  unfold leave
  rcases hrun : (printing backend.recorded).disconnect s with ⟨r, s'⟩
  rcases hrun' : (printing backend).disconnect t with ⟨r', t'⟩
  rw [hrun, hrun'] at hresult hconsole hstate
  obtain rfl : r = r' := hresult
  cases r with
  | ok _ => exact ⟨hconsole, hstate⟩
  | error e =>
    exact ⟨congrArg (·.tell (.warning ("Bridge shutdown failed: " ++ e.format))) hconsole, hstate⟩

/-- A session with a record is the session, when the record is forgotten. -/
theorem unrecorded_run (backend : Backend σ) (sources : SourceReader σ) (command : Command) (c : Console)
    (s : σ) :
    let out := run backend.recorded sources.recorded command (c, ([], s))
    run backend sources command (c, s) = (out.1, (out.2.1, out.2.2.2)) := by
  intro out
  have hact : Matches Unrecorded (attempt backend.recorded sources.recorded command >>= present)
      (attempt backend sources command >>= present) :=
    (matches_attempt backend sources command).bind matches_present
  obtain ⟨hresult, hstate⟩ := hact (c, ([], s)) (c, s) ⟨rfl, rfl⟩
  have hleave := unrecorded_leave backend hstate
  have hout : out = _ := run_eq backend.recorded sources.recorded command (c, ([], s))
  rw [hout, run_eq, hresult]
  exact Prod.ext rfl (Prod.ext hleave.1.symm hleave.2.symm)

end Session

/-! ### Whole runs -/

namespace Program

variable {τ : Type}

/-- What a run has come to after its session. -/
def outcome (out : Except Fault Unit × (Console × σ)) : Outcome :=
  match out.1 with
  | .ok () => ⟨out.2.1.output, out.2.1.errors, 0⟩
  | .error e => fatal out.2.1 e

/-- What a run puts out is what its session has put out. -/
theorem output_outcome (out : Except Fault Unit × (Console × σ)) :
    (outcome out).output = out.2.1.output := by
  unfold outcome
  split <;> rfl

/-- A run ends with 0 or 1, and with 1 exactly when its session fails. -/
theorem exitCode_outcome (out : Except Fault Unit × (Console × σ)) :
    (outcome out).exitCode ≤ 1 ∧ ((outcome out).exitCode = 1 ↔ ∃ e, out.1 = .error e) := by
  rcases out with ⟨e | ⟨⟩, s⟩
  · exact ⟨Nat.le_refl 1, fun _ => ⟨e, rfl⟩, fun _ => rfl⟩
  · refine ⟨Nat.zero_le 1, fun hcode => absurd hcode Nat.zero_ne_one, ?_⟩
    rintro ⟨e, he⟩
    cases he

/-- In the covered range a journal can be named, if one is to be kept. -/
theorem journal?_of_covers {host : Host τ} (hnow : Calendar.covers host.now = true)
    (settings : Settings) : ∃ journal, journal? host settings = .ok journal := by
  unfold journal?
  split_ifs
  · rw [Calendar.sessionId, if_pos hnow]
    exact ⟨_, rfl⟩
  · exact ⟨none, rfl⟩

/-- The environment of a run once the file of settings is loaded. -/
def environment (host : Host τ) (words : List Text) : Entries Text :=
  (host.load words host.environment).environment

/-- The settings of a run. -/
def settings (host : Host τ) (words : List Text) : Settings :=
  Settings.load host.directory (Options.parse words) (environment host words)

/-- The link of a run to its helper. -/
def attachment (host : Host τ) (words : List Text) (journal : Option Journal) : Attachment τ where
  process := host.process (settings host words).helper (settings host words).helperArgs (environment host words)
  journal := journal
  store := host.store
  timeout := (settings host words).timeout
  beginning := host.now

/-- The library that loads the file of settings writes nothing to the output. It only does when it is asked
to report on itself. -/
def LoadsQuietly (host : Host τ) (words : List Text) : Prop :=
  (host.load words host.environment).output = ""

/-- The console once it has been told of the journal, if one is kept. -/
def announced (journal : Option Journal) (c : Console) : Console :=
  match journal with
  | some j => c.tell (.info ("Auditing bridge traffic to " ++ j.file))
  | none => c

/-- To announce the journal puts nothing out. -/
theorem output_announced (journal : Option Journal) (c : Console) :
    (announced journal c).output = c.output := by
  cases journal with
  | none => rfl
  | some j => exact Console.output_tell _ _

/-- To run a command is a session over the link to the helper. -/
theorem runCommand_eq_outcome (host : Host τ) (words : List Text) (journal : Option Journal)
    (command : Command) (c : Console) (t : τ) :
    let link := attachment host words journal
    let out := Session.run link.backend (Sources.ofSystem host.read) command
      (announced journal c, link.begin t)
    runCommand host (environment host words) (settings host words) journal command c t =
      (outcome out, out.2.2.2.outside) := by
  intro link out
  unfold runCommand
  dsimp only
  split
  · next c' s' hrun =>
    have hout : out = (.ok (), (c', s')) := hrun
    rw [hout]
    rfl
  · next e c' s' hrun =>
    have hout : out = (.error e, (c', s')) := hrun
    rw [hout]
    rfl

/-- A run of the program with a command is a session over the link to its helper, on a console with nothing
on it yet, if the file of settings is loaded quietly. -/
theorem run_eq_outcome {host : Host τ} {words : List Text} {command : Command}
    (hhelp : (Options.parse words).help = false) (hcommand : (Options.parse words).command = some command)
    (hnow : Calendar.covers host.now = true) (hquiet : LoadsQuietly host words) (t : τ) :
    ∃ (journal : Option Journal) (c : Console), journal? host (settings host words) = .ok journal ∧
      c.output = "" ∧
      let link := attachment host words journal
      let out := Session.run link.backend (Sources.ofSystem host.read) command (c, link.begin t)
      run host words t = (outcome out, out.2.2.2.outside) := by
  let loaded : Console :=
    { Console.blank (settings host words).verbose with output := (host.load words host.environment).output }
  let c := ((Options.parse words).problems.map Note.warning).foldl Console.tell loaded
  obtain ⟨journal, hjournal⟩ := journal?_of_covers hnow (settings host words)
  have hrun : run host words t =
      runCommand host (environment host words) (settings host words) journal command c t := by
    unfold run
    simp only [hhelp, hcommand, Bool.false_eq_true, if_false]
    split
    · next e herror => cases hjournal.symm.trans herror
    · next kept hkept =>
      obtain rfl : journal = kept := Except.ok.inj (hjournal.symm.trans hkept)
      rfl
  refine ⟨journal, announced journal c, hjournal, ?_,
    hrun.trans (runCommand_eq_outcome host words journal command c t)⟩
  rw [output_announced, Console.output_foldl_tell]
  exact hquiet

end Program

namespace Session

/-! ### The whole statement -/

/-- Connecting, the inspection or the printing of what it finds fails. -/
def Fails (attempt : Except Fault Finding) : Prop :=
  (∃ e, attempt = .error e) ∨ ∃ finding, attempt = .ok finding ∧
    ∃ tree ∈ finding.documents, ∃ defect, Document.render 0 tree = .error defect

/-- A session fails exactly when connecting, the inspection or the printing does. -/
theorem Ends.fails_iff {attempt : Except Fault Finding} {r : Except Fault Unit} {texts : List Text}
    (h : Ends attempt r texts) : (∃ e, r = .error e) ↔ Fails attempt := by
  cases h with
  | failed hattempt => exact ⟨fun _ => .inl ⟨_, hattempt⟩, fun _ => ⟨_, rfl⟩⟩
  | @presented finding _ _ hattempt hprints =>
    cases hprints with
    | upTo hsplit _ hdefect =>
      refine ⟨fun _ => .inr ⟨finding, hattempt, _, ?_, _, hdefect⟩, fun _ => ⟨_, rfl⟩⟩
      rw [hsplit]
      exact List.mem_append_right _ List.mem_cons_self
    | all htexts =>
      constructor
      · rintro ⟨e, he⟩
        cases he
      · rintro (⟨e, he⟩ | ⟨finding', hfinding, tree, htree, defect, hdefect⟩)
        · rw [hattempt] at he
          cases he
        · rw [hattempt] at hfinding
          obtain rfl : finding = finding' := Except.ok.inj hfinding
          obtain ⟨text, hrender⟩ := htexts.exists_text htree
          rw [hdefect] at hrender
          cases hrender

/-- How a session goes that carries out a command over a service and a reader, whatever these do. -/
structure Contract (backend : Backend σ) (sources : SourceReader σ) (command : Command) (c : Console)
    (s : σ) : Prop where
  /-- The service and the reader can be watched without changing anything. -/
  watched : let out := run backend.recorded sources.recorded command (c, ([], s))
    run backend sources command (c, s) = (out.1, (out.2.1, out.2.2.2))
  /-- The service is asked to connect before and to disconnect after all else, once each, whatever fails;
  if it cannot be ended there is a warning. -/
  asked : ∃ begun inner ended,
    (run backend.recorded sources.recorded command (c, ([], s))).2.2.1 =
        .connect begun :: (inner ++ [.disconnect ended]) ∧
      (∀ x ∈ inner, x.isBorder = false) ∧ (∀ e, begun = .error e → inner = []) ∧
      ∀ e, ended = .error e → farewell e <:+ (run backend sources command (c, s)).2.1.errors
  /-- The documents of the command are printed in turn, up to the first that has no printed form, and
  nothing else is. -/
  printed : ∃ texts,
    Ends (attempt backend sources command (c, s)).1 (run backend sources command (c, s)).1 texts ∧
      (Program.outcome (run backend sources command (c, s))).output =
        c.output ++ Document.printed texts
  /-- The exit code is 1 if something failed before the end of the session, and otherwise 0. -/
  exitCode : (Program.outcome (run backend sources command (c, s))).exitCode ≤ 1 ∧
    ((Program.outcome (run backend sources command (c, s))).exitCode = 1 ↔
      Fails (attempt backend sources command (c, s)).1)

/-- Every session keeps the contract. -/
theorem contract (backend : Backend σ) (sources : SourceReader σ) (command : Command) (c : Console)
    (s : σ) : Contract backend sources command c s where
  watched := unrecorded_run backend sources command c s
  asked := by
    obtain ⟨begun, inner, ended, hrecord, hinner, hfailed, hwarned⟩ :=
      record_run backend sources command c s
    refine ⟨begun, inner, ended, hrecord, hinner, hfailed, ?_⟩
    rw [unrecorded_run backend sources command c s]
    exact hwarned
  printed := by
    rw [Program.output_outcome]
    exact ends_run backend sources command (c, s)
  exitCode := by
    obtain ⟨texts, hends, -⟩ := ends_run backend sources command (c, s)
    obtain ⟨hle, hexit⟩ := Program.exitCode_outcome (run backend sources command (c, s))
    exact ⟨hle, hexit.trans hends.fails_iff⟩

/-- Whatever a service answers and wherever it fails, a session that carries out a command goes as
`Contract` says; and a run of the program that is given a command, and not asked for help, is such a
session over the link to the helper, on a console that holds nothing, as long as the library that loads
the file of settings writes nothing there. -/
theorem contract_of_run :
    (∀ {σ : Type} (backend : Backend σ) (sources : SourceReader σ) (command : Command) (c : Console) (s : σ),
      Contract backend sources command c s) ∧
    (∀ {τ : Type} (host : Host τ) (words : List Text) (command : Command) (t : τ),
      (Options.parse words).help = false → (Options.parse words).command = some command →
      Calendar.covers host.now = true → Program.LoadsQuietly host words →
      ∃ (journal : Option Journal) (c : Console),
        Program.journal? host (Program.settings host words) = .ok journal ∧ c.output = "" ∧
        let link := Program.attachment host words journal
        let out := run link.backend (Sources.ofSystem host.read) command (c, link.begin t)
        Program.run host words t = (Program.outcome out, out.2.2.2.outside)) := by
  refine ⟨fun backend sources command c s => contract backend sources command c s, ?_⟩
  intro τ host words command t hhelp hcommand hnow hquiet
  exact Program.run_eq_outcome hhelp hcommand hnow hquiet t

/-- A service whose first response can be printed and whose others cannot, and that cannot be ended. -/
def halfPrintable : Backend Nat where
  connect := pure ()
  uidOf _ := pure 4300000000
  nameOf _ := pure none
  respond _ := fun n => (.ok (.dictionary (if n = 0 then [] else [("key.data", .data [])])), n + 1)
  disconnect := Action.fail (.outside "gone")
  notes n := ([], n)

/-- A host with no files, so without one of settings, whose helper never answers. -/
def bareHost : Host Unit where
  directory := "/"
  environment := []
  load _ environment := ⟨environment, ""⟩
  read path := .error (.missing "open" path)
  process _ _ _ := ⟨pure (), fun _ t => t, id, fun t => ([], t)⟩
  store := ⟨fun _ => pure (), fun _ _ => pure ()⟩
  now := 0

/-- Of two documents the second has no printed form: the first is printed, and the exit code is 1. -/
theorem contract_of_run_half_printable :
    let reader : SourceReader Nat := ⟨fun _ => pure "", fun _ _ _ => pure ""⟩
    let outcome := Program.outcome
      (run halfPrintable reader (.docs ["A.swift", "B.swift"]) (Console.blank false, 0))
    outcome.output = "\x7b\x7d\n" ∧ outcome.exitCode = 1 ∧
      ∃ (journal : Option Journal) (c : Console),
        Program.journal? bareHost (Program.settings bareHost ["--docs"]) = .ok journal ∧ c.output = "" ∧
        let link := Program.attachment bareHost ["--docs"] journal
        let out := run link.backend (Sources.ofSystem bareHost.read) (.docs []) (c, link.begin ())
        Program.run bareHost ["--docs"] () = (Program.outcome out, out.2.2.2.outside) := by
  intro reader outcome
  obtain ⟨hsession, hprogram⟩ := contract_of_run
  have hexit := (hsession halfPrintable reader (.docs ["A.swift", "B.swift"]) (Console.blank false)
    0).exitCode.2
  refine ⟨rfl, hexit.mpr (.inr ⟨.docs [⟨"A.swift", []⟩, ⟨"B.swift", [("key.data", .data [])]⟩], rfl,
    .dictionary [("key.data", .data [])], ?_, _, rfl⟩), ?_⟩
  · exact List.mem_cons_of_mem _ List.mem_cons_self
  · exact hprogram bareHost ["--docs"] (.docs []) () rfl rfl rfl rfl

end Session

end SwiftLens
