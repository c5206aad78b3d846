import SwiftLens.Machine.FileTree
import SwiftLens.Proofs.Journal.Conduct
import SwiftLens.Proofs.Json.Faithful

/-!
# What stands in a journal

A store that appends a text whole or not at all (`Store.AppendsWhole`) holds, after any run, what it held
before and then the lines of the calls that wrote, in their order (`run_contents`). A line has no line feed
but the one that ends it (`lineFeed_notMem_line`), it goes through the bytes of the file unharmed
(`isWhole_written`), and it reads back as the entry of its call (`parse?_line`). `run_written_as_lines` puts
this together with the conduct of a journal.

The file tree in memory is such a store (`FileTree.appendsWhole_store`), and it stays one when its calls
fail according to a plan (`Store.AppendsWhole.planned`).
-/

namespace SwiftLens

variable {τ : Type}

/-- The store appends a text to the file whole, or fails and appends nothing, and does nothing else to it.
The bytes of the file are given as a function of the state. -/
structure Store.AppendsWhole (store : Store τ) (file : Text) (contents : τ → Utf8.Bytes) : Prop where
  makeDirectory {path : Text} {t t' : τ} {r : Except Fault Unit} :
    store.makeDirectory path t = (r, t') → contents t' = contents t
  append {text : Text} {t t' : τ} :
    store.append file text t = (.ok (), t') → contents t' = contents t ++ Utf8.encode text
  append_error {text : Text} {t t' : τ} {e : Fault} :
    store.append file text t = (.error e, t') → contents t' = contents t

namespace Journal

/-! ### Lines -/

/-- The lines of the calls that wrote. -/
def written (j : Journal) (outcomes : List Outcome) : Text :=
  ((outcomes.filter Outcome.wrote).map Outcome.call).flatMap fun call => j.line call ++ "\n"

/-- A line has no line feed in it, whatever the entry holds. -/
theorem lineFeed_notMem_line (j : Journal) (call : Call) : CodeUnit.lineFeed ∉ j.line call :=
  Text.not_mem_of_isControlFree (Json.isControlFree_write _) (by decide)

/-- Lines of a journal have no half of a surrogate pair standing alone. -/
theorem isWhole_written (j : Journal) (outcomes : List Outcome) : Utf8.IsWhole (j.written outcomes) := by
  unfold written
  induction (outcomes.filter Outcome.wrote).map Outcome.call with
  | nil => exact Utf8.isWhole_nil
  | cons call rest ih => exact ((Json.isWhole_write _).append (Utf8.isWhole_ofString "\n")).append ih

/-- An entry with faithful data is faithful: its own keys are distinct, and none is an array index. -/
theorem isFaithful_entry (stamp session type : Text) {data : Option (Json Double)}
    (h : ∀ value ∈ data, value.IsFaithful) : (entry stamp session type data).IsFaithful := by
  have hplain : ∀ key ∈ (["ts", "sessionId", "type", "data"] : List Text), Entries.index? key = none := by
    decide
  have hnodup : (["ts", "sessionId", "type", "data"] : List Text).Nodup := by decide
  cases data with
  | none =>
    have hsub : (["ts", "sessionId", "type"] : List Text).Sublist ["ts", "sessionId", "type", "data"] :=
      List.sublist_append_left (["ts", "sessionId", "type"] : List Text) ["data"]
    exact Json.isFaithful_object (hnodup.sublist hsub) (fun key hkey => hplain key (hsub.subset hkey))
      ⟨trivial, trivial, trivial, trivial⟩
  | some value =>
    exact Json.isFaithful_object hnodup hplain ⟨trivial, trivial, trivial, h value rfl, trivial⟩

/-- A line is read back as the entry of its call. -/
theorem parse?_line (j : Journal) {call : Call} (h : ∀ value ∈ call.data, value.IsFaithful) :
    Json.parse? (j.line call) = some (entry call.stamp j.session call.type call.data) :=
  Json.parse?_write_of_isFaithful (isFaithful_entry call.stamp j.session call.type h)

/-- The members of an entry; there is no data when there is none to write. -/
theorem member?_entry (stamp session type : Text) (data : Option (Json Double)) :
    (entry stamp session type data).member? "sessionId" = some (.string session) ∧
      (entry stamp session type data).member? "type" = some (.string type) ∧
      (entry stamp session type data).member? "data" = data := by
  cases data with
  | none => exact ⟨rfl, rfl, rfl⟩
  | some value => exact ⟨rfl, rfl, rfl⟩

/-! ### Contents -/

section contents

variable {j : Journal} {store : Store τ} {contents : τ → Utf8.Bytes} {s s' : Progress × τ}

/-- What is done for an entry adds its text to the file if it was written, and nothing otherwise. -/
theorem Logged.contents_eq (hstore : store.AppendsWhole j.file contents) {text : Text} {touches : List Touch}
    {r : Except Fault Unit} (h : Logged j store text s touches r s') :
    contents s'.2 = contents s.2 ++ Utf8.encode (if touches.any Touch.writes then text else []) := by
  rw [h.writes]
  cases h with
  | refused h hmake => exact (hstore.makeDirectory hmake).trans (List.append_nil _).symm
  | @first p t t' t'' r h hmake happend =>
    cases r with
    | ok v => exact (hstore.append happend).trans (by rw [hstore.makeDirectory hmake]; rfl)
    | error e =>
      refine ((hstore.append_error happend).trans (hstore.makeDirectory hmake)).trans ?_
      exact (List.append_nil _).symm
  | @later p t t' r h happend =>
    cases r with
    | ok v => exact hstore.append happend
    | error e => exact (hstore.append_error happend).trans (List.append_nil _).symm

/-- A call adds the line of its entry to the file if it wrote, and nothing otherwise. -/
theorem Stepped.contents_eq (hstore : store.AppendsWhole j.file contents) {o : Outcome}
    (h : Stepped j store s o s') :
    contents s'.2 = contents s.2 ++ Utf8.encode (if o.wrote then j.line o.call ++ "\n" else []) := by
  cases h with
  | logged hmanner h => exact h.contents_eq hstore
  | rested hmanner hfailed => exact (List.append_nil _).symm
  | recorded hmanner hfailed h => exact h.contents_eq hstore
  | gaveUp hmanner hfailed h => exact h.contents_eq hstore

/-- The lines of calls are the line of the first, if it wrote, and those of the others. -/
theorem written_cons (j : Journal) (o : Outcome) (rest : List Outcome) :
    j.written (o :: rest) = (if o.wrote then j.line o.call ++ "\n" else []) ++ j.written rest := by
  unfold written
  cases h : o.wrote
  · rw [List.filter_cons_of_neg (by simp [h])]
    rfl
  · rw [List.filter_cons_of_pos h, List.map_cons, List.flatMap_cons]
    rfl

/-- After a run the file holds what it held before, and then the lines of the calls that wrote. -/
theorem run_contents (hstore : store.AppendsWhole j.file contents) (calls : List Call)
    (s : Progress × τ) :
    contents (j.run store calls s).2.2 = contents s.2 ++ Utf8.encode (j.written (j.run store calls s).1) := by
  induction calls generalizing s with
  | nil => exact (List.append_nil _).symm
  | cons call rest ih =>
    obtain ⟨o, s', hstep, -, hobserve, -⟩ := exists_stepped j store call s
    have hline : Utf8.IsWhole (if o.wrote then j.line o.call ++ "\n" else []) := by
      have hwhole := isWhole_written j [o]
      rwa [written_cons, written, List.filter_nil, List.map_nil, List.flatMap_nil, List.append_nil] at hwhole
    rw [run_cons, hobserve, ih, hstep.contents_eq hstore, written_cons, hline.encode_append,
      List.append_assoc]

end contents

end Journal

/-! ### File trees as stores -/

namespace FileTree

/-- A file that was written has these bytes. -/
theorem contents?_write (t : FileTree) (place : List Text) (bytes : Utf8.Bytes) :
    (t.write place bytes).contents? place = some bytes := by
  have hnone : (t.files.filter fun f => f.1 != place).find? (fun f => f.1 == place) = none := by
    refine List.find?_eq_none.mpr fun f hf => ?_
    simpa using (List.mem_filter.mp hf).2
  unfold write contents?
  rw [List.find?_append, hnone]
  simp

/-- Directories are made without touching the files. -/
theorem files_makeBelow (t : FileTree) (path : Text) (made : Bool) (place names : List Text) :
    (t.makeBelow path made place names).2.files = t.files := by
  induction names generalizing t made place with
  | nil => rfl
  | cons name rest ih =>
    unfold makeBelow
    dsimp only
    split_ifs
    · rfl
    · rfl
    · rfl
    · rfl
    · exact ih ..
    · exact ih ..

/-- Making a directory changes no file. -/
theorem files_makeDirectory (t : FileTree) (path : Text) : (t.makeDirectory path).2.files = t.files := by
  unfold makeDirectory
  split
  · rfl
  · split_ifs
    · rfl
    · exact files_makeBelow ..

/-- Where a walk leads does not depend on the tree, only whether it gets there. -/
theorem walk_eq_ok {t : FileTree} {call path : Text} {place place' names : List Text}
    (h : t.walk call path place names = .ok place') :
    place' = (names.foldl Path.follow place.reverse).reverse := by
  induction names generalizing place with
  | nil =>
    rw [walk, Except.ok.injEq] at h
    rw [← h]
    exact (List.reverse_reverse place).symm
  | cons name rest ih =>
    unfold walk at h
    rw [List.foldl_cons, Path.follow]
    split_ifs at h with hfile hdirectory hlong hsame hup
    · rw [if_pos hsame]
      exact ih h
    · rw [if_neg hsame, if_pos hup, List.tail_reverse]
      exact ih h
    · rw [if_neg hsame, if_neg hup]
      have := ih h
      rwa [List.reverse_append] at this

/-- A path that is found is found at its place. -/
theorem locate_eq_ok {t : FileTree} {call path : Text} {place : List Text}
    (h : t.locate "/" call path = .ok place) : place = placeOf path := by
  unfold locate at h
  split_ifs at h
  · exact walk_eq_ok h
  · exact walk_eq_ok h

/-- What is appended stands behind what was in the file. -/
theorem append_eq_ok {t t' : FileTree} {path text : Text} (h : t.append path text = .ok t') :
    t' = t.write (placeOf path) ((t.contents? (placeOf path)).getD [] ++ Utf8.encode text) := by
  unfold append at h
  cases hcheck : SystemError.checkPath path with
  | error e =>
    rw [hcheck] at h
    cases h
  | ok v =>
    cases hlocate : t.locate "/" "open" path with
    | error e =>
      rw [hcheck, hlocate] at h
      cases h
    | ok place =>
      obtain rfl := locate_eq_ok hlocate
      rw [hcheck, hlocate] at h
      simp only [bind, Except.bind] at h
      split_ifs at h
      exact (Except.ok.inj h).symm

/-- A file tree appends whole texts to the file of a path, wherever the state holds it. -/
theorem appendsWhole_store {get : τ → FileTree} {put : FileTree → τ → τ}
    (hput : ∀ t s, get (put t s) = t) (path : Text) :
    (store get put).AppendsWhole path fun s => ((get s).contents? (placeOf path)).getD [] where
  makeDirectory {directory s s' r} h := by
    have hstate : put ((get s).makeDirectory directory).2 s = s' := (Prod.mk.inj h).2
    have hfiles := files_makeDirectory (get s) directory
    rw [← hstate, hput, contents?, hfiles]
    rfl
  append {text s s'} h := by
    cases happend : (get s).append path text with
    | error e =>
      simp only [store, happend] at h
      cases h
    | ok t =>
      simp only [store, happend] at h
      obtain ⟨-, rfl⟩ := Prod.mk.inj h
      rw [hput, append_eq_ok happend, contents?_write]
      rfl
  append_error {text s s' e} h := by
    cases happend : (get s).append path text with
    | error e' =>
      simp only [store, happend] at h
      obtain ⟨-, rfl⟩ := Prod.mk.inj h
      rfl
    | ok t =>
      simp only [store, happend] at h
      cases h

end FileTree

/-! ### Stores that fail as planned -/

/-- An action that fails as planned: it takes the next fault off the plan, where there is one, and fails
with it instead of being run. -/
def Action.planned (a : Action τ Unit) : Action (List (Option Fault) × τ) Unit := fun s =>
  match s.1 with
  | some e :: plan => (.error e, (plan, s.2))
  | plan => a.second (plan.tail, s.2)

/-- Such an action is run, or it fails and changes nothing. -/
theorem Action.planned_eq {a : Action τ Unit} {s s' : List (Option Fault) × τ} {r : Except Fault Unit}
    (h : a.planned s = (r, s')) : a s.2 = (r, s'.2) ∨ (∃ e, r = .error e) ∧ s'.2 = s.2 := by
  have hrun : ∀ plan, a.second (plan, s.2) = (r, s') → a s.2 = (r, s'.2) := by
    intro plan hsecond
    rcases ha : a s.2 with ⟨r', t⟩
    rw [Action.second_of_eq ha] at hsecond
    obtain ⟨rfl, rfl⟩ := Prod.mk.inj hsecond
    rfl
  unfold planned at h
  split at h
  · obtain ⟨rfl, rfl⟩ := Prod.mk.inj h
    exact .inr ⟨⟨_, rfl⟩, rfl⟩
  · exact .inl (hrun _ h)

/-- A store that fails as planned. -/
def Store.planned (store : Store τ) : Store (List (Option Fault) × τ) where
  makeDirectory path := (store.makeDirectory path).planned
  append file text := (store.append file text).planned

/-- A call that fails as planned leaves the file alone. -/
theorem Store.AppendsWhole.planned {store : Store τ} {file : Text} {contents : τ → Utf8.Bytes}
    (h : store.AppendsWhole file contents) : store.planned.AppendsWhole file fun s => contents s.2 where
  makeDirectory hmake := by
    rcases Action.planned_eq hmake with hrun | ⟨-, hstate⟩
    · exact h.makeDirectory hrun
    · exact congrArg contents hstate
  append happend := by
    rcases Action.planned_eq happend with hrun | ⟨⟨e, he⟩, -⟩
    · exact h.append hrun
    · cases he
  append_error happend := by
    rcases Action.planned_eq happend with hrun | ⟨-, hstate⟩
    · exact h.append_error hrun
    · exact congrArg contents hstate

namespace Journal

/-! ### The lines of a run -/

/-- A run of `log` and `record` on one journal, over any store. Being observed changes nothing of it. Each
call does what `Conduct` says; in particular `record` never fails, and there is one warning at most. Where
an append is whole or nothing, the file gains exactly the lines of the calls that wrote, in their order, also
when its bytes are read as text. Each line is a line, and from it the session, the type and the data of its
call are read back. -/
theorem run_written_as_lines (j : Journal) (store : Store τ) (calls : List Call) (t : τ) :
    let outcomes := (j.run store calls (.start, t)).1
    let t' := (j.run store calls (.start, t)).2.2
    outcomes.map Outcome.call = calls ∧
    j.makeAll store calls (.start, t) = (outcomes.map Outcome.answer, (j.run store calls (.start, t)).2) ∧
    (∀ past o later, outcomes = past ++ o :: later → Conduct j past o) ∧
    (outcomes.filterMap Outcome.warning).length ≤ 1 ∧
    (∀ contents : τ → Utf8.Bytes, store.AppendsWhole j.file contents →
      contents t' = contents t ++ Utf8.encode (j.written outcomes) ∧
      Utf8.decode (contents t') = Utf8.decode (contents t) ++ j.written outcomes) ∧
    ∀ call : Call, CodeUnit.lineFeed ∉ j.line call ∧
      ((∀ data ∈ call.data, data.IsFaithful) → ∃ value, Json.parse? (j.line call) = some value ∧
        value.member? "sessionId" = some (.string j.session) ∧
        value.member? "type" = some (.string call.type) ∧ value.member? "data" = call.data) := by
  intro outcomes t'
  have hstart : (Progress.start, t).1 = Progress.after [] := rfl
  have hconduct : ∀ past o later, outcomes = past ++ o :: later → Conduct j past o :=
    fun past o later hsplit => run_conduct j store calls hstart hsplit
  refine ⟨map_call_run j store calls _, makeAll_eq_run j store calls _, hconduct, ?_, ?_, ?_⟩
  · exact length_warnings_le outcomes [] hconduct
  · intro contents hstore
    have hbytes := run_contents hstore calls (.start, t)
    exact ⟨hbytes, by rw [hbytes, (isWhole_written j outcomes).decode_append_encode]⟩
  · intro call
    refine ⟨lineFeed_notMem_line j call, fun hdata => ⟨_, parse?_line j hdata, ?_⟩⟩
    exact member?_entry call.stamp j.session call.type call.data

/-- A journal whose directory cannot be made at first: the first `record` gives up, the second does nothing,
and the first `log` fails as well, so that only the line of the second one is written. -/
theorem run_written_as_lines_planned :
    let j : Journal := ⟨"/a/b", "run-1"⟩
    let store := (FileTree.store id fun t _ => t).planned
    let contents (s : List (Option Fault) × FileTree) :=
      (s.2.contents? (FileTree.placeOf j.file)).getD []
    let data : Json Double := .object [("seq", .bool true)]
    let call (manner : Manner) : Call := ⟨manner, "now", "request", some data⟩
    let ran := j.run store [call .record, call .record, call .log, call .log]
      (.start, ([some .invalidTime, some .tooDeep], ⟨[], []⟩))
    store.AppendsWhole j.file contents ∧ data.IsFaithful ∧
      ran.1.map Outcome.result = [.ok (), .ok (), .error .tooDeep, .ok ()] ∧
      ran.1.map Outcome.warning = [some (j.warning .invalidTime), none, none, none] ∧
      (ran.1.filterMap Outcome.warning).length ≤ 1 ∧
      Utf8.decode (contents ran.2.2) = j.line (call .log) ++ "\n" ∧
      ∃ value, Json.parse? (j.line (call .log)) = some value ∧ value.member? "data" = some data := by
  intro j store contents data call ran
  have hstore : store.AppendsWhole j.file contents :=
    (FileTree.appendsWhole_store (fun _ _ => rfl) j.file).planned
  have hdata : data.IsFaithful :=
    Json.isFaithful_object (List.nodup_singleton _)
      (by
        rintro key (_ | ⟨_, ⟨⟩⟩)
        rfl)
      ⟨trivial, trivial⟩
  have hcalls : (ran.1.filter Outcome.wrote).map Outcome.call = [call .log] := rfl
  have hwritten : j.written ran.1 = j.line (call .log) ++ "\n" := by
    rw [written, hcalls, List.flatMap_cons, List.flatMap_nil, List.append_nil]
  obtain ⟨-, -, -, honce, hcontents, hlines⟩ := run_written_as_lines j store
    [call .record, call .record, call .log, call .log] ([some .invalidTime, some .tooDeep], ⟨[], []⟩)
  obtain ⟨-, hparse⟩ := hlines (call .log)
  obtain ⟨value, hvalue, -, -, hmember⟩ := hparse fun value hvalue => Option.some.inj hvalue ▸ hdata
  refine ⟨hstore, hdata, rfl, rfl, honce, ?_, value, hvalue, hmember⟩
  have hempty : Utf8.decode (contents ([some .invalidTime, some .tooDeep], ⟨[], []⟩)) = [] := rfl
  have hfile := (hcontents contents hstore).2
  rw [hempty, List.nil_append] at hfile
  rw [hfile, hwritten]

end Journal

end SwiftLens
