import SwiftLens.Journal
import SwiftLens.Proofs.Inspection.Recording

/-!
# How a journal conducts itself

A run is any mixture of `log` and `record` on one journal, over a store that may fail whenever it likes. It
is observed through a store with a record of what is done to it (`Store.recorded`), so that one can say of a
call what it did to the file system and not only what it returned; `run_eq_makeAll` says that this changes
nothing.

A journal remembers two things: whether its directory was made and whether `record` has given up.
`Progress.after` reads both off the calls that were made before, and `Conduct` says by them what the next
call does. `Stepped` lists everything that a call can do. What one call preserves is shown of it once
(`Stepped.conduct`, `Stepped.progress`), and what a run does follows by induction on the calls
(`run_conduct`).
-/

namespace SwiftLens

variable {τ : Type}

/-- What an action does on the second part of a state, from what it does. -/
theorem Action.second_of_eq {δ σ α : Type} {a : Action σ α} {d : δ} {s t : σ} {r : Except Fault α}
    (h : a s = (r, t)) : a.second (d, s) = (r, (d, t)) := by
  unfold second
  rw [h]

/-! ### What is done to a store -/

/-- What a journal does to the file system, with what came of it. -/
inductive Touch where
  | makeDirectory (path : Text) (result : Except Fault Unit)
  | append (file text : Text) (result : Except Fault Unit)

namespace Touch

/-- The fault with which it failed. -/
def fault? : Touch → Option Fault
  | makeDirectory _ result => Fault.of? result
  | append _ _ result => Fault.of? result

/-- Whether a directory was made. -/
def makesDirectory : Touch → Bool
  | makeDirectory _ (.ok ()) => true
  | _ => false

/-- Whether a text was written. -/
def writes : Touch → Bool
  | append _ _ (.ok ()) => true
  | _ => false

end Touch

/-- A store with a record of what is done to it. -/
def Store.recorded (store : Store τ) : Store (List Touch × τ) where
  makeDirectory path := fun s =>
    match store.makeDirectory path s.2 with
    | (r, t) => (r, (s.1 ++ [.makeDirectory path r], t))
  append file text := fun s =>
    match store.append file text s.2 with
    | (r, t) => (r, (s.1 ++ [.append file text r], t))

namespace Store

variable {store : Store τ} {front : List Touch} {t t' : τ} {r : Except Fault Unit}

/-- Making a directory is written down with what came of it. -/
theorem makeDirectory_recorded {path : Text} (h : store.makeDirectory path t = (r, t')) :
    store.recorded.makeDirectory path (front, t) = (r, (front ++ [.makeDirectory path r], t')) := by
  simp only [recorded, h]

/-- Appending is written down with what came of it. -/
theorem append_recorded {file text : Text} (h : store.append file text t = (r, t')) :
    store.recorded.append file text (front, t) = (r, (front ++ [.append file text r], t')) := by
  simp only [recorded, h]

end Store

namespace Journal

/-! ### Calls -/

/-- The two ways of writing an entry. -/
inductive Manner where
  | log
  | record
  deriving DecidableEq, Repr

/-- A call of a journal: an entry and the way in which it is to be written. -/
structure Call where
  manner : Manner
  stamp : Text
  type : Text
  data : Option (Json Double)

/-- The line of the entry of a call, up to its end. -/
def line (j : Journal) (call : Call) : Text := (entry call.stamp j.session call.type call.data).write

/-- Make a call. The caller gets a result, which is never a fault from `record`, and perhaps a warning. -/
def make (j : Journal) (store : Store τ) (call : Call) (s : Progress × τ) :
    (Except Fault Unit × Option Text) × (Progress × τ) :=
  match call.manner with
  | .log => Prod.map (fun result => (result, none)) id (j.log store call.stamp call.type call.data s)
  | .record =>
    Prod.map (fun warning => (.ok (), warning)) id (j.record store call.stamp call.type call.data s)

/-- Make calls one after the other. -/
def makeAll (j : Journal) (store : Store τ) : List Call → Progress × τ →
    List (Except Fault Unit × Option Text) × (Progress × τ)
  | [], s => ([], s)
  | call :: rest, s =>
    let (answer, s) := j.make store call s
    let (answers, s) := j.makeAll store rest s
    (answer :: answers, s)

/-- A call and what came of it: what was done to the file system, and what the caller got. -/
structure Outcome where
  call : Call
  touches : List Touch
  result : Except Fault Unit
  warning : Option Text

namespace Outcome

/-- What the caller got. -/
def answer (o : Outcome) : Except Fault Unit × Option Text := (o.result, o.warning)

/-- The fault of what was done to the file system. -/
def fault? (o : Outcome) : Option Fault := o.touches.findSome? Touch.fault?

/-- Whether the call made the directory. -/
def madeDirectory (o : Outcome) : Bool := o.touches.any Touch.makesDirectory

/-- Whether the call wrote its entry. -/
def wrote (o : Outcome) : Bool := o.touches.any Touch.writes

/-- Whether the call is a `record` that could not write. -/
def givesUp (o : Outcome) : Bool := o.call.manner = .record && o.fault?.isSome

end Outcome

/-- Make a call and observe it. -/
def observe (j : Journal) (store : Store τ) (call : Call) (s : Progress × τ) :
    Outcome × (Progress × τ) :=
  match j.make store.recorded call (s.1, ([], s.2)) with
  | ((result, warning), (progress, (touches, t))) => (⟨call, touches, result, warning⟩, (progress, t))

/-- Make calls one after the other and observe them. -/
def run (j : Journal) (store : Store τ) : List Call → Progress × τ → List Outcome × (Progress × τ)
  | [], s => ([], s)
  | call :: rest, s =>
    let (o, s) := j.observe store call s
    let (outcomes, s) := j.run store rest s
    (o :: outcomes, s)

/-! ### The conduct of a journal -/

/-- How far a journal has come, by the calls that were made: its directory was made if one of them made it,
and it has given up if one of them was a `record` that could not write. -/
def Progress.after (past : List Outcome) : Progress :=
  ⟨past.any Outcome.madeDirectory, past.any Outcome.givesUp⟩

/-- What an attempt to write a text does, given whether the directory was made before: the text is appended
once there is a directory, and nothing more is done when the directory cannot be made. -/
inductive Attempt (j : Journal) (text : Text) : Bool → List Touch → Prop
  | refused (e : Fault) : Attempt j text false [.makeDirectory (Path.parent j.file) (.error e)]
  | first (r : Except Fault Unit) :
    Attempt j text false [.makeDirectory (Path.parent j.file) (.ok ()), .append j.file text r]
  | later (r : Except Fault Unit) : Attempt j text true [.append j.file text r]

/-- What a call does, given what came of the calls before it. -/
structure Conduct (j : Journal) (past : List Outcome) (o : Outcome) : Prop where
  /-- A `log`, and a `record` as long as none has given up, tries to write the line of its entry. -/
  attempts : (o.call.manner = .record → (Progress.after past).hasFailed = false) →
    Attempt j (j.line o.call ++ "\n") (Progress.after past).hasDirectory o.touches
  /-- A `record` after one that could not write leaves the file system alone. -/
  rests : o.call.manner = .record → (Progress.after past).hasFailed = true → o.touches = []
  /-- A `log` fails just in case the file system does, and with that fault. -/
  log_fails : o.call.manner = .log → Fault.of? o.result = o.fault?
  /-- A `record` never fails. -/
  record_succeeds : o.call.manner = .record → o.result = .ok ()
  /-- There is a warning just in case the call is the first `record` that could not write. -/
  warns : o.warning = if o.call.manner = .record ∧ (Progress.after past).hasFailed = false
    then o.fault?.map j.warning else none
  /-- An entry was written just in case it was tried and nothing failed. -/
  wrote_iff : o.wrote = true ↔ o.touches ≠ [] ∧ o.fault? = none

/-! ### One attempt -/

/-- Everything that `log` can do with a text: what it does to the store, and its result. -/
inductive Logged (j : Journal) (store : Store τ) (text : Text) :
    Progress × τ → List Touch → Except Fault Unit → Progress × τ → Prop
  | refused {p : Progress} {t t' : τ} {e : Fault} (h : p.hasDirectory = false)
    (hmake : store.makeDirectory (Path.parent j.file) t = (.error e, t')) :
    Logged j store text (p, t) [.makeDirectory (Path.parent j.file) (.error e)] (.error e) (p, t')
  | first {p : Progress} {t t' t'' : τ} {r : Except Fault Unit} (h : p.hasDirectory = false)
    (hmake : store.makeDirectory (Path.parent j.file) t = (.ok (), t'))
    (happend : store.append j.file text t' = (r, t'')) :
    Logged j store text (p, t) [.makeDirectory (Path.parent j.file) (.ok ()), .append j.file text r] r
      ({ p with hasDirectory := true }, t'')
  | later {p : Progress} {t t' : τ} {r : Except Fault Unit} (h : p.hasDirectory = true)
    (happend : store.append j.file text t = (r, t')) :
    Logged j store text (p, t) [.append j.file text r] r (p, t')

section log

variable {j : Journal} {store : Store τ} {call : Call} {p : Progress} {t t' t'' : τ}

/-- Where the directory cannot be made, an entry fails with that fault, and the journal has come no further. -/
theorem log_of_refused {e : Fault} (h : p.hasDirectory = false)
    (hmake : store.makeDirectory (Path.parent j.file) t = (.error e, t')) :
    j.log store call.stamp call.type call.data (p, t) = (.error e, (p, t')) := by
  unfold log
  rw [Action.bind_apply, Action.read_apply]
  simp only [h, Bool.false_eq_true, if_false]
  exact Action.bind_of_error (Action.second_of_eq hmake) _

/-- Once the directory is made, the entry is appended, and the journal has its directory. -/
theorem log_of_first {r : Except Fault Unit} (h : p.hasDirectory = false)
    (hmake : store.makeDirectory (Path.parent j.file) t = (.ok (), t'))
    (happend : store.append j.file (j.line call ++ "\n") t' = (r, t'')) :
    j.log store call.stamp call.type call.data (p, t) = (r, ({ p with hasDirectory := true }, t'')) := by
  unfold log
  rw [Action.bind_apply, Action.read_apply]
  simp only [h, Bool.false_eq_true, if_false]
  rw [Action.bind_of_ok (Action.second_of_eq hmake), Action.bind_apply, Action.modify_apply]
  exact Action.second_of_eq happend

/-- A directory that was made is not made again. -/
theorem log_of_later {r : Except Fault Unit} (h : p.hasDirectory = true)
    (happend : store.append j.file (j.line call ++ "\n") t = (r, t')) :
    j.log store call.stamp call.type call.data (p, t) = (r, (p, t')) := by
  unfold log
  rw [Action.bind_apply, Action.read_apply]
  simp only [h, if_true]
  exact Action.second_of_eq happend

end log

/-- What `log` does is among what it can do, and it does the same with a record. -/
theorem exists_logged (j : Journal) (store : Store τ) (call : Call) (p : Progress) (t : τ) :
    ∃ touches r p' t', Logged j store (j.line call ++ "\n") (p, t) touches r (p', t') ∧
      j.log store call.stamp call.type call.data (p, t) = (r, (p', t')) ∧
      j.log store.recorded call.stamp call.type call.data (p, ([], t)) = (r, (p', (touches, t'))) := by
  cases h : p.hasDirectory with
  | true =>
    rcases happend : store.append j.file (j.line call ++ "\n") t with ⟨r, t'⟩
    exact ⟨_, _, _, _, .later h happend, log_of_later h happend,
      log_of_later h (Store.append_recorded happend)⟩
  | false =>
    rcases hmake : store.makeDirectory (Path.parent j.file) t with ⟨e | ⟨⟩, t'⟩
    · exact ⟨_, _, _, _, .refused h hmake, log_of_refused h hmake,
        log_of_refused h (Store.makeDirectory_recorded hmake)⟩
    · rcases happend : store.append j.file (j.line call ++ "\n") t' with ⟨r, t''⟩
      exact ⟨_, _, _, _, .first h hmake happend, log_of_first h hmake happend,
        log_of_first h (Store.makeDirectory_recorded hmake) (Store.append_recorded happend)⟩

namespace Logged

variable {j : Journal} {store : Store τ} {text : Text} {s s' : Progress × τ} {touches : List Touch}
  {r : Except Fault Unit}

/-- What is done to the store is an attempt to write the text. -/
theorem attempt (h : Logged j store text s touches r s') : Attempt j text s.1.hasDirectory touches := by
  cases h with
  | refused h hmake => exact h ▸ .refused _
  | first h hmake happend => exact h ▸ .first _
  | later h happend => exact h ▸ .later _

/-- It fails with the fault of what failed. -/
theorem fault? (h : Logged j store text s touches r s') : touches.findSome? Touch.fault? = Fault.of? r := by
  cases h with
  | refused h hmake => rfl
  | first h hmake happend => cases r <;> rfl
  | later h happend => cases r <;> rfl

/-- The text is written unless there is a fault. -/
theorem writes (h : Logged j store text s touches r s') :
    touches.any Touch.writes = (Fault.of? r).isNone := by
  cases h with
  | refused h hmake => rfl
  | first h hmake happend => cases r <;> rfl
  | later h happend => cases r <;> rfl

/-- It writes the text just in case nothing fails, and there is always something that may fail. -/
theorem writes_iff (h : Logged j store text s touches r s') :
    touches.any Touch.writes = true ↔ touches ≠ [] ∧ touches.findSome? Touch.fault? = none := by
  have hne : touches ≠ [] := by cases h <;> exact List.cons_ne_nil _ _
  rw [h.writes, h.fault?, Option.isNone_iff_eq_none]
  exact (and_iff_right hne).symm

/-- It remembers whether there is a directory now. -/
theorem progress (h : Logged j store text s touches r s') :
    s'.1 = ⟨s.1.hasDirectory || touches.any Touch.makesDirectory, s.1.hasFailed⟩ := by
  cases h with
  | @refused p t t' e h hmake => rw [h]; exact congrArg (Progress.mk · p.hasFailed) h
  | @first p t t' t'' r h hmake happend => rw [h]; rfl
  | @later p t t' r h happend => rw [h]; exact congrArg (Progress.mk · p.hasFailed) h

end Logged

/-! ### One call -/

/-- Everything that a call can do, given how far the journal has come. -/
inductive Stepped (j : Journal) (store : Store τ) : Progress × τ → Outcome → Progress × τ → Prop
  | logged {s s' : Progress × τ} {call : Call} {touches : List Touch} {r : Except Fault Unit}
    (hmanner : call.manner = .log) (h : Logged j store (j.line call ++ "\n") s touches r s') :
    Stepped j store s ⟨call, touches, r, none⟩ s'
  | rested {s : Progress × τ} {call : Call} (hmanner : call.manner = .record)
    (hfailed : s.1.hasFailed = true) : Stepped j store s ⟨call, [], .ok (), none⟩ s
  | recorded {s s' : Progress × τ} {call : Call} {touches : List Touch} (hmanner : call.manner = .record)
    (hfailed : s.1.hasFailed = false) (h : Logged j store (j.line call ++ "\n") s touches (.ok ()) s') :
    Stepped j store s ⟨call, touches, .ok (), none⟩ s'
  | gaveUp {s s' : Progress × τ} {call : Call} {touches : List Touch} {e : Fault}
    (hmanner : call.manner = .record) (hfailed : s.1.hasFailed = false)
    (h : Logged j store (j.line call ++ "\n") s touches (.error e) s') :
    Stepped j store s ⟨call, touches, .ok (), some (j.warning e)⟩ ({ s'.1 with hasFailed := true }, s'.2)

section make

variable {j : Journal} {call : Call} {p : Progress}

/-- A call of `log` passes on what `log` comes to, and gives no warning. -/
theorem make_of_log {store : Store τ} {s s' : Progress × τ} {r : Except Fault Unit}
    (hmanner : call.manner = .log) (h : j.log store call.stamp call.type call.data s = (r, s')) :
    j.make store call s = ((r, none), s') := by
  simp only [make, hmanner, h, Prod.map, id]

/-- After a `record` that could not write, a `record` does nothing. -/
theorem make_of_rested {store : Store τ} {s : Progress × τ} (hmanner : call.manner = .record)
    (hfailed : s.1.hasFailed = true) : j.make store call s = ((.ok (), none), s) := by
  simp only [make, hmanner, record, hfailed, if_true, Prod.map, id]

/-- A `record` that can write gives no warning. -/
theorem make_of_recorded {store : Store τ} {s s' : Progress × τ} (hmanner : call.manner = .record)
    (hfailed : s.1.hasFailed = false)
    (h : j.log store call.stamp call.type call.data s = (.ok (), s')) :
    j.make store call s = ((.ok (), none), s') := by
  simp only [make, hmanner, record, hfailed, Bool.false_eq_true, if_false, h, Prod.map, id]

/-- A `record` that cannot write warns, and the journal gives up. -/
theorem make_of_gaveUp {store : Store τ} {s s' : Progress × τ} {e : Fault}
    (hmanner : call.manner = .record) (hfailed : s.1.hasFailed = false)
    (h : j.log store call.stamp call.type call.data s = (.error e, s')) :
    j.make store call s = ((.ok (), some (j.warning e)), ({ s'.1 with hasFailed := true }, s'.2)) := by
  simp only [make, hmanner, record, hfailed, Bool.false_eq_true, if_false, h, Prod.map, id]

/-- An observed call, from what the call does over a recorded store. -/
theorem observe_of_make {store : Store τ} {t t' : τ} {p' : Progress} {touches : List Touch}
    {r : Except Fault Unit} {w : Option Text}
    (h : j.make store.recorded call (p, ([], t)) = ((r, w), (p', (touches, t')))) :
    j.observe store call (p, t) = (⟨call, touches, r, w⟩, (p', t')) := by
  simp only [observe, h]

end make

/-- What a call does is among what it can do, and it does the same when it is not observed. -/
theorem exists_stepped (j : Journal) (store : Store τ) (call : Call) (s : Progress × τ) :
    ∃ o s', Stepped j store s o s' ∧ o.call = call ∧ j.observe store call s = (o, s') ∧
      j.make store call s = (o.answer, s') := by
  obtain ⟨p, t⟩ := s
  obtain ⟨touches, r, p', t', hlogged, hplain, hrecorded⟩ := exists_logged j store call p t
  cases hmanner : call.manner with
  | log =>
    exact ⟨_, _, .logged hmanner hlogged, rfl, observe_of_make (make_of_log hmanner hrecorded),
      make_of_log hmanner hplain⟩
  | record =>
    cases hfailed : p.hasFailed with
    | true =>
      exact ⟨_, _, .rested hmanner hfailed, rfl, observe_of_make (make_of_rested hmanner hfailed),
        make_of_rested hmanner hfailed⟩
    | false =>
      cases r with
      | ok v =>
        exact ⟨_, _, .recorded hmanner hfailed hlogged, rfl,
          observe_of_make (make_of_recorded hmanner hfailed hrecorded),
          make_of_recorded hmanner hfailed hplain⟩
      | error e =>
        exact ⟨_, _, .gaveUp hmanner hfailed hlogged, rfl,
          observe_of_make (make_of_gaveUp hmanner hfailed hrecorded),
          make_of_gaveUp hmanner hfailed hplain⟩

/-- How far a journal has come after one more call. -/
theorem Progress.after_concat (past : List Outcome) (o : Outcome) :
    Progress.after (past ++ [o]) = ⟨(Progress.after past).hasDirectory || o.madeDirectory,
      (Progress.after past).hasFailed || o.givesUp⟩ := by
  simp [Progress.after]

namespace Stepped

variable {j : Journal} {store : Store τ} {s s' : Progress × τ} {o : Outcome} {past : List Outcome}

/-- How far the journal has come is read off the calls after this one as it was before. -/
theorem progress (h : Stepped j store s o s') (hpast : s.1 = Progress.after past) :
    s'.1 = Progress.after (past ++ [o]) := by
  rw [Progress.after_concat, ← hpast]
  cases h with
  | logged hmanner h => simp [h.progress, Outcome.madeDirectory, Outcome.givesUp, hmanner]
  | rested hmanner hfailed => simp [Outcome.madeDirectory, Outcome.givesUp, Outcome.fault?]
  | recorded hmanner hfailed h =>
    simp [h.progress, Outcome.madeDirectory, Outcome.givesUp, Outcome.fault?, h.fault?]
  | gaveUp hmanner hfailed h =>
    simp [h.progress, Outcome.madeDirectory, Outcome.givesUp, Outcome.fault?, h.fault?, hmanner]

/-- Whatever a call can do, it conducts itself, if the journal has come as far as the calls before it say. -/
theorem conduct (h : Stepped j store s o s') (hpast : s.1 = Progress.after past) :
    Conduct j past o := by
  -- Each case has one manner, so that the fields about the other one are empty.
  cases h with
  | logged hmanner h =>
    exact {
      attempts := fun _ => hpast ▸ h.attempt
      rests := fun hrecord => absurd (hmanner.symm.trans hrecord) (by simp)
      log_fails := fun _ => h.fault?.symm
      record_succeeds := fun hrecord => absurd (hmanner.symm.trans hrecord) (by simp)
      warns := by simp [hmanner]
      wrote_iff := h.writes_iff }
  | rested hmanner hfailed =>
    rw [hpast] at hfailed
    exact {
      attempts := fun hfresh => absurd (hfailed.symm.trans (hfresh hmanner)) (by simp)
      rests := fun _ _ => rfl
      log_fails := fun hlog => absurd (hmanner.symm.trans hlog) (by simp)
      record_succeeds := fun _ => rfl
      warns := by simp [hfailed]
      wrote_iff := by simp [Outcome.wrote] }
  | recorded hmanner hfailed h =>
    rw [hpast] at hfailed
    exact {
      attempts := fun _ => hpast ▸ h.attempt
      rests := fun _ hgave => absurd (hfailed.symm.trans hgave) (by simp)
      log_fails := fun hlog => absurd (hmanner.symm.trans hlog) (by simp)
      record_succeeds := fun _ => rfl
      warns := by simp [Outcome.fault?, h.fault?]
      wrote_iff := h.writes_iff }
  | gaveUp hmanner hfailed h =>
    rw [hpast] at hfailed
    exact {
      attempts := fun _ => hpast ▸ h.attempt
      rests := fun _ hgave => absurd (hfailed.symm.trans hgave) (by simp)
      log_fails := fun hlog => absurd (hmanner.symm.trans hlog) (by simp)
      record_succeeds := fun _ => rfl
      warns := by simp [Outcome.fault?, h.fault?, hmanner, hfailed]
      wrote_iff := h.writes_iff }

end Stepped

/-! ### Whole runs -/

/-- One call after another: what the first leaves is what the others begin with. -/
theorem run_cons (j : Journal) (store : Store τ) (call : Call) (rest : List Call) (s : Progress × τ) :
    j.run store (call :: rest) s
      = ((j.observe store call s).1 :: (j.run store rest (j.observe store call s).2).1,
          (j.run store rest (j.observe store call s).2).2) := rfl

/-- The first call is made, and then the others from what it left. -/
theorem makeAll_cons (j : Journal) (store : Store τ) (call : Call) (rest : List Call)
    (s : Progress × τ) :
    j.makeAll store (call :: rest) s
      = ((j.make store call s).1 :: (j.makeAll store rest (j.make store call s).2).1,
          (j.makeAll store rest (j.make store call s).2).2) := rfl

/-- The calls are made in their order. -/
theorem map_call_run (j : Journal) (store : Store τ) (calls : List Call) (s : Progress × τ) :
    (j.run store calls s).1.map Outcome.call = calls := by
  induction calls generalizing s with
  | nil => rfl
  | cons call rest ih =>
    obtain ⟨o, s', -, hcall, hobserve, -⟩ := exists_stepped j store call s
    rw [run_cons, List.map_cons, ih, hobserve, hcall]

/-- To be observed changes nothing. -/
theorem makeAll_eq_run (j : Journal) (store : Store τ) (calls : List Call) (s : Progress × τ) :
    j.makeAll store calls s
      = ((j.run store calls s).1.map Outcome.answer, (j.run store calls s).2) := by
  induction calls generalizing s with
  | nil => rfl
  | cons call rest ih =>
    obtain ⟨o, s', -, -, hobserve, hmake⟩ := exists_stepped j store call s
    rw [run_cons, makeAll_cons, hmake, hobserve, ih, List.map_cons]

/-- In every run each call is made as `Conduct` says, by what came of the calls before it. -/
theorem run_conduct (j : Journal) (store : Store τ) (calls : List Call) {s : Progress × τ}
    {past : List Outcome} (hpast : s.1 = Progress.after past) {before after : List Outcome} {o : Outcome}
    (h : (j.run store calls s).1 = before ++ o :: after) : Conduct j (past ++ before) o := by
  induction calls generalizing s past before with
  | nil => exact absurd h (by simp [run])
  | cons call rest ih =>
    obtain ⟨o', s', hstep, -, hobserve, -⟩ := exists_stepped j store call s
    rw [run_cons, hobserve] at h
    cases before with
    | nil =>
      obtain ⟨rfl, -⟩ := List.cons.inj h
      rw [List.append_nil]
      exact hstep.conduct hpast
    | cons first before =>
      obtain ⟨rfl, hrest⟩ := List.cons.inj h
      rw [List.append_cons]
      exact ih (hstep.progress hpast) hrest

/-- There is a warning just in case the journal gives up and had not given up before. -/
theorem Conduct.isSome_warning {j : Journal} {past : List Outcome} {o : Outcome} (h : Conduct j past o) :
    o.warning.isSome = (!(Progress.after past).hasFailed && o.givesUp) := by
  rw [h.warns, Outcome.givesUp]
  split_ifs with hcond
  · simp [hcond]
  · cases hfailed : (Progress.after past).hasFailed
    · simp_all
    · rfl

/-- A journal warns once at most, and not at all after it has given up. -/
theorem length_warnings_le {j : Journal} (outcomes past : List Outcome)
    (h : ∀ before o after, outcomes = before ++ o :: after → Conduct j (past ++ before) o) :
    (outcomes.filterMap Outcome.warning).length ≤ if (Progress.after past).hasFailed then 0 else 1 := by
  induction outcomes generalizing past with
  | nil => exact Nat.zero_le _
  | cons o rest ih =>
    have hfirst := (h [] o rest rfl).isSome_warning
    rw [List.append_nil] at hfirst
    have hrest := ih (past ++ [o]) fun before o' after hsplit => by
      have hsplit' := h (o :: before) o' after (congrArg (List.cons o) hsplit)
      rwa [List.append_cons] at hsplit'
    rw [Progress.after_concat] at hrest
    cases hwarning : o.warning with
    | none =>
      rw [List.filterMap_cons_none hwarning]
      refine Nat.le_trans hrest ?_
      cases (Progress.after past).hasFailed <;> cases o.givesUp <;> simp
    | some text =>
      -- The journal gives up here, so that the others say nothing.
      rw [hwarning, Option.isSome_some, eq_comm, Bool.and_eq_true, Bool.not_eq_true'] at hfirst
      rw [hfirst.1, hfirst.2, Bool.or_true, if_pos rfl] at hrest
      rw [List.filterMap_cons_some hwarning, List.length_cons, hfirst.1, if_neg Bool.false_ne_true]
      exact Nat.succ_le_succ hrest

end Journal

end SwiftLens
