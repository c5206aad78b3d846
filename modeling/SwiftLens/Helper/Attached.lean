import SwiftLens.Backend
import SwiftLens.Calendar
import SwiftLens.Helper.Channel
import SwiftLens.Journal

/-!
# A backend at the end of a link

The link, the channel to the helper's process and the journal together make a backend. Questions are
asked one at a time. After a question is put, what the process does is taken in event by event until
the question is settled and concluded; events that are left over wait until the next question has been
put. If the events run out first, time passes until the question's timer goes off.

While an entry of the journal is being written the process goes on, so everything it has done is taken
in before the question is sent. After the question that ends the session, everything is taken in until
the process has ended.
-/

namespace SwiftLens

/-- What a backend at the end of a link is made of; `τ` is the state of the outside. -/
structure Attachment (τ : Type) where
  process : Launcher τ
  /-- The journal, if one is kept. -/
  journal : Option Journal
  store : Store τ
  /-- How long a question may wait. -/
  timeout : Double
  /-- The point in time at which the session begins. -/
  beginning : Int

/-- All that surrounds a link. -/
structure Surroundings (τ : Type) where
  channel : Channel
  /-- What the process has done that has not been taken in. -/
  inbox : List ProcessEvent
  progress : Journal.Progress
  notes : List Note
  outside : τ

/-- The state of a backend at the end of a link. -/
abbrev Attached (τ : Type) := Link × Surroundings τ

namespace Attachment

variable {τ : Type} (a : Attachment τ)

/-- Before the session. -/
def begin (outside : τ) : Attached τ :=
  (Link.fresh a.timeout, ⟨Channel.idle, [], Journal.Progress.start, [], outside⟩)

/-! ## The outlet -/

/-- Put what the process has done into the inbox. -/
def collect (s : Surroundings τ) : Surroundings τ :=
  match a.process.poll s.outside with
  | (events, t) => { s with inbox := s.inbox ++ events, outside := t }

/-- An action of the channel, and what the process does upon it. -/
def onChannel (act : Action (Channel × τ) Unit) : Action (Surroundings τ) Unit := fun s =>
  match act (s.channel, s.outside) with
  | (r, (c, t)) => (r, a.collect { s with channel := c, outside := t })

/-- Keep a journal. -/
def keep (j : Journal) (time : Double) (traffic : Traffic) (s : Surroundings τ) : Surroundings τ :=
  match j.record a.store (Calendar.stamp (a.beginning + time.truncate)) traffic.type (some traffic.data)
    (s.progress, s.outside) with
  | (warning, (progress, t)) =>
    { s with progress := progress, outside := t, notes := s.notes ++ warning.toList.map .warning }

/-- The outlet through which the link reaches the process and the journal. -/
def outlet : Outlet (Surroundings τ) where
  start := a.onChannel (Channel.start a.process)
  send line := a.onChannel (Channel.send a.process line)
  close := a.onChannel (Channel.close a.process)
  journal := a.journal.map a.keep

/-! ## Taking events in -/

/-- Take a signal in. What the helper says about itself becomes a note. -/
def hear (signal : Signal) (s : Attached τ) : List Conclusion × Attached τ :=
  match signal with
  | .diagnostics text =>
    ([], (s.1, { s.2 with notes := s.2.notes ++ [.info ("bridge: " ++ text.trimEnd)] }))
  | signal => Link.finish a.outlet (Link.receive a.outlet signal s)

/-- Take signals in, one after the other. -/
def hearAll : List Signal → Attached τ → List Conclusion × Attached τ
  | [], s => ([], s)
  | signal :: rest, s =>
    match a.hear signal s with
    | (concluded, s) =>
      match hearAll rest s with
      | (more, s) => (concluded ++ more, s)

/-- Take an event in. -/
def deliver (event : ProcessEvent) (s : Attached τ) : List Conclusion × Attached τ :=
  match s.2.channel.hear event with
  | (signals, c) => a.hearAll signals (s.1, { s.2 with channel := c })

/-- Take all of the given events in. -/
def deliverAll : List ProcessEvent → Attached τ → Attached τ
  | [], s => s
  | event :: rest, s => deliverAll rest (a.deliver event s).2

/-- Take in all events that wait. -/
def drain (s : Attached τ) : Attached τ :=
  a.deliverAll s.2.inbox (s.1, { s.2 with inbox := [] })

/-- Take in the given events until a question is concluded; the others go back before those that have
come in meanwhile. -/
def listen : List ProcessEvent → Attached τ → List Conclusion × Attached τ
  | [], s => ([], s)
  | event :: rest, s =>
    match a.deliver event s with
    | ([], s) => listen rest s
    | (concluded, s) => (concluded, (s.1, { s.2 with inbox := rest ++ s.2.inbox }))

/-- Take in the events that wait until a question is concluded, or wait until its timer goes off. -/
def await (s : Attached τ) : List Conclusion × Attached τ :=
  match a.listen s.2.inbox (s.1, { s.2 with inbox := [] }) with
  | ([], s) => Link.finish a.outlet (Link.wait a.outlet s.1.delay s)
  | concluded => concluded

/-! ## Asking -/

/-- Whether an entry of the journal would be written now. -/
def isJournalling (s : Attached τ) : Bool := a.journal.isSome && !s.2.progress.hasFailed

/-- Put a question that has its number, and wait until it is concluded. -/
def put (q : Numbered) (s : Attached τ) : List Conclusion × Attached τ :=
  match Link.dispatch a.outlet q s with
  | ([], s) => a.await s
  | settled => Link.finish a.outlet settled

/-- The outcome of the one question that was put. -/
def outcome (concluded : List Conclusion) : Except Fault Answer :=
  match concluded with
  | [] => .error .mismatched
  | conclusion :: _ => conclusion.outcome

/-- Ask a question and wait for its answer. -/
def ask (ask : Ask) : Action (Attached τ) Answer := fun s =>
  if s.1.isIdle ask then (.ok .done, s)
  else
    let journalling := a.isJournalling s
    match Link.begin a.outlet 0 ask s with
    | (.error e, s) => (.error e, s)
    | (.ok q, s) =>
      match a.put q (if journalling then a.drain s else s) with
      | (concluded, s) =>
        match ask with
        | .disconnect => (outcome concluded, a.drain s)
        | _ => (outcome concluded, s)

/-- The backend. -/
def backend : Backend (Attached τ) where
  connect := do
    let _ ← a.ask .connect
    pure ()
  uidOf name := do
    match ← a.ask (.uidOf name) with
    | .uid uid => pure (uid : Int)
    | _ => Action.fail .mismatched
  nameOf uid := do
    match ← a.ask (.nameOf uid) with
    | .name name => pure name
    | _ => Action.fail .mismatched
  respond request := do
    match ← a.ask (.respond (.dictionary request)) with
    | .response tree => pure tree
    | _ => Action.fail .mismatched
  disconnect := do
    let _ ← a.ask .disconnect
    pure ()
  notes s := (s.2.notes, (s.1, { s.2 with notes := [] }))

end Attachment

end SwiftLens
