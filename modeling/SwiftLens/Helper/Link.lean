import SwiftLens.Action
import SwiftLens.Helper.Timer

/-!
# The link to the helper

A link numbers the questions that are put to the helper, keeps those that wait for an answer, and
settles each of them once: by its reply, by a line that is no reply, by the end of the helper, by a
failure to write it, or by its timer. The helper is started when a question is asked while it is not
running, and closed after the question that ends the session, whatever became of that question.

The way of a question has four stations. It is begun: it takes its number, and that it was asked is
recorded. It is put: it enters the table of waiting questions, a timer is started for it, and its line is
sent. It is settled: it leaves the table, its timer is stopped, and its end is recorded. It is
concluded: its asker is told what came of it, after the helper was closed if it was the question that
ends the session.

The link itself is a state and functions on it. What it needs of the outside is an `Outlet`: to start the
helper, to send a line, to close the helper, and to have the traffic recorded, if a journal is kept. What
comes from the outside is a `Signal`. A function of the link takes both states, its own and that of the
outside, and returns the questions that it settled, in the order in which they were put, or in that of
their timers. They are still to be concluded.
-/

namespace SwiftLens

/-- What the link does that is worth recording. -/
inductive Traffic where
  /-- A question was asked. -/
  | asked (seq : Nat) (command : Text)
  /-- A question was settled, the given number of milliseconds after it was asked. -/
  | settled (seq : Nat) (command : Text) (success : Bool) (duration : Double)
  deriving DecidableEq, Repr

namespace Traffic

/-- The type of a record. -/
def type : Traffic → Text
  | asked _ _ => "bridge_request"
  | settled _ _ _ _ => "bridge_response"

/-- The data of a record. -/
def data : Traffic → Json Double
  | asked seq command => .object [("seq", Json.ofNat seq), ("command", .string command)]
  | settled seq command success duration =>
    .object [("seq", Json.ofNat seq), ("command", .string command), ("success", .bool success),
      ("durationMs", .number duration)]

end Traffic

/-- What the link needs of the outside, whose state is a `τ`. -/
structure Outlet (τ : Type) where
  /-- Start the helper. -/
  start : Action τ Unit
  /-- Send a line to the helper. -/
  send : Text → Action τ Unit
  /-- Close the helper. -/
  close : Action τ Unit
  /-- The journal, if one is kept: record at a time what the link does. -/
  journal : Option (Double → Traffic → τ → τ)

/-- Record at a time what the link does. -/
def Outlet.record {τ : Type} (outlet : Outlet τ) (time : Double) (traffic : Traffic) (t : τ) : τ :=
  match outlet.journal with
  | some keep => keep time traffic t
  | none => t

/-- What comes from the helper. -/
inductive Signal where
  /-- A line of output. -/
  | line (text : Text)
  /-- Something about itself, which is no answer. -/
  | diagnostics (text : Text)
  /-- It has exited, with a code unless it was killed. -/
  | exit (code : Option Double)
  /-- It has failed. -/
  | failure (message : Text)
  deriving DecidableEq, Repr

/-- A question that was given a number. -/
structure Numbered where
  seq : Nat
  /-- The number by which the asker knows the question. -/
  ticket : Nat
  ask : Ask
  /-- When it was given its number. -/
  begunAt : Double

/-- The line that a numbered question is sent as. -/
def Numbered.line (q : Numbered) : Text := q.ask.line q.seq

/-- What came of a question: the body of the reply to it, or a fault. -/
abbrev Verdict := Except Fault (Option (Json Double))

/-- A question that was settled, and by what. -/
abbrev Settled := Numbered × Verdict

/-- What the asker of a question is told: the answer or why there is none. -/
structure Conclusion where
  ticket : Nat
  outcome : Except Fault Answer

/-- The state of a link. Time is counted in milliseconds and parts of them. -/
structure Link where
  /-- How long a question may wait. -/
  timeout : Double
  /-- How long a timer runs that is started for that time. -/
  delay : Double
  /-- The present time. -/
  clock : Double
  /-- Whether the helper has been started and has not ended. -/
  started : Bool
  /-- The number of the last question. -/
  seq : Nat
  /-- The questions that wait, in the order in which they were put. -/
  pending : List Numbered
  /-- The timers that run, in the order in which they were started. -/
  timers : List Timer

namespace Link

variable {τ : Type}

/-- A link over which nothing has been asked. -/
def fresh (timeout : Double) : Link := ⟨timeout, Timer.delay timeout, Double.zero false, false, 0, [], []⟩

/-! ## Settling -/

/-- Take a question off the table and stop its timer. -/
def release (l : Link) (seq : Nat) : Link :=
  { l with
    timers := l.timers.filter fun t => t.seq != seq
    pending := l.pending.filter fun q => q.seq != seq }

/-- Whether the helper answered. -/
def succeeded : Verdict → Bool
  | .ok _ => true
  | .error _ => false

/-- The record that a question was settled, made at the given time. -/
def settledAt (clock : Double) (r : Settled) : Traffic :=
  .settled r.1.seq r.1.ask.command (succeeded r.2) (clock.sub r.1.begunAt).round

/-- Settle questions: take all of them off the table, then record what came of each. -/
def settle (outlet : Outlet τ) (rs : List Settled) (s : Link × τ) : Link × τ :=
  (rs.foldl (fun l r => l.release r.1.seq) s.1,
    rs.foldl (fun t r => outlet.record s.1.clock (settledAt s.1.clock r) t) s.2)

/-- Settle the waiting questions that satisfy `p`, each by what `verdict` says of it. -/
def settleWhere (outlet : Outlet τ) (p : Numbered → Bool) (verdict : Numbered → Verdict) (s : Link × τ) :
    List Settled × (Link × τ) :=
  let rs := (s.1.pending.filter p).map fun q => (q, verdict q)
  (rs, settle outlet rs s)

/-- Settle all waiting questions by one fault. -/
def failAll (outlet : Outlet τ) (e : Fault) (s : Link × τ) : List Settled × (Link × τ) :=
  settleWhere outlet (fun _ => true) (fun _ => .error e) s

/-! ## Asking -/

/-- Begin a question: start the helper if it is not running, take the next number, and record it. -/
def begin (outlet : Outlet τ) (ticket : Nat) (ask : Ask) : Action (Link × τ) Numbered := fun s =>
  let numbered (t : τ) : Except Fault Numbered × (Link × τ) :=
    let seq := s.1.seq + 1
    (.ok ⟨seq, ticket, ask, s.1.clock⟩, ({ s.1 with started := true, seq := seq },
      outlet.record s.1.clock (.asked seq ask.command) t))
  if s.1.started then numbered s.2
  else
    match outlet.start s.2 with
    | (.ok (), t) => numbered t
    | (.error e, t) => (.error e, (s.1, t))

/-- Let a question wait, with a timer of its own. -/
def register (l : Link) (q : Numbered) : Link :=
  { l with
    timers := l.timers ++ [⟨q.seq, l.clock.add l.delay⟩]
    pending := l.pending ++ [q] }

/-- Put a question that has its number: let it wait, and send its line. If the line cannot be sent the
question is settled at once. -/
def dispatch (outlet : Outlet τ) (q : Numbered) (s : Link × τ) : List Settled × (Link × τ) :=
  let link := s.1.register q
  match outlet.send q.line s.2 with
  | (.ok (), t) => ([], (link, t))
  | (.error e, t) =>
    settleWhere outlet (fun p => p.seq == q.seq) (fun _ => .error (.unwritable e.message)) (link, t)

/-- Whether a question needs no helper: to end a session that has not begun is nothing to do. -/
def isIdle (l : Link) : Ask → Bool
  | .disconnect => !l.started
  | _ => false

/-! ## Hearing -/

/-- What a reply says of the question that it belongs to. -/
def verdict (r : Reply) (q : Numbered) : Verdict :=
  if r.success then .ok r.body else .error (.refused q.seq q.ask.command r.message)

/-- Take in a signal. A reply to no waiting question is ignored; a line that is no reply settles all
of them but leaves the helper running; its end or failure settles all of them too. -/
def receive (outlet : Outlet τ) (signal : Signal) (s : Link × τ) : List Settled × (Link × τ) :=
  match signal with
  | .line text =>
    match Reply.read text with
    | .error defect => failAll outlet (.reply defect) s
    | .ok r => settleWhere outlet (fun q => r.answers q.seq) (verdict r) s
  | .diagnostics _ => ([], s)
  | .exit code => failAll outlet (.exited code) ({ s.1 with started := false }, s.2)
  | .failure message => failAll outlet (.failed message) ({ s.1 with started := false }, s.2)

/-! ## Waiting -/

/-- The timers that have gone off by now, the earliest first; of two that go off at the same time, the
one that was started first. -/
def due (l : Link) : List Timer :=
  (l.timers.filter fun t => t.isDue l.clock).mergeSort fun t u => t.goesOffAt.le u.goesOffAt

/-- What comes of a question whose timer has gone off. -/
def late (l : Link) (q : Numbered) : Verdict := .error (.timedOut q.seq q.ask.command l.timeout)

/-- Let a timer go off: it runs no longer, and its question is settled. -/
def ring (outlet : Outlet τ) (seq : Nat) (s : Link × τ) : List Settled × (Link × τ) :=
  let link := { s.1 with timers := s.1.timers.filter fun t => t.seq != seq }
  settleWhere outlet (fun q => q.seq == seq) link.late (link, s.2)

/-- Let timers go off, one after the other. -/
def ringAll (outlet : Outlet τ) : List Timer → Link × τ → List Settled × (Link × τ)
  | [], s => ([], s)
  | t :: rest, s =>
    match ring outlet t.seq s with
    | (settled, s) =>
      match ringAll outlet rest s with
      | (more, s) => (settled ++ more, s)

/-- A link some time later. -/
def later (l : Link) (ms : Double) : Link := { l with clock := l.clock.add ms }

/-- Let time pass, and let the timers go off that are due then. -/
def wait (outlet : Outlet τ) (ms : Double) (s : Link × τ) : List Settled × (Link × τ) :=
  ringAll outlet (s.1.later ms).due (s.1.later ms, s.2)

/-! ## Concluding -/

/-- What a question makes of its verdict. -/
def answer (ask : Ask) : Verdict → Except Fault Answer
  | .error e => .error e
  | .ok body => (ask.interpret body).mapError .body

/-- Conclude a question that was settled. The question that ends the session also closes the helper; if
that fails, its failure is the outcome. -/
def conclude (outlet : Outlet τ) (r : Settled) (s : Link × τ) : Conclusion × (Link × τ) :=
  match r.1.ask with
  | .disconnect =>
    let link := { s.1 with started := false }
    match outlet.close s.2 with
    | (.ok (), t) => (⟨r.1.ticket, answer r.1.ask r.2⟩, (link, t))
    | (.error e, t) => (⟨r.1.ticket, .error e⟩, (link, t))
  | ask => (⟨r.1.ticket, answer ask r.2⟩, s)

/-- Conclude questions in turn. -/
def concludeAll (outlet : Outlet τ) : List Settled → Link × τ → List Conclusion × (Link × τ)
  | [], s => ([], s)
  | r :: rest, s =>
    match conclude outlet r s with
    | (conclusion, s) =>
      match concludeAll outlet rest s with
      | (conclusions, s) => (conclusion :: conclusions, s)

/-- Conclude the questions that were just settled. -/
def finish (outlet : Outlet τ) (r : List Settled × (Link × τ)) : List Conclusion × (Link × τ) :=
  concludeAll outlet r.1 r.2

/-- Ask a question, with nothing in between, and conclude it if it is settled at once. -/
def call (outlet : Outlet τ) (ticket : Nat) (ask : Ask) (s : Link × τ) : List Conclusion × (Link × τ) :=
  if s.1.isIdle ask then ([⟨ticket, .ok .done⟩], s)
  else
    match begin outlet ticket ask s with
    | (.error e, s) => ([⟨ticket, .error e⟩], s)
    | (.ok q, s) => finish outlet (dispatch outlet q s)

end Link

end SwiftLens
