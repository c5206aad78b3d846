import Mathlib
import SwiftLens.Helper.Link

/-!
# Dialogues: runs of a link

A dialogue is a link together with its outside and with what has become of the questions: which of them
were given a number, which of these were put, which were settled, and which of the settled ones are still
to be concluded. Each station of a question is an event of its own, and anything may happen in between:
a question that has its number is put when the record of it has been written, and one that is settled is
concluded when the record of that has been written. Where a journal is kept, questions may overtake
each other on the way to the helper; where none is kept, they are put in the order of their numbers.
`call_eq_run` says that a call of the link is these events with nothing in between.

A run is a list of events of any kind in any order. Nothing is assumed of the outside: starting, sending and
closing may fail at any time, and the outside may change by itself between two events.
-/

namespace SwiftLens

/-- What can happen to a link, the state of whose outside is a `τ`. -/
inductive Event (τ : Type) where
  /-- A question is asked. -/
  | ask (ask : Ask)
  /-- The question with the given number is put, if it is ready to be. -/
  | put (seq : Nat)
  /-- A signal comes from the helper. -/
  | hear (signal : Signal)
  /-- Time passes. -/
  | wait (ms : Double)
  /-- The question with the given number is concluded, if it was settled and is not concluded yet. -/
  | conclude (seq : Nat)
  /-- The outside changes by itself. -/
  | shift (change : τ → τ)

/-- A question that was put, and when. -/
structure Sent where
  question : Numbered
  time : Double

/-- The numbers of settled questions. -/
def numbersOf (rs : List Settled) : List Nat := rs.map fun r => r.1.seq

/-- Numbers of settled questions are taken list by list. -/
@[simp] theorem numbersOf_append (rs rs' : List Settled) :
    numbersOf (rs ++ rs') = numbersOf rs ++ numbersOf rs' := List.map_append

/-- A settled question's number is among them. -/
theorem mem_numbersOf {rs : List Settled} {r : Settled} (hr : r ∈ rs) : r.1.seq ∈ numbersOf rs :=
  List.mem_map_of_mem hr

/-- A link, its outside, and what has become of the questions. -/
structure Dialogue (τ : Type) where
  link : Link
  outside : τ
  /-- How many questions have been asked; their tickets are the numbers up to here. -/
  tickets : Nat
  /-- The questions that were given a number, in the order in which they were. -/
  issued : List Numbered
  /-- Those of them that have not been put, the oldest first. -/
  begun : List Numbered
  /-- Those of them that have been put, in the order in which they were. -/
  sent : List Sent
  /-- Those of them that were settled, in the order in which they were. -/
  settled : List Settled
  /-- Those of the settled ones that are still to be concluded. -/
  unconcluded : List Settled

namespace Dialogue

variable {τ : Type}

/-- A dialogue in which nothing has happened. -/
def fresh (timeout : Double) (outside : τ) : Dialogue τ :=
  ⟨Link.fresh timeout, outside, 0, [], [], [], [], []⟩

/-- The question with the given number, if it can be put: with a journal when its own record has been
written, and without one when it is the oldest. -/
def ready? (outlet : Outlet τ) (d : Dialogue τ) (seq : Nat) : Option Numbered :=
  match outlet.journal with
  | some _ => d.begun.find? fun q => q.seq == seq
  | none => d.begun.head?.filter fun q => q.seq == seq

/-- The dialogue after questions were settled by a function of the link. -/
def after (d : Dialogue τ) (r : List Settled × (Link × τ)) : Dialogue τ :=
  { d with
    link := r.2.1, outside := r.2.2
    settled := d.settled ++ r.1, unconcluded := d.unconcluded ++ r.1 }

/-- The dialogue in which a question goes from those that are begun to those that were put. -/
def sending (d : Dialogue τ) (q : Numbered) : Dialogue τ :=
  { d with
    begun := d.begun.filter fun p => p.seq != q.seq
    sent := d.sent ++ [⟨q, d.link.clock⟩] }

/-- One event: the questions that it concludes and the dialogue after it. -/
def step (outlet : Outlet τ) (d : Dialogue τ) : Event τ → List Conclusion × Dialogue τ
  | .ask ask =>
    let ticket := d.tickets + 1
    if d.link.isIdle ask then ([⟨ticket, .ok .done⟩], { d with tickets := ticket })
    else
      match Link.begin outlet ticket ask (d.link, d.outside) with
      | (.error e, (l, t)) =>
        ([⟨ticket, .error e⟩], { d with link := l, outside := t, tickets := ticket })
      | (.ok q, (l, t)) =>
        ([], { d with
          link := l, outside := t, tickets := ticket
          issued := d.issued ++ [q], begun := d.begun ++ [q] })
  | .put seq =>
    match d.ready? outlet seq with
    | none => ([], d)
    | some q => ([], (d.sending q).after (Link.dispatch outlet q (d.link, d.outside)))
  | .hear signal => ([], d.after (Link.receive outlet signal (d.link, d.outside)))
  | .wait ms => ([], d.after (Link.wait outlet ms (d.link, d.outside)))
  | .conclude seq =>
    match d.unconcluded.find? fun r => r.1.seq == seq with
    | none => ([], d)
    | some r =>
      match Link.conclude outlet r (d.link, d.outside) with
      | (conclusion, (l, t)) =>
        ([conclusion], { d with
          link := l, outside := t
          unconcluded := d.unconcluded.filter fun r => r.1.seq != seq })
  | .shift change => ([], { d with outside := change d.outside })

/-- A run: the questions that its events conclude, in order, and the dialogue after it. -/
def run (outlet : Outlet τ) : List (Event τ) → Dialogue τ → List Conclusion × Dialogue τ
  | [], d => ([], d)
  | e :: rest, d =>
    match step outlet d e with
    | (concluded, d) =>
      match run outlet rest d with
      | (more, d) => (concluded ++ more, d)

/-- A run of no events. -/
@[simp] theorem run_nil (outlet : Outlet τ) (d : Dialogue τ) : run outlet [] d = ([], d) := rfl

/-- A run is its first event and the run of the others. -/
theorem run_cons (outlet : Outlet τ) (e : Event τ) (es : List (Event τ)) (d : Dialogue τ) :
    run outlet (e :: es) d =
      ((step outlet d e).1 ++ (run outlet es (step outlet d e).2).1,
        (run outlet es (step outlet d e).2).2) := rfl

/-- One run after another. -/
theorem run_append (outlet : Outlet τ) (es fs : List (Event τ)) (d : Dialogue τ) :
    run outlet (es ++ fs) d =
      ((run outlet es d).1 ++ (run outlet fs (run outlet es d).2).1,
        (run outlet fs (run outlet es d).2).2) := by
  induction es generalizing d with
  | nil => simp
  | cons e es ih => simp [run_cons, ih]

/-- A run and one more event. -/
theorem run_concat (outlet : Outlet τ) (es : List (Event τ)) (e : Event τ) (d : Dialogue τ) :
    run outlet (es ++ [e]) d =
      ((run outlet es d).1 ++ (step outlet (run outlet es d).2 e).1, (step outlet (run outlet es d).2 e).2) := by
  rw [run_append, run_cons, run_nil, List.append_nil]

/-! ### Questions that are ready to be put -/

section ready

variable {outlet : Outlet τ} {d : Dialogue τ} {seq : Nat} {q : Numbered}

/-- A question that is put has its number and was not put. -/
theorem mem_begun_of_ready (h : d.ready? outlet seq = some q) : q ∈ d.begun ∧ q.seq = seq := by
  unfold ready? at h
  split at h
  · exact ⟨List.mem_of_find?_eq_some h, by simpa using List.find?_some h⟩
  · rw [Option.filter_eq_some_iff] at h
    exact ⟨List.mem_of_mem_head? h.1, by simpa using h.2⟩

/-- Without a journal it is the oldest question that is put. -/
theorem head?_of_ready (hjournal : outlet.journal = none) (h : d.ready? outlet seq = some q) :
    d.begun.head? = some q := by
  rw [ready?, hjournal] at h
  exact (Option.filter_eq_some_iff.mp h).1

end ready

/-! ### Calls -/

/-- A question takes the next number, or the helper cannot be started and the link stays as it was. -/
theorem begin_cases (outlet : Outlet τ) (ticket : Nat) (ask : Ask) (s : Link × τ) :
    (∃ e t, Link.begin outlet ticket ask s = (.error e, (s.1, t))) ∨
      ∃ t, Link.begin outlet ticket ask s =
        (.ok ⟨s.1.seq + 1, ticket, ask, s.1.clock⟩,
          ({ s.1 with started := true, seq := s.1.seq + 1 }, t)) := by
  unfold Link.begin
  dsimp only
  split
  · exact .inr ⟨_, rfl⟩
  · rcases outlet.start s.2 with ⟨e | ⟨⟩, t⟩
    · exact .inl ⟨e, t, rfl⟩
    · exact .inr ⟨_, rfl⟩

/-- Putting a question settles at most that question, when no other one with its number waits. -/
theorem dispatch_settles (outlet : Outlet τ) {q : Numbered} {s : Link × τ}
    (hnew : ∀ p ∈ s.1.pending, p.seq ≠ q.seq) :
    (Link.dispatch outlet q s).1 = [] ∨ ∃ v, (Link.dispatch outlet q s).1 = [(q, v)] := by
  have hnone : s.1.pending.filter (fun p => p.seq == q.seq) = [] := by
    rw [List.filter_eq_nil_iff]
    intro p hp
    simpa using hnew p hp
  unfold Link.dispatch
  dsimp only
  rcases outlet.send q.line s.2 with ⟨e | ⟨⟩, t⟩
  · exact .inr ⟨.error (.unwritable e.message), by simp [Link.settleWhere, Link.register, hnone]⟩
  · exact .inl rfl

/-- A call of the link is its question asked, put and, if it is settled at once, concluded, with nothing in
between. -/
theorem call_eq_run (outlet : Outlet τ) (ask : Ask) (d : Dialogue τ) (hbegun : d.begun = [])
    (hunconcluded : d.unconcluded = []) (hnew : ∀ p ∈ d.link.pending, p.seq ≠ d.link.seq + 1) :
    let r := run outlet [.ask ask, .put (d.link.seq + 1), .conclude (d.link.seq + 1)] d
    Link.call outlet (d.tickets + 1) ask (d.link, d.outside) = (r.1, (r.2.link, r.2.outside)) := by
  have hnone : ∀ d' : Dialogue τ, d'.begun = [] → d'.ready? outlet (d.link.seq + 1) = none := by
    intro d' hd'
    unfold ready?
    rw [hd']
    cases outlet.journal <;> rfl
  simp only [run_cons, run_nil, List.append_nil, Link.call]
  by_cases hidle : d.link.isIdle ask
  · simp [step, hidle, hnone, hbegun, hunconcluded]
  rcases begin_cases outlet (d.tickets + 1) ask (d.link, d.outside) with ⟨e, t, hbegin⟩ | ⟨t, hbegin⟩
  · simp [step, hidle, hbegin, hnone, hbegun, hunconcluded]
  · generalize hq : (⟨d.link.seq + 1, d.tickets + 1, ask, d.link.clock⟩ : Numbered) = q at hbegin
    have hseq : q.seq = d.link.seq + 1 := by rw [← hq]
    have hready : ∀ d' : Dialogue τ, d'.begun = [q] → d'.ready? outlet (d.link.seq + 1) = some q := by
      intro d' hd'
      unfold ready?
      rw [hd']
      cases outlet.journal <;> simp [hseq]
    rcases dispatch_settles outlet (q := q)
      (s := ({ d.link with started := true, seq := d.link.seq + 1 }, t)) (hseq ▸ hnew) with hrs | ⟨v, hrs⟩
    · simp [step, hidle, hbegin, hready, hbegun, after, sending, hrs, hunconcluded, Link.finish,
        Link.concludeAll]
    · simp [step, hidle, hbegin, hready, hbegun, after, sending, hrs, hunconcluded, Link.finish,
        Link.concludeAll, hseq]

end Dialogue

/-- An outlet that can be switched off. While it is off, nothing can be started, sent or closed. It keeps
a journal, of which nothing is left. -/
def Outlet.switch : Outlet Bool where
  start on := (if on then .ok () else .error (.outside "off"), on)
  send _ on := (if on then .ok () else .error (.outside "off"), on)
  close on := (if on then .ok () else .error (.outside "off"), on)
  journal := some fun _ _ on => on

end SwiftLens
