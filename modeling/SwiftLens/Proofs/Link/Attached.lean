import SwiftLens.Helper.Attached
import SwiftLens.Proofs.Inspection.Correspondence
import SwiftLens.Proofs.Link.Dialogue

/-!
# What is written to the process

A backend at the end of a link writes to a process when it is asked something. A tapped attachment does
what the given one does and keeps what was written to the process, piece by piece. `written_ask` says what
a question adds: pieces that are lines of this very question, and nothing else, whatever the process does
and whatever happens to the journal.

The way there leads through everything a question sets in motion. All of it reaches the outside only by
running the process, by ending its input, by looking what it has done, by keeping the journal, and by
writing the line; so what these preserve, a question preserves (`Attachment.Preserves`, `ask_outside`).
-/

namespace SwiftLens

variable {τ δ : Type}

/-! ### Taps -/

/-- A process with all that was written to it. -/
def Launcher.tapped (process : Launcher τ) : Launcher (List Utf8.Bytes × τ) where
  spawn := process.spawn.second
  write bytes s := (s.1 ++ [bytes], process.write bytes s.2)
  finish s := (s.1, process.finish s.2)
  poll s :=
    match process.poll s.2 with
    | (events, t) => (events, (s.1, t))

/-- The file system on the second part of a state. -/
def Store.second (store : Store τ) : Store (δ × τ) where
  makeDirectory directory := (store.makeDirectory directory).second
  append file text := (store.append file text).second

namespace Attachment

open SwiftLens.Action (Preserves)

/-- An attachment that keeps what is written to its process. -/
def tapped (a : Attachment τ) : Attachment (List Utf8.Bytes × τ) where
  process := a.process.tapped
  journal := a.journal
  store := a.store.second
  timeout := a.timeout
  beginning := a.beginning

/-! ### What the link does to its outside -/

end Attachment

namespace Link

section outside

variable {outlet : Outlet τ} {P : τ → Prop} (hclose : ∀ t, P t → P (outlet.close t).2)
  (hrecord : ∀ time traffic t, P t → P (outlet.record time traffic t))

include hclose in
/-- What closing preserves, concluding a question preserves. -/
theorem conclude_outside (r : Settled) (s : Link × τ) (hs : P s.2) : P (conclude outlet r s).2.2 := by
  unfold conclude
  split
  · have h := hclose s.2 hs
    rcases hc : outlet.close s.2 with ⟨e | ⟨⟩, t⟩
    · simpa [hc] using h
    · simpa [hc] using h
  · exact hs

include hclose in
/-- What closing preserves, concluding questions in turn preserves. -/
theorem concludeAll_outside (rs : List Settled) (s : Link × τ) (hs : P s.2) :
    P (concludeAll outlet rs s).2.2 := by
  induction rs generalizing s with
  | nil => exact hs
  | cons r rs ih => exact ih _ (conclude_outside hclose r s hs)

include hrecord

/-- What recording preserves, settling questions preserves. -/
theorem settleWhere_outside (p : Numbered → Bool) (f : Numbered → Verdict) (s : Link × τ) (hs : P s.2) :
    P (settleWhere outlet p f s).2.2 := by
  have hall : ∀ (rs : List Settled) (t : τ), P t →
      P (rs.foldl (fun t r => outlet.record s.1.clock (settledAt s.1.clock r) t) t) := by
    intro rs
    induction rs with
    | nil => exact fun t ht => ht
    | cons r rs ih => exact fun t ht => ih _ (hrecord _ _ t ht)
  exact hall _ _ hs

/-- What recording preserves, a signal preserves. -/
theorem receive_outside (signal : Signal) (s : Link × τ) (hs : P s.2) : P (receive outlet signal s).2.2 := by
  cases signal with
  | line text =>
    unfold receive
    dsimp only
    split
    · exact settleWhere_outside hrecord _ _ s hs
    · exact settleWhere_outside hrecord _ _ s hs
  | diagnostics text => exact hs
  | exit code => exact settleWhere_outside hrecord _ _ _ hs
  | failure message => exact settleWhere_outside hrecord _ _ _ hs

/-- What recording preserves, passing time preserves. -/
theorem wait_outside (ms : Double) (s : Link × τ) (hs : P s.2) : P (wait outlet ms s).2.2 := by
  have hall : ∀ (ts : List Timer) (s : Link × τ), P s.2 → P (ringAll outlet ts s).2.2 := by
    intro ts
    induction ts with
    | nil => exact fun s hs => hs
    | cons t ts ih => exact fun s hs => ih _ (settleWhere_outside hrecord _ _ _ hs)
  exact hall _ _ hs

end outside

end Link

namespace Attachment

open SwiftLens.Action (Preserves)

/-! ### What everything but writing preserves -/

/-- A property of the outside that running the process, ending its input, looking what it has done and
keeping the journal preserve. -/
structure Preserves (a : Attachment τ) (P : τ → Prop) : Prop where
  spawn : a.process.spawn.Preserves P
  finish : ∀ t, P t → P (a.process.finish t)
  poll : ∀ t, P t → P (a.process.poll t).2
  makeDirectory : ∀ directory, (a.store.makeDirectory directory).Preserves P
  append : ∀ file text, (a.store.append file text).Preserves P

section preserves

variable {a : Attachment τ} {P : τ → Prop} (h : a.Preserves P)

include h

/-- What an action of the channel preserves is not lost when the process is looked at. -/
theorem onChannel_outside {act : Action (Channel × τ) Unit} (hact : act.Preserves fun s => P s.2) :
    (a.onChannel act).Preserves fun s => P s.outside :=
  fun s hs => h.poll _ (hact (s.channel, s.outside) hs)

/-- Starting the helper starts the process. -/
theorem start_outside : a.outlet.start.Preserves fun s => P s.outside := by
  apply onChannel_outside h
  apply Preserves.bind
  · exact fun _ hs => hs
  · intro running
    split
    · exact Preserves.pure ()
    · exact h.spawn.second.bind fun _ _ hs => hs

/-- Closing the helper ends the process. -/
theorem close_outside : a.outlet.close.Preserves fun s => P s.outside := by
  apply onChannel_outside h
  intro s hs
  rw [Channel.close, Action.modify_apply]
  split
  · exact h.finish _ hs
  · exact hs

/-- Sending a line writes it to the process. -/
theorem send_outside (line : Text)
    (hwrite : ∀ t, P t → P (a.process.write (Utf8.encode (line ++ "\n")) t)) :
    (a.outlet.send line).Preserves fun s => P s.outside := by
  apply onChannel_outside h
  apply Preserves.bind
  · exact fun _ hs => hs
  · intro running
    split
    · exact fun s hs => hwrite s.2 hs
    · exact fun _ hs => hs

/-- An entry of the journal is a directory, perhaps, and a line. -/
theorem log_outside (j : Journal) (stamp type : Text) (data : Option (Json Double)) :
    (j.log a.store stamp type data).Preserves fun s => P s.2 := by
  apply Preserves.bind
  · exact fun _ hs => hs
  · intro hasDirectory
    split
    · exact (Preserves.pure ()).bind fun _ => (h.append _ _).second
    · refine (h.makeDirectory _).second.bind fun _ => ?_
      apply Preserves.bind
      · exact fun _ hs => hs
      · exact fun _ => (h.append _ _).second

/-- Keeping the journal writes entries, if it does anything. -/
theorem keep_outside (time : Double) (traffic : Traffic) (s : Surroundings τ) (hs : P s.outside) :
    P (a.outlet.record time traffic s).outside := by
  unfold Outlet.record outlet
  cases a.journal with
  | none => exact hs
  | some j =>
    show P (a.keep j time traffic s).outside
    unfold keep Journal.record
    dsimp only
    split
    · exact hs
    · have hlog : P _ := log_outside h j (Calendar.stamp (a.beginning + time.truncate)) traffic.type
        (some traffic.data) (s.progress, s.outside) hs
      rcases hrun : j.log a.store (Calendar.stamp (a.beginning + time.truncate)) traffic.type
        (some traffic.data) (s.progress, s.outside) with ⟨e | ⟨⟩, progress, t⟩
      · rw [hrun] at hlog
        exact hlog
      · rw [hrun] at hlog
        exact hlog

/-! ### Taking events in -/

/-- What the link settled is concluded. -/
theorem finish_outside (r : List Settled × Attached τ) (hr : P r.2.2.outside) :
    P (Link.finish a.outlet r).2.2.outside :=
  Link.concludeAll_outside (P := fun t : Surroundings τ => P t.outside) (close_outside h) r.1 r.2 hr

/-- A signal is taken in. -/
theorem hear_outside (signal : Signal) (s : Attached τ) (hs : P s.2.outside) :
    P (a.hear signal s).2.2.outside := by
  unfold hear
  split
  · exact hs
  · exact finish_outside h _ (Link.receive_outside (P := fun t : Surroundings τ => P t.outside)
      (keep_outside h) _ s hs)

/-- Signals are taken in one after the other. -/
theorem hearAll_outside (signals : List Signal) (s : Attached τ) (hs : P s.2.outside) :
    P (a.hearAll signals s).2.2.outside := by
  induction signals generalizing s with
  | nil => exact hs
  | cons signal rest ih => exact ih _ (hear_outside h signal s hs)

/-- What the process does is taken in as signals. -/
theorem deliver_outside (event : ProcessEvent) (s : Attached τ) (hs : P s.2.outside) :
    P (a.deliver event s).2.2.outside :=
  hearAll_outside h _ _ hs

/-- All that has come from the process is taken in. -/
theorem drain_outside (s : Attached τ) (hs : P s.2.outside) : P (a.drain s).2.outside := by
  have hall : ∀ (events : List ProcessEvent) (s : Attached τ), P s.2.outside →
      P (a.deliverAll events s).2.outside := by
    intro events
    induction events with
    | nil => exact fun s hs => hs
    | cons event rest ih => exact fun s hs => ih _ (deliver_outside h event s hs)
  exact hall _ _ hs

/-- Events are taken in until a question is concluded. -/
theorem listen_outside (events : List ProcessEvent) (s : Attached τ) (hs : P s.2.outside) :
    P (a.listen events s).2.2.outside := by
  induction events generalizing s with
  | nil => exact hs
  | cons event rest ih =>
    have hdelivered := deliver_outside h event s hs
    rcases hrun : a.deliver event s with ⟨concluded, t⟩
    rw [hrun] at hdelivered
    rw [listen, hrun]
    cases concluded with
    | nil => exact ih t hdelivered
    | cons conclusion more => exact hdelivered

/-- Waiting for a question takes events in, or lets its time run out. -/
theorem await_outside (s : Attached τ) (hs : P s.2.outside) : P (a.await s).2.2.outside := by
  have hlistened := listen_outside h s.2.inbox (s.1, { s.2 with inbox := [] }) hs
  rcases hrun : a.listen s.2.inbox (s.1, { s.2 with inbox := [] }) with ⟨concluded, t⟩
  rw [hrun] at hlistened
  rw [await, hrun]
  cases concluded with
  | nil =>
    exact finish_outside h _ (Link.wait_outside (P := fun t : Surroundings τ => P t.outside)
      (keep_outside h) _ t hlistened)
  | cons conclusion more => exact hlistened

/-! ### Asking -/

/-- A question is begun by starting the process, perhaps, and an entry of the journal. -/
theorem begin_outside (ticket : Nat) (ask : Ask) (s : Attached τ) (hs : P s.2.outside) :
    P (Link.begin a.outlet ticket ask s).2.2.outside := by
  unfold Link.begin
  dsimp only
  split
  · exact keep_outside h _ _ _ hs
  · have hstarted := start_outside h s.2 hs
    rcases hrun : a.outlet.start s.2 with ⟨e | ⟨⟩, t⟩
    · rw [hrun] at hstarted
      exact hstarted
    · rw [hrun] at hstarted
      exact keep_outside h _ _ _ hstarted

/-- A question that is put writes its line, and waits. -/
theorem put_outside {q : Numbered}
    (hwrite : ∀ t, P t → P (a.process.write (Utf8.encode (q.line ++ "\n")) t))
    (s : Attached τ) (hs : P s.2.outside) : P (a.put q s).2.2.outside := by
  have hdispatched : P (Link.dispatch a.outlet q s).2.2.outside := by
    have hsent := send_outside h q.line hwrite s.2 hs
    unfold Link.dispatch
    dsimp only
    rcases hrun : a.outlet.send q.line s.2 with ⟨e | ⟨⟩, t⟩
    · rw [hrun] at hsent
      exact Link.settleWhere_outside (P := fun t : Surroundings τ => P t.outside) (keep_outside h) _ _ _ hsent
    · rw [hrun] at hsent
      exact hsent
  rcases hrun : Link.dispatch a.outlet q s with ⟨settled, t⟩
  rw [hrun] at hdispatched
  rw [put, hrun]
  cases settled with
  | nil => exact await_outside h t hdispatched
  | cons r more => exact finish_outside h _ hdispatched

/-- What writing the lines of a question preserves, and everything else does, asking it preserves. -/
theorem ask_outside {ask : Ask}
    (hwrite : ∀ seq t, P t → P (a.process.write (Utf8.encode (ask.line seq ++ "\n")) t))
    (s : Attached τ) (hs : P s.2.outside) : P (a.ask ask s).2.2.outside := by
  unfold Attachment.ask
  split
  · exact hs
  · have hbegun := begin_outside h 0 ask s hs
    dsimp only
    rcases hrun : Link.begin a.outlet 0 ask s with ⟨e | q, t⟩
    · rw [hrun] at hbegun
      exact hbegun
    · have hask : q.ask = ask := by
        rcases Dialogue.begin_cases a.outlet 0 ask s with ⟨e, u, hbegin⟩ | ⟨u, hbegin⟩
        · rw [hbegin] at hrun
          cases hrun
        · rw [hbegin] at hrun
          cases hrun
          rfl
      rw [hrun] at hbegun
      dsimp only
      have hready : P (if a.isJournalling s then a.drain t else t).2.outside := by
        split
        · exact drain_outside h t hbegun
        · exact hbegun
      have hput := put_outside h (q := q) (fun t ht => by rw [Numbered.line, hask]; exact hwrite q.seq t ht) _ hready
      split
      · exact drain_outside h _ hput
      · exact hput

end preserves

/-! ### What is written -/

/-- What was written stays as it is, unless something is written. -/
theorem preserves_tapped (a : Attachment τ) (Q : List Utf8.Bytes → Prop) :
    a.tapped.Preserves fun s => Q s.1 where
  spawn _ hs := hs
  finish _ hs := hs
  poll _ hs := hs
  makeDirectory _ _ hs := hs
  append _ _ _ hs := hs

/-- A question adds lines of its own to what was written, and nothing else. -/
theorem written_ask (a : Attachment τ) (ask : Ask) (s : Attached (List Utf8.Bytes × τ)) :
    ∃ made, (a.tapped.ask ask s).2.2.outside.1 = s.2.outside.1 ++ made ∧
      ∀ chunk ∈ made, ∃ seq, chunk = Utf8.encode (ask.line seq ++ "\n") := by
  refine ask_outside (a.preserves_tapped fun log => ∃ made, log = s.2.outside.1 ++ made ∧
    ∀ chunk ∈ made, ∃ seq, chunk = Utf8.encode (ask.line seq ++ "\n")) ?_ s ?_
  · rintro seq ⟨log, t⟩ ⟨made, hlog, hmade⟩
    refine ⟨made ++ [Utf8.encode (ask.line seq ++ "\n")], ?_, ?_⟩
    · show log ++ [_] = _
      rw [show log = _ from hlog, List.append_assoc]
    · intro chunk hchunk
      rcases List.mem_append.mp hchunk with hchunk | hchunk
      · exact hmade chunk hchunk
      · exact ⟨seq, List.mem_singleton.mp hchunk⟩
  · exact ⟨[], (List.append_nil _).symm, by simp⟩

end Attachment

end SwiftLens
