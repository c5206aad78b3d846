import Mathlib.Algebra.GroupWithZero.Nat
import Mathlib.Data.List.Basic
import SwiftLens.Backend
import SwiftLens.SourceReader

/-!
# Recorded runs

A backend and a reader can be had with a record: a list in the state to which every question is
appended together with what came of it. They answer as before, so a record shows what is asked of any
service and any source text.

`Terms` say what a run has to keep to: which exchanges it may make, and with which faults of its own it
may stop. An action that keeps its terms (`Terms.Keeps`) appends to the record and makes only exchanges
that are allowed. If it returns, all of them were answered; if it fails, then either the last exchange
failed with that very fault and the others were answered, or all were answered and the fault is one of
its own. `Keeps` is stated for a start state and a postcondition, with one rule for each way to build
an action, so that what is proved of an action is used where the action is used.
-/

namespace SwiftLens

variable {σ δ α β S T : Type}

/-! ### Exchanges -/

/-- The fault of a result. -/
def Fault.of? : Except Fault α → Option Fault
  | .ok _ => none
  | .error e => some e

/-- A result that is a value has no fault. -/
@[simp] theorem Fault.of?_ok (x : α) : Fault.of? (.ok x) = none := rfl

/-- The fault of a failure. -/
@[simp] theorem Fault.of?_error (e : Fault) : Fault.of? (.error e : Except Fault α) = some e := rfl

/-- A question to a backend or a reading of source text, with what came of it. -/
inductive Exchange where
  | connect (answer : Except Fault Unit)
  | uidOf (name : Text) (answer : Except Fault Int)
  | nameOf (uid : Int) (answer : Except Fault (Option Text))
  | respond (request : Entries Value) (answer : Except Fault Value)
  | disconnect (answer : Except Fault Unit)
  | whole (file : Text) (answer : Except Fault Text)
  | range (file : Text) (offset length : Double) (answer : Except Fault Text)

namespace Exchange

/-- The fault with which an exchange failed. -/
def fault? : Exchange → Option Fault
  | connect answer => Fault.of? answer
  | uidOf _ answer => Fault.of? answer
  | nameOf _ answer => Fault.of? answer
  | respond _ answer => Fault.of? answer
  | disconnect answer => Fault.of? answer
  | whole _ answer => Fault.of? answer
  | range _ _ _ answer => Fault.of? answer

/-- A question for an identifier fails with its answer. -/
@[simp] theorem fault?_uidOf (name : Text) (answer : Except Fault Int) :
    (uidOf name answer).fault? = Fault.of? answer := rfl

/-- A question for a name fails with its answer. -/
@[simp] theorem fault?_nameOf (uid : Int) (answer : Except Fault (Option Text)) :
    (nameOf uid answer).fault? = Fault.of? answer := rfl

/-- A request fails with its answer. -/
@[simp] theorem fault?_respond (request : Entries Value) (answer : Except Fault Value) :
    (respond request answer).fault? = Fault.of? answer := rfl

/-- The depth of the response that an exchange brought. -/
def replyDepth : Exchange → Nat
  | respond _ (.ok reply) => reply.depth
  | _ => 0

end Exchange

/-- No exchange failed. -/
def AllAnswered (exchanges : List Exchange) : Prop := ∀ x ∈ exchanges, x.fault? = none

/-- The last exchange failed with the fault, and no other did. -/
def BreaksOff (exchanges : List Exchange) (e : Fault) : Prop :=
  ∃ before last, exchanges = before ++ [last] ∧ AllAnswered before ∧ last.fault? = some e

/-- The depths of all responses together. -/
def repliesDepth (exchanges : List Exchange) : Nat := (exchanges.map Exchange.replyDepth).sum

/-- Where there was no exchange none failed. -/
@[simp] theorem allAnswered_nil : AllAnswered [] := by simp [AllAnswered]

/-- No exchange failed if the first did not and none of the rest did. -/
@[simp] theorem allAnswered_cons {x : Exchange} {rest : List Exchange} :
    AllAnswered (x :: rest) ↔ x.fault? = none ∧ AllAnswered rest := by simp [AllAnswered]

/-- No exchange failed if none did in either part. -/
@[simp] theorem allAnswered_append {first second : List Exchange} :
    AllAnswered (first ++ second) ↔ AllAnswered first ∧ AllAnswered second := by
  simp [AllAnswered, or_imp, forall_and]

/-- A record breaks off where its last part does, if nothing failed before. -/
theorem BreaksOff.append_left {first second : List Exchange} {e : Fault} (hfirst : AllAnswered first)
    (h : BreaksOff second e) : BreaksOff (first ++ second) e := by
  obtain ⟨before, last, rfl, hbefore, hlast⟩ := h
  refine ⟨first ++ before, last, ?_, allAnswered_append.mpr ⟨hfirst, hbefore⟩, hlast⟩
  rw [List.append_assoc]

/-- One exchange that failed is a record that breaks off. -/
theorem breaksOff_singleton {x : Exchange} {e : Fault} (h : x.fault? = some e) : BreaksOff [x] e :=
  ⟨[], x, rfl, allAnswered_nil, h⟩

/-- In a record that breaks off, nothing comes after what failed, and it failed with that fault. -/
theorem BreaksOff.after_eq_nil {exchanges before after : List Exchange} {x : Exchange} {e d : Fault}
    (h : BreaksOff exchanges e) (hsplit : exchanges = before ++ x :: after) (hx : x.fault? = some d) :
    after = [] ∧ d = e := by
  obtain ⟨answered, last, rfl, hanswered, hlast⟩ := h
  rcases List.eq_nil_or_concat after with rfl | ⟨initial, y, rfl⟩
  · obtain ⟨rfl, hlast'⟩ := List.append_inj' hsplit rfl
    obtain rfl := (List.cons.inj hlast').1
    exact ⟨rfl, Option.some.inj (hx.symm.trans hlast)⟩
  · -- Then what failed stands among the exchanges that were answered.
    have hsplit' : answered ++ [last] = (before ++ x :: initial) ++ [y] := by
      rw [hsplit]
      simp
    obtain ⟨rfl, -⟩ := List.append_inj' hsplit' rfl
    rw [hanswered x (by simp)] at hx
    cases hx

/-- The depths of the responses of two records add up. -/
@[simp] theorem repliesDepth_append (first second : List Exchange) :
    repliesDepth (first ++ second) = repliesDepth first + repliesDepth second := by
  simp [repliesDepth]

/-- When a record goes on, the depths of its responses do not decrease. -/
theorem repliesDepth_le_of_prefix {first second : List Exchange} (h : first <+: second) :
    repliesDepth first ≤ repliesDepth second := by
  obtain ⟨rest, rfl⟩ := h
  rw [repliesDepth_append]
  exact Nat.le_add_right _ _

/-! ### With a record -/

/-- An action that writes down what came of it. -/
def Action.noted (note : Except Fault α → Exchange) (a : Action σ α) :
    Action (List Exchange × σ) α := fun s =>
  match a s.2 with
  | (r, t) => (r, (s.1 ++ [note r], t))

/-- What an action that is written down comes to, from what the action comes to. -/
theorem Action.noted_of_eq {note : Except Fault α → Exchange} {a : Action σ α} {s : List Exchange × σ}
    {r : Except Fault α} {t : σ} (h : a s.2 = (r, t)) :
    a.noted note s = (r, (s.1 ++ [note r], t)) := by
  unfold noted
  rw [h]

/-- A backend with a record of what it is asked. -/
def Backend.recorded (backend : Backend σ) : Backend (List Exchange × σ) where
  connect := backend.connect.noted .connect
  uidOf name := (backend.uidOf name).noted (.uidOf name)
  nameOf uid := (backend.nameOf uid).noted (.nameOf uid)
  respond request := (backend.respond request).noted (.respond request)
  disconnect := backend.disconnect.noted .disconnect
  notes := backend.second.notes

/-- A reader with a record of what it reads. -/
def SourceReader.recorded (reader : SourceReader σ) : SourceReader (List Exchange × σ) where
  whole file := (reader.whole file).noted (.whole file)
  range file offset length := (reader.range file offset length).noted (.range file offset length)

/-! ### Terms -/

/-- What a run has to keep to. -/
structure Terms (S : Type) where
  /-- Where the exchanges are written down. -/
  log : S → List Exchange
  /-- The exchanges that may be made. -/
  allows : Exchange → Prop
  /-- The faults, other than those of exchanges, with which the run may stop, and in which states. -/
  owns : Fault → S → Prop

namespace Terms

/-- The terms of a state of which the run changes the second part. -/
def second (terms : Terms S) : Terms (δ × S) where
  log s := terms.log s.2
  allows := terms.allows
  owns e s := terms.owns e s.2

/-- The terms that leave a run no fault of its own. -/
def strict (log : S → List Exchange) (allows : Exchange → Prop) : Terms S :=
  ⟨log, allows, fun _ _ => False⟩

/-- What a run that kept the terms has come to, its exchanges being `made`. -/
def Settles (terms : Terms S) (post : α → S → Prop) (made : List Exchange) : Except Fault α × S → Prop
  | (.ok v, t) => AllAnswered made ∧ post v t
  | (.error e, t) => BreaksOff made e ∨ (AllAnswered made ∧ terms.owns e t)

/-- A run that began with the record `start` and ended as given has kept the terms. -/
def Ends (terms : Terms S) (start : List Exchange) (post : α → S → Prop)
    (out : Except Fault α × S) : Prop :=
  ∃ made, terms.log out.2 = start ++ made ∧ (∀ x ∈ made, terms.allows x) ∧
    terms.Settles post made out

/-- An action keeps the terms from a state on, and what it returns satisfies `post`. -/
def Keeps (terms : Terms S) (a : Action S α) (s : S) (post : α → S → Prop) : Prop :=
  terms.Ends (terms.log s) post (a s)

variable {terms : Terms S} {terms' : Terms T} {s : S} {start : List Exchange}
  {post : α → S → Prop} {post' : α → T → Prop}

/-- What a run came to, seen from other terms and in another state. -/
theorem Ends.imp {r : Except Fault α} {t : S} {t' : T} (h : terms.Ends start post (r, t))
    (hlog : terms'.log t' = terms.log t) (hallows : ∀ x, terms.allows x → terms'.allows x)
    (howns : ∀ e, terms.owns e t → terms'.owns e t')
    (hpost : ∀ v, start <+: terms.log t → post v t → post' v t') :
    terms'.Ends start post' (r, t') := by
  obtain ⟨made, hmade, hallowed, hsettles⟩ := h
  refine ⟨made, hlog.trans hmade, fun x hx => hallows x (hallowed x hx), ?_⟩
  cases r with
  | ok v => exact ⟨hsettles.1, hpost v ⟨made, hmade.symm⟩ hsettles.2⟩
  | error e =>
    rcases hsettles with hbreaks | ⟨hanswered, hown⟩
    · exact .inl hbreaks
    · exact .inr ⟨hanswered, howns e hown⟩

/-- What is known of the result of a run may be replaced by what follows from it. -/
theorem Keeps.imp {a : Action S α} {post₂ : α → S → Prop} (h : terms.Keeps a s post)
    (hpost : ∀ v t, terms.log s <+: terms.log t → post v t → post₂ v t) : terms.Keeps a s post₂ :=
  Ends.imp h rfl (fun _ hx => hx) (fun _ he => he) fun v => hpost v _

/-- A run without exchanges that returns. -/
theorem ends_ok {v : α} {t : S} (h : post v t) : terms.Ends (terms.log t) post (.ok v, t) :=
  ⟨[], by rw [List.append_nil], by simp, allAnswered_nil, h⟩

/-- A run without exchanges that fails. -/
theorem ends_error {e : Fault} {t : S} (h : terms.owns e t) :
    terms.Ends (terms.log t) post (.error e, t) :=
  ⟨[], by rw [List.append_nil], by simp, .inr ⟨allAnswered_nil, h⟩⟩

/-- Returning a value makes no exchange. -/
theorem keeps_pure {x : α} (h : post x s) : terms.Keeps (pure x) s post := ends_ok h

/-- Failing makes no exchange, and needs a fault that the terms leave to the run. -/
theorem keeps_fail {e : Fault} (h : terms.owns e s) :
    terms.Keeps (Action.fail e : Action S α) s post := ends_error h

/-- A look at the state makes no exchange. -/
theorem keeps_read {f : S → α} (h : post (f s) s) : terms.Keeps (Action.read f) s post := ends_ok h

/-- A change of the state that leaves the record alone makes no exchange. -/
theorem keeps_modify {f : S → S} {post : Unit → S → Prop} (hlog : terms.log (f s) = terms.log s)
    (h : post () (f s)) : terms.Keeps (Action.modify f) s post := by
  unfold Keeps
  rw [← hlog]
  exact ends_ok h

/-- One run after another: the record of the second continues that of the first. -/
theorem Ends.continued {t : S} {out : Except Fault α × S} {made : List Exchange}
    (h : terms.Ends (terms.log t) post out) (hmade : terms.log t = start ++ made)
    (hallowed : ∀ x ∈ made, terms.allows x) (hanswered : AllAnswered made) :
    terms.Ends start post out := by
  obtain ⟨made', hmade', hallowed', hsettles⟩ := h
  refine ⟨made ++ made', ?_, ?_, ?_⟩
  · rw [hmade', hmade, List.append_assoc]
  · intro x hx
    rcases List.mem_append.mp hx with hx | hx
    · exact hallowed x hx
    · exact hallowed' x hx
  · obtain ⟨e | v, t'⟩ := out
    · rcases hsettles with hbreaks | ⟨hanswered', hown⟩
      · exact .inl (hbreaks.append_left hanswered)
      · exact .inr ⟨allAnswered_append.mpr ⟨hanswered, hanswered'⟩, hown⟩
    · exact ⟨allAnswered_append.mpr ⟨hanswered, hsettles.1⟩, hsettles.2⟩

/-- Two actions in turn keep the terms if the first does and the second does from there on. -/
theorem keeps_bind {a : Action S α} {f : α → Action S β} {post : β → S → Prop}
    (h : terms.Keeps a s fun x t => terms.Keeps (f x) t post) : terms.Keeps (a >>= f) s post := by
  obtain ⟨made, hmade, hallowed, hsettles⟩ := h
  rcases hrun : a s with ⟨r, t⟩
  rw [hrun] at hmade hsettles
  cases r with
  | ok x =>
    unfold Keeps
    rw [Action.bind_of_ok hrun]
    exact Ends.continued hsettles.2 hmade hallowed hsettles.1
  | error e =>
    unfold Keeps
    rw [Action.bind_of_error hrun]
    exact ⟨made, hmade, hallowed, hsettles⟩

/-- What keeps the terms on the second part of a state keeps them on the whole. -/
theorem keeps_second {a : Action S α} {s : δ × S} {post : α → δ × S → Prop}
    (h : terms.Keeps a s.2 fun x t => post x (s.1, t)) : terms.second.Keeps a.second s post :=
  Ends.imp h rfl (fun _ hx => hx) (fun _ he => he) fun _ _ hx => hx

/-- An action that is written down is one exchange, which fails just in case the action does. -/
theorem keeps_noted {a : Action σ α} {note : Except Fault α → Exchange} {s : List Exchange × σ}
    {allows : Exchange → Prop} {post : α → List Exchange × σ → Prop}
    (hnote : ∀ r, (note r).fault? = Fault.of? r) (hallows : ∀ r, allows (note r))
    (h : ∀ x t, post x (s.1 ++ [note (.ok x)], t)) :
    (strict Prod.fst allows).Keeps (a.noted note) s post := by
  unfold Keeps
  rcases hrun : a s.2 with ⟨r, t⟩
  rw [Action.noted_of_eq hrun]
  refine ⟨[note r], rfl, by simpa [strict] using hallows r, ?_⟩
  cases r with
  | ok x => exact ⟨by simp [hnote], h x t⟩
  | error e => exact .inl (breaksOff_singleton (hnote _))

/-- An action that is written down keeps the terms that allow its one exchange. -/
theorem keeps_noted_second {a : Action σ α} {note : Except Fault α → Exchange}
    {s : δ × (List Exchange × σ)} {allows : Exchange → Prop}
    {post : α → δ × (List Exchange × σ) → Prop} (hnote : ∀ r, (note r).fault? = Fault.of? r)
    (hallows : ∀ r, allows (note r)) (h : ∀ x t, post x (s.1, (s.2.1 ++ [note (.ok x)], t))) :
    (strict (fun s => s.2.1) allows).Keeps (a.noted note).second s post :=
  keeps_second (keeps_noted hnote hallows h)

end Terms

end SwiftLens
