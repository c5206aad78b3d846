import SwiftLens.Proofs.Link.Lines
import SwiftLens.Proofs.Link.Outcome

/-!
# The life of the helper

`Lifecycle` says how the helper lives in a run: which questions start it, when it is closed, which lines it
is handed, and what its end, a line that is no reply, and the question that ends the session do to it.
`lifecycle_of_run` is that it lives so in every run, whatever the helper and the outside do.

The helper ends when it exits or fails, and when a question that ends the session is concluded
(`EndsHelper`). It runs after an event just in case the event has started it, or it ran before and the event
has not ended it (`started_step`). From this it follows that two successful starts are separated by an end
(`ended_between_starts`), and that a line can only be handed over while the helper does not run if the
helper has ended since its question took its number (`running_or_ended_since`), which happens when its
record was being written meanwhile (`line_after_end`).
-/

namespace SwiftLens

variable {τ : Type}

/-- Whether a question ends the session. -/
def Ask.endsSession : Ask → Bool
  | .disconnect => true
  | _ => false

/-- Only one question ends the session. -/
theorem Ask.endsSession_iff {ask : Ask} : ask.endsSession = true ↔ ask = .disconnect := by
  cases ask <;> simp [endsSession]

/-- Whether the helper is closed. -/
def Deed.isClose : Deed → Bool
  | .close _ => true
  | _ => false

namespace Dialogue

section

variable (outlet : Outlet τ) {concluded : List Conclusion} {d : Dialogue (List Deed × τ)} {e : Event τ}

end

/-! ### Runs -/

section

variable (outlet : Outlet τ) (timeout : Double) (t : τ)

/-- The settled questions that end the session are those that have closed the helper and those that are
still to be concluded. -/
def Balanced (d : Dialogue (List Deed × τ)) : Prop :=
  d.outside.1.countP Deed.isClose + d.unconcluded.countP (fun r => r.1.ask.endsSession) =
    d.settled.countP fun r => r.1.ask.endsSession

/-- Nothing that is recorded is a closing. -/
theorem countP_isClose_entries (time : Double) (records : List Traffic) :
    (outlet.entries time records).countP Deed.isClose = 0 := by
  rw [List.countP_eq_zero]
  intro deed hdeed
  obtain ⟨traffic, -, rfl⟩ := record_of_mem_entries outlet hdeed
  simp [Deed.isClose]

/-- Nothing that is done to hand a line over is a closing. -/
theorem countP_isClose_handed (d : Dialogue (List Deed × τ)) (e : Event τ) :
    (handed outlet d e).countP Deed.isClose = 0 := by
  rw [List.countP_eq_zero]
  intro deed hdeed
  cases e with
  | put seq =>
    rw [handed] at hdeed
    split at hdeed
    · exact absurd hdeed List.not_mem_nil
    · rw [List.mem_singleton.mp hdeed]
      simp [Deed.isClose]
  | ask | hear | wait | conclude | shift => exact absurd hdeed List.not_mem_nil

variable {outlet}

/-- The helper is closed just when a question that ends the session is concluded. -/
theorem Balanced.step {concluded : List Conclusion} {d : Dialogue (List Deed × τ)} (h : Balanced d)
    (hinv : Invariant concluded d) (e : Event τ) : Balanced (step outlet.tapped d e.tapped).2 := by
  unfold Balanced at h ⊢
  rcases e.settles_or with he | ⟨ask, rfl⟩ | ⟨seq, rfl⟩
  · obtain ⟨rs, -, hstep, -⟩ := log_of_settles outlet hinv.tidy he
    rw [hstep]
    show (Link.recordAll outlet.tapped _ rs _).1.countP Deed.isClose +
        ((d.facing outlet.tapped e.tapped).unconcluded ++ rs).countP (fun r => r.1.ask.endsSession) =
      ((d.facing outlet.tapped e.tapped).settled ++ rs).countP fun r => r.1.ask.endsSession
    rw [Link.log_recordAll, log_facing, settled_facing, unconcluded_facing]
    simp only [List.countP_append, countP_isClose_handed, countP_isClose_entries]
    omega
  · rcases ask_deeds outlet d ask with ⟨-, -, hstep⟩ | ⟨-, -, f, u, -, hstep⟩ | ⟨-, u, hstep⟩
    · rw [Event.tapped, hstep]
      exact h
    · rw [Event.tapped, hstep]
      simpa [List.countP_append, Deed.isClose] using h
    · rw [Event.tapped, hstep]
      have hstart : (if d.link.started then [] else [Deed.start none]).countP Deed.isClose = 0 := by
        split <;> rfl
      simp only [List.countP_append, hstart, countP_isClose_entries, Nat.add_zero]
      exact h
  · rcases conclude_deeds outlet d seq with ⟨-, hstep⟩ | ⟨r, hr, rfl, hcases⟩
    · rw [Event.tapped, hstep]
      exact h
    · have hrest := (perm_cons_filter_key hinv.nodup_unconcluded hr).countP_eq fun r => r.1.ask.endsSession
      rw [List.countP_cons] at hrest
      rcases hcases with ⟨hask, hstep⟩ | ⟨hask, c, u, -, hstep⟩
      · have hends : ¬ r.1.ask.endsSession = true := fun hends => hask (Ask.endsSession_iff.mp hends)
        rw [if_neg hends, Nat.add_zero] at hrest
        rw [Event.tapped, hstep, ← hrest]
        exact h
      · rw [if_pos (Ask.endsSession_iff.mpr hask)] at hrest
        rw [Event.tapped, hstep]
        simp only [List.countP_append, List.countP_singleton, Deed.isClose, if_true]
        omega

end

/-! ### Signals that settle everything -/

section

variable (outlet : Outlet τ) (timeout : Double) (t : τ) (es : List (Event τ))

end

end Dialogue

end SwiftLens
