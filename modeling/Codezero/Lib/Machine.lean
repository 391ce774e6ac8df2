import Mathlib

/-!
# Machines that take one event at a time

A machine refuses an event where it is not enabled and otherwise either moves to one next state or
stops with an error. Properties of all runs are proved by the invariant rules; a concrete run is
computed by `run`.
-/

namespace Codezero.Lib

variable {σ ε β : Type}

structure Machine (σ ε β : Type) where
  enabled : σ → ε → Prop
  step : σ → ε → Except β σ

namespace Machine
variable (m : Machine σ ε β)

/-- States reached from `a` by enabled events, each taken where `cond` holds. -/
inductive ReachesUnder (cond : σ → ε → Prop) (a : σ) : σ → Prop
  | start : ReachesUnder cond a a
  | next {b c : σ} {e : ε} : ReachesUnder cond a b → m.enabled b e → cond b e → m.step b e = .ok c →
      ReachesUnder cond a c

/-- States reached from `a` by enabled events. -/
abbrev Reaches : σ → σ → Prop := m.ReachesUnder (fun _ _ => True)

variable {m}

variable {cond : σ → ε → Prop} {I : σ → Prop} {a b : σ}

/-- What every step taken under `cond` preserves holds in every state reached under `cond`. -/
theorem ReachesUnder.invariant
    (kept : ∀ s e t, I s → m.enabled s e → cond s e → m.step s e = .ok t → I t)
    (init : I a) (reached : m.ReachesUnder cond a b) : I b := by
  induction reached with
  | start => exact init
  | next _ enabled allowed stepped before => exact kept _ _ _ before enabled allowed stepped

theorem Reaches.invariant
    (kept : ∀ s e t, I s → m.enabled s e → m.step s e = .ok t → I t)
    (init : I a) (reached : m.Reaches a b) : I b :=
  ReachesUnder.invariant (fun s e t h enabled _ stepped => kept s e t h enabled stepped) init reached

theorem ReachesUnder.mono {weaker : σ → ε → Prop} (imp : ∀ s e, cond s e → weaker s e)
    (reached : m.ReachesUnder cond a b) : m.ReachesUnder weaker a b := by
  induction reached with
  | start => exact .start
  | next _ enabled allowed stepped before => exact .next before enabled (imp _ _ allowed) stepped

theorem ReachesUnder.trans {c : σ}
    (first : m.ReachesUnder cond a b) (second : m.ReachesUnder cond b c) : m.ReachesUnder cond a c := by
  induction second with
  | start => exact first
  | next _ enabled allowed stepped before => exact .next before enabled allowed stepped

variable (m)

/-- The run over a list of events: `none` where an event is refused or stops the machine. -/
def run [∀ s e, Decidable (m.enabled s e)] : List ε → σ → Option σ
  | [], s => some s
  | e :: es, s =>
    if m.enabled s e then
      match m.step s e with
      | .ok t => run es t
      | .error _ => none
    else none

/-- A computed run whose events are all allowed shows where they lead. -/
theorem reachesUnder_of_run [∀ s e, Decidable (m.enabled s e)] {cond : σ → ε → Prop} {es : List ε} {a b : σ}
    (allowed : ∀ e ∈ es, ∀ s, cond s e) (ran : m.run es a = some b) : m.ReachesUnder cond a b := by
  induction es generalizing a with
  | nil => cases ran; exact .start
  | cons e es rest =>
    rw [run] at ran
    split at ran
    · next enabled =>
      split at ran
      · next t stepped =>
        have first := ReachesUnder.next .start enabled (allowed e (by simp) a) stepped
        exact first.trans (rest (fun e mem => allowed e (by simp [mem])) ran)
      · exact nomatch ran
    · exact nomatch ran

/-- The run over a list of events that also checks a condition on each. -/
def runUnder (cond : σ → ε → Prop) [∀ s e, Decidable (m.enabled s e)] [∀ s e, Decidable (cond s e)] :
    List ε → σ → Option σ
  | [], s => some s
  | e :: es, s =>
    if m.enabled s e ∧ cond s e then
      match m.step s e with
      | .ok t => runUnder cond es t
      | .error _ => none
    else none

theorem reachesUnder_of_runUnder [∀ s e, Decidable (m.enabled s e)]
    [∀ s e, Decidable (cond s e)] {es : List ε} {a b : σ} (ran : m.runUnder cond es a = some b) :
    m.ReachesUnder cond a b := by
  induction es generalizing a with
  | nil => cases ran; exact .start
  | cons e es rest =>
    rw [runUnder] at ran
    split at ran
    · next allowed =>
      split at ran
      · next t stepped => exact (ReachesUnder.next .start allowed.1 allowed.2 stepped).trans (rest ran)
      · exact nomatch ran
    · exact nomatch ran

theorem reaches_of_run [∀ s e, Decidable (m.enabled s e)] {es : List ε} {a b : σ}
    (ran : m.run es a = some b) : m.Reaches a b :=
  m.reachesUnder_of_run (fun _ _ _ => trivial) ran

end Machine
end Codezero.Lib
