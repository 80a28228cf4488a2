import Treewalk.Proofs.Cutoff

/-! # Two limits on the depth of calls

The limit of a run matters only to the check that stops a call, so a program does
the same under two limits, or it overflows under the lower one.
-/

namespace Treewalk

open Effect

/-- The same run under a higher and under a lower limit. -/
def Cutoff.limits {low high : Nat} (le : low ≤ high) : Cutoff where
  beside limit sink limit' sink' := limit = low ∧ limit' = high ∧ sink = sink'
  past e sink sink' := e.fault = .stackOverflow low ∧ sink.Begins sink'
  past_within _ past := past
  past_emit past ok := ⟨past.1, past.2.trans (.emit ok)⟩
  takes := by
    rintro _ sink _ _ e ⟨rfl, rfl, rfl⟩
    exact .same _ fun _ _ => ⟨rfl, rfl, rfl⟩
  room := by
    rintro _ sink _ _ ⟨rfl, rfl, rfl⟩
    exact .inr ⟨le, rfl, .refl _⟩
  meet := by
    rintro _ _ _ _ _ _ _ _ _ ⟨rfl, rfl, _⟩ _ _ _
    exact ⟨rfl, rfl, rfl⟩

/-- A program does the same under a lower and under a higher limit, up to the limit
    in the state that is left, or else it overflows under the lower one, having
    printed the beginning of what it prints under the higher one. -/
theorem run_agrees_or_overflows (p : Program) (sink : Sink) {low high : Nat} (le : low ≤ high) :
    (p.run.outcome (.fresh high sink) = p.run.outcome (.fresh low sink) ∧
      p.run.after (.fresh high sink) = { p.run.after (.fresh low sink) with limit := high }) ∨
    (∃ pos, p.run.outcome (.fresh low sink) = .error ⟨.stackOverflow low, pos⟩) ∧
      (p.run.after (.fresh low sink)).sink.Begins (p.run.after (.fresh high sink)).sink := by
  have start : (Cutoff.limits le).Runs (.fresh high sink) (.fresh low sink) :=
    ⟨low, sink, rfl, rfl, rfl, rfl⟩
  rcases start.agrees_or_stops (.run p) with ⟨same, _, _, left, _, limit, rfl⟩ | stopped
  · refine .inl ⟨same, ?_⟩
    rw [show p.run.after (.fresh low sink) = _ from left]
    exact congrArg (State.outfitted (p.run.after (.fresh high sink)) · _) limit
  · obtain ⟨⟨_, pos⟩, stopped, rfl, begins⟩ := stopped
    exact .inr ⟨⟨pos, stopped⟩, begins⟩

/-- Print a number, call a function that does nothing, and print another number. -/
def printCallPrint : Program :=
  ⟨"main", ["fmt"],
    [.func ⟨⟨1, 1⟩, "main", [], none,
      [.expr ⟨2, 1⟩ (.print ⟨2, 1⟩ "fmt" .print [.int ⟨2, 5⟩ 1]),
        .expr ⟨3, 1⟩ (.call ⟨3, 1⟩ "idle" []),
        .expr ⟨4, 1⟩ (.print ⟨4, 1⟩ "fmt" .print [.int ⟨4, 5⟩ 2])]⟩,
    .func ⟨⟨6, 1⟩, "idle", [], none, []⟩]⟩

/-- With room for one call only the first number is printed, and with room for two
    the second one follows. -/
theorem run_agrees_or_overflows_printCallPrint :
    1 ≤ 2 ∧
    printCallPrint.run.outcome (.fresh 1 (.buffer "")) =
      .error ⟨.stackOverflow 1, some ⟨3, 1⟩⟩ ∧
    printCallPrint.run.outcome (.fresh 2 (.buffer "")) = .ok () ∧
    (printCallPrint.run.after (.fresh 1 (.buffer ""))).sink.Begins
      (printCallPrint.run.after (.fresh 2 (.buffer ""))).sink := by
  have stopped : printCallPrint.run.outcome (.fresh 1 (.buffer "")) =
      .error ⟨.stackOverflow 1, some ⟨3, 1⟩⟩ := by decide +kernel
  have finished : printCallPrint.run.outcome (.fresh 2 (.buffer "")) = .ok () := by decide +kernel
  refine ⟨Nat.le_succ 1, stopped, finished, ?_⟩
  rcases run_agrees_or_overflows printCallPrint (.buffer "") (Nat.le_succ 1) with
    ⟨same, _⟩ | ⟨_, begins⟩
  · rw [stopped, finished] at same
    cases same
  · exact begins

end Treewalk
