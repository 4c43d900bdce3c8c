import TabScript.Proofs.Stack.Shape

/-! The value of a call that is left is in the slot that waited for it.

A body that comes to its end is left on the way to the next statement, which is the one that called. It is left
with `None`. -/

set_option autoImplicit false

namespace TabScript

variable {σ : Type}

namespace Segment

variable {program : List Node} {segments : List Segment} {before after : List Passage}

/-- The statement that asked for a call is what comes next when the call has returned. -/
theorem Shape.return_waits {activity : Activity} {rest : Stack} (shape : Shape σ program none segments)
    (stacked : Stack.join segments = .running activity :: rest)
    (sequel : activity.sequel = .return) (value : Value) :
    ∃ caller node below, Stack.deliver value rest = .running caller :: below ∧
      caller.current? = some node := by
  obtain ⟨later, stacked', -, ⟨awaits, -⟩⟩ := shape.return stacked sequel value
  obtain ⟨node, current, -⟩ := awaits.asked
  exact ⟨_, node, _, stacked'.symm, current⟩

/-- On the way to a statement a call returns last. Its body has come to its end, and the value is there when
the statement is. -/
theorem Shape.settle_returned (shape : Shape σ program none segments)
    (release : Memory → ScopeId → Stack → Memory) (memory : Memory) {value : Value}
    (way : (memory.settleWith release (Stack.join segments)).passages =
      before ++ .returned value :: after) :
    after = [] ∧ value = .none ∧ ∃ between later, Passes σ segments before between ∧
      Answers σ .none between later ∧
      (memory.settleWith release (Stack.join segments)).stack = Stack.join later := by
  generalize stacked : Stack.join segments = stack at way ⊢
  induction memory, stack using Memory.settleWith.induct release generalizing segments before with
  | case1 memory =>
    rw [Memory.settleWith_nil] at way
    simp at way
  | case2 memory closure arguments rest scope larger entered ih =>
    obtain ⟨between, stacked', shape', first⟩ := shape.enter stacked scope
    rw [Memory.settleWith_entering, entered] at way ⊢
    cases before with
    | nil => cases way
    | cons passage before =>
      obtain ⟨rfl, others⟩ := List.cons.inj way
      obtain ⟨last, none_, next, later, passes, answers, ready⟩ := ih shape' stacked' others
      exact ⟨last, none_, next, later, first.append passes, answers, ready⟩
  | case3 memory activity rest node current =>
    rw [Memory.settleWith_statement current] at way
    simp at way
  | case4 memory activity rest sequel spent ih =>
    obtain ⟨between, stacked', shape', first⟩ := shape.drop stacked sequel
    rw [Memory.settleWith_nothing spent sequel] at way ⊢
    obtain ⟨last, none_, next, later, passes, answers, ready⟩ := ih shape' stacked' way
    exact ⟨last, none_, next, later, first.append passes, answers, ready⟩
  | case5 memory activity rest loop sequel spent =>
    rw [Memory.settleWith_recheck spent sequel] at way
    simp at way
  | case6 memory activity rest sequel spent delivered =>
    obtain ⟨later, stacked', -, answers⟩ := shape.return stacked sequel .none
    obtain ⟨caller, node, below, resumed, current⟩ := shape.return_waits stacked sequel .none
    -- the caller has its statement still to finish, so the way ends with the value delivered
    rw [Memory.settleWith_return spent sequel, resumed, Memory.settleWith_statement current] at way ⊢
    rw [resumed] at stacked'
    cases before with
    | nil =>
      obtain ⟨returned, last⟩ := List.cons.inj way
      cases returned
      exact ⟨last.symm, rfl, _, later, .done _, answers, stacked'.symm⟩
    | cons passage before => simp [Settled.after] at way

end Segment

end TabScript
