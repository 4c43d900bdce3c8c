import TabScript.Proofs.Frames.Callee
import TabScript.Proofs.Stack.Kept

/-! Executions of statements, and what the steps of a run report of them.

A statement that calls functions of the program is reported once before each of its calls returns and once when
it is done. What is reported in between belongs to the body of the call that it waits for. -/

set_option autoImplicit false

namespace TabScript

/-- A statement of a body, or of a block in it however deep. The body of a function that is defined there is
no part of it. -/
inductive Node.Within (body : List Node) : Node → Prop where
  | here {node : Node} (inside : node ∈ body) : Within body node
  | deeper {outer node : Node} {block : Block} (around : Within body outer) (part : block ∈ outer.blocks)
    (inside : node ∈ block.statements) : Within body node

/-- What can be seen of a step that ran a statement: what it reports, how many statements it counted, and the
call that it left the statement at. -/
structure Report where
  info : StepInfo
  counted : Nat
  asked : Option Call

mutual

/-- One execution of a statement, with the calls that it made one after the other. -/
inductive Execution where
  | of (statement : Node) (visits : List Visit)

inductive Visit where
  | of (call : Call) (course : List Execution)

end

mutual

def Execution.reports : Execution → List Report
  | .of statement visits => Visit.reports statement 1 visits

/-- What is reported of a statement from here on, if so many more statements are counted for it. Before each call
there is one report of the statement, and one at the end. All of them are the same, but what is counted is
counted with the first. -/
def Visit.reports (statement : Node) (due : Nat) : List Visit → List Report
  | [] => [⟨⟨statement.tag, statement.span⟩, due, none⟩]
  | .of call course :: visits =>
    ⟨⟨statement.tag, statement.span⟩, due, some call⟩ ::
      (Execution.course course ++ Visit.reports statement 0 visits)

def Execution.course : List Execution → List Report
  | [] => []
  | first :: others => first.reports ++ Execution.course others

end

mutual

def Execution.Of (body : List Node) : Execution → Prop
  | .of statement visits => statement.Within body ∧ Visit.AreProper visits

def Visit.AreProper : List Visit → Prop
  | [] => True
  | .of call course :: visits => Execution.AreOf call.closure.body course ∧ Visit.AreProper visits

def Execution.AreOf (body : List Node) : List Execution → Prop
  | [] => True
  | first :: others => first.Of body ∧ Execution.AreOf body others

end

mutual

def Execution.size : Execution → Nat
  | .of _ visits => Visit.size visits + 1

def Visit.size : List Visit → Nat
  | [] => 0
  | .of _ course :: visits => Execution.sizes course + Visit.size visits

def Execution.sizes : List Execution → Nat
  | [] => 0
  | first :: others => first.size + Execution.sizes others

end

mutual

def Execution.calls : Execution → Nat
  | .of _ visits => Visit.calls visits

def Visit.calls : List Visit → Nat
  | [] => 0
  | .of _ course :: visits => Execution.callsOf course + Visit.calls visits + 1

def Execution.callsOf : List Execution → Nat
  | [] => 0
  | first :: others => first.calls + Execution.callsOf others

end

def Report.counts : List Report → Nat
  | [] => 0
  | first :: others => first.counted + Report.counts others

theorem Report.counts_append (first second : List Report) :
    Report.counts (first ++ second) = Report.counts first + Report.counts second := by
  induction first with
  | nil => exact (Nat.zero_add _).symm
  | cons report others ih => rw [List.cons_append, Report.counts, ih, Report.counts, Nat.add_assoc]

/-- So many statements are counted in these reports, so many calls are asked for, and so many reports there
are. -/
structure Report.Tally (reports : List Report) (counted asked total : Nat) : Prop where
  counted_eq : Report.counts reports = counted
  asked_eq : (reports.countP fun report => report.asked.isSome) = asked
  length_eq : reports.length = total

namespace Report.Tally

variable {first second : List Report} {counted asked total more further longer : Nat}

theorem nil : Tally [] 0 0 0 := ⟨rfl, rfl, rfl⟩

theorem append (start : Tally first counted asked total) (rest : Tally second more further longer) :
    Tally (first ++ second) (counted + more) (asked + further) (total + longer) where
  counted_eq := by rw [counts_append, start.counted_eq, rest.counted_eq]
  asked_eq := by rw [List.countP_append, start.asked_eq, rest.asked_eq]
  length_eq := by rw [List.length_append, start.length_eq, rest.length_eq]

theorem cons (info : StepInfo) (due : Nat) (call : Option Call) (rest : Tally second more further longer) :
    Tally (⟨info, due, call⟩ :: second) (due + more) (further + if call.isSome then 1 else 0)
      (longer + 1) where
  counted_eq := by rw [counts, rest.counted_eq]
  asked_eq := by rw [List.countP_cons, rest.asked_eq]
  length_eq := by rw [List.length_cons, rest.length_eq]

end Report.Tally

mutual

theorem Execution.tally_reports : ∀ execution : Execution,
    Report.Tally execution.reports execution.size execution.calls (execution.size + execution.calls)
  | .of statement visits => by
    have tally := Visit.tally_reports statement 1 visits
    rw [Execution.reports, Execution.size, Execution.calls, Nat.add_right_comm]
    rwa [Nat.add_comm 1] at tally

theorem Visit.tally_reports (statement : Node) : ∀ (due : Nat) (visits : List Visit),
    Report.Tally (Visit.reports statement due visits) (due + Visit.size visits) (Visit.calls visits)
      (Visit.size visits + Visit.calls visits + 1)
  | due, [] => by
    rw [Visit.reports, Visit.size, Visit.calls]
    exact .cons _ due none .nil
  | due, .of call course :: visits => by
    have inner := Execution.tally_course course
    have onward := Visit.tally_reports statement 0 visits
    have whole := (inner.append onward).cons ⟨statement.tag, statement.span⟩ due (some call)
    rw [Visit.reports, Visit.size, Visit.calls]
    refine ⟨whole.counted_eq.trans ?_, whole.asked_eq.trans ?_, whole.length_eq.trans ?_⟩
    · omega
    · rw [Option.isSome_some, if_pos rfl]
    · omega

theorem Execution.tally_course : ∀ course : List Execution,
    Report.Tally (Execution.course course) (Execution.sizes course) (Execution.callsOf course)
      (Execution.sizes course + Execution.callsOf course)
  | [] => by
    rw [Execution.course, Execution.sizes, Execution.callsOf]
    exact .nil
  | first :: others => by
    have whole := (Execution.tally_reports first).append (Execution.tally_course others)
    rw [Execution.course, Execution.sizes, Execution.callsOf]
    rwa [Nat.add_add_add_comm] at whole

end

end TabScript
