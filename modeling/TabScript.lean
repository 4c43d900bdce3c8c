import TabScript.Main
import TabScript.Proofs.Reference.Manner
import TabScript.Proofs.Reference.Run
import TabScript.Proofs.Replay.Course
import TabScript.Proofs.Replay.Log
import TabScript.Proofs.Replay.Actions
import TabScript.Proofs.Replay.Statement
import TabScript.Proofs.Replay.Composed
import TabScript.Proofs.Replay.Order
import TabScript.Proofs.Stack.Passage
import TabScript.Proofs.Stack.Segment
import TabScript.Proofs.Stack.Shape
import TabScript.Proofs.Stack.Reached
import TabScript.Proofs.Hoard.Relocation
import TabScript.Proofs.Values.Keeps
import TabScript.Proofs.Hoard.Ledger
import TabScript.Proofs.Hoard.Arena
import TabScript.Proofs.Hoard.Alike
import TabScript.Proofs.Hoard.Marks
import TabScript.Proofs.Hoard.Reclaim
import TabScript.Proofs.Hoard.Hoard
import TabScript.Proofs.Hoard.Attempt
import TabScript.Proofs.Hoard.Lockstep
import TabScript.Proofs.Hoard.Births
import TabScript.Proofs.Hoard.Safety
import TabScript.Proofs.Reference.Planned
import TabScript.Proofs.Refinement.Rest
import TabScript.Proofs.Refinement.Fresh
import TabScript.Proofs.Refinement.Step
import TabScript.Proofs.Refinement.Run
import TabScript.Proofs.Printing.Reread
import TabScript.Proofs.Printing.Layout
import TabScript.Proofs.Printing.Printer
import TabScript.Proofs.Printing.Script
import TabScript.Proofs.Printing.Reads
import TabScript.Proofs.Grouping.Held
import TabScript.Proofs.Printing.Climbing
import TabScript.Proofs.Printing.RoundTrip
import TabScript.Proofs.Layout.Rows
import TabScript.Proofs.Layout.Logical
import TabScript.Proofs.Layout.Structure
import TabScript.Proofs.Checks.Tree
import TabScript.Proofs.Checks.Reading
import TabScript.Proofs.Checks.Parsed
import TabScript.Proofs.Frames.Arena
import TabScript.Proofs.Frames.Statement
import TabScript.Proofs.Frames.Standing
import TabScript.Proofs.Checks.Lawful
import TabScript.Proofs.Checks.Evaluated
import TabScript.Proofs.Checks.Run
import TabScript.Proofs.Frames.Picture
import TabScript.Proofs.Frames.Failure
import TabScript.Proofs.Frames.Lasting
import TabScript.Proofs.Frames.Callee
import TabScript.Proofs.Values.Bisimulation
import TabScript.Proofs.Limits.Untimed
import TabScript.Proofs.Limits.Rounds
import TabScript.Proofs.Limits.Drivers
import TabScript.Proofs.Limits.Boundary
import TabScript.Proofs.Limits.Foretold
import TabScript.Proofs.Spelling.Essential
import TabScript.Proofs.Spelling.Lexed
import TabScript.Proofs.Spelling.Tree
import TabScript.Proofs.Spelling.Takes
import TabScript.Proofs.Spelling.Expressions
import TabScript.Proofs.Spelling.Statements
import TabScript.Proofs.Spelling.Program
import TabScript.Proofs.Lossless.Places
import TabScript.Proofs.Lossless.Lexemes
import TabScript.Proofs.Lossless.Accounted
import TabScript.Proofs.Lossless.Tokens
import TabScript.Proofs.Names.Distinct
import TabScript.Proofs.Names.Shown
import TabScript.Proofs.Observers.Undisturbed
import TabScript.Proofs.Observers.Audience
import TabScript.Proofs.LifeCycle.Exchange
import TabScript.Proofs.LifeCycle.Session
import TabScript.Proofs.Collection.Exact
import TabScript.Proofs.Collection.Garbage
import TabScript.Proofs.Collection.Slots
import TabScript.Proofs.Pointing.Underlined
import TabScript.Proofs.Lossless.Literals
import TabScript.Proofs.Replay.Attempts
import TabScript.Proofs.Progress.Parsed
import TabScript.Proofs.Accounting.Executions
import TabScript.Proofs.Accounting.Owed
import TabScript.Proofs.Accounting.Steps
import TabScript.Proofs.Provenance.Values
import TabScript.Proofs.Provenance.Evaluated
import TabScript.Proofs.Provenance.Run
import TabScript.Proofs.Pointing.Lines
import TabScript.Proofs.Pointing.Tokens
import TabScript.Proofs.Pointing.Reading
import TabScript.Proofs.Pointing.Tree
import TabScript.Proofs.Pointing.Parsed
import TabScript.Proofs.Pointing.Blamed
import TabScript.Proofs.Pointing.Run
import TabScript.Proofs.Values.Edits
import TabScript.Proofs.Fillers.Drift
import TabScript.Proofs.Fillers.Ahead
import TabScript.Proofs.Fillers.Passing
import TabScript.Proofs.Fillers.Transparent
import TabScript.Proofs.Grouping.Powers
import TabScript.Proofs.Grouping.Climbed
import TabScript.Proofs.Grouping.Phrases
import TabScript.Proofs.Grouping.Suffixes
import TabScript.Proofs.Grouping.Accepted
import TabScript.Proofs.Numbers.Exact
import TabScript.Proofs.Values.Subscripts
import TabScript.Proofs.Values.Unfolding
import TabScript.Proofs.Nesting.Derivation
import TabScript.Proofs.Nesting.Taken
import TabScript.Proofs.Nesting.Parsed
import TabScript.Proofs.Nesting.Nested
import TabScript.Proofs.Culprits.Table
import TabScript.Proofs.Culprits.Stages
import TabScript.Proofs.Culprits.Traced
import TabScript.Proofs.Culprits.Run
import TabScript.Proofs.Values.Exchanged
import TabScript.Proofs.Values.Modulo
import TabScript.Proofs.Assigned.Agreeing
