import PegMachine.Matcher.SignedOffset
import PegMachine.Program
import PegMachine.Proofs.Adequacy
import PegMachine.Proofs.Anchoring
import PegMachine.Proofs.Bookkeeping
import PegMachine.Proofs.Census
import PegMachine.Proofs.Checked
import PegMachine.Proofs.Choices
import PegMachine.Proofs.Coherence
import PegMachine.Proofs.Composites
import PegMachine.Proofs.Correspondence
import PegMachine.Proofs.Derivations
import PegMachine.Proofs.Diagnostics
import PegMachine.Proofs.Divergence
import PegMachine.Proofs.Endings
import PegMachine.Proofs.Evaluation
import PegMachine.Proofs.Expressions
import PegMachine.Proofs.Framing
import PegMachine.Proofs.Furthest
import PegMachine.Proofs.Histories
import PegMachine.Proofs.InFlight
import PegMachine.Proofs.Layout
import PegMachine.Proofs.LeftRecursion
import PegMachine.Proofs.Lifetimes
import PegMachine.Proofs.Locations
import PegMachine.Proofs.Lockstep
import PegMachine.Proofs.Meanings
import PegMachine.Proofs.Moves
import PegMachine.Proofs.Narration
import PegMachine.Proofs.Origins
import PegMachine.Proofs.Outcomes
import PegMachine.Proofs.Paths
import PegMachine.Proofs.Prefixing
import PegMachine.Proofs.Quotations
import PegMachine.Proofs.Reachability
import PegMachine.Proofs.Refactoring
import PegMachine.Proofs.References
import PegMachine.Proofs.Refusal
import PegMachine.Proofs.Reports
import PegMachine.Proofs.Rewriting
import PegMachine.Proofs.RightRecursion
import PegMachine.Proofs.Runs
import PegMachine.Proofs.Sessions
import PegMachine.Proofs.Shadowing
import PegMachine.Proofs.StackShape
import PegMachine.Proofs.Stages
import PegMachine.Proofs.Tiling
import PegMachine.Proofs.Transition
import PegMachine.Proofs.Underway
import PegMachine.Proofs.Visits
import PegMachine.Proofs.Walks
import PegMachine.Proofs.WrittenForms
import PegMachine.Regex.Backtracking
