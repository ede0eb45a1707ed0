import Dispatch.Text.Blank
import Dispatch.Text.Quoted
import Dispatch.Decimal.Layout
import Dispatch.Ty.Registry
import Dispatch.Value.Printer
import Dispatch.Operation.Operator
import Dispatch.Operation.CallShape
import Dispatch.Fragment.Evaluate
import Dispatch.Fragment.Printer
import Dispatch.Fragment.Shared
import Dispatch.Guard.Printer
import Dispatch.Rule
import Dispatch.Operation.Basic
import Dispatch.Binding.Complaint
import Dispatch.Binding.Signature
import Dispatch.Binding.Shaping
import Dispatch.Binding.Verdict
import Dispatch.Dispatcher.Listing
import Dispatch.Engine.Lemmas
import Dispatch.Proofs.Agreement
import Dispatch.Proofs.Course
import Dispatch.Proofs.Shape
import Dispatch.Proofs.Replay
import Dispatch.Proofs.View
import Dispatch.Proofs.Verdict
import Dispatch.Proofs.Bookkeeping
import Dispatch.Proofs.Transparency
import Dispatch.Proofs.Writing
import Dispatch.Proofs.Calling
import Dispatch.Proofs.OncePerShape
import Dispatch.Proofs.Snapshot
import Dispatch.Proofs.Reentrancy
import Dispatch.Proofs.Fallback
import Dispatch.Proofs.TypedReplay
import Dispatch.Proofs.Journal
import Dispatch.Proofs.Deferral
import Dispatch.Proofs.Noninterference
import Dispatch.Proofs.Linkage
import Dispatch.Proofs.Session
import Dispatch.Proofs.Unshared
import Dispatch.Proofs.CallResult
import Dispatch.Proofs.EmptyResult
import Dispatch.Proofs.Reading
import Dispatch.Proofs.OperandCount
import Dispatch.Proofs.Redirect
import Dispatch.Proofs.MemberCall
import Dispatch.Proofs.Mentions
import Dispatch.Proofs.Conjunction
import Dispatch.Proofs.Knowledge
import Dispatch.Proofs.Equality
import Dispatch.Proofs.Registration
import Dispatch.Proofs.Counts
import Dispatch.Proofs.Variants
import Dispatch.Proofs.Accounts
import Dispatch.Proofs.Dealings
import Dispatch.Proofs.Exactness
import Dispatch.Proofs.Stripping
import Dispatch.Proofs.Configuration
import Dispatch.Proofs.Labels
