import MailRules.Main
import MailRules.Proofs.Sorting
import MailRules.Proofs.Condition.Meaning
import MailRules.Proofs.Diff.Filters
import MailRules.Proofs.Condition.Simplify
import MailRules.Proofs.Condition.OfNode
import MailRules.Proofs.Condition.Split
import MailRules.Proofs.Compile
import MailRules.Proofs.Config.Checked
import MailRules.Proofs.Account.Entry
import MailRules.Proofs.Account.Requests
import MailRules.Proofs.Account.Work
import MailRules.Proofs.Account.Apply
import MailRules.Proofs.Account.Exchange
import MailRules.Proofs.Account.Interrupted
import MailRules.Proofs.Diff.Labels
import MailRules.Proofs.Account.Contents
import MailRules.Proofs.Account.Relabeled
import MailRules.Proofs.Account.Completed
import MailRules.Proofs.Account.Convergence
import MailRules.Proofs.Account.Stale
import MailRules.Proofs.Account.Removal
import MailRules.Proofs.Condition.Ranked
import MailRules.Proofs.Condition.Normal
import MailRules.Proofs.Condition.Rounds
import MailRules.Proofs.Condition.Leaves
import MailRules.Proofs.Condition.FixedPoint
import MailRules.Proofs.Condition.Text
import MailRules.Proofs.Condition.Distinct
import MailRules.Proofs.Condition.Search
import MailRules.Proofs.Condition.Expressible
import MailRules.Proofs.Condition.Pieces
import MailRules.Proofs.Condition.Gathered
import MailRules.Proofs.Condition.Rendered
import MailRules.Proofs.Config.Describe
import MailRules.Proofs.Compile.Faults
import MailRules.Proofs.Account.Reexported
import MailRules.Proofs.Account.Storable
import MailRules.Proofs.Account.Partial
import MailRules.Proofs.Config.Download
import MailRules.Proofs.Config.Document
import MailRules.Proofs.Text.Quoted
import MailRules.Proofs.Filter.Content
import MailRules.Proofs.Condition.Grammar
import MailRules.Proofs.Condition.Reordered
import MailRules.Proofs.Config.Strict
import MailRules.Proofs.Condition.Partition
import MailRules.Proofs.Text.Brackets
import MailRules.Proofs.Text.Lines
import MailRules.Proofs.Filter.LayoutScan
import MailRules.Proofs.Filter.Layout
import MailRules.Proofs.Compile.Bracketed
import MailRules.Proofs.Sequence.Matching
import MailRules.Proofs.Sequence.Unified
import MailRules.Proofs.Filter.ReviewLines
import MailRules.Proofs.Filter.Review
import MailRules.Proofs.Diff.Visible
import MailRules.Proofs.Condition.Conserved
import MailRules.Proofs.Account.Hierarchy
import MailRules.Proofs.Diff.LinedUp
import MailRules.Proofs.Condition.Terms
