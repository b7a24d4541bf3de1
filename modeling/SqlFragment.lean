import SqlFragment.Json.Reading
import SqlFragment.Proofs.Dialect.Clamping
import SqlFragment.Proofs.Dialect.Quoting
import SqlFragment.Proofs.Expr.Enclosure
import SqlFragment.Proofs.Grammar.Displayed
import SqlFragment.Proofs.Grammar.Membership
import SqlFragment.Proofs.Grammar.Paths
import SqlFragment.Proofs.Grammar.Shape
import SqlFragment.Proofs.Grammar.Totality
import SqlFragment.Proofs.Grouping.Ambiguity
import SqlFragment.Proofs.Resolver.Errors
import SqlFragment.Proofs.Resolver.ForeignKeys
import SqlFragment.Proofs.Resolver.Nesting
import SqlFragment.Proofs.Resolver.Soundness
import SqlFragment.Proofs.Schema.Assembly
import SqlFragment.Proofs.Schema.Suffixes
import SqlFragment.Proofs.Statement.Binding
import SqlFragment.Proofs.Statement.Comments
import SqlFragment.Proofs.Statement.Failure
import SqlFragment.Proofs.Statement.ListOperands
import SqlFragment.Proofs.Statement.Portability
import SqlFragment.Proofs.Statement.References
import SqlFragment.Proofs.Time.Parts
import SqlFragment.Proofs.Time.Seconds
import SqlFragment.Schema.Declaration
import SqlFragment.Schema.Outline
import SqlFragment.Statement.Basic
import SqlFragment.Statement.Session
