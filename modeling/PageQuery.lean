import PageQuery.Schema.Catalog
import PageQuery.Service
import PageQuery.Sqlite
import PageQuery.Proofs.Mirror
import PageQuery.Proofs.Complement
import PageQuery.Proofs.Dropped
import PageQuery.Proofs.JoinLabels
import PageQuery.Proofs.Interplay
import PageQuery.Proofs.Idioms
import PageQuery.Proofs.ToOne
import PageQuery.Proofs.Unknown
import PageQuery.Proofs.Grouped
import PageQuery.Proofs.OptionalLists
import PageQuery.Proofs.PerIdentity
import PageQuery.Proofs.DistinctRows
import PageQuery.Proofs.SortKeys
import PageQuery.Proofs.PathsDecide
import PageQuery.Proofs.TypedOperands
import PageQuery.Proofs.SameText
import PageQuery.Proofs.WellFormed
import PageQuery.Proofs.Described
import PageQuery.Proofs.Dangling
import PageQuery.Proofs.Serving
import PageQuery.Proofs.Capped
import PageQuery.Proofs.Alternatives
import PageQuery.Proofs.OrderingChecks
import PageQuery.Proofs.Shorthand
import PageQuery.Proofs.Patterns
import PageQuery.Proofs.Paging
import PageQuery.Proofs.OutputNames
import PageQuery.Proofs.WholeOperands
import PageQuery.Proofs.ResolutionOrder
import PageQuery.Proofs.PathLanguage
import PageQuery.Proofs.Accounted
import PageQuery.Proofs.Candidates
import PageQuery.Proofs.JsonFilters
import PageQuery.Proofs.Wrapping
import PageQuery.Proofs.MadeCriteria
import PageQuery.Proofs.RequestSteps
import PageQuery.Proofs.SettingGrammar
import PageQuery.Proofs.Declarations
