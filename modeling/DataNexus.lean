import DataNexus.Control.RunTransitions
import DataNexus.Control.StoredRunCodec
import DataNexus.Control.Dispatch
import DataNexus.Runtime.PlanExecutable
import DataNexus.Runtime.CoordinatorOutcome
import DataNexus.Runtime.RunClaim
import DataNexus.Semantic.Validate
import DataNexus.Semantic.Algebra
import DataNexus.Semantic.Constraints
import DataNexus.Databricks.ExpressionText
import DataNexus.Databricks.RowLimit
import DataNexus.Runtime.MemoryAccounting
import DataNexus.Runtime.EventStream
import DataNexus.Runtime.PlanOrder
import DataNexus.Databricks.ChunkCollection
import DataNexus.Semantic.Governance
import DataNexus.Runtime.ResultIsolation
import DataNexus.Databricks.ProviderCancel
import DataNexus.Plugins.SpuriousCancel
import DataNexus.Lib.Roster
import DataNexus.Control.RunDispatchCoordinator
import DataNexus.Backend.ServiceAuthentication
import DataNexus.Web.RunSnapshots
import DataNexus.Lib.Chronicle
import DataNexus.Web.CreateAttempts
import DataNexus.Control.Repositories
import DataNexus.Control.RepositoryTransactions
import DataNexus.Control.RunCommits
import DataNexus.Control.WorkspaceIsolation
import DataNexus.Control.RepositoryAgreement
import DataNexus.Control.IdentityAccess
import DataNexus.Control.RevocationFence
import DataNexus.Runtime.ResultPages
import DataNexus.Runtime.ConceptBindings
import DataNexus.Runtime.PlanAcceptance
import DataNexus.Runtime.QueryText
import DataNexus.Runtime.Imputation
import DataNexus.Evals.PlanSoundness
import DataNexus.Backend.DecimalCells
import DataNexus.Semantic.TimeMentions
import DataNexus.Semantic.MemberMentions
import DataNexus.Plugins.ScannedTables
import DataNexus.Web.StoredRuns
import DataNexus.Runtime.TopologicalOrder
import DataNexus.Evals.SwappedLists
import DataNexus.Control.BackendStatuses
import DataNexus.Runtime.DecimalDigits
import DataNexus.SemanticCore.ReadFields
import DataNexus.SemanticCore.Shape
