import FluffyCore.Library.Compaction
import FluffyCore.Library.MapLoop
import FluffyCore.Library.Replacement
import FluffyCore.Library.QuotedText
import FluffyCore.CeFilter.Predicate
import FluffyCore.CeFilter.Lexer
import FluffyCore.CeFilter.Parser
import FluffyCore.CeFilter.TypeConstraint
import FluffyCore.CeFilter.IndexedFilterSet
import FluffyCore.Library.FirstVisits
import FluffyCore.Library.Reachability
import FluffyCore.Library.ExpiringCache
import FluffyCore.Library.ChangeLog
import FluffyCore.Library.LimitedScan
import FluffyCore.CeFilter.QueryScans
import FluffyCore.CeFilter.IndexRefinement
import FluffyCore.MongoStore.FilterStore
import FluffyCore.MongoStore.FilterCdc
import FluffyCore.MongoStore.CdcPosition
import FluffyCore.MongoStore.Bookkeeping
import FluffyCore.MongoStore.CdcConvergence
import FluffyCore.Status
import FluffyCore.Auth.ClaimsPrincipal
import FluffyCore.Auth.Mtls
import FluffyCore.Auth.JwtInterceptor
import FluffyCore.Auth.ReferenceToken
import FluffyCore.Auth.RequestRuns
import FluffyCore.Auth.ReservedClaims
import FluffyCore.Auth.CacheHistory
import FluffyCore.Auth.CacheExpiry
import FluffyCore.Auth.CachedResolutions
import FluffyCore.Nats.Headers
import FluffyCore.Nats.SubjectTokens
import FluffyCore.Nats.Substitution
import FluffyCore.Nats.RouteParams
import FluffyCore.Nats.RouteTokens
import FluffyCore.Nats.RoutableRequests
import FluffyCore.Nats.RouteAlignment
import FluffyCore.Nats.RequestRoundTrip
import FluffyCore.Nats.GeneratedSubjects
import FluffyCore.Library.SwapRemoval
import FluffyCore.Library.BooleanFormula
import FluffyCore.Library.LastWrites
import FluffyCore.Library.ValidityWindows
import FluffyCore.Library.TimedHistory
import FluffyCore.Library.Interleaving
import FluffyCore.Auth.ClaimSet
import FluffyCore.Auth.ClaimsAst
import FluffyCore.Auth.AuthorizationGate
import FluffyCore.Auth.JwksRefresh
import FluffyCore.CeFilter.FilterSet
import FluffyCore.CeFilter.Interchange
import FluffyCore.CeFilter.Grammar
import FluffyCore.Library.Results
import FluffyCore.CeFilter.ParserCorrectness
import FluffyCore.CeFilter.Printing
import FluffyCore.CeFilter.PrintedFilters
import FluffyCore.JwtMinter.KeyMaterial
import FluffyCore.JwtMinter.Minting
import FluffyCore.JwtMinter.KeyMaterialValidator
import FluffyCore.ServerTls.ReloadingCertificate
import FluffyCore.ServerTls.ReloadConsistency
import FluffyCore.Environ.EnvironmentService
import FluffyCore.Environ.CacheCoherence
import FluffyCore.Environ.Quiescence
import FluffyCore.Library.ByteStrings
import FluffyCore.Migrate.MongoUri
import FluffyCore.Library.SignedWords
import FluffyCore.Library.DecimalText
import FluffyCore.Migrate.Commands
import FluffyCore.Migrate.StepDirection
import FluffyCore.Certgen.Bundle
import FluffyCore.Certgen.CaValidity
import FluffyCore.Library.Splitting
import FluffyCore.CeFilter.Glob
import FluffyCore.CeFilter.QueryPaths
import FluffyCore.Library.Slices
import FluffyCore.CeFilter.ConstraintLists
import FluffyCore.Library.Placeholders
import FluffyCore.Utils.Templates
import FluffyCore.Utils.Redact
import FluffyCore.Utils.RedactedCopies
import FluffyCore.Library.MapHeap
import FluffyCore.Utils.ReplaceMergeMap
import FluffyCore.Utils.DeepMerge
import FluffyCore.Utils.MergedTrees
import FluffyCore.Library.BlockPadding
import FluffyCore.Library.HexText
import FluffyCore.KeyEncryption.Pkcs8enc
import FluffyCore.KeyEncryption.LegacyPem
import FluffyCore.KeyEncryption.RoundTrips
import FluffyCore.Cache.MemoryCache
import FluffyCore.Cache.SingleFill
import FluffyCore.Cache.GetOrInsert
import FluffyCore.Library.Programs
import FluffyCore.Library.Traversals
import FluffyCore.Library.Mutexes
import FluffyCore.Library.Ledgers
import FluffyCore.Di.Descriptors
import FluffyCore.Di.CallSiteFactory
import FluffyCore.Di.Unfolding
import FluffyCore.Di.Construction
import FluffyCore.Di.RequestHistories
import FluffyCore.Di.Resolver
import FluffyCore.Di.ResolverSteps
import FluffyCore.Di.ResolverStacks
import FluffyCore.Di.Deadlocks
import FluffyCore.Di.CallSiteKeys
import FluffyCore.Di.Lifetimes
import FluffyCore.Di.Disposals
import FluffyCore.Di.Validator
import FluffyCore.GrpcStatus
import FluffyCore.Library.Histories
import FluffyCore.Nats.Calls
import FluffyCore.Nats.Tracing
import FluffyCore.Sessions.MongoSessions
import FluffyCore.Sessions.SessionHistories
