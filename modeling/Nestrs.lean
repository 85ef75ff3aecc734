import Nestrs.Lib.Kleene
import Nestrs.Orm.Condition
import Nestrs.Authz.Predicate
import Nestrs.Authz.Ability
import Nestrs.Core.Access
import Nestrs.Core.Container
import Nestrs.Core.Fixpoint
import Nestrs.Core.FixpointOrder
import Nestrs.Core.Module
import Nestrs.Core.App
import Nestrs.Core.Reorder
import Nestrs.Core.RegisterPhase
import Nestrs.Core.SomeOrder
import Nestrs.Core.ImportOrder
import Nestrs.Core.OptionalOrder
import Nestrs.Orm.Service
import Nestrs.Orm.Table
import Nestrs.Http.Pipeline
import Nestrs.Orm.DbContext
import Nestrs.Crud.Http
import Nestrs.Crud.Graphql
import Nestrs.Crud.Writes
import Nestrs.Crud.Reads
import Nestrs.Graphql.Mutation
import Nestrs.Graphql.Roots
import Nestrs.Lib.Keyset
import Nestrs.Lib.Numeral
import Nestrs.Lib.Timetable
import Nestrs.Orm.Page
import Nestrs.Crud.Masking
import Nestrs.Crud.Shape
import Nestrs.Crud.Bind
import Nestrs.Throttler.Guard
import Nestrs.Core.BuilderCalls
import Nestrs.Core.Lifecycle
import Nestrs.Core.Run
import Nestrs.Ws.Registry
import Nestrs.Ws.Connection
import Nestrs.Resource.Expose
import Nestrs.Authz.RuleOrder
import Nestrs.Resource.Active
import Nestrs.Resource.Validate
import Nestrs.Events.Bus
import Nestrs.Http.Layers
import Nestrs.Ws.Messages
import Nestrs.Core.Overrides
import Nestrs.Core.Stall
import Nestrs.Http.Filters
import Nestrs.Throttler.RetryAfter
import Nestrs.Throttler.Windows
import Nestrs.Resource.Pagination
import Nestrs.Lib.HeaderText
import Nestrs.ServerTiming.Format
import Nestrs.Telemetry.AccessLog
import Nestrs.Lib.Segments
import Nestrs.Lib.Entries
import Nestrs.Http.Paths
import Nestrs.Openapi.Document
import Nestrs.Schedule.CronJob
import Nestrs.Schedule.Scheduler
import Nestrs.Auth.Jwt
import Nestrs.Auth.Strategy
import Nestrs.Auth.Server
import Nestrs.Lib.Batch
import Nestrs.Api.Entities
import Nestrs.Api.Loaders
import Nestrs.Api.Server
import Nestrs.Api.Changes
import Nestrs.Api.Requests
import Nestrs.Api.Tenants
import Nestrs.Api.Consistent
import Nestrs.Api.Listing
import Nestrs.Chat.Room
import Nestrs.Chat.History
import Nestrs.Lib.Onion
import Nestrs.Http.Transport
