import Plantkeeper.Lib.Run
import Plantkeeper.Lib.Table
import Plantkeeper.Lib.Columns
import Plantkeeper.Lib.Keyed
import Plantkeeper.Lib.Samples
import Plantkeeper.Domain.Time
import Plantkeeper.Domain.Identifiers
import Plantkeeper.Domain.Text
import Plantkeeper.Domain.Care
import Plantkeeper.Domain.Notification
import Plantkeeper.Domain.Plant
import Plantkeeper.Domain.Species
import Plantkeeper.Domain.Journal
import Plantkeeper.Domain.Garden
import Plantkeeper.Domain.Household
import Plantkeeper.Domain.Telemetry
import Plantkeeper.Care.MissedCare
import Plantkeeper.Care.Invariant
import Plantkeeper.Care.MissedOnce
import Plantkeeper.Care.Escalation
import Plantkeeper.Care.NoFalseMiss
import Plantkeeper.Concurrency.Transactions
import Plantkeeper.Concurrency.NoLostUpdate
import Plantkeeper.Persistence.UnitOfWork
import Plantkeeper.Garden.Commands
import Plantkeeper.Garden.Removed
import Plantkeeper.Garden.Watering
import Plantkeeper.Telemetry.Transactions
import Plantkeeper.Telemetry.Silence
import Plantkeeper.Idempotency.Create
import Plantkeeper.Idempotency.Once
import Plantkeeper.Garden.AddPlant
import Plantkeeper.Garden.Cap
import Plantkeeper.Garden.SameKey
import Plantkeeper.Delivery.Consumers
import Plantkeeper.Delivery.HandledOnce
import Plantkeeper.Outbox.Relay
import Plantkeeper.Outbox.NoLoss
import Plantkeeper.Outbox.Order
import Plantkeeper.Outbox.Lease
import Plantkeeper.Saga.Storage
import Plantkeeper.Saga.Trigger
import Plantkeeper.Saga.NoLostTrigger
import Plantkeeper.Saga.Parked
import Plantkeeper.Saga.Engine
import Plantkeeper.Saga.Transaction
import Plantkeeper.Saga.Onboard
import Plantkeeper.Saga.SpeciesSync
import Plantkeeper.Saga.Restored
import Plantkeeper.Saga.OneTransaction
import Plantkeeper.Saga.Retry
import Plantkeeper.Intents.Dispatch
import Plantkeeper.Intents.Invariant
import Plantkeeper.Intents.ExactlyOnce
import Plantkeeper.Intents.Withdraw
import Plantkeeper.Intents.Final
import Plantkeeper.Intents.Reexecute
import Plantkeeper.Journal.Store
import Plantkeeper.Journal.Snapshots
import Plantkeeper.Journal.Writers
import Plantkeeper.Journal.InStep
import Plantkeeper.Notifications.Stream
import Plantkeeper.Notifications.Cursor
import Plantkeeper.Notifications.Consumer
import Plantkeeper.Notifications.References
import Plantkeeper.Notifications.Rebuilt
import Plantkeeper.Notifications.OneUnread
import Plantkeeper.ReadModel.Telemetry
import Plantkeeper.ReadModel.Rollups
import Plantkeeper.ReadModel.SensorLatest
import Plantkeeper.ReadModel.Tables
import Plantkeeper.ReadModel.CareSchedules
import Plantkeeper.ReadModel.Catalogue
import Plantkeeper.ReadModel.PlantRows
import Plantkeeper.ReadModel.Rebuild
import Plantkeeper.ReadModel.Confluence
import Plantkeeper.Telemetry.IngestOnce
import Plantkeeper.External.MissingDetails
import Plantkeeper.Catalog.NeverBack
import Plantkeeper.Notifications.RightPump
import Plantkeeper.External.OneTrial
import Plantkeeper.External.Wedged
import Plantkeeper.Journal.AddEntry
import Plantkeeper.Telemetry.Window
import Plantkeeper.Telemetry.Announced
import Plantkeeper.Telemetry.Names
import Plantkeeper.Care.AdaptiveWatering
import Plantkeeper.Messaging.Replay
import Plantkeeper.Domain.Iso
import Plantkeeper.Messaging.Publisher
import Plantkeeper.Notifications.Resumed
import Plantkeeper.Notifications.LongPoll
import Plantkeeper.Messaging.Conversations
import Plantkeeper.Delivery.Replayed
import Plantkeeper.Journal.Timeline
import Plantkeeper.ReadModel.Listings
import Plantkeeper.Outbox.Drained
import Plantkeeper.Catalog.Synced
import Plantkeeper.Intents.Drained
import Plantkeeper.ReadModel.Measured
