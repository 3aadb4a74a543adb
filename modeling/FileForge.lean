import FileForge.Api.ClassIndependence
import FileForge.Csv.Columns
import FileForge.Files.Retention
import FileForge.Files.SafeNames
import FileForge.Files.SignedDownload
import FileForge.Jobs.OutcomeDelivery
import FileForge.Jobs.Watchers
import FileForge.Storage.PathConfinement
import FileForge.Foundation.FileWrites
import FileForge.Storage.Atomicity
import FileForge.Files.Upload
import FileForge.Files.UploadAtomicity
import FileForge.Jobs.StreamLifecycle
import FileForge.Jobs.StreamListeners
import FileForge.Api.Allowance
import FileForge.Api.ForwardedFor
import FileForge.Jobs.Routes
import FileForge.Jobs.JobReads
import FileForge.Foundation.EventSource
import FileForge.Foundation.JsonText
import FileForge.Jobs.EventWire
import FileForge.Jobs.ProgressOrder
import FileForge.Foundation.WebUrl
import FileForge.Csv.OutputKeys
import FileForge.Files.Links
import FileForge.Csv.EmptyValues
import FileForge.Csv.Accounting
import FileForge.Csv.Headerless
import FileForge.Csv.Selection
import FileForge.Csv.Agreement
import FileForge.Jobs.Sweep
import FileForge.Foundation.Interruption
import FileForge.Foundation.StreamChain
import FileForge.Jobs.JobOptions
import FileForge.Jobs.Processors
import FileForge.Jobs.Attempts
import FileForge.Jobs.StreamFailures
import FileForge.Jobs.PassingTrouble
import FileForge.Jobs.HopelessJobs
import FileForge.Foundation.JsonReader
import FileForge.Files.StoredRecords
import FileForge.Files.MimeTypes
import FileForge.Jobs.KeyLayout
import FileForge.Jobs.FailureObservers
import FileForge.Jobs.HighWater
import FileForge.Api.WindowExpiry
import FileForge.Jobs.SnapshotOrder
import FileForge.Frontend.App
import FileForge.Jobs.Products
import FileForge.Foundation.Footprint
import FileForge.Jobs.Footprint
import FileForge.Foundation.JsonTrip
import FileForge.Foundation.Interleaving
import FileForge.Foundation.RelyGuarantee
import FileForge.Api.Answers
import FileForge.Jobs.Submission
import FileForge.Frontend.Api
import FileForge.Frontend.OperationPicker
import FileForge.Files.UploadReads
import FileForge.Frontend.ResultCard
import FileForge.Frontend.Delivery
import FileForge.Api.AllowanceHeaders
import FileForge.Foundation.Exposition
import FileForge.Api.Metrics
import FileForge.Foundation.Draining
import FileForge.Api.Shutdown
import FileForge.Jobs.Shutdown
import FileForge.Frontend.Uploading
import FileForge.Frontend.DropZone
import FileForge.Api.Configuration
import FileForge.Foundation.BlobStore
import FileForge.Storage.Refinement
import FileForge.Frontend.Linking
import FileForge.Foundation.Separation
import FileForge.Jobs.Concurrency
