import LayeredMachines.Document.Config
import LayeredMachines.Document.Frames
import LayeredMachines.Document.History
import LayeredMachines.Document.Library
import LayeredMachines.Engine.Blueprint
import LayeredMachines.Timer.Worker
import LayeredMachines.Proofs.Engine.Compaction
import LayeredMachines.Proofs.Engine.Delivery
import LayeredMachines.Proofs.Engine.Survival
import LayeredMachines.Proofs.Pass.Isolation
import LayeredMachines.Proofs.Engine.Isolation
import LayeredMachines.Proofs.Machine.Validity
import LayeredMachines.Proofs.Layer.Lookups
import LayeredMachines.Proofs.Pass.Layers
import LayeredMachines.Proofs.Engine.Layers
import LayeredMachines.Proofs.Engine.Targets
import LayeredMachines.Proofs.Timer.Queue
import LayeredMachines.Proofs.Timer.Ledger
import LayeredMachines.Proofs.Timer.Steps
import LayeredMachines.Proofs.Timer.Conservation
import LayeredMachines.Proofs.Timer.Workers
import LayeredMachines.Proofs.History.Retention
import LayeredMachines.Proofs.Layer.Errands
import LayeredMachines.Proofs.Pass.Spelling
import LayeredMachines.Proofs.Engine.Spelling
import LayeredMachines.Proofs.Layer.Executions
import LayeredMachines.Proofs.Pass.Detached
import LayeredMachines.Proofs.Engine.Detached
import LayeredMachines.Proofs.Frames.Binding
import LayeredMachines.Proofs.Pass.Starts
import LayeredMachines.Proofs.Engine.Starts
import LayeredMachines.Proofs.Engine.Order
import LayeredMachines.Proofs.Engine.OneWay
import LayeredMachines.Proofs.Engine.Renaming
import LayeredMachines.Proofs.Engine.Broadcast
import LayeredMachines.Proofs.Library.Validation
import LayeredMachines.Proofs.Document.Shapes
import LayeredMachines.Proofs.Layer.Limit
import LayeredMachines.Proofs.Layer.Selection
import LayeredMachines.Proofs.Layer.Farewell
import LayeredMachines.Proofs.Timer.Stability
import LayeredMachines.Proofs.Engine.Counting
import LayeredMachines.Proofs.Axion.Expansion
import LayeredMachines.Proofs.Axion.Rendering
import LayeredMachines.Proofs.Frames.Operations
import LayeredMachines.Proofs.Frames.Scopes
import LayeredMachines.Proofs.Text.Decimal
import LayeredMachines.Proofs.Frames.Adjustments
import LayeredMachines.Proofs.Instant.Calendar
import LayeredMachines.Proofs.History.Limit
import LayeredMachines.Proofs.Instant.Timestamps
import LayeredMachines.Proofs.Document.RoundTrip
import LayeredMachines.Proofs.Engine.Readers
import LayeredMachines.Proofs.Engine.Absence
import LayeredMachines.Proofs.Document.Frames
