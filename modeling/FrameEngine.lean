import FrameEngine.Asset.Database
import FrameEngine.Asset.Error
import FrameEngine.Asset.FileTree
import FrameEngine.Asset.Id
import FrameEngine.Asset.Path
import FrameEngine.Cubemap.Data
import FrameEngine.Cubemap.Mips
import FrameEngine.Engine.Context
import FrameEngine.Engine.Cubemaps
import FrameEngine.Engine.Materials
import FrameEngine.Engine.Services
import FrameEngine.Frame.Graph
import FrameEngine.Frame.Pass
import FrameEngine.Frame.Standard
import FrameEngine.Graph.Barriers
import FrameEngine.Graph.Error
import FrameEngine.Graph.Images
import FrameEngine.Graph.Passes
import FrameEngine.Graph.Search
import FrameEngine.Graph.Usage
import FrameEngine.Image.Checksum
import FrameEngine.Image.File
import FrameEngine.Image.Samples
import FrameEngine.Indexing
import FrameEngine.Inspector.Options
import FrameEngine.Inspector.Report
import FrameEngine.Jobs.Error
import FrameEngine.Jobs.List
import FrameEngine.Jobs.Pool
import FrameEngine.Jobs.Script
import FrameEngine.Jobs.System
import FrameEngine.Journal
import FrameEngine.Json.Number
import FrameEngine.Json.Reader
import FrameEngine.Json.Text
import FrameEngine.Json.Value
import FrameEngine.Main
import FrameEngine.Material.Document
import FrameEngine.Material.Packed
import FrameEngine.Slots.Book
import FrameEngine.Slots.Error
import FrameEngine.Slots.Loading
import FrameEngine.Slots.Scripted
import FrameEngine.Slots.Table
import FrameEngine.Slots.Threads
import FrameEngine.Text.Hex
import FrameEngine.Text.Invisible
import FrameEngine.Text.Quoted
import FrameEngine.Texture.Data
import FrameEngine.Texture.Format
import FrameEngine.Texture.Uploader
import FrameEngine.Total
import FrameEngine.Proofs.Asset.Contents
import FrameEngine.Proofs.Asset.Registry
import FrameEngine.Proofs.Asset.Separators
import FrameEngine.Proofs.Cubemap.Assembly
import FrameEngine.Proofs.Cubemap.Mips
import FrameEngine.Proofs.Cubemap.Ranges
import FrameEngine.Proofs.Engine.Calls
import FrameEngine.Proofs.Engine.Faces
import FrameEngine.Proofs.Engine.Formats
import FrameEngine.Proofs.Engine.Growth
import FrameEngine.Proofs.Engine.Images
import FrameEngine.Proofs.Engine.Maps
import FrameEngine.Proofs.Engine.Rewriting
import FrameEngine.Proofs.Engine.Softness
import FrameEngine.Proofs.Engine.Use
import FrameEngine.Proofs.Frame.Calls
import FrameEngine.Proofs.Frame.Drawing
import FrameEngine.Proofs.Frame.MaterialDraws
import FrameEngine.Proofs.Frame.Rebuild
import FrameEngine.Proofs.Frame.Recording
import FrameEngine.Proofs.Frame.Replay
import FrameEngine.Proofs.Frame.Setup
import FrameEngine.Proofs.Graph.BarrierSources
import FrameEngine.Proofs.Graph.Conflicts
import FrameEngine.Proofs.Graph.Discovery
import FrameEngine.Proofs.Graph.ImageStates
import FrameEngine.Proofs.Graph.InsertionOrder
import FrameEngine.Proofs.Graph.PassIds
import FrameEngine.Proofs.Graph.Relations
import FrameEngine.Proofs.Graph.ReportedCycle
import FrameEngine.Proofs.Graph.ScheduleBarriers
import FrameEngine.Proofs.Graph.SearchInvariant
import FrameEngine.Proofs.Graph.SearchSteps
import FrameEngine.Proofs.Graph.SolveOutcome
import FrameEngine.Proofs.Graph.SolvedOrder
import FrameEngine.Proofs.Graph.TieBreak
import FrameEngine.Proofs.Graph.TopologicalOrder
import FrameEngine.Proofs.Graph.ValidOrders
import FrameEngine.Proofs.Inspector.Arguments
import FrameEngine.Proofs.Jobs.Batches
import FrameEngine.Proofs.Jobs.Crews
import FrameEngine.Proofs.Jobs.Desk
import FrameEngine.Proofs.Jobs.Exchanges
import FrameEngine.Proofs.Jobs.FrameEnd
import FrameEngine.Proofs.Jobs.Moves
import FrameEngine.Proofs.Jobs.OneClient
import FrameEngine.Proofs.Jobs.Ownership
import FrameEngine.Proofs.Jobs.Phases
import FrameEngine.Proofs.Jobs.Pooling
import FrameEngine.Proofs.Jobs.Runs
import FrameEngine.Proofs.Jobs.Shutdown
import FrameEngine.Proofs.Jobs.Sweeps
import FrameEngine.Proofs.Jobs.Wakefulness
import FrameEngine.Proofs.Material.Members
import FrameEngine.Proofs.Positions
import FrameEngine.Proofs.Slots.Agreement
import FrameEngine.Proofs.Slots.Attendance
import FrameEngine.Proofs.Slots.Blindness
import FrameEngine.Proofs.Slots.Book
import FrameEngine.Proofs.Slots.Coherence
import FrameEngine.Proofs.Slots.Conservation
import FrameEngine.Proofs.Slots.Consistency
import FrameEngine.Proofs.Slots.Deadlock
import FrameEngine.Proofs.Slots.Eviction
import FrameEngine.Proofs.Slots.Fallback
import FrameEngine.Proofs.Slots.Growth
import FrameEngine.Proofs.Slots.Logging
import FrameEngine.Proofs.Slots.Mirrors
import FrameEngine.Proofs.Slots.Outcomes
import FrameEngine.Proofs.Slots.Protocol
import FrameEngine.Proofs.Slots.Ranks
import FrameEngine.Proofs.Slots.Refusals
import FrameEngine.Proofs.Slots.Serving
import FrameEngine.Proofs.Slots.Sessions
import FrameEngine.Proofs.Slots.Stability
import FrameEngine.Proofs.Slots.StandIns
import FrameEngine.Proofs.Slots.Threads
import FrameEngine.Proofs.Slots.Turns
import FrameEngine.Proofs.Slots.Waiting
import FrameEngine.Proofs.Texture.LevelSizes
import FrameEngine.Proofs.Texture.Uploads
