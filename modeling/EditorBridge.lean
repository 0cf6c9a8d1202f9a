import EditorBridge.Cancellation.Scripted
import EditorBridge.Editor.Named
import EditorBridge.Event.Scripted
import EditorBridge.Main
import EditorBridge.Proofs.Act
import EditorBridge.Proofs.Alternation
import EditorBridge.Proofs.Client.Service
import EditorBridge.Proofs.Editor.Deeds
import EditorBridge.Proofs.Editor.Firing
import EditorBridge.Proofs.Editor.InOrder
import EditorBridge.Proofs.Editor.Lifecycle
import EditorBridge.Proofs.Editor.Operations
import EditorBridge.Proofs.Editor.Shelf
import EditorBridge.Proofs.Edits
import EditorBridge.Proofs.Extension.AllOrNothing
import EditorBridge.Proofs.Faithful
import EditorBridge.Proofs.Fidelity
import EditorBridge.Proofs.Foreign
import EditorBridge.Proofs.Formatting
import EditorBridge.Proofs.Handlers
import EditorBridge.Proofs.Handshake.Conversation
import EditorBridge.Proofs.Link.Ear
import EditorBridge.Proofs.Link.Frames
import EditorBridge.Proofs.Link.Plain
import EditorBridge.Proofs.Link.Quiet
import EditorBridge.Proofs.Link.Sending
import EditorBridge.Proofs.Mirror
import EditorBridge.Proofs.OpenBeforeUse
import EditorBridge.Proofs.Params
import EditorBridge.Proofs.Places
import EditorBridge.Proofs.Queries
import EditorBridge.Proofs.Rpc.Cancelling
import EditorBridge.Proofs.Rpc.Correlation
import EditorBridge.Proofs.Rpc.Stream
import EditorBridge.Proofs.Server.Activation
import EditorBridge.Proofs.Server.Greeting
import EditorBridge.Proofs.Server.Moves
import EditorBridge.Proofs.Server.Runs
import EditorBridge.Proofs.Server.Sound
import EditorBridge.Proofs.Server.Starting
import EditorBridge.Proofs.Server.Stopping
import EditorBridge.Proofs.Server.Turns
import EditorBridge.Proofs.Steps
import EditorBridge.Proofs.Told
import EditorBridge.Proofs.Uri.Identity
import EditorBridge.Schema.Specimen
import EditorBridge.Proofs.Schema.Reading
import EditorBridge.Proofs.Schema.Forms
import EditorBridge.Proofs.Config.Loading
import EditorBridge.Proofs.Config.Shown
import EditorBridge.Proofs.Session.Course
import EditorBridge.Proofs.Editor.Offsets
import EditorBridge.Proofs.Uri.Paths
import EditorBridge.Proofs.Handshake.Stranded
import EditorBridge.Proofs.Editor.Replacing
import EditorBridge.Proofs.Schema.Again
import EditorBridge.Proofs.Schema.Holding
import EditorBridge.Proofs.Schema.Checking
import EditorBridge.Proofs.Script.Grammar
import EditorBridge.Proofs.Config.Usable
import EditorBridge.Proofs.Event.Course
import EditorBridge.Proofs.Cancellation
import EditorBridge.Proofs.Removers
import EditorBridge.Proofs.Merging
import EditorBridge.Proofs.Link.ErrorStream
import EditorBridge.Proofs.Tracking
import EditorBridge.Proofs.Escaping
