import ActorHub.Session
import ActorHub.Value.Pvt
import ActorHub.Proofs.Text.Names
import ActorHub.Proofs.Token.Escape
import ActorHub.Proofs.Token.Lexer
import ActorHub.Proofs.Clause.Grammar
import ActorHub.Proofs.Key.Transport
import ActorHub.Proofs.Line.Command
import ActorHub.Proofs.Message.Alike
import ActorHub.Proofs.Line.Equality
import ActorHub.Proofs.Clause.Derivation
import ActorHub.Proofs.Jobs.Move
import ActorHub.Proofs.Jobs.History
import ActorHub.Proofs.Jobs.Final
import ActorHub.Proofs.ValueShape.Segments
import ActorHub.Proofs.Model.Replies
import ActorHub.Proofs.Jobs.Delivery
import ActorHub.Proofs.Jobs.Observers
import ActorHub.Proofs.Jobs.Rest
import ActorHub.Proofs.Session.Tracking
import ActorHub.Proofs.Token.Slices
import ActorHub.Proofs.Token.Layout
import ActorHub.Proofs.Dictionary.Calls
import ActorHub.Proofs.Jobs.Feed
import ActorHub.Proofs.Jobs.Stream
import ActorHub.Proofs.Lookup
import ActorHub.Proofs.Jobs.Effects
import ActorHub.Proofs.Jobs.Children
import ActorHub.Proofs.Jobs.Schedule
import ActorHub.Proofs.Jobs.Timers
import ActorHub.Proofs.Model.Routing
import ActorHub.Proofs.Model.Requests
import ActorHub.Proofs.Line.Split
import ActorHub.Proofs.Dictionary.Registry
import ActorHub.Proofs.Session.Commander
import ActorHub.Proofs.Model.Commuting
import ActorHub.Proofs.Session.Commuting
import ActorHub.Proofs.Message.Shape
import ActorHub.Proofs.Jobs.Lines
import ActorHub.Proofs.Jobs.Cancel
import ActorHub.Proofs.Clause.ReplyBody
import ActorHub.Proofs.Number.Literal
import ActorHub.Proofs.Jobs.Operations
import ActorHub.Proofs.Line.Raw
import ActorHub.Proofs.Number.Spelling
import ActorHub.Proofs.ValueShape.Retyping
import ActorHub.Proofs.ValueType.Labels
import ActorHub.Proofs.ValueType.Fields
import ActorHub.Proofs.Text.Split
import ActorHub.Proofs.Text.Wrap
import ActorHub.Proofs.Format.Grammar
import ActorHub.Proofs.Format.Integers
import ActorHub.Proofs.Dictionary.References
import ActorHub.Proofs.Parser.Loops
import ActorHub.Proofs.Parser.Bounds
import ActorHub.Proofs.Parser.Shift
import ActorHub.Proofs.Files.Glob
import ActorHub.Proofs.Dictionary.Listing
import ActorHub.Proofs.Model.Reloading
import ActorHub.Proofs.Token.Closing
import ActorHub.Proofs.BitField.Digits
import ActorHub.Proofs.Text.Description
import ActorHub.Proofs.ValueType.Renderings
