import Parley.Main
import Parley.Catalogue
import Parley.Disk.Tree
import Parley.Proofs.Engine.Pausing
import Parley.Proofs.Session.Lifecycle
import Parley.Proofs.Session.WellFormed
import Parley.Proofs.Session.Checkpoint
import Parley.Proofs.Save.Folder
import Parley.Proofs.Autosave.Sharing
import Parley.Proofs.Session.Delivery
import Parley.Proofs.Session.Refusal
import Parley.Proofs.Session.Seed
import Parley.Proofs.Session.Announced
import Parley.Proofs.Action.Record
import Parley.Proofs.Program.Loading
import Parley.Proofs.State.Json
import Parley.Proofs.Engine.Limit
import Parley.Proofs.Session.Position
import Parley.Proofs.Number.Rounding
import Parley.Proofs.Session.Readers
import Parley.Proofs.Number.Shortest
import Parley.Proofs.Json.Literal
import Parley.Proofs.Save.Reread
import Parley.Proofs.Session.Savable
import Parley.Proofs.Program.Labels
import Parley.Proofs.Engine.Unreached
import Parley.Proofs.Session.Aborting
import Parley.Proofs.Session.Forward
import Parley.Proofs.Save.Book
import Parley.Proofs.Action.Spelling
import Parley.Proofs.Save.Directory
import Parley.Proofs.Scope.Changes
import Parley.Proofs.Session.Unlocked
import Parley.Proofs.Session.OnScreen
import Parley.Proofs.Terminal.View
import Parley.Proofs.Condition.Laws
import Parley.Proofs.Host.Policy
import Parley.Proofs.Catalogue.Loading
import Parley.Proofs.Number.Distinct
import Parley.Proofs.Text.Order
import Parley.Proofs.Json.Unambiguous
import Parley.Proofs.Save.Canonical
import Parley.Proofs.Terminal.Choice
import Parley.Proofs.Scope.Mutation
