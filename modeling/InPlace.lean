import InPlace.Browser.Lifecycle
import InPlace.Main
import InPlace.Proofs.Browser.Departures
import InPlace.Proofs.Editing.Cancelling
import InPlace.Proofs.Editing.Echoes
import InPlace.Proofs.Editing.ElementChanges
import InPlace.Proofs.Editing.Excisions
import InPlace.Proofs.Editing.Forests
import InPlace.Proofs.Editing.HoverMirror
import InPlace.Proofs.Editing.Lookups
import InPlace.Proofs.Editing.Marks
import InPlace.Proofs.Editing.Modes
import InPlace.Proofs.Editing.Offers
import InPlace.Proofs.Editing.Refusals
import InPlace.Proofs.Editing.Rollback
import InPlace.Proofs.Editing.Speech
import InPlace.Proofs.Editing.Trust
import InPlace.Proofs.Editing.Unheard
import InPlace.Proofs.Headless.Counting
import InPlace.Proofs.Messages.Commands
import InPlace.Proofs.Messages.Payloads
import InPlace.Proofs.Project.Moving
import InPlace.Proofs.Project.Enclosed
import InPlace.Proofs.Project.Settings
import InPlace.Proofs.Tagging.Coverage
import InPlace.Proofs.Tagging.Mapping
import InPlace.Proofs.Tagging.Pointing
import InPlace.Proofs.Tagging.Retagging
import InPlace.Proofs.Tagging.Splicing
import InPlace.Proofs.Text.IdentityForm
