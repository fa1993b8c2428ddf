import Gatehouse.Main
import Gatehouse.Rehearsal.Directory
import Gatehouse.Rehearsal.Front
import Gatehouse.Rehearsal.Hook
import Gatehouse.Rehearsal.Host
import Gatehouse.Rehearsal.Recorder
import Gatehouse.Rehearsal.User
import Gatehouse.Recording.LogPath
import Gatehouse.Relay.Channel
import Gatehouse.Crypto.Curve
import Gatehouse.Crypto.Hmac
import Gatehouse.Crypto.Sha1
import Gatehouse.Proofs.Access.Decision
import Gatehouse.Proofs.Bastion.Admission
import Gatehouse.Proofs.Relay.Exit
import Gatehouse.Proofs.Relay.Outcome
import Gatehouse.Proofs.Relay.VerdictWay
import Gatehouse.Proofs.Relay.Verdict
import Gatehouse.Proofs.Relay.DataWay
import Gatehouse.Proofs.Relay.Data
import Gatehouse.Proofs.Dial.Pin
import Gatehouse.Proofs.Bastion.RedeemedKey
import Gatehouse.Proofs.Bastion.Lifecycle
import Gatehouse.Proofs.Bastion.Audit
import Gatehouse.Proofs.Store.FreshId
import Gatehouse.Proofs.MessagePack.Evolution
import Gatehouse.Proofs.Dial.Order
import Gatehouse.Proofs.Relay.Deadlock
import Gatehouse.Proofs.Store.Journal
import Gatehouse.Proofs.Access.Counting
import Gatehouse.Proofs.Text.Base64
import Gatehouse.Proofs.Secret.Opening
import Gatehouse.Proofs.Dial.Sealed
import Gatehouse.Proofs.Access.Moments
import Gatehouse.Proofs.Access.Hook
import Gatehouse.Proofs.Relay.Calls
import Gatehouse.Proofs.Bastion.Isolation
import Gatehouse.Proofs.Bastion.Connections
import Gatehouse.Proofs.Secret.Canonical
import Gatehouse.Proofs.Dial.Address
import Gatehouse.Proofs.Recording.Replay
import Gatehouse.Proofs.Recording.Torn
import Gatehouse.Proofs.Store.Sweep
import Gatehouse.Proofs.Files.Path
import Gatehouse.Proofs.Recording.LogPath
import Gatehouse.Proofs.Relay.Extended
import Gatehouse.Proofs.Relay.Writer
import Gatehouse.Proofs.Json.ReadBack
import Gatehouse.Proofs.Json.Tree
import Gatehouse.Proofs.Dial.HookCalls
import Gatehouse.Proofs.Store.Matched
import Gatehouse.Proofs.Access.Shown
import Gatehouse.Proofs.Json.Members
import Gatehouse.Proofs.Config
import Gatehouse.Proofs.Key.Identity
import Gatehouse.Relay.Distribution
import Gatehouse.Proofs.Relay.Distribution
