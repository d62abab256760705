import Epistl.Runs.Machine
import Epistl.Text.Base64
import Epistl.Crypto.Symbolic
import Epistl.Crypto.WireFormat
import Epistl.Ratchet.FailClosed
import Epistl.Inbox.Convergence
import Epistl.Inbox.Replay
import Epistl.Inbox.Burst
import Epistl.Inbox.SingleUse
import Epistl.Relay.Acknowledged
import Epistl.Relay.Post
import Epistl.Relay.Fifo
import Epistl.Relay.Once
import Epistl.Relay.Displaced
import Epistl.Inbox.Genuine
import Epistl.Inbox.Unheard
import Epistl.Inbox.InOrder
import Epistl.Inbox.Whole
import Epistl.Relay.Deliverable
import Epistl.Transport.Leaks
import Epistl.Duplex.Agreement
import Epistl.Inbox.Binding
import Epistl.Shared.Linearizable
import Epistl.Contacts.Resolved
import Epistl.Contacts.Mutual
import Epistl.Chat.Attribution
import Epistl.Worktree.Databases
import Epistl.Offline.Delivery
import Epistl.Shared.Untouched
import Epistl.Deletion.Wiped
import Epistl.Inbox.Signatures
import Epistl.Crypto.LowOrder
import Epistl.Offline.Inbound
import Epistl.Users.Search
import Epistl.Users.Settled
import Epistl.Sessions.Index
import Epistl.Sessions.Saved
import Epistl.Identity.Mixed
import Epistl.Chat.Shown
import Epistl.Text.Rfc3629
import Epistl.Messages.SearchText
import Epistl.Messages.Conversations
import Epistl.Runs.FixedWindow
import Epistl.Users.RateLimit
import Epistl.Messages.LastMessage
import Epistl.Ratchet.WellFormed
import Epistl.Sql.Databases
import Epistl.Worktree.Url
import Epistl.Avatars.Uploads
import Epistl.Avatars.Visible
import Epistl.Worktree.Isolation
import Epistl.DevSetup.Docker
import Epistl.DevSetup.Java
import Epistl.DevSetup.Profile
import Epistl.DevSetup.ProfileBlock
import Epistl.Quic.Framing
import Epistl.Quic.Exact
import Epistl.Secrecy.Healing
import Epistl.Secrecy.Delivered
import Epistl.Keys.Stale
import Epistl.Deployment.Linked
import Epistl.Deployment.Stored
