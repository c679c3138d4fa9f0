import Nacre.Api.SearchContract
import Nacre.Api.Documents
import Nacre.Ingest.InStep
import Nacre.Layers.System
import Nacre.Layers.Slots
import Nacre.Layers.Hold
import Nacre.Migration.System
import Nacre.Migration.Mirror
import Nacre.Migration.Sound
import Nacre.Migration.Copy
import Nacre.Migration.Carried
import Nacre.Migration.Reindex
import Nacre.Recall.Gate
import Nacre.Migration.Lease
import Nacre.Ingest.Attempts
import Nacre.Ingest.Source
import Nacre.Ingest.Resend
import Nacre.Objects.System
import Nacre.Objects.Versions
import Nacre.Collect.System
import Nacre.Ingest.Placed
import Nacre.Collect.Kept
import Nacre.Deletion.System
import Nacre.Deletion.Housed
import Nacre.Deletion.Cleared
import Nacre.Sessions.System
import Nacre.Sessions.Families
import Nacre.Sessions.Passwords
import Nacre.OAuth.Connections
import Nacre.Proposals.Decided
import Nacre.Lib.Json
import Nacre.Idempotency.System
import Nacre.Idempotency.Replay
import Nacre.Lib.Tickets
import Nacre.Limits.System
import Nacre.Limits.Windows
import Nacre.Lib.Worklist
import Nacre.Authz.Cached
import Nacre.Users.Admins
import Nacre.Factors.Totp
import Nacre.Factors.WebAuthn
import Nacre.Factors.System
import Nacre.Factors.Locks
import Nacre.Factors.Counters
import Nacre.Factors.Spent
import Nacre.Lib.Pace
import Nacre.Factors.Guesses
import Nacre.Api.Pagination
import Nacre.Lib.Keyset
import Nacre.Api.Listings
import Nacre.Api.Grants
import Nacre.Collections.System
import Nacre.Collections.Held
import Nacre.Collections.Kept
import Nacre.Delegations.Consent
import Nacre.Delegations.System
import Nacre.Delegations.Approved
import Nacre.Skills.Access
import Nacre.Skills.Versions
import Nacre.Recovery.System
import Nacre.Notify.Outbox
import Nacre.Recovery.Links
import Nacre.Notify.Claims
import Nacre.Notify.Once
import Nacre.Sdk.Client
import Nacre.Sdk.Renewal
import Nacre.Passwords.Gate
import Nacre.Lib.Find
import Nacre.Lib.Units
import Nacre.Skills.Format
import Nacre.Skills.Proposed
import Nacre.Chunks.Budget
import Nacre.Chunks.Windows
import Nacre.Chunks.Covered
import Nacre.Chunks.Advance
import Nacre.Chunks.Pairs
import Nacre.Webauthn.Reader
import Nacre.Webauthn.Trees
import Nacre.Webauthn.Canonical
import Nacre.Webauthn.Exact
import Nacre.Lib.Number
import Nacre.Lib.Buffer
import Nacre.Redis.Reply
import Nacre.Redis.Framed
import Nacre.Redis.Connection
import Nacre.Redis.Delivered
import Nacre.Redis.Progress
import Nacre.Lib.Ip
import Nacre.Egress.Literal
import Nacre.Egress.Address
import Nacre.Lib.Utf8
import Nacre.Lib.Endian
import Nacre.Skills.Zip
import Nacre.Skills.Unzipped
import Nacre.Skills.Exported
import Nacre.Skills.Identity
import Nacre.Skills.Frontmatter
import Nacre.Skills.Stored
import Nacre.Lib.Runs
import Nacre.Text.Bm25
import Nacre.Limits.Reset
import Nacre.Api.Cursors
import Nacre.Authz.GroupGraph
import Nacre.Factors.Base32
import Nacre.Store.StateJson
import Nacre.Api.AuditExport
import Nacre.Authz.MetadataInput
import Nacre.Api.Rerank
import Nacre.Embedding.Labels
import Nacre.Embedding.Worker
import Nacre.Embedding.Adapter
import Nacre.Lib.Scan
import Nacre.Objects.Xml
import Nacre.Objects.Listing
import Nacre.Api.Source
import Nacre.Lib.Gf256
import Nacre.Qr.Codewords
import Nacre.Qr.Symbol
import Nacre.Qr.Reading
import Nacre.Embedding.Batched
import Nacre.Embedding.Indexed
import Nacre.Qr.Stream
import Nacre.Qr.Pattern
import Nacre.Qr.Drawn
import Nacre.Lib.Quota
import Nacre.Schema.Migrate
import Nacre.Schema.Applied
import Nacre.Schema.History
import Nacre.Alerts.System
import Nacre.Alerts.Bounds
import Nacre.Multipart.Parse
import Nacre.Multipart.Framed
import Nacre.Multipart.Form
import Nacre.Rebuild.System
import Nacre.Rebuild.Restored
