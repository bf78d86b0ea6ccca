import Ostrich.Acme.Equiv.Account
import Ostrich.Acme.Equiv.Authorization
import Ostrich.Acme.Equiv.Dns01
import Ostrich.Acme.Equiv.Finalize
import Ostrich.Acme.Equiv.Grammar
import Ostrich.Acme.Equiv.Issuance
import Ostrich.Acme.Equiv.Jws
import Ostrich.Acme.Equiv.Names
import Ostrich.Acme.Equiv.Nonce
import Ostrich.Acme.Equiv.Retry
import Ostrich.Acme.Equiv.San
import Ostrich.Acme.Equiv.Status
import Ostrich.Acme.Equiv.Validation
import Ostrich.Audit.Equiv.Signed
import Ostrich.Audit.Equiv.Timestamp
import Ostrich.Ca.Equiv.Approval
import Ostrich.Ca.Equiv.AutoIssue
import Ostrich.Ca.Equiv.CrlNumber
import Ostrich.Ca.Equiv.Decisions
import Ostrich.Ca.Equiv.DeltaCrl
import Ostrich.Ca.Equiv.Trail
import Ostrich.Ca.Equiv.WeakKey
import Ostrich.Common.Equiv.Activity
import Ostrich.Common.Equiv.AuditRateLimiter
import Ostrich.Common.Equiv.DnSpacing
import Ostrich.Common.Equiv.Episodes
import Ostrich.Common.Equiv.Lock
import Ostrich.Common.Equiv.Lockout
import Ostrich.Common.Equiv.Password
import Ostrich.Common.Equiv.Pem
import Ostrich.Common.Equiv.Permanent
import Ostrich.Common.Equiv.Provider
import Ostrich.Common.Equiv.ProxyPath
import Ostrich.Common.Equiv.SessionCap
import Ostrich.Common.Equiv.SessionStore
import Ostrich.Common.Equiv.TrustedTime
import Ostrich.Common.SessionCap
import Ostrich.Crypto.Equiv.Drbg
import Ostrich.Crypto.Equiv.Health
import Ostrich.Crypto.Equiv.Personalization
import Ostrich.Est.Equiv.Budget
import Ostrich.Est.Equiv.Identity
import Ostrich.Est.Equiv.Label
import Ostrich.Est.Equiv.Profiles
import Ostrich.Kra.Equiv.Malformed
import Ostrich.Kra.Equiv.Progress
import Ostrich.Kra.Equiv.Quorum
import Ostrich.Kra.Equiv.Recoverable
import Ostrich.Kra.Equiv.Shamir
import Ostrich.Lib.Alone
import Ostrich.Lib.EditList
import Ostrich.Lib.NetText
import Ostrich.Lib.Sha256
import Ostrich.Notify.Equiv.Expiry
import Ostrich.Notify.Equiv.Notices
import Ostrich.Notify.Producer
import Ostrich.Notify.Scheduler
import Ostrich.Ocsp.Equiv.Bounded
import Ostrich.Ocsp.Equiv.CertId
import Ostrich.Ocsp.Equiv.Nonce
import Ostrich.Ocsp.Equiv.Serial
import Ostrich.Ocsp.Equiv.Stale
import Ostrich.Ocsp.Equiv.Tlv
import Ostrich.Scms.Equiv.Lifecycle
import Ostrich.Scms.Equiv.Pin
import Ostrich.Tamp.Cms
import Ostrich.Tamp.Equiv.Anchors
import Ostrich.Tamp.Equiv.Apex
import Ostrich.Tamp.Equiv.Cms
import Ostrich.Tamp.Equiv.Counters
import Ostrich.Tamp.Equiv.Edits
import Ostrich.Tamp.Equiv.Envelope
import Ostrich.Tamp.Equiv.Manager
import Ostrich.Tamp.Equiv.Order
import Ostrich.Tamp.Equiv.Replay
import Ostrich.Tamp.Equiv.Repository
import Ostrich.Tamp.Instance
import Ostrich.Tamp.Manager
import Ostrich.Tamp.Repository
import Ostrich.WebUi.Equiv.Session
import Ostrich.X509.Equiv.Certificate
import Ostrich.X509.Equiv.DnString
import Ostrich.X509.Equiv.MissingAttributes
import Ostrich.X509.Equiv.NameChaining
import Ostrich.X509.Equiv.Normalize
import Ostrich.X509.Equiv.RequestedNames
import Ostrich.X509.SubjectKey
