import PolicySeal.Base64
import PolicySeal.Binding.Service
import PolicySeal.Binding.Signing
import PolicySeal.Binding.Verdict
import PolicySeal.Bytes
import PolicySeal.Certificate
import PolicySeal.Certificate.Info
import PolicySeal.Command.Arguments
import PolicySeal.Command.Plan
import PolicySeal.Command.Run
import PolicySeal.Config.Binding
import PolicySeal.Config.Environment
import PolicySeal.Config.Trust
import PolicySeal.Decimal.Double
import PolicySeal.Decimal.Shortest
import PolicySeal.Der.Element
import PolicySeal.Der.Oid
import PolicySeal.Der.Primitive
import PolicySeal.Digest.Hmac
import PolicySeal.Digest.Padding
import PolicySeal.Digest.Sha1
import PolicySeal.Digest.Sha2
import PolicySeal.Fault
import PolicySeal.Files.Answer
import PolicySeal.Files.Tree
import PolicySeal.Issuing.Hierarchy
import PolicySeal.Issuing.Request
import PolicySeal.Json.Draft
import PolicySeal.Json.Number
import PolicySeal.Json.Printer
import PolicySeal.Json.Shape
import PolicySeal.Json.Token
import PolicySeal.Json.Value
import PolicySeal.Main
import PolicySeal.Path
import PolicySeal.Pem
import PolicySeal.Policy.Canonical
import PolicySeal.Policy.Document
import PolicySeal.Policy.Edit
import PolicySeal.Policy.Label
import PolicySeal.Rsa.Generation
import PolicySeal.Rsa.Key
import PolicySeal.Rsa.KeyText
import PolicySeal.Rsa.Signature
import PolicySeal.Scheme
import PolicySeal.Secret
import PolicySeal.Text.Blank
import PolicySeal.Text.Printable
import PolicySeal.Text.Quoted
import PolicySeal.Time.Calendar
import PolicySeal.Time.Instant
import PolicySeal.Time.Written
import PolicySeal.Trust.Chain
import PolicySeal.Trust.Paths
import PolicySeal.Trust.Store
import PolicySeal.Trust.Work
import PolicySeal.X509.AttributeType
import PolicySeal.X509.Document
import PolicySeal.X509.KeyInfo
import PolicySeal.X509.Name
import PolicySeal.X509.NameText
import PolicySeal.Proofs.Json.Members
import PolicySeal.Proofs.Json.Tree
import PolicySeal.Proofs.Decimal.Shortest
import PolicySeal.Proofs.Json.Numeral
import PolicySeal.Proofs.Json.NumberText
import PolicySeal.Proofs.Json.Spelling
import PolicySeal.Proofs.Json.RoundTrip
import PolicySeal.Proofs.Policy.Canonical
import PolicySeal.Proofs.Json.Shape
import PolicySeal.Proofs.Policy.Overlay
import PolicySeal.Proofs.Policy.Fields
import PolicySeal.Proofs.Policy.Received
import PolicySeal.Proofs.Policy.Accepted
import PolicySeal.Proofs.Base64
import PolicySeal.Proofs.Binding.Signing
import PolicySeal.Proofs.Policy.Made
import PolicySeal.Proofs.Policy.Transport
import PolicySeal.Proofs.Policy.Agreement
import PolicySeal.Proofs.Json.Paths
import PolicySeal.Proofs.Policy.Extensions
import PolicySeal.Proofs.Policy.Frame
import PolicySeal.Proofs.Trust.Work
import PolicySeal.Proofs.Binding.Evidence
import PolicySeal.Proofs.Trust.Chain
import PolicySeal.Proofs.Trust.Loads
import PolicySeal.Proofs.Trust.Tolerance
import PolicySeal.Proofs.Binding.Staleness
import PolicySeal.Proofs.Text.Blank
import PolicySeal.Proofs.Base64.Unique
import PolicySeal.Proofs.Config.Environment
import PolicySeal.Proofs.Binding.Unchecked
import PolicySeal.Proofs.Bytes
import PolicySeal.Proofs.Rsa.Signature
import PolicySeal.Proofs.Binding.Separation
import PolicySeal.Proofs.Binding.Batch
import PolicySeal.Proofs.Binding.Identity
import PolicySeal.Proofs.Binding.Keyed
import PolicySeal.Proofs.Binding.Alike
import PolicySeal.Proofs.Trust.Answers
import PolicySeal.Proofs.Binding.Inline
import PolicySeal.Proofs.Policy.Entries
import PolicySeal.Proofs.Json.Same
import PolicySeal.Proofs.Policy.Same
import PolicySeal.Proofs.Decimal.Rounding
import PolicySeal.Proofs.Json.NumberRead
import PolicySeal.Proofs.Policy.FixedPoint
import PolicySeal.Proofs.Command.Verify
import PolicySeal.Proofs.Time.Calendar
import PolicySeal.Proofs.Time.Written
import PolicySeal.Proofs.Der.Element
import PolicySeal.Proofs.Der.Primitive
import PolicySeal.Proofs.Der.Timestamp
import PolicySeal.Proofs.X509.Name
import PolicySeal.Proofs.X509.Document
import PolicySeal.Proofs.Pem
import PolicySeal.Proofs.Certificate
import PolicySeal.Proofs.Issuing.Request
import PolicySeal.Proofs.Issuing.Hierarchy
import PolicySeal.Proofs.Trust.Consistency
import PolicySeal.Proofs.Binding.Consistency
import PolicySeal.Proofs.Binding.Untouched
import PolicySeal.Proofs.Binding.WellFormed
import PolicySeal.Proofs.Binding.Chained
import PolicySeal.Proofs.Binding.Listing
import PolicySeal.Proofs.Issuing.Dates
import PolicySeal.Proofs.Der.Exact
import PolicySeal.Proofs.X509.Exact
import PolicySeal.Proofs.Certificate.Reencoding
import PolicySeal.Proofs.Json.Record
import PolicySeal.Proofs.Binding.Audit
import PolicySeal.Proofs.Text.Letters
import PolicySeal.Proofs.Path
import PolicySeal.Proofs.Trust.Paths
import PolicySeal.Proofs.Config.Spacing
import PolicySeal.Proofs.Issuing.Bundle
