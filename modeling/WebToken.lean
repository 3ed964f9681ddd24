import WebToken.Claims.Builder
import WebToken.Claims.Reading
import WebToken.Claims.Validation
import WebToken.Config
import WebToken.Envelope
import WebToken.Jwt
import WebToken.Key.Description
import WebToken.Key.Thumbprint
import WebToken.LogSettings
import WebToken.Token.Text
import WebToken.Proofs.Numbers
import WebToken.Proofs.Json.Literals
import WebToken.Proofs.Json.Numerals
import WebToken.Proofs.Json.WellFormed
import WebToken.Proofs.Json.RoundTrip
import WebToken.Proofs.ContentCipher
import WebToken.Proofs.Decryption
import WebToken.Proofs.Json.Records
import WebToken.Proofs.TokenParts
import WebToken.Proofs.Verification
import WebToken.Proofs.CompactText
import WebToken.Proofs.Reachable
import WebToken.Proofs.JsonForms
import WebToken.Proofs.RoundTrip
import WebToken.Proofs.Rsa
import WebToken.Proofs.Decimal.Rounding
import WebToken.Proofs.Decimal.Shortest
import WebToken.Proofs.Json.Doubles
import WebToken.Proofs.Json.Reread
import WebToken.Proofs.Signing
import WebToken.Proofs.Encryption
import WebToken.Proofs.CanonicalText
import WebToken.Proofs.Restriction
import WebToken.Proofs.Tampering
import WebToken.Proofs.KeyedHash
import WebToken.Proofs.Jwt
import WebToken.Proofs.JwtRoundTrip
import WebToken.Proofs.EnvelopeRoundTrip
import WebToken.Proofs.Key.Document
import WebToken.Proofs.Key.Import
import WebToken.Proofs.Key.RoundTrip
import WebToken.Proofs.Key.Thumbprint
import WebToken.Proofs.KeyTransport
import WebToken.Proofs.Validation
import WebToken.Proofs.BuiltClaims
import WebToken.Proofs.UnprotectedHeaders
import WebToken.Proofs.GeneralForm
import WebToken.Proofs.Key.Text
import WebToken.Proofs.Unreadable
import WebToken.Proofs.InRange
import WebToken.Proofs.TokenShape
import WebToken.Proofs.Secrecy
import WebToken.Proofs.Configuration
import WebToken.Proofs.Json.FiniteDoubles
import WebToken.Proofs.ClaimsHistory
import WebToken.Proofs.AuthenticatedString
import WebToken.Proofs.SegmentFaults
