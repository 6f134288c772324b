import PgCrypto.Base.Outcome
import PgCrypto.Base.Str
import PgCrypto.Base.ByteIndex
import PgCrypto.Base.Utf8
import PgCrypto.Base.Utf8Check
import PgCrypto.Base.LineEnds
import PgCrypto.Base.Base64
import PgCrypto.Base.Cycle
import PgCrypto.Cipher.Block
import PgCrypto.Cipher.Modes
import PgCrypto.Cipher.Padding
import PgCrypto.Cipher.Chaining
import PgCrypto.Mac.Construction
import PgCrypto.Raw.Cipher
import PgCrypto.Raw.TypeNames
import PgCrypto.Raw.Inverse
import PgCrypto.Raw.Keys
import PgCrypto.Raw.Failure
import PgCrypto.Raw.Streaming
import PgCrypto.Hash.Digest
import PgCrypto.Hash.Hmac
import PgCrypto.Random.Bytes
import PgCrypto.Modern.Envelope
import PgCrypto.Modern.Framing
import PgCrypto.Modern.Aead
import PgCrypto.Modern.Derive
import PgCrypto.Armor.Header
import PgCrypto.Armor.Model
import PgCrypto.Armor.Reference
import PgCrypto.Armor.RoundTrip
import PgCrypto.Armor.Lines
import PgCrypto.Pgp.Options
import PgCrypto.Pgp.Settings
import PgCrypto.Pgp.Meaning
import PgCrypto.Pgp.DecryptMeaning
import PgCrypto.Pgp.Crlf
import PgCrypto.Pgp.Sequoia
import PgCrypto.Pgp.Transcript
import PgCrypto.Pgp.Symmetric
import PgCrypto.Pgp.Safety
import PgCrypto.Pgp.PublicKey
import PgCrypto.Pgp.KeyId
import PgCrypto.Pgp.Availability
import PgCrypto.Pgp.RoundTrip
import PgCrypto.Pgp.Families
import PgCrypto.Pgp.Armored
import PgCrypto.Password.Crypt
import PgCrypto.Password.Setting
import PgCrypto.Password.Salts
import PgCrypto.Password.Rounds
import PgCrypto.Extension.Calls
import PgCrypto.Extension.Safety
import PgCrypto.Extension.Delivery
