import PgCrypto.Base.Str

/-! # The option strings of the OpenPGP functions

Both parsers walk the trimmed, non-empty comma-separated items of the option
string. The encryption parser sets one field per item and relates two of them
after its loop; the decryption parser only reads the CRLF flag.
-/
namespace PgCrypto.Pgp
open Str

inductive SymmetricAlgorithm where
  | tripleDES
  | cast5
  | blowfish
  | aes128
  | aes192
  | aes256
  | other (id : UInt8)
  deriving DecidableEq, Repr

inductive CompressionAlgorithm where
  | uncompressed
  | zip
  | zlib
  | other (id : UInt8)
  deriving DecidableEq, Repr

inductive HashAlgorithm where
  | md5
  | sha1
  | other (id : UInt8)
  deriving DecidableEq, Repr

/-- The encryption options, each with its default. -/
structure PgpOptions where
  cipher : SymmetricAlgorithm := .aes128
  compression : CompressionAlgorithm := .uncompressed
  compressionLevel : UInt8 := 6
  textInput : Bool := false
  unicodeMode : Bool := false
  convertCrlf : Bool := false
  s2kMode : UInt8 := 3
  s2kCount : Option UInt32 := none
  s2kDigest : HashAlgorithm := .sha1
  s2kCipher : Option SymmetricAlgorithm := none
  useSessionKey : Bool := false
  deriving DecidableEq, Repr

structure DecryptOptions where
  convertCrlf : Bool := false
  deriving DecidableEq, Repr

def parseBooleanOption (name value : String) : Outcome Bool :=
  match trim value with
  | "0" => .ok false
  | "1" => .ok true
  | other => raise (name ++ " must be 0 or 1, got " ++ other)

def parseCipher (value : String) : Outcome SymmetricAlgorithm :=
  match toAsciiLowercase (trim value) with
  | "bf" | "blowfish" => .ok .blowfish
  | "aes" | "aes128" => .ok .aes128
  | "aes192" => .ok .aes192
  | "aes256" => .ok .aes256
  | "3des" => .ok .tripleDES
  | "cast5" => .ok .cast5
  | other => raise ("unsupported OpenPGP cipher: " ++ other)

def parseCompression (value : String) : Outcome CompressionAlgorithm :=
  match trim value with
  | "0" => .ok .uncompressed
  | "1" => .ok .zip
  | "2" => .ok .zlib
  | other => raise ("compress-algo must be 0, 1, or 2, got " ++ other)

def parseCompressionLevel (value : String) : Outcome UInt8 :=
  match parseU8 (trim value) with
  | none => raise "compress-level must be an integer from 0 to 9"
  | some level =>
    if level > 9 then raise "compress-level must be an integer from 0 to 9" else .ok level

def parseS2kMode (value : String) : Outcome UInt8 :=
  match parseU8 (trim value) with
  | none => raise "s2k-mode must be 0, 1, or 3"
  | some mode => if mode = 0 ∨ mode = 1 ∨ mode = 3 then .ok mode else raise "s2k-mode must be 0, 1, or 3"

def parseS2kDigest (value : String) : Outcome HashAlgorithm :=
  match toAsciiLowercase (trim value) with
  | "md5" => .ok .md5
  | "sha1" => .ok .sha1
  | other => raise ("unsupported S2K digest: " ++ other)

/-- The S2K cipher table is narrower than `parseCipher`'s: no `blowfish` spelling and
neither Triple DES nor CAST5. -/
def parseS2kCipher (value : String) : Outcome SymmetricAlgorithm :=
  match toAsciiLowercase (trim value) with
  | "bf" => .ok .blowfish
  | "aes" | "aes128" => .ok .aes128
  | "aes192" => .ok .aes192
  | "aes256" => .ok .aes256
  | other => raise ("unsupported S2K cipher: " ++ other)

def parseS2kCount (value : String) : Outcome UInt32 :=
  match parseU32 (trim value) with
  | none => raise "s2k-count must be an integer"
  | some count =>
    if 1024 ≤ count ∧ count ≤ 65011712 then .ok count
    else raise "s2k-count must be between 1024 and 65011712"

/-- The items both loops run over. -/
def optionItems (options : String) : List String :=
  ((split options ',').map trim).filter (fun item => item ≠ "")

/-- The body of the encryption parser's loop. -/
def parseOption (parsed : PgpOptions) (option : String) : Outcome PgpOptions :=
  match splitOnce option '=' with
  | none => raise ("invalid PGP option: " ++ option)
  | some (name, value) =>
    match toAsciiLowercase (trim name) with
    | "cipher-algo" => do
      let cipher ← parseCipher value
      pure { parsed with cipher := cipher }
    | "compress-algo" => do
      let compression ← parseCompression value
      pure { parsed with compression := compression }
    | "compress-level" => do
      let level ← parseCompressionLevel value
      pure { parsed with compressionLevel := level }
    | "unicode-mode" => do
      let flag ← parseBooleanOption name value
      pure { parsed with unicodeMode := flag }
    | "convert-crlf" => do
      let flag ← parseBooleanOption name value
      pure { parsed with convertCrlf := flag }
    | "s2k-mode" => do
      let mode ← parseS2kMode value
      pure { parsed with s2kMode := mode }
    | "s2k-digest-algo" => do
      let digest ← parseS2kDigest value
      pure { parsed with s2kDigest := digest }
    | "s2k-cipher-algo" => do
      let cipher ← parseS2kCipher value
      pure { parsed with s2kCipher := some cipher }
    | "s2k-count" => do
      let count ← parseS2kCount value
      pure { parsed with s2kCount := some count }
    | "sess-key" => do
      let flag ← parseBooleanOption name value
      pure { parsed with useSessionKey := flag }
    | "disable-mdc" => do
      if ← parseBooleanOption name value then
        raise "generating OpenPGP messages without integrity protection is not supported"
      pure parsed
    | "ignore-cipher-failure" => do
      let _ ← parseBooleanOption name value
      pure parsed
    | other => raise ("unknown PGP option: " ++ other)

def parseOptions (options : String) (textInput : Bool) : Outcome PgpOptions := do
  let parsed ← (optionItems options).foldlM parseOption { textInput := textInput }
  if parsed.s2kCount.isSome ∧ parsed.s2kMode ≠ 3 then
    raise "s2k-count requires s2k-mode=3"
  pure parsed

/-- The body of the decryption parser's loop; encryption-only names are accepted
with any value. -/
def parseDecryptOption (parsed : DecryptOptions) (option : String) : Outcome DecryptOptions :=
  match splitOnce option '=' with
  | none => raise ("invalid PGP option: " ++ option)
  | some (name, value) =>
    match toAsciiLowercase (trim name) with
    | "convert-crlf" => do
      let flag ← parseBooleanOption name value
      pure { parsed with convertCrlf := flag }
    | "ignore-cipher-failure" => do
      let _ ← parseBooleanOption name value
      pure parsed
    | "cipher-algo" | "compress-algo" | "compress-level" | "disable-mdc" | "sess-key"
    | "s2k-mode" | "s2k-count" | "s2k-digest-algo" | "s2k-cipher-algo" | "unicode-mode" =>
      pure parsed
    | other => raise ("unknown PGP option: " ++ other)

def parseDecryptOptions (options : String) : Outcome DecryptOptions :=
  (optionItems options).foldlM parseDecryptOption {}

end PgCrypto.Pgp
