import PgCrypto.Pgp.PublicKey

/-! # When public-key decryption is available

The loop over the secret keys aborts at the first key that stays locked and passes
over a key that unlocks without giving a pair. The search over packets and pairs
then finds the session key of the message as soon as one collected pair gives it, so
decryption with a key that opens the message depends on the other keys only through
whether all of them unlock.
-/
namespace PgCrypto.Pgp
variable {S : Sequoia}

def Unlocks (S : Sequoia) (password : String) (key : Key) : Prop :=
  ∃ unlocked, unlock S password key = .ok unlocked

def pairOf (S : Sequoia) (password : String) (key : Key) : Option KeyPair :=
  match unlock S password key with
  | .ok unlocked => (S.intoKeypair unlocked).toOption
  | .error _ => none

/-- The key unlocks, converts to a pair and decrypts some session key packet of the
message to a session key the decryptor accepts. -/
def Opens (S : Sequoia) (password : String) (e : EncryptedMessage) (key : Key)
    (session : Option SymmetricAlgorithm × SessionKey) : Prop :=
  ∃ unlocked pair pkesk, unlock S password key = .ok unlocked ∧ S.intoKeypair unlocked = .ok pair ∧
    pkesk ∈ e.pkesks ∧ S.pkeskDecrypt pkesk pair e.symAlgo = some session ∧
    e.accepts session.1 session.2 = true

def EncryptedMessage.AcceptsOne (e : EncryptedMessage) : Prop :=
  ∀ a key a' key', e.accepts a key = true → e.accepts a' key' = true → a = a' ∧ key = key'

section Loop

theorem foldlM_pushPair_eq_ok {password : String} {keys : List Key} {pairs : List KeyPair} :
    keys.foldlM (pushPair S password) [] = .ok pairs ↔
      (∀ key ∈ keys, Unlocks S password key) ∧ pairs = keys.filterMap (pairOf S password) := by
  let body := fun key => orRaise "could not unlock OpenPGP secret key" (unlock S password key) >>=
    fun unlocked => .ok (S.intoKeypair unlocked).toOption
  have hstep : pushPair S password = fun acc key => body key >>= fun r => .ok (acc ++ r.toList) := by
    funext acc key
    simp only [pushPair, body]
    cases unlock S password key with
    | error e => rfl
    | ok unlocked =>
      cases hk : S.intoKeypair unlocked with
      | error e => simp [hk, Except.toOption]
      | ok pair => simp [hk, Except.toOption]
  have hok : ∀ key, (∃ r, body key = .ok r) ↔ Unlocks S password key := by
    intro key
    simp [body, Unlocks]
  have hpair : (fun key => (body key).toOption.join) = pairOf S password := by
    funext key
    simp only [body, pairOf]
    cases unlock S password key <;> rfl
  rw [hstep, foldlM_collect_eq_ok, hpair]
  simp only [hok, List.nil_append]

end Loop

section Search

theorem tryPair_eq_some {e : EncryptedMessage} {pkesk : Pkesk} {pair : KeyPair}
    {session : Option SymmetricAlgorithm × SessionKey} :
    tryPair S e pkesk pair = some session ↔
      S.pkeskDecrypt pkesk pair e.symAlgo = some session ∧ e.accepts session.1 session.2 = true := by
  rw [tryPair, Option.filter_eq_some_iff]

theorem keyHelperDecrypt_eq_ok {pairs : List KeyPair} {e : EncryptedMessage}
    {session : Option SymmetricAlgorithm × SessionKey} (h : keyHelperDecrypt S pairs e = .ok session) :
    ∃ pkesk ∈ e.pkesks, ∃ pair ∈ pairs, tryPair S e pkesk pair = some session := by
  unfold keyHelperDecrypt at h
  split at h
  · next found hfound =>
    cases h
    obtain ⟨pkesk, hp, hpair⟩ := List.exists_of_findSome?_eq_some hfound
    obtain ⟨pair, hk, htry⟩ := List.exists_of_findSome?_eq_some hpair
    exact ⟨pkesk, hp, pair, hk, htry⟩
  · cases h

theorem exists_keyHelperDecrypt {pairs : List KeyPair} {e : EncryptedMessage} {pkesk : Pkesk}
    (hp : pkesk ∈ e.pkesks) {pair : KeyPair} (hk : pair ∈ pairs)
    {session : Option SymmetricAlgorithm × SessionKey} (htry : tryPair S e pkesk pair = some session) :
    ∃ found, keyHelperDecrypt S pairs e = .ok found ∧ e.accepts found.1 found.2 = true := by
  unfold keyHelperDecrypt
  cases hfound : e.pkesks.findSome? (fun pkesk => pairs.findSome? (tryPair S e pkesk)) with
  | none =>
    have hnone := List.findSome?_eq_none_iff.mp (List.findSome?_eq_none_iff.mp hfound pkesk hp) pair hk
    rw [hnone] at htry
    cases htry
  | some found =>
    obtain ⟨pkesk', -, hpair⟩ := List.exists_of_findSome?_eq_some hfound
    obtain ⟨pair', -, hfound'⟩ := List.exists_of_findSome?_eq_some hpair
    exact ⟨found, rfl, (tryPair_eq_some.mp hfound').2⟩

theorem keyHelperDecrypt_of_mem {pairs : List KeyPair} {e : EncryptedMessage} (hone : e.AcceptsOne)
    {pkesk : Pkesk} (hp : pkesk ∈ e.pkesks) {pair : KeyPair} (hk : pair ∈ pairs)
    {session : Option SymmetricAlgorithm × SessionKey} (htry : tryPair S e pkesk pair = some session) :
    keyHelperDecrypt S pairs e = .ok session := by
  obtain ⟨found, hfound, haccepts⟩ := exists_keyHelperDecrypt hp hk htry
  obtain ⟨halgo, hkey⟩ := hone _ _ _ _ haccepts (tryPair_eq_some.mp htry).2
  rw [hfound]
  exact congrArg Except.ok (Prod.ext halgo hkey)

end Search

theorem pubDecrypt_eq_ok {data secretKey : Bytes} {password : String} {result : Bytes × UInt8} :
    pubDecrypt S data secretKey password = .ok result ↔
      ∃ cert builder e session, S.certFromBytes secretKey = .ok cert ∧
        (∀ key ∈ cert.secretKeys, Unlocks S password key) ∧
        S.builderFromBytes data = .ok builder ∧ S.withPolicy builder = .ok e ∧
        keyHelperDecrypt S (cert.secretKeys.filterMap (pairOf S password)) e = .ok session ∧
        (e.contents session.1 session.2).body = .ok result.1 ∧
        (e.contents session.1 session.2).packets.foldl inspectLiteralFormat literalUnknown = result.2 := by
  unfold pubDecrypt
  constructor
  · intro h
    obtain ⟨cert, hcert, h⟩ := bind_eq_ok.mp h
    obtain ⟨pairs, hpairs, h⟩ := bind_eq_ok.mp h
    obtain ⟨hall, rfl⟩ := foldlM_pushPair_eq_ok.mp hpairs
    split at h
    · simp at h
    · simp only [bind_eq_ok, orRaise_eq_ok, orUnwind_eq_ok, Prod.exists, Except.ok.injEq] at h
      obtain ⟨builder, hb, e, he, a, key, hs, output, hbody, rfl⟩ := h
      exact ⟨cert, builder, e, (a, key), orUnwind_eq_ok.mp hcert, hall, hb, he, hs, hbody, rfl⟩
  · rintro ⟨cert, builder, e, session, hcert, hall, hb, he, hs, hbody, hformat⟩
    obtain ⟨pkesk, -, pair, hpair, -⟩ := keyHelperDecrypt_eq_ok hs
    have hpairs := foldlM_pushPair_eq_ok.mpr ⟨hall, rfl⟩
    rw [hcert, orUnwind_ok, ok_bind, hpairs, ok_bind, if_neg (by simpa using List.ne_nil_of_mem hpair),
      hb, orUnwind_ok, ok_bind, he, orUnwind_ok, ok_bind, hs, orRaise_ok, ok_bind]
    dsimp only
    rw [hbody, orUnwind_ok, ok_bind, hformat]

theorem pairOf_eq_some {password : String} {key : Key} {pair : KeyPair} :
    pairOf S password key = some pair ↔
      ∃ unlocked, unlock S password key = .ok unlocked ∧ S.intoKeypair unlocked = .ok pair := by
  unfold pairOf
  cases unlock S password key with
  | error e => simp
  | ok unlocked => cases hk : S.intoKeypair unlocked <;> simp [hk, Except.toOption]

theorem pubDecrypt_eq_contents_iff {data secretKey : Bytes} {password : String} {cert : Cert}
    {builder : S.Builder} {e : EncryptedMessage} (hcert : S.certFromBytes secretKey = .ok cert)
    (hb : S.builderFromBytes data = .ok builder) (he : S.withPolicy builder = .ok e)
    (hone : e.AcceptsOne) {key : Key} (hkey : key ∈ cert.secretKeys)
    {session : Option SymmetricAlgorithm × SessionKey} (hopens : Opens S password e key session)
    {plaintext : Bytes} (hbody : (e.contents session.1 session.2).body = .ok plaintext) :
    pubDecrypt S data secretKey password = .ok (plaintext,
        (e.contents session.1 session.2).packets.foldl inspectLiteralFormat literalUnknown) ↔
      ∀ other ∈ cert.secretKeys, Unlocks S password other := by
  constructor
  · intro h
    obtain ⟨cert', _, _, _, hcert', hall, -⟩ := pubDecrypt_eq_ok.mp h
    rw [hcert] at hcert'
    cases hcert'
    exact hall
  · intro hall
    obtain ⟨unlocked, pair, pkesk, hu, hpair, hp, hd, ha⟩ := hopens
    have hmem : pair ∈ cert.secretKeys.filterMap (pairOf S password) :=
      List.mem_filterMap.mpr ⟨key, hkey, pairOf_eq_some.mpr ⟨unlocked, hu, hpair⟩⟩
    exact pubDecrypt_eq_ok.mpr ⟨cert, builder, e, session, hcert, hall, hb, he,
      keyHelperDecrypt_of_mem hone hp hmem (tryPair_eq_some.mpr ⟨hd, ha⟩), hbody, rfl⟩

theorem exists_opens_of_pubDecrypt {data secretKey : Bytes} {password : String} {cert : Cert}
    {builder : S.Builder} {e : EncryptedMessage} (hcert : S.certFromBytes secretKey = .ok cert)
    (hb : S.builderFromBytes data = .ok builder) (he : S.withPolicy builder = .ok e)
    {result : Bytes × UInt8} (h : pubDecrypt S data secretKey password = .ok result) :
    ∃ key ∈ cert.secretKeys, ∃ session, Opens S password e key session ∧
      (e.contents session.1 session.2).body = .ok result.1 ∧
      (e.contents session.1 session.2).packets.foldl inspectLiteralFormat literalUnknown = result.2 := by
  obtain ⟨cert', builder', e', session, hcert', -, hb', he', hs, hbody, hformat⟩ := pubDecrypt_eq_ok.mp h
  rw [hcert] at hcert'
  cases hcert'
  rw [hb] at hb'
  cases hb'
  rw [he] at he'
  cases he'
  obtain ⟨pkesk, hp, pair, hpair, htry⟩ := keyHelperDecrypt_eq_ok hs
  obtain ⟨key, hkey, hkp⟩ := List.mem_filterMap.mp hpair
  obtain ⟨unlocked, hu, hpk⟩ := pairOf_eq_some.mp hkp
  obtain ⟨hd, ha⟩ := tryPair_eq_some.mp htry
  exact ⟨key, hkey, session, ⟨unlocked, pair, pkesk, hu, hpk, hp, hd, ha⟩, hbody, hformat⟩

/-- With a key that opens the message, decryption returns the plaintext exactly when
every secret key of the certificate unlocks with the password; and a certificate with
further secret keys still decrypts what the smaller one does exactly when all of
them unlock. -/
theorem pubDecrypt_available_iff (S : Sequoia) (data secretKey : Bytes) (password : String)
    (cert : Cert) (builder : S.Builder) (e : EncryptedMessage)
    (hcert : S.certFromBytes secretKey = .ok cert) (hb : S.builderFromBytes data = .ok builder)
    (he : S.withPolicy builder = .ok e) (hone : e.AcceptsOne) :
    (∀ key ∈ cert.secretKeys, ∀ session, Opens S password e key session →
      ∀ plaintext, (e.contents session.1 session.2).body = .ok plaintext →
        ((∃ format, pubDecrypt S data secretKey password = .ok (plaintext, format)) ↔
          ∀ other ∈ cert.secretKeys, Unlocks S password other)) ∧
    (∀ smallerKey smaller, S.certFromBytes smallerKey = .ok smaller →
      smaller.secretKeys.Sublist cert.secretKeys →
      ∀ result, pubDecrypt S data smallerKey password = .ok result →
        (pubDecrypt S data secretKey password = .ok result ↔
          ∀ other ∈ cert.secretKeys, Unlocks S password other)) := by
  refine ⟨?_, ?_⟩
  · intro key hkey session hopens plaintext hbody
    have hiff := pubDecrypt_eq_contents_iff hcert hb he hone hkey hopens hbody
    constructor
    · rintro ⟨format, h⟩
      obtain ⟨cert', _, _, _, hcert', hall, -⟩ := pubDecrypt_eq_ok.mp h
      rw [hcert] at hcert'
      cases hcert'
      exact hall
    · intro hall
      exact ⟨_, hiff.mpr hall⟩
  · intro smallerKey smaller hsmaller hsub result h
    obtain ⟨key, hkey, session, hopens, hbody, hformat⟩ := exists_opens_of_pubDecrypt hsmaller hb he h
    have hiff := pubDecrypt_eq_contents_iff hcert hb he hone (hsub.subset hkey) hopens hbody
    rwa [hformat] at hiff

section Recorded
open Recorded

theorem acceptsOne_readBack (m : Message) : (Transcript.readBack m).AcceptsOne := by
  intro a key a' key' h h'
  have hsession : Transcript.sessionOf m = some (a, key) := of_decide_eq_true h
  rw [show Transcript.sessionOf m = some (a', key') from of_decide_eq_true h'] at hsession
  simpa using hsession.symm

theorem opens_subkey (password : String) :
    Opens transcript.replay password (Transcript.readBack pubMessage)
      ⟨subkey, some (.unencrypted subkeySecret)⟩ (some .aes128, pkeskSession) :=
  ⟨_, subkeyPair, pkesk, rfl, rfl, List.mem_singleton.mpr rfl, pkeskDecrypt_pkesk, rfl⟩

theorem pubDecrypt_available_secretCert :
    ∃ format, pubDecrypt transcript.replay pubOut secretCert "" = .ok (written, format) := by
  have h := pubDecrypt_available_iff transcript.replay pubOut secretCert "" _ _ _
    certFromBytes_secretCert builderFromBytes_pubOut rfl (acceptsOne_readBack _)
  refine (h.1 _ (by simp [Cert.secretKeys, cert, amalgamation, subkey]) _ (opens_subkey "") _ rfl).mpr ?_
  intro other hother
  rcases List.mem_pair.mp (show other ∈ [_, _] from hother) with rfl | rfl
  · exact ⟨_, rfl⟩
  · exact ⟨_, rfl⟩

/-- The recorded secret certificate with a primary key under another password: the
subkey opens the message to its plaintext, and decryption still fails. -/
theorem pubDecrypt_mixedCert_locked : ∃ certificate e key session,
    transcript.replay.certFromBytes mixedCert = .ok certificate ∧
      transcript.replay.builderFromBytes pubOut = .ok pubMessage ∧
      transcript.replay.withPolicy pubMessage = .ok e ∧ e.AcceptsOne ∧
      key ∈ certificate.secretKeys ∧ Opens transcript.replay "" e key session ∧
      (e.contents session.1 session.2).body = .ok written ∧
      (∃ reason, pubDecrypt transcript.replay pubOut mixedCert "" =
        raise ("could not unlock OpenPGP secret key: " ++ reason)) := by
  refine ⟨_, _, _, _, certFromBytes_mixedCert, builderFromBytes_pubOut, rfl, acceptsOne_readBack _,
    ?_, opens_subkey "", rfl, "not recorded", ?_⟩
  · simp [Cert.secretKeys, cert, amalgamation, subkey]
  · rw [pubDecrypt, certFromBytes_mixedCert]
    rfl

end Recorded

end PgCrypto.Pgp
