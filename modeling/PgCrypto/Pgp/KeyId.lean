import PgCrypto.Pgp.PublicKey

/-! # Key identifiers of certificates and messages

The five filter stages amount to one predicate on a key and a time, which reads only
the public part and the signatures. The certificate branch, the packet scan and the
encryption path therefore agree on the first usable key at any given time, and the
result depends on the clock as soon as some key is ever usable.
-/
namespace PgCrypto.Pgp
variable {S : Sequoia}

def KeyAmalgamation.usableAt (ka : KeyAmalgamation) (now : Time) : Bool :=
  ka.supported && ka.aliveAt now && !ka.revokedAt now &&
    (ka.bindingAt now).any (fun binding => binding.transportEncryption)

theorem recipients_eq_filter (cert : Cert) (now : Time) :
    recipients cert now = cert.keys.filter (fun ka => ka.usableAt now) := by
  simp only [recipients, forTransportEncryption, revoked, alive, supported, withPolicyAt,
    List.filter_filter]
  apply List.filter_congr
  intro ka _
  unfold KeyAmalgamation.usableAt
  cases hb : ka.bindingAt now with
  | none => simp
  | some binding => cases ka.supported <;> cases ka.aliveAt now <;> cases ka.revokedAt now <;> simp

theorem usableAt_creationTime {ka : KeyAmalgamation} {now : Time} (h : ka.usableAt now = true) :
    (ka.key.publicParts.creationTime : ℤ) ≤ now := by
  unfold KeyAmalgamation.usableAt at h
  simp only [Bool.and_eq_true] at h
  have ha := h.1.1.2
  unfold KeyAmalgamation.aliveAt at ha
  split at ha
  · simp at ha
  · simp only [Bool.and_eq_true, decide_eq_true_eq] at ha
    exact ha.1

theorem pgpKeyId_cert {data : Bytes} {cert : Cert} (hc : S.certFromBytes data = .ok cert) (now : Time) :
    pgpKeyId S data now = match (recipients cert now).head? with
      | some ka => .ok (toHex (S.keyid ka.key.publicParts).toList)
      | none => raise "OpenPGP key contains no usable encryption key" := by
  rw [pgpKeyId, hc]
  rfl

theorem pgpKeyId_cert_isOk {data : Bytes} {cert : Cert} (hc : S.certFromBytes data = .ok cert)
    (now : Time) : (∃ id, pgpKeyId S data now = .ok id) ↔ recipients cert now ≠ [] := by
  rw [pgpKeyId_cert hc]
  cases recipients cert now with
  | nil => simp
  | cons ka rest => simp

section Agreement

/-- Everything about a key that does not depend on its secret part. -/
def KeyAmalgamation.publicView (ka : KeyAmalgamation) :
    PublicKey × Bool × (Time → Option Binding) × (Time → Bool) :=
  (ka.key.publicParts, ka.supported, ka.bindingAt, ka.revokedAt)

def Cert.SameKeys (c d : Cert) : Prop :=
  c.keys.map KeyAmalgamation.publicView = d.keys.map KeyAmalgamation.publicView

theorem usableAt_publicView {ka kb : KeyAmalgamation} (h : ka.publicView = kb.publicView)
    (now : Time) : ka.usableAt now = kb.usableAt now := by
  simp only [KeyAmalgamation.publicView, Prod.mk.injEq] at h
  obtain ⟨hp, hs, hb, hr⟩ := h
  simp only [KeyAmalgamation.usableAt, KeyAmalgamation.aliveAt, hp, hs, hb, hr]

theorem Cert.SameKeys.recipients {c d : Cert} (h : c.SameKeys d) (now : Time) :
    (recipients c now).map KeyAmalgamation.publicView =
      (recipients d now).map KeyAmalgamation.publicView := by
  rw [recipients_eq_filter, recipients_eq_filter]
  unfold Cert.SameKeys at h
  generalize c.keys = ks at h
  generalize d.keys = ls at h
  induction ks generalizing ls with
  | nil =>
    cases ls with
    | nil => rfl
    | cons l ls => simp at h
  | cons k ks ih =>
    cases ls with
    | nil => simp at h
    | cons l ls =>
      rw [List.map_cons, List.map_cons, List.cons.injEq] at h
      have hu := usableAt_publicView h.1 now
      rw [List.filter_cons, List.filter_cons, hu]
      split
      · rw [List.map_cons, List.map_cons, h.1, ih ls h.2]
      · exact ih ls h.2

theorem pubEncrypt_recipients (hR : S.RecipientLaws) {cert : Cert} {data publicKey out : Bytes} {o : String}
    {text : Bool} {now : Time} {rng rng' : S.Rng} (hcert : S.certFromBytes publicKey = .ok cert)
    (h : pubEncrypt S data publicKey o text now rng = .ok (out, rng')) : recipients cert now ≠ [] := by
  obtain ⟨P, cert', -, hcert', -, message, rng₁, hm, -⟩ := pubEncrypt_eq_ok.mp h
  rw [hcert] at hcert'
  cases hcert'
  intro hempty
  obtain ⟨e, he⟩ := hR.forRecipients_nil {} P.cipher rng
  rw [hempty, List.map_nil, he] at hm
  cases hm

/-- All keys that are encrypted to take packets of version 3. -/
def Cert.Version3At (takesVersion3 : Recipient → Prop) (cert : Cert) (now : Time) : Prop :=
  ∀ ka ∈ recipients cert now, takesVersion3 (ka.recipientAt now)

theorem pgpKeyId_pubEncrypt {takesVersion3 : Recipient → Prop} (hW : S.WriterLaws)
    (hR : S.RecipientLaws) (hN : S.NamingLaws takesVersion3) (hQ : S.PileLaws) {cert : Cert}
    {data publicKey out : Bytes} {o : String} {text : Bool} {now : Time} {rng rng' : S.Rng}
    (hcert : S.certFromBytes publicKey = .ok cert) (hversion : cert.Version3At takesVersion3 now)
    (h : pubEncrypt S data publicKey o text now rng = .ok (out, rng')) :
    ∃ id, pgpKeyId S out now = .ok id ∧ pgpKeyId S publicKey now = .ok id := by
  have hne := pubEncrypt_recipients hR hcert h
  obtain ⟨P, cert', -, hcert', -, message, rng₁, hm, hw⟩ := pubEncrypt_eq_ok.mp h
  rw [hcert] at hcert'
  cases hcert'
  obtain ⟨version, session, pkesks, rfl, -⟩ := hR.forRecipients_eq _ _ _ _ _ _ hm
  have hall := hN.forRecipients_names _ _ _ _ _ _ pkesks hm (List.forall_mem_map.mpr hversion) rfl
  obtain ⟨pre, -, hf⟩ := writePayload_finalize hW hw
  obtain ⟨⟨e, he⟩, inner, hpile⟩ := hQ.pile_finalize _ version P.cipher session
    (pre ++ [.literal (payloadFormat P)]) _ _ _ rfl hf
  rw [pgpKeyId_cert hcert]
  cases hrec : recipients cert now with
  | nil => exact absurd hrec hne
  | cons ka rest =>
    rw [hrec, List.map_cons] at hall
    cases hall with
    | cons hka _ =>
      refine ⟨toHex (S.keyid ka.key.publicParts).toList, ?_, by simp⟩
      rw [pgpKeyId, he]
      dsimp only
      rw [hpile, orUnwind_ok, ok_bind, List.nil_append, List.map_cons, List.cons_append,
        keyIdOfPackets, hka]
      rfl

theorem Recorded.pgpKeyId_publicCert :
    pgpKeyId transcript.replay publicCert 1700000100 = .ok "5B1AB9F49BA9CE6A" := by
  rw [pgpKeyId_cert certFromBytes_publicCert]
  have hkeys : (recipients (cert none none) 1700000100).head? = some (amalgamation subkeyPublic none true) :=
    rfl
  rw [hkeys]
  change Except.ok (toHex (transcript.replay.keyid subkey).toList) = _
  rw [keyid_subkey]
  rfl

theorem Recorded.version3At_cert {primary secret : Option SecretKeyMaterial} {now : Time} :
    (cert primary secret).Version3At Recipient.TakesVersion3 now := by
  intro ka hka
  rw [recipients_eq_filter] at hka
  rcases List.mem_pair.mp (List.mem_filter.mp hka).1 with rfl | rfl
  · rfl
  · rfl

end Agreement

section Clock

def SameKeyId (x y : Outcome String) : Prop :=
  (∃ id, x = .ok id ∧ y = .ok id) ∨ ((∃ e, x = .error e) ∧ ∃ e, y = .error e)

theorem SameKeyId.refl (x : Outcome String) : SameKeyId x x := by
  cases x with
  | ok id => exact Or.inl ⟨id, rfl, rfl⟩
  | error e => exact Or.inr ⟨⟨e, rfl⟩, ⟨e, rfl⟩⟩

theorem pgpKeyId_eq_of_usable {data : Bytes} {now later : Time}
    (h : ∀ cert, S.certFromBytes data = .ok cert → ∀ ka ∈ cert.keys, ka.usableAt now = ka.usableAt later) :
    pgpKeyId S data now = pgpKeyId S data later := by
  cases hc : S.certFromBytes data with
  | error e =>
    rw [pgpKeyId, pgpKeyId, hc]
    cases e <;> rfl
  | ok cert =>
    have hr : recipients cert now = recipients cert later := by
      rw [recipients_eq_filter, recipients_eq_filter]
      exact List.filter_congr (h cert hc)
    rw [pgpKeyId_cert hc, pgpKeyId_cert hc, hr]

/-- The result is the same at all times exactly when the data is no certificate, or a
certificate no key of which is usable at any time. That it differs otherwise rests on the
reading -1 of the clock, before the epoch: no key has been created by then. -/
theorem pgpKeyId_immutable_iff (S : Sequoia) (data : Bytes) :
    (∀ now later, SameKeyId (pgpKeyId S data now) (pgpKeyId S data later)) ↔
      ∀ cert, S.certFromBytes data = .ok cert → ∀ ka ∈ cert.keys, ∀ now, ka.usableAt now = false := by
  constructor
  · intro h cert hc ka hka now
    by_contra hu
    rw [Bool.not_eq_false] at hu
    have hnow : recipients cert now ≠ [] := by
      rw [recipients_eq_filter]
      exact List.ne_nil_of_mem (List.mem_filter.mpr ⟨hka, hu⟩)
    have hearly : recipients cert (-1) = [] := by
      rw [recipients_eq_filter, List.filter_eq_nil_iff]
      intro kb _ hb
      have := usableAt_creationTime hb
      omega
    obtain ⟨id, hid⟩ := (pgpKeyId_cert_isOk hc now).mpr hnow
    have hfail : ¬ ∃ id, pgpKeyId S data (-1) = .ok id := by
      rw [pgpKeyId_cert_isOk hc]
      exact fun hne => hne hearly
    rcases h now (-1) with ⟨id', -, hid'⟩ | ⟨⟨e, he⟩, -⟩
    · exact hfail ⟨id', hid'⟩
    · rw [hid] at he
      cases he
  · intro h now later
    have husable : ∀ cert, S.certFromBytes data = .ok cert → ∀ ka ∈ cert.keys,
        ka.usableAt now = ka.usableAt later := by
      intro cert hc ka hka
      rw [h cert hc ka hka now, h cert hc ka hka later]
    rw [pgpKeyId_eq_of_usable husable]
    exact SameKeyId.refl _

/-- One year after its creation the recorded certificate has no key identifier. -/
theorem pgpKeyId_not_immutable : ¬ ∀ data now later,
    SameKeyId (pgpKeyId Recorded.transcript.replay data now)
      (pgpKeyId Recorded.transcript.replay data later) := by
  intro h
  have hexpired : pgpKeyId Recorded.transcript.replay Recorded.publicCert 1731536000 =
      raise "OpenPGP key contains no usable encryption key" := by
    rw [pgpKeyId_cert Recorded.certFromBytes_publicCert]
    rfl
  rcases h Recorded.publicCert 1700000100 1731536000 with ⟨id, -, hid⟩ | ⟨⟨e, he⟩, -⟩
  · rw [hexpired] at hid
    cases hid
  · rw [Recorded.pgpKeyId_publicCert] at he
    cases he

end Clock

end PgCrypto.Pgp
