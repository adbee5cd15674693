import Attestia.Lib.Sorting
import Attestia.Witness.PolicyJson

/-!
# What a signing payload binds

The hash that signers sign fixes the content of an attestation, through the hash of that content, and
the policy up to the order of its signers.
-/

namespace Attestia.Witness

open Lib

/-- No two values have the same canonical JSON. -/
def InjectiveJson {α : Type} (canonicalize : α → Except EventStore.JsError String) : Prop :=
  ∀ a b text, canonicalize a = .ok text → canonicalize b = .ok text → a = b

/-- The message that is hashed for a text. -/
def textMessage (text : String) : Bytes := Utf8.encode text.toList

/-- The messages that are hashed for two values. -/
def jsonMessages {α : Type} (canonicalize : α → Except EventStore.JsError String) (a b : α) :
    Set Bytes :=
  {m | ∃ text, m = textMessage text ∧ (canonicalize a = .ok text ∨ canonicalize b = .ok text)}

/-- Values whose canonical JSON has one hash are the same. -/
theorem eq_of_sha256Hex_eq {α : Type} {canonicalize : α → Except EventStore.JsError String} {a b : α}
    (hinj : InjectiveJson canonicalize) (hcf : CollisionFree (jsonMessages canonicalize a b))
    {s t : String} (ha : canonicalize a = .ok s) (hb : canonicalize b = .ok t)
    (h : Verify.sha256Hex s = Verify.sha256Hex t) : a = b := by
  have hmessage := hcf ⟨s, rfl, .inl ha⟩ ⟨t, rfl, .inr hb⟩ (hexEncode_injective (js_injective h))
  have hutf := congrArg Utf8.decode hmessage
  rw [textMessage, textMessage, Utf8.decode_encode, Utf8.decode_encode] at hutf
  have htext : s = t := String.toList_injective hutf
  rw [← htext] at hb
  exact hinj a b s ha hb

/-- What a signature on a policy depends on for each signer. -/
def SignerEntry.shape (s : SignerEntry) : SignerShape := ⟨s.address, s.weight, s.publicKey⟩

/-- The attestations and policies are the same, up to the order of the signers. -/
structure SameSigned (a b : AttestationPayload) (p q : GovernancePolicy) : Prop where
  timestamp : a.timestamp = b.timestamp
  source : a.source = b.source
  summary : a.summary = b.summary
  id : p.id = q.id
  version : p.version = q.version
  quorum : p.quorum = q.quorum
  signers : ∀ shape : SignerShape,
    shape ∈ p.signers.map SignerEntry.shape ↔ shape ∈ q.signers.map SignerEntry.shape

theorem mem_signers_canonicalPolicyShape {platform : Platform} {version : ℕ}
    {signers : List SignerEntry} {quorum : JsNumber} {shape : SignerShape} :
    shape ∈ (canonicalPolicyShape platform version signers quorum).signers ↔
      shape ∈ signers.map SignerEntry.shape :=
  ((List.perm_insertionSort _ signers).map _).mem_iff

section

variable {platform : PayloadPlatform} {a b : AttestationPayload} {p q : GovernancePolicy}

theorem exists_canonicalizeContent (h : verifyPayloadHash platform a = .ok true) :
    ∃ text, platform.canonicalizeContent a.content = .ok text ∧ Verify.sha256Hex text = a.hash := by
  obtain ⟨text, htext, h⟩ := bind_eq_ok.mp h
  exact ⟨text, htext, of_decide_eq_true (Except.ok.inj h)⟩

/-- One hash is of one signing payload. -/
theorem signingPayload_eq_of_hash_eq (hsigning : InjectiveJson platform.canonicalizeSigning)
    (hcf : CollisionFree (jsonMessages platform.canonicalizeSigning (signingPayload platform a p)
      (signingPayload platform b q))) {hash : JsString}
    (ha : buildCanonicalSigningPayload platform a p = .ok hash)
    (hb : buildCanonicalSigningPayload platform b q = .ok hash) :
    signingPayload platform a p = signingPayload platform b q := by
  obtain ⟨s, hs, ha⟩ := bind_eq_ok.mp ha
  obtain ⟨t, ht, hb⟩ := bind_eq_ok.mp hb
  exact eq_of_sha256Hex_eq hsigning hcf hs ht ((Except.ok.inj ha).trans (Except.ok.inj hb).symm)

/-- Attestations of one hash, which is that of their contents, have one content. -/
theorem content_eq_of_hash_eq (hcontent : InjectiveJson platform.canonicalizeContent)
    (hcf : CollisionFree (jsonMessages platform.canonicalizeContent a.content b.content))
    (ha : verifyPayloadHash platform a = .ok true) (hb : verifyPayloadHash platform b = .ok true)
    (h : a.hash = b.hash) : a.content = b.content := by
  obtain ⟨s, hs, hsa⟩ := exists_canonicalizeContent ha
  obtain ⟨t, ht, htb⟩ := exists_canonicalizeContent hb
  exact eq_of_sha256Hex_eq hcontent hcf hs ht (hsa.trans (h.trans htb.symm))

theorem sameSigned_of_hash_eq (hcontent : InjectiveJson platform.canonicalizeContent)
    (hsigning : InjectiveJson platform.canonicalizeSigning)
    (hcontents : CollisionFree (jsonMessages platform.canonicalizeContent a.content b.content))
    (hpayloads : CollisionFree (jsonMessages platform.canonicalizeSigning
      (signingPayload platform a p) (signingPayload platform b q)))
    (ha : verifyPayloadHash platform a = .ok true) (hb : verifyPayloadHash platform b = .ok true)
    {hash : JsString} (hahash : buildCanonicalSigningPayload platform a p = .ok hash)
    (hbhash : buildCanonicalSigningPayload platform b q = .ok hash) : SameSigned a b p q := by
  have hpayload := signingPayload_eq_of_hash_eq hsigning hpayloads hahash hbhash
  have hattestation : a.hash = b.hash := congrArg SigningPayload.attestationHash hpayload
  have hpolicy : canonicalPolicyShape platform.toPlatform p.version p.signers p.quorum =
      canonicalPolicyShape platform.toPlatform q.version q.signers q.quorum :=
    congrArg SigningPayload.policy hpayload
  have hsame := content_eq_of_hash_eq hcontent hcontents ha hb hattestation
  refine ⟨congrArg SigningPayload.attestationTimestamp hpayload, congrArg PayloadContent.source hsame,
    congrArg PayloadContent.summary hsame, congrArg SigningPayload.policyId hpayload,
    congrArg PolicyShape.version hpolicy, congrArg PolicyShape.quorum hpolicy, fun shape => ?_⟩
  rw [← @mem_signers_canonicalPolicyShape platform.toPlatform p.version p.signers p.quorum, hpolicy,
    mem_signers_canonicalPolicyShape]

/-- The order of the signers does not matter where their addresses are ordered. -/
theorem canonicalPolicyShape_perm {platform : Platform} {version : ℕ} {quorum : JsNumber}
    {signers signers' : List SignerEntry}
    (horder : Orders (fun s t => platform.localeCompare s t ≤ 0) (signers.map SignerEntry.address))
    (hnodup : (signers.map SignerEntry.address).Nodup) (hperm : signers.Perm signers') :
    canonicalPolicyShape platform version signers quorum =
      canonicalPolicyShape platform version signers' quorum := by
  have hsort := insertionSort_eq_of_perm (r := fun s t : SignerEntry =>
    platform.localeCompare s.address t.address ≤ 0)
    (horder.of_map fun s hs t ht => List.inj_on_of_nodup_map hnodup hs ht) hperm
  rw [canonicalPolicyShape, hsort]
  rfl

end

/-- A hash that is signed binds the attestation and the policy, and is that of every order of the
signers. -/
theorem signing_binds (platform : PayloadPlatform)
    (hcontent : InjectiveJson platform.canonicalizeContent)
    (hsigning : InjectiveJson platform.canonicalizeSigning) :
    (∀ (a b : AttestationPayload) (p q : GovernancePolicy) (hash : JsString),
      CollisionFree (jsonMessages platform.canonicalizeContent a.content b.content) →
      CollisionFree (jsonMessages platform.canonicalizeSigning (signingPayload platform a p)
        (signingPayload platform b q)) →
      verifyPayloadHash platform a = .ok true → verifyPayloadHash platform b = .ok true →
      buildCanonicalSigningPayload platform a p = .ok hash →
      buildCanonicalSigningPayload platform b q = .ok hash → SameSigned a b p q) ∧
    ∀ (a : AttestationPayload) (p : GovernancePolicy) (signers : List SignerEntry),
      Orders (fun s t => platform.localeCompare s t ≤ 0) (p.signers.map SignerEntry.address) →
      (p.signers.map SignerEntry.address).Nodup → p.signers.Perm signers →
      buildCanonicalSigningPayload platform a { p with signers := signers } =
        buildCanonicalSigningPayload platform a p := by
  constructor
  · intro a b p q hash hcontents hpayloads ha hb hahash hbhash
    exact sameSigned_of_hash_eq hcontent hsigning hcontents hpayloads ha hb hahash hbhash
  · intro a p signers horder hnodup hperm
    rw [buildCanonicalSigningPayload, buildCanonicalSigningPayload, signingPayload, signingPayload,
      canonicalPolicyShape_perm horder hnodup hperm]

/-! ## Canonical JSON of the payloads -/

theorem faithful_signerShape : Faithful SignerShape.json := by
  intro a b v w ha hb hsame
  obtain ⟨wa, hwa, ha⟩ := Option.bind_eq_some_iff.mp ha
  obtain ⟨wb, hwb, hb⟩ := Option.bind_eq_some_iff.mp hb
  cases ha
  cases hb
  have haddress := hsame.rel_get? (js "address")
  have hweight := hsame.rel_get? (js "weight")
  have hkey := hsame.rel_get? (js "publicKey")
  simp at haddress hweight hkey
  have hkeys : a.publicKey = b.publicKey := by
    rcases hka : a.publicKey with _ | ka <;> rcases hkb : b.publicKey with _ | kb <;>
      rw [hka, hkb] at hkey
    · cases hkey
    · cases hkey
    · rw [JsonValue.same_str hkey]
  cases a
  cases b
  simp only [SignerShape.mk.injEq]
  exact ⟨JsonValue.same_str haddress, faithful_number _ _ _ _ hwa hwb hweight, hkeys⟩

theorem forall₂_same_of_array {vs ws : List JsonValue}
    (h : (JsonValue.array vs).Same (.array ws)) : List.Forall₂ JsonValue.Same vs ws := by
  have hmap := Json.arr.inj h
  simp only [Json.sortKeysElements_eq_map, List.map_map] at hmap
  rw [← List.forall₂_eq_eq_eq, List.forall₂_map_left_iff, List.forall₂_map_right_iff] at hmap
  exact hmap

theorem Faithful.list {α : Type} {json : α → Option JsonValue} (h : Faithful json) {as bs : List α}
    {vs ws : List JsonValue} (ha : as.mapM json = some vs) (hb : bs.mapM json = some ws)
    (hsame : List.Forall₂ JsonValue.Same vs ws) : as = bs := by
  induction as generalizing bs vs ws with
  | nil =>
    cases ha
    cases hsame
    cases bs with
    | nil => rfl
    | cons b bs =>
      rw [List.mapM_cons] at hb
      obtain ⟨w, -, hb⟩ := Option.bind_eq_some_iff.mp hb
      obtain ⟨ws, -, hb⟩ := Option.bind_eq_some_iff.mp hb
      cases hb
  | cons a as ih =>
    rw [List.mapM_cons] at ha
    obtain ⟨v, hv, ha⟩ := Option.bind_eq_some_iff.mp ha
    obtain ⟨vs, hvs, ha⟩ := Option.bind_eq_some_iff.mp ha
    cases ha
    cases bs with
    | nil =>
      cases hb
      cases hsame
    | cons b bs =>
      rw [List.mapM_cons] at hb
      obtain ⟨w, hw, hb⟩ := Option.bind_eq_some_iff.mp hb
      obtain ⟨ws, hws, hb⟩ := Option.bind_eq_some_iff.mp hb
      cases hb
      obtain ⟨hhead, htail⟩ := List.forall₂_cons.mp hsame
      rw [h a b v w hv hw hhead, ih hvs hws htail]

theorem faithful_policyShape : Faithful PolicyShape.json := by
  intro a b v w ha hb hsame
  obtain ⟨qa, hqa, ha⟩ := Option.bind_eq_some_iff.mp ha
  obtain ⟨sa, hsa, ha⟩ := Option.bind_eq_some_iff.mp ha
  obtain ⟨qb, hqb, hb⟩ := Option.bind_eq_some_iff.mp hb
  obtain ⟨sb, hsb, hb⟩ := Option.bind_eq_some_iff.mp hb
  cases ha
  cases hb
  have hversion := hsame.rel_get? (js "version")
  have hquorum := hsame.rel_get? (js "quorum")
  have hsigners := hsame.rel_get? (js "signers")
  simp at hversion hquorum hsigners
  cases a
  cases b
  simp only [PolicyShape.mk.injEq]
  exact ⟨JsonNumber.Number.ofNat_injective (JsonValue.same_num hversion),
    faithful_number _ _ _ _ hqa hqb hquorum,
    faithful_signerShape.list hsa hsb (forall₂_same_of_array hsigners)⟩

theorem faithful_signingPayload : Faithful SigningPayload.json := by
  intro a b v w ha hb hsame
  obtain ⟨pa, hpa, ha⟩ := Option.bind_eq_some_iff.mp ha
  obtain ⟨pb, hpb, hb⟩ := Option.bind_eq_some_iff.mp hb
  cases ha
  cases hb
  have hhash := hsame.rel_get? (js "attestationHash")
  have htimestamp := hsame.rel_get? (js "attestationTimestamp")
  have hid := hsame.rel_get? (js "policyId")
  have hpolicy := hsame.rel_get? (js "policy")
  simp at hhash htimestamp hid hpolicy
  cases a
  cases b
  simp only [SigningPayload.mk.injEq]
  exact ⟨JsonValue.same_str hhash, JsonValue.same_str htimestamp, JsonValue.same_str hid,
    faithful_policyShape _ _ _ _ hpa hpb hpolicy⟩

theorem faithful_source : Faithful AttestationSource.json := by
  intro a b v w ha hb hsame
  have hkind := hsame.rel_get? (js "kind")
  cases a with
  | reconciliation ra ha' =>
    cases ha
    cases b with
    | reconciliation rb hb' =>
      cases hb
      have hid := hsame.rel_get? (js "reportId")
      have hhash := hsame.rel_get? (js "reportHash")
      simp at hid hhash
      rw [JsonValue.same_str hid, JsonValue.same_str hhash]
    | registrum sb ob =>
      obtain ⟨n, -, hb⟩ := Option.bind_eq_some_iff.mp hb
      cases hb
      simp at hkind
      exact absurd (JsonValue.same_str hkind) (by decide)
  | registrum sa oa =>
    obtain ⟨m, hm, ha⟩ := Option.bind_eq_some_iff.mp ha
    cases ha
    cases b with
    | reconciliation rb hb' =>
      cases hb
      simp at hkind
      exact absurd (JsonValue.same_str hkind) (by decide)
    | registrum sb ob =>
      obtain ⟨n, hn, hb⟩ := Option.bind_eq_some_iff.mp hb
      cases hb
      have hid := hsame.rel_get? (js "stateId")
      have hindex := hsame.rel_get? (js "orderIndex")
      simp at hid hindex
      rw [JsonValue.same_str hid, faithful_number _ _ _ _ hm hn hindex]

theorem same_boolJson {x y : Bool} (h : (boolJson x).Same (boolJson y)) : x = y := Json.bool.inj h

theorem faithful_summary : Faithful PayloadSummary.json := by
  intro a b v w ha hb hsame
  obtain ⟨ma, hma, ha⟩ := Option.bind_eq_some_iff.mp ha
  obtain ⟨na, hna, ha⟩ := Option.bind_eq_some_iff.mp ha
  obtain ⟨ka, hka, ha⟩ := Option.bind_eq_some_iff.mp ha
  obtain ⟨mb, hmb, hb⟩ := Option.bind_eq_some_iff.mp hb
  obtain ⟨nb, hnb, hb⟩ := Option.bind_eq_some_iff.mp hb
  obtain ⟨kb, hkb, hb⟩ := Option.bind_eq_some_iff.mp hb
  cases ha
  cases hb
  have hclean := hsame.rel_get? (js "clean")
  have hmatched := hsame.rel_get? (js "matchedCount")
  have hmismatch := hsame.rel_get? (js "mismatchCount")
  have hmissing := hsame.rel_get? (js "missingCount")
  have hattested := hsame.rel_get? (js "attestedBy")
  simp at hclean hmatched hmismatch hmissing hattested
  cases a
  cases b
  simp only [PayloadSummary.mk.injEq]
  exact ⟨same_boolJson hclean, faithful_number _ _ _ _ hma hmb hmatched,
    faithful_number _ _ _ _ hna hnb hmismatch, faithful_number _ _ _ _ hka hkb hmissing,
    JsonValue.same_str hattested⟩

theorem faithful_content : Faithful PayloadContent.json := by
  intro a b v w ha hb hsame
  obtain ⟨sa, hsa, ha⟩ := Option.bind_eq_some_iff.mp ha
  obtain ⟨ma, hma, ha⟩ := Option.bind_eq_some_iff.mp ha
  obtain ⟨sb, hsb, hb⟩ := Option.bind_eq_some_iff.mp hb
  obtain ⟨mb, hmb, hb⟩ := Option.bind_eq_some_iff.mp hb
  cases ha
  cases hb
  have hsource := hsame.rel_get? (js "source")
  have hsummary := hsame.rel_get? (js "summary")
  have htimestamp := hsame.rel_get? (js "timestamp")
  simp at hsource hsummary htimestamp
  cases a
  cases b
  simp only [PayloadContent.mk.injEq]
  exact ⟨faithful_source _ _ _ _ hsa hsb hsource, faithful_summary _ _ _ _ hma hmb hsummary,
    JsonValue.same_str htimestamp⟩

theorem Faithful.injectiveJson {α : Type} {json : α → Option JsonValue} (h : Faithful json) :
    InjectiveJson fun a => textOf (json a) := by
  intro a b text ha hb
  obtain ⟨v, hv, ha⟩ := textOf_eq_ok.mp ha
  obtain ⟨w, hw, hb⟩ := textOf_eq_ok.mp hb
  exact h a b v w hv hw (JsonValue.same_of_canonicalText_eq (ha.trans hb.symm))

/-! ### One policy in two orders -/

def signerNamed (address : String) (weight : ℕ) : SignerEntry :=
  ⟨js address, js "Signer", .finite weight, js "t", none⟩

def ruledPolicy : GovernancePolicy :=
  ⟨js "id", 2, [signerNamed "b" 2, signerNamed "a" 1], .finite 2, js "t"⟩

/-- An attestation of the hash that is given. -/
def attestationOf (hash : JsString) : AttestationPayload :=
  ⟨hash, js "t", .registrum (js "s") (.finite 0),
    ⟨true, .finite 0, .finite 0, .finite 0, js "Attestor"⟩⟩

theorem subsingleton_jsonMessages {α : Type} {canonicalize : α → Except EventStore.JsError String}
    {a b : α} (h : canonicalize a = canonicalize b) :
    CollisionFree (jsonMessages canonicalize a b) := by
  rintro m ⟨s, rfl, hs⟩ n ⟨t, rfl, ht⟩ -
  rw [h, or_self] at hs ht
  rw [Except.ok.inj (hs.symm.trans ht)]

theorem inJson_ruledPolicy :
    (canonicalPolicyShape jcsPlatform 2 ruledPolicy.signers (.finite 2)).InJson := by
  refine ⟨⟨.ofNat 2, rfl⟩, fun s hs => ?_⟩
  rw [mem_signers_canonicalPolicyShape] at hs
  simp only [ruledPolicy, List.map_cons, List.map_nil, List.mem_cons, List.not_mem_nil, or_false] at hs
  rcases hs with rfl | rfl
  · exact ⟨.ofNat 2, rfl⟩
  · exact ⟨.ofNat 1, rfl⟩

theorem SigningPayload.exists_json {p : SigningPayload} {v : JsonValue} (h : p.policy.json = some v) :
    ∃ w, p.json = some w :=
  ⟨_, Option.bind_eq_some_iff.mpr ⟨v, h, rfl⟩⟩

theorem signing_binds_ruledPolicy : ∃ attestation hash,
    verifyPayloadHash jcsPayloadPlatform attestation = .ok true ∧
    buildCanonicalSigningPayload jcsPayloadPlatform attestation ruledPolicy = .ok hash ∧
    SameSigned attestation attestation ruledPolicy
      { ruledPolicy with signers := ruledPolicy.signers.reverse } := by
  obtain ⟨hbinds, hperm⟩ := signing_binds jcsPayloadPlatform faithful_content.injectiveJson
    faithful_signingPayload.injectiveJson
  obtain ⟨content, hcontent⟩ : ∃ content,
      jcsPayloadPlatform.canonicalizeContent (attestationOf []).content = .ok content :=
    exists_eq_ok_of_isOk (by decide +kernel)
  generalize hattestation : attestationOf (Verify.sha256Hex content) = attestation
  have hverify : verifyPayloadHash jcsPayloadPlatform attestation = .ok true := by
    rw [← hattestation, verifyPayloadHash]
    refine bind_eq_ok.mpr ⟨content, hcontent, ?_⟩
    exact congrArg Except.ok (decide_eq_true rfl)
  obtain ⟨policy, hpolicy⟩ := inJson_ruledPolicy.json
  obtain ⟨text, htext⟩ : ∃ text, jcsPayloadPlatform.canonicalizeSigning
      (signingPayload jcsPayloadPlatform attestation ruledPolicy) = .ok text := by
    obtain ⟨v, hv⟩ := SigningPayload.exists_json (p := signingPayload jcsPayloadPlatform attestation
      ruledPolicy) hpolicy
    exact ⟨v.canonicalText, textOf_eq_ok.mpr ⟨v, hv, rfl⟩⟩
  have hhash : buildCanonicalSigningPayload jcsPayloadPlatform attestation ruledPolicy =
      .ok (Verify.sha256Hex text) := bind_eq_ok.mpr ⟨text, htext, rfl⟩
  have hordered : Orders (fun s t => jcsPlatform.localeCompare s t ≤ 0)
      (ruledPolicy.signers.map SignerEntry.address) := Verify.orders_compareTexts _
  have hnodup : (ruledPolicy.signers.map SignerEntry.address).Nodup := by decide +kernel
  have hreverse : ruledPolicy.signers.Perm ruledPolicy.signers.reverse :=
    (List.reverse_perm ruledPolicy.signers).symm
  have hsame := hperm attestation ruledPolicy ruledPolicy.signers.reverse hordered hnodup hreverse
  have hshape : signingPayload jcsPayloadPlatform attestation ruledPolicy =
      signingPayload jcsPayloadPlatform attestation
        { ruledPolicy with signers := ruledPolicy.signers.reverse } :=
    congrArg (SigningPayload.mk _ _ _) (canonicalPolicyShape_perm hordered hnodup hreverse)
  have hcontents := subsingleton_jsonMessages
    (Eq.refl (jcsPayloadPlatform.canonicalizeContent attestation.content))
  have hpayloads := subsingleton_jsonMessages (congrArg jcsPayloadPlatform.canonicalizeSigning hshape)
  exact ⟨attestation, _, hverify, hhash, hbinds attestation attestation ruledPolicy _ _ hcontents
    hpayloads hverify hverify hhash (hsame.trans hhash)⟩

end Attestia.Witness
