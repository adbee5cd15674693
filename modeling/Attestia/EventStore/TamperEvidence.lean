import Attestia.EventStore.HashChain
import Attestia.Lib.HashChain
import Attestia.Lib.Sha256Words

/-!
# Tamper evidence

Two logs in which every record is hashed, which both pass the verification and end in the
same hash, hold the same events. The hash input is the canonical content followed by the
previous hash without a separator; it still parses in one way only, because a previous
hash is either the genesis text or 64 hexadecimal digits.
-/

namespace Attestia.EventStore

open Lib JsonNumber

/-! ## Content -/

/-- The same event content, where the members of JSON objects have no order. -/
structure SameContent (a b : EventContent) : Prop where
  event : ∃ v w, a.event.image = .ok v ∧ b.event.image = .ok w ∧ v.Same w
  streamId : a.streamId = b.streamId
  version : a.version = b.version
  globalPosition : a.globalPosition = b.globalPosition
  appendedAt : a.appendedAt = b.appendedAt

theorem EventContent.get?_entries (c : EventContent) (b : JsonValue) :
    (JsonValue.object (c.entries b)).get? (js "event") = some b ∧
      (JsonValue.object (c.entries b)).get? (js "streamId") = some (.str c.streamId) ∧
      (JsonValue.object (c.entries b)).get? (js "version") = some (.num c.version) ∧
      (JsonValue.object (c.entries b)).get? (js "globalPosition") = some (.num c.globalPosition) ∧
      (JsonValue.object (c.entries b)).get? (js "appendedAt") = some (.str c.appendedAt) := by
  simp [EventContent.entries]

theorem sameContent_of_image {a b : EventContent} {v w : JsonValue} (ha : a.image = .ok v)
    (hb : b.image = .ok w) (h : v.Same w) : SameContent a b := by
  rw [EventContent.image] at ha hb
  cases hea : a.event.image with
  | error e => rw [hea] at ha; cases ha
  | ok x =>
    cases heb : b.event.image with
    | error e => rw [heb] at hb; cases hb
    | ok y =>
      rw [hea] at ha
      rw [heb] at hb
      cases ha
      cases hb
      obtain ⟨a1, a2, a3, a4, a5⟩ := a.get?_entries x
      obtain ⟨b1, b2, b3, b4, b5⟩ := b.get?_entries y
      have field : ∀ {key : JsString} {p q : JsonValue},
          (JsonValue.object (a.entries x)).get? key = some p →
          (JsonValue.object (b.entries y)).get? key = some q → p.Same q := by
        intro key p q hp hq
        obtain ⟨q', hq', hs⟩ := h.get? hp
        cases hq.symm.trans hq'
        exact hs
      exact ⟨⟨x, y, hea, heb, field a1 b1⟩, JsonValue.same_str (field a2 b2),
        JsonValue.same_num (field a3 b3), JsonValue.same_num (field a4 b4),
        JsonValue.same_str (field a5 b5)⟩

/-! ## Hash inputs -/

/-- The messages that are hashed to verify the events of a log. -/
def hashedMessages (cz : Canonicalizer) (events : List StoredEvent) : Set Bytes :=
  {m | ∃ e ∈ events, ∃ hash previousHash content suffix, e.links = some (hash, previousHash) ∧
    cz.canonicalize e.toEventContent = .ok content ∧ template previousHash = .ok suffix ∧
    m = Utf8.encode (JsString.toWellFormed (js content ++ suffix))}

/-- What a previous hash looks like in a chain that starts at genesis. -/
def ChainHash (h : JsString) : Prop := h = GENESIS_HASH ∨ ∃ m, h = sha256Hex m

theorem toWellFormed_sha256Hex (m : JsString) :
    ∃ ds, JsString.toWellFormed (sha256Hex m) = ds ∧ ds.length = 64 ∧
      ∀ c ∈ ds, isLowerHex c = true := by
  refine ⟨_, toWellFormed_js _, ?_, fun c hc => isLowerHex_of_mem_hexEncode hc⟩
  rw [hexEncode_length, sha256_length]

theorem sha256Hex_ne_genesis (m : JsString) : sha256Hex m ≠ GENESIS_HASH := by
  intro h
  obtain ⟨ds, hds, hlen, -⟩ := toWellFormed_sha256Hex m
  rw [h, GENESIS_HASH, toWellFormed_js] at hds
  rw [← hds] at hlen
  revert hlen
  decide

/-- A text that ends in hexadecimal digits does not end in the genesis text. -/
theorem append_genesis_ne {a b ds : List Char} (hlen : ds.length = 64)
    (hds : ∀ c ∈ ds, isLowerHex c = true) : a ++ "genesis".toList ≠ b ++ ds := by
  intro h
  obtain rfl | ⟨ds, d, rfl⟩ := List.eq_nil_or_concat' ds
  · cases hlen
  · have hs : a ++ "genesi".toList ++ ['s'] = b ++ ds ++ [d] := by
      rw [List.append_assoc, List.append_assoc, ← h]
      rfl
    have hd := List.singleton_inj.mp (List.append_inj' hs rfl).2
    have := hds d (by simp)
    rw [← hd] at this
    cases this

/-- The previous hash is read off the end of a hash input. -/
theorem append_chainHash_inj {a b : String} {p q : JsString} (hp : ChainHash p) (hq : ChainHash q)
    (h : JsString.toWellFormed (js a ++ p) = JsString.toWellFormed (js b ++ q)) :
    a = b ∧ p = q := by
  rw [toWellFormed_js_append, toWellFormed_js_append] at h
  obtain rfl | ⟨m, rfl⟩ := hp <;> obtain rfl | ⟨n, rfl⟩ := hq
  · exact ⟨String.toList_injective (List.append_cancel_right h), rfl⟩
  · obtain ⟨ds, hds, hlen, hhex⟩ := toWellFormed_sha256Hex n
    rw [GENESIS_HASH, toWellFormed_js, hds] at h
    exact absurd h (append_genesis_ne hlen hhex)
  · obtain ⟨ds, hds, hlen, hhex⟩ := toWellFormed_sha256Hex m
    rw [GENESIS_HASH, toWellFormed_js, hds] at h
    exact absurd h.symm (append_genesis_ne hlen hhex)
  · obtain ⟨ds, hds, hlen, -⟩ := toWellFormed_sha256Hex m
    obtain ⟨ds', hds', hlen', -⟩ := toWellFormed_sha256Hex n
    rw [hds, hds'] at h
    obtain ⟨hab, hd⟩ := List.append_inj' h (hlen.trans hlen'.symm)
    refine ⟨String.toList_injective hab, ?_⟩
    rw [← hds, ← hds', sha256Hex, sha256Hex, toWellFormed_js, toWellFormed_js] at hd
    rw [sha256Hex, sha256Hex, String.toList_injective hd]

/-! ## Chains -/

variable {cz : Canonicalizer}

/-- The hash that a content has behind a previous hash. -/
def digest (cz : Canonicalizer) (c : EventContent) (p : JsString) : JsString :=
  match computeEventHash cz c (.str p) with
  | .ok h => h
  | .error _ => []

def chainEntry (e : StoredEvent) : HashChain.Entry EventContent JsString :=
  ⟨e.toEventContent, (e.links.map fun l => hashText l.2).getD [],
    (e.links.map fun l => hashText l.1).getD []⟩

/-- A record of a verified log, all of whose records are hashed. -/
structure HashedRecord (cz : Canonicalizer) (e : StoredEvent) : Prop where
  links : e.links = some (.str (chainEntry e).hash, .str (chainEntry e).previous)
  hash : computeEventHash cz e.toEventContent (.str (chainEntry e).previous) =
    .ok (chainEntry e).hash
  previous : ChainHash (chainEntry e).previous

theorem chainHash_of_computeEventHash {c : EventContent} {v : JsonValue} {h : JsString}
    (hh : computeEventHash cz c v = .ok h) : ChainHash h := by
  obtain ⟨content, -, hh⟩ := bind_eq_ok.mp hh
  obtain ⟨suffix, -, hh⟩ := bind_eq_ok.mp hh
  cases hh
  exact .inr ⟨_, rfl⟩

/-- A verified log of hashed records is a hash chain. -/
theorem linked_of_chainFrom {c : ChainEnd} {events : List StoredEvent}
    (hc : ChainHash (c.hash.getD GENESIS_HASH)) (hl : ∀ e ∈ events, e.links ≠ none)
    (h : ChainFrom cz c events) :
    HashChain.Linked (digest cz) (c.hash.getD GENESIS_HASH) (events.map chainEntry) ∧
      ∀ e ∈ events, HashedRecord cz e := by
  induction events generalizing c with
  | nil => exact ⟨trivial, fun _ h => (nomatch h)⟩
  | cons e events ih =>
    obtain ⟨⟨-, hlink⟩, hrest⟩ := h
    obtain ⟨l, hel⟩ := Option.ne_none_iff_exists'.mp (hl e (.head _))
    obtain ⟨hash, previousHash⟩ := l
    simp only [hel] at hlink
    obtain ⟨rfl, x, hx, rfl⟩ := hlink
    have hentry : chainEntry e = ⟨e.toEventContent, c.hash.getD GENESIS_HASH, x⟩ := by
      rw [chainEntry, hel]
      rfl
    have hnext : (c.next e).hash = some x := by
      rw [ChainEnd.next, hel]
      rfl
    have hdig : digest cz e.toEventContent (c.hash.getD GENESIS_HASH) = x := by
      rw [digest, hx]
    obtain ⟨ih1, ih2⟩ := ih (c := c.next e)
      (by rw [hnext]; exact chainHash_of_computeEventHash hx) (fun a ha => hl a (.tail _ ha)) hrest
    rw [hnext, Option.getD_some] at ih1
    rw [List.map_cons, hentry]
    refine ⟨⟨rfl, hdig.symm, ih1⟩, fun a ha => ?_⟩
    obtain rfl | ha := List.mem_cons.mp ha
    · exact ⟨by rw [hentry]; exact hel, by rw [hentry]; exact hx, by rw [hentry]; exact hc⟩
    · exact ih2 a ha

theorem HashedRecord.digest_eq {e : StoredEvent} (h : HashedRecord cz e) :
    ∃ content, cz.canonicalize e.toEventContent = .ok content ∧
      digest cz (chainEntry e).content (chainEntry e).previous =
        sha256Hex (js content ++ (chainEntry e).previous) := by
  have hc : (chainEntry e).content = e.toEventContent := rfl
  obtain ⟨content, hcontent, hh⟩ := bind_eq_ok.mp h.hash
  obtain ⟨suffix, hs, hh⟩ := bind_eq_ok.mp hh
  cases hs
  refine ⟨content, hcontent, ?_⟩
  rw [digest, hc, h.hash]
  exact (Except.ok.inj hh).symm

/-- Hashed records with the same hash have the same content and the same previous hash. -/
theorem HashedRecord.eq_of_digest_eq {S : Set Bytes} (hcoll : CollisionFree S)
    (hcanon : ∀ v w, cz.text v = cz.text w → v.Same w) {a b : StoredEvent}
    (ha : HashedRecord cz a) (hb : HashedRecord cz b) (hSa : hashedMessages cz [a] ⊆ S)
    (hSb : hashedMessages cz [b] ⊆ S)
    (h : digest cz (chainEntry a).content (chainEntry a).previous =
      digest cz (chainEntry b).content (chainEntry b).previous) :
    SameContent a.toEventContent b.toEventContent ∧
      (chainEntry a).previous = (chainEntry b).previous := by
  obtain ⟨s, hs, hda⟩ := ha.digest_eq
  obtain ⟨t, ht, hdb⟩ := hb.digest_eq
  rw [hda, hdb, sha256Hex, sha256Hex, js_inj] at h
  have hmem : ∀ {e : StoredEvent} {c : String}, HashedRecord cz e →
      cz.canonicalize e.toEventContent = .ok c →
      Utf8.encode (JsString.toWellFormed (js c ++ (chainEntry e).previous)) ∈
        hashedMessages cz [e] := fun {e c} he hc =>
    ⟨e, .head _, _, _, c, _, he.links, hc, rfl, rfl⟩
  have hmsg := hcoll (hSa (hmem ha hs)) (hSb (hmem hb ht)) (hexEncode_injective h)
  have htext := congrArg Utf8.decode hmsg
  rw [Utf8.decode_encode, Utf8.decode_encode] at htext
  obtain ⟨rfl, hprev⟩ := append_chainHash_inj ha.previous hb.previous htext
  refine ⟨?_, hprev⟩
  obtain ⟨v, hv, hsv⟩ := cz.eq_text_of_canonicalize _ _ hs
  obtain ⟨w, hw, hsw⟩ := cz.eq_text_of_canonicalize _ _ ht
  exact sameContent_of_image hv hw (hcanon v w (hsv.symm.trans hsw))

theorem links_ne_none {e : StoredEvent} (h : e.hash ≠ none ∧ e.previousHash ≠ none) :
    e.links ≠ none := by
  obtain ⟨x, hx⟩ := Option.ne_none_iff_exists'.mp h.1
  obtain ⟨y, hy⟩ := Option.ne_none_iff_exists'.mp h.2
  rw [StoredEvent.links, hx, hy]
  exact Option.some_ne_none _

theorem HashedRecord.hash_eq {e : StoredEvent} (h : HashedRecord cz e) :
    e.hash = some (.str (chainEntry e).hash) := by
  have hl := h.links
  generalize (chainEntry e).hash = x at hl ⊢
  generalize (chainEntry e).previous = y at hl
  unfold StoredEvent.links at hl
  split at hl
  · rename_i hh _
    cases hl
    exact hh
  · cases hl

theorem last_chainEntry (events : List StoredEvent) :
    HashChain.last GENESIS_HASH (events.map chainEntry) =
      (events.getLast?.map fun e => (chainEntry e).hash).getD GENESIS_HASH := by
  rw [HashChain.last, List.getLast?_map, Option.map_map]
  rfl

/-- Fully hashed logs that pass the verification and end in the same hash have the same
length and the same content, record by record. -/
theorem sameContent_of_verifies (as bs : List StoredEvent)
    (hcoll : CollisionFree (hashedMessages cz as ∪ hashedMessages cz bs))
    (hcanon : ∀ v w, cz.text v = cz.text w → v.Same w)
    (hla : ∀ e ∈ as, e.hash ≠ none ∧ e.previousHash ≠ none)
    (hlb : ∀ e ∈ bs, e.hash ≠ none ∧ e.previousHash ≠ none)
    (ha : Verifies cz as) (hb : Verifies cz bs)
    (hlast : as.getLast?.map StoredEvent.hash = bs.getLast?.map StoredEvent.hash) :
    as.length = bs.length ∧
      List.Forall₂ (fun a b => SameContent a.toEventContent b.toEventContent) as bs := by
  obtain ⟨hchain, hrec⟩ := linked_of_chainFrom (.inl rfl)
    (fun e he => links_ne_none (hla e he)) ((verifies_iff as).mp ha)
  obtain ⟨hchain', hrec'⟩ := linked_of_chainFrom (.inl rfl)
    (fun e he => links_ne_none (hlb e he)) ((verifies_iff bs).mp hb)
  have hne : ∀ {e : StoredEvent}, HashedRecord cz e →
      digest cz (chainEntry e).content (chainEntry e).previous ≠ GENESIS_HASH := by
    intro e he
    obtain ⟨s, -, hs⟩ := he.digest_eq
    rw [hs]
    exact sha256Hex_ne_genesis _
  have hend : HashChain.last GENESIS_HASH (as.map chainEntry) =
      HashChain.last GENESIS_HASH (bs.map chainEntry) := by
    rw [last_chainEntry, last_chainEntry]
    cases hal : as.getLast? with
    | none =>
      rw [hal, Option.map_none, eq_comm, Option.map_eq_none_iff] at hlast
      rw [hlast]
    | some a =>
      rw [hal, Option.map_some, eq_comm] at hlast
      obtain ⟨b, hbl, hab⟩ := Option.map_eq_some_iff.mp hlast
      have hea := (hrec a (List.mem_of_getLast? hal)).hash_eq
      have heb := (hrec' b (List.mem_of_getLast? hbl)).hash_eq
      rw [heb, hea, Option.some.injEq] at hab
      rw [hbl, Option.map_some, Option.map_some, JsonValue.str_injective hab]
  have hsub : ∀ {es : List StoredEvent} {e : StoredEvent}, e ∈ es →
      hashedMessages cz [e] ⊆ hashedMessages cz es := by
    rintro es e he m ⟨x, hx, hm⟩
    exact ⟨x, List.mem_singleton.mp hx ▸ he, hm⟩
  have hall : List.Forall₂ (fun a b => SameContent a.content b.content) (as.map chainEntry)
      (bs.map chainEntry) :=
    HashChain.forall₂_of_last_eq ?_ ?_ ?_ hchain hchain' hend
  · rw [List.forall₂_map_left_iff, List.forall₂_map_right_iff] at hall
    exact ⟨hall.length_eq, hall⟩
  · intro x hx y hy h
    obtain ⟨a, hma, rfl⟩ := List.mem_map.mp hx
    obtain ⟨b, hmb, rfl⟩ := List.mem_map.mp hy
    exact (hrec a hma).eq_of_digest_eq hcoll hcanon (hrec' b hmb)
      ((hsub hma).trans Set.subset_union_left) ((hsub hmb).trans Set.subset_union_right) h
  · intro x hx
    obtain ⟨a, hma, rfl⟩ := List.mem_map.mp hx
    exact hne (hrec a hma)
  · intro x hx
    obtain ⟨b, hmb, rfl⟩ := List.mem_map.mp hx
    exact hne (hrec' b hmb)

/-! ## A log with reordered members -/

def payloadAB : JsonValue := .object [(js "a", some .null), (js "b", some .null)]

def payloadBA : JsonValue := .object [(js "b", some .null), (js "a", some .null)]

def openedAt (n : ℕ) (payload : JsonValue) : EventContent :=
  ⟨⟨.json (.str (js "opened")), .undefined, .json payload⟩, js "a", .ofNat n, .ofNat n, js "t"⟩

def openedHash (payload : JsonValue) : JsString := digest jcs (openedAt 1 payload) GENESIS_HASH

/-- Two events; the second one continues the hash of the first. -/
def openedTwice (payload : JsonValue) : List StoredEvent :=
  [⟨openedAt 1 payload, some (.str (openedHash payload)), some (.str GENESIS_HASH)⟩,
    ⟨openedAt 2 payload, some (.str (digest jcs (openedAt 2 payload) (openedHash payload))),
      some (.str (openedHash payload))⟩]

theorem computeEventHash_openedAt (n : ℕ) (payload : JsonValue) (previous : JsString) :
    computeEventHash jcs (openedAt n payload) (.str previous) =
      .ok (digest jcs (openedAt n payload) previous) := rfl

theorem verifies_pair {c c' : EventContent} {h h' : JsString}
    (hc : computeEventHash cz c (.str GENESIS_HASH) = .ok h)
    (hc' : computeEventHash cz c' (.str h) = .ok h')
    (hposition : c'.globalPosition = c.globalPosition.succ) :
    Verifies cz [⟨c, some (.str h), some (.str GENESIS_HASH)⟩, ⟨c', some (.str h'), some (.str h)⟩] := by
  rw [verifies_iff]
  refine ⟨⟨fun _ hp => (nomatch hp), rfl, _, hc, rfl⟩, ⟨fun p hp => ?_, rfl, _, hc', rfl⟩, trivial⟩
  exact hposition.trans (Option.some.inj hp)

theorem verifies_openedTwice (payload : JsonValue) : Verifies jcs (openedTwice payload) :=
  verifies_pair (computeEventHash_openedAt 1 payload GENESIS_HASH)
    (computeEventHash_openedAt 2 payload (openedHash payload)) (Number.succ_ofNat 1).symm

theorem canonicalize_openedAt (n : ℕ) :
    jcs.canonicalize (openedAt n payloadBA) = jcs.canonicalize (openedAt n payloadAB) := by
  apply congrArg Except.ok
  apply JsonValue.canonicalText_eq_of_same
  apply JsonValue.same_object
  refine .cons ⟨rfl, .some (JsonValue.same_object (.cons ⟨rfl, .some rfl⟩ (.cons ⟨rfl, .none⟩
    (.cons ⟨rfl, .some ?_⟩ .nil))))⟩ (List.forall₂_same.mpr fun e _ => ⟨rfl, ?_⟩)
  · exact JsonValue.same_object_of_perm (.swap _ _ []) (by simp)
  · cases e.2 <;> constructor
    rfl

theorem digest_openedAt (n : ℕ) (previous : JsString) :
    digest jcs (openedAt n payloadBA) previous = digest jcs (openedAt n payloadAB) previous := by
  simp only [digest, computeEventHash, canonicalize_openedAt]

theorem openedHash_payloadBA : openedHash payloadBA = openedHash payloadAB := digest_openedAt 1 _

/-- The canonical text of an event. -/
def openedContent (n : ℕ) : List Char :=
  (JsonValue.object ((openedAt n payloadAB).entries (.object [(js "type", some (.str (js "opened"))),
    (js "metadata", none), (js "payload", some payloadAB)]))).val.sortKeys.text

/-- What is hashed for an event behind a hash. -/
def openedMessage (n : ℕ) (previous : JsString) : Bytes :=
  Utf8.encode (openedContent n ++ JsString.toWellFormed previous)

theorem canonicalize_openedAt_eq (n : ℕ) :
    jcs.canonicalize (openedAt n payloadAB) = .ok (String.ofList (openedContent n)) := rfl

theorem openedHash_eq : openedHash payloadAB = JsString.units ((Sha256.Words.sha256 (openedMessage 1
    GENESIS_HASH)).flatMap hexByte) := by
  have hdigest : openedHash payloadAB =
      sha256Hex (js (String.ofList (openedContent 1)) ++ GENESIS_HASH) := rfl
  rw [hdigest, sha256Hex, toWellFormed_js_append, String.toList_ofList, js, hexEncode,
    String.toList_ofList, sha256_eq_words, openedMessage]

/-- What is hashed for either log. -/
def openedMessages : List Bytes :=
  [openedMessage 1 GENESIS_HASH, openedMessage 2 (openedHash payloadAB)]

theorem hashedMessages_openedTwice {payload : JsonValue}
    (h : payload = payloadAB ∨ payload = payloadBA) :
    hashedMessages jcs (openedTwice payload) ⊆ {m | m ∈ openedMessages} := by
  have hcanonicalize : ∀ n, jcs.canonicalize (openedAt n payload) =
      jcs.canonicalize (openedAt n payloadAB) := by
    intro n
    rcases h with rfl | rfl
    · rfl
    · exact canonicalize_openedAt n
  have hopened : openedHash payload = openedHash payloadAB := by
    rcases h with rfl | rfl
    · rfl
    · exact openedHash_payloadBA
  have hmessage : ∀ n (previous : JsString) content suffix,
      jcs.canonicalize (openedAt n payload) = .ok content →
      template (.str previous) = .ok suffix →
      Utf8.encode (JsString.toWellFormed (js content ++ suffix)) = openedMessage n previous := by
    intro n previous content suffix hc hs
    obtain rfl : content = String.ofList (openedContent n) :=
      Except.ok.inj (hc.symm.trans ((hcanonicalize n).trans (canonicalize_openedAt_eq n)))
    rw [openedMessage, ← Except.ok.inj hs, toWellFormed_js_append, String.toList_ofList]
  rintro m ⟨e, he, hash, previousHash, content, suffix, hl, hc, hs, rfl⟩
  simp only [openedTwice, List.mem_cons, List.not_mem_nil, or_false] at he
  rcases he with rfl | rfl
  · simp only [StoredEvent.links, Option.some.injEq, Prod.mk.injEq] at hl
    rw [← hl.2] at hs
    rw [hmessage 1 _ content suffix hc hs]
    exact .head _
  · simp only [StoredEvent.links, Option.some.injEq, Prod.mk.injEq] at hl
    rw [← hl.2] at hs
    rw [hmessage 2 _ content suffix hc hs, hopened]
    exact .tail _ (.head _)

theorem heads_openedMessages : (openedMessages.map fun m => (sha256 m).head?).Nodup := by
  rw [openedMessages, openedHash_eq, sha256_eq_words]
  simp only [openedMessage, JsString.toWellFormed_units]
  decide +kernel

theorem sameContent_of_verifies_openedTwice :
    (openedTwice payloadAB).length = (openedTwice payloadBA).length ∧
      List.Forall₂ (fun a b => SameContent a.toEventContent b.toEventContent)
        (openedTwice payloadAB) (openedTwice payloadBA) := by
  have hhashed : ∀ payload, ∀ e ∈ openedTwice payload, e.hash ≠ none ∧ e.previousHash ≠ none := by
    intro payload e he
    simp only [openedTwice, List.mem_cons, List.not_mem_nil, or_false] at he
    rcases he with rfl | rfl
    · exact ⟨Option.some_ne_none _, Option.some_ne_none _⟩
    · exact ⟨Option.some_ne_none _, Option.some_ne_none _⟩
  have hcoll : CollisionFree {m | m ∈ openedMessages} := collisionFree_of_head heads_openedMessages
  refine sameContent_of_verifies _ _ (hcoll.mono (Set.union_subset
    (hashedMessages_openedTwice (.inl rfl)) (hashedMessages_openedTwice (.inr rfl))))
    (fun v w h => JsonValue.same_of_canonicalText_eq h) (hhashed _) (hhashed _)
    (verifies_openedTwice _) (verifies_openedTwice _) ?_
  simp only [openedTwice, List.getLast?_cons_cons, List.getLast?_singleton, Option.map_some,
    digest_openedAt, openedHash_payloadBA]

end Attestia.EventStore
