import Attestia.Lib.Sha256Words
import Attestia.Verify.MultiChainReplay

/-!
# What the combined hash commits to

Audits that come to one combined hash are audits of the same chains, with the same events in the
same order of their indices; and the combined hash does not depend on the order in which the
events are given where no chain has two events of one index.
-/

namespace Attestia.Verify

open Lib JsonNumber

variable {canonicalize : JsonValue → String} {localeCompare : JsString → JsString → ℤ}

/-! ## Events and their images -/

/-- The same event for the audit; the timestamp is not hashed, and the members of the data have no
order. -/
structure SameEvent (a b : ChainEvent) : Prop where
  chainId : a.chainId = b.chainId
  eventHash : a.eventHash = b.eventHash
  sequenceIndex : a.sequenceIndex = b.sequenceIndex
  data : a.data.toJsonValue.Same b.data.toJsonValue

theorem sameEvent_of_same {a b : ChainEvent} (h : (eventJson a).Same (eventJson b)) :
    SameEvent a b := by
  have hchain := h.rel_get? (js "chainId")
  have hhash := h.rel_get? (js "eventHash")
  have hindex := h.rel_get? (js "sequenceIndex")
  have hdata := h.rel_get? (js "data")
  simp [eventJson] at hchain hhash hindex hdata
  exact ⟨JsonValue.same_str hchain, JsonValue.same_str hhash, JsonValue.same_num hindex, hdata⟩

/-- What is hashed of a result. -/
def committed (r : ChainReplayResult) : JsString × JsString × ℕ := (r.chainId, r.hashChain, r.eventCount)

def committedJson (c : JsString × JsString × ℕ) : JsonValue :=
  resultJson ⟨c.1, c.2.1, c.2.2, [], []⟩

theorem committedJson_injective (a b : JsString × JsString × ℕ)
    (h : (committedJson a).Same (committedJson b)) : a = b := by
  have hchain := h.rel_get? (js "chainId")
  have hhash := h.rel_get? (js "hashChain")
  have hcount := h.rel_get? (js "eventCount")
  simp [committedJson, resultJson] at hchain hhash hcount
  have hval := congrArg Number.val (JsonValue.same_num hcount)
  refine Prod.ext (JsonValue.same_str hchain) (Prod.ext (JsonValue.same_str hhash) ?_)
  exact Nat.cast_injective hval

theorem committed_eq_of_same {as bs : List ChainReplayResult}
    (h : (combinedJson as).Same (combinedJson bs)) : as.map committed = bs.map committed := by
  have hchains := h.rel_get? (js "chains")
  simp only [combinedJson, JsonValue.get?_object_cons, if_true] at hchains
  cases hchains with | some hchains =>
  have hencode : ∀ rs : List ChainReplayResult,
      rs.map resultJson = (rs.map committed).map committedJson := fun rs => by
    rw [List.map_map]
    rfl
  rw [hencode, hencode] at hchains
  exact JsonValue.eq_of_same_array committedJson_injective hchains

/-! ## Chains -/

/-- The digests have 64 characters. -/
theorem toWellFormed_sha256Text (data : JsString) :
    ∃ ds, sha256Text data = js ds ∧ ds.toList.length = 64 :=
  ⟨_, rfl, by rw [hexEncode_length, sha256_length]⟩

theorem currentHash_add (s : ChainState) (event : ChainEvent) :
    (ChainState.add canonicalize s event).currentHash =
      chainStep canonicalize s.currentHash event := by
  rw [ChainState.add]

theorem currentHash_foldl (s : ChainState) (events : List ChainEvent) :
    (events.foldl (ChainState.add canonicalize) s).currentHash =
      events.foldl (chainStep canonicalize) s.currentHash := by
  induction events generalizing s with
  | nil => rfl
  | cons event events ih => rw [List.foldl_cons, List.foldl_cons, ih, currentHash_add]

theorem hashChain_eq (chainId : JsString) (events : List ChainEvent) :
    (computeChainHashChain canonicalize chainId events).hashChain =
      events.foldl (chainStep canonicalize) (genesis chainId) := by
  rw [computeChainHashChain]
  dsimp only
  rw [currentHash_foldl]

/-- What is hashed along a chain. -/
def chainMessages (canonicalize : JsonValue → String) (chainId : JsString)
    (events : List ChainEvent) : Set Bytes :=
  {m | ∃ l ∈ HashChain.links (chainStep canonicalize) (genesis chainId) events,
    m = textBytes (l.2 ++ js (canonicalize (eventJson l.1)))}

theorem digest_of_links {g : JsString} {events : List ChainEvent}
    (hg : ∃ ds, g = js ds ∧ ds.toList.length = 64) {l : ChainEvent × JsString}
    (hl : l ∈ HashChain.links (chainStep canonicalize) g events) :
    ∃ ds, l.2 = js ds ∧ ds.toList.length = 64 := by
  induction events generalizing g with
  | nil => cases hl
  | cons event events ih =>
    rcases List.mem_cons.mp hl with rfl | hl
    · exact hg
    · exact ih (toWellFormed_sha256Text _) hl

/-- A digest in front of a text is read off. -/
theorem append_digest_inj {g g' : JsString} (hg : ∃ ds, g = js ds ∧ ds.toList.length = 64)
    (hg' : ∃ ds, g' = js ds ∧ ds.toList.length = 64) {s t : String}
    (h : textBytes (g ++ js s) = textBytes (g' ++ js t)) : g = g' ∧ s = t := by
  obtain ⟨ds, rfl, hds⟩ := hg
  obtain ⟨es, rfl, hes⟩ := hg'
  have htext := congrArg Utf8.decode h
  rw [textBytes, textBytes, Utf8.decode_encode, Utf8.decode_encode, toWellFormed_js_append,
    toWellFormed_js_append, toWellFormed_js, toWellFormed_js] at htext
  obtain ⟨hfirst, hsecond⟩ := List.append_inj htext (hds.trans hes.symm)
  exact ⟨congrArg js (String.toList_injective hfirst), String.toList_injective hsecond⟩

/-- Chains of one length and one end have the same events. -/
theorem sameEvents_of_hashChain_eq (hcanon : ∀ v w, canonicalize v = canonicalize w → v.Same w)
    {chainId : JsString} {as bs : List ChainEvent} (hlen : as.length = bs.length)
    (hcf : CollisionFree (chainMessages canonicalize chainId as ∪ chainMessages canonicalize chainId bs))
    (h : as.foldl (chainStep canonicalize) (genesis chainId) =
      bs.foldl (chainStep canonicalize) (genesis chainId)) : List.Forall₂ SameEvent as bs := by
  have hgenesis : ∃ ds, genesis chainId = js ds ∧ ds.toList.length = 64 := toWellFormed_sha256Text _
  refine (HashChain.forall₂_of_foldl_eq hlen ?_ h).2
  intro x hx y hy heq
  have hbytes := hcf (.inl ⟨x, hx, rfl⟩) (.inr ⟨y, hy, rfl⟩) (hexEncode_injective (js_injective heq))
  obtain ⟨hprevious, htext⟩ :=
    append_digest_inj (digest_of_links hgenesis hx) (digest_of_links hgenesis hy) hbytes
  exact ⟨sameEvent_of_same (hcanon _ _ htext), hprevious⟩

/-! ## Audits -/

/-- The events of a chain in the order of their indices. -/
def sequence (events : List ChainEvent) (chainId : JsString) : List ChainEvent :=
  sortBySequence (events.filter fun e => e.chainId = chainId)

theorem mem_chainsOf {events : List ChainEvent} {c : JsString × List ChainEvent} :
    c ∈ chainsOf events ↔ c.1 ∈ events.map ChainEvent.chainId ∧ c.2 = sequence events c.1 := by
  obtain ⟨chainId, chain⟩ := c
  simp only [chainsOf, List.mem_map, Prod.exists, Prod.mk.injEq]
  constructor
  · rintro ⟨id, group, hmem, rfl, rfl⟩
    obtain ⟨rfl, hne⟩ := (JsMap.mem_entries_groupBy _).mp hmem
    obtain ⟨e, he⟩ := List.exists_mem_of_ne_nil _ hne
    obtain ⟨he, hid⟩ := List.mem_filter.mp he
    exact ⟨⟨e, he, of_decide_eq_true hid⟩, rfl⟩
  · rintro ⟨⟨e, he, rfl⟩, rfl⟩
    have hne : (events.filter fun x => x.chainId = e.chainId) ≠ [] :=
      List.ne_nil_of_mem (List.mem_filter.mpr ⟨he, decide_eq_true rfl⟩)
    exact ⟨e.chainId, _, (JsMap.mem_entries_groupBy _).mpr ⟨rfl, hne⟩, rfl, rfl⟩

theorem nodup_chainsOf (events : List ChainEvent) : ((chainsOf events).map Prod.fst).Nodup := by
  rw [chainsOf, List.map_map]
  exact (JsMap.groupBy ChainEvent.chainId events).nodup

/-- The results of the chains, and as they are hashed together. -/
def chainResults (canonicalize : JsonValue → String) (events : List ChainEvent) :
    List ChainReplayResult :=
  (chainsOf events).map fun c => computeChainHashChain canonicalize c.1 c.2

def auditResults (canonicalize : JsonValue → String) (localeCompare : JsString → JsString → ℤ)
    (events : List ChainEvent) : List ChainReplayResult :=
  sortedResults localeCompare (chainResults canonicalize events)

theorem mem_chainResults {events : List ChainEvent} {r : ChainReplayResult} :
    r ∈ chainResults canonicalize events ↔ ∃ chainId ∈ events.map ChainEvent.chainId,
      computeChainHashChain canonicalize chainId (sequence events chainId) = r := by
  rw [chainResults, List.mem_map]
  constructor
  · rintro ⟨c, hc, rfl⟩
    obtain ⟨hid, hchain⟩ := mem_chainsOf.mp hc
    exact ⟨c.1, hid, by rw [hchain]⟩
  · rintro ⟨chainId, hid, rfl⟩
    exact ⟨(chainId, sequence events chainId), mem_chainsOf.mpr ⟨hid, rfl⟩, rfl⟩

theorem mem_auditResults {events : List ChainEvent} {r : ChainReplayResult} :
    r ∈ auditResults canonicalize localeCompare events ↔ r ∈ chainResults canonicalize events :=
  (List.perm_insertionSort _ _).mem_iff

/-- What is hashed in an audit behind the first hash of each chain. -/
def auditMessages (canonicalize : JsonValue → String) (localeCompare : JsString → JsString → ℤ)
    (events : List ChainEvent) : Set Bytes :=
  {m | m = textBytes (js (canonicalize (combinedJson (auditResults canonicalize localeCompare events)))) ∨
    ∃ chainId, m ∈ chainMessages canonicalize chainId (sequence events chainId)}

theorem committed_computeChainHashChain (chainId : JsString) (events : List ChainEvent) :
    committed (computeChainHashChain canonicalize chainId events) =
      (chainId, events.foldl (chainStep canonicalize) (genesis chainId), events.length) :=
  Prod.ext rfl (Prod.ext (hashChain_eq chainId events) rfl)

/-- The chains of one audit are among those of the other. -/
theorem exists_chain_of_committed_eq {as bs : List ChainEvent}
    (h : (auditResults canonicalize localeCompare as).map committed =
      (auditResults canonicalize localeCompare bs).map committed)
    {chainId : JsString} (hmem : chainId ∈ as.map ChainEvent.chainId) :
    chainId ∈ bs.map ChainEvent.chainId ∧
      (sequence as chainId).length = (sequence bs chainId).length ∧
      (sequence as chainId).foldl (chainStep canonicalize) (genesis chainId) =
        (sequence bs chainId).foldl (chainStep canonicalize) (genesis chainId) := by
  have hresult : committed (computeChainHashChain canonicalize chainId (sequence as chainId)) ∈
      (auditResults canonicalize localeCompare as).map committed :=
    List.mem_map_of_mem (mem_auditResults.mpr (mem_chainResults.mpr ⟨chainId, hmem, rfl⟩))
  rw [h, List.mem_map] at hresult
  obtain ⟨r, hr, heq⟩ := hresult
  obtain ⟨chainId', hmem', rfl⟩ := mem_chainResults.mp (mem_auditResults.mp hr)
  rw [committed_computeChainHashChain, committed_computeChainHashChain] at heq
  obtain ⟨rfl, heq⟩ := Prod.mk.inj heq
  obtain ⟨hhash, hlen⟩ := Prod.mk.inj heq
  exact ⟨hmem', hlen.symm, hhash.symm⟩

theorem sequence_eq_nil {events : List ChainEvent} {chainId : JsString}
    (h : chainId ∉ events.map ChainEvent.chainId) : sequence events chainId = [] := by
  have hnil : (events.filter fun e => e.chainId = chainId) = [] := by
    rw [List.filter_eq_nil_iff]
    intro e he hid
    exact h (List.mem_map.mpr ⟨e, he, of_decide_eq_true hid⟩)
  rw [sequence, hnil]
  rfl

theorem combinedHash_eq (events : List ChainEvent) (options : OptionsOrExpectedHash)
    (auditedAt : JsString) :
    (auditMultiChainReplay canonicalize localeCompare events options auditedAt).combinedHash =
      sha256Text (js (canonicalize (combinedJson
        (auditResults canonicalize localeCompare events)))) := by
  rw [auditMultiChainReplay]
  dsimp only
  rw [computeCombinedHash, auditResults, chainResults]

/-- Audits of one combined hash are audits of the same chains. -/
theorem sameChains_of_combinedHash_eq
    (hcanon : ∀ v w, canonicalize v = canonicalize w → v.Same w) {as bs : List ChainEvent}
    (hcf : CollisionFree (auditMessages canonicalize localeCompare as ∪
      auditMessages canonicalize localeCompare bs))
    (h : sha256Text (js (canonicalize (combinedJson (auditResults canonicalize localeCompare as)))) =
      sha256Text (js (canonicalize (combinedJson (auditResults canonicalize localeCompare bs))))) :
    (∀ chainId, chainId ∈ as.map ChainEvent.chainId ↔ chainId ∈ bs.map ChainEvent.chainId) ∧
      ∀ chainId, List.Forall₂ SameEvent (sequence as chainId) (sequence bs chainId) := by
  have hbytes := hcf (.inl (.inl rfl)) (.inr (.inl rfl)) (hexEncode_injective (js_injective h))
  have htext := congrArg Utf8.decode hbytes
  rw [textBytes, textBytes, Utf8.decode_encode, Utf8.decode_encode, toWellFormed_js,
    toWellFormed_js] at htext
  have hcommitted := committed_eq_of_same (hcanon _ _ (String.toList_injective htext))
  have hchains : ∀ chainId, chainId ∈ as.map ChainEvent.chainId ↔
      chainId ∈ bs.map ChainEvent.chainId := fun chainId =>
    ⟨fun hmem => (exists_chain_of_committed_eq hcommitted hmem).1,
      fun hmem => (exists_chain_of_committed_eq hcommitted.symm hmem).1⟩
  refine ⟨hchains, fun chainId => ?_⟩
  by_cases hmem : chainId ∈ as.map ChainEvent.chainId
  · obtain ⟨-, hlen, hhash⟩ := exists_chain_of_committed_eq hcommitted hmem
    refine sameEvents_of_hashChain_eq hcanon hlen (hcf.mono ?_) hhash
    exact Set.union_subset_union (fun m hm => .inr ⟨chainId, hm⟩) fun m hm => .inr ⟨chainId, hm⟩
  · rw [sequence_eq_nil hmem, sequence_eq_nil fun hmem' => hmem ((hchains chainId).mpr hmem')]
    exact .nil

/-! ## Orders of the input -/

section permutations

variable {as bs : List ChainEvent}

/-- No chain has two events of one index. -/
def DistinctIndices (events : List ChainEvent) : Prop :=
  (events.map fun e => (e.chainId, e.sequenceIndex)).Nodup

/-- Indices that are distinct order the events of a chain. -/
theorem orders_sequence (h : DistinctIndices as) (chainId : JsString) :
    Orders (fun a b : ChainEvent => a.sequenceIndex.val - b.sequenceIndex.val ≤ 0)
      (as.filter fun e => e.chainId = chainId) where
  total a _ b _ := by
    rw [sub_nonpos, sub_nonpos]
    exact le_total _ _
  trans a _ b _ c _ := by
    rw [sub_nonpos, sub_nonpos, sub_nonpos]
    exact le_trans
  antisymm a ha b hb hab hba := by
    obtain ⟨ha, hida⟩ := List.mem_filter.mp ha
    obtain ⟨hb, hidb⟩ := List.mem_filter.mp hb
    have hid : a.chainId = b.chainId := (of_decide_eq_true hida).trans (of_decide_eq_true hidb).symm
    have hindex : a.sequenceIndex = b.sequenceIndex :=
      Number.ext (le_antisymm (sub_nonpos.mp hab) (sub_nonpos.mp hba))
    exact List.inj_on_of_nodup_map h ha hb (Prod.ext hid hindex)

theorem sequence_eq_of_perm (h : DistinctIndices as) (hperm : as.Perm bs) (chainId : JsString) :
    sequence as chainId = sequence bs chainId :=
  insertionSort_eq_of_perm (orders_sequence h chainId) (hperm.filter _)

theorem nodup_chainResults (events : List ChainEvent) :
    ((chainResults canonicalize events).map ChainReplayResult.chainId).Nodup := by
  rw [chainResults, List.map_map]
  exact nodup_chainsOf events

theorem chainResults_perm (h : DistinctIndices as) (hperm : as.Perm bs) :
    (chainResults canonicalize as).Perm (chainResults canonicalize bs) := by
  rw [List.perm_ext_iff_of_nodup (nodup_chainResults as).of_map (nodup_chainResults bs).of_map]
  intro r
  rw [mem_chainResults, mem_chainResults]
  refine exists_congr fun chainId => and_congr (hperm.map _).mem_iff ?_
  rw [sequence_eq_of_perm h hperm]

/-- The order of the events does not matter. -/
theorem auditResults_eq_of_perm
    (horder : Orders (fun a b => localeCompare a b ≤ 0) (as.map ChainEvent.chainId))
    (h : DistinctIndices as) (hperm : as.Perm bs) :
    auditResults canonicalize localeCompare as = auditResults canonicalize localeCompare bs := by
  refine insertionSort_eq_of_perm ?_ (chainResults_perm h hperm)
  have hids : Orders (fun a b => localeCompare a b ≤ 0)
      ((chainResults canonicalize as).map ChainReplayResult.chainId) := by
    apply horder.of_subset
    intro chainId hmem
    obtain ⟨r, hr, rfl⟩ := List.mem_map.mp hmem
    obtain ⟨chainId, hid, rfl⟩ := mem_chainResults.mp hr
    exact hid
  exact hids.of_map fun a ha b hb => List.inj_on_of_nodup_map (nodup_chainResults as) ha hb

end permutations

/-- The combined hash of an audit commits to the chains and to the events of each of them in the
order of their indices, where SHA-256 has no collision on what is hashed; and it is the same for
every order of the events where the comparison orders the chain ids and no chain has two events of
one index. -/
theorem audit_commits (canonicalize : JsonValue → String)
    (hcanon : ∀ v w, canonicalize v = canonicalize w → v.Same w)
    (localeCompare : JsString → JsString → ℤ) :
    (∀ as bs options options' auditedAt auditedAt',
      CollisionFree (auditMessages canonicalize localeCompare as ∪
        auditMessages canonicalize localeCompare bs) →
      (auditMultiChainReplay canonicalize localeCompare as options auditedAt).combinedHash =
        (auditMultiChainReplay canonicalize localeCompare bs options' auditedAt').combinedHash →
      (∀ chainId, chainId ∈ as.map ChainEvent.chainId ↔ chainId ∈ bs.map ChainEvent.chainId) ∧
        ∀ chainId, List.Forall₂ SameEvent (sequence as chainId) (sequence bs chainId)) ∧
    ∀ as bs options options' auditedAt auditedAt',
      Orders (fun a b => localeCompare a b ≤ 0) (as.map ChainEvent.chainId) →
      DistinctIndices as → as.Perm bs →
      (auditMultiChainReplay canonicalize localeCompare as options auditedAt).combinedHash =
        (auditMultiChainReplay canonicalize localeCompare bs options' auditedAt').combinedHash := by
  constructor
  · intro as bs options options' auditedAt auditedAt' hcf h
    rw [combinedHash_eq, combinedHash_eq] at h
    exact sameChains_of_combinedHash_eq hcanon hcf h
  · intro as bs options options' auditedAt auditedAt' horder hdistinct hperm
    rw [combinedHash_eq, combinedHash_eq, auditResults_eq_of_perm horder hdistinct hperm]

/-! ### Two times and two orders -/

theorem compareTexts_nonpos {a b : JsString} : compareTexts a b ≤ 0 ↔ Json.keyLe a b = true := by
  unfold compareTexts
  split
  · rename_i hle
    split <;> simp [hle]
  · rename_i hle
    simp [hle]

theorem orders_compareTexts (l : List JsString) : Orders (fun a b => compareTexts a b ≤ 0) l where
  total a _ b _ := by
    rw [compareTexts_nonpos, compareTexts_nonpos]
    exact Json.keyLe_total a b
  trans a _ b _ c _ := by
    rw [compareTexts_nonpos, compareTexts_nonpos, compareTexts_nonpos]
    exact Json.keyLe_trans
  antisymm a _ b _ := by
    rw [compareTexts_nonpos, compareTexts_nonpos]
    exact Json.keyLe_antisymm

/-- The data of a transfer, with its members in one order or the other. -/
def transferData (swapped : Bool) : JsonObject :=
  .ofEntries (if swapped then [(js "to", some (.str (js "b"))), (js "by", some (.str (js "a")))]
    else [(js "by", some (.str (js "a"))), (js "to", some (.str (js "b")))])

def transferEvent (sequenceIndex : ℕ) (timestamp : String) (swapped : Bool) : ChainEvent :=
  ⟨js "a", js "h", .ofNat sequenceIndex, js timestamp, transferData swapped⟩

theorem same_transferData (swapped : Bool) :
    (transferData swapped).toJsonValue.Same (transferData false).toJsonValue := by
  cases swapped with
  | false => exact .refl _
  | true => exact JsonValue.same_object_of_perm (.swap _ _ []) (by simp)

section

variable (timestamp : String) (swapped : Bool)

/-- Two transfers of one chain. -/
def transferEvents : List ChainEvent :=
  [transferEvent 0 timestamp swapped, transferEvent 1 timestamp swapped]

/-- Neither the time nor the order of the members is in what is hashed of an event. -/
theorem canonicalText_transferEvent (sequenceIndex : ℕ) :
    (eventJson (transferEvent sequenceIndex timestamp swapped)).canonicalText =
      (eventJson (transferEvent sequenceIndex "" false)).canonicalText := by
  apply JsonValue.canonicalText_eq_of_same
  apply JsonValue.same_object
  refine .cons ⟨rfl, .some rfl⟩ (.cons ⟨rfl, .some rfl⟩ (.cons ⟨rfl, .some rfl⟩
    (.cons ⟨rfl, .some ?_⟩ .nil)))
  exact same_transferData swapped

theorem chainStep_transferEvent (currentHash : JsString) (sequenceIndex : ℕ) :
    chainStep JsonValue.canonicalText currentHash (transferEvent sequenceIndex timestamp swapped) =
      chainStep JsonValue.canonicalText currentHash (transferEvent sequenceIndex "" false) := by
  rw [chainStep, chainStep, canonicalText_transferEvent]

theorem chainsOf_transferEvents : chainsOf (transferEvents timestamp swapped) =
    [(js "a", transferEvents timestamp swapped)] := by
  have hgroups : (JsMap.groupBy ChainEvent.chainId (transferEvents timestamp swapped)).entries =
      [(js "a", transferEvents timestamp swapped)] := rfl
  rw [chainsOf, hgroups]
  simp [sortBySequence, transferEvents, transferEvent, Number.ofNat]

theorem auditResults_transferEvents :
    auditResults JsonValue.canonicalText compareTexts (transferEvents timestamp swapped) =
      [computeChainHashChain JsonValue.canonicalText (js "a") (transferEvents "" false)] := by
  have hresult : computeChainHashChain JsonValue.canonicalText (js "a")
      (transferEvents timestamp swapped) =
        computeChainHashChain JsonValue.canonicalText (js "a") (transferEvents "" false) := by
    simp only [computeChainHashChain, transferEvents, List.foldl_cons, List.foldl_nil,
      ChainState.add, chainStep_transferEvent timestamp swapped, List.length_cons]
  rw [auditResults, chainResults, chainsOf_transferEvents, List.map_singleton, hresult]
  rfl

/-- What is hashed for an audit of the transfers, at any time. -/
def transferMessages : List Bytes :=
  [textBytes (js (combinedJson [computeChainHashChain JsonValue.canonicalText (js "a")
      (transferEvents "" false)]).canonicalText),
    textBytes (genesis (js "a") ++ js (eventJson (transferEvent 0 "" false)).canonicalText),
    textBytes (chainStep JsonValue.canonicalText (genesis (js "a")) (transferEvent 0 "" false) ++
      js (eventJson (transferEvent 1 "" false)).canonicalText)]

theorem auditMessages_transferEvents :
    auditMessages JsonValue.canonicalText compareTexts (transferEvents timestamp swapped) ⊆
      {m | m ∈ transferMessages} := by
  intro m h
  show m ∈ transferMessages
  rcases h with h | ⟨chainId, l, hl, h⟩
  · rw [h, auditResults_transferEvents]
    exact List.mem_cons_self
  · have hne : sequence (transferEvents timestamp swapped) chainId ≠ [] := fun hnil => by
      rw [hnil] at hl
      cases hl
    have hmem : (chainId, sequence (transferEvents timestamp swapped) chainId) ∈
        chainsOf (transferEvents timestamp swapped) :=
      mem_chainsOf.mpr ⟨not_imp_comm.mp sequence_eq_nil hne, rfl⟩
    rw [chainsOf_transferEvents] at hmem
    obtain ⟨rfl, hsequence⟩ := Prod.mk.inj (List.mem_singleton.mp hmem)
    rw [hsequence] at hl
    rw [transferMessages]
    rcases List.mem_cons.mp hl with rfl | hl
    · rw [h, canonicalText_transferEvent timestamp swapped]
      dsimp only
      exact List.mem_cons_of_mem _ List.mem_cons_self
    · rw [h, List.mem_singleton.mp hl, canonicalText_transferEvent timestamp swapped]
      dsimp only
      rw [chainStep_transferEvent timestamp swapped]
      exact List.mem_cons_of_mem _ (List.mem_cons_of_mem _ List.mem_cons_self)

end

theorem heads_transferMessages :
    (transferMessages.map fun m => (sha256 m).head?).Nodup := by
  simp only [transferMessages, transferEvents, computeChainHashChain, List.foldl_cons,
    List.foldl_nil, ChainState.add, chainStep, genesis, sha256Text, textBytes, js, hexEncode,
    JsonValue.canonicalText, String.toList_ofList, JsString.toWellFormed_units,
    JsString.toWellFormed_units_append, sha256_eq_words]
  decide +kernel

/-- The times and the order of the members are not hashed, and the order of the events does not
matter. -/
theorem audit_commits_transferEvents :
    (∀ chainId, List.Forall₂ SameEvent (sequence (transferEvents "1" false) chainId)
      (sequence (transferEvents "2" true) chainId)) ∧
    (auditMultiChainReplay JsonValue.canonicalText compareTexts (transferEvents "1" false) .none
      []).combinedHash =
      (auditMultiChainReplay JsonValue.canonicalText compareTexts (transferEvents "1" false).reverse
        .none []).combinedHash := by
  obtain ⟨hcommits, hperm⟩ := audit_commits JsonValue.canonicalText
    (fun _ _ h => JsonValue.same_of_canonicalText_eq h) compareTexts
  constructor
  · have hcf : CollisionFree {m | m ∈ transferMessages} := collisionFree_of_head heads_transferMessages
    have hhash : (auditMultiChainReplay JsonValue.canonicalText compareTexts
        (transferEvents "1" false) .none []).combinedHash =
        (auditMultiChainReplay JsonValue.canonicalText compareTexts
          (transferEvents "2" true) .none []).combinedHash := by
      rw [combinedHash_eq, combinedHash_eq, auditResults_transferEvents, auditResults_transferEvents]
    exact (hcommits _ _ .none .none [] [] (hcf.mono (Set.union_subset
      (auditMessages_transferEvents _ _) (auditMessages_transferEvents _ _))) hhash).2
  · refine hperm _ _ .none .none [] [] (orders_compareTexts _) ?_ (List.reverse_perm _).symm
    simp [DistinctIndices, transferEvents, transferEvent, Number.ofNat]

end Attestia.Verify
