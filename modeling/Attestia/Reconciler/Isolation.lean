import Attestia.Reconciler.ChainMatches

/-!
# Malformed events

What the matchers of chain events report of a transaction whose events are well formed does not
depend on the malformed events of other transactions. A matcher throws where the event that an
entry or an intent is compared with has an amount that can be read, but decimals that the amounts
cannot be brought to.
-/

namespace Attestia.Reconciler

open Lib JsonNumber Ledger

/-- An event as the chain observers give it: the amount is the text of an integer, and the decimals
are a natural number. -/
def wellFormed (event : ReconcilableChainEvent) : Bool :=
  isIntegerText event.amount &&
    match event.decimals with
    | .finite decimals => decide (decimals.val.den = 1 ∧ 0 ≤ decimals.val)
    | _ => false

/-- The events of a transaction are well formed. -/
def ownWellFormed (chainEvents : List ReconcilableChainEvent) (txHash : Option JsString) : Bool :=
  chainEvents.all fun event => decide (some event.txHash ≠ txHash) || wellFormed event

section arithmetic

variable [Arithmetic]

/-- An integer can be brought to a greater number of decimals: the difference, as the engine
computes it, is an integer, and the power of ten and the product can be held. -/
def Rescales (n : ℤ) (maxDec decimals : Number) : Prop :=
  ∃ k : ℤ, Arithmetic.subtract maxDec.val decimals.val = .finite k ∧
    Arithmetic.holds (10 ^ k.toNat) = true ∧ Arithmetic.holds (n * 10 ^ k.toNat) = true

theorem rescales_iff {n : ℤ} {maxDec decimals : Number} :
    Rescales n maxDec decimals ↔ ∃ x, rescale n maxDec decimals = .ok x := by
  simp only [rescale_eq_ok_iff]
  constructor
  · rintro ⟨k, hk, hpower, hproduct⟩
    exact ⟨_, k, hk, hpower, hproduct, rfl⟩
  · rintro ⟨_, k, hk, hpower, hproduct, -⟩
    exact ⟨k, hk, hpower, hproduct⟩

/-- Two integers, each at its number of decimals: the numbers are the same, or both integers can be
brought to the greater one. -/
def Commensurable (raw : ℤ) (moneyDecimals : Number) (chainRaw : ℤ) : ChainDecimals → Prop
  | .finite decimals => moneyDecimals = decimals ∨
      Rescales raw (maxDecimals moneyDecimals decimals) moneyDecimals ∧
        Rescales chainRaw (maxDecimals moneyDecimals decimals) decimals
  | _ => False

/-- An amount that can be compared with an event: the money can be read, and where the amount of the
event is the text of an integer, it can be held and both are commensurable. -/
def Comparable (money : Money) (event : ReconcilableChainEvent) : Prop :=
  ∃ raw, parseAmount money.amount money.decimals = .ok raw ∧
    (isIntegerText event.amount = true → Arithmetic.holds (integerOf event.amount) = true ∧
      Commensurable raw money.decimals (integerOf event.amount) event.decimals)

section amounts

variable {w : Wording} {money : Money} {event : ReconcilableChainEvent}

omit [Arithmetic] in
theorem exists_invalidAmount_iff : (∃ d, invalidAmount w money event = .ok d) ↔
    ∃ raw, parseAmount money.amount money.decimals = .ok raw := by
  constructor
  · rintro ⟨d, h⟩
    obtain ⟨raw, hraw, -⟩ := bind_eq_ok.mp h
    exact ⟨raw, mapError_eq_ok.mp hraw⟩
  · rintro ⟨raw, hraw⟩
    exact ⟨_, bind_eq_ok.mpr ⟨raw, mapError_eq_ok.mpr hraw, rfl⟩⟩

theorem exists_compareAmounts_iff : (∃ d, compareAmounts w money event = .ok d) ↔
    ∃ raw, parseAmount money.amount money.decimals = .ok raw ∧
      Arithmetic.holds (integerOf event.amount) = true ∧
      Commensurable raw money.decimals (integerOf event.amount) event.decimals := by
  rw [compareAmounts, exists_bind_eq_ok]
  simp only [mapError_eq_ok, exists_bind_eq_ok, held_eq_ok]
  refine exists_congr fun raw => and_congr_right fun _ => ?_
  constructor
  · rintro ⟨_, ⟨hholds, rfl⟩, d, h⟩
    refine ⟨hholds, ?_⟩
    rcases hdecimals : event.decimals with decimals | negative | _ <;> rw [hdecimals] at h
    · dsimp only at h
      split at h
      · rename_i hsame
        exact .inl hsame
      · obtain ⟨norm, hnorm, h⟩ := bind_eq_ok.mp h
        obtain ⟨chainNorm, hchainNorm, -⟩ := bind_eq_ok.mp h
        exact .inr ⟨rescales_iff.mpr ⟨norm, hnorm⟩, rescales_iff.mpr ⟨chainNorm, hchainNorm⟩⟩
    · cases h
    · cases h
  · rintro ⟨hholds, h⟩
    refine ⟨_, ⟨hholds, rfl⟩, ?_⟩
    rcases hdecimals : event.decimals with decimals | negative | _ <;> rw [hdecimals] at h
    · dsimp only
      split
      · exact ⟨_, rfl⟩
      · rename_i hdiffers
        obtain ⟨hleft, hright⟩ := h.resolve_left hdiffers
        obtain ⟨norm, hnorm⟩ := rescales_iff.mp hleft
        obtain ⟨chainNorm, hchainNorm⟩ := rescales_iff.mp hright
        exact exists_bind_eq_ok.mpr
          ⟨norm, hnorm, exists_bind_eq_ok.mpr ⟨chainNorm, hchainNorm, _, rfl⟩⟩
    · exact absurd h not_false
    · exact absurd h not_false

/-- The two ways in which the matchers compare an amount. -/
theorem exists_compared_iff {α : Type} {f : Discrepancy → α} {g : Option Discrepancy → α} :
    (∃ row, (if !isIntegerText event.amount then invalidAmount w money event >>= fun d => .ok (f d)
        else compareAmounts w money event >>= fun d => .ok (g d)) = .ok row) ↔
      Comparable money event := by
  have hbind {β : Type} {x : Except MatchFault β} {k : β → α} :
      (∃ row, (x >>= fun d => .ok (k d)) = .ok row) ↔ ∃ d, x = .ok d := by
    cases x with
    | error e => exact ⟨fun ⟨_, h⟩ => (nomatch h), fun ⟨_, h⟩ => (nomatch h)⟩
    | ok d => exact ⟨fun _ => ⟨d, rfl⟩, fun _ => ⟨k d, rfl⟩⟩
  by_cases htext : isIntegerText event.amount = true
  · rw [htext, if_neg (by decide), hbind, exists_compareAmounts_iff, Comparable]
    simp only [htext, forall_const]
  · rw [Bool.not_eq_true] at htext
    rw [htext, if_pos (by decide), hbind, exists_invalidAmount_iff, Comparable]
    simp only [htext, Bool.false_eq_true, false_implies, and_true]

end amounts

/-- The event that a record is compared with can be. -/
def Tolerated (chainEvents : List ReconcilableChainEvent) (txHash : JsString) (money : Money) : Prop :=
  ∀ event, firstEvent chainEvents txHash money.currency = some event → Comparable money event

end arithmetic

section own

variable {chainEvents : List ReconcilableChainEvent}

theorem wellFormed_of_own {event : ReconcilableChainEvent} (hmem : event ∈ chainEvents)
    (h : ownWellFormed chainEvents (some event.txHash) = true) : wellFormed event = true := by
  have hevent := List.all_eq_true.mp h event hmem
  simpa using hevent

/-- The events of such a transaction stay where the malformed ones are removed. -/
theorem eventsOf_filter {txHash : JsString} (h : ownWellFormed chainEvents (some txHash) = true) :
    eventsOf (byTxHash (chainEvents.filter wellFormed)) txHash =
      eventsOf (byTxHash chainEvents) txHash := by
  rw [eventsOf_byTxHash, eventsOf_byTxHash, List.filter_filter]
  apply List.filter_congr
  intro event hmem
  by_cases hhash : event.txHash = txHash
  · rw [← hhash] at h
    rw [wellFormed_of_own hmem h, Bool.and_true]
  · rw [decide_eq_false hhash, Bool.false_and]

theorem matchedTxHashes_filter {α : Type} {records : List α} {txHash : α → Option JsString}
    {hash : JsString} (h : ownWellFormed chainEvents (some hash) = true) :
    (hash ∈ (records.filterMap fun r => truthy (txHash r)).filter fun t =>
        eventsOf (byTxHash (chainEvents.filter wellFormed)) t ≠ []) ↔
      hash ∈ (records.filterMap fun r => truthy (txHash r)).filter fun t =>
        eventsOf (byTxHash chainEvents) t ≠ [] := by
  rw [mem_matchedTxHashes, mem_matchedTxHashes, eventsOf_filter h]

/-- A matcher returns, also where the malformed events are removed, and reports the same of the
transactions whose events are all well formed. -/
def Isolates {α : Type} (matchEvents : List ReconcilableChainEvent → Except MatchFault (List α))
    (txHash : α → Option JsString) (chainEvents : List ReconcilableChainEvent) : Prop :=
  ∃ rows rows', matchEvents chainEvents = .ok rows ∧
    matchEvents (chainEvents.filter wellFormed) = .ok rows' ∧
    (rows.filter fun r => ownWellFormed chainEvents (txHash r)) =
      rows'.filter fun r => ownWellFormed chainEvents (txHash r)

theorem isolates_iff {α : Type}
    {matchEvents : List ReconcilableChainEvent → Except MatchFault (List α)}
    {txHash : α → Option JsString}
    (hsame : ∀ rows rows', matchEvents chainEvents = .ok rows →
      matchEvents (chainEvents.filter wellFormed) = .ok rows' →
        (rows.filter fun r => ownWellFormed chainEvents (txHash r)) =
          rows'.filter fun r => ownWellFormed chainEvents (txHash r)) :
    Isolates matchEvents txHash chainEvents ↔
      (∃ rows, matchEvents chainEvents = .ok rows) ∧
        ∃ rows, matchEvents (chainEvents.filter wellFormed) = .ok rows := by
  constructor
  · rintro ⟨rows, rows', h, h', -⟩
    exact ⟨⟨rows, h⟩, rows', h'⟩
  · rintro ⟨⟨rows, h⟩, rows', h'⟩
    exact ⟨rows, rows', h, h', hsame rows rows' h h'⟩

section rows

variable {α β : Type} {recordHash : α → Option JsString} {rowHash : β → Option JsString}
  (matchRecord : JsMap JsString (List ReconcilableChainEvent) → α → Except MatchFault (Option β))

/-- The rows of the records: a row names the transaction of its record, and depends on the events of
that transaction alone. -/
theorem filter_rows
    (hhash : ∀ index a row, matchRecord index a = .ok (some row) →
      ∃ t, truthy (recordHash a) = some t ∧ rowHash row = some t)
    (hcongr : ∀ index index' a, (∀ t, truthy (recordHash a) = some t →
      eventsOf index t = eventsOf index' t) → matchRecord index a = matchRecord index' a)
    {records : List α} {rows rows' : List β}
    (h : filterMapChecked (matchRecord (byTxHash chainEvents)) records = .ok rows)
    (h' : filterMapChecked (matchRecord (byTxHash (chainEvents.filter wellFormed))) records =
      .ok rows') :
    (rows.filter fun r => ownWellFormed chainEvents (rowHash r)) =
      rows'.filter fun r => ownWellFormed chainEvents (rowHash r) := by
  apply filter_filterMapChecked h h'
  intro a ha o o' ho ho'
  by_cases hown : ∃ t, truthy (recordHash a) = some t ∧ ownWellFormed chainEvents (some t) = false
  · -- neither row is one of a transaction whose events are well formed
    obtain ⟨t, ht, hown⟩ := hown
    have hnone : ∀ index o, matchRecord index a = .ok o →
        (o.toList.filter fun r => ownWellFormed chainEvents (rowHash r)) = [] := by
      intro index o ho
      cases o with
      | none => rfl
      | some row =>
        obtain ⟨t', ht', hrow⟩ := hhash index a row ho
        rw [ht, Option.some.injEq] at ht'
        rw [Option.toList_some, List.filter_singleton, hrow, ← ht', hown]
        rfl
    rw [hnone _ o ho, hnone _ o' ho']
  · simp only [not_exists, not_and, Bool.not_eq_false] at hown
    have hsame := hcongr (byTxHash chainEvents) (byTxHash (chainEvents.filter wellFormed)) a
      fun t ht => (eventsOf_filter (hown t ht)).symm
    rw [hsame, ho'] at ho
    rw [Except.ok.inj ho]

end rows

end own

/-! ## Ledger entries -/

namespace LedgerChainMatcher

variable [Arithmetic] {chainEvents : List ReconcilableChainEvent} {entry : ReconcilableLedgerEntry}

theorem exists_matchEntry_iff : (∃ row, matchEntry (byTxHash chainEvents) entry = .ok row) ↔
    ∀ txHash, truthy entry.txHash = some txHash → Tolerated chainEvents txHash entry.money := by
  rw [matchEntry]
  rcases truthy entry.txHash with _ | txHash
  · exact iff_of_true ⟨_, rfl⟩ fun _ h => by cases h
  · simp only [Option.some.injEq, forall_eq']
    rw [Tolerated, ← find?_eventsOf]
    rcases eventsOf (byTxHash chainEvents) txHash with _ | ⟨first, rest⟩
    · exact iff_of_true ⟨_, rfl⟩ fun _ h => by cases h
    · dsimp only
      rcases (first :: rest).find? _ with _ | event
      · exact iff_of_true ⟨_, rfl⟩ fun _ h => by cases h
      · simp only [Option.some.injEq, forall_eq']
        exact exists_compared_iff

/-- A result names the transaction of its entry, and is the same over lists that have the same events
of it. -/
theorem txHash_of_matchEntry {index : JsMap JsString (List ReconcilableChainEvent)}
    {row : LedgerChainMatch} (h : matchEntry index entry = .ok (some row)) :
    ∃ txHash, truthy entry.txHash = some txHash ∧ row.txHash = some txHash := by
  unfold matchEntry at h
  split at h
  · cases h
  · rename_i txHash hhash
    refine ⟨txHash, hhash, ?_⟩
    split at h
    · cases h
      rfl
    · split at h
      · cases h
        rfl
      · split at h <;> obtain ⟨_, -, h⟩ := bind_eq_ok.mp h <;> cases h <;> rfl

theorem matchEntry_congr {index index' : JsMap JsString (List ReconcilableChainEvent)}
    (h : ∀ txHash, truthy entry.txHash = some txHash →
      eventsOf index txHash = eventsOf index' txHash) :
    matchEntry index entry = matchEntry index' entry := by
  unfold matchEntry
  split
  · rfl
  · rename_i txHash hhash
    rw [h txHash hhash]

variable {ledgerEntries : List ReconcilableLedgerEntry}

theorem exists_matchRecords_iff : (∃ rows, matchRecords ledgerEntries chainEvents = .ok rows) ↔
    ∀ entry ∈ ledgerEntries, ∀ txHash, truthy entry.txHash = some txHash →
      Tolerated chainEvents txHash entry.money := by
  rw [matchRecords, exists_bind_eq_ok]
  simp only [← exists_matchEntry_iff, ← exists_filterMapChecked_iff]
  exact exists_congr fun results => and_iff_left ⟨_, rfl⟩

theorem filter_matchRecords {rows rows' : List LedgerChainMatch}
    (h : matchRecords ledgerEntries chainEvents = .ok rows)
    (h' : matchRecords ledgerEntries (chainEvents.filter wellFormed) = .ok rows') :
    (rows.filter fun r => ownWellFormed chainEvents r.txHash) =
      rows'.filter fun r => ownWellFormed chainEvents r.txHash := by
  obtain ⟨results, hresults, h⟩ := bind_eq_ok.mp h
  obtain ⟨results', hresults', h'⟩ := bind_eq_ok.mp h'
  cases h
  cases h'
  rw [List.filter_append, List.filter_append]
  congr 1
  · exact filter_rows matchEntry (fun _ _ _ => txHash_of_matchEntry)
      (fun _ _ _ => matchEntry_congr) hresults hresults'
  · rw [List.filter_map, List.filter_map, List.filter_filter, List.filter_filter, List.filter_filter]
    congr 1
    apply List.filter_congr
    intro event hmem
    simp only [Function.comp_apply, missingLedger]
    rcases hown : ownWellFormed chainEvents (some event.txHash) with _ | _
    · rfl
    · simp only [matchedTxHashes, matchedTxHashes_filter hown, wellFormed_of_own hmem hown,
        Bool.and_true]
      rfl

end LedgerChainMatcher

/-! ## Intents -/

namespace IntentChainMatcher

variable [Arithmetic] {chainEvents : List ReconcilableChainEvent} {intent : ReconcilableIntent}

theorem exists_matchIntent_iff : (∃ row, matchIntent (byTxHash chainEvents) intent = .ok row) ↔
    ∀ txHash, truthy intent.txHash = some txHash → ∀ amount, intent.amount = some amount →
      Tolerated chainEvents txHash amount := by
  rw [matchIntent]
  rcases truthy intent.txHash with _ | txHash
  · exact iff_of_true ⟨_, rfl⟩ fun _ h => by cases h
  · simp only [Option.some.injEq, forall_eq', Tolerated, ← find?_eventsOf]
    rcases eventsOf (byTxHash chainEvents) txHash with _ | ⟨first, rest⟩
    · exact iff_of_true ⟨_, rfl⟩ fun _ _ _ h => by cases h
    · rcases intent.amount with _ | amount
      · exact iff_of_true ⟨_, rfl⟩ fun _ h => by cases h
      · simp only [Option.some.injEq, forall_eq']
        rcases (first :: rest).find? _ with _ | event
        · exact iff_of_true ⟨_, rfl⟩ fun _ h => by cases h
        · simp only [Option.some.injEq, forall_eq']
          exact exists_compared_iff

theorem txHash_of_matchIntent {index : JsMap JsString (List ReconcilableChainEvent)}
    {row : IntentChainMatch} (h : matchIntent index intent = .ok (some row)) :
    ∃ txHash, truthy intent.txHash = some txHash ∧ row.txHash = some txHash := by
  unfold matchIntent at h
  split at h
  · cases h
  · rename_i txHash hhash
    refine ⟨txHash, hhash, ?_⟩
    split at h
    · cases h
      rfl
    · split at h
      · cases h
        rfl
      · split at h
        · cases h
          rfl
        · split at h <;> obtain ⟨_, -, h⟩ := bind_eq_ok.mp h <;> cases h <;> rfl

theorem matchIntent_congr {index index' : JsMap JsString (List ReconcilableChainEvent)}
    (h : ∀ txHash, truthy intent.txHash = some txHash →
      eventsOf index txHash = eventsOf index' txHash) :
    matchIntent index intent = matchIntent index' intent := by
  unfold matchIntent
  split
  · rfl
  · rename_i txHash hhash
    rw [h txHash hhash]

variable {intents : List ReconcilableIntent}

theorem exists_matchRecords_iff : (∃ rows, matchRecords intents chainEvents = .ok rows) ↔
    ∀ intent ∈ intents, ∀ txHash, truthy intent.txHash = some txHash →
      ∀ amount, intent.amount = some amount → Tolerated chainEvents txHash amount := by
  rw [matchRecords, exists_bind_eq_ok]
  simp only [← exists_matchIntent_iff, ← exists_filterMapChecked_iff]
  exact exists_congr fun results => and_iff_left ⟨_, rfl⟩

omit [Arithmetic] in
/-- An event whose transaction the test does not keep is passed over. -/
theorem filter_orphans_of_dropped {keeps : Option JsString → Bool} (matched reported : List JsString)
    {e : ReconcilableChainEvent} (es : List ReconcilableChainEvent) (h : keeps (some e.txHash) = false) :
    ∃ reported', (∀ t, keeps (some t) = true → (t ∈ reported' ↔ t ∈ reported)) ∧
      ((orphans matched reported (e :: es)).filter fun r => keeps r.txHash) =
        (orphans matched reported' es).filter fun r => keeps r.txHash := by
  rw [orphans]
  split
  · exact ⟨reported, fun _ _ => Iff.rfl, rfl⟩
  · refine ⟨e.txHash :: reported, ?_, List.filter_cons_of_neg ?_⟩
    · intro t ht
      rw [List.mem_cons, or_iff_right]
      intro heq
      rw [heq, h] at ht
      cases ht
    · show ¬ keeps (some e.txHash) = true
      rw [h]
      decide

omit [Arithmetic] in
/-- The loop over the events, where a transaction that the test keeps is named, or reported, by one
list as it is by the other. -/
theorem filter_orphans {keeps : Option JsString → Bool} {matched matched' reported reported' : List JsString}
    {events : List ReconcilableChainEvent}
    (hwell : ∀ e ∈ events, keeps (some e.txHash) = true → wellFormed e = true)
    (hmatched : ∀ t, keeps (some t) = true → (t ∈ matched' ↔ t ∈ matched))
    (hreported : ∀ t, keeps (some t) = true → (t ∈ reported' ↔ t ∈ reported)) :
    ((orphans matched reported events).filter fun r => keeps r.txHash) =
      (orphans matched' reported' (events.filter wellFormed)).filter fun r => keeps r.txHash := by
  induction events generalizing reported reported' with
  | nil => rfl
  | cons e es ih =>
    have hwell' : ∀ a ∈ es, keeps (some a.txHash) = true → wellFormed a = true :=
      fun a ha => hwell a (.tail _ ha)
    rcases hkeep : keeps (some e.txHash) with _ | _
    · obtain ⟨rep, hrep, hdropped⟩ := filter_orphans_of_dropped matched reported es hkeep
      rw [hdropped]
      by_cases hwf : wellFormed e = true
      · obtain ⟨rep', hrep', hdropped'⟩ := filter_orphans_of_dropped matched' reported'
          (es.filter wellFormed) hkeep
        rw [List.filter_cons_of_pos hwf, hdropped']
        exact ih hwell' fun t ht => (hrep' t ht).trans ((hreported t ht).trans (hrep t ht).symm)
      · rw [List.filter_cons_of_neg hwf]
        exact ih hwell' fun t ht => (hreported t ht).trans (hrep t ht).symm
    · have hiff : (e.txHash ∈ matched' ∨ e.txHash ∈ reported') ↔
          (e.txHash ∈ matched ∨ e.txHash ∈ reported) :=
        or_congr (hmatched _ hkeep) (hreported _ hkeep)
      rw [List.filter_cons_of_pos (hwell e (.head _) hkeep), orphans, orphans]
      simp only [hiff]
      split
      · exact ih hwell' hreported
      · have hreported' : ∀ t, keeps (some t) = true →
            (t ∈ e.txHash :: reported' ↔ t ∈ e.txHash :: reported) := by
          intro t ht
          rw [List.mem_cons, List.mem_cons, hreported t ht]
        have hshown : keeps (missingIntent e).txHash = true := hkeep
        rw [List.filter_cons, List.filter_cons, if_pos hshown, if_pos hshown, ih hwell' hreported']

theorem filter_matchRecords {rows rows' : List IntentChainMatch}
    (h : matchRecords intents chainEvents = .ok rows)
    (h' : matchRecords intents (chainEvents.filter wellFormed) = .ok rows') :
    (rows.filter fun r => ownWellFormed chainEvents r.txHash) =
      rows'.filter fun r => ownWellFormed chainEvents r.txHash := by
  obtain ⟨results, hresults, h⟩ := bind_eq_ok.mp h
  obtain ⟨results', hresults', h'⟩ := bind_eq_ok.mp h'
  cases h
  cases h'
  rw [List.filter_append, List.filter_append]
  congr 1
  · exact filter_rows matchIntent (fun _ _ _ => txHash_of_matchIntent)
      (fun _ _ _ => matchIntent_congr) hresults hresults'
  · exact filter_orphans (fun e he hown => wellFormed_of_own he hown)
      (fun t hown => matchedTxHashes_filter hown) fun _ _ => Iff.rfl

end IntentChainMatcher

/-! ## Both matchers -/

/-- The amounts of the entries and of the intents can be compared with the events they meet. -/
structure Tolerates [Arithmetic] (ledgerEntries : List ReconcilableLedgerEntry)
    (intents : List ReconcilableIntent) (chainEvents : List ReconcilableChainEvent) : Prop where
  entries : ∀ entry ∈ ledgerEntries, ∀ txHash, truthy entry.txHash = some txHash →
    Tolerated chainEvents txHash entry.money
  intents : ∀ intent ∈ intents, ∀ txHash, truthy intent.txHash = some txHash →
    ∀ amount, intent.amount = some amount → Tolerated chainEvents txHash amount

/-- Both matchers isolate the malformed events exactly where no record meets an event that its amount
cannot be compared with, before they are removed and after, in whatever arithmetic. -/
theorem matchers_isolate_iff [Arithmetic] (ledgerEntries : List ReconcilableLedgerEntry)
    (intents : List ReconcilableIntent) (chainEvents : List ReconcilableChainEvent) :
    (Isolates (LedgerChainMatcher.matchRecords ledgerEntries) LedgerChainMatch.txHash chainEvents ∧
        Isolates (IntentChainMatcher.matchRecords intents) IntentChainMatch.txHash chainEvents) ↔
      Tolerates ledgerEntries intents chainEvents ∧
        Tolerates ledgerEntries intents (chainEvents.filter wellFormed) := by
  rw [isolates_iff fun _ _ => LedgerChainMatcher.filter_matchRecords,
    isolates_iff fun _ _ => IntentChainMatcher.filter_matchRecords]
  simp only [LedgerChainMatcher.exists_matchRecords_iff, IntentChainMatcher.exists_matchRecords_iff]
  constructor
  · rintro ⟨⟨hentries, hentries'⟩, hintents, hintents'⟩
    exact ⟨⟨hentries, hintents⟩, hentries', hintents'⟩
  · rintro ⟨h, h'⟩
    exact ⟨⟨h.entries, h'.entries⟩, h.intents, h'.intents⟩

/-- The arithmetic of an engine that gives a `BigInt` at most 2 ^ 30 bits. -/
@[reducible] def engineArithmetic : Arithmetic := binary64Arithmetic (2 ^ 30)

/-- An entry of one dollar, and an event of its transaction whose decimals are not a number. -/
def oneDollar : ReconcilableLedgerEntry :=
  ⟨js "n1", js "cash", .debit, ⟨js "1.00", js "USD", .ofNat 2⟩, js "now", none, some (js "t1"), js "c1"⟩

def unscaled : ReconcilableChainEvent :=
  ⟨js "eip155:1", js "t1", js "0xa", js "0xb", js "100", .nan, js "USD", js "now"⟩

attribute [local instance] engineArithmetic

/-- An event of one entry makes the matcher throw, whatever the other entries are. -/
theorem matchers_thrown : ¬ ∀ (ledgerEntries : List ReconcilableLedgerEntry)
    (intents : List ReconcilableIntent) (chainEvents : List ReconcilableChainEvent),
    Isolates (LedgerChainMatcher.matchRecords ledgerEntries) LedgerChainMatch.txHash chainEvents ∧
      Isolates (IntentChainMatcher.matchRecords intents) IntentChainMatch.txHash chainEvents := by
  intro h
  obtain ⟨⟨rows, -, hrows, -⟩, -⟩ := h [oneDollar] [] [unscaled]
  have hthrown : (LedgerChainMatcher.matchRecords [oneDollar] [unscaled]).isOk = false := by
    decide +kernel
  rw [hrows] at hthrown
  cases hthrown

end Attestia.Reconciler
