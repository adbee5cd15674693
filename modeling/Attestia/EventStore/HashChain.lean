import Attestia.EventStore.Types
import Attestia.Lib.Jcs

/-!
# The hash chain of the event log

`computeEventHash` and `verifyHashChain`. The canonicalization is a library that the store
calls; it enters as a parameter with what the store relies on: on a value that JSON can
represent it prints the canonical text of that JSON value.
-/

namespace Attestia.EventStore

open Lib JsonNumber

/-- The canonical JSON library: `text` on JSON values, `canonicalize` on the object that the
store builds from an event. -/
structure Canonicalizer [Rounding] where
  text : JsonValue → String
  canonicalize : EventContent → Except JsError String
  canonicalize_of_isJson : ∀ (c : EventContent) (j : JsonValue), c.event.IsJson →
    c.image = .ok j → canonicalize c = .ok (text j)
  eq_text_of_canonicalize : ∀ (c : EventContent) (s : String), canonicalize c = .ok s →
    ∃ j, c.image = .ok j ∧ s = text j

/-- RFC 8785 on the JSON image of the event. -/
def jcs [Rounding] : Canonicalizer where
  text := JsonValue.canonicalText
  canonicalize c := c.image.map JsonValue.canonicalText
  canonicalize_of_isJson c j _ hj := by rw [hj]; rfl
  eq_text_of_canonicalize c s h := by
    cases hc : c.image with
    | error e => rw [hc] at h; cases h
    | ok j => rw [hc] at h; exact ⟨j, rfl, (Except.ok.inj h).symm⟩

def GENESIS_HASH : JsString := js "genesis"

/-- The text of a value in a template literal or behind `+`. -/
def template (v : JsonValue) : Except JsError JsString :=
  match JsonValue.toJsString v.val with
  | some s => .ok s
  | none => .error .typeError

/-- The hexadecimal digest of a string. -/
def sha256Hex (input : JsString) : JsString :=
  js (hexEncode (sha256 (Utf8.encode (JsString.toWellFormed input))))

variable [Rounding] (cz : Canonicalizer)

def computeEventHash (event : EventContent) (previousHash : JsonValue) :
    Except JsError JsString := do
  let content ← cz.canonicalize event
  let suffix ← template previousHash
  return sha256Hex (js content ++ suffix)

/-! ## Verification -/

/-- The variables of the loop of `verifyHashChain`. -/
structure VerifyState where
  errors : List IntegrityError
  lastVerifiedPosition : Number
  previousHash : JsonValue
  chainStarted : Bool
  expectedPosition : Option Number

def positionText (e : StoredEvent) : JsString := Rounding.text e.globalPosition

/-- Positions must increase by exactly one. -/
def contiguityErrors (expectedPosition : Option Number) (e : StoredEvent) : List IntegrityError :=
  match expectedPosition with
  | none => []
  | some p =>
    if e.globalPosition = p then []
    else [⟨e.globalPosition, js "globalPosition is not contiguous: expected " ++
      Rounding.text p ++ js ", got " ++ positionText e ++
      js " — possible truncation or reordering"⟩]

/-- The first hashed event must continue the genesis hash. -/
def anchorErrors (chainStarted : Bool) (e : StoredEvent) (previousHash : JsonValue) :
    Except JsError (List IntegrityError) :=
  if chainStarted || JsonValue.strictEq previousHash (.str GENESIS_HASH) then return []
  else do
    let claimed ← template previousHash
    return [⟨e.globalPosition,
      js "chain does not start at genesis: first hashed event at position " ++ positionText e ++
        js " has previousHash \"" ++ claimed ++ js "\", expected GENESIS_HASH (\"" ++ GENESIS_HASH ++
        js "\") — possible head truncation"⟩]

/-- The previous hash must be the one before; the first hashed event sets the comparison to its
own value, so that it never differs from it. -/
def linkErrors (s : VerifyState) (e : StoredEvent) (previousHash : JsonValue) :
    Except JsError (List IntegrityError) :=
  if !s.chainStarted || JsonValue.strictEq previousHash s.previousHash then return []
  else do
    let expected ← template s.previousHash
    let got ← template previousHash
    return [⟨e.globalPosition, js "previousHash mismatch at position " ++ positionText e ++
      js ": expected \"" ++ expected ++ js "\", got \"" ++ got ++ js "\""⟩]

/-- The hash must be the recomputed one. -/
def hashErrors (e : StoredEvent) (hash : JsonValue) (expectedHash : JsString) :
    Except JsError (List IntegrityError) :=
  if JsonValue.strictEq hash (.str expectedHash) then return []
  else do
    let got ← template hash
    return [⟨e.globalPosition, js "Hash mismatch at position " ++ positionText e ++
      js ": expected \"" ++ expectedHash ++ js "\", got \"" ++ got ++ js "\""⟩]

def missingHashErrors (chainStarted : Bool) (e : StoredEvent) : List IntegrityError :=
  if chainStarted then
    [⟨e.globalPosition, js "Event at position " ++ positionText e ++
      js " is missing hash fields within a hashed chain"⟩]
  else []

def verifyStep (s : VerifyState) (e : StoredEvent) : Except JsError VerifyState :=
  let errors := s.errors ++ contiguityErrors s.expectedPosition e
  let expectedPosition := some e.globalPosition.next
  match e.links with
  | some (hash, previousHash) => do
    let anchor ← anchorErrors s.chainStarted e previousHash
    let link ← linkErrors s e previousHash
    let expectedHash ← computeEventHash cz e.toEventContent previousHash
    let mismatch ← hashErrors e hash expectedHash
    return ⟨errors ++ anchor ++ link ++ mismatch, e.globalPosition, hash, true, expectedPosition⟩
  | none =>
    return { s with
      errors := errors ++ missingHashErrors s.chainStarted e
      expectedPosition := expectedPosition }

def verifyLoop : VerifyState → List StoredEvent → Except JsError VerifyState
  | s, [] => return s
  | s, e :: events => do
    let s' ← verifyStep cz s e
    verifyLoop s' events

def VerifyState.initial : VerifyState := ⟨[], .ofNat 0, .str GENESIS_HASH, false, none⟩

def verifyHashChain (events : List StoredEvent) : Except JsError EventStoreIntegrityResult := do
  let s ← verifyLoop cz .initial events
  return ⟨s.errors.isEmpty, s.lastVerifiedPosition, s.errors⟩

/-- The verification runs through and finds nothing. -/
def Verifies (events : List StoredEvent) : Prop :=
  ∃ r, verifyHashChain cz events = .ok r ∧ r.valid = true

/-! ## What is verified -/

/-- The hash that the next hashed event continues, and the position that the next event has,
as far as events before it fix them. -/
structure ChainEnd where
  hash : Option JsString
  position : Option Number

def ChainEnd.start : ChainEnd := ⟨none, none⟩

/-- The event continues the chain. -/
def Continues (c : ChainEnd) (e : StoredEvent) : Prop :=
  (∀ p, c.position = some p → e.globalPosition = p) ∧
    match e.links with
    | some (hash, previousHash) =>
      previousHash = .str (c.hash.getD GENESIS_HASH) ∧
        ∃ h, computeEventHash cz e.toEventContent previousHash = .ok h ∧ hash = .str h
    | none => c.hash = none

/-- The text of a string hash. -/
def hashText (v : JsonValue) : JsString :=
  match v.val with
  | .str s => s
  | _ => []

def ChainEnd.next (c : ChainEnd) (e : StoredEvent) : ChainEnd :=
  match e.links with
  | some (hash, _) => ⟨some (hashText hash), some e.globalPosition.next⟩
  | none => ⟨c.hash, some e.globalPosition.next⟩

def ChainFrom : ChainEnd → List StoredEvent → Prop
  | _, [] => True
  | c, e :: events => Continues cz c e ∧ ChainFrom (c.next e) events

def chainEnd (c : ChainEnd) (events : List StoredEvent) : ChainEnd :=
  events.foldl ChainEnd.next c

theorem chainFrom_append (c : ChainEnd) (as bs : List StoredEvent) :
    ChainFrom cz c (as ++ bs) ↔ ChainFrom cz c as ∧ ChainFrom cz (chainEnd c as) bs := by
  induction as generalizing c with
  | nil => simp [ChainFrom, chainEnd]
  | cons a as ih =>
    rw [List.cons_append, ChainFrom, ChainFrom, ih, and_assoc]
    rfl

/-- The loop is in a state that the chain end describes, without errors so far. -/
structure Describes (c : ChainEnd) (s : VerifyState) : Prop where
  errors : s.errors = []
  chainStarted : s.chainStarted = c.hash.isSome
  previousHash : ∀ h, c.hash = some h → s.previousHash = .str h
  expectedPosition : s.expectedPosition = c.position

omit [Rounding] in
theorem describes_initial : Describes .start .initial :=
  ⟨rfl, rfl, fun _ h => (nomatch h), rfl⟩

variable {cz}

theorem contiguityErrors_eq_nil {p : Option Number} {e : StoredEvent} :
    contiguityErrors p e = [] ↔ ∀ q, p = some q → e.globalPosition = q := by
  cases p with
  | none => simp [contiguityErrors]
  | some p =>
    rw [contiguityErrors]
    split <;> simp_all

theorem anchorErrors_eq_ok_nil {started : Bool} {e : StoredEvent} {p : JsonValue} :
    anchorErrors started e p = .ok [] ↔ started = true ∨ p = .str GENESIS_HASH := by
  rw [anchorErrors, ← JsonValue.strictEq_str, ← Bool.or_eq_true]
  split
  · rename_i h
    exact ⟨fun _ => h, fun _ => rfl⟩
  · rename_i h
    refine ⟨fun he => ?_, fun he => absurd he h⟩
    obtain ⟨a, -, ha⟩ := bind_eq_ok.mp he
    cases ha

theorem linkErrors_eq_ok_nil {s : VerifyState} {e : StoredEvent} {p : JsonValue} :
    linkErrors s e p = .ok [] ↔
      s.chainStarted = false ∨ JsonValue.strictEq p s.previousHash = true := by
  rw [linkErrors, ← Bool.not_eq_true', ← Bool.or_eq_true]
  split
  · rename_i h
    exact ⟨fun _ => h, fun _ => rfl⟩
  · rename_i h
    refine ⟨fun he => ?_, fun he => absurd he h⟩
    obtain ⟨a, -, he⟩ := bind_eq_ok.mp he
    obtain ⟨b, -, hb⟩ := bind_eq_ok.mp he
    cases hb

theorem hashErrors_eq_ok_nil {e : StoredEvent} {h : JsonValue} {x : JsString} :
    hashErrors e h x = .ok [] ↔ h = .str x := by
  rw [hashErrors, ← JsonValue.strictEq_str]
  split
  · rename_i h
    exact ⟨fun _ => h, fun _ => rfl⟩
  · rename_i h
    refine ⟨fun he => ?_, fun he => absurd he h⟩
    obtain ⟨a, -, ha⟩ := bind_eq_ok.mp he
    cases ha

/-- Errors stay in the list. -/
theorem errors_eq_nil_of_verifyStep {s s' : VerifyState} {e : StoredEvent}
    (h : verifyStep cz s e = .ok s') (he : s'.errors = []) : s.errors = [] := by
  unfold verifyStep at h
  split at h
  · obtain ⟨a, -, h⟩ := bind_eq_ok.mp h
    obtain ⟨l, -, h⟩ := bind_eq_ok.mp h
    obtain ⟨x, -, h⟩ := bind_eq_ok.mp h
    obtain ⟨m, -, h⟩ := bind_eq_ok.mp h
    cases h
    simp only [List.append_eq_nil_iff] at he
    exact he.1.1.1.1
  · cases h
    simp only [List.append_eq_nil_iff] at he
    exact he.1.1

theorem errors_eq_nil_of_verifyLoop {s s' : VerifyState} {events : List StoredEvent}
    (h : verifyLoop cz s events = .ok s') (he : s'.errors = []) : s.errors = [] := by
  induction events generalizing s with
  | nil => cases h; exact he
  | cons e events ih =>
    obtain ⟨t, ht, h⟩ := bind_eq_ok.mp h
    exact errors_eq_nil_of_verifyStep ht (ih h)

/-- Where the chain has started, the link decides; before that, the anchor. -/
theorem previousHash_eq_iff {c : ChainEnd} {s : VerifyState} (hs : Describes c s) (e : StoredEvent)
    (p : JsonValue) :
    p = .str (c.hash.getD GENESIS_HASH) ↔
      anchorErrors s.chainStarted e p = .ok [] ∧ linkErrors s e p = .ok [] := by
  rw [anchorErrors_eq_ok_nil, linkErrors_eq_ok_nil, hs.chainStarted]
  cases hc : c.hash with
  | none => simp
  | some h => simp [hs.previousHash h hc, JsonValue.strictEq_str]

/-- An event that continues the chain adds no error. -/
theorem verifyStep_of_continues {c : ChainEnd} {s : VerifyState} (hs : Describes c s)
    {e : StoredEvent} (h : Continues cz c e) :
    ∃ s', verifyStep cz s e = .ok s' ∧ Describes (c.next e) s' := by
  obtain ⟨hpos, h⟩ := h
  rw [← hs.expectedPosition, ← contiguityErrors_eq_nil] at hpos
  rw [verifyStep, ChainEnd.next, hs.errors, hpos]
  cases hl : e.links with
  | none =>
    simp only [hl] at h
    have hstart := hs.chainStarted
    rw [h] at hstart
    refine ⟨_, rfl, ?_, hs.chainStarted, hs.previousHash, rfl⟩
    rw [hstart]
    rfl
  | some l =>
    obtain ⟨hash, previousHash⟩ := l
    simp only [hl] at h
    obtain ⟨hp, x, hx, rfl⟩ := h
    obtain ⟨ha, hlink⟩ := (previousHash_eq_iff hs e previousHash).mp hp
    refine ⟨⟨[], e.globalPosition, .str x, true, some e.globalPosition.next⟩, ?_, rfl, rfl, ?_, rfl⟩
    · have hm : hashErrors e (.str x) x = .ok [] := hashErrors_eq_ok_nil.mpr rfl
      exact bind_eq_ok.mpr ⟨[], ha, bind_eq_ok.mpr ⟨[], hlink, bind_eq_ok.mpr ⟨x, hx,
        bind_eq_ok.mpr ⟨[], hm, rfl⟩⟩⟩⟩
    · intro h hh
      cases hh
      rfl

/-- An event that adds no error continues the chain. -/
theorem continues_of_verifyStep {c : ChainEnd} {s s' : VerifyState} (hs : Describes c s)
    {e : StoredEvent} (h : verifyStep cz s e = .ok s') (he : s'.errors = []) :
    Continues cz c e := by
  rw [verifyStep, hs.errors] at h
  rw [Continues, ← hs.expectedPosition, ← contiguityErrors_eq_nil]
  cases hl : e.links with
  | none =>
    simp only [hl] at h
    cases h
    simp only [List.nil_append, List.append_eq_nil_iff] at he
    refine ⟨he.1, Option.not_isSome_iff_eq_none.mp fun hsome => ?_⟩
    rw [← hs.chainStarted] at hsome
    rw [missingHashErrors, if_pos hsome] at he
    cases he.2
  | some l =>
    obtain ⟨hash, previousHash⟩ := l
    simp only [hl] at h
    obtain ⟨a, ha, h⟩ := bind_eq_ok.mp h
    obtain ⟨l, hlink, h⟩ := bind_eq_ok.mp h
    obtain ⟨x, hx, h⟩ := bind_eq_ok.mp h
    obtain ⟨m, hm, h⟩ := bind_eq_ok.mp h
    cases h
    simp only [List.nil_append, List.append_eq_nil_iff] at he
    obtain ⟨⟨⟨hpos, rfl⟩, rfl⟩, rfl⟩ := he
    exact ⟨hpos, (previousHash_eq_iff hs e previousHash).mpr ⟨ha, hlink⟩, x, hx,
      hashErrors_eq_ok_nil.mp hm⟩

theorem chainFrom_iff {c : ChainEnd} {s : VerifyState} (hs : Describes c s)
    (events : List StoredEvent) :
    ChainFrom cz c events ↔ ∃ s', verifyLoop cz s events = .ok s' ∧ s'.errors = [] := by
  induction events generalizing c s with
  | nil => exact ⟨fun _ => ⟨s, rfl, hs.errors⟩, fun _ => trivial⟩
  | cons e events ih =>
    rw [ChainFrom]
    constructor
    · rintro ⟨h1, h2⟩
      obtain ⟨t, ht, hd⟩ := verifyStep_of_continues hs h1
      obtain ⟨s', hs', he⟩ := (ih hd).mp h2
      exact ⟨s', bind_eq_ok.mpr ⟨t, ht, hs'⟩, he⟩
    · rintro ⟨s', h, he⟩
      obtain ⟨t, ht, h⟩ := bind_eq_ok.mp h
      have h1 := continues_of_verifyStep hs ht (errors_eq_nil_of_verifyLoop h he)
      obtain ⟨t', ht', hd⟩ := verifyStep_of_continues hs h1
      cases ht.symm.trans ht'
      exact ⟨h1, (ih hd).mpr ⟨s', h, he⟩⟩

/-- The verification finds nothing exactly in the logs whose events continue each other from
genesis. -/
theorem verifies_iff (events : List StoredEvent) :
    Verifies cz events ↔ ChainFrom cz .start events := by
  rw [chainFrom_iff describes_initial, Verifies, verifyHashChain]
  constructor
  · rintro ⟨r, h, hr⟩
    obtain ⟨s, hs, h⟩ := bind_eq_ok.mp h
    cases h
    exact ⟨s, hs, List.isEmpty_iff.mp hr⟩
  · rintro ⟨s, hs, he⟩
    exact ⟨_, bind_eq_ok.mpr ⟨s, hs, rfl⟩, List.isEmpty_iff.mpr he⟩

end Attestia.EventStore
