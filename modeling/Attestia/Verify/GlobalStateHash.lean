import Attestia.Lib.Jcs
import Attestia.Lib.JsMap
import Attestia.Lib.Sha256

/-!
# The global state hash

`global-state-hash.ts`: each snapshot is hashed in its canonical form, and the hashes are
hashed together. The canonicalization is a library that is called; it enters as a parameter.
-/

namespace Attestia.Verify

open Lib JsonNumber

inductive VerificationVerdict where
  | PASS
  | FAIL
  deriving DecidableEq

theorem pass_iff {α : Type} {l : List α} :
    (if l = [] then VerificationVerdict.PASS else .FAIL) = .PASS ↔ l = [] := by
  rw [ite_eq_left_iff]
  constructor
  · intro h
    by_contra hne
    cases h hne
  · intro h hne
    exact absurd h hne

/-- `Record<string, string>`. -/
abbrev ChainHashes := JsMap JsString JsString

structure SubsystemHashes where
  ledger : JsString
  registrum : JsString
  chains : Option ChainHashes

structure GlobalStateHash where
  hash : JsString
  computedAt : JsString
  subsystems : SubsystemHashes

def sha256Hex (data : String) : JsString := js (hexEncode (sha256 (Utf8.encode data.toList)))

/-- The hashes of the chains where there are any. -/
def present : Option ChainHashes → Option ChainHashes
  | none => none
  | some chainHashes => if chainHashes.entries = [] then none else some chainHashes

def jsonOfChains (chainHashes : ChainHashes) : JsonValue :=
  .object (chainHashes.entries.map fun e => (e.1, some (.str e.2)))

def combinedData (ledgerHash registrumHash : JsString) (chainHashes : Option ChainHashes) :
    JsonValue :=
  .object [(js "ledger", some (.str ledgerHash)), (js "registrum", some (.str registrumHash)),
    (js "chains", (present chainHashes).map jsonOfChains)]

section

variable (canonicalize : JsonValue → String)

/-- The time of the snapshot is taken out. -/
def hashLedgerSnapshot (snapshot : JsonObject) : JsString :=
  sha256Hex (canonicalize (snapshot.without (js "createdAt")).toJsonValue)

def hashRegistrumSnapshot (snapshot : JsonValue) : JsString := sha256Hex (canonicalize snapshot)

/-- `computedAt` is the text of the clock. -/
def computeGlobalStateHash (computedAt : JsString) (ledgerSnapshot : JsonObject)
    (registrumSnapshot : JsonValue) (chainHashes : Option ChainHashes) : GlobalStateHash :=
  let ledgerHash := hashLedgerSnapshot canonicalize ledgerSnapshot
  let registrumHash := hashRegistrumSnapshot canonicalize registrumSnapshot
  ⟨sha256Hex (canonicalize (combinedData ledgerHash registrumHash chainHashes)), computedAt,
    ledgerHash, registrumHash, present chainHashes⟩

end

/-! ## What the hashes fix -/

/-- The hash of a chain; without hashes there is none. -/
def chainHash (chainHashes : Option ChainHashes) (chain : JsString) : Option JsString :=
  chainHashes.bind fun hashes => hashes.get? chain

theorem chainHash_present (chainHashes : Option ChainHashes) :
    chainHash (present chainHashes) = chainHash chainHashes := by
  funext chain
  cases chainHashes with
  | none => rfl
  | some hashes =>
    rw [present]
    split
    · rename_i hnil
      simp [chainHash, JsMap.get?, hnil]
    · rfl

theorem get?_jsonOfChains (chainHashes : ChainHashes) (chain : JsString) :
    (jsonOfChains chainHashes).get? chain = (chainHashes.get? chain).map .str := by
  have hnodup : ((chainHashes.entries.map fun e => (e.1, some (JsonValue.str e.2))).map
      Prod.fst).Nodup := by
    rw [List.map_map]
    exact chainHashes.nodup
  rw [jsonOfChains, JsonValue.get?_object hnodup, List.find?_map, JsMap.get?]
  show Option.bind (Option.map _ (chainHashes.entries.find? fun e => e.1 = chain)) _ = _
  cases chainHashes.entries.find? fun e => e.1 = chain <;> rfl

theorem chainHash_eq_of_same {as bs : Option ChainHashes}
    (h : Option.Rel JsonValue.Same ((present as).map jsonOfChains) ((present bs).map jsonOfChains)) :
    chainHash as = chainHash bs := by
  rw [← chainHash_present as, ← chainHash_present bs]
  generalize present as = a at h ⊢
  generalize present bs = b at h ⊢
  funext chain
  rcases a with _ | a <;> rcases b with _ | b
  · rfl
  · cases h
  · cases h
  · cases h with | some h =>
    have hget := h.rel_get? chain
    rw [get?_jsonOfChains, get?_jsonOfChains] at hget
    show a.get? chain = b.get? chain
    generalize a.get? chain = x at hget ⊢
    generalize b.get? chain = y at hget ⊢
    rcases x with _ | x <;> rcases y with _ | y
    · rfl
    · cases hget
    · cases hget
    · cases hget with | some hget => rw [JsonValue.same_str hget]

/-- The message that is hashed for a value. -/
def message (canonicalize : JsonValue → String) (v : JsonValue) : Bytes :=
  Utf8.encode (canonicalize v).toList

/-- Values of one hash are the same. -/
theorem same_of_sha256Hex_eq {canonicalize : JsonValue → String}
    (hcanon : ∀ v w, canonicalize v = canonicalize w → v.Same w) {S : Set Bytes}
    (hcf : CollisionFree S) {v w : JsonValue} (hv : message canonicalize v ∈ S)
    (hw : message canonicalize w ∈ S)
    (h : sha256Hex (canonicalize v) = sha256Hex (canonicalize w)) : v.Same w := by
  have hmessage := hcf hv hw (hexEncode_injective (js_injective h))
  have htext := congrArg Utf8.decode hmessage
  rw [message, message, Utf8.decode_encode, Utf8.decode_encode] at htext
  exact hcanon v w (String.toList_injective htext)

theorem hashes_eq_of_same {a b c d : JsString} {as bs : Option ChainHashes}
    (h : (combinedData a b as).Same (combinedData c d bs)) : a = c ∧ b = d := by
  have hledger := h.rel_get? (js "ledger")
  have hregistrum := h.rel_get? (js "registrum")
  simp [combinedData] at hledger hregistrum
  exact ⟨JsonValue.same_str hledger, JsonValue.same_str hregistrum⟩

end Attestia.Verify
