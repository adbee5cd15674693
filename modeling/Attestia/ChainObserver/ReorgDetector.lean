import Attestia.Lib.Highest
import Attestia.Lib.JsMap
import Attestia.Lib.JsString

/-!
# Reorganisations

`reorg-detector.ts`: the hashes of recent blocks are kept, and a block that comes with another hash
than the one that is kept under its number is reported. When there are more than the depth, the
number that was recorded first is dropped.
-/

namespace Attestia.ChainObserver

open Lib

structure BlockRecord where
  blockNumber : ℤ
  blockHash : JsString

structure L2ReorgDetectedPayload where
  chainId : JsString
  blockNumber : ℤ
  expectedHash : JsString
  actualHash : JsString
  detectedAt : JsString
  bufferDepth : ℕ

structure ReorgDetector where
  chainId : JsString
  maxDepth : ℕ
  blockBuffer : JsMap ℤ JsString

namespace ReorgDetector

def new (chainId : JsString) (maxDepth : ℕ) : ReorgDetector := ⟨chainId, maxDepth, .empty⟩

variable (d : ReorgDetector)

/-- The buffer without its first key, if there are more than the depth. -/
def prune (blockBuffer : JsMap ℤ JsString) : JsMap ℤ JsString :=
  if d.maxDepth < blockBuffer.keys.length then
    match blockBuffer.keys.head? with
    | some oldestKey => blockBuffer.erase oldestKey
    | none => blockBuffer
  else blockBuffer

def recordBlock (block : BlockRecord) : ReorgDetector :=
  { d with blockBuffer := d.prune (d.blockBuffer.set block.blockNumber block.blockHash) }

def checkBlock (block : BlockRecord) (detectedAt : JsString) :
    Option L2ReorgDetectedPayload × ReorgDetector :=
  match d.blockBuffer.get? block.blockNumber with
  | some existing =>
    if existing ≠ block.blockHash then
      (some ⟨d.chainId, block.blockNumber, existing, block.blockHash, detectedAt,
        d.blockBuffer.keys.length⟩, d)
    else (none, d.recordBlock block)
  | none => (none, d.recordBlock block)

def reset : ReorgDetector := { d with blockBuffer := .empty }

end ReorgDetector

/-! ## Runs -/

inductive DetectorCall where
  | checkBlock (block : BlockRecord) (detectedAt : JsString)
  | reset

def recordedNumbers (records : List BlockRecord) : Finset ℤ :=
  (records.map BlockRecord.blockNumber).toFinset

/-- The hash that was recorded last for a block. -/
def recordedHash (records : List BlockRecord) (n : ℤ) : Option JsString :=
  (records.find? fun r => r.blockNumber = n).map BlockRecord.blockHash

/-- A detector, and the blocks that it has recorded since the last reset, the last one first. -/
structure Watch where
  detector : ReorgDetector
  records : List BlockRecord

namespace Watch

variable (w : Watch)

def call : DetectorCall → Watch
  | .checkBlock block detectedAt =>
    ⟨(w.detector.checkBlock block detectedAt).2,
      if (w.detector.checkBlock block detectedAt).1 = none then block :: w.records else w.records⟩
  | .reset => ⟨w.detector.reset, []⟩

def run (calls : List DetectorCall) : Watch := calls.foldl call w

/-- Another hash for one of the highest blocks is reported, and nothing else is. -/
structure DetectsReorgs : Prop where
  reported : ∀ block detectedAt hash, recordedHash w.records block.blockNumber = some hash →
    hash ≠ block.blockHash →
    ((recordedNumbers w.records).filter fun n => block.blockNumber < n).card <
      w.detector.maxDepth →
    (w.detector.checkBlock block detectedAt).1 ≠ none
  recorded : ∀ block detectedAt, (w.detector.checkBlock block detectedAt).1 ≠ none →
    ∃ r ∈ w.records, r.blockNumber = block.blockNumber ∧ r.blockHash ≠ block.blockHash

end Watch

/-- When a block gets into a full buffer, the key that was recorded first is the lowest. -/
def ReorgDetector.PrunesLowest (d : ReorgDetector) : DetectorCall → Prop
  | .checkBlock block _ => block.blockNumber ∉ d.blockBuffer.keys →
    d.maxDepth ≤ d.blockBuffer.keys.length → ∀ oldestKey ∈ d.blockBuffer.keys.head?,
      ∀ n ∈ block.blockNumber :: d.blockBuffer.keys, n ≠ oldestKey → oldestKey < n
  | .reset => True

instance (d : ReorgDetector) : DecidablePred d.PrunesLowest
  | .checkBlock block _ => inferInstanceAs (Decidable (block.blockNumber ∉ d.blockBuffer.keys →
    d.maxDepth ≤ d.blockBuffer.keys.length → ∀ oldestKey ∈ d.blockBuffer.keys.head?,
      ∀ n ∈ block.blockNumber :: d.blockBuffer.keys, n ≠ oldestKey → oldestKey < n))
  | .reset => inferInstanceAs (Decidable True)

/-- Every call of a list meets that. -/
def Watch.PrunesLowest (w : Watch) : List DetectorCall → Prop
  | [] => True
  | c :: calls => w.detector.PrunesLowest c ∧ (w.call c).PrunesLowest calls

/-! ## What is in the buffer -/

variable {d : ReorgDetector} {w : Watch} {block : BlockRecord} {detectedAt : JsString} {n : ℤ}
  {hash : JsString}

theorem ReorgDetector.checkBlock_cases (d : ReorgDetector) (block : BlockRecord)
    (detectedAt : JsString) :
    (∃ existing payload, d.blockBuffer.get? block.blockNumber = some existing ∧
      existing ≠ block.blockHash ∧ d.checkBlock block detectedAt = (some payload, d)) ∨
    (∀ existing, d.blockBuffer.get? block.blockNumber = some existing →
      existing = block.blockHash) ∧
        d.checkBlock block detectedAt = (none, d.recordBlock block) := by
  rw [checkBlock]
  cases d.blockBuffer.get? block.blockNumber with
  | none => exact .inr ⟨fun _ h => (by cases h), rfl⟩
  | some existing =>
    dsimp only
    split
    · rename_i hne
      exact .inl ⟨existing, _, rfl, hne, rfl⟩
    · rename_i heq
      exact .inr ⟨fun _ h => Option.some.inj h ▸ not_not.mp heq, rfl⟩

theorem ReorgDetector.get?_of_prune {blockBuffer : JsMap ℤ JsString}
    (h : (d.prune blockBuffer).get? n = some hash) : blockBuffer.get? n = some hash := by
  rw [prune] at h
  split at h
  · split at h
    · rw [JsMap.get?_erase] at h
      split at h
      · cases h
      · exact h
    · exact h
  · exact h

theorem recordedHash_cons (records : List BlockRecord) (n : ℤ) :
    recordedHash (block :: records) n =
      if block.blockNumber = n then some block.blockHash else recordedHash records n := by
  rw [recordedHash, recordedHash, List.find?_cons]
  by_cases h : block.blockNumber = n
  · simp [h]
  · simp [h]

theorem recordedNumbers_cons (records : List BlockRecord) :
    recordedNumbers (block :: records) = insert block.blockNumber (recordedNumbers records) := by
  rw [recordedNumbers, List.map_cons, List.toFinset_cons]
  rfl

theorem mem_recordedNumbers {records : List BlockRecord} :
    n ∈ recordedNumbers records ↔ ∃ hash, recordedHash records n = some hash := by
  induction records with
  | nil => simp [recordedNumbers, recordedHash]
  | cons block records ih =>
    rw [recordedNumbers_cons, Finset.mem_insert, ih, recordedHash_cons]
    by_cases h : block.blockNumber = n
    · simp [h]
    · simp [h, Ne.symm h]

theorem exists_record {records : List BlockRecord} (h : recordedHash records n = some hash) :
    ∃ r ∈ records, r.blockNumber = n ∧ r.blockHash = hash := by
  obtain ⟨r, hr, hhash⟩ := Option.map_eq_some_iff.mp h
  exact ⟨r, List.mem_of_find?_eq_some hr, by simpa using List.find?_some hr, hhash⟩

theorem ReorgDetector.prune_of_le {blockBuffer : JsMap ℤ JsString}
    (h : blockBuffer.keys.length ≤ d.maxDepth) : d.prune blockBuffer = blockBuffer := by
  rw [prune, if_neg (not_lt.mpr h)]

theorem ReorgDetector.prune_of_lt {blockBuffer : JsMap ℤ JsString} {oldestKey : ℤ}
    (h : d.maxDepth < blockBuffer.keys.length) (holdest : blockBuffer.keys.head? = some oldestKey) :
    d.prune blockBuffer = blockBuffer.erase oldestKey := by
  rw [prune, if_pos h, holdest]

namespace Watch

/-- The numbers in the buffer. -/
def kept (w : Watch) : Finset ℤ := w.detector.blockBuffer.keys.toFinset

theorem mem_kept : n ∈ w.kept ↔ n ∈ w.detector.blockBuffer.keys := List.mem_toFinset

theorem card_kept (w : Watch) : w.kept.card = w.detector.blockBuffer.keys.length :=
  List.toFinset_card_of_nodup w.detector.blockBuffer.nodup

structure Inv (w : Watch) : Prop where
  pos : 1 ≤ w.detector.maxDepth
  hash : ∀ n hash, w.detector.blockBuffer.get? n = some hash → recordedHash w.records n = some hash
  size : w.detector.blockBuffer.keys.length ≤ w.detector.maxDepth

theorem Inv.kept_subset (h : w.Inv) : w.kept ⊆ recordedNumbers w.records := by
  intro n hn
  obtain ⟨hash, hget⟩ := JsMap.mem_keys.mp (mem_kept.mp hn)
  exact mem_recordedNumbers.mpr ⟨hash, h.hash n hash hget⟩

theorem Inv.recorded (h : w.Inv) (hreported : (w.detector.checkBlock block detectedAt).1 ≠ none) :
    ∃ r ∈ w.records, r.blockNumber = block.blockNumber ∧ r.blockHash ≠ block.blockHash := by
  rcases w.detector.checkBlock_cases block detectedAt with
    ⟨existing, _, hget, hne, -⟩ | ⟨-, hcheck⟩
  · obtain ⟨r, hr, hnumber, hhash⟩ := exists_record (h.hash _ _ hget)
    exact ⟨r, hr, hnumber, hhash ▸ hne⟩
  · exact absurd (congrArg Prod.fst hcheck) hreported

/-- Another hash is reported for the blocks in the buffer. -/
theorem Inv.detectsReorgs_iff (h : w.Inv) : w.DetectsReorgs ↔
    KeepsHighest w.detector.maxDepth (recordedNumbers w.records) w.kept := by
  constructor
  · intro hdetects n hn hfew
    obtain ⟨hash, hhash⟩ := mem_recordedNumbers.mp hn
    have hne : hash ≠ hash ++ js "'" := by
      rw [ne_eq, List.self_eq_append_right]
      decide
    have hreported := hdetects.reported ⟨n, hash ++ js "'"⟩ [] hash hhash hne hfew
    rcases w.detector.checkBlock_cases ⟨n, hash ++ js "'"⟩ [] with
      ⟨existing, _, hget, -, -⟩ | ⟨-, hcheck⟩
    · exact mem_kept.mpr (JsMap.mem_keys.mpr ⟨existing, hget⟩)
    · exact absurd (congrArg Prod.fst hcheck) hreported
  · intro hkeeps
    refine ⟨fun block detectedAt hash hhash hne hfew => ?_, fun block detectedAt => h.recorded⟩
    have hkept := hkeeps _ (mem_recordedNumbers.mpr ⟨hash, hhash⟩) hfew
    obtain ⟨existing, hget⟩ := JsMap.mem_keys.mp (mem_kept.mp hkept)
    have heq := Option.some.inj ((h.hash _ _ hget).symm.trans hhash)
    rcases w.detector.checkBlock_cases block detectedAt with ⟨_, _, -, -, hcheck⟩ | ⟨hsame, -⟩
    · rw [hcheck]
      simp
    · exact absurd (heq ▸ hsame existing hget) hne

/-! ## Calls -/

theorem call_checkBlock_cases (w : Watch) (block : BlockRecord) (detectedAt : JsString) :
    (block.blockNumber ∈ w.kept ∧ w.call (.checkBlock block detectedAt) = w) ∨
      w.call (.checkBlock block detectedAt) =
        ⟨w.detector.recordBlock block, block :: w.records⟩ := by
  rcases w.detector.checkBlock_cases block detectedAt with
    ⟨existing, payload, hget, -, hcheck⟩ | ⟨-, hcheck⟩
  · left
    refine ⟨mem_kept.mpr (JsMap.mem_keys.mpr ⟨existing, hget⟩), ?_⟩
    rw [call, hcheck]
    rfl
  · right
    rw [call, hcheck]
    rfl

section

variable {records : List BlockRecord}

theorem Inv.kept_of_mem (h : w.Inv) (hmem : block.blockNumber ∈ w.kept) :
    kept ⟨w.detector.recordBlock block, records⟩ = w.kept := by
  have hkeys : (w.detector.blockBuffer.set block.blockNumber block.blockHash).keys =
      w.detector.blockBuffer.keys := by
    rw [JsMap.keys_set, if_pos (mem_kept.mp hmem)]
  rw [kept, ReorgDetector.recordBlock, ReorgDetector.prune_of_le (hkeys ▸ h.size), hkeys, kept]

theorem keys_set_of_new (hnew : block.blockNumber ∉ w.kept) :
    (w.detector.blockBuffer.set block.blockNumber block.blockHash).keys =
      w.detector.blockBuffer.keys ++ [block.blockNumber] := by
  rw [JsMap.keys_set, if_neg (mt mem_kept.mpr hnew)]

theorem kept_of_lt (hnew : block.blockNumber ∉ w.kept)
    (hroom : w.kept.card < w.detector.maxDepth) :
    kept ⟨w.detector.recordBlock block, records⟩ = insert block.blockNumber w.kept := by
  have hkeys := keys_set_of_new hnew
  have hsize : (w.detector.blockBuffer.set block.blockNumber block.blockHash).keys.length ≤
      w.detector.maxDepth := by
    rw [hkeys, List.length_append, ← card_kept]
    exact hroom
  rw [kept, ReorgDetector.recordBlock, ReorgDetector.prune_of_le hsize, hkeys]
  ext n
  simp [kept]

theorem kept_of_full {oldestKey : ℤ} (hnew : block.blockNumber ∉ w.kept)
    (hfull : w.detector.maxDepth ≤ w.kept.card)
    (holdest : w.detector.blockBuffer.keys.head? = some oldestKey) :
    kept ⟨w.detector.recordBlock block, records⟩ =
      (insert block.blockNumber w.kept).erase oldestKey := by
  have hkeys := keys_set_of_new hnew
  have hsize : w.detector.maxDepth <
      (w.detector.blockBuffer.set block.blockNumber block.blockHash).keys.length := by
    rw [hkeys, List.length_append, ← card_kept]
    exact Nat.lt_succ_of_le hfull
  have hfirst : (w.detector.blockBuffer.set block.blockNumber block.blockHash).keys.head? =
      some oldestKey := by
    rw [hkeys, List.head?_append, holdest, Option.some_or]
  rw [kept, ReorgDetector.recordBlock, ReorgDetector.prune_of_lt hsize hfirst]
  ext n
  rw [List.mem_toFinset, JsMap.mem_keys, JsMap.get?_erase, Finset.mem_erase, Finset.mem_insert,
    mem_kept]
  by_cases hn : n = oldestKey
  · simp [hn]
  · rw [if_neg hn, ← JsMap.mem_keys, JsMap.mem_keys_set, and_iff_right hn]

/-- A buffer that is full has an oldest key. -/
theorem Inv.exists_oldest (h : w.Inv) (hfull : w.detector.maxDepth ≤ w.kept.card) :
    ∃ oldestKey ∈ w.kept, w.detector.blockBuffer.keys.head? = some oldestKey := by
  have hpos := h.pos
  rw [card_kept] at hfull
  cases hkeys : w.detector.blockBuffer.keys with
  | nil =>
    rw [hkeys, List.length_nil] at hfull
    omega
  | cons oldestKey keys =>
    refine ⟨oldestKey, mem_kept.mpr ?_, rfl⟩
    rw [hkeys]
    exact .head _

theorem Inv.recordBlock (h : w.Inv) : Inv ⟨w.detector.recordBlock block, block :: w.records⟩ := by
  refine ⟨h.pos, fun n hash hget => ?_, ?_⟩
  · have hset := ReorgDetector.get?_of_prune hget
    rw [JsMap.get?_set] at hset
    rw [recordedHash_cons]
    split
    · rename_i hn
      rw [if_pos hn] at hset
      exact hset
    · rename_i hn
      rw [if_neg hn] at hset
      exact h.hash n hash hset
  · have hsize := h.size
    rw [← card_kept] at hsize ⊢
    by_cases hmem : block.blockNumber ∈ w.kept
    · rw [h.kept_of_mem hmem]
      exact hsize
    · by_cases hroom : w.kept.card < w.detector.maxDepth
      · rw [kept_of_lt hmem hroom, Finset.card_insert_of_notMem hmem]
        exact hroom
      · obtain ⟨oldestKey, hkept, holdest⟩ := h.exists_oldest (not_lt.mp hroom)
        rw [kept_of_full hmem (not_lt.mp hroom) holdest,
          Finset.card_erase_of_mem (Finset.mem_insert_of_mem hkept),
          Finset.card_insert_of_notMem hmem, Nat.add_sub_cancel]
        exact hsize

end

theorem Inv.call (h : w.Inv) (c : DetectorCall) : (w.call c).Inv := by
  cases c with
  | checkBlock block detectedAt =>
    rcases w.call_checkBlock_cases block detectedAt with ⟨-, heq⟩ | heq
    · rw [heq]
      exact h
    · rw [heq]
      exact h.recordBlock
  | reset =>
    refine ⟨h.pos, fun n hash hget => ?_, Nat.zero_le _⟩
    cases hget

/-- A call after which the buffer still has the highest blocks. -/
theorem Inv.call_keepsHighest_iff (h : w.Inv)
    (hkeeps : KeepsHighest w.detector.maxDepth (recordedNumbers w.records) w.kept)
    (c : DetectorCall) :
    KeepsHighest (w.call c).detector.maxDepth (recordedNumbers (w.call c).records) (w.call c).kept ↔
      w.detector.PrunesLowest c := by
  cases c with
  | reset => exact iff_of_true (fun n hn => absurd hn (List.not_mem_nil)) trivial
  | checkBlock block detectedAt =>
    by_cases hmem : block.blockNumber ∈ w.kept
    · refine iff_of_true ?_ fun hnew => absurd (mem_kept.mp hmem) hnew
      rcases w.call_checkBlock_cases block detectedAt with ⟨-, heq⟩ | heq
      · rw [heq]
        exact hkeeps
      · rw [heq, h.kept_of_mem hmem]
        dsimp only
        rw [recordedNumbers_cons, Finset.insert_eq_of_mem (h.kept_subset hmem)]
        exact hkeeps
    · have heq := (w.call_checkBlock_cases block detectedAt).resolve_left fun hold => hmem hold.1
      rw [heq]
      dsimp only
      rw [recordedNumbers_cons]
      by_cases hroom : w.kept.card < w.detector.maxDepth
      · rw [kept_of_lt hmem hroom]
        refine iff_of_true (hkeeps.grow hroom) fun _ hfull => ?_
        rw [← card_kept] at hfull
        exact absurd hroom (not_lt.mpr hfull)
      · have hfull := not_lt.mp hroom
        have hcard : w.kept.card = w.detector.maxDepth :=
          le_antisymm (w.card_kept ▸ h.size) hfull
        obtain ⟨oldestKey, hkept, holdest⟩ := h.exists_oldest hfull
        rw [kept_of_full hmem hfull holdest]
        refine (hkeeps.replace_iff h.kept_subset hcard hmem hkept).trans ⟨?_, ?_⟩
        · intro hlowest _ _ key hkey n hn hne
          cases holdest.symm.trans hkey
          apply hlowest n
          rw [Finset.mem_erase, Finset.mem_insert, mem_kept, ← List.mem_cons]
          exact ⟨hne, hn⟩
        · intro hlowest n hn
          rw [Finset.mem_erase, Finset.mem_insert, mem_kept, ← List.mem_cons] at hn
          exact hlowest (mt mem_kept.mpr hmem) (w.card_kept ▸ hfull) oldestKey holdest n hn.2 hn.1

/-! ## Runs -/

def start (chainId : JsString) (maxDepth : ℕ) : Watch := ⟨.new chainId maxDepth, []⟩

theorem inv_start {chainId : JsString} {maxDepth : ℕ} (h : 1 ≤ maxDepth) :
    (start chainId maxDepth).Inv := by
  refine ⟨h, fun n hash hget => ?_, Nat.zero_le _⟩
  cases hget

theorem forall_prefix_cons {α : Type*} {P : List α → Prop} {a : α} {l : List α} :
    (∀ done, done <+: a :: l → P done) ↔ P [] ∧ ∀ done, done <+: l → P (a :: done) := by
  constructor
  · intro h
    exact ⟨h [] List.nil_prefix, fun done hdone => h _ (List.cons_prefix_cons.mpr ⟨rfl, hdone⟩)⟩
  · intro ⟨hnil, hcons⟩ done hdone
    rcases List.prefix_cons_iff.mp hdone with rfl | ⟨rest, rfl, hrest⟩
    · exact hnil
    · exact hcons rest hrest

theorem Inv.run_detectsReorgs_iff (h : w.Inv) (hdetects : w.DetectsReorgs)
    (calls : List DetectorCall) :
    (∀ done, done <+: calls → (w.run done).DetectsReorgs) ↔ w.PrunesLowest calls := by
  induction calls generalizing w with
  | nil =>
    refine iff_of_true (fun done hdone => ?_) trivial
    rw [List.prefix_nil.mp hdone]
    exact hdetects
  | cons c calls ih =>
    have hstep : (w.call c).DetectsReorgs ↔ w.detector.PrunesLowest c := by
      rw [(h.call c).detectsReorgs_iff]
      exact h.call_keepsHighest_iff (h.detectsReorgs_iff.mp hdetects) c
    rw [forall_prefix_cons]
    constructor
    · intro ⟨_, hlater⟩
      have hnext : (w.call c).DetectsReorgs := hlater [] List.nil_prefix
      exact ⟨hstep.mp hnext, (ih (h.call c) hnext).mp hlater⟩
    · intro ⟨hc, hcalls⟩
      exact ⟨hdetects, (ih (h.call c) (hstep.mpr hc)).mpr hcalls⟩

/-- A detector reports the reorganisations of the highest blocks throughout a run when every block
that gets into a full buffer takes the place of the lowest one. -/
theorem detectsReorgs_iff_prunesLowest {chainId : JsString} {maxDepth : ℕ} (hdepth : 1 ≤ maxDepth)
    (calls : List DetectorCall) :
    (∀ done, done <+: calls → ((start chainId maxDepth).run done).DetectsReorgs) ↔
      (start chainId maxDepth).PrunesLowest calls := by
  have hinv : (start chainId maxDepth).Inv := inv_start hdepth
  apply hinv.run_detectsReorgs_iff
  apply hinv.detectsReorgs_iff.mpr
  exact fun n hn => absurd hn List.not_mem_nil

def checkOf (blockNumber : ℤ) (blockHash : String) : DetectorCall :=
  .checkBlock ⟨blockNumber, js blockHash⟩ []

/-- Blocks in the order of their numbers. -/
theorem detectsReorgs_iff_prunesLowest_ascending :
    ((start (js "eip155:10") 2).run
      [checkOf 100 "0xa", checkOf 101 "0xb", checkOf 102 "0xc"]).DetectsReorgs := by
  refine (detectsReorgs_iff_prunesLowest (by decide) _).mpr ?_ _ List.prefix_rfl
  refine ⟨?_, ?_, ?_, trivial⟩ <;> decide +kernel

/-- An old block that is filled in drops one that is among the highest. -/
theorem not_detectsReorgs_backfilled : ¬ ((start (js "eip155:10") 2).run
    [checkOf 100 "0xa", checkOf 101 "0xb", checkOf 7 "0xc"]).DetectsReorgs := by
  intro h
  apply h.reported ⟨100, js "0xd"⟩ [] (js "0xa") <;> decide +kernel

end Watch

end Attestia.ChainObserver
