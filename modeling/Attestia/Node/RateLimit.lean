import Attestia.Lib.Fifo
import Attestia.Lib.TokenBucket
import Mathlib.Data.Rat.Floor

/-!
# Rate limits

`rate-limit.ts`: every identity has a bucket of tokens, a full one at first. The buckets that have
been idle for as long as a full refill takes are swept away.
-/

namespace Attestia.Node

open Lib

abbrev Bucket := TokenBucket ℚ

structure RateLimitConfig where
  rpm : ℚ
  burst : ℚ
  maxBuckets : Option JsNumber

def DEFAULT_MAX_BUCKETS : JsNumber := .finite 100000

structure TokenBucketStore where
  buckets : JsMap JsString Bucket
  rpm : ℚ
  burst : ℚ
  maxBuckets : JsNumber
  idleWindowMs : ℚ

structure ConsumeResult where
  allowed : Bool
  remaining : ℤ
  retryAfterMs : ℤ
deriving DecidableEq

namespace TokenBucketStore

def new (config : RateLimitConfig) : TokenBucketStore where
  buckets := .empty
  rpm := config.rpm
  burst := config.burst
  maxBuckets := config.maxBuckets.getD DEFAULT_MAX_BUCKETS
  idleWindowMs := config.burst / config.rpm * 60000

variable (store : TokenBucketStore)

/-- The bucket of an identity, and the buckets with that one behind the others. -/
def touch (now : ℚ) (identity : JsString) : Bucket × JsMap JsString Bucket :=
  match store.buckets.get? identity with
  | none =>
    (⟨store.burst, now⟩,
      (store.buckets.set identity ⟨store.burst, now⟩).evictOldest store.maxBuckets)
  | some bucket => (bucket, (store.buckets.erase identity).set identity bucket)

/-- A bucket is written to where it is, and that is in the map unless it was evicted. -/
def write (buckets : JsMap JsString Bucket) (identity : JsString) (bucket : Bucket) :
    TokenBucketStore :=
  { store with buckets := if buckets.has identity then buckets.set identity bucket else buckets }

def consume (now : ℚ) (identity : JsString) (cost : ℚ) : ConsumeResult × TokenBucketStore :=
  let (bucket, buckets) := store.touch now identity
  let elapsedMs := now - bucket.lastRefill
  let tokensToAdd := elapsedMs / 60000 * store.rpm
  let tokens := min store.burst (bucket.tokens + tokensToAdd)
  if cost ≤ tokens then
    (⟨true, ⌊tokens - cost⌋, 0⟩, store.write buckets identity ⟨tokens - cost, now⟩)
  else
    (⟨false, 0, ⌈(cost - tokens) / store.rpm * 60000⌉⟩, store.write buckets identity ⟨tokens, now⟩)

def isIdle (now : ℚ) (bucket : Bucket) : Bool := store.idleWindowMs ≤ now - bucket.lastRefill

/-- The number of the evicted buckets, and the store without them. -/
def sweep (now : ℚ) : ℕ × TokenBucketStore :=
  (store.buckets.values.countP (store.isIdle now),
    { store with
      buckets := store.buckets.filterKeys fun key =>
        (store.buckets.get? key).all fun bucket => !store.isIdle now bucket })

end TokenBucketStore

/-! ## Calls -/

structure ConsumeCall where
  now : ℚ
  identity : JsString
  cost : ℚ

inductive RateLimitCall where
  | consume (call : ConsumeCall)
  | sweep (now : ℚ)

def RateLimitCall.now : RateLimitCall → ℚ
  | .consume call => call.now
  | .sweep now => now

def RateLimitCall.consume? : RateLimitCall → Option ConsumeCall
  | .consume call => some call
  | .sweep _ => none

def consumes (calls : List RateLimitCall) : List ConsumeCall :=
  calls.filterMap RateLimitCall.consume?

namespace TokenBucketStore

/-- What the calls return. -/
def consumeAll (store : TokenBucketStore) : List ConsumeCall → List (ConsumeCall × ConsumeResult)
  | [] => []
  | call :: calls =>
    (call, (store.consume call.now call.identity call.cost).1) ::
      (store.consume call.now call.identity call.cost).2.consumeAll calls

/-- What the calls return when there are sweeps in between. -/
def run (store : TokenBucketStore) : List RateLimitCall → List (ConsumeCall × ConsumeResult)
  | [] => []
  | .consume call :: calls =>
    (call, (store.consume call.now call.identity call.cost).1) ::
      (store.consume call.now call.identity call.cost).2.run calls
  | .sweep now :: calls => (store.sweep now).2.run calls

/-- The cap allows so many buckets. -/
def Room (store : TokenBucketStore) (n : ℕ) : Prop := store.maxBuckets.lt (.finite n) = false

/-- There is a place for the bucket of an identity. -/
def Fits (store : TokenBucketStore) (identity : JsString) : Prop :=
  identity ∈ store.buckets.keys ∨ store.Room (store.buckets.keys.length + 1)

/-- No call evicts a bucket to stay under the cap. -/
def NoEviction (store : TokenBucketStore) : List ConsumeCall → Prop
  | [] => True
  | call :: calls => store.Fits call.identity ∧
      (store.consume call.now call.identity call.cost).2.NoEviction calls

end TokenBucketStore

/-- What was allowed to an identity between two times. -/
def allowedCost (identity : JsString) (t₁ t₂ : ℚ) (calls : List (ConsumeCall × ConsumeResult)) :
    ℚ :=
  ((calls.filter fun c => c.2.allowed ∧ c.1.identity = identity ∧ t₁ ≤ c.1.now ∧ c.1.now ≤ t₂).map
    fun c => c.1.cost).sum

/-! ## Levels -/

namespace TokenBucketStore

variable {store s s' : TokenBucketStore} {now t : ℚ} {identity k : JsString} {cost : ℚ}
  {call : ConsumeCall}

/-- The tokens that an identity has at a time. -/
def level (store : TokenBucketStore) (identity : JsString) (t : ℚ) : ℚ :=
  TokenBucket.levelOf store.burst (store.rpm / 60000) (store.buckets.get? identity) t

theorem get?_touch (hfits : store.Fits identity) (k : JsString) :
    (store.touch now identity).2.get? k =
      if identity = k then some (store.touch now identity).1 else store.buckets.get? k := by
  rw [touch]
  cases hget : store.buckets.get? identity with
  | none =>
    have hnew : identity ∉ store.buckets.keys := JsMap.get?_eq_none.mp hget
    have hroom := hfits.resolve_left hnew
    dsimp only
    rw [JsMap.evictOldest_eq_self, JsMap.get?_set]
    rw [JsMap.entries_set_of_not_mem hnew, List.length_append]
    rwa [JsMap.keys, List.length_map] at hroom
  | some bucket =>
    dsimp only
    rw [JsMap.get?_set, JsMap.get?_erase]
    by_cases hk : identity = k
    · rw [if_pos hk, if_pos hk]
    · rw [if_neg hk, if_neg hk, if_neg (Ne.symm hk)]

theorem tokens_touch : min store.burst ((store.touch now identity).1.tokens +
    (now - (store.touch now identity).1.lastRefill) / 60000 * store.rpm) =
      store.level identity now := by
  rw [touch, level]
  cases store.buckets.get? identity with
  | none =>
    show min store.burst (store.burst + (now - now) / 60000 * store.rpm) = store.burst
    rw [sub_self, zero_div, zero_mul, add_zero, min_self]
  | some bucket =>
    show min store.burst (bucket.tokens + (now - bucket.lastRefill) / 60000 * store.rpm) =
      min store.burst (bucket.tokens + (now - bucket.lastRefill) * (store.rpm / 60000))
    rw [div_mul_eq_mul_div, mul_div_assoc]

theorem get?_write {buckets : JsMap JsString Bucket} {bucket : Bucket}
    (hmem : identity ∈ buckets.keys) (k : JsString) :
    (store.write buckets identity bucket).buckets.get? k =
      if identity = k then some bucket else buckets.get? k := by
  show (if buckets.has identity then buckets.set identity bucket else buckets).get? k = _
  rw [if_pos (JsMap.has_eq_true.mpr hmem), JsMap.get?_set]

/-- What a call returns that finds a number of tokens. -/
def answer (store : TokenBucketStore) (tokens cost : ℚ) : ConsumeResult :=
  if cost ≤ tokens then ⟨true, ⌊tokens - cost⌋, 0⟩
  else ⟨false, 0, ⌈(cost - tokens) / store.rpm * 60000⌉⟩

/-- The tokens that such a call leaves. -/
def rest (tokens cost : ℚ) : ℚ := if cost ≤ tokens then tokens - cost else tokens

theorem consume_eq (store : TokenBucketStore) (now : ℚ) (identity : JsString) (cost : ℚ) :
    store.consume now identity cost = (store.answer (store.level identity now) cost,
      store.write (store.touch now identity).2 identity
        ⟨rest (store.level identity now) cost, now⟩) := by
  rw [← tokens_touch, answer, rest, consume]
  dsimp only
  split <;> rfl

theorem get?_consume (hfits : store.Fits identity) (k : JsString) :
    (store.consume now identity cost).2.buckets.get? k =
      if identity = k then some ⟨rest (store.level identity now) cost, now⟩
      else store.buckets.get? k := by
  have hmem : identity ∈ (store.touch now identity).2.keys := by
    apply JsMap.mem_keys.mpr
    rw [get?_touch hfits, if_pos rfl]
    exact ⟨_, rfl⟩
  rw [consume_eq]
  dsimp only
  rw [get?_write hmem, get?_touch hfits]
  split <;> rfl

theorem level_consume (hfits : store.Fits identity) (k : JsString) (t : ℚ) :
    (store.consume now identity cost).2.level k t =
      if identity = k then
        TokenBucket.level store.burst (store.rpm / 60000)
          ⟨rest (store.level identity now) cost, now⟩ t
      else store.level k t := by
  rw [level, get?_consume hfits, consume_eq]
  split <;> rfl

/-- The buckets of a store as its calls up to a time leave them. -/
structure Settled (store : TokenBucketStore) (now : ℚ) : Prop where
  rpm_pos : 0 < store.rpm
  idleWindowMs_eq : store.idleWindowMs = store.burst / store.rpm * 60000
  bucket : ∀ k, ∀ b ∈ store.buckets.get? k, min 0 store.burst ≤ b.tokens ∧ b.lastRefill ≤ now

theorem Settled.rate_pos (h : store.Settled now) : 0 < store.rpm / 60000 :=
  div_pos h.rpm_pos (by norm_num)

theorem Settled.mono (h : store.Settled now) (ht : now ≤ t) : store.Settled t :=
  ⟨h.rpm_pos, h.idleWindowMs_eq, fun k b hb => ⟨(h.bucket k b hb).1, (h.bucket k b hb).2.trans ht⟩⟩

theorem settled_new {config : RateLimitConfig} (hrpm : 0 < config.rpm) (now : ℚ) :
    (new config).Settled now := by
  refine ⟨hrpm, rfl, fun k b hb => ?_⟩
  cases hb

theorem Settled.le_level (h : store.Settled now) (k : JsString) :
    min 0 store.burst ≤ store.level k now :=
  TokenBucket.le_levelOf h.rate_pos.le (h.bucket k)

theorem le_rest {tokens burst : ℚ} (h : min 0 burst ≤ tokens) :
    min 0 burst ≤ rest tokens cost := by
  rw [rest]
  split
  · rename_i hle
    exact (min_le_left 0 burst).trans (sub_nonneg.mpr hle)
  · exact h

theorem Settled.consume (h : store.Settled now) (hfits : store.Fits identity) :
    (store.consume now identity cost).2.Settled now := by
  have hbucket : ∀ k, ∀ b ∈ (store.consume now identity cost).2.buckets.get? k,
      min 0 store.burst ≤ b.tokens ∧ b.lastRefill ≤ now := by
    intro k b hb
    rw [get?_consume hfits] at hb
    split at hb
    · cases hb
      exact ⟨le_rest (h.le_level identity), le_rfl⟩
    · exact h.bucket k b hb
  rw [consume_eq] at hbucket ⊢
  exact ⟨h.rpm_pos, h.idleWindowMs_eq, hbucket⟩

/-! ## Sweeps -/

theorem get?_sweep (store : TokenBucketStore) (now : ℚ) (k : JsString) :
    (store.sweep now).2.buckets.get? k =
      (store.buckets.get? k).filter fun b => !store.isIdle now b := by
  show (store.buckets.filterKeys _).get? k = _
  rw [JsMap.get?_filterKeys]
  cases store.buckets.get? k <;> rfl

theorem Settled.sweep (h : store.Settled now) : (store.sweep now).2.Settled now := by
  refine ⟨h.rpm_pos, h.idleWindowMs_eq, fun k b hb => ?_⟩
  rw [get?_sweep] at hb
  exact h.bucket k b (Option.mem_filter_iff.mp hb).1

/-- A bucket that is swept would be full at every later time. -/
theorem Settled.level_sweep (h : store.Settled now) (ht : now ≤ t) (k : JsString) :
    (store.sweep now).2.level k t = store.level k t := by
  show TokenBucket.levelOf store.burst (store.rpm / 60000) ((store.sweep now).2.buckets.get? k) t =
    TokenBucket.levelOf store.burst (store.rpm / 60000) (store.buckets.get? k) t
  rw [get?_sweep]
  cases hget : store.buckets.get? k with
  | none => rfl
  | some b =>
    rw [Option.filter_some]
    split
    · rfl
    · rename_i hidle
      obtain ⟨htokens, hrefill⟩ := h.bucket k b hget
      rw [Bool.not_eq_true', Bool.not_eq_false, isIdle, decide_eq_true_eq] at hidle
      rw [h.idleWindowMs_eq] at hidle
      symm
      apply TokenBucket.level_eq_capacity h.rate_pos htokens (hrefill.trans ht)
      rw [div_div_eq_mul_div, mul_div_right_comm]
      linarith

/-! ## Stores that differ by sweeps -/

theorem Room.mono {m n : ℕ} (h : store.Room n) (hmn : m ≤ n) : store.Room m := by
  rw [Room] at h ⊢
  cases hcap : store.maxBuckets with
  | finite q =>
    rw [hcap, JsNumber.lt, decide_eq_false_iff_not, not_lt] at h
    rw [JsNumber.lt, decide_eq_false_iff_not, not_lt]
    exact le_trans (Nat.cast_le.mpr hmn) h
  | infinity negative =>
    cases negative with
    | false => rfl
    | true =>
      rw [hcap] at h
      cases h
  | nan => rfl

theorem mem_keys_consume (hfits : store.Fits identity) (k : JsString) :
    k ∈ (store.consume now identity cost).2.buckets.keys ↔
      k = identity ∨ k ∈ store.buckets.keys := by
  rw [JsMap.mem_keys, get?_consume hfits]
  split
  · rename_i hk
    simp [hk]
  · rename_i hk
    rw [← JsMap.mem_keys, or_iff_right (Ne.symm hk)]

/-- A store and one that has been swept in between. -/
structure Follows (now : ℚ) (s s' : TokenBucketStore) : Prop where
  rpm_eq : s'.rpm = s.rpm
  burst_eq : s'.burst = s.burst
  maxBuckets_eq : s'.maxBuckets = s.maxBuckets
  keys_subset : s'.buckets.keys ⊆ s.buckets.keys
  room : s.buckets.keys ≠ [] → s.Room s.buckets.keys.length
  level_eq : ∀ k t, now ≤ t → s'.level k t = s.level k t

theorem Follows.mono (h : Follows now s s') (ht : now ≤ t) : Follows t s s' :=
  { h with level_eq := fun k u hu => h.level_eq k u (ht.trans hu) }

/-- Where one store has a place for a bucket, the one with fewer buckets has. -/
theorem Follows.fits (h : Follows now s s') (hfits : s.Fits identity) : s'.Fits identity := by
  rw [Fits, Room, h.maxBuckets_eq]
  by_cases hmem' : identity ∈ s'.buckets.keys
  · exact .inl hmem'
  · right
    rcases hfits with hmem | hroom
    · -- the bucket has been swept
      have hnodup : (identity :: s'.buckets.keys).Nodup :=
        List.nodup_cons.mpr ⟨hmem', s'.buckets.nodup⟩
      have hsub := hnodup.subperm (List.cons_subset.mpr ⟨hmem, h.keys_subset⟩)
      exact (h.room (List.ne_nil_of_mem hmem)).mono hsub.length_le
    · have hsub := List.Nodup.subperm s'.buckets.nodup h.keys_subset
      exact Room.mono hroom (Nat.add_le_add_right hsub.length_le 1)

theorem room_consume (hroom : store.buckets.keys ≠ [] → store.Room store.buckets.keys.length)
    (hfits : store.Fits identity) :
    store.Room (store.consume now identity cost).2.buckets.keys.length := by
  have hnodup := (store.consume now identity cost).2.buckets.nodup
  rcases hfits with hmem | hnew
  · have hsub : (store.consume now identity cost).2.buckets.keys ⊆ store.buckets.keys := by
      intro k hk
      rcases (mem_keys_consume (.inl hmem) k).mp hk with rfl | hold
      · exact hmem
      · exact hold
    exact (hroom (List.ne_nil_of_mem hmem)).mono (List.Nodup.subperm hnodup hsub).length_le
  · have hsub : (store.consume now identity cost).2.buckets.keys ⊆
        identity :: store.buckets.keys := by
      intro k hk
      exact List.mem_cons.mpr ((mem_keys_consume (.inr hnew) k).mp hk)
    exact Room.mono hnew (List.Nodup.subperm hnodup hsub).length_le

theorem Follows.consume (h : Follows now s s') (hfits : s.Fits identity) :
    Follows now (s.consume now identity cost).2 (s'.consume now identity cost).2 := by
  have hkeys : (s'.consume now identity cost).2.buckets.keys ⊆
      (s.consume now identity cost).2.buckets.keys := by
    intro k hk
    apply (mem_keys_consume hfits k).mpr
    exact ((mem_keys_consume (h.fits hfits) k).mp hk).imp_right fun hk => h.keys_subset hk
  have hlevel : ∀ k t, now ≤ t → (s'.consume now identity cost).2.level k t =
      (s.consume now identity cost).2.level k t := by
    intro k t ht
    rw [level_consume hfits, level_consume (h.fits hfits), h.level_eq identity now le_rfl,
      h.level_eq k t ht, h.rpm_eq, h.burst_eq]
  have hroom : s.Room (s.consume now identity cost).2.buckets.keys.length :=
    room_consume h.room hfits
  rw [consume_eq, consume_eq] at hkeys hlevel
  rw [consume_eq] at hroom
  rw [consume_eq, consume_eq]
  exact ⟨h.rpm_eq, h.burst_eq, h.maxBuckets_eq, hkeys, fun _ => hroom, hlevel⟩

theorem Follows.answer (h : Follows now s s') :
    (s'.consume now identity cost).1 = (s.consume now identity cost).1 := by
  rw [consume_eq, consume_eq]
  show s'.answer (s'.level identity now) cost = s.answer (s.level identity now) cost
  rw [h.level_eq identity now le_rfl, TokenBucketStore.answer, TokenBucketStore.answer, h.rpm_eq]

theorem Follows.sweep (h : Follows now s s') (hs' : s'.Settled now) :
    Follows now s (s'.sweep now).2 := by
  refine ⟨h.rpm_eq, h.burst_eq, h.maxBuckets_eq, ?_, h.room, ?_⟩
  · intro k hk
    obtain ⟨b, hb⟩ := JsMap.mem_keys.mp hk
    rw [get?_sweep, Option.filter_eq_some_iff] at hb
    exact h.keys_subset (JsMap.mem_keys.mpr ⟨b, hb.1⟩)
  · intro k t ht
    rw [hs'.level_sweep ht, h.level_eq k t ht]

/-- Calls that are in order return the same with sweeps in between. -/
theorem run_eq_consumeAll {calls : List RateLimitCall} (h : Follows now s s')
    (hs' : s'.Settled now) (hstart : ∀ c ∈ calls, now ≤ c.now)
    (hclock : calls.Pairwise fun a b => a.now ≤ b.now)
    (hcap : s.NoEviction (consumes calls)) :
    s'.run calls = s.consumeAll (consumes calls) := by
  induction calls generalizing s s' now with
  | nil => rfl
  | cons c calls ih =>
    obtain ⟨hlater, hclock'⟩ := List.pairwise_cons.mp hclock
    have hnow := hstart c (.head _)
    have h := h.mono hnow
    have hs' := hs'.mono hnow
    cases c with
    | consume call =>
      obtain ⟨hfits, hcap⟩ := hcap
      have hrest := ih (h.consume hfits) (hs'.consume (h.fits hfits)) hlater hclock' hcap
      have hanswer : (s'.consume call.now call.identity call.cost).1 = _ := h.answer
      show (call, (s'.consume call.now call.identity call.cost).1) :: _ = _
      rw [hanswer]
      exact congrArg _ hrest
    | sweep now => exact ih (h.sweep hs') hs'.sweep hlater hclock' hcap

/-! ## What is allowed -/

variable {t₁ t₂ : ℚ} {calls : List ConsumeCall}

theorem allowedCost_cons (c : ConsumeCall × ConsumeResult)
    (l : List (ConsumeCall × ConsumeResult)) : allowedCost identity t₁ t₂ (c :: l) =
      (if c.2.allowed ∧ c.1.identity = identity ∧ t₁ ≤ c.1.now ∧ c.1.now ≤ t₂ then c.1.cost
        else 0) + allowedCost identity t₁ t₂ l := by
  rw [allowedCost, List.filter_cons]
  simp only [decide_eq_true_eq]
  split
  · rfl
  · exact (zero_add _).symm

theorem mem_consumeAll {c : ConsumeCall × ConsumeResult} (h : c ∈ store.consumeAll calls) :
    c.1 ∈ calls := by
  induction calls generalizing store with
  | nil => cases h
  | cons call calls ih =>
    rcases List.mem_cons.mp h with rfl | h
    · exact .head _
    · exact .tail _ (ih h)

/-- Calls behind a window allow nothing in it. -/
theorem allowedCost_eq_zero {l : List (ConsumeCall × ConsumeResult)}
    (h : ∀ c ∈ l, t₂ < c.1.now) : allowedCost identity t₁ t₂ l = 0 := by
  rw [allowedCost, List.filter_eq_nil_iff.mpr]
  · rfl
  · intro c hc
    rw [decide_eq_true_eq]
    exact fun hin => absurd hin.2.2.2 (not_le.mpr (h c hc))

/-- What a call is allowed comes out of the level of its identity. -/
theorem level_consume_add_le (hfits : store.Fits identity)
    (hcost : 0 ≤ cost) (k : JsString) : (store.consume now identity cost).2.level k now +
      (if (store.consume now identity cost).1.allowed ∧ identity = k then cost else 0) ≤
        store.level k now := by
  have hle : store.level identity now ≤ store.burst := TokenBucket.levelOf_le_capacity
  rw [level_consume hfits, consume_eq]
  by_cases hk : identity = k
  · subst hk
    rw [if_pos rfl, TokenBucket.level_self, rest, answer]
    · by_cases hallowed : cost ≤ store.level identity now
      · simp [hallowed]
      · simp [hallowed]
    · rw [rest]
      split
      · linarith
      · exact hle
  · simp [hk]

/-- From a time on, an identity is allowed its level and what the rate adds. -/
theorem allowedCost_le_level (h : store.Settled now) (hburst : 0 ≤ store.burst)
    (hstart : ∀ c ∈ calls, now ≤ c.now) (hclock : calls.Pairwise fun a b => a.now ≤ b.now)
    (hcost : ∀ c ∈ calls, 0 ≤ c.cost) (hcap : store.NoEviction calls) (hend : now ≤ t₂) :
    allowedCost identity t₁ t₂ (store.consumeAll calls) ≤
      store.level identity now + (t₂ - now) * (store.rpm / 60000) := by
  induction calls generalizing store now with
  | nil =>
    have hlevel := h.le_level identity
    rw [min_eq_left hburst] at hlevel
    exact add_nonneg hlevel (mul_nonneg (sub_nonneg.mpr hend) h.rate_pos.le)
  | cons c calls ih =>
    obtain ⟨hlater, hclock⟩ := List.pairwise_cons.mp hclock
    obtain ⟨hfits, hcap⟩ := hcap
    have hnow := hstart c (.head _)
    have hlevel : store.level identity c.now ≤
        store.level identity now + (c.now - now) * (store.rpm / 60000) :=
      TokenBucket.levelOf_le_add h.rate_pos.le hnow
    have hc := h.mono hnow
    by_cases hin : c.now ≤ t₂
    · have hsettled : (store.consume c.now c.identity c.cost).2.Settled c.now := hc.consume hfits
      have hrest := ih hsettled (by rw [consume_eq]; exact hburst) hlater
        hclock (fun a ha => hcost a (.tail _ ha)) hcap hin
      have hspent : (store.consume c.now c.identity c.cost).2.level identity c.now +
          (if (store.consume c.now c.identity c.cost).1.allowed ∧ c.identity = identity then c.cost
            else 0) ≤ store.level identity c.now :=
        level_consume_add_le hfits (hcost c (.head _)) identity
      have hwindow : (if (store.consume c.now c.identity c.cost).1.allowed ∧ c.identity = identity ∧
          t₁ ≤ c.now ∧ c.now ≤ t₂ then c.cost else 0) ≤
          if (store.consume c.now c.identity c.cost).1.allowed ∧ c.identity = identity then c.cost
          else 0 := by
        split
        · rename_i hall
          rw [if_pos ⟨hall.1, hall.2.1⟩]
        · split
          · exact hcost c (.head _)
          · exact le_rfl
      have hrpm : (store.consume c.now c.identity c.cost).2.rpm = store.rpm := by
        rw [consume_eq]
        rfl
      rw [hrpm] at hrest
      show allowedCost identity t₁ t₂ ((c, _) :: _) ≤ _
      rw [allowedCost_cons]
      dsimp only
      linarith
    · -- the call and the later ones are behind the window
      rw [allowedCost_eq_zero]
      · have hlevel := h.le_level identity
        rw [min_eq_left hburst] at hlevel
        exact add_nonneg hlevel (mul_nonneg (sub_nonneg.mpr hend) h.rate_pos.le)
      · intro a ha
        rcases List.mem_cons.mp (mem_consumeAll ha) with heq | hmem
        · rw [heq]
          exact not_le.mp hin
        · exact (not_le.mp hin).trans_le (hlater _ hmem)

/-- In a window an identity is allowed a full bucket and what the rate adds. -/
theorem allowedCost_le (h : store.Settled now) (hburst : 0 ≤ store.burst)
    (hstart : ∀ c ∈ calls, now ≤ c.now) (hclock : calls.Pairwise fun a b => a.now ≤ b.now)
    (hcost : ∀ c ∈ calls, 0 ≤ c.cost) (hcap : store.NoEviction calls) (hnow : now ≤ t₁)
    (hend : t₁ ≤ t₂) : allowedCost identity t₁ t₂ (store.consumeAll calls) ≤
      store.burst + (t₂ - t₁) * (store.rpm / 60000) := by
  induction calls generalizing store now with
  | nil => exact add_nonneg hburst (mul_nonneg (sub_nonneg.mpr hend) h.rate_pos.le)
  | cons c calls ih =>
    obtain ⟨hlater, hclock'⟩ := List.pairwise_cons.mp hclock
    by_cases hbefore : c.now < t₁
    · obtain ⟨hfits, hcap⟩ := hcap
      have hc : (store.consume c.now c.identity c.cost).2.Settled c.now :=
        (h.mono (hstart c (.head _))).consume hfits
      have hrest := ih hc (by rw [consume_eq]; exact hburst) hlater hclock'
        (fun a ha => hcost a (.tail _ ha)) hcap hbefore.le
      show allowedCost identity t₁ t₂ ((c, _) :: _) ≤ _
      rw [allowedCost_cons, if_neg fun hin => absurd hin.2.2.1 (not_le.mpr hbefore), zero_add]
      rw [consume_eq] at hrest ⊢
      exact hrest
    · have hfrom : ∀ a ∈ c :: calls, t₁ ≤ a.now := by
        intro a ha
        rcases List.mem_cons.mp ha with rfl | ha
        · exact not_lt.mp hbefore
        · exact (not_lt.mp hbefore).trans (hlater a ha)
      have hle : allowedCost identity t₁ t₂ (store.consumeAll (c :: calls)) ≤ _ :=
        allowedCost_le_level (h.mono hnow) hburst hfrom hclock hcost hcap hend
      have hlevel : store.level identity t₁ ≤ store.burst := TokenBucket.levelOf_le_capacity
      linarith

/-! ## The bound -/

theorem consume_mem {calls : List RateLimitCall} (h : call ∈ consumes calls) :
    RateLimitCall.consume call ∈ calls := by
  obtain ⟨a, ha, heq⟩ := List.mem_filterMap.mp h
  cases a with
  | consume call => exact Option.some.inj heq ▸ ha
  | sweep now => cases heq

theorem pairwise_consumes {calls : List RateLimitCall}
    (h : calls.Pairwise fun a b => a.now ≤ b.now) :
    (consumes calls).Pairwise fun a b => a.now ≤ b.now := by
  apply h.filterMap
  intro a b hab c hc d hd
  cases a with
  | sweep now => cases hc
  | consume first =>
    cases b with
    | sweep now => cases hd
    | consume second =>
      cases hc
      cases hd
      exact hab

/-- In every window an identity is allowed at most a full bucket and what the rate adds, and sweeps
change nothing that a call returns. -/
theorem tokenBucket_bounded_of_clock {config : RateLimitConfig} {calls : List RateLimitCall}
    (hrpm : 0 < config.rpm) (hclock : calls.Pairwise fun a b => a.now ≤ b.now)
    (hcost : ∀ c ∈ consumes calls, 0 ≤ c.cost) (hcap : (new config).NoEviction (consumes calls)) :
    (new config).run calls = (new config).consumeAll (consumes calls) ∧
    (0 ≤ config.burst → ∀ identity t₁ t₂, t₁ ≤ t₂ →
      allowedCost identity t₁ t₂ ((new config).run calls) ≤
        config.burst + config.rpm * (t₂ - t₁) / 60000) := by
  obtain ⟨start, hstart⟩ : ∃ start, ∀ c ∈ calls, start ≤ c.now := by
    cases calls with
    | nil => exact ⟨0, fun c hc => absurd hc List.not_mem_nil⟩
    | cons c calls =>
      have hlater := (List.pairwise_cons.mp hclock).1
      exact ⟨c.now, List.forall_mem_cons.mpr ⟨le_rfl, hlater⟩⟩
  have hfollows : Follows start (new config) (new config) :=
    ⟨rfl, rfl, rfl, List.Subset.refl _, fun h => absurd rfl h, fun _ _ _ => rfl⟩
  have hrun := run_eq_consumeAll hfollows (settled_new hrpm start) hstart hclock hcap
  refine ⟨hrun, fun hburst identity t₁ t₂ ht => ?_⟩
  have hfrom : ∀ c ∈ consumes calls, min start t₁ ≤ c.now := fun c hc =>
    (min_le_left start t₁).trans (hstart _ (consume_mem hc))
  have hle : allowedCost identity t₁ t₂ ((new config).consumeAll (consumes calls)) ≤ _ :=
    allowedCost_le (settled_new hrpm (min start t₁)) hburst hfrom (pairwise_consumes hclock) hcost
      hcap (min_le_right start t₁) ht
  rw [hrun]
  calc allowedCost identity t₁ t₂ ((new config).consumeAll (consumes calls))
      ≤ config.burst + (t₂ - t₁) * (config.rpm / 60000) := hle
    _ = config.burst + config.rpm * (t₂ - t₁) / 60000 := by ring

/-- A burst, a sweep, and a call after it. -/
def bursts : List RateLimitCall :=
  [.consume ⟨0, js "t:a", 1⟩, .consume ⟨0, js "t:a", 2⟩, .sweep 5000, .consume ⟨5000, js "t:a", 2⟩]

theorem tokenBucket_bounded_of_clock_bursts :
    ((new ⟨60, 2, none⟩).run bursts).map (fun c => c.2.allowed) = [true, false, true] ∧
    allowedCost (js "t:a") 0 5000 ((new ⟨60, 2, none⟩).run bursts) ≤
      2 + 60 * (5000 - 0) / 60000 := by
  constructor
  · decide +kernel
  · apply (tokenBucket_bounded_of_clock (by norm_num) ?_ ?_ ?_).2
    · norm_num
    · norm_num
    · simp [bursts, RateLimitCall.now]
    · intro c hc
      revert c
      decide +kernel
    · refine ⟨.inr ?_, .inr ?_, .inl ?_, trivial⟩
      · show JsNumber.lt _ _ = false
        decide +kernel
      · show JsNumber.lt _ _ = false
        decide +kernel
      · decide +kernel

end TokenBucketStore

end Attestia.Node
