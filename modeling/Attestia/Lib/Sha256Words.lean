import Attestia.Lib.Sha256
import Mathlib.Data.List.GetD

/-!
# SHA-256 on natural numbers

The hash on natural numbers that are evaluated at each step, for the hashes of given messages: the
kernel computes with natural numbers, and unfolds every operation on machine words.
-/

namespace Attestia.Lib.Sha256.Words

/-- Right and left shifts that together rotate a word. -/
def rotr (x n k : ℕ) : ℕ :=
  Nat.lor (Nat.shiftRight x n) (Nat.mod (Nat.shiftLeft x k) 4294967296)

def ch (x y z : ℕ) : ℕ := Nat.xor (Nat.land x y) (Nat.land (Nat.sub 4294967295 x) z)

def maj (x y z : ℕ) : ℕ := Nat.xor (Nat.xor (Nat.land x y) (Nat.land x z)) (Nat.land y z)

def bigSigma0 (x : ℕ) : ℕ := Nat.xor (Nat.xor (rotr x 2 30) (rotr x 13 19)) (rotr x 22 10)

def bigSigma1 (x : ℕ) : ℕ := Nat.xor (Nat.xor (rotr x 6 26) (rotr x 11 21)) (rotr x 25 7)

def smallSigma0 (x : ℕ) : ℕ := Nat.xor (Nat.xor (rotr x 7 25) (rotr x 18 14)) (Nat.shiftRight x 3)

def smallSigma1 (x : ℕ) : ℕ := Nat.xor (Nat.xor (rotr x 17 15) (rotr x 19 13)) (Nat.shiftRight x 10)

/-- The value of `f` at a number that is evaluated first. -/
def force {α : Type} (n : ℕ) (f : ℕ → α) : α :=
  match n with
  | 0 => f 0
  | k + 1 => f (k + 1)

def forceAll {α : Type} : Bytes → (List ℕ → α) → α
  | [], f => f []
  | b :: bs, f => force b.toNat fun n => forceAll bs fun ns => f (n :: ns)

structure State where
  (a b c d e f g h : ℕ)

def ofState (s : Sha256.State) : State :=
  ⟨s.a.toNat, s.b.toNat, s.c.toNat, s.d.toNat, s.e.toNat, s.f.toNat, s.g.toNat, s.h.toNat⟩

def initialState : State :=
  ⟨0x6a09e667, 0xbb67ae85, 0x3c6ef372, 0xa54ff53a, 0x510e527f, 0x9b05688c, 0x1f83d9ab, 0x5be0cd19⟩

def roundConstants : List ℕ := Sha256.roundConstants.map UInt32.toNat

def wordOf (bytes : List ℕ) : ℕ :=
  bytes.foldl (fun acc b => Nat.mod (Nat.add (Nat.mul acc 256) b) 4294967296) 0

/-- The first `n` words of a block. -/
def words : ℕ → List ℕ → List ℕ
  | 0, _ => []
  | n + 1, block => wordOf (block.take 4) :: words n (block.drop 4)

def extend : ℕ → List ℕ → List ℕ
  | 0, w => w
  | n + 1, w =>
    force (Nat.mod (Nat.add (Nat.add (Nat.add (smallSigma1 (w.getD 1 0)) (w.getD 6 0))
      (smallSigma0 (w.getD 14 0))) (w.getD 15 0)) 4294967296) fun x => extend n (x :: w)

def schedule (block : List ℕ) : List ℕ := (extend 48 (words 16 block).reverse).reverse

def round (s : State) (k w : ℕ) : State :=
  let t1 := Nat.add (Nat.add (Nat.add (Nat.add s.h (bigSigma1 s.e)) (ch s.e s.f s.g)) k) w
  let t2 := Nat.add (bigSigma0 s.a) (maj s.a s.b s.c)
  ⟨Nat.mod (Nat.add t1 t2) 4294967296, s.a, s.b, s.c, Nat.mod (Nat.add s.d t1) 4294967296, s.e, s.f,
    s.g⟩

def addMod (a b : ℕ) : ℕ := Nat.mod (Nat.add a b) 4294967296

def compress (s : State) (block : List ℕ) : State :=
  let r := (roundConstants.zip (schedule block)).foldl (fun st kw => round st kw.1 kw.2) s
  ⟨addMod s.a r.a, addMod s.b r.b, addMod s.c r.c, addMod s.d r.d, addMod s.e r.e, addMod s.f r.f,
    addMod s.g r.g, addMod s.h r.h⟩

/-- The compressions of the blocks of a message. -/
def foldBlocks {σ α : Type} (c : σ → List α → σ) : ℕ → List α → σ → σ
  | 0, _, s => s
  | n + 1, m, s => foldBlocks c n (m.drop 64) (c s (m.take 64))

def State.toBytes (s : State) : Bytes :=
  [s.a, s.b, s.c, s.d, s.e, s.f, s.g, s.h].flatMap (bigEndian 4)

def sha256 (m : Bytes) : Bytes :=
  forceAll (pad m) fun bytes => (foldBlocks compress (bytes.length / 64) bytes initialState).toBytes

/-! ## The same hash -/

theorem force_eq {α : Type} (n : ℕ) (f : ℕ → α) : force n f = f n := by
  cases n <;> rfl

theorem forceAll_eq {α : Type} (bs : Bytes) (f : List ℕ → α) :
    forceAll bs f = f (bs.map UInt8.toNat) := by
  induction bs generalizing f with
  | nil => rfl
  | cons b bs ih => rw [forceAll, force_eq, ih, List.map_cons]

theorem toNat_rotr (x n : UInt32) :
    (Sha256.rotr x n).toNat = rotr x.toNat (n.toNat % 32) ((32 - n).toNat % 32) := by
  rw [Sha256.rotr, UInt32.toNat_or, UInt32.toNat_shiftRight, UInt32.toNat_shiftLeft]
  rfl

theorem toNat_ch (x y z : UInt32) : (Sha256.ch x y z).toNat = ch x.toNat y.toNat z.toNat := by
  rw [Sha256.ch, UInt32.toNat_xor, UInt32.toNat_and, UInt32.toNat_and, UInt32.toNat_not]
  rfl

theorem toNat_maj (x y z : UInt32) : (Sha256.maj x y z).toNat = maj x.toNat y.toNat z.toNat := by
  rw [Sha256.maj, UInt32.toNat_xor, UInt32.toNat_xor, UInt32.toNat_and, UInt32.toNat_and,
    UInt32.toNat_and]
  rfl

theorem toNat_bigSigma0 (x : UInt32) : (Sha256.bigSigma0 x).toNat = bigSigma0 x.toNat := by
  rw [Sha256.bigSigma0, UInt32.toNat_xor, UInt32.toNat_xor, toNat_rotr, toNat_rotr, toNat_rotr]
  rfl

theorem toNat_bigSigma1 (x : UInt32) : (Sha256.bigSigma1 x).toNat = bigSigma1 x.toNat := by
  rw [Sha256.bigSigma1, UInt32.toNat_xor, UInt32.toNat_xor, toNat_rotr, toNat_rotr, toNat_rotr]
  rfl

theorem toNat_smallSigma0 (x : UInt32) : (Sha256.smallSigma0 x).toNat = smallSigma0 x.toNat := by
  rw [Sha256.smallSigma0, UInt32.toNat_xor, UInt32.toNat_xor, toNat_rotr, toNat_rotr,
    UInt32.toNat_shiftRight]
  rfl

theorem toNat_smallSigma1 (x : UInt32) : (Sha256.smallSigma1 x).toNat = smallSigma1 x.toNat := by
  rw [Sha256.smallSigma1, UInt32.toNat_xor, UInt32.toNat_xor, toNat_rotr, toNat_rotr,
    UInt32.toNat_shiftRight]
  rfl

theorem toNat_foldl (bs : Bytes) (acc : UInt32) :
    ((bs.map UInt8.toUInt32).foldl (fun acc b => acc * 256 + b) acc).toNat =
      (bs.map UInt8.toNat).foldl
        (fun acc b => Nat.mod (Nat.add (Nat.mul acc 256) b) 4294967296) acc.toNat := by
  induction bs generalizing acc with
  | nil => rfl
  | cons b bs ih =>
    have hstep : (acc * 256 + b.toUInt32).toNat =
        Nat.mod (Nat.add (Nat.mul acc.toNat 256) b.toNat) 4294967296 := by
      rw [UInt32.toNat_add, UInt32.toNat_mul, Nat.mod_add_mod]
      rfl
    rw [List.map_cons, List.foldl_cons, List.map_cons, List.foldl_cons, ih, hstep]

theorem toNat_wordAt (block : Bytes) (i : ℕ) :
    (Sha256.wordAt block i).toNat = wordOf (((block.map UInt8.toNat).drop (4 * i)).take 4) := by
  rw [← List.map_drop, ← List.map_take]
  exact toNat_foldl _ 0

theorem words_eq (n : ℕ) (block : List ℕ) :
    words n block = (List.range n).map fun i => wordOf ((block.drop (4 * i)).take 4) := by
  induction n generalizing block with
  | zero => rfl
  | succ n ih =>
    rw [words, ih, List.range_succ_eq_map, List.map_cons, List.map_map]
    refine congrArg (wordOf (block.take 4) :: ·) (List.map_congr_left fun i _ => ?_)
    rw [List.drop_drop, Function.comp_apply, Nat.mul_succ, Nat.add_comm]

theorem sum_four (a b c d : ℕ) : (((a + b) % 2 ^ 32 + c) % 2 ^ 32 + d) % 2 ^ 32 =
    Nat.mod (Nat.add (Nat.add (Nat.add a b) c) d) 4294967296 := by
  show _ = (a + b + c + d) % 4294967296
  omega

theorem sum_five (a b c d e : ℕ) :
    ((((a + b) % 2 ^ 32 + c) % 2 ^ 32 + d) % 2 ^ 32 + e) % 2 ^ 32 =
      Nat.mod (Nat.add (Nat.add (Nat.add (Nat.add a b) c) d) e) 4294967296 := by
  show _ = (a + b + c + d + e) % 4294967296
  omega

theorem sum_mod (a b : ℕ) : (Nat.mod a 4294967296 + b % 2 ^ 32) % 2 ^ 32 =
    Nat.mod (Nat.add a b) 4294967296 := by
  exact (Nat.add_mod a b 4294967296).symm

theorem add_sum (a b : ℕ) : (a + Nat.mod b 4294967296) % 2 ^ 32 =
    Nat.mod (Nat.add a b) 4294967296 := Nat.add_mod_mod a b 4294967296

theorem toNat_newest (w : List UInt32) :
    (Sha256.smallSigma1 (w.getD 1 0) + w.getD 6 0 + Sha256.smallSigma0 (w.getD 14 0) +
        w.getD 15 0).toNat =
      Nat.mod (Nat.add (Nat.add (Nat.add (smallSigma1 ((w.map UInt32.toNat).getD 1 0))
        ((w.map UInt32.toNat).getD 6 0)) (smallSigma0 ((w.map UInt32.toNat).getD 14 0)))
        ((w.map UInt32.toNat).getD 15 0)) 4294967296 := by
  have hget : ∀ i, (w.map UInt32.toNat).getD i 0 = (w.getD i 0).toNat := fun i =>
    List.getD_map w 0 UInt32.toNat
  rw [UInt32.toNat_add, UInt32.toNat_add, UInt32.toNat_add, toNat_smallSigma0, toNat_smallSigma1, hget,
    hget, hget, hget]
  exact sum_four _ _ _ _

theorem map_extend (n : ℕ) (w : List UInt32) :
    (Sha256.extend n w).map UInt32.toNat = extend n (w.map UInt32.toNat) := by
  induction n generalizing w with
  | zero => rfl
  | succ n ih => rw [Sha256.extend, extend, force_eq, ih, List.map_cons, toNat_newest]

theorem map_schedule (block : Bytes) :
    (Sha256.schedule block).map UInt32.toNat = schedule (block.map UInt8.toNat) := by
  have hwords : ((List.range 16).map (Sha256.wordAt block)).map UInt32.toNat =
      words 16 (block.map UInt8.toNat) := by
    rw [words_eq, List.map_map]
    exact List.map_congr_left fun i _ => toNat_wordAt block i
  rw [Sha256.schedule, schedule, List.map_reverse, map_extend, List.map_reverse, hwords]

theorem toNat_temp1 (s : Sha256.State) (k w : UInt32) :
    (s.h + Sha256.bigSigma1 s.e + Sha256.ch s.e s.f s.g + k + w).toNat =
      Nat.mod (Nat.add (Nat.add (Nat.add (Nat.add s.h.toNat (bigSigma1 s.e.toNat))
        (ch s.e.toNat s.f.toNat s.g.toNat)) k.toNat) w.toNat) 4294967296 := by
  rw [UInt32.toNat_add, UInt32.toNat_add, UInt32.toNat_add, UInt32.toNat_add, toNat_bigSigma1,
    toNat_ch]
  exact sum_five _ _ _ _ _

theorem ofState_round (s : Sha256.State) (k w : UInt32) :
    ofState (Sha256.round s k w) = round (ofState s) k.toNat w.toNat := by
  rw [Sha256.round, ofState, round]
  dsimp only [ofState]
  congr 1
  · rw [UInt32.toNat_add, toNat_temp1, UInt32.toNat_add, toNat_bigSigma0, toNat_maj]
    exact sum_mod _ _
  · rw [UInt32.toNat_add, toNat_temp1]
    exact add_sum _ _

theorem ofState_foldl (kws : List (UInt32 × UInt32)) (s : Sha256.State) :
    ofState (kws.foldl (fun st kw => Sha256.round st kw.1 kw.2) s) =
      (kws.map (Prod.map UInt32.toNat UInt32.toNat)).foldl (fun st kw => round st kw.1 kw.2)
        (ofState s) := by
  induction kws generalizing s with
  | nil => rfl
  | cons kw kws ih =>
    rw [List.foldl_cons, ih, ofState_round]
    rfl

theorem toNat_add (a b : UInt32) : (a + b).toNat = addMod a.toNat b.toNat := UInt32.toNat_add a b

theorem ofState_compress (s : Sha256.State) (block : Bytes) :
    ofState (Sha256.compress s block) = compress (ofState s) (block.map UInt8.toNat) := by
  have hrounds := ofState_foldl (Sha256.roundConstants.zip (Sha256.schedule block)) s
  rw [← List.zip_map, map_schedule] at hrounds
  rw [compress, roundConstants, ← hrounds, Sha256.compress]
  generalize (Sha256.roundConstants.zip (Sha256.schedule block)).foldl
    (fun st kw => Sha256.round st kw.1 kw.2) s = r
  simp only [ofState, toNat_add]

theorem map_foldBlocks {σ τ α β : Type} {f : σ → τ} {g : α → β} {c : σ → List α → σ}
    {c' : τ → List β → τ} (h : ∀ s block, f (c s block) = c' (f s) (block.map g)) (n : ℕ) (m : List α)
    (s : σ) : f (foldBlocks c n m s) = foldBlocks c' n (m.map g) (f s) := by
  induction n generalizing m s with
  | zero => rfl
  | succ n ih => rw [foldBlocks, foldBlocks, ih, h, List.map_drop, List.map_take]

theorem hashBlocks_eq : Sha256.hashBlocks = foldBlocks Sha256.compress := by
  delta Sha256.hashBlocks foldBlocks
  rfl

theorem toBytes_ofState (s : Sha256.State) : s.toBytes = (ofState s).toBytes := rfl

end Sha256.Words

theorem sha256_eq_words : sha256 = Sha256.Words.sha256 := by
  funext m
  have hinitial : Sha256.Words.ofState Sha256.initialState = Sha256.Words.initialState := rfl
  rw [sha256, Sha256.Words.sha256, Sha256.Words.forceAll_eq, List.length_map,
    Sha256.Words.hashBlocks_eq, ← hinitial,
    ← Sha256.Words.map_foldBlocks Sha256.Words.ofState_compress]
  exact Sha256.Words.toBytes_ofState _

/-- Messages whose hashes begin with different bytes. -/
theorem collisionFree_of_heads {l : List Bytes}
    (h : (l.map fun m => (Sha256.Words.sha256 m).head?).Nodup) : CollisionFree {m | m ∈ l} := by
  rw [← sha256_eq_words] at h
  exact collisionFree_of_head h

end Attestia.Lib
