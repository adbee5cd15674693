import Mathlib.Data.List.Nodup
import Mathlib.Data.Set.Function

/-!
# Hash trees built level by level

A binary tree whose leaves carry data and whose nodes are named by hashes, the paths of
sibling hashes from a leaf to the root, and the construction that joins the nodes of a
level in pairs and carries an unpaired last node up unchanged. The hash is any function
on tagged inputs; it is only ever assumed injective on the inputs a statement names.
-/

namespace Attestia.Lib.HashTree

variable {α β γ δ : Type*}

/-- What is hashed: a leaf or the hashes of two children. -/
inductive Input (α δ : Type*) where
  | leaf (a : α)
  | node (l r : δ)

/-- The side on which a sibling stands. -/
inductive Side where
  | left
  | right
  deriving DecidableEq, Repr

structure Step (δ : Type*) where
  hash : δ
  direction : Side
  deriving DecidableEq, Repr

inductive LeafTree (α : Type*) where
  | leaf (a : α)
  | node (l r : LeafTree α)

variable (h : Input α δ → δ)

namespace LeafTree

def root : LeafTree α → δ
  | leaf a => h (.leaf a)
  | node l r => h (.node (l.root) (r.root))

/-- Every leaf from left to right, with its siblings from the leaf up. -/
def paths : LeafTree α → List (α × List (Step δ))
  | leaf a => [(a, [])]
  | node l r =>
    l.paths.map (fun p => (p.1, p.2 ++ [⟨r.root h, .right⟩])) ++
      r.paths.map (fun p => (p.1, p.2 ++ [⟨l.root h, .left⟩]))

/-- The inputs hashed to compute the root. -/
def inputs : LeafTree α → Set (Input α δ)
  | leaf a => {.leaf a}
  | node l r => insert (.node (l.root h) (r.root h)) (l.inputs ∪ r.inputs)

end LeafTree

/-! ## Paths -/

def stepInput (cur : δ) (s : Step δ) : Input α δ :=
  match s.direction with
  | .left => .node s.hash cur
  | .right => .node cur s.hash

def fold (cur : δ) (steps : List (Step δ)) : δ :=
  steps.foldl (fun c s => h (stepInput c s)) cur

/-- The inputs hashed when a path is folded from leaf `a`. -/
def pathInputs (a : α) (steps : List (Step δ)) : Set (Input α δ) :=
  insert (.leaf a) {i | ∃ pre s post, steps = pre ++ s :: post ∧
    i = stepInput (fold h (h (.leaf a)) pre) s}

@[simp] theorem fold_nil (cur : δ) : fold h cur [] = cur := rfl

@[simp] theorem fold_append_singleton (cur : δ) (steps : List (Step δ)) (s : Step δ) :
    fold h cur (steps ++ [s]) = h (stepInput (fold h cur steps) s) := by
  simp [fold]

theorem leaf_mem_pathInputs (a : α) (steps : List (Step δ)) :
    Input.leaf a ∈ pathInputs h a steps := Set.mem_insert _ _

theorem last_mem_pathInputs (a : α) (steps : List (Step δ)) (s : Step δ) :
    stepInput (fold h (h (.leaf a)) steps) s ∈ pathInputs h a (steps ++ [s]) :=
  Set.mem_insert_of_mem _ ⟨steps, s, [], rfl, rfl⟩

theorem pathInputs_init_subset (a : α) (steps : List (Step δ)) (s : Step δ) :
    pathInputs h a steps ⊆ pathInputs h a (steps ++ [s]) := by
  apply Set.insert_subset_insert
  rintro i ⟨pre, t, post, rfl, rfl⟩
  exact ⟨pre, t, post ++ [s], by simp, rfl⟩

theorem leaf_ne_stepInput (a : α) (cur : δ) (s : Step δ) :
    (Input.leaf a : Input α δ) ≠ stepInput cur s := by
  unfold stepInput
  split <;> exact nofun

/-- A list of siblings that folds to the root of a tree is the path of one of its leaves. -/
theorem mem_paths_of_fold_eq_root (t : LeafTree α) (a : α) (steps : List (Step δ))
    (hinj : Set.InjOn h (t.inputs h ∪ pathInputs h a steps))
    (heq : fold h (h (.leaf a)) steps = t.root h) : (a, steps) ∈ t.paths h := by
  induction t generalizing steps with
  | leaf b =>
    rcases List.eq_nil_or_concat steps with rfl | ⟨init, s, rfl⟩
    · have hab := hinj (.inr (leaf_mem_pathInputs h a [])) (.inl rfl) heq
      simpa [LeafTree.paths] using hab
    · rw [List.concat_eq_append] at heq hinj
      rw [fold_append_singleton] at heq
      have hab := hinj (.inr (last_mem_pathInputs h a init s)) (.inl rfl) heq
      exact absurd hab.symm (leaf_ne_stepInput b _ s)
  | node l r ihl ihr =>
    have hnode : Input.node (l.root h) (r.root h) ∈ (LeafTree.node l r).inputs h :=
      Set.mem_insert _ _
    rcases List.eq_nil_or_concat steps with rfl | ⟨init, s, rfl⟩
    · exact absurd (hinj (.inr (leaf_mem_pathInputs h a [])) (.inl hnode) heq) nofun
    · rw [List.concat_eq_append] at heq hinj ⊢
      rw [fold_append_singleton] at heq
      have hin := hinj (.inr (last_mem_pathInputs h a init s)) (.inl hnode) heq
      have hsub := pathInputs_init_subset h a init s
      obtain ⟨sh, _ | _⟩ := s
      · -- the sibling stands on the left: the path goes on in the right subtree
        obtain ⟨rfl, hr⟩ := Input.node.inj hin
        have hmem := ihr init (hinj.mono (Set.union_subset_union
          (fun i hi => Set.mem_insert_of_mem _ (.inr hi)) hsub)) hr
        exact List.mem_append_right _ (List.mem_map.mpr ⟨_, hmem, rfl⟩)
      · obtain ⟨hl, rfl⟩ := Input.node.inj hin
        have hmem := ihl init (hinj.mono (Set.union_subset_union
          (fun i hi => Set.mem_insert_of_mem _ (.inl hi)) hsub)) hl
        exact List.mem_append_left _ (List.mem_map.mpr ⟨_, hmem, rfl⟩)

theorem fold_of_mem_paths (t : LeafTree α) {a : α} {steps : List (Step δ)}
    (hm : (a, steps) ∈ t.paths h) : fold h (h (.leaf a)) steps = t.root h := by
  induction t generalizing steps with
  | leaf b =>
    obtain ⟨rfl, rfl⟩ : a = b ∧ steps = [] := by simpa [LeafTree.paths] using hm
    rfl
  | node l r ihl ihr =>
    rcases List.mem_append.mp hm with hm | hm <;> obtain ⟨⟨b, init⟩, hb, he⟩ := List.mem_map.mp hm
    · obtain ⟨rfl, rfl⟩ := Prod.mk.inj he
      rw [fold_append_singleton, ihl hb]
      rfl
    · obtain ⟨rfl, rfl⟩ := Prod.mk.inj he
      rw [fold_append_singleton, ihr hb]
      rfl

theorem LeafTree.paths_snd_nodup (t : LeafTree α) : ((t.paths h).map Prod.snd).Nodup := by
  induction t with
  | leaf a => exact List.nodup_singleton _
  | node l r ihl ihr =>
    have hinj : ∀ s : Step δ, Function.Injective fun steps : List (Step δ) => steps ++ [s] :=
      fun s _ _ heq => List.append_cancel_right heq
    have hl := ihl.map (hinj ⟨r.root h, .right⟩)
    have hr := ihr.map (hinj ⟨l.root h, .left⟩)
    rw [List.map_map] at hl hr
    rw [paths, List.map_append, List.map_map, List.map_map]
    refine hl.append hr ?_
    -- the last step of a path tells the subtree it comes from
    intro steps hl hr
    obtain ⟨p, -, rfl⟩ := List.mem_map.mp hl
    obtain ⟨q, -, heq⟩ := List.mem_map.mp hr
    have hlast := congrArg (List.map Step.direction) (List.append_inj_right' heq rfl)
    cases hlast

/-- A tree is determined by its root. -/
theorem LeafTree.eq_of_root_eq (s t : LeafTree α)
    (hinj : Set.InjOn h (s.inputs h ∪ t.inputs h)) (heq : s.root h = t.root h) : s = t := by
  induction s generalizing t with
  | leaf a =>
    cases t with
    | leaf b => exact congrArg LeafTree.leaf (Input.leaf.inj (hinj (.inl rfl) (.inr rfl) heq))
    | node l r => exact absurd (hinj (.inl rfl) (.inr (Set.mem_insert _ _)) heq) nofun
  | node l r ihl ihr =>
    cases t with
    | leaf b => exact absurd (hinj (.inl (Set.mem_insert _ _)) (.inr rfl) heq) nofun
    | node l' r' =>
      have hin := hinj (.inl (Set.mem_insert _ _)) (.inr (Set.mem_insert _ _)) heq
      obtain ⟨hl, hr⟩ := Input.node.inj hin
      have hsub : ∀ {x y : LeafTree α}, x.inputs h ∪ y.inputs h ⊆ (LeafTree.node x y).inputs h :=
        fun hi => Set.mem_insert_of_mem _ hi
      rw [ihl l' (hinj.mono (Set.union_subset_union (fun i hi => hsub (.inl hi))
          fun i hi => hsub (.inl hi))) hl,
        ihr r' (hinj.mono (Set.union_subset_union (fun i hi => hsub (.inr hi))
          fun i hi => hsub (.inr hi))) hr]

/-! ## Levels -/

/-- The next level: neighbours are joined, an unpaired last node is carried up. -/
def pairUp (join : β → β → β) : List β → List β
  | x :: y :: l => join x y :: pairUp join l
  | l => l

theorem pairUp_length_le (join : β → β → β) (l : List β) : (pairUp join l).length ≤ l.length := by
  fun_induction pairUp join l with
  | case1 x y l ih => simp only [List.length_cons]; omega
  | case2 => exact le_rfl

theorem pairUp_length_lt (join : β → β → β) (x y : β) (l : List β) :
    (pairUp join (x :: y :: l)).length < (x :: y :: l).length := by
  have := pairUp_length_le join l
  simp only [pairUp, List.length_cons]
  omega

theorem map_pairUp (join : β → β → β) (join' : γ → γ → γ) {f : β → γ}
    (hf : ∀ x y, f (join x y) = join' (f x) (f y)) (l : List β) :
    (pairUp join l).map f = pairUp join' (l.map f) := by
  fun_induction pairUp join l with
  | case1 x y l ih => simp [pairUp, hf, ih]
  | case2 l hl =>
    match l, hl with
    | [], _ => rfl
    | [_], _ => rfl
    | x :: y :: l, hl => exact absurd rfl (hl x y l)

/-- The top of the levels over `l`. -/
def top (join : β → β → β) : List β → Option β
  | [] => none
  | [x] => some x
  | x :: y :: l => top join (pairUp join (x :: y :: l))
  termination_by l => l.length
  decreasing_by exact pairUp_length_lt join x y l

theorem top_map (join : β → β → β) (join' : γ → γ → γ) {f : β → γ}
    (hf : ∀ x y, f (join x y) = join' (f x) (f y)) (l : List β) :
    top join' (l.map f) = (top join l).map f := by
  fun_induction top join l with
  | case1 => simp [top]
  | case2 x => simp [top]
  | case3 x y l ih =>
    rw [List.map_cons, List.map_cons, top, ← List.map_cons, ← List.map_cons, ← map_pairUp join join' hf]
    exact ih

theorem top_isSome (join : β → β → β) {l : List β} (hl : l ≠ []) : ∃ t, top join l = some t := by
  fun_induction top join l with
  | case1 => exact absurd rfl hl
  | case2 x => exact ⟨x, rfl⟩
  | case3 x y l ih => exact ih (by simp [pairUp])

/-- The step recorded at index `i` of a level: its neighbour, if it has one. -/
def siblingStep (level : List δ) (i : ℕ) : Option (Step δ) :=
  if i % 2 = 0 then (level[i + 1]?).map fun s => ⟨s, .right⟩
  else (level[i - 1]?).map fun s => ⟨s, .left⟩

/-- The siblings met from index `i` of a level up to the top. -/
def siblingPath (join : δ → δ → δ) : List δ → ℕ → List (Step δ)
  | [], _ => []
  | [_], _ => []
  | x :: y :: l, i =>
    (siblingStep (x :: y :: l) i).toList ++ siblingPath join (pairUp join (x :: y :: l)) (i / 2)
  termination_by level => level.length
  decreasing_by exact pairUp_length_lt join x y l

theorem mem_of_mem_siblingStep {level : List δ} {i : ℕ} {s : Step δ}
    (hs : s ∈ siblingStep level i) : s.hash ∈ level := by
  unfold siblingStep at hs
  split at hs <;>
    · obtain ⟨d, hd, rfl⟩ := Option.map_eq_some_iff.mp hs
      exact List.mem_of_getElem? hd

theorem forall_mem_pairUp {join : β → β → β} {P : β → Prop} (hjoin : ∀ x y, P (join x y))
    {l : List β} (hl : ∀ x ∈ l, P x) : ∀ x ∈ pairUp join l, P x := by
  fun_induction pairUp join l with
  | case1 x y l ih =>
    rw [List.forall_mem_cons]
    exact ⟨hjoin x y, ih fun z hz => hl z (.tail _ (.tail _ hz))⟩
  | case2 l _ => exact hl

/-- The siblings of a path are digests of the level or joins. -/
theorem forall_mem_siblingPath {join : δ → δ → δ} {P : δ → Prop} (hjoin : ∀ x y, P (join x y))
    {level : List δ} (hl : ∀ x ∈ level, P x) (i : ℕ) :
    ∀ s ∈ siblingPath join level i, P s.hash := by
  fun_induction siblingPath join level i with
  | case1 => exact fun s hs => (nomatch hs)
  | case2 => exact fun s hs => (nomatch hs)
  | case3 x y l i ih =>
    intro s hs
    rcases List.mem_append.mp hs with hs | hs
    · exact hl _ (mem_of_mem_siblingStep (Option.mem_toList.mp hs))
    · exact ih (forall_mem_pairUp hjoin hl) s hs

theorem siblingStep_add_two (x y : δ) (l : List δ) (i : ℕ) :
    siblingStep (x :: y :: l) (i + 2) = siblingStep l i := by
  unfold siblingStep
  by_cases hi : i % 2 = 0
  · simp [hi]
  · obtain ⟨k, rfl⟩ : ∃ k, i = k + 1 := ⟨i - 1, by omega⟩
    simp [hi]

/-- The leaves of a level of trees: datum, index of its tree in the level, path in the tree. -/
def positions : List (LeafTree α) → List (α × ℕ × List (Step δ))
  | [] => []
  | t :: ts =>
    (t.paths h).map (fun p => (p.1, 0, p.2)) ++
      (positions ts).map fun p => (p.1, p.2.1 + 1, p.2.2)

/-- Climbing one level halves the indices and records one sibling. -/
theorem positions_pairUp (ts : List (LeafTree α)) :
    positions h (pairUp LeafTree.node ts) = (positions h ts).map fun p =>
      (p.1, p.2.1 / 2, p.2.2 ++ (siblingStep (ts.map (LeafTree.root h)) p.2.1).toList) := by
  fun_induction pairUp LeafTree.node ts with
  | case1 s t ts ih =>
    simp only [positions, ih, LeafTree.paths, List.map_append, List.map_map, List.append_assoc,
      List.map_cons]
    congr 1
    · apply List.map_congr_left
      intro p _
      simp [siblingStep]
    congr 1
    · apply List.map_congr_left
      intro p _
      simp [siblingStep]
    · apply List.map_congr_left
      intro p _
      simp only [Function.comp_apply, Nat.add_assoc, siblingStep_add_two,
        Nat.add_div_right p.2.1 Nat.two_pos]
  | case2 ts hts =>
    match ts, hts with
    | [], _ => rfl
    | [t], _ => simp [positions, siblingStep, Function.comp_def]
    | s :: t :: ts, hts => exact absurd rfl (hts s t ts)

/-- The paths of the finished tree are the sibling paths of the level it was built from. -/
theorem paths_of_top {ts : List (LeafTree α)} {t : LeafTree α}
    (ht : top LeafTree.node ts = some t) :
    t.paths h = (positions h ts).map fun p =>
      (p.1, p.2.2 ++ siblingPath (fun x y => h (.node x y)) (ts.map (LeafTree.root h)) p.2.1) := by
  fun_induction top LeafTree.node ts with
  | case1 => cases ht
  | case2 s =>
    obtain rfl := Option.some.inj ht
    simp [positions, siblingPath, Function.comp_def]
  | case3 x y ts ih =>
    have hmap := map_pairUp LeafTree.node (fun x y => h (.node x y)) (f := LeafTree.root h)
      (fun _ _ => rfl) (x :: y :: ts)
    rw [ih ht, positions_pairUp, List.map_map, hmap]
    apply List.map_congr_left
    intro p _
    simp only [Function.comp_apply, List.map_cons, siblingPath, List.append_assoc]

theorem positions_leaves (l : List α) :
    positions h (l.map LeafTree.leaf) = l.zipIdx.map fun p => (p.1, p.2, []) := by
  induction l with
  | nil => rfl
  | cons a l ih =>
    simp only [List.map_cons, positions, LeafTree.paths, ih, List.zipIdx_cons, List.map_map,
      List.map_nil, List.singleton_append, Nat.zero_add]
    congr 1
    rw [List.zipIdx_succ, List.map_map]
    rfl

/-- The paths of the tree over `l`: every index once, with the siblings met from it. -/
theorem paths_of_top_leaves {l : List α} {t : LeafTree α}
    (ht : top LeafTree.node (l.map LeafTree.leaf) = some t) :
    t.paths h = l.zipIdx.map fun p =>
      (p.1, siblingPath (fun x y => h (.node x y)) (l.map fun a => h (.leaf a)) p.2) := by
  rw [paths_of_top h ht, positions_leaves, List.map_map, List.map_map]
  rfl

/-- Two indices of a level do not share their siblings. -/
theorem siblingPath_inj {l : List α} {i j : ℕ} (hi : i < l.length) (hj : j < l.length)
    (heq : siblingPath (fun x y => h (.node x y)) (l.map fun a => h (.leaf a)) i =
      siblingPath (fun x y => h (.node x y)) (l.map fun a => h (.leaf a)) j) : i = j := by
  obtain ⟨t, ht⟩ := top_isSome LeafTree.node (l := l.map LeafTree.leaf)
    (fun hnil => by simp [List.map_eq_nil_iff.mp hnil] at hi)
  have hnodup := t.paths_snd_nodup h
  rw [paths_of_top_leaves h ht, List.map_map] at hnodup
  have hmem : ∀ {k : ℕ} (hk : k < l.length), (l[k], k) ∈ l.zipIdx := fun hk =>
    List.mem_zipIdx_iff_getElem?.mpr (List.getElem?_eq_getElem hk)
  exact congrArg Prod.snd (List.inj_on_of_nodup_map hnodup (hmem hi) (hmem hj) heq)

/-- The leaves of the tree over `l` are `l`. -/
theorem leaves_of_top {l : List α} {t : LeafTree α}
    (ht : top LeafTree.node (l.map LeafTree.leaf) = some t) : (t.paths h).map Prod.fst = l := by
  rw [paths_of_top_leaves h ht, List.map_map]
  exact List.zipIdx_map_fst 0 l

/-- Binding: the root of a list fixes the list. -/
theorem eq_of_top_root_eq {l m : List α} {s t : LeafTree α}
    (hs : top LeafTree.node (l.map LeafTree.leaf) = some s)
    (ht : top LeafTree.node (m.map LeafTree.leaf) = some t)
    (hinj : Set.InjOn h (s.inputs h ∪ t.inputs h)) (heq : s.root h = t.root h) : l = m := by
  obtain rfl := LeafTree.eq_of_root_eq h s t hinj heq
  rw [← leaves_of_top h hs, ← leaves_of_top h ht]

/-- Completeness of inclusion paths: the siblings met from an index fold to the root. -/
theorem fold_siblingPath {l : List α} {t : LeafTree α}
    (ht : top LeafTree.node (l.map LeafTree.leaf) = some t) {j : ℕ} {a : α}
    (hj : l[j]? = some a) :
    fold h (h (.leaf a))
      (siblingPath (fun x y => h (.node x y)) (l.map fun a => h (.leaf a)) j) = t.root h := by
  apply fold_of_mem_paths
  rw [paths_of_top_leaves h ht]
  exact List.mem_map.mpr ⟨(a, j), List.mem_zipIdx_iff_getElem?.mpr hj, rfl⟩

/-- Soundness of inclusion paths for the tree over `l`: a path that folds to the root is the
path of an index, and that index holds the datum the path starts from. -/
theorem exists_index_of_fold_eq_root {l : List α} {t : LeafTree α}
    (ht : top LeafTree.node (l.map LeafTree.leaf) = some t) {a : α} {steps : List (Step δ)}
    (hinj : Set.InjOn h (t.inputs h ∪ pathInputs h a steps))
    (heq : fold h (h (.leaf a)) steps = t.root h) :
    ∃ j, l[j]? = some a ∧
      steps = siblingPath (fun x y => h (.node x y)) (l.map fun a => h (.leaf a)) j := by
  have hm := mem_paths_of_fold_eq_root h t a steps hinj heq
  rw [paths_of_top_leaves h ht] at hm
  obtain ⟨⟨b, j⟩, hj, he⟩ := List.mem_map.mp hm
  obtain ⟨rfl, rfl⟩ := Prod.mk.inj he
  exact ⟨j, List.mem_zipIdx_iff_getElem?.mp hj, rfl⟩

end Attestia.Lib.HashTree
