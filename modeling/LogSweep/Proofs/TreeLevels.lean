-- The walk through a tree, level by level. While a level is taken off the queue the next one grows
-- behind it, so the queue always holds the end of one level and the beginning of the next. The walk
-- ends after as many turns as the tree has nodes.
import Mathlib.Logic.Function.Iterate
import LogSweep.Proofs.TreeNodes

namespace LogSweep.SyntaxTree

/-! ## The pure model -/

/-- The nodes `k` steps below the root, from left to right. -/
def level (root : SyntaxTree) : Nat → List SyntaxTree
  | 0 => [root]
  | k + 1 => (root.level k).flatMap children

mutual

/-- The number of levels. -/
def height : SyntaxTree → Nat
  | .call _ f a => 1 + max f.height a.height
  | .member _ o p => 1 + max o.height p.height
  | .identifier _ _ => 1
  | .other _ _ cs => 1 + heightAll cs

def heightAll : List SyntaxTree → Nat
  | [] => 0
  | c :: cs => max c.height (heightAll cs)

end

/-- The ways to all nodes, shorter ones first and ways of one length in source order. -/
def waysByDepth (root : SyntaxTree) : List Way :=
  (List.range root.height).flatMap (fun k => root.ways.filter (fun w => w.length = k))

/-- A walk under way: the nodes found so far, and those of them whose children are still to come. -/
structure Walk where
  found : List SyntaxTree
  queue : List SyntaxTree

def Walk.start (root : SyntaxTree) : Walk := ⟨[root], [root]⟩

/-- Takes a node off the front of the queue and puts its children at the end of both lists. -/
def Walk.turn : Walk → Walk
  | ⟨found, []⟩ => ⟨found, []⟩
  | ⟨found, t :: queue⟩ => ⟨found ++ t.children, queue ++ t.children⟩

/-! ## Levels -/

theorem height_eq (t : SyntaxTree) : t.height = 1 + heightAll t.children := by
  cases t <;> simp [height, children, heightAll]

theorem heightAll_le_iff {cs : List SyntaxTree} {k : Nat} :
    heightAll cs ≤ k ↔ ∀ c ∈ cs, c.height ≤ k := by
  induction cs with
  | nil => simp [heightAll]
  | cons c cs ih => rw [heightAll, Nat.max_le, ih, List.forall_mem_cons]

/-- The levels below the root are those of its children, side by side. -/
theorem level_succ (root : SyntaxTree) (k : Nat) :
    root.level (k + 1) = root.children.flatMap (fun c => c.level k) := by
  induction k with
  | zero => simp [level]
  | succ k ih =>
    rw [level, ih, List.flatMap_assoc]
    rfl

theorem level_eq_nil_iff {root : SyntaxTree} {k : Nat} :
    root.level k = [] ↔ root.height ≤ k := by
  induction k generalizing root with
  | zero =>
    rw [height_eq]
    simp [level]
  | succ k ih =>
    rw [level_succ, List.flatMap_eq_nil_iff, height_eq, Nat.add_comm, Nat.add_le_add_iff_right,
      heightAll_le_iff]
    constructor
    · intro h c hc
      exact ih.mp (h c hc)
    · intro h c hc
      exact ih.mpr (h c hc)

theorem sizeAll_eq_zero_iff {ts : List SyntaxTree} : sizeAll ts = 0 ↔ ts = [] := by
  cases ts with
  | nil => simp [sizeAll]
  | cons t ts =>
    rw [sizeAll, size_eq]
    simp

theorem length_nodes (t : SyntaxTree) : t.nodes.length = t.size := by
  have hall : ∀ cs : List SyntaxTree, (∀ c ∈ cs, c.nodes.length = c.size) →
      (cs.flatMap nodes).length = sizeAll cs := by
    intro cs hcs
    induction cs with
    | nil => rfl
    | cons c cs ih =>
      rw [List.forall_mem_cons] at hcs
      rw [List.flatMap_cons, List.length_append, hcs.1, ih hcs.2, sizeAll]
  induction t using child_induction with
  | step t ih => rw [nodes_eq, List.length_cons, hall t.children ih, size_eq, Nat.add_comm]

/-! ## The ways to a level -/

theorem filter_ways_zero (root : SyntaxTree) :
    root.ways.filter (fun w => w.length = 0) = [[]] := by
  rw [ways_eq, waysFrom_eq, List.filter_cons_of_pos (by simp), List.filter_flatMap]
  simp [List.filter_map, Function.comp_def]

theorem filter_ways_succ (root : SyntaxTree) (k : Nat) :
    root.ways.filter (fun w => w.length = k + 1) =
      root.children.zipIdx.flatMap
        (fun c => (c.1.ways.filter (fun w => w.length = k)).map (c.2 :: ·)) := by
  rw [ways_eq, waysFrom_eq, List.filter_cons_of_neg (by simp), List.filter_flatMap]
  simp [List.filter_map, Function.comp_def]

/-- The ways of one length lead to the nodes of one level, in its order. -/
theorem map_nodeAt?_filter_ways (root : SyntaxTree) (k : Nat) :
    (root.ways.filter (fun w => w.length = k)).map root.nodeAt? = (root.level k).map some := by
  induction k generalizing root with
  | zero =>
    rw [filter_ways_zero]
    rfl
  | succ k ih =>
    have hchild : ∀ c ∈ root.children.zipIdx,
        ((c.1.ways.filter (fun w => w.length = k)).map (c.2 :: ·)).map root.nodeAt? =
          (c.1.level k).map some := by
      rintro ⟨c, i⟩ hc
      have hget : root.children[i]? = some c := List.mem_zipIdx_iff_getElem?.mp hc
      rw [← ih c, List.map_map]
      apply List.map_congr_left
      intro w _
      simp [nodeAt?, hget]
    rw [filter_ways_succ, List.map_flatMap, List.flatMap_congr hchild,
      ← List.flatMap_map Prod.fst (fun c : SyntaxTree => (c.level k).map some),
      List.zipIdx_map_fst, ← List.map_flatMap, level_succ]

theorem length_lt_height {root : SyntaxTree} {w : Way} (h : w ∈ root.ways) :
    w.length < root.height := by
  by_contra hlength
  have hnone : root.level w.length = [] := level_eq_nil_iff.mpr (Nat.le_of_not_lt hlength)
  have hways := map_nodeAt?_filter_ways root w.length
  rw [hnone, List.map_nil, List.map_eq_nil_iff] at hways
  have hmem : w ∈ root.ways.filter (fun v => v.length = w.length) := by simpa using h
  rw [hways] at hmem
  exact List.not_mem_nil hmem

theorem mem_waysByDepth {root : SyntaxTree} {w : Way} : w ∈ root.waysByDepth ↔ w ∈ root.ways := by
  simp only [waysByDepth, List.mem_flatMap, List.mem_range, List.mem_filter, decide_eq_true_eq]
  constructor
  · rintro ⟨_, _, hw, _⟩
    exact hw
  · intro hw
    exact ⟨w.length, length_lt_height hw, hw, rfl⟩

/-- Along these ways the depth never decreases. -/
theorem pairwise_waysByDepth (root : SyntaxTree) :
    root.waysByDepth.Pairwise (fun w v => w.length ≤ v.length) := by
  rw [waysByDepth, List.pairwise_flatMap]
  constructor
  · intro k _
    rw [List.pairwise_filter]
    apply List.pairwise_of_forall_mem_list
    intro w _ v _ hw hv
    simp only [decide_eq_true_eq] at hw hv
    omega
  · refine List.pairwise_lt_range.imp ?_
    intro j k hjk w hw v hv
    simp only [List.mem_filter, decide_eq_true_eq] at hw hv
    omega

theorem parent_before {root : SyntaxTree} {i j : Nat} {w : Way} {child : Nat}
    (hi : root.waysByDepth[i]? = some w) (hj : root.waysByDepth[j]? = some (w ++ [child])) :
    i < j := by
  obtain ⟨hilt, hiw⟩ := List.getElem?_eq_some_iff.mp hi
  obtain ⟨hjlt, hjw⟩ := List.getElem?_eq_some_iff.mp hj
  have hlength : root.waysByDepth[j].length = root.waysByDepth[i].length + 1 := by
    rw [hiw, hjw, List.length_append, List.length_singleton]
  rcases Nat.lt_trichotomy i j with hlt | rfl | hlt
  · exact hlt
  · omega
  · have hle := List.pairwise_iff_getElem.mp root.pairwise_waysByDepth j i hjlt hilt hlt
    omega

theorem nodup_waysByDepth (root : SyntaxTree) : root.waysByDepth.Nodup := by
  rw [waysByDepth, List.nodup_flatMap]
  constructor
  · intro k _
    exact root.nodup_ways.filter _
  · refine List.pairwise_lt_range.imp ?_
    intro j k hjk w hw hv
    simp only [List.mem_filter, decide_eq_true_eq] at hw hv
    omega

theorem waysByDepth_perm (root : SyntaxTree) : root.waysByDepth.Perm root.ways :=
  (List.perm_ext_iff_of_nodup root.nodup_waysByDepth root.nodup_ways).mpr
    (fun _ => mem_waysByDepth)

/-! ## The queue -/

/-- What stands at the front of the queue is taken off it in order, and the children of all of it
come to stand at the end. -/
theorem walkQueue_append (n : Nat) (front back : List SyntaxTree) :
    walkQueue (front.length + n) (front ++ back) =
      front ++ walkQueue n (back ++ front.flatMap children) := by
  induction front generalizing back with
  | nil => simp
  | cons t front ih =>
    rw [List.length_cons, Nat.add_right_comm, List.cons_append, walkQueue, List.append_assoc, ih,
      List.append_assoc, List.flatMap_cons, List.cons_append]

theorem walkQueue_nil (n : Nat) : walkQueue n [] = [] := by
  cases n <;> rfl

/-- After the levels before it a level is the whole queue. -/
theorem walkQueue_levels (root : SyntaxTree) (k n : Nat) :
    walkQueue (((List.range k).flatMap root.level).length + n) [root] =
      (List.range k).flatMap root.level ++ walkQueue n (root.level k) := by
  induction k generalizing n with
  | zero => simp [level]
  | succ k ih =>
    have hlevel := walkQueue_append n (root.level k) []
    rw [List.append_nil, List.nil_append] at hlevel
    rw [List.range_succ, List.flatMap_append, List.flatMap_singleton, List.length_append,
      Nat.add_assoc, ih, hlevel, List.append_assoc]
    rfl

theorem length_levels (root : SyntaxTree) :
    ((List.range root.height).flatMap root.level).length = root.size := by
  have hwalk := walkQueue_levels root root.height root.size
  rw [level_eq_nil_iff.mpr (Nat.le_refl _), walkQueue_nil, List.append_nil] at hwalk
  have hperm := walkQueue_perm _ [root]
    (Nat.le_add_left (sizeAll [root]) ((List.range root.height).flatMap root.level).length)
  rw [show sizeAll [root] = root.size by simp [sizeAll], hwalk] at hperm
  simpa [length_nodes] using hperm.length_eq

/-- Given enough turns, the walk goes through all levels and then rests. -/
theorem walkQueue_eq_levels {root : SyntaxTree} {n : Nat} (h : root.size ≤ n) :
    walkQueue n [root] = (List.range root.height).flatMap root.level := by
  obtain ⟨m, rfl⟩ := Nat.exists_eq_add_of_le h
  rw [← length_levels, walkQueue_levels, level_eq_nil_iff.mpr (Nat.le_refl _), walkQueue_nil,
    List.append_nil]

theorem breadthFirst_eq_levels (root : SyntaxTree) :
    root.breadthFirst = (List.range root.height).flatMap root.level :=
  walkQueue_eq_levels (Nat.le_refl _)

theorem map_nodeAt?_waysByDepth (root : SyntaxTree) :
    root.waysByDepth.map root.nodeAt? = root.breadthFirst.map some := by
  rw [waysByDepth, List.map_flatMap, breadthFirst_eq_levels, List.map_flatMap]
  exact List.flatMap_congr (fun k _ => map_nodeAt?_filter_ways root k)

/-! ## Turn by turn -/

/-- What was found is what was taken off the queue and then the queue, and each turn takes one node
off it. -/
theorem Walk.iterate_turn (n : Nat) (taken queue : List SyntaxTree) :
    ∃ rest, turn^[n] ⟨taken ++ queue, queue⟩ = ⟨taken ++ walkQueue n queue ++ rest, rest⟩ ∧
      sizeAll rest = sizeAll queue - n := by
  induction n generalizing taken queue with
  | zero => exact ⟨queue, by simp [walkQueue], rfl⟩
  | succ n ih =>
    rw [Function.iterate_succ_apply]
    cases queue with
    | nil =>
      obtain ⟨rest, hrun, hsize⟩ := ih taken []
      refine ⟨rest, ?_, by simpa [sizeAll] using hsize⟩
      rw [walkQueue_nil] at hrun ⊢
      exact hrun
    | cons t queue =>
      obtain ⟨rest, hrun, hsize⟩ := ih (taken ++ [t]) (queue ++ t.children)
      refine ⟨rest, ?_, ?_⟩
      · rw [turn, walkQueue]
        simpa using hrun
      · rw [hsize, sizeAll_append, sizeAll, size_eq]
        omega

theorem Walk.iterate_turn_start (root : SyntaxTree) (n : Nat) :
    ((turn^[n] (start root)).queue = [] ↔ root.size ≤ n) ∧
      (root.size ≤ n → (turn^[n] (start root)).found = root.breadthFirst) := by
  obtain ⟨rest, hrun, hsize⟩ := iterate_turn n [] [root]
  rw [List.nil_append, List.nil_append] at hrun
  have hleft : sizeAll rest = root.size - n := by simpa [sizeAll] using hsize
  have hend : rest = [] ↔ root.size ≤ n := by
    rw [← sizeAll_eq_zero_iff, hleft]
    omega
  rw [start, hrun]
  refine ⟨hend, ?_⟩
  intro hn
  rw [hend.mpr hn, List.append_nil, walkQueue_eq_levels hn, breadthFirst_eq_levels]

/-! ## The law -/

/-- The walk finds one level after the other, down to the last one that is not empty. As a loop it
ends after as many turns as there are nodes, not before, and it has found the same. So each node is
found once for each way that leads to it, no deeper node before a less deep one and none before its
parent. -/
theorem a_walk_goes_down_level_by_level (root : SyntaxTree) :
    root.breadthFirst = (List.range root.height).flatMap root.level ∧
    (∀ k, root.level k = [] ↔ root.height ≤ k) ∧
    (∀ n, ((Walk.turn^[n] (Walk.start root)).queue = [] ↔ root.size ≤ n) ∧
      (root.size ≤ n → (Walk.turn^[n] (Walk.start root)).found = root.breadthFirst)) ∧
    root.breadthFirst.Perm root.nodes ∧ root.breadthFirst.length = root.size ∧
    root.waysByDepth.map root.nodeAt? = root.breadthFirst.map some ∧
    root.waysByDepth.Perm root.ways ∧ root.waysByDepth.Nodup ∧
    root.waysByDepth.Pairwise (fun w v => w.length ≤ v.length) ∧
    ∀ (i j : Nat) (w : Way) (child : Nat), root.waysByDepth[i]? = some w →
      root.waysByDepth[j]? = some (w ++ [child]) → i < j := by
  refine ⟨root.breadthFirst_eq_levels, fun k => level_eq_nil_iff, Walk.iterate_turn_start root,
    root.breadthFirst_perm, ?_, root.map_nodeAt?_waysByDepth, root.waysByDepth_perm,
    root.nodup_waysByDepth, root.pairwise_waysByDepth, ?_⟩
  · rw [root.breadthFirst_perm.length_eq, length_nodes]
  · intro i j w child hi hj
    exact parent_before hi hj

/-- The tree of `f(x);` and `y;`, of five levels. -/
def twoStatements : SyntaxTree :=
  .other "program" ⟨0, 8⟩
    [.other "expression_statement" ⟨0, 5⟩
      [.call ⟨0, 4⟩ (.identifier ⟨0, 1⟩ "f")
        (.other "arguments" ⟨1, 4⟩ [.identifier ⟨2, 3⟩ "x"])],
      .other "expression_statement" ⟨6, 8⟩ [.identifier ⟨6, 7⟩ "y"]]

/-- The walk of the two statements ends after eight turns, and `y` is found before `f`'s arguments. -/
theorem two_statements_are_walked_in_eight_turns :
    (Walk.turn^[8] (Walk.start twoStatements)).queue = [] ∧
      ((Walk.turn^[8] (Walk.start twoStatements)).found.map kind) =
        ["program", "expression_statement", "expression_statement", "call_expression",
          "identifier", "identifier", "arguments", "identifier"] ∧
      twoStatements.waysByDepth =
        [[], [0], [1], [0, 0], [1, 0], [0, 0, 0], [0, 0, 1], [0, 0, 1, 0]] := by
  have hlaw := a_walk_goes_down_level_by_level twoStatements
  have hturns := hlaw.2.2.1 8
  have hsize : twoStatements.size ≤ 8 := by decide
  refine ⟨hturns.1.mpr hsize, ?_, by decide⟩
  rw [hturns.2 hsize, hlaw.1]
  decide

end LogSweep.SyntaxTree
