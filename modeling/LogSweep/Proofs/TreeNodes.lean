-- The nodes of a syntax tree, each with the way that leads to it. A way is what tells two nodes
-- apart that look the same, and the nodes above a node are those on its way. The walk level by
-- level visits exactly the nodes of the tree, each as often as it stands there.
import Mathlib.Data.List.Chain
import Mathlib.Data.List.Nodup
import LogSweep.SyntaxTree

namespace LogSweep.SyntaxTree

/-! ## The pure model -/

mutual

/-- The nodes in source order, parents first. -/
def nodes : SyntaxTree → List SyntaxTree
  | .call s f a => .call s f a :: (f.nodes ++ a.nodes)
  | .member s o p => .member s o p :: (o.nodes ++ p.nodes)
  | .identifier s n => [.identifier s n]
  | .other k s cs => .other k s cs :: nodesAll cs

def nodesAll : List SyntaxTree → List SyntaxTree
  | [] => []
  | c :: cs => c.nodes ++ nodesAll cs

end

/-- A way down from the root: the number of the child to take at each node. -/
abbrev Way := List Nat

/-- The node that a way leads to. -/
def nodeAt? : SyntaxTree → Way → Option SyntaxTree
  | t, [] => some t
  | t, i :: w => t.children[i]?.bind (fun c => c.nodeAt? w)

mutual

/-- The ways to all nodes, in the order of `nodes`. -/
def ways : SyntaxTree → List Way
  | .call _ f a => [] :: (f.ways.map (0 :: ·) ++ a.ways.map (1 :: ·))
  | .member _ o p => [] :: (o.ways.map (0 :: ·) ++ p.ways.map (1 :: ·))
  | .identifier _ _ => [[]]
  | .other _ _ cs => [] :: waysFrom 0 cs

/-- The ways that begin with the children from number `i` on. -/
def waysFrom (i : Nat) : List SyntaxTree → List Way
  | [] => []
  | c :: cs => c.ways.map (i :: ·) ++ waysFrom (i + 1) cs

end

/-! ## Nodes and children -/

theorem nodesAll_eq (cs : List SyntaxTree) : nodesAll cs = cs.flatMap nodes := by
  induction cs with
  | nil => rfl
  | cons c cs ih => rw [nodesAll, ih, List.flatMap_cons]

theorem nodes_eq (t : SyntaxTree) : t.nodes = t :: t.children.flatMap nodes := by
  cases t <;> simp [nodes, children, nodesAll_eq]

theorem size_eq (t : SyntaxTree) : t.size = 1 + sizeAll t.children := by
  cases t <;> simp [size, children, sizeAll, Nat.add_assoc]

theorem sizeAll_append (cs ds : List SyntaxTree) : sizeAll (cs ++ ds) = sizeAll cs + sizeAll ds := by
  induction cs with
  | nil => simp [sizeAll]
  | cons c cs ih => simp only [List.cons_append, sizeAll, ih]; omega

theorem size_lt_of_mem_children {t c : SyntaxTree} (h : c ∈ t.children) : c.size < t.size := by
  obtain ⟨before, after, hsplit⟩ := List.append_of_mem h
  rw [size_eq t, hsplit, sizeAll_append, sizeAll]
  omega

/-- What holds of a tree whenever it holds of its children holds of every tree. -/
theorem child_induction {P : SyntaxTree → Prop} (step : ∀ t, (∀ c ∈ t.children, P c) → P t)
    (t : SyntaxTree) : P t := by
  apply step
  intro c hc
  exact child_induction step c
termination_by t.size
decreasing_by exact size_lt_of_mem_children hc

theorem mem_nodes_self (t : SyntaxTree) : t ∈ t.nodes := by
  rw [nodes_eq]
  exact List.mem_cons_self

theorem mem_nodes_of_child {t c n : SyntaxTree} (hc : c ∈ t.children) (hn : n ∈ c.nodes) :
    n ∈ t.nodes := by
  rw [nodes_eq]
  exact List.mem_cons_of_mem _ (List.mem_flatMap.mpr ⟨c, hc, hn⟩)

theorem mem_nodes_trans {t n m : SyntaxTree} (hn : n ∈ t.nodes) (hm : m ∈ n.nodes) :
    m ∈ t.nodes := by
  induction t using child_induction with
  | step t ih =>
    rw [nodes_eq, List.mem_cons, List.mem_flatMap] at hn
    rcases hn with rfl | ⟨c, hc, hn⟩
    · exact hm
    · exact mem_nodes_of_child hc (ih c hc hn)

/-! ## Ways -/

theorem waysFrom_eq (i : Nat) (cs : List SyntaxTree) :
    waysFrom i cs = (cs.zipIdx i).flatMap (fun c => c.1.ways.map (c.2 :: ·)) := by
  induction cs generalizing i with
  | nil => rfl
  | cons c cs ih => rw [waysFrom, ih, List.zipIdx_cons, List.flatMap_cons]

theorem ways_eq (t : SyntaxTree) : t.ways = [] :: waysFrom 0 t.children := by
  cases t <;> simp [ways, children, waysFrom]

/-- A way on from child number `i` goes on inside that child. -/
theorem cons_mem_ways {t : SyntaxTree} {i : Nat} {w : Way} :
    i :: w ∈ t.ways ↔ ∃ c, t.children[i]? = some c ∧ w ∈ c.ways := by
  rw [ways_eq, waysFrom_eq]
  simp only [List.mem_cons, reduceCtorEq, false_or, List.mem_flatMap, List.mem_map, Prod.exists,
    List.cons.injEq, List.mem_zipIdx_iff_getElem?]
  constructor
  · rintro ⟨c, j, hc, v, hv, rfl, rfl⟩
    exact ⟨c, hc, hv⟩
  · rintro ⟨c, hc, hw⟩
    exact ⟨c, i, hc, w, hw, rfl, rfl⟩

/-- The ways are those that lead to a node. -/
theorem mem_ways_iff {t : SyntaxTree} {w : Way} : w ∈ t.ways ↔ ∃ n, t.nodeAt? w = some n := by
  induction w generalizing t with
  | nil => simp [ways_eq, nodeAt?]
  | cons i w ih =>
    rw [cons_mem_ways]
    simp only [ih, nodeAt?, Option.bind_eq_some_iff]
    constructor
    · rintro ⟨c, hc, n, hn⟩
      exact ⟨n, c, hc, hn⟩
    · rintro ⟨n, c, hc, hn⟩
      exact ⟨c, hc, n, hn⟩

theorem mem_nodes_of_nodeAt? {t n : SyntaxTree} {w : Way} (h : t.nodeAt? w = some n) :
    n ∈ t.nodes := by
  induction w generalizing t with
  | nil =>
    rw [nodeAt?, Option.some.injEq] at h
    exact h ▸ mem_nodes_self t
  | cons i w ih =>
    rw [nodeAt?, Option.bind_eq_some_iff] at h
    obtain ⟨c, hc, hn⟩ := h
    exact mem_nodes_of_child (List.mem_of_getElem? hc) (ih hn)

/-- No two nodes share a way. -/
theorem nodup_ways (t : SyntaxTree) : t.ways.Nodup := by
  induction t using child_induction with
  | step t ih =>
    rw [ways_eq, waysFrom_eq, List.nodup_cons, List.nodup_flatMap]
    refine ⟨by simp, ?_, ?_⟩
    · rintro ⟨c, i⟩ hc
      have hmem := List.mem_of_getElem? (List.mem_zipIdx_iff_getElem?.mp hc)
      exact (ih c hmem).map (List.cons_injective)
    · -- Ways into two children differ in their first number.
      have hidx : (t.children.zipIdx.map Prod.snd).Nodup := by
        rw [List.zipIdx_map_snd]
        exact List.nodup_range'
      refine (List.pairwise_map.mp hidx).imp ?_
      intro a b hab
      apply List.disjoint_left.mpr
      intro w ha hb
      obtain ⟨u, _, rfl⟩ := List.mem_map.mp ha
      obtain ⟨v, _, hv⟩ := List.mem_map.mp hb
      exact hab (List.cons.inj hv).1.symm

/-- The ways lead to the nodes one by one, in the order of `nodes`. -/
theorem map_nodeAt?_ways (t : SyntaxTree) : t.ways.map t.nodeAt? = t.nodes.map some := by
  induction t using child_induction with
  | step t ih =>
    have hchild : ∀ c ∈ t.children.zipIdx,
        (c.1.ways.map (c.2 :: ·)).map t.nodeAt? = c.1.nodes.map some := by
      rintro ⟨c, i⟩ hc
      have hget : t.children[i]? = some c := List.mem_zipIdx_iff_getElem?.mp hc
      rw [← ih c (List.mem_of_getElem? hget), List.map_map]
      apply List.map_congr_left
      intro w _
      simp [nodeAt?, hget]
    rw [ways_eq, waysFrom_eq, List.map_cons, List.map_flatMap, List.flatMap_congr hchild,
      ← List.flatMap_map Prod.fst (fun c : SyntaxTree => c.nodes.map some), List.zipIdx_map_fst,
      ← List.map_flatMap, nodes_eq, List.map_cons]
    rfl

/-! ## The walk level by level -/

/-- Every node of the queue is taken off it with all that is below it. -/
theorem walkQueue_perm (n : Nat) (queue : List SyntaxTree) (h : sizeAll queue ≤ n) :
    (walkQueue n queue).Perm (queue.flatMap nodes) := by
  induction n generalizing queue with
  | zero =>
    rcases queue with _ | ⟨t, queue⟩
    · rfl
    · rw [sizeAll, size_eq] at h
      omega
  | succ n ih =>
    rcases queue with _ | ⟨t, queue⟩
    · rfl
    · rw [sizeAll, size_eq] at h
      have hrest := ih (queue ++ t.children) (by rw [sizeAll_append]; omega)
      rw [walkQueue, List.flatMap_cons, nodes_eq, List.cons_append]
      refine List.Perm.cons t (hrest.trans ?_)
      rw [List.flatMap_append]
      exact List.perm_append_comm

theorem breadthFirst_perm (root : SyntaxTree) : root.breadthFirst.Perm root.nodes := by
  have h := walkQueue_perm root.size [root] (by simp [sizeAll])
  rw [List.flatMap_cons, List.flatMap_nil, List.append_nil] at h
  exact h

end LogSweep.SyntaxTree
