-- The order in which the nodes of a tree are visited. Calls may start together, as those of
-- `a.b().c()` do, but no two targeted ones where spans nest: of two calls that start together
-- one is inside the callee of the other. So nothing found depends on the order of a walk.
import LogSweep.Proofs.OutermostCalls

namespace LogSweep

namespace SyntaxTree

/-! ## Two targeted calls -/

/-- Along the ways, each targeted call starts after the ones before it. -/
theorem WellNested.ways_increase {t : SyntaxTree} (targets : TargetSet) (h : t.WellNested) :
    t.ways.Pairwise (fun w v => ∀ n m, t.nodeAt? w = some n → t.nodeAt? v = some m →
      n.Targeted targets → m.Targeted targets → n.span.start < m.span.start) := by
  have hnodes : t.nodes.Pairwise (fun n m => n.Targeted targets → m.Targeted targets →
      n.span.start < m.span.start) := by
    refine (List.pairwise_filterMap.mp (h.starts_increase targets)).imp ?_
    intro n m hlt hn hm
    exact hlt n.span (matchedCall?_eq_some_iff.mpr ⟨hn, rfl⟩) m.span
      (matchedCall?_eq_some_iff.mpr ⟨hm, rfl⟩)
  have hsome : (t.nodes.map some).Pairwise (fun x y => ∀ n m, x = some n → y = some m →
      n.Targeted targets → m.Targeted targets → n.span.start < m.span.start) := by
    rw [List.pairwise_map]
    refine hnodes.imp ?_
    intro a b hab n m hn hm
    cases hn
    cases hm
    exact hab
  rw [← map_nodeAt?_ways] at hsome
  exact List.pairwise_map.mp hsome

theorem WellNested.start_ne {t n m : SyntaxTree} {targets : TargetSet} {w v : Way}
    (h : t.WellNested) (hw : t.nodeAt? w = some n) (hv : t.nodeAt? v = some m)
    (hn : n.Targeted targets) (hm : m.Targeted targets) (hne : w ≠ v) :
    n.span.start ≠ m.span.start := by
  have hinc := List.pairwise_iff_getElem.mp (h.ways_increase targets)
  obtain ⟨i, hi, rfl⟩ := List.getElem_of_mem (mem_ways_iff.mpr ⟨n, hw⟩)
  obtain ⟨j, hj, rfl⟩ := List.getElem_of_mem (mem_ways_iff.mpr ⟨m, hv⟩)
  rcases Nat.lt_trichotomy i j with hij | rfl | hji
  · exact Nat.ne_of_lt (hinc i j hi hj hij n m hw hv hn hm)
  · exact absurd rfl hne
  · exact Nat.ne_of_gt (hinc j i hj hi hji m n hv hw hm hn)

end SyntaxTree

/-! ## The law -/

open SyntaxTree in
/-- In a tree whose spans nest, targeted calls at two ways start at two offsets, and the same is
found whatever the order in which the nodes come. -/
theorem the_order_of_a_walk_does_not_matter (root : SyntaxTree) (targets : TargetSet)
    (h : root.WellNested) :
    (∀ w v n m, root.nodeAt? w = some n → root.nodeAt? v = some m → n.Targeted targets →
      m.Targeted targets → w ≠ v → n.span.start ≠ m.span.start) ∧
    ∀ ns : List SyntaxTree, ns.Perm root.breadthFirst →
      findMatches ns targets = findMatches root.breadthFirst targets := by
  constructor
  · intro w v n m hw hv hn hm hne
    exact h.start_ne hw hv hn hm hne
  · intro ns hns
    rw [h.findMatches_eq targets]
    exact h.findMatches_of_perm targets (hns.trans root.breadthFirst_perm)

/-- `console.log(1).log(console.log(2))`, where two calls start at 0 and one of them is
targeted. -/
def chainedLogs : SyntaxTree :=
  .call ⟨0, 34⟩
    (.member ⟨0, 18⟩
      (.call ⟨0, 14⟩
        (.member ⟨0, 11⟩ (.identifier ⟨0, 7⟩ "console") (.identifier ⟨8, 11⟩ "log"))
        (.other "arguments" ⟨11, 14⟩ [.other "number" ⟨12, 13⟩ []]))
      (.identifier ⟨15, 18⟩ "log"))
    (.other "arguments" ⟨18, 34⟩
      [.call ⟨19, 33⟩
        (.member ⟨19, 30⟩ (.identifier ⟨19, 26⟩ "console") (.identifier ⟨27, 30⟩ "log"))
        (.other "arguments" ⟨30, 33⟩ [.other "number" ⟨31, 32⟩ []])])

theorem chained_logs_are_found_from_the_end :
    chainedLogs.WellNested ∧
      findMatches chainedLogs.breadthFirst.reverse .standard = [⟨0, 14⟩, ⟨19, 33⟩] := by
  have hnested : chainedLogs.WellNested := by decide
  have hlaw := the_order_of_a_walk_does_not_matter chainedLogs .standard hnested
  refine ⟨hnested, ?_⟩
  rw [hlaw.2 _ (List.reverse_perm _), hnested.findMatches_eq]
  decide

end LogSweep
