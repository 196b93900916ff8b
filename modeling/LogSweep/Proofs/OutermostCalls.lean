-- What is found in a tree whose spans nest: the targeted calls with no targeted call above
-- them, each once and from left to right. The sort is by start alone and the collapse looks
-- only at the last span kept; both are enough because no two targeted calls start together.
import Mathlib.Data.List.Forall2
import LogSweep.Proofs.CollapsedSpans
import LogSweep.Proofs.TreeNodes

namespace LogSweep

namespace SyntaxTree

/-! ## Trees whose spans nest -/

/-- The callee, of a call. -/
def callee? : SyntaxTree → Option SyntaxTree
  | .call _ f _ => some f
  | _ => none

/-- What a node promises about the spans of its children. -/
structure Tidy (t : SyntaxTree) : Prop where
  forward : t.span.start ≤ t.span.stop
  inside : ∀ c ∈ t.children, t.span.contains c.span = true
  apart : t.children.IsChain (fun c d => c.span.stop ≤ d.span.start)
  callee : ∀ f ∈ t.callee?, f.span.start < f.span.stop

instance (t : SyntaxTree) : Decidable t.Tidy :=
  decidable_of_iff
    (t.span.start ≤ t.span.stop ∧ (∀ c ∈ t.children, t.span.contains c.span = true) ∧
      t.children.IsChain (fun c d => c.span.stop ≤ d.span.start) ∧
      ∀ f ∈ t.callee?, f.span.start < f.span.stop)
    ⟨fun ⟨h1, h2, h3, h4⟩ => ⟨h1, h2, h3, h4⟩, fun ⟨h1, h2, h3, h4⟩ => ⟨h1, h2, h3, h4⟩⟩

/-- Every node keeps its promise. -/
def WellNested (t : SyntaxTree) : Prop := ∀ n ∈ t.nodes, n.Tidy

instance (t : SyntaxTree) : Decidable t.WellNested :=
  inferInstanceAs (Decidable (∀ n ∈ t.nodes, n.Tidy))

theorem WellNested.tidy {t : SyntaxTree} (h : t.WellNested) : t.Tidy := h t t.mem_nodes_self

theorem WellNested.below {t n : SyntaxTree} (h : t.WellNested) (hn : n ∈ t.nodes) :
    n.WellNested := fun m hm => h m (mem_nodes_trans hn hm)

theorem WellNested.child {t c : SyntaxTree} (h : t.WellNested) (hc : c ∈ t.children) :
    c.WellNested := h.below (mem_nodes_of_child hc c.mem_nodes_self)

/-- All that is below a node lies inside it. -/
theorem WellNested.contains {t n : SyntaxTree} (h : t.WellNested) (hn : n ∈ t.nodes) :
    t.span.contains n.span = true := by
  induction t using child_induction with
  | step t ih =>
    rw [nodes_eq, List.mem_cons, List.mem_flatMap] at hn
    rcases hn with rfl | ⟨c, hc, hn⟩
    · exact Span.contains_refl _
    · exact Span.contains_trans (h.tidy.inside c hc) (ih c hc (h.child hc) hn)

/-! ## Targeted calls -/

/-- A call is targeted when its callee is a chain of names that a target writes. -/
def Targeted (targets : TargetSet) (t : SyntaxTree) : Prop :=
  ∃ span callee arguments chain path method, t = .call span callee arguments ∧
    MemberChain.ofTree? callee = some chain ∧ chain.split? = some (path, method) ∧
    targets.contains ⟨path, method⟩ = true

theorem matchedCall?_eq_some_iff {targets : TargetSet} {t : SyntaxTree} {s : Span} :
    matchedCall? targets t = some s ↔ t.Targeted targets ∧ s = t.span := by
  constructor
  · intro h
    cases t with
    | call span f a =>
      simp only [matchedCall?] at h
      split at h
      · rename_i path method hchain
        obtain ⟨chain, hf, hsplit⟩ := Option.bind_eq_some_iff.mp hchain
        split at h
        · rename_i hin
          exact ⟨⟨span, f, a, chain, path, method, rfl, hf, hsplit, hin⟩, (Option.some.inj h).symm⟩
        · simp at h
      · simp at h
    | member => simp [matchedCall?] at h
    | identifier => simp [matchedCall?] at h
    | other => simp [matchedCall?] at h
  · rintro ⟨⟨span, f, a, chain, path, method, rfl, hf, hsplit, hin⟩, rfl⟩
    simp [matchedCall?, hf, hsplit, hin]

theorem matchedCall?_eq_none_iff {targets : TargetSet} {t : SyntaxTree} :
    matchedCall? targets t = none ↔ ¬ t.Targeted targets := by
  rw [Option.eq_none_iff_forall_ne_some]
  constructor
  · intro h ht
    exact h t.span (matchedCall?_eq_some_iff.mpr ⟨ht, rfl⟩)
  · intro h s hs
    exact h (matchedCall?_eq_some_iff.mp hs).1

instance (targets : TargetSet) (t : SyntaxTree) : Decidable (t.Targeted targets) :=
  decidable_of_iff ((matchedCall? targets t).isSome = true) <| by
    rw [Option.isSome_iff_ne_none, ne_eq, matchedCall?_eq_none_iff, not_not]

/-- Nothing inside a chain of names is targeted. -/
theorem not_targeted_of_chain {targets : TargetSet} {f n : SyntaxTree} {chain : MemberChain}
    (h : MemberChain.ofTree? f = some chain) (hn : n ∈ f.nodes) : ¬ n.Targeted targets := by
  rintro ⟨_, _, _, _, _, _, rfl, _⟩
  induction f using MemberChain.ofTree?.induct generalizing chain with
  | case1 => simp [nodes] at hn
  | case2 _ object property p base hbase hp ih =>
    obtain ⟨s, rfl⟩ := eq_identifier_of_name? hp
    simp only [nodes, List.mem_cons, reduceCtorEq, List.mem_append, List.not_mem_nil, or_false,
      false_or] at hn
    exact ih hbase hn
  | case3 _ object property hnone ih =>
    rw [MemberChain.ofTree?] at h
    split at h
    · rename_i p base hp hbase
      exact absurd hbase (hnone p base hp)
    · simp at h
  | case4 _ inner ih =>
    simp only [MemberChain.ofTree?] at h
    simp only [nodes, nodesAll, List.mem_cons, reduceCtorEq, List.append_nil, false_or] at hn
    exact ih h hn
  | case5 => simp_all [MemberChain.ofTree?]

/-- A targeted call covers at least its callee. -/
theorem Targeted.nonempty {targets : TargetSet} {t : SyntaxTree} (ht : t.Targeted targets)
    (h : t.WellNested) : t.span.start < t.span.stop := by
  obtain ⟨_, f, a, _, _, _, rfl, _⟩ := ht
  have hf := h.tidy.callee f rfl
  have hin := (Span.contains_iff _ _).mp (h.tidy.inside f (by simp [children]))
  omega

/-- A targeted call below another one stands among the arguments, and so starts later. -/
theorem Targeted.start_lt {targets : TargetSet} {t c n : SyntaxTree} (ht : t.Targeted targets)
    (h : t.WellNested) (hc : c ∈ t.children) (hn : n ∈ c.nodes) (hnt : n.Targeted targets) :
    t.span.start < n.span.start := by
  obtain ⟨_, f, a, _, _, _, rfl, hchain, _⟩ := ht
  simp only [children, List.mem_cons, List.not_mem_nil, or_false] at hc
  rcases hc with rfl | rfl
  · exact absurd hnt (not_targeted_of_chain hchain hn)
  · have hf := h.tidy.callee f rfl
    have hin := (Span.contains_iff _ _).mp (h.tidy.inside f (by simp [children]))
    have hapart : f.span.stop ≤ c.span.start := by simpa [children] using h.tidy.apart
    have hbelow := (Span.contains_iff _ _).mp ((h.child (by simp [children])).contains hn)
    omega

/-! ## The spans of the targeted calls -/

/-- The spans of all targeted calls, parents first. -/
def targetedSpans (targets : TargetSet) (t : SyntaxTree) : List Span :=
  t.nodes.filterMap (matchedCall? targets)

theorem mem_targetedSpans {targets : TargetSet} {t : SyntaxTree} {s : Span} :
    s ∈ t.targetedSpans targets ↔ ∃ n ∈ t.nodes, n.Targeted targets ∧ s = n.span := by
  simp only [targetedSpans, List.mem_filterMap, matchedCall?_eq_some_iff]

theorem targetedSpans_of_targeted {targets : TargetSet} {t : SyntaxTree}
    (ht : t.Targeted targets) :
    t.targetedSpans targets = t.span :: t.children.flatMap (targetedSpans targets) := by
  unfold targetedSpans
  rw [nodes_eq, List.filterMap_cons, matchedCall?_eq_some_iff.mpr ⟨ht, rfl⟩, List.filterMap_flatMap]

theorem targetedSpans_of_not {targets : TargetSet} {t : SyntaxTree} (ht : ¬ t.Targeted targets) :
    t.targetedSpans targets = t.children.flatMap (targetedSpans targets) := by
  unfold targetedSpans
  rw [nodes_eq, List.filterMap_cons, matchedCall?_eq_none_iff.mpr ht, List.filterMap_flatMap]

theorem WellNested.targetedSpan {targets : TargetSet} {t : SyntaxTree} {s : Span}
    (h : t.WellNested) (hs : s ∈ t.targetedSpans targets) :
    s.start < s.stop ∧ t.span.contains s = true := by
  obtain ⟨n, hn, hnt, rfl⟩ := mem_targetedSpans.mp hs
  exact ⟨hnt.nonempty (h.below hn), h.contains hn⟩

/-- Children that stand one after the other stand apart, also those further along. -/
theorem pairwise_of_apart {cs : List SyntaxTree} (hf : ∀ c ∈ cs, c.span.start ≤ c.span.stop)
    (h : cs.IsChain (fun c d => c.span.stop ≤ d.span.start)) :
    cs.Pairwise (fun c d => c.span.stop ≤ d.span.start) := by
  induction cs with
  | nil => exact List.Pairwise.nil
  | cons c cs ih =>
    have hrest := ih (fun d hd => hf d (List.mem_cons_of_mem _ hd)) h.tail
    refine List.Pairwise.cons ?_ hrest
    intro d hd
    rcases cs with _ | ⟨b, cs⟩
    · simp at hd
    · have hcb : c.span.stop ≤ b.span.start := (List.isChain_cons_cons.mp h).1
      rcases List.mem_cons.mp hd with rfl | hd
      · exact hcb
      · have hb := hf b (by simp)
        have hbd := (List.pairwise_cons.mp hrest).1 d hd
        omega

theorem WellNested.children_apart {t : SyntaxTree} (h : t.WellNested) :
    t.children.Pairwise (fun c d => c.span.stop ≤ d.span.start) :=
  pairwise_of_apart (fun _ hc => (h.child hc).tidy.forward) h.tidy.apart

/-- No two targeted calls start together: parents start before the calls among their
arguments, and calls in two children stand apart. -/
theorem WellNested.starts_increase {t : SyntaxTree} (targets : TargetSet) (h : t.WellNested) :
    (t.targetedSpans targets).Pairwise (fun s u => s.start < u.start) := by
  induction t using child_induction with
  | step t ih =>
    have hbelow : (t.children.flatMap (targetedSpans targets)).Pairwise
        (fun s u => s.start < u.start) := by
      rw [List.pairwise_flatMap]
      refine ⟨fun c hc => ih c hc (h.child hc), ?_⟩
      refine h.children_apart.imp_of_mem ?_
      intro c d hc hd hcd s hs u hu
      obtain ⟨hs1, hs2⟩ := (h.child hc).targetedSpan hs
      obtain ⟨_, hu2⟩ := (h.child hd).targetedSpan hu
      rw [Span.contains_iff] at hs2 hu2
      omega
    by_cases ht : t.Targeted targets
    · rw [targetedSpans_of_targeted ht]
      refine List.Pairwise.cons ?_ hbelow
      intro s hs
      obtain ⟨c, hc, hs⟩ := List.mem_flatMap.mp hs
      obtain ⟨n, hn, hnt, rfl⟩ := mem_targetedSpans.mp hs
      exact ht.start_lt h hc hn hnt
    · rw [targetedSpans_of_not ht]
      exact hbelow

/-! ## The outermost ones -/

/-- A way to a targeted call, with no targeted call above it. -/
structure Outermost (targets : TargetSet) (root : SyntaxTree) (w : Way) : Prop where
  targeted : ∃ n, root.nodeAt? w = some n ∧ n.Targeted targets
  above : ∀ v n, v <+: w → v ≠ w → root.nodeAt? v = some n → ¬ n.Targeted targets

theorem outermost_nil {targets : TargetSet} {t : SyntaxTree} :
    t.Outermost targets [] ↔ t.Targeted targets := by
  constructor
  · rintro ⟨⟨n, hn, hnt⟩, _⟩
    rw [nodeAt?, Option.some.injEq] at hn
    exact hn ▸ hnt
  · intro ht
    refine ⟨⟨t, rfl, ht⟩, ?_⟩
    intro v n hv hne
    exact absurd (List.prefix_nil.mp hv) hne

theorem outermost_cons {targets : TargetSet} {t : SyntaxTree} {i : Nat} {w : Way} :
    t.Outermost targets (i :: w) ↔
      ¬ t.Targeted targets ∧ ∃ c, t.children[i]? = some c ∧ c.Outermost targets w := by
  constructor
  · rintro ⟨⟨n, hn, hnt⟩, habove⟩
    rw [nodeAt?, Option.bind_eq_some_iff] at hn
    obtain ⟨c, hc, hn⟩ := hn
    refine ⟨habove [] t (List.nil_prefix) (by simp) rfl, c, hc, ⟨n, hn, hnt⟩, ?_⟩
    intro v m hv hne hm
    refine habove (i :: v) m (List.cons_prefix_cons.mpr ⟨rfl, hv⟩) (by simpa using hne) ?_
    rw [nodeAt?, hc, Option.bind_some, hm]
  · rintro ⟨ht, c, hc, ⟨n, hn, hnt⟩, habove⟩
    refine ⟨⟨n, by rw [nodeAt?, hc, Option.bind_some, hn], hnt⟩, ?_⟩
    intro v m hv hne hm
    rcases v with _ | ⟨j, v⟩
    · rw [nodeAt?, Option.some.injEq] at hm
      exact hm ▸ ht
    · obtain ⟨rfl, hvw⟩ := List.cons_prefix_cons.mp hv
      rw [nodeAt?, hc, Option.bind_some] at hm
      exact habove v m hvw (by simpa using hne) hm

instance decidableOutermost (targets : TargetSet) :
    (t : SyntaxTree) → (w : Way) → Decidable (t.Outermost targets w)
  | _, [] => decidable_of_iff _ outermost_nil.symm
  | t, i :: w =>
    match h : t.children[i]? with
    | none => isFalse (by rw [outermost_cons, h]; simp)
    | some c =>
      have := decidableOutermost targets c w
      decidable_of_iff (¬ t.Targeted targets ∧ c.Outermost targets w)
        (by rw [outermost_cons, h]; simp)

/-- The ways to the outermost targeted calls, from left to right. -/
def outermostWays (targets : TargetSet) (t : SyntaxTree) : List Way :=
  t.ways.filter (fun w => t.Outermost targets w)

def spanAt? (t : SyntaxTree) (w : Way) : Option Span := (t.nodeAt? w).map span

def outermostSpans (targets : TargetSet) (t : SyntaxTree) : List Span :=
  (t.outermostWays targets).filterMap t.spanAt?

theorem outermostSpans_of_targeted {targets : TargetSet} {t : SyntaxTree}
    (ht : t.Targeted targets) : t.outermostSpans targets = [t.span] := by
  have hrest : (waysFrom 0 t.children).filter (fun w => t.Outermost targets w) = [] := by
    rw [List.filter_eq_nil_iff]
    intro w hw
    rw [waysFrom_eq, List.mem_flatMap] at hw
    obtain ⟨c, _, hw⟩ := hw
    obtain ⟨v, _, rfl⟩ := List.mem_map.mp hw
    rw [decide_eq_true_eq, outermost_cons]
    exact fun h => h.1 ht
  unfold outermostSpans outermostWays
  rw [ways_eq, List.filter_cons_of_pos (by simpa using outermost_nil.mpr ht), hrest]
  rfl

theorem outermostSpans_of_not {targets : TargetSet} {t : SyntaxTree} (ht : ¬ t.Targeted targets) :
    t.outermostSpans targets = t.children.flatMap (outermostSpans targets) := by
  rw [outermostSpans, outermostWays, ways_eq,
    List.filter_cons_of_neg (by simpa [outermost_nil] using ht), waysFrom_eq,
    List.filter_flatMap, List.filterMap_flatMap]
  -- Inside child number `i` both the choice of ways and their spans are those of the child.
  have hchild : ∀ c ∈ t.children.zipIdx,
      ((c.1.ways.map (c.2 :: ·)).filter (fun w => t.Outermost targets w)).filterMap t.spanAt? =
        c.1.outermostSpans targets := by
    rintro ⟨c, i⟩ hc
    have hget : t.children[i]? = some c := List.mem_zipIdx_iff_getElem?.mp hc
    unfold outermostSpans outermostWays
    rw [List.filter_map, List.filterMap_map]
    congr 1
    · funext w
      simp [spanAt?, nodeAt?, hget]
    · apply List.filter_congr
      intro w _
      simp [outermost_cons, ht, hget]
  rw [List.flatMap_congr hchild, ← List.flatMap_map Prod.fst, List.zipIdx_map_fst]

/-- Every outermost way leads to a node, so the spans stand beside the ways one by one. -/
theorem forall₂_outermost (targets : TargetSet) (t : SyntaxTree) :
    List.Forall₂ (fun w s => t.spanAt? w = some s) (t.outermostWays targets)
      (t.outermostSpans targets) := by
  have hall : ∀ ws : List Way, (∀ w ∈ ws, t.Outermost targets w) →
      List.Forall₂ (fun w s => t.spanAt? w = some s) ws (ws.filterMap t.spanAt?) := by
    intro ws
    induction ws with
    | nil => exact fun _ => List.Forall₂.nil
    | cons w ws ih =>
      intro h
      obtain ⟨n, hn, _⟩ := (h w (by simp)).targeted
      have hspan : t.spanAt? w = some n.span := by rw [spanAt?, hn, Option.map_some]
      rw [List.filterMap_cons_some hspan]
      exact List.Forall₂.cons hspan (ih (fun v hv => h v (List.mem_cons_of_mem _ hv)))
  apply hall
  intro w hw
  simpa using (List.mem_filter.mp hw).2

theorem mem_outermostWays {targets : TargetSet} {t : SyntaxTree} {w : Way} :
    w ∈ t.outermostWays targets ↔ t.Outermost targets w := by
  rw [outermostWays, List.mem_filter, decide_eq_true_eq, mem_ways_iff, and_iff_right_iff_imp]
  rintro ⟨⟨n, hn, _⟩, _⟩
  exact ⟨n, hn⟩

/-! ## The collapse -/

/-- The collapse thins `xs`, which lie from `low` up to `high`, out to `ys`, whatever stands
before and after them. -/
def Thins (low high : Nat) (xs ys : List Span) : Prop :=
  ∀ (last : Option Span) (rest : List Span), (∀ k ∈ last, k.stop ≤ low) →
    ∃ last' : Option Span, (∀ k ∈ last', k.stop ≤ high) ∧
      collapseAfter last (xs ++ rest) = ys ++ collapseAfter last' rest

theorem Thins.nil {low high : Nat} (h : low ≤ high) : Thins low high [] [] :=
  fun last _ hlast => ⟨last, fun k hk => Nat.le_trans (hlast k hk) h, rfl⟩

theorem Thins.append {a b c d : Nat} {xs ys us vs : List Span} (h : Thins a b xs ys) (hbc : b ≤ c)
    (k : Thins c d us vs) : Thins a d (xs ++ us) (ys ++ vs) := by
  intro last rest hlast
  obtain ⟨mid, hmid, heq⟩ := h last (us ++ rest) hlast
  obtain ⟨last', hlast', heq'⟩ := k mid rest (fun s hs => Nat.le_trans (hmid s hs) hbc)
  refine ⟨last', hlast', ?_⟩
  rw [List.append_assoc, heq, heq', List.append_assoc]

theorem Thins.widen {a b c d : Nat} {xs ys : List Span} (h : Thins b c xs ys) (hab : a ≤ b)
    (hcd : c ≤ d) : Thins a d xs ys := by
  intro last rest hlast
  obtain ⟨last', hlast', heq⟩ := h last rest (fun s hs => Nat.le_trans (hlast s hs) hab)
  exact ⟨last', fun s hs => Nat.le_trans (hlast' s hs) hcd, heq⟩

theorem collapseAfter_keep {last : Option Span} {s : Span} (rest : List Span)
    (h : ∀ k ∈ last, ¬ k.contains s = true) :
    collapseAfter last (s :: rest) = s :: collapseAfter (some s) rest := by
  rcases last with _ | k
  · rfl
  · rw [collapseAfter, if_neg (h k rfl)]

/-- Spans inside the one before them go. -/
theorem collapseAfter_inside {k : Span} {xs : List Span} (rest : List Span)
    (h : ∀ s ∈ xs, k.contains s = true) :
    collapseAfter (some k) (xs ++ rest) = collapseAfter (some k) rest := by
  induction xs with
  | nil => rfl
  | cons s xs ih =>
    rw [List.cons_append, collapseAfter, if_pos (h s (by simp))]
    exact ih (fun u hu => h u (List.mem_cons_of_mem _ hu))

theorem Thins.cons_inside {s : Span} {xs : List Span} (hs : s.start < s.stop)
    (h : ∀ u ∈ xs, s.contains u = true) : Thins s.start s.stop (s :: xs) [s] := by
  intro last rest hlast
  refine ⟨some s, by simp, ?_⟩
  have hkeep : ∀ k ∈ last, ¬ k.contains s = true := by
    intro k hk
    have hbefore := hlast k hk
    rw [Span.contains_iff]
    omega
  rw [List.cons_append, collapseAfter_keep _ hkeep, collapseAfter_inside rest h]
  rfl

/-- What holds of each child holds of all of them together, since they stand apart. -/
theorem thins_children {targets : TargetSet} {cs : List SyntaxTree} {low high : Nat}
    (hle : low ≤ high) (hlow : ∀ c ∈ cs, low ≤ c.span.start)
    (hhigh : ∀ c ∈ cs, c.span.stop ≤ high)
    (hapart : cs.Pairwise (fun c d => c.span.stop ≤ d.span.start))
    (h : ∀ c ∈ cs, Thins c.span.start c.span.stop (c.targetedSpans targets)
      (c.outermostSpans targets)) :
    Thins low high (cs.flatMap (targetedSpans targets)) (cs.flatMap (outermostSpans targets)) := by
  induction cs generalizing low with
  | nil => exact Thins.nil hle
  | cons c cs ih =>
    obtain ⟨hc, hcs⟩ := List.pairwise_cons.mp hapart
    have hfirst := (h c (by simp)).widen (hlow c (by simp)) (Nat.le_refl _)
    refine hfirst.append (Nat.le_refl _) ?_
    exact ih (hhigh c (by simp)) hc (fun d hd => hhigh d (List.mem_cons_of_mem _ hd)) hcs
      (fun d hd => h d (List.mem_cons_of_mem _ hd))

/-- Of the targeted calls of a tree the outermost ones stay. -/
theorem WellNested.thins {t : SyntaxTree} (targets : TargetSet) (h : t.WellNested) :
    Thins t.span.start t.span.stop (t.targetedSpans targets) (t.outermostSpans targets) := by
  induction t using child_induction with
  | step t ih =>
    by_cases ht : t.Targeted targets
    · rw [targetedSpans_of_targeted ht, outermostSpans_of_targeted ht]
      refine Thins.cons_inside (ht.nonempty h) ?_
      intro s hs
      obtain ⟨c, hc, hs⟩ := List.mem_flatMap.mp hs
      exact Span.contains_trans (h.tidy.inside c hc) ((h.child hc).targetedSpan hs).2
    · rw [targetedSpans_of_not ht, outermostSpans_of_not ht]
      have hin := fun c hc => (Span.contains_iff _ _).mp (h.tidy.inside c hc)
      exact thins_children h.tidy.forward (fun c hc => (hin c hc).1) (fun c hc => (hin c hc).2)
        h.children_apart (fun c hc => ih c hc (h.child hc))

/-! ## The sort -/

/-- Sorting what is found among the nodes, in whatever order they come, gives the targeted calls
parents first: their starts leave no choice. -/
theorem WellNested.sorted_eq {t : SyntaxTree} (targets : TargetSet) (h : t.WellNested)
    {ns : List SyntaxTree} (hns : ns.Perm t.nodes) :
    (ns.filterMap (matchedCall? targets)).mergeSort startsBefore = t.targetedSpans targets := by
  have hinc := h.starts_increase targets
  have hperm : ((ns.filterMap (matchedCall? targets)).mergeSort startsBefore).Perm
      (t.targetedSpans targets) :=
    (List.mergeSort_perm _ _).trans (hns.filterMap _)
  have hsorted : ((ns.filterMap (matchedCall? targets)).mergeSort
      startsBefore).Pairwise (fun s u => startsBefore s u = true) := by
    apply List.pairwise_mergeSort
    · intro a b c
      simp only [startsBefore, decide_eq_true_eq]
      exact Nat.le_trans
    · intro a b
      simp only [startsBefore, Bool.or_eq_true, decide_eq_true_eq]
      exact Nat.le_total _ _
  refine hperm.eq_of_pairwise ?_ hsorted (hinc.imp ?_)
  · intro a b ha hb hab hba
    have hnodup : ((t.targetedSpans targets).map Span.start).Nodup :=
      List.pairwise_map.mpr (hinc.imp Nat.ne_of_lt)
    simp only [startsBefore, decide_eq_true_eq] at hab hba
    exact List.inj_on_of_nodup_map hnodup (hperm.mem_iff.mp ha) hb (Nat.le_antisymm hab hba)
  · intro s u hsu
    simp only [startsBefore, decide_eq_true_eq]
    exact Nat.le_of_lt hsu

theorem WellNested.findMatches_of_perm {t : SyntaxTree} (targets : TargetSet) (h : t.WellNested)
    {ns : List SyntaxTree} (hns : ns.Perm t.nodes) :
    findMatches ns targets = t.outermostSpans targets := by
  obtain ⟨last, _, heq⟩ := h.thins targets none [] (by simp)
  rw [List.append_nil, collapseAfter, List.append_nil] at heq
  rw [findMatches, h.sorted_eq targets hns, collapseNested, heq]

theorem WellNested.findMatches_eq {t : SyntaxTree} (targets : TargetSet) (h : t.WellNested) :
    findMatches t.breadthFirst targets = t.outermostSpans targets :=
  h.findMatches_of_perm targets t.breadthFirst_perm

/-! ## Where the found spans stand -/

theorem mem_targetedSpans_of_outermost {targets : TargetSet} {t : SyntaxTree} {s : Span}
    (hs : s ∈ t.outermostSpans targets) : s ∈ t.targetedSpans targets := by
  obtain ⟨w, hw, hs⟩ := List.mem_filterMap.mp hs
  obtain ⟨n, hn, hnt⟩ := (mem_outermostWays.mp hw).targeted
  rw [spanAt?, hn, Option.map_some, Option.some.injEq] at hs
  exact mem_targetedSpans.mpr ⟨n, mem_nodes_of_nodeAt? hn, hnt, hs.symm⟩

theorem WellNested.outermost_apart {t : SyntaxTree} (targets : TargetSet) (h : t.WellNested) :
    (t.outermostSpans targets).Pairwise (fun s u => s.stop ≤ u.start) := by
  induction t using child_induction with
  | step t ih =>
    by_cases ht : t.Targeted targets
    · rw [outermostSpans_of_targeted ht]
      exact List.pairwise_singleton _ _
    · rw [outermostSpans_of_not ht, List.pairwise_flatMap]
      refine ⟨fun c hc => ih c hc (h.child hc), ?_⟩
      refine h.children_apart.imp_of_mem ?_
      intro c d hc hd hcd s hs u hu
      have hsc := ((h.child hc).targetedSpan (mem_targetedSpans_of_outermost hs)).2
      have hud := ((h.child hd).targetedSpan (mem_targetedSpans_of_outermost hu)).2
      rw [Span.contains_iff] at hsc hud
      omega

end SyntaxTree

/-- What is found is the span of a targeted call. -/
theorem exists_targeted_of_mem_findMatches {nodes : List SyntaxTree} {targets : TargetSet} {s : Span}
    (h : s ∈ findMatches nodes targets) : ∃ n ∈ nodes, n.Targeted targets ∧ s = n.span := by
  have hmem := (collapseNested_sublist _).subset h
  rw [List.mem_mergeSort, List.mem_filterMap] at hmem
  obtain ⟨n, hn, hs⟩ := hmem
  exact ⟨n, hn, SyntaxTree.matchedCall?_eq_some_iff.mp hs⟩

/-- No targeted call is lost, whatever the nodes are. -/
theorem exists_findMatches_contains {nodes : List SyntaxTree} {targets : TargetSet}
    {n : SyntaxTree} (hn : n ∈ nodes) (ht : n.Targeted targets) :
    ∃ s ∈ findMatches nodes targets, s.contains n.span = true := by
  have hmem : n.span ∈ (nodes.filterMap (matchedCall? targets)).mergeSort startsBefore := by
    rw [List.mem_mergeSort, List.mem_filterMap]
    exact ⟨n, hn, SyntaxTree.matchedCall?_eq_some_iff.mpr ⟨ht, rfl⟩⟩
  exact exists_kept_contains hmem

/-- Spans that stand apart do not share a byte. -/
theorem countP_contains_eq_one {spans : List Span} {s inner : Span}
    (hapart : spans.Pairwise (fun s u => s.stop ≤ u.start)) (hs : s ∈ spans)
    (hin : s.contains inner = true) (hne : inner.start < inner.stop) :
    spans.countP (fun u => u.contains inner) = 1 := by
  obtain ⟨before, after, rfl⟩ := List.append_of_mem hs
  obtain ⟨_, hafter, hbefore⟩ := List.pairwise_append.mp hapart
  rw [Span.contains_iff] at hin
  have hb : before.countP (fun u => u.contains inner) = 0 := by
    rw [List.countP_eq_zero]
    intro u hu
    have hus := hbefore u hu s (by simp)
    rw [Span.contains_iff]
    omega
  have ha : after.countP (fun u => u.contains inner) = 0 := by
    rw [List.countP_eq_zero]
    intro u hu
    have hsu := (List.pairwise_cons.mp hafter).1 u hu
    rw [Span.contains_iff]
    omega
  rw [List.countP_append, List.countP_cons_of_pos (by rw [Span.contains_iff]; omega), hb, ha]

/-! ## The law -/

open SyntaxTree in
/-- In a tree whose spans nest, the found spans are those of the targeted calls with no targeted
call above them: each once, from left to right, none over another. So every targeted call lies
inside exactly one of them. -/
theorem found_spans_are_the_outermost_targeted_calls (root : SyntaxTree) (targets : TargetSet)
    (h : root.WellNested) :
    (∃ ways : List Way, ways.Nodup ∧ (∀ w, w ∈ ways ↔ root.Outermost targets w) ∧
      List.Forall₂ (fun w s => root.spanAt? w = some s) ways
        (findMatches root.breadthFirst targets)) ∧
    (findMatches root.breadthFirst targets).Pairwise (fun s u => s.stop ≤ u.start) ∧
    (∀ s ∈ findMatches root.breadthFirst targets, s.start < s.stop) ∧
    ∀ w n, root.nodeAt? w = some n → n.Targeted targets →
      (findMatches root.breadthFirst targets).countP (fun s => s.contains n.span) = 1 := by
  have hapart : (findMatches root.breadthFirst targets).Pairwise (fun s u => s.stop ≤ u.start) := by
    rw [h.findMatches_eq targets]
    exact h.outermost_apart targets
  refine ⟨⟨root.outermostWays targets, ?_, fun w => mem_outermostWays, ?_⟩, hapart, ?_, ?_⟩
  · exact root.nodup_ways.filter _
  · rw [h.findMatches_eq targets]
    exact forall₂_outermost targets root
  · intro s hs
    rw [h.findMatches_eq targets] at hs
    exact (h.targetedSpan (mem_targetedSpans_of_outermost hs)).1
  · intro w n hn ht
    have hmem := mem_nodes_of_nodeAt? hn
    obtain ⟨s, hs, hin⟩ :=
      exists_findMatches_contains (root.breadthFirst_perm.mem_iff.mpr hmem) ht
    exact countP_contains_eq_one hapart hs hin (ht.nonempty (h.below hmem))

/-- `console.log(console.log())`. -/
def logInLog : SyntaxTree :=
  .call ⟨0, 26⟩
    (.member ⟨0, 11⟩ (.identifier ⟨0, 7⟩ "console") (.identifier ⟨8, 11⟩ "log"))
    (.other "arguments" ⟨11, 26⟩
      [.call ⟨12, 25⟩
        (.member ⟨12, 23⟩ (.identifier ⟨12, 19⟩ "console") (.identifier ⟨20, 23⟩ "log"))
        (.other "arguments" ⟨23, 25⟩ [])])

/-- The inner call lies inside the one span that is found. -/
theorem log_in_log_is_found_once :
    logInLog.WellNested ∧ logInLog.spanAt? [1, 0] = some ⟨12, 25⟩ ∧
      (findMatches logInLog.breadthFirst .standard).countP (fun s => s.contains ⟨12, 25⟩) = 1 := by
  have hnested : logInLog.WellNested := by decide
  refine ⟨hnested, rfl, ?_⟩
  have hlaw := found_spans_are_the_outermost_targeted_calls logInLog .standard hnested
  exact hlaw.2.2.2 [1, 0] _ rfl (by decide)

end LogSweep
