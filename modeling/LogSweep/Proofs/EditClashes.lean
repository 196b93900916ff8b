-- When edits that fit a source cannot be made together. Two that overlap never can. An insertion
-- does not overlap an edit that starts at its place, and yet it can be made beside that edit
-- only when it was added first: ties stay as added, and then the edit reaches past it.
import LogSweep.Proofs.EditOrders

namespace LogSweep

/-! ## Clashes -/

/-- `later` inserts at the place where `first`, added before it, starts to replace. -/
def Edit.InsertsLate (first later : Edit) : Prop :=
  first.span.start = later.span.start ∧ first.span.isEmpty = false ∧ later.span.isEmpty = true

instance (first later : Edit) : Decidable (first.InsertsLate later) :=
  inferInstanceAs (Decidable (first.span.start = later.span.start ∧
    first.span.isEmpty = false ∧ later.span.isEmpty = true))

/-- `later` cannot be made beside `first`, which was added before it. -/
def Edit.Clashes (first later : Edit) : Prop :=
  first.overlaps later = true ∨ first.InsertsLate later

/-- For edits that fit and come in order, not to clash is to stand apart. -/
theorem not_clashes_iff {source : List Char} {e f : Edit} (he : e.span.FitsIn source)
    (hf : f.span.FitsIn source) (h : e.span.start ≤ f.span.start) :
    ¬ e.Clashes f ↔ e.span.stop ≤ f.span.start := by
  have he := he.forward
  have hf := hf.forward
  simp only [Edit.Clashes, Edit.InsertsLate, Edit.overlaps, Span.overlaps_iff, Span.isEmpty,
    decide_eq_true_eq, decide_eq_false_iff_not]
  omega

/-- Edits that start at two places clash whichever of them was added first. -/
theorem clashes_comm {e f : Edit} (h : e.span.start ≠ f.span.start) :
    e.Clashes f ↔ f.Clashes e := by
  simp only [Edit.Clashes, Edit.InsertsLate, Edit.overlaps, Span.overlaps_iff]
  omega

/-! ## Pairs and the order of adding -/

/-- A relation of pairs that minds the order only among edits that start together. -/
def MindsTies (R : Edit → Edit → Prop) : Prop :=
  ∀ e f, e.span.start ≠ f.span.start → (R e f ↔ R f e)

/-- Such a relation holds of all pairs when it holds of the pairs that start one before the
other, wherever they stand, and of the pairs at each start. -/
theorem pairwise_iff_of_mindsTies {R : Edit → Edit → Prop} (hR : MindsTies R) (es : List Edit) :
    es.Pairwise R ↔
      (∀ e ∈ es, ∀ f ∈ es, e.span.start < f.span.start → R e f) ∧
      ∀ n, (es.filter (fun e => e.span.start = n)).Pairwise R := by
  constructor
  · intro h
    refine ⟨?_, fun n => h.filter _⟩
    induction es with
    | nil => simp
    | cons a es ih =>
      obtain ⟨ha, hes⟩ := List.pairwise_cons.mp h
      intro e he f hf hlt
      rcases List.mem_cons.mp he with rfl | he'
      · rcases List.mem_cons.mp hf with rfl | hf'
        · omega
        · exact ha f hf'
      · rcases List.mem_cons.mp hf with rfl | hf'
        · exact (hR f e (by omega)).mp (ha e he')
        · exact ih hes e he' f hf' hlt
  · rintro ⟨hlt, hties⟩
    induction es with
    | nil => exact List.Pairwise.nil
    | cons a es ih =>
      refine List.Pairwise.cons ?_ (ih ?_ ?_)
      · intro f hf
        rcases Nat.lt_trichotomy a.span.start f.span.start with hless | heq | hmore
        · exact hlt a (by simp) f (List.mem_cons_of_mem _ hf) hless
        · have htied := hties a.span.start
          rw [List.filter_cons_of_pos (by simp)] at htied
          apply (List.pairwise_cons.mp htied).1 f
          exact List.mem_filter.mpr ⟨hf, decide_eq_true heq.symm⟩
        · have hback := hlt f (List.mem_cons_of_mem _ hf) a (by simp) hmore
          exact (hR f a (by omega)).mp hback
      · intro e he f hf
        exact hlt e (List.mem_cons_of_mem _ he) f (List.mem_cons_of_mem _ hf)
      · intro n
        refine (hties n).sublist ?_
        exact (List.sublist_cons_self a es).filter _

/-- Putting edits in order changes no verdict on their pairs. -/
theorem InOrder.pairwise_iff {added made : List Edit} (h : InOrder added made)
    {R : Edit → Edit → Prop} (hR : MindsTies R) : made.Pairwise R ↔ added.Pairwise R := by
  rw [pairwise_iff_of_mindsTies hR, pairwise_iff_of_mindsTies hR]
  simp only [mem_iff_of_ties h.ties, h.ties]

/-! ## Edits that fit -/

/-- Spans that fit can fail the check only by an overlap. -/
theorem checkSpansAfter_of_fits {source : List Char} {spans : List Span}
    (h : ∀ s ∈ spans, s.FitsIn source) (previous : Option Span) :
    checkSpansAfter source previous spans = .ok () ∨
      ∃ a b, checkSpansAfter source previous spans = .error (.overlapping a b) := by
  induction spans generalizing previous with
  | nil => exact Or.inl rfl
  | cons s rest ih =>
    have hrest := ih (fun u hu => h u (List.mem_cons_of_mem _ hu)) (some s)
    simp only [checkSpansAfter, checkSpan_eq_ok_iff.mpr (h s (by simp))]
    rcases previous with _ | p
    · exact hrest
    · dsimp only
      split
      · exact Or.inr ⟨p, s, rfl⟩
      · exact hrest

theorem EditList.apply_of_fits {l : EditList} (h : ∀ e ∈ l.edits, e.span.FitsIn l.source.toList) :
    (∃ output, l.apply = .ok output) ∨ ∃ a b, l.apply = .error (.overlapping a b) := by
  have hspans : ∀ s ∈ l.ordered.map Edit.span, s.FitsIn l.source.toList := by
    intro s hs
    obtain ⟨e, he, rfl⟩ := List.mem_map.mp hs
    exact h e ((mem_iff_of_ties (inOrder_ordered l).ties e).mp he)
  unfold EditList.apply checkSpans
  rcases checkSpansAfter_of_fits hspans none with hok | ⟨a, b, herror⟩
  · rw [hok]
    exact Or.inl ⟨_, rfl⟩
  · rw [herror]
    exact Or.inr ⟨a, b, rfl⟩

theorem EditList.exists_apply_iff_of_fits {l : EditList}
    (h : ∀ e ∈ l.edits, e.span.FitsIn l.source.toList) :
    (∃ output, l.apply = .ok output) ↔ l.edits.Pairwise (fun e f => ¬ e.Clashes f) := by
  have hl := inOrder_ordered l
  have hfits : ∀ e ∈ l.ordered, e.span.FitsIn l.source.toList := fun e he =>
    h e ((mem_iff_of_ties hl.ties e).mp he)
  have hminds : MindsTies (fun e f => ¬ e.Clashes f) := fun e f hne => not_congr (clashes_comm hne)
  rw [l.exists_apply_iff, ← hl.pairwise_iff hminds]
  constructor
  · intro hcut
    refine (hl.sorted.and (List.pairwise_map.mp hcut.apart)).imp_of_mem ?_
    rintro e f he hf ⟨hle, hapart⟩
    exact (not_clashes_iff (hfits e he) (hfits f hf) hle).mpr hapart
  · intro hpairs
    refine ⟨?_, List.pairwise_map.mpr ((hl.sorted.and hpairs).imp_of_mem ?_)⟩
    · intro s hs
      obtain ⟨e, he, rfl⟩ := List.mem_map.mp hs
      exact hfits e he
    · rintro e f he hf ⟨hle, hnot⟩
      exact (not_clashes_iff (hfits e he) (hfits f hf) hle).mp hnot

theorem exists_clash_iff (es : List Edit) :
    (∃ (i j : Nat) (e f : Edit), i < j ∧ es[i]? = some e ∧ es[j]? = some f ∧ e.Clashes f) ↔
      ¬ es.Pairwise (fun e f => ¬ e.Clashes f) := by
  rw [List.pairwise_iff_getElem]
  constructor
  · rintro ⟨i, j, e, f, hij, he, hf, hclash⟩ hall
    obtain ⟨hi, rfl⟩ := List.getElem?_eq_some_iff.mp he
    obtain ⟨hj, rfl⟩ := List.getElem?_eq_some_iff.mp hf
    exact hall i j hi hj hij hclash
  · intro hnot
    by_contra hnone
    apply hnot
    intro i j hi hj hij hclash
    exact hnone ⟨i, j, es[i], es[j], hij, List.getElem?_eq_getElem hi,
      List.getElem?_eq_getElem hj, hclash⟩

/-! ## The law -/

/-- Among edits that fit, the making fails with an overlap exactly when an edit overlaps one
added before it, or inserts at the place where one added before it starts to replace. Edits
without such a pair are made. -/
theorem edits_that_fit_clash_by_overlap_or_late_insertion (l : EditList)
    (h : ∀ e ∈ l.edits, e.span.FitsIn l.source.toList) :
    ((∃ a b, l.apply = .error (.overlapping a b)) ↔
      ∃ (i j : Nat) (e f : Edit), i < j ∧ l.edits[i]? = some e ∧ l.edits[j]? = some f ∧
        (e.overlaps f = true ∨ e.InsertsLate f)) ∧
    (l.edits.Pairwise (fun e f => e.overlaps f = false ∧ ¬ e.InsertsLate f) →
      ∃ output, l.apply = .ok output) := by
  have hmade := EditList.exists_apply_iff_of_fits h
  constructor
  · refine Iff.trans ?_ (exists_clash_iff l.edits).symm
    rw [← hmade]
    constructor
    · rintro ⟨a, b, herror⟩ ⟨output, hok⟩
      rw [herror] at hok
      cases hok
    · intro hnot
      rcases EditList.apply_of_fits h with hok | herror
      · exact absurd hok hnot
      · exact herror
  · intro hpairs
    apply hmade.mpr
    refine hpairs.imp ?_
    rintro e f ⟨hoverlap, hlate⟩ (hclash | hclash)
    · rw [hoverlap] at hclash
      cases hclash
    · exact hlate hclash

/-- An insertion, an edit that starts at its place and one that ends there. -/
theorem edits_that_touch_are_made :
    let l : EditList := ⟨"abcdef", [⟨⟨3, 3⟩, "y"⟩, ⟨⟨3, 5⟩, ""⟩, ⟨⟨0, 3⟩, "x"⟩]⟩
    (∀ e ∈ l.edits, e.span.FitsIn l.source.toList) ∧ l.apply = .ok "xyf" ∧
      ¬ ∃ a b, l.apply = .error (.overlapping a b) := by
  intro l
  have hfits : ∀ e ∈ l.edits, e.span.FitsIn l.source.toList := by decide
  obtain ⟨output, hok⟩ :=
    (edits_that_fit_clash_by_overlap_or_late_insertion l hfits).2 (by decide)
  have hordered : l.ordered = [⟨⟨0, 3⟩, "x"⟩, ⟨⟨3, 3⟩, "y"⟩, ⟨⟨3, 5⟩, ""⟩] := by
    simp [l, EditList.ordered, List.mergeSort, List.MergeSort.Internal.splitInTwo,
      Edit.startsBefore]
  have happly : l.apply = .ok "xyf" := by
    unfold EditList.apply
    rw [hordered]
    decide
  refine ⟨hfits, happly, ?_⟩
  rintro ⟨a, b, herror⟩
  rw [hok] at herror
  cases herror

/-- Two edits that do not overlap, the insertion added after the deletion at its place. -/
theorem an_insertion_added_late_is_refused :
    ¬ ∀ l : EditList, (∀ e ∈ l.edits, e.span.FitsIn l.source.toList) →
      ((∃ a b, l.apply = .error (.overlapping a b)) ↔
        ∃ (i j : Nat) (e f : Edit), i ≠ j ∧ l.edits[i]? = some e ∧ l.edits[j]? = some f ∧
          e.overlaps f = true) := by
  intro hclaim
  have hrefused : (⟨"abcdef", [⟨⟨3, 5⟩, ""⟩, ⟨⟨3, 3⟩, "y"⟩]⟩ : EditList).apply =
      .error (.overlapping ⟨3, 5⟩ ⟨3, 3⟩) := by
    unfold EditList.apply EditList.ordered
    rw [List.mergeSort_of_pairwise (by decide)]
    decide
  obtain ⟨i, j, e, f, hne, he, hf, hoverlap⟩ := (hclaim _ (by decide)).mp ⟨_, _, hrefused⟩
  rcases i with _ | _ | i
  · rcases j with _ | _ | j
    · exact hne rfl
    · cases he
      cases hf
      exact absurd hoverlap (by decide)
    · simp at hf
  · rcases j with _ | _ | j
    · cases he
      cases hf
      exact absurd hoverlap (by decide)
    · exact hne rfl
    · simp at hf
  · simp at he

end LogSweep
