-- The order in which edits are added. Edits that all start at different places are made alike
-- however they were added: one text, or one error. The error belongs to the first span, by start,
-- that does not fit the source or begins before the one in front of it ends.
import Mathlib.Data.List.Nodup
import LogSweep.Proofs.EditOrders

namespace LogSweep

/-! ## Faults -/

/-- Why a span does not fit a source. The tests come one after the other, so there is one reason
at most. -/
inductive Span.Misfit (source : List Char) (s : Span) : EditError → Prop
  | outOfBounds : s.stop < s.start ∨ Text.byteLength source < s.stop →
      Misfit source s (.outOfBounds s (Text.byteLength source))
  | startInside : s.start ≤ s.stop → s.stop ≤ Text.byteLength source →
      Text.isBoundary source s.start = false → Misfit source s (.notBoundary s.start)
  | stopInside : s.start ≤ s.stop → s.stop ≤ Text.byteLength source →
      Text.isBoundary source s.start = true → Text.isBoundary source s.stop = false →
      Misfit source s (.notBoundary s.stop)

/-- What is wrong with a span that comes after `previous`. Only a span that fits can overlap. -/
def SpanFault (source : List Char) (previous : Option Span) (s : Span) (e : EditError) : Prop :=
  s.Misfit source e ∨
    s.FitsIn source ∧ ∃ p ∈ previous, s.start < p.stop ∧ e = .overlapping p s

/-- The spans before the faulty one can be cut out; those after it do not count. -/
def FirstFault (source : List Char) (spans : List Span) (e : EditError) : Prop :=
  ∃ before s after, spans = before ++ s :: after ∧ Cuttable source before ∧
    SpanFault source before.getLast? s e

theorem checkSpan_eq_error_iff {source : List Char} {s : Span} {e : EditError} :
    checkSpan source s = .error e ↔ s.Misfit source e := by
  unfold checkSpan
  simp only [Bool.or_eq_true, decide_eq_true_eq, Bool.not_eq_true']
  constructor
  · intro h
    split_ifs at h with h1 h2 h3
    · cases h
      exact .outOfBounds h1
    · cases h
      exact .startInside (by omega) (by omega) h2
    · cases h
      exact .stopInside (by omega) (by omega) (by simpa using h2) h3
  · intro h
    cases h with
    | outOfBounds h1 => rw [if_pos h1]
    | startInside h1 h2 h3 => rw [if_neg (by omega), if_pos h3]
    | stopInside h1 h2 h3 h4 => rw [if_neg (by omega), if_neg (by simp [h3]), if_pos h4]

/-- One step fails at its span, or lets it pass and fails later. -/
theorem checkSpansAfter_cons_eq_error_iff {source : List Char} {previous : Option Span} {s : Span}
    {rest : List Span} {e : EditError} :
    checkSpansAfter source previous (s :: rest) = .error e ↔
      SpanFault source previous s e ∨ s.FitsIn source ∧ (∀ p ∈ previous, p.stop ≤ s.start) ∧
        checkSpansAfter source (some s) rest = .error e := by
  unfold SpanFault
  rw [checkSpansAfter.eq_def, ← checkSpan_eq_ok_iff, ← checkSpan_eq_error_iff]
  dsimp only
  rcases checkSpan source s with e' | u
  · simp
  · rcases previous with _ | p
    · simp
    · simp only [true_and, Option.mem_some_iff, exists_eq_left', forall_eq', reduceCtorEq, false_or]
      split_ifs with hp
      · have hnot : ¬ p.stop ≤ s.start := by omega
        simp [hp, hnot, eq_comm]
      · have hle : p.stop ≤ s.start := by omega
        simp [hp, hle]

/-- A run fails at a span when it lets all spans before that one pass. -/
theorem checkSpansAfter_eq_error_iff {source : List Char} {previous : Option Span}
    {spans : List Span} {e : EditError} :
    checkSpansAfter source previous spans = .error e ↔
      ∃ before s after, spans = before ++ s :: after ∧
        checkSpansAfter source previous before = .ok () ∧
        SpanFault source (before.getLast?.or previous) s e := by
  induction spans generalizing previous with
  | nil => simp [checkSpansAfter]
  | cons s rest ih =>
    -- After `s` the span to compare with is `s`, or a later one.
    have hlast : ∀ before : List Span,
        (s :: before).getLast?.or previous = before.getLast?.or (some s) := by
      intro before
      rw [List.getLast?_cons, Option.some_or, Option.or_some]
    rw [checkSpansAfter_cons_eq_error_iff, ih]
    constructor
    · rintro (hfault | ⟨hfits, hp, before, u, after, rfl, hok, hfault⟩)
      · exact ⟨[], s, rest, rfl, rfl, hfault⟩
      · refine ⟨s :: before, u, after, rfl, ?_, ?_⟩
        · exact checkSpansAfter_cons_eq_ok_iff.mpr ⟨hfits, hp, hok⟩
        · rw [hlast]
          exact hfault
    · rintro ⟨before, u, after, hspans, hok, hfault⟩
      rcases before with _ | ⟨b, before⟩
      · cases hspans
        exact Or.inl hfault
      · cases hspans
        obtain ⟨hfits, hp, hok⟩ := checkSpansAfter_cons_eq_ok_iff.mp hok
        rw [hlast] at hfault
        exact Or.inr ⟨hfits, hp, before, u, after, rfl, hok, hfault⟩

/-- The check fails with the first fault. -/
theorem checkSpans_eq_error_iff {source : List Char} {spans : List Span} {e : EditError} :
    checkSpans source spans = .error e ↔ FirstFault source spans e := by
  have hpass : ∀ before, checkSpansAfter source none before = .ok () ↔ Cuttable source before :=
    fun _ => checkSpans_eq_ok_iff
  unfold checkSpans FirstFault
  simp only [checkSpansAfter_eq_error_iff, hpass, Option.or_none]

/-! ## Making edits -/

theorem EditList.apply_eq_ok_iff {l : EditList} {output : String} :
    l.apply = .ok output ↔ Cuttable l.source.toList (l.ordered.map Edit.span) ∧
      copySlices l.source 0 l.ordered = some output := by
  constructor
  · intro h
    have hcut := l.exists_apply_iff.mp ⟨output, h⟩
    obtain ⟨c, htext, hspans⟩ := hcut.exists_cut
    rw [EditList.apply_of_cut htext hspans hcut, Except.ok.injEq] at h
    rw [← htext, c.copySlices_eq hspans.symm, h]
    exact ⟨htext ▸ hcut, rfl⟩
  · rintro ⟨hcut, hcopy⟩
    obtain ⟨c, htext, hspans⟩ := hcut.exists_cut
    rw [← htext, c.copySlices_eq hspans.symm, Option.some.injEq] at hcopy
    rw [EditList.apply_of_cut htext hspans hcut, hcopy]

theorem EditList.apply_eq_error_iff {l : EditList} {e : EditError} :
    l.apply = .error e ↔ FirstFault l.source.toList (l.ordered.map Edit.span) e := by
  rw [← checkSpans_eq_error_iff]
  unfold EditList.apply
  rcases checkSpans l.source.toList (l.ordered.map Edit.span) with e' | u <;> simp

/-! ## Starts that differ -/

theorem EditList.ordered_perm (l : EditList) : l.ordered.Perm l.edits := List.mergeSort_perm _ _

/-- Edits that start at different places are in order one way only. -/
theorem EditList.ordered_eq_of_perm {l m : EditList} (h : l.edits.Perm m.edits)
    (hstarts : (l.edits.map (fun e => e.span.start)).Nodup) : l.ordered = m.ordered := by
  refine List.Perm.eq_of_pairwise ?_ (inOrder_ordered l).sorted (inOrder_ordered m).sorted
    (l.ordered_perm.trans (h.trans m.ordered_perm.symm))
  intro e f he hf hef hfe
  have hel := l.ordered_perm.mem_iff.mp he
  have hfl := h.mem_iff.mpr (m.ordered_perm.mem_iff.mp hf)
  exact List.inj_on_of_nodup_map hstarts hel hfl (Nat.le_antisymm hef hfe)

theorem EditList.starts_increase {l : EditList}
    (hstarts : (l.edits.map (fun e => e.span.start)).Nodup) :
    l.ordered.Pairwise (fun e f => e.span.start < f.span.start) := by
  have hne := List.pairwise_map.mp ((l.ordered_perm.map _).nodup_iff.mpr hstarts)
  refine ((inOrder_ordered l).sorted.and hne).imp ?_
  rintro e f ⟨hle, hne⟩
  omega

/-! ## The law -/

/-- Edits that all start at different places give the same result in whatever order and steps they
are added: the same text, or the same error. The text is the source with the edits made by their
starts, and the error is the first fault among their spans, taken by their starts. -/
theorem edits_that_start_apart_may_be_added_in_any_order (source : String)
    (additions others : List Addition)
    (hperm : (additions.flatMap Addition.edits).Perm (others.flatMap Addition.edits))
    (hstarts : ((additions.flatMap Addition.edits).map (fun e => e.span.start)).Nodup) :
    let l := (EditList.ofSource source).steps additions
    let m := (EditList.ofSource source).steps others
    l.apply = m.apply ∧
      ∃ made : List Edit, made.Perm (additions.flatMap Addition.edits) ∧
        made.Pairwise (fun e f => e.span.start < f.span.start) ∧
        (∀ output, l.apply = .ok output ↔
          Cuttable source.toList (made.map Edit.span) ∧ copySlices source 0 made = some output) ∧
        ∀ e, l.apply = .error e ↔ FirstFault source.toList (made.map Edit.span) e := by
  intro l m
  have hl : l = ⟨source, additions.flatMap Addition.edits⟩ := by
    simp [l, EditList.steps_eq, EditList.ofSource]
  have hm : m = ⟨source, others.flatMap Addition.edits⟩ := by
    simp [m, EditList.steps_eq, EditList.ofSource]
  have hsource : l.source = source := by rw [hl]
  have hedits : l.edits = additions.flatMap Addition.edits := by rw [hl]
  rw [← hedits] at hstarts
  constructor
  · have hordered : l.ordered = m.ordered := by
      apply EditList.ordered_eq_of_perm _ hstarts
      rw [hl, hm]
      exact hperm
    unfold EditList.apply
    rw [hordered, hl, hm]
  · refine ⟨l.ordered, ?_, EditList.starts_increase hstarts, ?_, ?_⟩
    · rw [← hedits]
      exact l.ordered_perm
    · intro output
      rw [← hsource]
      exact EditList.apply_eq_ok_iff
    · intro e
      rw [← hsource]
      exact EditList.apply_eq_error_iff

/-- Beside the first edit one that starts inside a character, one that overlaps the first and one
that runs backwards. Of these three the one that starts first decides. -/
theorem a_fault_is_found_in_either_order :
    let additions : List Addition :=
      [.several [⟨⟨5, 3⟩, ""⟩, ⟨⟨0, 4⟩, "a"⟩], .one ⟨⟨3, 6⟩, "b"⟩, .one ⟨⟨1, 2⟩, "c"⟩]
    let others : List Addition :=
      [.one ⟨⟨0, 4⟩, "a"⟩, .one ⟨⟨1, 2⟩, "c"⟩, .several [⟨⟨3, 6⟩, "b"⟩, ⟨⟨5, 3⟩, ""⟩]]
    (additions.flatMap Addition.edits).Perm (others.flatMap Addition.edits) ∧
      ((EditList.ofSource "é = 1").steps additions).apply = .error (.notBoundary 1) ∧
      ((EditList.ofSource "é = 1").steps others).apply = .error (.notBoundary 1) := by
  intro additions others
  have hperm : (additions.flatMap Addition.edits).Perm (others.flatMap Addition.edits) := by decide
  have hlaw := edits_that_start_apart_may_be_added_in_any_order "é = 1" additions others hperm
    (by decide)
  have hfault : ((EditList.ofSource "é = 1").steps others).apply = .error (.notBoundary 1) := by
    unfold EditList.apply EditList.ordered
    rw [List.mergeSort_of_pairwise (by decide)]
    decide
  exact ⟨hperm, hlaw.1.trans hfault, hfault⟩

end LogSweep
