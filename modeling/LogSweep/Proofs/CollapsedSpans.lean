-- The collapse of spans. Each span is compared with the last one kept and with no other. Among
-- spans sorted by start that is enough: the last one kept reaches at least as far as every span
-- before it, so a span inside any earlier one is inside the last one kept.
import Mathlib.Data.List.Induction
import LogSweep.Matching

namespace LogSweep

/-! ## One turn -/

theorem collapseAfter_concat (last : Option Span) (spans : List Span) (s : Span) :
    collapseAfter last (spans ++ [s]) = collapseAfter last spans ++
      collapseAfter ((collapseAfter last spans).getLast?.or last) [s] := by
  induction spans generalizing last with
  | nil => rfl
  | cons x spans ih =>
    -- Once `x` is kept, the last one kept is `x` or comes after it.
    have hkeep : x :: collapseAfter (some x) (spans ++ [s]) = x :: collapseAfter (some x) spans ++
        collapseAfter ((x :: collapseAfter (some x) spans).getLast?.or last) [s] := by
      rw [ih, List.getLast?_cons, Option.some_or, Option.or_some, List.cons_append]
    rcases last with _ | k
    · exact hkeep
    · simp only [List.cons_append, collapseAfter]
      split
      · exact ih (some k)
      · exact hkeep

/-- One more span goes when the last one kept contains it, and stays otherwise. -/
theorem collapseNested_concat (spans : List Span) (s : Span) :
    collapseNested (spans ++ [s]) =
      if (collapseNested spans).getLast?.any (fun k => k.contains s) then collapseNested spans
      else collapseNested spans ++ [s] := by
  unfold collapseNested
  rw [collapseAfter_concat, Option.or_none]
  rcases (collapseAfter none spans).getLast? with _ | k
  · simp [collapseAfter]
  · by_cases hin : k.contains s = true
    · simp [collapseAfter, hin]
    · simp [collapseAfter, hin]

/-! ## Every list -/

theorem collapseNested_sublist (spans : List Span) : (collapseNested spans).Sublist spans := by
  induction spans using List.reverseRecOn with
  | nil => exact List.Sublist.refl _
  | append_singleton spans s ih =>
    rw [collapseNested_concat]
    split
    · exact ih.trans (List.sublist_append_left _ _)
    · exact ih.append_right _

theorem mem_of_last_kept {spans : List Span} {k : Span}
    (h : (collapseNested spans).getLast? = some k) : k ∈ spans :=
  (collapseNested_sublist spans).subset (List.mem_of_getLast? h)

/-- Each span lies inside one that is kept. -/
theorem exists_kept_contains {spans : List Span} {u : Span} (hu : u ∈ spans) :
    ∃ k ∈ collapseNested spans, k.contains u = true := by
  induction spans using List.reverseRecOn with
  | nil => simp at hu
  | append_singleton spans s ih =>
    rw [collapseNested_concat]
    rw [List.mem_append, List.mem_singleton] at hu
    split
    · rename_i hin
      rcases hu with hu | rfl
      · exact ih hu
      · obtain ⟨k, hk, hku⟩ := (Option.any_eq_true _ _).mp hin
        exact ⟨k, List.mem_of_getLast? hk, hku⟩
    · rcases hu with hu | rfl
      · obtain ⟨k, hk, hku⟩ := ih hu
        exact ⟨k, List.mem_append_left _ hk, hku⟩
      · exact ⟨u, by simp, Span.contains_refl u⟩

/-- What is kept is kept again, since each span meets the same last one as before. -/
theorem collapseNested_idem (spans : List Span) :
    collapseNested (collapseNested spans) = collapseNested spans := by
  induction spans using List.reverseRecOn with
  | nil => rfl
  | append_singleton spans s ih =>
    rw [collapseNested_concat]
    split
    · exact ih
    · rename_i hout
      rw [collapseNested_concat, ih, if_neg hout]

/-! ## Lists sorted by start -/

/-- The spans that lie inside none of those before them. -/
def uncovered (spans : List Span) : List Span :=
  (spans.zipIdx.filter (fun p => !(spans.take p.2).any (fun u => u.contains p.1))).map Prod.fst

theorem uncovered_concat (spans : List Span) (s : Span) :
    uncovered (spans ++ [s]) =
      if spans.any (fun u => u.contains s) then uncovered spans else uncovered spans ++ [s] := by
  have hbefore : spans.zipIdx.filter
        (fun p => !((spans ++ [s]).take p.2).any (fun u => u.contains p.1)) =
      spans.zipIdx.filter (fun p => !(spans.take p.2).any (fun u => u.contains p.1)) := by
    apply List.filter_congr
    rintro ⟨u, i⟩ hu
    have hi : i < spans.length := List.snd_lt_of_mem_zipIdx hu
    rw [List.take_append_of_le_length (Nat.le_of_lt hi)]
  unfold uncovered
  rw [List.zipIdx_append, List.filter_append, List.map_append, hbefore]
  by_cases hin : spans.any (fun u => u.contains s) = true
  · simp [hin]
  · simp [hin]

/-- Among sorted spans the last one kept ends no sooner than any of them. -/
theorem exists_last_kept {spans : List Span}
    (h : spans.Pairwise (fun s u => s.start ≤ u.start)) {u : Span} (hu : u ∈ spans) :
    ∃ k, (collapseNested spans).getLast? = some k ∧ u.stop ≤ k.stop := by
  induction spans using List.reverseRecOn generalizing u with
  | nil => simp at hu
  | append_singleton spans s ih =>
    obtain ⟨hspans, _, hs⟩ := List.pairwise_append.mp h
    rw [collapseNested_concat]
    rw [List.mem_append, List.mem_singleton] at hu
    split
    · rename_i hin
      rcases hu with hu | rfl
      · exact ih hspans hu
      · obtain ⟨k, hk, hku⟩ := (Option.any_eq_true _ _).mp hin
        exact ⟨k, hk, ((Span.contains_iff _ _).mp hku).2⟩
    · rename_i hout
      refine ⟨s, List.getLast?_concat, ?_⟩
      rcases hu with hu | rfl
      · obtain ⟨k, hk, huk⟩ := ih hspans hu
        have hstart := hs k (mem_of_last_kept hk) s (by simp)
        have hks : ¬ k.contains s = true := by simpa [hk] using hout
        rw [Span.contains_iff] at hks
        omega
      · exact Nat.le_refl _

/-- So a span inside any of the sorted spans before it is inside the last one kept. -/
theorem last_kept_contains_eq {spans : List Span} {s : Span}
    (h : (spans ++ [s]).Pairwise (fun s u => s.start ≤ u.start)) :
    (collapseNested spans).getLast?.any (fun k => k.contains s) =
      spans.any (fun u => u.contains s) := by
  obtain ⟨hspans, _, hs⟩ := List.pairwise_append.mp h
  rw [Bool.eq_iff_iff, Option.any_eq_true, List.any_eq_true]
  constructor
  · rintro ⟨k, hk, hks⟩
    exact ⟨k, mem_of_last_kept hk, hks⟩
  · rintro ⟨u, hu, hus⟩
    obtain ⟨k, hk, huk⟩ := exists_last_kept hspans hu
    have hstart := hs k (mem_of_last_kept hk) s (by simp)
    refine ⟨k, hk, ?_⟩
    rw [Span.contains_iff] at hus ⊢
    omega

theorem collapseNested_eq_uncovered {spans : List Span}
    (h : spans.Pairwise (fun s u => s.start ≤ u.start)) :
    collapseNested spans = uncovered spans := by
  induction spans using List.reverseRecOn with
  | nil => rfl
  | append_singleton spans s ih =>
    rw [collapseNested_concat, uncovered_concat, last_kept_contains_eq h,
      ih (List.pairwise_append.mp h).1]

theorem stops_of_kept_increase {spans : List Span}
    (h : spans.Pairwise (fun s u => s.start ≤ u.start)) :
    (collapseNested spans).Pairwise (fun s u => s.stop < u.stop) := by
  induction spans using List.reverseRecOn with
  | nil => exact List.Pairwise.nil
  | append_singleton spans s ih =>
    obtain ⟨hspans, _, hs⟩ := List.pairwise_append.mp h
    rw [collapseNested_concat, last_kept_contains_eq h]
    split
    · exact ih hspans
    · rename_i hout
      refine List.pairwise_append.mpr ⟨ih hspans, List.pairwise_singleton _ _, ?_⟩
      intro u hu t ht
      rw [List.mem_singleton] at ht
      subst ht
      have hmem := (collapseNested_sublist spans).subset hu
      have hstart := hs u hmem t (by simp)
      have hut : ¬ u.contains t = true := by
        intro hin
        exact hout (List.any_eq_true.mpr ⟨u, hmem, hin⟩)
      rw [Span.contains_iff] at hut
      omega

/-! ## The law -/

/-- Of spans sorted by start, whatever the order of ties and whether they run forward or not, the
collapse keeps those that lie inside none of the spans before them, as they stand, and each of
these ends after the one before it. Of every list it keeps some spans in their order; each span lies
inside one of these, and to collapse them again changes nothing. -/
theorem a_collapse_keeps_what_no_earlier_span_contains (spans : List Span) :
    (spans.Pairwise (fun s u => s.start ≤ u.start) →
      collapseNested spans = uncovered spans ∧
      (collapseNested spans).Pairwise (fun s u => s.stop < u.stop)) ∧
    (collapseNested spans).Sublist spans ∧
    (∀ s ∈ spans, ∃ k ∈ collapseNested spans, k.contains s = true) ∧
    collapseNested (collapseNested spans) = collapseNested spans := by
  refine ⟨?_, collapseNested_sublist spans, ?_, collapseNested_idem spans⟩
  · intro h
    exact ⟨collapseNested_eq_uncovered h, stops_of_kept_increase h⟩
  · intro s hs
    exact exists_kept_contains hs

/-- Two spans with one start, the shorter first; one over the end of another; one that runs
backwards; one that is empty. -/
theorem ties_and_overlaps_are_kept :
    let spans : List Span := [⟨0, 4⟩, ⟨0, 9⟩, ⟨2, 5⟩, ⟨4, 12⟩, ⟨7, 3⟩, ⟨12, 12⟩]
    spans.Pairwise (fun s u => s.start ≤ u.start) ∧
      uncovered spans = [⟨0, 4⟩, ⟨0, 9⟩, ⟨4, 12⟩] ∧
      collapseNested spans = [⟨0, 4⟩, ⟨0, 9⟩, ⟨4, 12⟩] := by
  intro spans
  have hsorted : spans.Pairwise (fun s u => s.start ≤ u.start) := by decide
  have huncovered : uncovered spans = [⟨0, 4⟩, ⟨0, 9⟩, ⟨4, 12⟩] := by decide
  have hlaw := (a_collapse_keeps_what_no_earlier_span_contains spans).1 hsorted
  exact ⟨hsorted, huncovered, hlaw.1.trans huncovered⟩

/-- Unsorted, a span may be kept although an earlier one contains it. -/
example : collapseNested [⟨5, 9⟩, ⟨0, 3⟩, ⟨6, 7⟩] = [⟨5, 9⟩, ⟨0, 3⟩, ⟨6, 7⟩] ∧
    uncovered [⟨5, 9⟩, ⟨0, 3⟩, ⟨6, 7⟩] = [⟨5, 9⟩, ⟨0, 3⟩] := by decide

end LogSweep
