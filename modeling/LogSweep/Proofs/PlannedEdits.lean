-- Planned edits. A plan is refused exactly when the matches do not pass the check, and replacing is
-- refused exactly when planning is: the edits grow over semicolons after the check, but no further
-- than the next match, so the check that the making repeats lets them pass.
import LogSweep.Proofs.EditOrders

namespace LogSweep

/-! ## One edit of a plan -/

/-- `e` is the edit for the match `s`, with the matches of `later` behind it. -/
structure Edit.Replaces (source : String) (replace : String → String) (extend : Bool) (s : Span)
    (later : List Span) (e : Edit) : Prop where
  stop_eq : e.span.stop =
    if extend then extendToSemicolon source s.stop (growthLimit source later) else s.stop
  grows : s.GrowsTo source extend e.span
  reaches : s.stop ≤ e.span.stop
  stop_le : e.span.stop ≤ growthLimit source later
  fits : e.span.FitsIn source.toList
  text : ∃ part, e.span.slice? source = some part ∧ e.text = replace part

theorem Span.FitsIn.exists_slice? {source : String} {s : Span} (h : s.FitsIn source.toList) :
    ∃ part, s.slice? source = some part := by
  obtain ⟨front, part, back, hsource, hstart, hstop⟩ :=
    Text.exists_three_parts h.startBoundary h.stopBoundary h.forward
  refine ⟨String.ofList part, ?_⟩
  rw [Span.slice?, hsource, ← hstart, ← hstop, Text.slice?_middle, Option.map_some]

/-- A match that fits and ends before the later ones gets an edit that does so too. -/
theorem Span.FitsIn.replaces {source : String} {s : Span} {later : List Span}
    (h : s.FitsIn source.toList) (hlimit : s.stop ≤ growthLimit source later)
    (replace : String → String) (extend : Bool) :
    let g : Span := ⟨s.start,
      if extend then extendToSemicolon source s.stop (growthLimit source later) else s.stop⟩
    Edit.Replaces source replace extend s later ⟨g, replace ((g.slice? source).getD "")⟩ := by
  intro g
  obtain ⟨hgrows, hfits, hle⟩ := h.grow extend hlimit
  obtain ⟨part, hpart⟩ := hfits.exists_slice?
  have hreaches := ((Span.contains_iff _ _).mp hgrows.contains).2
  exact ⟨rfl, hgrows, hreaches, hle, hfits, part, hpart, by rw [hpart, Option.getD_some]⟩

/-! ## A whole plan -/

theorem getElem?_grownSpans (source : String) (extend : Bool) (before : List Span) (s : Span)
    (later : List Span) :
    (grownSpans source extend (before ++ s :: later))[before.length]? =
      some ⟨s.start,
        if extend then extendToSemicolon source s.stop (growthLimit source later) else s.stop⟩ := by
  induction before with
  | nil => rfl
  | cons b before ih => simpa [grownSpans] using ih

theorem length_grownSpans (source : String) (extend : Bool) (found : List Span) :
    (grownSpans source extend found).length = found.length := by
  induction found with
  | nil => rfl
  | cons s rest ih => simpa [grownSpans] using ih

theorem Cuttable.behind {source : List Char} {before rest : List Span}
    (h : Cuttable source (before ++ rest)) : Cuttable source rest := by
  induction before with
  | nil => exact h
  | cons b before ih => exact ih h.tail

theorem Cuttable.exists_replaces {source : String} {before later : List Span} {s : Span}
    (h : Cuttable source.toList (before ++ s :: later)) (replace : String → String)
    (extend : Bool) :
    ∃ e, (planFrom source replace extend (before ++ s :: later))[before.length]? = some e ∧
      e.Replaces source replace extend s later := by
  have hs := h.behind
  refine ⟨_, ?_, (hs.fits s (by simp)).replaces hs.stop_le_growthLimit replace extend⟩
  rw [planFrom_eq, List.getElem?_map, getElem?_grownSpans, Option.map_some]

/-! ## Plans and their making -/

theorem planEdits_eq (source : String) (found : List Span) (replace : String → String)
    (extend : Bool) :
    planEdits source found replace extend =
      (checkSpans source.toList found).map (fun _ => planFrom source replace extend found) := by
  unfold planEdits
  cases checkSpans source.toList found <;> rfl

theorem planEdits_eq_error_iff {source : String} {found : List Span} {replace : String → String}
    {extend : Bool} {e : EditError} :
    planEdits source found replace extend = .error e ↔
      checkSpans source.toList found = .error e := by
  rw [planEdits_eq]
  cases checkSpans source.toList found <;> simp [Except.map]

theorem planEdits_eq_ok_iff {source : String} {found : List Span} {replace : String → String}
    {extend : Bool} {edits : List Edit} :
    planEdits source found replace extend = .ok edits ↔
      Cuttable source.toList found ∧ planFrom source replace extend found = edits := by
  rw [planEdits_eq, ← checkSpans_eq_ok_iff]
  cases checkSpans source.toList found <;> simp [Except.map]

theorem replaceMatches_of_error {source : String} {found : List Span} {replace : String → String}
    {extend : Bool} {e : EditError} (h : planEdits source found replace extend = .error e) :
    replaceMatches source found replace extend = .error e := by
  unfold replaceMatches
  rw [h]
  rfl

/-- What was planned can be made: the second check passes and the cut is filled. -/
theorem replaceMatches_of_ok {source : String} {found : List Span} {replace : String → String}
    {extend : Bool} {edits : List Edit} (h : planEdits source found replace extend = .ok edits) :
    ∃ c : Cut, c.text = source ∧ c.spans = edits.map Edit.span ∧
      ((EditList.ofSource source).addAll edits).apply = .ok (c.fill replace) ∧
      replaceMatches source found replace extend = .ok (c.fill replace) := by
  obtain ⟨c, rfl, _, hcut, hplan⟩ :=
    planEdits_of_cuttable (planEdits_eq_ok_iff.mp h).1 replace extend
  rw [h, Except.ok.injEq] at hplan
  subst hplan
  have happly := c.apply_edits hcut replace
  refine ⟨c, rfl, (c.edits_span replace).symm, happly, ?_⟩
  unfold replaceMatches
  rw [h]
  exact happly

theorem replaceMatches_eq_error_iff {source : String} {found : List Span}
    {replace : String → String} {extend : Bool} {e : EditError} :
    replaceMatches source found replace extend = .error e ↔
      planEdits source found replace extend = .error e := by
  constructor
  · intro h
    rcases hplan : planEdits source found replace extend with e' | edits
    · rw [replaceMatches_of_error hplan] at h
      cases h
      rfl
    · obtain ⟨c, _, _, _, hok⟩ := replaceMatches_of_ok hplan
      rw [hok] at h
      cases h
  · exact replaceMatches_of_error

/-! ## The law -/

/-- Replacing matches fails exactly when planning does, with the error that the check of the matches
gives. A plan that succeeds has one edit for each match: from the same start on, up to the end of
the match or the semicolon after it, never past the next match or the end of the source, always
between two characters and with what the replacement makes of exactly that slice. So the check of
the planned edits cannot fail, and the output is the source with these slices replaced. -/
theorem a_plan_for_valid_matches_can_be_made (source : String) (found : List Span)
    (replace : String → String) (extend : Bool) :
    (∀ e, replaceMatches source found replace extend = .error e ↔
      planEdits source found replace extend = .error e) ∧
    (∀ e, planEdits source found replace extend = .error e ↔
      checkSpans source.toList found = .error e) ∧
    ∀ edits, planEdits source found replace extend = .ok edits →
      edits.length = found.length ∧
      (∀ before s later, found = before ++ s :: later →
        ∃ e, edits[before.length]? = some e ∧ e.Replaces source replace extend s later) ∧
      ((EditList.ofSource source).addAll edits).validate = .ok () ∧
      ∃ c : Cut, c.text = source ∧ c.spans = edits.map Edit.span ∧
        replaceMatches source found replace extend = .ok (c.fill replace) := by
  refine ⟨fun e => replaceMatches_eq_error_iff, fun e => planEdits_eq_error_iff, ?_⟩
  intro edits h
  obtain ⟨hcut, rfl⟩ := planEdits_eq_ok_iff.mp h
  obtain ⟨c, htext, hspans, happly, hok⟩ := replaceMatches_of_ok h
  refine ⟨?_, ?_, ?_, c, htext, hspans, hok⟩
  · rw [planFrom_eq, List.length_map, length_grownSpans]
  · rintro before s later rfl
    exact hcut.exists_replaces replace extend
  · rw [EditList.validate_eq_map_apply, happly]
    rfl

/-- A match that grows up to the next one, an empty match there and a match that touches it. -/
theorem touching_matches_grow_apart :
    let found : List Span := [⟨0, 2⟩, ⟨4, 4⟩, ⟨4, 8⟩]
    let edits : List Edit := [⟨⟨0, 4⟩, "/* é ; */"⟩, ⟨⟨4, 4⟩, "/*  */"⟩, ⟨⟨4, 9⟩, "/* f(2); */"⟩]
    planEdits "é ;f(2);" found (fun s => "/* " ++ s ++ " */") true = .ok edits ∧
      ((EditList.ofSource "é ;f(2);").addAll edits).validate = .ok () := by
  intro found edits
  have hplan : planEdits "é ;f(2);" found (fun s => "/* " ++ s ++ " */") true = .ok edits := by
    decide
  have hlaw := a_plan_for_valid_matches_can_be_made "é ;f(2);" found
    (fun s => "/* " ++ s ++ " */") true
  exact ⟨hplan, (hlaw.2.2 edits hplan).2.2.1⟩

end LogSweep
