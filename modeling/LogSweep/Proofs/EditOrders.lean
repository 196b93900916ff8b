-- The order in which edits are made: by start, and those that start together as they were
-- added. The check puts only the spans in order and comes to the same verdict as the making;
-- what is made is the source with its spans replaced, copied slice by slice.
import LogSweep.Proofs.SpanEdits

namespace LogSweep

/-! ## The pure model -/

/-- One step of adding to an edit list. -/
inductive Addition
  | one (edit : Edit)
  | several (edits : List Edit)
  deriving DecidableEq, Repr

def Addition.edits : Addition → List Edit
  | .one e => [e]
  | .several es => es

/-- An edit list after one step. -/
def EditList.step (l : EditList) : Addition → EditList
  | .one e => l.add e
  | .several es => l.addAll es

/-- An edit list after some steps. -/
def EditList.steps (l : EditList) (additions : List Addition) : EditList :=
  additions.foldl EditList.step l

/-- `made` holds the edits of `added` by their starts. Those that start together stay as they
were added. -/
structure InOrder (added made : List Edit) : Prop where
  sorted : made.Pairwise (fun e f => e.span.start ≤ f.span.start)
  ties : ∀ n, made.filter (fun e => e.span.start = n) = added.filter (fun e => e.span.start = n)

/-- Makes edits by copying slices of the source from `cursor` on. There is no result when a slice
is out of range, runs backwards or cuts a character. -/
def copySlices (source : String) (cursor : Nat) : List Edit → Option String
  | [] => Span.slice? ⟨cursor, Text.byteLength source.toList⟩ source
  | e :: es => do
    let gap ← Span.slice? ⟨cursor, e.span.start⟩ source
    return gap ++ e.text ++ (← copySlices source e.span.stop es)

/-! ## Adding -/

theorem EditList.step_eq (l : EditList) (a : Addition) :
    l.step a = ⟨l.source, l.edits ++ a.edits⟩ := by
  cases a <;> rfl

theorem EditList.steps_eq (l : EditList) (additions : List Addition) :
    l.steps additions = ⟨l.source, l.edits ++ additions.flatMap Addition.edits⟩ := by
  unfold EditList.steps
  induction additions generalizing l with
  | nil => simp
  | cons a additions ih => simp [ih, EditList.step_eq]

/-! ## The order -/

theorem Edit.startsBefore_trans (e f g : Edit) (h : e.startsBefore f = true)
    (k : f.startsBefore g = true) : e.startsBefore g = true := by
  simp only [Edit.startsBefore, decide_eq_true_eq] at *
  omega

theorem Edit.startsBefore_total (e f : Edit) :
    (e.startsBefore f || f.startsBefore e) = true := by
  simp only [Edit.startsBefore, Bool.or_eq_true, decide_eq_true_eq]
  omega

theorem inOrder_ordered (l : EditList) : InOrder l.edits l.ordered := by
  constructor
  · refine (List.pairwise_mergeSort Edit.startsBefore_trans Edit.startsBefore_total l.edits).imp ?_
    intro e f hef
    simpa [Edit.startsBefore] using hef
  · intro n
    have htied : (l.edits.filter (fun e => e.span.start = n)).Pairwise
        (fun e f => e.startsBefore f = true) := by
      refine List.pairwise_of_forall_mem_list ?_
      intro e he f hf
      simp only [List.mem_filter, decide_eq_true_eq] at he hf
      simp only [Edit.startsBefore, decide_eq_true_eq]
      omega
    -- The sort keeps sorted sublists, and it has no other edits with this start.
    have hsub := List.sublist_mergeSort Edit.startsBefore_trans Edit.startsBefore_total htied
      List.filter_sublist
    have hfilter := hsub.filter (fun e => e.span.start = n)
    rw [List.filter_filter] at hfilter
    simp only [Bool.and_self] at hfilter
    refine (hfilter.eq_of_length ?_).symm
    exact ((List.mergeSort_perm l.edits _).filter _).length_eq.symm

/-- Lists with the same edits at each start hold the same edits. -/
theorem mem_iff_of_ties {es fs : List Edit}
    (h : ∀ n, es.filter (fun a => a.span.start = n) = fs.filter (fun a => a.span.start = n))
    (e : Edit) : e ∈ es ↔ e ∈ fs := by
  have hmem := congrArg (e ∈ ·) (h e.span.start)
  simpa [List.mem_filter] using hmem

/-- Lists in order with the same edits at each start begin with the same edit. -/
theorem head_eq_of_ties {e f : Edit} {es fs : List Edit}
    (hes : (e :: es).Pairwise (fun a b => a.span.start ≤ b.span.start))
    (hfs : (f :: fs).Pairwise (fun a b => a.span.start ≤ b.span.start))
    (h : ∀ n, (e :: es).filter (fun a => a.span.start = n) =
      (f :: fs).filter (fun a => a.span.start = n)) : e = f := by
  have hmem := mem_iff_of_ties h
  have hstart : e.span.start = f.span.start := by
    apply Nat.le_antisymm
    · rcases List.mem_cons.mp ((hmem f).mpr (by simp)) with hfe | hf
      · exact Nat.le_of_eq (by rw [hfe])
      · exact (List.pairwise_cons.mp hes).1 f hf
    · rcases List.mem_cons.mp ((hmem e).mp (by simp)) with hef | he
      · exact Nat.le_of_eq (by rw [hef])
      · exact (List.pairwise_cons.mp hfs).1 e he
  have hfirst := h e.span.start
  simp only [List.filter_cons, decide_true, if_true, hstart] at hfirst
  exact (List.cons.inj hfirst).1

theorem eq_of_ties {es fs : List Edit}
    (hes : es.Pairwise (fun a b => a.span.start ≤ b.span.start))
    (hfs : fs.Pairwise (fun a b => a.span.start ≤ b.span.start))
    (h : ∀ n, es.filter (fun a => a.span.start = n) = fs.filter (fun a => a.span.start = n)) :
    es = fs := by
  induction es generalizing fs with
  | nil =>
    rcases fs with _ | ⟨f, fs⟩
    · rfl
    · have hf := h f.span.start
      simp at hf
  | cons e es ih =>
    rcases fs with _ | ⟨f, fs⟩
    · have he := h e.span.start
      simp at he
    · obtain rfl := head_eq_of_ties hes hfs h
      congr 1
      apply ih (List.pairwise_cons.mp hes).2 (List.pairwise_cons.mp hfs).2
      intro n
      have hn := h n
      rw [List.filter_cons, List.filter_cons] at hn
      split at hn
      · exact (List.cons.inj hn).2
      · exact hn

/-- There is one order in which edits are made. -/
theorem inOrder_iff (l : EditList) (es : List Edit) : InOrder l.edits es ↔ es = l.ordered := by
  have hl := inOrder_ordered l
  constructor
  · intro h
    apply eq_of_ties h.sorted hl.sorted
    intro n
    rw [h.ties n, hl.ties n]
  · rintro rfl
    exact hl

/-! ## The check and the making -/

/-- Spans put in order by themselves are the spans of the edits in order. -/
theorem EditList.validate_eq (l : EditList) :
    l.validate = checkSpans l.source.toList (l.ordered.map Edit.span) := by
  unfold EditList.validate EditList.ordered
  rw [List.map_mergeSort]
  intro e _ f _
  rfl

theorem EditList.validate_eq_map_apply (l : EditList) : l.validate = l.apply.map (fun _ => ()) := by
  rw [l.validate_eq]
  unfold EditList.apply
  rcases checkSpans l.source.toList (l.ordered.map Edit.span) with e | u <;> rfl

theorem EditList.exists_apply_iff (l : EditList) :
    (∃ output, l.apply = .ok output) ↔ Cuttable l.source.toList (l.ordered.map Edit.span) := by
  rw [← checkSpans_eq_ok_iff]
  unfold EditList.apply
  rcases checkSpans l.source.toList (l.ordered.map Edit.span) with e | u <;> simp

theorem EditList.apply_of_cut {l : EditList} {c : Cut} (htext : c.text = l.source)
    (hspans : c.spans = l.ordered.map Edit.span)
    (h : Cuttable l.source.toList (l.ordered.map Edit.span)) :
    l.apply = .ok (c.fillWith (l.ordered.map Edit.text)) := by
  unfold EditList.apply
  rw [checkSpans_eq_ok_iff.mpr h, ← htext, c.splice_eq hspans.symm]
  simp

/-! ## Copying slices -/

/-- What is left of a source after `front` is copied with the texts in place of the parts. -/
theorem copySlices_pieces (front gap : String) (ps : List Piece) {es : List Edit}
    (h : es.map Edit.span =
      Cut.spansFrom (Text.byteLength front.toList + Text.byteLength gap.toList) ps) :
    copySlices (front ++ (gap ++ Cut.fillPieces id ps)) (Text.byteLength front.toList) es =
      some (gap ++ Cut.fillPiecesWith (es.map Edit.text) ps) := by
  induction ps generalizing front gap es with
  | nil =>
    rw [Cut.spansFrom, List.map_eq_nil_iff] at h
    subst h
    have hslice := Cut.slice?_part front gap ""
    simp only [copySlices, Cut.fillPieces, List.map_nil, Cut.fillPiecesWith, String.append_empty,
      String.toList_append, Text.byteLength_append] at hslice ⊢
    exact hslice
  | cons p ps ih =>
    rw [Cut.spansFrom, List.map_eq_cons_iff] at h
    obtain ⟨e, es, rfl, hspan, hrest⟩ := h
    have hsource : front ++ (gap ++ Cut.fillPieces id (p :: ps)) =
        front ++ gap ++ p.part ++ (p.gap ++ Cut.fillPieces id ps) := by
      simp [Cut.fillPieces, String.append_assoc]
    have hgap : Span.slice? ⟨Text.byteLength front.toList, e.span.start⟩
        (front ++ (gap ++ Cut.fillPieces id (p :: ps))) = some gap := by
      rw [hspan, ← String.append_assoc]
      exact Cut.slice?_part front gap _
    have hstop : e.span.stop = Text.byteLength (front ++ gap ++ p.part).toList := by
      rw [hspan, String.toList_append, String.toList_append, Text.byteLength_append,
        Text.byteLength_append]
    have hafter : es.map Edit.span = Cut.spansFrom
        (Text.byteLength (front ++ gap ++ p.part).toList + Text.byteLength p.gap.toList) ps := by
      rw [hrest, ← hstop, hspan]
    have hlater := ih (front ++ gap ++ p.part) p.gap hafter
    rw [← hsource, ← hstop] at hlater
    simp only [copySlices, hgap, hlater, Option.bind_eq_bind, Option.bind_some, Option.pure_def]
    simp [Cut.fillPiecesWith, String.append_assoc]

theorem Cut.copySlices_eq (c : Cut) {es : List Edit} (h : es.map Edit.span = c.spans) :
    copySlices c.text 0 es = some (c.fillWith (es.map Edit.text)) := by
  have hspans : es.map Edit.span =
      Cut.spansFrom (Text.byteLength "".toList + Text.byteLength c.opening.toList) c.pieces := by
    rw [h]
    simp [Cut.spans, Text.byteLength]
  have hall := copySlices_pieces "" c.opening c.pieces hspans
  simpa [Cut.text, Cut.fill, Cut.fillWith, Text.byteLength] using hall

/-! ## The law -/

/-- However edits were added, the check and the making succeed together or fail with the same
error. They succeed exactly when the edits, in the one order by start that keeps ties as added,
have spans that fit the source and none of which reaches into a later one. Then the output is
the source with the spans cut out and the texts put in, and every slice that is copied exists. -/
theorem edits_are_made_when_their_spans_stand_apart (source : String)
    (additions : List Addition) :
    let l := (EditList.ofSource source).steps additions
    ∃ made, (∀ es, InOrder (additions.flatMap Addition.edits) es ↔ es = made) ∧
      l.validate = l.apply.map (fun _ => ()) ∧
      ((∃ output, l.apply = .ok output) ↔ Cuttable source.toList (made.map Edit.span)) ∧
      ∀ output, l.apply = .ok output →
        (∃ c : Cut, c.text = source ∧ c.spans = made.map Edit.span ∧
          output = c.fillWith (made.map Edit.text)) ∧
        copySlices source 0 made = some output := by
  intro l
  have hl : l = ⟨source, additions.flatMap Addition.edits⟩ := by
    simp [l, EditList.steps_eq, EditList.ofSource]
  have hsource : l.source = source := by rw [hl]
  have hedits : l.edits = additions.flatMap Addition.edits := by rw [hl]
  refine ⟨l.ordered, ?_, l.validate_eq_map_apply, ?_, ?_⟩
  · rw [← hedits]
    exact inOrder_iff l
  · rw [← hsource]
    exact l.exists_apply_iff
  · intro output hout
    have hcut := l.exists_apply_iff.mp ⟨output, hout⟩
    obtain ⟨c, htext, hspans⟩ := hcut.exists_cut
    rw [EditList.apply_of_cut htext hspans hcut, Except.ok.injEq] at hout
    refine ⟨⟨c, htext.trans hsource, hspans, hout.symm⟩, ?_⟩
    rw [← hsource, ← htext, c.copySlices_eq hspans.symm, hout]

/-- Two insertions at one place stay as they were added, behind an edit that was added later. -/
theorem edits_added_out_of_order_are_made :
    let additions : List Addition :=
      [.one ⟨⟨5, 6⟩, "2"⟩, .several [⟨⟨2, 2⟩, "x"⟩, ⟨⟨0, 2⟩, "e"⟩, ⟨⟨2, 2⟩, "y"⟩]]
    let l := (EditList.ofSource "é = 1").steps additions
    l.apply = .ok "exy = 2" ∧ l.validate = .ok () ∧
      ∃ made, InOrder (additions.flatMap Addition.edits) made ∧
        copySlices "é = 1" 0 made = some "exy = 2" := by
  intro additions l
  have hordered : l.ordered =
      [⟨⟨0, 2⟩, "e"⟩, ⟨⟨2, 2⟩, "x"⟩, ⟨⟨2, 2⟩, "y"⟩, ⟨⟨5, 6⟩, "2"⟩] := by
    simp [l, additions, EditList.steps_eq, EditList.ordered, EditList.ofSource, Addition.edits,
      List.mergeSort, List.MergeSort.Internal.splitInTwo, Edit.startsBefore]
  have happly : l.apply = .ok "exy = 2" := by
    unfold EditList.apply
    rw [hordered]
    decide
  obtain ⟨made, hmade, hvalidate, _, hmaking⟩ :=
    edits_are_made_when_their_spans_stand_apart "é = 1" additions
  refine ⟨happly, ?_, made, (hmade made).mpr rfl, (hmaking _ happly).2⟩
  rw [hvalidate, happly]
  rfl

end LogSweep
