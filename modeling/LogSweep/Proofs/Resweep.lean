-- Sweeping what a sweep wrote. A second sweep rests exactly when the reading of the new text has
-- no targeted call. The first sweep puts every call that it read into a comment, but the text
-- around the comments may be read anew: two lines may join, and a word may grow by `null`.
import LogSweep.Proofs.CalmReadings
import LogSweep.Proofs.SweepShape

namespace LogSweep

/-! ## Quiet texts -/

/-- The text can be read, and nothing in it is targeted. -/
def Quiet [Grammar] (targets : TargetSet) (text : String) : Prop :=
  ∃ t, syntaxTree text = .ok t ∧ ∀ n ∈ t.nodes, ¬ n.Targeted targets

instance [Grammar] (targets : TargetSet) (text : String) : Decidable (Quiet targets text) :=
  inferInstanceAs (Decidable (∃ t, syntaxTree text = .ok t ∧ ∀ n ∈ t.nodes, ¬ n.Targeted targets))

theorem findMatches_eq_nil_iff {t : SyntaxTree} {targets : TargetSet} :
    findMatches t.breadthFirst targets = [] ↔ ∀ n ∈ t.nodes, ¬ n.Targeted targets := by
  constructor
  · intro h n hn ht
    obtain ⟨s, hs, _⟩ := exists_findMatches_contains (t.breadthFirst_perm.mem_iff.mpr hn) ht
    simp [h] at hs
  · intro h
    have hnone : t.breadthFirst.filterMap (matchedCall? targets) = [] := by
      rw [List.filterMap_eq_nil_iff]
      intro n hn
      exact SyntaxTree.matchedCall?_eq_none_iff.mpr (h n (t.breadthFirst_perm.mem_iff.mp hn))
    rw [findMatches, hnone, List.mergeSort_nil]
    rfl

/-- A sweep replaces as many spans as it finds. -/
theorem replaced_eq_nil_iff {source : String} {found : List Span} {replace : String → String}
    {removeSemicolon : Bool} {o : Outcome}
    (h : sweepMatches source found replace removeSemicolon = .ok o) :
    o.replaced = [] ↔ found = [] := by
  obtain ⟨c, _, hspans, heq⟩ :=
    sweepMatches_of_cuttable (cuttable_of_sweepMatches h) replace removeSemicolon
  rw [h, Except.ok.injEq] at heq
  rw [heq]
  simp only [hspans]
  cases found <;> simp [grownSpans]

/-- A sweep replaces nothing exactly where nothing is targeted. -/
theorem replaced_eq_nil_iff_quiet [Grammar] {source : String} {targets : TargetSet}
    {replace : String → String} {removeSemicolon : Bool} {o : Outcome}
    (h : sweepWith source targets replace removeSemicolon = .ok o) :
    o.replaced = [] ↔ Quiet targets source := by
  obtain ⟨t, ht, hsweep⟩ := sweepWith_eq_ok_iff.mp h
  rw [replaced_eq_nil_iff hsweep, findMatches_eq_nil_iff]
  constructor
  · exact fun hquiet => ⟨t, ht, hquiet⟩
  · rintro ⟨t', ht', hquiet⟩
    rw [ht, Except.ok.injEq] at ht'
    exact ht' ▸ hquiet

/-- A quiet text is swept, and stays as it is. -/
theorem Quiet.sweepWith_eq [Grammar] {targets : TargetSet} {source : String}
    (h : Quiet targets source) (replace : String → String) (removeSemicolon : Bool) :
    sweepWith source targets replace removeSemicolon = .ok ⟨source, []⟩ := by
  obtain ⟨t, ht, hquiet⟩ := h
  have hfound := findMatches_eq_nil_iff.mpr hquiet
  have hcut : Cuttable source.toList [] := ⟨by simp, List.Pairwise.nil⟩
  obtain ⟨c, htext, hspans, hsweep⟩ := sweepMatches_of_cuttable hcut replace removeSemicolon
  refine sweepWith_eq_ok_iff.mpr ⟨t, ht, ?_⟩
  rw [hfound, hsweep, c.fill_eq_text hspans, htext, hspans]
  rfl

/-! ## What the first sweep leaves -/

/-- Every call that the reading of the source shows as targeted is inside a replaced span. -/
theorem exists_replaced_contains [Grammar] {source : String} {targets : TargetSet}
    {replace : String → String} {removeSemicolon : Bool} {o : Outcome} {t n : SyntaxTree}
    (h : sweepWith source targets replace removeSemicolon = .ok o) (ht : syntaxTree source = .ok t)
    (hn : n ∈ t.nodes) (hnt : n.Targeted targets) :
    ∃ s ∈ o.replaced, s.contains n.span = true := by
  obtain ⟨t', ht', hsweep⟩ := sweepWith_eq_ok_iff.mp h
  rw [ht, Except.ok.injEq] at ht'
  subst ht'
  have hfound := cuttable_of_sweepMatches hsweep
  obtain ⟨c, _, hspans, heq⟩ := sweepMatches_of_cuttable hfound replace removeSemicolon
  rw [hsweep, Except.ok.injEq] at heq
  obtain ⟨s, hs, hin⟩ := exists_findMatches_contains (t.breadthFirst_perm.mem_iff.mpr hn) hnt
  obtain ⟨g, hg, hgrows⟩ := exists_right_of_mem (hfound.grow removeSemicolon).1 hs
  refine ⟨g, ?_, Span.contains_trans hgrows.contains hin⟩
  rw [heq]
  simp only [hspans]
  exact hg

/-- A strategy that makes every call longer changes the text wherever it replaces something. -/
theorem output_eq_iff [Grammar] {source : String} {targets : TargetSet} {replace : String → String}
    {removeSemicolon : Bool} {o : Outcome} {k : Nat}
    (h : sweepWith source targets replace removeSemicolon = .ok o)
    (hlonger : ∀ call, (replace call).length = call.length + (k + 1)) :
    o.output = source ↔ o.replaced = [] := by
  obtain ⟨c, rfl, hspans, hout⟩ := exists_cut_of_sweepWith h
  rw [← hspans, hout]
  constructor
  · intro heq
    have hlength := c.length_fill hlonger
    rw [heq] at hlength
    have hzero : (k + 1) * c.spans.length = 0 := by omega
    rw [Nat.mul_eq_zero] at hzero
    exact List.length_eq_zero_iff.mp (hzero.resolve_left (by omega))
  · exact fun hnil => c.fill_eq_text hnil replace

theorem length_comment (call : String) :
    (Strategy.comment.apply call).length = call.length + 6 := by
  simp only [Strategy.apply, String.length_append]
  have h1 : "/* ".length = 3 := rfl
  have h2 : " */".length = 3 := rfl
  omega

/-! ## Calls that stand alone -/

/-- Around the parts there are only blanks, semicolons and closed comments, and no part holds the
end of a comment. -/
structure Cut.Alone (c : Cut) : Prop where
  opening : Script.Calm false c.opening.toList
  gaps : ∀ p ∈ c.pieces, Script.Calm false p.gap.toList
  parts : ∀ p ∈ c.pieces, ¬ commentClosing <:+: p.part.toList

/-- Behind each part a semicolon or a line feed stands, or the end of the text. -/
def BrokenOff : List Piece → Prop
  | [] => True
  | p :: ps => Script.breaksOff ps.isEmpty p.gap.toList = true ∧ BrokenOff ps

theorem toList_comment_append (part : String) (cs : List Char) :
    (Strategy.comment.apply part).toList ++ cs =
      Script.behindComment (' ' :: (part.toList ++ [' '])) cs := by
  simp [toList_apply_comment, commentOpening, commentClosing, Script.behindComment]

theorem calm_fillPieces_comment {ps : List Piece}
    (hgaps : ∀ p ∈ ps, Script.Calm false p.gap.toList)
    (hparts : ∀ p ∈ ps, ¬ commentClosing <:+: p.part.toList) :
    Script.Calm true (Cut.fillPieces Strategy.comment.apply ps).toList := by
  induction ps with
  | nil => exact .nil
  | cons p ps ih =>
    rw [List.forall_mem_cons] at hgaps hparts
    rw [Cut.fillPieces, String.toList_append, String.toList_append, List.append_assoc,
      toList_comment_append]
    exact .comment (closing_isInfix_padded _ |>.not.mpr hparts.1)
      (hgaps.1.append (ih hgaps.2 hparts.2))

theorem calm_fillPieces_null {ps : List Piece} (hbroken : BrokenOff ps)
    (hgaps : ∀ p ∈ ps, Script.Calm false p.gap.toList)
    (hparts : ∀ p ∈ ps, ¬ commentClosing <:+: p.part.toList) :
    Script.Calm true (Cut.fillPieces Strategy.nullComment.apply ps).toList := by
  induction ps with
  | nil => exact .nil
  | cons p ps ih =>
    rw [List.forall_mem_cons] at hgaps hparts
    have hrest := hgaps.1.append (ih hbroken.2 hgaps.2 hparts.2)
    have hbreaks : Script.breaksOff true
        (p.gap.toList ++ (Cut.fillPieces Strategy.nullComment.apply ps).toList) = true := by
      cases ps with
      | nil => simpa [Cut.fillPieces] using hbroken.1
      | cons => exact Script.breaksOff_append hbroken.1 _ _
    rw [Cut.fillPieces, Strategy.CommentsBehind.nullComment.apply_eq, String.toList_append,
      String.toList_append, String.toList_append, List.append_assoc, List.append_assoc,
      toList_comment_append]
    exact .null rfl (closing_isInfix_padded _ |>.not.mpr hparts.1) hbreaks hrest

theorem Cut.Alone.calm_comment {c : Cut} (h : c.Alone) :
    Script.Calm true (c.fill Strategy.comment.apply).toList := by
  rw [Cut.fill, String.toList_append]
  exact h.opening.append (calm_fillPieces_comment h.gaps h.parts)

theorem Cut.Alone.calm_null {c : Cut} (h : c.Alone) (hbroken : BrokenOff c.pieces) :
    Script.Calm true (c.fill Strategy.nullComment.apply).toList := by
  rw [Cut.fill, String.toList_append]
  exact h.opening.append (calm_fillPieces_null hbroken h.gaps h.parts)

theorem quiet_of_calm (targets : TargetSet) {text : String} (h : Script.Calm true text.toList) :
    Quiet targets text := by
  obtain ⟨t, ht, hcalls⟩ := exists_syntaxTree_of_calm h
  refine ⟨t, ht, fun n hn htargeted => ?_⟩
  obtain ⟨_, _, _, _, _, _, rfl, _⟩ := htargeted
  exact absurd (hcalls _ hn) (by simp [SyntaxTree.isCall])

/-- The cut that a sweep filled is the one at the spans that it replaced. -/
theorem quiet_of_calm_fill {source : String} {targets : TargetSet} {replace : String → String}
    {removeSemicolon : Bool} {o : Outcome} {c : Cut}
    (hsweep : sweepWith source targets replace removeSemicolon = .ok o) (htext : c.text = source)
    (hspans : c.spans = o.replaced) (h : Script.Calm true (c.fill replace).toList) :
    Quiet targets o.output := by
  obtain ⟨d, hd, hdspans, hout⟩ := exists_cut_of_sweepWith hsweep
  rw [hout, d.fill_congr (hd.trans htext.symm) (hdspans.trans hspans.symm)]
  exact quiet_of_calm targets h

/-- Two logs on lines of their own, the second one before a remark. -/
example :
    let c : Cut := ⟨"", [⟨"console.log(1);", "\n"⟩, ⟨"console.log(2)", " // 3\n"⟩]⟩
    c.Alone ∧ Quiet .standard (c.fill Strategy.comment.apply) := by
  intro c
  have hbody : ∀ c ∈ [' ', '3'], Script.endsLineComment c = false := by
    simp [Script.endsLineComment, Script.isLineEnd, Script.isLineSeparator]
  have hremark : Script.Calm false " // 3\n".toList :=
    .blank (by decide) (.lineComment hbody .nil)
  have halone : c.Alone :=
    ⟨.nil, by simpa [c] using ⟨.blank (by decide) .nil, hremark⟩, by decide⟩
  exact ⟨halone, quiet_of_calm _ halone.calm_comment⟩

/-! ## The laws -/

/-- After a sweep that comments calls out, every targeted call of the source lies in a comment.
A second sweep that succeeds leaves the text alone exactly where the reading of the new text has
no targeted call; no other second sweep replaces nothing or gives the same text. Of a script the new
text has none where there are only blanks, semicolons and closed comments around the swept calls, and
no call holds the end of a comment. -/
theorem a_second_comment_sweep_rests_on_quiet_texts [g : Grammar] (source : String)
    (targets : TargetSet) (o o2 : Outcome) (h : sweep source ⟨targets, some .comment, true⟩ = .ok o)
    (h2 : sweep o.output ⟨targets, some .comment, true⟩ = .ok o2) :
    (∃ c : Cut, c.text = source ∧ c.spans = o.replaced ∧
      o.output = c.fill Strategy.comment.apply) ∧
    (∀ t, syntaxTree source = .ok t → ∀ n ∈ t.nodes, n.Targeted targets →
      ∃ s ∈ o.replaced, s.contains n.span = true) ∧
    (o2.replaced = [] ↔ Quiet targets o.output) ∧
    (o2.output = o.output ↔ Quiet targets o.output) ∧
    (g = scripts → ∀ c : Cut, c.text = source → c.spans = o.replaced → c.Alone →
      Quiet targets o.output) := by
  refine ⟨exists_cut_of_sweepWith h, ?_, replaced_eq_nil_iff_quiet h2, ?_, ?_⟩
  · exact fun t ht n hn hnt => exists_replaced_contains h ht hn hnt
  · rw [output_eq_iff h2 length_comment]
    exact replaced_eq_nil_iff_quiet h2
  · rintro rfl c htext hspans halone
    exact quiet_of_calm_fill h htext hspans halone.calm_comment

/-- A log on a line of its own goes for good. -/
theorem a_log_between_two_calls_is_swept_once :
    sweep "f();\nconsole.log(1);\ng();" ⟨.standard, some .comment, true⟩ =
        .ok ⟨"f();\n/* console.log(1); */\ng();", [⟨5, 20⟩]⟩ ∧
      sweep "f();\n/* console.log(1); */\ng();" ⟨.standard, some .comment, true⟩ =
        .ok ⟨"f();\n/* console.log(1); */\ng();", []⟩ ∧
      Quiet .standard "f();\n/* console.log(1); */\ng();" := by
  have h : sweep "f();\nconsole.log(1);\ng();" ⟨.standard, some .comment, true⟩ =
      .ok ⟨"f();\n/* console.log(1); */\ng();", [⟨5, 20⟩]⟩ := by decide +kernel
  have h2 : sweep "f();\n/* console.log(1); */\ng();" ⟨.standard, some .comment, true⟩ =
      .ok ⟨"f();\n/* console.log(1); */\ng();", []⟩ := by decide +kernel
  have hlaw := a_second_comment_sweep_rests_on_quiet_texts _ _ _ _ h h2
  exact ⟨h, h2, hlaw.2.2.1.mp rfl⟩

/-- Not every second sweep rests: the line before a swept call and the line after it may join.
Here the new text calls `console.log` with `(2)`. -/
theorem a_comment_may_join_two_lines_to_a_call :
    ¬ ∀ (source : String) (targets : TargetSet) (o o2 : Outcome),
      sweep source ⟨targets, some .comment, true⟩ = .ok o →
      (∀ s ∈ o.replaced, ∀ part ∈ s.slice? source,
        Text.contains "*/".toList part.toList = false) →
      sweep o.output ⟨targets, some .comment, true⟩ = .ok o2 →
      o2.replaced = [] ∧ o2.output = o.output := by
  intro hclaim
  have h : sweep "console.log\nconsole.log(1);\n(2)" ⟨.standard, some .comment, true⟩ =
      .ok ⟨"console.log\n/* console.log(1); */\n(2)", [⟨12, 27⟩]⟩ := by decide +kernel
  have h2 : sweep "console.log\n/* console.log(1); */\n(2)" ⟨.standard, some .comment, true⟩ =
      .ok ⟨"/* console.log\n/* console.log(1); */\n(2) */", [⟨0, 37⟩]⟩ := by decide +kernel
  have hrests := hclaim _ _ _ _ h (by decide +kernel) h2
  exact absurd hrests.1 (by simp)

/-- After a sweep that leaves `null` in place of calls, every targeted call of the source lies in
a comment. A second sweep succeeds and leaves the text alone exactly where the new text can be
read and its reading has no targeted call. So it is with a script where there are only blanks,
semicolons and closed comments around the swept calls, a semicolon or a line feed stands behind each
call before the next one, and no call holds the end of a comment. -/
theorem a_second_null_sweep_rests_on_quiet_texts [g : Grammar] (source : String)
    (targets : TargetSet) (o : Outcome) (h : sweep source ⟨targets, none, false⟩ = .ok o) :
    (∃ c : Cut, c.text = source ∧ c.spans = o.replaced ∧
      o.output = c.fill Strategy.nullComment.apply) ∧
    (∀ t, syntaxTree source = .ok t → ∀ n ∈ t.nodes, n.Targeted targets →
      ∃ s ∈ o.replaced, s.contains n.span = true) ∧
    ((∃ o2, sweep o.output ⟨targets, none, false⟩ = .ok o2 ∧ o2.replaced = [] ∧
      o2.output = o.output) ↔ Quiet targets o.output) ∧
    (g = scripts → ∀ c : Cut, c.text = source → c.spans = o.replaced → c.Alone →
      BrokenOff c.pieces → Quiet targets o.output) := by
  refine ⟨exists_cut_of_sweepWith h, ?_, ⟨?_, ?_⟩, ?_⟩
  · exact fun t ht n hn hnt => exists_replaced_contains h ht hn hnt
  · rintro ⟨o2, h2, hnil, _⟩
    exact (replaced_eq_nil_iff_quiet h2).mp hnil
  · intro hquiet
    exact ⟨⟨o.output, []⟩, hquiet.sweepWith_eq _ _, rfl, rfl⟩
  · rintro rfl c htext hspans halone hbroken
    exact quiet_of_calm_fill h htext hspans (halone.calm_null hbroken)

/-- A log that is an operand leaves an operand. -/
theorem a_log_before_an_operator_is_swept_once :
    sweep "x = console.log(1) || 2;" ⟨.standard, none, false⟩ =
        .ok ⟨"x = null /* console.log(1) */ || 2;", [⟨4, 18⟩]⟩ ∧
      Quiet .standard "x = null /* console.log(1) */ || 2;" ∧
      ∃ o2, sweep "x = null /* console.log(1) */ || 2;" ⟨.standard, none, false⟩ = .ok o2 ∧
        o2.replaced = [] ∧ o2.output = "x = null /* console.log(1) */ || 2;" := by
  have h : sweep "x = console.log(1) || 2;" ⟨.standard, none, false⟩ =
      .ok ⟨"x = null /* console.log(1) */ || 2;", [⟨4, 18⟩]⟩ := by decide +kernel
  have hquiet : Quiet .standard "x = null /* console.log(1) */ || 2;" := by decide +kernel
  exact ⟨h, hquiet, (a_second_null_sweep_rests_on_quiet_texts _ _ _ h).2.2.1.mpr hquiet⟩

/-- Not every second sweep rests, or even succeeds: `null` may grow together with the word before
the call. Here the new text begins with the two names `a` and `innull`. -/
theorem a_null_may_join_the_word_before_it :
    ¬ ∀ (source : String) (targets : TargetSet) (o : Outcome),
      sweep source ⟨targets, none, false⟩ = .ok o →
      (∀ s ∈ o.replaced, ∀ part ∈ s.slice? source,
        Text.contains "*/".toList part.toList = false) →
      ∃ o2, sweep o.output ⟨targets, none, false⟩ = .ok o2 ∧ o2.replaced = [] ∧
        o2.output = o.output := by
  intro hclaim
  have h : sweep "a in(console.log)(1)" ⟨.standard, none, false⟩ =
      .ok ⟨"a innull /* (console.log)(1) */", [⟨4, 20⟩]⟩ := by decide +kernel
  have hrests := hclaim _ _ _ h (by decide +kernel)
  revert hrests
  decide +kernel

end LogSweep
