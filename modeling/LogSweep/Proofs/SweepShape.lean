-- The shape of a sweep. A sweep that succeeds cuts the source at the spans it replaces and fills
-- the cut, and a sweep of a source whose tree is well formed always succeeds.
import LogSweep.Sweep
import LogSweep.Proofs.OutermostCalls
import LogSweep.Proofs.SpanEdits

namespace LogSweep

/-! ## Sweeping what was found -/

theorem sweepMatches_of_cuttable {source : String} {found : List Span}
    (h : Cuttable source.toList found) (replace : String → String) (removeSemicolon : Bool) :
    ∃ c : Cut, c.text = source ∧ c.spans = grownSpans source removeSemicolon found ∧
      sweepMatches source found replace removeSemicolon = .ok ⟨c.fill replace, c.spans⟩ := by
  obtain ⟨c, rfl, hspans, hcut, hplan⟩ := planEdits_of_cuttable h replace removeSemicolon
  refine ⟨c, rfl, hspans, ?_⟩
  simp only [sweepMatches, hplan, bind, Except.bind, c.apply_edits hcut, c.edits_span]
  rfl

theorem cuttable_of_sweepMatches {source : String} {found : List Span}
    {replace : String → String} {removeSemicolon : Bool} {o : Outcome}
    (h : sweepMatches source found replace removeSemicolon = .ok o) :
    Cuttable source.toList found := by
  rw [← checkSpans_eq_ok_iff]
  simp only [sweepMatches, planEdits, bind, Except.bind] at h
  rcases hcheck : checkSpans source.toList found with e | u
  · simp [hcheck] at h
  · rfl

/-! ## Scanning and sweeping a source -/

theorem scan_eq [Grammar] {source : String} {t : SyntaxTree} (ht : syntaxTree source = .ok t)
    (targets : TargetSet) : scan source targets = .ok (findMatches t.breadthFirst targets) := by
  rw [scan, ht]
  rfl

theorem sweepWith_eq_ok_iff [Grammar] {source : String} {targets : TargetSet}
    {replace : String → String} {removeSemicolon : Bool} {o : Outcome} :
    sweepWith source targets replace removeSemicolon = .ok o ↔
      ∃ t, syntaxTree source = .ok t ∧
        sweepMatches source (findMatches t.breadthFirst targets) replace removeSemicolon = .ok o := by
  rcases ht : syntaxTree source with e | t
  · simp [sweepWith, scan, ht, bind, Except.bind]
  · simp only [sweepWith, scan_eq ht, bind, Except.bind, Except.ok.injEq, exists_eq_left']
    rcases sweepMatches source (findMatches t.breadthFirst targets) replace removeSemicolon with e | o'
    · simp [throw, throwThe, MonadExceptOf.throw]
    · simp [pure, Except.pure]

/-- A sweep that succeeds has cut the source at the spans that it replaced. -/
theorem exists_cut_of_sweepWith [Grammar] {source : String} {targets : TargetSet}
    {replace : String → String} {removeSemicolon : Bool} {o : Outcome}
    (h : sweepWith source targets replace removeSemicolon = .ok o) :
    ∃ c : Cut, c.text = source ∧ c.spans = o.replaced ∧ o.output = c.fill replace := by
  obtain ⟨t, _, hsweep⟩ := sweepWith_eq_ok_iff.mp h
  obtain ⟨c, htext, _, heq⟩ :=
    sweepMatches_of_cuttable (cuttable_of_sweepMatches hsweep) replace removeSemicolon
  rw [hsweep, Except.ok.injEq] at heq
  exact ⟨c, htext, by rw [heq], by rw [heq]⟩

/-! ## Well-formed trees -/

/-- A tree that belongs to a source: its spans nest, and each can be cut out of the source. -/
structure SyntaxTree.WellFormed (source : String) (t : SyntaxTree) : Prop where
  nested : t.WellNested
  fits : ∀ n ∈ t.nodes, n.span.FitsIn source.toList

instance (source : String) (t : SyntaxTree) : Decidable (t.WellFormed source) :=
  decidable_of_iff (t.WellNested ∧ ∀ n ∈ t.nodes, n.span.FitsIn source.toList)
    ⟨fun ⟨h1, h2⟩ => ⟨h1, h2⟩, fun ⟨h1, h2⟩ => ⟨h1, h2⟩⟩

theorem SyntaxTree.WellFormed.cuttable {source : String} {t : SyntaxTree}
    (h : t.WellFormed source) (targets : TargetSet) :
    Cuttable source.toList (findMatches t.breadthFirst targets) := by
  rw [h.nested.findMatches_eq targets]
  refine ⟨?_, h.nested.outermost_apart targets⟩
  intro s hs
  obtain ⟨n, hn, _, rfl⟩ :=
    SyntaxTree.mem_targetedSpans.mp (SyntaxTree.mem_targetedSpans_of_outermost hs)
  exact h.fits n hn

theorem SyntaxTree.WellFormed.nonempty {source : String} {t : SyntaxTree}
    (h : t.WellFormed source) {targets : TargetSet} {s : Span}
    (hs : s ∈ findMatches t.breadthFirst targets) : s.start < s.stop := by
  rw [h.nested.findMatches_eq targets] at hs
  exact (h.nested.targetedSpan (SyntaxTree.mem_targetedSpans_of_outermost hs)).1

/-! ## The law -/

/-- A source whose tree is well formed is swept, whatever the targets, the replacement and the
choice about semicolons. Each found span is replaced once and in order, with at most the
semicolon after it; the replaced spans can be cut out of the source one after the other, and the
output is the source with each of these parts put through the replacement. -/
theorem a_sweep_cuts_and_fills [Grammar] (source : String) (targets : TargetSet)
    (replace : String → String) (removeSemicolon : Bool) (t : SyntaxTree)
    (ht : syntaxTree source = .ok t) (hw : t.WellFormed source) :
    ∃ found o, scan source targets = .ok found ∧
      sweepWith source targets replace removeSemicolon = .ok o ∧
      List.Forall₂ (Span.GrowsTo source removeSemicolon) found o.replaced ∧
      (∀ s ∈ o.replaced, s.start < s.stop ∧ s.FitsIn source.toList) ∧
      o.replaced.Pairwise (fun s u => s.stop ≤ u.start) ∧
      ∃ c : Cut, c.text = source ∧ c.spans = o.replaced ∧ o.output = c.fill replace := by
  have hfound := hw.cuttable targets
  obtain ⟨hpairs, hgrown⟩ := hfound.grow removeSemicolon
  obtain ⟨c, htext, hspans, hsweep⟩ := sweepMatches_of_cuttable hfound replace removeSemicolon
  refine ⟨_, ⟨c.fill replace, c.spans⟩, scan_eq ht targets,
    sweepWith_eq_ok_iff.mpr ⟨t, ht, hsweep⟩, ?_, ?_, ?_, c, htext, rfl, rfl⟩
  · rw [hspans]
    exact hpairs
  · intro g hg
    simp only [hspans] at hg
    refine ⟨?_, hgrown.fits g hg⟩
    obtain ⟨s, hs, hgrows⟩ := exists_grows_of_mem hpairs hg
    have hlt := hw.nonempty hs
    have hin := (Span.contains_iff _ _).mp hgrows.contains
    omega
  · simp only [hspans]
    exact hgrown.apart

instance decidableExistsOk {ε α : Type} {P : α → Prop} [DecidablePred P] :
    (x : Except ε α) → Decidable (∃ a, x = .ok a ∧ P a)
  | .ok a => decidable_of_iff (P a) (by simp)
  | .error _ => isFalse (by simp)

/-- Two logs, one of them among the arguments of another call and one before ` ;`. -/
theorem a_sweep_of_two_logs :
    ∃ t o, syntaxTree "é(console.log(1));console.info(2) ;" = .ok t ∧
      t.WellFormed "é(console.log(1));console.info(2) ;" ∧
      sweepWith "é(console.log(1));console.info(2) ;" .standard Strategy.comment.apply true = .ok o ∧
      o.replaced.Pairwise (fun s u => s.stop ≤ u.start) := by
  obtain ⟨t, ht, hw⟩ : ∃ t, syntaxTree "é(console.log(1));console.info(2) ;" = .ok t ∧
      t.WellFormed "é(console.log(1));console.info(2) ;" := by decide +kernel
  obtain ⟨_, o, _, ho, _, _, hapart, _⟩ :=
    a_sweep_cuts_and_fills _ .standard Strategy.comment.apply true t ht hw
  exact ⟨t, o, ht, hw, ho, hapart⟩

end LogSweep
