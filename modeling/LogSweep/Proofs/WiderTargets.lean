-- More targets and the same targets. With more targets a call around a found one may be found in
-- its place, so a found span may go; but it goes only into a larger one. What a set holds is all
-- that counts, not how often and in what order its targets were inserted.
import LogSweep.Proofs.WrittenTargets

namespace LogSweep

/-! ## Sets inside sets -/

/-- Every target of the one set is in the other. -/
def TargetSet.Within (narrow wide : TargetSet) : Prop :=
  ∀ t, narrow.contains t = true → wide.contains t = true

theorem TargetSet.within_ofList {ts us : List Target} (h : ∀ t ∈ ts, t ∈ us) :
    (ofList ts).Within (ofList us) := by
  intro t ht
  rw [contains_ofList] at ht ⊢
  exact h t ht

theorem TargetSet.contains_ofList_eq {ts us : List Target} (h : ∀ t, t ∈ ts ↔ t ∈ us)
    (t : Target) : (ofList ts).contains t = (ofList us).contains t := by
  rw [Bool.eq_iff_iff, contains_ofList, contains_ofList]
  exact h t

/-! ## What is found -/

/-- A call stays targeted when targets are added. -/
theorem SyntaxTree.Targeted.widen {narrow wide : TargetSet} {n : SyntaxTree}
    (ht : n.Targeted narrow) (h : narrow.Within wide) : n.Targeted wide := by
  obtain ⟨span, callee, arguments, chain, path, method, hn, hchain, hsplit, hin⟩ := ht
  exact ⟨span, callee, arguments, chain, path, method, hn, hchain, hsplit, h _ hin⟩

/-- The sort and the collapse lose no call, so a call found with fewer targets is covered. -/
theorem exists_findMatches_contains_of_within {nodes : List SyntaxTree} {narrow wide : TargetSet}
    (h : narrow.Within wide) {s : Span} (hs : s ∈ findMatches nodes narrow) :
    ∃ u ∈ findMatches nodes wide, u.contains s = true := by
  obtain ⟨n, hn, ht, rfl⟩ := exists_targeted_of_mem_findMatches hs
  exact exists_findMatches_contains hn (ht.widen h)

theorem matchedCall?_congr {one other : TargetSet}
    (h : ∀ t, one.contains t = other.contains t) (n : SyntaxTree) :
    matchedCall? one n = matchedCall? other n := by
  cases n with
  | call span callee arguments => simp only [matchedCall?, h]
  | member => rfl
  | identifier => rfl
  | other => rfl

theorem findMatches_congr {one other : TargetSet}
    (h : ∀ t, one.contains t = other.contains t) (nodes : List SyntaxTree) :
    findMatches nodes one = findMatches nodes other := by
  have hcall : matchedCall? one = matchedCall? other := funext (matchedCall?_congr h)
  unfold findMatches
  rw [hcall]

/-! ## The law -/

/-- Among any nodes, each span found with fewer targets lies inside one found with more. Sets that
hold the same targets find the same spans, and so do sets into which the same targets were
inserted, however often and in whatever order. -/
theorem wider_targets_cover_what_narrower_ones_find (nodes : List SyntaxTree)
    (narrow wide : TargetSet) :
    (narrow.Within wide → ∀ s ∈ findMatches nodes narrow,
      ∃ u ∈ findMatches nodes wide, u.contains s = true) ∧
    ((∀ t, narrow.contains t = wide.contains t) →
      findMatches nodes narrow = findMatches nodes wide) ∧
    ∀ ts us : List Target, (∀ t, t ∈ ts ↔ t ∈ us) →
      findMatches nodes (.ofList ts) = findMatches nodes (.ofList us) := by
  refine ⟨?_, ?_, ?_⟩
  · intro h s hs
    exact exists_findMatches_contains_of_within h hs
  · intro h
    exact findMatches_congr h nodes
  · intro ts us h
    exact findMatches_congr (TargetSet.contains_ofList_eq h) nodes

/-- `console.warn(console.log(1))`. -/
def logInWarn : SyntaxTree :=
  .call ⟨0, 28⟩
    (.member ⟨0, 12⟩ (.identifier ⟨0, 7⟩ "console") (.identifier ⟨8, 12⟩ "warn"))
    (.other "arguments" ⟨12, 28⟩
      [.call ⟨13, 27⟩
        (.member ⟨13, 24⟩ (.identifier ⟨13, 20⟩ "console") (.identifier ⟨21, 24⟩ "log"))
        (.other "arguments" ⟨24, 27⟩ [.other "number" ⟨25, 26⟩ []])])

/-- With a second target the call around the log is found in its place, in either order of
insertion and with a target inserted twice. -/
theorem a_log_is_covered_by_the_warning_around_it :
    let log : Target := ⟨"console", "log"⟩
    let warn : Target := ⟨"console", "warn"⟩
    findMatches logInWarn.breadthFirst (.ofList [log]) = [⟨13, 27⟩] ∧
      findMatches logInWarn.breadthFirst (.ofList [log, warn]) = [⟨0, 28⟩] ∧
      findMatches logInWarn.breadthFirst (.ofList [warn, log, warn]) = [⟨0, 28⟩] ∧
      ∃ u ∈ findMatches logInWarn.breadthFirst (.ofList [log, warn]),
        u.contains ⟨13, 27⟩ = true := by
  intro log warn
  have hlaw := wider_targets_cover_what_narrower_ones_find logInWarn.breadthFirst
    (.ofList [log]) (.ofList [log, warn])
  have hnested : logInWarn.WellNested := by decide
  have hlog : findMatches logInWarn.breadthFirst (.ofList [log]) = [⟨13, 27⟩] := by
    rw [hnested.findMatches_eq]
    decide
  have hboth : findMatches logInWarn.breadthFirst (.ofList [log, warn]) = [⟨0, 28⟩] := by
    rw [hnested.findMatches_eq]
    decide
  have hsame : ∀ t, t ∈ [log, warn] ↔ t ∈ [warn, log, warn] := by
    intro t
    simp only [List.mem_cons, List.not_mem_nil, or_false]
    tauto
  refine ⟨hlog, hboth, (hlaw.2.2 _ _ hsame).symm.trans hboth, ?_⟩
  exact hlaw.1 (TargetSet.within_ofList (by decide)) _ (by rw [hlog]; simp)

end LogSweep
