-- The trees that write a chain of names, and what is read off them. A chain is read from the outside
-- in, but its names stand in the tree from the inside out; the reading turns them round, and neither
-- where the links stand nor the parentheses around them leave a trace.
import LogSweep.Proofs.WrittenTargets

namespace LogSweep

namespace SyntaxTree

/-! ## The pure model -/

/-- A name, a named member of such a tree, or such a tree alone between parentheses. -/
inductive WritesChain : SyntaxTree → Prop
  | name (span : Span) (text : String) : WritesChain (.identifier span text)
  | member (span place : Span) (property : String) {object : SyntaxTree}
      (h : WritesChain object) : WritesChain (.member span object (.identifier place property))
  | parentheses (span : Span) {inner : SyntaxTree} (h : WritesChain inner) :
      WritesChain (.other "parenthesized_expression" span [inner])

/-- The names in a tree, in source order: those of an object before those of its members. -/
def names (t : SyntaxTree) : List String := t.nodes.filterMap name?

/-- What stands inside all the parentheses around a tree. -/
def unwrapped : SyntaxTree → SyntaxTree
  | .other "parenthesized_expression" _ [inner] => inner.unwrapped
  | t => t

mutual

/-- The tree without its spans. -/
def unplaced : SyntaxTree → SyntaxTree
  | .call _ f a => .call ⟨0, 0⟩ f.unplaced a.unplaced
  | .member _ o p => .member ⟨0, 0⟩ o.unplaced p.unplaced
  | .identifier _ n => .identifier ⟨0, 0⟩ n
  | .other k _ cs => .other k ⟨0, 0⟩ (unplacedAll cs)

def unplacedAll : List SyntaxTree → List SyntaxTree
  | [] => []
  | c :: cs => c.unplaced :: unplacedAll cs

end

/-- The tree without its spans and without the parentheses around its links. Trees that differ in
nothing else have the same skeleton. -/
def skeleton : SyntaxTree → SyntaxTree
  | .member _ object property => .member ⟨0, 0⟩ object.skeleton property.unplaced
  | .other "parenthesized_expression" _ [inner] => inner.skeleton
  | t => t.unplaced

end SyntaxTree

namespace MemberChain

/-- Goes inwards along the objects of a tree. Gives the innermost name and, after those given, the
properties that were passed. -/
def collect? (passed : List String) : SyntaxTree → Option (String × List String)
  | .identifier _ n => some (n, passed)
  | .member _ object property =>
    match property.name? with
    | some p => collect? (passed ++ [p]) object
    | none => none
  | .other "parenthesized_expression" _ [inner] => collect? passed inner
  | _ => none

/-- The chain with the given properties around it, the last one innermost. -/
def surround (passed : List String) (c : MemberChain) : MemberChain :=
  passed.reverse.foldl member c

/-- Goes inwards along a chain. Gives, after the names given, those that were passed. -/
def passNames (passed : List String) : MemberChain → List String
  | .name n => passed ++ [n]
  | .member base p => passNames (passed ++ [p]) base

/-! ## Which trees write a chain -/

theorem exists_ofTree?_of_writesChain {t : SyntaxTree} (h : t.WritesChain) :
    ∃ c, ofTree? t = some c := by
  induction h with
  | name span text => exact ⟨.name text, rfl⟩
  | member span place property _ ih =>
    obtain ⟨base, hbase⟩ := ih
    exact ⟨.member base property, by simp [ofTree?, SyntaxTree.name?, hbase]⟩
  | parentheses span _ ih =>
    obtain ⟨c, hc⟩ := ih
    exact ⟨c, by simpa [ofTree?] using hc⟩

theorem writesChain_of_ofTree? {t : SyntaxTree} {c : MemberChain} (h : ofTree? t = some c) :
    t.WritesChain := by
  induction t using ofTree?.induct generalizing c with
  | case1 span n => exact .name span n
  | case2 span object property p base hbase hp ih =>
    obtain ⟨place, rfl⟩ := SyntaxTree.eq_identifier_of_name? hp
    exact .member span place p (ih hbase)
  | case3 => simp_all [ofTree?]
  | case4 span inner ih => exact .parentheses span (ih (by simpa [ofTree?] using h))
  | case5 => simp_all [ofTree?]

/-! ## The names of a chain -/

theorem segments_eq_names {t : SyntaxTree} {c : MemberChain} (h : ofTree? t = some c) :
    c.segments = t.names := by
  induction t using ofTree?.induct generalizing c with
  | case1 span n =>
    simp only [ofTree?, Option.some.injEq] at h
    subst h
    rfl
  | case2 span object property p base hbase hp ih =>
    simp only [ofTree?, hp, hbase, Option.some.injEq] at h
    subst h
    obtain ⟨place, rfl⟩ := SyntaxTree.eq_identifier_of_name? hp
    rw [segments, ih hbase]
    simp [SyntaxTree.names, SyntaxTree.nodes, List.filterMap_cons, SyntaxTree.name?]
  | case3 => simp_all [ofTree?]
  | case4 span inner ih =>
    rw [ofTree?] at h
    rw [ih h]
    simp [SyntaxTree.names, SyntaxTree.nodes, SyntaxTree.nodesAll, List.filterMap_cons,
      SyntaxTree.name?]
  | case5 => simp_all [ofTree?]

/-- Inside its parentheses a chain is a name or a member, as the tree there is. -/
theorem unwrapped_cases {t : SyntaxTree} {c : MemberChain} (h : ofTree? t = some c) :
    (∃ span n, c = .name n ∧ t.unwrapped = .identifier span n) ∨
    ∃ span object place base p, c = .member base p ∧
      t.unwrapped = .member span object (.identifier place p) ∧ ofTree? object = some base := by
  induction t using ofTree?.induct generalizing c with
  | case1 span n =>
    simp only [ofTree?, Option.some.injEq] at h
    exact Or.inl ⟨span, n, h.symm, rfl⟩
  | case2 span object property p base hbase hp ih =>
    simp only [ofTree?, hp, hbase, Option.some.injEq] at h
    obtain ⟨place, rfl⟩ := SyntaxTree.eq_identifier_of_name? hp
    exact Or.inr ⟨span, object, place, base, p, h.symm, rfl, hbase⟩
  | case3 => simp_all [ofTree?]
  | case4 span inner ih =>
    rw [ofTree?] at h
    simpa [SyntaxTree.unwrapped] using ih h
  | case5 => simp_all [ofTree?]

theorem split?_eq_none_iff {t : SyntaxTree} {c : MemberChain} (h : ofTree? t = some c) :
    c.split? = none ↔ ∃ span n, t.unwrapped = .identifier span n := by
  rcases unwrapped_cases h with ⟨span, n, rfl, hbare⟩ | ⟨_, _, _, _, _, rfl, hbare, _⟩
  · simp [split?, hbare]
  · simp [split?, hbare]

/-- A chain that can be cut is its object, a dot and the outermost property. -/
theorem cut_of_split? {t : SyntaxTree} {c : MemberChain} {path method : String}
    (h : ofTree? t = some c) (hsplit : c.split? = some (path, method)) :
    c.dotted = path ++ "." ++ method ∧
      ∃ span object place, t.unwrapped = .member span object (.identifier place method) ∧
        object.dottedPath? = some path := by
  rcases unwrapped_cases h with ⟨_, _, rfl, _⟩ | ⟨span, object, place, base, p, rfl, hbare, hbase⟩
  · simp [split?] at hsplit
  · simp only [split?, Option.some.injEq, Prod.mk.injEq] at hsplit
    obtain ⟨rfl, rfl⟩ := hsplit
    refine ⟨dotted_member base p, span, object, place, hbare, ?_⟩
    rw [SyntaxTree.dottedPath?, hbase, Option.map_some]

/-! ## Spans and parentheses -/

theorem name?_unplaced (t : SyntaxTree) : t.unplaced.name? = t.name? := by
  cases t <;> simp [SyntaxTree.unplaced, SyntaxTree.name?]

theorem ofTree?_unplaced (t : SyntaxTree) : ofTree? t.unplaced = ofTree? t := by
  induction t using SyntaxTree.child_induction with
  | step t ih =>
    cases t with
    | call => simp [SyntaxTree.unplaced, ofTree?]
    | identifier => simp [SyntaxTree.unplaced, ofTree?]
    | member span object property =>
      have hobject := ih object (by simp [SyntaxTree.children])
      simp only [SyntaxTree.unplaced, ofTree?_member, name?_unplaced, hobject]
    | other k span cs =>
      by_cases hk : k = "parenthesized_expression"
      · subst hk
        rw [SyntaxTree.unplaced, ofTree?_parenthesized, ofTree?_parenthesized]
        rcases cs with _ | ⟨inner, _ | ⟨next, cs⟩⟩
        · simp [SyntaxTree.unplacedAll]
        · simpa [SyntaxTree.unplacedAll] using ih inner (by simp [SyntaxTree.children])
        · simp [SyntaxTree.unplacedAll]
      · rw [SyntaxTree.unplaced, ofTree?_other_of_ne hk, ofTree?_other_of_ne hk]

theorem ofTree?_skeleton (t : SyntaxTree) : ofTree? t.skeleton = ofTree? t := by
  induction t using SyntaxTree.skeleton.induct with
  | case1 span object property ih =>
    simp only [SyntaxTree.skeleton, ofTree?_member, name?_unplaced, ih]
  | case2 span inner ih =>
    simpa [SyntaxTree.skeleton, ofTree?_parenthesized] using ih
  | case3 t hmember hparentheses =>
    rw [SyntaxTree.skeleton, ofTree?_unplaced]
    · exact hmember
    · exact hparentheses

/-! ## From the outside in -/

/-- What was passed on the way inwards goes around the chain further in. -/
theorem collect?_eq (passed : List String) (t : SyntaxTree) :
    (collect? passed t).map (fun r => surround r.2 (.name r.1)) =
      (ofTree? t).map (surround passed) := by
  induction t using ofTree?.induct generalizing passed with
  | case1 span n => rfl
  | case2 span object property p base hbase hp ih =>
    have hinner := ih (passed ++ [p])
    rw [hbase] at hinner
    simpa [collect?, ofTree?, hp, hbase, surround] using hinner
  | case3 span object property hnone ih =>
    rw [ofTree?_member, collect?]
    rcases hp : property.name? with _ | p
    · rfl
    · have hbase : ofTree? object = none := by
        rw [Option.eq_none_iff_forall_ne_some]
        intro base hb
        exact hnone p base hp hb
      simpa [hbase] using ih (passed ++ [p])
  | case4 span inner ih => simpa [collect?, ofTree?] using ih passed
  | case5 t _ _ _ => cases t <;> simp_all [collect?, ofTree?]

theorem passNames_eq (passed : List String) (c : MemberChain) :
    passNames passed c = passed ++ c.segments.reverse := by
  induction c generalizing passed with
  | name n => rfl
  | member base p ih =>
    rw [passNames, ih, segments, List.reverse_append, List.append_assoc]
    rfl

end MemberChain

/-! ## The law -/

/-- A tree is read as a chain exactly when it writes one. The chain is dotted as the names of the tree
in source order. It can be cut before its last name unless it is a lone name, and then the method is
the outermost property. Trees that differ only in spans and in parentheses around links are read
alike. Reading from the outside in and turning round what was passed gives the same. -/
theorem a_chain_is_read_where_names_and_members_write_it (t : SyntaxTree) :
    ((∃ c, MemberChain.ofTree? t = some c) ↔ t.WritesChain) ∧
    (∀ c, MemberChain.ofTree? t = some c →
      c.dotted = ".".intercalate t.names ∧
      (c.split? = none ↔ ∃ span n, t.unwrapped = .identifier span n) ∧
      ∀ path method, c.split? = some (path, method) →
        c.dotted = path ++ "." ++ method ∧
        ∃ span object place, t.unwrapped = .member span object (.identifier place method) ∧
          object.dottedPath? = some path) ∧
    (∀ u : SyntaxTree, t.skeleton = u.skeleton →
      MemberChain.ofTree? t = MemberChain.ofTree? u) ∧
    (MemberChain.collect? [] t).map (fun r => MemberChain.surround r.2 (.name r.1)) =
      MemberChain.ofTree? t ∧
    ∀ c : MemberChain, (MemberChain.passNames [] c).reverse = c.segments := by
  refine ⟨?_, ?_, ?_, ?_, ?_⟩
  · constructor
    · rintro ⟨c, hc⟩
      exact MemberChain.writesChain_of_ofTree? hc
    · exact MemberChain.exists_ofTree?_of_writesChain
  · intro c hc
    refine ⟨?_, MemberChain.split?_eq_none_iff hc, fun _ _ => MemberChain.cut_of_split? hc⟩
    rw [MemberChain.dotted, MemberChain.segments_eq_names hc]
  · intro u hu
    rw [← MemberChain.ofTree?_skeleton t, hu, MemberChain.ofTree?_skeleton]
  · rw [MemberChain.collect?_eq]
    exact Option.map_id'
  · intro c
    rw [MemberChain.passNames_eq, List.nil_append, List.reverse_reverse]

/-- `((window).console).log` is cut before `log`, and it is read as `window.console.log` is. -/
theorem log_of_wrapped_window_is_cut_before_its_method :
    let wrapped : SyntaxTree :=
      .member ⟨0, 22⟩
        (.other "parenthesized_expression" ⟨0, 18⟩
          [.member ⟨1, 17⟩
            (.other "parenthesized_expression" ⟨1, 9⟩ [.identifier ⟨2, 8⟩ "window"])
            (.identifier ⟨10, 17⟩ "console")])
        (.identifier ⟨19, 22⟩ "log")
    let plain : SyntaxTree :=
      .member ⟨0, 18⟩
        (.member ⟨0, 14⟩ (.identifier ⟨0, 6⟩ "window") (.identifier ⟨7, 14⟩ "console"))
        (.identifier ⟨15, 18⟩ "log")
    let chain : MemberChain := .member (.member (.name "window") "console") "log"
    MemberChain.ofTree? wrapped = some chain ∧ MemberChain.ofTree? plain = some chain ∧
      chain.split? = some ("window.console", "log") ∧ chain.dotted = "window.console.log" := by
  intro wrapped plain chain
  have hwrapped := a_chain_is_read_where_names_and_members_write_it wrapped
  have hchain : MemberChain.ofTree? wrapped = some chain := rfl
  have hcut : chain.split? = some ("window.console", "log") := by decide +kernel
  have hdotted := ((hwrapped.2.1 chain hchain).2.2 _ _ hcut).1
  refine ⟨hchain, ?_, hcut, hdotted⟩
  rw [← hwrapped.2.2.1 plain rfl, hchain]

end LogSweep
