-- The first fault of a tree. The search keeps the nodes still to be visited on a stack and passes over
-- those without a fault, with all that is below them. It still comes to the faults in source order,
-- so what is told is the place and the kind of the first one.
import LogSweep.Proofs.ConvertedTrees
import LogSweep.Proofs.LinePositions
import LogSweep.SyntaxFault

namespace LogSweep

/-- In front of an offset `row` lines have ended, and `column` bytes of the next one have passed. -/
structure Lines.StandsAt (bytes : List UInt8) (offset row column : Nat) : Prop where
  row_eq : row = (bytes.take offset).count 10
  column_eq : ∃ start, IsLineStart bytes offset start ∧ column = offset - start

theorem Lines.exists_standsAt (source : String) (offset : Nat) :
    ∃ row column, StandsAt (Text.bytes source.toList) offset row column ∧
      (ofSource source).position offset = (row + 1, column + 1) := by
  obtain ⟨start, hstart, hline⟩ := exists_startOf? source offset
  refine ⟨_, _, ⟨rfl, start, hline, rfl⟩, ?_⟩
  rw [position_eq source hstart, lineOf_eq, Nat.add_comm]

namespace ParseTree

/-- What is told of a fault: the token that is missing, or else the text that was not expected. -/
inductive Told (source : String) (t : ParseTree) : String → Prop
  | missing (h : t.label.missing = true) : Told source t ("missing `" ++ t.kind ++ "`")
  | unexpected (hmissing : t.label.missing = false) (herror : t.label.error = true) :
      Told source t ("unexpected `" ++
        snippet ((Text.slice? source.toList t.span.start t.span.stop).getD []) ++ "`")

/-! ## The nodes with a fault -/

theorem hasFaultIn_eq (cs : List ParseTree) : hasFault.hasFaultIn cs = cs.any hasFault := by
  induction cs with
  | nil => rfl
  | cons c cs ih => rw [hasFault.hasFaultIn, ih, List.any_cons]

theorem hasFault_eq (t : ParseTree) : t.hasFault = (t.isFault || t.children.any hasFault) := by
  cases t with
  | name l h => simp [hasFault, isFault, label, children]
  | node l h cs => rw [hasFault, hasFaultIn_eq, isFault, label, children]

/-- A node has a fault exactly when it is one or a node below it is. -/
theorem hasFault_iff (t : ParseTree) : t.hasFault = true ↔ ∃ n ∈ t.preorder, n.isFault = true := by
  induction t using child_induction with
  | step t ih =>
    rw [hasFault_eq, preorder_eq, Bool.or_eq_true, List.any_eq_true, List.exists_mem_cons_iff]
    refine or_congr_right ⟨?_, ?_⟩
    · rintro ⟨c, hc, hfault⟩
      obtain ⟨n, hn, hnfault⟩ := (ih c hc).mp hfault
      exact ⟨n, List.mem_flatMap.mpr ⟨c, hc, hn⟩, hnfault⟩
    · rintro ⟨n, hn, hnfault⟩
      obtain ⟨c, hc, hn⟩ := List.mem_flatMap.mp hn
      exact ⟨c, hc, (ih c hc).mpr ⟨n, hn, hnfault⟩⟩

theorem find?_preorder_of_not_hasFault {t : ParseTree} (h : ¬ t.hasFault = true) :
    t.preorder.find? isFault = none := by
  rw [List.find?_eq_none]
  intro n hn hfault
  exact h ((hasFault_iff t).mpr ⟨n, hn, hfault⟩)

/-! ## The search -/

/-- The search comes to the first fault below the nodes of its stack, if it may take a turn for each
node below them. -/
theorem findFault_eq {fuel : Nat} {stack : List ParseTree} (h : size.sizeAll stack ≤ fuel) :
    findFault fuel stack = (stack.flatMap preorder).find? isFault := by
  induction fuel generalizing stack with
  | zero =>
    cases stack with
    | nil => rfl
    | cons t stack =>
      rw [size.sizeAll, size_eq] at h
      omega
  | succ fuel ih =>
    cases stack with
    | nil => rfl
    | cons t stack =>
      rw [size.sizeAll, size_eq] at h
      unfold findFault
      split
      · rename_i hfault
        rw [List.flatMap_cons, preorder_eq, List.cons_append, List.find?_cons_of_pos hfault]
      · rename_i hfault
        split
        · -- The children take the place of their parent, the first of them on top.
          rw [ih (by rw [sizeAll_append]; omega), List.flatMap_append, List.flatMap_cons, preorder_eq,
            List.cons_append, List.find?_cons_of_neg hfault]
        · rename_i hclean
          rw [ih (by omega), List.flatMap_cons, List.find?_append,
            find?_preorder_of_not_hasFault hclean, Option.none_or]

theorem findFault_singleton {fuel : Nat} {t : ParseTree} (h : t.size ≤ fuel) :
    findFault fuel [t] = t.preorder.find? isFault := by
  rw [findFault_eq (by simpa [size.sizeAll] using h), List.flatMap_singleton]

theorem firstFault?_eq (t : ParseTree) : t.firstFault? = t.preorder.find? isFault :=
  findFault_singleton (Nat.le_refl _)

/-! ## What is told -/

theorem told_of_isFault (source : String) {t : ParseTree} (h : t.isFault = true) :
    t.Told source (t.faultDetail source) := by
  unfold faultDetail
  split
  · rename_i hmissing
    exact .missing hmissing
  · rename_i hmissing
    have herror : t.label.error = true := by
      unfold isFault at h
      simpa [hmissing] using h
    rw [if_pos herror]
    exact .unexpected (by simpa using hmissing) herror

theorem Told.ne_unrecognized {source : String} {t : ParseTree} {detail : String}
    (h : t.Told source detail) : detail ≠ "unrecognized syntax" := by
  intro heq
  have hchars := congrArg String.toList heq
  cases h with
  | missing => simp at hchars
  | unexpected => simp at hchars

end ParseTree

/-! ## The law -/

open ParseTree in
/-- A tree with a fault is told of by the first of its nodes, in source order and parents first, that
is missing or an error. The search finds it in as many turns as the tree has nodes. The line and the
column are one more than the row and the column at which that node starts, and the detail is one of
the two that are made for faults. -/
theorem the_first_fault_in_source_order_is_told (source : String) (root : ParseTree)
    (h : root.hasFault = true) :
    (∀ n : ParseTree, n.hasFault = true ↔ ∃ m ∈ n.preorder, m.isFault = true) ∧
    ∃ t, root.preorder.find? isFault = some t ∧
      (∀ fuel, root.size ≤ fuel → findFault fuel [root] = some t) ∧
      ∃ row column detail, Lines.StandsAt (Text.bytes source.toList) t.span.start row column ∧
        t.Told source detail ∧ detail ≠ "unrecognized syntax" ∧
        SyntaxFault.ofTree source root = ⟨row + 1, column + 1, detail⟩ := by
  obtain ⟨n, hn, hfault⟩ := (hasFault_iff root).mp h
  obtain ⟨t, ht⟩ : ∃ t, root.preorder.find? isFault = some t :=
    Option.isSome_iff_exists.mp (List.find?_isSome.mpr ⟨n, hn, hfault⟩)
  obtain ⟨row, column, hplace, hposition⟩ := Lines.exists_standsAt source t.span.start
  have htold := told_of_isFault source (List.find?_some ht)
  refine ⟨hasFault_iff, t, ht, fun fuel hfuel => by rw [findFault_singleton hfuel, ht],
    row, column, t.faultDetail source, hplace, htold, htold.ne_unrecognized, ?_⟩
  unfold SyntaxFault.ofTree
  rw [firstFault?_eq, ht, Option.getD_some]
  simp only [hposition]

/-- A bracket missing deep in the second statement comes before the error behind it. -/
theorem a_missing_bracket_is_told_before_a_later_error :
    let call := ParseTree.make { kind := "arguments", span := ⟨5, 7⟩ }
      [.make { kind := "identifier", span := ⟨6, 7⟩ } [],
        .make { kind := ")", span := ⟨7, 7⟩, role := .bare, missing := true } []]
    let root := ParseTree.make { kind := "program", span := ⟨0, 10⟩ }
      [.make { kind := "expression_statement", span := ⟨0, 2⟩ } [],
        .make { kind := "expression_statement", span := ⟨3, 8⟩ } [call],
        .make { kind := "ERROR", span := ⟨9, 10⟩, error := true } []]
    root.hasFault = true ∧ SyntaxFault.ofTree "a;\né(b;\n\x7d" root = ⟨2, 5, "missing `)`"⟩ ∧
      ∃ t, root.preorder.find? ParseTree.isFault = some t ∧
        ParseTree.findFault 8 [root] = some t ∧ t.span = ⟨7, 7⟩ := by
  intro call root
  have hfault : root.hasFault = true := by decide
  obtain ⟨_, t, ht, hfound, _⟩ :=
    the_first_fault_in_source_order_is_told "a;\né(b;\n\x7d" root hfault
  have hspan : (root.preorder.find? ParseTree.isFault).map ParseTree.span = some ⟨7, 7⟩ := by decide
  rw [ht, Option.map_some, Option.some.injEq] at hspan
  exact ⟨hfault, by decide +kernel, t, ht, hfound 8 (by decide), hspan⟩

end LogSweep
