-- Templates. The call is put between the pieces of the template that its marks leave, whatever the call
-- holds, so a mark put for the call gives the template back. A strategy that was read is displayed as a
-- text that is read as the same strategy.
import LogSweep.Proofs.FirstPlaces
import LogSweep.Proofs.TargetTexts
import LogSweep.Strategy

namespace LogSweep

namespace Strategy

open Text

theorem opensOnce_mark : OpensOnce mark := ⟨'\x7b', "call\x7d".toList, rfl, by decide⟩

/-! ## Filling a template -/

theorem expand_mark (call cs : List Char) : expand call (mark ++ cs) = call ++ expand call cs := rfl

theorem expand_cons {call cs : List Char} {c : Char} (h : ¬ mark <+: c :: cs) :
    expand call (c :: cs) = c :: expand call cs := by
  rw [expand]
  rintro rest rfl rfl
  exact h ⟨rest, rfl⟩

theorem expand_of_free {call cs : List Char} (h : ¬ mark <:+: cs) : expand call cs = cs := by
  induction cs with
  | nil => rfl
  | cons c cs ih =>
    rw [List.infix_cons_iff, not_or] at h
    rw [expand_cons h.1, ih h.2]

/-- Up to its first mark a template is copied. -/
theorem expand_of_firstCut {call cs front back : List Char} (h : FirstCut mark cs front back) :
    expand call cs = front ++ call ++ expand call back := by
  induction h using FirstCut.induction with
  | here => rw [expand_mark, List.nil_append]
  | next c cs front _ hstart ih =>
    rw [expand_cons hstart, ih]
    rfl

theorem expand_eq {cs : List Char} {pieces : List (List Char)} (h : Pieces mark cs pieces)
    (call : List Char) : expand call cs = call.intercalate pieces := by
  induction h with
  | last hfree => rw [expand_of_free hfree, List.intercalate_singleton]
  | cut hcut hrest ih =>
    rw [expand_of_firstCut hcut, ih, List.intercalate_cons_of_ne_nil hrest.ne_nil]

theorem toList_apply_template (text call : String) :
    ((template text).apply call).toList = expand call.toList text.toList := by
  rw [apply, String.toList_ofList]

theorem call_isInfix_apply {text : String} (h : mark <:+: text.toList) (call : String) :
    call.toList <:+: ((template text).apply call).toList := by
  obtain ⟨front, back, hcut⟩ := exists_firstCut h
  rw [toList_apply_template, expand_of_firstCut hcut]
  exact List.infix_append _ _ _

/-! ## Reading a strategy -/

/-- No name of a strategy holds a mark, so a text with one is always a template. -/
theorem parse_eq_template_iff (text shown : String) :
    parse text = .ok (.template shown) ↔ mark <:+: shown.toList ∧ Text.trim text = shown := by
  unfold parse
  simp only [Bool.or_eq_true, decide_eq_true_eq, contains_iff]
  split
  · rename_i hname
    simp only [Except.ok.injEq, reduceCtorEq, false_iff]
    rintro ⟨hmark, rfl⟩
    rw [hname] at hmark
    exact absurd hmark (by decide)
  · split
    · rename_i hname
      simp only [Except.ok.injEq, reduceCtorEq, false_iff]
      rintro ⟨hmark, rfl⟩
      rcases hname with hname | hname
      · rw [hname] at hmark
        exact absurd hmark (by decide)
      · rw [hname] at hmark
        exact absurd hmark (by decide)
    · split
      · rename_i hmark
        simp only [Except.ok.injEq, template.injEq]
        constructor
        · rintro rfl
          exact ⟨hmark, rfl⟩
        · exact And.right
      · rename_i hfree
        simp only [reduceCtorEq, false_iff]
        rintro ⟨hmark, rfl⟩
        exact hfree hmark

theorem parse_display {text : String} {s : Strategy} (h : parse text = .ok s) :
    parse s.display = .ok s := by
  cases s with
  | comment => rfl
  | nullComment => rfl
  | template shown =>
    obtain ⟨hmark, rfl⟩ := (parse_eq_template_iff text shown).mp h
    exact (parse_eq_template_iff _ _).mpr ⟨hmark, Text.trim_trim text⟩

/-! ## The law -/

/-- The marks of a template cut it into pieces in just one way, from left to right, and no piece holds
a mark. Applied to any call, also to one with marks, the template is these pieces joined by the call;
applied to the mark itself it is its own text. Any strategy that was read is read again from what it
displays, and a template that was read always shows the call. -/
theorem a_template_is_its_pieces_joined_by_the_call (text : String) :
    (∃! pieces, Pieces mark text.toList pieces) ∧
    (∀ pieces, Pieces mark text.toList pieces → (∀ piece ∈ pieces, ¬ mark <:+: piece) ∧
      ∀ call, ((template text).apply call).toList = call.toList.intercalate pieces) ∧
    (template text).apply (String.ofList mark) = text ∧
    ∀ s, parse text = .ok s → parse s.display = .ok s ∧
      ∀ shown, s = template shown → ∀ call, call.toList <:+: (s.apply call).toList := by
  obtain ⟨pieces, hpieces⟩ := exists_pieces_of_ne_nil opensOnce_mark.ne_nil text.toList
  refine ⟨⟨pieces, hpieces, fun others hothers => hpieces.unique hothers⟩, ?_, ?_, ?_⟩
  · intro pieces hpieces
    refine ⟨hpieces.not_isInfix opensOnce_mark.ne_nil, fun call => ?_⟩
    rw [toList_apply_template, expand_eq hpieces]
  · rw [← String.toList_inj, toList_apply_template, expand_eq hpieces, String.toList_ofList,
      hpieces.intercalate_eq]
  · intro s hread
    refine ⟨parse_display hread, ?_⟩
    rintro shown rfl
    exact call_isInfix_apply ((parse_eq_template_iff _ _).mp hread).1

/-- Marks that touch, a broken mark between them and a call that holds a mark itself. -/
theorem a_broken_mark_is_kept :
    let text := "\x7bcall\x7d\x7bcall\x7d\x7bcal\x7bcall\x7d"
    let pieces := [[], [], "\x7bcal".toList, []]
    Pieces mark text.toList pieces ∧
      ((template text).apply "\x7bcall\x7d!").toList = "\x7bcall\x7d!".toList.intercalate pieces ∧
      parse text = .ok (template text) ∧
      "f()".toList <:+: ((template text).apply "f()").toList := by
  intro text pieces
  have hcut := opensOnce_mark.firstCut_iff
  have htext : text.toList = mark ++ (mark ++ ("\x7bcal".toList ++ mark ++ [])) := by decide
  have hpieces : Pieces mark text.toList pieces := by
    rw [htext]
    refine .cut ((hcut [] _).mpr (by decide)) (.cut ((hcut [] _).mpr (by decide)) ?_)
    exact .cut ((hcut "\x7bcal".toList []).mpr (by decide)) (.last (by decide))
  have hread : parse text = .ok (template text) :=
    (parse_eq_template_iff _ _).mpr ⟨by decide, by decide⟩
  obtain ⟨_, hfill, _, hagain⟩ := a_template_is_its_pieces_joined_by_the_call text
  exact ⟨hpieces, (hfill pieces hpieces).2 _, (hagain _ hread).1, (hagain _ hread).2 text rfl _⟩

end Strategy

end LogSweep
