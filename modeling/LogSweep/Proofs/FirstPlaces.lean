-- Where a part stands first in a text. A text that holds the part is cut at its first place in just one
-- way, and what stands behind the place is cut again, until no piece holds the part. Where a part
-- opens with a character that does not come again in it, no two of its places overlap.
import Mathlib.Data.List.Infix
import LogSweep.Text

namespace LogSweep.Text

/-! ## The first place -/

/-- A text cut at the first place of a part. -/
structure FirstCut (part text front back : List Char) : Prop where
  text_eq : text = front ++ part ++ back
  first : ∀ f b, text = f ++ part ++ b → front.length ≤ f.length

theorem contains_iff (part cs : List Char) : contains part cs = true ↔ part <:+: cs := by
  induction cs with
  | nil => simp [contains]
  | cons c cs ih =>
    rw [contains, Bool.or_eq_true, List.isPrefixOf_iff_prefix, ih, List.infix_cons_iff]

theorem FirstCut.here (part back : List Char) : FirstCut part (part ++ back) [] back :=
  ⟨rfl, fun _ _ _ => Nat.zero_le _⟩

theorem FirstCut.nil {part cs : List Char} (h : part <+: cs) :
    ∃ back, FirstCut part cs [] back := by
  obtain ⟨back, rfl⟩ := h
  exact ⟨back, .here part back⟩

/-- The first place stays the first behind one more character, unless the part now stands at once. -/
theorem FirstCut.cons {part text front back : List Char} (h : FirstCut part text front back)
    {c : Char} (hc : ¬ part <+: c :: text) : FirstCut part (c :: text) (c :: front) back := by
  refine ⟨by rw [h.text_eq]; rfl, ?_⟩
  intro f b heq
  cases f with
  | nil => exact absurd ⟨b, heq.symm⟩ hc
  | cons d f =>
    rw [List.cons_append, List.cons_append] at heq
    exact Nat.succ_le_succ (h.first f b (List.cons.inj heq).2)

theorem FirstCut.of_cons {part text front back : List Char} {c : Char}
    (h : FirstCut part (c :: text) (c :: front) back) :
    FirstCut part text front back ∧ ¬ part <+: c :: text := by
  refine ⟨⟨?_, ?_⟩, ?_⟩
  · have heq := h.text_eq
    rw [List.cons_append, List.cons_append] at heq
    exact (List.cons.inj heq).2
  · intro f b heq
    have hle := h.first (c :: f) b (by rw [heq]; rfl)
    exact Nat.le_of_succ_le_succ hle
  · rintro ⟨b, heq⟩
    have hle := h.first [] b heq.symm
    simp at hle

/-- What holds at the place, and of one more character in front where the part does not stand at once,
holds of every first place. -/
theorem FirstCut.induction {part back : List Char}
    {motive : (text front : List Char) → FirstCut part text front back → Prop}
    (here : motive (part ++ back) [] (.here part back))
    (next : ∀ c text front (h : FirstCut part text front back) (hstart : ¬ part <+: c :: text),
      motive text front h → motive (c :: text) (c :: front) (h.cons hstart))
    {text front : List Char} (h : FirstCut part text front back) : motive text front h := by
  induction front generalizing text with
  | nil =>
    obtain rfl : text = part ++ back := h.text_eq
    exact here
  | cons c front ih =>
    cases text with
    | nil => exact absurd h.text_eq.symm (by simp)
    | cons d text =>
      obtain rfl : d = c := (List.cons.inj h.text_eq).1
      obtain ⟨hrest, hstart⟩ := h.of_cons
      exact next d text front hrest hstart (ih hrest)

theorem FirstCut.isInfix {part text front back : List Char} (h : FirstCut part text front back) :
    part <:+: text := ⟨front, back, h.text_eq.symm⟩

/-- A part that is not empty is not in front of its first place. -/
theorem FirstCut.not_isInfix {part text front back : List Char} (hpart : part ≠ [])
    (h : FirstCut part text front back) : ¬ part <:+: front := by
  rintro ⟨f, b, rfl⟩
  have hle := h.first f (b ++ part ++ back) (by rw [h.text_eq]; simp)
  have hpos := List.length_pos_iff.mpr hpart
  rw [List.length_append, List.length_append] at hle
  omega

theorem exists_firstCut {part text : List Char} (h : part <:+: text) :
    ∃ front back, FirstCut part text front back := by
  induction text with
  | nil =>
    obtain rfl := List.eq_nil_of_infix_nil h
    exact ⟨[], FirstCut.nil List.nil_prefix⟩
  | cons c cs ih =>
    by_cases hc : part <+: c :: cs
    · exact ⟨[], FirstCut.nil hc⟩
    · obtain ⟨front, back, hcut⟩ := ih ((List.infix_cons_iff.mp h).resolve_left hc)
      exact ⟨c :: front, back, hcut.cons hc⟩

theorem FirstCut.unique {part text front back f b : List Char} (h : FirstCut part text front back)
    (h' : FirstCut part text f b) : f = front ∧ b = back := by
  have hle := h.first f b h'.text_eq
  have hge := h'.first front back h.text_eq
  have heq : f ++ (part ++ b) = front ++ (part ++ back) := by
    rw [← List.append_assoc, ← List.append_assoc, ← h.text_eq, ← h'.text_eq]
  obtain ⟨hfront, hrest⟩ := List.append_inj heq (Nat.le_antisymm hge hle)
  exact ⟨hfront, List.append_cancel_left hrest⟩

/-! ## Parts that do not overlap themselves -/

/-- The first character of the part does not come again in it. -/
def OpensOnce (part : List Char) : Prop := ∃ c cs, part = c :: cs ∧ c ∉ cs

theorem OpensOnce.ne_nil {part : List Char} (h : OpensOnce part) : part ≠ [] := by
  obtain ⟨c, cs, rfl, _⟩ := h
  exact List.cons_ne_nil c cs

/-- A place before another one ends before it. -/
theorem OpensOnce.isInfix_of_earlier {part f b front back : List Char} (h : OpensOnce part)
    (heq : f ++ part ++ b = front ++ part ++ back) (hlt : f.length < front.length) :
    part <:+: front := by
  obtain ⟨c, cs, rfl, hc⟩ := h
  rw [List.append_assoc, List.append_assoc] at heq
  rcases List.append_eq_append_iff.mp heq with ⟨m, rfl, hm⟩ | ⟨m, rfl, _⟩
  · cases m with
    | nil => simp at hlt
    | cons d m =>
      simp only [List.cons_append, List.cons.injEq] at hm
      obtain ⟨rfl, hm⟩ := hm
      rcases List.append_eq_append_iff.mp hm with ⟨n, rfl, _⟩ | ⟨n, hn, hback⟩
      · exact ⟨f, n, by simp⟩
      · -- Else the later place would begin inside the earlier one, or just behind it.
        cases n with
        | nil =>
          rw [List.append_nil] at hn
          exact ⟨f, [], by simp [hn]⟩
        | cons e n =>
          rw [List.cons_append, List.cons.injEq] at hback
          exact absurd (by simp [hn, hback.1]) hc
  · rw [List.length_append] at hlt
    omega

theorem OpensOnce.firstCut_iff {part : List Char} (h : OpensOnce part) (front back : List Char) :
    FirstCut part (front ++ part ++ back) front back ↔ ¬ part <:+: front := by
  constructor
  · exact FirstCut.not_isInfix h.ne_nil
  · intro hfree
    refine ⟨rfl, fun f b heq => ?_⟩
    by_contra hlt
    exact hfree (h.isInfix_of_earlier heq.symm (by omega))

/-! ## Pieces -/

/-- The pieces of a text between the places of a mark: the text is cut at the first place, and what
stands behind it is cut in the same way. -/
inductive Pieces (mark : List Char) : List Char → List (List Char) → Prop
  | last {text : List Char} (h : ¬ mark <:+: text) : Pieces mark text [text]
  | cut {text front back : List Char} {pieces : List (List Char)}
      (hcut : FirstCut mark text front back) (hrest : Pieces mark back pieces) :
      Pieces mark text (front :: pieces)

theorem Pieces.ne_nil {mark text : List Char} {pieces : List (List Char)}
    (h : Pieces mark text pieces) : pieces ≠ [] := by
  cases h with
  | last => exact List.cons_ne_nil _ _
  | cut => exact List.cons_ne_nil _ _

theorem exists_pieces_of_ne_nil {mark : List Char} (hmark : mark ≠ []) (text : List Char) :
    ∃ pieces, Pieces mark text pieces := by
  by_cases h : mark <:+: text
  · obtain ⟨front, back, hcut⟩ := exists_firstCut h
    have hshorter : back.length < text.length := by
      have hpos := List.length_pos_iff.mpr hmark
      rw [hcut.text_eq, List.length_append, List.length_append]
      omega
    obtain ⟨pieces, hrest⟩ := exists_pieces_of_ne_nil hmark back
    exact ⟨front :: pieces, .cut hcut hrest⟩
  · exact ⟨[text], .last h⟩
termination_by text.length

theorem Pieces.unique {mark text : List Char} {pieces others : List (List Char)}
    (h : Pieces mark text pieces) (h' : Pieces mark text others) : others = pieces := by
  induction h generalizing others with
  | last hfree =>
    cases h' with
    | last => rfl
    | cut hcut => exact absurd hcut.isInfix hfree
  | cut hcut _ ih =>
    cases h' with
    | last hfree => exact absurd hcut.isInfix hfree
    | cut hcut' hrest' =>
      obtain ⟨rfl, rfl⟩ := hcut.unique hcut'
      rw [ih hrest']

/-- Nothing is lost but the marks. -/
theorem Pieces.intercalate_eq {mark text : List Char} {pieces : List (List Char)}
    (h : Pieces mark text pieces) : mark.intercalate pieces = text := by
  induction h with
  | last => simp
  | cut hcut hrest ih =>
    rw [List.intercalate_cons_of_ne_nil hrest.ne_nil, ih, hcut.text_eq]

theorem Pieces.not_isInfix {mark text : List Char} {pieces : List (List Char)}
    (hmark : mark ≠ []) (h : Pieces mark text pieces) :
    ∀ piece ∈ pieces, ¬ mark <:+: piece := by
  induction h with
  | last hfree => simpa using hfree
  | cut hcut _ ih =>
    exact List.forall_mem_cons.mpr ⟨hcut.not_isInfix hmark, ih⟩

end LogSweep.Text
