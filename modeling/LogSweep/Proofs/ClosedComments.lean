-- Comments that hold a call. A comment that is put in place of a call closes at its own end exactly when
-- the call does not close it, whatever stands at the seams; then the reader of scripts passes all of
-- it as one comment. So it is with each edit of a plan and the slice that it replaces.
import LogSweep.Proofs.FirstPlaces
import LogSweep.Proofs.PlannedEdits
import LogSweep.Script.Cursor
import LogSweep.Strategy

namespace LogSweep

open Text

/-! ## Block comments -/

def commentOpening : List Char := "/*".toList

def commentClosing : List Char := "*/".toList

/-- One block comment and nothing else: the first closing behind the opening ends the text. -/
def IsBlockComment (text : List Char) : Prop :=
  ∃ rest body, text = commentOpening ++ rest ∧ FirstCut commentClosing rest body []

/-- A comment strategy, and what it puts in front of the comment. -/
inductive Strategy.CommentsBehind : Strategy → String → Prop
  | comment : CommentsBehind .comment ""
  | nullComment : CommentsBehind .nullComment "null "

theorem opensOnce_closing : OpensOnce commentClosing := ⟨'*', ['/'], rfl, by decide⟩

theorem isBlockComment_iff (body : List Char) :
    IsBlockComment (commentOpening ++ (body ++ commentClosing)) ↔ ¬ commentClosing <:+: body := by
  rw [← opensOnce_closing.firstCut_iff body [], List.append_nil]
  constructor
  · rintro ⟨rest, body', htext, hcut⟩
    obtain rfl := List.append_cancel_left htext
    have hbody := hcut.text_eq
    rw [List.append_nil] at hbody
    obtain rfl := List.append_cancel_right hbody
    exact hcut
  · intro hcut
    exact ⟨_, body, rfl, hcut⟩

/-- Blanks at the ends neither begin nor end a closing. -/
theorem closing_isInfix_padded (cs : List Char) :
    commentClosing <:+: ' ' :: (cs ++ [' ']) ↔ commentClosing <:+: cs := by
  have hfront : ¬ commentClosing <+: ' ' :: (cs ++ [' ']) := by
    intro h
    exact absurd (List.cons_prefix_cons.mp h).1 (by decide)
  have hback : ¬ commentClosing <:+ cs ++ [' '] := by
    rw [List.suffix_concat_iff]
    rintro (h | ⟨t, h, _⟩)
    · exact opensOnce_closing.ne_nil h
    · exact absurd (congrArg List.getLast? h) (by simp [commentClosing])
  rw [List.infix_cons_iff, List.infix_concat_iff, or_iff_right hfront, or_iff_right hback]

theorem toList_apply_comment (call : String) :
    (Strategy.comment.apply call).toList =
      commentOpening ++ (' ' :: (call.toList ++ [' ']) ++ commentClosing) := by
  simp [Strategy.apply, commentOpening, commentClosing]

theorem isBlockComment_comment (call : String) :
    IsBlockComment (Strategy.comment.apply call).toList ↔ ¬ commentClosing <:+: call.toList := by
  rw [toList_apply_comment, isBlockComment_iff, closing_isInfix_padded]

section

variable {s : Strategy} {lead : String}

theorem Strategy.CommentsBehind.apply_eq (h : s.CommentsBehind lead) (call : String) :
    s.apply call = lead ++ Strategy.comment.apply call := by
  cases h with
  | comment => simp [Strategy.apply]
  | nullComment => simp [Strategy.apply, ← String.toList_inj]

theorem Strategy.CommentsBehind.exists_comment_iff (h : s.CommentsBehind lead) (call : String) :
    (∃ comment : String, s.apply call = lead ++ comment ∧ IsBlockComment comment.toList) ↔
      ¬ commentClosing <:+: call.toList := by
  rw [← isBlockComment_comment, h.apply_eq]
  constructor
  · rintro ⟨comment, heq, hclosed⟩
    rw [← String.toList_inj, String.toList_append, String.toList_append] at heq
    rwa [List.append_cancel_left heq]
  · intro hclosed
    exact ⟨_, rfl, hclosed⟩

end

/-! ## Reading a comment -/

/-- The reader of scripts passes the whole text as one comment. -/
def ReadsAsComment (text : List Char) : Prop :=
  (Script.Cursor.ofSource text).nextComment =
    (true, ⟨[], byteLength text, [⟨⟨0, byteLength text⟩, false⟩], false⟩)

namespace Script

section Walk

variable {markup : Bool} {ends : List Char → Bool} {start : Nat} {landing : Landing}
  {comments : List Comment}

/-- A character that begins no closing is passed. -/
theorem walkGap_cons {c : Char} {cs : List Char} (h : ¬ commentClosing <+: c :: cs) (offset : Nat) :
    walkGap markup ends (.blockComment start landing) (c :: cs) offset comments =
      walkGap markup ends (.blockComment start landing) cs (offset + c.utf8Size) comments := by
  rw [walkGap]
  rintro rest rfl rfl
  exact h ⟨rest, rfl⟩

theorem walkGap_unclosed {cs : List Char} (h : ¬ commentClosing <:+: cs) (offset : Nat) :
    walkGap markup ends (.blockComment start landing) cs offset comments = landing := by
  induction cs generalizing offset with
  | nil => rw [walkGap]
  | cons c cs ih =>
    rw [List.infix_cons_iff, not_or] at h
    rw [walkGap_cons h.1, ih h.2]

theorem walkGap_firstCut {cs front back : List Char} (h : FirstCut commentClosing cs front back)
    (offset : Nat) :
    walkGap markup ends (.blockComment start landing) cs offset comments =
      walkGap markup ends (.blockComment start landing) (commentClosing ++ back)
        (offset + byteLength front) comments := by
  induction h using FirstCut.induction generalizing offset with
  | here => rfl
  | next c cs front _ hstart ih => rw [walkGap_cons hstart, ih, byteLength, Nat.add_assoc]

end Walk

end Script

/-- An unclosed comment is not passed at all. -/
theorem nextComment_unclosed {rest : List Char} (h : ¬ commentClosing <:+: rest) :
    (Script.Cursor.ofSource (commentOpening ++ rest)).nextComment.1 = false := by
  change (Script.walkGap false (fun _ => true) (.blockComment 0 _) rest 2 []).ended = false
  rw [Script.walkGap_unclosed h]

theorem nextComment_firstCut {rest front back : List Char}
    (h : FirstCut commentClosing rest front back) :
    (Script.Cursor.ofSource (commentOpening ++ rest)).nextComment =
      (true, ⟨back, 2 + byteLength front + 2, [⟨⟨0, 2 + byteLength front + 2⟩, false⟩], false⟩) := by
  change (fun l : Script.Landing => (l.ended, l.cursor))
    (Script.walkGap false (fun _ => true) (.blockComment 0 _) rest 2 []) = _
  rw [Script.walkGap_firstCut h]
  rfl

/-- Behind an opening the reader finds one comment exactly where there is one. -/
theorem readsAsComment_iff (rest : List Char) :
    ReadsAsComment (commentOpening ++ rest) ↔ IsBlockComment (commentOpening ++ rest) := by
  unfold ReadsAsComment
  constructor
  · intro hread
    have hclosed : commentClosing <:+: rest := by
      by_contra hfree
      have hnone := nextComment_unclosed hfree
      rw [hread] at hnone
      exact absurd hnone (by simp)
    obtain ⟨front, back, hcut⟩ := exists_firstCut hclosed
    rw [nextComment_firstCut hcut] at hread
    obtain rfl : back = [] := congrArg (fun r => r.2.rest) hread
    exact ⟨rest, front, rfl, hcut⟩
  · rintro ⟨rest', body, htext, hcut⟩
    obtain rfl := List.append_cancel_left htext
    have hlength : byteLength (commentOpening ++ rest) = 2 + byteLength body + 2 := by
      have hopening : byteLength commentOpening = 2 := rfl
      have hclosing : byteLength commentClosing = 2 := rfl
      rw [hcut.text_eq, List.append_nil, byteLength_append, byteLength_append, hopening, hclosing,
        Nat.add_assoc]
    rw [nextComment_firstCut hcut, hlength]

/-! ## Planned comments -/

/-- Each edit of a plan replaces a slice of the source by what is made of it. -/
theorem exists_slice_of_planned {source : String} {found : List Span} {replace : String → String}
    {extend : Bool} {edits : List Edit} (h : planEdits source found replace extend = .ok edits)
    {e : Edit} (he : e ∈ edits) :
    ∃ part, e.span.slice? source = some part ∧ e.text = replace part := by
  obtain ⟨hcut, rfl⟩ := planEdits_eq_ok_iff.mp h
  rw [planFrom_eq] at he
  obtain ⟨g, hg, rfl⟩ := List.mem_map.mp he
  obtain ⟨part, hpart⟩ := ((hcut.grow extend).2.fits g hg).exists_slice?
  exact ⟨part, hpart, by rw [hpart, Option.getD_some]⟩

/-! ## The law -/

/-- What a comment strategy makes of a call is, behind its lead, one block comment exactly when the
call holds no closing, and exactly then the reader of scripts passes all of it as one comment. So all
that a plan puts into a source are such comments exactly when no slice that it replaces holds a closing,
with the semicolons that the slices may have grown over. -/
theorem a_comment_closes_at_its_end_when_its_call_holds_no_closing (s : Strategy) (lead : String)
    (h : s.CommentsBehind lead) :
    (∀ call, ∃ comment : String, s.apply call = lead ++ comment ∧
      (IsBlockComment comment.toList ↔ ¬ commentClosing <:+: call.toList) ∧
      (ReadsAsComment comment.toList ↔ IsBlockComment comment.toList)) ∧
    ∀ source found extend edits, planEdits source found s.apply extend = .ok edits →
      (∀ e ∈ edits, ∃ part, e.span.slice? source = some part ∧ e.text = s.apply part) ∧
      ((∀ e ∈ edits, ∃ comment : String, e.text = lead ++ comment ∧ IsBlockComment comment.toList) ↔
        ∀ e ∈ edits, ∀ part, e.span.slice? source = some part →
          ¬ commentClosing <:+: part.toList) := by
  refine ⟨fun call => ?_, ?_⟩
  · refine ⟨_, h.apply_eq call, isBlockComment_comment call, ?_⟩
    rw [toList_apply_comment]
    exact readsAsComment_iff _
  · intro source found extend edits hplan
    refine ⟨fun e he => exists_slice_of_planned hplan he, forall₂_congr fun e he => ?_⟩
    obtain ⟨part, hpart, htext⟩ := exists_slice_of_planned hplan he
    rw [htext, h.exists_comment_iff, hpart]
    simp only [Option.some.injEq, forall_eq']

/-- A call with a closing in a string is not kept in its comment, while the call behind it is. -/
theorem a_closing_in_a_string_ends_the_comment :
    let edits : List Edit := [⟨⟨0, 8⟩, "null /* f('*/'); */"⟩, ⟨⟨8, 12⟩, "null /* g(1) */"⟩]
    planEdits "f('*/');g(1)" [⟨0, 7⟩, ⟨8, 12⟩] Strategy.nullComment.apply true = .ok edits ∧
      (¬ ∀ e ∈ edits, ∃ comment : String,
        e.text = "null " ++ comment ∧ IsBlockComment comment.toList) ∧
      ∃ comment : String, Strategy.nullComment.apply "g(1)" = "null " ++ comment ∧
        ReadsAsComment comment.toList := by
  intro edits
  have hplan : planEdits "f('*/');g(1)" [⟨0, 7⟩, ⟨8, 12⟩] Strategy.nullComment.apply true =
      .ok edits := by decide
  obtain ⟨hcalls, hplans⟩ := a_comment_closes_at_its_end_when_its_call_holds_no_closing
    .nullComment "null " .nullComment
  refine ⟨hplan, fun hall => ?_, ?_⟩
  · have hfree := (hplans _ _ _ _ hplan).2.mp hall ⟨⟨0, 8⟩, "null /* f('*/'); */"⟩ (by simp [edits])
    exact hfree "f('*/');" (by decide) (by decide)
  · obtain ⟨comment, heq, hclosed, hread⟩ := hcalls "g(1)"
    exact ⟨comment, heq, hread.mpr (hclosed.mpr (by decide))⟩

end LogSweep
