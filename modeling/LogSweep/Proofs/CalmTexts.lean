-- Texts with nothing but blanks, comments, semicolons and statements `null`. A gap of such a text
-- ends at its end, at a semicolon or at a `null`, and a semicolon may be left out behind a
-- `null` wherever none is written there.
import LogSweep.Proofs.ClosedComments

namespace LogSweep.Script

open Text

/-! ## Calm texts -/

/-- Whether a statement has to end where the text goes on like this: before any token or comment
there is a semicolon or a line feed, or, where `atEnd` says so, the end. -/
def breaksOff (atEnd : Bool) : List Char → Bool
  | [] => atEnd
  | c :: cs => c = ';' || c = '\n' || (isPlainBlank c && breaksOff atEnd cs)

/-- The word `null` before a text. -/
def behindNull (cs : List Char) : List Char := 'n' :: 'u' :: 'l' :: 'l' :: cs

/-- A closed comment before a text, in the form that a comment strategy gives it. -/
def behindComment (body cs : List Char) : List Char := '/' :: '*' :: (body ++ '*' :: '/' :: cs)

/-- A text of blanks, closed comments and semicolons. With `nulls` there may be statements of the
word `null` and a comment too, if each of them breaks off before the next one. -/
inductive Calm (nulls : Bool) : List Char → Prop
  | nil : Calm nulls []
  | blank {c cs} (h : isPlainBlank c = true) (rest : Calm nulls cs) : Calm nulls (c :: cs)
  | stop {cs} (rest : Calm nulls cs) : Calm nulls (';' :: cs)
  | comment {body cs} (h : ¬ commentClosing <:+: body) (rest : Calm nulls cs) :
      Calm nulls (behindComment body cs)
  | lineComment {body cs} (h : ∀ c ∈ body, endsLineComment c = false) (rest : Calm nulls cs) :
      Calm nulls ('/' :: '/' :: (body ++ '\n' :: cs))
  | null {body cs} (hnulls : nulls = true) (h : ¬ commentClosing <:+: body)
      (hbreaks : breaksOff true cs = true) (rest : Calm nulls cs) :
      Calm nulls (behindNull (' ' :: behindComment body cs))

/-- What a calm text may go on with where no blank and no comment stands. -/
inductive Stands (nulls : Bool) : List Char → Prop
  | nil : Stands nulls []
  | stop {cs} (rest : Calm nulls cs) : Stands nulls (';' :: cs)
  | null {body cs} (h : ¬ commentClosing <:+: body) (hbreaks : breaksOff true cs = true)
      (rest : Calm nulls cs) : Stands nulls (behindNull (' ' :: behindComment body cs))

variable {nulls : Bool}

theorem Calm.append {gap cs : List Char} (hgap : Calm false gap) (h : Calm nulls cs) :
    Calm nulls (gap ++ cs) := by
  induction hgap with
  | nil => exact h
  | blank hc _ ih => exact .blank hc ih
  | stop _ ih => exact .stop ih
  | comment hbody _ ih =>
    simp only [behindComment, List.cons_append, List.append_assoc]
    exact .comment hbody ih
  | lineComment hbody _ ih =>
    simp only [List.cons_append, List.append_assoc]
    exact .lineComment hbody ih
  | null hnulls => exact absurd hnulls (by simp)

theorem isPlainBlank_cases {c : Char} (h : isPlainBlank c = true) :
    c ≠ '/' ∧ c ≠ '<' ∧ c ≠ '-' ∧ c ≠ ';' ∧ c ≠ '}' ∧ c ≠ '\x00' ∧ c ≠ 'n' := by
  refine ⟨?_, ?_, ?_, ?_, ?_, ?_, ?_⟩ <;> (rintro rfl; exact absurd h (by decide))

theorem Calm.of_blank {c : Char} {cs : List Char} (hc : isPlainBlank c = true)
    (h : Calm nulls (c :: cs)) : Calm nulls cs := by
  obtain ⟨hslash, -, -, hstop, -, -, hn⟩ := isPlainBlank_cases hc
  cases h with
  | blank _ rest => exact rest
  | stop => exact absurd rfl hstop
  | comment => exact absurd rfl hslash
  | lineComment => exact absurd rfl hslash
  | null => exact absurd rfl hn

theorem breaksOff_append {gap : List Char} (h : breaksOff false gap = true) (atEnd : Bool)
    (cs : List Char) : breaksOff atEnd (gap ++ cs) = true := by
  induction gap with
  | nil => simp [breaksOff] at h
  | cons c gap ih =>
    simp only [List.cons_append, breaksOff, Bool.or_eq_true, Bool.and_eq_true] at h ⊢
    exact h.imp_right (And.imp_right ih)

/-! ## The walk over a gap -/

section Walk

variable {markup : Bool} {ends : List Char → Bool}

theorem walkGap_blank {c : Char} (h : isPlainBlank c = true) (plain : Bool) (cs : List Char)
    (offset : Nat) (comments : List Comment) :
    walkGap markup ends (.blanks plain) (c :: cs) offset comments =
      walkGap markup ends (.blanks plain) cs (offset + c.utf8Size) comments := by
  obtain ⟨hslash, hless, hminus, -⟩ := isPlainBlank_cases h
  rw [walkGap]
  · simp [isBlank, keepsPlain, h]
  · rintro _ rfl
    exact fun _ => hslash rfl
  · rintro _ rfl
    exact fun _ => hslash rfl
  · rintro _ rfl
    exact fun _ => hless rfl
  · rintro _ rfl
    exact fun _ => hminus rfl

variable (markup ends) in
theorem walkGap_comment {body : List Char} (h : ¬ commentClosing <:+: body) (plain : Bool)
    (cs : List Char) (offset : Nat) (comments : List Comment) :
    ∃ offset' comments',
      walkGap markup ends (.blanks plain) (behindComment body cs) offset comments =
        if ends cs then ⟨⟨cs, offset', comments', false⟩, true, true⟩
        else walkGap markup ends (.blanks true) cs offset' comments' := by
  have hcut : FirstCut commentClosing (body ++ '*' :: '/' :: cs) body cs := by
    have := (opensOnce_closing.firstCut_iff body cs).mpr h
    rwa [List.append_assoc] at this
  rw [behindComment, walkGap, walkGap_firstCut hcut]
  exact ⟨_, _, rfl⟩

variable (markup ends) in
theorem walkGap_lineComment {body : List Char} (h : ∀ c ∈ body, endsLineComment c = false)
    (start : Nat) (cs : List Char) (offset : Nat) (comments : List Comment) :
    ∃ offset' offset'' comments',
      walkGap markup ends (.lineComment start) (body ++ '\n' :: cs) offset comments =
        if ends ('\n' :: cs) then ⟨⟨'\n' :: cs, offset', comments', false⟩, true, true⟩
        else walkGap markup ends (.blanks true) cs offset'' comments' := by
  induction body generalizing offset with
  | nil => exact ⟨_, _, _, rfl⟩
  | cons c body ih =>
    rw [List.forall_mem_cons] at h
    rw [List.cons_append, walkGap, if_neg (by simp [h.1])]
    exact ih h.2 _

variable (markup ends) in
/-- A gap of a calm text ends at the end of the text, at a semicolon or at a `null`, if it is not
ended before, behind one of its comments; then what follows is calm. -/
theorem Calm.walkGap_spec {cs : List Char} (h : Calm nulls cs) (plain : Bool) (offset : Nat)
    (comments : List Comment) :
    ∃ l, walkGap markup ends (.blanks plain) cs offset comments = l ∧
      l.cursor.rest.length ≤ cs.length ∧
      ((l.ended = true ∧ ends l.cursor.rest = true ∧ Calm nulls l.cursor.rest) ∨
        (l.ended = false ∧ Stands nulls l.cursor.rest)) := by
  induction h generalizing plain offset comments with
  | nil => exact ⟨_, rfl, Nat.le_refl _, .inr ⟨rfl, .nil⟩⟩
  | blank hc rest ih =>
    rw [walkGap_blank hc]
    obtain ⟨l, hl, hle, hcases⟩ := ih plain _ comments
    exact ⟨l, hl, Nat.le_succ_of_le hle, hcases⟩
  | stop rest => exact ⟨_, rfl, Nat.le_refl _, .inr ⟨rfl, .stop rest⟩⟩
  | @comment body cs hbody rest ih =>
    obtain ⟨offset', comments', hwalk⟩ :=
      walkGap_comment markup ends hbody plain cs offset comments
    rw [hwalk]
    split
    · rename_i hends
      refine ⟨_, rfl, ?_, .inl ⟨rfl, hends, rest⟩⟩
      simp only [behindComment, List.length_cons, List.length_append]
      omega
    · obtain ⟨l, hl, hle, hcases⟩ := ih true offset' comments'
      refine ⟨l, hl, ?_, hcases⟩
      simp only [behindComment, List.length_cons, List.length_append]
      omega
  | @lineComment body cs hbody rest ih =>
    rw [walkGap]
    obtain ⟨offset', offset'', comments', hwalk⟩ :=
      walkGap_lineComment markup ends hbody offset cs (offset + 2) comments
    rw [hwalk]
    split
    · rename_i hends
      refine ⟨_, rfl, ?_, .inl ⟨rfl, hends, .blank (by decide) rest⟩⟩
      simp only [List.length_cons, List.length_append]
      omega
    · obtain ⟨l, hl, hle, hcases⟩ := ih true offset'' comments'
      refine ⟨l, hl, ?_, hcases⟩
      simp only [List.length_cons, List.length_append]
      omega
  | null _ hbody hbreaks rest =>
    exact ⟨_, rfl, Nat.le_refl _, .inr ⟨rfl, .null hbody hbreaks rest⟩⟩

/-! ## The walk that looks for a place to end -/

theorem walk_nextBlockComment {text body back : List Char}
    (h : FirstCut commentClosing text body back)
    (hwalk : Semicolon.walk false .nextBlockComment text = false) :
    Semicolon.walk false .nextLine back = false := by
  induction h using FirstCut.induction with
  | here => exact hwalk
  | next c text body _ hstart ih =>
    rw [Semicolon.walk] at hwalk
    · split at hwalk
      · exact absurd hwalk (by simp)
      · exact ih hwalk
    · rintro rest rfl rfl
      exact hstart ⟨rest, rfl⟩

theorem walk_nextLineComment {body cs : List Char} (h : ∀ c ∈ body, endsLineComment c = false)
    (hwalk : Semicolon.walk false .nextLineComment (body ++ '\n' :: cs) = false) :
    Semicolon.walk false .nextLine cs = false := by
  induction body with
  | nil => exact hwalk
  | cons c body ih =>
    rw [List.forall_mem_cons] at h
    have hc : c ≠ '\n' := by
      rintro rfl
      exact absurd h.1 (by decide)
    rw [List.cons_append, Semicolon.walk, if_neg hc] at hwalk
    split at hwalk
    · exact absurd hwalk (by simp)
    · exact ih h.2 hwalk

theorem walk_blank {c : Char} (hc : isPlainBlank c = true) (lenient : Bool) (cs : List Char) :
    Semicolon.walk lenient .nextLine (c :: cs) = Semicolon.walk lenient .nextLine cs := by
  obtain ⟨hslash, -⟩ := isPlainBlank_cases hc
  rw [Semicolon.walk, if_pos hc]
  · rintro _ rfl
    exact fun _ => hslash rfl
  · rintro _ rfl
    exact fun _ => hslash rfl

variable (markup ends) in
/-- On a later line of a calm text only a semicolon keeps a statement from ending. -/
theorem Calm.stop_of_nextLine {cs : List Char} (h : Calm nulls cs)
    (hwalk : Semicolon.walk false .nextLine cs = false) (plain : Bool) (offset : Nat)
    (comments : List Comment) :
    ∃ l, walkGap markup ends (.blanks plain) cs offset comments = l ∧
      (l.ended = false → ∃ more, l.cursor.rest = ';' :: more) := by
  induction h generalizing plain offset comments with
  | nil => exact absurd hwalk (by simp [Semicolon.walk])
  | blank hc _ ih =>
    rw [walk_blank hc] at hwalk
    rw [walkGap_blank hc]
    exact ih hwalk plain _ comments
  | stop => exact ⟨_, rfl, fun _ => ⟨_, rfl⟩⟩
  | @comment body cs hbody _ ih =>
    have hcut := (opensOnce_closing.firstCut_iff body cs).mpr hbody
    rw [List.append_assoc] at hcut
    have hrest : Semicolon.walk false .nextLine cs = false := walk_nextBlockComment hcut hwalk
    obtain ⟨offset', comments', hgap⟩ :=
      walkGap_comment markup ends hbody plain cs offset comments
    rw [hgap]
    split
    · exact ⟨_, rfl, fun hended => absurd hended (by simp)⟩
    · exact ih hrest true offset' comments'
  | @lineComment body cs hbody _ ih =>
    have hrest : Semicolon.walk false .nextLine cs = false := walk_nextLineComment hbody hwalk
    obtain ⟨offset', offset'', comments', hgap⟩ :=
      walkGap_lineComment markup ends hbody offset cs (offset + 2) comments
    rw [walkGap, hgap]
    split
    · exact ⟨_, rfl, fun hended => absurd hended (by simp)⟩
    · exact ih hrest true offset'' comments'
  | null =>
    exact absurd hwalk
      (by simp [behindNull, Semicolon.walk, Semicolon.startsStatement, isPlainBlank])

theorem walk_sameLine {c : Char} (hc : isPlainBlank c = true) (lenient : Bool) (cs : List Char) :
    Semicolon.walk lenient .sameLine (c :: cs) =
      Semicolon.walk lenient (if isLineEnd c then .nextLine else .sameLine) cs := by
  obtain ⟨hslash, -, -, -, hbrace, hnul, -⟩ := isPlainBlank_cases hc
  rw [Semicolon.walk, if_neg (by simp [hbrace, hnul])]
  · split <;> rfl
  · rintro _ rfl
    exact fun _ => hslash rfl
  · rintro _ rfl
    exact fun _ => hslash rfl

variable (markup ends) in
/-- So it is behind a `null` that breaks off. -/
theorem Calm.stop_of_sameLine {cs : List Char} (h : Calm nulls cs)
    (hbreaks : breaksOff true cs = true) (hwalk : Semicolon.walk false .sameLine cs = false)
    (plain : Bool) (offset : Nat) (comments : List Comment) :
    ∃ l, walkGap markup ends (.blanks plain) cs offset comments = l ∧
      (l.ended = false → ∃ more, l.cursor.rest = ';' :: more) := by
  induction cs generalizing plain offset with
  | nil => exact absurd hwalk (by simp [Semicolon.walk])
  | cons c cs ih =>
    by_cases hc : isPlainBlank c = true
    · have hcalm := h.of_blank hc
      rw [walk_sameLine hc] at hwalk
      rw [walkGap_blank hc]
      split at hwalk
      · exact hcalm.stop_of_nextLine markup ends hwalk plain _ comments
      · rename_i hline
        refine ih hcalm ?_ hwalk plain _
        have hstop : c ≠ ';' := (isPlainBlank_cases hc).2.2.2.1
        have hfeed : c ≠ '\n' := by
          rintro rfl
          exact hline (by decide)
        simpa [breaksOff, hstop, hfeed, hc] using hbreaks
    · have hstop : c = ';' := by
        have hfeed : c ≠ '\n' := by
          rintro rfl
          exact hc (by decide)
        simpa [breaksOff, hfeed, hc] using hbreaks
      subst hstop
      exact ⟨_, rfl, fun _ => ⟨_, rfl⟩⟩

end Walk

theorem Cursor.land_eq (c : Cursor) :
    c.land true true =
      if semicolonImplied true c.rest then ⟨c, true, true⟩
      else walkGap false (semicolonImplied true) (.blanks true) c.rest c.offset c.comments :=
  rfl

/-- What stands behind a `null` and its comment: the statement ends there or behind a comment, or a
semicolon comes next. -/
theorem land_behind_null {c : Cursor} {body cs : List Char}
    (hc : c.rest = ' ' :: behindComment body cs) (hbody : ¬ commentClosing <:+: body)
    (hbreaks : breaksOff true cs = true) (h : Calm nulls cs) :
    ∃ l, c.land true true = l ∧ l.cursor.rest.length ≤ c.rest.length ∧
      ((l.ended = true ∧ Calm nulls l.cursor.rest) ∨
        (l.ended = false ∧ ∃ more, l.cursor.rest = ';' :: more ∧ Calm nulls more)) := by
  have hshorter : cs.length ≤ c.rest.length := by
    rw [hc, behindComment]
    simp only [List.length_cons, List.length_append]
    omega
  rw [c.land_eq]
  split
  · exact ⟨_, rfl, Nat.le_refl _, .inl ⟨rfl, hc ▸ .blank (by decide) (.comment hbody h)⟩⟩
  · rw [hc, walkGap_blank (by decide), ← hc]
    obtain ⟨offset, comments, hgap⟩ := walkGap_comment false (semicolonImplied true) hbody true cs
      (c.offset + ' '.utf8Size) c.comments
    rw [hgap]
    split
    · exact ⟨_, rfl, hshorter, .inl ⟨rfl, h⟩⟩
    · rename_i hgoes
      have hwalk : Semicolon.walk false .sameLine cs = false := eq_false_of_ne_true hgoes
      obtain ⟨l, hl, hle, hcases⟩ :=
        h.walkGap_spec false (semicolonImplied true) true offset comments
      obtain ⟨l', hl', hstop⟩ :=
        h.stop_of_sameLine false (semicolonImplied true) hbreaks hwalk true offset comments
      obtain rfl := hl.symm.trans hl'
      refine ⟨l, hl, Nat.le_trans hle hshorter, ?_⟩
      rcases hcases with ⟨hended, _, hcalm⟩ | ⟨hended, hstands⟩
      · exact .inl ⟨hended, hcalm⟩
      · obtain ⟨more, hmore⟩ := hstop hended
        rw [hmore] at hstands
        cases hstands with
        | stop rest => exact .inr ⟨hended, more, hmore, rest⟩

end LogSweep.Script
