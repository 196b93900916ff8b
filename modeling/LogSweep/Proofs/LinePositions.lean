-- Lines and columns. The starts of lines ascend, so a search among them ends behind the last one that
-- is not past an offset, whether it hits that start or misses it. The line then counts the newlines
-- before the offset, and the column the bytes after the last of them.
import Mathlib.Data.List.Infix
import Mathlib.Data.Prod.Lex
import LogSweep.Lines

namespace LogSweep

namespace Lines

/-! ## Searching -/

/-- What a search tells of ascending numbers. At an index that is hit stands the number itself; a
number that is missed stands nowhere, and at the index only larger ones begin. -/
def Found.Tells (xs : List Nat) (x : Nat) : Found → Prop
  | .hit index => xs[index]? = some x
  | .miss index => index ≤ xs.length ∧
      ∀ j y, xs[j]? = some y → (j < index → y < x) ∧ (index ≤ j → x < y)

theorem lt_of_ascending {xs : List Nat} (hxs : xs.Pairwise (· < ·)) {i j x y : Nat}
    (hx : xs[i]? = some x) (hy : xs[j]? = some y) (hij : i < j) : x < y := by
  obtain ⟨hi, rfl⟩ := List.getElem?_eq_some_iff.mp hx
  obtain ⟨hj, rfl⟩ := List.getElem?_eq_some_iff.mp hy
  exact List.pairwise_iff_getElem.mp hxs i j hi hj hij

/-- Halving the range keeps smaller numbers before it and larger ones behind it. -/
theorem searchBetween_tells {xs : List Nat} (hxs : xs.Pairwise (· < ·)) {x low high : Nat}
    (hhigh : high ≤ xs.length) (hlow : low ≤ high)
    (hfront : ∀ j y, xs[j]? = some y → j < low → y < x)
    (hback : ∀ j y, xs[j]? = some y → high ≤ j → x < y) :
    (searchBetween xs x low high hhigh).Tells xs x := by
  fun_induction searchBetween xs x low high hhigh with
  | case1 low high hhigh hlt middle hmiddle heq =>
    exact heq ▸ List.getElem?_eq_getElem hmiddle
  | case2 low high hhigh hlt middle hmiddle hne hless ih =>
    refine ih (by omega) ?_ hback
    intro j y hy hj
    rcases Nat.lt_or_eq_of_le (Nat.le_of_lt_succ hj) with hj | rfl
    · exact Nat.lt_trans (lt_of_ascending hxs hy (List.getElem?_eq_getElem hmiddle) hj) hless
    · rw [List.getElem?_eq_getElem hmiddle, Option.some.injEq] at hy
      exact hy ▸ hless
  | case3 low high hhigh hlt middle hmiddle hne hless ih =>
    refine ih (by omega) hfront ?_
    have hmore : x < xs[middle] := by omega
    intro j y hy hj
    rcases Nat.lt_or_eq_of_le hj with hj | rfl
    · exact Nat.lt_trans hmore (lt_of_ascending hxs (List.getElem?_eq_getElem hmiddle) hy hj)
    · rw [List.getElem?_eq_getElem hmiddle, Option.some.injEq] at hy
      exact hy ▸ hmore
  | case4 low high hhigh hge =>
    refine ⟨by omega, fun j y hy => ⟨hfront j y hy, fun hj => hback j y hy (by omega)⟩⟩

theorem search_tells {xs : List Nat} (hxs : xs.Pairwise (· < ·)) (x : Nat) :
    (search xs x).Tells xs x := by
  refine searchBetween_tells hxs (Nat.le_refl _) (Nat.zero_le _) (by omega) ?_
  intro j y hy hj
  rw [List.getElem?_eq_none hj] at hy
  simp at hy

/-- Hit or miss, the numbers that are not past `x` stand before the line that a search comes to. -/
theorem Found.Tells.cut {xs : List Nat} (hxs : xs.Pairwise (· < ·)) {x : Nat} {r : Found}
    (h : r.Tells xs x) :
    r.line ≤ xs.length ∧ ∀ j y, xs[j]? = some y → (j < r.line ↔ y ≤ x) := by
  cases r with
  | hit index =>
    have hindex : index < xs.length := (List.getElem?_eq_some_iff.mp h).1
    refine ⟨hindex, fun j y hy => ?_⟩
    simp only [line]
    rcases Nat.lt_trichotomy j index with hj | rfl | hj
    · have hlt := lt_of_ascending hxs hy h hj
      omega
    · obtain rfl : y = x := Option.some.inj (hy.symm.trans h)
      omega
    · have hlt := lt_of_ascending hxs h hy hj
      omega
  | miss index =>
    refine ⟨h.1, fun j y hy => ?_⟩
    have hsides := h.2 j y hy
    simp only [line]
    omega

/-- So every such search comes to the same line. -/
theorem Found.Tells.line_eq {xs : List Nat} (hxs : xs.Pairwise (· < ·)) {x : Nat} {r : Found}
    (h : r.Tells xs x) : r.line = xs.countP (· ≤ x) := by
  obtain ⟨hlength, hcut⟩ := h.cut hxs
  have hfront : (xs.take r.line).countP (· ≤ x) = (xs.take r.line).length := by
    rw [List.countP_eq_length]
    intro y hy
    obtain ⟨j, hj, rfl⟩ := List.mem_take_iff_getElem.mp hy
    simpa using (hcut j _ (List.getElem?_eq_getElem _)).mp (by omega)
  have hback : (xs.drop r.line).countP (· ≤ x) = 0 := by
    rw [List.countP_eq_zero]
    intro y hy
    obtain ⟨j, hj, rfl⟩ := List.mem_drop_iff_getElem.mp hy
    have hlt : r.line + j < xs.length := by omega
    have hpast := (hcut _ _ (List.getElem?_eq_getElem hlt)).not.mp (by omega)
    simpa using hpast
  rw [← List.take_append_drop r.line xs, List.countP_append, hfront, hback, List.length_take]
  omega

/-! ## The starts of lines -/

theorem mem_afterNewlines {k s : Nat} {bs : List UInt8} :
    s ∈ afterNewlines k bs ↔ ∃ i, bs[i]? = some 10 ∧ s = k + i + 1 := by
  induction bs generalizing k with
  | nil => simp [afterNewlines]
  | cons b bs ih =>
    have hstep : (∃ i, (b :: bs)[i]? = some 10 ∧ s = k + i + 1) ↔
        (b = 10 ∧ s = k + 1) ∨ ∃ i, bs[i]? = some 10 ∧ s = k + 1 + i + 1 := by
      constructor
      · rintro ⟨_ | i, hi, rfl⟩
        · exact Or.inl ⟨by simpa using hi, rfl⟩
        · exact Or.inr ⟨i, by simpa using hi, by omega⟩
      · rintro (⟨rfl, rfl⟩ | ⟨i, hi, rfl⟩)
        · exact ⟨0, rfl, rfl⟩
        · exact ⟨i + 1, by simpa using hi, by omega⟩
    rw [hstep, afterNewlines, ← ih]
    by_cases hb : b = 10 <;> simp [hb]

theorem ascending_afterNewlines (k : Nat) (bs : List UInt8) :
    (afterNewlines k bs).Pairwise (· < ·) := by
  induction bs generalizing k with
  | nil => simp [afterNewlines]
  | cons b bs ih =>
    rw [afterNewlines]
    split
    · refine List.pairwise_cons.mpr ⟨fun s hs => ?_, ih (k + 1)⟩
      obtain ⟨i, _, rfl⟩ := mem_afterNewlines.mp hs
      omega
    · exact ih (k + 1)

theorem ascending_starts (source : String) : (ofSource source).starts.Pairwise (· < ·) := by
  refine List.pairwise_cons.mpr ⟨fun s hs => ?_, ascending_afterNewlines _ _⟩
  obtain ⟨i, _, rfl⟩ := mem_afterNewlines.mp hs
  omega

/-- As many lines start after `k` up to `k + n` as there are newlines in `n` bytes. -/
theorem countP_afterNewlines (k n : Nat) (bs : List UInt8) :
    (afterNewlines k bs).countP (· ≤ k + n) = (bs.take n).count 10 := by
  induction bs generalizing k n with
  | nil => simp [afterNewlines]
  | cons b bs ih =>
    cases n with
    | zero =>
      rw [List.take_zero, List.count_nil, List.countP_eq_zero]
      intro s hs
      obtain ⟨i, _, rfl⟩ := mem_afterNewlines.mp hs
      rw [decide_eq_true_eq]
      omega
    | succ n =>
      have hrest := ih (k + 1) n
      rw [show k + 1 + n = k + (n + 1) by omega] at hrest
      rw [List.take_succ_cons, List.count_cons, ← hrest, afterNewlines]
      by_cases hb : b = 10
      · rw [if_pos hb, List.countP_cons_of_pos (by simp), hb]
        simp
      · rw [if_neg hb]
        simp [hb]

/-! ## The line of an offset -/

/-- The line that an offset stands on starts there: at zero or just after a newline, with none up to
the offset. -/
structure IsLineStart (bytes : List UInt8) (offset start : Nat) : Prop where
  le_offset : start ≤ offset
  opens : start = 0 ∨ ∃ i, bytes[i]? = some 10 ∧ start = i + 1
  last : ∀ i, start ≤ i → i < offset → bytes[i]? ≠ some 10

variable (source : String)

theorem lineOf_eq (offset : Nat) :
    (ofSource source).lineOf offset = 1 + ((Text.bytes source.toList).take offset).count 10 := by
  have hcount := countP_afterNewlines 0 offset (Text.bytes source.toList)
  rw [Nat.zero_add] at hcount
  rw [lineOf, (search_tells (ascending_starts source) offset).line_eq (ascending_starts source),
    ofSource, List.countP_cons_of_pos (by simp), hcount, Nat.add_comm]

theorem lineOf_le (offset : Nat) : (ofSource source).lineOf offset ≤ offset + 1 := by
  have hcount : ((Text.bytes source.toList).take offset).count 10 ≤ _ := List.count_le_length
  rw [List.length_take] at hcount
  rw [lineOf_eq]
  omega

/-- The start of the line is found at the index before it, and it is the start of the line. -/
theorem exists_startOf? (offset : Nat) :
    ∃ start, (ofSource source).startOf? ((ofSource source).lineOf offset) = some start ∧
      IsLineStart (Text.bytes source.toList) offset start := by
  have hasc := ascending_starts source
  obtain ⟨hlength, hcut⟩ := (search_tells hasc offset).cut hasc
  have hpos : 0 < (ofSource source).lineOf offset := by
    rw [lineOf_eq]
    omega
  change (ofSource source).lineOf offset ≤ _ at hlength
  obtain ⟨line, hline⟩ := Nat.exists_eq_add_of_lt hpos
  rw [Nat.zero_add] at hline
  have hindex : line < (ofSource source).starts.length := by omega
  have hstart := List.getElem?_eq_getElem hindex
  refine ⟨(ofSource source).starts[line], ?_, ?_, ?_, ?_⟩
  · simp [startOf?, hline, hstart]
  · exact (hcut line _ hstart).mp (by rw [← lineOf, hline]; omega)
  · rcases List.mem_cons.mp (List.getElem_mem hindex) with hzero | hmem
    · exact Or.inl hzero
    · obtain ⟨i, hi, heq⟩ := mem_afterNewlines.mp hmem
      exact Or.inr ⟨i, hi, by omega⟩
  · -- A newline further on would start a line that is not past the offset either.
    intro i hle hlt hnewline
    have hmem : i + 1 ∈ (ofSource source).starts :=
      List.mem_cons_of_mem 0 (mem_afterNewlines.mpr ⟨i, hnewline, by omega⟩)
    obtain ⟨j, hj, heq⟩ := List.getElem_of_mem hmem
    have hj' : (ofSource source).starts[j]? = some (i + 1) := List.getElem?_eq_some_iff.mpr ⟨hj, heq⟩
    have hbefore := (hcut j _ hj').mpr hlt
    rw [← lineOf, hline] at hbefore
    rcases Nat.lt_or_eq_of_le (Nat.le_of_lt_succ hbefore) with hjl | rfl
    · have hless := lt_of_ascending hasc hj' hstart hjl
      omega
    · omega

theorem position_eq {offset start : Nat}
    (h : (ofSource source).startOf? ((ofSource source).lineOf offset) = some start) :
    (ofSource source).position offset =
      ((ofSource source).lineOf offset, offset - start + 1) := by
  rw [position, h, Option.getD_some]

/-- A later offset stands on a later line or further on in the same. -/
theorem position_lt {a b : Nat} (h : a < b) :
    Prod.Lex (· < ·) (· < ·) ((ofSource source).position a) ((ofSource source).position b) := by
  obtain ⟨s, hs, hstart⟩ := exists_startOf? source a
  obtain ⟨s', hs', _⟩ := exists_startOf? source b
  rw [position_eq source hs, position_eq source hs']
  have hle : (ofSource source).lineOf a ≤ (ofSource source).lineOf b := by
    rw [lineOf_eq, lineOf_eq]
    have hfront : (Text.bytes source.toList).take a <+: (Text.bytes source.toList).take b :=
      List.take_isPrefix_take.mpr (Or.inl (Nat.le_of_lt h))
    exact Nat.add_le_add_left (hfront.sublist.count_le 10) 1
  rcases Nat.lt_or_eq_of_le hle with hlt | heq
  · exact Prod.Lex.left _ _ hlt
  · rw [heq] at hs ⊢
    obtain rfl : s = s' := Option.some.inj (hs.symm.trans hs')
    have hsa := hstart.le_offset
    exact Prod.Lex.right _ (by omega)

end Lines

/-! ## The law -/

/-- An offset, also one past the end, stands on the line that its newlines before it tell, and as many
bytes into it as follow the last of them. Whatever search among the starts of lines finds it comes to
that line, whose start is there and not past the offset, and no number on the way is larger than the
next offset. Offsets are told apart and kept in order by their lines and columns. -/
theorem an_offset_is_told_by_its_line_and_column (source : String) :
    (∀ offset,
      (Lines.ofSource source).lineOf offset =
        1 + ((Text.bytes source.toList).take offset).count 10 ∧
      (∀ r : Lines.Found, r.Tells (Lines.ofSource source).starts offset →
        r.line = (Lines.ofSource source).lineOf offset) ∧
      ∃ start, (Lines.ofSource source).startOf? ((Lines.ofSource source).lineOf offset) = some start ∧
        Lines.IsLineStart (Text.bytes source.toList) offset start ∧
        (Lines.ofSource source).position offset =
          ((Lines.ofSource source).lineOf offset, offset - start + 1) ∧
        (Lines.ofSource source).lineOf offset ≤ offset + 1 ∧ offset - start + 1 ≤ offset + 1) ∧
    (∀ a b, a < b → Prod.Lex (· < ·) (· < ·) ((Lines.ofSource source).position a)
      ((Lines.ofSource source).position b)) ∧
    Function.Injective (Lines.ofSource source).position := by
  have hasc := Lines.ascending_starts source
  refine ⟨fun offset => ⟨Lines.lineOf_eq source offset, ?_, ?_⟩,
    fun a b => Lines.position_lt source, ?_⟩
  · intro r hr
    rw [hr.line_eq hasc, Lines.lineOf, (Lines.search_tells hasc offset).line_eq hasc]
  · obtain ⟨start, hstart, hline⟩ := Lines.exists_startOf? source offset
    exact ⟨start, hstart, hline, Lines.position_eq source hstart, Lines.lineOf_le source offset,
      by omega⟩
  · -- Of two different offsets one is earlier, and nothing stands before itself.
    intro a b heq
    by_contra hne
    rcases Nat.lt_or_gt_of_ne hne with hlt | hlt
    · have hlex := Lines.position_lt source hlt
      rw [heq, Prod.lex_def] at hlex
      omega
    · have hlex := Lines.position_lt source hlt
      rw [heq, Prod.lex_def] at hlex
      omega

/-- A letter of two bytes, an empty line, and offsets on a newline, just after it and past the end. -/
example : ([1, 2, 3, 4, 9].map (Lines.ofSource "é\n\nb").position) =
    [(1, 2), (1, 3), (2, 1), (3, 1), (3, 6)] := by cbv

/-- A search that hits the start of the empty line and one that misses behind it tell its line. -/
theorem an_empty_line_is_hit_or_missed :
    let lines := Lines.ofSource "é\n\nb"
    (Lines.Found.hit 1).Tells lines.starts 3 ∧ (Lines.Found.hit 1).line = lines.lineOf 3 ∧
      (Lines.Found.miss 3).Tells lines.starts 9 ∧ (Lines.Found.miss 3).line = lines.lineOf 9 ∧
      Prod.Lex (· < ·) (· < ·) (lines.position 3) (lines.position 9) := by
  intro lines
  have hstarts : lines.starts = [0, 3, 4] := by cbv
  have hhit : (Lines.Found.hit 1).Tells lines.starts 3 := by rw [hstarts]; rfl
  have hmiss : (Lines.Found.miss 3).Tells lines.starts 9 := by
    rw [hstarts]
    refine ⟨by decide, fun j y hy => ⟨fun hj => ?_, fun hj => ?_⟩⟩
    · have hall : ∀ z ∈ [0, 3, 4], z < 9 := by decide
      exact hall y (List.mem_of_getElem? hy)
    · rw [List.getElem?_eq_none hj] at hy
      simp at hy
  obtain ⟨hline, hbefore, _⟩ := an_offset_is_told_by_its_line_and_column "é\n\nb"
  exact ⟨hhit, (hline 3).2.1 _ hhit, hmiss, (hline 9).2.1 _ hmiss, hbefore 3 9 (by decide)⟩

end LogSweep
