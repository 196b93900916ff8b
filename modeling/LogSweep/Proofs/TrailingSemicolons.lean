-- Ends that move past a semicolon. The search for the semicolon looks at bytes between two offsets that
-- are clamped to the source, and it stops at the first byte that is no space or tab. So it tells whether
-- blanks and a semicolon follow an end before a limit, and an end between two characters stays so.
import LogSweep.Proofs.SpanEdits

namespace LogSweep

/-! ## The semicolon -/

/-- Bytes that open with `k` spaces and tabs and a semicolon. -/
structure SemicolonAt (bs : List UInt8) (k : Nat) : Prop where
  semicolon : bs[k]? = some 0x3B
  blanks : ∀ i, i < k → bs[i]? = some 0x20 ∨ bs[i]? = some 0x09

/-- Between `stop` and a semicolon stand `k` spaces and tabs, and the semicolon stands before `limit`
and the end of the bytes. -/
structure SemicolonFollows (bytes : List UInt8) (stop limit k : Nat) : Prop where
  before_limit : stop + k < min limit bytes.length
  semicolon : bytes[stop + k]? = some 0x3B
  blanks : ∀ i, i < k → bytes[stop + i]? = some 0x20 ∨ bytes[stop + i]? = some 0x09

theorem SemicolonAt.le {bs : List UInt8} {j k : Nat} (hj : SemicolonAt bs j)
    (hk : SemicolonAt bs k) : j ≤ k := by
  by_contra hlt
  have hblank := hj.blanks k (by omega)
  rw [hk.semicolon] at hblank
  exact absurd hblank (by decide)

theorem SemicolonAt.unique {bs : List UInt8} {j k : Nat} (hj : SemicolonAt bs j)
    (hk : SemicolonAt bs k) : j = k :=
  Nat.le_antisymm (hj.le hk) (hk.le hj)

theorem semicolonAt_zero {b : UInt8} {bs : List UInt8} : SemicolonAt (b :: bs) 0 ↔ b = 0x3B := by
  constructor
  · intro h
    simpa using h.semicolon
  · rintro rfl
    exact ⟨rfl, by simp⟩

theorem semicolonAt_succ {b : UInt8} {bs : List UInt8} {k : Nat} :
    SemicolonAt (b :: bs) (k + 1) ↔ (b = 0x20 ∨ b = 0x09) ∧ SemicolonAt bs k := by
  constructor
  · intro h
    refine ⟨by simpa using h.blanks 0 (by omega), by simpa using h.semicolon, ?_⟩
    intro i hi
    simpa using h.blanks (i + 1) (by omega)
  · rintro ⟨hb, h⟩
    refine ⟨by simpa using h.semicolon, ?_⟩
    intro i hi
    cases i with
    | zero => simpa using hb
    | succ i => simpa using h.blanks i (by omega)

/-- In the bytes up to a limit the semicolon that follows an end opens what stands from the end on. -/
theorem semicolonFollows_iff {bytes : List UInt8} {stop limit k : Nat} :
    SemicolonFollows bytes stop limit k ↔ SemicolonAt ((bytes.take limit).drop stop) k := by
  have hget : ∀ i, ((bytes.take limit).drop stop)[i]? =
      if stop + i < limit then bytes[stop + i]? else none := by
    intro i
    rw [List.getElem?_drop, List.getElem?_take]
  constructor
  · rintro ⟨hlimit, hsemi, hblanks⟩
    refine ⟨by rw [hget, if_pos (by omega), hsemi], ?_⟩
    intro i hi
    rw [hget, if_pos (by omega)]
    exact hblanks i hi
  · rintro ⟨hsemi, hblanks⟩
    have hlimit : stop + k < limit := by
      by_contra hlt
      rw [hget, if_neg hlt] at hsemi
      exact absurd hsemi (by simp)
    rw [hget, if_pos hlimit] at hsemi
    have hlength := (List.getElem?_eq_some_iff.mp hsemi).1
    refine ⟨by omega, hsemi, ?_⟩
    intro i hi
    have hblank := hblanks i hi
    rwa [hget, if_pos (by omega)] at hblank

/-! ## The search -/

theorem semicolonAfter?_eq_some_iff {bs : List UInt8} {n : Nat} :
    semicolonAfter? bs = some n ↔ ∃ k, SemicolonAt bs k ∧ n = k + 1 := by
  induction bs generalizing n with
  | nil =>
    simp only [semicolonAfter?, reduceCtorEq, false_iff]
    rintro ⟨k, h, _⟩
    exact absurd h.semicolon (by simp)
  | cons b bs ih =>
    unfold semicolonAfter?
    split
    · rename_i hsemi
      have hzero : SemicolonAt (b :: bs) 0 := semicolonAt_zero.mpr hsemi
      constructor
      · intro h
        exact ⟨0, hzero, (Option.some.inj h).symm⟩
      · rintro ⟨k, hk, rfl⟩
        rw [hk.unique hzero]
    · rename_i hsemi
      simp only [Bool.or_eq_true, decide_eq_true_eq]
      split
      · rename_i hblank
        rw [Option.map_eq_some_iff]
        constructor
        · rintro ⟨m, hm, rfl⟩
          obtain ⟨k, hk, rfl⟩ := ih.mp hm
          exact ⟨k + 1, semicolonAt_succ.mpr ⟨hblank, hk⟩, rfl⟩
        · rintro ⟨k, hk, rfl⟩
          cases k with
          | zero => exact absurd (semicolonAt_zero.mp hk) hsemi
          | succ k => exact ⟨k + 1, ih.mpr ⟨k, (semicolonAt_succ.mp hk).2, rfl⟩, rfl⟩
      · rename_i hother
        simp only [reduceCtorEq, false_iff]
        rintro ⟨k, hk, _⟩
        cases k with
        | zero => exact hsemi (semicolonAt_zero.mp hk)
        | succ k => exact hother (semicolonAt_succ.mp hk).1

variable (source : String) (stop limit : Nat)

theorem extendToSemicolon_of_follows {k : Nat}
    (h : SemicolonFollows (Text.bytes source.toList) stop limit k) :
    extendToSemicolon source stop limit = stop + k + 1 := by
  have hfound := semicolonAfter?_eq_some_iff.mpr ⟨k, semicolonFollows_iff.mp h, rfl⟩
  rw [extendToSemicolon_eq, hfound, Nat.add_assoc]

theorem extendToSemicolon_of_not
    (h : ¬ ∃ k, SemicolonFollows (Text.bytes source.toList) stop limit k) :
    extendToSemicolon source stop limit = stop := by
  rw [extendToSemicolon_eq]
  split
  · rename_i n hfound
    obtain ⟨k, hk, _⟩ := semicolonAfter?_eq_some_iff.mp hfound
    exact absurd ⟨k, semicolonFollows_iff.mpr hk⟩ h
  · rfl

theorem isBoundary_extendToSemicolon (h : Text.isBoundary source.toList stop = true) :
    Text.isBoundary source.toList (extendToSemicolon source stop limit) = true := by
  obtain ⟨front, back, hsource, rfl⟩ := Text.isBoundary_iff.mp h
  rcases extendToSemicolon_cases limit hsource with hstay | ⟨_, blanks, more, _, htext, hmove⟩
  · rw [hstay]
    exact h
  · exact Text.isBoundary_iff.mpr ⟨_, more, htext, hmove.symm⟩

/-! ## The law -/

/-- An end, also one past the limit or the source, moves just past the semicolon that follows it with
only spaces and tabs between, before the limit; otherwise it stays. There is at most one such
semicolon. The bytes that are looked at are there, and no sum of the end and one of their offsets
passes the length of the source. An end between two characters stays between two characters. -/
theorem an_end_moves_past_the_semicolon_that_follows :
    let bytes := Text.bytes source.toList
    (∀ k, SemicolonFollows bytes stop limit k →
      extendToSemicolon source stop limit = stop + k + 1) ∧
    ((¬ ∃ k, SemicolonFollows bytes stop limit k) → extendToSemicolon source stop limit = stop) ∧
    (∀ j k, SemicolonFollows bytes stop limit j → SemicolonFollows bytes stop limit k → j = k) ∧
    (∃ window, bytesBetween? bytes (min stop (min limit bytes.length)) (min limit bytes.length) =
        some window ∧
      ∀ offset, offset < window.length → stop + offset + 1 ≤ bytes.length) ∧
    (Text.isBoundary source.toList stop = true →
      Text.isBoundary source.toList (extendToSemicolon source stop limit) = true) := by
  intro bytes
  refine ⟨fun k => extendToSemicolon_of_follows source stop limit,
    extendToSemicolon_of_not source stop limit, ?_, ?_,
    isBoundary_extendToSemicolon source stop limit⟩
  · intro j k hj hk
    exact (semicolonFollows_iff.mp hj).unique (semicolonFollows_iff.mp hk)
  · refine ⟨_, bytesBetween?_clamped bytes stop limit, ?_⟩
    intro offset hoffset
    rw [List.length_drop, List.length_take] at hoffset
    omega

/-- Behind a letter of two bytes blanks and a semicolon follow, but not before every limit. -/
theorem an_end_may_stop_before_its_semicolon :
    let bytes := Text.bytes "é \t;x".toList
    SemicolonFollows bytes 2 9 2 ∧ extendToSemicolon "é \t;x" 2 9 = 5 ∧
      (¬ ∃ k, SemicolonFollows bytes 2 4 k) ∧ extendToSemicolon "é \t;x" 2 4 = 2 ∧
      Text.isBoundary "é \t;x".toList 5 = true := by
  intro bytes
  have hfollows : SemicolonFollows bytes 2 9 2 := ⟨by decide, by decide, by decide⟩
  have hstops : ¬ ∃ k, SemicolonFollows bytes 2 4 k := by
    rintro ⟨k, hlimit, hsemi, _⟩
    have hk : k < 2 := by omega
    have hnone : ∀ i, i < 2 → bytes[2 + i]? ≠ some 0x3B := by decide
    exact hnone k hk hsemi
  obtain ⟨hmoves, _, _, _, hboundary⟩ := an_end_moves_past_the_semicolon_that_follows "é \t;x" 2 9
  obtain ⟨_, hstays, _⟩ := an_end_moves_past_the_semicolon_that_follows "é \t;x" 2 4
  have hend : extendToSemicolon "é \t;x" 2 9 = 5 := hmoves 2 hfollows
  refine ⟨hfollows, hend, hstops, hstays hstops, ?_⟩
  rw [← hend]
  exact hboundary (by decide)

end LogSweep
