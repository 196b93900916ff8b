-- Text as the library sees it: a list of characters in which every offset counts UTF-8
-- bytes. A cut is possible only between two characters.
namespace LogSweep.Text

/-! ## Bytes -/

/-- The UTF-8 bytes of a text. -/
def bytes (cs : List Char) : List UInt8 := cs.flatMap String.utf8EncodeChar

/-- The number of UTF-8 bytes of a text. -/
def byteLength : List Char → Nat
  | [] => 0
  | c :: cs => c.utf8Size + byteLength cs

theorem byteLength_append (a b : List Char) :
    byteLength (a ++ b) = byteLength a + byteLength b := by
  induction a with
  | nil => simp [byteLength]
  | cons c cs ih => simp [byteLength, ih]; omega

theorem length_bytes (cs : List Char) : (bytes cs).length = byteLength cs := by
  induction cs with
  | nil => rfl
  | cons c cs ih => simpa [bytes, byteLength] using ih

/-! ## Cuts -/

/-- Cuts a text at a byte offset. There is no cut past the end or inside a character. -/
def splitAt? : Nat → List Char → Option (List Char × List Char)
  | 0, cs => some ([], cs)
  | _ + 1, [] => none
  | n + 1, c :: cs =>
    if c.utf8Size ≤ n + 1 then
      match splitAt? (n + 1 - c.utf8Size) cs with
      | some (front, back) => some (c :: front, back)
      | none => none
    else none

/-- Whether an offset stands between two characters, or at either end. -/
def isBoundary (cs : List Char) (n : Nat) : Bool := (splitAt? n cs).isSome

/-- The characters between two offsets, when both are cuts and in order. -/
def slice? (cs : List Char) (start stop : Nat) : Option (List Char) :=
  if start ≤ stop then
    match splitAt? start cs with
    | some (_, back) => (splitAt? (stop - start) back).map Prod.fst
    | none => none
  else none

/-- A cut loses nothing and leaves `n` bytes in front. -/
theorem splitAt?_eq_some {n : Nat} {cs front back : List Char}
    (h : splitAt? n cs = some (front, back)) : cs = front ++ back ∧ byteLength front = n := by
  induction n, cs using splitAt?.induct generalizing front back with
  | case1 cs =>
    simp only [splitAt?, Option.some.injEq, Prod.mk.injEq] at h
    obtain ⟨rfl, rfl⟩ := h
    simp [byteLength]
  | case2 => simp [splitAt?] at h
  | case3 n c cs hc f b hs ih =>
    simp only [splitAt?, hc, if_true, hs, Option.some.injEq, Prod.mk.injEq] at h
    obtain ⟨rfl, rfl⟩ := h
    have hi := ih hs
    refine ⟨by rw [List.cons_append, ← hi.1], ?_⟩
    simp only [byteLength, hi.2]
    omega
  | case4 n c cs hc hs ih => simp [splitAt?, hc, hs] at h
  | case5 n c cs hc => simp [splitAt?, hc] at h

/-- Every front part of a text ends in a cut. -/
theorem splitAt?_byteLength (front back : List Char) :
    splitAt? (byteLength front) (front ++ back) = some (front, back) := by
  induction front with
  | nil => simp [byteLength, splitAt?]
  | cons c cs ih =>
    have hpos := c.utf8Size_pos
    obtain ⟨k, hk⟩ : ∃ k, byteLength (c :: cs) = k + 1 := ⟨byteLength (c :: cs) - 1, by
      simp only [byteLength]; omega⟩
    have hle : c.utf8Size ≤ k + 1 := by simp only [byteLength] at hk; omega
    have hrest : k + 1 - c.utf8Size = byteLength cs := by simp only [byteLength] at hk; omega
    rw [hk, List.cons_append, splitAt?, if_pos hle, hrest, ih]

/-! ## Lines and blanks at the ends -/

/-- Splits at every occurrence of a character, keeping empty parts. -/
def splitOn (sep : Char) : List Char → List (List Char)
  | [] => [[]]
  | c :: cs =>
    if c = sep then [] :: splitOn sep cs
    else
      match splitOn sep cs with
      | part :: parts => (c :: part) :: parts
      | [] => [[c]]

/-- Drops what satisfies `p` from both ends. -/
def trimBy (p : Char → Bool) (cs : List Char) : List Char :=
  ((cs.dropWhile p).reverse.dropWhile p).reverse

/-- Drops what satisfies `p` from the back. -/
def trimEndBy (p : Char → Bool) (cs : List Char) : List Char :=
  (cs.reverse.dropWhile p).reverse

/-- Whether `part` stands somewhere in a text. -/
def contains (part : List Char) : List Char → Bool
  | [] => part.isEmpty
  | c :: cs => part.isPrefixOf (c :: cs) || contains part cs

/-- Lines as one text, each with its end. -/
def unlines (lines : List String) : String := String.join (lines.map (· ++ "\n"))

end LogSweep.Text
