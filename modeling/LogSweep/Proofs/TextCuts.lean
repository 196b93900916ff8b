-- Cuts of a text. A boundary is the end of a front part, two boundaries in order cut out a
-- slice, and a text cut into parts with gaps between them can be filled with other parts.
import LogSweep.Span

namespace LogSweep

namespace Text

/-! ## Boundaries -/

theorem byteLength_pos (c : Char) (cs : List Char) : 0 < byteLength (c :: cs) := by
  have := c.utf8Size_pos
  simp only [byteLength]
  omega

theorem isBoundary_iff {cs : List Char} {n : Nat} :
    isBoundary cs n = true ↔ ∃ front back, cs = front ++ back ∧ byteLength front = n := by
  unfold isBoundary
  constructor
  · intro h
    obtain ⟨⟨front, back⟩, hsplit⟩ := Option.isSome_iff_exists.mp h
    exact ⟨front, back, splitAt?_eq_some hsplit⟩
  · rintro ⟨front, back, rfl, rfl⟩
    rw [splitAt?_byteLength]
    rfl

theorem le_byteLength_of_isBoundary {cs : List Char} {n : Nat} (h : isBoundary cs n = true) :
    n ≤ byteLength cs := by
  obtain ⟨front, back, rfl, rfl⟩ := isBoundary_iff.mp h
  rw [byteLength_append]
  omega

/-- Of two front parts of one text the shorter begins the longer. -/
theorem exists_middle {f b g d : List Char} (h : f ++ b = g ++ d)
    (hle : byteLength f ≤ byteLength g) : ∃ m, g = f ++ m ∧ b = m ++ d := by
  rcases List.append_eq_append_iff.mp h with ⟨m, hg, hb⟩ | ⟨m, hf, hd⟩
  · exact ⟨m, hg, hb⟩
  · rcases m with _ | ⟨c, m⟩
    · exact ⟨[], by simpa using hf.symm, by simpa using hd.symm⟩
    · have := byteLength_pos c m
      rw [hf, byteLength_append] at hle
      omega

/-- Two boundaries in order cut a text in three. -/
theorem exists_three_parts {cs : List Char} {m n : Nat} (hm : isBoundary cs m = true)
    (hn : isBoundary cs n = true) (h : m ≤ n) :
    ∃ front part back, cs = front ++ part ++ back ∧ byteLength front = m ∧
      byteLength (front ++ part) = n := by
  obtain ⟨front, b, rfl, rfl⟩ := isBoundary_iff.mp hm
  obtain ⟨g, back, hg, rfl⟩ := isBoundary_iff.mp hn
  obtain ⟨part, rfl, rfl⟩ := exists_middle hg h
  exact ⟨front, part, back, by rw [List.append_assoc], rfl, rfl⟩

theorem slice?_middle (front part back : List Char) :
    slice? (front ++ part ++ back) (byteLength front) (byteLength (front ++ part)) = some part := by
  have hlen : byteLength (front ++ part) - byteLength front = byteLength part := by
    rw [byteLength_append]
    omega
  rw [slice?, if_pos (by rw [byteLength_append]; omega), List.append_assoc, splitAt?_byteLength]
  simp only [hlen]
  rw [splitAt?_byteLength]
  rfl

/-! ## Bytes -/

theorem bytes_append (a b : List Char) : bytes (a ++ b) = bytes a ++ bytes b := by
  simp [bytes]

theorem drop_bytes (front back : List Char) :
    (bytes (front ++ back)).drop (byteLength front) = bytes back := by
  rw [bytes_append, ← length_bytes, List.drop_left]

/-- A byte below 128 at the front of a character is the whole character. -/
theorem eq_of_ascii_byte {c : Char} {b : UInt8} {more : List UInt8}
    (h : String.utf8EncodeChar c = b :: more) (hb : b.toNat < 128) :
    c.toNat = b.toNat ∧ more = [] := by
  simp only [String.utf8EncodeChar] at h
  split at h
  · rename_i hc
    rw [List.cons.injEq] at h
    obtain ⟨rfl, rfl⟩ := h
    refine ⟨?_, rfl⟩
    rw [UInt8.toNat_ofNat', Nat.mod_eq_of_lt (by omega)]
    rfl
  · -- The first byte of a longer character is 192 or more.
    exfalso
    split at h
    · rw [List.cons.injEq] at h
      rw [← h.1, UInt8.toNat_ofNat'] at hb
      omega
    · split at h
      · rw [List.cons.injEq] at h
        rw [← h.1, UInt8.toNat_ofNat'] at hb
        omega
      · rw [List.cons.injEq] at h
        rw [← h.1, UInt8.toNat_ofNat'] at hb
        omega

end Text

/-! ## Texts cut into parts -/

/-- A part of a text, with the gap that follows it. -/
structure Piece where
  part : String
  gap : String
  deriving DecidableEq, Repr

/-- A text cut into parts, with a gap in front of the first part and one after each. -/
structure Cut where
  opening : String
  pieces : List Piece
  deriving DecidableEq, Repr

namespace Cut

def fillPieces (f : String → String) : List Piece → String
  | [] => ""
  | p :: ps => f p.part ++ p.gap ++ fillPieces f ps

/-- The text with each part put through `f`. The gaps are copied. -/
def fill (f : String → String) (c : Cut) : String := c.opening ++ fillPieces f c.pieces

/-- The text that was cut. -/
def text (c : Cut) : String := c.fill id

def fillPiecesWith : List String → List Piece → String
  | t :: ts, p :: ps => t ++ p.gap ++ fillPiecesWith ts ps
  | _, _ => ""

/-- The text with the parts replaced by a list of texts, one by one. -/
def fillWith (texts : List String) (c : Cut) : String := c.opening ++ fillPiecesWith texts c.pieces

theorem fillPiecesWith_map (f : String → String) (ps : List Piece) :
    fillPiecesWith (ps.map (fun p => f p.part)) ps = fillPieces f ps := by
  induction ps with
  | nil => rfl
  | cons p ps ih => rw [List.map_cons, fillPiecesWith, ih, fillPieces]

/-- The spans of the parts, when the first one starts at an offset. -/
def spansFrom (offset : Nat) : List Piece → List Span
  | [] => []
  | p :: ps =>
    let stop := offset + Text.byteLength p.part.toList
    ⟨offset, stop⟩ :: spansFrom (stop + Text.byteLength p.gap.toList) ps

/-- The spans of the parts in the text. -/
def spans (c : Cut) : List Span := spansFrom (Text.byteLength c.opening.toList) c.pieces

/-! ## Every part is the slice at its span -/

theorem slice?_part (front part back : String) :
    Span.slice? ⟨Text.byteLength front.toList,
      Text.byteLength front.toList + Text.byteLength part.toList⟩ (front ++ part ++ back) =
      some part := by
  rw [Span.slice?, String.toList_append, String.toList_append, ← Text.byteLength_append,
    Text.slice?_middle, Option.map_some, String.ofList_toList]

theorem slice?_spansFrom (front : String) (ps : List Piece) :
    (spansFrom (Text.byteLength front.toList) ps).map
        (fun s => s.slice? (front ++ fillPieces id ps)) = ps.map (fun p => some p.part) := by
  induction ps generalizing front with
  | nil => rfl
  | cons p ps ih =>
    have hrest := ih (front ++ p.part ++ p.gap)
    have htext : front ++ p.part ++ (p.gap ++ fillPieces id ps) =
        front ++ fillPieces id (p :: ps) := by
      simp only [fillPieces, id, String.append_assoc]
    simp only [String.toList_append, Text.byteLength_append, String.append_assoc] at hrest
    rw [← String.append_assoc, htext] at hrest
    rw [spansFrom, List.map_cons, List.map_cons, ← htext, slice?_part, htext, Nat.add_assoc, hrest]

/-- The slices of the text at the spans are the parts. -/
theorem slice?_spans (c : Cut) :
    c.spans.map (fun s => s.slice? c.text) = c.pieces.map (fun p => some p.part) :=
  slice?_spansFrom c.opening c.pieces

/-! ## How long a filled text is -/

theorem length_spansFrom (offset : Nat) (ps : List Piece) :
    (spansFrom offset ps).length = ps.length := by
  induction ps generalizing offset with
  | nil => rfl
  | cons p ps ih => rw [spansFrom, List.length_cons, List.length_cons, ih]

theorem length_fillPieces {f : String → String} {k : Nat} (h : ∀ s, (f s).length = s.length + k)
    (ps : List Piece) :
    (fillPieces f ps).length = (fillPieces id ps).length + k * ps.length := by
  induction ps with
  | nil => rfl
  | cons p ps ih =>
    simp only [fillPieces, String.length_append, ih, h, id, List.length_cons]
    rw [Nat.mul_add]
    omega

/-- Where each part becomes longer by `k`, so does the text, once for each span. -/
theorem length_fill {f : String → String} {k : Nat} (h : ∀ s, (f s).length = s.length + k)
    (c : Cut) : (c.fill f).length = c.text.length + k * c.spans.length := by
  rw [text, fill, fill, spans, length_spansFrom, String.length_append, String.length_append,
    length_fillPieces h]
  omega

/-- A text with no part to fill stays as it is. -/
theorem fill_eq_text {c : Cut} (h : c.spans = []) (f : String → String) : c.fill f = c.text := by
  have hpieces : c.pieces = [] := by
    rw [← List.length_eq_zero_iff, ← length_spansFrom, ← spans, h, List.length_nil]
  rw [text, fill, fill, hpieces]
  rfl

end Cut

end LogSweep
