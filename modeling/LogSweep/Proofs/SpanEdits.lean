-- Edits of a source. Spans pass the check exactly when each fits the source and none reaches
-- into the next; then the source can be cut at them, and making the edits fills the cut. The
-- semicolons that spans grow over change none of that.
import Mathlib.Data.List.Forall2
import LogSweep.Edit
import LogSweep.Proofs.TextCuts

namespace LogSweep

/-! ## The check of spans -/

/-- A span that can be cut out of a source. -/
structure Span.FitsIn (source : List Char) (s : Span) : Prop where
  forward : s.start ≤ s.stop
  inBounds : s.stop ≤ Text.byteLength source
  startBoundary : Text.isBoundary source s.start = true
  stopBoundary : Text.isBoundary source s.stop = true

instance (source : List Char) (s : Span) : Decidable (s.FitsIn source) :=
  decidable_of_iff
    (s.start ≤ s.stop ∧ s.stop ≤ Text.byteLength source ∧
      Text.isBoundary source s.start = true ∧ Text.isBoundary source s.stop = true)
    ⟨fun ⟨h1, h2, h3, h4⟩ => ⟨h1, h2, h3, h4⟩, fun ⟨h1, h2, h3, h4⟩ => ⟨h1, h2, h3, h4⟩⟩

/-- Spans that can all be cut out of a source, from left to right. -/
structure Cuttable (source : List Char) (spans : List Span) : Prop where
  fits : ∀ s ∈ spans, s.FitsIn source
  apart : spans.Pairwise (fun s u => s.stop ≤ u.start)

theorem checkSpan_eq_ok_iff {source : List Char} {s : Span} :
    checkSpan source s = .ok () ↔ s.FitsIn source := by
  unfold checkSpan
  simp only [Bool.or_eq_true, decide_eq_true_eq, Bool.not_eq_true']
  constructor
  · intro h
    split_ifs at h with h1 h2 h3
    refine ⟨by omega, by omega, ?_, ?_⟩
    · simpa using h2
    · simpa using h3
  · rintro ⟨h1, h2, h3, h4⟩
    rw [if_neg (by omega), if_neg (by simp [h3]), if_neg (by simp [h4])]

/-- One step asks that the span fits and that the one before ends in time. -/
theorem checkSpansAfter_cons_eq_ok_iff {source : List Char} {previous : Option Span} {s : Span}
    {rest : List Span} :
    checkSpansAfter source previous (s :: rest) = .ok () ↔
      s.FitsIn source ∧ (∀ p ∈ previous, p.stop ≤ s.start) ∧
        checkSpansAfter source (some s) rest = .ok () := by
  rw [checkSpansAfter.eq_def, ← checkSpan_eq_ok_iff]
  dsimp only
  rcases checkSpan source s with e | u
  · simp
  · rcases previous with _ | p
    · simp
    · simp only [true_and, Option.mem_some_iff, forall_eq']
      split_ifs with hp
      · simp only [false_iff]
        omega
      · simp only [iff_and_self]
        omega

theorem checkSpansAfter_eq_ok_iff {source : List Char} {previous : Option Span}
    {spans : List Span} :
    checkSpansAfter source previous spans = .ok () ↔
      Cuttable source spans ∧ ∀ p ∈ previous, ∀ s ∈ spans, p.stop ≤ s.start := by
  induction spans generalizing previous with
  | nil => simp [checkSpansAfter, Cuttable.mk]
  | cons s rest ih =>
    rw [checkSpansAfter_cons_eq_ok_iff, ih]
    constructor
    · rintro ⟨hs, hp, ⟨hfits, hapart⟩, hnext⟩
      have hnext : ∀ u ∈ rest, s.stop ≤ u.start := hnext s rfl
      refine ⟨⟨?_, List.Pairwise.cons hnext hapart⟩, ?_⟩
      · simpa using ⟨hs, hfits⟩
      · intro p hmem u hu
        rcases List.mem_cons.mp hu with rfl | hu
        · exact hp p hmem
        · have h1 := hp p hmem
          have h2 := hs.forward
          have h3 := hnext u hu
          omega
    · rintro ⟨⟨hfits, hapart⟩, hp⟩
      obtain ⟨hnext, hapart⟩ := List.pairwise_cons.mp hapart
      refine ⟨hfits s (by simp), fun p hmem => hp p hmem s (by simp), ⟨?_, hapart⟩, ?_⟩
      · exact fun u hu => hfits u (List.mem_cons_of_mem _ hu)
      · intro p hmem u hu
        rw [Option.mem_some_iff] at hmem
        exact hmem ▸ hnext u hu

/-- The check accepts the spans that can be cut out, and no others. -/
theorem checkSpans_eq_ok_iff {source : List Char} {spans : List Span} :
    checkSpans source spans = .ok () ↔ Cuttable source spans := by
  rw [checkSpans, checkSpansAfter_eq_ok_iff]
  simp

/-! ## Cutting -/

theorem exists_pieces {front rest : List Char} {spans : List Span}
    (h : Cuttable (front ++ rest) spans) (hfront : ∀ s ∈ spans, Text.byteLength front ≤ s.start) :
    ∃ (gap : String) (ps : List Piece), rest = gap.toList ++ (Cut.fillPieces id ps).toList ∧
      Cut.spansFrom (Text.byteLength front + Text.byteLength gap.toList) ps = spans := by
  induction spans generalizing front rest with
  | nil => exact ⟨String.ofList rest, [], by simp [Cut.fillPieces], rfl⟩
  | cons s spans ih =>
    obtain ⟨hnext, hapart⟩ := List.pairwise_cons.mp h.apart
    have hs := h.fits s (by simp)
    obtain ⟨upto, part, back, htext, hstart, hstop⟩ :=
      Text.exists_three_parts hs.startBoundary hs.stopBoundary hs.forward
    have hgap := hfront s (by simp)
    rw [List.append_assoc] at htext
    obtain ⟨gap, rfl, rfl⟩ := Text.exists_middle htext (by omega)
    have htail : Cuttable (front ++ gap ++ part ++ back) spans := by
      refine ⟨fun u hu => ?_, hapart⟩
      have hu := h.fits u (List.mem_cons_of_mem _ hu)
      simpa only [List.append_assoc] using hu
    obtain ⟨after, ps, hback, hspans⟩ := ih htail (fun u hu => by rw [hstop]; exact hnext u hu)
    refine ⟨String.ofList gap, ⟨String.ofList part, after⟩ :: ps, ?_, ?_⟩
    · simp [Cut.fillPieces, hback]
    · rw [Text.byteLength_append] at hstart hstop
      rw [Text.byteLength_append, Text.byteLength_append] at hspans
      simp only [Cut.spansFrom, String.toList_ofList]
      rw [hspans]
      congr 1
      rw [Text.byteLength_append] at hstop
      congr 1

/-- A source can be cut at spans that pass the check. -/
theorem Cuttable.exists_cut {source : String} {spans : List Span}
    (h : Cuttable source.toList spans) : ∃ c : Cut, c.text = source ∧ c.spans = spans := by
  obtain ⟨gap, ps, hrest, hspans⟩ :=
    @exists_pieces [] source.toList spans h (by simp [Text.byteLength])
  rw [Text.byteLength, Nat.zero_add] at hspans
  refine ⟨⟨gap, ps⟩, ?_, hspans⟩
  rw [Cut.text, Cut.fill, ← String.toList_inj, String.toList_append, hrest]

/-! ## Growing over a semicolon -/

/-- Spaces and tabs. -/
def AllBlank (cs : List Char) : Prop := ∀ c ∈ cs, c = ' ' ∨ c = '\t'

theorem char_eq_of_toNat_eq {c d : Char} (h : c.toNat = d.toNat) : c = d :=
  Char.ext (UInt32.toNat_inj.mp h)

/-- The search through bytes finds the character `;` after blank characters. -/
theorem semicolonAfter?_eq_some {cs : List Char} {m k : Nat}
    (h : semicolonAfter? ((Text.bytes cs).take m) = some k) :
    k ≤ m ∧ ∃ blanks more, cs = blanks ++ ';' :: more ∧ AllBlank blanks ∧ blanks.length + 1 = k := by
  induction cs generalizing m k with
  | nil => simp [Text.bytes, semicolonAfter?] at h
  | cons c cs ih =>
    obtain ⟨b, more, hbytes⟩ : ∃ b more, String.utf8EncodeChar c = b :: more :=
      List.exists_cons_of_ne_nil String.utf8EncodeChar_ne_nil
    rcases m with _ | m
    · simp [semicolonAfter?] at h
    · rw [Text.bytes, List.flatMap_cons, hbytes, List.cons_append, List.take_succ_cons,
        semicolonAfter?] at h
      split_ifs at h with hsemi hblank
      · have hc := (Text.eq_of_ascii_byte hbytes (by rw [hsemi]; decide)).1
        rw [Option.some.injEq] at h
        refine ⟨by omega, [], cs, ?_, by simp [AllBlank], h⟩
        rw [hsemi] at hc
        rw [char_eq_of_toNat_eq (d := ';') hc]
        rfl
      · simp only [Bool.or_eq_true, decide_eq_true_eq] at hblank
        have hlow : b.toNat < 128 := by rcases hblank with rfl | rfl <;> decide
        obtain ⟨hc, rfl⟩ := Text.eq_of_ascii_byte hbytes hlow
        obtain ⟨j, hj, rfl⟩ := Option.map_eq_some_iff.mp h
        obtain ⟨hle, blanks, more, rfl, hall, rfl⟩ := ih hj
        refine ⟨by omega, c :: blanks, more, rfl, ?_, rfl⟩
        intro d hd
        rcases List.mem_cons.mp hd with rfl | hd
        · rcases hblank with rfl | rfl
          · exact Or.inl (char_eq_of_toNat_eq hc)
          · exact Or.inr (char_eq_of_toNat_eq hc)
        · exact hall d hd

theorem byteLength_blank {cs : List Char} (h : AllBlank cs) : Text.byteLength cs = cs.length := by
  induction cs with
  | nil => rfl
  | cons c cs ih =>
    have hsize : c.utf8Size = 1 := by rcases h c (by simp) with rfl | rfl <;> rfl
    rw [Text.byteLength, ih (fun d hd => h d (List.mem_cons_of_mem _ hd)), hsize, List.length_cons]
    omega

/-- Between offsets that are clamped to a text there are always bytes, if perhaps none. -/
theorem bytesBetween?_clamped (bs : List UInt8) (stop limit : Nat) :
    bytesBetween? bs (min stop (min limit bs.length)) (min limit bs.length) =
      some ((bs.take limit).drop stop) := by
  unfold bytesBetween?
  rw [if_pos ⟨Nat.min_le_right _ _, Nat.min_le_right _ _⟩, ← List.take_eq_take_min,
    List.drop_eq_drop_iff.mpr]
  rw [List.length_take]
  omega

theorem extendToSemicolon_eq (source : String) (stop limit : Nat) :
    extendToSemicolon source stop limit =
      match semicolonAfter? (((Text.bytes source.toList).take limit).drop stop) with
      | some k => stop + k
      | none => stop := by
  change (match (bytesBetween? (Text.bytes source.toList) _ _).bind semicolonAfter? with
    | some k => stop + k
    | none => stop) = _
  rw [bytesBetween?_clamped, Option.bind_some]

/-- The end stays, or moves just past a semicolon with only blanks before it, and never past
the limit. -/
theorem extendToSemicolon_cases {source : String} {front back : List Char} (limit : Nat)
    (hsource : source.toList = front ++ back) :
    let stop := extendToSemicolon source (Text.byteLength front) limit
    stop = Text.byteLength front ∨ stop ≤ limit ∧ ∃ blanks more, AllBlank blanks ∧
      source.toList = front ++ (blanks ++ [';']) ++ more ∧
      stop = Text.byteLength (front ++ (blanks ++ [';'])) := by
  intro stop
  have hbytes : ((Text.bytes source.toList).take limit).drop (Text.byteLength front) =
      (Text.bytes back).take (limit - Text.byteLength front) := by
    rw [List.drop_take, hsource, Text.drop_bytes]
  have hstop : stop = extendToSemicolon source (Text.byteLength front) limit := rfl
  rw [extendToSemicolon_eq, hbytes] at hstop
  split at hstop
  · rename_i k hfound
    obtain ⟨hle, blanks, more, rfl, hall, hk⟩ := semicolonAfter?_eq_some hfound
    have hend : Text.byteLength front + k ≤ limit := by
      clear_value stop
      omega
    refine Or.inr ⟨hstop ▸ hend, blanks, more, hall, by simp [hsource], ?_⟩
    have hsemi : Text.byteLength [';'] = 1 := rfl
    rw [hstop, Text.byteLength_append, Text.byteLength_append, byteLength_blank hall, hsemi, hk]
  · exact Or.inl hstop

/-- `g` is `s`, or `s` with the semicolon after it where semicolons go too. Only blanks may
stand between the two. -/
structure Span.GrowsTo (source : String) (extend : Bool) (s g : Span) : Prop where
  start_eq : g.start = s.start
  stop_cases : g.stop = s.stop ∨ extend = true ∧ ∃ blanks, AllBlank blanks ∧
    Span.slice? ⟨s.stop, g.stop⟩ source = some (String.ofList (blanks ++ [';']))

/-- A span never shrinks. -/
theorem Span.GrowsTo.contains {source : String} {extend : Bool} {s g : Span}
    (h : s.GrowsTo source extend g) : g.contains s = true := by
  rw [Span.contains_iff]
  refine ⟨Nat.le_of_eq h.start_eq, ?_⟩
  rcases h.stop_cases with hstop | ⟨_, _, _, hslice⟩
  · exact Nat.le_of_eq hstop.symm
  · by_contra hgt
    rw [Span.slice?, Text.slice?, if_neg hgt] at hslice
    simp at hslice

/-- Where the growing of a span ends at the latest: the start of the next one. -/
def growthLimit (source : String) : List Span → Nat
  | [] => Text.byteLength source.toList
  | next :: _ => next.start

/-- The spans that are replaced in place of those that were found. -/
def grownSpans (source : String) (extend : Bool) : List Span → List Span
  | [] => []
  | s :: rest =>
    ⟨s.start, if extend then extendToSemicolon source s.stop (growthLimit source rest) else s.stop⟩ ::
      grownSpans source extend rest

theorem planFrom_eq (source : String) (replace : String → String) (extend : Bool)
    (found : List Span) :
    planFrom source replace extend found =
      (grownSpans source extend found).map
        (fun g => ⟨g, replace ((g.slice? source).getD "")⟩) := by
  induction found with
  | nil => rfl
  | cons s rest ih =>
    rw [grownSpans, List.map_cons, ← ih]
    rcases rest with _ | ⟨next, rest⟩ <;> rfl

/-- One span grows: it still fits, and does not pass its limit. -/
theorem Span.FitsIn.grow {source : String} {s : Span} (h : s.FitsIn source.toList) (extend : Bool)
    {limit : Nat} (hlimit : s.stop ≤ limit) :
    let g : Span := ⟨s.start, if extend then extendToSemicolon source s.stop limit else s.stop⟩
    s.GrowsTo source extend g ∧ g.FitsIn source.toList ∧ g.stop ≤ limit := by
  intro g
  cases extend with
  | false => exact ⟨⟨rfl, Or.inl rfl⟩, h, hlimit⟩
  | true =>
    obtain ⟨front, back, hsource, hfront⟩ := Text.isBoundary_iff.mp h.stopBoundary
    rw [← hfront] at hlimit
    have hg : g.stop = extendToSemicolon source (Text.byteLength front) limit := by rw [hfront]; rfl
    rcases extendToSemicolon_cases limit hsource with
      hstay | ⟨hle, blanks, more, hall, htext, hmove⟩
    · have hsame : g = s := by
        rw [hstay, hfront] at hg
        exact congrArg (Span.mk s.start) hg
      exact ⟨⟨rfl, Or.inl (by rw [hsame])⟩, hsame ▸ h, by rw [hsame, ← hfront]; exact hlimit⟩
    · rw [hmove] at hg
      have hslice : Span.slice? ⟨s.stop, g.stop⟩ source =
          some (String.ofList (blanks ++ [';'])) := by
        rw [Span.slice?, htext, hg, ← hfront, Text.slice?_middle, Option.map_some]
      have hboundary : Text.isBoundary source.toList g.stop = true :=
        Text.isBoundary_iff.mpr ⟨_, more, htext, hg.symm⟩
      have hforward : g.start ≤ g.stop := by
        have hs := h.forward
        rw [Text.byteLength_append] at hg
        have hstart : g.start = s.start := rfl
        omega
      refine ⟨⟨rfl, Or.inr ⟨rfl, blanks, hall, hslice⟩⟩, ?_, by rw [hg, ← hmove]; exact hle⟩
      exact ⟨hforward, Text.le_byteLength_of_isBoundary hboundary, h.startBoundary, hboundary⟩

/-- In two lists that stand in a relation one by one, each left entry has a right one. -/
theorem exists_right_of_mem {α β : Type} {R : α → β → Prop} {xs : List α} {ys : List β} {x : α}
    (h : List.Forall₂ R xs ys) (hx : x ∈ xs) : ∃ y ∈ ys, R x y := by
  induction h with
  | nil => simp at hx
  | @cons x' y xs ys hxy _ ih =>
    rcases List.mem_cons.mp hx with rfl | hx
    · exact ⟨y, by simp, hxy⟩
    · obtain ⟨z, hz, hxz⟩ := ih hx
      exact ⟨z, List.mem_cons_of_mem _ hz, hxz⟩

/-- Each grown span comes from one that was found. -/
theorem exists_grows_of_mem {source : String} {extend : Bool} {found grown : List Span} {g : Span}
    (h : List.Forall₂ (Span.GrowsTo source extend) found grown) (hg : g ∈ grown) :
    ∃ s ∈ found, s.GrowsTo source extend g :=
  exists_right_of_mem (R := flip (Span.GrowsTo source extend)) h.flip hg

theorem Cuttable.stop_le_growthLimit {source : String} {s : Span} {rest : List Span}
    (h : Cuttable source.toList (s :: rest)) : s.stop ≤ growthLimit source rest := by
  rcases rest with _ | ⟨next, rest⟩
  · exact (h.fits s (by simp)).inBounds
  · exact (List.pairwise_cons.mp h.apart).1 next (by simp)

theorem Cuttable.tail {source : List Char} {s : Span} {rest : List Span}
    (h : Cuttable source (s :: rest)) : Cuttable source rest :=
  ⟨fun u hu => h.fits u (List.mem_cons_of_mem _ hu), (List.pairwise_cons.mp h.apart).2⟩

/-- Spans that could be cut out can be cut out after growing. -/
theorem Cuttable.grow {source : String} {found : List Span} (h : Cuttable source.toList found)
    (extend : Bool) :
    List.Forall₂ (Span.GrowsTo source extend) found (grownSpans source extend found) ∧
      Cuttable source.toList (grownSpans source extend found) := by
  induction found with
  | nil => exact ⟨List.Forall₂.nil, ⟨by simp [grownSpans], List.Pairwise.nil⟩⟩
  | cons s rest ih =>
    obtain ⟨hpairs, hfits, hapart⟩ := ih h.tail
    obtain ⟨hgrows, hfit, hlimit⟩ :=
      (h.fits s (by simp)).grow extend h.stop_le_growthLimit
    refine ⟨List.Forall₂.cons hgrows hpairs, ?_, List.Pairwise.cons ?_ hapart⟩
    · intro g hg
      rcases List.mem_cons.mp hg with rfl | hg
      · exact hfit
      · exact hfits g hg
    · -- The limit is the start of the next span, and later ones start after that one ends.
      intro g hg
      obtain ⟨u, hu, hgrows'⟩ := exists_grows_of_mem hpairs hg
      refine Nat.le_trans hlimit ?_
      rw [hgrows'.start_eq]
      rcases rest with _ | ⟨next, rest⟩
      · simp at hu
      · rcases List.mem_cons.mp hu with rfl | hu
        · exact Nat.le_refl _
        · have hnext := (h.fits next (by simp)).forward
          have hafter := (List.pairwise_cons.mp h.tail.apart).1 u hu
          exact Nat.le_trans hnext hafter

/-! ## Making the edits -/

/-- The edits that put each part through `f`. -/
def Cut.edits (f : String → String) (c : Cut) : List Edit :=
  List.zipWith Edit.mk c.spans (c.pieces.map (fun p => f p.part))

theorem Cut.map_parts (c : Cut) (f : String → String) :
    c.pieces.map (fun p => f p.part) =
      c.spans.map (fun g => f ((g.slice? c.text).getD "")) := by
  have hparts := congrArg (List.map (fun o => f (o.getD ""))) c.slice?_spans
  rw [List.map_map, List.map_map] at hparts
  exact hparts.symm

theorem Cut.map_edit_spans (c : Cut) (f : String → String) :
    c.spans.map (fun g => ⟨g, f ((g.slice? c.text).getD "")⟩) = c.edits f := by
  rw [Cut.edits, c.map_parts, List.zipWith_map_right, List.zipWith_self]

theorem Cut.edits_span (f : String → String) (c : Cut) : (c.edits f).map Edit.span = c.spans := by
  rw [← Cut.map_edit_spans, List.map_map]
  exact List.map_id _

/-- Copying a text that begins with a gap puts the texts of the edits in place of the parts. -/
theorem splice_pieces (offset : Nat) (gap : String) (ps : List Piece) {es : List Edit}
    (h : es.map Edit.span = Cut.spansFrom (offset + Text.byteLength gap.toList) ps) :
    EditList.splice offset (gap ++ Cut.fillPieces id ps).toList es =
      some (gap ++ Cut.fillPiecesWith (es.map Edit.text) ps).toList := by
  induction ps generalizing offset gap es with
  | nil =>
    rw [Cut.spansFrom, List.map_eq_nil_iff] at h
    subst h
    rfl
  | cons p ps ih =>
    rw [Cut.spansFrom, List.map_eq_cons_iff] at h
    obtain ⟨e, es, rfl, hspan, hrest⟩ := h
    have hgap : offset + Text.byteLength gap.toList - offset = Text.byteLength gap.toList := by
      omega
    have hpart : offset + Text.byteLength gap.toList + Text.byteLength p.part.toList -
        (offset + Text.byteLength gap.toList) = Text.byteLength p.part.toList := by omega
    have htext : (gap ++ Cut.fillPieces id (p :: ps)).toList =
        gap.toList ++ (p.part.toList ++ (p.gap ++ Cut.fillPieces id ps).toList) := by
      simp [Cut.fillPieces]
    simp only [EditList.splice, hspan, htext, hgap, Text.splitAt?_byteLength, hpart,
      Option.bind_eq_bind, Option.bind_some, ih _ _ hrest]
    simp [Cut.fillPiecesWith]

/-- Edits at the spans of a cut replace its parts by their texts. -/
theorem Cut.splice_eq (c : Cut) {es : List Edit} (h : es.map Edit.span = c.spans) :
    EditList.splice 0 c.text.toList es = some (c.fillWith (es.map Edit.text)).toList := by
  apply splice_pieces
  rw [h, Nat.zero_add]
  rfl

theorem Cut.edits_text (f : String → String) (c : Cut) :
    (c.edits f).map Edit.text = c.pieces.map (fun p => f p.part) := by
  rw [← Cut.map_edit_spans, c.map_parts, List.map_map]
  rfl

theorem Cut.splice_edits (f : String → String) (c : Cut) :
    EditList.splice 0 c.text.toList (c.edits f) = some (c.fill f).toList := by
  rw [c.splice_eq (c.edits_span f), c.edits_text f, Cut.fillWith, Cut.fillPiecesWith_map]
  rfl

/-- Cuts of one text at the same spans are filled alike. -/
theorem Cut.fill_congr {c d : Cut} (htext : c.text = d.text) (hspans : c.spans = d.spans)
    (f : String → String) : c.fill f = d.fill f := by
  have hedits : c.edits f = d.edits f := by
    rw [← c.map_edit_spans, ← d.map_edit_spans, htext, hspans]
  have hsplice := c.splice_edits f
  rw [hedits, htext, d.splice_edits, Option.some.injEq, String.toList_inj] at hsplice
  exact hsplice.symm

/-- Edits at spans that can be cut out are in order already, so the sort leaves them alone. -/
theorem Cuttable.ordered_eq {source : List Char} {edits : List Edit}
    (h : Cuttable source (edits.map Edit.span)) :
    edits.mergeSort Edit.startsBefore = edits := by
  apply List.mergeSort_of_pairwise
  refine (List.pairwise_map.mp h.apart).imp_of_mem ?_
  intro e f he _ hef
  have hforward := (h.fits e.span (List.mem_map_of_mem he)).forward
  simp only [Edit.startsBefore, decide_eq_true_eq]
  omega

/-- Making the edits of a cut fills the cut. -/
theorem Cut.apply_edits {c : Cut} (h : Cuttable c.text.toList c.spans) (f : String → String) :
    ((EditList.ofSource c.text).addAll (c.edits f)).apply = .ok (c.fill f) := by
  have hordered : ((EditList.ofSource c.text).addAll (c.edits f)).ordered = c.edits f := by
    rw [← c.edits_span f] at h
    exact h.ordered_eq
  have hcheck : checkSpans c.text.toList ((c.edits f).map Edit.span) = .ok () := by
    rw [c.edits_span f]
    exact checkSpans_eq_ok_iff.mpr h
  have hsource : ((EditList.ofSource c.text).addAll (c.edits f)).source = c.text := rfl
  rw [EditList.apply, hordered, hsource, hcheck, c.splice_edits f]
  simp

/-- A plan for spans that can be cut out puts the parts at the grown spans through `replace`. -/
theorem planEdits_of_cuttable {source : String} {found : List Span}
    (h : Cuttable source.toList found) (replace : String → String) (extend : Bool) :
    ∃ c : Cut, c.text = source ∧ c.spans = grownSpans source extend found ∧
      Cuttable c.text.toList c.spans ∧
      planEdits source found replace extend = .ok (c.edits replace) := by
  obtain ⟨_, hgrown⟩ := h.grow extend
  obtain ⟨c, rfl, hspans⟩ := hgrown.exists_cut
  rw [← hspans] at hgrown
  refine ⟨c, rfl, hspans, hgrown, ?_⟩
  rw [planEdits, checkSpans_eq_ok_iff.mpr h, planFrom_eq, ← hspans, c.map_edit_spans]
  rfl

end LogSweep
