-- The paths above a path. Going up drops the last component and nothing else, so a path above
-- another one is a front part of it, and what is left below it is the rest.
import Mathlib.Data.List.DropRight
import LogSweep.Proofs.FoundFiles

namespace LogSweep.Path

/-! ## Components of the pieces inside a path -/

/-- What pieces that open no path stand for. -/
def inside (pieces : List String) : List Component :=
  (pieces.map Part.inner).filterMap Part.component

theorem inside_cons (s : String) (rest : List String) :
    inside (s :: rest) = (Part.inner s).component.toList ++ inside rest := by
  unfold inside
  cases h : (Part.inner s).component <;> simp [h]

theorem inside_idle {s : String} (h : s = "" ∨ s = ".") (rest : List String) :
    inside (s :: rest) = inside rest := by
  rw [inside_cons]
  simp [Part.inner, h]

theorem inside_up (rest : List String) : inside (".." :: rest) = .up :: inside rest := by
  rw [inside_cons]
  simp [Part.inner]

theorem inside_name {s : String} (h : FileTree.isName s = true) (rest : List String) :
    inside (s :: rest) = .name s :: inside rest := by
  rw [inside_cons, inner_of_isName h]
  rfl

/-- A piece counts for nothing, goes up, or is a name. -/
theorem piece_cases (s : String) : (s = "" ∨ s = ".") ∨ s = ".." ∨ FileTree.isName s = true := by
  rw [FileTree.isName_iff]
  tauto

/-- Inside a path there is nothing but names and ways up. -/
theorem mem_inside {pieces : List String} {c : Component} (h : c ∈ inside pieces) :
    c = .up ∨ ∃ n, FileTree.isName n = true ∧ c = .name n := by
  induction pieces with
  | nil => simp [inside] at h
  | cons s rest ih =>
    rcases piece_cases s with hidle | rfl | hname
    · rw [inside_idle hidle] at h
      exact ih h
    · rw [inside_up, List.mem_cons] at h
      exact h.elim Or.inl ih
    · rw [inside_name hname, List.mem_cons] at h
      exact h.elim (fun hc => Or.inr ⟨s, hname, hc⟩) ih

theorem exists_names {cs : List Component}
    (h : ∀ c ∈ cs, ∃ n, FileTree.isName n = true ∧ c = .name n) :
    ∃ names : List String, cs = names.map .name ∧ ∀ n ∈ names, FileTree.isName n = true := by
  induction cs with
  | nil => exact ⟨[], rfl, by simp⟩
  | cons c cs ih =>
    obtain ⟨n, hn, rfl⟩ := h c List.mem_cons_self
    obtain ⟨names, rfl, hnames⟩ := ih (fun d hd => h d (List.mem_cons_of_mem _ hd))
    exact ⟨n :: names, rfl, List.forall_mem_cons.mpr ⟨hn, hnames⟩⟩

/-- The piece that opens a longer path always counts. -/
theorem components_cons {a : String} {ps : List String} (h : a ≠ "" ∨ ps ≠ []) :
    ∃ c, (Part.opening a).component = some c ∧ (Path.mk (a :: ps)).components = c :: inside ps := by
  obtain ⟨c, hc⟩ : ∃ c, (Part.opening a).component = some c := by
    unfold Part.opening Part.inner
    split
    · exact ⟨_, rfl⟩
    · split
      · exact ⟨_, rfl⟩
      · split
        · simp_all
        · split <;> exact ⟨_, rfl⟩
  refine ⟨c, hc, ?_⟩
  rw [components, parts_cons h, List.filterMap_cons_some hc]
  rfl

/-- A path without pieces, or with one that is empty, has no components. -/
theorem components_cases (p : Path) :
    ((p.pieces = [] ∨ p.pieces = [""]) ∧ p.components = []) ∨
      ∃ a ps c, p.pieces = a :: ps ∧ (a ≠ "" ∨ ps ≠ []) ∧ (Part.opening a).component = some c ∧
        p.components = c :: inside ps := by
  obtain ⟨pieces⟩ := p
  rcases pieces with _ | ⟨a, ps⟩
  · exact Or.inl ⟨Or.inl rfl, rfl⟩
  · by_cases h : a ≠ "" ∨ ps ≠ []
    · obtain ⟨c, hc, hcomponents⟩ := components_cons h
      exact Or.inr ⟨a, ps, c, rfl, h, hc, hcomponents⟩
    · simp only [not_or, ne_eq, not_not] at h
      obtain ⟨rfl, rfl⟩ := h
      exact Or.inl ⟨Or.inr rfl, rfl⟩

/-- The pieces of a path of names stand for just these names. -/
theorem inside_of_names {p : Path} {names : List String} (h : p.components = names.map .name) :
    inside p.pieces = names.map .name := by
  rcases p.components_cases with ⟨hpieces, hnone⟩ | ⟨a, ps, c, hpieces, _, hc, hcomponents⟩
  · rw [← h, hnone]
    rcases hpieces with hpieces | hpieces <;> rw [hpieces] <;> rfl
  · rw [hpieces, inside_cons, ← h, hcomponents]
    rcases names with _ | ⟨n, names⟩
    · simp [hcomponents] at h
    · obtain ⟨rfl, _⟩ : c = .name n ∧ _ := by
        rw [hcomponents, List.map_cons, List.cons.injEq] at h
        exact h
      -- A path that opens with a name opens with a piece like any other.
      have hopening : Part.opening a = Part.inner a := by
        unfold Part.opening at *
        split
        · simp_all
        · split
          · simp_all
          · rfl
      rw [← hopening, hc]
      rfl

theorem pieces_ofText_ne_nil (text : String) : (ofText text).pieces ≠ [] := by
  unfold ofText
  rcases text.toList with _ | ⟨c, cs⟩
  · simp [Text.splitOn]
  · unfold Text.splitOn
    split
    · simp
    · split <;> simp

theorem mem_components_tail {p : Path} {c : Component} (h : c ∈ p.components.tail) :
    c = .up ∨ ∃ n, FileTree.isName n = true ∧ c = .name n := by
  rcases p.components_cases with ⟨_, hnone⟩ | ⟨_, ps, _, _, _, _, hcomponents⟩
  · simp [hnone] at h
  · rw [hcomponents, List.tail_cons] at h
    exact mem_inside h

theorem isAbsolute_iff {p : Path} : p.isAbsolute = true ↔ p.components.head? = some .root := by
  rcases p.components_cases with ⟨hpieces, hnone⟩ | ⟨a, ps, c, hpieces, hlong, hc, hcomponents⟩
  · rw [hnone]
    rcases hpieces with hpieces | hpieces <;> simp [isAbsolute, hpieces]
  · obtain ⟨pieces⟩ := p
    simp only at hpieces
    subst hpieces
    rw [hcomponents, FileTree.isAbsolute_cons, List.head?_cons, ← hc]
    by_cases ha : a = ""
    · simp_all [Part.opening]
    · unfold Part.opening Part.inner
      simp only [ha, if_false, Bool.or_eq_true, decide_eq_true_eq, false_or]
      split
      · simp
      · split <;> simp

theorem root_not_mem_tail (p : Path) : .root ∉ p.components.tail := by
  intro hroot
  rcases mem_components_tail hroot with heq | ⟨n, _, heq⟩
  · simp at heq
  · simp at heq

/-- The root is nowhere but at the front. -/
theorem isAbsolute_of_root_mem {p : Path} (h : .root ∈ p.components) : p.isAbsolute = true := by
  rw [isAbsolute_iff]
  have htail := p.root_not_mem_tail
  rcases hcs : p.components with _ | ⟨c, cs⟩
  · simp [hcs] at h
  · rw [hcs, List.tail_cons] at htail
    rw [hcs, List.mem_cons] at h
    rw [List.head?_cons, ← h.resolve_right htail]

/-! ## Paths written from parts -/

theorem trimEnd_eq (ps : List Part) : trimEnd ps = ps.rdropWhile Part.isIdle := rfl

theorem component_of_not_isIdle {q : Part} (h : ¬ q.isIdle = true) : ∃ c, q.component = some c := by
  unfold Part.isIdle at h
  cases hq : q.component with
  | none => simp [hq] at h
  | some c => exact ⟨c, rfl⟩

theorem filterMap_trimEnd (ps : List Part) :
    (trimEnd ps).filterMap Part.component = ps.filterMap Part.component := by
  rw [trimEnd_eq]
  induction ps using List.reverseRecOn with
  | nil => rfl
  | append_singleton init q ih =>
    by_cases hq : q.isIdle = true
    · have hnone : q.component = none := by simpa [Part.isIdle] using hq
      rw [List.rdropWhile_concat_pos _ _ _ hq, ih]
      simp [hnone]
    · rw [List.rdropWhile_concat_neg _ _ _ hq]

theorem piece_inner (s : String) : (Part.inner s).piece = s := by
  unfold Part.inner
  split
  · rfl
  · split <;> rfl

theorem piece_opening (a : String) : (Part.opening a).piece = a := by
  unfold Part.opening
  split
  · rfl
  · split
    · rfl
    · exact piece_inner a

theorem ofParts_opening (a : String) :
    ofParts [Part.opening a] = if a = "" then ⟨["", ""]⟩ else ⟨[a]⟩ := by
  by_cases ha : a = ""
  · subst ha
    rfl
  · rw [if_neg ha]
    by_cases hdot : a = "."
    · subst hdot
      rfl
    · by_cases hup : a = ".." <;> simp [ofParts, Part.opening, Part.inner, ha, hdot, hup]

/-- A front part of the parts of a path is written as a path with just its components. -/
theorem components_ofParts {p : Path} {ps : List Part} (h : ps <+: p.parts) :
    (ofParts ps).components = ps.filterMap Part.component := by
  obtain ⟨pieces⟩ := p
  rcases pieces with _ | ⟨a, rest⟩
  · rw [List.prefix_nil.mp h]
    rfl
  by_cases hlong : a ≠ "" ∨ rest ≠ []
  · rw [parts_cons hlong] at h
    rcases List.prefix_cons_iff.mp h with rfl | ⟨qs, rfl, hqs⟩
    · rfl
    · obtain ⟨front, _, rfl⟩ := List.prefix_map_iff.mp hqs
      rcases front with _ | ⟨s, front⟩
      · rw [List.map_nil, ofParts_opening]
        split
        · rename_i ha
          subst ha
          rfl
        · rename_i ha
          rw [components, parts_cons (Or.inl ha), List.map_nil]
      · have hmany : ofParts (Part.opening a :: (s :: front).map Part.inner) =
            ⟨a :: s :: front⟩ := by
          simp [ofParts, piece_opening, piece_inner, Function.comp_def]
        rw [hmany, components, parts_cons (Or.inr (by simp))]
  · -- The empty path is one piece that counts for nothing.
    simp only [not_or, ne_eq, not_not] at hlong
    obtain ⟨rfl, rfl⟩ := hlong
    rcases List.prefix_cons_iff.mp h with rfl | ⟨qs, rfl, hqs⟩
    · rfl
    · rw [List.prefix_nil.mp hqs]
      rfl

/-! ## Up -/

/-- What the path above a path is: it has all components but the last, and there is none above the
root or above a path without components. -/
theorem parent?_cases (p : Path) :
    (p.components = [] ∧ p.parent? = none) ∨
      ∃ cs c, p.components = cs ++ [c] ∧
        ((c = .root ∧ p.parent? = none) ∨
          (c ≠ .root ∧ ∃ q, p.parent? = some q ∧ q.components = cs)) := by
  have hall := filterMap_trimEnd p.parts
  have hfront : trimEnd p.parts <+: p.parts := List.rdropWhile_prefix _ _
  unfold parent?
  rcases List.eq_nil_or_concat (trimEnd p.parts) with hnil | ⟨init, last, hlast⟩
  · refine Or.inl ⟨?_, ?_⟩
    · rw [components, ← hall, hnil]
      rfl
    · simp [hnil]
  · rw [List.concat_eq_append] at hlast
    have hcounts : ¬ last.isIdle = true := by
      have hend := List.rdropWhile_last_not Part.isIdle p.parts
        (by rw [← trimEnd_eq, hlast]; simp)
      simpa [← trimEnd_eq, hlast] using hend
    obtain ⟨c, hc⟩ := component_of_not_isIdle hcounts
    refine Or.inr ⟨init.filterMap Part.component, c, ?_, ?_⟩
    · rw [components, ← hall, hlast, List.filterMap_append, List.filterMap_cons_some hc]
      rfl
    · simp only [hlast, List.getLast?_concat, List.dropLast_concat]
      by_cases hroot : c = .root
      · refine Or.inl ⟨hroot, ?_⟩
        obtain ⟨piece, component⟩ := last
        simp only at hc
        subst hc hroot
        rfl
      · refine Or.inr ⟨hroot, ofParts (trimEnd init), ?_, ?_⟩
        · obtain ⟨piece, component⟩ := last
          simp only at hc
          subst hc
          cases c <;> simp_all
        · have hinit : trimEnd init <+: p.parts :=
            (List.rdropWhile_prefix _ _).trans
              ((List.prefix_append init [last]).trans (hlast ▸ hfront))
          rw [components_ofParts hinit, filterMap_trimEnd]

theorem components_of_parent? {p q : Path} (h : p.parent? = some q) :
    ∃ c, c ≠ .root ∧ p.components = q.components ++ [c] := by
  rcases p.parent?_cases with ⟨_, hnone⟩ | ⟨cs, c, hcs, ⟨_, hnone⟩ | ⟨hc, q', hq', rfl⟩⟩
  · simp [hnone] at h
  · simp [hnone] at h
  · obtain rfl : q' = q := by simpa [hq'] using h
    exact ⟨c, hc, hcs⟩

theorem exists_parent? {p : Path} {cs : List Component} {c : Component}
    (h : p.components = cs ++ [c]) (hc : c ≠ .root) :
    ∃ q, p.parent? = some q ∧ q.components = cs := by
  rcases p.parent?_cases with ⟨hnil, _⟩ | ⟨cs', c', hcs, hup⟩
  · simp [hnil] at h
  · rw [h] at hcs
    obtain ⟨rfl, hlast⟩ := List.append_inj' hcs rfl
    obtain rfl : c = c' := by simpa using hlast
    rcases hup with ⟨hroot, _⟩ | ⟨_, hq⟩
    · exact absurd hroot hc
    · exact hq

/-- Whatever is above a path has a front part of its components. -/
theorem components_prefix_of_mem_climb {n : Nat} {p q : Path} (h : q ∈ climb n p) :
    q.components <+: p.components := by
  induction n generalizing p with
  | zero =>
    rw [climb, List.mem_singleton] at h
    exact h ▸ List.prefix_refl _
  | succ n ih =>
    rw [climb, List.mem_cons] at h
    rcases h with rfl | h
    · exact List.prefix_refl _
    · rcases hup : p.parent? with _ | r
      · simp [hup] at h
      · rw [hup] at h
        obtain ⟨c, _, hc⟩ := components_of_parent? hup
        rw [hc]
        exact (ih h).trans (List.prefix_append _ _)

/-- Whatever is above an absolute path is absolute: the root stays at the front. -/
theorem isAbsolute_of_mem_climb {n : Nat} {p q : Path} (h : q ∈ climb n p)
    (hp : p.isAbsolute = true) : q.isAbsolute = true := by
  induction n generalizing p with
  | zero =>
    rw [climb, List.mem_singleton] at h
    rwa [h]
  | succ n ih =>
    rw [climb, List.mem_cons] at h
    rcases h with rfl | h
    · exact hp
    · rcases hup : p.parent? with _ | r
      · simp [hup] at h
      · rw [hup] at h
        refine ih h ?_
        obtain ⟨c, hc, hcomponents⟩ := components_of_parent? hup
        rw [isAbsolute_iff, hcomponents] at hp
        rw [isAbsolute_iff]
        rcases hr : r.components with _ | ⟨d, ds⟩
        · simp [hr, hc] at hp
        · simpa [hr] using hp

/-! ## Down -/

/-- Taking components off the front of some parts leaves the last of them. -/
theorem exists_stripParts {ps : List Part} {cs ds : List Component}
    (h : ps.filterMap Part.component = cs ++ ds) :
    ∃ rest, stripParts ps cs = some rest ∧ rest <:+ ps ∧ rest.filterMap Part.component = ds := by
  induction ps generalizing cs with
  | nil =>
    obtain ⟨rfl, rfl⟩ : cs = [] ∧ ds = [] := by simpa using h
    exact ⟨[], by simp [stripParts], List.suffix_refl _, rfl⟩
  | cons q qs ih =>
    rcases cs with _ | ⟨c, cs⟩
    · exact ⟨q :: qs, by simp [stripParts], List.suffix_refl _, h⟩
    · rcases hq : q.component with _ | d
      · rw [List.filterMap_cons_none hq] at h
        obtain ⟨rest, hstrip, hsuffix, hrest⟩ := ih h
        exact ⟨rest, by simpa [stripParts, hq] using hstrip, hsuffix.trans (List.suffix_cons q qs),
          hrest⟩
      · rw [List.filterMap_cons_some hq, List.cons_append, List.cons.injEq] at h
        obtain ⟨rest, hstrip, hsuffix, hrest⟩ := ih h.2
        exact ⟨rest, by simpa [stripParts, hq, h.1] using hstrip,
          hsuffix.trans (List.suffix_cons q qs), hrest⟩

/-- Pieces from inside a path can open one when the first of them counts. -/
theorem parts_of_dropWhile (ms : List String) :
    (Path.mk (ms.dropWhile (fun s => (Part.inner s).isIdle))).parts =
      (ms.map Part.inner).dropWhile Part.isIdle := by
  induction ms with
  | nil => rfl
  | cons s rest ih =>
    by_cases hs : (Part.inner s).isIdle = true
    · simpa only [List.map_cons, List.dropWhile_cons, hs, if_true] using ih
    · simp only [List.map_cons, List.dropWhile_cons, hs, Bool.false_eq_true, if_false]
      have hcounts : s ≠ "" ∧ s ≠ "." := by
        constructor
        · rintro rfl
          exact hs rfl
        · rintro rfl
          exact hs rfl
      rw [parts_cons (Or.inl hcounts.1)]
      simp [Part.opening, hcounts]

theorem filterMap_dropWhile (ps : List Part) :
    (ps.dropWhile Part.isIdle).filterMap Part.component = ps.filterMap Part.component := by
  induction ps with
  | nil => rfl
  | cons q qs ih =>
    by_cases hq : q.isIdle = true
    · have hnone : q.component = none := by simpa [Part.isIdle] using hq
      rw [List.dropWhile_cons_of_pos hq, ih, List.filterMap_cons_none hnone]
    · rw [List.dropWhile_cons_of_neg hq]

/-- Below a front part of a path there is the rest of it. -/
theorem exists_below? {p q : Path} (h : q.components <+: p.components) (hq : q.components ≠ []) :
    ∃ rest, p.below? q = some rest ∧ p.components = q.components ++ rest.components := by
  obtain ⟨ds, hds⟩ := h
  obtain ⟨c, cs, hcs⟩ := List.exists_cons_of_ne_nil hq
  rcases p.components_cases with ⟨_, hnone⟩ | ⟨a, ps, c', hpieces, hlong, hc', hcomponents⟩
  · simp [hnone, hcs] at hds
  · obtain ⟨pieces⟩ := p
    simp only at hpieces
    subst hpieces
    rw [hcomponents, hcs, List.cons_append, List.cons.injEq] at hds
    obtain ⟨rfl, hrest⟩ := hds
    -- The piece that opens the path goes first, so what is left comes from inside it.
    obtain ⟨left, hstrip, hsuffix, hleft⟩ :=
      exists_stripParts (show (ps.map Part.inner).filterMap Part.component = cs ++ ds from hrest.symm)
    obtain ⟨ms, _, rfl⟩ := List.suffix_map_iff.mp hsuffix
    refine ⟨ofParts (trimEnd ((ms.map Part.inner).dropWhile Part.isIdle)), ?_, ?_⟩
    · rw [below?, parts_cons hlong, hcs, stripParts, hc']
      simp [hstrip]
    · have hfront : trimEnd ((ms.map Part.inner).dropWhile Part.isIdle) <+:
          (Path.mk (ms.dropWhile (fun s => (Part.inner s).isIdle))).parts := by
        rw [parts_of_dropWhile]
        exact List.rdropWhile_prefix _ _
      rw [components_ofParts hfront, filterMap_trimEnd, filterMap_dropWhile, hleft, hcomponents, hcs,
        List.cons_append, hrest]

end LogSweep.Path
