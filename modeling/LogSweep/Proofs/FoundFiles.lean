-- The files that a search finds. Each stands in the tree, the search below one root finds none of
-- them twice, and the path of a found file is its root with names joined to it, which are also its
-- path below an output directory.
import Mathlib.Data.List.Nodup
import LogSweep.Run
import LogSweep.Proofs.Places

namespace LogSweep

/-! ## Paths with names joined to them -/

namespace Path

/-- What the piece that opens a longer path stands for. -/
def Part.opening (piece : String) : Part :=
  if piece = "" then ⟨piece, some .root⟩
  else if piece = "." then ⟨piece, some .here⟩
  else Part.inner piece

theorem parts_cons {a : String} {ps : List String} (h : a ≠ "" ∨ ps ≠ []) :
    (Path.mk (a :: ps)).parts = Part.opening a :: ps.map Part.inner := by
  by_cases ha : a = ""
  · subst ha
    obtain ⟨b, qs, rfl⟩ := List.exists_cons_of_ne_nil (h.resolve_left (by simp))
    simp [parts, Part.opening]
  · by_cases hdot : a = "."
    · simp [parts, Part.opening, hdot]
    · simp [parts, Part.opening, ha, hdot]

/-- The part of a name. -/
def Part.named (n : String) : Part := ⟨n, some (.name n)⟩

theorem inner_of_isName {n : String} (h : FileTree.isName n = true) :
    Part.inner n = Part.named n := by
  rw [FileTree.isName_iff] at h
  simp [Part.inner, Part.named, h]

theorem map_inner {names : List String} (h : ∀ n ∈ names, FileTree.isName n = true) :
    names.map Part.inner = names.map Part.named :=
  List.map_congr_left (fun n hn => inner_of_isName (h n hn))

theorem parts_names {names : List String} (h : ∀ n ∈ names, FileTree.isName n = true) :
    (Path.mk names).parts = names.map Part.named := by
  rcases names with _ | ⟨n, rest⟩
  · rfl
  · have hn := FileTree.isName_iff.mp (h n (by simp))
    have hopening : Part.opening n = Part.inner n := by simp [Part.opening, hn]
    rw [parts_cons (Or.inl hn.1), hopening, ← List.map_cons, map_inner h]

theorem isAbsolute_names {names : List String} (h : ∀ n ∈ names, FileTree.isName n = true) :
    (Path.mk names).isAbsolute = false := by
  rcases names with _ | ⟨n, rest⟩
  · rfl
  · simp [FileTree.isAbsolute_cons, (FileTree.isName_iff.mp (h n (by simp))).1]

/-- A path with names joined to it, in parts: the parts of the path, less at most one that counts
for nothing, and then the names. -/
theorem parts_join (p : Path) {names : List String} (hne : names ≠ [])
    (h : ∀ n ∈ names, FileTree.isName n = true) :
    ∃ front, (p.join ⟨names⟩).parts = front ++ names.map Part.named ∧
      p.components = front.filterMap Part.component := by
  obtain ⟨ps⟩ := p
  by_cases hempty : ps = [""]
  · refine ⟨[], ?_, by rw [hempty]; rfl⟩
    rw [join, if_pos (by simp [hempty]), parts_names h, List.nil_append]
  · rw [join, if_neg (by simp [hempty, isAbsolute_names h])]
    by_cases hlast : ps.getLast? = some ""
    · obtain ⟨init, rfl⟩ := List.getLast?_eq_some_iff.mp hlast
      obtain ⟨a, rest, rfl⟩ := List.exists_cons_of_ne_nil
        (show init ≠ [] by rintro rfl; exact hempty rfl)
      refine ⟨Part.opening a :: rest.map Part.inner, ?_, ?_⟩
      · rw [if_pos hlast, List.dropLast_concat, List.cons_append, parts_cons (Or.inr (by simp [hne])),
          List.map_append, map_inner h, List.cons_append]
      · -- The slash at the end is a piece that counts for nothing.
        have hidle : (Part.inner "").component = none := rfl
        rw [components, List.cons_append, parts_cons (Or.inr (by simp))]
        simp [List.filterMap_cons, hidle]
    · rw [if_neg hlast]
      rcases ps with _ | ⟨a, rest⟩
      · exact ⟨[], by rw [List.nil_append, parts_names h, List.nil_append], rfl⟩
      · have hfirst : a ≠ "" ∨ rest ≠ [] := by
          by_contra hboth
          simp only [not_or, ne_eq, not_not] at hboth
          exact hempty (by rw [hboth.1, hboth.2])
        refine ⟨Part.opening a :: rest.map Part.inner, ?_, ?_⟩
        · rw [List.cons_append, parts_cons (Or.inr (by simp [hne])), List.map_append, map_inner h,
            List.cons_append]
        · rw [components, parts_cons hfirst]

theorem filterMap_named (names : List String) :
    (names.map Part.named).filterMap Part.component = names.map Component.name := by
  have hname : Part.component ∘ Part.named = some ∘ Component.name := rfl
  rw [List.filterMap_map, hname, List.filterMap_eq_map]

theorem dropWhile_named (names : List String) :
    (names.map Part.named).dropWhile Part.isIdle = names.map Part.named := by
  rcases names with _ | ⟨n, rest⟩
  · rfl
  · exact List.dropWhile_cons_of_neg (by simp [Part.named, Part.isIdle])

theorem trimEnd_named (names : List String) :
    trimEnd (names.map Part.named) = names.map Part.named := by
  rw [trimEnd, ← List.map_reverse, dropWhile_named, List.map_reverse, List.reverse_reverse]

theorem ofParts_named {names : List String} (hne : names ≠ []) :
    ofParts (names.map Part.named) = ⟨names⟩ := by
  rcases names with _ | ⟨n, _ | ⟨m, rest⟩⟩
  · exact absurd rfl hne
  · rfl
  · simp [ofParts, Part.named, Function.comp_def]

theorem components_join (p : Path) {names : List String} (hne : names ≠ [])
    (h : ∀ n ∈ names, FileTree.isName n = true) :
    (p.join ⟨names⟩).components = p.components ++ names.map Component.name := by
  obtain ⟨front, hparts, hfront⟩ := p.parts_join hne h
  rw [components, hparts, List.filterMap_append, filterMap_named, hfront]

/-- Taking all its components off the front of some parts leaves parts that count for nothing. -/
theorem stripParts_append (front back : List Part) :
    ∃ idle, (∀ q ∈ idle, q.isIdle = true) ∧
      stripParts (front ++ back) (front.filterMap Part.component) = some (idle ++ back) := by
  induction front with
  | nil => exact ⟨[], by simp, by simp [stripParts]⟩
  | cons q front ih =>
    obtain ⟨idle, hidle, hstrip⟩ := ih
    rcases hq : q.component with _ | c
    · rw [List.filterMap_cons_none hq, List.cons_append]
      rcases hrest : front.filterMap Part.component with _ | ⟨c, cs⟩
      · -- Nothing counts from here on.
        refine ⟨q :: front, ?_, by simp [stripParts]⟩
        intro r hr
        rcases List.mem_cons.mp hr with rfl | hr
        · simp [Part.isIdle, hq]
        · have hnone := List.filterMap_eq_nil_iff.mp hrest r hr
          simp [Part.isIdle, hnone]
      · rw [hrest] at hstrip
        exact ⟨idle, hidle, by simpa [stripParts, hq] using hstrip⟩
    · rw [List.filterMap_cons_some hq]
      exact ⟨idle, hidle, by simpa [stripParts, hq] using hstrip⟩

/-- What was joined to a path is what is left below it. -/
theorem below?_join (p : Path) {names : List String} (hne : names ≠ [])
    (h : ∀ n ∈ names, FileTree.isName n = true) : (p.join ⟨names⟩).below? p = some ⟨names⟩ := by
  obtain ⟨front, hparts, hfront⟩ := p.parts_join hne h
  obtain ⟨idle, hidle, hstrip⟩ := stripParts_append front (names.map Part.named)
  rw [below?, hparts, hfront, hstrip, Option.map_some]
  rw [List.dropWhile_append_of_pos hidle, dropWhile_named, trimEnd_named, ofParts_named hne]

theorem not_same_join (p : Path) {names : List String} (hne : names ≠ [])
    (h : ∀ n ∈ names, FileTree.isName n = true) : (p.join ⟨names⟩).same p = false := by
  rw [same, components_join p hne h]
  simp [hne]

/-- The last name of a path that ends in one. -/
theorem fileName?_of_isName {p : Path} {init : List String} {name : String}
    (hp : p.pieces = init ++ [name]) (h : FileTree.isName name = true) :
    p.fileName? = some name := by
  have hcomponents : p.components.getLast? = some (.name name) := by
    obtain ⟨ps⟩ := p
    simp only at hp
    subst hp
    rcases init with _ | ⟨a, rest⟩
    · rw [List.nil_append, components, parts_names (by simpa using h), filterMap_named]
      rfl
    · have hlast : [name].map Part.inner = [name].map Part.named := map_inner (by simpa using h)
      rw [List.cons_append, components, parts_cons (Or.inr (by simp)), List.map_append, hlast,
        ← List.cons_append, List.filterMap_append, filterMap_named, List.map_singleton,
        List.getLast?_concat]
  rw [fileName?, hcomponents]

/-- Whatever names are joined to a path, the same pieces stand before them. -/
theorem exists_front (p : Path) : ∃ front, ∀ names : List String,
    (∀ n ∈ names, FileTree.isName n = true) → p.join ⟨names⟩ = ⟨front ++ names⟩ := by
  by_cases hempty : p.pieces = [""]
  · refine ⟨[], fun names h => ?_⟩
    rw [join, if_pos (by simp [hempty]), List.nil_append]
  · by_cases hlast : p.pieces.getLast? = some ""
    · refine ⟨p.pieces.dropLast, fun names h => ?_⟩
      rw [join, if_neg (by simp [hempty, isAbsolute_names h]), if_pos hlast]
    · refine ⟨p.pieces, fun names h => ?_⟩
      rw [join, if_neg (by simp [hempty, isAbsolute_names h]), if_neg hlast]

/-- Joining names one by one is joining them together. -/
theorem foldl_join (p : Path) {names : List String} (hne : names ≠ [])
    (h : ∀ n ∈ names, FileTree.isName n = true) :
    names.foldl (fun q n => q.join ⟨[n]⟩) p = p.join ⟨names⟩ := by
  induction names using List.reverseRecOn with
  | nil => exact absurd rfl hne
  | append_singleton init n ih =>
    rw [List.foldl_append, List.foldl_cons, List.foldl_nil]
    rcases List.eq_nil_or_concat init with rfl | ⟨before, m, hinit⟩
    · rfl
    · rw [List.concat_eq_append] at hinit
      subst hinit
      obtain ⟨front, hfront⟩ := p.exists_front
      have hm : m ≠ "" := (FileTree.isName_iff.mp (h m (by simp))).1
      have hn : (Path.mk [n]).isAbsolute = false := isAbsolute_names (by simpa using h n (by simp))
      have hbefore : ∀ k ∈ before ++ [m], FileTree.isName k = true :=
        fun k hk => h k (List.mem_append_left _ hk)
      -- The path so far ends in a name, so the next one stands behind it.
      have hlast : (front ++ (before ++ [m])).getLast? = some m := by
        rw [← List.append_assoc, List.getLast?_concat]
      have hempty : front ++ (before ++ [m]) ≠ [""] := by
        intro heq
        rw [heq] at hlast
        exact hm (by simpa using hlast.symm)
      rw [ih (by simp) hbefore, hfront _ hbefore, hfront _ h, join,
        if_neg (by simp [hempty, hn]),
        if_neg (by rw [hlast]; simpa using hm), List.append_assoc]

end Path

namespace FileTree

/-! ## The files below a place -/

theorem nodup_eraseDups (xs : List String) : xs.eraseDups.Nodup := by
  rcases xs with _ | ⟨x, xs⟩
  · simp
  · rw [List.eraseDups_cons, List.nodup_cons]
    refine ⟨?_, nodup_eraseDups _⟩
    rw [List.mem_eraseDups, List.mem_filter]
    simp
termination_by xs.length
decreasing_by exact Nat.lt_succ_of_le (List.length_filter_le _ _)

/-- The files that one name below a place leads to. -/
def filesUnder (t : FileTree) (admits : Location → Bool → Bool) (n : Nat) (l : Location)
    (name : String) : List Location :=
  match t.find? (l ++ [name]) with
  | some (.file _) => if admits (l ++ [name]) false then [l ++ [name]] else []
  | some .directory => if admits (l ++ [name]) true then t.filesBelow admits n (l ++ [name]) else []
  | none => []

theorem filesBelow_succ (t : FileTree) (admits : Location → Bool → Bool) (n : Nat) (l : Location) :
    t.filesBelow admits (n + 1) l = (t.names l).flatMap (t.filesUnder admits n l) := rfl

theorem filesUnder_cases (t : FileTree) (admits : Location → Bool → Bool) (n : Nat) (l : Location)
    (name : String) :
    t.filesUnder admits n l name = [] ∨
      (∃ c, t.find? (l ++ [name]) = some (.file c) ∧ t.filesUnder admits n l name = [l ++ [name]]) ∨
      t.filesUnder admits n l name = t.filesBelow admits n (l ++ [name]) := by
  unfold filesUnder
  split
  · rename_i c hc
    split
    · exact Or.inr (Or.inl ⟨c, hc, rfl⟩)
    · exact Or.inl rfl
  · split
    · exact Or.inr (Or.inr rfl)
    · exact Or.inl rfl
  · exact Or.inl rfl

/-- What is found below a place is a file further down. -/
theorem mem_filesBelow {t : FileTree} {admits : Location → Bool → Bool} {n : Nat} {l k : Location}
    (h : k ∈ t.filesBelow admits n l) :
    ∃ names c, names ≠ [] ∧ k = l ++ names ∧ t.find? k = some (.file c) := by
  induction n generalizing l with
  | zero => simp [filesBelow] at h
  | succ n ih =>
    rw [filesBelow_succ, List.mem_flatMap] at h
    obtain ⟨name, _, hk⟩ := h
    rcases t.filesUnder_cases admits n l name with hnone | ⟨c, hc, hone⟩ | hmore
    · simp [hnone] at hk
    · rw [hone, List.mem_singleton] at hk
      exact ⟨[name], c, by simp, hk, hk ▸ hc⟩
    · obtain ⟨names, c, _, rfl, hc⟩ := ih (hmore ▸ hk)
      exact ⟨name :: names, c, by simp, by simp, hc⟩

theorem prefix_of_mem_filesUnder {t : FileTree} {admits : Location → Bool → Bool} {n : Nat}
    {l k : Location} {name : String} (h : k ∈ t.filesUnder admits n l name) : l ++ [name] <+: k := by
  rcases t.filesUnder_cases admits n l name with hnone | ⟨c, _, hone⟩ | hmore
  · simp [hnone] at h
  · rw [hone, List.mem_singleton] at h
    exact h ▸ List.prefix_refl _
  · obtain ⟨names, _, _, rfl, _⟩ := mem_filesBelow (hmore ▸ h)
    exact List.prefix_append _ _

/-- No file is found twice: what is found under two names differs in these names. -/
theorem nodup_filesBelow (t : FileTree) (admits : Location → Bool → Bool) (n : Nat)
    (l : Location) : (t.filesBelow admits n l).Nodup := by
  induction n generalizing l with
  | zero => simp [filesBelow]
  | succ n ih =>
    rw [filesBelow_succ, List.nodup_flatMap]
    refine ⟨fun name _ => ?_, (nodup_eraseDups _).imp ?_⟩
    · rcases t.filesUnder_cases admits n l name with hnone | ⟨c, _, hone⟩ | hmore
      · simp [hnone]
      · simp [hone]
      · rw [hmore]
        exact ih _
    · intro a b hab
      apply List.disjoint_left.mpr
      intro k ha hb
      have hprefix := List.prefix_of_prefix_length_le (prefix_of_mem_filesUnder ha)
        (prefix_of_mem_filesUnder hb) (by simp)
      exact hab (by simpa using hprefix.eq_of_length (by simp))

/-! ## The files that a root leads to -/

/-- The names that lead from a directory to the files that are found below it, in order. -/
def namesBelow (t : FileTree) (d : Discovery) (base : Location) : List (List String) :=
  (((t.filesBelow (d.admits t) t.depth base).filter d.wants).map (fun l => l.drop base.length)).mergeSort
    (fun a b => decide (List.le a b))

theorem mem_namesBelow {t : FileTree} {d : Discovery} {base : Location} {names : List String}
    (h : names ∈ t.namesBelow d base) :
    names ≠ [] ∧ ∃ c, t.find? (base ++ names) = some (.file c) := by
  rw [namesBelow, List.mem_mergeSort, List.mem_map] at h
  obtain ⟨k, hk, rfl⟩ := h
  obtain ⟨below, c, hne, rfl, hc⟩ := mem_filesBelow (List.mem_filter.mp hk).1
  rw [List.drop_left]
  exact ⟨hne, c, hc⟩

theorem nodup_namesBelow (t : FileTree) (d : Discovery) (base : Location) :
    (t.namesBelow d base).Nodup := by
  rw [namesBelow, (List.mergeSort_perm _ _).nodup_iff]
  refine List.Nodup.map_on ?_ ((t.nodup_filesBelow _ _ _).filter _)
  intro k hk k' hk' heq
  obtain ⟨below, _, _, rfl, _⟩ := mem_filesBelow (List.mem_filter.mp hk).1
  obtain ⟨below', _, _, rfl, _⟩ := mem_filesBelow (List.mem_filter.mp hk').1
  rw [List.drop_left, List.drop_left] at heq
  rw [heq]

theorem discover_file {t : FileTree} {root : Path} {l : Location} {c : ByteArray}
    (h : t.locate root = .ok (l, .file c)) (d : Discovery) : t.discover d root = [root] := by
  rw [discover, h]

/-- A directory leads to its files by their names. -/
theorem WellFormed.discover_directory {t : FileTree} (hw : t.WellFormed) {root : Path}
    {base : Location} (h : t.locate root = .ok (base, .directory)) (d : Discovery) :
    t.discover d root = (t.namesBelow d base).map (fun names => root.join ⟨names⟩) := by
  have hdiscover : t.discover d root =
      (t.namesBelow d base).map (fun names => names.foldl (fun p n => p.join ⟨[n]⟩) root) := by
    rw [discover, h]
    rfl
  rw [hdiscover]
  apply List.map_congr_left
  intro names hnames
  obtain ⟨hne, c, hc⟩ := mem_namesBelow hnames
  exact root.foldl_join hne (fun n hn => hw.isName_of_find? hc (List.mem_append_right _ hn))

/-- A file that was found is its own root, or stands some names below it. -/
theorem WellFormed.discover_cases {t : FileTree} (hw : t.WellFormed) {d : Discovery} {root p : Path}
    (h : p ∈ t.discover d root) :
    (p = root ∧ ∃ l c, t.locate root = .ok (l, .file c)) ∨
      ∃ base names c, t.locate root = .ok (base, .directory) ∧ names ∈ t.namesBelow d base ∧
        t.find? (base ++ names) = some (.file c) ∧ names ≠ [] ∧
        (∀ n ∈ names, isName n = true) ∧ p = root.join ⟨names⟩ := by
  rcases hroot : t.locate root with e | ⟨l, c | _⟩
  · simp [discover, hroot] at h
  · rw [discover_file hroot, List.mem_singleton] at h
    exact Or.inl ⟨h, l, c, rfl⟩
  · rw [hw.discover_directory hroot, List.mem_map] at h
    obtain ⟨names, hnames, rfl⟩ := h
    obtain ⟨hne, c, hc⟩ := mem_namesBelow hnames
    exact Or.inr ⟨l, names, c, rfl, hnames, hc, hne,
      fun n hn => hw.isName_of_find? hc (List.mem_append_right _ hn), rfl⟩

theorem WellFormed.locate_names {t : FileTree} (hw : t.WellFormed) {root : Path} {base : Location}
    {names : List String} {e : Entry} (hroot : t.locate root = .ok (base, .directory))
    (hne : names ≠ []) (he : t.find? (base ++ names) = some e) :
    t.locate (root.join ⟨names⟩) = .ok (base ++ names, e) :=
  locate_join hroot hne (fun _ hn => hw.isName_of_find? he (List.mem_append_right _ hn))
    (hw.follow_names he) he

/-- A path that was found leads to a file. -/
theorem WellFormed.locate_of_discover {t : FileTree} (hw : t.WellFormed) {d : Discovery}
    {root p : Path} (h : p ∈ t.discover d root) : ∃ l c, t.locate p = .ok (l, .file c) := by
  rcases hw.discover_cases h with ⟨rfl, l, c, hl⟩ | ⟨base, names, c, hroot, _, hc, hne, _, rfl⟩
  · exact ⟨l, c, hl⟩
  · exact ⟨base ++ names, c, hw.locate_names hroot hne hc⟩

/-- One root leads to a file by one path only. -/
theorem WellFormed.nodup_places {t : FileTree} (hw : t.WellFormed) (d : Discovery) (root : Path) :
    ((t.discover d root).map t.place?).Nodup := by
  rcases hroot : t.locate root with e | ⟨l, c | _⟩
  · simp [discover, hroot]
  · simp [discover_file hroot]
  · rw [hw.discover_directory hroot, List.map_map]
    refine List.Nodup.map_on ?_ (t.nodup_namesBelow d l)
    intro names hnames names' hnames' heq
    obtain ⟨hne, c, hc⟩ := mem_namesBelow hnames
    obtain ⟨hne', c', hc'⟩ := mem_namesBelow hnames'
    simpa [place?_of_locate (hw.locate_names hroot hne hc),
      place?_of_locate (hw.locate_names hroot hne' hc')] using heq

/-! ## The files that roots lead to -/

/-- A root is taken for what the search below it finds, or for nothing. -/
theorem filesOf_cases (t : FileTree) (d : Discovery) (root : Path) :
    t.filesOf d root = [] ∨ t.filesOf d root = t.discover d root := by
  unfold filesOf
  split
  · exact Or.inl rfl
  · exact Or.inr rfl

theorem mem_discover_of_mem_filesOf {t : FileTree} {d : Discovery} {root p : Path}
    (h : p ∈ t.filesOf d root) : p ∈ t.discover d root := by
  rcases t.filesOf_cases d root with hnone | hall
  · simp [hnone] at h
  · rwa [hall] at h

theorem mem_sourceFiles {t : FileTree} {d : Discovery} {roots : List Path} {f : SourceFile} :
    f ∈ t.sourceFiles d roots ↔ f.root ∈ roots ∧ f.path ∈ t.filesOf d f.root := by
  simp only [sourceFiles, List.mem_flatMap, List.mem_map]
  constructor
  · rintro ⟨root, hroot, p, hp, rfl⟩
    exact ⟨hroot, hp⟩
  · rintro ⟨hroot, hp⟩
    exact ⟨f.root, hroot, f.path, hp, rfl⟩

/-- Whether a root leads to the file at a place. -/
def leadsTo (t : FileTree) (d : Discovery) (l : Location) (root : Path) : Bool :=
  (t.filesOf d root).any (fun p => t.place? p = some l)

theorem leadsTo_iff {t : FileTree} {d : Discovery} {l : Location} {root : Path} :
    t.leadsTo d l root = true ↔ some l ∈ (t.filesOf d root).map t.place? := by
  simp [leadsTo]

theorem WellFormed.nodup_filesOf {t : FileTree} (hw : t.WellFormed) (d : Discovery) (root : Path) :
    ((t.filesOf d root).map t.place?).Nodup := by
  rcases t.filesOf_cases d root with hnone | hall
  · simp [hnone]
  · rw [hall]
    exact hw.nodup_places d root

/-- A file is listed once for each root that leads to it. -/
theorem WellFormed.countP_sourceFiles {t : FileTree} (hw : t.WellFormed) (d : Discovery)
    (roots : List Path) (l : Location) :
    (t.sourceFiles d roots).countP (fun f => t.place? f.path = some l) =
      roots.countP (t.leadsTo d l) := by
  induction roots with
  | nil => rfl
  | cons root roots ih =>
    have hone : ((t.filesOf d root).map (fun p => SourceFile.mk p root)).countP
        (fun f => t.place? f.path = some l) = if t.leadsTo d l root then 1 else 0 := by
      have hcount : ((t.filesOf d root).map (fun p => SourceFile.mk p root)).countP
          (fun f => t.place? f.path = some l) =
            ((t.filesOf d root).map t.place?).count (some l) := by
        rw [List.countP_map, List.count_eq_countP, List.countP_map]
        apply List.countP_congr
        simp
      rw [hcount]
      split
      · rename_i hleads
        exact List.count_eq_one_of_mem (hw.nodup_filesOf d root) (leadsTo_iff.mp hleads)
      · rename_i hleads
        exact List.count_eq_zero_of_not_mem (fun hmem => hleads (leadsTo_iff.mpr hmem))
    rw [sourceFiles, List.flatMap_cons, List.countP_append, hone, List.countP_cons, ← ih, sourceFiles,
      Nat.add_comm]

/-! ## Where results go -/

theorem Grown.relativeDestination_of_file {t t' : FileTree} (h : Grown t t') {root : Path}
    {l : Location} {c : ByteArray} {init : List String} {name : String}
    (hroot : t.locate root = .ok (l, .file c)) (hpieces : root.pieces = init ++ [name])
    (hname : isName name = true) : t'.relativeDestination root root = ⟨[name]⟩ := by
  obtain ⟨c', hroot'⟩ := h.locate_file hroot
  rw [relativeDestination, if_pos (by simp [isFile, hroot']), Path.fileName?_of_isName hpieces hname]

theorem Grown.relativeDestination_of_directory {t t' : FileTree} (h : Grown t t') {root : Path}
    {base : Location} {names : List String} (hroot : t.locate root = .ok (base, .directory))
    (hne : names ≠ []) (hnames : ∀ n ∈ names, isName n = true) :
    t'.relativeDestination (root.join ⟨names⟩) root = ⟨names⟩ := by
  rw [relativeDestination, if_neg, Path.below?_join root hne hnames, Option.getD_some]
  simp [isFile, h.locate_directory hroot, Path.not_same_join root hne hnames]

/-- Where the result of a file goes below an output directory. -/
def destination (t : FileTree) (dir : Path) (f : SourceFile) : Path :=
  dir.join (t.relativeDestination f.path f.root)

/-- Whether a file goes by these names below an output directory, whatever is added to the tree. -/
structure GoesBy (t : FileTree) (f : SourceFile) (names : List String) : Prop where
  ne_nil : names ≠ []
  named : ∀ n ∈ names, isName n = true
  relative : ∀ t', Grown t t' → t'.relativeDestination f.path f.root = ⟨names⟩

theorem GoesBy.destination_eq {t : FileTree} {f : SourceFile} {names : List String}
    (h : t.GoesBy f names) (dir : Path) : t.destination dir f = dir.join ⟨names⟩ := by
  rw [destination, h.relative t (Grown.refl t)]

theorem GoesBy.unique {t : FileTree} {f : SourceFile} {names names' : List String}
    (h : t.GoesBy f names) (h' : t.GoesBy f names') : names = names' :=
  Path.mk.inj ((h.relative t (Grown.refl t)).symm.trans (h'.relative t (Grown.refl t)))

/-- What these names are to the file and its root: from a root that is a directory they lead to the
file, and a root that is a file has its own name only. -/
structure LaidOut (t : FileTree) (f : SourceFile) (names : List String) : Prop
    extends GoesBy t f names where
  below : t.isDirectory f.root = true → f.path = f.root.join ⟨names⟩
  alone : t.isFile f.root = true →
    f.path = f.root ∧ ∃ name, f.path.fileName? = some name ∧ names = [name]

theorem WellFormed.exists_laidOut {t : FileTree} (hw : t.WellFormed) {d : Discovery}
    {f : SourceFile} (h : f.path ∈ t.discover d f.root) : ∃ names, t.LaidOut f names := by
  rcases hw.discover_cases h with
    ⟨hpath, l, c, hroot⟩ | ⟨base, names, c, hroot, _, _, hne, hnames, hpath⟩
  · obtain ⟨init, name, hpieces, hname⟩ := hw.exists_name_of_locate hroot
    refine ⟨[name], ⟨by simp, by simpa using hname, fun t' ht' => ?_⟩, by simp [isDirectory, hroot],
      fun _ => ⟨hpath, name, ?_, rfl⟩⟩
    · rw [hpath]
      exact ht'.relativeDestination_of_file hroot hpieces hname
    · rw [hpath]
      exact Path.fileName?_of_isName hpieces hname
  · refine ⟨names, ⟨hne, hnames, fun t' ht' => ?_⟩, fun _ => hpath, by simp [isFile, hroot]⟩
    rw [hpath]
    exact ht'.relativeDestination_of_directory hroot hne hnames

/-- The result of a found file goes by names. -/
theorem WellFormed.exists_goesBy {t : FileTree} (hw : t.WellFormed) {d : Discovery}
    {roots : List Path} {f : SourceFile} (h : f ∈ t.sourceFiles d roots) :
    ∃ names, t.GoesBy f names := by
  obtain ⟨names, hnames⟩ := hw.exists_laidOut (mem_discover_of_mem_filesOf (mem_sourceFiles.mp h).2)
  exact ⟨names, hnames.toGoesBy⟩

end FileTree

end LogSweep
