-- The files that a search wants. A name that is passed over is not entered, so a file is found when
-- no name on its way from the root is, and the names of the root itself are never asked. What is
-- found is listed once, in the order of its path.
import Mathlib.Data.List.TakeWhile
import LogSweep.Proofs.FoundFiles

namespace LogSweep

/-! ## Names and patterns -/

/-- What a pattern covers: a star before a dotted ending stands for every name with that ending, any
other pattern with a star in front for nothing, and every other pattern for itself. -/
def Covers (pattern name : String) : Prop :=
  (∃ ending, pattern.toList = '*' :: '.' :: ending ∧ '.' :: ending <:+ name.toList) ∨
    (pattern.toList.head? ≠ some '*' ∧ name = pattern)

theorem fitsPattern_iff {pattern name : String} :
    fitsPattern pattern name = true ↔ Covers pattern name := by
  unfold fitsPattern Covers
  split
  · rename_i ending heq
    rw [heq]
    rcases ending with _ | ⟨c, ending⟩
    · simp
    · simp only [List.head?_cons, Option.some.injEq, Bool.and_eq_true, decide_eq_true_eq,
        List.isSuffixOf_iff_suffix, List.cons.injEq, true_and, ne_eq, not_true_eq_false, false_and,
        or_false]
      constructor
      · rintro ⟨rfl, hending⟩
        exact ⟨ending, ⟨rfl, rfl⟩, hending⟩
      · rintro ⟨_, ⟨rfl, rfl⟩, hending⟩
        exact ⟨rfl, hending⟩
  · rename_i hstar
    have hhead : pattern.toList.head? ≠ some '*' := by
      intro hhead
      obtain ⟨ending, heq⟩ := List.head?_eq_some_iff.mp hhead
      exact hstar ending heq
    have hnone : ¬ ∃ ending,
        pattern.toList = '*' :: '.' :: ending ∧ '.' :: ending <:+ name.toList := by
      rintro ⟨ending, heq, _⟩
      exact hstar _ heq
    simp [hhead, hnone]

namespace Discovery

/-- Whether a search passes over a name: some pattern covers it that is excluded, by the user or
without being asked, and not included. -/
def Excludes (d : Discovery) (name : String) : Prop :=
  ∃ pattern, (pattern ∈ d.excluded ∨ pattern ∈ defaultExcluded) ∧ pattern ∉ d.included ∧
    Covers pattern name

theorem isExcluded_patterns_iff {d : Discovery} {name : String} :
    isExcluded d.patterns name = true ↔ d.Excludes name := by
  simp only [isExcluded, patterns, Excludes, List.any_eq_true, List.mem_filter, List.mem_append,
    Bool.not_eq_true', List.contains_eq_mem, decide_eq_false_iff_not, fitsPattern_iff, and_assoc]

/-- Whether the names that lead to a file end in a name that is wanted: a stem, a dot, and an
extension that is looked at. -/
def Wants (d : Discovery) (names : List String) : Prop :=
  ∃ front name stem extension, names = front ++ [name] ∧
    name.toList = stem ++ '.' :: extension ∧ stem ≠ [] ∧ '.' ∉ extension ∧
    String.ofList extension ∈ d.extensions

end Discovery

theorem extensionOf?_of_cut {name : String} {stem extension : List Char}
    (hname : name.toList = stem ++ '.' :: extension) (hdot : '.' ∉ extension) :
    Path.extensionOf? name = if stem = [] then none else some (String.ofList extension) := by
  have hback : name.toList.reverse = extension.reverse ++ '.' :: stem.reverse := by simp [hname]
  have hall : ∀ c ∈ extension.reverse, decide (c ≠ '.') = true := by
    intro c hc
    rw [decide_eq_true_eq]
    rintro rfl
    exact hdot (List.mem_reverse.mp hc)
  have hfront : name.toList.reverse.takeWhile (· ≠ '.') = extension.reverse := by
    rw [hback, List.takeWhile_append_of_pos hall]
    simp
  simp only [Path.extensionOf?, hfront]
  rw [hback, List.drop_left]
  by_cases hstem : stem = []
  · simp [hstem]
  · obtain ⟨c, rest, hrest⟩ := List.exists_cons_of_ne_nil (List.reverse_ne_nil_iff.mpr hstem)
    simp [hrest, hstem]

/-- The extension of a name follows its last dot, and something stands before that dot. -/
theorem extensionOf?_eq_some_iff {name extension : String} :
    Path.extensionOf? name = some extension ↔
      ∃ stem, name.toList = stem ++ '.' :: extension.toList ∧ stem ≠ [] ∧
        '.' ∉ extension.toList := by
  constructor
  · intro h
    by_cases hmem : '.' ∈ name.toList.reverse
    · obtain ⟨front, back, hcut, hdot⟩ := List.eq_append_cons_of_mem hmem
      have hname : name.toList = back.reverse ++ '.' :: front.reverse := by
        simpa using congrArg List.reverse hcut
      rw [extensionOf?_of_cut hname (by simpa using hdot)] at h
      split at h
      · simp at h
      · rename_i hstem
        obtain rfl := Option.some.inj h
        exact ⟨back.reverse, by simpa using hname, hstem, by simpa using hdot⟩
    · have hall : name.toList.reverse.takeWhile (· ≠ '.') = name.toList.reverse := by
        refine List.takeWhile_eq_self_iff.mpr ?_
        intro c hc
        rw [decide_eq_true_eq]
        rintro rfl
        exact hmem hc
      simp only [Path.extensionOf?, hall, List.drop_length] at h
      simp at h
  · rintro ⟨stem, hname, hstem, hdot⟩
    rw [extensionOf?_of_cut hname hdot, if_neg hstem, String.ofList_toList]

namespace Discovery

theorem wants_iff {d : Discovery} {base : Location} {names : List String} (hne : names ≠ []) :
    d.wants (base ++ names) = true ↔ d.Wants names := by
  obtain ⟨front, name, rfl⟩ : ∃ front name, names = front ++ [name] :=
    ⟨names.dropLast, names.getLast hne, (List.dropLast_append_getLast hne).symm⟩
  have hlast : (base ++ (front ++ [name])).getLast? = some name := by
    rw [← List.append_assoc, List.getLast?_concat]
  rw [wants, hlast, Option.bind_some]
  constructor
  · intro h
    split at h
    · rename_i extension hextension
      obtain ⟨stem, hname, hstem, hdot⟩ := extensionOf?_eq_some_iff.mp hextension
      exact ⟨front, name, stem, _, rfl, hname, hstem, hdot, by simpa using h⟩
    · simp at h
  · rintro ⟨front', name', stem, extension, heq, hname, hstem, hdot, hmem⟩
    obtain ⟨_, hlast'⟩ := List.append_inj' heq rfl
    obtain rfl : name = name' := by simpa using hlast'
    rw [extensionOf?_of_cut hname hdot, if_neg hstem]
    simpa using hmem

end Discovery

/-! ## Searching below a place -/

namespace FileTree

theorem mem_names {t : FileTree} {l : Location} {n : String} {e : Entry}
    (h : t.find? (l ++ [n]) = some e) : n ∈ t.names l := by
  have hmem := mem_entries_of_find? h (by simp)
  rw [names, List.mem_eraseDups, List.mem_filterMap]
  exact ⟨_, hmem, by simp⟩

theorem le_foldl_max (xs : List Nat) (a : Nat) :
    a ≤ xs.foldl max a ∧ ∀ x ∈ xs, x ≤ xs.foldl max a := by
  induction xs generalizing a with
  | nil => simp
  | cons y xs ih =>
    obtain ⟨hfirst, hrest⟩ := ih (max a y)
    rw [List.foldl_cons]
    refine ⟨Nat.le_trans (Nat.le_max_left a y) hfirst, fun x hx => ?_⟩
    rcases List.mem_cons.mp hx with rfl | hx
    · exact Nat.le_trans (Nat.le_max_right a x) hfirst
    · exact hrest x hx

/-- No entry lies deeper than the tree. -/
theorem length_le_depth {t : FileTree} {l : Location} {e : Entry} (h : t.find? l = some e) :
    l.length ≤ t.depth := by
  by_cases hnil : l = []
  · simp [hnil]
  · exact (le_foldl_max _ 0).2 _
      (List.mem_map.mpr ⟨_, mem_entries_of_find? h hnil, rfl⟩)

/-- Whether a search goes all the way along some names below a place. All names but the last are those
of directories. -/
def GoesAlong (admits : Location → Bool → Bool) (l : Location) (names : List String) : Prop :=
  ∀ front name back, names = front ++ name :: back →
    admits (l ++ front ++ [name]) (!back.isEmpty) = true

theorem goesAlong_nil (admits : Location → Bool → Bool) (l : Location) : GoesAlong admits l [] := by
  intro front name back heq
  simp at heq

theorem goesAlong_cons {admits : Location → Bool → Bool} {l : Location} {n : String}
    {names : List String} :
    GoesAlong admits l (n :: names) ↔
      admits (l ++ [n]) (!names.isEmpty) = true ∧ GoesAlong admits (l ++ [n]) names := by
  constructor
  · intro h
    refine ⟨by simpa using h [] n names rfl, fun front m back heq => ?_⟩
    simpa using h (n :: front) m back (by rw [heq, List.cons_append])
  · rintro ⟨hfirst, hrest⟩ front m back heq
    rcases front with _ | ⟨a, front⟩
    · obtain ⟨rfl, rfl⟩ := List.cons.inj heq
      simpa using hfirst
    · obtain ⟨rfl, hnames⟩ := List.cons.inj heq
      simpa using hrest front m back hnames

/-- A name leads to its own file or to what is found below its directory. -/
theorem mem_filesUnder_iff {t : FileTree} {admits : Location → Bool → Bool} {n : Nat} {l k : Location}
    {name : String} :
    k ∈ t.filesUnder admits n l name ↔
      (∃ c, t.find? (l ++ [name]) = some (.file c) ∧ admits (l ++ [name]) false = true ∧
        k = l ++ [name]) ∨
      (t.find? (l ++ [name]) = some .directory ∧ admits (l ++ [name]) true = true ∧
        k ∈ t.filesBelow admits n (l ++ [name])) := by
  unfold filesUnder
  rcases t.find? (l ++ [name]) with _ | c | _
  · simp
  · by_cases hadmits : admits (l ++ [name]) false = true <;> simp [hadmits]
  · by_cases hadmits : admits (l ++ [name]) true = true <;> simp [hadmits]

/-- What a search that may go `n` names down finds: every file at most so far below to which it goes
along all names. -/
theorem WellFormed.mem_filesBelow_iff {t : FileTree} (hw : t.WellFormed)
    {admits : Location → Bool → Bool} {n : Nat} {l k : Location} :
    k ∈ t.filesBelow admits n l ↔
      ∃ names c, names ≠ [] ∧ names.length ≤ n ∧ k = l ++ names ∧ t.find? k = some (.file c) ∧
        GoesAlong admits l names := by
  induction n generalizing l with
  | zero =>
    simp only [filesBelow, List.not_mem_nil, false_iff]
    rintro ⟨names, c, hne, hlength, _⟩
    exact hne (List.length_eq_zero_iff.mp (Nat.le_zero.mp hlength))
  | succ n ih =>
    rw [filesBelow_succ, List.mem_flatMap]
    constructor
    · rintro ⟨name, _, hk⟩
      rcases mem_filesUnder_iff.mp hk with ⟨c, hfile, hadmits, rfl⟩ | ⟨_, hadmits, hbelow⟩
      · exact ⟨[name], c, by simp, by simp, rfl, hfile,
          goesAlong_cons.mpr ⟨hadmits, goesAlong_nil _ _⟩⟩
      · obtain ⟨names, c, hne, hlength, rfl, hfile, halong⟩ := ih.mp hbelow
        refine ⟨name :: names, c, by simp, by simpa using hlength, by simp, hfile, ?_⟩
        have hmore : names.isEmpty = false := by simpa using hne
        exact goesAlong_cons.mpr ⟨by rwa [hmore], halong⟩
    · rintro ⟨names, c, hne, hlength, rfl, hfile, halong⟩
      obtain ⟨name, rest, rfl⟩ := List.exists_cons_of_ne_nil hne
      obtain ⟨hadmits, hrest⟩ := goesAlong_cons.mp halong
      by_cases hlast : rest = []
      · subst hlast
        exact ⟨name, mem_names hfile, mem_filesUnder_iff.mpr (Or.inl ⟨c, hfile, hadmits, rfl⟩)⟩
      · have hdir : t.find? (l ++ [name]) = some .directory :=
          hw.find?_above hlast (by simpa using hfile)
        have hbelow : l ++ name :: rest ∈ t.filesBelow admits n (l ++ [name]) :=
          ih.mpr ⟨rest, c, hlast, by simpa using hlength, by simp, hfile, hrest⟩
        have hmore : rest.isEmpty = false := by simpa using hlast
        rw [hmore] at hadmits
        exact ⟨name, mem_names hdir, mem_filesUnder_iff.mpr (Or.inr ⟨hdir, hadmits, hbelow⟩)⟩

/-! ## Trees without ignore files -/

/-- Whether no file stands where ignore rules are looked for. -/
def HasNoIgnoreFiles (t : FileTree) : Prop :=
  ∀ l c, t.find? l = some (.file c) →
    ¬ [".ignore"] <:+ l ∧ ¬ [".gitignore"] <:+ l ∧ ¬ [".git", "info", "exclude"] <:+ l

theorem hasNoIgnoreFiles_of_entries {t : FileTree}
    (h : ∀ k ∈ t.entries, ¬ [".ignore"] <:+ k.1 ∧ ¬ [".gitignore"] <:+ k.1 ∧
      ¬ [".git", "info", "exclude"] <:+ k.1) : t.HasNoIgnoreFiles := by
  intro l c hl
  by_cases hnil : l = []
  · simp [hnil] at hl
  · exact h _ (mem_entries_of_find? hl hnil)

theorem rulesAt_of_no_file {t : FileTree} {l : Location} (h : ∀ c, t.find? l ≠ some (.file c)) :
    t.rulesAt l = [] := by
  unfold rulesAt
  split
  · rename_i c hc
    exact absurd hc (h c)
  · rfl

theorem mem_of_mem_upTo {α : Type} {p : α → Bool} {x : α} {xs : List α} (h : x ∈ upTo p xs) :
    x ∈ xs := by
  induction xs with
  | nil => simp [upTo] at h
  | cons y ys ih =>
    rw [upTo] at h
    split at h
    · rw [List.mem_singleton] at h
      exact h ▸ List.mem_cons_self
    · rcases List.mem_cons.mp h with rfl | h
      · exact List.mem_cons_self
      · exact List.mem_cons_of_mem y (ih h)

theorem HasNoIgnoreFiles.ignoreFiles {t : FileTree} (h : t.HasNoIgnoreFiles) (d : Location) :
    (t.ignoreFiles d).plain = [] ∧ (t.ignoreFiles d).tracked = [] ∧
      (t.ignoreFiles d).excluded = [] :=
  ⟨rulesAt_of_no_file (fun c hc => (h _ c hc).1 (List.suffix_append d _)),
    rulesAt_of_no_file (fun c hc => (h _ c hc).2.1 (List.suffix_append d _)),
    rulesAt_of_no_file (fun c hc => (h _ c hc).2.2 (List.suffix_append d _))⟩

/-- Without rules nothing is ignored. -/
theorem HasNoIgnoreFiles.isIgnored {t : FileTree} (h : t.HasNoIgnoreFiles) (l : Location)
    (isDirectory : Bool) : t.isIgnored l isDirectory = false := by
  -- Whatever directories are asked, each has nothing to say.
  have hask : ∀ (pick : IgnoreFiles → List IgnoreRule) (fs : List (List String × IgnoreFiles)),
      (∀ f ∈ fs, pick f.2 = []) →
        fs.findSome? (fun f => IgnoreRule.decide? (pick f.2) f.1 isDirectory) = none := by
    intro pick fs hfs
    rw [List.findSome?_eq_none_iff]
    intro f hf
    rw [hfs f hf]
    rfl
  have hquiet : ∀ f ∈ (above l).map (fun d => (l.drop d.length, t.ignoreFiles d)),
      f.2.plain = [] ∧ f.2.tracked = [] ∧ f.2.excluded = [] := by
    intro f hf
    obtain ⟨d, _, rfl⟩ := List.mem_map.mp hf
    exact h.ignoreFiles d
  simp only [FileTree.isIgnored, decide_eq_false_iff_not]
  rw [hask _ _ (fun f hf => (hquiet f hf).1), Option.none_or]
  split
  · rw [hask _ _ (fun f hf => (hquiet f (mem_of_mem_upTo hf)).2.1),
      hask _ _ (fun f hf => (hquiet f (mem_of_mem_upTo hf)).2.2)]
    simp
  · simp

end FileTree

/-! ## The order of paths -/

/-- The order of components: the root, the dot that opens a path, ways up, and names by their text. -/
inductive Component.Before : Component → Component → Prop
  | root_here : Before .root .here
  | root_up : Before .root .up
  | root_name (n : String) : Before .root (.name n)
  | here_up : Before .here .up
  | here_name (n : String) : Before .here (.name n)
  | up_name (n : String) : Before .up (.name n)
  | name {m n : String} : m < n → Before (.name m) (.name n)

/-- The order of paths, component by component. -/
def Path.Before (p q : Path) : Prop := List.Lex Component.Before p.components q.components

theorem lex_append {α : Type} {r : α → α → Prop} (front : List α) {xs ys : List α}
    (h : List.Lex r xs ys) : List.Lex r (front ++ xs) (front ++ ys) := by
  induction front with
  | nil => exact h
  | cons x front ih => exact List.Lex.cons ih

theorem lex_names {ms ns : List String} (h : ms < ns) :
    List.Lex Component.Before (ms.map .name) (ns.map .name) := by
  induction h with
  | nil => exact List.Lex.nil
  | rel hlt => exact List.Lex.rel (.name hlt)
  | cons _ ih => exact List.Lex.cons ih

/-- Of two paths below one root the names decide. -/
theorem Path.before_join (root : Path) {ms ns : List String} (hm : ms ≠ [])
    (hms : ∀ n ∈ ms, FileTree.isName n = true) (hn : ns ≠ [])
    (hns : ∀ n ∈ ns, FileTree.isName n = true) (h : ms < ns) :
    (root.join ⟨ms⟩).Before (root.join ⟨ns⟩) := by
  rw [Path.Before, components_join root hm hms, components_join root hn hns]
  exact lex_append _ (lex_names h)

namespace FileTree

theorem namesBelow_ascending (t : FileTree) (d : Discovery) (base : Location) :
    (t.namesBelow d base).Pairwise (· < ·) := by
  have hsorted : (t.namesBelow d base).Pairwise (fun a b => decide (List.le a b) = true) := by
    refine List.pairwise_mergeSort ?_ ?_ _
    · intro a b c hab hbc
      exact decide_eq_true (List.le_trans (of_decide_eq_true hab) (of_decide_eq_true hbc))
    · intro a b
      rw [Bool.or_eq_true, decide_eq_true_eq, decide_eq_true_eq]
      exact List.le_total a b
  refine (hsorted.and (t.nodup_namesBelow d base)).imp ?_
  intro a b ⟨hle, hne⟩
  by_contra hlt
  exact hne (List.le_antisymm (of_decide_eq_true hle) hlt)

/-- Without ignore files, the names below a directory that are found lead to the files that are
wanted and are none of them excluded. -/
theorem WellFormed.mem_namesBelow_iff {t : FileTree} (hw : t.WellFormed) (hquiet : t.HasNoIgnoreFiles)
    {d : Discovery} {base : Location} {names : List String} :
    names ∈ t.namesBelow d base ↔
      names ≠ [] ∧ (∃ c, t.find? (base ++ names) = some (.file c)) ∧ d.Wants names ∧
        ∀ n ∈ names, ¬ d.Excludes n := by
  have hadmits : ∀ l n isDirectory, d.admits t (l ++ [n]) isDirectory = true ↔ ¬ d.Excludes n := by
    intro l n isDirectory
    rw [← Discovery.isExcluded_patterns_iff, Discovery.admits, hquiet.isIgnored,
      List.getLast?_concat]
    simp
  rw [namesBelow, List.mem_mergeSort, List.mem_map]
  constructor
  · rintro ⟨k, hk, rfl⟩
    obtain ⟨hk, hwants⟩ := List.mem_filter.mp hk
    obtain ⟨names, c, hne, _, rfl, hfile, hway⟩ := hw.mem_filesBelow_iff.mp hk
    rw [List.drop_left]
    refine ⟨hne, ⟨c, hfile⟩, (Discovery.wants_iff hne).mp hwants, fun n hn => ?_⟩
    obtain ⟨front, back, rfl⟩ := List.append_of_mem hn
    exact (hadmits _ n _).mp (hway front n back rfl)
  · rintro ⟨hne, ⟨c, hfile⟩, hwants, hnone⟩
    refine ⟨base ++ names, List.mem_filter.mpr ⟨?_, (Discovery.wants_iff hne).mpr hwants⟩,
      List.drop_left⟩
    have hdepth := length_le_depth hfile
    rw [List.length_append] at hdepth
    refine hw.mem_filesBelow_iff.mpr ⟨names, c, hne, by omega, rfl, hfile, ?_⟩
    rintro front n back rfl
    exact (hadmits _ n _).mpr (hnone n (by simp))

end FileTree

/-! ## The law -/

/-- In a tree without ignore files, a directory leads to the files below it whose names end as is
wanted and whose way down from it has no name that is excluded. They are listed in the order of
their paths, and no two of the paths lead to one file. -/
theorem a_search_lists_the_wanted_files_in_order (t : FileTree) (hw : t.WellFormed)
    (hquiet : t.HasNoIgnoreFiles) (d : Discovery) (root : Path) (base : Location)
    (hroot : t.locate root = .ok (base, .directory)) :
    (∀ p, p ∈ t.discover d root ↔
      ∃ names c, p = root.join ⟨names⟩ ∧ names ≠ [] ∧
        t.find? (base ++ names) = some (.file c) ∧ d.Wants names ∧ ∀ n ∈ names, ¬ d.Excludes n) ∧
    (∀ names c, names ≠ [] → t.find? (base ++ names) = some (.file c) →
      t.locate (root.join ⟨names⟩) = .ok (base ++ names, .file c)) ∧
    (t.discover d root).Pairwise Path.Before ∧
    ((t.discover d root).map t.place?).Nodup := by
  refine ⟨fun p => ?_, fun names c hne hfile => hw.locate_names hroot hne hfile, ?_,
    hw.nodup_places d root⟩
  · rw [hw.discover_directory hroot, List.mem_map]
    constructor
    · rintro ⟨names, hnames, rfl⟩
      obtain ⟨hne, ⟨c, hfile⟩, hrest⟩ := (hw.mem_namesBelow_iff hquiet).mp hnames
      exact ⟨names, c, rfl, hne, hfile, hrest⟩
    · rintro ⟨names, c, rfl, hne, hfile, hrest⟩
      exact ⟨names, (hw.mem_namesBelow_iff hquiet).mpr ⟨hne, ⟨c, hfile⟩, hrest⟩, rfl⟩
  · rw [hw.discover_directory hroot, List.pairwise_map]
    refine (t.namesBelow_ascending d base).imp_of_mem ?_
    intro ms ns hms hns hlt
    obtain ⟨hm, c, hc⟩ := FileTree.mem_namesBelow hms
    obtain ⟨hn, c', hc'⟩ := FileTree.mem_namesBelow hns
    exact root.before_join hm (fun n h => hw.isName_of_find? hc (List.mem_append_right _ h)) hn
      (fun n h => hw.isName_of_find? hc' (List.mem_append_right _ h)) hlt

/-- A root with a name that is passed over, and below it an included name, an excluded one and names
with other endings. -/
def coverage : FileTree :=
  ⟨["coverage"], [(["coverage"], .directory),
    (["coverage", "a.js"], .file "f()".toUTF8), (["coverage", "a.min.js"], .file "f()".toUTF8),
    (["coverage", ".git"], .directory), (["coverage", ".git", "b.js"], .file "f()".toUTF8),
    (["coverage", "coverage"], .directory), (["coverage", "coverage", "c.js"], .file "f()".toUTF8)]⟩

theorem an_included_name_is_entered :
    let d : Discovery := ⟨[], [".git"], ["js"]⟩
    coverage.WellFormed ∧ coverage.HasNoIgnoreFiles ∧
      coverage.locate (.ofText ".") = .ok (["coverage"], .directory) ∧
      .ofText "./.git/b.js" ∈ coverage.discover d (.ofText ".") ∧
      .ofText "./coverage/c.js" ∉ coverage.discover d (.ofText ".") := by
  intro d
  have hw : coverage.WellFormed := by decide +kernel
  have hquiet : coverage.HasNoIgnoreFiles :=
    FileTree.hasNoIgnoreFiles_of_entries (by decide +kernel)
  have hroot : coverage.locate (.ofText ".") = .ok (["coverage"], .directory) := by decide +kernel
  obtain ⟨hfound, _⟩ :=
    a_search_lists_the_wanted_files_in_order coverage hw hquiet d (.ofText ".") _ hroot
  refine ⟨hw, hquiet, hroot, (hfound _).mpr ⟨[".git", "b.js"], "f()".toUTF8, by decide +kernel,
    by simp, by decide +kernel, ⟨[".git"], "b.js", ['b'], ['j', 's'], rfl, by decide, by simp,
    by decide, by decide⟩, ?_⟩, ?_⟩
  · intro n hn
    rw [← Discovery.isExcluded_patterns_iff]
    revert n
    decide +kernel
  · intro hlisted
    obtain ⟨names, c, hpath, hne, hfile, _, hnone⟩ := (hfound _).mp hlisted
    have hbelow := Path.below?_join (.ofText ".") hne
      (fun n hn => hw.isName_of_find? hfile (List.mem_append_right _ hn))
    have hnames : (Path.ofText "./coverage/c.js").below? (.ofText ".") =
        some ⟨["coverage", "c.js"]⟩ := by decide +kernel
    rw [← hpath, hnames, Option.some.injEq, Path.mk.injEq] at hbelow
    apply hnone "coverage" (by simp [← hbelow])
    rw [← Discovery.isExcluded_patterns_iff]
    decide +kernel

end LogSweep
