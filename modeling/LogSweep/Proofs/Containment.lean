-- Destinations stay inside the output directory. The part of a destination that is there lies
-- inside, and the part that is not there yet only goes down. So whatever path is asked for, what it
-- stands for is the output directory or lies below it, and a path of names is never refused.
import LogSweep.Proofs.FileSteps
import LogSweep.Proofs.PathsAbove

namespace LogSweep

namespace FileTree

/-! ## What a path stands for -/

/-- Goes from a place component by component. Names lead down, whether or not anything is there.
From a directory `..` leads up; after anything else, also after what is missing, it is taken as it
is written. -/
def resolveFrom (t : FileTree) : Location → List Component → Location
  | l, [] => l
  | _, .root :: cs => t.resolveFrom [] cs
  | l, .here :: cs => t.resolveFrom l cs
  | l, .up :: cs =>
    if t.find? l = some .directory then t.resolveFrom l.dropLast cs
    else t.resolveFrom (l ++ [".."]) cs
  | l, .name n :: cs => t.resolveFrom (l ++ [n]) cs

/-- The place that a path stands for, whether or not anything is there. -/
def resolve (t : FileTree) (p : Path) : Location := t.resolveFrom t.workDir p.components

theorem resolveFrom_append (t : FileTree) (l : Location) (cs ds : List Component) :
    t.resolveFrom l (cs ++ ds) = t.resolveFrom (t.resolveFrom l cs) ds := by
  induction cs generalizing l with
  | nil => rfl
  | cons c cs ih =>
    cases c with
    | up =>
      simp only [List.cons_append, resolveFrom]
      split <;> exact ih _
    | _ => exact ih _

theorem resolveFrom_names (t : FileTree) (l : Location) (names : List String) :
    t.resolveFrom l (names.map .name) = l ++ names := by
  induction names generalizing l with
  | nil => simp [resolveFrom]
  | cons n names ih => simp [resolveFrom, ih]

theorem resolveFrom_of_follow {t : FileTree} {l k : Location} {pieces : List String}
    (h : t.follow l pieces = .ok k) : t.resolveFrom l (Path.inside pieces) = k := by
  induction pieces generalizing l with
  | nil => simpa [follow, Path.inside, resolveFrom] using h
  | cons s rest ih =>
    have hdir := find?_of_follow_cons h
    rcases Path.piece_cases s with hidle | rfl | hname
    · rw [Path.inside_idle hidle]
      simp only [follow, hdir, hidle, Bool.or_eq_true, decide_eq_true_eq, if_true] at h
      exact ih h
    · rw [Path.inside_up, resolveFrom, if_pos hdir]
      simp only [follow, hdir] at h
      exact ih (by simpa using h)
    · rw [Path.inside_name hname, resolveFrom]
      rw [follow_name hname hdir] at h
      exact ih h

/-- A path stands for the place that it leads to. -/
theorem resolve_of_locate {t : FileTree} {p : Path} {l : Location} {e : Entry}
    (h : t.locate p = .ok (l, e)) : t.resolve p = l := by
  obtain ⟨hempty, hfollow, _⟩ := locate_eq_ok_iff.mp h
  obtain ⟨pieces⟩ := p
  rcases pieces with _ | ⟨a, ps⟩
  · exact Except.ok.inj hfollow
  · have hlong : a ≠ "" ∨ ps ≠ [] := by
      by_contra hboth
      simp only [not_or, ne_eq, not_not] at hboth
      exact hempty (by rw [hboth.1, hboth.2])
    obtain ⟨c, hc, hcomponents⟩ := Path.components_cons hlong
    have hdir := find?_of_follow_cons hfollow
    rw [resolve, hcomponents]
    by_cases ha : a = ""
    · -- An absolute path is followed from the root, and its first component leads there.
      subst ha
      have hstart : t.start ⟨"" :: ps⟩ = [] := by
        simp [start, isAbsolute_cons, hlong.resolve_left (by simp)]
      obtain rfl : .root = c := by simpa [Path.Part.opening] using hc
      rw [hstart, follow_idle (find?_nil t)] at hfollow
      exact resolveFrom_of_follow hfollow
    · have hstart : t.start ⟨a :: ps⟩ = t.workDir := by simp [start, isAbsolute_cons, ha]
      rw [hstart] at hfollow hdir
      by_cases hdot : a = "."
      · subst hdot
        obtain rfl : .here = c := by simpa [Path.Part.opening] using hc
        have hrest : t.follow t.workDir ("." :: ps) = t.follow t.workDir ps := by
          rw [follow, hdir]
          rfl
        exact resolveFrom_of_follow (hrest ▸ hfollow)
      · have hinner : Path.inside (a :: ps) = c :: Path.inside ps := by
          have hopening : Path.Part.opening a = Path.Part.inner a := by
            simp [Path.Part.opening, ha, hdot]
          rw [Path.inside_cons, ← hopening, hc]
          rfl
        rw [← hinner]
        exact resolveFrom_of_follow hfollow

/-! ## The paths of places -/

theorem components_pathOf {l : Location} (h : ∀ n ∈ l, isName n = true) :
    (pathOf l).components = .root :: l.map .name := by
  unfold pathOf
  split
  · rename_i hnil
    subst hnil
    rfl
  · rename_i hne
    obtain ⟨c, hc, hcomponents⟩ := Path.components_cons (a := "") (Or.inr hne)
    obtain rfl : .root = c := by simpa [Path.Part.opening] using hc
    rw [hcomponents, Path.inside, Path.map_inner h, Path.filterMap_named]

theorem pathOf_startsWith_iff {k l : Location} (hk : ∀ n ∈ k, isName n = true)
    (hl : ∀ n ∈ l, isName n = true) : (pathOf l).startsWith (pathOf k) = true ↔ k <+: l := by
  rw [Path.startsWith, components_pathOf hk, components_pathOf hl, List.isPrefixOf_iff_prefix,
    List.cons_prefix_cons, List.prefix_map_iff]
  constructor
  · rintro ⟨_, m, hm, heq⟩
    have hinjective : Function.Injective Component.name := fun _ _ h => Component.name.inj h
    rwa [List.map_injective_iff.mpr hinjective heq]
  · intro h
    exact ⟨rfl, k, h, rfl⟩

/-- Pieces that stand for names lead down to a directory. -/
theorem WellFormed.follow_inside {t : FileTree} (hw : t.WellFormed) {l : Location}
    {pieces names : List String} (hpieces : Path.inside pieces = names.map .name)
    (h : t.find? (l ++ names) = some .directory) : t.follow l pieces = .ok (l ++ names) := by
  induction pieces generalizing l names with
  | nil =>
    obtain rfl : names = [] := by simpa [Path.inside, eq_comm] using hpieces
    simp [follow]
  | cons s rest ih =>
    have hdir : t.find? l = some .directory := by
      by_cases hnames : names = []
      · simpa [hnames] using h
      · exact hw.find?_above hnames h
    rcases Path.piece_cases s with hidle | rfl | hname
    · rw [Path.inside_idle hidle] at hpieces
      simp only [follow, hdir, hidle, Bool.or_eq_true, decide_eq_true_eq, if_true]
      exact ih hpieces h
    · rw [Path.inside_up] at hpieces
      cases names <;> simp at hpieces
    · rw [Path.inside_name hname] at hpieces
      rcases names with _ | ⟨n, names⟩
      · simp at hpieces
      · rw [List.map_cons, List.cons.injEq, Component.name.injEq] at hpieces
        obtain ⟨rfl, hrest⟩ := hpieces
        rw [follow_name hname hdir, ih hrest (by simpa using h)]
        simp

/-- An absolute path of names leads to the directory of these names. -/
theorem WellFormed.locate_of_components {t : FileTree} (hw : t.WellFormed) {p : Path} {l : Location}
    (hp : p.components = .root :: l.map .name) (h : t.find? l = some .directory) :
    t.locate p = .ok (l, .directory) := by
  have habsolute : p.isAbsolute = true := Path.isAbsolute_iff.mpr (by simp [hp])
  rcases p.components_cases with ⟨_, hnone⟩ | ⟨a, ps, c, hpieces, hlong, hc, hcomponents⟩
  · simp [hnone] at hp
  · obtain ⟨pieces⟩ := p
    simp only at hpieces
    subst hpieces
    have ha : a = "" ∧ ps ≠ [] := by simpa [isAbsolute_cons] using habsolute
    rw [hp, List.cons.injEq] at hcomponents
    refine locate_eq_ok_iff.mpr ⟨by simp [ha.2], ?_, h⟩
    rw [start, if_pos habsolute, ha.1, follow_idle (find?_nil t)]
    simpa using hw.follow_inside (l := []) hcomponents.2.symm h

/-! ## The nearest path that is there -/

theorem nearest_mem (t : FileTree) (p : Path) : t.nearest p ∈ p.ancestors := by
  unfold nearest
  rcases h : p.ancestors.find? t.holds with _ | q
  · rw [Option.getD_none]
    unfold Path.ancestors
    cases p.components.length <;> simp [Path.climb]
  · exact List.mem_of_find?_eq_some h

theorem holds_iff {t : FileTree} {p : Path} : t.holds p = true ↔ ∃ l e, t.locate p = .ok (l, e) := by
  unfold holds
  rcases t.locate p with err | ⟨l, e⟩
  · simp
  · simp

theorem nearest_of_absolute (t : FileTree) {p : Path} (hp : p.isAbsolute = true) :
    (t.nearest p).isAbsolute = true ∧ (t.nearest p).components ≠ [] ∧
      ∃ rest, p.below? (t.nearest p) = some rest ∧
        p.components = (t.nearest p).components ++ rest.components := by
  have habove := Path.isAbsolute_of_mem_climb (t.nearest_mem p) hp
  have hne : (t.nearest p).components ≠ [] := by
    intro hnil
    have hfirst := Path.isAbsolute_iff.mp habove
    simp [hnil] at hfirst
  exact ⟨habove, hne,
    Path.exists_below? (Path.components_prefix_of_mem_climb (t.nearest_mem p)) hne⟩

theorem isName_of_locate_absolute {t : FileTree} {p : Path} {l : Location} {e : Entry}
    (hp : p.isAbsolute = true) (h : t.locate p = .ok (l, e)) : ∀ n ∈ l, isName n = true := by
  obtain ⟨_, hfollow, _⟩ := locate_eq_ok_iff.mp h
  rw [start, if_pos hp] at hfollow
  exact isName_of_follow (by simp) hfollow

/-- Climbing from names below a directory, the first path that is there is at the directory or
below it. -/
theorem WellFormed.find?_climb {t : FileTree} (hw : t.WellFormed) {k : Location}
    (hk : t.find? k = some .directory) {names : List String} {n : Nat} (hn : names.length ≤ n)
    {p : Path} (hp : p.components = .root :: (k ++ names).map .name) :
    ∃ q l e, (Path.climb n p).find? t.holds = some q ∧ t.locate q = .ok (l, e) ∧ k <+: l := by
  induction n generalizing p names with
  | zero =>
    obtain rfl : names = [] := by simpa using hn
    rw [List.append_nil] at hp
    have hlocate := hw.locate_of_components hp hk
    exact ⟨p, k, .directory, by simp [Path.climb, holds, hlocate], hlocate, List.prefix_refl k⟩
  | succ n ih =>
    by_cases hholds : t.holds p = true
    · obtain ⟨l, e, hlocate⟩ := holds_iff.mp hholds
      refine ⟨p, l, e, by simp [Path.climb, hholds], hlocate, ?_⟩
      have hl := resolve_of_locate hlocate
      rw [resolve, hp, resolveFrom, resolveFrom_names, List.nil_append] at hl
      exact hl ▸ List.prefix_append k names
    · rcases List.eq_nil_or_concat names with rfl | ⟨init, last, rfl⟩
      · rw [List.append_nil] at hp
        exact absurd (holds_iff.mpr ⟨k, _, hw.locate_of_components hp hk⟩) hholds
      · rw [List.concat_eq_append, List.length_append, List.length_singleton] at hn
        have hcut : p.components = (.root :: (k ++ init).map .name) ++ [.name last] := by
          simp [hp]
        obtain ⟨q, hq, hcomponents⟩ := Path.exists_parent? hcut (by simp)
        obtain ⟨r, l, e, hfound, hlocate, hbelow⟩ := ih (by omega) hcomponents
        exact ⟨r, l, e, by simpa [Path.climb, hholds, hq] using hfound, hlocate, hbelow⟩

/-! ## Destinations -/

theorem isAbsolute_absoluteIn {t : FileTree} {k : Location} (hk : ∀ n ∈ k, isName n = true)
    {path : Path} (h : t.StaysIn k (absoluteIn k path)) :
    (absoluteIn k path).isAbsolute = true := by
  unfold absoluteIn at *
  split
  · assumption
  · rename_i hrelative
    rw [Bool.not_eq_true] at hrelative
    rw [if_neg (by simp [hrelative]), pathOf_join hk hrelative] at h
    rw [pathOf_join hk hrelative, isAbsolute_cons]
    rcases hpieces : k ++ path.pieces with _ | ⟨s, rest⟩
    · -- The empty path leads nowhere, and there is none above it.
      rw [hpieces] at h
      obtain ⟨l, e, hlocate, _⟩ := h
      have hnear : t.nearest ⟨[""]⟩ = ⟨[""]⟩ := List.mem_singleton.mp (t.nearest_mem ⟨[""]⟩)
      rw [hnear] at hlocate
      simp [locate] at hlocate
    · simp

/-- A path that stays in a directory stands for the directory or for a place below it. -/
theorem StaysIn.prefix_resolve {t : FileTree} {k : Location} (hk : ∀ n ∈ k, isName n = true)
    {p : Path} (hp : p.isAbsolute = true) (h : t.StaysIn k p) :
    k <+: t.resolve p ∧ ∀ n ∈ t.resolve p, isName n = true := by
  obtain ⟨l, e, hlocate, hstarts, hdown⟩ := h
  obtain ⟨habove, hne, rest, hrest, hcomponents⟩ := t.nearest_of_absolute hp
  -- What is not there yet has no way up in it, so it is all names.
  obtain ⟨names, hnames, hnamed⟩ : ∃ names : List String, rest.components = names.map .name ∧
      ∀ n ∈ names, isName n = true := by
    apply Path.exists_names
    intro c hc
    have htail : c ∈ p.components.tail := by
      rw [hcomponents, List.tail_append_of_ne_nil hne]
      exact List.mem_append_right _ hc
    rcases Path.mem_components_tail htail with rfl | hname
    · have hup := hdown rest hrest
      simp [Path.goesUp, hc] at hup
    · exact hname
  have hplace : t.resolve p = l ++ names := by
    rw [resolve, hcomponents, resolveFrom_append, hnames, resolveFrom_names]
    rw [← resolve, resolve_of_locate hlocate]
  have hl : ∀ n ∈ l, isName n = true := isName_of_locate_absolute habove hlocate
  rw [hplace]
  refine ⟨((pathOf_startsWith_iff hk hl).mp hstarts).trans (List.prefix_append l names), ?_⟩
  intro n hn
  exact (List.mem_append.mp hn).elim (hl n) (hnamed n)

/-- Names below a directory stay in it. -/
theorem WellFormed.staysIn_of_names {t : FileTree} (hw : t.WellFormed) {k : Location}
    (hk : t.find? k = some .directory) {p : Path} {names : List String}
    (hp : p.components = .root :: (k ++ names).map .name) : t.StaysIn k p := by
  have hlong : names.length ≤ p.components.length := by
    rw [hp, List.length_cons, List.length_map, List.length_append]
    omega
  obtain ⟨q, l, e, hfound, hlocate, hbelow⟩ := hw.find?_climb hk hlong hp
  have hnear : t.nearest p = q := by
    unfold nearest Path.ancestors
    rw [hfound, Option.getD_some]
  obtain ⟨habove, _, rest, hrest, hcomponents⟩ :=
    t.nearest_of_absolute (Path.isAbsolute_iff.mpr (by rw [hp]; rfl))
  rw [hnear] at habove
  have hl : ∀ n ∈ l, isName n = true := isName_of_locate_absolute habove hlocate
  have hstarts := (pathOf_startsWith_iff (fun n hn => hw.isName_of_find? hk hn) hl).mpr hbelow
  refine ⟨l, e, hnear ▸ hlocate, hstarts, ?_⟩
  intro rest' hrest'
  obtain rfl : rest = rest' := by simpa [hrest] using hrest'
  have hdown : Component.up ∉ p.components := by simp [hp]
  rw [hcomponents, List.mem_append, not_or] at hdown
  simpa [Path.goesUp] using hdown.2

end FileTree

/-! ## The law -/

/-- Whatever path is let through as a destination is absolute and stands for the output directory or
for a place below it, with nothing but names on the way. And every written path of names is let
through, joined to the absolute path of the output directory. -/
theorem a_destination_stays_in_the_output_directory (t : FileTree) (hw : t.WellFormed)
    (root : Path) (k : Location) (hroot : t.locate root = .ok (k, .directory)) :
    (∀ path destination, t.containedPath path root = .ok destination →
      destination.isAbsolute = true ∧ k <+: t.resolve destination ∧
        ∀ n ∈ t.resolve destination, FileTree.isName n = true) ∧
    t.canonical root = .ok (FileTree.pathOf k) ∧
    ∀ (text : String) (names : List String), (Path.ofText text).components = names.map .name →
      t.containedPath (.ofText text) root = .ok ((FileTree.pathOf k).join (.ofText text)) := by
  have hdir := (FileTree.locate_eq_ok_iff.mp hroot).2.2
  have hk : ∀ n ∈ k, FileTree.isName n = true := fun n hn => hw.isName_of_find? hdir hn
  refine ⟨?_, by rw [FileTree.canonical, hroot]; rfl, ?_⟩
  · intro path destination h
    obtain ⟨rfl, hstays⟩ := (FileTree.containedPath_eq_ok_iff hroot).mp h
    have habsolute := FileTree.isAbsolute_absoluteIn hk hstays
    exact ⟨habsolute, hstays.prefix_resolve hk habsolute⟩
  · intro text names hnames
    have hrelative : (Path.ofText text).isAbsolute = false := by
      rw [← Bool.not_eq_true, Path.isAbsolute_iff, hnames]
      cases names <;> simp
    have habsolute : FileTree.absoluteIn k (.ofText text) =
        (FileTree.pathOf k).join (.ofText text) := by
      simp [FileTree.absoluteIn, hrelative]
    refine (FileTree.containedPath_eq_ok_iff hroot).mpr ⟨habsolute.symm, ?_⟩
    have hjoin : ((FileTree.pathOf k).join (.ofText text)).components =
        .root :: (k ++ names).map .name := by
      obtain ⟨c, hc, hcomponents⟩ := Path.components_cons (a := "")
        (Or.inr (List.append_ne_nil_of_right_ne_nil k (Path.pieces_ofText_ne_nil text)))
      obtain rfl : .root = c := by simpa [Path.Part.opening] using hc
      rw [FileTree.pathOf_join hk hrelative, hcomponents, Path.inside, List.map_append,
        List.filterMap_append, Path.map_inner hk, Path.filterMap_named, List.map_append]
      exact congrArg (fun cs => Component.root :: (k.map .name ++ cs))
        (Path.inside_of_names hnames)
    rw [habsolute]
    exact hw.staysIn_of_names hdir hjoin

/-- An output directory in the working directory, with a file in it. -/
def homeWithOutput : FileTree :=
  ⟨["home"], [(["home"], .directory), (["home", "out"], .directory),
    (["home", "out", "a.js"], .file "f()".toUTF8)]⟩

/-- A path that goes up to the output directory again, and one with pieces that count for
nothing. -/
theorem a_path_that_comes_back_is_let_through :
    homeWithOutput.WellFormed ∧
      homeWithOutput.locate ⟨["out"]⟩ = .ok (["home", "out"], .directory) ∧
      (∃ destination, homeWithOutput.containedPath (.ofText "../out/lib/b.js") ⟨["out"]⟩ =
        .ok destination ∧ ["home", "out"] <+: homeWithOutput.resolve destination) ∧
      homeWithOutput.containedPath (.ofText "a.js/./lib//b.js") ⟨["out"]⟩ =
        .ok (.ofText "/home/out/a.js/./lib//b.js") := by
  have hw : homeWithOutput.WellFormed := by decide +kernel
  have hroot : homeWithOutput.locate ⟨["out"]⟩ = .ok (["home", "out"], .directory) := by
    decide +kernel
  obtain ⟨hinside, _, hnames⟩ :=
    a_destination_stays_in_the_output_directory homeWithOutput hw ⟨["out"]⟩ _ hroot
  refine ⟨hw, hroot, ⟨.ofText "/home/out/../out/lib/b.js", by decide +kernel, ?_⟩, ?_⟩
  · exact (hinside (.ofText "../out/lib/b.js") _ (by decide +kernel)).2.1
  · rw [hnames "a.js/./lib//b.js" ["a.js", "lib", "b.js"] (by decide +kernel)]
    decide +kernel

end LogSweep
