-- The nearest settings. The search goes from its directory up to the root and asks two files in each,
-- so it loads what stands at the first place where something is accepted. What stands later does not
-- count, nor why an earlier place was passed over.
import LogSweep.Proofs.Containment
import LogSweep.Proofs.SettingsTexts

namespace LogSweep

/-! ## Places where settings may stand -/

/-- A place where settings may stand, and how a text there is read. -/
structure SettingsPlace where
  place : Location
  read : String → Option Settings

namespace SettingsPlace

/-- The places in a directory. -/
def inDirectory (d : Location) : List SettingsPlace :=
  [⟨d ++ [Settings.fileName], Settings.ofSettingsFile?⟩,
    ⟨d ++ [Settings.manifestName], Settings.ofManifest?⟩]

/-- The places in a directory and in those above it, the nearest first. -/
def upFrom (d : Location) : List SettingsPlace := (d :: FileTree.above d).flatMap inDirectory

/-- The settings at a place: a file stands there, it is a text, and the text is accepted. -/
def accepted? (c : SettingsPlace) (t : FileTree) : Option Settings :=
  (t.fileAt? c.place).bind (fun content => (String.fromUTF8? content).bind c.read)

def loaded? (t : FileTree) (c : SettingsPlace) : Option LoadedSettings :=
  (c.accepted? t).map (fun s => ⟨s, some (FileTree.pathOf c.place)⟩)

end SettingsPlace

namespace FileTree

/-! ## Up to the root -/

theorem above_concat (d : Location) (n : String) : above (d ++ [n]) = d :: above d := by
  have hfront : (List.range d.length).map (fun m => (d ++ [n]).take m) =
      (List.range d.length).map (fun m => d.take m) := by
    refine List.map_congr_left (fun m hm => ?_)
    exact List.take_append_of_le_length (Nat.le_of_lt (List.mem_range.mp hm))
  rw [above, List.length_append, List.length_singleton, List.range_succ, List.map_append, hfront]
  simp [above]

/-- The last directory above a place is the root. -/
theorem getLast?_above (d : Location) : (d :: above d).getLast? = some [] := by
  induction d using List.reverseRecOn with
  | nil => rfl
  | append_singleton d m ih => rw [above_concat, List.getLast?_cons_cons, ih]

theorem parent?_pathOf_nil : (pathOf []).parent? = none := rfl

/-- Names below the root end in nothing that is dropped. -/
theorem trimEnd_opening (d : Location) :
    Path.trimEnd (Path.Part.opening "" :: d.map Path.Part.named) =
      Path.Part.opening "" :: d.map Path.Part.named := by
  rcases List.eq_nil_or_concat d with rfl | ⟨front, last, rfl⟩
  · rfl
  · have hlast : ¬ (Path.Part.named last).isIdle = true := by
      simp [Path.Part.named, Path.Part.isIdle]
    rw [List.concat_eq_append, List.map_append, List.map_singleton, ← List.cons_append,
      Path.trimEnd_eq, List.rdropWhile_concat_neg _ _ _ hlast]

/-- Above a place in a directory is the directory. -/
theorem parent?_pathOf_concat {d : Location} {n : String} (hd : ∀ m ∈ d, isName m = true)
    (hn : isName n = true) : (pathOf (d ++ [n])).parent? = some (pathOf d) := by
  have hnames : ∀ m ∈ d ++ [n], isName m = true := by
    intro m hm
    rcases List.mem_append.mp hm with hm | hm
    · exact hd m hm
    · exact List.mem_singleton.mp hm ▸ hn
  have hparts : (pathOf (d ++ [n])).parts =
      Path.Part.opening "" :: (d ++ [n]).map Path.Part.named := by
    rw [pathOf, if_neg (by simp), Path.parts_cons (Or.inr (by simp)), Path.map_inner hnames]
  simp only [Path.parent?]
  rw [hparts, trimEnd_opening, List.map_append, List.map_singleton, ← List.cons_append,
    List.getLast?_concat, List.dropLast_concat, trimEnd_opening]
  rcases d with _ | ⟨m, rest⟩
  · rfl
  · simp [Path.Part.named, Path.ofParts, pathOf, Path.Part.opening, Function.comp_def]

/-- Climbing from a place goes through all directories above it and ends at the root. -/
theorem climb_pathOf {d : Location} (hd : ∀ m ∈ d, isName m = true) {n : Nat} (hn : d.length ≤ n) :
    Path.climb n (pathOf d) = (d :: above d).map pathOf := by
  induction d using List.reverseRecOn generalizing n with
  | nil =>
    cases n with
    | zero => rfl
    | succ n => simp [Path.climb, parent?_pathOf_nil, above]
  | append_singleton d m ih =>
    rw [List.length_append, List.length_singleton] at hn
    obtain ⟨n, rfl⟩ : ∃ k, n = k + 1 := ⟨n - 1, by omega⟩
    have hfront : ∀ k ∈ d, isName k = true := fun k hk => hd k (List.mem_append_left _ hk)
    rw [Path.climb, parent?_pathOf_concat hfront (hd m (by simp)), above_concat, List.map_cons]
    exact congrArg _ (ih hfront (Nat.le_of_succ_le_succ hn))

theorem ancestors_pathOf {d : Location} (hd : ∀ m ∈ d, isName m = true) :
    (pathOf d).ancestors = (d :: above d).map pathOf := by
  refine climb_pathOf hd ?_
  rw [components_pathOf hd, List.length_cons, List.length_map]
  omega

/-! ## Settings in a directory -/

section Directory

variable {t : FileTree} {d : Location} {name : String}

theorem pathOf_join_name (hd : ∀ m ∈ d, isName m = true) (hname : isName name = true) :
    (pathOf d).join ⟨[name]⟩ = pathOf (d ++ [name]) := by
  rw [pathOf_join hd (Path.isAbsolute_names (by simpa using hname)), pathOf, if_neg (by simp)]

/-- A text is read below a directory where a file stands that holds it. -/
theorem WellFormed.readText_pathOf (hw : t.WellFormed) (hd : t.find? d = some .directory)
    (hname : isName name = true) {text : String} :
    t.readText (pathOf (d ++ [name])) = .ok text ↔ t.fileAt? (d ++ [name]) = some text.toUTF8 := by
  have hnames : ∀ m ∈ d, isName m = true := fun m hm => hw.isName_of_find? hd hm
  have hroot : t.locate (pathOf d) = .ok (d, .directory) :=
    hw.locate_of_components (components_pathOf hnames) hd
  have hfollow : t.follow d [name] = .ok (d ++ [name]) := follow_name hname hd []
  have hsingle : ∀ m ∈ [name], isName m = true := by simpa using hname
  rw [← pathOf_join_name hnames hname, fileAt?_eq_some_iff]
  constructor
  · intro h
    obtain ⟨l, hl⟩ := exists_locate_of_readText h
    obtain ⟨_, hplace, hfile⟩ := locate_eq_ok_iff.mp hl
    rw [follow_join hroot (Path.isAbsolute_names hsingle) (by simp), hfollow,
      Except.ok.injEq] at hplace
    rwa [hplace]
  · intro h
    exact readText_of_locate_text (locate_join hroot (by simp) hsingle hfollow h)

theorem WellFormed.settingsAt_pathOf (hw : t.WellFormed) (hd : t.find? d = some .directory)
    (hname : isName name = true) (read : String → Option Settings) :
    t.settingsAt read (pathOf (d ++ [name])) = SettingsPlace.loaded? t ⟨d ++ [name], read⟩ := by
  unfold settingsAt SettingsPlace.loaded? SettingsPlace.accepted?
  rcases hread : t.readText (pathOf (d ++ [name])) with e | text
  · -- Where nothing is read, no file stands or what it holds is no text.
    simp only
    rcases hfile : t.fileAt? (d ++ [name]) with _ | content
    · rfl
    · rcases htext : String.fromUTF8? content with _ | text
      · simp [htext]
      · rw [fromUTF8?_eq_some_iff.mp htext, ← hw.readText_pathOf hd hname, hread] at hfile
        simp at hfile
  · rw [(hw.readText_pathOf hd hname).mp hread, Option.bind_some, fromUTF8?_eq_some_iff.mpr rfl,
      Option.bind_some]

/-- In a directory its two places are asked, the settings file before the manifest. -/
theorem WellFormed.settingsIn_pathOf (hw : t.WellFormed) (hd : t.find? d = some .directory) :
    t.settingsIn (pathOf d) = (SettingsPlace.inDirectory d).findSome? (SettingsPlace.loaded? t) := by
  have hnames : ∀ m ∈ d, isName m = true := fun m hm => hw.isName_of_find? hd hm
  have hfile : isName Settings.fileName = true := by decide
  have hmanifest : isName Settings.manifestName = true := by decide
  rw [settingsIn, pathOf_join_name hnames hfile, pathOf_join_name hnames hmanifest,
    hw.settingsAt_pathOf hd hfile, hw.settingsAt_pathOf hd hmanifest, SettingsPlace.inDirectory]
  simp only [List.findSome?_cons, List.findSome?_nil]
  rcases SettingsPlace.loaded? t ⟨d ++ [Settings.fileName], Settings.ofSettingsFile?⟩ with _ | s
  · rcases SettingsPlace.loaded? t ⟨d ++ [Settings.manifestName], Settings.ofManifest?⟩ with _ | s <;>
      rfl
  · rfl

end Directory

/-- The directories above a directory are asked one after another. -/
theorem WellFormed.findSome?_settingsIn {t : FileTree} (hw : t.WellFormed) {ds : List Location}
    (hds : ∀ d ∈ ds, t.find? d = some .directory) :
    (ds.map pathOf).findSome? t.settingsIn =
      (ds.flatMap SettingsPlace.inDirectory).findSome? (SettingsPlace.loaded? t) := by
  induction ds with
  | nil => rfl
  | cons d ds ih =>
    obtain ⟨hd, hrest⟩ := List.forall_mem_cons.mp hds
    rw [List.map_cons, List.findSome?_cons, List.flatMap_cons, List.findSome?_append,
      hw.settingsIn_pathOf hd, ih hrest]
    cases (SettingsPlace.inDirectory d).findSome? (SettingsPlace.loaded? t) <;> rfl

theorem WellFormed.find?_of_mem_above {t : FileTree} (hw : t.WellFormed) {d k : Location}
    (hd : t.find? d = some .directory) (hk : k ∈ d :: above d) : t.find? k = some .directory := by
  rcases List.mem_cons.mp hk with rfl | hk
  · exact hd
  · rw [above, List.mem_reverse, List.mem_map] at hk
    obtain ⟨n, hn, rfl⟩ := hk
    refine hw.find?_above (m := d.drop n) ?_ (by rw [List.take_append_drop]; exact hd)
    simpa using List.mem_range.mp hn

/-! ## Where a search starts -/

/-- The directory in which the search for the settings of a path starts: the path, or what stands
above it when it is a file. -/
def startDirectory (t : FileTree) (p : Path) : Path :=
  if t.isFile p then p.parent?.getD p else p

/-- Whether the search for the settings of a path starts at a place. -/
def StartsAt (t : FileTree) (p : Path) (d : Location) : Prop :=
  t.place? (t.startDirectory p) = some d

theorem isFile_iff {t : FileTree} {p : Path} :
    t.isFile p = true ↔ ∃ l c, t.locate p = .ok (l, .file c) := by
  unfold isFile
  rcases t.locate p with e | ⟨l, c | _⟩ <;> simp

/-- There is a path above that of a file, and it leads nowhere but to the directory of the file. -/
theorem WellFormed.exists_parent_of_file {t : FileTree} (hw : t.WellFormed) {p : Path} {l : Location}
    {c : ByteArray} (hp : t.locate p = .ok (l, .file c)) :
    ∃ q, p.parent? = some q ∧ ∀ k e, t.locate q = .ok (k, e) → e = .directory := by
  obtain ⟨init, name, hpieces, hname⟩ := hw.exists_name_of_locate hp
  obtain ⟨cs, hcs⟩ : ∃ cs, p.components = cs ++ [.name name] := by
    have hfile := Path.fileName?_of_isName hpieces hname
    rw [Path.fileName?] at hfile
    split at hfile
    · rename_i n hlast
      obtain rfl := Option.some.inj hfile
      exact List.getLast?_eq_some_iff.mp hlast
    · simp at hfile
  obtain ⟨q, hq, rfl⟩ := Path.exists_parent? hcs (by simp)
  refine ⟨q, hq, fun k e hk => ?_⟩
  have hplace : l = k ++ [name] := by
    rw [← resolve_of_locate hp, ← resolve_of_locate hk, resolve, hcs, resolveFrom_append]
    rfl
  have hdir := hw.find?_dropLast (locate_eq_ok_iff.mp hp).2.2
  rw [hplace, List.dropLast_concat, (locate_eq_ok_iff.mp hk).2.2] at hdir
  exact Option.some.inj hdir

/-- A search starts in a directory. -/
theorem WellFormed.locate_of_startsAt {t : FileTree} (hw : t.WellFormed) {p : Path} {d : Location}
    (h : t.StartsAt p d) : t.locate (t.startDirectory p) = .ok (d, .directory) := by
  unfold StartsAt place? at h
  rcases hstart : t.locate (t.startDirectory p) with err | ⟨l, e⟩
  · simp [hstart] at h
  · rw [hstart] at h
    obtain rfl : l = d := Option.some.inj h
    by_cases hfile : t.isFile p = true
    · obtain ⟨k, c, hp⟩ := isFile_iff.mp hfile
      obtain ⟨q, hq, habove⟩ := hw.exists_parent_of_file hp
      rw [startDirectory, if_pos hfile, hq, Option.getD_some] at hstart
      rw [habove l e hstart]
    · rw [startDirectory, if_neg hfile] at hstart
      cases e with
      | file c => exact absurd (isFile_iff.mpr ⟨l, c, hstart⟩) hfile
      | directory => rfl

/-- A search goes on starting at a place as long as every directory stays one and a path that led to a
file still does. -/
theorem WellFormed.startsAt_of_directories {t t' : FileTree} (hw : t.WellFormed) {p : Path}
    {d : Location} (h : t.StartsAt p d) (hwork : t'.workDir = t.workDir)
    (hdir : ∀ l, t.find? l = some .directory → t'.find? l = some .directory)
    (hfile : t.isFile p = true → t'.isFile p = true) : t'.StartsAt p d := by
  have hstart := hw.locate_of_startsAt h
  have hstart' : t'.locate (t.startDirectory p) = .ok (d, .directory) := by
    obtain ⟨hempty, hfollow, hd⟩ := locate_eq_ok_iff.mp hstart
    refine locate_eq_ok_iff.mpr ⟨hempty, follow_of_directories hdir ?_, hdir d hd⟩
    simpa only [start, hwork] using hfollow
  have hsame : t'.startDirectory p = t.startDirectory p := by
    by_cases hp : t.isFile p = true
    · rw [startDirectory, startDirectory, if_pos hp, if_pos (hfile hp)]
    · have hp' : ¬ t'.isFile p = true := by
        rw [startDirectory, if_neg hp] at hstart'
        simp [isFile, hstart']
      rw [startDirectory, startDirectory, if_neg hp, if_neg hp']
  rw [StartsAt, hsame]
  exact place?_of_locate hstart'

/-! ## What is loaded -/

theorem WellFormed.searchStart_eq {t : FileTree} (hw : t.WellFormed) {p : Path} {d : Location}
    (h : t.StartsAt p d) : t.searchStart p = pathOf d := by
  have hcanonical : t.canonical (t.startDirectory p) = .ok (pathOf d) := by
    rw [canonical, hw.locate_of_startsAt h]
    rfl
  unfold startDirectory at hcanonical
  simp only [searchStart, hcanonical]

theorem WellFormed.loadSettings_eq {t : FileTree} (hw : t.WellFormed) {p : Path} {d : Location}
    (h : t.StartsAt p d) :
    t.loadSettings p =
      ((SettingsPlace.upFrom d).findSome? (SettingsPlace.loaded? t)).getD ⟨.unset, none⟩ := by
  have hd := (locate_eq_ok_iff.mp (hw.locate_of_startsAt h)).2.2
  rw [loadSettings, hw.searchStart_eq h, ancestors_pathOf (fun n hn => hw.isName_of_find? hd hn),
    hw.findSome?_settingsIn (fun k hk => hw.find?_of_mem_above hd hk), SettingsPlace.upFrom]

/-- What is told at a place: a file with the name of one stands there, and its text says settings in
the notation that goes with the name. -/
inductive Tells (t : FileTree) (s : Settings) : Location → Prop
  | file {d : Location} {content : ByteArray} {text : String} {v : Data.Value}
      (hfile : t.fileAt? (d ++ [Settings.fileName]) = some content)
      (htext : String.fromUTF8? content = some text) (hv : Data.Toml.parse? text = some v)
      (hs : Settings.SaidByFile s v) : Tells t s (d ++ [Settings.fileName])
  | manifest {d : Location} {content : ByteArray} {text : String} {v : Data.Value}
      (hfile : t.fileAt? (d ++ [Settings.manifestName]) = some content)
      (htext : String.fromUTF8? content = some text) (hv : Data.Json.parse? text = some v)
      (hs : Settings.SaidByManifest s v) : Tells t s (d ++ [Settings.manifestName])

theorem accepted?_eq_some_iff {t : FileTree} {c : SettingsPlace} {s : Settings} :
    c.accepted? t = some s ↔ ∃ content text, t.fileAt? c.place = some content ∧
      String.fromUTF8? content = some text ∧ c.read text = some s := by
  simp only [SettingsPlace.accepted?, Option.bind_eq_some_iff]
  exact ⟨fun ⟨content, hfile, text, htext, hread⟩ => ⟨content, text, hfile, htext, hread⟩,
    fun ⟨content, text, hfile, htext, hread⟩ => ⟨content, hfile, text, htext, hread⟩⟩

/-- Settings are accepted at a place exactly when it tells them. -/
theorem accepted?_iff_tells {t : FileTree} {d : Location} {c : SettingsPlace} {s : Settings}
    (hc : c ∈ SettingsPlace.upFrom d) : c.accepted? t = some s ↔ t.Tells s c.place := by
  obtain ⟨e, _, hc⟩ := List.mem_flatMap.mp hc
  rw [accepted?_eq_some_iff]
  rcases List.mem_pair.mp hc with rfl | rfl
  · simp only [Settings.ofSettingsFile?_eq_some_iff]
    constructor
    · rintro ⟨content, text, hfile, htext, v, hv, hs⟩
      exact .file hfile htext hv hs
    · intro h
      generalize hplace : e ++ [Settings.fileName] = place at h
      cases h with
      | file hfile htext hv hs => exact ⟨_, _, hfile, htext, _, hv, hs⟩
      | manifest => exact absurd (List.append_inj_right' hplace rfl) (by decide)
  · simp only [Settings.ofManifest?_eq_some_iff]
    constructor
    · rintro ⟨content, text, hfile, htext, v, hv, hs⟩
      exact .manifest hfile htext hv hs
    · intro h
      generalize hplace : e ++ [Settings.manifestName] = place at h
      cases h with
      | file => exact absurd (List.append_inj_right' hplace rfl) (by decide)
      | manifest hfile htext hv hs => exact ⟨_, _, hfile, htext, _, hv, hs⟩

/-- Whether settings are accepted at a place and at none of those before it. -/
structure FirstAccepted (t : FileTree) (d : Location) (before : List SettingsPlace)
    (c : SettingsPlace) (s : Settings) : Prop where
  listed : ∃ after, SettingsPlace.upFrom d = before ++ c :: after
  rejected : ∀ b ∈ before, b.accepted? t = none
  accepted : c.accepted? t = some s

theorem FirstAccepted.findSome?_eq {t : FileTree} {d : Location} {before : List SettingsPlace}
    {c : SettingsPlace} {s : Settings} (h : t.FirstAccepted d before c s) :
    (SettingsPlace.upFrom d).findSome? (SettingsPlace.loaded? t) =
      some ⟨s, some (pathOf c.place)⟩ := by
  obtain ⟨after, hlisted⟩ := h.listed
  refine List.findSome?_eq_some_iff.mpr ⟨before, c, after, hlisted, ?_, fun b hb => ?_⟩
  · simp [SettingsPlace.loaded?, h.accepted]
  · simp [SettingsPlace.loaded?, h.rejected b hb]

/-- Some place is the first where settings are accepted, unless they are accepted nowhere. -/
theorem exists_firstAccepted (t : FileTree) (d : Location) :
    (∃ before c s, t.FirstAccepted d before c s) ∨
      ∀ c ∈ SettingsPlace.upFrom d, c.accepted? t = none := by
  rcases hfound : (SettingsPlace.upFrom d).findSome? (fun c => c.accepted? t) with _ | s
  · exact Or.inr (List.findSome?_eq_none_iff.mp hfound)
  · obtain ⟨before, c, after, hlisted, haccepted, hrejected⟩ := List.findSome?_eq_some_iff.mp hfound
    exact Or.inl ⟨before, c, s, ⟨after, hlisted⟩, hrejected, haccepted⟩

end FileTree

/-! ## The law -/

/-- A search that starts at a place asks it and the directories above it up to the root, which has
none above it. At each of these places settings are accepted exactly when a settings file or a
manifest stands there and its text says them. The first place where settings are accepted gives them
and is named as their file, and where none are accepted nothing is settled. So in every tree where
the places before are passed over too and the file there holds the same, each search that starts at
the same place loads the same. A search goes on starting there as long as directories stay and its
path is still that of a file, if it was. -/
theorem the_nearest_accepted_settings_are_loaded (t : FileTree) (hw : t.WellFormed) (p : Path)
    (d : Location) (hstart : t.StartsAt p d) :
    ((t.searchStart p).ancestors = (d :: FileTree.above d).map FileTree.pathOf ∧
      (t.searchStart p).ancestors.getLast?.bind Path.parent? = none) ∧
    ((∃ before c s, t.FirstAccepted d before c s) ∨
      ∀ c ∈ SettingsPlace.upFrom d, c.accepted? t = none) ∧
    (∀ c ∈ SettingsPlace.upFrom d, ∀ s, c.accepted? t = some s ↔ t.Tells s c.place) ∧
    (∀ before c s, t.FirstAccepted d before c s →
      t.loadSettings p = ⟨s, some (FileTree.pathOf c.place)⟩ ∧
      ∀ (t' : FileTree) (p' : Path), t'.WellFormed → t'.StartsAt p' d →
        (∀ b ∈ before, b.accepted? t' = none) → t'.fileAt? c.place = t.fileAt? c.place →
        t'.loadSettings p' = t.loadSettings p) ∧
    ((∀ c ∈ SettingsPlace.upFrom d, c.accepted? t = none) → t.loadSettings p = ⟨.unset, none⟩) ∧
    ∀ t' : FileTree, t'.workDir = t.workDir →
      (∀ l, t.find? l = some .directory → t'.find? l = some .directory) →
      (t.isFile p = true → t'.isFile p = true) → t'.StartsAt p d := by
  have hd := (FileTree.locate_eq_ok_iff.mp (hw.locate_of_startsAt hstart)).2.2
  have hclimb : (t.searchStart p).ancestors = (d :: FileTree.above d).map FileTree.pathOf := by
    rw [hw.searchStart_eq hstart, FileTree.ancestors_pathOf (fun n hn => hw.isName_of_find? hd hn)]
  refine ⟨⟨hclimb, ?_⟩, t.exists_firstAccepted d, fun c hc s => FileTree.accepted?_iff_tells hc,
    fun before c s h => ?_, fun hnone => ?_, fun t' => hw.startsAt_of_directories hstart⟩
  · rw [hclimb, List.getLast?_map, FileTree.getLast?_above, Option.map_some, Option.bind_some,
      FileTree.parent?_pathOf_nil]
  · have hload : t.loadSettings p = ⟨s, some (FileTree.pathOf c.place)⟩ := by
      rw [hw.loadSettings_eq hstart, h.findSome?_eq, Option.getD_some]
    refine ⟨hload, fun t' p' hw' hstart' hrejected hsame => ?_⟩
    have h' : t'.FirstAccepted d before c s := by
      refine ⟨h.listed, hrejected, ?_⟩
      rw [SettingsPlace.accepted?, hsame, ← SettingsPlace.accepted?, h.accepted]
    rw [hw'.loadSettings_eq hstart', h'.findSome?_eq, Option.getD_some, hload]
  · rw [hw.loadSettings_eq hstart, List.findSome?_eq_none_iff.mpr, Option.getD_none]
    intro c hc
    simp [SettingsPlace.loaded?, hnone c hc]

/-- A settings file below another one, which cannot be read, beside a manifest without settings. -/
def homeWithLib : FileTree :=
  ⟨["home"], [(["home"], .directory), (["home", ".delog.toml"], .file "[delog]\nmethods = []".toUTF8),
    (["home", "lib"], .directory), (["home", "lib", "a.js"], .file "f()".toUTF8),
    (["home", "lib", ".delog.toml"], .file "[delog".toUTF8),
    (["home", "lib", "package.json"], .file "\x7b\x7d".toUTF8)]⟩

/-- Other settings that cannot be read, and a manifest that comes too late, change nothing. -/
theorem settings_that_cannot_be_read_are_passed_over :
    let p := Path.ofText "lib/a.js"
    let changed := (homeWithLib.put ["home", "lib", ".delog.toml"]
      (.file "[delog]\nmethods = 3".toUTF8)).put ["home", "package.json"]
      (.file "\x7b\"delog\":\x7b\"methods\":[\"log\"]\x7d\x7d".toUTF8)
    homeWithLib.WellFormed ∧ homeWithLib.StartsAt p ["home", "lib"] ∧
      homeWithLib.loadSettings p =
        ⟨{ Settings.unset with methods := some [] }, some (.ofText "/home/.delog.toml")⟩ ∧
      changed.loadSettings p = homeWithLib.loadSettings p := by
  intro p changed
  have hw : homeWithLib.WellFormed := by decide +kernel
  have hw' : changed.WellFormed := by decide +kernel
  have hstart : homeWithLib.StartsAt p ["home", "lib"] := by
    unfold FileTree.StartsAt
    decide +kernel
  have hfirst : homeWithLib.FirstAccepted ["home", "lib"] (SettingsPlace.inDirectory ["home", "lib"])
      ⟨["home", ".delog.toml"], Settings.ofSettingsFile?⟩
      { Settings.unset with methods := some [] } :=
    ⟨⟨_, rfl⟩, by decide +kernel, by decide +kernel⟩
  obtain ⟨_, _, _, hloaded, _, hstays⟩ :=
    the_nearest_accepted_settings_are_loaded homeWithLib hw p _ hstart
  obtain ⟨hload, hsame⟩ := hloaded _ _ _ hfirst
  refine ⟨hw, hstart, ?_, hsame changed p hw' ?_ (by decide +kernel) (by decide +kernel)⟩
  · rw [hload]
    decide +kernel
  · refine hstays changed rfl (fun l hl => ?_) (by decide +kernel)
    have hplace : ∀ k ∈ [["home", "lib", ".delog.toml"], ["home", "package.json"]],
        homeWithLib.find? k ≠ some .directory := by decide +kernel
    rw [FileTree.find?_put_ne, FileTree.find?_put_ne]
    · exact hl
    · rintro rfl
      exact hplace _ (by simp) hl
    · rintro rfl
      exact hplace _ (by simp) hl

end LogSweep
