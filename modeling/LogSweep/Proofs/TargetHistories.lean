-- Sets of targets and the insertions that built them. A set lists its targets by their first
-- insertion. A table of methods by path, kept beside the list for look-ups, stays in step with it
-- over every run of insertions, and targets that are written alike stay apart in both.
import Mathlib
import LogSweep.Proofs.WrittenTargets

namespace LogSweep

/-! ## The pure model -/

/-- Every method on every path, as they are inserted. -/
def Target.grid (paths methods : List String) : List Target :=
  paths.flatMap (fun p => methods.map (fun m => ⟨p, m⟩))

/-- The ways to build a set, each with the targets that were inserted, in order. -/
inductive TargetSet.Built : List Target → TargetSet → Prop
  | empty : Built [] .empty
  | cross (paths methods : List String) :
      Built (Target.grid paths methods) (.cross paths methods)
  | ofMethods (methods : List String) :
      Built (Target.grid defaultPaths methods) (.ofMethods methods)
  | parseList {texts : List String} {ts : List Target} {s : TargetSet}
      (htexts : texts.map Target.parse = ts.map .ok) (h : parseList texts = .ok s) : Built ts s
  | ofList (ts : List Target) : Built ts (.ofList ts)
  | insert {ts : List Target} {s : TargetSet} (t : Target) (h : Built ts s) :
      Built (ts ++ [t]) (s.insert t).2

/-- A list of targets and, beside it, their methods by path. -/
structure TargetTable where
  targets : List Target
  methods : Std.ExtHashMap String (Std.ExtHashSet String)

namespace TargetTable

def empty : TargetTable := ⟨[], ∅⟩

/-- Looks only at the methods under the path of the target. -/
def contains (s : TargetTable) (t : Target) : Bool :=
  match s.methods[t.path]? with
  | some methods => methods.contains t.method
  | none => false

/-- Puts the method under its path, which may be new there, and lists the target if its method was not
there. Gives whether the target was new. -/
def insert (s : TargetTable) (t : Target) : Bool × TargetTable :=
  let methods := s.methods.getD t.path ∅
  let fresh := !methods.contains t.method
  (fresh, ⟨if fresh then s.targets ++ [t] else s.targets,
    s.methods.insert t.path (methods.insert t.method)⟩)

def ofList (ts : List Target) : TargetTable := ts.foldl (fun s t => (s.insert t).2) empty

/-- The table lists what the set lists, and it finds what the set holds. -/
structure Mirrors (table : TargetTable) (s : TargetSet) : Prop where
  targets : table.targets = s.targets
  contains : ∀ t, table.contains t = s.contains t

end TargetTable

/-! ## The list -/

namespace TargetSet

/-- An insertion gives whether the target was missing, and then adds it; else it changes nothing. -/
theorem insert_spec (s : TargetSet) (t : Target) :
    ((s.insert t).1 = true ↔ s.contains t = false) ∧
      ((s.insert t).1 = true → (s.insert t).2.targets = s.targets ++ [t]) ∧
      ((s.insert t).1 = false → (s.insert t).2 = s) := by
  by_cases ht : t ∈ s.targets
  · have hin : s.contains t = true := contains_iff.mpr ht
    simp [insert_of_mem ht, hin]
  · have hout : s.contains t = false := by
      rwa [← Bool.not_eq_true, contains_iff]
    simp [insert_of_not_mem ht, hout]

theorem ofList_concat (ts : List Target) (t : Target) :
    ofList (ts ++ [t]) = ((ofList ts).insert t).2 := by
  simp [ofList]

theorem Built.eq_ofList {ts : List Target} {s : TargetSet} (h : Built ts s) :
    s = TargetSet.ofList ts := by
  induction h with
  | empty => rfl
  | cross paths methods => rfl
  | ofMethods methods => rfl
  | parseList htexts h =>
    obtain ⟨us, hus, rfl⟩ := parseList_eq_ok_iff.mp h
    rw [htexts, List.map_inj_right (fun _ _ => Except.ok.inj)] at hus
    rw [hus]
  | ofList ts => rfl
  | insert t _ ih => rw [ofList_concat, ih]

theorem mem_targets_ofList {ts : List Target} {t : Target} :
    t ∈ (ofList ts).targets ↔ t ∈ ts := by
  rw [← contains_iff, contains_ofList]

/-- A target inserted again changes nothing, and a new one comes after all that were inserted. -/
theorem pairwise_idxOf (ts : List Target) :
    (ofList ts).targets.Pairwise (fun t u => ts.idxOf t < ts.idxOf u) := by
  induction ts using List.reverseRecOn with
  | nil => exact List.Pairwise.nil
  | append_singleton ts x ih =>
    have hkept : (ofList ts).targets.Pairwise
        (fun t u => (ts ++ [x]).idxOf t < (ts ++ [x]).idxOf u) := by
      refine ih.imp_of_mem ?_
      intro t u ht hu hlt
      rwa [List.idxOf_append_of_mem (mem_targets_ofList.mp ht),
        List.idxOf_append_of_mem (mem_targets_ofList.mp hu)]
    rw [ofList_concat]
    by_cases hx : x ∈ ts
    · rw [insert_of_mem (mem_targets_ofList.mpr hx)]
      exact hkept
    · rw [insert_of_not_mem (mt mem_targets_ofList.mp hx), List.pairwise_append]
      refine ⟨hkept, List.pairwise_singleton _ _, ?_⟩
      intro t ht u hu
      rw [List.mem_singleton] at hu
      subst hu
      have ht := mem_targets_ofList.mp ht
      rw [List.idxOf_append_of_mem ht, List.idxOf_append_of_notMem hx]
      have hlt := List.idxOf_lt_length_iff.mpr ht
      omega

theorem nodup_targets_ofList (ts : List Target) : (ofList ts).targets.Nodup := by
  refine (pairwise_idxOf ts).imp ?_
  rintro t u hlt rfl
  exact Nat.lt_irrefl _ hlt

theorem length_targets_ofList (ts : List Target) :
    (ofList ts).targets.length = ts.toFinset.card := by
  have hsame : (ofList ts).targets.toFinset = ts.toFinset := by
    ext t
    rw [List.mem_toFinset, List.mem_toFinset, mem_targets_ofList]
  rw [← hsame, List.toFinset_card_of_nodup (nodup_targets_ofList ts)]

end TargetSet

/-! ## The grid -/

namespace Target

theorem mem_grid {paths methods : List String} {t : Target} :
    t ∈ grid paths methods ↔ t.path ∈ paths ∧ t.method ∈ methods := by
  simp only [grid, List.mem_flatMap, List.mem_map]
  constructor
  · rintro ⟨p, hp, m, hm, rfl⟩
    exact ⟨hp, hm⟩
  · rintro ⟨hp, hm⟩
    exact ⟨t.path, hp, t.method, hm, rfl⟩

theorem grid_cons (p : String) (paths methods : List String) :
    grid (p :: paths) methods = methods.map (fun m => ⟨p, m⟩) ++ grid paths methods := by
  rw [grid, List.flatMap_cons]
  rfl

theorem idxOf_row (p : String) (methods : List String) (m : String) :
    (methods.map (fun m => (⟨p, m⟩ : Target))).idxOf ⟨p, m⟩ = methods.idxOf m := by
  induction methods with
  | nil => rfl
  | cons n methods ih =>
    rw [List.map_cons]
    by_cases hn : n = m
    · rw [hn, List.idxOf_cons_self, List.idxOf_cons_self]
    · rw [List.idxOf_cons_ne _ hn, List.idxOf_cons_ne _ (by simpa using hn), ih]

/-- The grid has a row of all methods for each path. -/
theorem idxOf_grid {paths methods : List String} {t : Target} (ht : t ∈ grid paths methods) :
    (grid paths methods).idxOf t =
      paths.idxOf t.path * methods.length + methods.idxOf t.method := by
  induction paths with
  | nil => simp [grid] at ht
  | cons p paths ih =>
    obtain ⟨hpath, hmethod⟩ := mem_grid.mp ht
    rw [grid_cons]
    by_cases hp : p = t.path
    · subst hp
      have hrow : t ∈ methods.map (fun m => (⟨t.path, m⟩ : Target)) :=
        List.mem_map.mpr ⟨t.method, hmethod, rfl⟩
      rw [List.idxOf_append_of_mem hrow, List.idxOf_cons_self, Nat.zero_mul, Nat.zero_add]
      exact idxOf_row t.path methods t.method
    · have hrow : t ∉ methods.map (fun m => (⟨p, m⟩ : Target)) := by
        rw [List.mem_map]
        rintro ⟨m, _, rfl⟩
        exact hp rfl
      have hrest : t ∈ grid paths methods :=
        mem_grid.mpr ⟨List.mem_of_ne_of_mem (Ne.symm hp) hpath, hmethod⟩
      rw [List.idxOf_append_of_notMem hrow, ih hrest, List.length_map,
        List.idxOf_cons_ne _ hp, Nat.succ_mul]
      omega

/-- In the grid, what comes first has the earlier path, or the same path and the earlier method. -/
theorem lt_of_idxOf_grid_lt {paths methods : List String} {t u : Target}
    (ht : t ∈ grid paths methods) (hu : u ∈ grid paths methods)
    (h : (grid paths methods).idxOf t < (grid paths methods).idxOf u) :
    paths.idxOf t.path < paths.idxOf u.path ∨
      t.path = u.path ∧ methods.idxOf t.method < methods.idxOf u.method := by
  rw [idxOf_grid ht, idxOf_grid hu] at h
  obtain ⟨hpath, _⟩ := mem_grid.mp ht
  have hmethod := List.idxOf_lt_length_iff.mpr (mem_grid.mp hu).2
  rcases Nat.lt_trichotomy (paths.idxOf t.path) (paths.idxOf u.path) with hlt | heq | hgt
  · exact Or.inl hlt
  · rw [heq] at h
    exact Or.inr ⟨(List.idxOf_inj hpath).mp heq, by omega⟩
  · have hrows := Nat.mul_le_mul_right methods.length hgt
    rw [Nat.succ_mul] at hrows
    omega

end Target

namespace TargetSet

theorem contains_cross {paths methods : List String} {t : Target} :
    (cross paths methods).contains t = true ↔ t.path ∈ paths ∧ t.method ∈ methods := by
  rw [← Target.mem_grid, ← contains_ofList]
  rfl

/-- Path by path, and under a path method by method, each by its first occurrence. -/
theorem pairwise_cross (paths methods : List String) :
    (cross paths methods).targets.Pairwise (fun t u =>
      paths.idxOf t.path < paths.idxOf u.path ∨
        t.path = u.path ∧ methods.idxOf t.method < methods.idxOf u.method) := by
  refine (pairwise_idxOf (Target.grid paths methods)).imp_of_mem ?_
  intro t u ht hu hlt
  exact Target.lt_of_idxOf_grid_lt (mem_targets_ofList.mp ht) (mem_targets_ofList.mp hu) hlt

end TargetSet

/-! ## The table -/

namespace TargetTable

theorem contains_methods (s : TargetTable) (t : Target) :
    (s.methods.getD t.path ∅).contains t.method = s.contains t := by
  rw [contains, Std.ExtHashMap.getD_eq_getD_getElem?]
  rcases s.methods[t.path]? with _ | methods
  · simp
  · rfl

theorem contains_empty (t : Target) : empty.contains t = false := by
  simp [contains, empty]

/-- Under another path nothing changes, and under its own only the method is added. -/
theorem contains_insert (s : TargetTable) (t u : Target) :
    (s.insert t).2.contains u = true ↔ s.contains u = true ∨ u = t := by
  rw [← contains_methods, ← contains_methods s u]
  simp only [insert, Std.ExtHashMap.getD_insert]
  by_cases hpath : t.path = u.path
  · have hsame : u = t ↔ t.method = u.method := by
      cases t
      cases u
      simp_all [eq_comm]
    rw [hpath, hsame]
    simp [or_comm]
  · have hne : u ≠ t := by
      rintro rfl
      exact hpath rfl
    simp [hpath, hne]

/-- What is under its path already goes there once more and leaves the table as it was. -/
theorem insert_of_contains {s : TargetTable} {t : Target} (h : s.contains t = true) :
    s.insert t = (false, s) := by
  obtain ⟨methods, hunder, hmethod⟩ :
      ∃ methods, s.methods[t.path]? = some methods ∧ methods.contains t.method = true := by
    rw [contains] at h
    split at h
    · rename_i methods hunder
      exact ⟨methods, hunder, h⟩
    · simp at h
  have hmethods : methods.insert t.method = methods := by
    apply Std.ExtHashSet.ext_mem
    intro m
    rw [Std.ExtHashSet.mem_insert]
    constructor
    · rintro (hm | hm)
      · rw [← beq_iff_eq.mp hm]
        exact hmethod
      · exact hm
    · exact Or.inr
  have htable : s.methods.insert t.path methods = s.methods := by
    apply Std.ExtHashMap.ext_getElem?
    intro p
    rw [Std.ExtHashMap.getElem?_insert]
    split
    · rename_i hp
      rw [← beq_iff_eq.mp hp, hunder]
    · rfl
  simp [insert, Std.ExtHashMap.getD_eq_getD_getElem?, hunder, hmethod, hmethods, htable]

theorem insert_of_not_contains {s : TargetTable} {t : Target} (h : s.contains t = false) :
    (s.insert t).1 = true ∧ (s.insert t).2.targets = s.targets ++ [t] := by
  rw [← contains_methods] at h
  simp [insert, h]

theorem eq_of_insert_old {s : TargetTable} {t : Target} (h : (s.insert t).1 = false) :
    (s.insert t).2 = s := by
  by_cases hin : s.contains t = true
  · rw [insert_of_contains hin]
  · rw [(insert_of_not_contains (Bool.not_eq_true _ ▸ hin)).1] at h
    simp at h

theorem mirrors_empty : empty.Mirrors .empty where
  targets := rfl
  contains t := by
    rw [contains_empty]
    rfl

/-- An insertion keeps the table in step with the set. -/
theorem Mirrors.insert {table : TargetTable} {s : TargetSet} (h : table.Mirrors s) (t : Target) :
    (table.insert t).1 = (s.insert t).1 ∧ (table.insert t).2.Mirrors (s.insert t).2 := by
  by_cases ht : t ∈ s.targets
  · have hin : table.contains t = true := by
      rw [h.contains, TargetSet.contains_iff]
      exact ht
    rw [insert_of_contains hin, TargetSet.insert_of_mem ht]
    exact ⟨rfl, h⟩
  · have hout : table.contains t = false := by
      rw [h.contains, ← Bool.not_eq_true, TargetSet.contains_iff]
      exact ht
    obtain ⟨hfresh, hlisted⟩ := insert_of_not_contains hout
    refine ⟨?_, ?_, ?_⟩
    · rw [hfresh, TargetSet.insert_of_not_mem ht]
    · rw [hlisted, h.targets, TargetSet.insert_of_not_mem ht]
    · intro u
      rw [Bool.eq_iff_iff, contains_insert, TargetSet.contains_insert, h.contains]

/-- After every run of insertions the table is in step with the set. -/
theorem mirrors_ofList (ts : List Target) : (ofList ts).Mirrors (.ofList ts) := by
  induction ts using List.reverseRecOn with
  | nil => exact mirrors_empty
  | append_singleton ts t ih =>
    have hstep := (ih.insert t).2
    rw [← TargetSet.ofList_concat] at hstep
    rwa [ofList, List.foldl_append]

end TargetTable

/-! ## The law -/

/-- A set lists the targets that were inserted, each once and by its first insertion. It holds what it
lists, and an insertion adds a target that it does not hold and else changes nothing. The table of
methods by path that the same insertions make gives the same answers. A set of all methods on all
paths lists them path by path. -/
theorem a_set_lists_its_targets_by_first_insertion (ts : List Target) (s : TargetSet)
    (h : s.Built ts) :
    s.targets.Nodup ∧ s.targets.Pairwise (fun t u => ts.idxOf t < ts.idxOf u) ∧
    (∀ t, t ∈ s.targets ↔ t ∈ ts) ∧
    (∀ t, s.contains t = true ↔ t ∈ s.targets) ∧
    s.targets.length = ts.toFinset.card ∧
    (∀ t, ((s.insert t).1 = true ↔ s.contains t = false) ∧
      ((s.insert t).1 = true → (s.insert t).2.targets = s.targets ++ [t]) ∧
      ((s.insert t).1 = false → (s.insert t).2 = s)) ∧
    (TargetTable.ofList ts).Mirrors s ∧
    (∀ t, ((TargetTable.ofList ts).insert t).1 = (s.insert t).1 ∧
      (((TargetTable.ofList ts).insert t).1 = false →
        ((TargetTable.ofList ts).insert t).2 = TargetTable.ofList ts)) ∧
    ∀ paths methods : List String,
      (∀ p m, (TargetSet.cross paths methods).contains ⟨p, m⟩ = true ↔ p ∈ paths ∧ m ∈ methods) ∧
      (TargetSet.cross paths methods).targets.Pairwise (fun t u =>
        paths.idxOf t.path < paths.idxOf u.path ∨
          t.path = u.path ∧ methods.idxOf t.method < methods.idxOf u.method) := by
  obtain rfl := h.eq_ofList
  have hmirrors := TargetTable.mirrors_ofList ts
  refine ⟨TargetSet.nodup_targets_ofList ts, TargetSet.pairwise_idxOf ts,
    fun t => TargetSet.mem_targets_ofList, fun t => TargetSet.contains_iff,
    TargetSet.length_targets_ofList ts, TargetSet.insert_spec _, hmirrors, ?_, ?_⟩
  · intro t
    exact ⟨(hmirrors.insert t).1, TargetTable.eq_of_insert_old⟩
  · intro paths methods
    exact ⟨fun p m => TargetSet.contains_cross, TargetSet.pairwise_cross paths methods⟩

/-- Two targets that are both written `a.b.c`, the one read twice and the other one inserted. -/
theorem targets_written_alike_are_both_listed :
    let read : Target := ⟨"a.b", "c"⟩
    let other : Target := ⟨"a", "b.c"⟩
    read.display = other.display ∧
      ∃ s, s.Built [read, read, other] ∧ s.targets = [read, other] ∧
        (TargetTable.ofList [read, read, other]).Mirrors s := by
  intro read other
  have htexts : ["a.b.c", "a.b.c"].map Target.parse = [read, read].map .ok := by decide +kernel
  have hread : TargetSet.parseList ["a.b.c", "a.b.c"] = .ok ⟨[read]⟩ := by decide +kernel
  have hbuilt := (TargetSet.Built.parseList htexts hread).insert other
  have hlaw := a_set_lists_its_targets_by_first_insertion _ _ hbuilt
  exact ⟨by decide +kernel, _, hbuilt, by decide +kernel, hlaw.2.2.2.2.2.2.1⟩

end LogSweep
