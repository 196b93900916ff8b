-- What is read as settings. A table gives settings when no field of theirs is written twice and each
-- one has the form that it calls for. Other fields do not count, and a null is as good as no field.
import Mathlib.Data.List.Forall2
import LogSweep.Settings

namespace LogSweep

open Data (Value)

namespace Settings

/-! ## One field -/

/-- What a field says: nothing, where it is missing or null, else the value that `write` writes. -/
inductive Says {α : Type} (write : α → Value) : Option Value → Option α → Prop
  | missing : Says write none none
  | null : Says write (some .null) none
  | given (a : α) : Says write (some (write a)) (some a)

/-- A list of texts. -/
def ofTexts (texts : List String) : Value := .list (texts.map .text)

theorem text?_eq_some_iff {v : Value} {s : String} : v.text? = some s ↔ v = .text s := by
  cases v <;> simp [Value.text?]

theorem bool?_eq_some_iff {v : Value} {b : Bool} : v.bool? = some b ↔ v = .bool b := by
  cases v <;> simp [Value.bool?]

theorem mapM_eq_some_iff {α β : Type} {f : α → Option β} {xs : List α} {ys : List β} :
    xs.mapM f = some ys ↔ List.Forall₂ (fun x y => f x = some y) xs ys := by
  induction xs generalizing ys with
  | nil => simp [eq_comm]
  | cons x xs ih =>
    simp only [List.mapM_cons, Option.bind_eq_bind, Option.bind_eq_some_iff, Option.pure_def,
      Option.some.injEq, List.forall₂_cons_left_iff]
    constructor
    · rintro ⟨y, hy, ys, hys, rfl⟩
      exact ⟨y, ys, hy, ih.mp hys, rfl⟩
    · rintro ⟨y, ys, hy, hys, rfl⟩
      exact ⟨y, hy, ys, ih.mpr hys, rfl⟩

theorem texts?_eq_some_iff {v : Value} {texts : List String} :
    v.texts? = some texts ↔ v = ofTexts texts := by
  cases v with
  | list items =>
    simp only [Value.texts?, mapM_eq_some_iff, text?_eq_some_iff, ofTexts, Value.list.injEq]
    rw [← List.forall₂_map_right_iff (f := Value.text), List.forall₂_eq_eq_eq]
  | _ => simp [Value.texts?, ofTexts]

theorem optionally_eq_some_iff {α : Type} {read : Value → Option α} {write : α → Value}
    (hread : ∀ v a, read v = some a ↔ v = write a) (hnull : ∀ a, write a ≠ .null)
    {field : Option Value} {x : Option α} :
    optionally read field = some x ↔ Says write field x := by
  constructor
  · intro h
    unfold optionally at h
    split at h
    · obtain rfl := Option.some.inj h
      exact .missing
    · obtain rfl := Option.some.inj h
      exact .null
    · obtain ⟨a, ha, rfl⟩ := Option.map_eq_some_iff.mp h
      obtain rfl := (hread _ a).mp ha
      exact .given a
  · intro h
    cases h with
    | missing => rfl
    | null => rfl
    | given a =>
      have ha := (hread _ a).mpr rfl
      unfold optionally
      split
      · rename_i heq
        exact absurd heq (by simp)
      · rename_i heq
        exact absurd (Option.some.inj heq) (hnull a)
      · rename_i v _ heq
        obtain rfl := Option.some.inj heq
        rw [ha, Option.map_some]

theorem optionally_texts_iff {field : Option Value} {x : Option (List String)} :
    optionally Value.texts? field = some x ↔ Says ofTexts field x :=
  optionally_eq_some_iff (fun _ _ => texts?_eq_some_iff) (by simp [ofTexts])

theorem optionally_text_iff {field : Option Value} {x : Option String} :
    optionally Value.text? field = some x ↔ Says .text field x :=
  optionally_eq_some_iff (fun _ _ => text?_eq_some_iff) (by simp)

theorem optionally_bool_iff {field : Option Value} {x : Option Bool} :
    optionally Value.bool? field = some x ↔ Says .bool field x :=
  optionally_eq_some_iff (fun _ _ => bool?_eq_some_iff) (by simp)

/-! ## All fields -/

/-- What eight fields say, in the order of the structure. -/
structure Told (paths methods targets strategy semicolon excluded included extensions : Option Value)
    (s : Settings) : Prop where
  paths : Says ofTexts paths s.paths
  methods : Says ofTexts methods s.methods
  targets : Says ofTexts targets s.targets
  strategy : Says .text strategy s.strategy
  semicolon : Says .bool semicolon s.removeSemicolon
  excluded : Says ofTexts excluded s.excluded
  included : Says ofTexts included s.included
  extensions : Says ofTexts extensions s.extensions

/-- The same of a list of fields, of which there have to be eight. -/
def ToldBy (s : Settings) : List (Option Value) → Prop
  | [paths, methods, targets, strategy, semicolon, excluded, included, extensions] =>
    Told paths methods targets strategy semicolon excluded included extensions s
  | _ => False

theorem ofFields?_eq_some_iff {fields : List (Option Value)} {s : Settings} :
    ofFields? fields = some s ↔ s.ToldBy fields := by
  unfold ofFields? ToldBy
  split
  · simp only [Option.bind_eq_bind, Option.bind_eq_some_iff, Option.pure_def, Option.some.injEq,
      optionally_texts_iff, optionally_text_iff, optionally_bool_iff]
    constructor
    · rintro ⟨_, h1, _, h2, _, h3, _, h4, _, h5, _, h6, _, h7, _, h8, rfl⟩
      exact ⟨h1, h2, h3, h4, h5, h6, h7, h8⟩
    · rintro ⟨h1, h2, h3, h4, h5, h6, h7, h8⟩
      exact ⟨_, h1, _, h2, _, h3, _, h4, _, h5, _, h6, _, h7, _, h8, rfl⟩
  · simp

/-! ## Tables -/

/-- The values that stand under some keys. -/
def under (fields : List (String × Value)) (keys : List String) : List Value :=
  (fields.filter (fun f => keys.contains f.1)).map Prod.snd

theorem only?_eq_some_iff {fields : List (String × Value)} {keys : List String}
    {value : Option Value} : only? fields keys = some value ↔ under fields keys = value.toList := by
  unfold only? under
  generalize fields.filter (fun f => keys.contains f.1) = found
  rcases found with _ | ⟨f, _ | ⟨g, found⟩⟩
  · cases value <;> simp
  · cases value <;> simp
  · cases value <;> simp

/-- What a value says as a whole: a table with at most one value under the keys of each field, or a
list of all fields. -/
inductive Recorded (s : Settings) : Value → Prop
  | table {fields : List (String × Value)} {values : List (Option Value)}
      (h : List.Forall₂ (fun ks value => under fields ks = value.toList) keys values)
      (htold : s.ToldBy values) : Recorded s (.table fields)
  | list {items : List Value} (htold : s.ToldBy (items.map some)) : Recorded s (.list items)

theorem ofValue?_eq_some_iff {v : Value} {s : Settings} : ofValue? v = some s ↔ s.Recorded v := by
  constructor
  · intro h
    unfold ofValue? at h
    split at h
    · obtain ⟨values, hvalues, htold⟩ := Option.bind_eq_some_iff.mp h
      simp only [mapM_eq_some_iff, only?_eq_some_iff] at hvalues
      exact .table hvalues (ofFields?_eq_some_iff.mp htold)
    · exact .list (ofFields?_eq_some_iff.mp h)
    · exact absurd h (by simp)
  · intro h
    cases h with
    | @table fields values h htold =>
      have hvalues : keys.mapM (only? fields) = some values := by
        simpa only [mapM_eq_some_iff, only?_eq_some_iff] using h
      exact Option.bind_eq_some_iff.mpr ⟨values, hvalues, ofFields?_eq_some_iff.mpr htold⟩
    | list htold => exact ofFields?_eq_some_iff.mpr htold

/-! ## Whole texts -/

/-- What a settings file says: nothing without its table, and else what the table records. A list in
place of the table may go on past the last field. -/
inductive SaidByFile : Settings → Value → Prop
  | absent {fields : List (String × Value)} (h : under fields [tableName] = []) :
      SaidByFile unset (.table fields)
  | table {fields inner : List (String × Value)} {s : Settings}
      (h : under fields [tableName] = [.table inner]) (hs : s.Recorded (.table inner)) :
      SaidByFile s (.table fields)
  | list {fields : List (String × Value)} {items : List Value} {s : Settings}
      (h : under fields [tableName] = [.list items])
      (hs : s.Recorded (.list (items.take keys.length))) : SaidByFile s (.table fields)

/-- What a manifest says, which has to have the table. -/
inductive SaidByManifest (s : Settings) : Value → Prop
  | table {fields : List (String × Value)} {v : Value} (h : under fields [tableName] = [v])
      (hs : s.Recorded v) : SaidByManifest s (.table fields)
  | list {v : Value} (hs : s.Recorded v) : SaidByManifest s (.list [v])

/-- A settings file is accepted exactly when its text is a document that says settings. -/
theorem ofSettingsFile?_eq_some_iff {text : String} {s : Settings} :
    ofSettingsFile? text = some s ↔ ∃ v, Data.Toml.parse? text = some v ∧ SaidByFile s v := by
  unfold ofSettingsFile?
  constructor
  · intro h
    split at h
    · rename_i fields hparse
      obtain ⟨value, honly, h⟩ := Option.bind_eq_some_iff.mp h
      rw [only?_eq_some_iff] at honly
      refine ⟨_, hparse, ?_⟩
      split at h
      · refine .list honly (.list ?_)
        exact ofFields?_eq_some_iff.mp h
      · rename_i v hlist
        rw [ofValue?_eq_some_iff] at h
        cases h with
        | table hvalues htold => exact .table honly (.table hvalues htold)
        | list => exact absurd rfl (hlist _)
      · obtain rfl := Option.some.inj h
        exact .absent honly
    · exact absurd h (by simp)
  · rintro ⟨v, hparse, h⟩
    rw [hparse]
    cases h with
    | @absent fields h =>
      have honly : only? fields [tableName] = some none := only?_eq_some_iff.mpr h
      exact Option.bind_eq_some_iff.mpr ⟨none, honly, rfl⟩
    | @table fields inner _ h hs =>
      have honly : only? fields [tableName] = some (some (.table inner)) :=
        only?_eq_some_iff.mpr h
      exact Option.bind_eq_some_iff.mpr ⟨_, honly, ofValue?_eq_some_iff.mpr hs⟩
    | @list fields items _ h hs =>
      have honly : only? fields [tableName] = some (some (.list items)) := only?_eq_some_iff.mpr h
      exact Option.bind_eq_some_iff.mpr ⟨_, honly, ofValue?_eq_some_iff.mpr hs⟩

/-- A manifest is accepted exactly when its text is a value that says settings. -/
theorem ofManifest?_eq_some_iff {text : String} {s : Settings} :
    ofManifest? text = some s ↔ ∃ v, Data.Json.parse? text = some v ∧ SaidByManifest s v := by
  unfold ofManifest?
  constructor
  · intro h
    split at h
    · rename_i fields hparse
      obtain ⟨value, honly, h⟩ := Option.bind_eq_some_iff.mp h
      obtain ⟨v, rfl, h⟩ := Option.bind_eq_some_iff.mp h
      exact ⟨_, hparse, .table (only?_eq_some_iff.mp honly) (ofValue?_eq_some_iff.mp h)⟩
    · rename_i v hparse
      exact ⟨_, hparse, .list (ofValue?_eq_some_iff.mp h)⟩
    · exact absurd h (by simp)
  · rintro ⟨v, hparse, h⟩
    rw [hparse]
    cases h with
    | @table fields v h hs =>
      have honly : only? fields [tableName] = some (some v) := only?_eq_some_iff.mpr h
      exact Option.bind_eq_some_iff.mpr
        ⟨_, honly, Option.bind_eq_some_iff.mpr ⟨v, rfl, ofValue?_eq_some_iff.mpr hs⟩⟩
    | list hs => exact ofValue?_eq_some_iff.mpr hs

end Settings

end LogSweep
