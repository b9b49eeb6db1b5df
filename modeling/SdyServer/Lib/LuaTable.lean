import Mathlib.Data.List.Nodup
import Mathlib.Algebra.BigOperators.Group.List.Basic
import Mathlib.Tactic.Abel

/-!
# Finite tables with an enumeration order

A dynamic-language table is a finite map that a loop can enumerate, in an order the language leaves
open. Here it is a list of entries with distinct keys: the list is the enumeration order, so a fact
proved for every table is a fact about every order. Writing to a present key keeps its place, and
writing to a new key puts it last.
-/

/-- A finite map from `κ` to `α` together with the order in which a loop visits its entries. -/
structure LuaTable (κ α : Type*) where
  entries : List (κ × α)
  nodupKeys : (entries.map Prod.fst).Nodup

namespace LuaTable

variable {κ α β M : Type*}

def empty : LuaTable κ α := ⟨[], List.nodup_nil⟩

instance : EmptyCollection (LuaTable κ α) := ⟨empty⟩

instance : Inhabited (LuaTable κ α) := ⟨empty⟩

def keys (t : LuaTable κ α) : List κ := t.entries.map Prod.fst

def size (t : LuaTable κ α) : Nat := t.entries.length

@[simp]
theorem entries_empty : (∅ : LuaTable κ α).entries = [] := rfl

@[simp]
theorem keys_empty : (∅ : LuaTable κ α).keys = [] := rfl

@[simp]
theorem size_empty : (∅ : LuaTable κ α).size = 0 := rfl

theorem length_keys (t : LuaTable κ α) : t.keys.length = t.size := List.length_map ..

theorem nodup_keys (t : LuaTable κ α) : t.keys.Nodup := t.nodupKeys

/-- Entries whose keys have different images have different images. -/
theorem nodup_map_key (t : LuaTable κ α) {f : κ → β}
    (hinj : ∀ key ∈ t.keys, ∀ key' ∈ t.keys, f key = f key' → key = key') :
    (t.entries.map fun entry => f entry.1).Nodup := by
  have hnodup : (t.keys.map f).Nodup := t.nodup_keys.map_on hinj
  rwa [keys, List.map_map] at hnodup

theorem size_le_of_keys_subset {t : LuaTable κ α} {t' : LuaTable κ β} (hsub : t.keys ⊆ t'.keys) :
    t.size ≤ t'.size := by
  rw [← length_keys, ← length_keys]
  exact (List.subperm_of_subset t.nodup_keys hsub).length_le

/-- A loop that rewrites every value in place. -/
def mapValues (f : α → β) (t : LuaTable κ α) : LuaTable κ β :=
  ⟨t.entries.map fun entry => (entry.1, f entry.2), by
    simpa [Function.comp_def] using t.nodupKeys⟩

variable [DecidableEq κ]

/-- Lookup in a raw entry list: the first entry under the key. -/
def getEntry (key : κ) : List (κ × α) → Option α
  | [] => none
  | (k, v) :: rest => if k = key then some v else getEntry key rest

/-- Write in a raw entry list: in place when the key is present, at the end when it is not. -/
def setEntry (key : κ) (value : α) : List (κ × α) → List (κ × α)
  | [] => [(key, value)]
  | (k, v) :: rest => if k = key then (key, value) :: rest else (k, v) :: setEntry key value rest

theorem map_fst_setEntry (key : κ) (value : α) (l : List (κ × α)) :
    (setEntry key value l).map Prod.fst =
      if key ∈ l.map Prod.fst then l.map Prod.fst else l.map Prod.fst ++ [key] := by
  induction l with
  | nil => simp [setEntry]
  | cons entry rest ih =>
      obtain ⟨k, v⟩ := entry
      by_cases hk : k = key
      · simp [setEntry, hk]
      · have hk' : ¬ key = k := fun h => hk h.symm
        simp only [setEntry, if_neg hk, List.map_cons, ih, List.mem_cons, hk', false_or]
        split_ifs <;> simp

theorem setEntry_of_notMem {key : κ} (value : α) {l : List (κ × α)} (hkey : key ∉ l.map Prod.fst) :
    setEntry key value l = l ++ [(key, value)] := by
  induction l with
  | nil => rfl
  | cons entry rest ih =>
      obtain ⟨k, v⟩ := entry
      rw [List.map_cons, List.mem_cons, not_or] at hkey
      have hk : ¬ k = key := fun h => hkey.1 h.symm
      simp [setEntry, hk, ih hkey.2]

theorem nodup_setEntry (key : κ) (value : α) {l : List (κ × α)} (hl : (l.map Prod.fst).Nodup) :
    ((setEntry key value l).map Prod.fst).Nodup := by
  rw [map_fst_setEntry]
  split_ifs with hmem
  · exact hl
  · exact List.Nodup.append hl (List.nodup_singleton key)
      (List.disjoint_singleton.mpr hmem)

theorem setEntry_setEntry (key : κ) (value value' : α) (l : List (κ × α)) :
    setEntry key value' (setEntry key value l) = setEntry key value' l := by
  induction l with
  | nil => simp [setEntry]
  | cons entry rest ih =>
      obtain ⟨k, v⟩ := entry
      by_cases hk : k = key
      · simp [setEntry, hk]
      · simp [setEntry, hk, ih]

theorem getEntry_setEntry (key key' : κ) (value : α) (l : List (κ × α)) :
    getEntry key' (setEntry key value l) = if key = key' then some value else getEntry key' l := by
  induction l with
  | nil => simp [setEntry, getEntry]
  | cons entry rest ih =>
      obtain ⟨k, v⟩ := entry
      by_cases hk : k = key
      · subst hk
        by_cases hkey : k = key' <;> simp [setEntry, getEntry, hkey]
      · by_cases hkey : k = key'
        · subst hkey
          simp [setEntry, getEntry, hk, Ne.symm hk]
        · simp [setEntry, getEntry, hk, hkey, ih]

theorem getEntry_eq_some_iff {key : κ} {value : α} {l : List (κ × α)}
    (hl : (l.map Prod.fst).Nodup) : getEntry key l = some value ↔ (key, value) ∈ l := by
  induction l with
  | nil => simp [getEntry]
  | cons entry rest ih =>
      obtain ⟨k, v⟩ := entry
      rw [List.map_cons, List.nodup_cons] at hl
      by_cases hk : k = key
      · subst hk
        have hnot : (k, value) ∉ rest := fun h => hl.1 (List.mem_map.mpr ⟨_, h, rfl⟩)
        simp [getEntry, hnot, eq_comm]
      · have hk' : ¬ key = k := fun h => hk h.symm
        simp [getEntry, hk, hk', ih hl.2]

theorem getEntry_eq_none_iff {key : κ} {l : List (κ × α)} :
    getEntry key l = none ↔ key ∉ l.map Prod.fst := by
  induction l with
  | nil => simp [getEntry]
  | cons entry rest ih =>
      obtain ⟨k, v⟩ := entry
      by_cases hk : k = key
      · simp [getEntry, hk]
      · have hk' : ¬ key = k := fun h => hk h.symm
        simp only [getEntry, if_neg hk, ih, List.map_cons, List.mem_cons, hk', false_or]

/-- `t[key]`, `none` standing for the language's nil. -/
def get (t : LuaTable κ α) (key : κ) : Option α := getEntry key t.entries

/-- `t[key] = value`. -/
def set (t : LuaTable κ α) (key : κ) (value : α) : LuaTable κ α :=
  ⟨setEntry key value t.entries, nodup_setEntry key value t.nodupKeys⟩

/-- `t[key] = nil`. -/
def erase (t : LuaTable κ α) (key : κ) : LuaTable κ α :=
  ⟨t.entries.filter fun entry => entry.1 ≠ key,
    t.nodupKeys.sublist (List.Sublist.map _ List.filter_sublist)⟩

@[simp]
theorem get_empty (key : κ) : (∅ : LuaTable κ α).get key = none := rfl

theorem get_set (t : LuaTable κ α) (key key' : κ) (value : α) :
    (t.set key value).get key' = if key = key' then some value else t.get key' :=
  getEntry_setEntry key key' value t.entries

theorem set_set (t : LuaTable κ α) (key : κ) (value value' : α) :
    (t.set key value).set key value' = t.set key value' := by
  simp only [set, setEntry_setEntry]

@[simp]
theorem get_set_self (t : LuaTable κ α) (key : κ) (value : α) :
    (t.set key value).get key = some value := by
  simp [get_set]

theorem get_set_of_ne (t : LuaTable κ α) {key key' : κ} (value : α) (hne : key ≠ key') :
    (t.set key value).get key' = t.get key' := by
  simp [get_set, hne]

theorem getEntry_filter_ne (key key' : κ) (l : List (κ × α)) :
    getEntry key' (l.filter fun entry => entry.1 ≠ key) =
      if key = key' then none else getEntry key' l := by
  induction l with
  | nil => simp [getEntry]
  | cons entry rest ih =>
      obtain ⟨k, v⟩ := entry
      by_cases hk : k = key
      · subst hk
        rw [List.filter_cons_of_neg (by simp), ih]
        by_cases hkey : k = key' <;> simp [getEntry, hkey]
      · rw [List.filter_cons_of_pos (by simpa using hk)]
        by_cases hkey : k = key'
        · subst hkey
          simp [getEntry, Ne.symm hk]
        · simp only [getEntry, if_neg hkey, ih]

theorem get_erase (t : LuaTable κ α) (key key' : κ) :
    (t.erase key).get key' = if key = key' then none else t.get key' :=
  getEntry_filter_ne key key' t.entries

theorem get_eq_some_iff (t : LuaTable κ α) {key : κ} {value : α} :
    t.get key = some value ↔ (key, value) ∈ t.entries :=
  getEntry_eq_some_iff t.nodupKeys

theorem get_eq_none_iff (t : LuaTable κ α) {key : κ} : t.get key = none ↔ key ∉ t.keys :=
  getEntry_eq_none_iff

theorem mem_keys_iff (t : LuaTable κ α) {key : κ} :
    key ∈ t.keys ↔ ∃ value, t.get key = some value := by
  rw [← Option.ne_none_iff_exists', ne_eq, get_eq_none_iff, not_not]

theorem entries_set_of_notMem (t : LuaTable κ α) {key : κ} (value : α) (hkey : key ∉ t.keys) :
    (t.set key value).entries = t.entries ++ [(key, value)] :=
  setEntry_of_notMem value hkey

theorem keys_set (t : LuaTable κ α) (key : κ) (value : α) :
    (t.set key value).keys = if key ∈ t.keys then t.keys else t.keys ++ [key] :=
  map_fst_setEntry key value t.entries

theorem mem_keys_set (t : LuaTable κ α) (key key' : κ) (value : α) :
    key' ∈ (t.set key value).keys ↔ key' = key ∨ key' ∈ t.keys := by
  rw [keys_set]
  split_ifs with hmem
  · constructor
    · exact Or.inr
    · rintro (rfl | h)
      · exact hmem
      · exact h
  · simp [or_comm]

/-- The table with an entry for each of the listed keys. -/
def ofKeys (keys : List κ) (f : κ → α) : LuaTable κ α :=
  keys.foldl (fun t key => t.set key (f key)) ∅

theorem mem_keys_foldl_set (f : κ → α) (keys : List κ) (t : LuaTable κ α) (key : κ) :
    key ∈ (keys.foldl (fun t key => t.set key (f key)) t).keys ↔ key ∈ keys ∨ key ∈ t.keys := by
  induction keys generalizing t with
  | nil => simp
  | cons head rest ih =>
      rw [List.foldl_cons, ih, mem_keys_set, List.mem_cons]
      tauto

@[simp]
theorem mem_keys_ofKeys (keys : List κ) (f : κ → α) (key : κ) :
    key ∈ (ofKeys keys f).keys ↔ key ∈ keys := by
  simp [ofKeys, mem_keys_foldl_set]

theorem get_foldl_set (f : κ → α) (keys : List κ) (t : LuaTable κ α) (key : κ) :
    (keys.foldl (fun t key => t.set key (f key)) t).get key =
      if key ∈ keys then some (f key) else t.get key := by
  induction keys generalizing t with
  | nil => simp
  | cons head rest ih =>
      rw [List.foldl_cons, ih, get_set]
      by_cases hrest : key ∈ rest
      · simp [hrest]
      · by_cases hhead : head = key
        · simp [hhead]
        · simp [hrest, hhead, Ne.symm hhead]

theorem get_ofKeys (keys : List κ) (f : κ → α) (key : κ) :
    (ofKeys keys f).get key = if key ∈ keys then some (f key) else none :=
  get_foldl_set ..

theorem getEntry_map (f : α → β) (key : κ) (l : List (κ × α)) :
    getEntry key (l.map fun entry => (entry.1, f entry.2)) = (getEntry key l).map f := by
  induction l with
  | nil => rfl
  | cons entry rest ih =>
      obtain ⟨k, v⟩ := entry
      by_cases hk : k = key
      · simp [getEntry, hk]
      · simpa [getEntry, hk] using ih

/-- A loop that rewrites the values by key. -/
theorem getEntry_map_key (f : κ → α → β) (key : κ) (l : List (κ × α)) :
    getEntry key (l.map fun entry => (entry.1, f entry.1 entry.2)) = (getEntry key l).map
    (f key) := by
  induction l with
  | nil => rfl
  | cons entry rest ih =>
      obtain ⟨k, v⟩ := entry
      by_cases hk : k = key
      · subst hk
        simp [getEntry]
      · simpa [getEntry, hk] using ih

theorem getEntry_concat {key : κ} {value : α} {l : List (κ × α)} (hkey : key ∉ l.map Prod.fst)
    (key' : κ) :
    getEntry key' (l ++ [(key, value)]) = if key = key' then some value else getEntry key' l := by
  rw [← setEntry_of_notMem value hkey, getEntry_setEntry]

/-- Of what a loop gives, one entry gave what is under its key. -/
theorem filter_filterMap_entries {f : κ × α → Option β} {g : β → κ}
    (hf : ∀ entry b, f entry = some b → g b = entry.1)
    (t : LuaTable κ α) (key : κ) :
    (t.entries.filterMap f).filter (fun b => g b = key) =
    ((t.get key).bind fun v => f (key, v)).toList := by
  have hnodup := t.nodupKeys
  unfold get
  revert hnodup
  induction t.entries with
  | nil => exact fun _ => rfl
  | cons entry rest ih =>
      intro hnodup
      obtain ⟨k, v⟩ := entry
      rw [List.map_cons, List.nodup_cons] at hnodup
      have hrest := ih hnodup.2
      by_cases hk : k = key
      · subst hk
        have hnone : getEntry k rest = none := getEntry_eq_none_iff.mpr hnodup.1
        rw [hnone] at hrest
        cases hfv : f (k, v) with
        | none => simpa [hfv, getEntry] using hrest
        | some b => simpa [hfv, getEntry, hf _ _ hfv] using hrest
      · cases hfv : f (k, v) with
        | none => simpa [hfv, getEntry, hk] using hrest
        | some b => simpa [hfv, getEntry, hf _ _ hfv, hk] using hrest

@[simp]
theorem get_mapValues (f : α → β) (t : LuaTable κ α) (key : κ) :
    (t.mapValues f).get key = (t.get key).map f :=
  getEntry_map f key t.entries

section Sums

/-- Writing a key replaces its summand. -/
theorem sum_setEntry [AddCommGroup M] (f : κ × α → M) (key : κ) (value : α) (l : List (κ × α)) :
    ((setEntry key value l).map f).sum =
      (l.map f).sum - ((getEntry key l).map fun v => f (key, v)).getD 0 + f (key, value) := by
  induction l with
  | nil => simp [setEntry, getEntry]
  | cons entry rest ih =>
      obtain ⟨k, v⟩ := entry
      by_cases hk : k = key
      · subst hk
        simp [setEntry, getEntry, add_comm]
      · simp only [setEntry, getEntry, if_neg hk, List.map_cons, List.sum_cons, ih]
        abel

theorem sum_entries_set [AddCommGroup M] (f : κ × α → M) (t : LuaTable κ α) (key : κ) (value : α) :
    ((t.set key value).entries.map f).sum =
      (t.entries.map f).sum - ((t.get key).map fun v => f (key, v)).getD 0 + f (key, value) :=
  sum_setEntry f key value t.entries

/-- A value that is written over its old one, or over a default that counts for nothing, adds what
it changes. -/
theorem sum_entries_update [AddCommGroup M] (f : κ × α → M) (t : LuaTable κ α) (key : κ)
    (default : α) (update : α → α) (change : M) (hdefault : f (key, default) = 0)
    (hupdate : ∀ value, f (key, update value) = f (key, value) + change) :
    ((t.set key (update ((t.get key).getD default))).entries.map f).sum =
      (t.entries.map f).sum + change := by
  rw [sum_entries_set, hupdate]
  cases t.get key with
  | none => simp [hdefault]
  | some value =>
      simp only [Option.map_some, Option.getD_some]
      abel

/-- Removing a key removes its summand. -/
theorem sum_entries_erase [AddCommGroup M] (f : κ × α → M) (t : LuaTable κ α) (key : κ) :
    ((t.erase key).entries.map f).sum =
      (t.entries.map f).sum - ((t.get key).map fun v => f (key, v)).getD 0 := by
  have hnodup := t.nodupKeys
  unfold get erase
  dsimp only
  revert hnodup
  induction t.entries with
  | nil => simp [getEntry]
  | cons entry rest ih =>
      intro hnodup
      obtain ⟨k, v⟩ := entry
      rw [List.map_cons, List.nodup_cons] at hnodup
      have hrest := ih hnodup.2
      by_cases hk : k = key
      · subst hk
        have hnone : getEntry k rest = none := getEntry_eq_none_iff.mpr hnodup.1
        rw [List.filter_cons_of_neg (by simp), hrest, hnone]
        simp [getEntry]
      · rw [List.filter_cons_of_pos (by simpa using hk), List.map_cons, List.sum_cons, hrest,
          List.map_cons, List.sum_cons, getEntry, if_neg hk]
        abel

/-- The summands of one key are those of its entry. -/
theorem sum_entries_key [AddCommMonoid M] (f : κ × α → M) (t : LuaTable κ α) (key : κ) :
    (t.entries.map fun entry => if entry.1 = key then f entry else 0).sum =
      ((t.get key).map fun v => f (key, v)).getD 0 := by
  have hnodup := t.nodupKeys
  unfold get
  revert hnodup
  induction t.entries with
  | nil => intro _; rfl
  | cons entry rest ih =>
      intro hnodup
      obtain ⟨k, v⟩ := entry
      rw [List.map_cons, List.nodup_cons] at hnodup
      rw [List.map_cons, List.sum_cons, ih hnodup.2]
      by_cases hk : k = key
      · subst hk
        have hnone : getEntry k rest = none := getEntry_eq_none_iff.mpr hnodup.1
        simp [getEntry, hnone]
      · simp [getEntry, hk]

omit [DecidableEq κ] in
theorem size_eq_sum (t : LuaTable κ α) :
    (t.size : Int) = (t.entries.map fun _ => (1 : Int)).sum := by
  simp [size]

theorem size_set (t : LuaTable κ α) (key : κ) (value : α) :
    ((t.set key value).size : Int) = t.size + if (t.get key).isSome then 0 else 1 := by
  rw [size_eq_sum, size_eq_sum, sum_entries_set]
  cases t.get key <;> simp

theorem size_erase (t : LuaTable κ α) (key : κ) :
    ((t.erase key).size : Int) = t.size - if (t.get key).isSome then 1 else 0 := by
  rw [size_eq_sum, size_eq_sum, sum_entries_erase]
  cases t.get key <;> simp

end Sums

end LuaTable
