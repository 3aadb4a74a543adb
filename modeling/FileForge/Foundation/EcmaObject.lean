import Mathlib.Algebra.Group.Nat.Defs
import Mathlib.Data.List.Induction
import Mathlib.Data.List.Sort
import Mathlib.Tactic.Common

/-!
# Objects as records of named values

A plain object that is filled with primitive values: its own properties in the order in which they
were created, each name once. A value under a name that exists overwrites in place. A new name is
created by an assignment or by a definition (`Creation`), which differ in `__proto__` alone: an
assignment to it is swallowed by the accessor of that name, and a definition makes it a property as
any other. `keys` is `Object.keys`: the array indices among the names in ascending order and then
the others as they were created.

What an object that is filled from a list of names and values looks like is said by `get_ofEntries`
and `keys_ofEntries`; `keysOf_eq_self_iff` says for which lists of names `Object.keys` gives
the list back.
-/

set_option autoImplicit false
set_option relaxedAutoImplicit false

namespace FileForge.Foundation.EcmaObject

/-! ### The order of enumeration -/

/-- The array index that a name is: it is below 2^32 - 1, and the name is how it is written. -/
def arrayIndex (name : String) : Option ℕ :=
  let index := name.toList.foldl (fun value c ↦ 10 * value + (c.toNat - '0'.toNat)) 0
  if Nat.repr index = name ∧ index < 2 ^ 32 - 1 then some index else none

/-- Where a name stands in an enumeration: names that are no index share the last place. -/
def rank (name : String) : ℕ := (arrayIndex name).getD (2 ^ 32 - 1)

def enumerated (names : List String) : List String :=
  names.insertionSort fun name other ↦ rank name ≤ rank other

instance : Std.Total fun name other : String ↦ rank name ≤ rank other :=
  ⟨fun name other ↦ Nat.le_total (rank name) (rank other)⟩

instance : IsTrans String fun name other ↦ rank name ≤ rank other :=
  ⟨fun _ _ _ hab hbc ↦ Nat.le_trans hab hbc⟩

theorem enumerated_perm (names : List String) : (enumerated names).Perm names :=
  List.perm_insertionSort _ names

theorem enumerated_pairwise (names : List String) :
    (enumerated names).Pairwise fun name other ↦ rank name ≤ rank other :=
  List.pairwise_insertionSort _ names

theorem enumerated_of_pairwise {names : List String}
    (h : names.Pairwise fun name other ↦ rank name ≤ rank other) : enumerated names = names :=
  h.insertionSort_eq

/-! ### Names as they are created -/

/-- `__proto__`, the accessor that every plain object inherits. -/
def protoName : String := "__proto__"

/-- How a value is put under a name: by `object[name] = value` or by `Object.defineProperty`. -/
inductive Creation
  | assigned
  | defined
  deriving DecidableEq

/-- What is put under the name reaches the inherited accessor, and no property is created. -/
def Swallowed (creation : Creation) (name : String) : Prop :=
  creation = .assigned ∧ name = protoName

instance (creation : Creation) (name : String) : Decidable (Swallowed creation name) :=
  inferInstanceAs (Decidable (_ ∧ _))

/-- The names of an object after a value was put under a name. -/
def addName (creation : Creation) (names : List String) (name : String) : List String :=
  if Swallowed creation name ∨ name ∈ names then names else names ++ [name]

/-- The names of an empty object that was filled under these names. -/
def created (creation : Creation) (names : List String) : List String :=
  names.foldl (addName creation) []

theorem mem_foldl_addName (creation : Creation) (name : String) (names start : List String) :
    name ∈ names.foldl (addName creation) start ↔
      name ∈ start ∨ (¬ Swallowed creation name ∧ name ∈ names) := by
  induction names generalizing start with
  | nil => simp
  | cons first rest ih =>
    rw [List.foldl_cons, ih, addName]
    by_cases hkept : Swallowed creation first ∨ first ∈ start
    · rw [if_pos hkept]
      grind
    · rw [if_neg hkept]
      grind

theorem mem_created (creation : Creation) (name : String) (names : List String) :
    name ∈ created creation names ↔ ¬ Swallowed creation name ∧ name ∈ names := by
  simp [created, mem_foldl_addName]

/-- Assumes: the names are distinct. -/
theorem created_of_nodup {creation : Creation} {names : List String} (hnodup : names.Nodup) :
    created creation names = names.filter fun name ↦ ¬ Swallowed creation name := by
  induction names using List.reverseRecOn with
  | nil => rfl
  | append_singleton names name ih =>
    obtain ⟨hfront, -, hfresh⟩ := List.nodup_append.1 hnodup
    have hrest := ih hfront
    have hnew : name ∉ names := fun h ↦ hfresh name h name (List.mem_singleton_self name) rfl
    rw [created] at hrest ⊢
    rw [List.foldl_append, hrest, List.filter_append]
    by_cases hswallowed : Swallowed creation name
    · simp [addName, hswallowed]
    · simp [addName, hswallowed, hnew]

/-! ### Objects -/

/-- The value is assigned to the name: in place if the name exists, at the end if not. -/
def put {α : Type} (name : String) (value : α) : List (String × α) → List (String × α)
  | [] => [(name, value)]
  | entry :: rest =>
    if entry.1 = name then (name, value) :: rest else entry :: put name value rest

theorem names_put {α : Type} (name : String) (value : α) (entries : List (String × α)) :
    (put name value entries).map Prod.fst =
      if name ∈ entries.map Prod.fst then entries.map Prod.fst
      else entries.map Prod.fst ++ [name] := by
  induction entries with
  | nil => simp [put]
  | cons entry rest ih =>
    by_cases heq : entry.1 = name
    · simp [put, heq]
    · rw [put, if_neg heq, List.map_cons, ih]
      have hne : ¬ name = entry.1 := fun h ↦ heq h.symm
      by_cases hmem : name ∈ rest.map Prod.fst
      · simp [hmem]
      · rw [if_neg hmem, List.map_cons, if_neg (by simpa [hne] using hmem), List.cons_append]

theorem lookup_cons_ite {α : Type} (name : String) (entry : String × α)
    (entries : List (String × α)) :
    (entry :: entries).lookup name =
      if name = entry.1 then some entry.2 else entries.lookup name := by
  rw [List.lookup_cons]
  by_cases heq : name = entry.1
  · rw [if_pos heq, beq_iff_eq.2 heq]
  · rw [if_neg heq, beq_eq_false_iff_ne.2 heq]

theorem lookup_put {α : Type} (name other : String) (value : α) (entries : List (String × α)) :
    (put name value entries).lookup other =
      if other = name then some value else entries.lookup other := by
  induction entries with
  | nil => rw [put, lookup_cons_ite]
  | cons entry rest ih =>
    by_cases heq : entry.1 = name
    · rw [put, if_pos heq, lookup_cons_ite, lookup_cons_ite, heq]
      split_ifs <;> rfl
    · rw [put, if_neg heq, lookup_cons_ite, lookup_cons_ite, ih]
      by_cases hother : other = name
      · have hne : ¬ other = entry.1 := fun h ↦ heq (h.symm.trans hother)
        simp only [if_pos hother, if_neg hne]
      · simp only [if_neg hother]

theorem nodup_names_put {α : Type} (name : String) (value : α) {entries : List (String × α)}
    (h : (entries.map Prod.fst).Nodup) : ((put name value entries).map Prod.fst).Nodup := by
  rw [names_put]
  split_ifs with hmem
  · exact h
  · exact List.nodup_append.2 ⟨h, List.nodup_singleton name, by grind⟩

theorem mem_names_put {α : Type} (name other : String) (value : α) (entries : List (String × α)) :
    other ∈ (put name value entries).map Prod.fst ↔
      other = name ∨ other ∈ entries.map Prod.fst := by
  rw [names_put]
  split_ifs with hmem
  · exact ⟨Or.inr, fun hor ↦ hor.elim (fun heq ↦ heq ▸ hmem) id⟩
  · rw [List.mem_append, List.mem_singleton, or_comm]

/-- Assumes: distinct names. An entry is found under its name. -/
theorem lookup_eq_some_iff_mem {α : Type} {entries : List (String × α)}
    (h : (entries.map Prod.fst).Nodup) (name : String) (value : α) :
    entries.lookup name = some value ↔ (name, value) ∈ entries := by
  induction entries with
  | nil => simp
  | cons entry rest ih =>
    rw [List.map_cons, List.nodup_cons] at h
    rw [lookup_cons_ite, List.mem_cons]
    split_ifs with hname
    · have hfresh : (name, value) ∉ rest := fun hmem ↦
        h.1 (List.mem_map.mpr ⟨(name, value), hmem, hname⟩)
      rw [or_iff_left hfresh, Option.some.injEq, Prod.ext_iff]
      exact ⟨fun hvalue ↦ ⟨hname, hvalue.symm⟩, fun hpair ↦ hpair.2.symm⟩
    · rw [ih h.2, or_iff_right fun heq ↦ hname (congrArg Prod.fst heq)]

/-- The own properties of an object, in the order in which they were created. -/
structure JsObject (α : Type) where
  entries : List (String × α)
  nodup : (entries.map Prod.fst).Nodup

namespace JsObject

variable {α : Type}

def names (object : JsObject α) : List String := object.entries.map Prod.fst

/-- `Object.keys`. -/
def keys (object : JsObject α) : List String := enumerated object.names

/-- The own property of a name. -/
def get (object : JsObject α) (name : String) : Option α := object.entries.lookup name

def empty : JsObject α where
  entries := []
  nodup := List.nodup_nil

/-- The value is put under the name, and it is no object. -/
def store (creation : Creation) (object : JsObject α) (name : String) (value : α) : JsObject α :=
  if Swallowed creation name ∧ name ∉ object.names then object
  else
    { entries := put name value object.entries
      nodup := nodup_names_put name value object.nodup }

/-- `object[name] = value` -/
def assign : JsObject α → String → α → JsObject α := store .assigned

/-- An empty object after one value after the other was put under its name. -/
def ofEntries (creation : Creation) (entries : List (String × α)) : JsObject α :=
  entries.foldl (fun object entry ↦ object.store creation entry.1 entry.2) empty

theorem names_store (creation : Creation) (object : JsObject α) (name : String) (value : α) :
    (object.store creation name value).names = addName creation object.names name := by
  by_cases hswallowed : Swallowed creation name ∧ name ∉ object.names
  · rw [store, if_pos hswallowed, addName, if_pos (.inl hswallowed.1)]
  · rw [store, if_neg hswallowed]
    show (put name value object.entries).map Prod.fst = _
    rw [names_put, addName]
    by_cases hname : name ∈ object.names
    · exact (if_pos hname).trans (if_pos (.inr hname)).symm
    · have hfresh : ¬ (Swallowed creation name ∨ name ∈ object.names) :=
        fun h ↦ h.elim (fun hs ↦ hswallowed ⟨hs, hname⟩) hname
      exact (if_neg hname).trans (if_neg hfresh).symm

theorem get_store {creation : Creation} (object : JsObject α) {name : String}
    (hname : ¬ Swallowed creation name) (value : α) (other : String) :
    (object.store creation name value).get other =
      if other = name then some value else object.get other := by
  rw [store, if_neg fun h ↦ hname h.1]
  exact lookup_put name other value object.entries

theorem get_store_of_ne {creation : Creation} (object : JsObject α) {name other : String}
    (value : α) (hne : other ≠ name) : (object.store creation name value).get other =
      object.get other := by
  rw [store]
  split_ifs
  · rfl
  · exact (lookup_put name other value object.entries).trans (if_neg hne)

/-- An assignment to `__proto__` leaves an object that has no such property. -/
theorem assign_proto {object : JsObject α} (hproto : protoName ∉ object.names) (value : α) :
    object.assign protoName value = object :=
  if_pos ⟨⟨rfl, rfl⟩, hproto⟩

theorem names_ofEntries (creation : Creation) (entries : List (String × α)) :
    (ofEntries creation entries).names = created creation (entries.map Prod.fst) := by
  have hrun : ∀ object : JsObject α,
      (entries.foldl (fun object entry ↦ object.store creation entry.1 entry.2) object).names =
        (entries.map Prod.fst).foldl (addName creation) object.names := by
    induction entries with
    | nil => intro object; rfl
    | cons entry rest ih =>
      intro object
      rw [List.foldl_cons, ih, List.map_cons, List.foldl_cons, names_store]
  exact hrun empty

theorem get_eq_none_iff (object : JsObject α) (name : String) :
    object.get name = none ↔ name ∉ object.names := by
  rw [get, List.lookup_eq_none_iff, names, List.mem_map]
  constructor
  · rintro hall ⟨entry, hentry, rfl⟩
    exact absurd rfl (bne_iff_ne.1 (hall entry hentry))
  · intro hnone entry hentry
    exact bne_iff_ne.2 fun h ↦ hnone ⟨entry, hentry, h.symm⟩

theorem get_of_mem_keys {object : JsObject α} {name : String} (hname : name ∈ object.keys) :
    ∃ value, object.get name = some value := by
  refine Option.ne_none_iff_exists'.1 fun hnone ↦ ?_
  exact (object.get_eq_none_iff name).1 hnone ((enumerated_perm _).mem_iff.1 hname)

/-- The last value that was put under a name is the one that stays. -/
theorem get_ofEntries {creation : Creation} (entries : List (String × α)) {name : String}
    (hname : ¬ Swallowed creation name) :
    (ofEntries creation entries).get name = entries.reverse.lookup name := by
  induction entries using List.reverseRecOn with
  | nil => rfl
  | append_singleton entries entry ih =>
    have hlast : ofEntries creation (entries ++ [entry]) =
        (ofEntries creation entries).store creation entry.1 entry.2 := by
      rw [ofEntries, List.foldl_append]
      rfl
    rw [hlast, List.reverse_append, List.reverse_singleton, List.singleton_append,
      lookup_cons_ite]
    by_cases hentry : Swallowed creation entry.1
    · have hfresh : entry.1 ∉ (ofEntries creation entries).names := by
        rw [names_ofEntries, mem_created]
        exact fun h ↦ h.1 hentry
      have hne : ¬ name = entry.1 := fun h ↦ hname (by rwa [h])
      rw [store, if_pos ⟨hentry, hfresh⟩, ih, if_neg hne]
    · rw [get_store _ hentry, ih]

/-- What was swallowed is not found again. -/
theorem get_ofEntries_of_swallowed {creation : Creation} (entries : List (String × α))
    {name : String} (hname : Swallowed creation name) :
    (ofEntries creation entries).get name = none := by
  rw [get_eq_none_iff, names_ofEntries, mem_created]
  exact fun h ↦ h.1 hname

theorem keys_nodup (object : JsObject α) : object.keys.Nodup :=
  (enumerated_perm object.names).nodup_iff.2 object.nodup

end JsObject

/-! ### Objects that are filled from a list of names -/

/-- `Object.keys` of an object that was filled under these names. -/
def keysOf (creation : Creation) (names : List String) : List String :=
  enumerated (created creation names)

theorem JsObject.keys_ofEntries {α : Type} (creation : Creation) (entries : List (String × α)) :
    (ofEntries creation entries).keys = keysOf creation (entries.map Prod.fst) := by
  rw [keys, names_ofEntries, keysOf]

theorem mem_keysOf (creation : Creation) (name : String) (names : List String) :
    name ∈ keysOf creation names ↔ ¬ Swallowed creation name ∧ name ∈ names := by
  rw [keysOf, (enumerated_perm _).mem_iff, mem_created]

theorem keysOf_nodup (creation : Creation) (names : List String) :
    (keysOf creation names).Nodup := by
  have hkeys := (JsObject.ofEntries creation (names.map fun name ↦ (name, ()))).keys_nodup
  rw [JsObject.keys_ofEntries] at hkeys
  simpa [Function.comp_def] using hkeys

/-- Distinct names in the order of an enumeration keep this order. -/
theorem keysOf_of_pairwise {creation : Creation} {names : List String} (hnodup : names.Nodup)
    (hordered : names.Pairwise fun name other ↦ rank name ≤ rank other) :
    keysOf creation names = names.filter fun name ↦ ¬ Swallowed creation name := by
  rw [keysOf, created_of_nodup hnodup, enumerated_of_pairwise (hordered.filter _)]

/-- A list of names is enumerated as it stands exactly when it repeats no name, holds none that is
swallowed and has its array indices in front and in ascending order. -/
theorem keysOf_eq_self_iff (creation : Creation) (names : List String) :
    keysOf creation names = names ↔ names.Nodup ∧ (∀ name ∈ names, ¬ Swallowed creation name) ∧
      names.Pairwise fun name other ↦ rank name ≤ rank other := by
  constructor
  · intro hself
    refine ⟨hself ▸ keysOf_nodup creation names, fun name hmem ↦ ?_,
      hself ▸ enumerated_pairwise _⟩
    exact ((mem_keysOf _ _ _).1 (hself.symm ▸ hmem)).1
  · rintro ⟨hnodup, hnone, hordered⟩
    rw [keysOf_of_pairwise hnodup hordered, List.filter_eq_self]
    exact fun name hmem ↦ decide_eq_true (hnone name hmem)

example : (JsObject.ofEntries .assigned [("city", 1), ("2024", 2), ("city", 3), ("7", 4)]).entries =
    [("city", 3), ("2024", 2), ("7", 4)] := by decide

example : keysOf .assigned ["city", "2024", "city", "007", "7"] =
    ["7", "2024", "city", "007"] := by decide

example : keysOf .defined ["__proto__", "1"] = ["1", "__proto__"] := by decide

end FileForge.Foundation.EcmaObject
