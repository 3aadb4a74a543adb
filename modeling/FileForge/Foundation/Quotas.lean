import Mathlib.Data.List.Count
import Mathlib.Data.List.Induction
import Mathlib.Data.Nat.Notation
import Mathlib.Logic.Function.Basic
import Mathlib.Tactic.Common

/-!
# A quota for each name

Requests that each carry a name, and a quota that every name has to itself: a request is admitted
when fewer requests than the quota have carried its name (`admits`).

What a party gets that chooses the names of its own requests: no more than one quota exactly when
there is no more than one quota of requests, or they all carry one name
(`count_admits_le_iff`). The sequences of that kind are admitted alike, whatever the names
(`admits_of_confined`).
-/

set_option autoImplicit false
set_option relaxedAutoImplicit false

namespace FileForge.Foundation.Quotas

variable {Name : Type*} [DecidableEq Name]

/-- One more request under a name. -/
def bump (counts : Name → ℕ) (name : Name) : Name → ℕ :=
  Function.update counts name (counts name + 1)

@[simp] theorem bump_self (counts : Name → ℕ) (name : Name) :
    bump counts name name = counts name + 1 := Function.update_self _ _ _

theorem bump_of_ne (counts : Name → ℕ) {name other : Name} (h : other ≠ name) :
    bump counts name other = counts other := Function.update_of_ne h _ _

/-- Which requests are admitted, from given counts on. -/
def admits (quota : ℕ) : (Name → ℕ) → List Name → List Bool
  | _, [] => []
  | counts, name :: rest =>
    decide (counts name < quota) :: admits quota (bump counts name) rest

/-- The requests are no more than the quota, or all carry one name. -/
def Confined (quota : ℕ) (names : List Name) : Prop :=
  names.length ≤ quota ∨ ∀ first ∈ names, ∀ second ∈ names, first = second

instance (quota : ℕ) (names : List Name) : Decidable (Confined quota names) :=
  inferInstanceAs (Decidable (_ ∨ _))

/-! ### One request after another -/

/-- The counts after some requests. -/
def countsAfter (counts : Name → ℕ) (names : List Name) : Name → ℕ := names.foldl bump counts

theorem countsAfter_eq (counts : Name → ℕ) (names : List Name) (name : Name) :
    countsAfter counts names name = counts name + names.count name := by
  induction names generalizing counts with
  | nil => rfl
  | cons first rest ih =>
    show countsAfter (bump counts first) rest name = _
    rw [ih, List.count_cons]
    by_cases hname : first = name
    · subst hname
      simp only [bump_self, beq_self_eq_true, if_true]
      omega
    · rw [bump_of_ne counts (Ne.symm hname), beq_eq_false_iff_ne.mpr hname]
      simp

theorem admits_append (quota : ℕ) (counts : Name → ℕ) (first second : List Name) :
    admits quota counts (first ++ second) =
      admits quota counts first ++ admits quota (countsAfter counts first) second := by
  induction first generalizing counts with
  | nil => rfl
  | cons name rest ih => exact congrArg (_ :: ·) (ih (bump counts name))

/-- Requests under names with room for all of them are admitted. -/
theorem admits_eq_replicate_true {quota : ℕ} {counts : Name → ℕ} {names : List Name}
    (h : ∀ name ∈ names, counts name + names.length ≤ quota) :
    admits quota counts names = List.replicate names.length true := by
  induction names generalizing counts with
  | nil => rfl
  | cons name rest ih =>
    have hroom := h name List.mem_cons_self
    rw [List.length_cons] at hroom
    have hrest : ∀ other ∈ rest, bump counts name other + rest.length ≤ quota := by
      intro other hother
      have hother' := h other (List.mem_cons_of_mem name hother)
      rw [List.length_cons] at hother'
      by_cases hsame : other = name
      · subst hsame
        rw [bump_self]
        omega
      · rw [bump_of_ne counts hsame]
        omega
    rw [admits, ih hrest, decide_eq_true (by omega)]
    rfl

/-- Requests under one name are admitted up to its quota. -/
theorem admits_of_forall_eq {quota : ℕ} {counts : Name → ℕ} {names : List Name} {name : Name}
    (h : ∀ other ∈ names, other = name) :
    admits quota counts names =
      (List.range' (counts name) names.length).map fun count ↦ decide (count < quota) := by
  induction names generalizing counts with
  | nil => rfl
  | cons first rest ih =>
    obtain rfl := h first List.mem_cons_self
    rw [admits, ih fun other hother ↦ h other (List.mem_cons_of_mem first hother), bump_self]
    rfl

/-- Assumes: no request has been made under another name than one, and some quota. When nothing
more is admitted, every request carries that name. -/
theorem eq_of_refused {quota : ℕ} (hquota : 0 < quota) {counts : Name → ℕ} {names : List Name}
    {name : Name} (hothers : ∀ other, other ≠ name → counts other = 0)
    (hrefused : true ∉ admits quota counts names) : ∀ other ∈ names, other = name := by
  induction names generalizing counts with
  | nil => exact fun other hother ↦ absurd hother List.not_mem_nil
  | cons first rest ih =>
    rw [admits, List.mem_cons, not_or] at hrefused
    have hfirst : first = name := by
      by_contra hne
      refine hrefused.1 (decide_eq_true ?_).symm
      rw [hothers first hne]
      exact hquota
    intro other hother
    rcases List.mem_cons.mp hother with rfl | hrest
    · exact hfirst
    · refine ih (fun another hanother ↦ ?_) hrefused.2 other hrest
      rw [hfirst, bump_of_ne counts hanother]
      exact hothers another hanother

/-! ### What a party gets that names its requests -/

/-- Confined requests are admitted as long as the quota lasts, whatever names they carry. -/
theorem admits_of_confined {quota : ℕ} {names : List Name} (h : Confined quota names) :
    admits quota (fun _ ↦ 0) names =
      (List.range names.length).map fun count ↦ decide (count < quota) := by
  rcases h with hfew | hsame
  · rw [admits_eq_replicate_true fun _ _ ↦ by simpa using hfew]
    apply List.ext_getElem
    · simp
    · intro position hleft hright
      have hposition : position < names.length := by simpa using hleft
      simp [Nat.lt_of_lt_of_le hposition hfew]
  · cases names with
    | nil => rfl
    | cons name rest =>
      rw [admits_of_forall_eq fun other hother ↦ hsame other hother name List.mem_cons_self,
        List.range_eq_range']

theorem countP_range_lt (quota length : ℕ) :
    (List.range length).countP ((· == true) ∘ fun count ↦ decide (count < quota)) =
      min length quota := by
  induction length with
  | zero => rw [List.range_zero, List.countP_nil, Nat.zero_min]
  | succ length ih =>
    rw [List.range_succ, List.countP_append, ih, List.countP_singleton]
    by_cases hroom : length < quota
    · simp [hroom]
      omega
    · simp [hroom]
      omega

/-- Requests that are not confined get more than one quota. -/
theorem lt_count_admits {quota : ℕ} (hquota : 0 < quota) {names : List Name}
    (h : ¬ Confined quota names) : quota < (admits quota (fun _ ↦ 0) names).count true := by
  rw [Confined, not_or, Nat.not_le] at h
  obtain ⟨hmany, hdiffer⟩ := h
  -- The first requests fill one quota whatever they carry; one more is admitted after them.
  have htake : (names.take quota).length = quota := List.length_take_of_le (Nat.le_of_lt hmany)
  have hfirst : admits quota (fun _ ↦ 0) (names.take quota) = List.replicate quota true := by
    rw [admits_eq_replicate_true fun _ _ ↦ by simp [htake], htake]
  have hmore : true ∈ admits quota (countsAfter (fun _ ↦ 0) (names.take quota))
      (names.drop quota) := by
    by_contra hrefused
    refine hdiffer ?_
    obtain ⟨name, rest, hdrop⟩ : ∃ name rest, names.drop quota = name :: rest :=
      List.exists_cons_of_ne_nil (by simpa using hmany)
    have hfull : quota ≤ (names.take quota).count name := by
      rw [hdrop, admits, List.mem_cons, not_or, countsAfter_eq, Nat.zero_add] at hrefused
      by_contra hroom
      exact hrefused.1 (decide_eq_true (Nat.lt_of_not_le hroom)).symm
    have htaken : ∀ other ∈ names.take quota, other = name := by
      have hcount : (names.take quota).count name = (names.take quota).length :=
        Nat.le_antisymm List.count_le_length (htake.symm ▸ hfull)
      exact fun other hother ↦ (List.count_eq_length.mp hcount other hother).symm
    have hdropped : ∀ other ∈ names.drop quota, other = name := by
      refine eq_of_refused hquota (fun other hne ↦ ?_) hrefused
      rw [countsAfter_eq, Nat.zero_add, List.count_eq_zero]
      exact fun hother ↦ hne (htaken other hother)
    have hall : ∀ other ∈ names, other = name := by
      intro other hother
      rw [← List.take_append_drop quota names, List.mem_append] at hother
      exact hother.elim (htaken other) (hdropped other)
    intro first hfirst second hsecond
    exact (hall first hfirst).trans (hall second hsecond).symm
  rw [← List.take_append_drop quota names, admits_append, hfirst, List.count_append,
    List.count_replicate_self]
  exact Nat.lt_add_of_pos_right (List.count_pos_iff.mpr hmore)

/-- The requests of a party that chooses their names get no more than one quota exactly when they
are no more than one quota, or carry one name. -/
theorem count_admits_le_iff {quota : ℕ} (hquota : 0 < quota) (names : List Name) :
    (admits quota (fun _ ↦ 0) names).count true ≤ quota ↔ Confined quota names := by
  constructor
  · intro hle
    by_contra hfree
    exact absurd hle (Nat.not_le.mpr (lt_count_admits hquota hfree))
  · intro hconfined
    rw [admits_of_confined hconfined, List.count_eq_countP, List.countP_map, countP_range_lt]
    exact Nat.min_le_right _ _

end FileForge.Foundation.Quotas
