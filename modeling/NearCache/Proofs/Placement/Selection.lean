import NearCache.Placement
import NearCache.Table.Laws

/-!
# Two ways to ask a selector

Whether a selector means a member can be asked in two ways. The placement of a near cache checks the
selector first, and keeps the near cache away if the selector is malformed; `Selector.selects` tests
the member at once. Both take a test that fails for "no", so they can only differ about malformed
selectors.

There they do differ, for a malformed selector may still mean members: one that lists no attributes
means everybody, and one that lists an empty name or key means whoever meets all it says
(`Selector.Strays`). `placed_iff_selects_iff` says that the two ways part exactly at these.
-/

namespace NearCache

namespace Selector

/-- A malformed selector means a member all the same. -/
inductive Strays (m : Member) : Selector → Prop where
  /-- An empty name is listed, and so is the name that the member's attributes give it. -/
  | emptyName {names : Names} {name : String} (empty : names.contains "" = true)
      (own : m.attribute? Member.nameKey = some (.text name))
      (listed : names.contains name = true) :
      Strays m (named names)
  /-- The member has the value under the empty key. -/
  | emptyKey {value : AttrValue} (own : m.attribute? "" = some value) :
      Strays m (withAttribute "" value)
  /-- No attributes are listed, and nothing is asked of the member. -/
  | noAttributes : Strays m (withAttributes ∅)
  /-- An empty key is listed, and the member has all that is listed. -/
  | emptyKeys {attributes : Attributes} (empty : attributes.contains "" = true)
      (own : ∀ key value, attributes.get? key = some value → m.attribute? key = some value) :
      Strays m (withAttributes attributes)

variable {m : Member}

/-! ## What is malformed -/

theorem check_named (names : Names) :
    (named names).check = .ok () ↔ names.isEmpty = false ∧ names.contains "" = false := by
  cases h : names.isEmpty <;> cases h' : names.contains "" <;> simp [check, h, h']

theorem check_withAttribute (key : String) (value : AttrValue) :
    (withAttribute key value).check = .ok () ↔ key ≠ "" := by
  unfold check
  by_cases h : key = "" <;> simp [h]

theorem check_withAttributes (attributes : Attributes) :
    (withAttributes attributes).check = .ok () ↔
      attributes.isEmpty = false ∧ attributes.contains "" = false := by
  cases h : attributes.isEmpty <;> cases h' : attributes.contains "" <;> simp [check, h, h']

/-! ## Who is meant -/

theorem selects_named (names : Names) :
    (named names).selects m = true ↔
      ∃ name, m.attribute? Member.nameKey = some (.text name) ∧ names.contains name = true := by
  unfold selects test
  cases h : m.attribute? Member.nameKey with
  | none => simp
  | some v => cases v <;> simp

theorem selects_withAttribute (key : String) (value : AttrValue) :
    (withAttribute key value).selects m = true ↔ m.attribute? key = some value := by
  simp [selects, test]

theorem selects_withAttributes (attributes : Attributes) :
    (withAttributes attributes).selects m = true ↔
      ∀ key value, attributes.get? key = some value → m.attribute? key = some value := by
  simp only [selects, test, List.all_eq_true, decide_eq_true_eq]
  constructor
  · intro h key value hv
    exact h (key, value) ((attributes.mem_entries_iff key value).mpr hv)
  · rintro h ⟨key, value⟩ hmem
    exact h key value ((attributes.mem_entries_iff key value).mp hmem)

/-- A list of names that lists nobody means nobody. -/
theorem contains_of_isEmpty {names : Names} (h : names.isEmpty = true) (name : String) :
    names.contains name = false := by
  have hnil : names.entries = [] := List.isEmpty_iff.mp h
  simp [Table.contains, Table.get?, hnil, Table.find?]

theorem eq_empty_of_isEmpty {attributes : Attributes} (h : attributes.isEmpty = true) :
    attributes = ∅ := by
  have hnil : attributes.entries = [] := List.isEmpty_iff.mp h
  refine Table.ext_get? fun key => ?_
  simp [Table.get?, hnil, show (∅ : Attributes).entries = [] from rfl]

/-- Only an empty name can be wrong with a list that lists somebody. -/
theorem strays_named (names : Names) :
    (named names).Strays m ↔ (named names).check ≠ .ok () ∧ (named names).selects m = true := by
  rw [Ne, check_named, selects_named]
  constructor
  · rintro ⟨empty, own, listed⟩
    refine ⟨?_, _, own, listed⟩
    rintro ⟨-, hnone⟩
    rw [empty] at hnone
    cases hnone
  · rintro ⟨hcheck, name, own, listed⟩
    have hne : names.isEmpty = false := by
      cases h : names.isEmpty with
      | false => rfl
      | true =>
          rw [contains_of_isEmpty h] at listed
          cases listed
    have hempty : names.contains "" = true := by
      cases h : names.contains "" with
      | true => rfl
      | false => exact absurd ⟨hne, h⟩ hcheck
    exact .emptyName hempty own listed

/-- No attributes ask for nothing, so there everybody is meant. -/
theorem strays_withAttributes (attributes : Attributes) :
    (withAttributes attributes).Strays m ↔
      (withAttributes attributes).check ≠ .ok () ∧
        (withAttributes attributes).selects m = true := by
  rw [Ne, check_withAttributes, selects_withAttributes]
  constructor
  · intro h
    cases h with
    | noAttributes =>
        refine ⟨fun hcheck => Bool.noConfusion hcheck.1, ?_⟩
        intro key value h
        cases h
    | emptyKeys empty own =>
        refine ⟨?_, own⟩
        rintro ⟨-, hnone⟩
        rw [empty] at hnone
        cases hnone
  · rintro ⟨hcheck, own⟩
    cases h : attributes.isEmpty with
    | true =>
        rw [eq_empty_of_isEmpty h]
        exact .noAttributes
    | false =>
        have hempty : attributes.contains "" = true := by
          cases hc : attributes.contains "" with
          | true => rfl
          | false => exact absurd ⟨h, hc⟩ hcheck
        exact .emptyKeys hempty own

/-- The shapes are all that there are. -/
theorem strays_iff (s : Selector) : s.Strays m ↔ s.check ≠ .ok () ∧ s.selects m = true := by
  cases s with
  | everyone =>
      refine iff_of_false (fun h => by cases h) ?_
      rintro ⟨hcheck, -⟩
      exact hcheck rfl
  | named names => exact strays_named names
  | withAttribute key value =>
      rw [Ne, check_withAttribute, not_not, selects_withAttribute]
      constructor
      · intro h
        cases h with
        | emptyKey own => exact ⟨rfl, own⟩
      · rintro ⟨rfl, own⟩
        exact .emptyKey own
  | withAttributes attributes => exact strays_withAttributes attributes

end Selector

namespace Placement

variable {m : Member}

/-- The decision about an enabled near cache with a selector. -/
theorem decide_select (c : CacheConfig) (s : Selector) :
    decide (c.select s) m =
      match s.check, s.test m with
      | .error e, _ => .absent (.badSelector e.message)
      | .ok (), .ok true => .present
      | .ok (), .ok false => .absent .notSelected
      | .ok (), .error e => .absent (.testFailed e.message) := by
  unfold decide CacheConfig.select
  simp only [if_true]
  cases s.check with
  | error e => rfl
  | ok u =>
      cases s.test m with
      | error e => rfl
      | ok b => cases b <;> rfl

/-- A member has the near cache if the selector is well formed and means the member. -/
theorem decide_select_eq_present_iff (c : CacheConfig) (s : Selector) :
    decide (c.select s) m = .present ↔ s.check = .ok () ∧ s.selects m = true := by
  rw [decide_select]
  unfold Selector.selects
  cases s.check with
  | error e => simp
  | ok u =>
      cases s.test m with
      | error e => simp
      | ok b => cases b <;> simp

/-- **The two ways to ask a selector part exactly at malformed selectors that mean somebody.** A
member has an enabled near cache with a selector if and only if the selector is well formed and
means the member. So the placement agrees with the selector itself, unless the selector is malformed
and means the member all the same; the placement then names the malformation. -/
theorem placed_iff_selects_iff (c : CacheConfig) (s : Selector) (m : Member) :
    (decide (c.select s) m = .present ↔ s.check = .ok () ∧ s.selects m = true) ∧
      ((decide (c.select s) m = .present ↔ s.selects m = true) ↔ ¬ s.Strays m) ∧
      (s.Strays m → s.selects m = true ∧ ∃ e, s.check = .error e ∧
        decide (c.select s) m = .absent (.badSelector e.message)) := by
  refine ⟨decide_select_eq_present_iff c s, ?_, ?_⟩
  · rw [decide_select_eq_present_iff, Selector.strays_iff]
    constructor
    · rintro h ⟨hcheck, hselects⟩
      exact hcheck (h.mpr hselects).1
    · intro h
      refine ⟨And.right, fun hselects => ⟨?_, hselects⟩⟩
      by_contra hcheck
      exact h ⟨hcheck, hselects⟩
  · intro h
    obtain ⟨hcheck, hselects⟩ := (Selector.strays_iff s).mp h
    refine ⟨hselects, ?_⟩
    rw [decide_select]
    cases hc : s.check with
    | error e => exact ⟨e, rfl, rfl⟩
    | ok u => exact absurd hc hcheck

/-- A selector that lists no attributes is malformed and means everybody, and no near cache is
placed by it. -/
theorem empty_selector_selects :
    let s := Selector.withAttributes ∅
    let m := Member.enrolled 0 "a" .server ∅
    s.check = .error (.config .noAttributes) ∧ s.selects m = true ∧
      decide (CacheConfig.select { name := "x" } s) m ≠ .present := by
  decide

end Placement

end NearCache
