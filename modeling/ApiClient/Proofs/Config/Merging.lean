import ApiClient.Config
import Mathlib.Tactic.SplitIfs

/-!
# Drafts over drafts

* `Draft.Field`, `Draft.get?`, `Draft.set`: the fields of a draft, each of which may be set;
* `Draft.get?_merge`: what is set in the upper draft wins, and all else is as in the lower one;
* `Draft.merge_assoc`, `Draft.merge_empty`, `Draft.empty_merge`: drafts over drafts in any grouping;
* `Draft.get?_foldl_merge`: any number of layers, of which the last one that sets a field wins;
* `Draft.merge_eq_replace`: a draft over another replaces exactly the fields that it sets.
-/

namespace ApiClient.Config.Draft

/-! ## Fields -/

/-- A field of a draft. -/
inductive Field where
  | responseTypes
  | moduleName
  | defaultFormat
  | defaultVersion
  deriving DecidableEq, Repr, Inhabited

namespace Field

/-- Every field of a draft. -/
def all : List Field := [.responseTypes, .moduleName, .defaultFormat, .defaultVersion]

/-- What a field can be set to. A list of response types has an entry then. -/
def Value : Field → Type
  | .responseTypes => { tags : List String // tags ≠ [] }
  | .moduleName | .defaultFormat | .defaultVersion => String

theorem mem_all (field : Field) : field ∈ all := by
  cases field <;> decide

end Field

/-- What a field is set to, if it is set. -/
def get? (draft : Draft) : (field : Field) → Option field.Value
  | .responseTypes => if h : draft.responseTypes = [] then none else some ⟨draft.responseTypes, h⟩
  | .moduleName => draft.moduleName?
  | .defaultFormat => draft.defaultFormat?
  | .defaultVersion => draft.defaultVersion?

/-- The draft with a new value in one field. -/
def set (draft : Draft) : (field : Field) → field.Value → Draft
  | .responseTypes, tags => { draft with responseTypes := tags.val }
  | .moduleName, name => { draft with moduleName? := some name }
  | .defaultFormat, tag => { draft with defaultFormat? := some tag }
  | .defaultVersion, version => { draft with defaultVersion? := some version }

variable {draft a b c base overrides : Draft} {field field' : Field}

@[simp]
theorem get?_empty (field : Field) : get? {} field = none := by
  cases field <;> rfl

@[simp]
theorem get?_set_self (value : field.Value) : (draft.set field value).get? field = some value := by
  cases field with
  | responseTypes => exact dif_neg value.property
  | _ => rfl

theorem get?_set_of_ne (h : field' ≠ field) (value : field.Value) :
    (draft.set field value).get? field' = draft.get? field' := by
  cases field <;> cases field' <;> first | rfl | exact absurd rfl h

/-- A draft is what its fields are set to. -/
theorem eq_of_get?_eq (h : ∀ field, a.get? field = b.get? field) : a = b := by
  have htypes : a.responseTypes = b.responseTypes := by
    have hvalue := h .responseTypes
    rw [get?, get?] at hvalue
    split_ifs at hvalue with ha hb
    · exact ha.trans hb.symm
    · exact congrArg Subtype.val (Option.some.inj hvalue)
  obtain ⟨_, _, _, _⟩ := a
  obtain ⟨_, _, _, _⟩ := b
  rw [Draft.mk.injEq]
  exact ⟨htypes, h .moduleName, h .defaultFormat, h .defaultVersion⟩

/-! ## One draft over another -/

/-- What is set in the upper draft wins, and all else is as in the lower one. -/
theorem get?_merge (base overrides : Draft) (field : Field) :
    (base.merge overrides).get? field = (overrides.get? field).or (base.get? field) := by
  cases field with
  | responseTypes =>
    by_cases h : overrides.responseTypes = []
    · simp [get?, merge, h]
    · simp only [get?, merge, List.isEmpty_iff, h, if_false, dif_neg, not_false_eq_true]
      rfl
  | _ => rfl

theorem merge_assoc (a b c : Draft) : (a.merge b).merge c = a.merge (b.merge c) :=
  eq_of_get?_eq fun field => by simp only [get?_merge, Option.or_assoc]

theorem merge_empty (draft : Draft) : draft.merge {} = draft :=
  eq_of_get?_eq fun field => by rw [get?_merge, get?_empty, Option.none_or]

theorem empty_merge (draft : Draft) : merge {} draft = draft :=
  eq_of_get?_eq fun field => by rw [get?_merge, get?_empty, Option.or_none]

/-- Of any number of layers, the last one that sets a field wins. -/
theorem get?_foldl_merge (base : Draft) (layers : List Draft) (field : Field) :
    (layers.foldl merge base).get? field =
      (layers.reverse.findSome? (get? · field)).or (base.get? field) := by
  induction layers generalizing base with
  | nil => rfl
  | cons layer layers ih =>
    rw [List.foldl_cons, ih, get?_merge, List.reverse_cons, List.findSome?_append, Option.or_assoc,
      List.findSome?_singleton]

/-! ## Replacements -/

/-- A field with a value for it. -/
abbrev Change := (field : Field) × field.Value

/-- The draft with the changes made, one after another. -/
def replace (draft : Draft) (changes : List Change) : Draft :=
  changes.foldl (fun draft change => draft.set change.1 change.2) draft

/-- The fields that are set, with what they are set to. -/
def settings (draft : Draft) : List Change :=
  Field.all.filterMap fun field => (draft.get? field).map (Sigma.mk field)

/-- The fields of a list are taken over where they are set, and no other field changes. -/
theorem get?_replace_filterMap (overrides : Draft) (fields : List Field) :
    (base.replace (fields.filterMap fun field =>
      (overrides.get? field).map (Sigma.mk field))).get? field =
        if field ∈ fields then (overrides.get? field).or (base.get? field)
        else base.get? field := by
  induction fields generalizing base with
  | nil => rfl
  | cons first fields ih =>
    cases hfirst : overrides.get? first with
    | none =>
      rw [List.filterMap_cons_none (by rw [hfirst]; rfl), ih]
      by_cases h : field = first
      · subst h
        simp [hfirst]
      · simp [h]
    | some value =>
      rw [List.filterMap_cons_some (by rw [hfirst]; rfl), replace, List.foldl_cons, ← replace, ih]
      by_cases h : field = first
      · subst h
        simp [hfirst]
      · simp [h, get?_set_of_ne h]

/-- A draft over another one replaces exactly the fields that it sets. -/
theorem merge_eq_replace (base overrides : Draft) :
    base.merge overrides = base.replace overrides.settings :=
  eq_of_get?_eq fun field => by
    rw [get?_merge, settings, get?_replace_filterMap, if_pos field.mem_all]

end ApiClient.Config.Draft
