import Mathlib.Tactic.Common
import ApiClient.CommandLine
import ApiClient.Proofs.Config.Merging
import ApiClient.Proofs.Results

/-!
# Options over a configuration file

* `fileDraft`: the draft that the options are laid over;
* `Options.LaidOver`: the draft with every option that is given in its field;
* `config_eq_replace`, `config_eq_build_laidOver`: a run has the configuration of this draft;
* `Options.AddsNothing`: options that give nothing new to a file and to other options;
* `config_eq_build`, `config_eq_of_repeated`: options that only repeat the file may be left out;
* `layers_override`: all of this, with the laws of drafts over drafts.
-/

namespace ApiClient.CommandLine

open Config (Draft)

variable {t : Storage} {o o' : Options} {base : Draft}

/-- The draft that the options are laid over: the one in the configuration file, or an empty one. -/
def fileDraft (t : Storage) (o : Options) : Except Failure Draft :=
  match o.config? with
  | none => .ok {}
  | some path => readDraft t path

theorem config_eq_merge (t : Storage) (o : Options) :
    config t o = fileDraft t o >>= fun base => (base.merge o.draft).build.mapError .config := by
  rw [config, fileDraft]
  cases o.config? <;> rfl

/-- The options that are given replace what the file has, and nothing else does. -/
theorem config_eq_replace (t : Storage) (o : Options) :
    config t o =
      fileDraft t o >>= fun base => (base.replace o.draft.settings).build.mapError .config := by
  simp only [config_eq_merge, Draft.merge_eq_replace]

/-! ## Options in their fields -/

/-- The draft is `base` with the options laid over it: an option that is given stands in its field,
and all other fields are as they were. A list of response types is given if it has an entry. -/
structure Options.LaidOver (o : Options) (base draft : Draft) : Prop where
  responseTypes : draft.responseTypes =
    if o.responseTypes = [] then base.responseTypes else o.responseTypes
  moduleName? : draft.moduleName? = o.moduleName?.or base.moduleName?
  defaultFormat? : draft.defaultFormat? = o.defaultFormat?.or base.defaultFormat?
  defaultVersion? : draft.defaultVersion? = o.defaultVersion?.or base.defaultVersion?

theorem laidOver_replace (o : Options) (base : Draft) :
    o.LaidOver base (base.replace o.draft.settings) := by
  rw [← Draft.merge_eq_replace]
  refine ⟨?_, rfl, rfl, rfl⟩
  simp only [Draft.merge, Options.draft, List.isEmpty_iff]

/-- What the options `o'` give beyond the options `o` is in `base` already. -/
structure Options.AddsNothing (o' o : Options) (base : Draft) : Prop where
  responseTypes : o'.responseTypes = o.responseTypes ∨
    o.responseTypes = [] ∧ o'.responseTypes = base.responseTypes
  moduleName? : o'.moduleName? = o.moduleName? ∨
    o.moduleName? = none ∧ o'.moduleName? = base.moduleName?
  defaultFormat? : o'.defaultFormat? = o.defaultFormat? ∨
    o.defaultFormat? = none ∧ o'.defaultFormat? = base.defaultFormat?
  defaultVersion? : o'.defaultVersion? = o.defaultVersion? ∨
    o.defaultVersion? = none ∧ o'.defaultVersion? = base.defaultVersion?

theorem or_eq_of_addsNothing {α : Type} {x' x y : Option α} (h : x' = x ∨ x = none ∧ x' = y) :
    x'.or y = x.or y := by
  obtain rfl | ⟨rfl, rfl⟩ := h
  · rfl
  · rw [Option.or_self, Option.none_or]

theorem merge_eq_of_addsNothing (h : o'.AddsNothing o base) :
    base.merge o'.draft = base.merge o.draft := by
  have htypes : (base.merge o'.draft).responseTypes = (base.merge o.draft).responseTypes := by
    simp only [Draft.merge, Options.draft, List.isEmpty_iff]
    obtain heq | ⟨hnone, heq⟩ := h.responseTypes
    · rw [heq]
    · rw [heq, if_pos hnone, ite_self]
  rw [Draft.merge, Draft.merge, Draft.mk.injEq]
  exact ⟨htypes, or_eq_of_addsNothing h.moduleName?, or_eq_of_addsNothing h.defaultFormat?,
    or_eq_of_addsNothing h.defaultVersion?⟩

section

variable (hbase : fileDraft t o = .ok base)
include hbase

theorem config_eq_build_merge : config t o = (base.merge o.draft).build.mapError .config := by
  rw [config_eq_merge, hbase]
  rfl

/-- Whatever has the options in their fields is what a run builds. -/
theorem config_eq_build_laidOver :
    ∃ draft, o.LaidOver base draft ∧ config t o = draft.build.mapError .config := by
  refine ⟨base.replace o.draft.settings, laidOver_replace o base, ?_⟩
  rw [config_eq_replace, hbase]
  rfl

/-- Options that repeat what the file has may be given or left out. -/
theorem config_eq_of_repeated (hconfig : o'.config? = o.config?) (h : o'.AddsNothing o base) :
    config t o' = config t o := by
  have hbase' : fileDraft t o' = .ok base := by rw [fileDraft, hconfig, ← hbase, fileDraft]
  rw [config_eq_build_merge hbase, config_eq_build_merge hbase', merge_eq_of_addsNothing h]

/-- If all options repeat what the file has, the file alone decides. -/
theorem config_eq_build (h : o.AddsNothing {} base) :
    config t o = base.build.mapError .config := by
  have hempty : Options.draft {} = {} := rfl
  rw [config_eq_build_merge hbase, merge_eq_of_addsNothing h, hempty, Draft.merge_empty]

end

/-- Drafts over drafts can be grouped in any way, an empty one changes nothing, and of any number of
layers the last one that sets a field wins. So a run has the configuration of its file in which
exactly the options that are given are replaced, each in its own field, and an option that repeats
the file changes neither a configuration nor a fault. -/
theorem layers_override :
    (∀ a b c : Draft, (a.merge b).merge c = a.merge (b.merge c)) ∧
      (∀ draft : Draft, draft.merge {} = draft ∧ Draft.merge {} draft = draft) ∧
      (∀ base overrides : Draft,
        (∀ field, (base.merge overrides).get? field =
          (overrides.get? field).or (base.get? field)) ∧
        base.merge overrides = base.replace overrides.settings) ∧
      (∀ (base : Draft) (layers : List Draft) field, (layers.foldl Draft.merge base).get? field =
        (layers.reverse.findSome? (Draft.get? · field)).or (base.get? field)) ∧
      (∀ t o, config t o =
        fileDraft t o >>= fun base => (base.replace o.draft.settings).build.mapError .config) ∧
      (∀ t o base, fileDraft t o = .ok base →
        ∃ draft, o.LaidOver base draft ∧ config t o = draft.build.mapError .config) ∧
      (∀ t o base, fileDraft t o = .ok base → o.AddsNothing {} base →
        config t o = base.build.mapError .config) ∧
      ∀ t o o' base, fileDraft t o = .ok base → o'.config? = o.config? → o'.AddsNothing o base →
        config t o' = config t o :=
  ⟨Draft.merge_assoc, fun draft => ⟨draft.merge_empty, draft.empty_merge⟩,
    fun base overrides => ⟨Draft.get?_merge base overrides, Draft.merge_eq_replace base overrides⟩,
    Draft.get?_foldl_merge, config_eq_replace, fun _ _ _ => config_eq_build_laidOver,
    fun _ _ _ => config_eq_build, fun _ _ _ _ => config_eq_of_repeated⟩

/-- The module name and the version of a file: the command line replaces the one and repeats the
other. -/
theorem layers_override_repeated :
    let text := "\x7b\"namespace\":\"m\",\"default_version\":\"v1\"\x7d"
    let t : Storage := ⟨[(["c"], .file text.toUTF8.toList)], []⟩
    let o : Options := { config? := some "c", responseTypes := ["xml"], moduleName? := some "n" }
    let o' : Options := { o with defaultVersion? := some "v1" }
    fileDraft t o = .ok { moduleName? := some "m", defaultVersion? := some "v1" } ∧
      (∃ draft : Draft, draft.moduleName? = some "n" ∧ draft.defaultVersion? = some "v1" ∧
        config t o = draft.build.mapError .config) ∧
      config t o' = config t o ∧ config t o' = .ok ⟨[.xml], some "n", .xml, some "v1"⟩ := by
  intro text t o o'
  have hbase : fileDraft t o =
      .ok { moduleName? := some "m", defaultVersion? := some "v1" } := by decide +kernel
  obtain ⟨-, -, -, -, hreplace, hlaid, -, hrepeated⟩ := layers_override
  have hsame : config t o' = config t o :=
    hrepeated t o o' _ hbase rfl ⟨.inl rfl, .inl rfl, .inl rfl, .inr ⟨rfl, rfl⟩⟩
  obtain ⟨draft, hdraft, hconfig⟩ := hlaid t o _ hbase
  refine ⟨hbase, ⟨draft, hdraft.moduleName?, hdraft.defaultVersion?, hconfig⟩, hsame, ?_⟩
  rw [hsame, hreplace, hbase]
  decide +kernel

end ApiClient.CommandLine
