import ApiClient.Proofs.Config.Building
import ApiClient.Proofs.Format
import ApiClient.Proofs.Lists
import ApiClient.Proofs.Text.Identifier

/-!
# Drafts that are accepted

* `Draft.Lists`: the formats that are named by the tags of a draft, each in its first place;
* `readFormats_eq_ok_iff`, `readFormats_eq_error_iff`: the list of tags is read as these formats, or
  has a first tag that names none;
* `chooseDefault_eq_ok_iff`, `chooseDefault_eq_error_iff`: the same for the default format;
* `Draft.IsValid`: what a draft has to be;
* `Draft.violations`: the conditions in their order, each with its faults;
* `Config.toDraft`: a configuration written down again;
* `exists_build_iff`, `build_eq_error_iff`, `build_toDraft`: valid drafts are accepted, others have
  the fault of the first condition that they violate, and what is accepted stays as it is;
* `build_accepts_valid`: all of this for every draft.
-/

namespace ApiClient.Config

/-- The draft that spells a configuration. -/
def toDraft (config : Config) : Draft where
  responseTypes := config.responseTypes.map Format.tag
  moduleName? := config.moduleName?
  defaultFormat? := some config.defaultFormat.tag
  defaultVersion? := config.defaultVersion?

variable {tag : String} {format : Format} {fault : Fault}

theorem readFormat_eq_ok_iff : readFormat tag = .ok format ↔ format.IsNamedBy tag := by
  rw [← Format.ofTag?_eq_some_iff, readFormat]
  cases Format.ofTag? tag <;> simp

theorem readFormat_eq_error_iff :
    readFormat tag = .error fault ↔
      (∀ format : Format, ¬ format.IsNamedBy tag) ∧ fault = .unknownFormat tag := by
  simp only [← Format.ofTag?_eq_some_iff]
  rw [readFormat]
  cases Format.ofTag? tag <;> simp [eq_comm]

theorem isVersion_iff {version : String} :
    isVersion version = true ↔ version ≠ "" ∧ '/' ∉ version.toList := by
  simp [isVersion]

namespace Draft

variable {draft : Draft} {config : Config} {tags : List String} {tag? : Option String}
variable {found formats : List Format} {first : Format}

/-! ## Response types -/

/-- Every tag of a list names the format in the same place. -/
def Name (tags : List String) (formats : List Format) : Prop :=
  List.Forall₂ (fun tag format => Format.IsNamedBy format tag) tags formats

theorem Name.mem_iff (h : Name tags formats) :
    format ∈ formats ↔ ∃ tag ∈ tags, format.IsNamedBy tag := by
  induction h with
  | nil => simp
  | @cons tag format' tags formats hformat _ ih =>
    have hfirst : format = format' ↔ format.IsNamedBy tag :=
      ⟨fun he => he ▸ hformat, fun hn => Format.eq_of_isNamedBy hn hformat⟩
    simp [ih, hfirst]

theorem name_map_tag (formats : List Format) : Name (formats.map Format.tag) formats := by
  induction formats with
  | nil => exact .nil
  | cons format formats ih => exact .cons format.isNamedBy_tag ih

/-- The formats that are named by the response types of a draft, each in its first place. -/
def Lists (draft : Draft) (formats : List Format) : Prop :=
  ∃ named, Name draft.responseTypes named ∧ formats = named.eraseDups

theorem readFormats_eq_ok_iff (hfound : found.Nodup) :
    readFormats found tags = .ok formats ↔
      ∃ named, Name tags named ∧ formats = (found ++ named).eraseDups := by
  induction tags generalizing found with
  | nil =>
    rw [readFormats, Except.ok.injEq]
    constructor
    · rintro rfl
      exact ⟨[], .nil, by rw [List.append_nil, eraseDups_of_nodup hfound]⟩
    · rintro ⟨named, hnamed, rfl⟩
      cases hnamed
      rw [List.append_nil, eraseDups_of_nodup hfound]
  | cons tag tags ih =>
    -- the formats found so far are those of the tags before, without repetitions
    have hstep : ∀ format : Format,
        readFormats (if found.contains format then found else found ++ [format]) tags =
            .ok formats ↔
          ∃ named, Name tags named ∧ formats = (found ++ format :: named).eraseDups := by
      intro format
      by_cases hmem : format ∈ found
      · rw [if_pos (by simpa using hmem), ih hfound]
        simp only [eraseDups_append_cons_of_mem hmem]
      · have hnodup : (found ++ [format]).Nodup := by
          rw [← List.concat_eq_append, List.nodup_concat]
          exact ⟨hmem, hfound⟩
        rw [if_neg (by simpa using hmem), ih hnodup]
        simp only [List.append_assoc, List.singleton_append]
    rw [readFormats, bind_eq_ok_iff]
    simp only [readFormat_eq_ok_iff, hstep]
    constructor
    · rintro ⟨format, hformat, named, hnamed, hformats⟩
      exact ⟨format :: named, .cons hformat hnamed, hformats⟩
    · rintro ⟨named, hnamed, hformats⟩
      cases hnamed with
      | cons hformat hnamed => exact ⟨_, hformat, _, hnamed, hformats⟩

theorem readFormats_draft_iff : readFormats [] draft.responseTypes = .ok formats ↔
    draft.Lists formats :=
  readFormats_eq_ok_iff List.nodup_nil

/-- Reading fails at the first tag that names no format. -/
theorem readFormats_eq_error_iff :
    readFormats found tags = .error fault ↔ FailsFirst readFormat tags fault := by
  induction tags generalizing found with
  | nil => exact iff_of_false nofun not_failsFirst_nil
  | cons tag tags ih =>
    rw [readFormats, bind_eq_error_iff, failsFirst_cons_iff]
    simp only [ih, exists_and_right]

/-! ## The default format -/

theorem chooseDefault_some (tag : String) : chooseDefault formats first (some tag) =
    readFormat tag >>= fun format =>
      if format ∈ formats then .ok format else .error (.defaultNotListed format formats) := by
  simp only [chooseDefault, List.contains_iff_mem]
  rfl

theorem chooseDefault_eq_ok_iff :
    chooseDefault formats first tag? = .ok format ↔
      (∀ tag ∈ tag?, format.IsNamedBy tag ∧ format ∈ formats) ∧
        (tag? = none → format = first) := by
  cases tag? with
  | none => simp [chooseDefault, eq_comm]
  | some tag =>
    rw [chooseDefault_some, bind_eq_ok_iff]
    simp only [readFormat_eq_ok_iff, Option.mem_some, forall_eq', reduceCtorEq, false_implies,
      and_true]
    constructor
    · rintro ⟨format', hformat, h⟩
      split_ifs at h with hmem
      cases h
      exact ⟨hformat, hmem⟩
    · rintro ⟨hformat, hmem⟩
      exact ⟨format, hformat, if_pos hmem⟩

theorem chooseDefault_eq_error_iff :
    chooseDefault formats first tag? = .error fault ↔
      ∃ tag ∈ tag?, ((∀ format : Format, ¬ format.IsNamedBy tag) ∧ fault = .unknownFormat tag) ∨
        ∃ format : Format, format.IsNamedBy tag ∧ format ∉ formats ∧
          fault = .defaultNotListed format formats := by
  cases tag? with
  | none => simp [chooseDefault]
  | some tag =>
    rw [chooseDefault_some, bind_eq_error_iff, readFormat_eq_error_iff]
    simp only [readFormat_eq_ok_iff, Option.mem_some, exists_eq_left']
    refine or_congr_right (exists_congr fun format => and_congr_right fun _ => ?_)
    split_ifs with hmem <;> simp [hmem, eq_comm]

/-! ## Conditions -/

/-- What a draft has to be: a list of tags that name formats, with a default format that is one of
these, an identifier for the module, and one path segment for the version. -/
structure IsValid (draft : Draft) : Prop where
  listed : draft.responseTypes ≠ []
  named : ∀ tag ∈ draft.responseTypes, ∃ format : Format, format.IsNamedBy tag
  defaultListed : ∀ tag ∈ draft.defaultFormat?, ∃ format : Format, format.IsNamedBy tag ∧
    ∃ listed ∈ draft.responseTypes, format.IsNamedBy listed
  moduleName : ∀ name ∈ draft.moduleName?, Text.IsItemName name
  version : ∀ version ∈ draft.defaultVersion?, version ≠ "" ∧ '/' ∉ version.toList

/-- The fault of the first tag that names no format. -/
def NamesNone (draft : Draft) (fault : Fault) : Prop :=
  ∃ before tag after, draft.responseTypes = before ++ tag :: after ∧
    (∀ earlier ∈ before, ∃ format : Format, format.IsNamedBy earlier) ∧
    (∀ format : Format, ¬ format.IsNamedBy tag) ∧ fault = .unknownFormat tag

/-- The fault of a default format that is none, or is not one of the response types. -/
def MissesDefault (draft : Draft) (fault : Fault) : Prop :=
  ∃ tag ∈ draft.defaultFormat?,
    ((∀ format : Format, ¬ format.IsNamedBy tag) ∧ fault = .unknownFormat tag) ∨
      ∃ format : Format, format.IsNamedBy tag ∧ ∃ formats, draft.Lists formats ∧
        format ∉ formats ∧ fault = .defaultNotListed format formats

/-- The conditions on a draft in their order, each with the faults of its violation. -/
def violations (draft : Draft) : List (Fault → Prop) :=
  [fun fault => fault = .noResponseTypes ∧ draft.responseTypes = [],
    draft.NamesNone,
    draft.MissesDefault,
    fun fault => ∃ name ∈ draft.moduleName?,
      fault = .badNamespace name ∧ ¬ Text.IsItemName name,
    fun fault => ∃ version ∈ draft.defaultVersion?,
      fault = .badVersion version ∧ ¬ (version ≠ "" ∧ '/' ∉ version.toList)]

theorem namesNone_iff :
    draft.NamesNone fault ↔ readFormats [] draft.responseTypes = .error fault := by
  rw [readFormats_eq_error_iff, NamesNone, FailsFirst]
  simp only [readFormat_eq_ok_iff, readFormat_eq_error_iff]

theorem Lists.unique (h : draft.Lists found) (h' : draft.Lists formats) : found = formats := by
  rw [← readFormats_draft_iff] at h h'
  exact Except.ok.inj (h.symm.trans h')

theorem missesDefault_iff (h : draft.Lists (first :: formats)) :
    draft.MissesDefault fault ↔
      chooseDefault (first :: formats) first draft.defaultFormat? = .error fault := by
  have hlists : ∀ found, draft.Lists found ↔ found = first :: formats :=
    fun found => ⟨fun hfound => hfound.unique h, fun he => he ▸ h⟩
  rw [chooseDefault_eq_error_iff, MissesDefault]
  simp only [hlists, exists_eq_left]

theorem Lists.mem_iff (h : draft.Lists formats) :
    format ∈ formats ↔ ∃ tag ∈ draft.responseTypes, format.IsNamedBy tag := by
  obtain ⟨named, hnamed, rfl⟩ := h
  rw [List.mem_eraseDups, hnamed.mem_iff]

theorem Lists.eq_nil_iff (h : draft.Lists formats) :
    formats = [] ↔ draft.responseTypes = [] := by
  obtain ⟨named, hnamed, rfl⟩ := h
  generalize draft.responseTypes = tags at hnamed
  cases hnamed <;> simp [List.eraseDups_cons]

theorem Lists.named (h : draft.Lists formats) :
    ∀ tag ∈ draft.responseTypes, ∃ format : Format, format.IsNamedBy tag := by
  obtain ⟨named, hnamed, -⟩ := h
  exact exists_forall₂_iff.mp ⟨named, hnamed⟩

theorem IsValid.exists_lists (h : draft.IsValid) :
    ∃ first rest, draft.Lists (first :: rest) := by
  obtain ⟨named, hnamed⟩ : ∃ named, Name draft.responseTypes named :=
    exists_forall₂_iff.mpr h.named
  have hlists : draft.Lists named.eraseDups := ⟨named, hnamed, rfl⟩
  obtain ⟨first, rest, heq⟩ := List.exists_cons_of_ne_nil (mt hlists.eq_nil_iff.mp h.listed)
  exact ⟨first, rest, heq ▸ hlists⟩

/-! ## Acceptance -/

theorem build_eq_ok_iff_lists :
    draft.build = .ok config ↔
      ∃ first rest, draft.Lists (first :: rest) ∧ ∃ format : Format,
        ((∀ tag ∈ draft.defaultFormat?, format.IsNamedBy tag ∧ format ∈ first :: rest) ∧
          (draft.defaultFormat? = none → format = first)) ∧
        (∀ name ∈ draft.moduleName?, Text.IsItemName name) ∧
        (∀ version ∈ draft.defaultVersion?, version ≠ "" ∧ '/' ∉ version.toList) ∧
        ⟨first :: rest, draft.moduleName?, format, draft.defaultVersion?⟩ = config := by
  simp only [build_eq_ok_iff, readFormats_draft_iff, chooseDefault_eq_ok_iff,
    Text.isIdentifier_iff, isVersion_iff]

theorem exists_build_iff : (∃ config, draft.build = .ok config) ↔ draft.IsValid := by
  simp only [build_eq_ok_iff_lists]
  constructor
  · rintro ⟨-, first, rest, hlists, format, ⟨hdefault, -⟩, hname, hversion, rfl⟩
    refine ⟨fun hnil => ?_, hlists.named, fun tag htag => ?_, hname, hversion⟩
    · exact absurd (hlists.eq_nil_iff.mpr hnil) (List.cons_ne_nil first rest)
    · obtain ⟨hformat, hmem⟩ := hdefault tag htag
      exact ⟨format, hformat, hlists.mem_iff.mp hmem⟩
  · intro h
    obtain ⟨first, rest, hlists⟩ := h.exists_lists
    cases hdefault : draft.defaultFormat? with
    | none =>
      exact ⟨_, first, rest, hlists, first, ⟨nofun, fun _ => rfl⟩, h.moduleName, h.version, rfl⟩
    | some tag =>
      obtain ⟨format, hformat, hlisted⟩ := h.defaultListed tag hdefault
      refine ⟨_, first, rest, hlists, format, ⟨?_, nofun⟩, h.moduleName, h.version, rfl⟩
      rintro _ ⟨⟩
      exact ⟨hformat, hlists.mem_iff.mpr hlisted⟩

/-- A check of something that need not be there. -/
def checked (text? : Option String) (accepts : String → Bool) (fault : String → Fault) :
    Except Fault Unit :=
  match text? with
  | some text => if accepts text then .ok () else .error (fault text)
  | none => .ok ()

theorem checked_eq_error_iff {text? : Option String} {accepts : String → Bool}
    {toFault : String → Fault} :
    checked text? accepts toFault = .error fault ↔
      ∃ text ∈ text?, fault = toFault text ∧ ¬ accepts text = true := by
  unfold checked
  cases text? with
  | none => simp
  | some text =>
    dsimp only
    split_ifs with h
    · simp [h]
    · simp [h, @eq_comm _ fault]

/-- The checks one after the other. -/
theorem build_eq_checks (draft : Draft) :
    draft.build = readFormats [] draft.responseTypes >>= fun formats =>
      match formats with
      | [] => .error .noResponseTypes
      | first :: rest =>
        chooseDefault (first :: rest) first draft.defaultFormat? >>= fun format =>
          checked draft.moduleName? Text.isIdentifier .badNamespace >>= fun _ =>
            checked draft.defaultVersion? isVersion .badVersion >>= fun _ =>
              .ok ⟨first :: rest, draft.moduleName?, format, draft.defaultVersion?⟩ := by
  obtain ⟨tags, name?, tag?, version?⟩ := draft
  rw [build]
  refine bind_congr fun formats => ?_
  cases formats with
  | nil => rfl
  | cons first rest =>
    refine bind_congr fun format => ?_
    cases name? with
    | none =>
      cases version? with
      | none => rfl
      | some version => cases h : isVersion version <;> simp [checked, h] <;> rfl
    | some name =>
      cases version? with
      | none => cases h : Text.isIdentifier name <;> simp [checked, h] <;> rfl
      | some version =>
        cases h : Text.isIdentifier name <;> cases h' : isVersion version <;>
          simp [checked, h, h'] <;> rfl

theorem build_eq_error_iff :
    draft.build = .error fault ↔ FirstViolated draft.violations fault := by
  rw [build_eq_checks]
  by_cases hnil : draft.responseTypes = []
  · rw [hnil]
    simp [violations, FirstViolated, hnil, readFormats, bind, Except.bind, eq_comm]
  · rw [violations, FirstViolated]
    simp only [hnil, and_false, not_false_eq_true, implies_true, true_and, false_or]
    refine bind_eq_error_iff_firstViolated (fun e => namesNone_iff.symm) fun formats hformats => ?_
    have hlists := readFormats_draft_iff.mp hformats
    cases formats with
    | nil => exact absurd (hlists.eq_nil_iff.mp rfl) hnil
    | cons first rest =>
      refine bind_eq_error_iff_firstViolated (fun e => (missesDefault_iff hlists).symm)
        fun format _ => ?_
      refine bind_eq_error_iff_firstViolated (fun e => ?_) fun _ _ => ?_
      · rw [checked_eq_error_iff]
        simp only [Text.isIdentifier_iff]
      · refine bind_eq_error_iff_firstViolated (fun e => ?_) fun _ _ => ?_
        · rw [checked_eq_error_iff]
          simp only [isVersion_iff]
        · simp [FirstViolated]

/-! ## Accepted once more -/

theorem build_toDraft (h : draft.build = .ok config) : config.toDraft.build = .ok config := by
  have hnodup := nodup_of_build h
  have hmem := mem_of_build h
  obtain ⟨first, rest, -, format, -, hname, hversion, rfl⟩ := build_eq_ok_iff_lists.mp h
  refine build_eq_ok_iff_lists.mpr ⟨first, rest, ?_, format, ⟨?_, nofun⟩, hname, hversion, rfl⟩
  · exact ⟨first :: rest, name_map_tag _, (eraseDups_of_nodup hnodup).symm⟩
  · rintro _ ⟨⟩
    exact ⟨format.isNamedBy_tag, hmem⟩

/-! ## Every draft -/

/-- A draft is accepted if it is valid, and otherwise has the fault of the first condition that it
violates. What it is accepted as has the formats of its tags, each in its first place, and comes out
again when it is written down and read once more. -/
theorem build_accepts_valid (draft : Draft) :
    ((∃ config, draft.build = .ok config) ↔ draft.IsValid) ∧
      (∀ fault, draft.build = .error fault ↔ FirstViolated draft.violations fault) ∧
      ∀ config, draft.build = .ok config →
        draft.Lists config.responseTypes ∧ config.responseTypes ≠ [] ∧
        config.responseTypes.Nodup ∧ config.defaultFormat ∈ config.responseTypes ∧
        (∀ tag ∈ draft.defaultFormat?, config.defaultFormat.IsNamedBy tag) ∧
        (draft.defaultFormat? = none →
          config.responseTypes.head? = some config.defaultFormat) ∧
        config.moduleName? = draft.moduleName? ∧
        config.defaultVersion? = draft.defaultVersion? ∧
        config.toDraft.build = .ok config := by
  refine ⟨exists_build_iff, fun fault => build_eq_error_iff, fun config h => ?_⟩
  have hnodup := nodup_of_build h
  have hmem := mem_of_build h
  have hagain := build_toDraft h
  obtain ⟨first, rest, hlists, format, ⟨hdefault, hfirst⟩, -, -, rfl⟩ :=
    build_eq_ok_iff_lists.mp h
  exact ⟨hlists, List.cons_ne_nil first rest, hnodup, hmem, fun tag htag => (hdefault tag htag).1,
    fun hnone => congrArg some (hfirst hnone).symm, rfl, rfl, hagain⟩

/-- A format that is listed twice, in different letters, and two tags of which the first names no
format. -/
theorem build_accepts_valid_padded :
    Draft.build ⟨["\tJson ", "XML", "json"], some "shop", some " xml", some "v1"⟩ =
        .ok ⟨[.json, .xml], some "shop", .xml, some "v1"⟩ ∧
      Draft.IsValid ⟨["\tJson ", "XML", "json"], some "shop", some " xml", some "v1"⟩ ∧
      Draft.Lists ⟨["\tJson ", "XML", "json"], some "shop", some " xml", some "v1"⟩ [.json, .xml] ∧
      Draft.build ⟨["json", "xml"], some "shop", some "xml", some "v1"⟩ =
        .ok ⟨[.json, .xml], some "shop", .xml, some "v1"⟩ ∧
      FirstViolated (Draft.violations ⟨["xml", "yaml", "toml"], some "_", none, none⟩)
        (.unknownFormat "yaml") := by
  have hbuild : Draft.build ⟨["\tJson ", "XML", "json"], some "shop", some " xml", some "v1"⟩ =
      .ok ⟨[.json, .xml], some "shop", .xml, some "v1"⟩ := by
    rfl
  obtain ⟨hvalid, -, hconfig⟩ :=
    build_accepts_valid ⟨["\tJson ", "XML", "json"], some "shop", some " xml", some "v1"⟩
  obtain ⟨hlists, -, -, -, -, -, -, -, hagain⟩ := hconfig _ hbuild
  exact ⟨hbuild, hvalid.mp ⟨_, hbuild⟩, hlists, hagain,
    ((build_accepts_valid ⟨["xml", "yaml", "toml"], some "_", none, none⟩).2.1 _).mp rfl⟩

end Draft

end ApiClient.Config
