import Mathlib.Data.List.Nodup
import ApiClient.Proofs.Config.Building
import ApiClient.Proofs.Format
import ApiClient.Proofs.Generation.Cursor
import ApiClient.Proofs.Generation.ReadBack

/-!
# All files or none

* `names_files`, `nodup_names`: the names of the files;
* `filter_exports`: there is one file with the function that the client calls;
* `Complete`, `complete`: what is known of all files, and that it holds of whatever is generated;
* `generates_all_or_nothing`: either that, or the first fault of what it is generated from.
-/

namespace ApiClient

/-! ## Names -/

namespace SourceFile

/-- The name of the file for a parser. -/
def parserName (format : Format) : String := parserModule format ++ ".rs"

theorem parserName_eq (format : Format) :
    parserName format = format.tag ++ "_response_parser.rs" := by
  rw [parserName, parserModule, String.append_assoc]
  rfl

theorem parserName_injective : Function.Injective parserName := by
  intro f f' h
  rw [parserName_eq, parserName_eq] at h
  exact Format.tag_injective ((String.append_left_inj _).mp h)

theorem parserName_ne_client (format : Format) : parserName format ≠ "api.rs" := by
  cases format <;> decide

theorem parserModule_injective : Function.Injective parserModule := by
  intro f f' h
  exact parserName_injective (congrArg (· ++ ".rs") h)

theorem parserModule_ne_client (format : Format) : parserModule format ≠ "api" := by
  cases format <;> decide

end SourceFile

namespace Generation

/-! ## The files of a client -/

variable {config : Config} {endpoints : List Endpoint}

theorem files_prepared (config : Config) (endpoints : List Endpoint) :
    (Generation.mk config endpoints (partsOf config)).files =
      Client.file config endpoints :: config.responseTypes.map (ParserModule.file config) := by
  rw [files, partsOf, List.map_cons, List.map_map]
  rfl

theorem names_files (config : Config) (endpoints : List Endpoint) :
    (Generation.mk config endpoints (partsOf config)).files.map SourceFile.name =
      "api.rs" :: config.responseTypes.map SourceFile.parserName := by
  rw [files_prepared, List.map_cons, List.map_map]
  rfl

theorem nodup_names (h : config.responseTypes.Nodup) :
    ("api.rs" :: config.responseTypes.map SourceFile.parserName).Nodup := by
  rw [List.nodup_cons]
  refine ⟨fun hmem => ?_, List.Nodup.map SourceFile.parserName_injective h⟩
  obtain ⟨format, -, hname⟩ := List.mem_map.mp hmem
  exact SourceFile.parserName_ne_client format hname

theorem filter_exports (hname : ∀ name ∈ config.moduleName?, Text.isIdentifier name = true)
    (hnodup : config.responseTypes.Nodup) (hmem : config.defaultFormat ∈ config.responseTypes) :
    (Generation.mk config endpoints (partsOf config)).files.filter
        (·.exports.contains (SourceFile.parserModule config.defaultFormat ::
          (config.moduleName?.toList ++ ["parse"]))) =
      [ParserModule.file config config.defaultFormat] := by
  have hclient : ¬ (Client.file config endpoints).exports.contains
      (SourceFile.parserModule config.defaultFormat ::
        (config.moduleName?.toList ++ ["parse"])) = true := by
    intro h
    have hhead := SourceFile.head?_of_mem_exports (List.contains_iff_mem.mp h)
    rw [Client.file, moduleName_ofCode config (by decide), List.head?_cons,
      Option.some.injEq] at hhead
    exact SourceFile.parserModule_ne_client _ hhead
  have hformat : (fun format => (ParserModule.file config format).exports.contains
      (SourceFile.parserModule config.defaultFormat :: (config.moduleName?.toList ++ ["parse"]))) =
      (· == config.defaultFormat) := by
    funext format
    rw [ParserModule.exports_file hname, Bool.eq_iff_iff, List.contains_iff_mem,
      List.mem_singleton, List.cons.injEq, and_iff_left rfl, beq_iff_eq, eq_comm]
    exact SourceFile.parserModule_injective.eq_iff
  rw [files_prepared, List.filter_cons, if_neg hclient, List.filter_map, Function.comp_def, hformat,
    List.filter_beq, List.count_eq_one_of_mem hnodup hmem]
  rfl

/-- The files of a configuration are all there. They have their names, and asked for one by one they
come in order, without a failure, until there is none left. One of them has the function that the
client calls. -/
structure Complete (config : Config) (g : Generation) : Prop where
  names : g.files.map SourceFile.name =
    "api.rs" :: config.responseTypes.map fun format => format.tag ++ "_response_parser.rs"
  distinct : (g.files.map SourceFile.name).Nodup
  emitted : ∀ (ε : Type) (k : Nat) (file : SourceFile), g.files[k]? = some file →
    ((g.cursor.after ε k).next ε).1 = .emitted (.ok file)
  ended : ∀ (ε : Type) (k : Nat), 1 + config.responseTypes.length ≤ k →
    (g.cursor.after ε k).next ε = (.ended, g.cursor.after ε k)
  remaining : ∀ (ε : Type) (k : Nat), ∃ left : Nat,
    (g.cursor.after ε k).remaining? = some left ∧
      (left : Int) = max 0 (1 + config.responseTypes.length - k)
  /-- The call is read from the first file, with the modules around it, and the function from the
  file that defines it. -/
  called : ∃ client scope path modules parser, g.files.head? = some client ∧
    client.calls = [(scope, "::".intercalate path)] ∧ (∀ name ∈ path, ':' ∉ name.toList) ∧
    resolve scope path = some (modules ++ ["parse"]) ∧
    g.files.filter (·.exports.contains (modules ++ ["parse"])) = [parser] ∧
    parser.name = config.defaultFormat.tag ++ "_response_parser.rs"

theorem complete {draft : Config.Draft} {sources : List Source} {g : Generation}
    (hc : draft.build = .ok config) (hg : prepare config sources = .ok g) :
    Complete config g := by
  have hnodup := Config.Draft.nodup_of_build hc
  have hmem := Config.Draft.mem_of_build hc
  have hname := Config.Draft.isIdentifier_of_build hc
  obtain ⟨endpoints, -, hvalid, -, rfl⟩ := prepare_eq_ok_iff.mp hg
  have hlength : (Generation.mk config endpoints (partsOf config)).files.length =
      1 + config.responseTypes.length := by
    rw [files_prepared, List.length_cons, List.length_map, Nat.add_comm]
  exact {
    names := by
      rw [names_files, funext SourceFile.parserName_eq]
    distinct := by
      rw [names_files]
      exact nodup_names hnodup
    emitted := fun ε k => (Cursor.next_after k (cursor ⟨config, endpoints, partsOf config⟩)).1
    ended := by
      intro ε k hk
      refine (Cursor.next_after k (cursor ⟨config, endpoints, partsOf config⟩)).2 ?_
      exact List.getElem?_eq_none (hlength ▸ hk)
    remaining := by
      intro ε k
      have hparts : (partsOf config).length = 1 + config.responseTypes.length := by
        rw [partsOf, List.length_cons, List.length_map, Nat.add_comm]
      have hleft : (cursor ⟨config, endpoints, partsOf config⟩).left.remaining =
          1 + config.responseTypes.length := hparts
      refine ⟨_, Cursor.remaining?_after k (Nat.zero_le _), ?_⟩
      rw [hleft]
      omega
    called := by
      refine ⟨Client.file config endpoints, _, Client.parserPath config,
        SourceFile.parserModule config.defaultFormat :: config.moduleName?.toList, _, rfl,
        Client.calls_file hname (Client.isIdentifier_of_valid hvalid),
        Client.not_mem_parserPath hname (by decide), resolve_parserPath config,
        filter_exports hname hnodup hmem, ?_⟩
      exact SourceFile.parserName_eq config.defaultFormat }

/-- Either all files are generated or none. There is none for the first fault of the sources, of
their endpoints one by one, or of the names of the endpoints, and only for such a fault. It does not
matter how the endpoints are spread over the sources. -/
theorem generates_all_or_nothing {draft : Config.Draft} {config : Config}
    (hc : draft.build = .ok config) (sources : List Source) :
    (∀ fault, prepare config sources = .error fault ↔ Fails sources fault) ∧
      ((∃ fault, prepare config sources = .error fault) ↔
        (∃ source ∈ sources, ∃ fault, source.read = .error fault) ∨
          ∃ endpoints, Source.Lists sources endpoints ∧
            ((∃ e ∈ endpoints, ∃ fault, e.validate = .error fault) ∨
              ¬ (endpoints.map Endpoint.name).Nodup)) ∧
      (∀ g, prepare config sources = .ok g →
        Source.Lists sources g.endpoints ∧ Complete config g) ∧
      ∀ sources' endpoints, Source.Lists sources endpoints → Source.Lists sources' endpoints →
        prepare config sources' = prepare config sources := by
  refine ⟨fun fault => prepare_eq_error_iff, ?_, fun g hg => ⟨?_, complete hc hg⟩, ?_⟩
  · rw [← exists_fails_iff]
    exact exists_congr fun fault => prepare_eq_error_iff
  · obtain ⟨endpoints, hread, -, -, rfl⟩ := prepare_eq_ok_iff.mp hg
    exact Source.readAll_eq_ok_iff.mp hread
  · intro sources' endpoints h h'
    rw [prepare, prepare, Source.readAll_eq_ok_iff.mpr h, Source.readAll_eq_ok_iff.mpr h']

/-- A client of two formats, with its endpoints in two sources. -/
theorem generates_all_or_nothing_shop :
    (Config.Draft.mk ["xml", "json", "xml"] (some "shop") (some "json") none).build =
        .ok ⟨[.xml, .json], some "shop", .json, none⟩ ∧
      (∃ g, prepare ⟨[.xml, .json], some "shop", .json, none⟩
          [.listed [⟨"find", .get, "items", []⟩], .listed [⟨"add", .post, "items", []⟩]] =
            .ok g ∧
        Complete ⟨[.xml, .json], some "shop", .json, none⟩ g) ∧
      Fails [.listed [⟨"find", .get, "items", []⟩], .listed [⟨"find", .get, "item", []⟩]]
        (.repeated "find") := by
  have hc : (Config.Draft.mk ["xml", "json", "xml"] (some "shop") (some "json") none).build =
      .ok ⟨[.xml, .json], some "shop", .json, none⟩ := by rfl
  obtain ⟨-, -, hcomplete, -⟩ := generates_all_or_nothing hc
    [.listed [⟨"find", .get, "items", []⟩], .listed [⟨"add", .post, "items", []⟩]]
  obtain ⟨hfails, -, -, -⟩ := generates_all_or_nothing hc
    [.listed [⟨"find", .get, "items", []⟩], .listed [⟨"find", .get, "item", []⟩]]
  exact ⟨hc, ⟨_, rfl, (hcomplete _ rfl).2⟩, (hfails _).mp rfl⟩

end Generation

end ApiClient
