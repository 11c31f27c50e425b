import ApiClient.Proofs.Config.Building
import ApiClient.Proofs.Generation.ClientLines
import ApiClient.Proofs.Generation.Preparing

/-!
# A client's file is read back

* `read?_file`: the file tells the module, the version, the format and the endpoints;
* `functions_file`, `nodup_functions`: the functions of its implementation, no two of one name;
* `contents_eq_iff`: two files are the same only if they tell the same;
* `client_reads_back`: all of this for whatever is generated.
-/

namespace ApiClient

namespace Client

/-! ## From lines to contents -/

theorem endpointsOf_toldOf (e : Endpoint) (rest : List Declared) :
    endpointsOf (toldOf e ++ rest) = e :: endpointsOf rest := by
  cases e
  rfl

theorem endpointsOf_functions (endpoints : List Endpoint) :
    endpointsOf (endpoints.flatMap toldOf ++ [.function "call"]) = endpoints := by
  induction endpoints with
  | nil => rfl
  | cons e endpoints ih => rw [List.flatMap_cons, List.append_assoc, endpointsOf_toldOf, ih]

theorem functions_functions (endpoints : List Endpoint) :
    (endpoints.flatMap toldOf ++ [Declared.function "call"]).filterMap Declared.function? =
      endpoints.map Endpoint.name ++ ["call"] := by
  induction endpoints with
  | nil => rfl
  | cons e endpoints ih =>
    rw [List.flatMap_cons, List.append_assoc, List.filterMap_append, ih]
    rfl

theorem moduleName?_functions (endpoints : List Endpoint) :
    (endpoints.flatMap toldOf ++ [Declared.function "call"]).findSome? Declared.moduleName? =
      none := by
  induction endpoints with
  | nil => rfl
  | cons e endpoints ih =>
    rw [List.flatMap_cons, List.append_assoc, List.findSome?_append, ih]
    rfl

theorem version?_toldAll (config : Config) (endpoints : List Endpoint) :
    (toldAll config endpoints).findSome? Declared.version? = some config.defaultVersion? := by
  rw [toldAll]
  cases config.moduleName? <;> rfl

theorem format?_toldAll (config : Config) (endpoints : List Endpoint) :
    (toldAll config endpoints).findSome? Declared.format? = some config.defaultFormat := by
  rw [toldAll]
  cases config.moduleName? <;> rfl

theorem moduleName?_toldAll (config : Config) (endpoints : List Endpoint) :
    (toldAll config endpoints).findSome? Declared.moduleName? = config.moduleName? := by
  rw [toldAll, List.append_assoc]
  cases config.moduleName? with
  | none => exact moduleName?_functions endpoints
  | some name => rfl

theorem endpointsOf_toldAll (config : Config) (endpoints : List Endpoint) :
    endpointsOf (toldAll config endpoints) = endpoints := by
  rw [toldAll, List.append_assoc]
  cases config.moduleName? with
  | none => exact endpointsOf_functions endpoints
  | some name => exact endpointsOf_functions endpoints

section File

variable {config : Config} {endpoints : List Endpoint}
  (hname : ∀ name ∈ config.moduleName?, Text.isIdentifier name = true)
  (h : ∀ e ∈ endpoints, Text.isIdentifier e.name = true)
include hname h

theorem read?_file :
    read? (file config endpoints).contents =
      some ⟨config.moduleName?, config.defaultVersion?, config.defaultFormat, endpoints⟩ := by
  rw [read?, declared_file hname h, version?_toldAll, format?_toldAll, moduleName?_toldAll,
    endpointsOf_toldAll]
  rfl

theorem functions_file :
    functions (file config endpoints).contents =
      "new" :: (endpoints.map Endpoint.name ++ ["call"]) := by
  rw [functions, declared_file hname h, toldAll, List.append_assoc, ← functions_functions]
  cases config.moduleName? <;> rfl

end File

/-- The file depends on nothing else that is in the configuration. -/
theorem file_congr {config config' : Config} (endpoints : List Endpoint)
    (hm : config.moduleName? = config'.moduleName?)
    (hv : config.defaultVersion? = config'.defaultVersion?)
    (hf : config.defaultFormat = config'.defaultFormat) :
    file config endpoints = file config' endpoints := by
  obtain ⟨formats, moduleName?, format, version?⟩ := config
  obtain ⟨formats', moduleName?', format', version?'⟩ := config'
  cases hm
  cases hv
  cases hf
  rfl

/-- No endpoint takes a name of the client's own, and no two have one name. -/
theorem nodup_functions {endpoints : List Endpoint} (h : ∀ e ∈ endpoints, e.validate = .ok ())
    (hn : (endpoints.map Endpoint.name).Nodup) :
    ("new" :: (endpoints.map Endpoint.name ++ ["call"])).Nodup := by
  have hreserved : ∀ name ∈ endpoints.map Endpoint.name, name ≠ "new" ∧ name ≠ "call" := by
    intro name hm
    obtain ⟨e, he, rfl⟩ := List.mem_map.mp hm
    have hfree := (Endpoint.validate_eq_ok_iff.mp (h e he)).2.1
    simpa [Endpoint.reservedNames] using hfree
  rw [List.nodup_cons, List.nodup_append]
  refine ⟨?_, hn, by simp, ?_⟩
  · rw [List.mem_append, List.mem_singleton, not_or]
    exact ⟨fun hm => (hreserved _ hm).1 rfl, by decide⟩
  · intro name hm other ho
    obtain rfl := List.mem_singleton.mp ho
    exact (hreserved name hm).2

/-- Whatever passes the checks gives the file of a client. -/
theorem find?_files {draft : Config.Draft} {config : Config} {sources : List Source}
    {g : Generation} (hc : draft.build = .ok config)
    (hg : Generation.prepare config sources = .ok g) :
    g.files.find? (·.name == "api.rs") = some (file config g.endpoints) ∧
      Source.readAll sources = .ok g.endpoints ∧
      (∀ name ∈ config.moduleName?, Text.isIdentifier name = true) ∧
      (∀ e ∈ g.endpoints, e.validate = .ok ()) ∧ (g.endpoints.map Endpoint.name).Nodup := by
  obtain ⟨endpoints, hread, hvalid, hnodup, rfl⟩ := Generation.prepare_eq_ok_iff.mp hg
  obtain ⟨first, rest, -, format, -, hname, -, rfl⟩ := Config.Draft.build_eq_ok_iff.mp hc
  exact ⟨rfl, hread, hname, hvalid, hnodup⟩

theorem isIdentifier_of_valid {endpoints : List Endpoint}
    (h : ∀ e ∈ endpoints, e.validate = .ok ()) :
    ∀ e ∈ endpoints, Text.isIdentifier e.name = true :=
  fun e he => (Endpoint.validate_eq_ok_iff.mp (h e he)).1

theorem contents_eq_iff {config config' : Config} {endpoints endpoints' : List Endpoint}
    (hname : ∀ name ∈ config.moduleName?, Text.isIdentifier name = true)
    (hname' : ∀ name ∈ config'.moduleName?, Text.isIdentifier name = true)
    (h : ∀ e ∈ endpoints, Text.isIdentifier e.name = true)
    (h' : ∀ e ∈ endpoints', Text.isIdentifier e.name = true) :
    (file config endpoints).contents = (file config' endpoints').contents ↔
      config.moduleName? = config'.moduleName? ∧
        config.defaultVersion? = config'.defaultVersion? ∧
        config.defaultFormat = config'.defaultFormat ∧ endpoints = endpoints' := by
  constructor
  · intro he
    have hread := read?_file hname h
    rw [he, read?_file hname' h', Option.some.injEq, Contents.mk.injEq] at hread
    obtain ⟨hm, hv, hf, hendpoints⟩ := hread
    exact ⟨hm.symm, hv.symm, hf.symm, hendpoints.symm⟩
  · rintro ⟨hm, hv, hf, rfl⟩
    rw [file_congr endpoints hm hv hf]

end Client

/-- The file of the client tells the inputs that it is made from, so that two such files are the
same only if these inputs are. -/
theorem client_reads_back {draft : Config.Draft} {config : Config} {sources : List Source}
    {g : Generation} (hc : draft.build = .ok config)
    (hg : Generation.prepare config sources = .ok g) :
    ∃ client, g.files.find? (·.name == "api.rs") = some client ∧
      Source.readAll sources = .ok g.endpoints ∧
      Client.read? client.contents =
        some ⟨config.moduleName?, config.defaultVersion?, config.defaultFormat, g.endpoints⟩ ∧
      Client.functions client.contents = "new" :: (g.endpoints.map Endpoint.name ++ ["call"]) ∧
      (Client.functions client.contents).Nodup ∧
      ∀ draft' config' sources' g' client', Config.Draft.build draft' = .ok config' →
        Generation.prepare config' sources' = .ok g' →
        g'.files.find? (·.name == "api.rs") = some client' →
        (client.contents = client'.contents ↔
          config.moduleName? = config'.moduleName? ∧
            config.defaultVersion? = config'.defaultVersion? ∧
            config.defaultFormat = config'.defaultFormat ∧ g.endpoints = g'.endpoints) := by
  obtain ⟨hfile, hread, hname, hvalid, hnodup⟩ := Client.find?_files hc hg
  have hid := Client.isIdentifier_of_valid hvalid
  have hfunctions := Client.functions_file hname hid
  refine ⟨_, hfile, hread, Client.read?_file hname hid, hfunctions, ?_, ?_⟩
  · rw [hfunctions]
    exact Client.nodup_functions hvalid hnodup
  · intro draft' config' sources' g' client' hc' hg' hclient
    obtain ⟨hfile', -, hname', hvalid', -⟩ := Client.find?_files hc' hg'
    obtain rfl := Option.some.inj (hfile'.symm.trans hclient)
    exact Client.contents_eq_iff hname hname' hid (Client.isIdentifier_of_valid hvalid')

/-- A path and a parameter that look like the end of their literals. -/
theorem client_reads_back_shop :
    (Config.Draft.mk ["json"] (some "shop") none (some "v1")).build =
        .ok ⟨[.json], some "shop", .json, some "v1"⟩ ∧
      Generation.prepare ⟨[.json], some "shop", .json, some "v1"⟩
          [.listed [⟨"find", .get, "items/{id}\",\n", ["a\"],", "é"]⟩]] =
        .ok ⟨⟨[.json], some "shop", .json, some "v1"⟩,
          [⟨"find", .get, "items/{id}\",\n", ["a\"],", "é"]⟩], [.client, .parser .json]⟩ ∧
      ∃ contents, Client.read? contents =
          some ⟨some "shop", some "v1", .json,
            [⟨"find", .get, "items/{id}\",\n", ["a\"],", "é"]⟩]⟩ ∧
        Client.functions contents = ["new", "find", "call"] := by
  have hc : (Config.Draft.mk ["json"] (some "shop") none (some "v1")).build =
      .ok ⟨[.json], some "shop", .json, some "v1"⟩ := by rfl
  have hg : Generation.prepare ⟨[.json], some "shop", .json, some "v1"⟩
        [.listed [⟨"find", .get, "items/{id}\",\n", ["a\"],", "é"]⟩]] =
      .ok ⟨⟨[.json], some "shop", .json, some "v1"⟩,
        [⟨"find", .get, "items/{id}\",\n", ["a\"],", "é"]⟩], [.client, .parser .json]⟩ := by rfl
  obtain ⟨client, -, -, hread, hfunctions, -, -⟩ := client_reads_back hc hg
  exact ⟨hc, hg, client.contents, hread, hfunctions⟩

end ApiClient
