import ApiClient.Proofs.Generation.Preparing
import ApiClient.Proofs.Json.Records

/-!
# Descriptions of endpoints

* `WrittenAs`: the objects that stand for an endpoint, with their members in any order;
* `gathered`, `yields_member`, `gathers_members`: what is known of an endpoint when some members
  have been read, the step of one member, and that of all of them;
* `yields_endpoint`, `yields_description`: an endpoint and a list of endpoints are read back;
* `IsDescription`, `exists_isDescription`: the texts that describe a list, and that there are some;
* `described_as_listed`: descriptions are read as the lists that they describe, so that the same
  comes out of both.
-/

namespace ApiClient

open Json (Tree Yields Gathers IsGap)

namespace Endpoint

variable {e : Endpoint} {t : Tree} {members : List (String × Tree)} {keys : List String}

/-! ## Endpoints as objects -/

/-- The member with the parameters of an endpoint. -/
def paramsMember (e : Endpoint) : String × Tree := ("params", .list (e.params.map .text))

/-- The members that cannot be left out. -/
def requiredMembers (e : Endpoint) : List (String × Tree) :=
  [("name", .text e.name), ("method", .text e.method.name), ("path", .text e.path)]

/-- The objects that stand for an endpoint: its members in any order. The parameters may be left out
if there are none. -/
inductive WrittenAs (e : Endpoint) : Tree → Prop
  | full {members : List (String × Tree)} (h : members.Perm (e.paramsMember :: e.requiredMembers)) :
      WrittenAs e (.map members)
  | short {members : List (String × Tree)} (hparams : e.params = [])
      (h : members.Perm e.requiredMembers) : WrittenAs e (.map members)

/-- Every member is one of the endpoint's, each key is there once, and nothing is missing but the
parameters if there are none. -/
theorem WrittenAs.exists_members (h : e.WrittenAs t) :
    ∃ members, t = .map members ∧
      (∀ member ∈ members, member ∈ e.paramsMember :: e.requiredMembers) ∧
      (Entries.keys members).Nodup ∧ (∀ member ∈ e.requiredMembers, member ∈ members) ∧
      (e.paramsMember ∈ members ∨ e.params = []) := by
  have hkeys : (Entries.keys (e.paramsMember :: e.requiredMembers)).Nodup :=
    show ["params", "name", "method", "path"].Nodup by decide
  cases h with
  | full h =>
    exact ⟨_, rfl, fun member => h.mem_iff.mp, (h.map Prod.fst).nodup_iff.mpr hkeys,
      fun member hmember => h.mem_iff.mpr (List.mem_cons_of_mem _ hmember),
      .inl (h.mem_iff.mpr List.mem_cons_self)⟩
  | short hparams h =>
    exact ⟨_, rfl, fun member hmember => List.mem_cons_of_mem _ (h.mem_iff.mp hmember),
      (h.map Prod.fst).nodup_iff.mpr (List.nodup_cons.mp hkeys).2, fun member => h.mem_iff.mpr,
      .inr hparams⟩

/-! ## Reading -/

/-- What is known of an endpoint when the members with these keys have been read. -/
def gathered (e : Endpoint) (keys : List String) : Gathered where
  name? := if "name" ∈ keys then some e.name else none
  method? := if "method" ∈ keys then some e.method else none
  path? := if "path" ∈ keys then some e.path else none
  params? := if "params" ∈ keys then some e.params else none

theorem gathered_name : e.gathered ("name" :: keys) =
    { e.gathered keys with name? := some e.name } := by
  simp [gathered]

theorem gathered_method : e.gathered ("method" :: keys) =
    { e.gathered keys with method? := some e.method } := by
  simp [gathered]

theorem gathered_path : e.gathered ("path" :: keys) =
    { e.gathered keys with path? := some e.path } := by
  simp [gathered]

theorem gathered_params : e.gathered ("params" :: keys) =
    { e.gathered keys with params? := some e.params } := by
  simp [gathered]

theorem yields_method (m : Method) : Yields Method.reader (.text m.name) m := by
  intro n gap s rest hgap hs _
  obtain ⟨k, hk, rfl⟩ := hs.exists_string
  rw [Method.reader, List.cons_append, List.append_assoc, List.singleton_append,
    Json.skipBlank_gap hgap (by decide)]
  dsimp only
  rw [if_neg (by decide), if_pos rfl, Json.string_spelled hk]
  dsimp only [bind, Except.bind]
  rw [Method.ofVariant, Method.ofName?_name]

/-- A member that has not been read yet has a reader, and that adds it to what is known. -/
theorem yields_member {member : String × Tree}
    (hmember : member ∈ e.paramsMember :: e.requiredMembers) (hnew : member.1 ∉ keys) :
    ∃ reader, shape.member (e.gathered keys) member.1 = .ok reader ∧
      Yields reader member.2 (e.gathered (member.1 :: keys)) := by
  simp only [paramsMember, requiredMembers, List.mem_cons, List.not_mem_nil, or_false] at hmember
  rcases hmember with rfl | rfl | rfl | rfl
  · refine ⟨paramsField.value (e.gathered keys), Json.Shape.member_of_find? rfl ?_, ?_⟩
    · simp [paramsField, gathered, hnew]
    · rw [gathered_params]
      exact (Json.yields_texts e.params).map fun params =>
        { e.gathered keys with params? := some params }
  · refine ⟨nameField.value (e.gathered keys), Json.Shape.member_of_find? rfl ?_, ?_⟩
    · simp [nameField, gathered, hnew]
    · rw [gathered_name]
      exact (Json.yields_text e.name).map fun name => { e.gathered keys with name? := some name }
  · refine ⟨methodField.value (e.gathered keys), Json.Shape.member_of_find? rfl ?_, ?_⟩
    · simp [methodField, gathered, hnew]
    · rw [gathered_method]
      exact (yields_method e.method).map fun method =>
        { e.gathered keys with method? := some method }
  · refine ⟨pathField.value (e.gathered keys), Json.Shape.member_of_find? rfl ?_, ?_⟩
    · simp [pathField, gathered, hnew]
    · rw [gathered_path]
      exact (Json.yields_text e.path).map fun path => { e.gathered keys with path? := some path }

/-- All members lead from what is known to what is known and them. -/
theorem gathers_members (hsub : ∀ member ∈ members, member ∈ e.paramsMember :: e.requiredMembers)
    (hnodup : (Entries.keys members ++ keys).Nodup) :
    Gathers shape.member (e.gathered keys) members
      (e.gathered ((Entries.keys members).reverse ++ keys)) := by
  -- every key is new among those that have been read
  induction members generalizing keys with
  | nil => exact .nil _
  | cons member members ih =>
    obtain ⟨hmember, hmembers⟩ := List.forall_mem_cons.mp hsub
    have hkeys : (Entries.keys members ++ member.1 :: keys).Nodup :=
      List.nodup_middle.mpr hnodup
    have hnew : member.1 ∉ keys := fun hmem =>
      (List.nodup_cons.mp hnodup).1 (List.mem_append_right _ hmem)
    obtain ⟨reader, hreader, hyields⟩ := yields_member hmember hnew
    have hrest := ih hmembers hkeys
    rw [List.append_cons, ← List.reverse_cons] at hrest
    exact .cons hreader hyields hrest

theorem finish_gathered (hrequired : ∀ member ∈ e.requiredMembers, member.1 ∈ keys)
    (hparams : "params" ∈ keys ∨ e.params = []) : (e.gathered keys).finish = .ok e := by
  have hname : "name" ∈ keys := hrequired ("name", .text e.name) (by simp [requiredMembers])
  have hmethod : "method" ∈ keys :=
    hrequired ("method", .text e.method.name) (by simp [requiredMembers])
  have hpath : "path" ∈ keys := hrequired ("path", .text e.path) (by simp [requiredMembers])
  have hgetD : (e.gathered keys).params?.getD [] = e.params := by
    by_cases hmem : "params" ∈ keys
    · simp [gathered, hmem]
    · simp [gathered, hmem, hparams.resolve_left hmem]
  rw [Gathered.finish, hgetD]
  simp only [gathered, if_pos hname, if_pos hmethod, if_pos hpath]

/-- The objects that stand for an endpoint are read as that. -/
theorem WrittenAs.yields (h : e.WrittenAs t) : Yields (shape.reader .text) t e := by
  obtain ⟨members, rfl, hsub, hnodup, hrequired, hparams⟩ := h.exists_members
  rw [← List.append_nil (Entries.keys members)] at hnodup
  have hgathers := gathers_members hsub hnodup
  have hmem : ∀ member ∈ members, member.1 ∈ (Entries.keys members).reverse ++ [] :=
    fun member hmember => by
      rw [List.append_nil, List.mem_reverse]
      exact List.mem_map_of_mem hmember
  exact Json.Shape.yields_reader hgathers (finish_gathered
    (fun member hmember => hmem member (hrequired member hmember)) (hparams.imp_left (hmem _)))

/-! ## Descriptions -/

/-- The object that lists endpoints. -/
def description (trees : List Tree) : Tree := .map [("endpoints", .list trees)]

/-- Objects that stand for endpoints are read as the list of them. -/
theorem yields_description {endpoints : List Endpoint} {trees : List Tree}
    (h : List.Forall₂ WrittenAs endpoints trees) :
    Yields (descriptionShape.reader .text) (description trees) endpoints := by
  have hitems : List.Forall₂ (Yields (shape.reader .text)) trees endpoints :=
    (h.imp fun _ _ => WrittenAs.yields).flip
  have hlist := (Json.yields_list shape.reader_gap hitems).map some
  exact Json.Shape.yields_reader (.cons (Json.Shape.member_of_find? rfl rfl) hlist (.nil _)) rfl

/-- The texts that describe a list of endpoints: an object with nothing but the list, with white
space and escapes of all kinds. -/
inductive IsDescription (endpoints : List Endpoint) : String → Prop
  | intro {n : Nat} {trees : List Tree} {before s after : List Char}
      (items : List.Forall₂ WrittenAs endpoints trees) (h : Json.Spells n (description trees) s)
      (hbefore : IsGap before) (hafter : IsGap after) :
      IsDescription endpoints (String.ofList (before ++ (s ++ after)))

theorem IsDescription.parseAll {endpoints : List Endpoint} {text : String}
    (h : IsDescription endpoints text) : parseAll text = .ok endpoints := by
  cases h with
  | intro items h hbefore hafter =>
    rw [Endpoint.parseAll, String.toList_ofList]
    exact Json.read_spelled (yields_description items) h hbefore hafter

theorem WrittenAs.exists_spells (h : e.WrittenAs t) : ∃ s, Json.Spells 2 t s := by
  obtain ⟨members, rfl, hsub, -, -, -⟩ := h.exists_members
  refine Json.exists_spells_map (fun member hmember => ?_) fun hnumber => ?_
  · have hmem := hsub member hmember
    simp only [paramsMember, requiredMembers, List.mem_cons, List.not_mem_nil, or_false] at hmem
    rcases hmem with rfl | rfl | rfl | rfl
    · refine Json.exists_spells_list fun t ht => ?_
      obtain ⟨param, -, rfl⟩ := List.mem_map.mp ht
      exact ⟨_, Json.spells_quote 0 param⟩
    all_goals exact ⟨_, Json.spells_quote 1 _⟩
  · obtain ⟨member, hmember, hkey⟩ := List.mem_map.mp hnumber
    have hmem := List.mem_map_of_mem (f := Prod.fst) (hsub member hmember)
    rw [hkey] at hmem
    exact absurd hmem (show Json.numberKey ∉ ["params", "name", "method", "path"] by decide)

/-- In whatever way endpoints are written, there is a text of their description. -/
theorem exists_spells_description {endpoints : List Endpoint} {trees : List Tree}
    (h : List.Forall₂ WrittenAs endpoints trees) : ∃ s, Json.Spells 4 (description trees) s := by
  have hitems : ∀ t ∈ trees, ∃ s, Json.Spells 2 t s := fun t ht => by
    obtain ⟨e, he⟩ := exists_forall₂_iff.mp ⟨endpoints, h.flip⟩ t ht
    exact WrittenAs.exists_spells he
  have hmembers : ∀ member ∈ [("endpoints", Tree.list trees)], ∃ s, Json.Spells 3 member.2 s :=
    List.forall_mem_singleton.mpr (Json.exists_spells_list hitems)
  exact Json.exists_spells_map hmembers (show Json.numberKey ∉ ["endpoints"] by decide)

theorem exists_isDescription (endpoints : List Endpoint) :
    ∃ text, IsDescription endpoints text := by
  have hitems : List.Forall₂ WrittenAs endpoints
      (endpoints.map fun e => .map (e.paramsMember :: e.requiredMembers)) := by
    rw [List.forall₂_map_right_iff, List.forall₂_same]
    exact fun e _ => .full (.refl _)
  obtain ⟨s, hs⟩ := exists_spells_description hitems
  exact ⟨_, .intro hitems hs Json.isGap_nil Json.isGap_nil⟩

end Endpoint

open Endpoint

namespace Source

theorem read_described {endpoints : List Endpoint} {text : String}
    (h : IsDescription endpoints text) : read (.described text) = .ok endpoints := by
  rw [read, readDescription, h.parseAll]
  rfl

theorem readAll_append_congr {sources more : List Source} (h : readAll sources = readAll more)
    (before : List Source) : readAll (before ++ sources) = readAll (before ++ more) := by
  induction before with
  | nil => exact h
  | cons source before ih => rw [List.cons_append, List.cons_append, readAll, readAll, ih]

/-- Descriptions are read as the list of what they describe, whatever follows. -/
theorem readAll_described {lists : List (List Endpoint)} {texts : List String}
    (h : List.Forall₂ IsDescription lists texts) (after : List Source) :
    readAll (texts.map .described ++ after) = readAll (.listed lists.flatten :: after) := by
  induction h with
  | nil =>
    rw [readAll, read]
    exact (bind_pure _).symm
  | cons htext _ ih =>
    rw [List.map_cons, List.cons_append, readAll, ih, read_described htext, readAll, readAll, read,
      read, List.flatten_cons]
    cases readAll after with
    | error fault => rfl
    | ok more => exact congrArg Except.ok (List.append_assoc _ _ _).symm

end Source

namespace Generation

/-- Every list of endpoints has a description, and every description of it is read as the list. It
makes no difference to what is generated, or to why nothing is, whether sources have the list, or
descriptions of parts of it in order. -/
theorem described_as_listed (endpoints : List Endpoint) :
    (∃ text, IsDescription endpoints text) ∧
      (∀ text, IsDescription endpoints text →
        Source.read (.described text) = .ok endpoints) ∧
      ∀ (lists : List (List Endpoint)) (texts : List String), lists.flatten = endpoints →
        List.Forall₂ IsDescription lists texts →
        ∀ (config : Config) (before after : List Source),
          prepare config (before ++ (texts.map .described ++ after)) =
            prepare config (before ++ .listed endpoints :: after) := by
  refine ⟨exists_isDescription endpoints, fun text => Source.read_described, ?_⟩
  rintro lists texts rfl htexts config before after
  have hread := Source.readAll_append_congr (Source.readAll_described htexts after) before
  rw [prepare, prepare, hread]

/-- A list in two descriptions. In the first the members of an endpoint are in another order and
without parameters, one key is written with an escape, and there is white space. -/
theorem described_as_listed_parts :
    prepare ⟨[.xml], none, .xml, none⟩
        [.described ("\x7b\"endpoints\" : [\x7b\"path\":\"p\",\t" ++
            "\"n\\u0061me\":\"a\",\"method\":\"PUT\"\x7d]\x7d\n"),
          .described ("\x7b\"endpoints\":[\x7b\"params\":[\"q\"],\"name\":\"b\"," ++
            "\"method\":\"GET\",\"path\":\"p\"\x7d]\x7d")] =
      prepare ⟨[.xml], none, .xml, none⟩
        [.listed [⟨"a", .put, "p", []⟩, ⟨"b", .get, "p", ["q"]⟩]] := by
  obtain ⟨-, -, hsame⟩ :=
    described_as_listed [⟨"a", .put, "p", []⟩, ⟨"b", .get, "p", ["q"]⟩]
  refine hsame [[_], [_]] [_, _] rfl (.cons ?_ (.cons ?_ .nil)) _ [] []
  · have hname : Json.SpellsString "name".toList "n\\u0061me".toList :=
      .cons (Json.spells_escape 'n')
        (.cons (@Json.SpellsChar.code '0' '0' '6' '1' 0x61 (by decide) rfl rfl)
          (Json.spells_escaped ['m', 'e']))
    have hput : Json.Spells 2
        (.map [("path", .text "p"), ("name", .text "a"), ("method", .text "PUT")])
        "\x7b\"path\":\"p\",\t\"n\\u0061me\":\"a\",\"method\":\"PUT\"\x7d".toList :=
      .map (Json.spellsMembers_cons "path" (Json.spells_quote 1 "p")
        (@Json.SpellsMembers.cons _ _ _ _ _ [] ['\t'] _ [] [] _ _ Json.isGap_nil (by decide) hname
          Json.isGap_nil Json.isGap_nil (Json.spells_quote 1 "a")
          (Json.spellsMembers_cons "method" (Json.spells_quote 1 "PUT") Json.spellsMembers_nil)))
        (by decide)
    have hwritten : WrittenAs ⟨"a", .put, "p", []⟩
        (.map [("path", .text "p"), ("name", .text "a"), ("method", .text "PUT")]) :=
      .short rfl (@List.perm_append_comm _ [_] [_, _])
    have hlist := Json.Spells.list (Json.spellsItems_cons hput Json.spellsItems_nil)
    have hmembers := @Json.SpellsMembers.cons 3 true _ _ _ [] [] _ [' '] [' '] _ _ Json.isGap_nil
      Json.isGap_nil (Json.spells_escaped "endpoints".toList) (by decide) (by decide) hlist
      Json.spellsMembers_nil
    exact @IsDescription.intro _ _ _ [] _ ['\n'] (.cons hwritten .nil)
      (.map hmembers (by decide)) Json.isGap_nil (by decide)
  · have hget : Json.Spells 2
        (.map [("params", .list [.text "q"]), ("name", .text "b"), ("method", .text "GET"),
          ("path", .text "p")])
        "\x7b\"params\":[\"q\"],\"name\":\"b\",\"method\":\"GET\",\"path\":\"p\"\x7d".toList :=
      .map (Json.spellsMembers_cons "params"
          (.list (Json.spellsItems_cons (Json.spells_quote 0 "q") Json.spellsItems_nil))
        (Json.spellsMembers_cons "name" (Json.spells_quote 1 "b")
        (Json.spellsMembers_cons "method" (Json.spells_quote 1 "GET")
        (Json.spellsMembers_cons "path" (Json.spells_quote 1 "p") Json.spellsMembers_nil))))
        (by decide)
    have hwritten : WrittenAs ⟨"b", .get, "p", ["q"]⟩
        (.map [("params", .list [.text "q"]), ("name", .text "b"), ("method", .text "GET"),
          ("path", .text "p")]) :=
      .full (.refl _)
    have hlist := Json.Spells.list (Json.spellsItems_cons hget Json.spellsItems_nil)
    have hmembers : Json.SpellsMembers 3 true _ _ :=
      Json.spellsMembers_cons "endpoints" hlist Json.spellsMembers_nil
    exact @IsDescription.intro _ _ _ [] _ [] (.cons hwritten .nil)
      (.map hmembers (by decide)) Json.isGap_nil Json.isGap_nil

end Generation

end ApiClient
