import ApiClient.Proofs.Code.Blocks
import ApiClient.Proofs.Generation.ClientLines

/-!
# Modules in generated files

A module is open from the line that opens it up to the next one that is not indented deeper.

* `placed`: what a reader makes of lines, each with the modules around it;
* `SourceFile.read`: the same for a file, which is a module itself;
* `placed_append`: lines that open no module and close none;
* `le_spacesOf_linesOfAll`: lines of code are deep enough for that;
* `placed_header`, `placed_module`: what stands around the contents of a file;
* `read_ofCode`: the contents of a file stand in its own module, or in the one that wraps them.
-/

namespace ApiClient

open Client (Declared readLine? word)

variable {α : Type} {reader : List Char → Option α} {modules : List (Nat × String)}
  {lines : List (List Char)}

/-! ## Lines in modules -/

/-- The module that a line opens. -/
def opened? (line : List Char) : Option String := (readLine? line).bind Declared.moduleName?

/-- The modules that are open at a line, given those that were open before it. -/
def around (modules : List (Nat × String)) (line : List Char) : List (Nat × String) :=
  if line.isEmpty then modules else modules.filter (·.1 < spacesOf line)

/-- The modules that are open behind a line, given those that are open at it. -/
def inside (modules : List (Nat × String)) (line : List Char) : List (Nat × String) :=
  match opened? line with
  | none => modules
  | some name => modules ++ [(spacesOf line, name)]

/-- What `reader` makes of lines, each with the modules around it. The modules that are open have
their indentation with them, the outermost first. -/
def placed (reader : List Char → Option α) :
    List (Nat × String) → List (List Char) → List (List String × α)
  | _, [] => []
  | modules, line :: rest =>
    let modules := around modules line
    (reader line).toList.map (modules.map (·.2), ·) ++ placed reader (inside modules line) rest

/-- The module of a file: its name up to the full stop. -/
def SourceFile.moduleName (file : SourceFile) : String := word '.' file.name.toList

/-- What `reader` makes of the lines of a file, each with the modules around it. -/
def SourceFile.read (reader : List Char → Option α) (file : SourceFile) :
    List (List String × α) :=
  (placed reader [] (Text.split '\n' file.contents.toList)).map fun p =>
    (file.moduleName :: p.1, p.2)

theorem around_nil (line : List Char) : around [] line = [] := ite_self []

theorem placed_cons_of_none {line : List Char} (h : reader line = none)
    (rest : List (List Char)) :
    placed reader modules (line :: rest) =
      placed reader (inside (around modules line) line) rest := by
  rw [placed, h]
  rfl

/-- Lines that open no module and are deep enough to close none. -/
theorem placed_append (hopened : ∀ line ∈ lines, opened? line = none)
    (hdeep : ∀ line ∈ lines, line = [] ∨ ∀ m ∈ modules, m.1 < spacesOf line)
    (rest : List (List Char)) :
    placed reader modules (lines ++ rest) =
      (lines.filterMap reader).map (modules.map (·.2), ·) ++ placed reader modules rest := by
  induction lines with
  | nil => rfl
  | cons line lines ih =>
    rw [List.forall_mem_cons] at hopened hdeep
    have haround : around modules line = modules := by
      rw [around]
      obtain rfl | hdeep := hdeep.1
      · rfl
      · rw [List.filter_eq_self.mpr fun m hm => decide_eq_true (hdeep m hm), ite_self]
    rw [List.cons_append, placed, haround, inside, hopened.1, ih hopened.2 hdeep.2,
      List.filterMap_cons]
    cases reader line <;> rfl

/-! ## Lines of code -/

theorem le_spacesOf_indented (depth : Nat) (text : List Char) :
    4 * depth ≤ spacesOf (Code.indented depth text) := by
  rw [spacesOf, Code.indented_eq, List.takeWhile_append_of_pos, List.length_append,
    List.length_replicate]
  · exact Nat.le_add_right _ _
  · intro c hc
    simp [List.eq_of_mem_replicate hc]

mutual

/-- The lines of code are indented at least as deep as the code. -/
theorem le_spacesOf_lines : ∀ (c : Code) (depth : Nat),
    ∀ line ∈ c.lines depth, line = [] ∨ 4 * depth ≤ spacesOf line
  | .line text, depth, line, h => by
    obtain rfl := List.mem_singleton.mp h
    exact .inr (le_spacesOf_indented depth _)
  | .blank, depth, line, h => .inl (List.mem_singleton.mp h)
  | .block head body tail, depth, line, h => by
    rw [Code.lines, List.mem_cons, List.mem_append, List.mem_singleton] at h
    rcases h with rfl | h | rfl
    · exact .inr (le_spacesOf_indented depth _)
    · exact (le_spacesOf_linesOfAll body (depth + 1) line h).imp_right fun h => by omega
    · exact .inr (le_spacesOf_indented depth _)

theorem le_spacesOf_linesOfAll : ∀ (code : List Code) (depth : Nat),
    ∀ line ∈ Code.linesOfAll depth code, line = [] ∨ 4 * depth ≤ spacesOf line
  | [], _, _, h => by cases h
  | c :: code, depth, line, h => by
    rcases List.mem_append.mp h with h | h
    · exact le_spacesOf_lines c depth line h
    · exact le_spacesOf_linesOfAll code depth line h

end

/-! ## Files -/

theorem moduleName_ofCode (config : Config) {name : String} (h : '.' ∉ name.toList)
    (code : List Code) : (SourceFile.ofCode config name code).moduleName = name := by
  have hextension : ".rs".toList = '.' :: "rs".toList := rfl
  rw [SourceFile.moduleName, SourceFile.ofCode, String.toList_append, hextension,
    Client.word_append h, String.ofList_toList]

/-- A reader that makes nothing of what stands around the contents of a file. -/
structure SkipsFrame (reader : List Char → Option α) : Prop where
  header : reader SourceFile.header.toList = none
  blank : reader [] = none
  opening : ∀ name, reader (("pub mod " ++ name ++ " ").toList ++ ['{']) = none
  closing : reader ['}'] = none

theorem opened?_module {name : String} (h : Text.isIdentifier name = true) :
    opened? (("pub mod " ++ name ++ " ").toList ++ ['{']) = some name := by
  rw [opened?, Client.readLine?_module h]
  rfl

variable {config : Config} {code : List Code}

/-- Lines that tell of no module open none. -/
theorem opened?_of_told {depth : Nat} (h : ∀ name, .moduleName name ∉ Client.told depth code) :
    ∀ line ∈ Code.linesOfAll depth code, opened? line = none := by
  intro line hline
  rw [opened?]
  cases hread : readLine? line with
  | none => rfl
  | some told =>
    cases told with
    | moduleName name => exact absurd (List.mem_filterMap.mpr ⟨line, hline, hread⟩) (h name)
    | _ => rfl

/-- Nothing is made of the header of a file and the empty line behind it. -/
theorem placed_header (hread : SkipsFrame reader) (rest : List (List Char)) :
    placed reader [] (Code.linesOfAll 0 [.line SourceFile.header, .blank] ++ rest) =
      placed reader [] rest := by
  have hheader : opened? SourceFile.header.toList = none := by
    have hline : readLine? SourceFile.header.toList = none :=
      Client.readLine?_other rfl (by decide)
    rw [opened?, hline]
    rfl
  have hblank : opened? [] = none := by
    rw [opened?, Client.readLine?_nil]
    rfl
  have hopened : ∀ line ∈ [SourceFile.header.toList, []], opened? line = none :=
    List.forall_mem_cons.mpr ⟨hheader, List.forall_mem_singleton.mpr hblank⟩
  have hlines : Code.linesOfAll 0 [.line SourceFile.header, .blank] =
      [SourceFile.header.toList, []] := rfl
  rw [hlines, placed_append hopened (fun _ _ => .inr (List.forall_mem_nil _)),
    List.filterMap_cons_none hread.header, List.filterMap_cons_none hread.blank]
  rfl

/-- What stands in a module is placed there, and behind its last line the module is closed. -/
theorem placed_module (hread : SkipsFrame reader) {name : String}
    (hname : Text.isIdentifier name = true)
    (hopened : ∀ line ∈ Code.linesOfAll 1 code, opened? line = none) (rest : List (List Char)) :
    placed reader [] (Code.linesOfAll 0 [Code.braces ("pub mod " ++ name ++ " ") code] ++ rest) =
      (Code.gathered reader 1 code).map ([name], ·) ++ placed reader [] rest := by
  have hlines : Code.linesOfAll 0 [Code.braces ("pub mod " ++ name ++ " ") code] ++ rest =
      (("pub mod " ++ name ++ " ").toList ++ ['{']) ::
        (Code.linesOfAll 1 code ++ ['}'] :: rest) := by
    rw [Code.braces, Code.linesOfAll, Code.lines, Code.linesOfAll, List.append_nil,
      List.cons_append, List.append_assoc]
    rfl
  have hdeep : ∀ line ∈ Code.linesOfAll 1 code,
      line = [] ∨ ∀ m ∈ [((0 : Nat), name)], m.1 < spacesOf line := by
    intro line hline
    refine (le_spacesOf_linesOfAll code 1 line hline).imp_right fun h => ?_
    rw [List.forall_mem_singleton]
    omega
  have hinside : inside [] (("pub mod " ++ name ++ " ").toList ++ ['{']) = [(0, name)] := by
    rw [inside, opened?_module hname, String.append_assoc, String.toList_append]
    rfl
  have hclosing : inside [] ['}'] = [] := by
    rw [inside, opened?, Client.readLine?_of_head (by decide)]
    rfl
  have haround : around [(0, name)] ['}'] = [] := rfl
  rw [hlines, placed_cons_of_none (hread.opening name), around_nil, hinside,
    placed_append hopened hdeep, placed_cons_of_none hread.closing, haround, hclosing]
  rfl

/-- The contents of a file stand in its own module, or in the one that wraps them. -/
theorem placed_wrap (hread : SkipsFrame reader)
    (hname : ∀ name ∈ config.moduleName?, Text.isIdentifier name = true)
    (hopened : ∀ depth, ∀ line ∈ Code.linesOfAll depth code, opened? line = none) :
    placed reader [] (Code.linesOfAll 0 (SourceFile.wrap config code) ++ [[]]) =
      (Code.gathered reader config.moduleName?.toList.length code).map
        (config.moduleName?.toList, ·) := by
  have hend : placed reader [] [[]] = [] := placed_cons_of_none hread.blank []
  rw [SourceFile.wrap, Code.linesOfAll_append, List.append_assoc, placed_header hread]
  cases hmodule : config.moduleName? with
  | none =>
    dsimp only
    rw [placed_append (hopened 0) (fun _ _ => .inr (List.forall_mem_nil _)), hend, List.append_nil]
    rfl
  | some name =>
    dsimp only
    rw [placed_module hread (hname name hmodule) (hopened 1), hend, List.append_nil]
    rfl

theorem read_ofCode (hread : SkipsFrame reader)
    (hname : ∀ name ∈ config.moduleName?, Text.isIdentifier name = true)
    (hopened : ∀ depth, ∀ line ∈ Code.linesOfAll depth code, opened? line = none)
    (hnesting : Code.nestingOfAll (SourceFile.wrap config code) ≤ Indented.maxDepth)
    (hlined : Code.OneLinedAll code) {name : String} (h : '.' ∉ name.toList) :
    (SourceFile.ofCode config name code).read reader =
      (Code.gathered reader config.moduleName?.toList.length code).map
        (name :: config.moduleName?.toList, ·) := by
  have hlines := Code.split_render hnesting (Client.oneLined_wrap hname hlined)
  rw [SourceFile.read, moduleName_ofCode config h, SourceFile.ofCode]
  dsimp only
  rw [hlines, placed_wrap hread hname hopened, List.map_map]
  rfl

end ApiClient
