import ApiClient.Generation.Emission
import ApiClient.Proofs.Code.Lines
import ApiClient.Proofs.Sink.Layout

/-!
# Steps that write code

* `Emits`: steps that write the lines of code, at any depth, and come back to that depth;
* `Spells`, `emits_row`: steps that write a text, and a line that they begin;
* `Opens`, `Closes`, `Emits.block`: the first line of a block and its last one, however the depth
  changes there;
* `Emits.performAll_eq`: such steps do the same as those of the code itself;
* `emits_client`, `emits_parserModule`: the steps of the files write their code.
-/

namespace ApiClient.Emission

open Code (write newline)
open Indented (Step into maxDepth performAll)

/-- Steps that write the lines of code. They do not fail, and the depth behind them is that
before. -/
def Emits (steps : List Step) (code : List Code) : Prop :=
  ∀ (ε : Type) (depth : Nat) (before : List Char), depth + Code.nestingOfAll code ≤ maxDepth →
    performAll (Buffer.sink ε) Code.indentation steps (into depth true before) =
      { state := into depth true (before ++ Code.ended (Code.linesOfAll depth code)) }

variable {ε : Type} {row steps first last : List Step} {text head tail : String}
  {code body : List Code}

theorem emits_stepsOfAll (code : List Code) : Emits (Code.stepsOfAll code) code :=
  fun _ depth before h => Code.performAll_stepsOfAll code depth before h

theorem Emits.append (h : Emits first code) (h' : Emits last body) :
    Emits (first ++ last) (code ++ body) := by
  intro ε depth before hdepth
  obtain ⟨hcode, hbody⟩ := Code.nestingOfAll_append_le.mp
    (Nat.le_refl (Code.nestingOfAll (code ++ body)))
  rw [Indented.performAll_append, h ε depth before (by omega), Outcome.andThen_of_success,
    h' ε depth _ (by omega), Code.linesOfAll_append, Code.ended_append, List.append_assoc]

/-- Whatever writes code does the same as the steps of the code. -/
theorem Emits.performAll_eq (h : Emits steps code) (hcode : Code.nestingOfAll code ≤ maxDepth) :
    performAll (Buffer.sink ε) Code.indentation steps { inner := {} } =
      performAll (Buffer.sink ε) Code.indentation (Code.stepsOfAll code) { inner := {} } := by
  have hstart : ({ inner := {} } : Indented Buffer) = into 0 true [] := rfl
  rw [hstart, h ε 0 [] (by omega), emits_stepsOfAll code ε 0 [] (by omega)]

/-! ## Lines -/

/-- Steps that only write, and all together a text. -/
structure Spells (row : List Step) (text : String) : Prop where
  writes : ∀ step ∈ row, step.data? ≠ none
  text : Indented.written row = text.toList

theorem spells_write (text : String) : Spells [write text] text where
  writes := List.forall_mem_singleton.mpr (Option.some_ne_none text)
  text := List.append_nil _

theorem spells_writeChar {c : Char} (h : text.toList = [c]) : Spells [writeChar c] text where
  writes := List.forall_mem_singleton.mpr (Option.some_ne_none _)
  text := by
    rw [h]
    simp [Indented.written, writeChar, Step.data?]

theorem Spells.append {more : List Step} {rest : String} (h : Spells row text)
    (h' : Spells more rest) : Spells (row ++ more) (text ++ rest) where
  writes := List.forall_mem_append.mpr ⟨h.writes, h'.writes⟩
  text := by
    rw [Indented.written, List.filterMap_append, List.flatMap_append, ← Indented.written,
      ← Indented.written, h.text, h'.text, String.toList_append]

theorem spells_joined (separator : String) (texts : List String) :
    Spells (joined separator texts) (separator.intercalate texts) := by
  cases texts with
  | nil => exact ⟨List.forall_mem_nil _, rfl⟩
  | cons first rest =>
    induction rest generalizing first with
    | nil => exact spells_write first
    | cons second rest ih =>
      have hmore := ((spells_write first).append (spells_write separator)).append (ih second)
      refine ⟨hmore.writes, hmore.text.trans ?_⟩
      simp [String.toList_intercalate]

theorem amount?_of_data? {step : Step} (h : step.data? ≠ none) : step.amount? = none := by
  cases step with
  | indent amount => exact absurd rfl h
  | step step => rfl

/-- The indentation stands before the first of the writes. -/
theorem performAll_spelled (h : Spells row text) (hne : row ≠ []) (depth : Nat)
    (before : List Char) :
    performAll (Buffer.sink ε) Code.indentation row (into depth true before) =
      { state := into depth false (before ++ Code.indented depth text.toList) } := by
  have hend : Indented.lineEnd ∉ row := fun hmem => h.writes _ hmem rfl
  have hfile : Indented.InOneFile row := fun name hmem => h.writes _ hmem rfl
  have hrun := (Indented.holdsLines_buffer (ε := ε)).performAll_row Code.indentation hend hfile
    depth before
  have hamounts : row.filterMap Step.amount? = [] :=
    List.filterMap_eq_nil_iff.mpr fun step hmem => amount?_of_data? (h.writes step hmem)
  have hdepth : Indented.depthAfter depth row = depth := by
    rw [Indented.depthAfter, hamounts, List.foldl_nil]
  obtain ⟨step, rest, rfl⟩ := List.exists_cons_of_ne_nil hne
  obtain ⟨data, hdata⟩ := Option.ne_none_iff_exists'.mp (h.writes step List.mem_cons_self)
  have hpending : (step :: rest).all (·.data?.isNone) = false := by
    simp [hdata]
  rw [hdepth, hpending, Indented.lineOf_write hdata, ← Indented.written_cons hdata, h.text] at hrun
  exact hrun

theorem emits_spelled (h : Spells row text) (hne : row ≠ []) :
    Emits (row ++ [newline]) [.line text] := by
  intro ε depth before _
  rw [Indented.performAll_append, performAll_spelled h hne, Outcome.andThen_of_success,
    performAll, newline, Indented.into_newline, Outcome.andThen_of_success, performAll,
    Code.linesOfAll, Code.lines, Code.linesOfAll]
  simp [Code.ended]

/-- A line that is begun in pieces. -/
theorem emits_row (h : Spells row text) (rest : String) :
    Emits (row ++ line rest) [.line (text ++ rest)] := by
  have hrow := emits_spelled (h.append (spells_write rest)) (List.append_ne_nil_of_right_ne_nil _
    (List.cons_ne_nil _ _))
  rwa [List.append_assoc] at hrow

theorem emits_line (text : String) : Emits (line text) [.line text] :=
  emits_spelled (spells_write text) (List.cons_ne_nil _ _)

theorem emits_blank : Emits [newline] [.blank] := by
  intro ε depth before _
  rw [performAll, newline, Indented.into_newline]
  rfl

/-! ## Blocks -/

/-- Steps that write the first line of a block and go into it. -/
def Opens (steps : List Step) (head : String) : Prop :=
  ∀ (ε : Type) (depth : Nat) (before : List Char), depth < maxDepth →
    performAll (Buffer.sink ε) Code.indentation steps (into depth true before) =
      { state := into (depth + 1) true
          (before ++ Code.ended [Code.indented depth (head.toList ++ ['{'])]) }

/-- Steps that come out of a block and write its last line. -/
def Closes (steps : List Step) (tail : String) : Prop :=
  ∀ (ε : Type) (depth : Nat) (before : List Char), depth < maxDepth →
    performAll (Buffer.sink ε) Code.indentation steps (into (depth + 1) true before) =
      { state := into depth true
          (before ++ Code.ended [Code.indented depth ('}' :: tail.toList)]) }

theorem Emits.block (hfirst : Opens first head) (h : Emits steps body) (hlast : Closes last tail) :
    Emits (first ++ steps ++ last) [.block head body tail] := by
  intro ε depth before hdepth
  simp only [Code.nestingOfAll, Code.nesting, Nat.max_zero] at hdepth
  have hd : depth < maxDepth := by omega
  rw [Indented.performAll_append, Indented.performAll_append, hfirst ε depth before hd,
    Outcome.andThen_of_success, h ε (depth + 1) _ (by omega), Outcome.andThen_of_success,
    hlast ε depth _ hd, Code.linesOfAll, Code.lines, Code.linesOfAll]
  simp [Code.ended]

/-- The depth changes between the brace and the end of the line. -/
theorem opens_blockStart (h : Spells row head) : Opens (row ++ blockStart) head := by
  intro ε depth before hdepth
  have hopened : Spells (row ++ [writeChar '{']) (head ++ "\x7b") :=
    h.append (spells_writeChar rfl)
  have hbrace := performAll_spelled (ε := ε) hopened
    (List.append_ne_nil_of_right_ne_nil _ (List.cons_ne_nil _ _)) depth before
  have hsteps : row ++ blockStart = row ++ [writeChar '{'] ++ [.indent 1, newline] := by
    rw [List.append_assoc]
    rfl
  rw [hsteps, Indented.performAll_append, hbrace, Outcome.andThen_of_success, performAll,
    Indented.into_indent, Outcome.andThen_of_success, performAll, newline, Indented.into_newline,
    Outcome.andThen_of_success, performAll, Code.moved_in hdepth]
  simp [Code.ended]

/-- The line is written at once, and the depth changes behind it. -/
theorem opens_line (h : text.toList = head.toList ++ ['{']) :
    Opens (line text ++ [.indent 1]) head := by
  intro ε depth before hdepth
  rw [Indented.performAll_append, line, Code.performAll_line, Outcome.andThen_of_success,
    performAll, Indented.into_indent, Outcome.andThen_of_success, performAll,
    Code.moved_in hdepth, h]

/-- The depth changes before the last line, whatever else that line has. -/
theorem closes_of_emits (h : Emits steps [.line text]) (htext : text.toList = '}' :: tail.toList) :
    Closes (.indent (-1) :: steps) tail := by
  intro ε depth before hdepth
  rw [performAll, Indented.into_indent, Outcome.andThen_of_success, Code.moved_out hdepth,
    h ε depth before (Nat.le_of_lt hdepth), Code.linesOfAll, Code.lines, Code.linesOfAll,
    List.append_nil, htext]

theorem closes_blockEnd : Closes blockEnd "" := by
  have hbrace : Emits [writeChar '}', newline] [.line "\x7d"] :=
    emits_spelled (spells_writeChar rfl) (List.cons_ne_nil _ _)
  exact closes_of_emits hbrace rfl

/-! ## The parts of a client -/

theorem emits_constants (config : Config) : Emits (constants config) (Client.constants config) := by
  have hstart := spells_write "const VERSION: Option<&str> = "
  have hformat := emits_row ((spells_write "const FORMAT: Format = Format::").append
    (spells_write config.defaultFormat.parserName)) ";"
  rw [constants, version, Client.constants]
  cases config.defaultVersion? with
  | none => exact (emits_row (hstart.append (spells_write "None")) ";").append hformat
  | some version =>
    have hclosing : Spells [writeChar ')'] ")" := spells_writeChar rfl
    have hversion := ((spells_write "Some(").append
      (spells_write (Client.literal version))).append hclosing
    exact (emits_row (hstart.append hversion) ";").append hformat

theorem emits_declaration : Emits declaration [Client.declaration] :=
  .block (opens_line rfl) ((emits_line _).append (emits_line _)) closes_blockEnd

theorem emits_constructor : Emits constructor [Client.constructor] :=
  .block (opens_blockStart (spells_write _))
    (.block (opens_blockStart (spells_write _)) ((emits_line _).append (emits_line _))
      closes_blockEnd) closes_blockEnd

theorem emits_function (e : Endpoint) : Emits (function e) [Client.function e] := by
  have hname := emits_row ((spells_write "name: ").append
    (spells_write (Client.literal e.name))) ","
  have hmethod := emits_row ((spells_write "method: Method::").append
    (spells_write e.method.variant)) ","
  have hpath := emits_row ((spells_write "path: ").append
    (spells_write (Client.literal e.path))) ","
  have hparams := emits_row ((spells_write "params: &[").append
    (spells_joined ", " (e.params.map Client.literal))) "],"
  have hlast : Closes ([.indent (-1)] ++ line "\x7d;") ";" := closes_of_emits (emits_line _) rfl
  have hroute : Emits (route e) [_] :=
    .block (opens_blockStart (spells_write "const ROUTE: Route<'static> = Route "))
      (((hname.append hmethod).append hpath).append hparams) hlast
  have hhead := ((spells_write "pub fn ").append (spells_write e.name)).append
    (spells_write "(&self, params: &[(&str, &str)]) -> Result<Document> ")
  exact .block (opens_blockStart hhead) (hroute.append (emits_line _)) closes_blockEnd

theorem emits_dispatch (config : Config) : Emits (dispatch config) [Client.dispatch config] :=
  .block (opens_blockStart (spells_write _))
    (((emits_line _).append (emits_line _)).append (emits_row (spells_joined _ _) _))
    closes_blockEnd

theorem emits_functions (endpoints : List Endpoint) :
    Emits (functions endpoints) (Code.spaced (endpoints.map Client.function)) := by
  induction endpoints with
  | nil => exact emits_stepsOfAll []
  | cons e endpoints ih => exact (emits_blank.append (emits_function e)).append ih

/-! ## Files -/

theorem emits_file (config : Config) (h : Emits steps code) :
    Emits (file config steps) (SourceFile.wrap config code) := by
  refine ((emits_line _).append emits_blank).append ?_
  cases config.moduleName? with
  | none => exact h
  | some name =>
    exact .block (opens_blockStart (((spells_write _).append (spells_write name)).append
      (spells_writeChar rfl))) h closes_blockEnd

theorem emits_client (config : Config) (endpoints : List Endpoint) :
    Emits (client config endpoints)
      (SourceFile.wrap config (Client.code config endpoints)) := by
  have hbody : Emits (constructor ++ functions endpoints ++ ([newline] ++ dispatch config))
      (Client.constructor ::
        Code.spaced (endpoints.map Client.function ++ [Client.dispatch config])) := by
    rw [Code.spaced, List.flatMap_append, ← Code.spaced]
    exact (emits_constructor.append (emits_functions endpoints)).append
      (emits_blank.append (emits_dispatch config))
  refine emits_file config (((((emits_line _).append (emits_line _)).append emits_blank).append
    (emits_constants config)).append ?_)
  exact ((emits_blank.append emits_declaration).append emits_blank).append
    (.block (opens_blockStart (spells_write _)) hbody closes_blockEnd)

theorem emits_parserModule (config : Config) (format : Format) :
    Emits (parserModule config format) (SourceFile.wrap config (ParserModule.code format)) := by
  have huse := emits_row ((spells_write "use clientgen::parser::\x7bParser, ").append
    (spells_write format.parserName)) "\x7d;"
  have hcomment := emits_row ((spells_write "/// Parses a raw ").append (spells_write format.tag))
    " response body."
  have hparse : Emits _ [.block "pub fn parse(raw: &str) -> Result<Document> " _ ""] :=
    .block (opens_blockStart (spells_write _))
      (emits_row (spells_write format.parserName) ".parse(raw)") closes_blockEnd
  exact emits_file config ((((huse.append (emits_line _)).append emits_blank).append
    hcomment).append hparse)

end ApiClient.Emission
