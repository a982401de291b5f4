import Da4qi4.Inja.ParserStatements
import Da4qi4.Inja.RendererStatements

/-! Templates that include each other: a file is loaded with what it includes, and each
template is rendered to what its tree and the trees of those that it includes mean. -/
namespace Da4qi4
open Fuelled (Gives After gives_end)
open Valuetool (Json)
namespace Inja
open Inja.Parser (directory parseText parseTemplate loadAll)
open Renderer (running loopLevels)

/-- The signs that the templates of an application are written with. -/
def initTemplateEnv : LexerConfig where
  expressionOpen := word "\x7b="
  expressionClose := word "=\x7d"
  trimBlocks := true
  lstripBlocks := true

/-- A text with the tree that it is written from, and the directory for what it includes. -/
structure Page (parse : Bytes → Except Failure Json) (config : ParserConfig)
    (lexer : LexerConfig) where
  content : Bytes
  path : Bytes
  tree : Items
  written : Lexer.tokens lexer content = tree.tokens
  valid : tree.Valid config parse content
  levels : tree.depth ≤ loopLevels

section Pages
variable {parse : Bytes → Except Failure Json} {config : ParserConfig} {lexer : LexerConfig}

namespace Page

def template (p : Page parse config lexer) : Template := ⟨p.tree.code config p.path 0, p.content⟩

def includes (p : Page parse config lexer) : List Bytes := p.tree.includes p.path

/-- What a page means, by the pages that it includes; a name that nothing is stored for is
read where nothing is. The number bounds how deep pages include pages. -/
def meaning (env : Environment) (find : Bytes → Option (Page parse config lexer)) :
    Nat → Page parse config lexer → Json → Except Failure Bytes
  | 0, _, _ => .error .exhausted
  | depth + 1, p, data =>
    p.tree.output env config p.path (fun name data =>
      (find name).elim (.error .undefined) fun q => meaning env find depth q data) data data

/-- The environment has the templates of the pages, down to the given depth, at which
nothing is included any more. -/
def Provides (env : Environment) (find : Bytes → Option (Page parse config lexer)) :
    Nat → Page parse config lexer → Prop
  | 0, _ => False
  | depth + 1, p => ∀ name ∈ p.includes,
    env.included.lookup name = (find name).map template ∧
      ∀ q, find name = some q → Provides env find depth q

end Page

/-- At the end of the code the output is there. -/
theorem gives_output {env : Environment} {tmpl : Template} {root : Json} {s : Renderer}
    (ends : s.i = tmpl.bytecodes.length) : Gives (running env tmpl root) s (.ok s.os) := by
  refine gives_end fun fuel => ?_
  have none : tmpl.bytecodes[s.i]? = none := List.getElem?_eq_none (Nat.le_of_eq ends.symm)
  simp only [running, Renderer.renderTo, none]

/-- A template is rendered to what its page means. -/
theorem Page.rendered {env : Environment} {find : Bytes → Option (Page parse config lexer)}
    {depth : Nat} {p : Page parse config lexer} (provides : p.Provides env find depth) (data : Json) :
    Gives (running env p.template data) {} (p.meaning env find depth data) := by
  induction depth generalizing p data with
  | zero => cases provides
  | succ depth ih =>
    have inside : Serves env (fun name data =>
        (find name).elim (.error .undefined) fun q => q.meaning env find depth data) p.includes := by
      intro name listed
      obtain ⟨same, deeper⟩ := provides name listed
      dsimp only
      rw [same]
      cases found : find name with
      | none => exact .inr ⟨rfl, fun _ => rfl⟩
      | some q => exact .inl ⟨_, rfl, fun data => ih (deeper q found) data⟩
    rw [meaning]
    refine p.tree.renders p.valid inside rfl (Segment.at_zero _) ?_ ?_
    · exact (Nat.zero_add _).le.trans p.levels
    · show After _ (Except.map _ (p.tree.output env config p.path _ data data)) _
      cases p.tree.output env config p.path _ data data with
      | error failure => rfl
      | ok written =>
        refine gives_output ?_
        rw [Page.template, p.tree.length_code]
        exact Nat.zero_add _

/-- The templates of pages, by their names. -/
abbrev templates (shelf : List (Bytes × Page parse config lexer)) : TemplateStorage :=
  shelf.map fun entry => (entry.1, entry.2.template)

theorem lookup_templates (shelf : List (Bytes × Page parse config lexer)) (name : Bytes) :
    (templates shelf).lookup name = (shelf.lookup name).map Page.template := by
  induction shelf with
  | nil => rfl
  | cons entry shelf ih =>
    rw [templates, List.map_cons, List.lookup_cons, List.lookup_cons]
    cases name == entry.1 with
    | true => rfl
    | false => exact ih

section Loading
variable (files : Bytes → Option (Page parse config lexer))

/-- A file and all that it includes are there, down to a depth. -/
def Closed : Nat → Bytes → Prop
  | 0, _ => False
  | depth + 1, name => ∃ p, files name = some p ∧ ∀ other ∈ p.includes, Closed depth other

/-- What is on the shelf comes from the files, and is there with all that it includes. -/
def Shelved (shelf : List (Bytes × Page parse config lexer)) : Prop :=
  ∀ name p, shelf.lookup name = some p →
    files name = some p ∧ ∀ other ∈ p.includes, (shelf.lookup other).isSome = true

variable {files}

theorem lookup_cons_isSome {name other : Bytes} {p : Page parse config lexer}
    {shelf : List (Bytes × Page parse config lexer)} (there : (shelf.lookup other).isSome = true) :
    (List.lookup other ((name, p) :: shelf)).isSome = true := by
  rw [List.lookup_cons]
  split
  · rfl
  · exact there

theorem Shelved.cons {shelf : List (Bytes × Page parse config lexer)} (shelved : Shelved files shelf)
    {name : Bytes} {p : Page parse config lexer} (is : files name = some p)
    (others : ∀ other ∈ p.includes, (shelf.lookup other).isSome = true) :
    Shelved files ((name, p) :: shelf) := by
  intro one q found
  rw [List.lookup_cons] at found
  split at found
  next same =>
    cases found
    rw [eq_of_beq same]
    exact ⟨is, fun other listed => lookup_cons_isSome (others other listed)⟩
  next =>
    obtain ⟨also, inside⟩ := shelved one q found
    exact ⟨also, fun other listed => lookup_cons_isSome (inside other listed)⟩

variable (files) in
/-- A load adds to the shelf what the names refer to. -/
structure Loaded (before : List (Bytes × Page parse config lexer)) (names : List Bytes)
    (after : List (Bytes × Page parse config lexer)) : Prop where
  shelved : Shelved files after
  keeps : ∀ name, (before.lookup name).isSome = true → (after.lookup name).isSome = true
  has : ∀ name ∈ names, (after.lookup name).isSome = true

/-- What holds for each name that is included holds for all of them, loaded one after the
other. -/
theorem loadAll_loaded {load : TemplateStorage → Bytes → Except Failure (Template × TemplateStorage)}
    {names : List Bytes}
    (each : ∀ name ∈ names, ∀ shelf, Shelved files shelf → ∃ p more, files name = some p ∧
      load (templates shelf) name = .ok (p.template, templates more) ∧
        Loaded files shelf p.includes more)
    {shelf : List (Bytes × Page parse config lexer)} (shelved : Shelved files shelf) :
    ∃ more, loadAll load (templates shelf) names = .ok (templates more) ∧
      Loaded files shelf names more := by
  induction names generalizing shelf with
  | nil => exact ⟨shelf, rfl, shelved, fun _ there => there, List.forall_mem_nil _⟩
  | cons name names ih =>
    obtain ⟨first, others⟩ := List.forall_mem_cons.mp each
    rw [loadAll, lookup_templates]
    cases found : shelf.lookup name with
    | some q =>
      obtain ⟨more, read, loaded⟩ := ih others shelved
      have known : (shelf.lookup name).isSome = true := by rw [found]; rfl
      exact ⟨more, read, loaded.shelved, loaded.keeps,
        List.forall_mem_cons.mpr ⟨loaded.keeps name known, loaded.has⟩⟩
    | none =>
      obtain ⟨p, between, is, read, inner⟩ := first shelf shelved
      obtain ⟨more, rest, loaded⟩ := ih others (inner.shelved.cons is inner.has)
      have known : (more.lookup name).isSome = true :=
        loaded.keeps name (by rw [List.lookup_cons_self]; rfl)
      refine ⟨more, ?_, loaded.shelved, ?_, List.forall_mem_cons.mpr ⟨known, loaded.has⟩⟩
      · simp only [Option.map_none, read]
        exact rest
      · exact fun other before => loaded.keeps other (lookup_cons_isSome (inner.keeps other before))

variable {file : Bytes → Option Bytes}

/-- A text is parsed to the template of its page, and what it includes is on the shelf. -/
theorem parseText_loaded {load : TemplateStorage → Bytes → Except Failure (Template × TemplateStorage)}
    {p : Page parse config lexer}
    (each : ∀ name ∈ p.includes, ∀ shelf, Shelved files shelf → ∃ q more, files name = some q ∧
      load (templates shelf) name = .ok (q.template, templates more) ∧
        Loaded files shelf q.includes more)
    {shelf : List (Bytes × Page parse config lexer)} (shelved : Shelved files shelf) :
    ∃ more, parseText parse config lexer load (templates shelf) p.content p.path =
        .ok (p.template, templates more) ∧
      Loaded files shelf p.includes more := by
  obtain ⟨more, all, loaded⟩ := loadAll_loaded each shelved
  exact ⟨more, p.tree.parseText_code p.valid all p.written, loaded⟩

theorem parseTemplate_loaded
    (read : ∀ name p, files name = some p → file name = some p.content ∧ p.path = directory name)
    {depth : Nat} {name : Bytes} (closed : Closed files depth name)
    {shelf : List (Bytes × Page parse config lexer)} (shelved : Shelved files shelf) :
    ∃ p more, files name = some p ∧
      parseTemplate parse config lexer file depth (templates shelf) name =
        .ok (p.template, templates more) ∧
      Loaded files shelf p.includes more := by
  induction depth generalizing name shelf with
  | zero => cases closed
  | succ depth ih =>
    obtain ⟨p, is, others⟩ := closed
    obtain ⟨content, path⟩ := read name p is
    obtain ⟨more, parsed, loaded⟩ :=
      parseText_loaded (fun other listed _ well => ih (others other listed) well) shelved
    refine ⟨p, more, is, ?_, loaded⟩
    rw [parseTemplate, content]
    dsimp only
    rw [← path]
    exact parsed

theorem provides_of_shelved {shelf : List (Bytes × Page parse config lexer)} {env : Environment}
    (same : env.included = templates shelf) (shelved : Shelved files shelf) {depth : Nat}
    {p : Page parse config lexer} (closed : ∀ other ∈ p.includes, Closed files depth other)
    (has : ∀ other ∈ p.includes, (shelf.lookup other).isSome = true) :
    p.Provides env files (depth + 1) := by
  induction depth generalizing p with
  | zero => exact fun name listed => (closed name listed).elim
  | succ depth ih =>
    intro name listed
    obtain ⟨q, found⟩ := Option.isSome_iff_exists.mp (has name listed)
    obtain ⟨is, inside⟩ := shelved name q found
    obtain ⟨_, also, deeper⟩ := closed name listed
    cases is.symm.trans also
    refine ⟨by rw [same, lookup_templates, found, is], fun other known => ?_⟩
    cases is.symm.trans known
    exact ih deeper inside

/-- A text is parsed after whatever was parsed before, and the files that it includes are
loaded where they are not known yet; its template, with what is stored then, is rendered to
what its tree and the trees of the files mean. -/
theorem parseText_rendered
    (read : ∀ name p, files name = some p → file name = some p.content ∧ p.path = directory name)
    {p : Page parse config lexer} {depth : Nat}
    (closed : ∀ other ∈ p.includes, Closed files depth other)
    {shelf : List (Bytes × Page parse config lexer)} (shelved : Shelved files shelf) :
    ∃ more, parseText parse config lexer (parseTemplate parse config lexer file depth)
        (templates shelf) p.content p.path = .ok (p.template, templates more) ∧
      Shelved files more ∧
      ∀ env : Environment, env.included = templates more → ∀ data,
        Gives (running env p.template data) {} (p.meaning env files (depth + 1) data) := by
  obtain ⟨more, parsed, loaded⟩ := parseText_loaded
    (fun other listed _ well => parseTemplate_loaded read (closed other listed) well) shelved
  refine ⟨more, parsed, loaded.shelved, fun env same data => ?_⟩
  exact Page.rendered (provides_of_shelved same loaded.shelved closed loaded.has) data

end Loading
end Pages

namespace Listing

def unquoted (text : Bytes) : Except Failure Json := .ok (.string text.tail.dropLast)

def statement (start finish : Nat) : Signs :=
  ⟨⟨.statementOpen, word "\x7b%", start⟩, ⟨.statementClose, word "%\x7d", finish⟩, .inl ⟨rfl, rfl⟩⟩

def named (name : Variable) : Expression := .only (.only (.only (.only (.lookup name))))

def listTree : Items :=
  .and (.loop (statement 0 13) ⟨⟨.id, word "for", 2⟩, by decide⟩ none ⟨⟨.id, word "x", 6⟩, rfl⟩
    ⟨⟨.id, word "in", 8⟩, by decide⟩ (named ⟨⟨.id, word "xs", 11⟩, by decide⟩)
    (.and (.print ⟨⟨.expressionOpen, word "\x7b=", 15⟩, rfl⟩
        (named ⟨⟨.id, word "x", 17⟩, by decide⟩) ⟨⟨.expressionClose, word "=\x7d", 18⟩, rfl⟩)
      (.and (.include (statement 20 33) ⟨⟨.id, word "include", 22⟩, by decide⟩
        ⟨⟨.string, word "\"b\"", 30⟩, rfl⟩ (word "b")) .none))
    (statement 35 43) ⟨⟨.id, word "endfor", 37⟩, by decide⟩) .none

set_option maxRecDepth 10000 in
def listPage : Page unquoted {} initTemplateEnv where
  content := word "\x7b%for x in xs%\x7d\x7b=x=\x7d\x7b%include \"b\"%\x7d\x7b%endfor%\x7d"
  path := word "./"
  tree := listTree
  written := by decide
  valid := ⟨⟨trivial, trivial, rfl, trivial⟩, trivial⟩
  levels := by decide

def endPage : Page unquoted {} initTemplateEnv where
  content := word "!"
  path := []
  tree := .and (.text ⟨⟨.text, word "!", 0⟩, rfl⟩) .none
  written := by decide
  valid := ⟨trivial, trivial⟩
  levels := by decide

def files (name : Bytes) : Option (Page unquoted {} initTemplateEnv) :=
  if name = word "b" then some endPage else none

theorem files_read (name : Bytes) (p : Page unquoted {} initTemplateEnv)
    (is : files name = some p) :
    (files name).map Page.content = some p.content ∧ p.path = directory name := by
  refine ⟨by rw [is]; rfl, ?_⟩
  rw [files] at is
  split at is
  · rename_i same
    cases is
    rw [same]
    decide
  · cases is

theorem listPage_closed : ∀ other ∈ listPage.includes, Closed files 1 other := by
  intro other listed
  have same : other = word "b" := List.mem_singleton.mp listed
  rw [same]
  exact ⟨endPage, rfl, fun _ listed => by cases listed⟩

end Listing
open Listing

theorem parseText_rendered_list :
    ∃ storage, parseText unquoted {} initTemplateEnv
        (parseTemplate unquoted {} initTemplateEnv (fun name => (files name).map Page.content) 1) []
        listPage.content (word "./") = .ok (listPage.template, storage) ∧
      ∀ env : Environment, env.included = storage →
        Gives (running env listPage.template
          (.object [(word "xs", .array [.string (word "s"), .string (word "t")])])) {}
          (.ok (word "s!t!")) := by
  have shelved : Shelved files [] := fun _ _ found => by cases found
  obtain ⟨more, parsed, -, rendered⟩ := parseText_rendered files_read listPage_closed shelved
  exact ⟨templates more, parsed, fun env same => rendered env same _⟩

end Inja
end Da4qi4
