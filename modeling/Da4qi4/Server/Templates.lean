import Da4qi4.Foundation.OrderedMap
import Da4qi4.Utilities.Strings
import Mathlib.Data.List.DropRight

/-! The templates of an application: loading them from their directory, and the check
that loads them again when a file has changed, has gone or is new. Loading and the
check walk the directory each for itself. -/
namespace Da4qi4
open Utilities

/-- A parsed template; its bytecode is left out. -/
structure Template where
  content : Bytes
  deriving DecidableEq

structure TemplateItem where
  templ : Template
  filename : Bytes
  deriving DecidableEq

abbrev TemplateMap := OrderedMap (fun key : Bytes => key.map UInt8.toNat) TemplateItem

/-- A regular file, with the time of its last write where that can be read. -/
structure TemplateFile where
  path : Bytes
  content : Bytes
  time : Option Int
  deriving DecidableEq

/-- The regular files that an iterator over a directory comes upon, and whether it
reaches the end. -/
structure DirectoryWalk where
  files : List TemplateFile
  ended : Bool := true

/-- What a call finds on the disk: the file under a path, the walks over the directory
of the templates, where there is one, for the includes, the other templates and the
check. The template engine reads and parses a file, or throws; that may depend on
other files and is given for each call. -/
structure TemplateDisk where
  file : Bytes → Option TemplateFile
  forInclude : Option DirectoryWalk
  forNormal : Option DirectoryWalk
  forCheck : Option DirectoryWalk
  accepts : Bytes → Bytes → Bool
  now : Int

inductive TemplateFlag where
  | forNormal | forInclude
  deriving DecidableEq

inductive TemplateUpdateAction where
  | none | appended | modified | removed
  deriving DecidableEq

/-- Where the templates are, and what they are called. -/
structure TemplatePaths where
  root : Bytes
  appPrefix : Bytes
  templateExt : Bytes
  deriving DecidableEq

/-- The last field counts the calls of `reload`. -/
structure Templates extends TemplatePaths where
  disabled : Bool := false
  loadedTime : Int := 0
  templates : TemplateMap := .empty
  includesTemplates : TemplateMap := .empty
  reloads : Nat := 0

def isIncludeDir (path : Bytes) : Bool :=
  (find path (Bytes.ofAscii "/i/")).isSome || (find path (Bytes.ofAscii "\\i\\")).isSome

def isIgnored (path : Bytes) : Bool :=
  path = [] || (find path (Bytes.ofAscii "/_alternate/")).isSome ||
    (find path (Bytes.ofAscii "/_deprecated/")).isSome ||
    (find path (Bytes.ofAscii ".deprecated.")).isSome

/-- `fs::path::filename`. -/
def pathFilename (path : Bytes) : Bytes := path.rtakeWhile (· ≠ 47)

def makeTemplateKey (appPrefix mpath keyExt : Bytes) : Bytes :=
  if appPrefix = [] ∨ mpath = [] ∨ appPrefix.getLast? ≠ some 47 ∨ mpath.head? ≠ some 47 then
    appPrefix ++ mpath ++ keyExt
  else appPrefix ++ mpath.drop 1 ++ keyExt

namespace TemplatePaths

/-- The path below the root, without the extension. -/
def mpath (p : TemplatePaths) (path : Bytes) : Bytes :=
  (path.drop p.root.length).take (path.length - p.root.length - p.templateExt.length)

/-- The key of a file that is taken for a template. -/
def keyOf (p : TemplatePaths) (path : Bytes) : Option Bytes :=
  if p.templateExt.isSuffixOf (pathFilename path) then
    if isIgnored path then none
    else if p.mpath path ≠ [] then some (makeTemplateKey p.appPrefix (p.mpath path) [])
    else none
  else none

end TemplatePaths

namespace Templates

/-- Nothing was loaded. -/
def constructed (p : TemplatePaths) (disabled : Bool) : Templates :=
  { toTemplatePaths := p, disabled }

/-- A file that the engine does not read or parse leaves a message only. -/
def tryLoadTemplate (accepts : Bytes → Bytes → Bool) (key : Bytes) (file : TemplateFile)
    (isIncludeDir : Bool) (t : Templates) : Templates :=
  if file.content = [] ∨ accepts file.path file.content = false then t
  else
    let item := ⟨⟨file.content⟩, file.path⟩
    if isIncludeDir then { t with includesTemplates := t.includesTemplates.insert key item }
    else { t with templates := t.templates.insert key item }

/-- One round of the loop of `load_templates`. -/
def visit (accepts : Bytes → Bytes → Bool) (flag : TemplateFlag) (t : Templates)
    (file : TemplateFile) : Templates :=
  match t.keyOf file.path with
  | none => t
  | some key =>
    if isIncludeDir file.path = decide (flag = .forInclude) then
      t.tryLoadTemplate accepts key file (isIncludeDir file.path)
    else t

/-- The flag is `false` when the iterator throws. -/
def loadTemplates (accepts : Bytes → Bytes → Bool) (flag : TemplateFlag)
    (walk : Option DirectoryWalk) (t : Templates) : Templates × Bool :=
  match walk with
  | none => (t, true)
  | some walk => (walk.files.foldl (visit accepts flag) t, walk.ended)

/-- There is nothing to load. -/
def Undesired (t : Templates) : Prop := t.disabled = true ∨ t.root = [] ∨ t.templateExt = []

instance (t : Templates) : Decidable t.Undesired := inferInstanceAs (Decidable (_ ∨ _ ∨ _))

def cleared (t : Templates) : Templates :=
  { t with templates := .empty, includesTemplates := .empty }

def preload (disk : TemplateDisk) (t : Templates) : Templates × Bool :=
  if t.Undesired then (t, true)
  else
    let includes := t.cleared.loadTemplates disk.accepts .forInclude disk.forInclude
    if includes.2 then
      let normal := includes.1.loadTemplates disk.accepts .forNormal disk.forNormal
      if normal.2 then ({ normal.1 with loadedTime := disk.now }, true) else (normal.1, false)
    else (includes.1, false)

def reload (disk : TemplateDisk) (t : Templates) : Templates × Bool :=
  preload disk { t with reloads := t.reloads + 1 }

/-- What the check says about a loaded template; a time that cannot be read is passed
over. -/
def checkItem (file : Bytes → Option TemplateFile) (loadedTime : Int) (item : TemplateItem) :
    TemplateUpdateAction :=
  match file item.filename with
  | none => .removed
  | some found =>
    match found.time with
    | none => .none
    | some time => if loadedTime < time then .modified else .none

/-- The items in some order, up to the first that has changed. -/
def checkItems (file : Bytes → Option TemplateFile) (loadedTime : Int) :
    List TemplateItem → TemplateUpdateAction
  | [] => .none
  | item :: items =>
    if checkItem file loadedTime item = .none then checkItems file loadedTime items
    else checkItem file loadedTime item

def items (t : Templates) : List TemplateItem :=
  t.templates.entries.map Prod.snd ++ t.includesTemplates.entries.map Prod.snd

def checkExistsTemplate (disk : TemplateDisk) (t : Templates) : TemplateUpdateAction :=
  checkItems disk.file t.loadedTime t.items

/-- A template is known under a key. -/
def known (t : Templates) (isIncludeDir : Bool) (key : Bytes) : Bool :=
  ((if isIncludeDir then t.includesTemplates else t.templates).find key).isSome

/-- What the check says about a file in the directory. -/
def isNew (t : Templates) (path : Bytes) : Bool :=
  match t.keyOf path with
  | none => false
  | some key => !t.known (isIncludeDir path) key

/-- `none` when the iterator throws. -/
def checkNewTemplate (disk : TemplateDisk) (t : Templates) : Option TemplateUpdateAction :=
  match disk.forCheck with
  | none => some .none
  | some walk =>
    if walk.files.any fun file => t.isNew file.path then some .appended
    else if walk.ended then some .none else none

def reloadIfFindUpdate (disk : TemplateDisk) (t : Templates) : Templates × Bool :=
  if t.disabled then (t, true)
  else if t.checkExistsTemplate disk = .none then (t, false)
  else t.reload disk

def reloadIfFindNew (disk : TemplateDisk) (t : Templates) : Option (Templates × Bool) :=
  if t.disabled then some (t, true)
  else (t.checkNewTemplate disk).map fun action =>
    if action = .none then (t, false) else t.reload disk

/-- What `CheckTemplatesUpdate` does for an application; `none` when an exception
leaves it, with the templates as they were. -/
def checkTemplatesUpdate (disk : TemplateDisk) (t : Templates) : Option Templates :=
  let update := t.reloadIfFindUpdate disk
  if update.2 then some update.1 else (update.1.reloadIfFindNew disk).map Prod.fst

/-- The engine makes a template of the file. -/
def Loads (accepts : Bytes → Bytes → Bool) (file : TemplateFile) : Prop :=
  file.content ≠ [] ∧ accepts file.path file.content = true

/-- The pass over the directory takes the file for a template. -/
def Visits (p : TemplatePaths) (flag : TemplateFlag) (file : TemplateFile) (key : Bytes) : Prop :=
  p.keyOf file.path = some key ∧ isIncludeDir file.path = decide (flag = .forInclude)

/-- A file either leaves everything, or is loaded under its key. -/
theorem visit_cases (accepts : Bytes → Bytes → Bool) (flag : TemplateFlag) (t : Templates)
    (file : TemplateFile) :
    (t.visit accepts flag file = t ∧
      ∀ key, Visits t.toTemplatePaths flag file key → ¬Loads accepts file) ∨
    ∃ key, Visits t.toTemplatePaths flag file key ∧ Loads accepts file ∧
      t.visit accepts flag file =
        if isIncludeDir file.path then
          { t with includesTemplates := t.includesTemplates.insert key ⟨⟨file.content⟩, file.path⟩ }
        else { t with templates := t.templates.insert key ⟨⟨file.content⟩, file.path⟩ } := by
  rw [visit]
  split
  · rename_i unnamed
    refine .inl ⟨rfl, fun key visits => ?_⟩
    rw [visits.1] at unnamed
    cases unnamed
  · rename_i key named
    split
    · rename_i right
      rw [tryLoadTemplate]
      split
      · rename_i refused
        refine .inl ⟨rfl, fun _ _ loads => ?_⟩
        rcases refused with empty | refused
        · exact loads.1 empty
        · rw [loads.2] at refused
          cases refused
      · rename_i fine
        refine .inr ⟨key, ⟨named, right⟩, ⟨fun empty => fine (.inl empty), ?_⟩, rfl⟩
        cases accepted : accepts file.path file.content with
        | true => rfl
        | false => exact absurd (.inr accepted) fine
    · rename_i wrong
      exact .inl ⟨rfl, fun _ visits => absurd visits.2 wrong⟩

/-- The fields that loading leaves alone. -/
def settings (t : Templates) : TemplatePaths × Bool × Int × Nat :=
  (t.toTemplatePaths, t.disabled, t.loadedTime, t.reloads)

theorem settings_visit (accepts : Bytes → Bytes → Bool) (flag : TemplateFlag) (t : Templates)
    (file : TemplateFile) : (t.visit accepts flag file).settings = t.settings := by
  rcases visit_cases accepts flag t file with ⟨same, -⟩ | ⟨key, -, -, loaded⟩
  · rw [same]
  · rw [loaded]
    split
    · rfl
    · rfl

theorem mem_items {t : Templates} {item : TemplateItem} :
    item ∈ t.items ↔
      (∃ e ∈ t.templates.entries, e.2 = item) ∨ ∃ e ∈ t.includesTemplates.entries, e.2 = item := by
  rw [items, List.mem_append, List.mem_map, List.mem_map]

/-- A template that was not there before is made of the file. -/
theorem mem_items_visit {accepts : Bytes → Bytes → Bool} {flag : TemplateFlag} {t : Templates}
    {file : TemplateFile} {item : TemplateItem} (member : item ∈ (t.visit accepts flag file).items) :
    item ∈ t.items ∨ item = ⟨⟨file.content⟩, file.path⟩ := by
  rcases visit_cases accepts flag t file with ⟨same, -⟩ | ⟨key, -, -, loaded⟩
  · rw [same] at member
    exact .inl member
  · rw [loaded] at member
    have inserted {m : TemplateMap} {e : Bytes × TemplateItem}
        (stored : e ∈ (m.insert key ⟨⟨file.content⟩, file.path⟩).entries) :
        e.2 = ⟨⟨file.content⟩, file.path⟩ ∨ e ∈ m.entries := by
      rcases OrderedMap.mem_insert stored with rfl | old
      · exact .inl rfl
      · exact .inr old
    split at member
    · rcases mem_items.mp member with normal | ⟨e, stored, rfl⟩
      · exact .inl (mem_items.mpr (.inl normal))
      · rcases inserted stored with new | old
        · exact .inr new
        · exact .inl (mem_items.mpr (.inr ⟨e, old, rfl⟩))
    · rcases mem_items.mp member with ⟨e, stored, rfl⟩ | included
      · rcases inserted stored with new | old
        · exact .inr new
        · exact .inl (mem_items.mpr (.inl ⟨e, old, rfl⟩))
      · exact .inl (mem_items.mpr (.inr included))

theorem isSome_find_insert (m : TemplateMap) (key other : Bytes) (item : TemplateItem) :
    ((m.insert key item).find other).isSome = true ↔ (m.find other).isSome = true ∨ key = other := by
  by_cases same : key = other
  · subst same
    simp [OrderedMap.find_insert_self]
  · have different : key.map UInt8.toNat ≠ other.map UInt8.toNat := fun equal =>
      same (Bytes.octets_inj.mp equal)
    rw [OrderedMap.find_insert_other m item different]
    exact (or_iff_left same).symm

theorem known_visit (accepts : Bytes → Bytes → Bool) (flag : TemplateFlag) (t : Templates)
    (file : TemplateFile) (inside : Bool) (key : Bytes) :
    (t.visit accepts flag file).known inside key = true ↔ t.known inside key = true ∨
      (Visits t.toTemplatePaths flag file key ∧ Loads accepts file ∧
        isIncludeDir file.path = inside) := by
  rcases visit_cases accepts flag t file with ⟨same, not⟩ | ⟨stored, visits, loads, loaded⟩
  · rw [same]
    exact (or_iff_left fun new => not key new.1 new.2.1).symm
  · have named : Visits t.toTemplatePaths flag file key ↔ stored = key := by
      constructor
      · intro also
        exact Option.some.inj (visits.1.symm.trans also.1)
      · rintro rfl
        exact visits
    rw [loaded, named]
    cases where_ : isIncludeDir file.path with
    | true =>
      cases inside with
      | true => simp [known, isSome_find_insert, loads]
      | false => simp [known]
    | false =>
      cases inside with
      | true => simp [known]
      | false => simp [known, isSome_find_insert, loads]

theorem foldl_visit_settings (accepts : Bytes → Bytes → Bool) (flag : TemplateFlag)
    (t : Templates) (files : List TemplateFile) :
    (files.foldl (visit accepts flag) t).settings = t.settings := by
  induction files generalizing t with
  | nil => rfl
  | cons file files ih => exact (ih (t.visit accepts flag file)).trans (settings_visit ..)

theorem loadTemplates_settings (accepts : Bytes → Bytes → Bool) (flag : TemplateFlag)
    (walk : Option DirectoryWalk) (t : Templates) :
    (t.loadTemplates accepts flag walk).1.settings = t.settings := by
  cases walk with
  | none => rfl
  | some walk => exact foldl_visit_settings accepts flag t walk.files

/-- The fields that all calls leave alone. -/
def fixed (t : Templates) : TemplatePaths × Bool := (t.toTemplatePaths, t.disabled)

theorem preload_fixed (disk : TemplateDisk) (t : Templates) :
    (t.preload disk).1.fixed = t.fixed ∧ (t.preload disk).1.reloads = t.reloads := by
  have includes := loadTemplates_settings disk.accepts .forInclude disk.forInclude t.cleared
  have normal := (loadTemplates_settings disk.accepts .forNormal disk.forNormal
    (t.cleared.loadTemplates disk.accepts .forInclude disk.forInclude).1).trans includes
  have same {u : Templates} (kept : u.settings = t.cleared.settings) :
      u.fixed = t.fixed ∧ u.reloads = t.reloads :=
    ⟨congrArg (fun s => (s.1, s.2.1)) kept, congrArg (fun s => s.2.2.2) kept⟩
  simp only [preload]
  split
  · exact ⟨rfl, rfl⟩
  · split
    · split
      · exact ⟨(same normal).1, (same normal).2⟩
      · exact same normal
    · exact same includes

/-- Without a wish for templates there are none. -/
def Bare (t : Templates) : Prop := t.Undesired → t.items = []

theorem undesired_congr {t u : Templates} (same : u.fixed = t.fixed) :
    u.Undesired ↔ t.Undesired := by
  have paths : u.toTemplatePaths = t.toTemplatePaths := congrArg Prod.fst same
  have disabled : u.disabled = t.disabled := congrArg Prod.snd same
  rw [Undesired, Undesired, paths, disabled]

theorem preload_bare {t : Templates} (disk : TemplateDisk) (bare : t.Bare) :
    (t.preload disk).1.Bare := by
  intro undesired
  rw [undesired_congr (preload_fixed disk t).1] at undesired
  rw [preload, if_pos undesired]
  exact bare undesired

theorem checkItems_eq_none {file : Bytes → Option TemplateFile} {loadedTime : Int}
    {items : List TemplateItem} :
    checkItems file loadedTime items = .none ↔
      ∀ item ∈ items, checkItem file loadedTime item = .none := by
  induction items with
  | nil => exact iff_of_true rfl nofun
  | cons item items ih =>
    rw [checkItems, List.forall_mem_cons]
    split
    · rename_i fine
      rw [ih]
      exact (and_iff_right fine).symm
    · rename_i found
      exact iff_of_false found fun both => found both.1

end Templates
end Da4qi4
