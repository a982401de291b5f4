import Da4qi4.Server.Templates

/-! Reloads that fail. The maps that pages are served from are emptied first, and are
filled again by the two walks; an iterator that throws leaves what was loaded until
then. -/
namespace Da4qi4
open Utilities

namespace TemplateMap

def templ (m : TemplateMap) (key : Bytes) : Option Template :=
  (m.lookup key).map TemplateItem.templ

/-- A template that is there stays. -/
theorem templ_insert (m : TemplateMap) (key other : Bytes) (item : TemplateItem) :
    templ (m.insert key item) other =
      (templ m other).or (if key = other then some item.templ else none) := by
  rw [templ, templ, OrderedMap.lookup_insert]
  by_cases same : key = other
  · rw [if_pos (congrArg _ same), if_pos same, same]
    cases m.lookup other with
    | none => rfl
    | some item => rfl
  · rw [if_neg fun equal => same (Bytes.octets_inj.mp equal), if_neg same, Option.or_none]

end TemplateMap

namespace DirectoryWalk

/-- What an iterator comes upon, if there is a directory. -/
def walked : Option DirectoryWalk → List TemplateFile
  | none => []
  | some walk => walk.files

/-- The iterator does not throw. -/
def ends : Option DirectoryWalk → Bool
  | none => true
  | some walk => walk.ended

end DirectoryWalk

namespace Templates
open DirectoryWalk (walked ends)
open TemplateMap (templ)

def get (t : Templates) (name : Bytes) : Option Template := templ t.templates name

def getInclude (t : Templates) (key : Bytes) : Option Template := templ t.includesTemplates key

/-- A reload that fails leaves every template as it was. -/
def FailsSafely (disk : TemplateDisk) (t : Templates) : Prop :=
  (t.preload disk).2 = false →
    (∀ name, (t.preload disk).1.get name = t.get name) ∧
      ∀ key, (t.preload disk).1.getInclude key = t.getInclude key

/-- The walk takes the file for the template of a key, and the engine does. -/
def makes (p : TemplatePaths) (accepts : Bytes → Bytes → Bool) (flag : TemplateFlag) (key : Bytes)
    (file : TemplateFile) : Bool :=
  p.keyOf file.path = some key && isIncludeDir file.path = decide (flag = .forInclude) &&
    file.content ≠ [] && accepts file.path file.content

theorem makes_iff {p : TemplatePaths} {accepts : Bytes → Bytes → Bool} {flag : TemplateFlag}
    {key : Bytes} {file : TemplateFile} :
    makes p accepts flag key file = true ↔ Visits p flag file key ∧ Loads accepts file := by
  simp [makes, Visits, Loads, and_assoc]

/-- The template of the first file that makes one. -/
def made (p : TemplatePaths) (accepts : Bytes → Bytes → Bool) (flag : TemplateFlag)
    (files : List TemplateFile) (key : Bytes) : Option Template :=
  (files.find? (makes p accepts flag key)).map fun file => ⟨file.content⟩

/-- The map that a walk fills. -/
def filled (t : Templates) : TemplateFlag → TemplateMap
  | .forNormal => t.templates
  | .forInclude => t.includesTemplates

/-- The map that it leaves. -/
def left (t : Templates) : TemplateFlag → TemplateMap
  | .forNormal => t.includesTemplates
  | .forInclude => t.templates

theorem visit_maps (accepts : Bytes → Bytes → Bool) (flag : TemplateFlag) (t : Templates)
    (file : TemplateFile) (key : Bytes) :
    templ ((t.visit accepts flag file).filled flag) key =
        (templ (t.filled flag) key).or
          (if makes t.toTemplatePaths accepts flag key file then some ⟨file.content⟩ else none) ∧
      (t.visit accepts flag file).left flag = t.left flag := by
  rcases visit_cases accepts flag t file with ⟨same, refused⟩ | ⟨stored, visits, loads, loaded⟩
  · have not : ¬makes t.toTemplatePaths accepts flag key file = true := fun makes =>
      refused key (makes_iff.mp makes).1 (makes_iff.mp makes).2
    rw [same, if_neg not, Option.or_none]
    exact ⟨rfl, rfl⟩
  · have named : makes t.toTemplatePaths accepts flag key file = true ↔ stored = key := by
      rw [makes_iff]
      constructor
      · rintro ⟨also, -⟩
        exact Option.some.inj (visits.1.symm.trans also.1)
      · rintro rfl
        exact ⟨visits, loads⟩
    have inserted := TemplateMap.templ_insert (t.filled flag) stored key ⟨⟨file.content⟩, file.path⟩
    rw [loaded, visits.2, if_congr named rfl rfl, ← inserted]
    cases flag with
    | forNormal => exact ⟨rfl, rfl⟩
    | forInclude => exact ⟨rfl, rfl⟩

theorem foldl_visit_maps (accepts : Bytes → Bytes → Bool) (flag : TemplateFlag) (t : Templates)
    (files : List TemplateFile) (key : Bytes) :
    templ ((files.foldl (visit accepts flag) t).filled flag) key =
        (templ (t.filled flag) key).or (made t.toTemplatePaths accepts flag files key) ∧
      (files.foldl (visit accepts flag) t).left flag = t.left flag := by
  induction files generalizing t with
  | nil => exact ⟨Option.or_none.symm, rfl⟩
  | cons file files ih =>
    obtain ⟨visited, other⟩ := visit_maps accepts flag t file key
    obtain ⟨later, rest⟩ := ih (t.visit accepts flag file)
    have paths : (t.visit accepts flag file).toTemplatePaths = t.toTemplatePaths :=
      congrArg Prod.fst (settings_visit accepts flag t file)
    refine ⟨?_, rest.trans other⟩
    rw [List.foldl_cons, later, visited, paths, Option.or_assoc]
    congr 1
    rw [made, made, List.find?_cons]
    cases makes t.toTemplatePaths accepts flag key file with
    | true => rfl
    | false => rfl

theorem loadTemplates_eq (accepts : Bytes → Bytes → Bool) (flag : TemplateFlag)
    (walk : Option DirectoryWalk) (t : Templates) :
    t.loadTemplates accepts flag walk = ((walked walk).foldl (visit accepts flag) t, ends walk) := by
  cases walk with
  | none => rfl
  | some walk => rfl

/-- The files that the second walk comes upon: none if the first one failed. -/
def normalFiles (disk : TemplateDisk) : List TemplateFile :=
  if ends disk.forInclude then walked disk.forNormal else []

/-- The reload does not get to an end. -/
def Breaks (disk : TemplateDisk) (t : Templates) : Prop :=
  ¬t.Undesired ∧ ¬(ends disk.forInclude = true ∧ ends disk.forNormal = true)

/-- The templates are those of the files that the walks come upon. -/
structure AsFound (disk : TemplateDisk) (t : Templates) : Prop where
  normal : ∀ name,
    t.get name = made t.toTemplatePaths disk.accepts .forNormal (normalFiles disk) name
  includes : ∀ key,
    t.getInclude key = made t.toTemplatePaths disk.accepts .forInclude (walked disk.forInclude) key

theorem preload_fails_iff (disk : TemplateDisk) (t : Templates) :
    (t.preload disk).2 = false ↔ t.Breaks disk := by
  rw [preload, Breaks]
  split
  · rename_i undesired
    simp [undesired]
  · rename_i desired
    simp only [loadTemplates_eq]
    split
    · rename_i first
      split
      · rename_i second
        simp [first, second]
      · rename_i second
        simp [desired, second]
    · rename_i first
      simp [desired, first]

/-- What is served behind a reload that failed. -/
theorem preload_failed {disk : TemplateDisk} {t : Templates} (breaks : t.Breaks disk) :
    (∀ name, (t.preload disk).1.get name =
      made t.toTemplatePaths disk.accepts .forNormal (normalFiles disk) name) ∧
    ∀ key, (t.preload disk).1.getInclude key =
      made t.toTemplatePaths disk.accepts .forInclude (walked disk.forInclude) key := by
  obtain ⟨desired, broken⟩ := breaks
  have included (key : Bytes) :=
    foldl_visit_maps disk.accepts .forInclude t.cleared (walked disk.forInclude) key
  have settings := congrArg Prod.fst
    (foldl_visit_settings disk.accepts .forInclude t.cleared (walked disk.forInclude))
  rw [preload, if_neg desired]
  simp only [loadTemplates_eq, normalFiles]
  generalize (walked disk.forInclude).foldl (visit disk.accepts .forInclude) t.cleared = u at *
  have paths : u.toTemplatePaths = t.toTemplatePaths := settings
  have includes (key : Bytes) : u.getInclude key =
      made t.toTemplatePaths disk.accepts .forInclude (walked disk.forInclude) key :=
    (included key).1.trans Option.none_or
  have bare : u.templates = .empty := (included []).2
  split
  · rename_i first
    have second : ¬ends disk.forNormal = true := fun second => broken ⟨first, second⟩
    rw [if_neg second]
    have normal (key : Bytes) :=
      foldl_visit_maps disk.accepts .forNormal u (walked disk.forNormal) key
    constructor
    · intro name
      have none : templ (u.filled .forNormal) name = none := by
        rw [filled, bare]
        rfl
      rw [← paths]
      exact (normal name).1.trans (by rw [none, Option.none_or])
    · intro key
      rw [← includes key, getInclude, getInclude]
      exact congrArg (fun m => templ m key) (normal key).2
  · constructor
    · intro name
      rw [get, bare]
      rfl
    · exact includes

/-- A reload fails safely exactly if it does not fail, or the templates were already those
of the files that it comes upon. -/
theorem failsSafely_iff (disk : TemplateDisk) (t : Templates) :
    (¬t.Breaks disk → t.FailsSafely disk) ∧
      (t.FailsSafely disk ↔ (t.Breaks disk → t.AsFound disk)) := by
  rw [FailsSafely, preload_fails_iff]
  refine ⟨fun whole breaks => absurd breaks whole, ?_⟩
  refine imp_congr_right fun breaks => ?_
  obtain ⟨normal, includes⟩ := preload_failed breaks
  constructor
  · rintro ⟨same, sameIncludes⟩
    exact ⟨fun name => (same name).symm.trans (normal name),
      fun key => (sameIncludes key).symm.trans (includes key)⟩
  · intro asFound
    exact ⟨fun name => (normal name).trans (asFound.normal name).symm,
      fun key => (includes key).trans (asFound.includes key).symm⟩

/-- A directory with one page, and what is loaded from it. -/
def readable : TemplateDisk where
  file _ := none
  forInclude := some { files := [] }
  forNormal := some { files := [⟨Bytes.ofAscii "r/p.e", [120], some 0⟩] }
  forCheck := none
  accepts _ _ := true
  now := 0

def pageServed : Templates :=
  ((constructed ⟨Bytes.ofAscii "r", [], Bytes.ofAscii ".e"⟩ false).preload readable).1

/-- Now it cannot be read. -/
def unreadable : TemplateDisk where
  file _ := none
  forInclude := some { files := [], ended := false }
  forNormal := none
  forCheck := none
  accepts _ _ := true
  now := 0

theorem page_lost :
    (pageServed.preload unreadable).2 = false ∧
      pageServed.get (Bytes.ofAscii "/p") = some ⟨[120]⟩ ∧
      (pageServed.preload unreadable).1.get (Bytes.ofAscii "/p") = none ∧
      ¬pageServed.FailsSafely unreadable := by
  refine ⟨by decide, by decide, by decide, ?_⟩
  intro safely
  have same := (safely (by decide)).1 (Bytes.ofAscii "/p")
  exact absurd same (by decide)

end Templates
end Da4qi4
