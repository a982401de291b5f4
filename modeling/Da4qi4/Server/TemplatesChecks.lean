import Da4qi4.Server.Templates
import Mathlib.Data.List.Nodup

/-! Checks of a directory in which nothing changes. Loading passes over a file that is
empty, or that the engine does not take, and the check then finds that file new. -/
namespace Da4qi4
open Utilities

/-- The path of a directory's entry. -/
def joined (root name : Bytes) : Bytes :=
  if root.getLast? = some 47 then root ++ name else root ++ 47 :: name

/-- What the path of an entry has behind the root. -/
def belowRoot (root name : Bytes) : Bytes := if root.getLast? = some 47 then name else 47 :: name

theorem joined_eq (root name : Bytes) : joined root name = root ++ belowRoot root name := by
  rw [joined, belowRoot]
  split
  · rfl
  · rfl

theorem takeWhile_prefix_of_stop {stop : UInt8} {keep : UInt8 → Bool} (stops : keep stop = false)
    (front back : Bytes) : (front ++ stop :: back).takeWhile keep <+: front := by
  induction front with
  | nil => simp [stops]
  | cons c front ih =>
    rw [List.cons_append, List.takeWhile_cons]
    split
    · exact List.cons_prefix_cons.mpr ⟨rfl, ih⟩
    · exact List.nil_prefix

/-- The name of a file lies below the root. -/
theorem pathFilename_suffix (root name : Bytes) : pathFilename (joined root name) <:+ name := by
  have ends (front : Bytes) : pathFilename (front ++ 47 :: name) <:+ name := by
    rw [pathFilename, List.rtakeWhile, List.reverse_append, List.reverse_cons, List.append_assoc]
    have within : (name.reverse ++ 47 :: front.reverse).takeWhile (fun c => decide (c ≠ 47)) <+:
        name.reverse := takeWhile_prefix_of_stop (by decide) _ _
    exact List.reverse_prefix.mp (by simpa using within)
  rw [joined]
  split
  · rename_i slash
    obtain ⟨front, rfl⟩ := List.getLast?_eq_some_iff.mp slash
    simpa using ends front
  · exact ends root

namespace TemplatePaths
variable {p : TemplatePaths} {name other key : Bytes}

theorem mpath_append (named : p.templateExt <:+ name) :
    p.mpath (joined p.root name) ++ p.templateExt = belowRoot p.root name := by
  have within : p.templateExt <:+ belowRoot p.root name := by
    rw [belowRoot]
    split
    · exact named
    · exact named.trans (List.suffix_cons 47 name)
  obtain ⟨front, whole⟩ := within
  rw [mpath, joined_eq, List.drop_left, List.length_append, Nat.add_sub_cancel_left, ← whole,
    List.length_append, Nat.add_sub_cancel, List.take_left]

theorem keyOf_joined (keyed : p.keyOf (joined p.root name) = some key) :
    p.templateExt <:+ name ∧ p.mpath (joined p.root name) ≠ [] ∧
      makeTemplateKey p.appPrefix (p.mpath (joined p.root name)) [] = key := by
  rw [keyOf] at keyed
  split at keyed
  · rename_i ends
    split at keyed
    · cases keyed
    · split at keyed
      · rename_i some
        cases keyed
        exact ⟨(List.isSuffixOf_iff_suffix.mp ends).trans (pathFilename_suffix _ _), some, rfl⟩
      · cases keyed
  · cases keyed

/-- Either all paths below the root begin with a slash or none does. -/
theorem head_mpath (entry : name.head? ≠ some 47)
    (keyed : p.keyOf (joined p.root name) = some key) :
    (p.mpath (joined p.root name)).head? = some 47 ↔ p.root.getLast? ≠ some 47 := by
  obtain ⟨named, nonempty, -⟩ := keyOf_joined keyed
  have whole := mpath_append named
  obtain ⟨c, rest, shape⟩ := List.exists_cons_of_ne_nil nonempty
  rw [shape, belowRoot] at whole
  rw [shape]
  split at whole
  · rename_i slash
    refine iff_of_false (fun first => entry ?_) (not_not_intro slash)
    rw [← whole]
    exact first
  · rename_i noSlash
    obtain ⟨rfl, -⟩ := List.cons_eq_cons.mp whole
    exact iff_of_true rfl noSlash

end TemplatePaths

theorem makeTemplateKey_inj {appPrefix m n : Bytes} (some : m ≠ []) (also : n ≠ [])
    (alike : m.head? = Option.some 47 ↔ n.head? = Option.some 47)
    (same : makeTemplateKey appPrefix m [] = makeTemplateKey appPrefix n []) : m = n := by
  rw [makeTemplateKey, makeTemplateKey] at same
  by_cases slashes : appPrefix.getLast? = Option.some 47 ∧ n.head? = Option.some 47
  · obtain ⟨back, rfl⟩ := List.head?_eq_some_iff.mp slashes.2
    obtain ⟨front, rfl⟩ := List.head?_eq_some_iff.mp (alike.mpr slashes.2)
    have ends : appPrefix ≠ [] := by
      rintro rfl
      cases slashes.1
    simp only [ends, slashes.1, ne_eq, not_true_eq_false, List.cons_ne_nil, List.head?_cons,
      or_self, if_false, List.append_nil] at same
    exact congrArg (List.cons 47) (List.append_cancel_left same)
  · have whole (k : Bytes) (shape : k.head? = Option.some 47 ↔ n.head? = Option.some 47) :
        appPrefix = [] ∨ k = [] ∨ appPrefix.getLast? ≠ Option.some 47 ∨
          k.head? ≠ Option.some 47 := by
      by_cases prefixed : appPrefix.getLast? = Option.some 47
      · exact .inr (.inr (.inr fun first => slashes ⟨prefixed, shape.mp first⟩))
      · exact .inr (.inr (.inl prefixed))
    rw [if_pos (whole m alike), if_pos (whole n Iff.rfl), List.append_nil, List.append_nil] at same
    exact List.append_cancel_left same

/-- No two files have one key. -/
theorem TemplatePaths.keyOf_inj {p : TemplatePaths} {name other key : Bytes}
    (entry : name.head? ≠ some 47) (also : other.head? ≠ some 47)
    (keyed : p.keyOf (joined p.root name) = some key)
    (alike : p.keyOf (joined p.root other) = some key) : name = other := by
  obtain ⟨named, nonempty, made⟩ := keyOf_joined keyed
  obtain ⟨namedToo, nonemptyToo, madeToo⟩ := keyOf_joined alike
  have paths := makeTemplateKey_inj nonempty nonemptyToo
    ((head_mpath entry keyed).trans (head_mpath also alike).symm) (made.trans madeToo.symm)
  have below : belowRoot p.root name = belowRoot p.root other := by
    rw [← mpath_append named, paths, mpath_append namedToo]
  rw [belowRoot, belowRoot] at below
  split at below
  · exact below
  · exact List.cons.inj below |>.2

/-- The regular files below the root, as an iterator sees them, and whether it reaches
the end. -/
structure TemplateTree (root : Bytes) where
  files : List TemplateFile
  readable : Bool := true
  below : ∀ f ∈ files, ∃ name, name.head? ≠ some 47 ∧ f.path = joined root name
  distinct : (files.map TemplateFile.path).Nodup

namespace TemplateTree
variable {root : Bytes}

/-- A walk over the tree, in any order; there is none without the directory. -/
def Walked (tree : TemplateTree root) : Option DirectoryWalk → Prop
  | none => tree.files = [] ∧ tree.readable = true
  | some walk => walk.files.Perm tree.files ∧ walk.ended = tree.readable

/-- A call finds the tree on the disk. -/
structure ShownBy (tree : TemplateTree root) (disk : TemplateDisk) : Prop where
  file : ∀ f ∈ tree.files, disk.file f.path = some f
  forInclude : tree.Walked disk.forInclude
  forNormal : tree.Walked disk.forNormal
  forCheck : tree.Walked disk.forCheck

/-- No two files of the tree have one key. -/
theorem keyOf_inj {p : TemplatePaths} (tree : TemplateTree p.root) {f g : TemplateFile}
    (inside : f ∈ tree.files) (also : g ∈ tree.files) (keyed : p.keyOf f.path = some key)
    (alike : p.keyOf g.path = some key) : f = g := by
  apply List.inj_on_of_nodup_map tree.distinct inside also
  obtain ⟨name, entry, path⟩ := tree.below f inside
  obtain ⟨other, entryToo, pathToo⟩ := tree.below g also
  rw [path] at keyed ⊢
  rw [pathToo] at alike ⊢
  rw [TemplatePaths.keyOf_inj entry entryToo keyed alike]

end TemplateTree
namespace Templates

theorem foldl_visit_items {accepts : Bytes → Bytes → Bool} {flag : TemplateFlag} {t : Templates}
    {files : List TemplateFile} {item : TemplateItem}
    (member : item ∈ (files.foldl (visit accepts flag) t).items) :
    item ∈ t.items ∨ ∃ file ∈ files, item = ⟨⟨file.content⟩, file.path⟩ := by
  induction files generalizing t with
  | nil => exact .inl member
  | cons file files ih =>
    rcases ih member with earlier | ⟨later, inside, made⟩
    · rcases mem_items_visit earlier with old | made
      · exact .inl old
      · exact .inr ⟨file, List.mem_cons_self, made⟩
    · exact .inr ⟨later, List.mem_cons_of_mem _ inside, made⟩

theorem foldl_visit_known (accepts : Bytes → Bytes → Bool) (flag : TemplateFlag) (t : Templates)
    (files : List TemplateFile) (inside : Bool) (key : Bytes) :
    (files.foldl (visit accepts flag) t).known inside key = true ↔ t.known inside key = true ∨
      ∃ file ∈ files, Visits t.toTemplatePaths flag file key ∧ Loads accepts file ∧
        isIncludeDir file.path = inside := by
  induction files generalizing t with
  | nil => simp
  | cons file files ih =>
    have paths : (t.visit accepts flag file).toTemplatePaths = t.toTemplatePaths :=
      congrArg Prod.fst (settings_visit accepts flag t file)
    rw [List.foldl_cons, ih, known_visit, paths, or_assoc]
    refine or_congr_right ?_
    simp

/-- A walk over a tree loads its files. -/
theorem loadTemplates_walked {root : Bytes} {tree : TemplateTree root} {walk : Option DirectoryWalk}
    (walked : tree.Walked walk) (accepts : Bytes → Bytes → Bool) (flag : TemplateFlag)
    (t : Templates) :
    ∃ files : List TemplateFile, files.Perm tree.files ∧
      t.loadTemplates accepts flag walk = (files.foldl (visit accepts flag) t, tree.readable) := by
  cases walk with
  | none => exact ⟨[], by rw [walked.1], by rw [loadTemplates, walked.2]; rfl⟩
  | some walk => exact ⟨walk.files, walked.1, by rw [loadTemplates, walked.2]⟩

/-- What loading makes of a tree: the templates come from its files, and a file's key
is known if the engine took the file. -/
structure Mirrors {root : Bytes} (tree : TemplateTree root) (accepts : Bytes → Bytes → Bool)
    (t : Templates) : Prop where
  made : ∀ item ∈ t.items, ∃ file ∈ tree.files, item = ⟨⟨file.content⟩, file.path⟩
  knows : ∀ inside key, t.known inside key = true ↔ ∃ file ∈ tree.files,
    t.keyOf file.path = some key ∧ Loads accepts file ∧ isIncludeDir file.path = inside

/-- The walk for the includes and the one for the other files together. -/
theorem mirrors_of_walks {root : Bytes} {tree : TemplateTree root} (accepts : Bytes → Bytes → Bool)
    (t : Templates) {first second : List TemplateFile} (permFirst : first.Perm tree.files)
    (permSecond : second.Perm tree.files) :
    Mirrors tree accepts (second.foldl (visit accepts .forNormal)
      (first.foldl (visit accepts .forInclude) t.cleared)) := by
  constructor
  · intro item member
    rcases foldl_visit_items member with earlier | ⟨file, inside, made⟩
    · rcases foldl_visit_items earlier with none | ⟨file, inside, made⟩
      · cases none
      · exact ⟨file, permFirst.mem_iff.mp inside, made⟩
    · exact ⟨file, permSecond.mem_iff.mp inside, made⟩
  · intro inside key
    have middle := congrArg Prod.fst (foldl_visit_settings accepts .forInclude t.cleared first)
    have last := congrArg Prod.fst (foldl_visit_settings accepts .forNormal
      (first.foldl (visit accepts .forInclude) t.cleared) second)
    simp only [settings] at middle last
    rw [foldl_visit_known, foldl_visit_known, last, middle]
    constructor
    · rintro ((none | ⟨file, member, visits, loads, place⟩) |
        ⟨file, member, visits, loads, place⟩)
      · cases inside
        · cases none
        · cases none
      · exact ⟨file, permFirst.mem_iff.mp member, visits.1, loads, place⟩
      · exact ⟨file, permSecond.mem_iff.mp member, visits.1, loads, place⟩
    · rintro ⟨file, member, keyed, loads, place⟩
      cases included : isIncludeDir file.path with
      | true =>
        exact .inl (.inr ⟨file, permFirst.mem_iff.mpr member, ⟨keyed, included⟩, loads, place⟩)
      | false =>
        exact .inr ⟨file, permSecond.mem_iff.mpr member, ⟨keyed, included⟩, loads, place⟩

theorem preload_mirrors {t : Templates} {root : Bytes} {tree : TemplateTree root}
    {disk : TemplateDisk}
    (shown : tree.ShownBy disk) (desired : ¬t.Undesired) (returned : (t.preload disk).2 = true) :
    Mirrors tree disk.accepts (t.preload disk).1 ∧ (t.preload disk).1.loadedTime = disk.now ∧
      (t.preload disk).1.toTemplatePaths = t.toTemplatePaths ∧
      (t.preload disk).1.disabled = t.disabled := by
  obtain ⟨first, permFirst, included⟩ :=
    loadTemplates_walked shown.forInclude disk.accepts .forInclude t.cleared
  obtain ⟨second, permSecond, normal⟩ := loadTemplates_walked shown.forNormal disk.accepts
    .forNormal (first.foldl (visit disk.accepts .forInclude) t.cleared)
  have mirrors := mirrors_of_walks disk.accepts t permFirst permSecond
  have kept := (foldl_visit_settings disk.accepts .forNormal _ second).trans
    (foldl_visit_settings disk.accepts .forInclude t.cleared first)
  simp only [preload, if_neg desired, included, normal] at returned ⊢
  generalize second.foldl (visit disk.accepts .forNormal)
    (first.foldl (visit disk.accepts .forInclude) t.cleared) = last at *
  cases readable : tree.readable with
  | false => simp [readable] at returned
  | true =>
    have off : last.disabled = t.disabled := congrArg (fun s => s.2.1) kept
    exact ⟨⟨mirrors.made, mirrors.knows⟩, rfl, congrArg Prod.fst kept, off⟩

theorem checkNewTemplate_eq {t : Templates} {root : Bytes} {tree : TemplateTree root}
    {disk : TemplateDisk} (walked : tree.Walked disk.forCheck) :
    t.checkNewTemplate disk =
      if ∃ file ∈ tree.files, t.isNew file.path = true then some .appended
      else if tree.readable then some .none else none := by
  rw [checkNewTemplate]
  generalize disk.forCheck = walk at walked
  cases walk with
  | none => simp [walked.1, walked.2]
  | some walk =>
    have found : (walk.files.any fun file => t.isNew file.path) = true ↔
        ∃ file ∈ tree.files, t.isNew file.path = true := by
      simp only [List.any_eq_true, walked.1.mem_iff]
    simp only [found, walked.2]

/-- Unless a file is new, a check that finds no changed template does nothing. -/
theorem checkTemplatesUpdate_eq {t : Templates} {root : Bytes} {tree : TemplateTree root}
    {disk : TemplateDisk} (shown : tree.ShownBy disk)
    (unchanged : t.checkExistsTemplate disk = .none) :
    (t.checkTemplatesUpdate disk).getD t =
      if t.disabled = false ∧ ∃ file ∈ tree.files, t.isNew file.path = true then (t.reload disk).1
      else t := by
  rw [checkTemplatesUpdate, reloadIfFindUpdate]
  cases disabled : t.disabled with
  | true => simp
  | false =>
    simp only [Bool.false_eq_true, if_false, unchanged, if_true, reloadIfFindNew, disabled,
      checkNewTemplate_eq shown.forCheck, true_and]
    split
    · rfl
    · cases tree.readable with
      | true => rfl
      | false => rfl

inductive Call where
  | preload (disk : TemplateDisk)
  | check (disk : TemplateDisk)

def call (t : Templates) : Call → Templates
  | .preload disk => (t.preload disk).1
  | .check disk => (t.checkTemplatesUpdate disk).getD t

theorem call_bare {t : Templates} (c : Call) (bare : t.Bare) :
    (t.call c).Bare ∧ (t.call c).fixed = t.fixed := by
  have reloaded (disk : TemplateDisk) {u : Templates} (loose : u.Bare) :
      (u.reload disk).1.Bare ∧ (u.reload disk).1.fixed = u.fixed :=
    ⟨preload_bare disk loose, (preload_fixed disk _).1⟩
  cases c with
  | preload disk => exact ⟨preload_bare disk bare, (preload_fixed disk t).1⟩
  | check disk =>
    have update : (t.reloadIfFindUpdate disk).1.Bare ∧
        (t.reloadIfFindUpdate disk).1.fixed = t.fixed := by
      rw [reloadIfFindUpdate]
      split
      · exact ⟨bare, rfl⟩
      · split
        · exact ⟨bare, rfl⟩
        · exact reloaded disk bare
    have new {u : Templates} (loose : u.Bare) (v : Templates × Bool)
        (found : u.reloadIfFindNew disk = some v) : v.1.Bare ∧ v.1.fixed = u.fixed := by
      rw [reloadIfFindNew] at found
      split at found
      · cases found
        exact ⟨loose, rfl⟩
      · obtain ⟨action, -, rfl⟩ := Option.map_eq_some_iff.mp found
        split
        · exact ⟨loose, rfl⟩
        · exact reloaded disk loose
    rw [call, checkTemplatesUpdate]
    split
    · exact update
    · cases found : (t.reloadIfFindUpdate disk).1.reloadIfFindNew disk with
      | none => exact ⟨bare, rfl⟩
      | some v =>
        obtain ⟨loose, same⟩ := new update.1 v found
        exact ⟨loose, same.trans update.2⟩

theorem calls_bare {t : Templates} (calls : List Call) (bare : t.Bare) :
    (calls.foldl call t).Bare ∧ (calls.foldl call t).fixed = t.fixed := by
  induction calls generalizing t with
  | nil => exact ⟨bare, rfl⟩
  | cons c calls ih =>
    obtain ⟨next, same⟩ := call_bare c bare
    obtain ⟨final, kept⟩ := ih next
    exact ⟨final, kept.trans same⟩

/-- The engine takes each file that is a template by its name; there is no such file
where nothing is loaded at all. -/
def AllLoaded (p : TemplatePaths) (tree : TemplateTree p.root) (accepts : Bytes → Bytes → Bool) :
    Prop :=
  ∀ file ∈ tree.files, (p.keyOf file.path).isSome = true →
    p.root ≠ [] ∧ p.templateExt ≠ [] ∧ Loads accepts file

theorem isNew_iff {t : Templates} {path : Bytes} :
    t.isNew path = true ↔
      ∃ key, t.keyOf path = some key ∧ ¬t.known (isIncludeDir path) key = true := by
  rw [isNew]
  cases t.keyOf path with
  | none => exact iff_of_false nofun nofun
  | some key => simp

theorem not_known_of_items {t : Templates} (none : t.items = []) (inside : Bool) (key : Bytes) :
    ¬t.known inside key = true := by
  obtain ⟨normal, includes⟩ := List.append_eq_nil_iff.mp none
  have absent {m : TemplateMap} (empty : m.entries.map Prod.snd = []) : m.find key = Option.none := by
    rw [OrderedMap.find, List.map_eq_nil_iff.mp empty, List.find?_nil]
  rw [known]
  cases inside with
  | true => simp [absent includes]
  | false => simp [absent normal]

section
variable {p : TemplatePaths} {tree : TemplateTree p.root} {accepts : Bytes → Bytes → Bool}
  {t : Templates}

/-- Of the files of a tree only the file itself has its key. -/
theorem Mirrors.known_iff (mirrors : Mirrors tree accepts t) (paths : t.toTemplatePaths = p)
    {file : TemplateFile} (inside : file ∈ tree.files) {key : Bytes}
    (keyed : p.keyOf file.path = some key) :
    t.known (isIncludeDir file.path) key = true ↔ Loads accepts file := by
  rw [mirrors.knows, paths]
  constructor
  · rintro ⟨other, also, alike, loads, -⟩
    rw [tree.keyOf_inj inside also keyed alike]
    exact loads
  · exact fun loads => ⟨file, inside, keyed, loads, rfl⟩

theorem Mirrors.isNew_iff (mirrors : Mirrors tree accepts t) (paths : t.toTemplatePaths = p)
    {file : TemplateFile} (inside : file ∈ tree.files) :
    t.isNew file.path = true ↔ (p.keyOf file.path).isSome = true ∧ ¬Loads accepts file := by
  rw [Templates.isNew_iff, paths, Option.isSome_iff_exists, ← exists_and_right]
  refine exists_congr fun key => and_congr_right fun keyed => ?_
  rw [mirrors.known_iff paths inside keyed]

/-- The check finds no loaded template changed. -/
theorem Mirrors.checkExistsTemplate_eq (mirrors : Mirrors tree accepts t) {disk : TemplateDisk}
    (shown : tree.ShownBy disk)
    (before : ∀ file ∈ tree.files, ∀ time, file.time = some time → time ≤ t.loadedTime) :
    t.checkExistsTemplate disk = .none := by
  rw [checkExistsTemplate, checkItems_eq_none]
  intro item member
  obtain ⟨file, inside, rfl⟩ := mirrors.made item member
  simp only [checkItem, shown.file file inside]
  cases last : file.time with
  | none => rfl
  | some time => exact if_neg (Int.not_lt.mpr (before file inside time last))

end

/-- Where files are new exactly if they are not loaded, some are new exactly if not all
are loaded. -/
theorem some_new_iff {p : TemplatePaths} {tree : TemplateTree p.root}
    {accepts : Bytes → Bytes → Bool} {t : Templates} {disabled : Bool}
    (new : disabled = false → ∀ file ∈ tree.files, t.isNew file.path = true ↔
      (p.keyOf file.path).isSome = true ∧
        ¬(p.root ≠ [] ∧ p.templateExt ≠ [] ∧ Loads accepts file)) :
    (disabled = false ∧ ∃ file ∈ tree.files, t.isNew file.path = true) ↔
      ¬(disabled = true ∨ AllLoaded p tree accepts) := by
  constructor
  · rintro ⟨on, file, member, found⟩ (off | all)
    · rw [on] at off
      cases off
    · obtain ⟨named, unloaded⟩ := (new on file member).mp found
      exact unloaded (all file member named)
  · intro wrong
    obtain ⟨on, some⟩ := not_or.mp wrong
    have enabled : disabled = false := Bool.eq_false_iff.mpr on
    refine ⟨enabled, ?_⟩
    by_contra none
    refine some fun file member named => ?_
    by_contra unloaded
    exact none ⟨file, member, (new enabled file member).mpr ⟨named, unloaded⟩⟩

/-- Behind the loading of a tree the check finds no loaded template changed, and it
finds a file new if that was not loaded. -/
theorem preload_checks {p : TemplatePaths} {disabled : Bool} {t : Templates}
    {tree : TemplateTree p.root} {load : TemplateDisk} (bare : t.Bare)
    (fixed : t.fixed = (p, disabled)) (shown : tree.ShownBy load)
    (returned : (t.preload load).2 = true)
    (before : ∀ file ∈ tree.files, ∀ time, file.time = some time → time ≤ load.now) :
    (∀ disk, tree.ShownBy disk → (t.preload load).1.checkExistsTemplate disk = .none) ∧
      ((disabled = false ∧ ∃ file ∈ tree.files, (t.preload load).1.isNew file.path = true) ↔
        ¬(disabled = true ∨ AllLoaded p tree load.accepts)) := by
  have paths : t.toTemplatePaths = p := congrArg Prod.fst fixed
  have off : t.disabled = disabled := congrArg Prod.snd fixed
  by_cases undesired : t.Undesired
  · have same : (t.preload load).1 = t := by rw [preload, if_pos undesired]
    have none := bare undesired
    rw [same]
    refine ⟨fun disk _ => by rw [checkExistsTemplate, none]; rfl, some_new_iff ?_⟩
    intro on file _
    have unloaded : ¬(p.root ≠ [] ∧ p.templateExt ≠ [] ∧ Loads load.accepts file) := by
      rintro ⟨root, ext, -⟩
      rw [Undesired, off, on, paths] at undesired
      rcases undesired with ⟨⟨⟩⟩ | undesired | undesired
      · exact root undesired
      · exact ext undesired
    rw [isNew_iff, paths, and_iff_left unloaded, Option.isSome_iff_exists]
    exact exists_congr fun key => and_iff_left (not_known_of_items none _ key)
  · obtain ⟨mirrors, now, still, -⟩ := preload_mirrors shown undesired returned
    rw [paths] at still
    have root : p.root ≠ [] ∧ p.templateExt ≠ [] := by
      rw [Undesired, paths] at undesired
      exact ⟨fun none => undesired (.inr (.inl none)), fun none => undesired (.inr (.inr none))⟩
    refine ⟨fun disk again => mirrors.checkExistsTemplate_eq again (now ▸ before), ?_⟩
    refine some_new_iff fun _ file inside => ?_
    rw [mirrors.isNew_iff still inside]
    refine and_congr_right fun _ => not_congr ?_
    exact ⟨fun loads => ⟨root.1, root.2, loads⟩, fun all => all.2.2⟩

/-- Of a tree that does not change, and whose files were last written before it was
loaded, no check ever loads the templates again exactly if that loading took every file
that is a template by its name. -/
theorem never_reloads_iff (p : TemplatePaths) (disabled : Bool) (history : List Call)
    (tree : TemplateTree p.root) (load : TemplateDisk) (shown : tree.ShownBy load)
    (returned : ((history.foldl call (constructed p disabled)).preload load).2 = true)
    (before : ∀ file ∈ tree.files, ∀ time, file.time = some time → time ≤ load.now) :
    (∀ checks : List TemplateDisk, (∀ check ∈ checks, tree.ShownBy check) →
      ((checks.map .check).foldl call
          ((history.foldl call (constructed p disabled)).preload load).1).reloads =
        ((history.foldl call (constructed p disabled)).preload load).1.reloads) ↔
      disabled = true ∨ AllLoaded p tree load.accepts := by
  obtain ⟨bare, kept⟩ := calls_bare (t := constructed p disabled) history fun _ => rfl
  have fixed : (history.foldl call (constructed p disabled)).fixed = (p, disabled) := kept
  generalize history.foldl call (constructed p disabled) = t at bare kept fixed returned ⊢
  obtain ⟨unchanged, new⟩ := preload_checks bare fixed shown returned before
  have off : (t.preload load).1.disabled = disabled :=
    congrArg Prod.snd ((preload_fixed load t).1.trans fixed)
  generalize (t.preload load).1 = u at unchanged new off
  have checked (disk : TemplateDisk) (again : tree.ShownBy disk) :=
    checkTemplatesUpdate_eq again (unchanged disk again)
  rw [off] at checked
  constructor
  · intro never
    by_contra some
    have once := never [load] (List.forall_mem_singleton.mpr shown)
    have loaded : u.call (.check load) = (u.reload load).1 :=
      (checked load shown).trans (if_pos (new.mpr some))
    rw [List.map_singleton, List.foldl_cons, List.foldl_nil, loaded] at once
    have counted : (u.reload load).1.reloads = u.reloads + 1 := (preload_fixed load _).2
    omega
  · intro all checks again
    have still : (checks.map Call.check).foldl call u = u := by
      induction checks with
      | nil => rfl
      | cons disk checks ih =>
        obtain ⟨here, there⟩ := List.forall_mem_cons.mp again
        have same : u.call (.check disk) = u :=
          (checked disk here).trans (if_neg fun found => new.mp found all)
        rw [List.map_cons, List.foldl_cons, same, ih there]
    rw [still]

def examplePaths : TemplatePaths :=
  ⟨Bytes.ofAscii "/v", Bytes.ofAscii "/", Bytes.ofAscii ".daqi.HTML"⟩

/-- A directory with one file, written at time 1. -/
def onePage (content : Bytes) : TemplateTree examplePaths.root where
  files := [⟨Bytes.ofAscii "/v/a.daqi.HTML", content, some 1⟩]
  below := by
    intro f member
    cases List.mem_singleton.mp member
    exact ⟨Bytes.ofAscii "a.daqi.HTML", by decide, rfl⟩
  distinct := List.nodup_singleton _

/-- What a call finds there at time 2, with an engine that takes everything. -/
def oneDisk (content : Bytes) : TemplateDisk where
  file path := (onePage content).files.find? fun f => f.path = path
  forInclude := some ⟨(onePage content).files, true⟩
  forNormal := some ⟨(onePage content).files, true⟩
  forCheck := some ⟨(onePage content).files, true⟩
  accepts _ _ := true
  now := 2

theorem onePage_shownBy (content : Bytes) : (onePage content).ShownBy (oneDisk content) := by
  refine ⟨fun f member => ?_, ⟨.refl _, rfl⟩, ⟨.refl _, rfl⟩, ⟨.refl _, rfl⟩⟩
  cases List.mem_singleton.mp member
  rfl

theorem never_reloads_page :
    (∀ checks : List TemplateDisk,
      (∀ check ∈ checks, (onePage (Bytes.ofAscii "page")).ShownBy check) →
        ((checks.map .check).foldl call ((constructed examplePaths false).preload
          (oneDisk (Bytes.ofAscii "page"))).1).reloads =
            ((constructed examplePaths false).preload (oneDisk (Bytes.ofAscii "page"))).1.reloads) ↔
      false = true ∨
        AllLoaded examplePaths (onePage (Bytes.ofAscii "page")) fun _ _ => true := by
  refine never_reloads_iff examplePaths false [] (onePage _) (oneDisk _) (onePage_shownBy _) ?_ ?_
  · decide
  · intro file member time written
    cases List.mem_singleton.mp member
    cases written
    decide

/-- An empty file is found new by the first check. -/
theorem emptyPage_reloads :
    ((constructed examplePaths false).preload (oneDisk [])).2 = true ∧
      (∀ file ∈ (onePage []).files, ∀ time, file.time = some time → time ≤ (oneDisk []).now) ∧
      ¬∀ checks : List TemplateDisk, (∀ check ∈ checks, (onePage []).ShownBy check) →
        ((checks.map .check).foldl call
            ((constructed examplePaths false).preload (oneDisk [])).1).reloads =
          ((constructed examplePaths false).preload (oneDisk [])).1.reloads := by
  refine ⟨by decide, by decide, fun never => ?_⟩
  have once := never [oneDisk []] (List.forall_mem_singleton.mpr (onePage_shownBy []))
  exact absurd once (by decide)

end Templates
end Da4qi4
