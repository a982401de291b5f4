import Da4qi4.Server.ApplicationMgr
import Da4qi4.Server.FindHandler

/-! The server as it is set up: applications are mounted, made when there is none,
and given handlers through the server, which cuts the root off the target and puts
it back. -/
namespace Da4qi4
open Utilities

/-- `none` is a failed assertion, or an exception of `substr`. -/
def extractAppPath (ndebug : Bool) (appRoot path : Bytes) : Option Bytes :=
  if ¬ ndebug ∧ iStartsWith path appRoot = false then none
  else if path.length < appRoot.length then none
  else some (path.drop appRoot.length)

/-- The applications with their tables. The last field records what `DefaultApp` has
returned. -/
structure Server (H : Type) where
  mgr : ApplicationMgr
  tables : ApplicationPtr → HandlerTables H
  returned : List ApplicationPtr := []
  rooted : ∀ app, (tables app).rootUrl = app.urlRoot

namespace Server
variable {H : Type}

/-- No application is mounted, and none has a handler. -/
def initial (ndebug : Bool) : Server H where
  mgr := .initial ndebug
  tables app := { rootUrl := app.urlRoot }
  rooted _ := rfl

def ndebug (s : Server H) : Bool := s.mgr.ndebug

def makeDefaultAppIfEmpty (s : Server H) : Server H :=
  if s.mgr.isEmpty then { s with mgr := s.mgr.createDefault } else s

def makeDefaultApp (s : Server H) (name : Bytes) : Server H :=
  { s with mgr := s.mgr.createDefault name }

def prepareApp (s : Server H) (url : Bytes) : Server H × Option ApplicationPtr :=
  let s := s.makeDefaultAppIfEmpty
  (s, s.mgr.findByURL url)

/-- The tables of one application change. -/
def setTables (s : Server H) (app : ApplicationPtr) (tables : HandlerTables H)
    (rooted : tables.rootUrl = app.urlRoot) : Server H :=
  { s with
    tables := Function.update s.tables app tables
    rooted := by
      intro other
      by_cases same : other = app
      · subst same
        rw [Function.update_self]
        exact rooted
      · rw [Function.update_of_ne same]
        exact s.rooted other }

/-- The application's own `AddHandler`, with what it returns. -/
def addTo (s : Server H) (regex : Regex) (app : ApplicationPtr) (r : Registration H) :
    Option (Server H × Bool) :=
  match called : (s.tables app).addHandler s.ndebug regex r with
  | none => none
  | some added => some (s.setTables app added.1
      ((HandlerTables.addHandler_kept called).1.trans (s.rooted app)), added.2)

/-- `ServerAddHandler`. -/
def addHandler (s : Server H) (regex : Regex) (methods : Methods) (kind : RouterKind)
    (text : Bytes) (h : H) : Option (Server H × Option ApplicationPtr) :=
  match s.prepareApp text with
  | (s, none) => some (s, none)
  | (s, some app) =>
    (extractAppPath s.ndebug app.urlRoot text).bind fun rest =>
      (s.addTo regex app ⟨methods, kind, rest, h, []⟩).map fun added =>
        (added.1, if added.2 then some app else none)

/-- `DefaultApp`; `none` is a failed assertion. -/
def defaultApp (s : Server H) (name : Bytes) : Option (Server H × Option ApplicationPtr) :=
  let prepared :=
    match s.mgr.findByURL slash with
    | some app => (s, some app)
    | none =>
      let s := s.makeDefaultApp name
      (s, s.mgr.findByURL slash)
  if ¬ s.ndebug ∧ prepared.2 = none then none else some prepared

def mount (s : Server H) (app : ApplicationPtr) : Option (Server H × Bool) :=
  (s.mgr.mountApplication app).map fun mounted => ({ s with mgr := mounted.1 }, mounted.2)

/-- What `Run` does before connections are accepted. -/
def run (s : Server H) : Server H :=
  let s := { s with
    mgr := s.mgr.mount
    tables app := if app ∈ s.mgr.applications then { s.tables app with mounted := true }
      else s.tables app
    rooted := by
      intro app
      split
      · exact s.rooted app
      · exact s.rooted app }
  s.makeDefaultAppIfEmpty

/-- The handler of a request that is accepted now. -/
def route (s : Server H) (method : Nat) (path : Bytes) : Option H :=
  (s.mgr.findByURL path).bind fun app => ((s.tables app).findHandler method path [] {}).1

end Server

/-- The root that a target is taken below: the longest one that begins it, or that of
a default application. -/
def ApplicationMgr.longestRoot (s : ApplicationMgr) (url : Bytes) : Bytes :=
  (((s.applications.map ApplicationPtr.urlRoot).filter (iStartsWith url)).argmax
    List.length).getD slash

theorem ApplicationMgr.longestRoot_of_findByURL {s : ApplicationMgr} {url : Bytes}
    {app : ApplicationPtr} (found : s.findByURL url = some app) :
    s.longestRoot url = app.urlRoot := by
  rw [longestRoot]
  rcases s.findByURL_cases url with ⟨e, member, begins, stored, longest⟩ | ⟨none, missed⟩
  · rw [stored] at found
    cases found
    have key := s.keyed e member
    have candidate :
        e.1 ∈ (s.applications.map ApplicationPtr.urlRoot).filter (iStartsWith url) := by
      refine List.mem_filter.mpr ⟨List.mem_map.mpr ⟨e.2, List.mem_map_of_mem member, ?_⟩, begins⟩
      exact key.symm
    cases chosen : ((s.applications.map ApplicationPtr.urlRoot).filter
        (iStartsWith url)).argmax List.length with
    | none =>
      rw [List.argmax_eq_none.mp chosen] at candidate
      cases candidate
    | some root =>
      obtain ⟨known, fits⟩ := List.mem_filter.mp (List.argmax_mem chosen)
      obtain ⟨other, isThere, rfl⟩ := List.mem_map.mp known
      have notShorter := List.le_of_mem_argmax candidate chosen
      rcases longest _ (mem_applications.mp isThere) fits with same | shorter
      · rw [Option.getD_some, ← key, ← same]
      · exact absurd shorter (not_lt.mpr notShorter)
  · have noRoot : (s.applications.map ApplicationPtr.urlRoot).filter (iStartsWith url) = [] := by
      apply List.filter_eq_nil_iff.mpr
      intro root known
      obtain ⟨other, isThere, rfl⟩ := List.mem_map.mp known
      rw [none _ (mem_applications.mp isThere)]
      exact Bool.false_ne_true
    rw [noRoot]
    rw [missed, noMatch] at found
    split at found
    · cases found
      rfl
    · cases found

/-- Joining the pieces of a target gives it back. -/
def Rejoins (root rest : Bytes) : Prop :=
  rest = [] ∨ root = [] ∨ (root.getLast? = some 47 ↔ rest.head? ≠ some 47)

instance (root rest : Bytes) : Decidable (Rejoins root rest) :=
  inferInstanceAs (Decidable (_ ∨ _ ∨ _))

theorem joinUrlPath_of_rejoins {root rest : Bytes} (rejoins : Rejoins root rest) :
    joinUrlPath root rest = root ++ rest := by
  rw [joinUrlPath]
  split
  · rename_i given
    rcases rejoins with none | none | one
    · exact absurd none given.1
    · exact absurd none given.2
    · split
      · rename_i both
        exact absurd both.2 (one.mp both.1)
      · split
        · rename_i neither
          exact absurd (one.mpr neither.2) neither.1
        · rfl
  · rfl

theorem joinUrlPath_length_ne {root rest : Bytes} (fails : ¬ Rejoins root rest) :
    (joinUrlPath root rest).length ≠ (root ++ rest).length := by
  simp only [Rejoins, not_or] at fails
  obtain ⟨rest_, root_, one⟩ := fails
  rw [joinUrlPath, if_pos ⟨rest_, root_⟩]
  have some_ : 0 < rest.length := List.length_pos_iff.mpr rest_
  split
  · simp only [List.length_append, List.length_drop]
    omega
  · rename_i notBoth
    split
    · simp only [List.length_append, List.length_cons, List.length_nil]
      omega
    · rename_i notNeither
      exact absurd (by tauto) one

/-- What was cut off goes back to where it was, up to the case of the root. -/
theorem foldCase_append_drop {root url : Bytes} (begins : iStartsWith url root = true) :
    foldCase (root ++ url.drop root.length) = foldCase url := by
  obtain ⟨rest, split⟩ := (iStartsWith_iff url root).mp begins
  have behind : foldCase (url.drop root.length) = rest := by
    rw [foldCase, List.map_drop]
    change (foldCase url).drop root.length = rest
    rw [← split, ← foldCase_length root, List.drop_left]
  rw [foldCase_append, behind, split]

/-- The target comes back exactly if a single slash is left between the pieces. -/
theorem iEquals_joinUrlPath {root url : Bytes} (begins : iStartsWith url root = true) :
    iEquals (joinUrlPath root (url.drop root.length)) url = true ↔
      Rejoins root (url.drop root.length) := by
  have back := foldCase_append_drop begins
  rw [iEquals_iff]
  constructor
  · intro same
    by_contra fails
    apply joinUrlPath_length_ne fails
    have lengths := congrArg List.length (same.trans back.symm)
    simpa only [foldCase_length] using lengths
  · intro rejoins
    rw [joinUrlPath_of_rejoins rejoins, back]

namespace HandlerTables
variable {H : Type}

/-- A call that succeeds adds to the table of equal keys. -/
theorem addHandler_equals {app after : HandlerTables H} {m : HandlerMethod} {text name : Bytes}
    {h : H} (called : app.addHandler ndebug regex ⟨.single m, .equals, text, h, name⟩ =
      some (after, true)) :
    ∃ table, EqualsRoutingTable.implementation.add ndebug app.equalRouter
        (joinUrlPath app.rootUrl text) m h name = some (table, none) ∧
      after = { app with equalRouter := table } := by
  rw [addHandler] at called
  split at called
  · cases called
  · obtain ⟨⟨table, error⟩, succeeded, same⟩ := Option.map_eq_some_iff.mp called
    cases error with
    | none =>
      cases same
      exact ⟨table, succeeded, rfl⟩
    | some error => cases same

/-- A handler under an equal key is found before any other one. -/
theorem findHandler_of_equals {app : HandlerTables H} {item : RouterItem H} {method : Nat}
    {path : Bytes} {h : H}
    (supported : HandlerMethod.fromHttpMethod method ≠ .unsupport)
    (stored : EqualsRoutingTable.implementation.exists_ app.equalRouter path = some item)
    (handler : item.handler (HandlerMethod.fromHttpMethod method) = some h) (given : Finding) :
    (app.findHandler method path [] given).1 = some h := by
  have searched : (app.equalRouter.search path (.fromHttpMethod method)).1.handler = some h := by
    simp only [EqualsRoutingTable.implementation] at stored
    rw [EqualsRoutingTable.search, stored]
    exact handler
  rw [findHandler]
  simp only [if_neg supported, if_pos, searched]

end HandlerTables

namespace Server
variable {H : Type}

@[simp] theorem setTables_mgr (s : Server H) (app : ApplicationPtr) (tables : HandlerTables H)
    (rooted : tables.rootUrl = app.urlRoot) : (s.setTables app tables rooted).mgr = s.mgr := rfl

@[simp] theorem setTables_self (s : Server H) (app : ApplicationPtr) (tables : HandlerTables H)
    (rooted : tables.rootUrl = app.urlRoot) : (s.setTables app tables rooted).tables app = tables :=
  Function.update_self _ _ _

theorem addTo_cases {s : Server H} {regex : Regex} {app : ApplicationPtr} {r : Registration H}
    {added : Server H × Bool} (called : s.addTo regex app r = some added) :
    (s.tables app).addHandler s.ndebug regex r = some (added.1.tables app, added.2) ∧
      added.1.mgr = s.mgr ∧ added.1.returned = s.returned := by
  rw [addTo] at called
  split at called
  · cases called
  · rename_i tables given
    cases called
    refine ⟨given.trans ?_, rfl, rfl⟩
    rw [setTables_self]

/-- At most the default application is made. -/
theorem addHandler_kept {s : Server H} {regex : Regex} {methods : Methods} {kind : RouterKind}
    {text : Bytes} {h : H} {called : Server H × Option ApplicationPtr}
    (added : s.addHandler regex methods kind text h = some called) :
    called.1.mgr = s.makeDefaultAppIfEmpty.mgr ∧ called.1.returned = s.returned := by
  have returned : s.makeDefaultAppIfEmpty.returned = s.returned := by
    rw [makeDefaultAppIfEmpty]
    split
    · rfl
    · rfl
  rw [← returned]
  rw [addHandler] at added
  split at added
  · rename_i prepared found
    cases added
    have same := congrArg Prod.fst found
    exact ⟨congrArg mgr same.symm, congrArg Server.returned same.symm⟩
  · rename_i prepared app found
    obtain ⟨rest, -, mapped⟩ := Option.bind_eq_some_iff.mp added
    obtain ⟨stored, entered, rfl⟩ := Option.map_eq_some_iff.mp mapped
    obtain ⟨-, mgr, recorded⟩ := addTo_cases entered
    have same := congrArg Prod.fst found
    exact ⟨mgr.trans (congrArg Server.mgr same.symm),
      recorded.trans (congrArg Server.returned same.symm)⟩

/-- The application that an added handler goes to, and the part of the target that it
is added under. -/
theorem addHandler_cases {s after : Server H} {regex : Regex} {methods : Methods}
    {kind : RouterKind} {text : Bytes} {h : H} {app : ApplicationPtr}
    (called : s.addHandler regex methods kind text h = some (after, some app)) :
    let before := s.makeDefaultAppIfEmpty
    before.mgr.findByURL text = some app ∧ after.mgr = before.mgr ∧
      (before.ndebug = false → iStartsWith text app.urlRoot = true) ∧
      (before.tables app).addHandler before.ndebug regex
        ⟨methods, kind, text.drop app.urlRoot.length, h, []⟩ = some (after.tables app, true) := by
  intro before
  rw [addHandler] at called
  split at called
  · cases called
  · rename_i prepared chosen found
    obtain ⟨same, looked⟩ := Prod.mk.inj (show (before, before.mgr.findByURL text) = _ from found)
    subst same
    obtain ⟨rest, cut, called⟩ := Option.bind_eq_some_iff.mp called
    obtain ⟨added, called, same⟩ := Option.map_eq_some_iff.mp called
    obtain ⟨tables, kept, -⟩ := addTo_cases called
    obtain ⟨rfl, returned⟩ := Prod.mk.inj same
    split at returned
    · rename_i succeeded
      cases returned
      rw [succeeded] at tables
      rw [extractAppPath] at cut
      split at cut
      · cases cut
      · rename_i asserted
        split at cut
        · cases cut
        · cases cut
          refine ⟨looked, kept, ?_, tables⟩
          intro debug
          by_contra fails
          exact asserted ⟨by rw [debug]; exact Bool.false_ne_true, Bool.eq_false_iff.mpr fails⟩
    · cases returned

theorem begins_of_findByURL {s : ApplicationMgr} {text : Bytes} {app : ApplicationPtr}
    (found : s.findByURL text = some app) (slashed : text.head? = some 47) :
    iStartsWith text app.urlRoot = true := by
  rcases s.findByURL_cases text with ⟨e, member, begins, stored, -⟩ | ⟨-, missed⟩
  · rw [stored] at found
    cases found
    rw [← s.keyed e member]
    exact begins
  · rw [missed, ApplicationMgr.noMatch] at found
    split at found
    · cases found
      obtain ⟨rest, rfl⟩ := List.head?_eq_some_iff.mp slashed
      exact (iStartsWith_iff _ _).mpr ⟨foldCase rest, rfl⟩
    · cases found

/-- The first application of a manager. -/
theorem createDefault_entries {s : ApplicationMgr} (empty : s.isEmpty = true) :
    s.createDefault.map.entries = [(slash, .default defaultAppName)] := by
  simp [ApplicationMgr.createDefault, ApplicationMgr.insert, OrderedMap.insert,
    List.isEmpty_iff.mp empty, OrderedMap.place, ApplicationPtr.default]

theorem makeDefaultAppIfEmpty_isEmpty (s : Server H) :
    s.makeDefaultAppIfEmpty.mgr.isEmpty = false := by
  rw [makeDefaultAppIfEmpty]
  split
  · rename_i empty
    rw [ApplicationMgr.isEmpty, createDefault_entries empty]
    rfl
  · rename_i some_
    exact Bool.eq_false_iff.mpr some_

theorem longestRoot_makeDefaultAppIfEmpty (s : Server H) (url : Bytes) :
    s.makeDefaultAppIfEmpty.mgr.longestRoot url = s.mgr.longestRoot url := by
  rw [makeDefaultAppIfEmpty]
  split
  · rename_i empty
    simp only [ApplicationMgr.longestRoot, ApplicationMgr.applications,
      createDefault_entries empty, List.isEmpty_iff.mp empty]
    change ((List.filter (iStartsWith url) [slash]).argmax List.length).getD slash = slash
    rw [List.filter_cons]
    split
    · rfl
    · rfl
  · rfl

/-- A manager that has an application is left as it is. -/
theorem run_mgr {s : Server H} (some_ : s.mgr.isEmpty = false) : s.run.mgr = s.mgr.mount := by
  have kept : s.mgr.mount.isEmpty = false := some_
  rw [run, makeDefaultAppIfEmpty, if_neg (by rw [kept]; exact Bool.false_ne_true)]

theorem run_equalRouter (s : Server H) (app : ApplicationPtr) :
    (s.run.tables app).equalRouter = (s.tables app).equalRouter := by
  rw [run, makeDefaultAppIfEmpty]
  split
  · simp only []
    split
    · rfl
    · rfl
  · simp only []
    split
    · rfl
    · rfl

theorem route_of_equals {s : Server H} {app : ApplicationPtr} {item : RouterItem H} {method : Nat}
    {url : Bytes} {h : H} (supported : HandlerMethod.fromHttpMethod method ≠ .unsupport)
    (found : s.mgr.findByURL url = some app)
    (stored : EqualsRoutingTable.implementation.exists_ (s.tables app).equalRouter url = some item)
    (handler : item.handler (HandlerMethod.fromHttpMethod method) = some h) :
    s.route method url = some h := by
  rw [route, found]
  exact HandlerTables.findHandler_of_equals supported stored handler {}

/-- An added handler is what a later request finds, if joining the root and the rest
of the target gives the target back; otherwise it is stored under another key. -/
theorem addHandler_routes_iff {s after : Server H} {regex : Regex} {method : Nat} {url : Bytes}
    {h : H} {app : ApplicationPtr} (slashed : url.head? = some 47)
    (supported : HandlerMethod.fromHttpMethod method ≠ .unsupport)
    (called : s.addHandler regex (.single (.fromHttpMethod method)) .equals url h =
      some (after, some app)) :
    (iEquals (joinUrlPath app.urlRoot (url.drop app.urlRoot.length)) url = true ∧
      after.route method url = some h ∧ after.run.route method url = some h) ↔
    Rejoins (s.mgr.longestRoot url) (url.drop (s.mgr.longestRoot url).length) := by
  obtain ⟨found, kept, -, added⟩ := addHandler_cases called
  have begins := begins_of_findByURL found slashed
  have root : s.mgr.longestRoot url = app.urlRoot := by
    rw [← longestRoot_makeDefaultAppIfEmpty]
    exact ApplicationMgr.longestRoot_of_findByURL found
  rw [root, ← iEquals_joinUrlPath begins]
  constructor
  · exact And.left
  · intro back
    refine ⟨back, ?_⟩
    obtain ⟨table, succeeded, same⟩ := HandlerTables.addHandler_equals added
    rw [s.makeDefaultAppIfEmpty.rooted app] at succeeded
    have stored := Implementation.add_exists EqualsRoutingTable.lawful succeeded url
    rw [if_pos ((iEquals_iff _ _).mp back)] at stored
    have tables : (after.tables app).equalRouter = table := congrArg HandlerTables.equalRouter same
    have mgr := run_mgr (kept ▸ s.makeDefaultAppIfEmpty_isEmpty)
    rw [← tables] at stored
    constructor
    · exact route_of_equals supported (kept ▸ found) stored (by simp)
    · rw [← run_equalRouter] at stored
      refine route_of_equals supported ?_ stored (by simp)
      rw [mgr, kept]
      exact found

/-- A server with one application, and a handler added for GET. -/
def mountedAt (root : Bytes) : Server Nat :=
  { initial false with
    mgr := (ApplicationMgr.initial false).insert ⟨.customized 0, [97], root⟩ (by
      intro ndebug
      cases ndebug) }

def addedAt (root url : Bytes) : Option (Server Nat × Option ApplicationPtr) :=
  (mountedAt root).addHandler (fun _ => .error []) (.single .get) .equals url 7

theorem addHandler_routes_iff_below : ∃ after app,
    addedAt [47, 97] [47, 97, 47, 98] = some (after, some app) ∧
      after.run.route httpGet [47, 97, 47, 98] = some 7 := by
  have returned : (addedAt [47, 97] [47, 97, 47, 98]).map Prod.snd =
      some (some ⟨.customized 0, [97], [47, 97]⟩) := by decide
  obtain ⟨⟨after, _⟩, called, rfl⟩ := Option.map_eq_some_iff.mp returned
  have supported : HandlerMethod.fromHttpMethod httpGet ≠ .unsupport := by decide
  rw [addedAt] at called
  exact ⟨after, _, called, ((addHandler_routes_iff rfl supported called).mpr (by decide)).2.2⟩

/-- The slash that ends a root takes the place of the one behind it. -/
theorem addHandler_doubled_slash : ∃ after app,
    addedAt [47, 97, 47] [47, 97, 47, 47, 98] = some (after, some app) ∧
      joinUrlPath app.urlRoot (List.drop app.urlRoot.length [47, 97, 47, 47, 98]) =
        [47, 97, 47, 98] ∧
      after.route httpGet [47, 97, 47, 47, 98] = none ∧
      after.run.route httpGet [47, 97, 47, 47, 98] = none := by
  have routed : (addedAt [47, 97, 47] [47, 97, 47, 47, 98]).map (fun r =>
      (r.2, r.1.route httpGet [47, 97, 47, 47, 98], r.1.run.route httpGet [47, 97, 47, 47, 98])) =
      some (some ⟨.customized 0, [97], [47, 97, 47]⟩, none, none) := by decide
  obtain ⟨⟨after, returned⟩, called, same⟩ := Option.map_eq_some_iff.mp routed
  obtain ⟨app, routes⟩ := Prod.mk.inj same
  obtain ⟨now, later⟩ := Prod.mk.inj routes
  subst app
  exact ⟨after, _, called, by decide, now, later⟩

end Server
end Da4qi4
