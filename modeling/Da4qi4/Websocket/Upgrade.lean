import Da4qi4.Http.Request
import Da4qi4.Server.FindHandler
import Da4qi4.Websocket.RegistryLife

/-! Requests that become websocket connections. A factory of handlers is registered
under a path, and connections are listed under a path; the factory is looked up and the
connection is stored under the whole target, with its query and fragment. Factories are
known by what they are, and are taken to make a handler. -/
namespace Da4qi4.Websocket
open Utilities

inductive UrlFlag where
  | urlFullPath | urlWithoutAppRoot
  deriving DecidableEq, Repr

def makesureFullUrlPath (path : Bytes) (flag : UrlFlag) (appRoot : Bytes) : Bytes :=
  match flag with
  | .urlFullPath => path
  | .urlWithoutAppRoot => joinUrlPath appRoot path

/-- The numbers that `boost::uuids::random_generator` makes, one after another: none of
them comes twice. -/
structure UuidGenerator where
  uuid : Nat → Bytes
  filled : ∀ k, uuid k ≠ []
  injective : Function.Injective uuid

namespace UuidGenerator

def getUUID (gen : UuidGenerator) (name : Bytes) (k : Nat) : Bytes := name ++ gen.uuid k

theorem getUUID_ne_nil (gen : UuidGenerator) (name : Bytes) (k : Nat) : gen.getUUID name k ≠ [] :=
  List.append_ne_nil_of_right_ne_nil name (gen.filled k)

theorem getUUID_inj (gen : UuidGenerator) {name : Bytes} {j k : Nat} :
    gen.getUUID name j = gen.getUUID name k ↔ j = k := by
  rw [getUUID, getUUID, List.append_cancel_left_eq, gen.injective.eq_iff]

end UuidGenerator

/-- An application, as far as upgrades go. The last two fields record how many ids were
made, and the paths of the requests that made the connections. -/
structure WebSocketApplication (F : Type) where
  name : Bytes
  rootUrl : Bytes
  disabled : Bool := false
  mounted : Bool := false
  handlersFactory : StringMap F := .empty
  registry : Registry := {}
  uuids : Nat := 0
  requested : List Bytes := []

structure UpgradeRequest where
  url : Url
  upgrade : Bytes
  key : Bytes

/-- The arguments of a call of `RegistWebSocket`. -/
structure WebSocketRegistration (F : Type) where
  url : Bytes
  urlflag : UrlFlag
  factory : F

namespace WebSocketApplication
variable {F : Type}

def isRuning (a : WebSocketApplication F) : Bool := a.mounted && !a.disabled

/-- The first factory of a path stays. -/
def registWebSocket (a : WebSocketApplication F) (g : WebSocketRegistration F) :
    WebSocketApplication F × Bool :=
  if a.isRuning then (a, false)
  else
    let fullpath := makesureFullUrlPath g.url g.urlflag a.rootUrl
    ({ a with handlersFactory := a.handlersFactory.insert fullpath g.factory }, true)

def createWebSocketHandler (a : WebSocketApplication F) (url : Bytes) (urlflag : UrlFlag) :
    Option F :=
  a.handlersFactory.lookup (makesureFullUrlPath url urlflag a.rootUrl)

def allWebSocketConnections (a : WebSocketApplication F) (url : Bytes) (urlflag : UrlFlag) :
    List (Option Nat) :=
  a.registry.allWebSocketConnections (makesureFullUrlPath url urlflag a.rootUrl)

def websocketValue : Bytes := Bytes.ofAscii "websocket"

/-- `opens` is the answer of `OnOpen`. -/
def doUpgrade (gen : UuidGenerator) (ndebug : Bool) (a : WebSocketApplication F)
    (request : UpgradeRequest) (opens : Bool) : Option (WebSocketApplication F) :=
  if ¬iEquals request.upgrade websocketValue then some a
  else if request.key = [] then some a
  else
    match a.createWebSocketHandler request.url.full .urlFullPath with
    | none => some a
    | some _ =>
      let n := a.registry.objects.length
      let created := a.registry.create request.url.full []
      let a := { a with requested := a.requested ++ [request.url.path] }
      if opens then
        let named := created.modify n ({ · with id := gen.getUUID a.name a.uuids })
        (named.addWebSocketConnection ndebug n).map fun r =>
          { a with registry := r, uuids := a.uuids + 1 }
      else (created.destroy n).map fun r => { a with registry := r }

/-- The calls of `RegistWebSocket` before the application runs. -/
def registered (name rootUrl : Bytes) (registrations : List (WebSocketRegistration F)) :
    WebSocketApplication F :=
  registrations.foldl (fun a g => (a.registWebSocket g).1) { name := name, rootUrl := rootUrl }

def run (a : WebSocketApplication F) : WebSocketApplication F := { a with mounted := true }

/-- The factory that was registered for a path. -/
def firstFor (rootUrl : Bytes) (registrations : List (WebSocketRegistration F)) (path : Bytes) :
    Option F :=
  (registrations.find? fun g => makesureFullUrlPath g.url g.urlflag rootUrl = path).map
    WebSocketRegistration.factory

/-- An upgrade request for a path, with a query, a fragment, both or nothing behind it,
or the end of a connection. -/
inductive Action where
  | upgrade (rest upgrade key : Bytes) (opens : Bool)
  | close (n : Nat)

/-- A request has a target. -/
def act (gen : UuidGenerator) (ndebug : Bool) (path : Bytes) (a : WebSocketApplication F) :
    Action → Option (WebSocketApplication F)
  | .upgrade rest upgrade key opens =>
    if path ++ rest = [] then none
    else a.doUpgrade gen ndebug ⟨{ full := path ++ rest, path := path }, upgrade, key⟩ opens
  | .close n => (a.registry.destroy n).map fun r => { a with registry := r }

/-- The connections of a path whose contexts live. -/
def IsOpen (a : WebSocketApplication F) (path : Bytes) (n : Nat) : Prop :=
  (∃ c, a.registry.objects[n]? = some c ∧ c.holder = .held) ∧ a.requested[n]? = some path

/-- The list of a path has its open connections, each of them once, and nothing else. -/
structure Lists (a : WebSocketApplication F) (path : Bytes) : Prop where
  null : none ∉ a.allWebSocketConnections path .urlFullPath
  once : (a.allWebSocketConnections path .urlFullPath).Nodup
  exactly : ∀ n, some n ∈ a.allWebSocketConnections path .urlFullPath ↔ a.IsOpen path n

/-- The request finds the factory of its path, and the list is right behind it. -/
def Serves (factories : Bytes → Option F) (path : Bytes) (a : WebSocketApplication F)
    (action : Action) (b : WebSocketApplication F) : Prop :=
  (match action with
    | .upgrade rest upgrade key _ => iEquals upgrade websocketValue = true → key ≠ [] →
        a.createWebSocketHandler (path ++ rest) .urlFullPath = factories path
    | .close _ => True) ∧ b.Lists path

/-- The target is the path, or has the factory of the path as its own (or neither has
one) and no connection is opened. -/
def Plain (factories : Bytes → Option F) (path : Bytes) (_ : WebSocketApplication F)
    (action : Action) (_ : WebSocketApplication F) : Prop :=
  match action with
  | .upgrade rest upgrade key opens => iEquals upgrade websocketValue = true → key ≠ [] →
      rest = [] ∨ (factories (path ++ rest) = factories path ∧ (factories path = none ∨ opens = false))
  | .close _ => True

theorem lookup_foldl (a : WebSocketApplication F) (idle : a.isRuning = false)
    (registrations : List (WebSocketRegistration F)) (path : Bytes) :
    (registrations.foldl (fun a g => (a.registWebSocket g).1) a).handlersFactory.lookup path =
      (a.handlersFactory.lookup path).or (firstFor a.rootUrl registrations path) := by
  induction registrations generalizing a with
  | nil => exact Option.or_none.symm
  | cons g registrations ih =>
    have registered : (a.registWebSocket g).1 = { a with
        handlersFactory :=
          a.handlersFactory.insert (makesureFullUrlPath g.url g.urlflag a.rootUrl) g.factory } := by
      rw [registWebSocket, idle]
      rfl
    have still : (a.registWebSocket g).1.isRuning = false := by
      rw [registered]
      exact idle
    rw [List.foldl_cons, ih _ still, registered, OrderedMap.lookup_insert,
      if_congr Bytes.octets_inj rfl rfl, firstFor, firstFor, List.find?_cons]
    by_cases same : makesureFullUrlPath g.url g.urlflag a.rootUrl = path
    · rw [if_pos same, decide_eq_true same, same]
      cases a.handlersFactory.lookup path with
      | none => rfl
      | some f => rfl
    · rw [if_neg same, decide_eq_false same]

/-- A path leads to the first factory that was registered for it. -/
theorem lookup_registered (name rootUrl : Bytes) (registrations : List (WebSocketRegistration F))
    (path : Bytes) :
    (registered name rootUrl registrations).run.createWebSocketHandler path .urlFullPath =
      firstFor rootUrl registrations path :=
  (lookup_foldl _ rfl registrations path).trans Option.none_or

/-- There are no connections before the application runs. -/
theorem foldl_untouched (a : WebSocketApplication F)
    (registrations : List (WebSocketRegistration F)) :
    let b := registrations.foldl (fun a g => (a.registWebSocket g).1) a
    b.registry = a.registry ∧ b.requested = a.requested := by
  induction registrations generalizing a with
  | nil => exact ⟨rfl, rfl⟩
  | cons g registrations ih =>
    have same : (a.registWebSocket g).1.registry = a.registry ∧
        (a.registWebSocket g).1.requested = a.requested := by
      rw [registWebSocket]
      split
      · exact ⟨rfl, rfl⟩
      · exact ⟨rfl, rfl⟩
    rw [List.foldl_cons, ← same.1, ← same.2]
    exact ih _

/-- A connection with its id, in front of its entry. -/
def opening (a : WebSocketApplication F) (gen : UuidGenerator) (target : Bytes) : Registry :=
  { a.registry with
    objects := a.registry.objects ++ [{ urlPath := target, id := gen.getUUID a.name a.uuids }] }

/-- A request that is no upgrade, or finds no factory, changes nothing; a connection
that its handler refuses goes at once, and another one is added. -/
theorem doUpgrade_cases {a t : WebSocketApplication F} {request : UpgradeRequest}
    (upgraded : a.doUpgrade gen ndebug request opens = some t) :
    (t = a ∧ (iEquals request.upgrade websocketValue = true → request.key ≠ [] →
        a.createWebSocketHandler request.url.full .urlFullPath = none)) ∨
      ((iEquals request.upgrade websocketValue = true ∧ request.key ≠ []) ∧
        (∃ f, a.createWebSocketHandler request.url.full .urlFullPath = some f) ∧
        ((opens = true ∧ ∃ r, (a.opening gen request.url.full).addWebSocketConnection ndebug
            a.registry.objects.length = some r ∧
            t = { a with
              registry := r
              uuids := a.uuids + 1
              requested := a.requested ++ [request.url.path] }) ∨
          (opens = false ∧ ∃ r, (a.registry.create request.url.full []).destroy
            a.registry.objects.length = some r ∧
            t = { a with
              registry := r
              requested := a.requested ++ [request.url.path] }))) := by
  rw [doUpgrade] at upgraded
  split at upgraded
  · rename_i other
    cases upgraded
    exact .inl ⟨rfl, fun websocket => absurd websocket other⟩
  · rename_i websocket
    rw [not_not] at websocket
    split at upgraded
    · rename_i keyless
      cases upgraded
      exact .inl ⟨rfl, fun _ keyed => absurd keyless keyed⟩
    · rename_i keyed
      split at upgraded
      · rename_i absent
        cases upgraded
        exact .inl ⟨rfl, fun _ _ => absent⟩
      · rename_i f found
        refine .inr ⟨⟨websocket, keyed⟩, ⟨f, found⟩, ?_⟩
        cases opens with
        | true =>
          obtain ⟨r, added, rfl⟩ := Option.map_eq_some_iff.mp upgraded
          refine .inl ⟨rfl, r, ?_, rfl⟩
          rw [Registry.create_modify] at added
          exact added
        | false =>
          obtain ⟨r, destroyed, rfl⟩ := Option.map_eq_some_iff.mp upgraded
          exact .inr ⟨rfl, r, destroyed, rfl⟩

/-- Connections have the path of their request and an id of their own, and have entries
while their contexts live. -/
structure Straight (factories : Bytes → Option F) (gen : UuidGenerator) (path : Bytes)
    (a : WebSocketApplication F) : Prop where
  factories : ∀ url, a.createWebSocketHandler url .urlFullPath = factories url
  records : a.requested.length = a.registry.objects.length
  requests : ∀ q ∈ a.requested, q = path
  entries : Registry.Entries (fun holder _ => holder = .held) a.registry
  ids : ∀ target id n, a.registry.registered target id = some n →
    ∃ k, k < a.uuids ∧ id = gen.getUUID a.name k
  held : ∀ n c, a.registry.objects[n]? = some c → c.holder = .held →
    c.urlPath = path ∧ c.urlPath ≠ [] ∧ c.id ≠ [] ∧ a.registry.registered c.urlPath c.id = some n

section Invariant
variable {factories : Bytes → Option F} {gen : UuidGenerator} {path : Bytes}
  {a t : WebSocketApplication F}

theorem Straight.request (straight : Straight factories gen path a) {n : Nat}
    {c : ConnectionObject} (object : a.registry.objects[n]? = some c) : a.requested[n]? = some path := by
  have inside := (List.getElem?_eq_some_iff.mp object).1
  rw [← straight.records] at inside
  rw [List.getElem?_eq_getElem inside]
  exact congrArg some (straight.requests _ (List.getElem_mem inside))

theorem Straight.lists (straight : Straight factories gen path a) : a.Lists path := by
  have living := Registry.living_of_owed (straight.entries.imp .inl)
  have lives : ∀ id n, a.registry.registered path id = some n → a.registry.alive n = true :=
    living.1 path
  refine ⟨living.2 path, Registry.allWebSocketConnections_nodup straight.entries lives, fun n => ?_⟩
  refine (Registry.mem_allWebSocketConnections lives).trans ?_
  constructor
  · rintro ⟨id, found⟩
    obtain ⟨c, object, -, -, held⟩ := straight.entries path id n found
    exact ⟨⟨c, object, held⟩, straight.request object⟩
  · rintro ⟨⟨c, object, held⟩, -⟩
    obtain ⟨rfl, -, -, found⟩ := straight.held n c object held
    exact ⟨c.id, found⟩

/-- The id of a new connection is free. -/
theorem Straight.fresh (straight : Straight factories gen path a) (target : Bytes) :
    a.registry.registered target (gen.getUUID a.name a.uuids) = none := by
  apply Option.eq_none_iff_forall_ne_some.mpr
  intro n found
  obtain ⟨k, used, same⟩ := straight.ids target _ n found
  exact absurd (gen.getUUID_inj.mp same) used.ne'

theorem entries_opened {R : Holder → Bool → Prop} {r : Registry} (new : R .held true)
    (stays : ∀ {h b}, R h b → R h true) (entries : Registry.Entries R a.registry)
    (added : (a.opening gen target).addWebSocketConnection ndebug a.registry.objects.length = some r) :
    Registry.Entries R r := by
  obtain ⟨c, added⟩ := Registry.add_cases added
  have object := added.object
  rw [opening, List.getElem?_concat_length] at object
  cases object
  refine Registry.Entries.add ?_ added new stays
  refine entries.transfer (fun _ _ _ found => found) fun k d object _ known => ?_
  have inside := (List.getElem?_eq_some_iff.mp object).1
  exact ⟨d, (List.getElem?_append_left inside).trans object, rfl, rfl, known⟩

/-- An object is an old one, or the one that was opened. -/
theorem opened_object {c d : ConnectionObject}
    (added : Registry.Added (a.opening gen path) a.registry.objects.length c r)
    (new : c = { urlPath := path, id := gen.getUUID a.name a.uuids })
    (here : r.objects[k]? = some d) :
    a.registry.objects[k]? = some d ∨ (k = a.registry.objects.length ∧
      d = { urlPath := path, id := gen.getUUID a.name a.uuids, added := true }) := by
  subst new
  rw [added.objects, Registry.objects_modify] at here
  split at here
  · rename_i same
    rw [← same, added.object] at here
    cases here
    exact .inr ⟨same.symm, rfl⟩
  · rename_i other
    rw [opening, List.getElem?_append] at here
    split at here
    · exact .inl here
    · rw [List.getElem?_singleton] at here
      split at here
      · omega
      · cases here

/-- A connection whose target is the path is added. -/
theorem Straight.opened (straight : Straight factories gen path a) (target : path ≠ [])
    (added : (a.opening gen path).addWebSocketConnection ndebug a.registry.objects.length = some r) :
    Straight factories gen path { a with
      registry := r, uuids := a.uuids + 1, requested := a.requested ++ [path] } := by
  have entries := entries_opened rfl (fun held => held) straight.entries added
  obtain ⟨c, added⟩ := Registry.add_cases added
  have object := added.object
  rw [opening, List.getElem?_concat_length] at object
  cases object
  constructor
  · exact straight.factories
  · rw [List.length_append, straight.records, added.objects, Registry.length_modify, opening,
      List.length_append]
    rfl
  · intro q member
    rcases List.mem_append.mp member with before | last
    · exact straight.requests q before
    · exact List.mem_singleton.mp last
  · exact entries
  · intro key id n found
    rw [added.registered] at found
    split at found
    · rename_i same
      exact ⟨a.uuids, Nat.lt_succ_self _, same.2.symm⟩
    · obtain ⟨k, used, same⟩ := straight.ids key id n found
      exact ⟨k, Nat.lt_succ_of_lt used, same⟩
  · intro n d here held
    rcases opened_object added rfl here with before | ⟨rfl, rfl⟩
    · obtain ⟨samePath, some_, named, found⟩ := straight.held n d before held
      refine ⟨samePath, some_, named, ?_⟩
      have kept : (a.opening gen path).registered d.urlPath d.id = some n := found
      rw [added.registered, kept, Option.getD_some, ite_self]
    · refine ⟨rfl, target, gen.getUUID_ne_nil _ _, ?_⟩
      have free : (a.opening gen path).registered path (gen.getUUID a.name a.uuids) = none :=
        straight.fresh path
      rw [added.registered, if_pos ⟨rfl, rfl⟩, free, Option.getD_none]

/-- A connection that its handler refuses leaves nothing behind: it has no id yet. -/
theorem Straight.refused (straight : Straight factories gen path a)
    (destroyed : (a.registry.create target []).destroy a.registry.objects.length = some r) :
    Straight factories gen path { a with
      registry := r, requested := a.requested ++ [path] } := by
  obtain ⟨c, destroyed⟩ := Registry.destroy_cases destroyed
  have object := destroyed.object
  rw [Registry.create, List.getElem?_concat_length] at object
  cases object
  have entries : ∀ key id, r.registered key id = a.registry.registered key id := by
    intro key id
    rw [destroyed.registered, if_neg fun named => named.1.2 rfl]
    rfl
  have old {k : Nat} (inside : k < a.registry.objects.length) :
      r.objects[k]? = a.registry.objects[k]? := by
    rw [destroyed.objects, if_neg inside.ne', Registry.create, List.getElem?_append_left inside]
  constructor
  · exact straight.factories
  · rw [List.length_append, straight.records, destroyed.length, Registry.create, List.length_append]
    rfl
  · intro q member
    rcases List.mem_append.mp member with before | last
    · exact straight.requests q before
    · exact List.mem_singleton.mp last
  · refine straight.entries.transfer (fun key id k found => ?_) fun k d object _ held => ?_
    · rw [← entries]
      exact found
    · exact ⟨d, (old (List.getElem?_eq_some_iff.mp object).1).trans object, rfl, rfl, held⟩
  · intro key id n found
    rw [entries] at found
    exact straight.ids key id n found
  · intro n d here held
    rw [entries]
    rcases Nat.lt_trichotomy n a.registry.objects.length with inside | rfl | outside
    · rw [old inside] at here
      exact straight.held n d here held
    · rw [destroyed.objects, if_pos rfl] at here
      cases here
      cases held
    · have bound := (List.getElem?_eq_some_iff.mp here).1
      rw [destroyed.length, Registry.create, List.length_append, List.length_singleton] at bound
      omega

/-- A connection that ends takes its entry with it. -/
theorem Straight.closed (straight : Straight factories gen path a)
    (destroyed : a.registry.destroy n = some r) :
    Straight factories gen path { a with registry := r } := by
  obtain ⟨c, destroyed⟩ := Registry.destroy_cases destroyed
  obtain ⟨-, target, named, own⟩ := straight.held n c destroyed.object destroyed.held
  have entry (key id : Bytes) : r.registered key id =
      if c.urlPath = key ∧ c.id = id then none else a.registry.registered key id := by
    rw [destroyed.registered]
    exact if_congr (and_iff_right ⟨target, named⟩) rfl rfl
  constructor
  · exact straight.factories
  · rw [straight.records, destroyed.length]
  · exact straight.requests
  · refine straight.entries.transfer (fun key id k found => ?_) fun k d object found held => ?_
    · rw [entry] at found
      split at found
      · cases found
      · exact found
    · rw [destroyed.objects]
      split
      · rename_i same
        subst same
        cases destroyed.object.symm.trans object
        rw [entry, if_pos ⟨rfl, rfl⟩] at found
        cases found
      · exact ⟨d, object, rfl, rfl, held⟩
  · intro key id k found
    rw [entry] at found
    split at found
    · cases found
    · exact straight.ids key id k found
  · intro k d here held
    rw [destroyed.objects] at here
    split at here
    · cases here
      cases held
    · rename_i other
      obtain ⟨samePath, some_, filled, found⟩ := straight.held k d here held
      refine ⟨samePath, some_, filled, ?_⟩
      rw [entry, if_neg, found]
      rintro ⟨sameTarget, sameID⟩
      rw [← sameTarget, ← sameID, own] at found
      exact other (Option.some.inj found)

/-- A connection that is open under another target than the path is not in its list. -/
theorem not_lists_opened (straight : Straight factories gen path a) (behind : rest ≠ [])
    (added : (a.opening gen (path ++ rest)).addWebSocketConnection ndebug
      a.registry.objects.length = some r) :
    ¬({ a with
      registry := r
      uuids := a.uuids + 1
      requested := a.requested ++ [path] } : WebSocketApplication F).Lists path := by
  intro lists
  have entries := entries_opened rfl (fun held => held) straight.entries added
  obtain ⟨c, added⟩ := Registry.add_cases added
  have object := added.object
  rw [opening, List.getElem?_concat_length] at object
  cases object
  have here : r.objects[a.registry.objects.length]? = some
      { urlPath := path ++ rest, id := gen.getUUID a.name a.uuids, added := true } := by
    rw [added.objects, Registry.objects_modify, if_pos rfl, added.object]
    rfl
  have isOpen := (lists.exactly a.registry.objects.length).mpr ⟨⟨_, here, rfl⟩, by
    rw [← straight.records, List.getElem?_concat_length]⟩
  have living := Registry.living_of_owed (entries.imp .inl)
  obtain ⟨id, found⟩ := (Registry.mem_allWebSocketConnections (living.1 path)).mp isOpen
  obtain ⟨d, again, target, -⟩ := entries path id _ found
  cases here.symm.trans again
  exact behind (List.append_right_eq_self.mp target)

theorem act_straight {action : Action} (straight : Straight factories gen path a)
    (acted : a.act gen ndebug path action = some t)
    (plain : Plain factories path a action t) : Straight factories gen path t := by
  cases action with
  | close n =>
    obtain ⟨r, destroyed, rfl⟩ := Option.map_eq_some_iff.mp acted
    exact straight.closed destroyed
  | upgrade rest upgrade key opens =>
    rw [act] at acted
    split at acted
    · cases acted
    · rename_i target
      rcases doUpgrade_cases acted with ⟨rfl, -⟩ | ⟨⟨websocket, keyed⟩, ⟨f, found⟩, outcome⟩
      · exact straight
      · rcases outcome with ⟨rfl, r, added, rfl⟩ | ⟨rfl, r, destroyed, rfl⟩
        · have none : rest = [] := by
            rcases plain websocket keyed with none | ⟨same, missing | refused⟩
            · exact none
            · rw [straight.factories, same, missing] at found
              cases found
            · cases refused
          subst none
          rw [List.append_nil] at added target
          exact straight.opened target added
        · exact straight.refused destroyed

theorem act_serves_iff {action : Action} (straight : Straight factories gen path a)
    (acted : a.act gen ndebug path action = some t) :
    Serves factories path a action t ↔ Plain factories path a action t := by
  constructor
  · intro serves
    cases action with
    | close n => trivial
    | upgrade rest upgrade key opens =>
      intro websocket keyed
      have finds := serves.1 websocket keyed
      rw [straight.factories] at finds
      by_cases none : rest = []
      · exact .inl none
      · refine .inr ⟨finds, ?_⟩
        rw [act] at acted
        split at acted
        · cases acted
        · rcases doUpgrade_cases acted with ⟨rfl, missing⟩ | ⟨-, -, outcome⟩
          · have absent := missing websocket keyed
            rw [straight.factories, finds] at absent
            exact .inl absent
          · rcases outcome with ⟨rfl, r, added, rfl⟩ | ⟨refused, -⟩
            · exact absurd serves.2 (not_lists_opened straight none added)
            · exact .inr refused
  · intro plain
    refine ⟨?_, (act_straight straight acted plain).lists⟩
    cases action with
    | close n => trivial
    | upgrade rest upgrade key opens =>
      intro websocket keyed
      rw [straight.factories]
      rcases plain websocket keyed with none | ⟨same, -⟩
      · rw [none, List.append_nil]
      · exact same

theorem straight_registered (gen : UuidGenerator) (name rootUrl : Bytes)
    (registrations : List (WebSocketRegistration F)) (path : Bytes) :
    Straight (firstFor rootUrl registrations) gen path
      (registered name rootUrl registrations).run := by
  have untouched := foldl_untouched { name := name, rootUrl := rootUrl } registrations
  have registry : (registered name rootUrl registrations).run.registry = {} := untouched.1
  have requested : (registered name rootUrl registrations).run.requested = [] := untouched.2
  constructor
  · exact lookup_registered name rootUrl registrations
  · rw [requested, registry]
    rfl
  · rw [requested]
    exact List.forall_mem_nil _
  · rw [registry]
    exact Registry.entries_initial _
  · intro target id n found
    rw [registry] at found
    cases found
  · intro n c object
    rw [registry] at object
    cases object

end Invariant

/-- Requests for a path find the factory that was registered for it, and its list has
its open connections behind each of them, exactly if those that are upgrades have
nothing behind the path, apart from what opens no connection anyway. -/
theorem upgrades_served_iff (gen : UuidGenerator) (ndebug : Bool) (name rootUrl : Bytes)
    (registrations : List (WebSocketRegistration F)) (path : Bytes) (actions : List Action) :
    Transition.Steps (act gen ndebug path) (Serves (firstFor rootUrl registrations) path)
        (registered name rootUrl registrations).run actions ↔
      Transition.Steps (act gen ndebug path) (Plain (firstFor rootUrl registrations) path)
        (registered name rootUrl registrations).run actions := by
  exact Transition.steps_congr (I := Straight (firstFor rootUrl registrations) gen path)
    (fun straight acted plain => act_straight straight acted plain)
    (fun straight acted => act_serves_iff straight acted)
    (straight_registered gen name rootUrl registrations path)

/-- Numbers of growing length. -/
def growing : UuidGenerator where
  uuid k := Bytes.ofAscii "00000000-0000-4000-8000-000000000000" ++ List.replicate k 48
  filled k := List.append_ne_nil_of_left_ne_nil (by decide) _
  injective := by
    intro j k same
    have zeros := congrArg List.length (List.append_cancel_left same)
    rwa [List.length_replicate, List.length_replicate] at zeros

def chat : Bytes := Bytes.ofAscii "/chat"

/-- Two requests for the path alone, and the end of the first connection. -/
theorem upgrades_served_iff_chat :
    Transition.Steps (act growing false chat) (Serves (firstFor [47] [⟨chat, .urlFullPath, ()⟩]) chat)
      (registered [] [47] [⟨chat, .urlFullPath, ()⟩]).run
      [.upgrade [] websocketValue [107] true, .upgrade [] websocketValue [107] true, .close 0] := by
  refine (upgrades_served_iff growing false [] [47] [⟨chat, .urlFullPath, ()⟩] chat _).mpr ?_
  intro first _
  refine ⟨fun _ _ => .inl rfl, fun second _ => ⟨fun _ _ => .inl rfl, fun third _ => ?_⟩⟩
  exact ⟨trivial, trivial⟩

/-- A request with a query finds no factory. -/
theorem queried_unserved :
    ¬Transition.Steps (act growing false chat)
      (Serves (firstFor [47] [⟨chat, .urlFullPath, ()⟩]) chat)
      (registered [] [47] [⟨chat, .urlFullPath, ()⟩]).run
      [.upgrade (Bytes.ofAscii "?room=1") websocketValue [107] true] := by
  intro serves
  have found := (serves _ rfl).1.1 (by decide) (by decide)
  revert found
  decide

end WebSocketApplication
end Da4qi4.Websocket
