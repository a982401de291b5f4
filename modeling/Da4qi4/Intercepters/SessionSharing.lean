import Da4qi4.Intercepters.Passage
import Da4qi4.Utilities.JsonText

/-! Many requests at once, with one cache behind them. Each runs through the chain by
itself; the cache executes a command when it gets to it, and the reply comes later. What is
cached may run out at any time, and the cache may answer with an error. Handlers change a
session as they like, but for its cookie. -/
namespace Da4qi4
open Utilities
namespace Intercepter
open Redis (RedisValue)

deriving instance DecidableEq for Cookie

/-- A session that is written as text is read back. -/
structure Conversions where
  parse : Bytes → Option Json
  dump : Json → Option Bytes
  parse_dump : ∀ {session text}, dump session = some text → parse text = some session

/-- The cookie of a session in which there is nothing else. -/
def onlyCookie : Json → Option Cookie
  | .object [(key, .object [(orderVersion, .boolean oldVersion), (nameKey, .string name),
      (valueKey, .string value), (domainKey, .string domain), (pathKey, .string path),
      (maxAgeKey, .number maxAge), (httpOnlyKey, .boolean httpOnly), (secureKey, .boolean secure),
      (sameSiteKey, .number sameSite)])] =>
    if key = sessionCookieName ∧ orderVersion = Bytes.ofAscii "order_version" ∧
        nameKey = Bytes.ofAscii "name" ∧ valueKey = Bytes.ofAscii "value" ∧
        domainKey = Bytes.ofAscii "domain" ∧ pathKey = Bytes.ofAscii "path" ∧
        maxAgeKey = Bytes.ofAscii "max_age" ∧ httpOnlyKey = Bytes.ofAscii "http_only" ∧
        secureKey = Bytes.ofAscii "secure" ∧ sameSiteKey = Bytes.ofAscii "samesite" then
      some ⟨oldVersion, name, value, domain, path, maxAge, httpOnly, secure, sameSite⟩
    else none
  | _ => none

theorem onlyCookie_spec {session : Json} {cookie : Cookie}
    (found : onlyCookie session = some cookie) : session = makeNewSession cookie := by
  unfold onlyCookie at found
  split at found
  · split at found
    · rename_i keys
      obtain ⟨rfl, rfl, rfl, rfl, rfl, rfl, rfl, rfl, rfl, rfl⟩ := keys
      cases found
      rfl
    · cases found
  · cases found

/-- The text of such a session, with the members by their names and each level indented. -/
def sessionText (cookie : Cookie) : Option Bytes :=
  Valuetool.dump (fun _ => []) 0 (.object [(sessionCookieName, .object [
    (Bytes.ofAscii "domain", .string cookie.domain),
    (Bytes.ofAscii "http_only", .boolean cookie.httpOnly),
    (Bytes.ofAscii "max_age", .numberInteger (.ofInt cookie.maxAge)),
    (Bytes.ofAscii "name", .string cookie.name),
    (Bytes.ofAscii "order_version", .boolean cookie.oldVersion),
    (Bytes.ofAscii "path", .string cookie.path),
    (Bytes.ofAscii "samesite", .numberInteger (.ofInt cookie.sameSite)),
    (Bytes.ofAscii "secure", .boolean cookie.secure),
    (Bytes.ofAscii "value", .string cookie.value)])])

/-- Sessions with these cookies are written and read. -/
def Conversions.ofCookies (cookies : List Cookie)
    (different : cookies.Pairwise fun first second => sessionText first ≠ sessionText second) :
    Conversions where
  parse text := (cookies.find? fun cookie => sessionText cookie = some text).map makeNewSession
  dump session := (onlyCookie session).bind fun cookie =>
    if cookie ∈ cookies then sessionText cookie else none
  parse_dump := by
    intro session text dumped
    obtain ⟨cookie, only, written⟩ := Option.bind_eq_some_iff.mp dumped
    split at written
    · rename_i member
      rw [onlyCookie_spec only, Option.map_eq_some_iff]
      refine ⟨cookie, ?_, rfl⟩
      obtain ⟨front, back, rfl⟩ := List.append_of_mem member
      obtain ⟨-, -, others⟩ := List.pairwise_append.mp different
      rw [List.find?_append, List.find?_eq_none.mpr, Option.none_or, List.find?_cons_of_pos]
      · exact decide_eq_true written
      · intro other earlier same
        exact others other earlier cookie List.mem_cons_self
          ((of_decide_eq_true same).trans written.symm)
    · cases written

/-- A request on its way, and the replies that are on theirs: each with the number of the
invocation that asked, and with what it asked. -/
structure Visit where
  setting : Setting
  passage : Passage
  replies : List (Nat × Command × RedisValue) := []

/-- The last field only records which times and random parts were drawn for which request. -/
structure Sharing where
  cache : List (Bytes × Bytes) := []
  visits : List Visit := []
  drawn : List (Nat × Fresh) := []

namespace Sharing

/-- What the cache becomes and what it answers. -/
def execute (cache : List (Bytes × Bytes)) : Command → List (Bytes × Bytes) × RedisValue
  | .get sessionId =>
    (cache, match cache.lookup sessionId with
      | some text => .bytes text false
      | none => .null)
  | .setex sessionId _ value =>
    ((sessionId, value) :: cache.filter (fun entry => entry.1 ≠ sessionId),
      .bytes (Bytes.ofAscii "OK") false)

inductive Event where
  | arrive (app : Application) (request : Request) (hasRedis : Bool) (fs : FileSystem)
  | work (visit : Nat) (fresh : Fresh)
  | execute (visit index : Nat)
  | fail (visit index : Nat) (error : Bytes)
  | reply (visit index : Nat) (fresh : Fresh)
  | handle (visit : Nat) (session : Json) (response : Response) (result : Result)
  | expire (sessionId : Bytes)

/-- The request goes on; the others stay. -/
def go (s : Sharing) (number : Nat) (visit : Visit) (fresh : Option Fresh) : Sharing :=
  { s with
    visits := s.visits.set number visit
    drawn := (fresh.map fun fresh => (number, fresh)).toList ++ s.drawn }

/-- A command that has not been executed. -/
def waiting (visit : Visit) (index : Nat) : Option Asked :=
  visit.passage.commands[index]?.filter fun asked =>
    !visit.replies.any fun reply => reply.1 = asked.number

/-- The reply to a command. -/
def arrived (visit : Visit) (asked : Asked) : Option (Nat × Command × RedisValue) :=
  visit.replies.find? fun reply => reply.1 = asked.number ∧ reply.2.1 = asked.command

def step (conversions : Conversions) (chain : List Member) (s : Sharing) : Event → Option Sharing
  | .arrive app request hasRedis fs =>
    some { s with visits := s.visits ++ [{
      setting := ⟨app, request, hasRedis, fs, conversions.parse, conversions.dump⟩
      passage := .start chain.length }] }
  | .work number fresh =>
    s.visits[number]?.bind fun visit =>
      (visit.passage.step visit.setting chain (.work fresh)).map fun passage =>
        s.go number { visit with passage := passage } (some fresh)
  | .execute number index =>
    s.visits[number]?.bind fun visit =>
      (waiting visit index).map fun asked =>
        let executed := execute s.cache asked.command
        { s with cache := executed.1 }.go number
          { visit with replies := (asked.number, asked.command, executed.2) :: visit.replies } none
  | .fail number index error =>
    s.visits[number]?.bind fun visit =>
      (waiting visit index).map fun asked =>
        s.go number { visit with
          replies := (asked.number, asked.command, .bytes error true) :: visit.replies } none
  | .reply number index fresh =>
    s.visits[number]?.bind fun visit =>
      visit.passage.commands[index]?.bind fun asked =>
        (arrived visit asked).bind fun reply =>
          (visit.passage.step visit.setting chain (.replied index reply.2.2 fresh)).map
            fun passage => s.go number { visit with
              passage := passage
              replies := visit.replies.filter fun other => other.1 ≠ asked.number } (some fresh)
  | .handle number session response result =>
    s.visits[number]?.bind fun visit =>
      if getSessionCookie session = getSessionCookie visit.passage.data.session then
        (visit.passage.step visit.setting chain (.handled session response result)).map
          fun passage => s.go number { visit with passage := passage } none
      else none
  | .expire sessionId =>
    some { s with cache := s.cache.filter fun entry => entry.1 ≠ sessionId }

/-- A name that was made for a request. -/
def Made (chain : List Member) (drawn : List (Nat × Fresh)) (number : Nat) (sessionId : Bytes) :
    Prop :=
  ∃ fresh options, (number, fresh) ∈ drawn ∧ .sessionOnRedis options ∈ chain ∧
    sessionId = makeSessionId options fresh

/-- A name that a request presents in a cookie. -/
def Presents (chain : List Member) (request : Request) (sessionId : Bytes) : Prop :=
  ∃ options, .sessionOnRedis options ∈ chain ∧ sessionId = getHeader request.cookies options.name

/-- The cookie of a session has a name with a property. -/
def Named (P : Bytes → Prop) (session : Json) : Prop :=
  ∀ cookie, getSessionCookie session = some cookie → cookie.isEmpty = false → P cookie.value

/-- The text of a session that has this name, which was made for some request. -/
def StoredAs (conversions : Conversions) (chain : List Member) (drawn : List (Nat × Fresh))
    (sessionId text : Bytes) : Prop :=
  (∃ number, Made chain drawn number sessionId) ∧
    ∃ session cookie, conversions.dump session = some text ∧
      getSessionCookie session = some cookie ∧ cookie.isEmpty = false ∧ cookie.value = sessionId

/-- A session that was made for the request, or one that it presents the name of, which was
made for some request. -/
def Owns (chain : List Member) (drawn : List (Nat × Fresh)) (number : Nat) (request : Request)
    (sessionId : Bytes) : Prop :=
  Made chain drawn number sessionId ∨
    (Presents chain request sessionId ∧ ∃ other, Made chain drawn other sessionId)

/-- Nothing is cached under a name that the server has not made, and no request works on a
session of another one. -/
structure Apart (conversions : Conversions) (chain : List Member) (s : Sharing) : Prop where
  cached : ∀ entry ∈ s.cache, StoredAs conversions chain s.drawn entry.1 entry.2
  sessions : ∀ number visit, s.visits[number]? = some visit →
    Named (Owns chain s.drawn number visit.setting.request) visit.passage.data.session

section Effects
variable {conversions : Conversions} {chain : List Member} {drawn more : List (Nat × Fresh)}
  {number : Nat} {request : Request} {sessionId : Bytes} {P Q : Bytes → Prop} {F G : Command → Prop}

theorem Named.mono (named : Named P session) (follows : ∀ sessionId, P sessionId → Q sessionId) :
    Named Q session :=
  fun cookie found some_ => follows _ (named cookie found some_)

theorem named_null (P : Bytes → Prop) : Named P .null := by
  rintro _ ⟨⟩ some_
  cases some_

theorem Made.mono (made : Made chain drawn number sessionId) (grown : drawn ⊆ more) :
    Made chain more number sessionId := by
  obtain ⟨fresh, options, member, known, rfl⟩ := made
  exact ⟨fresh, options, grown member, known, rfl⟩

theorem StoredAs.mono (stored : StoredAs conversions chain drawn sessionId text) (grown : drawn ⊆ more) :
    StoredAs conversions chain more sessionId text := by
  obtain ⟨⟨number, made⟩, session⟩ := stored
  exact ⟨⟨number, made.mono grown⟩, session⟩

theorem Owns.mono (owns : Owns chain drawn number request sessionId) (grown : drawn ⊆ more) :
    Owns chain more number request sessionId := by
  rcases owns with made | ⟨presents, other, made⟩
  · exact .inl (made.mono grown)
  · exact .inr ⟨presents, other, made.mono grown⟩

theorem Owns.made (owns : Owns chain drawn number request sessionId) :
    ∃ other, Made chain drawn other sessionId := by
  rcases owns with made | ⟨-, made⟩
  · exact ⟨number, made⟩
  · exact made

/-- Commands ask for presented names, and store sessions under their own. -/
def Proper (conversions : Conversions) (chain : List Member) (drawn : List (Nat × Fresh))
    (request : Request) : Command → Prop
  | .get sessionId => Presents chain request sessionId
  | .setex sessionId _ text => StoredAs conversions chain drawn sessionId text

/-- A reply is an error, nothing, or what is cached under the name. -/
def Replied (conversions : Conversions) (chain : List Member) (drawn : List (Nat × Fresh))
    (value : RedisValue) : Command → Prop
  | .get sessionId => value.isError = true ∨ value.text = [] ∨
      StoredAs conversions chain drawn sessionId value.text
  | .setex _ _ _ => True

theorem Proper.mono (proper : Proper conversions chain drawn request command)
    (grown : drawn ⊆ more) : Proper conversions chain more request command := by
  cases command with
  | get sessionId => exact proper
  | setex sessionId timeout text => exact StoredAs.mono proper grown

theorem Replied.mono (replied : Replied conversions chain drawn value command)
    (grown : drawn ⊆ more) : Replied conversions chain more value command := by
  cases command with
  | get sessionId => exact replied.imp_right (Or.imp_right (StoredAs.mono · grown))
  | setex sessionId timeout text => trivial

/-- What an effect leaves, asks and has still to do. -/
structure Leaves (P : Bytes → Prop) (F : Command → Prop) (effect : Effect) : Prop where
  session : Named P effect.data.session
  command : ∀ command, effect.command = some command → F command
  acts : ∀ session, .save session ∈ effect.acts → Named P session

/-- An effect that answers, and leaves the session alone. -/
theorem leaves_answers {d : ContextData} (named : Named P d.session) (response : Response)
    (results : List Result) (F : Command → Prop) :
    Leaves P F { data := d, response := response, acts := results.map .answer } := by
  refine ⟨named, nofun, fun session member => ?_⟩
  obtain ⟨result, -, same⟩ := List.mem_map.mp member
  cases same

theorem named_createNewSession {options : SessionOptions} (known : .sessionOnRedis options ∈ chain)
    (member : (number, fresh) ∈ drawn) (request : Request) :
    Named (Owns chain drawn number request) (createNewSession options fresh) := by
  intro cookie found _
  rw [createNewSession, getSessionCookie_makeNewSession] at found
  cases found
  exact .inl ⟨fresh, options, member, known, rfl⟩

variable {env : Setting} {data : ContextData}

theorem leaves_onRequest {options : SessionOptions} (known : .sessionOnRedis options ∈ chain)
    (member : (number, fresh) ∈ drawn)
    (named : Named (Owns chain drawn number env.request) data.session) (response : Response) :
    Leaves (Owns chain drawn number env.request) (Proper conversions chain drawn env.request)
      (SessionOnRedis.onRequest env options fresh data response) := by
  rw [SessionOnRedis.onRequest]
  split
  · exact leaves_answers (named_createNewSession known member env.request) response [.pass] _
  · refine ⟨named, ?_, fun _ saved => by cases saved⟩
    rintro _ ⟨⟩
    exact ⟨options, known, rfl⟩

/-- What is cached under a name is a session of this name. -/
theorem named_parsed (stored : StoredAs conversions chain drawn sessionId text)
    (parsed : conversions.parse text = some session) : Named (· = sessionId) session := by
  obtain ⟨-, session', cookie, dumped, found, -, same⟩ := stored
  rw [conversions.parse_dump dumped] at parsed
  cases parsed
  intro cookie' found' _
  rw [found] at found'
  cases found'
  exact same

theorem leaves_onGet {options : SessionOptions} (known : .sessionOnRedis options ∈ chain)
    (member : (number, fresh) ∈ drawn) (parses : env.parse = conversions.parse)
    (named : Named (Owns chain drawn number env.request) data.session) (response : Response)
    (presents : Presents chain env.request sessionId)
    (replied : Replied conversions chain drawn value (.get sessionId)) :
    Leaves (Owns chain drawn number env.request) (Proper conversions chain drawn env.request)
      (SessionOnRedis.onGet env options fresh data response value) := by
  rw [SessionOnRedis.onGet]
  split
  · exact leaves_answers named _ [.stop] _
  · rename_i noError
    split
    · rename_i session parsed
      refine leaves_answers (d := { data with session := _ }) ?_ response [.pass] _
      by_cases empty : session.isEmpty = true
      · rw [if_pos empty]
        exact named_createNewSession known member env.request
      · rw [if_neg empty]
        split at parsed
        · rename_i some_
          rcases replied with error | none | stored
          · exact absurd error noError
          · exact absurd none some_
          · rw [parses] at parsed
            refine (named_parsed stored parsed).mono fun sessionId same => ?_
            rw [same]
            exact .inr ⟨presents, stored.1⟩
        · cases parsed
          exact absurd rfl empty
    · refine ⟨named, (fun _ asked => by cases asked), fun session saved => ?_⟩
      have null : session = .null := by simpa using saved
      rw [null]
      exact named_null _

theorem leaves_onResponse {effect : Effect} (dumps : env.dump = conversions.dump)
    (named : Named (Owns chain drawn number env.request) data.session)
    (left : SessionOnRedis.onResponse env data response = some effect) :
    Leaves (Owns chain drawn number env.request) (Proper conversions chain drawn env.request)
      effect := by
  rw [SessionOnRedis.onResponse] at left
  split at left
  · cases left
    exact leaves_answers named response [.pass] _
  · obtain ⟨cookie, found, rest⟩ := Option.bind_eq_some_iff.mp left
    split at rest
    · cases rest
      exact leaves_answers named response [.pass] _
    · rename_i some_
      obtain ⟨text, dumped, rfl⟩ := Option.map_eq_some_iff.mp rest
      have filled : cookie.isEmpty = false := Bool.eq_false_iff.mpr some_
      refine ⟨named, ?_, fun _ saved => by cases saved⟩
      rintro _ ⟨⟩
      rw [dumps] at dumped
      exact ⟨(named cookie found filled).made, data.session, cookie, dumped, found, filled, rfl⟩

theorem leaves_onSetex (named : Named P data.session) (response : Response) (value : RedisValue)
    (F : Command → Prop) : Leaves P F (SessionOnRedis.onSetex env data response value) := by
  rw [SessionOnRedis.onSetex]
  split
  · exact leaves_answers named _ [.stop, .pass] F
  · exact leaves_answers named response [.pass] F

theorem leaves_staticFile (s : StaticFile) (on : On)
    (named : Named (Owns chain drawn number env.request) data.session) (response : Response) :
    Leaves (Owns chain drawn number env.request) (Proper conversions chain drawn env.request)
      (s.invoke env on data response) := by
  rw [StaticFile.invoke]
  split
  · split
    · exact leaves_answers (d := { data with file := some _ }) named response [.stop] _
    · exact leaves_answers named response [.pass] _
  · exact leaves_answers
      (d := { data with file := (s.onResponse env.fs data.file response).data }) named _ _ _

theorem leaves_invoke {chainMember : Member} {effect : Effect} (known : chainMember ∈ chain)
    (member : (number, fresh) ∈ drawn) (dumps : env.dump = conversions.dump)
    (named : Named (Owns chain drawn number env.request) data.session)
    (left : chainMember.invoke env fresh on data response = some effect) :
    Leaves (Owns chain drawn number env.request) (Proper conversions chain drawn env.request)
        effect ∧
      (effect.command ≠ none → .sessionOnRedis chainMember.options ∈ chain) := by
  cases chainMember with
  | staticFile s =>
    cases left
    refine ⟨leaves_staticFile s on named response, fun asks => absurd ?_ asks⟩
    rw [StaticFile.invoke]
    split
    · split
      · rfl
      · rfl
    · rfl
  | sessionOnRedis options =>
    refine ⟨?_, fun _ => known⟩
    rw [Member.invoke, SessionOnRedis.invoke] at left
    split at left
    · split at left
      · cases left
        exact leaves_onRequest known member named response
      · exact leaves_onResponse dumps named left
    · cases left
      exact leaves_answers named response [.pass] _

end Effects

/-- What a request has and is going to leave is its own. -/
structure Keeps (P : Bytes → Prop) (F : Command → Prop) (chain : List Member) (s : Passage) :
    Prop where
  session : Named P s.data.session
  commands : ∀ asked ∈ s.commands, F asked.command ∧ .sessionOnRedis asked.options ∈ chain
  saves : ∀ number session, .act number (.save session) ∈ s.works → Named P session

section Requests
variable {conversions : Conversions} {chain : List Member} {drawn more : List (Nat × Fresh)}
  {number : Nat} {P Q : Bytes → Prop} {F G : Command → Prop} {s t : Passage}

theorem Keeps.mono (keeps : Keeps P F chain s) (ids : ∀ id, P id → Q id)
    (commands : ∀ command, F command → G command) : Keeps Q G chain s :=
  ⟨keeps.session.mono ids,
    fun asked member => (keeps.commands asked member).imp_left (commands _),
    fun number session saved => (keeps.saves number session saved).mono ids⟩

theorem keeps_start (P : Bytes → Prop) (F : Command → Prop) (chain : List Member) (length : Nat) :
    Keeps P F chain (Passage.start length) := by
  refine ⟨named_null P, nofun, fun number session member => ?_⟩
  cases List.mem_singleton.mp member

/-- Work behind the first. -/
theorem Keeps.rest {work : Work} {rest : List Work} (keeps : Keeps P F chain s)
    (first : s.works = work :: rest) :
    Keeps P F chain { s with works := rest } :=
  ⟨keeps.session, keeps.commands, fun number session saved =>
    keeps.saves number session (first ▸ List.mem_cons_of_mem work saved)⟩

theorem Keeps.take (keeps : Keeps P F chain s) {effect : Effect} (leaves : Leaves P F effect)
    {options : SessionOptions} (known : effect.command ≠ none → .sessionOnRedis options ∈ chain)
    (invocation : Nat) : Keeps P F chain (s.take invocation options effect) := by
  refine ⟨leaves.session, fun asked member => ?_, fun other session saved => ?_⟩
  · rcases List.mem_append.mp member with before | new
    · exact keeps.commands asked before
    · rw [Option.mem_toList, Option.map_eq_some_iff] at new
      obtain ⟨command, given, rfl⟩ := new
      exact ⟨leaves.command command given, known (by rw [given]; exact nofun)⟩
  · rcases List.mem_append.mp saved with new | before
    · obtain ⟨act, member, same⟩ := List.mem_map.mp new
      cases same
      exact leaves.acts session member
    · exact keeps.saves other session before

theorem Keeps.answer (keeps : Keeps P F chain s) (answered : s.answer invocation result = some t) :
    Keeps P F chain t := by
  obtain ⟨moved, -, rfl⟩ := Option.map_eq_some_iff.mp answered
  refine ⟨keeps.session, keeps.commands, fun number session saved => ?_⟩
  rcases List.mem_cons.mp saved with same | before
  · cases same
  · exact keeps.saves number session before

variable {env : Setting}

theorem Keeps.run
    (keeps : Keeps (Owns chain drawn number env.request)
      (Proper conversions chain drawn env.request) chain s)
    (member : (number, fresh) ∈ drawn) (dumps : env.dump = conversions.dump)
    {invocation : Invocation} {position : Nat}
    (ran : Passage.run env chain fresh s position invocation = some t) :
    Keeps (Owns chain drawn number env.request) (Proper conversions chain drawn env.request)
      chain t := by
  cases invocation with
  | handle =>
    cases ran
    exact ⟨keeps.session, keeps.commands, keeps.saves⟩
  | finish =>
    cases ran
    exact ⟨keeps.session, keeps.commands, keeps.saves⟩
  | intercepter index on =>
    obtain ⟨chainMember, found, rfl⟩ := Option.map_eq_some_iff.mp ran
    have known := List.mem_of_getElem? found
    split
    · rename_i effect left
      obtain ⟨leaves, asks⟩ := leaves_invoke known member dumps keeps.session left
      exact keeps.take leaves asks position
    · exact ⟨keeps.session, keeps.commands, nofun⟩

/-- Code that runs. -/
theorem Keeps.work
    (keeps : Keeps (Owns chain drawn number env.request)
      (Proper conversions chain drawn env.request) chain s)
    (member : (number, fresh) ∈ drawn) (dumps : env.dump = conversions.dump)
    (stepped : Passage.step env chain s (.work fresh) = some t) :
    Keeps (Owns chain drawn number env.request) (Proper conversions chain drawn env.request)
      chain t := by
  rw [Passage.step] at stepped
  split at stepped
  · cases stepped
  · rename_i position rest first
    obtain ⟨invocation, -, ran⟩ := Option.bind_eq_some_iff.mp stepped
    exact (keeps.rest first).run member dumps ran
  · rename_i position result rest first
    exact (keeps.rest first).answer stepped
  · rename_i position session rest first
    cases stepped
    have remaining := keeps.rest first
    have saved := keeps.saves position session (first ▸ List.mem_cons_self)
    exact ⟨saved, remaining.commands, remaining.saves⟩

/-- A reply that is true to the cache. -/
theorem Keeps.reply
    (keeps : Keeps (Owns chain drawn number env.request)
      (Proper conversions chain drawn env.request) chain s)
    (member : (number, fresh) ∈ drawn) (parses : env.parse = conversions.parse)
    (asked : s.commands[index]? = some query)
    (replied : Replied conversions chain drawn value query.command)
    (stepped : Passage.step env chain s (.replied index value fresh) = some t) :
    Keeps (Owns chain drawn number env.request) (Proper conversions chain drawn env.request)
      chain t := by
  rw [Passage.step] at stepped
  split at stepped
  · rw [asked, Option.map_some] at stepped
    cases stepped
    obtain ⟨proper, known⟩ := keeps.commands query (List.mem_of_getElem? asked)
    have others : Keeps (Owns chain drawn number env.request)
        (Proper conversions chain drawn env.request) chain
        { s with commands := s.commands.eraseIdx index } :=
      ⟨keeps.session, fun asked member => keeps.commands asked (List.mem_of_mem_eraseIdx member),
        keeps.saves⟩
    refine others.take ?_ (fun _ => known) query.number
    obtain ⟨position, options, command⟩ := query
    cases command with
    | get sessionId => exact leaves_onGet known member parses keeps.session s.response proper replied
    | setex sessionId timeout text => exact leaves_onSetex keeps.session s.response value _
  · cases stepped

/-- A handler that leaves the cookie alone. -/
theorem Keeps.handle {session : Json} (keeps : Keeps P F chain s)
    (cookie : getSessionCookie session = getSessionCookie s.data.session)
    (stepped : Passage.step env chain s (.handled session response result) = some t) :
    Keeps P F chain t := by
  rw [Passage.step] at stepped
  split at stepped
  · cases stepped
  · cases stepped
    refine ⟨fun found same => keeps.session found (cookie ▸ same), keeps.commands,
      fun number saved member => ?_⟩
    rcases List.mem_cons.mp member with same | before
    · cases same
    · exact keeps.saves number saved before

end Requests

/-- What holds of every state of the requests and the cache. -/
structure Shared (conversions : Conversions) (chain : List Member) (s : Sharing) : Prop where
  cached : ∀ entry ∈ s.cache, StoredAs conversions chain s.drawn entry.1 entry.2
  converts : ∀ visit ∈ s.visits, visit.setting.parse = conversions.parse ∧
    visit.setting.dump = conversions.dump
  replies : ∀ visit ∈ s.visits, ∀ reply ∈ visit.replies,
    Replied conversions chain s.drawn reply.2.2 reply.2.1
  keeps : ∀ number visit, s.visits[number]? = some visit →
    Keeps (Owns chain s.drawn number visit.setting.request)
      (Proper conversions chain s.drawn visit.setting.request) chain visit.passage

section Sharings
variable {conversions : Conversions} {chain : List Member} {s t : Sharing} {number : Nat}
  {visit changed : Visit}

theorem shared_initial (conversions : Conversions) (chain : List Member) :
    Shared conversions chain {} := by
  refine ⟨List.forall_mem_nil _, List.forall_mem_nil _, List.forall_mem_nil _, ?_⟩
  intro number visit found
  rw [List.getElem?_nil] at found
  cases found

/-- A request that goes on, with what was drawn for it, takes nothing from the others. -/
theorem Shared.go (shared : Shared conversions chain s) (here : s.visits[number]? = some visit)
    (setting : changed.setting = visit.setting) (fresh : Option Fresh)
    (replies : ∀ reply ∈ changed.replies, Replied conversions chain
      (s.go number changed fresh).drawn reply.2.2 reply.2.1)
    (keeps : Keeps (Owns chain (s.go number changed fresh).drawn number visit.setting.request)
      (Proper conversions chain (s.go number changed fresh).drawn visit.setting.request) chain
      changed.passage) :
    Shared conversions chain (s.go number changed fresh) := by
  have grown : s.drawn ⊆ (s.go number changed fresh).drawn := List.subset_append_right _ _
  refine ⟨fun entry member => (shared.cached entry member).mono grown,
    fun other member => ?_, fun other member reply given => ?_, fun position other found => ?_⟩
  · rcases List.mem_or_eq_of_mem_set member with before | rfl
    · exact shared.converts other before
    · rw [setting]
      exact shared.converts visit (List.mem_of_getElem? here)
  · rcases List.mem_or_eq_of_mem_set member with before | rfl
    · exact (shared.replies other before reply given).mono grown
    · exact replies reply given
  · have placed : (s.visits.set number changed)[position]? = some other := found
    rw [List.getElem?_set] at placed
    split at placed
    · rename_i same
      subst same
      split at placed
      · cases placed
        rw [setting]
        exact keeps
      · cases placed
    · exact (shared.keeps position other placed).mono (fun sessionId owns => owns.mono grown)
        fun command proper => proper.mono grown

/-- What the cache answers is an error, nothing, or what it has. -/
theorem replied_execute (drawn : List (Nat × Fresh))
    (cached : ∀ entry ∈ s.cache, StoredAs conversions chain drawn entry.1 entry.2)
    (command : Command) :
    Replied conversions chain drawn (execute s.cache command).2 command := by
  cases command with
  | setex sessionId timeout text => trivial
  | get sessionId =>
    rw [execute]
    cases found : s.cache.lookup sessionId with
    | none => exact .inr (.inl rfl)
    | some text =>
      have member : (sessionId, text) ∈ s.cache := by
        obtain ⟨front, back, whole, -⟩ := List.lookup_eq_some_iff.mp found
        rw [whole]
        exact List.mem_append_right _ List.mem_cons_self
      exact .inr (.inr (cached _ member))

theorem cached_execute {drawn : List (Nat × Fresh)} {request : Request}
    (cached : ∀ entry ∈ s.cache, StoredAs conversions chain drawn entry.1 entry.2)
    {command : Command} (proper : Proper conversions chain drawn request command) :
    ∀ entry ∈ (execute s.cache command).1, StoredAs conversions chain drawn entry.1 entry.2 := by
  cases command with
  | get sessionId => exact cached
  | setex sessionId timeout text =>
    refine List.forall_mem_cons.mpr ⟨proper, fun entry member => ?_⟩
    exact cached entry (List.mem_of_mem_filter member)

theorem step_shared (shared : Shared conversions chain s)
    (stepped : s.step conversions chain e = some t) : Shared conversions chain t := by
  cases e with
  | arrive app request hasRedis fs =>
    cases stepped
    refine ⟨shared.cached, ?_, ?_, fun number visit found => ?_⟩
    · exact List.forall_mem_append.mpr
        ⟨shared.converts, List.forall_mem_singleton.mpr ⟨rfl, rfl⟩⟩
    · exact List.forall_mem_append.mpr
        ⟨shared.replies, List.forall_mem_singleton.mpr (List.forall_mem_nil _)⟩
    · have placed : (s.visits ++ [_])[number]? = some visit := found
      rw [List.getElem?_append] at placed
      split at placed
      · exact shared.keeps number visit placed
      · have last := List.mem_of_getElem? placed
        rw [List.mem_singleton.mp last]
        exact keeps_start _ _ chain chain.length
  | expire sessionId =>
    cases stepped
    refine ⟨fun entry member => shared.cached entry (List.mem_of_mem_filter member),
      shared.converts, shared.replies, shared.keeps⟩
  | work number fresh =>
    obtain ⟨visit, here, worked⟩ := Option.bind_eq_some_iff.mp stepped
    obtain ⟨passage, moved, rfl⟩ := Option.map_eq_some_iff.mp worked
    have grown : s.drawn ⊆ (number, fresh) :: s.drawn := List.subset_cons_self _ _
    have keeps := (shared.keeps number visit here).mono (fun _ owns => owns.mono grown)
      fun _ proper => proper.mono grown
    refine shared.go here (by rfl) (some fresh) (fun reply given => ?_) ?_
    · exact (shared.replies visit (List.mem_of_getElem? here) reply given).mono grown
    · exact keeps.work List.mem_cons_self (shared.converts visit (List.mem_of_getElem? here)).2 moved
  | execute number index =>
    obtain ⟨visit, here, waited⟩ := Option.bind_eq_some_iff.mp stepped
    obtain ⟨asked, waits, rfl⟩ := Option.map_eq_some_iff.mp waited
    have keeps := shared.keeps number visit here
    have member := List.mem_of_getElem? (Option.mem_filter_iff.mp waits).1
    have executed : Shared conversions chain { s with cache := (execute s.cache asked.command).1 } :=
      ⟨cached_execute shared.cached (keeps.commands asked member).1, shared.converts,
        shared.replies, shared.keeps⟩
    refine executed.go here (by rfl) none (List.forall_mem_cons.mpr ⟨?_, ?_⟩) keeps
    · exact replied_execute s.drawn shared.cached asked.command
    · exact shared.replies visit (List.mem_of_getElem? here)
  | fail number index error =>
    obtain ⟨visit, here, waited⟩ := Option.bind_eq_some_iff.mp stepped
    obtain ⟨asked, waits, rfl⟩ := Option.map_eq_some_iff.mp waited
    refine shared.go here (by rfl) none (List.forall_mem_cons.mpr ⟨?_, ?_⟩) (shared.keeps number visit here)
    · cases asked.command with
      | get sessionId => exact .inl rfl
      | setex sessionId timeout text => trivial
    · exact shared.replies visit (List.mem_of_getElem? here)
  | reply number index fresh =>
    obtain ⟨visit, here, came⟩ := Option.bind_eq_some_iff.mp stepped
    obtain ⟨asked, query, answered⟩ := Option.bind_eq_some_iff.mp came
    obtain ⟨reply, found, replied⟩ := Option.bind_eq_some_iff.mp answered
    obtain ⟨passage, moved, rfl⟩ := Option.map_eq_some_iff.mp replied
    have grown : s.drawn ⊆ (number, fresh) :: s.drawn := List.subset_cons_self _ _
    have keeps := (shared.keeps number visit here).mono (fun _ owns => owns.mono grown)
      fun _ proper => proper.mono grown
    have given := shared.replies visit (List.mem_of_getElem? here)
    have same : reply.2.1 = asked.command := by
      have both := List.find?_some found
      simp only [decide_eq_true_eq] at both
      exact both.2
    have holds : Replied conversions chain ((number, fresh) :: s.drawn) reply.2.2 asked.command :=
      same ▸ (given reply (List.mem_of_find?_eq_some found)).mono grown
    refine shared.go here (by rfl) (some fresh) (fun other member => ?_) ?_
    · exact (given other (List.mem_of_mem_filter member)).mono grown
    · exact keeps.reply List.mem_cons_self (shared.converts visit (List.mem_of_getElem? here)).1
        query holds moved
  | handle number session response result =>
    obtain ⟨visit, here, handled⟩ := Option.bind_eq_some_iff.mp stepped
    split at handled
    · rename_i cookie
      obtain ⟨passage, moved, rfl⟩ := Option.map_eq_some_iff.mp handled
      exact shared.go here (by rfl) none (shared.replies visit (List.mem_of_getElem? here))
        ((shared.keeps number visit here).handle cookie moved)
    · cases handled

end Sharings

/-- However requests arrive, run, wait for the cache and answer beside each other, what is
cached under a name is a session of this name, which the server has made, and each request
works on a session that was made for it or whose name it presents. -/
theorem sessions_apart (conversions : Conversions) (chain : List Member) (events : List Event) :
    Transition.Throughout (step conversions chain) (Apart conversions chain) {} events := by
  have apart {s : Sharing} (shared : Shared conversions chain s) : Apart conversions chain s :=
    ⟨shared.cached, fun number visit here => (shared.keeps number visit here).session⟩
  exact Transition.throughout_of_invariant step_shared apart (shared_initial conversions chain)

/-- What is drawn for the name of the session of the first of two requests. -/
def firstDrawn : Fresh := ⟨Bytes.ofAscii "1", Bytes.ofAscii "a"⟩

def firstCookie : Cookie where
  name := Bytes.ofAscii "session_id"
  value := Bytes.ofAscii "sid:1:a"
  path := [47]
  maxAge := 1800
  httpOnly := true

/-- The second request presents the name of the session of the first one, and gets the session
out of the cache before the first one is answered. -/
def returning : List Event :=
  let files := Passage.unparsable.fs
  let request := Passage.unparsable.request
  [.arrive .root { request with cookies := .empty } true files, .work 0 firstDrawn, .work 0 firstDrawn,
    .work 0 firstDrawn, .handle 0 (makeNewSession firstCookie) .constructed .pass,
    .work 0 firstDrawn, .work 0 firstDrawn,
    .arrive .root { request with
      cookies := OrderedMap.empty.assign (Bytes.ofAscii "session_id") firstCookie.value } true files,
    .work 1 ⟨[], []⟩, .execute 0 0, .execute 1 0, .reply 1 0 ⟨[], []⟩, .reply 0 0 ⟨[], []⟩]

def onlyFirst : Conversions := .ofCookies [firstCookie] (List.pairwise_singleton _ _)

theorem sessions_apart_returning :
    (Transition.run (step onlyFirst [.sessionOnRedis {}]) {} returning).map
        (fun s => (s.cache.map Prod.fst,
          s.visits.map fun visit => getSessionCookie visit.passage.data.session)) =
      some ([firstCookie.value], [some firstCookie, some firstCookie]) ∧
    Transition.Throughout (step onlyFirst [.sessionOnRedis {}])
      (Apart onlyFirst [.sessionOnRedis {}]) {} returning :=
  ⟨by decide +kernel, sessions_apart onlyFirst [.sessionOnRedis {}] returning⟩

end Sharing
end Intercepter
end Da4qi4
