import Da4qi4.Http.Request
import Da4qi4.Intercepters.StaticFile
import Da4qi4.Redis.Parser

/-! The interceptor that keeps sessions in a cache. It asks for the session on the
request and stores it on the response; each time it answers when the reply comes.
The conversion between text and data is a parameter, and so are the time and the
random part of a new session's name. -/
namespace Da4qi4
open Utilities

namespace Redis.RedisValue

def isError : RedisValue → Bool
  | .bytes _ error => error
  | _ => false

/-- Only a byte string has a text. -/
def text : RedisValue → Bytes
  | .bytes value _ => value
  | _ => []

end Redis.RedisValue

namespace Intercepter
open Redis (RedisValue)

/-- Data as text describes it. A number is known by the integer it converts to. -/
inductive Json where
  | null
  | boolean (value : Bool)
  | number (value : Int)
  | string (value : Bytes)
  | array (values : List Json)
  | object (members : List (Bytes × Json))

namespace Json

def isEmpty : Json → Bool
  | .null => true
  | .array values => values.isEmpty
  | .object members => members.isEmpty
  | _ => false

def find (key : Bytes) : Json → Option Json
  | .object members => members.lookup key
  | _ => none

def getBoolean : Json → Option Bool
  | .boolean value => some value
  | _ => none

/-- A number of the target type; an enumeration does not accept a boolean. -/
def getEnumeration : Json → Option Int
  | .number value => some value
  | _ => none

def getInteger : Json → Option Int
  | .number value => some value
  | .boolean value => some value.toInt
  | _ => none

def getString : Json → Option Bytes
  | .string value => some value
  | _ => none

end Json

structure Cookie where
  oldVersion : Bool := false
  name : Bytes := []
  value : Bytes := []
  domain : Bytes := []
  path : Bytes := []
  maxAge : Int := -2 ^ 31
  httpOnly : Bool := false
  secure : Bool := false
  sameSite : Int := 0

namespace Cookie

def isEmpty (c : Cookie) : Bool := c.name = [] && c.value = []

def toJson (c : Cookie) : Json := .object [
  (Bytes.ofAscii "order_version", .boolean c.oldVersion),
  (Bytes.ofAscii "name", .string c.name),
  (Bytes.ofAscii "value", .string c.value),
  (Bytes.ofAscii "domain", .string c.domain),
  (Bytes.ofAscii "path", .string c.path),
  (Bytes.ofAscii "max_age", .number c.maxAge),
  (Bytes.ofAscii "http_only", .boolean c.httpOnly),
  (Bytes.ofAscii "secure", .boolean c.secure),
  (Bytes.ofAscii "samesite", .number c.sameSite)]

/-- `none` is an exception: a member is missing or has another type. -/
def fromJson (j : Json) : Option Cookie := do
  let oldVersion ← (← j.find (Bytes.ofAscii "order_version")).getBoolean
  let name ← (← j.find (Bytes.ofAscii "name")).getString
  let value ← (← j.find (Bytes.ofAscii "value")).getString
  let domain ← (← j.find (Bytes.ofAscii "domain")).getString
  let path ← (← j.find (Bytes.ofAscii "path")).getString
  let maxAge ← (← j.find (Bytes.ofAscii "max_age")).getInteger
  let httpOnly ← (← j.find (Bytes.ofAscii "http_only")).getBoolean
  let secure ← (← j.find (Bytes.ofAscii "secure")).getBoolean
  let sameSite ← (← j.find (Bytes.ofAscii "samesite")).getEnumeration
  some ⟨oldVersion, name, value, domain, path, maxAge, httpOnly, secure, sameSite⟩

/-- What a session stores is read back. -/
theorem fromJson_toJson (c : Cookie) : fromJson c.toJson = some c := rfl

end Cookie

def sessionCookieName : Bytes := Bytes.ofAscii "_cookie_"

def makeNewSession (cookie : Cookie) : Json := .object [(sessionCookieName, cookie.toJson)]

def getSessionCookie (session : Json) : Option Cookie :=
  match session.find sessionCookieName with
  | none => some {}
  | some j => Cookie.fromJson j

theorem getSessionCookie_makeNewSession (cookie : Cookie) :
    getSessionCookie (makeNewSession cookie) = some cookie := rfl

structure SessionOptions where
  name : Bytes := Bytes.ofAscii "session_id"
  idPrefix : Bytes := Bytes.ofAscii "sid:"
  prefixWithTime : Bool := true
  domain : Bytes := []
  path : Bytes := [47]
  maxAge : Int := 1800
  httpOnly : Bool := true
  secure : Bool := false
  sameSite : Int := 0

/-- What a new session's name is made of. -/
structure Fresh where
  time : Bytes
  uuid : Bytes

inductive Command where
  | get (sessionId : Bytes)
  | setex (sessionId : Bytes) (timeout : Int) (value : Bytes)
  deriving DecidableEq

/-- The data of the context under the names of the session and of the file. -/
structure ContextData where
  session : Json := .null
  file : Option StatusData := none

/-- What code does behind its changes of the context, in this order. -/
inductive Act where
  | answer (result : Result)
  | save (session : Json)

/-- What an invocation or a reply leads to. -/
structure Effect where
  data : ContextData
  response : Response
  command : Option Command := none
  acts : List Act := []

/-- What the interceptors run on. -/
structure Setting where
  app : Application
  request : Request
  hasRedis : Bool
  fs : FileSystem
  parse : Bytes → Option Json
  dump : Json → Option Bytes

def makeSessionId (options : SessionOptions) (fresh : Fresh) : Bytes :=
  if options.prefixWithTime then options.idPrefix ++ fresh.time ++ [58] ++ fresh.uuid
  else options.idPrefix ++ fresh.uuid

def createNewSession (options : SessionOptions) (fresh : Fresh) : Json :=
  makeNewSession
    { name := options.name
      value := makeSessionId options fresh
      domain := options.domain
      path := options.path
      maxAge := if 0 ≤ options.maxAge then options.maxAge else 0
      httpOnly := options.httpOnly
      secure := options.secure
      sameSite := options.sameSite }

namespace SessionOnRedis

def onRequest (env : Setting) (options : SessionOptions) (fresh : Fresh) (data : ContextData)
    (response : Response) : Effect :=
  let sessionId := getHeader env.request.cookies options.name
  if sessionId = [] then
    { data := { data with session := createNewSession options fresh }
      response := response
      acts := [.answer .pass] }
  else { data := data, response := response, command := some (.get sessionId) }

/-- A text that does not parse is answered twice: the handler of the exception does
not return. -/
def onGet (env : Setting) (options : SessionOptions) (fresh : Fresh) (data : ContextData)
    (response : Response) (value : RedisValue) : Effect :=
  if value.isError then
    { data := data, response := env.fs.renderStatus 500 response, acts := [.answer .stop] }
  else
    match if value.text ≠ [] then env.parse value.text else some .null with
    | some session =>
      let session := if session.isEmpty then createNewSession options fresh else session
      { data := { data with session := session }, response := response, acts := [.answer .pass] }
    | none =>
      { data := data
        response := env.fs.renderStatus 500 response
        acts := [.answer .stop, .save .null, .answer .pass] }

/-- `none` is an exception. -/
def onResponse (env : Setting) (data : ContextData) (response : Response) : Option Effect :=
  if data.session.isEmpty then
    some { data := data, response := response, acts := [.answer .pass] }
  else
    (getSessionCookie data.session).bind fun cookie =>
      if cookie.isEmpty then some { data := data, response := response, acts := [.answer .pass] }
      else
        (env.dump data.session).map fun value =>
          { data := data
            response := response
            command := some (.setex cookie.value cookie.maxAge value) }

/-- An error is answered twice. -/
def onSetex (env : Setting) (data : ContextData) (response : Response) (value : RedisValue) :
    Effect :=
  if value.isError then
    { data := data
      response := env.fs.renderStatus 500 response
      acts := [.answer .stop, .answer .pass] }
  else { data := data, response := response, acts := [.answer .pass] }

/-- The requests that have a session. -/
def Concerns (env : Setting) (options : SessionOptions) : Prop :=
  options.name ≠ [] ∧ iStartsWith env.request.url.path options.path = true ∧ env.hasRedis = true

instance (env : Setting) (options : SessionOptions) : Decidable (Concerns env options) :=
  inferInstanceAs (Decidable (_ ∧ _ ∧ _))

def invoke (env : Setting) (options : SessionOptions) (fresh : Fresh) (on : On)
    (data : ContextData) (response : Response) : Option Effect :=
  if Concerns env options then
    if on = .request then some (onRequest env options fresh data response)
    else onResponse env data response
  else some { data := data, response := response, acts := [.answer .pass] }

end SessionOnRedis

namespace StaticFile

def invoke (env : Setting) (s : StaticFile) (on : On) (data : ContextData) (response : Response) :
    Effect :=
  if on = .request then
    match s.onRequest env.app env.request with
    | some status =>
      { data := { data with file := some status }, response := response, acts := [.answer .stop] }
    | none => { data := data, response := response, acts := [.answer .pass] }
  else
    let served := s.onResponse env.fs data.file response
    { data := { data with file := served.data }
      response := served.response
      acts := served.result.toList.map Act.answer }

end StaticFile
end Intercepter
end Da4qi4
