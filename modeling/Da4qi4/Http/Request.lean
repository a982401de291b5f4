import Da4qi4.Utilities.HttpUtilities

/-! Requests as the connection fills them. `http_parser_parse_url`, the query's
decoding and what applications are mounted come from the environment. Path
parameters and decoded form data, which the connection does not read, are left
out. -/
namespace Da4qi4
open Utilities

/-- The parts that `http_parser_parse_url` has found. -/
structure UrlParts where
  schema : Option Bytes := none
  host : Option Bytes := none
  port : UInt16 := 0
  path : Option Bytes := none
  query : Option Bytes := none
  fragment : Option Bytes := none
  userinfo : Option Bytes := none

structure Application where
  urlRoot : Bytes
  staticRootPath : Bytes := []
  upoadMaxSizeLimitKB : Nat
  defaultCharset : Bytes := Bytes.ofAscii "UTF-8"
  deriving DecidableEq

inductive MultipartCallback where
  | headerField (data : Bytes)
  | headerValue (data : Bytes)
  | headersComplete
  | dataBegin
  | data (data : Bytes)
  | dataEnd
  | bodyEnd
  deriving DecidableEq, Repr

/-- What the connection runs on. The state of a multipart parser is its boundary
and the octets it was given. -/
structure Environment where
  ndebug : Bool
  parseUrl : Bytes → Option UrlParts
  parseQueryParameters : Bytes → UrlParameters
  findByURL : Bytes → Option Application
  createWebSocketHandler : Application → Bytes → Bool
  multipartExecute : Bytes → List Bytes → Bytes → List MultipartCallback × Nat

/-- The application of all targets. -/
def Application.root : Application := { urlRoot := [47], upoadMaxSizeLimitKB := 1024 }

/-- One application, and targets that are paths. -/
def Environment.single (app : Application) : Environment where
  ndebug := false
  parseUrl target := some { path := some target }
  parseQueryParameters _ := .empty
  findByURL url := if iStartsWith url app.urlRoot then some app else none
  createWebSocketHandler _ _ := false
  multipartExecute _ _ body := ([], body.length)

structure Url where
  full : Bytes := []
  schema : Bytes := []
  host : Bytes := []
  port : UInt16 := 0
  path : Bytes := []
  query : Bytes := []
  fragment : Bytes := []
  userinfo : Bytes := []
  parameters : UrlParameters := .empty
  fullUnderApp : Bytes := []
  pathUnderApp : Bytes := []
  deriving DecidableEq

namespace Url

/-- Parts that are not set keep what they were. -/
def parse (env : Environment) (url : Url) (urlValue : Bytes) : Url :=
  match env.parseUrl urlValue with
  | none => { url with full := urlValue }
  | some r =>
    let query := r.query.getD url.query
    { url with
      full := urlValue
      schema := r.schema.getD url.schema
      host := r.host.getD url.host
      port := r.port
      path := r.path.getD url.path
      query := query
      fragment := r.fragment.getD url.fragment
      userinfo := r.userinfo.getD url.userinfo
      parameters := if query = [] then url.parameters else env.parseQueryParameters query }

def clear (url : Url) : Url :=
  { fullUnderApp := url.fullUnderApp, pathUnderApp := url.pathUnderApp }

/-- `none` is a failed assertion, or an exception of `substr`. -/
def underApplication (env : Environment) (url : Url) (appUrlRoot : Bytes) : Option Url :=
  let asserted := iStartsWith url.full appUrlRoot && iStartsWith url.path appUrlRoot
  let inRange := appUrlRoot.length ≤ url.full.length ∧ appUrlRoot.length ≤ url.path.length
  if (env.ndebug || asserted) ∧ inRange then
    some { url with
      fullUnderApp := url.full.drop appUrlRoot.length
      pathUnderApp := url.path.drop appUrlRoot.length }
  else none

@[simp] theorem parse_full (env : Environment) (url : Url) (urlValue : Bytes) :
    (url.parse env urlValue).full = urlValue := by
  rw [parse]
  split <;> rfl

theorem underApplication_full {env : Environment} {url placed : Url} {root : Bytes}
    (applied : url.underApplication env root = some placed) : placed.full = url.full := by
  simp only [underApplication] at applied
  split at applied
  · cases applied
    rfl
  · cases applied

end Url

/-- `AppendHeader` of requests and of parts: the map, and what is left of the field
and of the value. A field that is found is not moved from. -/
def appendHeader (headers : ICHeaders) (field value : Bytes) : ICHeaders × Bytes × Bytes :=
  if (headers.find field).isSome then (headers.assign field value, field, [])
  else (headers.insert field value, [], [])

theorem appendHeader_headers (headers : ICHeaders) (field value : Bytes) :
    (appendHeader headers field value).1 = headers.assign field value := by
  rw [appendHeader]
  split
  · rfl
  · rename_i absent
    exact OrderedMap.insert_eq_assign (Option.not_isSome_iff_eq_none.mp absent) value

theorem appendHeader_field (headers : ICHeaders) (field value : Bytes) :
    (appendHeader headers field value).2.1 = if (headers.find field).isSome then field else [] := by
  rw [appendHeader]
  split <;> rfl

structure MultiPart where
  headers : ICHeaders := .empty
  data : Bytes := []
  deriving DecidableEq

structure AdditionFlags where
  upgrade : Bool := false
  keepalive : Bool := false
  multipart : Bool := false
  formurlencoded : Bool := false
  formdata : Bool := false
  octetstream : Bool := false
  deriving DecidableEq, Repr

def httpGet : Nat := 1

structure Request where
  additionFlags : AdditionFlags := {}
  url : Url := {}
  method : Nat := httpGet
  headers : ICHeaders := .empty
  versionMajor : Nat := 0
  versionMinor : Nat := 0
  contentLength : Nat := 0
  flags : UInt16 := 0
  body : Bytes := []
  boundary : Bytes := []
  multiparts : List MultiPart := []
  cookies : ICCookies := .empty
  deriving DecidableEq

namespace Request

def isUpgrade (r : Request) : Bool := r.additionFlags.upgrade

def isKeepAlive (r : Request) : Bool := r.additionFlags.keepalive

def isMultiPart (r : Request) : Bool := r.additionFlags.multipart

def reset (r : Request) : Request := { url := r.url.clear }

def parseUrl (env : Environment) (r : Request) (url : Bytes) : Request :=
  { r with url := r.url.parse env url }

/-- Every pair is inserted, so the first one of a name stays. -/
def transferHeadersToCookies (r : Request) : Request :=
  let value := getHeader r.headers (Bytes.ofAscii "Cookie")
  if value = [] then r
  else
    let insert (cookies : ICCookies) (part : Bytes) : ICCookies :=
      match split part 61 .trimAll with
      | [] => cookies
      | k :: kv => cookies.insert k (kv.head?.getD [])
    { r with cookies := (split value 59).foldl insert r.cookies }

def parseContentType (r : Request) : Request :=
  match tryGetHeader r.headers (Bytes.ofAscii "Content-Type") with
  | none => r
  | some contentType =>
    match find contentType (Bytes.ofAscii "multipart/") with
    | some beg =>
      let marked := { r with
        additionFlags := { r.additionFlags with
          multipart := true
          formdata :=
            if (find contentType (Bytes.ofAscii "form-data") (beg + 10)).isSome then true
            else r.additionFlags.formdata } }
      match find contentType (Bytes.ofAscii "boundary=") (beg + 10) with
      | some pos => { marked with boundary := contentType.drop (pos + 9) }
      | none => marked
    | none =>
      if (find contentType (Bytes.ofAscii "application/x-www-form-urlencoded")).isSome then
        { r with additionFlags := { r.additionFlags with formurlencoded := true } }
      else if (find contentType (Bytes.ofAscii "application/octet-stream")).isSome then
        { r with additionFlags := { r.additionFlags with octetstream := true } }
      else r

/-- The body is swapped with the buffer. -/
def setBody (r : Request) (body : Bytes) : Request × Bytes := ({ r with body := body }, r.body)

/-- Only the cookies are set. -/
theorem transferHeadersToCookies_frame (r : Request) :
    ∃ cookies, r.transferHeadersToCookies = { r with cookies := cookies } := by
  rw [transferHeadersToCookies]
  split
  · exact ⟨_, rfl⟩
  · exact ⟨_, rfl⟩

/-- Only flags and the boundary are set. -/
theorem parseContentType_frame (r : Request) :
    ∃ flags boundary,
      r.parseContentType = { r with additionFlags := flags, boundary := boundary } := by
  simp only [parseContentType]
  split
  · exact ⟨_, _, rfl⟩
  · split
    · split
      · exact ⟨_, _, rfl⟩
      · exact ⟨_, _, rfl⟩
    · split
      · exact ⟨_, _, rfl⟩
      · split
        · exact ⟨_, _, rfl⟩
        · exact ⟨_, _, rfl⟩

end Request
end Da4qi4
