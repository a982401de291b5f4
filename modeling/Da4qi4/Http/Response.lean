import Da4qi4.Utilities.Strings

/-! Responses, without their cookies. -/
namespace Da4qi4
open Utilities

def daqiName : Bytes := Bytes.ofAscii "da4qi4"

def daqiVersion : Bytes := Bytes.ofAscii "1.10"

def httpStatusSummary : Nat → String
  | 100 => "Continue"
  | 101 => "Switching Protocols"
  | 102 => "Processing"
  | 200 => "OK"
  | 201 => "Created"
  | 202 => "Accepted"
  | 203 => "Non - Authoritative Information"
  | 204 => "No Content"
  | 205 => "Reset Content"
  | 206 => "Partial Content"
  | 207 => "Multi - Status"
  | 208 => "Already Reported"
  | 226 => "IM Used"
  | 300 => "Multiple Choices"
  | 301 => "Moved Permanently"
  | 302 => "Found"
  | 303 => "See Other"
  | 304 => "Not Modified"
  | 305 => "Use Proxy"
  | 307 => "Temporary Redirect"
  | 308 => "Permanent Redirect"
  | 400 => "Bad Request"
  | 401 => "Unauthorized"
  | 402 => "Payment Required"
  | 403 => "Forbidden"
  | 404 => "Not Found"
  | 405 => "Method Not Allowed"
  | 406 => "Not Acceptable"
  | 407 => "Proxy Authentication Required"
  | 408 => "Request Timeout"
  | 409 => "Conflict"
  | 410 => "Gone"
  | 411 => "Length Required"
  | 412 => "Precondition Failed"
  | 413 => "Payload Too Large"
  | 414 => "URI Too Long"
  | 415 => "Unsupported Media Type"
  | 416 => "Range Not Satisfiable"
  | 417 => "Expectation Failed"
  | 421 => "Misdirected Request"
  | 422 => "Unprocessable Entity"
  | 423 => "Locked"
  | 424 => "Failed Dependency"
  | 426 => "Upgrade Required"
  | 428 => "Precondition Required"
  | 429 => "Too Many Requests"
  | 431 => "Request Header Fields Too Large"
  | 451 => "Unavailable For Legal Reasons"
  | 500 => "Internal Server Error"
  | 501 => "Not Implemented"
  | 502 => "Bad Gateway"
  | 503 => "Service Unavailable"
  | 504 => "Gateway Timeout"
  | 505 => "HTTP Version Not Supported"
  | 506 => "Variant Also Negotiates"
  | 507 => "Insufficient Storage"
  | 508 => "Loop Detected"
  | 510 => "Not Extended"
  | 511 => "Network Authentication Required"
  | _ => ""

/-- `DecIntToHexStr`: upper case, the most significant digit first. -/
def decIntToHexStr (num : Nat) : Bytes :=
  (Nat.toDigits 16 num).map fun digit => toUpper digit.toNat.toUInt8

def chunkEnd : Bytes := Bytes.ofAscii "0\r\n\r\n"

def chunk (body : Bytes) : Bytes := decIntToHexStr body.length ++ [13, 10] ++ body ++ [13, 10]

structure Response where
  statusCode : Nat := 200
  headers : ICHeaders
  body : Bytes := []
  charset : Bytes := Bytes.ofAscii "UTF-8"
  versionMajor : Nat := 1
  versionMinor : Nat := 1
  chunkedBodies : List (Bytes × Bool) := []
  deriving DecidableEq

namespace Response

def serverHeader : ICHeaders :=
  OrderedMap.empty.assign (Bytes.ofAscii "Server") (daqiName ++ [47] ++ daqiVersion)

def constructed : Response := { headers := serverHeader }

/-- Everything goes back to what a constructed response has. -/
def reset (_ : Response) : Response := constructed

def appendHeader (r : Response) (field value : Bytes) : Response :=
  { r with headers := r.headers.assign field value }

def tryGetHeader (r : Response) (field : Bytes) : Option Bytes :=
  Utilities.tryGetHeader r.headers field

def splitContentTypeValue (value : Bytes) : Bytes × Bytes :=
  match find value (Bytes.ofAscii " ;") with
  | some pos => (value.take pos, value.drop (pos + 2))
  | none => (value, [])

def isContentTypeNeedCharset (contentType : Bytes) : Bool :=
  iStartsWith contentType (Bytes.ofAscii "text/")

def contentTypeField : Bytes := Bytes.ofAscii "Content-Type"

def charsetParameter (charset : Bytes) : Bytes := Bytes.ofAscii "; charset=" ++ charset

def setContentType (r : Response) (contentType : Bytes) : Response :=
  r.appendHeader contentTypeField
    (if isContentTypeNeedCharset contentType ∧ r.charset ≠ [] then
      contentType ++ charsetParameter r.charset
    else contentType)

def setContentTypeAndCharset (r : Response) (contentType charset : Bytes) : Response :=
  r.appendHeader contentTypeField (contentType ++ charsetParameter charset)

def setCharset (r : Response) (charset : Bytes) : Response :=
  let r := { r with charset := charset }
  match r.tryGetHeader contentTypeField with
  | none => r
  | some value =>
    let pair := splitContentTypeValue value
    if charset ≠ pair.2 ∧ isContentTypeNeedCharset pair.1 then
      r.setContentTypeAndCharset pair.1 charset
    else r

def setOrDefaultBody (r : Response) (body : Bytes) : Response :=
  if body ≠ [] then { r with body := body }
  else { r.setContentType (Bytes.ofAscii "text/plain") with
    body := Bytes.ofAscii (httpStatusSummary r.statusCode) }

def replyStatus (r : Response) (code : Nat) (body : Bytes := []) : Response :=
  { r with statusCode := code }.setOrDefaultBody body

def replyContinue (r : Response) : Response := { r with statusCode := 100 }

def replyNofound (r : Response) (body : Bytes := []) : Response := r.replyStatus 404 body

def replyPayloadTooLarge (r : Response) (body : Bytes := []) : Response := r.replyStatus 413 body

def setVersion (r : Response) (major minor : Nat) : Response :=
  { r with versionMajor := major, versionMinor := minor }

def connectionField : Bytes := Bytes.ofAscii "Connection"

def keepAliveValue : Bytes := Bytes.ofAscii "keep-alive"

def closeValue : Bytes := Bytes.ofAscii "close"

def markKeepAlive (r : Response) : Response := r.appendHeader connectionField keepAliveValue

def markClose (r : Response) : Response := r.appendHeader connectionField closeValue

/-- Versions up to 1.0. -/
def isOld (major minor : Nat) : Bool := major < 1 || (major == 1 && minor == 0)

def isKeepAlive (r : Response) : Bool :=
  let value := r.tryGetHeader connectionField
  if isOld r.versionMajor r.versionMinor then value.any fun value => iEquals value keepAliveValue
  else value.all fun value => !iEquals value closeValue

def isClose (r : Response) : Bool := !r.isKeepAlive

theorem tryGetHeader_appendHeader (r : Response) (field value : Bytes) :
    (r.appendHeader field value).tryGetHeader field = some value := by
  simp only [appendHeader, tryGetHeader, Utilities.tryGetHeader, OrderedMap.lookup,
    OrderedMap.find_assign_self, Option.map_some]

/-- The mark is what decides, whatever the version. -/
theorem markKeepAlive_isKeepAlive (r : Response) : r.markKeepAlive.isKeepAlive = true := by
  have kept : iEquals keepAliveValue keepAliveValue = true := by decide
  have staysOpen : iEquals keepAliveValue closeValue = false := by decide
  simp only [isKeepAlive, markKeepAlive, tryGetHeader_appendHeader, Option.any_some,
    Option.all_some, kept, staysOpen, Bool.not_false, ite_self]

theorem markClose_isKeepAlive (r : Response) : r.markClose.isKeepAlive = false := by
  have kept : iEquals closeValue keepAliveValue = false := by decide
  have closed : iEquals closeValue closeValue = true := by decide
  simp only [isKeepAlive, markClose, tryGetHeader_appendHeader, Option.any_some, Option.all_some,
    kept, closed, Bool.not_true, ite_self]

def transferEncodingField : Bytes := Bytes.ofAscii "Transfer-Encoding"

def chunkedValue : Bytes := Bytes.ofAscii "chunked"

def isChunked (r : Response) : Bool :=
  (r.tryGetHeader transferEncodingField).any fun value => iEquals value chunkedValue

def markChunked (r : Response) : Response :=
  let r := r.appendHeader transferEncodingField chunkedValue
  if r.versionMajor < 1 ∨ r.versionMinor < 1 then r.setVersion 1 1 else r

def pushChunkedBody (r : Response) (body : Bytes) (isLast : Bool) : Response :=
  { r with chunkedBodies := r.chunkedBodies ++
      if isLast then [(chunkEnd, false), ([], true)] else [(chunk body, false)] }

/-- The front, with whether it is the end mark; nothing when there is none. -/
def popChunkedBody (r : Response) : (Bytes × Bool) × Response :=
  match r.chunkedBodies with
  | [] => (([], false), r)
  | front :: rest => (front, { r with chunkedBodies := rest })

end Response
end Da4qi4
