import Da4qi4.Foundation.LexicalPath
import Da4qi4.Foundation.PrefixMap
import Da4qi4.Http.Request
import Da4qi4.Http.Response
import Da4qi4.Intercepters.Context

/-! The interceptor that serves files. It takes a request over by storing the path
of a file, and answers with it on the way back. The file system and the templates
are known by what they do. -/
namespace Da4qi4
open Utilities
namespace Intercepter

inductive PathResolve where
  | isRelative | isAbsolute
  deriving DecidableEq, Repr

/-- What `CompareDESC` compares: greater strings come first. -/
def descending (m : Bytes) : OrderDual (List Nat) := OrderDual.toDual (m.map UInt8.toNat)

structure StaticFile where
  cacheMaxAge : Int := 300
  urlResolveType : PathResolve := .isRelative
  dirResolveType : PathResolve := .isRelative
  rootEntries : OrderedMap descending Bytes := .empty
  defaultFilenames : List Bytes := []

/-- The data of the context under the name `static-file`. -/
structure StatusData where
  found : Bool
  file : Bytes
  deriving DecidableEq, Repr

/-- The directory of an entry, and the part of the target that goes below it. -/
structure Located where
  dirRoot : Bytes
  sub : Bytes
  deriving DecidableEq, Repr

/-- `none` of `isThere` is an exception; a file that cannot be opened has no
content. -/
structure FileSystem where
  hasFilename : Bytes → Bool
  filename : Bytes → Bytes
  extension : Bytes → Bytes
  isThere : Bytes → Option Bool
  content : Bytes → Option Bytes
  getMIMEType : Bytes → Bytes
  renderStatus : Nat → Response → Response

/-- What an interceptor leaves behind, and how it answers if it does. -/
structure Served where
  data : Option StatusData
  response : Response
  result : Option Result

namespace StaticFile

def addEntry (s : StaticFile) (urlRoot : Bytes) (dirRoot : Bytes := []) : StaticFile :=
  { s with rootEntries := s.rootEntries.insert urlRoot (if dirRoot = [] then urlRoot else dirRoot) }

def addDefaultFileName (s : StaticFile) (indexFilename : Bytes) : StaticFile :=
  if indexFilename ∈ s.defaultFilenames then s
  else { s with defaultFilenames := s.defaultFilenames ++ [indexFilename] }

def urlStarts (s : StaticFile) (app : Application) (entry : Bytes × Bytes) : Bytes :=
  match s.urlResolveType with
  | .isRelative => app.urlRoot ++ entry.1
  | .isAbsolute => entry.1

def dirRoot (s : StaticFile) (app : Application) (entry : Bytes × Bytes) : Bytes :=
  match s.dirResolveType with
  | .isRelative => app.staticRootPath ++ entry.2
  | .isAbsolute => entry.2

/-- From a position up to the query. -/
def subPath (url : Bytes) (begPos : Nat) : Bytes :=
  match find url [63] begPos with
  | some endPos => (url.drop begPos).take (endPos - begPos)
  | none => url.drop begPos

/-- The first entry that the target starts with. -/
def locate (s : StaticFile) (app : Application) (url : Bytes) : Option Located :=
  (s.rootEntries.entries.find? fun entry => iStartsWith url (s.urlStarts app entry)).map
    fun entry => ⟨s.dirRoot app entry, subPath url (s.urlStarts app entry).length⟩

def onRequest (s : StaticFile) (app : Application) (request : Request) : Option StatusData :=
  if request.method ≠ httpGet then none
  else
    (s.locate app request.url.full).map fun located =>
      ⟨true, LexicalPath.join located.dirRoot located.sub⟩

/-- The default file of a directory. -/
def findDefault (fs : FileSystem) (dstFile : Bytes) : List Bytes → Option (Option Bytes)
  | [] => some none
  | fn :: rest =>
    (fs.isThere (LexicalPath.join dstFile fn)).bind fun there =>
      if there then some (some (LexicalPath.join dstFile fn)) else findDefault fs dstFile rest

/-- The file to send, or nothing; `none` is an exception. -/
def locateFile (fs : FileSystem) (s : StaticFile) (dstFile : Bytes) : Option (Option Bytes) :=
  if fs.hasFilename dstFile ∧ fs.filename dstFile ≠ LexicalPath.dot then
    (fs.isThere dstFile).map fun there => if there then some dstFile else none
  else findDefault fs dstFile s.defaultFilenames

def maxByteReadOneTime : Nat := 1024 * 10

def maxByteOneChunkedBody : Nat := 1024 * 100

/-- One turn of the loop: what was read is added, and sent once it is enough. -/
def readOneTime (s : Bytes × Response) (read : Bytes) : Bytes × Response :=
  let body := s.1 ++ read
  if maxByteOneChunkedBody < body.length then ([], s.2.pushChunkedBody body false) else (body, s.2)

def sendContent (response : Response) (content : Bytes) : Response :=
  let sent := (content.toChunks maxByteReadOneTime).foldl readOneTime ([], response)
  let response := if sent.1 ≠ [] then sent.2.pushChunkedBody sent.1 false else sent.2
  response.pushChunkedBody [] true

def cacheControlField : Bytes := Bytes.ofAscii "Cache-Control"

def cacheControlMaxAge (response : Response) (maxAgeSeconds : Int) : Response :=
  response.appendHeader cacheControlField
    (Bytes.ofAscii "public, max-age=" ++ Bytes.ofAscii (toString maxAgeSeconds))

def sendFile (fs : FileSystem) (s : StaticFile) (response : Response) (dstFile content : Bytes) :
    Response :=
  let contentType := fs.getMIMEType (fs.extension dstFile)
  let response := if contentType ≠ [] then response.setContentType contentType else response
  sendContent (cacheControlMaxAge response s.cacheMaxAge).markChunked content

/-- A stored path that is empty is a bad request, which is not answered. -/
def onResponse (fs : FileSystem) (s : StaticFile) (data : Option StatusData) (response : Response) :
    Served :=
  match data with
  | none => ⟨data, response, some .pass⟩
  | some status =>
    if ¬status.found then ⟨data, response, some .pass⟩
    else if status.file = [] then ⟨data, fs.renderStatus 400 response, none⟩
    else
      match s.locateFile fs status.file with
      | none => ⟨data, fs.renderStatus 500 response, some .pass⟩
      | some none => ⟨data, fs.renderStatus 404 response, some .pass⟩
      | some (some dstFile) =>
        match fs.content dstFile with
        | none => ⟨data, fs.renderStatus 500 response, some .pass⟩
        | some content => ⟨none, s.sendFile fs response dstFile content, some .pass⟩

theorem onResponse_silent {fs : FileSystem} {s : StaticFile} {data : Option StatusData}
    {response : Response} (silent : (s.onResponse fs data response).result ≠ some .pass) :
    (s.onResponse fs data response).result = none := by
  revert silent
  rw [onResponse.eq_def]
  split
  · intro silent
    exact absurd rfl silent
  · split
    · intro silent
      exact absurd rfl silent
    · split
      · intro _
        rfl
      · split
        · intro silent
          exact absurd rfl silent
        · intro silent
          exact absurd rfl silent
        · split
          · intro silent
            exact absurd rfl silent
          · intro silent
            exact absurd rfl silent

/-- An invocation is not answered when the stored path is empty. -/
theorem onResponse_passes (fs : FileSystem) (s : StaticFile) (data : Option StatusData)
    (response : Response) :
    (s.onResponse fs data response).result = some .pass ↔
      ∀ status, data = some status → status.found = true → status.file ≠ [] := by
  cases data with
  | none => simp [onResponse]
  | some status =>
    obtain ⟨found, file⟩ := status
    cases found with
    | false => simp [onResponse]
    | true =>
      by_cases empty : file = []
      · simp [onResponse, empty]
      · simp only [onResponse, not_true_eq_false, if_false, if_neg empty]
        refine iff_of_true ?_ ?_
        · split
          · rfl
          · rfl
          · split
            · rfl
            · rfl
        · rintro _ ⟨⟩ -
          exact empty

/-- The file that is stored for a request lies in the directory of its entry
exactly if the rest of the target goes back as far as it climbs out. -/
theorem stored_inside_iff (s : StaticFile) (app : Application) (request : Request)
    (isGet : request.method = httpGet) (selected : s.locate app request.url.full = some located) :
    ∃ status, s.onRequest app request = some status ∧
      (LexicalPath.Inside located.dirRoot status.file ↔
        LexicalPath.Returns located.dirRoot located.sub) := by
  refine ⟨⟨true, LexicalPath.join located.dirRoot located.sub⟩, ?_,
    LexicalPath.inside_join_iff located.dirRoot located.sub⟩
  rw [onRequest, if_neg (not_not.mpr isGet), selected]
  rfl

def staticEntry : StaticFile :=
  addEntry { urlResolveType := .isAbsolute, dirResolveType := .isAbsolute }
    (Bytes.ofAscii "/static/") (Bytes.ofAscii "/srv/www/")

theorem stored_inside_iff_plain :
    ∃ status, staticEntry.onRequest .root
        { url := { full := Bytes.ofAscii "/static/a/../b?c" } } = some status ∧
      LexicalPath.Inside (Bytes.ofAscii "/srv/www/") status.file := by
  have selected : staticEntry.locate .root (Bytes.ofAscii "/static/a/../b?c") =
      some ⟨Bytes.ofAscii "/srv/www/", Bytes.ofAscii "a/../b"⟩ := by decide
  obtain ⟨status, stored, inside⟩ := stored_inside_iff staticEntry .root
    { url := { full := Bytes.ofAscii "/static/a/../b?c" } } rfl selected
  exact ⟨status, stored, inside.mpr (by decide)⟩

/-- The target climbs out of the directory. -/
theorem static_climbs :
    ∃ status, staticEntry.onRequest .root
        { url := { full := Bytes.ofAscii "/static/../../etc/passwd" } } = some status ∧
      ¬LexicalPath.Inside (Bytes.ofAscii "/srv/www/") status.file :=
  ⟨_, rfl, by decide⟩

/-- The entry that the loop stops at. The entries come in the order of their octets, and are
compared without regard to case: a root that is not the longest may come first. -/
def entryFor (s : StaticFile) (app : Application) (url : Bytes) : Option (Bytes × Bytes) :=
  s.rootEntries.entries.find? fun entry => iStartsWith url (s.urlStarts app entry)

/-- The entry has a root that begins the target, and none that does is longer. -/
structure Longest (s : StaticFile) (app : Application) (url : Bytes) (entry : Bytes × Bytes) :
    Prop where
  stored : entry ∈ s.rootEntries.entries
  begins : iStartsWith url (s.urlStarts app entry) = true
  longest : ∀ other ∈ s.rootEntries.entries, iStartsWith url (s.urlStarts app other) = true →
    (s.urlStarts app other).length ≤ (s.urlStarts app entry).length

/-- The path below the directory of an entry. -/
def fileOf (s : StaticFile) (app : Application) (url : Bytes) (entry : Bytes × Bytes) : Bytes :=
  LexicalPath.join (s.dirRoot app entry) (subPath url (s.urlStarts app entry).length)

/-- If some root begins the target, the entry with the longest one serves it. -/
def ServesLongest (s : StaticFile) (app : Application) (request : Request) : Prop :=
  (∃ entry ∈ s.rootEntries.entries,
    iStartsWith request.url.full (s.urlStarts app entry) = true) →
  ∃ entry, s.Longest app request.url.full entry ∧
    s.entryFor app request.url.full = some entry ∧
    s.onRequest app request = some ⟨true, s.fileOf app request.url.full entry⟩

/-- Each root that begins the target, and is not the longest one that does, comes behind
a longer one. -/
def LongerFirst (s : StaticFile) (app : Application) (url : Bytes) : Prop :=
  ∀ entry ∈ s.rootEntries.entries, iStartsWith url (s.urlStarts app entry) = true →
    ∀ other ∈ s.rootEntries.entries, iStartsWith url (s.urlStarts app other) = true →
      (s.urlStarts app entry).length < (s.urlStarts app other).length →
        ∃ longer ∈ s.rootEntries.entries, iStartsWith url (s.urlStarts app longer) = true ∧
          (s.urlStarts app entry).length < (s.urlStarts app longer).length ∧
          descending longer.1 < descending entry.1

theorem onRequest_eq_fileOf (s : StaticFile) (app : Application) (request : Request)
    (isGet : request.method = httpGet) :
    s.onRequest app request =
      (s.entryFor app request.url.full).map fun entry =>
        ⟨true, s.fileOf app request.url.full entry⟩ := by
  simp only [onRequest, isGet, ne_eq, not_true_eq_false, if_false, locate, Option.map_map]
  rfl

theorem entryFor_some {s : StaticFile} {app : Application} {url : Bytes} {entry : Bytes × Bytes}
    (found : s.entryFor app url = some entry) :
    entry ∈ s.rootEntries.entries ∧ iStartsWith url (s.urlStarts app entry) = true := by
  constructor
  · exact List.mem_of_find?_eq_some found
  · exact List.find?_some (p := fun entry => iStartsWith url (s.urlStarts app entry)) found

theorem entryFor_of_begins {s : StaticFile} {app : Application} {url : Bytes}
    {entry : Bytes × Bytes} (member : entry ∈ s.rootEntries.entries)
    (begins : iStartsWith url (s.urlStarts app entry) = true) :
    ∃ first, s.entryFor app url = some first := by
  apply Option.isSome_iff_exists.mp
  rw [entryFor, List.find?_isSome]
  exact ⟨entry, member, begins⟩

theorem servesLongest_iff (s : StaticFile) (app : Application) (request : Request)
    (isGet : request.method = httpGet) :
    s.ServesLongest app request ↔ s.LongerFirst app request.url.full := by
  have ordered := OrderedMap.find?_largest_iff s.rootEntries
    (fun entry => iStartsWith request.url.full (s.urlStarts app entry))
    fun entry => (s.urlStarts app entry).length
  refine Iff.trans ?_ ordered
  constructor
  · intro serves first found
    obtain ⟨member, begins⟩ := entryFor_some found
    obtain ⟨entry, longest, selected, -⟩ := serves ⟨first, member, begins⟩
    have same : first = entry := Option.some.inj (found.symm.trans selected)
    rw [same]
    exact longest.longest
  · rintro largest ⟨entry, member, begins⟩
    obtain ⟨first, found⟩ := entryFor_of_begins member begins
    obtain ⟨stored, fits⟩ := entryFor_some found
    refine ⟨first, ⟨stored, fits, largest first found⟩, found, ?_⟩
    rw [onRequest_eq_fileOf s app request isGet, found]
    rfl

/-- Roots written like the target come in the order of their lengths. -/
theorem longerFirst_of_prefixes {s : StaticFile} {app : Application} {url : Bytes}
    (written : ∀ entry ∈ s.rootEntries.entries, iStartsWith url (s.urlStarts app entry) = true →
      s.urlStarts app entry <+: url) : s.LongerFirst app url := by
  intro entry member begins other known fits shorter
  refine ⟨other, known, fits, shorter, ?_⟩
  have within : s.urlStarts app entry <+: s.urlStarts app other :=
    List.prefix_of_prefix_length_le (written entry member begins) (written other known fits)
      shorter.le
  have keys : entry.1 <+: other.1 := by
    simp only [urlStarts] at within
    split at within
    · exact (List.prefix_append_right_inj _).mp within
    · exact within
  have apart : entry.1 ≠ other.1 := by
    intro same
    apply shorter.ne
    simp only [urlStarts, same]
  have octets : entry.1.map UInt8.toNat <+: other.1.map UInt8.toNat := keys.map _
  refine OrderDual.toDual_lt_toDual.mpr (lt_of_le_of_ne (not_lt.mp octets.le) ?_)
  intro same
  exact apart (Bytes.octets_inj.mp same)

def mixedEntries : StaticFile :=
  addEntry (addEntry { urlResolveType := .isAbsolute, dirResolveType := .isAbsolute }
    (Bytes.ofAscii "/A/B/") (Bytes.ofAscii "/srv/inner/"))
    (Bytes.ofAscii "/a/") (Bytes.ofAscii "/srv/outer/")

/-- The second root is below the first. -/
def nestedEntries : StaticFile :=
  addEntry staticEntry (Bytes.ofAscii "/static/css/") (Bytes.ofAscii "/srv/style/")

theorem servesLongest_iff_plain :
    nestedEntries.ServesLongest .root { url := { full := Bytes.ofAscii "/static/css/x" } } :=
  (servesLongest_iff nestedEntries .root { url := { full := Bytes.ofAscii "/static/css/x" } } rfl).mpr
    (longerFirst_of_prefixes (by decide))

/-- `/a/b/x` is taken from the directory of `/a/`, though `/A/B/` begins it too. -/
theorem mixed_serves_shorter :
    mixedEntries.onRequest .root { url := { full := Bytes.ofAscii "/a/b/x" } } =
        some ⟨true, Bytes.ofAscii "/srv/outer/b/x"⟩ ∧
      ¬mixedEntries.ServesLongest .root { url := { full := Bytes.ofAscii "/a/b/x" } } := by
  constructor
  · decide
  · intro serves
    obtain ⟨entry, longest, selected, -⟩ :=
      serves ⟨(Bytes.ofAscii "/a/", Bytes.ofAscii "/srv/outer/"), by decide, by decide⟩
    have first : entry = (Bytes.ofAscii "/a/", Bytes.ofAscii "/srv/outer/") := by
      have stops : mixedEntries.entryFor .root (Bytes.ofAscii "/a/b/x") =
          some (Bytes.ofAscii "/a/", Bytes.ofAscii "/srv/outer/") := by decide
      exact Option.some.inj (selected.symm.trans stops)
    subst first
    have notShorter := longest.longest (Bytes.ofAscii "/A/B/", Bytes.ofAscii "/srv/inner/")
      (by decide) (by decide)
    exact absurd notShorter (by decide)

end StaticFile
end Intercepter
end Da4qi4
