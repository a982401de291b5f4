import Da4qi4.Http.ConnectionReading
import Da4qi4.Http.UrlParser
import Da4qi4.Server.ApplicationMgr

/-! The target of a request on its way to an application: parsed, looked up by its path,
and cut behind the root of what is found. A target that is not parsed is looked up by
the path that an earlier message has left. -/
namespace Da4qi4
open Utilities

/-- The applications of a server, with their other settings. -/
def Environment.serving (env : Environment) (s : ApplicationMgr)
    (object : ApplicationPtr → Application) : Environment :=
  { env with
    ndebug := s.ndebug
    parseUrl := UrlParser.parseUrl
    findByURL := fun url =>
      (s.findByURL url).map fun app => { object app with urlRoot := app.urlRoot } }

theorem iStartsWith_of_front {path target root : Bytes} (front : path <+: target)
    (begins : iStartsWith path root = true) : iStartsWith target root = true := by
  rw [iStartsWith_iff] at begins ⊢
  exact begins.trans (front.map _)

theorem iStartsWith_length {m s : Bytes} (begins : iStartsWith m s = true) :
    s.length ≤ m.length := by
  have shorter := ((iStartsWith_iff m s).mp begins).length_le
  rwa [foldCase_length, foldCase_length] at shorter

namespace ApplicationMgr

/-- A mounted application whose root is the longest that begins a path. -/
structure Longest (s : ApplicationMgr) (path : Bytes) (app : ApplicationPtr) : Prop where
  mounted : app ∈ s.applications
  begins : iStartsWith path app.urlRoot = true
  longest : ∀ other ∈ s.applications, iStartsWith path other.urlRoot = true →
    other = app ∨ other.urlRoot.length < app.urlRoot.length

/-- The longest root that begins the path begins the target. Where there is none, the
abortive application needs a slash in front of both. -/
structure Rooted (s : ApplicationMgr) (target path : Bytes) : Prop where
  mounted : ∀ app, s.Longest path app → iStartsWith target app.urlRoot = true
  abortive : (∀ app ∈ s.applications, iStartsWith path app.urlRoot = false) → s.ndebug = true →
    iStartsWith target slash = true ∧ iStartsWith path slash = true

/-- The root of what is found begins both. -/
def FindsRoot (s : ApplicationMgr) (target path : Bytes) : Prop :=
  ∀ app, s.findByURL path = some app →
    iStartsWith target app.urlRoot = true ∧ iStartsWith path app.urlRoot = true

theorem findsRoot_iff (s : ApplicationMgr) (target path : Bytes) :
    s.FindsRoot target path ↔ s.Rooted target path := by
  obtain ⟨found, unfound⟩ := s.findByURL_longest path
  by_cases some_ : ∃ app ∈ s.applications, iStartsWith path app.urlRoot = true
  · obtain ⟨app, mounted, begins⟩ := some_
    obtain ⟨longest, member, finds, fits, others⟩ := found app mounted begins
    constructor
    · intro finder
      refine ⟨fun other known => ?_, fun none => ?_⟩
      · have same : longest = other := by
          rcases known.longest longest member fits with same | shorter
          · exact same
          · rcases others other known.mounted known.begins with same | longer
            · exact same.symm
            · omega
        exact same ▸ (finder longest finds).1
      · have fails := none app mounted
        rw [begins] at fails
        cases fails
    · intro rooted other finder
      cases finds.symm.trans finder
      exact ⟨rooted.mounted longest ⟨member, fits, others⟩, fits⟩
  · have none : ∀ app ∈ s.applications, iStartsWith path app.urlRoot = false :=
      fun app mounted => Bool.eq_false_iff.mpr fun begins => some_ ⟨app, mounted, begins⟩
    rw [FindsRoot, unfound.mpr none, noMatch]
    constructor
    · intro finder
      refine ⟨fun app known => absurd ⟨app, known.mounted, known.begins⟩ some_, fun _ ndebug => ?_⟩
      rw [if_pos ndebug] at finder
      exact finder .abortive rfl
    · intro rooted app finder
      split at finder
      · rename_i ndebug
        cases finder
        exact rooted.abortive none ndebug
      · cases finder

/-- A path in front of the target goes wrong only at the abortive application. -/
theorem rooted_of_front {s : ApplicationMgr} {target path : Bytes} (front : path <+: target) :
    s.Rooted target path ↔ s.ndebug = false ∨ iStartsWith path slash = true ∨
      ∃ app ∈ s.applications, iStartsWith path app.urlRoot = true := by
  constructor
  · intro rooted
    by_contra other
    obtain ⟨ndebug, unslashed, none⟩ := not_or.mp other |>.imp_right not_or.mp
    have slashed := rooted.abortive
      (fun app mounted => Bool.eq_false_iff.mpr fun begins => none ⟨app, mounted, begins⟩)
      (Bool.eq_true_of_not_eq_false ndebug)
    exact unslashed slashed.2
  · intro known
    refine ⟨fun app longest => iStartsWith_of_front front longest.begins, fun none ndebug => ?_⟩
    rcases known with debug | slashed | ⟨app, mounted, begins⟩
    · rw [ndebug] at debug
      cases debug
    · exact ⟨iStartsWith_of_front front slashed, slashed⟩
    · rw [none app mounted] at begins
      cases begins

end ApplicationMgr

namespace Url

/-- Where the root begins both, the assertions hold and the cut is made. -/
theorem underApplication_isSome {env : Environment} {url : Url} {root : Bytes}
    (full : iStartsWith url.full root = true) (path : iStartsWith url.path root = true) :
    (url.underApplication env root).isSome = true := by
  have inRange := And.intro (iStartsWith_length full) (iStartsWith_length path)
  rw [underApplication, full, path, Bool.and_self, Bool.or_true, if_pos ⟨rfl, inRange⟩]
  rfl

end Url

/-- The target of the message; one without a target has that of the message before. -/
def Reading.target (r : Reading) : Bytes :=
  if r.urlBuffer = [] then r.request.url.full else r.urlBuffer

namespace Connection

/-- When `on_headers_complete` finds an application, `UnderApplication` gets a target and
a path that begin with its root, and returns. -/
def Placed (env : Environment) (c : Connection) (p : ParserFields) : Prop :=
  ∀ app, routes env (c.headerParsed env p).request = some app →
    iStartsWith (c.headerParsed env p).request.url.full app.urlRoot = true ∧
      iStartsWith (c.headerParsed env p).request.url.path app.urlRoot = true ∧
      ((c.headerParsed env p).request.url.underApplication env app.urlRoot).isSome = true

/-- A schema or a host is left from an earlier message, the target has a host, the path
of the target begins with a root, or the path that is left leads to one that begins the
target. -/
def Cuttable (s : ApplicationMgr) (c : Connection) : Prop :=
  c.request.url.schema ≠ [] ∨ c.request.url.host ≠ [] ∨
    match UrlParser.parseUrl c.urlBuffer with
    | some parts => parts.host.isSome = true ∨ ∀ path ∈ parts.path,
        s.ndebug = false ∨ iStartsWith path slash = true ∨
          ∃ app ∈ s.applications, iStartsWith path app.urlRoot = true
    | none => s.Rooted c.target c.request.url.path

/-- The parsed target is looked up unless it has a schema or a host. -/
theorem placed_iff_findsRoot (env : Environment) (s : ApplicationMgr)
    (object : ApplicationPtr → Application) {c : Connection} {p : ParserFields} {url : Url}
    (parsed : (c.headerParsed (env.serving s object) p).request.url = url) :
    Placed (env.serving s object) c p ↔
      (url.schema ≠ [] ∨ url.host ≠ []) ∨ s.FindsRoot url.full url.path := by
  subst parsed
  rw [Placed, routes]
  split
  · rename_i absolute
    apply iff_of_true
    · intro app none
      cases none
    · exact .inl absolute
  · rename_i relative
    rw [or_iff_right relative, Environment.serving]
    constructor
    · intro placed app found
      obtain ⟨full, path, -⟩ := placed _ (Option.map_eq_some_iff.mpr ⟨app, found, rfl⟩)
      exact ⟨full, path⟩
    · intro finds app found
      obtain ⟨ptr, pointed, rfl⟩ := Option.map_eq_some_iff.mp found
      obtain ⟨full, path⟩ := finds ptr pointed
      exact ⟨full, path, Url.underApplication_isSome full path⟩

/-- In both build modes, for all applications and all states of the connection. -/
theorem placed_iff_cuttable (env : Environment) (s : ApplicationMgr)
    (object : ApplicationPtr → Application) (c : Connection) (p : ParserFields) :
    Placed (env.serving s object) c p ↔ Cuttable s c := by
  have parsed (target : Bytes) :
      (env.serving s object).parseUrl target = UrlParser.parseUrl target := rfl
  rw [placed_iff_findsRoot env s object (Reading.headerParsed_spec _ c.toReading p).url, Cuttable,
    Reading.target]
  by_cases none : c.urlBuffer = []
  · have unparsed : UrlParser.parseUrl [] = Option.none := rfl
    rw [if_neg (not_not.mpr none), if_pos none, none, unparsed, or_assoc,
      ApplicationMgr.findsRoot_iff]
  · rw [if_pos none, if_neg none, Url.parse, parsed]
    cases found : UrlParser.parseUrl c.urlBuffer with
    | none => rw [or_assoc, ApplicationMgr.findsRoot_iff]
    | some parts =>
      rcases UrlParser.parseUrl_cases found with ⟨host, named, filled⟩ | ⟨schema, host, path, set, front⟩
      · apply iff_of_true
        · refine .inl (.inr ?_)
          change parts.host.getD c.request.url.host ≠ []
          rw [named]
          exact filled
        · refine .inr (.inr (.inl ?_))
          rw [named]
          rfl
      · simp only [schema, host, set, Option.getD_none, Option.getD_some]
        rw [or_assoc, ApplicationMgr.findsRoot_iff, ApplicationMgr.rooted_of_front front]
        simp

/-- The asterisk of an `OPTIONS` request, on a connection that has just opened. -/
def asterisk : Connection := { toReading := Reading.onUrl {} [42] }

/-- With `NDEBUG` it goes to the abortive application, whose root does not begin it. -/
theorem asterisk_unplaced :
    ¬Placed ((Environment.single .root).serving ((ApplicationMgr.initial true).createDefault)
      fun _ => .root) asterisk { method := 6, httpMajor := 1, httpMinor := 1 } := by
  intro placed
  obtain ⟨full, -, -⟩ := placed .root rfl
  revert full
  decide

end Connection
end Da4qi4
