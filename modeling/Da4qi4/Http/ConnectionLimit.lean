import Da4qi4.Http.ConnectionReading
import Da4qi4.Http.MultipartParser

/-! How much of a body is held before its handler runs. Every piece is checked together
with the buffer; a body of parts leaves the buffer after every piece, and what is held of
its parts is checked by nobody. A run is the callbacks of one message: no interim write
completes between two pieces of its body. -/
namespace Da4qi4
open Utilities

namespace Reading

/-- Data of the parts that were read, and of the one that is being read. -/
def partsHeld (r : Reading) : Nat :=
  r.readingPartBuffer.length + (r.request.multiparts.map fun part => part.data.length).sum

/-- With the end of a message the buffer becomes the body of the request. -/
def held (r : Reading) : Nat := r.bodyBuffer.length + r.request.body.length + r.partsHeld

def fedLength (r : Reading) : Nat := (r.mpParser.map fun p => p.fed.flatten.length).getD 0

/-- Octets of the body that are in the buffer or went to the parser of bodies. -/
def received (r : Reading) : Nat := r.bodyBuffer.length + r.fedLength

/-- The parts have no more than what the parser was given and does not keep. -/
def PartsFed (r : Reading) : Prop :=
  match r.mpParser with
  | none => r.partsHeld = 0
  | some p =>
    r.partsHeld + (Multipart.behind p.boundary p.fed).kept 0 ≤ p.fed.flatten.length

theorem PartsFed.le {r : Reading} (fed : r.PartsFed) : r.partsHeld ≤ r.fedLength := by
  rw [fedLength]
  rw [PartsFed] at fed
  split at fed
  · rename_i none
    rw [none, fed]
    exact Nat.zero_le _
  · rename_i p some_
    rw [some_, Option.map_some, Option.getD_some]
    exact Nat.le_of_add_right_le fed

/-- What the parser of bodies touches. -/
def Parted (r s : Reading) : Prop :=
  ∃ headerPart field value part buffer parts, s = { r with
    readingHeaderPart := headerPart
    readingHeaderField := field
    readingHeaderValue := value
    readingPart := part
    readingPartBuffer := buffer
    request := { r.request with multiparts := parts } }

theorem Parted.trans {r s t : Reading} (first : r.Parted s) (second : s.Parted t) :
    r.Parted t := by
  obtain ⟨_, _, _, _, _, _, rfl⟩ := first
  obtain ⟨_, _, _, _, _, _, rfl⟩ := second
  exact ⟨_, _, _, _, _, _, rfl⟩

theorem parted_onMultipart (r : Reading) (callback : MultipartCallback) :
    r.Parted (r.onMultipart callback) ∧
      (r.onMultipart callback).partsHeld ≤ r.partsHeld + Multipart.octets [callback] := by
  have committed (next : ReadingHeaderPart) : r.Parted (r.tryCommitReadingPartHeader next) ∧
      (r.tryCommitReadingPartHeader next).partsHeld = r.partsHeld := by
    rw [tryCommitReadingPartHeader]
    split
    · exact ⟨⟨_, _, _, _, _, _, rfl⟩, rfl⟩
    · exact ⟨⟨_, _, _, _, _, _, rfl⟩, rfl⟩
  cases callback with
  | headerField data =>
    obtain ⟨parted, same⟩ := committed .headerFieldPart
    constructor
    · exact parted.trans ⟨_, _, _, _, _, _, rfl⟩
    · exact Nat.le_of_eq same
  | headersComplete =>
    obtain ⟨parted, same⟩ := committed .headerNonePart
    exact ⟨parted, Nat.le_of_eq same⟩
  | headerValue data => exact ⟨⟨_, _, _, _, _, _, rfl⟩, Nat.le_refl _⟩
  | dataBegin =>
    refine ⟨⟨_, _, _, _, _, _, rfl⟩, ?_⟩
    change 0 + _ ≤ _ + 0
    exact Nat.add_le_add_right (Nat.zero_le _) _
  | data data =>
    refine ⟨⟨_, _, _, _, _, _, rfl⟩, ?_⟩
    simp only [partsHeld, onMultipart, Multipart.octets, List.length_append, List.map_cons,
      List.map_nil, List.sum_cons, List.sum_nil]
    omega
  | dataEnd =>
    refine ⟨⟨_, _, _, _, _, _, rfl⟩, ?_⟩
    simp only [partsHeld, onMultipart, List.map_append, List.sum_append, List.map_cons,
      List.map_nil, List.sum_cons, List.sum_nil, List.length_nil]
    omega
  | bodyEnd => exact ⟨⟨_, _, _, _, _, _, rfl⟩, Nat.le_refl _⟩

theorem parted_foldl (r : Reading) (made : List MultipartCallback) :
    r.Parted (made.foldl onMultipart r) ∧
      (made.foldl onMultipart r).partsHeld ≤ r.partsHeld + Multipart.octets made := by
  induction made generalizing r with
  | nil => exact ⟨⟨_, _, _, _, _, _, rfl⟩, Nat.le_refl _⟩
  | cons callback made ih =>
    obtain ⟨first, some_⟩ := r.parted_onMultipart callback
    obtain ⟨others, rest⟩ := ih (r.onMultipart callback)
    refine ⟨first.trans others, ?_⟩
    have split : Multipart.octets (callback :: made) =
        Multipart.octets [callback] + Multipart.octets made :=
      Multipart.octets_append [callback] made
    rw [List.foldl_cons, split]
    omega

theorem feed_some (env : Environment) {r : Reading} (known : r.mpParser = some p) :
    r.feedMultipartParser env.withMultipartParser =
      let executed := ((Multipart.behind p.boundary p.fed).execute r.bodyBuffer).2
      let s := executed.1.foldl onMultipart
        { r with mpParser := some { p with fed := p.fed ++ [r.bodyBuffer] } }
      if executed.2 ≠ s.bodyBuffer.length then (s, .mpParseFail)
      else ({ s with bodyBuffer := [] }, .mpParsing) := by
  rw [feedMultipartParser, known]
  rfl

/-- What the parser hands over is new or was kept by it. -/
theorem feed_cases (env : Environment) {r : Reading} (fed : r.PartsFed) :
    (r.mpParser = none ∧
        r.feedMultipartParser env.withMultipartParser = (r, .mpCannotInit)) ∨
      ∃ s parser, { r with mpParser := some parser }.Parted s ∧ s.PartsFed ∧
        s.fedLength = r.fedLength + r.bodyBuffer.length ∧
        (r.feedMultipartParser env.withMultipartParser = (s, .mpParseFail) ∨
          r.feedMultipartParser env.withMultipartParser =
            ({ s with bodyBuffer := [] }, .mpParsing)) := by
  cases known : r.mpParser with
  | none =>
    left
    refine ⟨rfl, ?_⟩
    rw [feedMultipartParser, known]
  | some p =>
    right
    have goes := feed_some env known
    simp only at goes
    have step := Multipart.Parser.octets_execute (Multipart.behind p.boundary p.fed) r.bodyBuffer
    have after := Multipart.behind_append p.boundary p.fed r.bodyBuffer
    generalize (Multipart.behind p.boundary p.fed).execute r.bodyBuffer = executed
      at step after goes
    obtain ⟨⟨_, _, _, _, _, _, same⟩, total⟩ := parted_foldl
      { r with mpParser := some { p with fed := p.fed ++ [r.bodyBuffer] } } executed.2.1
    generalize executed.2.1.foldl onMultipart _ = s at goes same total
    have given : (p.fed ++ [r.bodyBuffer]).flatten.length =
        p.fed.flatten.length + r.bodyBuffer.length := by
      rw [List.flatten_append, List.length_append, List.flatten_singleton]
    refine ⟨s, { p with fed := p.fed ++ [r.bodyBuffer] }, ⟨_, _, _, _, _, _, same⟩, ?_, ?_, ?_⟩
    · have parser : s.mpParser = some { p with fed := p.fed ++ [r.bodyBuffer] } := by
        rw [same]
      have total : s.partsHeld ≤ r.partsHeld + Multipart.octets executed.2.1 := total
      rw [PartsFed, known] at fed
      rw [PartsFed, parser]
      simp only [after, given] at fed ⊢
      omega
    · rw [same, fedLength, fedLength, known]
      exact given
    · rw [goes]
      split
      · exact .inl rfl
      · exact .inr rfl

/-- A boundary that is found starts a parser. -/
theorem tryFix_cases {r : Reading} (none : r.mpParser = none) : ∃ boundary parser,
    r.tryFixMultipartBadRequestWithoutBoundary = { r with
      request := { r.request with boundary := boundary }
      mpParser := parser } ∧
    (parser = .none ∨ ∃ name, parser = some { boundary := name }) := by
  have kept : ∃ boundary parser, r = { r with
      request := { r.request with boundary := boundary }
      mpParser := parser } ∧
      (parser = .none ∨ ∃ name, parser = some ({ boundary := name } : MultipartParser)) :=
    ⟨_, _, rfl, .inl none⟩
  rw [tryFixMultipartBadRequestWithoutBoundary]
  split
  · split
    · exact kept
    · exact ⟨_, _, if_pos none, .inr ⟨_, rfl⟩⟩
  · exact kept

/-- The body is read for an application. -/
structure Filling (app : Application) (r : Reading) : Prop where
  routed : r.app = some app
  body : r.request.body = []
  announced : r.request.contentLength / 1024 ≤ app.upoadMaxSizeLimitKB
  parts : r.PartsFed
  plain : r.request.isMultiPart = false → r.mpParser = none

variable {app : Application} {data : Bytes}

theorem Filling.small {r : Reading} (filling : Filling app r) (accepted : r.exceeds data = false) :
    r.bodyBuffer.length + data.length < (app.upoadMaxSizeLimitKB + 1) * 1024 := by
  rw [exceeds, filling.routed, Option.map_some, Option.getD_some,
    decide_eq_false_iff_not] at accepted
  omega

/-- A piece of a body of parts that the parser has been given, or that waits for one. -/
theorem parts_takeBody (env : Environment) {r : Reading} (filling : Filling app r)
    (multipart : r.request.isMultiPart = true) (data : Bytes) :
    ∃ s, (r.takeBody env.withMultipartParser data).1 = s ∧ s.app = some app ∧
      s.request.body = [] ∧ s.request.contentLength = r.request.contentLength ∧
      s.request.isMultiPart = true ∧ s.PartsFed ∧
      ((s.mpParser = none ∧ s.bodyBuffer = r.bodyBuffer ++ data) ∨
        (s.fedLength = r.received + data.length ∧ s.bodyBuffer =
          if (r.takeBody env.withMultipartParser data).2 = .refused then r.bodyBuffer ++ data
          else [])) := by
  let full : Reading := { r with bodyBuffer := r.bodyBuffer ++ data }
  obtain ⟨fixed, boundary, parser, started, same, fed, length⟩ : ∃ fixed boundary parser,
      (if full.mpParser = none then full.tryFixMultipartBadRequestWithoutBoundary else full) =
          fixed ∧
        fixed = { full with
          request := { full.request with boundary := boundary }
          mpParser := parser } ∧
        fixed.PartsFed ∧ fixed.fedLength = r.fedLength := by
    have known := filling.parts
    rw [PartsFed] at known
    by_cases absent : r.mpParser = none
    · rw [absent] at known
      obtain ⟨boundary, parser, same, found⟩ := tryFix_cases (r := full) absent
      rw [if_pos absent]
      refine ⟨_, boundary, parser, rfl, same, ?_⟩
      rw [same]
      have nothing : r.fedLength = 0 := by
        rw [fedLength, absent]
        rfl
      rw [nothing]
      rcases found with rfl | ⟨name, rfl⟩
      · exact ⟨known, rfl⟩
      · exact ⟨Nat.le_of_eq known, rfl⟩
    · rw [if_neg absent]
      exact ⟨full, _, _, rfl, rfl, filling.parts, rfl⟩
  have taken : r.takeBody env.withMultipartParser data =
      ((fixed.feedMultipartParser env.withMultipartParser).1,
        if (fixed.feedMultipartParser env.withMultipartParser).2 = .mpParseFail then .refused
        else .ok) := by
    rw [← started]
    exact if_pos multipart
  refine ⟨_, rfl, ?_⟩
  rw [taken]
  rcases feed_cases env fed with
    ⟨none, goes⟩ | ⟨s, p, ⟨_, _, _, _, _, _, parted⟩, partsFed, more, goes⟩
  · rw [goes]
    simp only
    rw [same] at none fed ⊢
    exact ⟨filling.routed, filling.body, rfl, multipart, fed, .inl ⟨none, rfl⟩⟩
  · have all : s.fedLength = r.received + data.length := by
      have buffer : fixed.bodyBuffer = r.bodyBuffer ++ data := by
        rw [same]
      rw [more, length, buffer, received, List.length_append]
      omega
    rw [same] at parted
    rcases goes with goes | goes
    · rw [goes]
      simp only [if_true]
      refine ⟨?_, ?_, ?_, ?_, partsFed, .inr ⟨all, ?_⟩⟩
      · rw [parted]
        exact filling.routed
      · rw [parted]
        exact filling.body
      · rw [parted]
      · rw [parted]
        exact multipart
      · rw [parted]
    · rw [goes]
      refine ⟨?_, ?_, ?_, ?_, partsFed, .inr ⟨all, rfl⟩⟩
      · rw [parted]
        exact filling.routed
      · rw [parted]
        exact filling.body
      · rw [parted]
      · rw [parted]
        exact multipart

/-- A piece that is small enough, and for a body of parts all pieces together. -/
theorem held_takeBody (env : Environment) {r : Reading} (filling : Filling app r)
    (accepted : r.exceeds data = false)
    (fits : r.request.isMultiPart = true → r.received + data.length +
      (if (r.takeBody env.withMultipartParser data).2 = .refused then
        r.bodyBuffer.length + data.length else 0) < (app.upoadMaxSizeLimitKB + 1) * 1024) :
    (r.takeBody env.withMultipartParser data).1.held < (app.upoadMaxSizeLimitKB + 1) * 1024 ∧
      Filling app (r.takeBody env.withMultipartParser data).1 := by
  have small := filling.small accepted
  cases multipart : r.request.isMultiPart with
  | false =>
    have none := filling.plain multipart
    have parts := filling.parts
    rw [PartsFed, none] at parts
    have taken : r.takeBody env.withMultipartParser data =
        ({ r with bodyBuffer := r.bodyBuffer ++ data }, .ok) :=
      if_neg (Bool.eq_false_iff.mp multipart)
    rw [taken]
    constructor
    · change (r.bodyBuffer ++ data).length + r.request.body.length + r.partsHeld < _
      rw [parts, filling.body, List.length_append]
      exact small
    · exact ⟨filling.routed, filling.body, filling.announced, filling.parts, filling.plain⟩
  | true =>
    obtain ⟨s, same, routed, body, announced, parted, fed, goes⟩ :=
      parts_takeBody env filling multipart data
    have fits := fits multipart
    rw [same]
    constructor
    · rw [held, body]
      rcases goes with ⟨none, buffer⟩ | ⟨all, buffer⟩
      · rw [PartsFed, none] at fed
        rw [fed, buffer, List.length_append]
        exact small
      · have parts := fed.le
        rw [buffer]
        split
        · rename_i refused
          rw [if_pos refused] at fits
          rw [List.length_append, List.length_nil]
          omega
        · rename_i ok
          rw [if_neg ok] at fits
          rw [List.length_nil]
          omega
    · refine ⟨routed, body, ?_, fed, fun plain => ?_⟩
      · rw [announced]
        exact filling.announced
      · rw [parted] at plain
        cases plain

/-- The buffers and parts of a body. -/
def stock (r : Reading) :
    Bytes × Bytes × List MultiPart × Bytes × Option MultipartParser :=
  (r.bodyBuffer, r.request.body, r.request.multiparts, r.readingPartBuffer, r.mpParser)

/-- Nothing of a body is there yet. -/
def Bare (r : Reading) : Prop := r.stock = ([], [], [], [], none)

theorem Bare.held_eq {r : Reading} (bare : r.Bare) : r.held = 0 := by
  have buffer : r.bodyBuffer = [] := congrArg Prod.fst bare
  have body : r.request.body = [] := congrArg (fun stock => stock.2.1) bare
  have parts : r.request.multiparts = [] := congrArg (fun stock => stock.2.2.1) bare
  have part : r.readingPartBuffer = [] := congrArg (fun stock => stock.2.2.2.1) bare
  rw [held, partsHeld, buffer, body, parts, part]
  rfl

theorem onHeaderField_frame (r : Reading) (data : Bytes) : ∃ part field value map,
    r.onHeaderField data = { r with
      readingHeaderPart := part
      readingHeaderField := field
      readingHeaderValue := value
      request := { r.request with headers := map } } := by
  obtain ⟨part, field, value, map, same⟩ := r.tryCommit_frame
  rw [onHeaderField, same]
  split
  · exact ⟨_, _, _, _, rfl⟩
  · exact ⟨_, _, _, _, rfl⟩

theorem stock_onHeaderField (r : Reading) (data : Bytes) :
    (r.onHeaderField data).stock = r.stock := by
  obtain ⟨_, _, _, _, same⟩ := r.onHeaderField_frame data
  rw [same]
  rfl

theorem stock_headerParsed (env : Environment) (r : Reading) (p : ParserFields) :
    (r.headerParsed env p).stock = r.stock := by
  have parsed := headerParsed_spec env r p
  rw [stock, parsed.bodyBuffer, parsed.body, parsed.multiparts, parsed.readingPartBuffer,
    parsed.mpParser, stock]

theorem filling_of_bare {r : Reading} (bare : r.Bare) (routed : r.app = some app)
    (announced : r.request.contentLength / 1024 ≤ app.upoadMaxSizeLimitKB) : Filling app r := by
  have none : r.mpParser = none := congrArg (fun stock => stock.2.2.2.2) bare
  have parts : r.partsHeld = 0 := by
    have all := bare.held_eq
    rw [held] at all
    omega
  refine ⟨routed, congrArg (fun stock => stock.2.1) bare, announced, ?_, fun _ => none⟩
  rw [PartsFed, none]
  exact parts

/-- The parser of bodies starts with nothing. -/
theorem Filling.tryInit {r : Reading} (filling : Filling app r) (bare : r.Bare)
    (multipart : r.request.isMultiPart = true) : Filling app r.tryInitMultipartParser := by
  have none : r.mpParser = none := congrArg (fun stock => stock.2.2.2.2) bare
  have parts := filling.parts
  rw [PartsFed, none] at parts
  rw [tryInitMultipartParser, initMultipartParser, if_pos none]
  split
  · refine ⟨filling.routed, filling.body, filling.announced, Nat.le_of_eq parts, fun plain => ?_⟩
    have plain : r.request.isMultiPart = false := plain
    rw [multipart] at plain
    cases plain
  · exact filling

/-- Header fields behind the body, and its end. -/
theorem Filling.onHeaderField {r : Reading} (filling : Filling app r) (field : Bytes) :
    Filling app (r.onHeaderField field) := by
  obtain ⟨_, _, _, _, same⟩ := r.onHeaderField_frame field
  rw [same]
  exact ⟨filling.routed, filling.body, filling.announced, filling.parts, filling.plain⟩

theorem held_onMessageComplete (r : Reading) : r.onMessageComplete.held = r.held := by
  change r.request.body.length + r.bodyBuffer.length + r.partsHeld = _
  rw [held]
  omega

end Reading
namespace Connection

/-- An application that is found has its limit checked against the announced length. -/
theorem onRouted_reading {c : Connection} {answer : Connection × Returned}
    (answered : c.onRouted app = some answer) :
    (answer.2 = .refused ∧ answer.1.toReading = c.toReading) ∨
      (answer.2 = .ok ∧ c.request.contentLength / 1024 ≤ app.upoadMaxSizeLimitKB ∧
        (answer.1.toReading = c.toReading ∨
          (c.request.isMultiPart = true ∧
            answer.1.toReading = c.toReading.tryInitMultipartParser))) := by
  have replied {response : Response} {d : Connection}
      (started : { c with response := response }.startWrite = some d) :
      d.toReading = c.toReading := by
    obtain ⟨-, _, _, rfl⟩ := startWrite_cases started
    rfl
  rw [onRouted] at answered
  split at answered
  · obtain ⟨d, written, rfl⟩ := Option.map_eq_some_iff.mp answered
    exact .inl ⟨rfl, replied written⟩
  · rename_i small
    have small := Nat.le_of_not_lt small
    split at answered
    · obtain ⟨d, written, rfl⟩ := Option.map_eq_some_iff.mp answered
      exact .inr ⟨rfl, small, .inl (replied written)⟩
    · split at answered
      · rename_i multipart
        cases answered
        exact .inr ⟨rfl, small, .inr ⟨multipart, rfl⟩⟩
      · cases answered
        exact .inr ⟨rfl, small, .inl rfl⟩

theorem execute_single {c d : Connection} (clean : c.parserErrno = .ok)
    (executed : c.execute env .ok [made] = some d) : ∃ answer, c.callback env made = some answer ∧
      d.toReading = answer.1.toReading ∧
      ((answer.2 = .ok ∧ d.parserErrno = .ok) ∨
        (answer.2 = .refused ∧ d.parserErrno = .error)) := by
  rw [execute, if_pos clean] at executed
  obtain ⟨answer, answered, rest⟩ := Option.bind_eq_some_iff.mp executed
  refine ⟨answer, answered, ?_⟩
  split at rest
  · rename_i ok
    cases rest
    exact ⟨rfl, .inl ⟨ok, rfl⟩⟩
  · rename_i refused
    cases rest
    exact ⟨rfl, .inr ⟨refused, rfl⟩⟩

end Connection

namespace Exchange

/-- The callbacks for one message, in their order. -/
def receive (env : Environment) (e : Exchange) (made : ParserCallback) : Option Exchange :=
  if e.connection.readComplete = .readMessageComplete then none
  else
    (e.phase.after made).bind fun phase =>
      (e.connection.execute env .ok [made]).map fun c => ⟨c, phase⟩

/-- A connection that has been reset, or is new, before a message. -/
def before (c : Connection) (full path : Bytes) (fields : ParserFields) : Exchange :=
  ⟨{ c with toReading := Reading.fresh full path fields, parserErrno := .ok }, .start⟩

/-- Less is held than the limit of the application says. -/
def Bounded (e : Exchange) : Prop :=
  ∀ app, e.connection.app = some app → e.connection.held < (app.upoadMaxSizeLimitKB + 1) * 1024

/-- All pieces of a body of parts are together no more than one piece may be; a piece that
the parser of bodies does not take is there twice. -/
def Fits (env : Environment) (e : Exchange) : ParserCallback → Exchange → Prop
  | .body data, _ => ∀ app, e.connection.app = some app → e.connection.exceeds data = false →
      e.connection.request.isMultiPart = true →
      e.connection.received + data.length +
        (if (e.connection.takeBody env data).2 = .refused then
          e.connection.bodyBuffer.length + data.length else 0) <
        (app.upoadMaxSizeLimitKB + 1) * 1024
  | _, _ => True

/-- Nothing more is taken, nothing of the body is there, or it is being read. -/
def Receiving (e : Exchange) : Prop :=
  e.Bounded ∧ (e.connection.parserErrno ≠ .ok ∨
    e.connection.readComplete = .readMessageComplete ∨
    (e.phase ≠ .body ∧ e.connection.Bare) ∨
    (e.phase = .body ∧ ∃ app, Reading.Filling app e.connection.toReading))

theorem bounded_of_bare {e : Exchange} (bare : e.connection.Bare) : e.Bounded := by
  intro app _
  rw [bare.held_eq]
  omega

theorem bounded_of_held {e : Exchange} {app : Application} (routed : e.connection.app = some app)
    (less : e.connection.held < (app.upoadMaxSizeLimitKB + 1) * 1024) : e.Bounded := by
  intro other same
  rw [routed] at same
  cases same
  exact less

theorem receiving_before (c : Connection) (full path : Bytes) (fields : ParserFields) :
    Receiving (before c full path fields) := by
  have bare : (before c full path fields).connection.Bare := rfl
  have starts : ParserPhase.start ≠ .body := by decide
  exact ⟨bounded_of_bare bare, .inr (.inr (.inl ⟨starts, bare⟩))⟩

variable {env : Environment} {e t : Exchange}

/-- The end of a header block: the body is read, or refused. -/
theorem receiving_headersComplete {c : Connection} {answer : Connection × Returned}
    (bare : c.Bare) (answered : c.callback env (.headersComplete p) = some answer) :
    (answer.2 = .refused ∧ answer.1.Bare) ∨
      (answer.2 = .ok ∧ answer.1.held = 0 ∧ ∃ app, Reading.Filling app answer.1.toReading) := by
  have parsed : (c.headerParsed env p).Bare :=
    (Reading.stock_headerParsed env c.toReading p).trans bare
  rcases Connection.onHeadersComplete_cases answered with
    ⟨app, url, routed⟩ | ⟨refused, app, replied⟩
  · have placed : ((c.headerParsed env p).placeUnder app url).Bare := parsed
    rcases Connection.onRouted_reading routed with ⟨refused, same⟩ | ⟨ok, announced, same⟩
    · left
      refine ⟨refused, ?_⟩
      rw [same]
      exact placed
    · right
      have filling := Reading.filling_of_bare placed rfl announced
      rcases same with same | ⟨multipart, same⟩
      · rw [same]
        exact ⟨ok, placed.held_eq, app, filling⟩
      · have held :
            Reading.held ((c.headerParsed env p).placeUnder app url).tryInitMultipartParser =
              Reading.held ((c.headerParsed env p).placeUnder app url).toReading := by
          rw [Reading.tryInitMultipartParser, Reading.initMultipartParser]
          split
          · split
            · rfl
            · rfl
          · rfl
        rw [same]
        exact ⟨ok, held.trans placed.held_eq, app, filling.tryInit placed multipart⟩
  · left
    obtain ⟨-, _, _, same⟩ := Connection.startWrite_cases replied
    refine ⟨refused, ?_⟩
    rw [same]
    exact parsed

/-- Before the body there are the callbacks of a header block. -/
theorem after_outside {phase next : ParserPhase} (outside : phase ≠ .body)
    (after : phase.after made = some next) :
    (∃ p, made = .headersComplete p ∧ next = .body) ∨
      (Reading.IsOpening made ∧ next ≠ .body) := by
  cases phase with
  | body => exact absurd rfl outside
  | start =>
    cases made with
    | messageBegin =>
      cases after
      exact .inr ⟨trivial, by decide⟩
    | url data => cases after
    | headerField data => cases after
    | headerValue data => cases after
    | headersComplete p => cases after
    | body data => cases after
    | messageComplete => cases after
  | block =>
    cases made with
    | messageBegin => cases after
    | url data =>
      cases after
      exact .inr ⟨trivial, by decide⟩
    | headerField data =>
      cases after
      exact .inr ⟨trivial, by decide⟩
    | headerValue data =>
      cases after
      exact .inr ⟨trivial, by decide⟩
    | headersComplete p =>
      cases after
      exact .inl ⟨p, rfl, rfl⟩
    | body data => cases after
    | messageComplete => cases after

theorem bare_callback {c : Connection} {answer : Connection × Returned}
    (opening : Reading.IsOpening made) (bare : c.Bare)
    (answered : c.callback env made = some answer) : answer.2 = .ok ∧ answer.1.Bare := by
  cases made with
  | messageBegin =>
    cases answered
    have others : (c.request.body, c.request.multiparts, c.readingPartBuffer, c.mpParser) =
        ([], [], [], none) := congrArg Prod.snd bare
    exact ⟨rfl, congrArg (Prod.mk []) others⟩
  | url data =>
    cases answered
    exact ⟨rfl, bare⟩
  | headerField data =>
    cases answered
    exact ⟨rfl, (Reading.stock_onHeaderField c.toReading data).trans bare⟩
  | headerValue data =>
    cases answered
    exact ⟨rfl, bare⟩
  | headersComplete p => exact opening.elim
  | body data => exact opening.elim
  | messageComplete => exact opening.elim

/-- A callback of a body, of a trailer or of the end. -/
theorem filling_callback {c : Connection} {answer : Connection × Returned} {app : Application}
    (filling : Reading.Filling app c.toReading) (bounded : Bounded ⟨c, .body⟩)
    (after : ParserPhase.body.after made = some next)
    (fits : Fits env.withMultipartParser ⟨c, .body⟩ made t)
    (answered : c.callback env.withMultipartParser made = some answer) :
    Bounded ⟨answer.1, next⟩ ∧ (answer.2 = .refused ∨
      answer.1.readComplete = .readMessageComplete ∨
      (next = .body ∧ Reading.Filling app answer.1.toReading)) := by
  have less := bounded app filling.routed
  cases made with
  | headerField data =>
    cases after
    cases answered
    have still := filling.onHeaderField data
    refine ⟨bounded_of_held still.routed ?_, .inr (.inr ⟨rfl, still⟩)⟩
    obtain ⟨_, _, _, _, same⟩ := c.toReading.onHeaderField_frame data
    change (c.toReading.onHeaderField data).held < _
    rw [same]
    exact less
  | headerValue data =>
    cases after
    cases answered
    refine ⟨bounded_of_held filling.routed less, .inr (.inr ⟨rfl, ?_⟩)⟩
    exact ⟨filling.routed, filling.body, filling.announced, filling.parts, filling.plain⟩
  | body data =>
    cases after
    rw [Connection.callback, Connection.onBody] at answered
    split at answered
    · obtain ⟨d, written, rfl⟩ := Option.map_eq_some_iff.mp answered
      obtain ⟨-, _, _, rfl⟩ := Connection.startWrite_cases written
      exact ⟨bounded_of_held filling.routed less, .inl rfl⟩
    · rename_i accepted
      cases answered
      have accepted := Bool.eq_false_iff.mpr accepted
      obtain ⟨held, still⟩ :=
        Reading.held_takeBody env filling accepted (fits app filling.routed accepted)
      exact ⟨bounded_of_held still.routed held, .inr (.inr ⟨rfl, still⟩)⟩
  | messageComplete =>
    cases after
    cases answered
    refine ⟨bounded_of_held filling.routed ?_, .inr (.inl rfl)⟩
    exact (Reading.held_onMessageComplete c.toReading).trans_lt less
  | messageBegin => cases after
  | url data => cases after
  | headersComplete p => cases after

theorem receiving_step (receiving : Receiving e)
    (stepped : receive env.withMultipartParser e made = some t)
    (fits : Fits env.withMultipartParser e made t) : Receiving t := by
  obtain ⟨bounded, state⟩ := receiving
  rw [receive] at stepped
  split at stepped
  · cases stepped
  · rename_i incomplete
    obtain ⟨phase, after, handled⟩ := Option.bind_eq_some_iff.mp stepped
    obtain ⟨d, executed, rfl⟩ := Option.map_eq_some_iff.mp handled
    by_cases clean : e.connection.parserErrno = .ok
    · obtain ⟨answer, answered, reading, errno⟩ := Connection.execute_single clean executed
      have same (bounded : Bounded ⟨answer.1, phase⟩) : Bounded ⟨d, phase⟩ := by
        intro app routed
        change d.toReading.app = _ at routed
        change d.toReading.held < _
        rw [reading] at routed ⊢
        exact bounded app routed
      have refuses (refused : answer.2 = .refused) : d.parserErrno ≠ .ok := by
        rcases errno with ⟨ok, -⟩ | ⟨-, error⟩
        · rw [refused] at ok
          cases ok
        · rw [error]
          exact ParserErrno.noConfusion
      rcases state with dirty | complete | ⟨outside, bare⟩ | ⟨inside, app, filling⟩
      · exact absurd clean dirty
      · exact absurd complete incomplete
      · rcases after_outside outside after with ⟨p, rfl, rfl⟩ | ⟨opening, still⟩
        · rcases receiving_headersComplete bare answered with
            ⟨refused, bare⟩ | ⟨-, held, app, filling⟩
          · exact ⟨same (bounded_of_bare bare), .inl (refuses refused)⟩
          · refine ⟨same (bounded_of_held filling.routed ?_), .inr (.inr (.inr ⟨rfl, app, ?_⟩))⟩
            · rw [held]
              omega
            · rw [reading]
              exact filling
        · obtain ⟨-, bare⟩ := bare_callback opening bare answered
          refine ⟨same (bounded_of_bare bare), .inr (.inr (.inl ⟨still, ?_⟩))⟩
          change d.toReading.Bare
          rw [reading]
          exact bare
      · obtain ⟨c, here⟩ := e
        have inside : here = .body := inside
        subst inside
        obtain ⟨bounded, goes⟩ := filling_callback filling bounded after fits answered
        refine ⟨same bounded, ?_⟩
        rcases goes with refused | complete | ⟨next, filling⟩
        · exact .inl (refuses refused)
        · refine .inr (.inl ?_)
          change d.toReading.readComplete = _
          rw [reading]
          exact complete
        · refine .inr (.inr (.inr ⟨next, app, ?_⟩))
          rw [reading]
          exact filling
    · rw [Connection.execute, if_neg clean] at executed
      cases executed
      exact ⟨bounded, .inl clean⟩

/-- While the pieces of every body of parts are together no more than one piece may be,
less is held than the limit says, in every state before the handler runs. -/
theorem bounded_of_fits (env : Environment) (c : Connection) (full path : Bytes)
    (fields : ParserFields) {made : List ParserCallback}
    (fits : Transition.Steps (receive env.withMultipartParser) (Fits env.withMultipartParser)
      (before c full path fields) made) :
    Transition.Throughout (receive env.withMultipartParser) Bounded (before c full path fields)
      made :=
  Transition.throughout_of_steps receiving_step And.left (receiving_before c full path fields) fits

/-- A body that is no longer than announced fits. -/
theorem fits_of_announced {app : Application}
    (filling : Reading.Filling app e.connection.toReading)
    (taken : (e.connection.takeBody env data).2 = .ok)
    (announced : e.connection.received + data.length ≤ e.connection.request.contentLength) :
    Fits env e (.body data) t := by
  intro other routed _ _
  rw [filling.routed] at routed
  cases routed
  have limit := filling.announced
  rw [taken, if_neg (by decide)]
  omega

/-- An application that takes bodies of less than a kilobyte. -/
def small : Environment := Environment.single { Application.root with upoadMaxSizeLimitKB := 0 }

/-- The header block of a body of parts without an announced length. -/
def partsBlock : List ParserCallback :=
  [.messageBegin, .url [47], .headerField (Bytes.ofAscii "Content-Type"),
    .headerValue (Bytes.ofAscii "multipart/form-data; boundary=b"),
    .headersComplete { method := 3, httpMajor := 1, httpMinor := 1 }]

theorem bounded_of_fits_small :
    Transition.Throughout (receive small.withMultipartParser) Bounded
      (before .started [] [] {}) (partsBlock ++ [.body (Bytes.ofAscii "--b\r\n\r\nx")]) := by
  apply bounded_of_fits
  refine .cons rfl trivial ?_
  refine .cons rfl trivial ?_
  refine .cons rfl trivial ?_
  refine .cons rfl trivial ?_
  refine .cons rfl trivial ?_
  refine .cons rfl ?_ trivial
  intro app routed _ _
  cases routed
  decide

/-- The start of a part with a thousand octets, and another thousand. -/
def twoPieces : List ParserCallback :=
  [.body (Bytes.ofAscii "--b\r\n\r\n" ++ List.replicate 1000 120), .body (List.replicate 1000 120)]

/-- Two pieces that are each small enough are both held. -/
theorem twoPieces_held : ∃ e, Transition.run (receive small.withMultipartParser)
    (before .started [] [] {}) (partsBlock ++ twoPieces) = some e ∧ ¬Bounded e := by
  have much : (Transition.run (receive small.withMultipartParser) (before .started [] [] {})
      (partsBlock ++ twoPieces)).any (fun e => e.connection.app.any fun app =>
        (app.upoadMaxSizeLimitKB + 1) * 1024 ≤ e.connection.held) = true := by
    decide +kernel
  obtain ⟨e, ran, much⟩ := (Option.any_eq_true _ _).mp much
  obtain ⟨app, routed, much⟩ := (Option.any_eq_true _ _).mp much
  refine ⟨e, ran, fun bounded => ?_⟩
  exact absurd (bounded app routed) (Nat.not_lt_of_le (decide_eq_true_iff.mp much))

end Exchange
end Da4qi4
