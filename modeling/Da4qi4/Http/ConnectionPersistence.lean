import Da4qi4.Foundation.ResponseFraming
import Da4qi4.Foundation.Transition
import Da4qi4.Http.ConnectionPipeline
import Da4qi4.Http.ConnectionStreaming
import Da4qi4.Http.ResponseLines

/-! Whether the connection goes on behind a response, and what the header block of the
response says about it. Both kinds of responses are followed from the call of
`StartWrite` until nothing of them is left to write. -/
namespace Da4qi4
open Utilities
open ResponseFraming (hasOption persists sameName listElements)

theorem lower_toUpper (c : UInt8) :
    ResponseFraming.lower (toUpper c) = ResponseFraming.lower c := by
  have all : ∀ n : Fin 256, ResponseFraming.lower (toUpper (UInt8.ofFin n)) =
      ResponseFraming.lower (UInt8.ofFin n) := by
    decide +kernel
  exact all c.toFin

theorem toUpper_lower (c : UInt8) : toUpper (ResponseFraming.lower c) = toUpper c := by
  have all : ∀ n : Fin 256, toUpper (ResponseFraming.lower (UInt8.ofFin n)) =
      toUpper (UInt8.ofFin n) := by
    decide +kernel
  exact all c.toFin

/-- The client and the maps of the server take the same names for one. -/
theorem sameName_iff (name other : Bytes) :
    sameName name other = true ↔ foldCase name = foldCase other := by
  have upper (m : Bytes) : foldCase (m.map ResponseFraming.lower) = foldCase m := by
    rw [foldCase, List.map_map]
    apply List.map_congr_left
    intro c _
    exact congrArg charValue (toUpper_lower c)
  have lower (m : Bytes) :
      (m.map toUpper).map ResponseFraming.lower = m.map ResponseFraming.lower := by
    rw [List.map_map]
    apply List.map_congr_left
    intro c _
    exact lower_toUpper c
  have folded (m : Bytes) : foldCase m = (m.map toUpper).map charValue := by
    rw [foldCase, List.map_map]
    rfl
  rw [sameName, decide_eq_true_eq]
  constructor
  · intro same
    rw [← upper name, same, upper]
  · intro same
    rw [folded, folded] at same
    have uppers := List.map_injective_iff.mpr (fun _ _ => charValue_inj.mp) same
    rw [← lower name, uppers, lower]

namespace Response

/-- The options of the `Connection` header. -/
def connectionOptions (r : Response) : List Bytes :=
  ((r.tryGetHeader connectionField).map listElements).getD []

theorem hasOption_entries (r : Response) (option : Bytes) :
    hasOption option r.headers.entries = r.connectionOptions.any fun o => sameName o option := by
  have here : (fun f : Bytes × Bytes => sameName f.1 ResponseFraming.connection) =
      OrderedMap.isAt foldCase connectionField := by
    funext f
    rw [Bool.eq_iff_iff, sameName_iff, OrderedMap.isAt_iff]
    rfl
  have found : ResponseFraming.values ResponseFraming.connection r.headers.entries =
      (r.tryGetHeader connectionField).toList := by
    rw [ResponseFraming.values, here, OrderedMap.filter_isAt, tryGetHeader, Utilities.tryGetHeader,
      OrderedMap.lookup]
    cases r.headers.find connectionField with
    | none => rfl
    | some e => rfl
  rw [hasOption, found, connectionOptions]
  cases r.tryGetHeader connectionField with
  | none => rfl
  | some value =>
    rw [Option.toList_some, List.flatMap_singleton]
    rfl

/-- What a client takes from the version and the header fields. -/
def announcesPersistence (r : Response) : Bool :=
  persists r.versionMajor r.versionMinor r.headers.entries

def hasClose (r : Response) : Bool := r.connectionOptions.any fun o => sameName o closeValue

def hasKeepAlive (r : Response) : Bool := r.connectionOptions.any fun o => sameName o keepAliveValue

/-- `close` is the whole of the header. -/
def isExactlyClose (r : Response) : Bool :=
  (r.tryGetHeader connectionField).any fun value => iEquals value closeValue

theorem announces_eq (r : Response) : r.announcesPersistence =
    if r.hasClose then false
    else if 1 < r.versionMajor ∨ (r.versionMajor = 1 ∧ 1 ≤ r.versionMinor) then true
    else if r.versionMajor = 1 ∧ r.versionMinor = 0 then r.hasKeepAlive
    else false := by
  rw [announcesPersistence, persists, hasOption_entries, hasOption_entries]
  rfl

theorem announces_new {r : Response} (new : isOld r.versionMajor r.versionMinor = false) :
    r.announcesPersistence = !r.hasClose := by
  have late : 1 < r.versionMajor ∨ (r.versionMajor = 1 ∧ 1 ≤ r.versionMinor) := by
    simp only [isOld, Bool.or_eq_false_iff, Bool.and_eq_false_iff, decide_eq_false_iff_not,
      beq_eq_false_iff_ne] at new
    omega
  rw [announces_eq, if_pos late]
  cases r.hasClose with
  | true => rfl
  | false => rfl

theorem announces_old {r : Response} (major : r.versionMajor = 1) (minor : r.versionMinor = 0) :
    r.announcesPersistence = (!r.hasClose && r.hasKeepAlive) := by
  have early : ¬(1 < r.versionMajor ∨ (r.versionMajor = 1 ∧ 1 ≤ r.versionMinor)) := by
    omega
  have oldest : r.versionMajor = 1 ∧ r.versionMinor = 0 := ⟨major, minor⟩
  rw [announces_eq, if_neg early, if_pos oldest]
  cases r.hasClose with
  | true => rfl
  | false => rfl

/-- A header that the server takes for `close` has this one option. -/
theorem hasClose_of_exactly {r : Response} (exactly : r.isExactlyClose = true) :
    r.hasClose = true := by
  cases set : r.tryGetHeader connectionField with
  | none =>
    rw [isExactlyClose, set] at exactly
    cases exactly
  | some value =>
    rw [isExactlyClose, set, Option.any_some, iEquals_iff] at exactly
    have absent (c : UInt8) (other : charValue (toUpper c) ∉ foldCase closeValue) : c ∉ value := by
      intro member
      apply other
      rw [← exactly]
      exact List.mem_map_of_mem member
    have unblank : ∀ c ∈ value, ResponseFraming.isBlank c = false := by
      intro c member
      rw [ResponseFraming.isBlank, Bool.or_eq_false_iff, decide_eq_false_iff_not,
        decide_eq_false_iff_not]
      constructor
      · rintro rfl
        exact absent 32 (by decide) member
      · rintro rfl
        exact absent 9 (by decide) member
    have alone := ResponseFraming.listElements_single (absent 44 (by decide)) unblank
    have options : r.connectionOptions = [value] := by
      rw [connectionOptions, set]
      exact alone
    rw [hasClose, options, List.any_cons, (sameName_iff value closeValue).mpr exactly]
    rfl

/-- What the server marks is what the client finds. -/
theorem options_markKeepAlive (r : Response) :
    r.markKeepAlive.hasClose = false ∧ r.markKeepAlive.hasKeepAlive = true := by
  have set : r.markKeepAlive.connectionOptions = listElements keepAliveValue := by
    rw [connectionOptions, markKeepAlive, tryGetHeader_appendHeader]
    rfl
  rw [hasClose, hasKeepAlive, set]
  decide

theorem hasClose_markClose (r : Response) : r.markClose.hasClose = true := by
  have set : r.markClose.connectionOptions = listElements closeValue := by
    rw [connectionOptions, markClose, tryGetHeader_appendHeader]
    rfl
  rw [hasClose, set]
  decide

theorem isKeepAlive_new {r : Response} (new : isOld r.versionMajor r.versionMinor = false) :
    r.isKeepAlive = !r.isExactlyClose := by
  have later : ¬isOld r.versionMajor r.versionMinor = true := Bool.eq_false_iff.mp new
  rw [isKeepAlive, if_neg later, isExactlyClose]
  cases r.tryGetHeader connectionField with
  | none => rfl
  | some value => rfl

end Response

/-- A client that reads the octets finds what the header map says, if no value ends its
line; the other fields have no options. -/
theorem persists_read (lenient : Bool) (now : Int) {r : CookieResponse} (named : r.Named)
    (open_ : ¬r.Breaks lenient) : ∃ block rest,
      HeaderLines.readBlock lenient (r.text now) = some (block, rest) ∧
        persists r.versionMajor r.versionMinor block.fields = r.announcesPersistence := by
  have read := (CookieResponse.readBlock_eq_iff lenient now named).mpr open_
  obtain ⟨⟨block, rest⟩, whole, same⟩ := Option.map_eq_some_iff.mp read
  refine ⟨block, rest, whole, ?_⟩
  have cookies : ResponseFraming.values ResponseFraming.connection
      (r.cookies.map fun cookie => (Response.setCookieField, cookie.text now)) = [] := by
    apply ResponseFraming.values_nil
    intro f member
    obtain ⟨cookie, -, rfl⟩ := List.mem_map.mp member
    exact (by decide : sameName Response.setCookieField ResponseFraming.connection = false)
  have length : ResponseFraming.values ResponseFraming.connection
      (if ¬r.isChunked then [(Response.contentLengthField,
        ResponseFraming.decimal r.body.length)] else []) = [] := by
    apply ResponseFraming.values_nil
    intro f member
    split at member
    · rw [List.mem_singleton.mp member]
      exact (by decide : sameName Response.contentLengthField ResponseFraming.connection = false)
    · cases member
  have options (option : Bytes) :
      hasOption option block.fields = hasOption option r.headers.entries := by
    rw [hasOption, hasOption, ← show r.block now = block from same.symm, CookieResponse.block,
      ResponseFraming.values_append, ResponseFraming.values_append, cookies, length,
      List.append_nil, List.append_nil]
  rw [Response.announcesPersistence, persists, persists, options, options]

/-- The response whose header block is written. -/
def WriteOperation.header : WriteOperation → Option Response
  | .response written => some written
  | .chunkedHeader written => some written
  | .chunkedBody _ => none

namespace Connection

def headersSent (c : Connection) : List Response := c.writes.filterMap WriteOperation.header

structure Quiet (c : Connection) : Prop where
  reads : c.reads = 0
  writes : c.writes = []
  posts : c.posts = []

/-- Some of the response is still to be written, or waited for. -/
def Writing (c : Connection) : Prop := c.writes ≠ [] ∨ c.posts ≠ []

instance (c : Connection) : Decidable c.Writing := inferInstanceAs (Decidable (_ ∨ _))

/-- Nothing fails, and the wait for the next body does not run out. -/
def writingStep (env : Environment) (c : Connection) : Event → Option Connection
  | .wrote index now => c.step env (.wrote index now)
  | .posted index now =>
    c.posts[index]?.bind fun startWaitClock =>
      if Streaming.InTime startWaitClock now then c.step env (.posted index now) else none
  | .pushChunkedBody body isLast =>
    if c.Writing then c.step env (.pushChunkedBody body isLast) else none
  | _ => none

/-- The connection is reset, and a read for the next request is outstanding. -/
def ReadsOn (c : Connection) : Prop := c.reset = c ∧ c.reads = 1

/-- When a response does what it says, by what the handler has set: `close` alone and
nothing else closes a chunked response; the server reads no list of options. -/
def AgreesOnPersistence (request : Request) (response : Response) : Prop :=
  if response.isChunked then response.isExactlyClose = true
  else if Response.isOld request.versionMajor request.versionMinor then
    request.isKeepAlive = true ∨ (response.hasKeepAlive = true → response.hasClose = true)
  else
    request.isKeepAlive = true → response.hasClose = true → response.isExactlyClose = true

theorem keepsAlive_iff_announces (c : Connection) (unchunked : c.response.isChunked = false) :
    (c.prepareResponseHeadersAboutConnection.keepsAlive ↔
        c.prepareResponseHeadersAboutConnection.response.announcesPersistence) ↔
      AgreesOnPersistence c.request c.response := by
  have open_ : ¬c.response.isChunked = true := Bool.eq_false_iff.mp unchunked
  rw [AgreesOnPersistence, if_neg open_, prepareResponseHeadersAboutConnection]
  by_cases old : Response.isOld c.request.versionMajor c.request.versionMinor = true
  · rw [if_pos old, if_pos old]
    cases kept : c.request.isKeepAlive with
    | true =>
      have marked := (c.response.setVersion 1 0).markKeepAlive_isKeepAlive
      have announced : (c.response.setVersion 1 0).markKeepAlive.announcesPersistence = true := by
        obtain ⟨close, keepAlive⟩ := (c.response.setVersion 1 0).options_markKeepAlive
        rw [Response.announces_old rfl rfl, close, keepAlive]
        rfl
      simp [keepsAlive, kept, marked, announced]
    | false =>
      have announced : (c.response.setVersion 1 0).announcesPersistence =
          (!c.response.hasClose && c.response.hasKeepAlive) :=
        Response.announces_old rfl rfl
      simp only [Bool.false_eq_true, if_false, keepsAlive, kept, announced, Bool.false_and,
        false_or, false_iff, Bool.and_eq_true, Bool.not_eq_true', not_and, Bool.not_eq_true]
      cases c.response.hasClose with
      | true => simp
      | false => simp
  · rw [if_neg old, if_neg old]
    cases kept : c.request.isKeepAlive with
    | true =>
      have reads : (c.response.setVersion 1 1).isKeepAlive = !c.response.isExactlyClose :=
        Response.isKeepAlive_new rfl
      have announced : (c.response.setVersion 1 1).announcesPersistence = !c.response.hasClose :=
        Response.announces_new rfl
      simp only [if_true, keepsAlive, kept, reads, announced, Bool.true_and, true_implies]
      cases exactly : c.response.isExactlyClose with
      | true =>
        have close := Response.hasClose_of_exactly exactly
        simp [close]
      | false => simp
    | false =>
      have closed := (c.response.setVersion 1 1).hasClose_markClose
      have announced : (c.response.setVersion 1 1).markClose.announcesPersistence =
          !(c.response.setVersion 1 1).markClose.hasClose :=
        Response.announces_new rfl
      simp [keepsAlive, kept, announced, closed]

/-- The response is outstanding, or done with as both sides said. -/
def Answering (kept : Bool) (c : Connection) : Prop :=
  (∃ written, c.reads = 0 ∧ c.writes = [.response written] ∧ c.posts = [] ∧ c.keepsAlive = kept) ∨
    (¬c.Writing ∧ (c.ReadsOn ↔ kept = true))

theorem answering_wrote {c d : Connection} (reads : c.reads = 0) (posts : c.posts = [])
    (wrote : { c with writes := [] }.onWrote now (.response written) = some d) :
    Answering c.keepsAlive d := by
  right
  rw [onWrote] at wrote
  split at wrote
  · rename_i keep
    rw [doRead, asyncReadSome] at wrote
    split at wrote
    · cases wrote
      refine ⟨fun writing => writing.elim (absurd rfl) (absurd posts), iff_of_true ⟨rfl, ?_⟩ keep⟩
      exact congrArg (· + 1) reads
    · cases wrote
  · rename_i close
    cases wrote
    refine ⟨fun writing => writing.elim (absurd rfl) (absurd posts), iff_of_false ?_ close⟩
    rintro ⟨-, reading⟩
    rw [show c.reads = 1 from reading] at reads
    cases reads

theorem answering_step {c d : Connection} (answering : Answering kept c)
    (stepped : c.writingStep env e = some d) : Answering kept d := by
  cases e with
  | wrote index now =>
    obtain ⟨operation, outstanding, completed⟩ := Option.bind_eq_some_iff.mp stepped
    rcases answering with ⟨written, reads, writes, posts, rfl⟩ | ⟨done, -⟩
    · rw [writes] at outstanding completed
      cases index with
      | succ index => cases outstanding
      | zero =>
        cases outstanding
        exact answering_wrote reads posts completed
    · rw [Decidable.not_not.mp (not_or.mp done).1] at outstanding
      cases outstanding
  | posted index now =>
    obtain ⟨startWaitClock, outstanding, -⟩ := Option.bind_eq_some_iff.mp stepped
    rcases answering with ⟨written, reads, writes, posts, same⟩ | ⟨done, -⟩
    · rw [posts] at outstanding
      cases outstanding
    · rw [Decidable.not_not.mp (not_or.mp done).2] at outstanding
      cases outstanding
  | pushChunkedBody body isLast =>
    rw [writingStep] at stepped
    split at stepped
    · rename_i writing
      obtain ⟨written, reads, writes, posts, same⟩ :=
        answering.resolve_right fun done => done.1 writing
      cases stepped
      exact .inl ⟨written, reads, writes, posts, same⟩
    · cases stepped
  | read errno made => cases stepped
  | readFailed => cases stepped
  | writeFailed index => cases stepped
  | respond response => cases stepped

/-- The header block announces the end only if the handler has set it. -/
theorem chunked_announces (c : Connection) (chunked : c.response.isChunked = true) :
    c.prepareResponseHeadersForChunkedWrite.response.announcesPersistence =
      !c.response.isExactlyClose := by
  obtain ⟨r, raised, new, same⟩ : ∃ r : Response,
      c.prepareResponseHeadersForChunkedWrite.response =
        (if r.isClose then r else r.markKeepAlive) ∧
      Response.isOld r.versionMajor r.versionMinor = false ∧
      r.isExactlyClose = c.response.isExactlyClose := by
    rw [prepareResponseHeadersForChunkedWrite, if_pos chunked]
    by_cases old : Response.isOld c.response.versionMajor c.response.versionMinor = true
    · rw [if_pos old]
      exact ⟨c.response.setVersion 1 1, rfl, rfl, rfl⟩
    · rw [if_neg old]
      exact ⟨c.response, rfl, Bool.eq_false_iff.mpr old, rfl⟩
  rw [raised, Response.isClose, Response.isKeepAlive_new new, Bool.not_not, ← same]
  cases exactly : r.isExactlyClose with
  | true =>
    rw [if_pos rfl, Response.announces_new new, Response.hasClose_of_exactly exactly]
  | false =>
    have marked :
        Response.isOld r.markKeepAlive.versionMajor r.markKeepAlive.versionMinor = false := new
    rw [if_neg Bool.false_ne_true, Response.announces_new marked, r.options_markKeepAlive.1]

/-- A connection whose writes are those of a chunked response never reads on. -/
def StreamingOut (c : Connection) : Prop :=
  c.reads = 0 ∧ ∀ written, .response written ∉ c.writes

theorem streamingOut_looked {c d : Connection} (streaming : StreamingOut c)
    (looked : c.doWriteNextChunkedBody startWaitClock now = some d) : StreamingOut d := by
  obtain ⟨reads, writes⟩ := streaming
  obtain ⟨buffer, response, ⟨-, rfl⟩ | ⟨-, ⟨clock, rfl⟩ | rfl⟩⟩ :=
    doWriteNextChunkedBody_cases looked
  · exact ⟨reads, writes⟩
  · exact ⟨reads, writes⟩
  · refine ⟨reads, fun written member => ?_⟩
    rcases List.mem_append.mp member with before | new
    · exact writes written before
    · cases List.mem_singleton.mp new

theorem streamingOut_step {c d : Connection} (streaming : StreamingOut c)
    (stepped : c.writingStep env e = some d) : StreamingOut d := by
  obtain ⟨reads, writes⟩ := streaming
  cases e with
  | wrote index now =>
    obtain ⟨operation, outstanding, completed⟩ := Option.bind_eq_some_iff.mp stepped
    have rest : StreamingOut { c with writes := c.writes.eraseIdx index } :=
      ⟨reads, fun written member => writes written (List.mem_of_mem_eraseIdx member)⟩
    cases operation with
    | response written => exact absurd (List.mem_of_getElem? outstanding) (writes written)
    | chunkedHeader written => exact streamingOut_looked rest completed
    | chunkedBody data => exact streamingOut_looked rest completed
  | posted index now =>
    obtain ⟨startWaitClock, outstanding, waited⟩ := Option.bind_eq_some_iff.mp stepped
    split at waited
    · obtain ⟨clock, -, looked⟩ := Option.bind_eq_some_iff.mp waited
      have rest : StreamingOut { c with posts := c.posts.eraseIdx index } := ⟨reads, writes⟩
      exact streamingOut_looked rest looked
    · cases waited
  | pushChunkedBody body isLast =>
    rw [writingStep] at stepped
    split at stepped
    · cases stepped
      exact ⟨reads, writes⟩
    · cases stepped
  | read errno made => cases stepped
  | readFailed => cases stepped
  | writeFailed index => cases stepped
  | respond response => cases stepped

theorem asyncWrite_some {c d : Connection} (written : c.asyncWrite operation = some d) :
    d = { c with writes := c.writes ++ [operation] } := by
  rw [asyncWrite] at written
  split at written
  · exact (Option.some.inj written).symm
  · cases written

theorem prepared_response (c : Connection) :
    ∃ header, c.prepareResponseHeadersAboutConnection = { c with response := header } := by
  rw [prepareResponseHeadersAboutConnection]
  split
  · exact ⟨_, rfl⟩
  · exact ⟨_, rfl⟩

/-- Behind a whole response the connection is reset and reads on exactly if the header
block has announced that, for those requests and responses on which both agree. -/
theorem readsOn_iff_announced (env : Environment) {c d e : Connection} (quiet : c.Quiet)
    (started : c.startWrite = some d) (ran : Transition.run (writingStep env) d events = some e)
    (whole : ¬e.Writing) : ∃ header, d.headersSent = [header] ∧
      ((e.ReadsOn ↔ header.announcesPersistence = true) ↔
        AgreesOnPersistence c.request c.response) := by
  cases chunked : c.response.isChunked with
  | false =>
    have agrees := keepsAlive_iff_announces c chunked
    obtain ⟨header, prepared⟩ := c.prepared_response
    rw [prepared] at agrees
    rw [startWrite, if_neg (Bool.eq_false_iff.mp chunked), doWrite, prepared] at started
    obtain rfl := asyncWrite_some started
    have writes : c.writes ++ [WriteOperation.response header] = [.response header] := by
      rw [quiet.writes, List.nil_append]
    refine ⟨header, congrArg (List.filterMap WriteOperation.header) writes, ?_⟩
    have initial : Answering { c with response := header }.keepsAlive
        { c with response := header, writes := c.writes ++ [.response header] } :=
      .inl ⟨header, quiet.reads, writes, quiet.posts, rfl⟩
    rcases Transition.run_invariant answering_step initial ran with
      ⟨written, -, writing, -⟩ | ⟨-, reading⟩
    · rw [Writing, writing] at whole
      exact absurd (.inl (List.cons_ne_nil _ _)) whole
    · rw [reading]
      exact agrees
  | true =>
    have announced := chunked_announces c chunked
    rw [startWrite, if_pos chunked, doWriteHeaderForChunked] at started
    obtain rfl := asyncWrite_some started
    have writes : c.writes ++ [WriteOperation.chunkedHeader
        c.prepareResponseHeadersForChunkedWrite.response] = [.chunkedHeader
        c.prepareResponseHeadersForChunkedWrite.response] := by
      rw [quiet.writes, List.nil_append]
    refine ⟨c.prepareResponseHeadersForChunkedWrite.response,
      congrArg (List.filterMap WriteOperation.header) writes, ?_⟩
    have initial : StreamingOut { c.prepareResponseHeadersForChunkedWrite with
        writes := c.writes ++ [WriteOperation.chunkedHeader
          c.prepareResponseHeadersForChunkedWrite.response] } := by
      rw [writes]
      refine ⟨quiet.reads, fun written member => ?_⟩
      cases List.mem_singleton.mp member
    have reads := (Transition.run_invariant streamingOut_step initial ran).1
    have silent : ¬e.ReadsOn := by
      rintro ⟨-, reading⟩
      rw [reads] at reading
      cases reading
    rw [announced, AgreesOnPersistence, if_pos chunked, iff_false_left silent, Bool.not_eq_true,
      Bool.not_eq_false']

/-- A request that keeps the connection, about to be answered. -/
def keptAlive (response : Response) : Connection :=
  { request := { additionFlags := { keepalive := true }, versionMajor := 1, versionMinor := 1 }
    response := response }

theorem readsOn_iff_announced_ok : ∃ d e header,
    (keptAlive .constructed).startWrite = some d ∧
      Transition.run (writingStep (.single .root)) d [.wrote 0 0] = some e ∧
      d.headersSent = [header] ∧ (e.ReadsOn ↔ header.announcesPersistence = true) := by
  have answered : ∃ d e, (keptAlive .constructed).startWrite = some d ∧
      Transition.run (writingStep (.single .root)) d [.wrote 0 0] = some e ∧ ¬e.Writing :=
    ⟨_, _, rfl, rfl, by decide⟩
  obtain ⟨d, e, started, ran, whole⟩ := answered
  obtain ⟨header, sent, agrees⟩ :=
    readsOn_iff_announced (.single .root) ⟨rfl, rfl, rfl⟩ started ran whole
  refine ⟨d, e, header, started, ran, sent, agrees.mpr ?_⟩
  rw [AgreesOnPersistence, if_neg (by decide), if_neg (by decide)]
  intro _ close
  exact absurd close (by decide)

/-- A chunked response is announced as persistent, and nothing is read behind it. -/
theorem chunked_announced_but_dropped : ∃ d e header,
    (keptAlive (Response.constructed.markChunked.pushChunkedBody [] true)).startWrite = some d ∧
      Transition.run (writingStep (.single .root)) d [.wrote 0 0, .wrote 0 0] = some e ∧
      ¬e.Writing ∧ d.headersSent = [header] ∧ header.announcesPersistence = true ∧
      ¬e.ReadsOn := by
  refine ⟨_, _, _, rfl, rfl, by decide, rfl, by decide, ?_⟩
  rintro ⟨-, reads⟩
  cases reads

end Connection
end Da4qi4
