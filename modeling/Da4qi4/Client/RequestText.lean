import Da4qi4.Client.Connection
import Da4qi4.Http.ResponseLines

/-! The request of a client as its calls put it together, written out and read by a server.
The length of the body is a header like others: it is cleared with them, and the body is
not. -/
namespace Da4qi4.Client
open Utilities
open ResponseFraming (decimal commonLength)
open HeaderLines (HasLineEnd readBlock blockText)

inductive BodySetAction where
  | none | resetContentLength
  deriving DecidableEq, Repr

/-- What a connection has of its next request. -/
structure Request where
  server : Bytes
  method : Bytes := Bytes.ofAscii "GET"
  uri : Bytes := [47]
  httpVersion : Bytes := Bytes.ofAscii "1.1"
  requestHeaders : ICHeaders := .empty
  requestBody : Bytes := []
  deriving DecidableEq

namespace Request

def userAgentField : Bytes := Bytes.ofAscii "User-Agent"

def userAgentWithVersion : Bytes := daqiName ++ [47] ++ daqiVersion

def contentLengthField : Bytes := Bytes.ofAscii "Content-Length"

def hostField : Bytes := Bytes.ofAscii "Host"

def setMethod (r : Request) (method uri : Bytes) : Request :=
  { r with method := method, uri := if uri = [] then [47] else uri }

def setHTTPVersion (r : Request) (version : Bytes) : Request := { r with httpVersion := version }

def resetHeaders (r : Request) : Request :=
  { r with requestHeaders := OrderedMap.empty.insert userAgentField userAgentWithVersion }

def addHeader (r : Request) (name value : Bytes) : Request :=
  { r with
    requestHeaders := if (r.requestHeaders.find name).isSome then r.requestHeaders.assign name value
      else r.requestHeaders.insert name value }

def setBody (r : Request) (body : Bytes) (action : BodySetAction) : Request :=
  let r := if action = .resetContentLength then r.addHeader contentLengthField (decimal body.length)
    else r
  { r with requestBody := body }

/-- A newly constructed connection, behind `init`. -/
def constructed (server : Bytes) : Request := resetHeaders { server := server }

inductive Call where
  | setMethod (method uri : Bytes)
  | setHTTPVersion (version : Bytes)
  | resetHeaders
  | addHeader (name value : Bytes)
  | setBody (body : Bytes) (action : BodySetAction)

def call (r : Request) : Call → Request
  | .setMethod method uri => r.setMethod method uri
  | .setHTTPVersion version => r.setHTTPVersion version
  | .resetHeaders => r.resetHeaders
  | .addHeader name value => r.addHeader name value
  | .setBody body action => r.setBody body action

def calls (r : Request) (made : List Call) : Request := made.foldl call r

def headerLine (kv : Bytes × Bytes) : Bytes := kv.1 ++ [58] ++ kv.2 ++ [13, 10]

def makeRequestBuffer (r : Request) : Bytes :=
  r.method ++ [32] ++ r.uri ++ Bytes.ofAscii " HTTP/" ++ r.httpVersion ++ [13, 10] ++
    (Bytes.ofAscii "Host:" ++ r.server ++ [13, 10]) ++ r.requestHeaders.entries.flatMap headerLine ++
    [13, 10] ++ if r.requestBody ≠ [] then r.requestBody else []

/-- The headers that are set behind the last reset, the first one by the reset. -/
def assigned (made : List Call) : List (Bytes × Bytes) :=
  made.foldl (fun pairs call =>
    match call with
    | .resetHeaders => [(userAgentField, userAgentWithVersion)]
    | .addHeader name value => pairs ++ [(name, value)]
    | .setBody body .resetContentLength => pairs ++ [(contentLengthField, decimal body.length)]
    | _ => pairs) [(userAgentField, userAgentWithVersion)]

/-- Whether a body was set, with its length, behind the last reset. -/
def announces (made : List Call) : Bool :=
  made.foldl (fun before call =>
    match call with
    | .resetHeaders => false
    | .setBody _ .resetContentLength => true
    | _ => before) false

/-- The lines that a server should read: each name once, as it was first set, with the
value that was set last. -/
def block (r : Request) (made : List Call) : HeaderLines.Block where
  start := (r.calls made).method ++ [32] ++ (r.calls made).uri ++ Bytes.ofAscii " HTTP/" ++
    (r.calls made).httpVersion
  fields := (hostField, r.server) ::
    (OrderedMap.empty.assignAll (assigned made) : ICHeaders).entries

theorem addHeader_eq (r : Request) (name value : Bytes) :
    r.addHeader name value = { r with requestHeaders := r.requestHeaders.assign name value } := by
  rw [addHeader]
  split
  · rfl
  · rename_i absent
    rw [OrderedMap.insert_eq_assign (Option.not_isSome_iff_eq_none.mp absent)]

theorem assigned_concat (made : List Call) (last : Call) :
    assigned (made ++ [last]) =
      match last with
      | .resetHeaders => [(userAgentField, userAgentWithVersion)]
      | .addHeader name value => assigned made ++ [(name, value)]
      | .setBody body .resetContentLength =>
        assigned made ++ [(contentLengthField, decimal body.length)]
      | _ => assigned made := by
  rw [assigned, List.foldl_append]
  cases last with
  | setBody body action => cases action <;> rfl
  | _ => rfl

theorem announces_concat (made : List Call) (last : Call) :
    announces (made ++ [last]) =
      match last with
      | .resetHeaders => false
      | .setBody _ .resetContentLength => true
      | _ => announces made := by
  rw [announces, List.foldl_append]
  cases last with
  | setBody body action => cases action <;> rfl
  | _ => rfl

/-- The calls do to the map what they say. -/
theorem calls_requestHeaders (server : Bytes) (made : List Call) :
    ((constructed server).calls made).requestHeaders = .assignAll .empty (assigned made) ∧
      ((constructed server).calls made).server = server := by
  induction made using List.reverseRecOn with
  | nil => exact ⟨OrderedMap.insert_eq_assign rfl _, rfl⟩
  | append_singleton made last ih =>
    obtain ⟨headers, same⟩ := ih
    have split : (constructed server).calls (made ++ [last]) =
        ((constructed server).calls made).call last := List.foldl_append
    rw [split, assigned_concat]
    cases last with
    | setMethod method uri => exact ⟨headers, same⟩
    | setHTTPVersion version => exact ⟨headers, same⟩
    | resetHeaders => exact ⟨OrderedMap.insert_eq_assign rfl _, same⟩
    | addHeader name value =>
      rw [call, addHeader_eq, OrderedMap.assignAll_append, ← headers]
      exact ⟨rfl, same⟩
    | setBody body action =>
      cases action with
      | none => exact ⟨headers, same⟩
      | resetContentLength =>
        simp only [call, setBody, if_true, addHeader_eq, OrderedMap.assignAll_append, ← headers]
        exact ⟨rfl, same⟩

def transferEncodingField : Bytes := Bytes.ofAscii "Transfer-Encoding"

def valuesOf (field : Bytes) (fields : List (Bytes × Bytes)) : List Bytes :=
  (fields.filter (OrderedMap.isAt foldCase field)).map Prod.snd

/-- The length of the body of a request that is not coded. -/
def requestLength (fields : List (Bytes × Bytes)) : Option Nat :=
  if valuesOf transferEncodingField fields ≠ [] then none
  else if valuesOf contentLengthField fields = [] then some 0
  else commonLength (valuesOf contentLengthField fields)

/-- A header block, the body, and what comes behind the request. -/
def readRequest (lenient : Bool) (input : Bytes) : Option (HeaderLines.Block × Bytes × Bytes) :=
  (readBlock lenient input).bind fun read =>
    (requestLength read.1.fields).bind fun length =>
      if length ≤ read.2.length then some (read.1, read.2.take length, read.2.drop length) else none

/-- A field that has no colon in its name and says nothing of the body. -/
def Call.Plain : Call → Prop
  | .addHeader name _ => (58 : UInt8) ∉ name ∧ foldCase name ≠ foldCase contentLengthField ∧
      foldCase name ≠ foldCase transferEncodingField
  | .setBody _ action => action = .resetContentLength
  | _ => True

theorem makeRequestBuffer_eq (server : Bytes) (made : List Call) :
    ((constructed server).calls made).makeRequestBuffer =
      blockText ((constructed server).block made) ++
        ((constructed server).calls made).requestBody := by
  obtain ⟨headers, same⟩ := calls_requestHeaders server made
  have body : (if ((constructed server).calls made).requestBody ≠ [] then
      ((constructed server).calls made).requestBody else []) =
        ((constructed server).calls made).requestBody := by
    split
    · rfl
    · rename_i none
      exact (not_ne_iff.mp none).symm
  have host : Bytes.ofAscii "Host:" = hostField ++ [58] := rfl
  have lines (entries : List (Bytes × Bytes)) : entries.flatMap headerLine =
      (entries.map HeaderLines.fieldText).flatMap (· ++ ChunkedCoding.crlf) := by
    rw [List.flatMap_map]
    rfl
  have server_ : (constructed server).server = server := rfl
  rw [makeRequestBuffer, body, headers, same, blockText, HeaderLines.lines, block, host, lines]
  simp only [List.flatMap_cons, List.map_cons, List.append_assoc, server_, HeaderLines.fieldText]
  rfl

/-- What the headers say of the body, and that their names have no colon. -/
structure Kept (r : Request) (announced : Bool) : Prop where
  long : announced = true →
    r.requestHeaders.find contentLengthField = some (contentLengthField, decimal r.requestBody.length)
  silent : announced = false → r.requestHeaders.find contentLengthField = none
  uncoded : r.requestHeaders.find transferEncodingField = none
  names : ∀ e ∈ r.requestHeaders.entries, (58 : UInt8) ∉ e.1

theorem kept_resetHeaders (r : Request) : r.resetHeaders.Kept false := by
  refine ⟨fun announced => Bool.noConfusion announced, fun _ => rfl, rfl, ?_⟩
  intro e member
  rw [List.mem_singleton.mp member]
  decide

theorem Kept.setBody {r : Request} (kept : r.Kept announced) (body : Bytes) :
    (r.setBody body .resetContentLength).Kept true := by
  simp only [Request.setBody, if_true, addHeader_eq]
  refine ⟨fun _ => ?_, fun announced => Bool.noConfusion announced, ?_, ?_⟩
  · rw [OrderedMap.find_assign_self]
    cases announced with
    | true => rw [kept.long rfl]; rfl
    | false => rw [kept.silent rfl]; rfl
  · rw [OrderedMap.find_assign_other _ _ (by decide)]
    exact kept.uncoded
  · intro e member
    rcases OrderedMap.mem_assign member with old | ⟨-, new | ⟨f, old, same⟩⟩
    · exact kept.names e old
    · rw [new]
      decide
    · rw [same]
      exact kept.names f old

theorem Kept.addHeader {r : Request} (kept : r.Kept announced) {name : Bytes} (value : Bytes)
    (plain : (Call.addHeader name value).Plain) : (r.addHeader name value).Kept announced := by
  obtain ⟨noColon, notLength, notCoding⟩ := plain
  rw [addHeader_eq]
  refine ⟨fun some_ => ?_, fun none => ?_, ?_, ?_⟩
  · rw [OrderedMap.find_assign_other _ _ notLength]
    exact kept.long some_
  · rw [OrderedMap.find_assign_other _ _ notLength]
    exact kept.silent none
  · rw [OrderedMap.find_assign_other _ _ notCoding]
    exact kept.uncoded
  · intro e member
    rcases OrderedMap.mem_assign member with old | ⟨-, new | ⟨f, old, same⟩⟩
    · exact kept.names e old
    · rw [new]
      exact noColon
    · rw [same]
      exact kept.names f old

theorem kept_calls (server : Bytes) {made : List Call} (plain : ∀ call ∈ made, call.Plain) :
    ((constructed server).calls made).Kept (announces made) := by
  induction made using List.reverseRecOn with
  | nil => exact kept_resetHeaders { server := server }
  | append_singleton made last ih =>
    have kept := ih fun call member => plain call (List.mem_append_left _ member)
    have here := plain last (List.mem_append_right _ (List.mem_singleton_self last))
    have split : (constructed server).calls (made ++ [last]) =
        ((constructed server).calls made).call last := List.foldl_append
    rw [split, announces_concat]
    cases last with
    | setMethod method uri => exact ⟨kept.long, kept.silent, kept.uncoded, kept.names⟩
    | setHTTPVersion version => exact ⟨kept.long, kept.silent, kept.uncoded, kept.names⟩
    | resetHeaders => exact kept_resetHeaders _
    | addHeader name value => exact kept.addHeader value here
    | setBody body action =>
      have reset : action = .resetContentLength := here
      rw [reset]
      exact kept.setBody body

theorem valuesOf_block (server : Bytes) (made : List Call) {field : Bytes}
    (other : foldCase hostField ≠ foldCase field) :
    valuesOf field ((constructed server).block made).fields =
      (((constructed server).calls made).requestHeaders.find field).toList.map Prod.snd := by
  have host : OrderedMap.isAt foldCase field (hostField, server) = false :=
    Bool.eq_false_iff.mpr fun same => other (OrderedMap.isAt_iff.mp same)
  have fields : ((constructed server).block made).fields = (hostField, server) ::
      (.assignAll .empty (assigned made) : ICHeaders).entries := rfl
  obtain ⟨headers, -⟩ := calls_requestHeaders server made
  rw [valuesOf, fields, List.filter_cons_of_neg (Bool.eq_false_iff.mp host), ← headers,
    OrderedMap.filter_isAt]

/-- A block whose lines are read as they were written, with what comes behind it. -/
theorem readBlock_of_open {block : HeaderLines.Block} (started : block.start ≠ [])
    (noColon : ∀ field ∈ block.fields, (58 : UInt8) ∉ field.1)
    (open_ : ∀ line ∈ HeaderLines.lines block, ¬HasLineEnd lenient line) (rest : Bytes) :
    readBlock lenient (blockText block ++ rest) = some (block, rest) := by
  have some_ : ∀ line ∈ HeaderLines.lines block, line ≠ [] := by
    intro line member
    rcases List.mem_cons.mp member with rfl | later
    · exact started
    · obtain ⟨field, -, rfl⟩ := List.mem_map.mp later
      exact HeaderLines.fieldText_ne_nil field
  have lines : HeaderLines.readLines lenient ((blockText block ++ rest).length + 1)
      (blockText block ++ rest) = some (block.start :: block.fields.map HeaderLines.fieldText, rest) :=
    HeaderLines.readLines_of_open some_ open_ (HeaderLines.length_lt_blockText block rest) rest
  rw [readBlock, lines, Option.bind_some]
  simp only [HeaderLines.mapM_splitField noColon, Option.map_some]

/-- The length of the body, if it is announced. -/
theorem requestLength_block (server : Bytes) {made : List Call}
    (plain : ∀ call ∈ made, call.Plain) :
    requestLength ((constructed server).block made).fields =
      some (if announces made then ((constructed server).calls made).requestBody.length else 0) := by
  have kept := kept_calls server plain
  have coding : valuesOf transferEncodingField ((constructed server).block made).fields = [] := by
    rw [valuesOf_block server made (by decide), kept.uncoded]
    rfl
  have length := valuesOf_block server made (show foldCase hostField ≠ foldCase contentLengthField by
    decide)
  rw [requestLength, if_neg (not_not_intro coding), length]
  cases announced : announces made with
  | true =>
    rw [kept.long announced]
    have digits : (decimal ((constructed server).calls made).requestBody.length).all
        ResponseFraming.isDigit = true :=
      List.all_eq_true.mpr (ResponseFraming.isDigit_decimal _)
    simp only [Option.toList_some, List.map_cons, List.map_nil, reduceCtorEq, if_false, if_true,
      commonLength, List.all_nil, digits, ResponseFraming.decimalNumber_decimal, and_self,
      ne_eq, ResponseFraming.decimal_ne_nil, not_false_eq_true]
  | false =>
    rw [kept.silent announced]
    rfl

/-- The block is read as it was written, and the body with nothing behind it, exactly if no
line ends before its end, no name has a colon and the fields say how long the body is. -/
theorem readRequest_block_iff (lenient : Bool) (server : Bytes) (made : List Call) :
    readRequest lenient ((constructed server).calls made).makeRequestBuffer =
        some ((constructed server).block made, ((constructed server).calls made).requestBody, []) ↔
      (∀ line ∈ HeaderLines.lines ((constructed server).block made), ¬HasLineEnd lenient line) ∧
        (∀ field ∈ ((constructed server).block made).fields, (58 : UInt8) ∉ field.1) ∧
        requestLength ((constructed server).block made).fields =
          some ((constructed server).calls made).requestBody.length := by
  have started : ((constructed server).block made).start ≠ [] := by
    simp [block]
  rw [makeRequestBuffer_eq, readRequest]
  constructor
  · intro received
    obtain ⟨⟨found, behind⟩, first, second⟩ := Option.bind_eq_some_iff.mp received
    obtain ⟨length, announced, taken⟩ := Option.bind_eq_some_iff.mp second
    split at taken
    · rename_i enough
      obtain ⟨rfl, rest⟩ := Prod.mk.inj (Option.some.inj taken)
      obtain ⟨body, none⟩ := Prod.mk.inj rest
      have noColon := HeaderLines.readBlock_noColon first
      have read := @HeaderLines.readBlock_iff lenient _ started noColon
        ((constructed server).calls made).requestBody
      refine ⟨read.mp (by rw [first]; rfl), noColon, ?_⟩
      rw [announced, ← body, List.length_take, Nat.min_eq_left enough]
    · cases taken
  · rintro ⟨open_, noColon, long⟩
    rw [readBlock_of_open started noColon open_, Option.bind_some, long, Option.bind_some,
      if_pos (Nat.le_refl _), List.take_length, List.drop_length]

/-- Whatever is called in whatever order: a server reads the headers that the calls say, each
with its last value, and the body, with nothing behind it, exactly if no line ends before its
end, no name has a colon and the headers say how long the body is. Where only `setBody` says
something of the body, the last is so if the body is empty or was set behind the last reset
of the headers. -/
theorem readRequest_calls_iff (lenient : Bool) (server : Bytes) (made : List Call) :
    (readRequest lenient ((constructed server).calls made).makeRequestBuffer =
        some ((constructed server).block made, ((constructed server).calls made).requestBody, []) ↔
      (∀ line ∈ HeaderLines.lines ((constructed server).block made), ¬HasLineEnd lenient line) ∧
        (∀ field ∈ ((constructed server).block made).fields, (58 : UInt8) ∉ field.1) ∧
        requestLength ((constructed server).block made).fields =
          some ((constructed server).calls made).requestBody.length) ∧
    ((∀ call ∈ made, call.Plain) →
      (readRequest lenient ((constructed server).calls made).makeRequestBuffer =
          some ((constructed server).block made, ((constructed server).calls made).requestBody, []) ↔
        (∀ line ∈ HeaderLines.lines ((constructed server).block made), ¬HasLineEnd lenient line) ∧
          (announces made = true ∨ ((constructed server).calls made).requestBody = []))) := by
  have general := readRequest_block_iff lenient server made
  refine ⟨general, fun plain => general.trans (and_congr_right fun _ => ?_)⟩
  have kept := kept_calls server plain
  obtain ⟨headers, -⟩ := calls_requestHeaders server made
  have noColon : ∀ field ∈ ((constructed server).block made).fields, (58 : UInt8) ∉ field.1 := by
    intro field member
    rcases List.mem_cons.mp member with rfl | later
    · exact (by decide : (58 : UInt8) ∉ hostField)
    · rw [← headers] at later
      exact kept.names field later
  rw [and_iff_right noColon, requestLength_block server plain, Option.some.injEq]
  cases announces made with
  | true => exact iff_of_true rfl (.inl rfl)
  | false =>
    rw [if_neg Bool.false_ne_true, or_iff_right Bool.false_ne_true, eq_comm,
      List.length_eq_zero_iff]

def bodyBehindReset : List Call :=
  [.setMethod (Bytes.ofAscii "POST") [], .addHeader (Bytes.ofAscii "user-agent") [120], .resetHeaders,
    .setBody [13, 10] .resetContentLength, .setBody [97] .resetContentLength]

theorem readRequest_bodyBehindReset :
    readRequest true ((constructed [104]).calls bodyBehindReset).makeRequestBuffer =
        some ((constructed [104]).block bodyBehindReset,
          ((constructed [104]).calls bodyBehindReset).requestBody, []) ↔
      (∀ line ∈ HeaderLines.lines ((constructed [104]).block bodyBehindReset),
        ¬HasLineEnd true line) ∧
        (announces bodyBehindReset = true ∨
          ((constructed [104]).calls bodyBehindReset).requestBody = []) :=
  (readRequest_calls_iff true [104] bodyBehindReset).2 (by
    simp only [bodyBehindReset, List.forall_mem_cons, Call.Plain, true_and]
    exact ⟨by decide, List.forall_mem_nil _⟩)

end Request
end Da4qi4.Client
