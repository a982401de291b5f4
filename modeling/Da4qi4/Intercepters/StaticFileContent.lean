import Da4qi4.Http.ConnectionChunked
import Da4qi4.Intercepters.StaticFile

/-! What a client gets of a file: however large it is, the interceptor cuts it into
bodies, and the connection writes them as one message. -/

/-- Pieces of a list, one after another. -/
theorem flatten_toChunks_go (n : Nat) (l : List α) (piece : Array α) (pieces : Array (List α)) :
    (List.toChunks.go n l piece pieces).flatten = pieces.toList.flatten ++ piece.toList ++ l := by
  induction l generalizing piece pieces with
  | nil => simp [List.toChunks.go]
  | cons a l ih =>
    rw [List.toChunks.go]
    split
    · simp [ih]
    · simp [ih]

theorem flatten_toChunks (n : Nat) (l : List α) : (l.toChunks n).flatten = l := by
  cases l with
  | nil => cases n <;> rfl
  | cons a l =>
    cases n with
    | zero => simp [List.toChunks]
    | succ n =>
      rw [List.toChunks, flatten_toChunks_go]
      rfl
      nofun

namespace Da4qi4
open Utilities
open ResponseFraming (Method isBodiless)
open Response (IsLine)
namespace Intercepter
namespace StaticFile

/-- What has been read of a file is given, or kept for the next body. -/
theorem sent_readOneTime (pieces : List Bytes) (kept : Bytes) (response : Response) :
    ∃ bodies : List Bytes, (∀ body ∈ bodies, body ≠ []) ∧
      bodies.flatten ++ (pieces.foldl readOneTime (kept, response)).1 = kept ++ pieces.flatten ∧
      (pieces.foldl readOneTime (kept, response)).2 =
        bodies.foldl (fun r body => r.pushChunkedBody body false) response := by
  induction pieces generalizing kept response with
  | nil => exact ⟨[], List.forall_mem_nil _, by simp, rfl⟩
  | cons piece pieces ih =>
    rw [List.foldl_cons, readOneTime]
    split
    · rename_i enough
      obtain ⟨bodies, some_, same, sent⟩ := ih [] (response.pushChunkedBody (kept ++ piece) false)
      refine ⟨(kept ++ piece) :: bodies, List.forall_mem_cons.mpr ⟨?_, some_⟩, ?_, sent⟩
      · exact List.ne_nil_of_length_pos (Nat.lt_of_le_of_lt (Nat.zero_le _) enough)
      · rw [List.flatten_cons, List.append_assoc, same, List.flatten_cons]
        simp
    · obtain ⟨bodies, some_, same, sent⟩ := ih (kept ++ piece) response
      refine ⟨bodies, some_, ?_, sent⟩
      rw [same, List.flatten_cons, List.append_assoc]

/-- The bodies of a file are not empty, and they are its content. -/
theorem sendContent_given (response : Response) (content : Bytes) :
    ∃ bodies : List Bytes, (∀ body ∈ bodies, body ≠ []) ∧ bodies.flatten = content ∧
      sendContent response content = response.given bodies := by
  obtain ⟨bodies, some_, same, sent⟩ :=
    sent_readOneTime (content.toChunks maxByteReadOneTime) [] response
  rw [flatten_toChunks, List.nil_append] at same
  rw [sendContent]
  generalize (content.toChunks maxByteReadOneTime).foldl readOneTime ([], response) = left at *
  by_cases rest : left.1 = []
  · refine ⟨bodies, some_, ?_, ?_⟩
    · rwa [rest, List.append_nil] at same
    · rw [if_neg (not_not.mpr rest), Response.given, sent]
  · refine ⟨bodies ++ [left.1], ?_, ?_, ?_⟩
    · exact List.forall_mem_append.mpr ⟨some_, List.forall_mem_singleton.mpr rest⟩
    · rw [List.flatten_append, List.flatten_singleton]
      exact same
    · rw [if_pos rest, Response.given, List.foldl_append, List.foldl_cons, List.foldl_nil, sent]

theorem isLine_append (first : IsLine front) (second : IsLine back) : IsLine (front ++ back) := by
  simp only [IsLine, List.mem_append, not_or]
  exact ⟨⟨first.1, second.1⟩, first.2, second.2⟩

theorem isLine_decimal (n : Nat) : IsLine (ResponseFraming.decimal n) := by
  refine ⟨ResponseFraming.return_not_mem_decimal n, fun member => ?_⟩
  have digit := ResponseFraming.isDigit_decimal n 10 member
  cases digit

theorem ofAscii_repr (n : Nat) : Bytes.ofAscii n.repr = ResponseFraming.decimal n := by
  rw [Bytes.ofAscii, Nat.toList_repr]
  rfl

theorem isLine_toString (n : Int) : IsLine (Bytes.ofAscii (toString n)) := by
  cases n with
  | ofNat n =>
    have text : toString (Int.ofNat n) = n.repr := rfl
    rw [text, ofAscii_repr]
    exact isLine_decimal n
  | negSucc n =>
    have text : toString (Int.negSucc n) = "-" ++ (n + 1).repr := rfl
    rw [text, Bytes.ofAscii, String.toList_append, List.map_append]
    have digits : IsLine (Bytes.ofAscii (n + 1).repr) := by
      rw [ofAscii_repr]
      exact isLine_decimal (n + 1)
    exact isLine_append (by decide) digits

/-- What the interceptor adds stays on its lines. -/
theorem writable_headers {fs : FileSystem} {s : StaticFile} {response : Response}
    (writable : response.Writable cookies) (charset : IsLine response.charset)
    (mime : IsLine (fs.getMIMEType (fs.extension dstFile))) (content : Bytes) :
    ∃ marked : Response, marked.Chunkable cookies ∧ marked.statusCode = response.statusCode ∧
      marked.chunkedBodies = response.chunkedBodies ∧
      s.sendFile fs response dstFile content = sendContent marked content := by
  have typed : ∃ typed : Response, typed.Writable cookies ∧ typed.statusCode = response.statusCode ∧
      typed.chunkedBodies = response.chunkedBodies ∧
      (if fs.getMIMEType (fs.extension dstFile) ≠ [] then
        response.setContentType (fs.getMIMEType (fs.extension dstFile)) else response) = typed := by
    split
    · refine ⟨_, writable.appendHeader (by decide) (by decide) ?_, rfl, rfl, rfl⟩
      split
      · exact isLine_append mime (isLine_append (by decide) charset)
      · exact mime
    · exact ⟨response, writable, rfl, rfl, rfl⟩
  obtain ⟨typed, writable, status, bodies, same⟩ := typed
  have cached : (cacheControlMaxAge typed s.cacheMaxAge).Writable cookies :=
    writable.appendHeader (by decide) (by decide)
      (isLine_append (by decide) (isLine_toString s.cacheMaxAge))
  have kept (r : Response) : r.markChunked.statusCode = r.statusCode ∧
      r.markChunked.chunkedBodies = r.chunkedBodies := by
    rw [Response.markChunked]
    split
    · exact ⟨rfl, rfl⟩
    · exact ⟨rfl, rfl⟩
  obtain ⟨code, queue⟩ := kept (cacheControlMaxAge typed s.cacheMaxAge)
  refine ⟨_, cached.markChunked, code.trans status, queue.trans bodies, ?_⟩
  rw [sendFile, same]

/-- The stored path leads to a file that can be opened; its type is written on one line. -/
structure Leads (fs : FileSystem) (s : StaticFile) (status : StatusData) (dstFile content : Bytes) :
    Prop where
  found : status.found = true
  named : status.file ≠ []
  located : s.locateFile fs status.file = some (some dstFile)
  opened : fs.content dstFile = some content
  mime : IsLine (fs.getMIMEType (fs.extension dstFile))

/-- A context runs, and nothing is on its way. -/
structure Turned (c : Connection) : Prop where
  running : c.contexts = 1
  writes : c.writes = []
  posts : c.posts = []
  socket : c.socket = true

/-- A file that the interceptor has found arrives whole, in one message, whenever the
connection is told that it has written. -/
theorem served_arrives (env : Environment) {fs : FileSystem} {s : StaticFile} {status : StatusData}
    (leads : s.Leads fs status dstFile content) {response : Response}
    (writable : response.Writable cookies) (charset : IsLine response.charset)
    (fresh : response.chunkedBodies = []) (bodied : isBodiless method response.statusCode = false)
    (kept : method ≠ .connect) {c : Connection} (turned : Turned c)
    (passed : c.response = (s.onResponse fs (some status) response).response) :
    Transition.Inevitable (Streaming.OnWire.step env cookies) (fun _ _ _ => True)
      (fun t => t.streaming.Ended ∧ ResponseFraming.readMessage method t.wire =
        some (⟨response.statusCode, content, t.wire⟩, []))
      { streaming := { connection := c, bodies := [], stopped := true } } := by
  have there : ¬¬status.found = true := not_not.mpr leads.found
  simp only [onResponse, if_neg there, if_neg leads.named, leads.located, leads.opened] at passed
  obtain ⟨marked, chunkable, code, queue, sent⟩ :=
    writable_headers (s := s) writable charset leads.mime content
  obtain ⟨bodies, some_, whole, given⟩ := sendContent_given marked content
  have ready : Streaming.Opened { c with response := marked } :=
    ⟨chunkable.chunked, queue.trans fresh, turned.running, turned.writes, turned.posts,
      turned.socket⟩
  have behind : Streaming.given { c with response := marked } bodies =
      { streaming := { connection := c, bodies := [], stopped := true } } := by
    rw [Streaming.given, ← given, ← sent, ← passed]
  rw [← code] at bodied
  have arrives := Streaming.arrives_given env ready chunkable bodied kept some_
  rw [behind, whole] at arrives
  rw [← code]
  exact arrives

/-- A file system of one text. -/
def oneFile : FileSystem where
  hasFilename _ := true
  filename _ := [97]
  extension _ := Bytes.ofAscii ".txt"
  isThere file := some (file = Bytes.ofAscii "/srv/a")
  content file := if file = Bytes.ofAscii "/srv/a" then some [104, 105] else none
  getMIMEType _ := Bytes.ofAscii "text/plain"
  renderStatus code response := response.replyStatus code

def oneFileServed : Connection :=
  { response := (StaticFile.onResponse oneFile {} (some ⟨true, Bytes.ofAscii "/srv/a"⟩)
      .constructed).response
    contexts := 1 }

theorem served_arrives_oneFile :
    Transition.Inevitable (Streaming.OnWire.step (.single .root) []) (fun _ _ _ => True)
      (fun t => t.streaming.Ended ∧ ResponseFraming.readMessage .other t.wire =
        some (⟨200, [104, 105], t.wire⟩, []))
      { streaming := { connection := oneFileServed, bodies := [], stopped := true } } := by
  have leads : StaticFile.Leads oneFile {} ⟨true, Bytes.ofAscii "/srv/a"⟩ (Bytes.ofAscii "/srv/a")
      [104, 105] := ⟨rfl, by decide, by decide, by decide, by decide⟩
  have writable : Response.constructed.Writable [] :=
    ⟨by decide, by decide, by decide, List.forall_mem_nil _, by decide, by decide⟩
  have bodied : isBodiless .other Response.constructed.statusCode = false := by decide
  have kept : Method.other ≠ .connect := nofun
  have turned : Turned oneFileServed := ⟨rfl, rfl, rfl, rfl⟩
  exact served_arrives (.single .root) leads writable (by decide) rfl bodied kept turned rfl

end StaticFile
end Intercepter
end Da4qi4
