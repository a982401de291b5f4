import Da4qi4.Redis.Resp

/-! Commands on the wire. They are arrays of bulk strings, so what a reply parser makes
of one says what a server makes of it: the arguments, whatever octets they have. -/
namespace Da4qi4.Redis

/-- An argument; a `std::string` has room for less than 2^63 octets. -/
structure RedisBuffer where
  data : Bytes
  fits : data.length < 2 ^ 63

/-- The arguments of a command, in a `std::deque`. -/
structure CommandItems where
  items : List RedisBuffer
  fits : items.length < 2 ^ 63

namespace CommandItems

def texts (c : CommandItems) : List Bytes := c.items.map RedisBuffer.data

/-- The command as the protocol writes it. -/
def resp (c : CommandItems) : Resp := .array (c.texts.map .bulk)

theorem encodeAll_bulk (texts : List Bytes) : Resp.encodeAll (texts.map .bulk) =
    texts.flatMap fun item => [bulkReply] ++ decimal item.length ++ crlf ++ item ++ crlf := by
  induction texts with
  | nil => rfl
  | cons text texts ih =>
    rw [List.map_cons, Resp.encodeAll, ih, List.flatMap_cons, Resp.encode]
    rfl

theorem makeCommand_eq_encode (texts : List Bytes) :
    makeCommand texts = (Resp.array (texts.map .bulk)).encode := by
  rw [Resp.encode, encodeAll_bulk, List.length_map, makeCommand]
  simp only [List.append_assoc, List.cons_append, List.nil_append]

theorem valueAll_bulk (texts : List Bytes) :
    Resp.valueAll (texts.map .bulk) = texts.map fun text => .bytes text false := by
  induction texts with
  | nil => rfl
  | cons text texts ih =>
    rw [List.map_cons, Resp.valueAll, ih]
    rfl

theorem numbersAll_bulk (texts : List Bytes) :
    Resp.numbersAll (texts.map .bulk) = texts.map fun text => (text.length : Int) := by
  induction texts with
  | nil => rfl
  | cons text texts ih =>
    rw [List.map_cons, Resp.numbersAll, ih]
    rfl

theorem linesAll_bulk (texts : List Bytes) : Resp.linesAll (texts.map .bulk) = [] := by
  induction texts with
  | nil => rfl
  | cons text texts ih =>
    rw [List.map_cons, Resp.linesAll, ih]
    rfl

theorem resp_fits (c : CommandItems) : c.resp.Fits := by
  intro n member
  rw [resp, Resp.numbers, numbersAll_bulk, List.mem_cons, List.mem_map] at member
  rcases member with rfl | ⟨text, known, rfl⟩
  · have bound := c.fits
    rw [List.length_map, texts, List.length_map]
    omega
  · obtain ⟨item, -, rfl⟩ := List.mem_map.mp known
    have bound := item.fits
    omega

theorem resp_printable (c : CommandItems) : c.resp.Printable := by
  intro text member
  rw [resp, Resp.lines, linesAll_bulk] at member
  cases member

/-- The parser reads the whole command, and exactly its arguments. -/
theorem parse_makeCommand (ndebug : Bool) (c : CommandItems) :
    ∃ final, RedisParser.fresh.parse ndebug (makeCommand c.texts) =
        some ⟨(makeCommand c.texts).length, .completed, final⟩ ∧
      final.result = .array (c.texts.map fun text => .bytes text false) := by
  obtain ⟨final, parsed, result⟩ := RedisParser.parse_encode ndebug c.resp_fits c.resp_printable []
  rw [List.append_nil] at parsed
  refine ⟨final, ?_, ?_⟩
  · rw [makeCommand_eq_encode]
    exact parsed
  · rw [result, resp, Resp.value, valueAll_bulk]

/-- `SET`, a key with a line end in it, and an empty value. -/
def setEmpty : CommandItems :=
  ⟨[⟨Bytes.ofAscii "SET", by decide⟩, ⟨Bytes.ofAscii "a\r\nb", by decide⟩, ⟨[], by decide⟩],
    by decide⟩

theorem parse_makeCommand_setEmpty :
    setEmpty.texts = [Bytes.ofAscii "SET", Bytes.ofAscii "a\r\nb", []] ∧
    ∃ final, RedisParser.fresh.parse true (makeCommand setEmpty.texts) =
        some ⟨(makeCommand setEmpty.texts).length, .completed, final⟩ ∧
      final.result = .array (setEmpty.texts.map fun text => .bytes text false) :=
  ⟨rfl, parse_makeCommand true setEmpty⟩

end CommandItems
end Da4qi4.Redis
