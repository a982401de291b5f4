import Da4qi4.Http.Request
import Mathlib.Logic.Function.Basic

/-! `http_parser_parse_url`: two automata, one over a target and one over its server
part, that note where the fields begin and how long they are, in 16 bits each. A target
without a schema is a path with what follows it. -/
namespace Da4qi4.UrlParser

inductive HostState where
  | userinfoStart | userinfo | hostStart | hostV6Start | host | hostV6 | hostV6End
  | hostV6ZoneStart | hostV6Zone | hostPortStart | hostPort
  deriving DecidableEq, Repr

inductive State where
  | spacesBeforeUrl | schema | schemaSlash | schemaSlashSlash | serverStart | server
  | serverWithAt | path | queryStringStart | queryString | fragmentStart | fragment
  deriving DecidableEq, Repr

inductive UrlField where
  | schema | host | port | path | query | fragment | userinfo
  deriving DecidableEq, Repr

structure FieldData where
  off : UInt16
  len : UInt16
  deriving DecidableEq, Repr

/-- A field that is not set has no data. -/
structure HttpParserUrl where
  port : UInt16 := 0
  fields : UrlField → Option FieldData := fun _ => none

def normalUrlChar : List UInt8 :=
  [0, 0x12, 0, 0, 0xf6, 255, 255, 127, 255, 255, 255, 255, 255, 255, 255, 127,
    0, 0, 0, 0, 0, 0, 0, 0, 0, 0, 0, 0, 0, 0, 0, 0]

def bitAt (a : List UInt8) (i : UInt8) : Bool :=
  a.getD (i.toNat / 8) 0 &&& (1 <<< (i % 8)) != 0

def lower (c : UInt8) : UInt8 := c ||| 0x20

def isAlpha (c : UInt8) : Bool := 97 ≤ lower c && lower c ≤ 122

def isNum (c : UInt8) : Bool := 48 ≤ c && c ≤ 57

def isAlphanum (c : UInt8) : Bool := isAlpha c || isNum c

def isHex (c : UInt8) : Bool := isNum c || (97 ≤ lower c && lower c ≤ 102)

def isMark (c : UInt8) : Bool := (Bytes.ofAscii "-_.!~*'()").contains c

def isUserinfoChar (c : UInt8) : Bool :=
  isAlphanum c || isMark c || (Bytes.ofAscii "%;:&=+$,").contains c

def isUrlChar (c : UInt8) : Bool := bitAt normalUrlChar c || c &&& 0x80 != 0

def isHostChar (c : UInt8) : Bool := isAlphanum c || (Bytes.ofAscii ".-_").contains c

/-- Of a zone: 1*( unreserved / pct-encoded). -/
def isZoneChar (c : UInt8) : Bool := isAlphanum c || (Bytes.ofAscii "%.-_~").contains c

def isV6Char (c : UInt8) : Bool := isHex c || c = 58 || c = 46

/-- `none` is `s_http_host_dead`. -/
def parseHostChar (s : HostState) (ch : UInt8) : Option HostState :=
  match s with
  | .userinfo | .userinfoStart =>
    if ch = 64 then some .hostStart
    else if isUserinfoChar ch then some .userinfo
    else none
  | .hostStart =>
    if ch = 91 then some .hostV6Start
    else if isHostChar ch then some .host
    else none
  | .host =>
    if isHostChar ch then some .host
    else if ch = 58 then some .hostPortStart
    else none
  | .hostV6End => if ch = 58 then some .hostPortStart else none
  | .hostV6 =>
    if ch = 93 then some .hostV6End
    else if isV6Char ch then some .hostV6
    else if ch = 37 then some .hostV6ZoneStart
    else none
  | .hostV6Start => if isV6Char ch then some .hostV6 else none
  | .hostV6Zone =>
    if ch = 93 then some .hostV6End
    else if isZoneChar ch then some .hostV6Zone
    else none
  | .hostV6ZoneStart => if isZoneChar ch then some .hostV6Zone else none
  | .hostPort | .hostPortStart => if isNum ch then some .hostPort else none

/-- `none` is `s_dead`. -/
def parseUrlChar (s : State) (ch : UInt8) : Option State :=
  if ch = 32 ∨ ch = 13 ∨ ch = 10 then none
  else
    match s with
    | .spacesBeforeUrl =>
      if ch = 47 ∨ ch = 42 then some .path
      else if isAlpha ch then some .schema
      else none
    | .schema =>
      if isAlpha ch then some .schema
      else if ch = 58 then some .schemaSlash
      else none
    | .schemaSlash => if ch = 47 then some .schemaSlashSlash else none
    | .schemaSlashSlash => if ch = 47 then some .serverStart else none
    | .serverWithAt | .serverStart | .server =>
      if s = .serverWithAt ∧ ch = 64 then none
      else if ch = 47 then some .path
      else if ch = 63 then some .queryStringStart
      else if ch = 64 then some .serverWithAt
      else if isUserinfoChar ch ∨ ch = 91 ∨ ch = 93 then some .server
      else none
    | .path =>
      if isUrlChar ch then some .path
      else if ch = 63 then some .queryStringStart
      else if ch = 35 then some .fragmentStart
      else none
    | .queryStringStart | .queryString =>
      if isUrlChar ch then some .queryString
      else if ch = 63 then some .queryString
      else if ch = 35 then some .fragmentStart
      else none
    | .fragmentStart =>
      if isUrlChar ch then some .fragment
      else if ch = 63 then some .fragment
      else if ch = 35 then some .fragmentStart
      else none
    | .fragment => if isUrlChar ch ∨ ch = 63 ∨ ch = 35 then some .fragment else none

/-- The field that a state is in, delimiters apart. -/
def State.field : State → Option UrlField
  | .schema => some .schema
  | .serverWithAt | .server => some .host
  | .path => some .path
  | .queryString => some .query
  | .fragment => some .fragment
  | .spacesBeforeUrl | .schemaSlash | .schemaSlashSlash | .serverStart | .queryStringStart
  | .fragmentStart => none

namespace HttpParserUrl

def set (u : HttpParserUrl) (uf : UrlField) (data : Option FieldData) : HttpParserUrl :=
  { u with fields := Function.update u.fields uf data }

/-- The first character of a field. -/
def start (u : HttpParserUrl) (uf : UrlField) (off : Nat) : HttpParserUrl :=
  u.set uf (some ⟨off.toUInt16, 1⟩)

def grow (u : HttpParserUrl) (uf : UrlField) : HttpParserUrl :=
  u.set uf ((u.fields uf).map fun d => { d with len := d.len + 1 })

def move (u : HttpParserUrl) (uf : UrlField) (off : Nat) : HttpParserUrl :=
  u.set uf ((u.fields uf).map fun d => { d with off := off.toUInt16 })

def empty (u : HttpParserUrl) (uf : UrlField) : HttpParserUrl :=
  u.set uf ((u.fields uf).map fun d => { d with len := 0 })

def part (u : HttpParserUrl) (buf : Bytes) (uf : UrlField) : Option Bytes :=
  (u.fields uf).map fun d => (buf.drop d.off.toNat).take d.len.toNat

def fieldSet (u : HttpParserUrl) : List UrlField :=
  [.schema, .host, .port, .path, .query, .fragment, .userinfo].filter fun uf => (u.fields uf).isSome

@[simp] theorem set_same (u : HttpParserUrl) (uf : UrlField) (data : Option FieldData) :
    (u.set uf data).fields uf = data := Function.update_self ..

@[simp] theorem set_other (u : HttpParserUrl) {uf other : UrlField} (apart : other ≠ uf)
    (data : Option FieldData) : (u.set uf data).fields other = u.fields other :=
  Function.update_of_ne apart ..

end HttpParserUrl

def hostStep (u : HttpParserUrl) (s new : HostState) (p : Nat) : HttpParserUrl :=
  match new with
  | .host => (if s ≠ .host then u.move .host p else u).grow .host
  | .hostV6 => (if s ≠ .hostV6 then u.move .host p else u).grow .host
  | .hostV6ZoneStart | .hostV6Zone => u.grow .host
  | .hostPort => if s ≠ .hostPort then u.start .port p else u.grow .port
  | .userinfo => if s ≠ .userinfo then u.start .userinfo p else u.grow .userinfo
  | .userinfoStart | .hostStart | .hostV6Start | .hostV6End | .hostPortStart => u

def scanHost (u : HttpParserUrl) (s : HostState) (p : Nat) :
    Bytes → Option (HttpParserUrl × HostState)
  | [] => some (u, s)
  | ch :: rest => (parseHostChar s ch).bind fun new => scanHost (hostStep u s new p) new (p + 1) rest

/-- A server part may end behind a host, behind a bracket and behind a port. -/
def HostState.Ends (s : HostState) : Prop := s = .host ∨ s = .hostV6End ∨ s = .hostPort

instance (s : HostState) : Decidable s.Ends := inferInstanceAs (Decidable (_ ∨ _ ∨ _))

/-- `none` is a failure, or that no host is set. -/
def httpParseHost (buf : Bytes) (u : HttpParserUrl) (foundAt : Bool) : Option HttpParserUrl :=
  (u.fields .host).bind fun d =>
    (scanHost (u.empty .host) (if foundAt then .userinfoStart else .hostStart) d.off.toNat
      ((buf.drop d.off.toNat).take d.len.toNat)).bind fun r =>
        if r.2.Ends then some r.1 else none

def scanUrl (u : HttpParserUrl) (oldUf : Option UrlField) (foundAt : Bool) (s : State) (p : Nat) :
    Bytes → Option (HttpParserUrl × Bool)
  | [] => some (u, foundAt)
  | ch :: rest =>
    (parseUrlChar s ch).bind fun s =>
      match s.field with
      | none => scanUrl u oldUf foundAt s (p + 1) rest
      | some uf =>
        scanUrl (if oldUf = some uf then u.grow uf else u.start uf p) (some uf)
          (foundAt || s = .serverWithAt) s (p + 1) rest

/-- A port is at most 2^16 - 1; characters are signed. -/
def portNumber (v : UInt64) : Bytes → Option UInt64
  | [] => some v
  | c :: rest =>
    let v := v * 10 + .ofInt (c.toInt8.toInt - 48)
    if 0xffff < v then none else portNumber v rest

def HttpParserUrl.takePort (u : HttpParserUrl) (buf : Bytes) : Option HttpParserUrl :=
  match u.part buf .port with
  | none => some u
  | some digits => (portNumber 0 digits).map fun v => { u with port := v.toUInt16 }

def httpParserParseUrl (buf : Bytes) (isConnect : Bool) : Option HttpParserUrl :=
  if buf = [] then none
  else
    (scanUrl {} none false (if isConnect then .serverStart else .spacesBeforeUrl) 0 buf).bind
      fun r =>
        let host := (r.1.fields .host).isSome
        if (r.1.fields .schema).isSome ∧ ¬host then none
        else
          (if host then httpParseHost buf r.1 r.2 else some r.1).bind fun u =>
            if isConnect ∧ u.fieldSet ≠ [.host, .port] then none
            else u.takePort buf

/-- What the connection takes of a target. -/
def parseUrl (buf : Bytes) : Option UrlParts :=
  (httpParserParseUrl buf false).map fun u => {
    schema := u.part buf .schema
    host := u.part buf .host
    port := u.port
    path := u.part buf .path
    query := u.part buf .query
    fragment := u.part buf .fragment
    userinfo := u.part buf .userinfo }

/-- The states behind the first character of a host. -/
def HostState.Named (s : HostState) : Prop :=
  s ≠ .userinfoStart ∧ s ≠ .userinfo ∧ s ≠ .hostStart ∧ s ≠ .hostV6Start

theorem HostState.Ends.named (ends : HostState.Ends s) : s.Named := by
  rcases ends with rfl | rfl | rfl
  · exact ⟨by decide, by decide, by decide, by decide⟩
  · exact ⟨by decide, by decide, by decide, by decide⟩
  · exact ⟨by decide, by decide, by decide, by decide⟩

/-- A host begins with one of its own characters. -/
theorem parseHostChar_named (parsed : parseHostChar s ch = some new) (named : new.Named) :
    new = .host ∨ new = .hostV6 ∨ s.Named := by
  cases s with
  | userinfoStart | userinfo =>
    simp only [parseHostChar] at parsed
    split at parsed
    · cases parsed
      exact absurd rfl named.2.2.1
    · split at parsed
      · cases parsed
        exact absurd rfl named.2.1
      · cases parsed
  | hostStart =>
    simp only [parseHostChar] at parsed
    split at parsed
    · cases parsed
      exact absurd rfl named.2.2.2
    · split at parsed
      · cases parsed
        exact .inl rfl
      · cases parsed
  | hostV6Start =>
    simp only [parseHostChar] at parsed
    split at parsed
    · cases parsed
      exact .inr (.inl rfl)
    · cases parsed
  | host | hostV6 | hostV6End | hostV6ZoneStart | hostV6Zone | hostPortStart | hostPort =>
    exact .inr (.inr ⟨by decide, by decide, by decide, by decide⟩)

/-- The data of the host behind a character. -/
def hostData (d : FieldData) (s new : HostState) (p : Nat) : FieldData :=
  if new = .host ∨ new = .hostV6 then ⟨if s = new then d.off else p.toUInt16, d.len + 1⟩
  else if new = .hostV6ZoneStart ∨ new = .hostV6Zone then ⟨d.off, d.len + 1⟩
  else d

theorem hostStep_host (u : HttpParserUrl) (s new : HostState) (p : Nat) :
    (hostStep u s new p).fields .host = (u.fields .host).map fun d => hostData d s new p := by
  have apart : UrlField.host ≠ .port ∧ UrlField.host ≠ .userinfo := by decide
  cases new with
  | host =>
    by_cases same : s = .host
    · simp [hostStep, hostData, HttpParserUrl.grow, same]
    · simp [hostStep, hostData, HttpParserUrl.grow, HttpParserUrl.move, same, Function.comp_def]
  | hostV6 =>
    by_cases same : s = .hostV6
    · simp [hostStep, hostData, HttpParserUrl.grow, same]
    · simp [hostStep, hostData, HttpParserUrl.grow, HttpParserUrl.move, same, Function.comp_def]
  | hostV6ZoneStart | hostV6Zone => simp [hostStep, hostData, HttpParserUrl.grow]
  | hostPort =>
    rw [hostStep]
    split
    · simp [HttpParserUrl.start, hostData, apart.1]
    · simp [HttpParserUrl.grow, hostData, apart.1]
  | userinfo =>
    rw [hostStep]
    split
    · simp [HttpParserUrl.start, hostData, apart.2]
    · simp [HttpParserUrl.grow, hostData, apart.2]
  | userinfoStart | hostStart | hostV6Start | hostV6End | hostPortStart =>
    simp [hostStep, hostData]

/-- The host as far as it has been read, `count` characters behind its beginning. -/
def HostRead (u : HttpParserUrl) (s : HostState) (off count : Nat) : Prop :=
  ∃ d, u.fields .host = some d ∧ d.len.toNat ≤ count ∧
    (s.Named → 0 < d.len.toNat ∧ d.off.toNat < off + count)

theorem toNat_succ {n : UInt16} (bound : n.toNat < 65535) : (n + 1).toNat = n.toNat + 1 := by
  have small : n.toNat + 1 < 2 ^ 16 := by omega
  rw [UInt16.toNat_add]
  exact Nat.mod_eq_of_lt small

theorem toUInt16_le (n : Nat) : n.toUInt16.toNat ≤ n := Nat.mod_le n _

theorem HostRead.step {off count : Nat} (read : HostRead u s off count) (bound : count < 65535)
    (parsed : parseHostChar s ch = some new) :
    HostRead (hostStep u s new (off + count)) new off (count + 1) := by
  obtain ⟨d, found, short, begun⟩ := read
  have longer := toNat_succ (n := d.len) (by omega)
  have here := toUInt16_le (off + count)
  refine ⟨hostData d s new (off + count), by rw [hostStep_host, found, Option.map_some], ?_, ?_⟩
  · rw [hostData]
    split
    · exact longer ▸ Nat.succ_le_succ short
    · split
      · exact longer ▸ Nat.succ_le_succ short
      · omega
  · intro named
    rw [hostData]
    split
    · refine ⟨longer ▸ Nat.succ_pos _, ?_⟩
      dsimp only
      split
      · rename_i same
        have before := begun (same ▸ named)
        omega
      · omega
    · rename_i others
      have before := begun (by
        rcases parseHostChar_named parsed named with host | v6 | before
        · exact absurd (.inl host) others
        · exact absurd (.inr v6) others
        · exact before)
      split
      · exact ⟨longer ▸ Nat.succ_pos _, by dsimp only; omega⟩
      · omega

theorem HostRead.scan {off count : Nat} (read : HostRead u s off count)
    (bound : count + chars.length ≤ 65535) (scanned : scanHost u s (off + count) chars = some r) :
    HostRead r.1 r.2 off (count + chars.length) := by
  induction chars generalizing u s count with
  | nil =>
    cases scanned
    exact read
  | cons ch chars ih =>
    rw [List.length_cons] at bound
    obtain ⟨new, parsed, rest⟩ := Option.bind_eq_some_iff.mp scanned
    rw [List.length_cons, ← Nat.add_assoc, Nat.add_right_comm]
    exact ih (read.step (by omega) parsed) (by omega) rest

theorem httpParseHost_part {buf : Bytes} (parsed : httpParseHost buf u foundAt = some v) :
    ∃ host, v.part buf .host = some host ∧ host ≠ [] := by
  obtain ⟨d, set, called⟩ := Option.bind_eq_some_iff.mp parsed
  obtain ⟨r, scanned, ended⟩ := Option.bind_eq_some_iff.mp called
  split at ended
  · rename_i ends
    cases ended
    have start : HostRead (u.empty .host) (if foundAt then .userinfoStart else .hostStart)
        d.off.toNat 0 := by
      refine ⟨⟨d.off, 0⟩, ?_, Nat.le_refl 0, ?_⟩
      · rw [HttpParserUrl.empty, HttpParserUrl.set_same, set, Option.map_some]
      · intro named
        split at named
        · exact absurd rfl named.1
        · exact absurd rfl named.2.2.1
    have bound : ((buf.drop d.off.toNat).take d.len.toNat).length ≤ 65535 := by
      have limit := d.len.toNat_lt
      rw [List.length_take]
      omega
    obtain ⟨e, host, short, begun⟩ := start.scan (by omega) scanned
    obtain ⟨some_, inside⟩ := begun ends.named
    refine ⟨(buf.drop e.off.toNat).take e.len.toNat, ?_, ?_⟩
    · rw [HttpParserUrl.part, host, Option.map_some]
    · rw [← List.length_pos_iff, List.length_take, List.length_drop]
      rw [List.length_take, List.length_drop] at inside short
      omega
  · cases ended

theorem set_isSome {u : HttpParserUrl} {uf : UrlField} (set : (u.fields uf).isSome = true)
    {other : UrlField} {data : Option FieldData} (data_set : other = uf → data.isSome = true) :
    ((u.set other data).fields uf).isSome = true := by
  by_cases same : other = uf
  · subst same
    rw [HttpParserUrl.set_same]
    exact data_set rfl
  · rw [HttpParserUrl.set_other u (Ne.symm same)]
    exact set

/-- A field that is set stays set. -/
theorem scanUrl_isSome {u : HttpParserUrl} {uf : UrlField} (set : (u.fields uf).isSome = true)
    (scanned : scanUrl u oldUf foundAt s p chars = some r) : (r.1.fields uf).isSome = true := by
  induction chars generalizing u oldUf foundAt s p with
  | nil =>
    cases scanned
    exact set
  | cons ch chars ih =>
    obtain ⟨new, -, rest⟩ := Option.bind_eq_some_iff.mp scanned
    split at rest
    · exact ih set rest
    · refine ih ?_ rest
      split
      · exact set_isSome set fun same => by rw [same, Option.isSome_map, set]
      · exact set_isSome set fun _ => rfl

/-- The states behind the beginning of a path. -/
def State.Behind (s : State) : Prop :=
  s = .path ∨ s = .queryStringStart ∨ s = .queryString ∨ s = .fragmentStart ∨ s = .fragment

/-- A path at the beginning of the target, and what is behind it. -/
structure Relative (u : HttpParserUrl) (oldUf : Option UrlField) (s : State) : Prop where
  schema : u.fields .schema = none
  host : u.fields .host = none
  path : ∃ len, u.fields .path = some ⟨0, len⟩
  behind : s.Behind
  current : s = .path → oldUf = some .path

theorem parseUrlChar_behind (behind : State.Behind s) (parsed : parseUrlChar s ch = some new) :
    new.Behind ∧ (new = .path → s = .path) := by
  simp only [parseUrlChar] at parsed
  split at parsed
  · cases parsed
  · rcases behind with rfl | rfl | rfl | rfl | rfl
    · grind [State.Behind]
    · grind [State.Behind]
    · grind [State.Behind]
    · grind [State.Behind]
    · grind [State.Behind]

/-- The fields behind the beginning of a path, which only one state adds to. -/
theorem State.Behind.field {s : State} {uf : UrlField} (behind : s.Behind) (field : s.field = some uf) :
    (uf = .path ∨ uf = .query ∨ uf = .fragment) ∧ (uf = .path → s = .path) := by
  rcases behind with rfl | rfl | rfl | rfl | rfl
  · exact ⟨.inl (Option.some.inj field).symm, fun _ => rfl⟩
  · cases field
  · cases field
    exact ⟨.inr (.inl rfl), fun path => by cases path⟩
  · cases field
  · cases field
    exact ⟨.inr (.inr rfl), fun path => by cases path⟩

theorem Relative.step (relative : Relative u oldUf s) (parsed : parseUrlChar s ch = some new) :
    (new.field = none → Relative u oldUf new) ∧ ∀ uf, new.field = some uf →
      Relative (if oldUf = some uf then u.grow uf else u.start uf p) (some uf) new := by
  obtain ⟨behind, back⟩ := parseUrlChar_behind relative.behind parsed
  obtain ⟨len, path⟩ := relative.path
  constructor
  · intro delimiter
    refine ⟨relative.schema, relative.host, relative.path, behind, ?_⟩
    rintro rfl
    cases delimiter
  · intro uf field
    obtain ⟨known, onPath⟩ := behind.field field
    have schema : UrlField.schema ≠ uf := by
      rcases known with rfl | rfl | rfl <;> decide
    have host : UrlField.host ≠ uf := by
      rcases known with rfl | rfl | rfl <;> decide
    have other (data : Option FieldData) : (u.set uf data).fields .schema = none ∧
        (u.set uf data).fields .host = none :=
      ⟨(u.set_other schema data).trans relative.schema, (u.set_other host data).trans relative.host⟩
    by_cases again : oldUf = some uf
    · rw [if_pos again]
      refine ⟨(other _).1, (other _).2, ?_, behind, ?_⟩
      · by_cases same : uf = .path
        · rw [same, HttpParserUrl.grow, HttpParserUrl.set_same, path]
          exact ⟨len + 1, rfl⟩
        · rw [HttpParserUrl.grow, HttpParserUrl.set_other u (Ne.symm same)]
          exact ⟨len, path⟩
      · rintro rfl
        exact field.symm
    · rw [if_neg again]
      have apart : UrlField.path ≠ uf := by
        rintro rfl
        exact again (relative.current (back (onPath rfl)))
      refine ⟨(other _).1, (other _).2, ?_, behind, ?_⟩
      · rw [HttpParserUrl.start, HttpParserUrl.set_other u apart]
        exact ⟨len, path⟩
      · rintro rfl
        exact field.symm

theorem Relative.scan (relative : Relative u oldUf s)
    (scanned : scanUrl u oldUf foundAt s p chars = some r) :
    ∃ oldUf s, Relative r.1 oldUf s := by
  induction chars generalizing u oldUf foundAt s p with
  | nil =>
    cases scanned
    exact ⟨oldUf, s, relative⟩
  | cons ch chars ih =>
    obtain ⟨new, parsed, rest⟩ := Option.bind_eq_some_iff.mp scanned
    obtain ⟨delimiter, inField⟩ := relative.step (p := p) parsed
    split at rest
    · rename_i none
      exact ih (delimiter none) rest
    · rename_i uf field
      exact ih (inField uf field) rest

theorem Relative.parts (relative : Relative u oldUf s) (buf : Bytes) :
    u.part buf .schema = none ∧ u.part buf .host = none ∧
      ∃ path, u.part buf .path = some path ∧ path <+: buf := by
  obtain ⟨len, path⟩ := relative.path
  refine ⟨?_, ?_, buf.take len.toNat, ?_, List.take_prefix _ _⟩
  · rw [HttpParserUrl.part, relative.schema, Option.map_none]
  · rw [HttpParserUrl.part, relative.host, Option.map_none]
  · rw [HttpParserUrl.part, path]
    rfl

/-- Behind its first character a target has a schema or is a path. -/
theorem scanUrl_first (scanned : scanUrl {} none false .spacesBeforeUrl 0 (ch :: chars) = some r) :
    (r.1.fields .schema).isSome = true ∨ ∃ oldUf s, Relative r.1 oldUf s := by
  obtain ⟨new, parsed, rest⟩ := Option.bind_eq_some_iff.mp scanned
  simp only [parseUrlChar] at parsed
  split at parsed
  · cases parsed
  · split at parsed
    · cases parsed
      have start : Relative (HttpParserUrl.start {} .path 0) (some .path) .path :=
        ⟨rfl, rfl, ⟨1, rfl⟩, .inl rfl, fun _ => rfl⟩
      exact .inr (start.scan rest)
    · split at parsed
      · cases parsed
        exact .inl (scanUrl_isSome rfl rest)
      · cases parsed

theorem takePort_part {u v : HttpParserUrl} {buf : Bytes} (taken : u.takePort buf = some v)
    (uf : UrlField) :
    v.part buf uf = u.part buf uf := by
  rw [HttpParserUrl.takePort] at taken
  split at taken
  · cases taken
    rfl
  · obtain ⟨n, -, rfl⟩ := Option.map_eq_some_iff.mp taken
    rfl

/-- A target that is accepted names a host, or has no schema and begins with its path. -/
theorem parseUrl_cases {target : Bytes} {parts : UrlParts} (parsed : parseUrl target = some parts) :
    (∃ host, parts.host = some host ∧ host ≠ []) ∨
      (parts.schema = none ∧ parts.host = none ∧ ∃ path, parts.path = some path ∧ path <+: target) := by
  obtain ⟨u, accepted, rfl⟩ := Option.map_eq_some_iff.mp parsed
  rw [httpParserParseUrl] at accepted
  split at accepted
  · cases accepted
  · rename_i some_
    obtain ⟨ch, chars, rfl⟩ := List.exists_cons_of_ne_nil some_
    obtain ⟨r, scanned, checked⟩ := Option.bind_eq_some_iff.mp accepted
    simp only at checked
    split at checked
    · cases checked
    · rename_i complete
      obtain ⟨v, hosted, ported⟩ := Option.bind_eq_some_iff.mp checked
      rw [if_neg fun connect => Bool.false_ne_true connect.1] at ported
      rcases scanUrl_first scanned with schema | ⟨oldUf, s, relative⟩
      · have host : (r.1.fields .host).isSome = true := by
          by_contra missing
          exact complete ⟨schema, missing⟩
        rw [if_pos host] at hosted
        obtain ⟨name, part, filled⟩ := httpParseHost_part hosted
        exact .inl ⟨name, (takePort_part ported .host).trans part, filled⟩
      · rw [relative.host] at hosted
        cases hosted
        obtain ⟨schema, host, path, begins⟩ := relative.parts (ch :: chars)
        refine .inr ⟨?_, ?_, path, ?_, begins.2⟩
        · exact (takePort_part ported .schema).trans schema
        · exact (takePort_part ported .host).trans host
        · exact (takePort_part ported .path).trans begins.1

example : (parseUrl (Bytes.ofAscii "http://[::1%25en0]:80/a?b#c")).map UrlParts.host =
    some (some (Bytes.ofAscii "::1%25en0")) := by decide

end Da4qi4.UrlParser
