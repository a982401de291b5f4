import Da4qi4.Http.ConnectionTurns
import Da4qi4.Utilities.UrlDecoding

/-! Form data: the parameters of an encoded body, and the parts of a body in parts. What
names a part is in the parameters of its disposition, which is cut at every semicolon
before any quotes are looked at. -/
namespace Da4qi4
open Utilities

structure SubHeaders where
  value : Bytes := []
  headers : ICHeaders := .empty

namespace SubHeaders

def isEmpty (h : SubHeaders) : Bool := h.value.isEmpty

def quote : UInt8 := 34

/-- A pair of quotes around a value is taken off. -/
def unquoted (v : Bytes) : Bytes :=
  if 2 ≤ v.length ∧ v.head? = some quote ∧ v.getLast? = some quote then
    (v.drop 1).take (v.length - 2)
  else v

/-- One part of the value. -/
def add (h : SubHeaders) (p : Bytes) : SubHeaders :=
  match find p [equals] with
  | none => if h.value = [] then { h with value := p } else h
  | some pos =>
    let f := trim (p.take pos)
    let v := unquoted (trim (p.drop (pos + 1)))
    if f ≠ [] then { h with headers := h.headers.insert f v } else h

end SubHeaders

namespace MultiPart
open SubHeaders (quote)

def splitSubHeadersFromValue (value : Bytes) : SubHeaders :=
  (split value 59).foldl SubHeaders.add {}

def getSubHeaders (mp : MultiPart) (field : Bytes) : SubHeaders :=
  let value := getHeader mp.headers field
  if value ≠ [] then splitSubHeadersFromValue value else {}

inductive TransferResult where
  | transferNone | tranferFormdata | transferFileMemory | transferFileSaved
  deriving DecidableEq, Repr

/-- What `TransferMultiPartToFormDataItem` returns, and what it leaves of a part and of an
item; the part may be marked. -/
structure Transfer where
  done : Bool
  part : MultiPart
  marked : Option TransferResult
  item : FormDataItem

def dispositionField : Bytes := Bytes.ofAscii "Content-Disposition"

def nameParameter : Bytes := Bytes.ofAscii "name"

def filenameParameter : Bytes := Bytes.ofAscii "filename"

/-- The name of a file makes an item a file. -/
def named (fdi : FormDataItem) (h : SubHeaders) : FormDataItem × TransferResult :=
  match tryGetHeader h.headers filenameParameter with
  | some filename => ({ fdi with dataFlag := .isFileData, filename }, .transferFileMemory)
  | none => ({ fdi with dataFlag := .isData }, .tranferFormdata)

def transferToFormDataItem (mp : MultiPart) (fdi : FormDataItem) : Transfer :=
  let h := mp.getSubHeaders dispositionField
  if h.isEmpty ∨ iEquals h.value (Bytes.ofAscii "form-data") = false then ⟨false, mp, none, fdi⟩
  else
    let name := getHeader h.headers nameParameter
    if name = [] then ⟨false, mp, some .transferNone, fdi⟩
    else
      let (item, marked) := named { fdi with name } h
      let item := match tryGetHeader mp.headers (Bytes.ofAscii "Content-Type") with
        | some contentType => { item with contentType }
        | none => item
      ⟨true, { mp with data := [] }, some marked, { item with data := mp.data }⟩

end MultiPart

namespace SubHeaders

/-- A parameter as it stands behind a semicolon. -/
def parameterText (label v : Bytes) : Bytes := 32 :: (label ++ equals :: v)

theorem find_equals (free : equals ∉ front) (back : Bytes) :
    find (front ++ equals :: back) [equals] = some front.length := by
  refine find_eq_some_iff.mpr ⟨?_, ?_, ?_⟩
  · simp
  · simp
  · rintro j - before ⟨rest, same⟩
    have there : (front ++ equals :: back)[j]? = some equals := by
      rw [← List.head?_drop, ← same]
      rfl
    rw [List.getElem?_append_left before] at there
    exact free (List.mem_of_getElem? there)

theorem add_parameter (label : Bytes) (plain : ∀ c ∈ label, c ≠ equals ∧ isSpace c = false)
    (some_ : label ≠ []) (h : SubHeaders) (v : Bytes) :
    h.add (parameterText label v) =
      { h with headers := h.headers.insert label (unquoted (trim v)) } := by
  have free : equals ∉ 32 :: label := by
    intro member
    rcases List.mem_cons.mp member with blank | inside
    · exact absurd blank (by decide)
    · exact (plain _ inside).1 rfl
  have found : find (parameterText label v) [equals] = some (32 :: label).length :=
    find_equals free v
  have text : parameterText label v = (32 :: label) ++ ([equals] ++ v) := rfl
  have name : trim (32 :: label) = label := by
    rw [← List.singleton_append, trim_spaces (List.forall_mem_singleton.mpr rfl),
      trim_black fun c member => (plain c member).2]
  have behind : ((32 :: label) ++ ([equals] ++ v)).drop ((32 :: label).length + 1) = v := by
    rw [← List.append_assoc]
    exact List.drop_left' (by simp)
  rw [add, found]
  simp only
  rw [text, List.take_left, name, if_pos some_, behind]

theorem unquoted_quoted (v : Bytes) : unquoted (trim (quote :: v ++ [quote])) = v := by
  have whole : trim (quote :: v ++ [quote]) = quote :: v ++ [quote] := by
    apply trim_of_ends
    · rintro c ⟨⟩
      rfl
    · intro c last
      rw [List.getLast?_append] at last
      cases last
      rfl
  have last : (quote :: v ++ [quote]).getLast? = some quote := List.getLast?_concat
  rw [whole, unquoted, if_pos ⟨by simp, rfl, last⟩]
  simp

/-- A quote without another one stays. -/
theorem unquoted_open (free : quote ∉ v) : (unquoted (trim (quote :: v))).head? = some quote := by
  have begins : ∃ rest, trim (quote :: v) = quote :: rest ∧ ∀ c ∈ rest, c ∈ v := by
    have front : (quote :: v).dropWhile isSpace = quote :: v :=
      List.dropWhile_cons_of_neg (by decide)
    rw [trim, front, List.reverse_cons, List.dropWhile_append]
    split
    · exact ⟨[], rfl, fun c member => absurd member List.not_mem_nil⟩
    · refine ⟨(v.reverse.dropWhile isSpace).reverse, by simp, ?_⟩
      intro c member
      have inside := (List.dropWhile_sublist isSpace).subset (List.mem_reverse.mp member)
      exact List.mem_reverse.mp inside
  obtain ⟨rest, same, inside⟩ := begins
  rw [same, unquoted, if_neg]
  · rfl
  · rintro ⟨long, -, last⟩
    cases rest with
    | nil => simp at long
    | cons c rest =>
      rw [List.getLast?_cons_cons] at last
      exact free (inside quote (List.mem_of_getLast? last))

/-- What is there stays. -/
theorem lookup_foldl_add {key v : Bytes} (parts : List Bytes) {h : SubHeaders}
    (known : h.headers.lookup key = some v) :
    (parts.foldl add h).headers.lookup key = some v := by
  induction parts generalizing h with
  | nil => exact known
  | cons p parts ih =>
    apply ih
    rw [add]
    split
    · split
      · exact known
      · exact known
    · simp only
      split
      · rw [OrderedMap.lookup_insert]
        split
        · rename_i same
          rw [OrderedMap.lookup_congr _ same, known]
          rfl
        · exact known
      · exact known

theorem value_foldl_add (parts : List Bytes) {h : SubHeaders} (known : h.value ≠ []) :
    (parts.foldl add h).value = h.value := by
  induction parts generalizing h with
  | nil => rfl
  | cons p parts ih =>
    have kept : (h.add p).value = h.value := by
      rw [add]
      split
      · rw [if_neg known]
      · simp only
        split
        · rfl
        · rfl
    rw [List.foldl_cons, ih (kept.symm ▸ known), kept]

end SubHeaders

namespace MultiPart
open SubHeaders (quote parameterText unquoted)

/-- The disposition of a file, with its names in quotes. -/
def dispositionText (name filename : Bytes) : Bytes :=
  Bytes.ofAscii "form-data; name=\"" ++ name ++ Bytes.ofAscii "\"; filename=\"" ++ filename ++
    Bytes.ofAscii "\""

/-- The part became a file with these names. -/
structure IsFile (name filename : Bytes) (t : Transfer) : Prop where
  done : t.done = true
  name : t.item.name = name
  isFile : t.item.dataFlag = .isFileData
  filename : t.item.filename = filename

instance (name filename : Bytes) (t : Transfer) : Decidable (IsFile name filename t) :=
  decidable_of_iff (t.done = true ∧ t.item.name = name ∧ t.item.dataFlag = .isFileData ∧
    t.item.filename = filename)
    ⟨fun ⟨done, name, isFile, filename⟩ => ⟨done, name, isFile, filename⟩,
      fun t => ⟨t.done, t.name, t.isFile, t.filename⟩⟩

theorem split_disposition (name filename : Bytes) :
    split (dispositionText name filename) 59 =
      Bytes.ofAscii "form-data" ::
        ((parameterText nameParameter (quote :: name ++ [quote])).splitOn 59 ++
          (parameterText filenameParameter (quote :: filename ++ [quote])).splitOn 59) := by
  have text : dispositionText name filename = Bytes.ofAscii "form-data" ++
      59 :: (parameterText nameParameter (quote :: name ++ [quote]) ++
        59 :: parameterText filenameParameter (quote :: filename ++ [quote])) := by
    simp [dispositionText, parameterText, nameParameter, filenameParameter, Bytes.ofAscii, quote,
      equals]
  rw [text, split, List.splitOn_append_cons_self_of_not_mem (by decide),
    List.splitOn_append_cons_self]

/-- The labels of parameters. -/
structure IsLabel (label : Bytes) : Prop where
  some_ : label ≠ []
  plain : ∀ c ∈ label, c ≠ equals ∧ isSpace c = false
  whole : (59 : UInt8) ∉ label

theorem isLabel_name : IsLabel nameParameter :=
  ⟨by decide, by simp [nameParameter, Bytes.ofAscii, equals, isSpace], by decide⟩

theorem isLabel_filename : IsLabel filenameParameter :=
  ⟨by decide, by simp [filenameParameter, Bytes.ofAscii, equals, isSpace], by decide⟩

/-- A value with a semicolon in it is cut there. -/
theorem split_parameter (isLabel : IsLabel label) (v : Bytes) :
    ((59 : UInt8) ∉ v ∧ (parameterText label (quote :: v ++ [quote])).splitOn 59 =
      [parameterText label (quote :: v ++ [quote])]) ∨
    ∃ front back pieces, v = front ++ 59 :: back ∧
      (parameterText label (quote :: v ++ [quote])).splitOn 59 =
        parameterText label (quote :: front) :: pieces := by
  have labelled {v : Bytes} (free : (59 : UInt8) ∉ v) : (59 : UInt8) ∉ parameterText label v := by
    simp [parameterText, isLabel.whole, free, equals]
  rcases FirstSplit.cut_cases (59 : UInt8) v with ⟨free, -⟩ | ⟨front, back, free, rfl, -⟩
  · have whole : (59 : UInt8) ∉ quote :: v ++ [quote] := by simp [free, quote]
    exact .inl ⟨free, List.splitOn_eq_singleton (labelled whole)⟩
  · have opened : (59 : UInt8) ∉ quote :: front := by simp [free, quote]
    refine .inr ⟨front, back, (back ++ [quote]).splitOn 59, rfl, ?_⟩
    rw [← List.splitOn_append_cons_self_of_not_mem (labelled opened)]
    simp [parameterText]

/-- What a new label leads to: the value, if it has no semicolon, and else something that
begins with a quote. -/
theorem lookup_parameter (isLabel : IsLabel label) {h : SubHeaders}
    (new : h.headers.lookup label = none) (unquote : quote ∉ v) :
    ∃ u, (((parameterText label (quote :: v ++ [quote])).splitOn 59).foldl SubHeaders.add h).headers.lookup
        label = some u ∧ (u = v ↔ (59 : UInt8) ∉ v) ∧ (v ≠ [] → u ≠ []) := by
  have added (w : Bytes) : (h.add (parameterText label w)).headers.lookup label =
      some (unquoted (trim w)) := by
    rw [SubHeaders.add_parameter label isLabel.plain isLabel.some_, OrderedMap.lookup_insert,
      if_pos rfl, new]
    rfl
  rcases split_parameter isLabel v with ⟨free, pieces⟩ | ⟨front, back, rest, rfl, pieces⟩
  · have known := added (quote :: v ++ [quote])
    rw [SubHeaders.unquoted_quoted] at known
    refine ⟨v, ?_, iff_of_true rfl free, id⟩
    rw [pieces]
    exact known
  · have known := SubHeaders.lookup_foldl_add rest (added (quote :: front))
    have opened : (unquoted (trim (quote :: front))).head? = some quote :=
      SubHeaders.unquoted_open fun inside => unquote (List.mem_append_left _ inside)
    refine ⟨unquoted (trim (quote :: front)), ?_, iff_of_false ?_ (by simp), ?_⟩
    · rw [pieces]
      exact known
    · intro same
      rw [same] at opened
      exact unquote (List.mem_of_head? opened)
    · intro _ none
      rw [none] at opened
      cases opened

/-- The parameters of a disposition. -/
theorem subHeaders_disposition {name filename : Bytes} (unquotedName : quote ∉ name)
    (unquotedFilename : quote ∉ filename) :
    ∃ h u, splitSubHeadersFromValue (dispositionText name filename) = h ∧
      h.value = Bytes.ofAscii "form-data" ∧ h.headers.lookup nameParameter = some u ∧
      (u = name ↔ (59 : UInt8) ∉ name) ∧ (name ≠ [] → u ≠ []) ∧
      ((59 : UInt8) ∉ name → ∃ f, h.headers.lookup filenameParameter = some f ∧
        (f = filename ↔ (59 : UInt8) ∉ filename)) := by
  have start : SubHeaders.add {} (Bytes.ofAscii "form-data") =
      { value := Bytes.ofAscii "form-data" } := by
    rw [SubHeaders.add]
    have none : find (Bytes.ofAscii "form-data") [equals] = Option.none := by decide
    rw [none]
    rfl
  have split := split_disposition name filename
  obtain ⟨u, known, same, some_⟩ := lookup_parameter isLabel_name
    (h := { value := Bytes.ofAscii "form-data" }) rfl unquotedName
  refine ⟨_, u, rfl, ?_, ?_, same, some_, ?_⟩
  · rw [splitSubHeadersFromValue, split, List.foldl_cons, start]
    exact SubHeaders.value_foldl_add _ (by decide)
  · rw [splitSubHeadersFromValue, split, List.foldl_cons, start, List.foldl_append]
    exact SubHeaders.lookup_foldl_add _ known
  · intro free
    rcases split_parameter isLabel_name name with ⟨-, pieces⟩ | ⟨front, back, rest, cut, -⟩
    · rw [splitSubHeadersFromValue, split, List.foldl_cons, start, List.foldl_append, pieces,
        List.foldl_cons, List.foldl_nil,
        SubHeaders.add_parameter _ isLabel_name.plain isLabel_name.some_]
      have new : (SubHeaders.mk (Bytes.ofAscii "form-data") (OrderedMap.empty.insert nameParameter
          (unquoted (trim (quote :: name ++ [quote]))))).headers.lookup filenameParameter =
          none := by
        rw [OrderedMap.lookup_insert, if_neg (by decide)]
        rfl
      obtain ⟨f, found, whole, -⟩ := lookup_parameter isLabel_filename new unquotedFilename
      exact ⟨f, found, whole⟩
    · exact absurd (by simp [cut]) free

/-- What an item gets of the parameters. -/
theorem transfer_named {mp : MultiPart} (fdi : FormDataItem) {h : SubHeaders}
    (parameters : mp.getSubHeaders dispositionField = h)
    (value : h.value = Bytes.ofAscii "form-data") (known : h.headers.lookup nameParameter = some u)
    (some_ : u ≠ []) :
    (mp.transferToFormDataItem fdi).done = true ∧
    (mp.transferToFormDataItem fdi).item.name = u ∧
    ∀ f, h.headers.lookup filenameParameter = some f →
      (mp.transferToFormDataItem fdi).item.dataFlag = .isFileData ∧
      (mp.transferToFormDataItem fdi).item.filename = f := by
  have accepted : ¬(h.isEmpty = true ∨ iEquals h.value (Bytes.ofAscii "form-data") = false) := by
    rw [SubHeaders.isEmpty, value]
    decide
  have name : getHeader h.headers nameParameter = u := by rw [getHeader, known]; rfl
  rw [transferToFormDataItem, parameters]
  simp only [accepted, if_false, name, some_]
  refine ⟨trivial, ?_, ?_⟩
  · rw [named]
    split
    · split
      · rfl
      · rfl
    · split
      · rfl
      · rfl
  · intro f found
    have file : tryGetHeader h.headers filenameParameter = some f := found
    rw [named, file]
    split
    · exact ⟨rfl, rfl⟩
    · exact ⟨rfl, rfl⟩

/-- A part with a quoted name and a quoted file name becomes a file with these names
exactly if neither has a semicolon in it. -/
theorem isFile_iff (mp : MultiPart) (fdi : FormDataItem) (name filename : Bytes)
    (given : getHeader mp.headers dispositionField = dispositionText name filename)
    (some_ : name ≠ []) (unquotedName : quote ∉ name) (unquotedFilename : quote ∉ filename) :
    IsFile name filename (mp.transferToFormDataItem fdi) ↔
      (59 : UInt8) ∉ name ∧ (59 : UInt8) ∉ filename := by
  obtain ⟨h, u, parameters, value, known, same, uSome, fileOf⟩ :=
    subHeaders_disposition unquotedName unquotedFilename
  have parts : mp.getSubHeaders dispositionField = h := by
    rw [getSubHeaders, given, if_pos, parameters]
    simp [dispositionText, Bytes.ofAscii]
  obtain ⟨done, item, file⟩ := transfer_named fdi parts value known (uSome some_)
  constructor
  · intro isFile
    have free := same.mp (item.symm.trans isFile.name)
    obtain ⟨f, found, whole⟩ := fileOf free
    exact ⟨free, whole.mp ((file f found).2.symm.trans isFile.filename)⟩
  · rintro ⟨free, freeFile⟩
    obtain ⟨f, found, whole⟩ := fileOf free
    exact ⟨done, item.trans (same.mpr free), (file f found).1,
      (file f found).2.trans (whole.mpr freeFile)⟩

def partOf (name filename : Bytes) : MultiPart :=
  { headers := OrderedMap.empty.insert dispositionField (dispositionText name filename)
    data := Bytes.ofAscii "x" }

def freshItem : FormDataItem := { name := [], data := [] }

theorem isFile_iff_plain :
    IsFile (Bytes.ofAscii "photo") (Bytes.ofAscii "a=b .png")
      ((partOf (Bytes.ofAscii "photo") (Bytes.ofAscii "a=b .png")).transferToFormDataItem
        freshItem) :=
  (isFile_iff (partOf (Bytes.ofAscii "photo") (Bytes.ofAscii "a=b .png")) freshItem _ _
    (by decide) (by decide) (by decide) (by decide)).mpr (by decide)

/-- The name `a;b` becomes a quote and an `a`. -/
theorem name_cut :
    ((partOf (Bytes.ofAscii "a;b") (Bytes.ofAscii "c")).transferToFormDataItem
        freshItem).item.name = Bytes.ofAscii "\"a" ∧
      ¬IsFile (Bytes.ofAscii "a;b") (Bytes.ofAscii "c")
        ((partOf (Bytes.ofAscii "a;b") (Bytes.ofAscii "c")).transferToFormDataItem freshItem) := by
  decide

end MultiPart

namespace Turns

def item (parameter : Bytes × Bytes) : FormDataItem := { name := parameter.1, data := parameter.2 }

/-- Every part of a text is a parameter, of a query and in the form of a body. -/
structure KeepsParameters (env : TurnsEnvironment) (text : Bytes) : Prop where
  query : parseQueryParameters text = allParameters text
  form : text ≠ [] →
    parseFormUrlEncodedData { env with parseQueryParameters := parseQueryParameters } text =
      (allParameters text).entries.map item

theorem keepsParameters_iff (env : TurnsEnvironment) (text : Bytes) :
    KeepsParameters env text ↔
      ∀ part ∈ split text ampersand, 1 < part.count equals →
        firstOf (simpleParts text) (parameterOf part).1 =
          firstOf (split text ampersand) (parameterOf part).1 := by
  rw [← parseQueryParameters_eq_all_iff]
  constructor
  · intro keeps
    exact keeps.query
  · intro same
    refine ⟨same, ?_⟩
    intro some_
    rw [parseFormUrlEncodedData, if_pos some_]
    simp only [same]
    rfl

/-- `a=b=c` is dropped. -/
theorem nested_parameter_lost :
    parseQueryParameters (Bytes.ofAscii "a=b=c") = .empty ∧
      ∀ env, ¬KeepsParameters env (Bytes.ofAscii "a=b=c") := by
  have dropped : parseQueryParameters (Bytes.ofAscii "a=b=c") = .empty := by decide
  refine ⟨dropped, ?_⟩
  intro env keeps
  have known : (allParameters (Bytes.ofAscii "a=b=c")).entries ≠ [] := by decide
  rw [← keeps.query, dropped] at known
  exact known rfl

end Turns
end Da4qi4
