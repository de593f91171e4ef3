import Baley.Split
import Baley.Store.ViewTable

/-!
# Cursors

A cursor is the text of the query it belongs to, then the position its page ended at.  Every item
says its own length, so a query accepts a cursor only if it is the query that issued it.
-/

namespace Baley

open Json

/-! ## Items -/

/-- The first bytes of a text and what follows them, unless they end inside a character. -/
def takeBytes : Nat → Text → Option (Text × Text)
  | 0, text => some ([], text)
  | _ + 1, [] => none
  | length + 1, c :: text =>
      if c.utf8Size ≤ length + 1 then
        (takeBytes (length + 1 - c.utf8Size) text).map fun taken => (c :: taken.1, taken.2)
      else none

def encode : KeyValue → Text
  | .text value => 't' :: (Nat.toDigits 10 value.utf8ByteSize ++ ':' :: value.toList)
  | .integer value => 'i' :: (value.repr.toList ++ [';'])

/-- One encoded value of the given kind, and the text after it. -/
def decode (text : Text) : FieldKind → Option (KeyValue × Text)
  | .text =>
      match text with
      | 't' :: text => do
          let (length, rest) ← splitOnce ':' text
          -- a length past `usize` is past the end of any text as well
          let length ← Value.readNatural (String.ofList length)
          let (value, rest) ← takeBytes length rest
          some (.text (String.ofList value), rest)
      | _ => none
  | .integer =>
      match text with
      | 'i' :: text => do
          let (number, rest) ← splitOnce ';' text
          let number ← Value.readI64 (String.ofList number)
          some (.integer number, rest)
      | _ => none

def invalidCursor : StoreError :=
  .refused .invalidCursor

/-- The values of a whole text, one of each kind. -/
def decodeAll : List FieldKind → Text → Option (List KeyValue)
  | [], rest => if rest = [] then some [] else none
  | kind :: kinds, text => do
      let (value, rest) ← decode text kind
      let position ← decodeAll kinds rest
      some (value :: position)

/-! ## Ledger queries -/

/-- A sequence or version as SQLite holds it; past its range is past every row. -/
def clamped (n : Nat) : Int :=
  min n maxSqlInt

def eventCursor (identity : Text) (position : Nat) : String :=
  String.ofList (identity ++ encode (.integer (clamped position)))

/-- The text before a last `mark`. -/
def stripLast (mark : Char) (text : Text) : Option Text :=
  if text.getLast? = some mark then some text.dropLast else none

/-- The position after which a page starts, unless this query did not issue the cursor. -/
def readEventCursor (identity : Text) : Option String → Except StoreError Int
  | none => .ok (-1)
  | some cursor =>
      .ofOption invalidCursor do
        let rest ← stripFront identity cursor.toList
        let rest ← stripFront ['i'] rest
        let number ← stripLast ';' rest
        let position ← Value.readI64 (String.ofList number)
        if position < 0 ∨ position.repr.toList ≠ number then none else some position

/-- The events of one stream from a version on. -/
structure StreamRead where
  project : ProjectId
  stream : StreamName
  fromVersion : Nat

def streamIdentity (read : StreamRead) : Text :=
  "s1.".toList ++ (encode (.text read.project) ++ (encode (.text read.stream) ++
    (encode (.integer (clamped read.fromVersion)) ++ ['|'])))

/-- The events of a range, of the given types if any, and of one commit if given. -/
structure HistoryRead where
  project : ProjectId
  start : Nat
  (end' : Nat)
  types : List String
  gitCommit : Option String

def historyIdentity (read : HistoryRead) : Text :=
  "h1.".toList ++ (encode (.text read.project) ++ (encode (.integer (clamped read.start)) ++
    (encode (.integer (clamped read.end')) ++ (encode (.integer read.types.length) ++
      (read.types.flatMap (fun typeName => encode (.text typeName)) ++
        (encode (match read.gitCommit with
          | some commit => .text commit
          | none => .integer 0) ++ ['|']))))))

/-! ## Index queries -/

/-- A page of a view by a declared index, as it is asked for in one generation. -/
structure IndexRead where
  project : ProjectId
  view : ViewTable
  generation : Nat
  query : IndexQuery

namespace IndexRead

/-- The text before a cursor's position. -/
def cursorIdentity (read : IndexRead) : Text :=
  "c1.".toList ++ (encode (.text read.project) ++ (encode (.text read.view.val.name) ++
    (encode (.integer read.view.val.version) ++ (encode (.integer read.generation) ++
      (encode (.text read.query.index) ++ (encode (.integer read.query.equals.length) ++
        (read.query.equals.flatMap encode ++ ['|'])))))))

def issueCursor (read : IndexRead) (position : List KeyValue) : String :=
  String.ofList (read.cursorIdentity ++ position.flatMap encode)

/-- The position a cursor holds, unless this query did not issue it with exactly these kinds. -/
def readCursor (read : IndexRead) (cursor : String) (kinds : List FieldKind) :
    Except StoreError (List KeyValue) :=
  .ofOption invalidCursor
    ((stripFront read.cursorIdentity cursor.toList).bind (decodeAll kinds))

/-- The columns the page is ordered by. -/
def order (read : IndexRead) : Except StoreError (List ViewTable.OrderColumn) := do
  let index ← read.view.index read.query.index
  let _ ← read.view.equalsValues index read.query.equals
  .ok (read.view.orderAfter index read.query.equals.length)

/-- The position the page starts after, nothing at the start. -/
def after (read : IndexRead) : Except StoreError (Option (List KeyValue)) := do
  let order ← read.order
  match read.query.after with
  | none => .ok none
  | some cursor =>
      (read.readCursor cursor (order.map ViewTable.OrderColumn.kind)).map some

end IndexRead

/-! ## What is written is read back -/

theorem takeBytes_append (value rest : Text) :
    takeBytes (String.ofList value).utf8ByteSize (value ++ rest) = some (value, rest) := by
  induction value with
  | nil => simp [takeBytes]
  | cons c value ih =>
      have size_eq : (String.ofList (c :: value)).utf8ByteSize =
          c.utf8Size + (String.ofList value).utf8ByteSize := by
        rw [String.ofList_cons, String.utf8ByteSize_append, String.utf8ByteSize_singleton]
      obtain ⟨size, size_succ⟩ := Nat.exists_eq_succ_of_ne_zero (Char.utf8Size_pos c).ne'
      rw [size_eq, size_succ, Nat.succ_add, List.cons_append, takeBytes,
        if_pos (by omega)]
      have rest_eq : size + (String.ofList value).utf8ByteSize + 1 - c.utf8Size =
          (String.ofList value).utf8ByteSize := by
        omega
      rw [rest_eq, ih]
      rfl

/-- What the port's own type holds: an integer fits `i64`. -/
def KeyValue.Fits : KeyValue → Prop
  | .text _ => True
  | .integer value => -9223372036854775808 ≤ value ∧ value < 9223372036854775808

theorem decode_encode {value : KeyValue} (fits : value.Fits) (rest : Text) :
    decode (encode value ++ rest) value.kind = some (value, rest) := by
  cases value with
  | text value =>
      have length_eq : Value.readNatural (String.ofList (Nat.toDigits 10 value.utf8ByteSize)) =
          some value.utf8ByteSize := by
        rw [← Nat.repr_eq_ofList_toDigits, Value.readNatural_repr]
      have taken := takeBytes_append value.toList rest
      rw [String.ofList_toList] at taken
      simp only [encode, KeyValue.kind, decode, List.cons_append, List.append_assoc]
      rw [splitOnce_append (notMem_toDigits rfl)]
      simp [length_eq, taken]
  | integer value =>
      simp only [encode, KeyValue.kind, decode, List.cons_append, List.append_assoc,
        List.nil_append]
      rw [splitOnce_append (notMem_repr rfl (by decide))]
      simp [Value.readI64_repr fits]

/-- No encoded value starts another, whatever its text holds. -/
theorem encode_prefixFree : PrefixFree (fun _ => True) encode := by
  intro value value' _ _ rest rest' same
  cases value with
  | text value =>
      cases value' with
      | integer value' => cases (List.cons.inj same).1
      | text value' =>
          simp only [encode, List.cons_append, List.append_assoc, List.cons.injEq, true_and] at same
          obtain ⟨length_eq, texts_eq⟩ :=
            PrefixFree.append_char_inj (notMem_toDigits rfl) (notMem_toDigits rfl) same
          have taken := takeBytes_append value.toList rest
          have taken' := takeBytes_append value'.toList rest'
          rw [String.ofList_toList] at taken taken'
          rw [toDigits_injective length_eq, texts_eq, taken'] at taken
          obtain ⟨value_eq, rest_eq⟩ := Prod.mk.inj (Option.some.inj taken)
          exact ⟨congrArg KeyValue.text (String.toList_inj.mp value_eq.symm), rest_eq.symm⟩
  | integer value =>
      cases value' with
      | text value' => cases (List.cons.inj same).1
      | integer value' =>
          simp only [encode, List.cons_append, List.append_assoc, List.cons.injEq, true_and] at same
          obtain ⟨repr_eq, rest_eq⟩ := PrefixFree.append_char_inj (notMem_repr rfl (by decide))
            (notMem_repr rfl (by decide)) same
          exact ⟨congrArg KeyValue.integer (repr_int_injective (String.toList_inj.mp repr_eq)),
            rest_eq⟩

theorem encode_inj {value value' : KeyValue} {rest rest' : Text}
    (same : encode value ++ rest = encode value' ++ rest') : value = value' ∧ rest = rest' :=
  encode_prefixFree value value' trivial trivial rest rest' same

theorem decodeAll_encode {position : List KeyValue} (fits : ∀ value ∈ position, value.Fits) :
    decodeAll (position.map KeyValue.kind) (position.flatMap encode) = some position := by
  induction position with
  | nil => rfl
  | cons value position ih =>
      rw [List.forall_mem_cons] at fits
      simp only [List.map_cons, List.flatMap_cons, decodeAll]
      rw [decode_encode fits.1]
      simp [ih fits.2]

/-! ## A cursor belongs to the query that issued it -/

theorem clamped_of_le {n : Nat} (within : n ≤ maxSqlInt) : clamped n = n := by
  unfold clamped
  omega

theorem readEventCursor_iff {α : Type} {valid : α → Prop} {identity : α → Text}
    (free : PrefixFree valid identity) {issuer reader : α} (issuer_valid : valid issuer)
    (reader_valid : valid reader) {position : Nat} (within : position ≤ maxSqlInt) (read : Int) :
    readEventCursor (identity reader) (some (eventCursor (identity issuer) position)) = .ok read ↔
      reader = issuer ∧ read = position := by
  have fits : -9223372036854775808 ≤ (position : Int) ∧ (position : Int) < 9223372036854775808 := by
    unfold maxSqlInt at within
    omega
  have own : readEventCursor (identity issuer)
      (some (eventCursor (identity issuer) position)) = .ok (position : Int) := by
    have numbered : stripLast ';' ((position : Int).repr.toList ++ [';']) =
        some (position : Int).repr.toList := by
      simp [stripLast]
    have marked : stripFront ['i'] ('i' :: ((position : Int).repr.toList ++ [';'])) =
        some ((position : Int).repr.toList ++ [';']) :=
      stripFront_eq_some.mpr rfl
    simp only [readEventCursor, eventCursor, String.toList_ofList, clamped_of_le within,
      Except.ofOption_eq_ok]
    rw [stripFront_eq_some.mpr rfl, Option.bind_eq_bind, Option.bind_some, encode, marked]
    simp [numbered, Value.readI64_repr fits]
  constructor
  · intro reads
    have same : reader = issuer := by
      simp only [readEventCursor, Except.ofOption_eq_ok, Option.bind_eq_bind,
        Option.bind_eq_some_iff] at reads
      obtain ⟨rest, stripped, -⟩ := reads
      rw [stripFront_eq_some, eventCursor, String.toList_ofList] at stripped
      exact (free issuer reader issuer_valid reader_valid _ _ stripped).1.symm
    rw [same, own] at reads
    exact ⟨same, (Except.ok.inj reads).symm⟩
  · rintro ⟨rfl, rfl⟩
    exact own

/-- The sequences SQLite can hold. -/
def StreamRead.Within (read : StreamRead) : Prop :=
  read.fromVersion ≤ maxSqlInt

def HistoryRead.Within (read : HistoryRead) : Prop :=
  read.start ≤ maxSqlInt ∧ read.end' ≤ maxSqlInt

theorem clamped_inj {n m : Nat} (n_within : n ≤ maxSqlInt) (m_within : m ≤ maxSqlInt)
    (same : KeyValue.integer (clamped n) = .integer (clamped m)) : n = m := by
  rw [clamped_of_le n_within, clamped_of_le m_within] at same
  exact Int.ofNat_inj.mp (KeyValue.integer.inj same)

theorem streamIdentity_prefixFree : PrefixFree StreamRead.Within streamIdentity := by
  rintro ⟨project, stream, fromVersion⟩ ⟨project', stream', fromVersion'⟩ within within' rest rest'
    same
  simp only [streamIdentity, List.append_assoc] at same
  obtain ⟨project_eq, same⟩ := encode_inj (List.append_cancel_left same)
  obtain ⟨stream_eq, same⟩ := encode_inj same
  obtain ⟨version_eq, same⟩ := encode_inj same
  refine ⟨?_, List.append_cancel_left same⟩
  rw [KeyValue.text.inj project_eq, KeyValue.text.inj stream_eq,
    clamped_inj (n := fromVersion) (m := fromVersion') within within' version_eq]

theorem encodeText_prefixFree :
    PrefixFree (fun _ => True) fun text : String => encode (.text text) := by
  intro text text' _ _ rest rest' same
  obtain ⟨value_eq, rest_eq⟩ := encode_inj same
  exact ⟨KeyValue.text.inj value_eq, rest_eq⟩

theorem historyIdentity_prefixFree : PrefixFree HistoryRead.Within historyIdentity := by
  rintro ⟨project, start, stop, types, gitCommit⟩ ⟨project', start', stop', types', gitCommit'⟩
    ⟨start_le, end_le⟩ ⟨start_le', end_le'⟩ rest rest' same
  simp only [historyIdentity, List.append_assoc] at same
  obtain ⟨project_eq, same⟩ := encode_inj (List.append_cancel_left same)
  obtain ⟨start_eq, same⟩ := encode_inj same
  obtain ⟨end_eq, same⟩ := encode_inj same
  obtain ⟨count_eq, same⟩ := encode_inj same
  obtain ⟨types_eq, same⟩ := encodeText_prefixFree.flatMap_of_length (fun _ _ => trivial)
    (fun _ _ => trivial) (Int.ofNat_inj.mp (KeyValue.integer.inj count_eq)) same
  obtain ⟨commit_eq, same⟩ := encode_inj same
  have gitCommit_eq : gitCommit = gitCommit' := by
    cases gitCommit <;> cases gitCommit' <;> simp_all
  refine ⟨?_, List.append_cancel_left same⟩
  rw [KeyValue.text.inj project_eq, clamped_inj (n := start) (m := start') start_le start_le' start_eq,
    clamped_inj (n := stop) (m := stop') end_le end_le' end_eq, types_eq, gitCommit_eq]

namespace IndexRead

/-- What a query asks for, apart from its page. -/
def asks (read : IndexRead) : ProjectId × ViewTable × Nat × String × List KeyValue :=
  (read.project, read.view, read.generation, read.query.index, read.query.equals)

/-- The same query with another page. -/
def page (read : IndexRead) (limit : Nat) (after : Option String) : IndexRead :=
  { read with query := { read.query with limit, after } }

theorem asks_eq_of_identity {catalog : Catalog} {first second : IndexRead}
    (holds : catalog.Holds first.view) (holds' : catalog.Holds second.view) {rest rest' : Text}
    (same : first.cursorIdentity ++ rest = second.cursorIdentity ++ rest') :
    first.asks = second.asks ∧ rest = rest' := by
  simp only [cursorIdentity, List.append_assoc] at same
  obtain ⟨project_eq, same⟩ := encode_inj (List.append_cancel_left same)
  obtain ⟨name_eq, same⟩ := encode_inj same
  obtain ⟨version_eq, same⟩ := encode_inj same
  obtain ⟨generation_eq, same⟩ := encode_inj same
  obtain ⟨index_eq, same⟩ := encode_inj same
  obtain ⟨count_eq, same⟩ := encode_inj same
  obtain ⟨equals_eq, same⟩ := encode_prefixFree.flatMap_of_length (fun _ _ => trivial)
    (fun _ _ => trivial) (Int.ofNat_inj.mp (KeyValue.integer.inj count_eq)) same
  have view_eq := holds.eq holds' (KeyValue.text.inj name_eq)
    (Int.ofNat_inj.mp (KeyValue.integer.inj version_eq))
  have generation_eq := Int.ofNat_inj.mp (KeyValue.integer.inj generation_eq)
  refine ⟨?_, List.append_cancel_left same⟩
  rw [asks, asks, KeyValue.text.inj project_eq, view_eq, generation_eq,
    KeyValue.text.inj index_eq, equals_eq]

theorem identity_eq_of_asks {first second : IndexRead} (same : first.asks = second.asks) :
    first.cursorIdentity = second.cursorIdentity := by
  simp only [asks, Prod.mk.injEq] at same
  obtain ⟨project_eq, view_eq, generation_eq, index_eq, equals_eq⟩ := same
  rw [cursorIdentity, cursorIdentity, project_eq, view_eq, generation_eq, index_eq, equals_eq]

theorem order_eq_of_asks {first second : IndexRead} (same : first.asks = second.asks) :
    first.order = second.order := by
  simp only [asks, Prod.mk.injEq] at same
  obtain ⟨-, view_eq, -, index_eq, equals_eq⟩ := same
  rw [order, order, view_eq, index_eq, equals_eq]

theorem readCursor_own (read : IndexRead) {position : List KeyValue}
    (fits : ∀ value ∈ position, value.Fits) :
    read.readCursor (read.issueCursor position) (position.map KeyValue.kind) = .ok position := by
  rw [readCursor, issueCursor, String.toList_ofList, stripFront_eq_some.mpr rfl, Option.bind_some,
    decodeAll_encode fits]
  rfl

/-- A query reads its own cursor's position back, whatever its page. -/
theorem after_own {issuer reader : IndexRead} (same : reader.asks = issuer.asks)
    {order : List ViewTable.OrderColumn} (ordered : issuer.order = .ok order)
    {position : List KeyValue} (fits : ∀ value ∈ position, value.Fits)
    (kinds_eq : position.map KeyValue.kind = order.map ViewTable.OrderColumn.kind) (limit : Nat) :
    (reader.page limit (some (issuer.issueCursor position))).after = .ok (some position) := by
  have order_eq : (reader.page limit (some (issuer.issueCursor position))).order = reader.order :=
    rfl
  have identity_eq : (reader.page limit (some (issuer.issueCursor position))).cursorIdentity =
      reader.cursorIdentity := rfl
  have reads := readCursor_own issuer fits
  rw [after, order_eq, order_eq_of_asks same, ordered]
  change ((reader.page limit _).readCursor _ _).map some = _
  rw [readCursor, identity_eq, identity_eq_of_asks same, ← kinds_eq]
  rw [readCursor] at reads
  rw [reads]
  rfl

/-- Whether an index query takes the cursor another one issued. -/
theorem after_iff {catalog : Catalog} {issuer reader : IndexRead}
    (holds : catalog.Holds issuer.view) (holds' : catalog.Holds reader.view)
    {order : List ViewTable.OrderColumn} (ordered : issuer.order = .ok order)
    {position : List KeyValue} (fits : ∀ value ∈ position, value.Fits)
    (kinds_eq : position.map KeyValue.kind = order.map ViewTable.OrderColumn.kind) (limit : Nat)
    (read : List KeyValue) :
    (reader.page limit (some (issuer.issueCursor position))).after = .ok (some read) ↔
      reader.asks = issuer.asks ∧ read = position := by
  constructor
  · intro reads
    have same : reader.asks = issuer.asks := by
      obtain ⟨order', -, reads⟩ := Except.bind_eq_ok.mp reads
      obtain ⟨_, reads, -⟩ := Except.map_eq_ok.mp reads
      rw [readCursor, Except.ofOption_eq_ok, Option.bind_eq_some_iff] at reads
      obtain ⟨rest, stripped, -⟩ := reads
      rw [stripFront_eq_some, issueCursor, String.toList_ofList] at stripped
      exact (asks_eq_of_identity holds holds' stripped).1.symm
    rw [after_own same ordered fits kinds_eq limit] at reads
    exact ⟨same, (Option.some.inj (Except.ok.inj reads)).symm⟩
  · rintro ⟨same, rfl⟩
    exact after_own same ordered fits kinds_eq limit

end IndexRead

/-- A cursor is taken by the query that issued it, whatever its page, at the position it was issued
at, and by no other query. -/
theorem cursor_of_one_query :
    (∀ (catalog : Catalog) (issuer reader : IndexRead), catalog.Holds issuer.view →
      catalog.Holds reader.view → ∀ order, issuer.order = .ok order → ∀ position : List KeyValue,
      (∀ value ∈ position, value.Fits) →
      position.map KeyValue.kind = order.map ViewTable.OrderColumn.kind → ∀ (limit : Nat) read,
      (reader.page limit (some (issuer.issueCursor position))).after = .ok (some read) ↔
        reader.asks = issuer.asks ∧ read = position) ∧
    (∀ issuer reader : HistoryRead, issuer.Within → reader.Within → ∀ position ≤ maxSqlInt,
      ∀ read : Int,
      readEventCursor (historyIdentity reader)
          (some (eventCursor (historyIdentity issuer) position)) = .ok read ↔
        reader = issuer ∧ read = position) ∧
    ∀ issuer reader : StreamRead, issuer.Within → reader.Within → ∀ position ≤ maxSqlInt,
      ∀ read : Int,
      readEventCursor (streamIdentity reader)
          (some (eventCursor (streamIdentity issuer) position)) = .ok read ↔
        reader = issuer ∧ read = position := by
  refine ⟨?_, ?_, ?_⟩
  · intro catalog issuer reader holds holds' order ordered position fits kinds_eq limit read
    exact IndexRead.after_iff holds holds' ordered fits kinds_eq limit read
  · intro issuer reader issuer_within reader_within position within read
    exact readEventCursor_iff historyIdentity_prefixFree issuer_within reader_within within read
  · intro issuer reader issuer_within reader_within position within read
    exact readEventCursor_iff streamIdentity_prefixFree issuer_within reader_within within read

/-- Items keyed by id, with one index of the highest rank first. -/
def itemSpec : ViewSpec where
  name := "item"
  version := 1
  key := [{ name := "id", kind := .text }]
  indexes := [{ name := "by_rank", fields := [{ name := "rank", kind := .integer, order := .descending }] }]
  pageBound := 2

theorem itemSpec_valid : itemSpec.Valid where
  name_safe := by decide
  pageBound_ne := by decide
  key_safe := by decide
  key_nodup := by decide
  index_safe := by decide
  indexes_nodup := by decide
  fields_ne := by decide
  fields_safe := by decide
  fields_nodup := by decide
  one_kind := by decide

def itemTable : ViewTable :=
  ⟨itemSpec, itemSpec_valid⟩

/-- Every item of a project whose name is made of separators. -/
def itemRead : IndexRead where
  project := "p;1|"
  view := itemTable
  generation := 0
  query := { index := "by_rank", equals := [], limit := 1, after := none }

def itemCatalog : Catalog where
  specs := (∅ : Table (String × Nat) Text).insert ("item", 1) (render itemSpec)
  names := []

def itemStream : StreamRead where
  project := "p;1|"
  stream := "a:b"
  fromVersion := 3

def itemHistory : HistoryRead :=
  { project := "p;1|", start := 1, end' := 9, types := ["t1:x"], gitCommit := none }

theorem cursor_of_one_query_item :
    ((itemRead.page 5 (some (itemRead.issueCursor [.integer (-4), .text "i1;"]))).after =
      .ok (some [.integer (-4), .text "i1;"])) ∧
    readEventCursor (historyIdentity itemHistory)
        (some (eventCursor (historyIdentity itemHistory) 7)) = .ok 7 ∧
    readEventCursor (streamIdentity itemStream)
        (some (eventCursor (streamIdentity itemStream) 7)) = .ok 7 := by
  have holds : itemCatalog.Holds itemTable := AList.lookup_insert _
  have ordered : itemRead.order = .ok (itemTable.orderAfter
      { name := "by_rank", fields := [{ name := "rank", kind := .integer, order := .descending }] }
      0) := rfl
  have fits : ∀ value ∈ [KeyValue.integer (-4), .text "i1;"], value.Fits := by
    intro value value_mem
    rcases List.mem_pair.mp value_mem with rfl | rfl
    · exact ⟨by decide, by decide⟩
    · trivial
  have within : (7 : Nat) ≤ maxSqlInt := by decide
  refine ⟨?_, ?_, ?_⟩
  · exact (cursor_of_one_query.1 itemCatalog itemRead itemRead holds holds _ ordered _ fits rfl 5
      _).mpr ⟨rfl, rfl⟩
  · exact (cursor_of_one_query.2.1 itemHistory itemHistory ⟨by decide, by decide⟩
      ⟨by decide, by decide⟩ 7 within 7).mpr ⟨rfl, rfl⟩
  · have stream_within : itemStream.Within := (by decide : (3 : Nat) ≤ maxSqlInt)
    exact (cursor_of_one_query.2.2 itemStream itemStream stream_within stream_within 7 within
      7).mpr ⟨rfl, rfl⟩

end Baley
