import WebToken.Proofs.Key.TextFields

/-!
# Keys of texts

A key is read from a text while the text is parsed, and from an object after it was. Both ways give
the same key, unless a field is written twice: an object keeps the last value of a name, and a text
is refused. An array of the values of all fields is taken from a text only.

* `Jwk.writesMembers_iff` : which fields an object of members writes;
* `Key.ofText_of_object` : the key of a text that denotes an object;
* `Key.ofText_of_array` : the key of a text that denotes an array;
* `Key.ofText_agrees` : the key of any text.
-/

namespace WebToken

open Json (Object Value Document Items Members)

namespace Jwk

/-! ## Fields that are written once -/

/-- Whether no field is written twice, and no name twice in an object inside a field. The
multi-prime part counts as a whole. -/
def FieldsOnce : Members → Prop
  | .done _ => True
  | .member l d tail =>
    (∀ name ∈ record.names, l.text = .ok name →
      .ok name ∉ tail.names ∧ (name ≠ "oth" → d.Distinct)) ∧ FieldsOnce tail

/-- Whether no name is written twice in an object inside an item. -/
def ItemsOnce : List String → Items → Prop
  | name :: names, .item d tail => (name ≠ "oth" → d.Distinct) ∧ ItemsOnce names tail
  | _, _ => True

/-- Whether a document writes each field once, and each name inside it. -/
def Once : Document → Prop
  | .object members => FieldsOnce members
  | .array items => ItemsOnce record.names items
  | _ => True

theorem fieldsOnce_of_distinct : ∀ {members : Members}, members.names.Nodup → members.Distinct →
    FieldsOnce members
  | .done _, _, _ => trivial
  | .member l d tail, hnames, ⟨hd, htail⟩ => by
    rw [Members.names, List.nodup_cons] at hnames
    refine ⟨fun name _ hname => ⟨?_, fun _ => hd⟩, fieldsOnce_of_distinct hnames.2 htail⟩
    rw [← hname]
    exact hnames.1

theorem itemsOnce_of_distinct : ∀ (names : List String) {items : Items}, items.Distinct →
    ItemsOnce names items
  | _ :: names, .item _ _, ⟨hd, htail⟩ => ⟨fun _ => hd, itemsOnce_of_distinct names htail⟩
  | [], _, _ => trivial
  | _ :: _, .done _, _ => trivial

/-- Fields are written once if no name is written twice anywhere. -/
theorem once_of_distinct {d : Document} (h : d.Distinct) : Once d := by
  cases d with
  | object members => exact fieldsOnce_of_distinct h.1 h.2
  | array items => exact itemsOnce_of_distinct _ h
  | _ => trivial

/-- The members that are fields. -/
def fieldsOf (o : Object) : Object := o.filter fun m => m.1 ∈ record.names

theorem mem_names_fieldsOf {o : Object} {name : String} :
    name ∈ Object.names (fieldsOf o) ↔ name ∈ record.names ∧ name ∈ o.names := by
  simp [fieldsOf, Object.names, and_comm]

section Member

variable {l : Json.Literal} {d : Document} {tail : Members} {name : String} {o : Object}

theorem fieldsOnce_member_iff (hname : l.text = .ok name) :
    FieldsOnce (.member l d tail) ↔
      (name ∈ record.names → .ok name ∉ tail.names ∧ (name ≠ "oth" → d.Distinct)) ∧
        FieldsOnce tail := by
  refine and_congr_left fun _ => ?_
  constructor
  · exact fun h hfield => h name hfield hname
  · intro h n hfield hn
    rw [hname, Except.ok.injEq] at hn
    subst hn
    exact h hfield

/-- A member that is a field is written in front of the others. -/
theorem writesMembers_field_iff (hname : l.text = .ok name) (hfield : name ∈ record.names) :
    WritesMembers (.member l d tail) o ↔
      ∃ v rest, WritesField name d v ∧ name ∉ Object.names rest ∧ WritesMembers tail rest ∧
        o = (name, v) :: rest := by
  constructor
  · intro h
    cases h with
    | @field _ _ _ n v rest hn _ hvalue hnew hrest =>
      rw [hname, Except.ok.injEq] at hn
      subst hn
      exact ⟨v, rest, hvalue, hnew, hrest, rfl⟩
    | other hn hother _ _ =>
      rw [hname, Except.ok.injEq] at hn
      exact absurd hfield (hn ▸ hother)
  · intro h
    rcases h with ⟨v, rest, hvalue, hnew, hrest, ho⟩
    subst ho
    exact .field hname hfield hvalue hnew hrest

/-- A member that is no field writes nothing. -/
theorem writesMembers_other_iff (hname : l.text = .ok name) (hother : name ∉ record.names) :
    WritesMembers (.member l d tail) o ↔ d.skip = .ok () ∧ WritesMembers tail o := by
  constructor
  · intro h
    cases h with
    | field hn hfield _ _ _ =>
      rw [hname, Except.ok.injEq] at hn
      exact absurd (hn ▸ hfield) hother
    | other _ _ hskip htail => exact ⟨hskip, htail⟩
  · intro h
    exact .other hname hother h.1 h.2

end Member

/-- If members have values, they write those of the fields, unless a field is written twice. -/
theorem writesMembers_iff : ∀ {members : Members} (_ : members.Whole)
    {ms : List (String × Value)} (_ : members.values innerDepth = .ok ms) {o : Object},
    WritesMembers members o ↔ FieldsOnce members ∧ o = fieldsOf ms
  | .done ending, hending, ms, hms, o => by
    rw [show ending = .closed from hending] at hms ⊢
    cases hms
    constructor
    · intro ho
      cases ho
      exact ⟨trivial, rfl⟩
    · intro h
      rcases h with ⟨_, ho⟩
      rw [ho]
      exact .done
  | .member l d tail, ⟨_, _, htail⟩, ms, hms, o => by
    simp only [Members.values, bind_eq_ok_iff] at hms
    obtain ⟨name, hname, v, hv, ns, hns, heq⟩ := hms
    cases heq
    rw [fieldsOnce_member_iff hname]
    by_cases hfield : name ∈ record.names
    · -- the other members of the name are fields as well
      have hnew : (.ok name ∉ tail.names) ↔ name ∉ Object.names (fieldsOf ns) := by
        rw [mem_names_fieldsOf, Members.names_of_values hns]
        simp [Object.names, hfield]
      have hcons : fieldsOf ((name, v) :: ns) = (name, v) :: fieldsOf ns :=
        List.filter_cons_of_pos (decide_eq_true hfield)
      rw [hcons, writesMembers_field_iff hname hfield]
      constructor
      · intro h
        rcases h with ⟨w, rest, hvalue, hnotMem, hrest, ho⟩
        have hw : v = w := Except.ok.inj (hv.symm.trans hvalue.value)
        obtain ⟨honce, rfl⟩ := (writesMembers_iff htail hns).1 hrest
        exact ⟨⟨fun _ => ⟨hnew.2 hnotMem, hvalue.distinct⟩, honce⟩, hw ▸ ho⟩
      · intro h
        rcases h with ⟨⟨honce, hrest⟩, ho⟩
        obtain ⟨hnotMem, hdistinct⟩ := honce hfield
        refine ⟨v, fieldsOf ns, ⟨hv, hdistinct⟩, hnew.1 hnotMem, ?_, ho⟩
        exact (writesMembers_iff htail hns).2 ⟨hrest, rfl⟩
    · -- what has a value can be passed over
      have hskip : d.skip = .ok () := Document.skip_of_value d hv
      have hcons : fieldsOf ((name, v) :: ns) = fieldsOf ns :=
        List.filter_cons_of_neg (by simpa using hfield)
      rw [hcons, writesMembers_other_iff hname hfield, writesMembers_iff htail hns]
      constructor
      · intro h
        exact ⟨⟨fun hmem => absurd hmem hfield, h.2.1⟩, h.2.2⟩
      · intro h
        exact ⟨hskip, h.1.2, h.2⟩

/-- If items have values, they write those, unless there are too few or too many or a name is
written twice. -/
theorem writesItems_iff : ∀ {names : List String} {items : Items} (_ : items.Whole)
    {vs : List Value} (_ : items.values innerDepth = .ok vs) {o : Object},
    WritesItems names items o ↔
      ItemsOnce names items ∧ vs.length = names.length ∧ o = names.zip vs
  | [], .done ending, hending, vs, hvs, o => by
    rw [show ending = .closed from hending] at hvs ⊢
    cases hvs
    constructor
    · intro ho
      cases ho
      exact ⟨trivial, rfl, rfl⟩
    · intro h
      rcases h with ⟨_, _, ho⟩
      rw [ho]
      exact .done
  | name :: names, .done ending, hending, vs, hvs, o => by
    rw [show ending = .closed from hending] at hvs
    cases hvs
    constructor
    · intro ho
      cases ho
    · intro h
      rcases h with ⟨_, hlength, _⟩
      cases hlength
  | [], .item head tail, _, vs, hvs, o => by
    simp only [Items.values, bind_eq_ok_iff] at hvs
    obtain ⟨v, _, ws, _, heq⟩ := hvs
    cases heq
    constructor
    · intro ho
      cases ho
    · intro h
      rcases h with ⟨_, hlength, _⟩
      cases hlength
  | name :: names, .item head tail, ⟨_, htail⟩, vs, hvs, o => by
    simp only [Items.values, bind_eq_ok_iff] at hvs
    obtain ⟨v, hv, ws, hws, heq⟩ := hvs
    cases heq
    constructor
    · intro ho
      cases ho with
      | @item _ _ _ _ w o hvalue ho =>
        have hw := hvalue.value
        rw [hv, Except.ok.injEq] at hw
        subst hw
        obtain ⟨honce, hlength, rfl⟩ := (writesItems_iff htail hws).1 ho
        exact ⟨⟨hvalue.distinct, honce⟩, congrArg Nat.succ hlength, rfl⟩
    · intro h
      rcases h with ⟨⟨hdistinct, honce⟩, hlength, ho⟩
      subst ho
      exact .item ⟨hv, hdistinct⟩
        ((writesItems_iff htail hws).2 ⟨honce, Nat.succ.inj hlength, rfl⟩)

/-- The names of the fields that members write are distinct. -/
theorem WritesMembers.nodup_names {members : Members} {o : Object} (h : WritesMembers members o) :
    o.names.Nodup := by
  induction h with
  | done => exact List.nodup_nil
  | field _ _ _ hnew _ ih => exact List.nodup_cons.2 ⟨hnew, ih⟩
  | other _ _ _ _ ih => exact ih

/-- Where no field occurs twice, the last value of a field is its only one. -/
theorem get?_insertAll_of_nodup {ms : List (String × Value)}
    (h : (Object.names (fieldsOf ms)).Nodup) {name : String} (hname : name ∈ record.names) :
    Object.get? (Object.insertAll [] ms) name = Object.get? (fieldsOf ms) name := by
  have hfilter : ∀ o : Object, Object.get? (fieldsOf o) name = o.get? name := by
    intro o
    rw [fieldsOf, Json.Object.get?_filter fun n => decide (n ∈ record.names),
      if_pos (decide_eq_true hname)]
  have hreverse : fieldsOf ms.reverse = (fieldsOf ms).reverse := List.filter_reverse
  rw [Json.Object.get?_insertAll, show Object.get? [] name = none from rfl, Option.or_none,
    ← hfilter ms.reverse, hreverse]
  exact (Json.Object.get?_of_perm (List.reverse_perm _).symm h name).symm

end Jwk

namespace Key

variable {key : Key} {o o' : Object}

/-- Objects in which the same is found under the names of the fields become the same key. -/
theorem ofObject_congr (ho : o.names.Nodup) (ho' : o'.names.Nodup)
    (h : ∀ name ∈ Jwk.record.names, o.get? name = o'.get? name) :
    ofObject o = .ok key ↔ ofObject o' = .ok key := by
  have htexts : "kty" :: Jwk.textNames ⊆ Jwk.record.names := by decide
  have hmembers : Jwk.ofMembers o = Jwk.ofMembers o' := by
    apply Jwk.ofMembers_congr
    · exact fun name hname => Json.Object.text?_congr (h name (htexts hname))
    · rw [Jwk.useOf, Jwk.useOf, h "use" (by decide)]
    · rw [Jwk.operationsOf, Jwk.operationsOf, h "key_ops" (by decide)]
    · rw [Jwk.othOf, Jwk.othOf, h "oth" (by decide)]
  rw [ofObject_eq_ok_iff, ofObject_eq_ok_iff, hmembers,
    Json.Record.checkObject_congr Jwk.nodup_names_record ho ho' h]

variable {text : String} {d : Document}

/-- The key of a text is that of the fields that it writes. -/
theorem ofText_eq_ok_iff :
    ofText text = .ok key ↔
      ∃ d o, d.IsText (Bytes.ofString text) ∧ Jwk.Writes d o ∧ ofObject o = .ok key := by
  simp only [ofText, ofObject, bind_eq_ok_iff, Jwk.ofText_eq_ok_iff]
  constructor
  · intro h
    rcases h with ⟨j, ⟨d, o, htext, ho, hj⟩, hkey⟩
    exact ⟨d, o, htext, ho, j, hj, hkey⟩
  · intro h
    rcases h with ⟨d, o, htext, ho, j, hj, hkey⟩
    exact ⟨j, ⟨d, o, htext, ho, hj⟩, hkey⟩

/-- A text is one document, so only what that writes counts. -/
theorem ofText_eq_ok_iff_writes (htext : d.IsText (Bytes.ofString text)) :
    ofText text = .ok key ↔ ∃ o, Jwk.Writes d o ∧ ofObject o = .ok key := by
  rw [ofText_eq_ok_iff]
  constructor
  · intro h
    rcases h with ⟨d', o, htext', ho, hkey⟩
    exact ⟨o, htext'.unique htext ▸ ho, hkey⟩
  · intro h
    rcases h with ⟨o, ho, hkey⟩
    exact ⟨d, o, htext, ho, hkey⟩

/-- A text that denotes an object becomes the key of the object, unless a field is written twice. -/
theorem ofText_of_object (htext : d.IsText (Bytes.ofString text))
    (hv : d.value Json.Document.maxDepth = .ok (.object o)) :
    ofText text = .ok key ↔ Jwk.Once d ∧ ofObject o = .ok key := by
  obtain ⟨members, ms, rfl, hms, rfl⟩ := Document.value_eq_object_iff.1 hv
  have hwrites := @Jwk.writesMembers_iff members htext.whole ms hms
  -- the object keeps the last value of every name, and the fields that are written have only one
  have hsame : Jwk.WritesMembers members (Jwk.fieldsOf ms) →
      (ofObject (Jwk.fieldsOf ms) = .ok key ↔ ofObject (Object.insertAll [] ms) = .ok key) := by
    intro h
    have hnodup := h.nodup_names
    refine ofObject_congr hnodup ?_ fun name hname =>
      (Jwk.get?_insertAll_of_nodup hnodup hname).symm
    exact (Value.all_object.1 (Document.wellFormed_value _ hv)).1
  rw [ofText_eq_ok_iff_writes htext]
  constructor
  · intro h
    rcases h with ⟨o, ho, hkey⟩
    cases ho with
    | object ho =>
      obtain ⟨honce, rfl⟩ := hwrites.1 ho
      exact ⟨honce, (hsame ho).1 hkey⟩
  · intro h
    rcases h with ⟨honce, hkey⟩
    have ho := hwrites.2 ⟨honce, rfl⟩
    exact ⟨_, .object ho, (hsame ho).2 hkey⟩

/-- A text that denotes an array becomes the key of the object with its items as the fields, in
order. -/
theorem ofText_of_array {vs : List Value} (htext : d.IsText (Bytes.ofString text))
    (hv : d.value Json.Document.maxDepth = .ok (.array vs)) :
    ofText text = .ok key ↔
      Jwk.Once d ∧ vs.length = Jwk.record.names.length ∧
        ofObject (Jwk.record.names.zip vs) = .ok key := by
  obtain ⟨items, rfl, hvs⟩ := Document.value_eq_array_iff.1 hv
  have hwrites := @Jwk.writesItems_iff Jwk.record.names items htext.whole vs hvs
  rw [ofText_eq_ok_iff_writes htext]
  constructor
  · intro h
    rcases h with ⟨o, ho, hkey⟩
    cases ho with
    | array ho =>
      obtain ⟨honce, hlength, rfl⟩ := hwrites.1 ho
      exact ⟨honce, hlength, hkey⟩
  · intro h
    rcases h with ⟨honce, hlength, hkey⟩
    exact ⟨_, .array (hwrites.2 ⟨honce, hlength, rfl⟩), hkey⟩

/-- A text that denotes neither becomes no key. -/
theorem ofText_ne_ok {v : Value} (htext : d.IsText (Bytes.ofString text))
    (hv : d.value Json.Document.maxDepth = .ok v) (ho : ∀ o, v ≠ .object o)
    (hvs : ∀ vs, v ≠ .array vs) : ofText text ≠ .ok key := by
  rw [Ne, ofText_eq_ok_iff_writes htext]
  intro h
  rcases h with ⟨o, hwrites, _⟩
  cases hwrites with
  | @object members _ _ =>
    have hv : (members.values Jwk.innerDepth).map (fun ms => Value.object (Object.insertAll [] ms)) =
      .ok v := hv
    obtain ⟨ms, _, rfl⟩ := map_eq_ok_iff.1 hv
    exact ho _ rfl
  | @array items _ _ =>
    have hv : (items.values Jwk.innerDepth).map Value.array = .ok v := hv
    obtain ⟨vs, _, rfl⟩ := map_eq_ok_iff.1 hv
    exact hvs _ rfl

/-- What does not become a key is malformed. -/
theorem ofText_failsOnly (text : String) : FailsOnly Error.IsMalformedKey (ofText text) := by
  refine .bind ?_ Jwk.toKey_failsOnly
  refine .bind (.mapError (fun _ => ⟨_, rfl⟩) _) fun _ => .ok _

/-- A text becomes the key of the fields that it writes. If it is JSON and denotes an object, that
is the key of the object, unless a field is written twice, or a name in an object inside a field
other than the multi-prime part. An array of the values of all fields, in order, becomes the key of
the object with these members. Nothing else that is JSON becomes a key. What does not become a key
is malformed. -/
theorem ofText_agrees (text : String) :
    (∀ key, ofText text = .ok key ↔
      ∃ d o, d.IsText (Bytes.ofString text) ∧ Jwk.Writes d o ∧ ofObject o = .ok key) ∧
    (∀ d o, d.IsText (Bytes.ofString text) →
      Json.parse (Bytes.ofString text) = .ok (.object o) →
        (∀ key, ofText text = .ok key ↔ Jwk.Once d ∧ ofObject o = .ok key) ∧
          (d.Distinct → ∀ key, ofText text = .ok key ↔ ofObject o = .ok key)) ∧
    (∀ d vs, d.IsText (Bytes.ofString text) →
      Json.parse (Bytes.ofString text) = .ok (.array vs) →
        ∀ key, ofText text = .ok key ↔
          Jwk.Once d ∧ vs.length = Jwk.record.names.length ∧
            ofObject (Jwk.record.names.zip vs) = .ok key) ∧
    (∀ v, Json.parse (Bytes.ofString text) = .ok v → (∀ o, v ≠ .object o) →
      (∀ vs, v ≠ .array vs) → ∀ key, ofText text ≠ .ok key) ∧
    ((∃ key, ofText text = .ok key) ∨ ∃ fault, ofText text = .error (.malformedKey fault)) := by
  have hvalue : ∀ {d : Document} {v : Value}, d.IsText (Bytes.ofString text) →
      Json.parse (Bytes.ofString text) = .ok v → d.value Json.Document.maxDepth = .ok v := by
    intro d v htext hparse
    obtain ⟨d', htext', hv⟩ := Json.parse_eq_ok_iff.1 hparse
    exact htext'.unique htext ▸ hv
  refine ⟨fun key => ofText_eq_ok_iff, ?_, ?_, ?_, ?_⟩
  · intro d o htext hparse
    have hiff : ∀ key, ofText text = .ok key ↔ Jwk.Once d ∧ ofObject o = .ok key :=
      fun key => ofText_of_object htext (hvalue htext hparse)
    refine ⟨hiff, fun hdistinct key => ?_⟩
    rw [hiff key, and_iff_right (Jwk.once_of_distinct hdistinct)]
  · intro d vs htext hparse key
    exact ofText_of_array htext (hvalue htext hparse)
  · intro v hparse ho hvs key
    obtain ⟨d, htext, hv⟩ := Json.parse_eq_ok_iff.1 hparse
    exact ofText_ne_ok htext hv ho hvs
  · exact (ofText_failsOnly text).ok_or

/-- The secret of one zero byte. -/
def zeroByte : Key := ⟨.symmetric ⟨[0], List.cons_ne_nil 0 []⟩, ⟨none, none, none, none⟩⟩

/-- Its members. -/
def zeroByteObject : Object := [("kty", .string "oct"), ("k", .string "AA")]

/-- Its text. -/
def zeroByteText : String := "\x7b\"kty\":\"oct\",\"k\":\"AA\"\x7d"

/-- The text as it is written. -/
def zeroByteDocument : Document :=
  let literal (s : String) : Json.Literal := ⟨(Bytes.ofString s).map .byte, .closed⟩
  .object (.member (literal "kty") (.string (literal "oct"))
    (.member (literal "k") (.string (literal "AA")) (.done .closed)))

/-- The same with the secret written twice. -/
def repeatedText : String := "\x7b\"kty\":\"oct\",\"k\":\"AA\",\"k\":\"AA\"\x7d"

/-- The values of all fields in order. -/
def zeroByteItems : List Value :=
  [.string "oct", .null, .null, .null, .null, .string "AA"] ++ List.replicate 9 .null

/-- Their text. -/
def arrayText : String :=
  "[\"oct\",null,null,null,null,\"AA\",null,null,null,null,null,null,null,null,null]"

theorem isText_zeroByteDocument : zeroByteDocument.IsText (Bytes.ofString zeroByteText) :=
  ⟨[], by cbv, rfl⟩

theorem parse_zeroByteText :
    Json.parse (Bytes.ofString zeroByteText) = .ok (.object zeroByteObject) := by cbv

theorem parse_repeatedText :
    Json.parse (Bytes.ofString repeatedText) = .ok (.object zeroByteObject) := by cbv

theorem parse_arrayText :
    Json.parse (Bytes.ofString arrayText) = .ok (.array zeroByteItems) := by cbv

theorem distinct_zeroByteDocument : zeroByteDocument.Distinct := by
  refine ⟨?_, trivial, trivial, trivial⟩
  show [Except.ok "kty", Except.ok "k"].Nodup
  simp

theorem ofText_arrayText : ofText arrayText = .ok zeroByte := by cbv

/-- The object becomes the key, and so does the array; a text in which a field is written twice does
not, nor does one that is neither an object nor an array. -/
theorem ofText_agrees_zeroByte :
    (ofText zeroByteText = .ok zeroByte ↔ ofObject zeroByteObject = .ok zeroByte) ∧
      ofText zeroByteText = .ok zeroByte ∧
      (∃ d : Document, d.IsText (Bytes.ofString repeatedText) ∧ ¬Jwk.Once d) ∧
      ofText arrayText = .ok zeroByte ∧
      ofObject (Jwk.record.names.zip zeroByteItems) = .ok zeroByte ∧
      ∃ fault, ofText "null" = .error (.malformedKey fault) := by
  have hread : ofText zeroByteText = .ok zeroByte := by cbv
  obtain ⟨-, hobject, -⟩ := ofText_agrees zeroByteText
  have hsame := (hobject _ _ isText_zeroByteDocument parse_zeroByteText).2
    distinct_zeroByteDocument zeroByte
  refine ⟨hsame, hread, ?_, ofText_arrayText, ?_, ?_⟩
  · -- if each field were written once, the text would become the key of its object
    obtain ⟨d, htext, -⟩ := Json.parse_eq_ok_iff.1 parse_repeatedText
    obtain ⟨-, hrepeated, -⟩ := ofText_agrees repeatedText
    refine ⟨d, htext, fun honce => ?_⟩
    have hok := ((hrepeated d _ htext parse_repeatedText).1 zeroByte).2 ⟨honce, hsame.1 hread⟩
    have herror : ofText repeatedText =
      .error (.malformedKey (.document (.duplicate "k"))) := by cbv
    rw [herror] at hok
    cases hok
  · obtain ⟨d, htext, -⟩ := Json.parse_eq_ok_iff.1 parse_arrayText
    obtain ⟨-, -, harray, -⟩ := ofText_agrees arrayText
    exact ((harray d _ htext parse_arrayText zeroByte).1 ofText_arrayText).2.2
  · obtain ⟨-, -, -, hother, hfails⟩ := ofText_agrees "null"
    rcases hfails with ⟨key, hkey⟩ | hfault
    · exact absurd hkey (hother .null (by cbv) (fun _ h => by cases h) (fun _ h => by cases h) key)
    · exact hfault

/-- Not only objects become keys. -/
theorem not_forall_ofText_iff_object :
    ¬∀ (text : String) (key : Key), ofText text = .ok key ↔
      ∃ o, Json.parse (Bytes.ofString text) = .ok (.object o) ∧ ofObject o = .ok key := by
  intro h
  obtain ⟨o, hparse, -⟩ := (h arrayText zeroByte).1 ofText_arrayText
  rw [parse_arrayText] at hparse
  cases hparse

end Key

end WebToken
