import WebToken.Proofs.Json.Records

/-!
# Whole documents

A document that is read to its end is whole: everything in it is closed. One that is cut off cannot
even be passed over, so whatever wants more than to pass over it refuses it as well. What a text is
read as is therefore what is made of the one document that it is.

* `Document.sound_readValue` : a document is whole if there is a text behind it, and cannot be
  passed over if not;
* `Document.skip_of_value` : what has a value can be passed over;
* `readAll_eq_ok_iff` : a text is read as the document that it is.
-/

namespace WebToken

namespace Json

/-! ## Parts -/

/-- The names of the members, as far as they are texts. -/
def Members.names : Members → List (Except Fault String)
  | .done _ => []
  | .member name _ tail => name.text :: tail.names

mutual

/-- Whether everything in a document is closed. -/
def Document.Whole : Document → Prop
  | .null | .bool _ | .number _ => True
  | .string l => l.isClosed = true
  | .array items => items.Whole
  | .object members => members.Whole
  | .brokenNull _ | .brokenWord _ | .brokenNumber _ | .cut _ => False

/-- Whether the items and everything in them is closed. -/
def Items.Whole : Items → Prop
  | .done ending => ending = .closed
  | .item head tail => head.Whole ∧ tail.Whole

/-- Whether the members and everything in them is closed. -/
def Members.Whole : Members → Prop
  | .done ending => ending = .closed
  | .member name value tail => name.isClosed = true ∧ value.Whole ∧ tail.Whole

end

mutual

/-- Whether no name occurs twice in an object inside a document. -/
def Document.Distinct : Document → Prop
  | .array items => items.Distinct
  | .object members => members.names.Nodup ∧ members.Distinct
  | _ => True

/-- Whether no name occurs twice in an object inside the items. -/
def Items.Distinct : Items → Prop
  | .done _ => True
  | .item head tail => head.Distinct ∧ tail.Distinct

/-- Whether no name occurs twice in an object inside the values of members. -/
def Members.Distinct : Members → Prop
  | .done _ => True
  | .member _ value tail => value.Distinct ∧ tail.Distinct

end

/-! ## Passing over -/

theorem Literal.check_eq_ok_iff {l : Literal} : l.ending.check = .ok () ↔ l.isClosed = true := by
  rw [isClosed]
  cases l.ending <;> simp [Ending.check]

theorem Literal.check_of_bytesOf {ending : Literal.Ending} {pieces : List Piece} {bytes : Bytes}
    (h : bytesOf ending pieces = .ok bytes) : ending.check = .ok () := by
  fun_induction bytesOf ending pieces generalizing bytes with
  | case1 =>
    obtain ⟨_, hcheck, -⟩ := map_eq_ok_iff.1 h
    exact hcheck
  | case2 b rest ih =>
    obtain ⟨_, hrest, -⟩ := map_eq_ok_iff.1 h
    exact ih hrest
  | case3 => cases h
  | case4 => cases h
  | case5 => cases h
  | case6 u _ _ v rest _ ih =>
    obtain ⟨_, hrest, -⟩ := map_eq_ok_iff.1 h
    exact ih hrest
  | case7 => cases h
  | case8 u rest _ _ ih =>
    obtain ⟨_, hrest, -⟩ := map_eq_ok_iff.1 h
    exact ih hrest

/-- A literal that spells a text is closed. -/
theorem Literal.isClosed_of_text {l : Literal} {s : String} (h : l.text = .ok s) :
    l.isClosed = true := by
  obtain ⟨bytes, hbytes, -⟩ := bind_eq_ok_iff.1 h
  exact check_eq_ok_iff.1 (check_of_bytesOf hbytes)

theorem Fault.raise_eq_ok_iff {fault : Option Fault} : raise fault = .ok () ↔ fault = none := by
  cases fault <;> simp [raise]

/-- Where items may end with values, they may end if they are passed over. -/
theorem Ending.skippedItemFault_of_itemFault {ending : Ending} (h : ending.itemFault = none) :
    ending.skippedItemFault = none := by
  cases ending <;> first | rfl | cases h

theorem Ending.skippedMemberFault_of_memberFault {ending : Ending} (h : ending.memberFault = none) :
    ending.skippedMemberFault = none := by
  cases ending <;> first | rfl | cases h

mutual

/-- What has a value can be passed over. -/
theorem Document.skip_of_value : ∀ (d : Document) {depth : Nat} {v : Value},
    d.value depth = .ok v → d.skip = .ok ()
  | .null, _, _, _ => rfl
  | .bool _, _, _, _ => rfl
  | .number _, _, _, _ => rfl
  | .string l, depth, v, h => by
    rw [Document.value] at h
    obtain ⟨s, hs, -⟩ := map_eq_ok_iff.1 h
    exact Literal.check_eq_ok_iff.2 (Literal.isClosed_of_text hs)
  | .array items, 0, v, h => by
    rw [Document.value] at h
    cases h
  | .array items, depth + 1, v, h => by
    rw [Document.value] at h
    obtain ⟨vs, hvs, -⟩ := map_eq_ok_iff.1 h
    exact Items.skip_of_values items hvs
  | .object members, 0, v, h => by
    rw [Document.value] at h
    cases h
  | .object members, depth + 1, v, h => by
    rw [Document.value] at h
    obtain ⟨ms, hms, -⟩ := map_eq_ok_iff.1 h
    exact Members.skip_of_values members hms
  | .brokenNull _, depth, v, h => by
    rw [Document.value] at h
    cases h
  | .brokenWord _, depth, v, h => by
    rw [Document.value] at h
    cases h
  | .brokenNumber _, depth, v, h => by
    rw [Document.value] at h
    cases h
  | .cut _, depth, v, h => by
    rw [Document.value] at h
    cases h

theorem Items.skip_of_values : ∀ (items : Items) {depth : Nat} {vs : List Value},
    items.values depth = .ok vs → items.skip = .ok ()
  | .done ending, depth, vs, h => by
    rw [Items.values, bind_eq_ok_iff] at h
    obtain ⟨_, hend, -⟩ := h
    rw [Items.skip, Fault.raise_eq_ok_iff]
    exact Ending.skippedItemFault_of_itemFault (Fault.raise_eq_ok_iff.1 hend)
  | .item head tail, depth, vs, h => by
    simp only [Items.values, bind_eq_ok_iff] at h
    obtain ⟨v, hv, ws, hws, -⟩ := h
    rw [Items.skip, bind_eq_ok_iff]
    exact ⟨(), Document.skip_of_value head hv, Items.skip_of_values tail hws⟩

theorem Members.skip_of_values : ∀ (members : Members) {depth : Nat}
    {ms : List (String × Value)}, members.values depth = .ok ms → members.skip = .ok ()
  | .done ending, depth, ms, h => by
    rw [Members.values, bind_eq_ok_iff] at h
    obtain ⟨_, hend, -⟩ := h
    rw [Members.skip, Fault.raise_eq_ok_iff]
    exact Ending.skippedMemberFault_of_memberFault (Fault.raise_eq_ok_iff.1 hend)
  | .member name value tail, depth, ms, h => by
    simp only [Members.values, bind_eq_ok_iff] at h
    obtain ⟨n, hn, v, hv, ns, hns, -⟩ := h
    simp only [Members.skip, bind_eq_ok_iff]
    exact ⟨(), Literal.check_eq_ok_iff.2 (Literal.isClosed_of_text hn), (),
      Document.skip_of_value value hv, Members.skip_of_values tail hns⟩

end

/-! ## Documents of texts -/

/-- Whether what was read is whole if there is a text behind it, and cannot be passed over if
not. -/
def Sound {α : Type} (whole : α → Prop) (skip : α → Except Fault Unit) :
    α × Option Bytes → Prop
  | (x, some _) => whole x
  | (x, none) => skip x ≠ .ok ()

theorem Sound.map {α β : Type} {whole : α → Prop} {skip : α → Except Fault Unit}
    {whole' : β → Prop} {skip' : β → Except Fault Unit} {r : α × Option Bytes} (f : α → β)
    (h : Sound whole skip r) (hwhole : ∀ x, whole x → whole' (f x))
    (hskip : ∀ x, skip x ≠ .ok () → skip' (f x) ≠ .ok ()) :
    Sound whole' skip' (f r.1, r.2) := by
  obtain ⟨x, _ | left⟩ := r
  · exact hskip x h
  · exact hwhole x h

namespace Document

theorem sound_scalar (text : Bytes) : Sound Whole skip (scalar text) := by
  cases text with
  | nil => nofun
  | cons b rest =>
    simp only [scalar]
    split
    · split
      · trivial
      · nofun
    split
    · split
      · trivial
      · nofun
    split
    · split
      · trivial
      · nofun
    split
    · split
      · next hclosed => exact hclosed
      · next hopen => exact fun h => hopen (Literal.check_eq_ok_iff.1 h)
    split
    · split
      · trivial
      · nofun
    · nofun

/-- A member whose value is cut off cannot be passed over. -/
theorem cut_member (l : Literal) {d : Document} (h : d.skip ≠ .ok ()) :
    Sound Members.Whole Members.skip (.member l d (.done .inside), none) := by
  intro hskip
  simp only [Members.skip, bind_eq_ok_iff] at hskip
  obtain ⟨_, -, _, hvalue, -⟩ := hskip
  exact h hvalue

mutual

theorem sound_readValue : ∀ (fuel : Nat) (text : Bytes), Sound Whole skip (readValue fuel text)
  | 0, _ => nofun
  | fuel + 1, text => by
    rw [readValue]
    split
    · nofun
    · next b rest _ =>
      split
      · exact (sound_readItems fuel true rest).map Document.array (fun _ h => h) fun _ h => h
      split
      · exact (sound_readMembers fuel true rest).map Document.object (fun _ h => h) fun _ h => h
      · exact sound_scalar _

theorem sound_readItems : ∀ (fuel : Nat) (first : Bool) (text : Bytes),
    Sound Items.Whole Items.skip (readItems fuel first text)
  | 0, _, _ => nofun
  | fuel + 1, first, text => by
    rw [readItems]
    split
    · nofun
    · next b rest _ =>
      split
      · rfl
      split
      · exact sound_readItem fuel _
      split
      · split
        · nofun
        · split
          · nofun
          · exact sound_readItem fuel _
      · nofun

theorem sound_readItem : ∀ (fuel : Nat) (text : Bytes),
    Sound Items.Whole Items.skip (readItem fuel text)
  | 0, _ => nofun
  | fuel + 1, text => by
    have hvalue := sound_readValue fuel text
    rw [readItem]
    split
    · next d hread =>
      rw [hread] at hvalue
      -- the item is cut off, and nothing behind it is looked at
      intro h
      obtain ⟨_, hskip, -⟩ := bind_eq_ok_iff.1 h
      exact hvalue hskip
    · next d left hread =>
      rw [hread] at hvalue
      refine (sound_readItems fuel false left).map (Items.item d) ?_ ?_
      · exact fun items hitems => ⟨hvalue, hitems⟩
      · intro items hitems h
        obtain ⟨_, -, hskip⟩ := bind_eq_ok_iff.1 h
        exact hitems hskip

theorem sound_readMembers : ∀ (fuel : Nat) (first : Bool) (text : Bytes),
    Sound Members.Whole Members.skip (readMembers fuel first text)
  | 0, _, _ => nofun
  | fuel + 1, first, text => by
    rw [readMembers]
    split
    · nofun
    · next b rest _ =>
      split
      · rfl
      split
      · exact sound_readMember fuel _
      split
      · split
        · nofun
        · split
          · nofun
          · exact sound_readMember fuel _
      · nofun

theorem sound_readMember : ∀ (fuel : Nat) (text : Bytes),
    Sound Members.Whole Members.skip (readMember fuel text)
  | 0, _ => nofun
  | _ + 1, [] => nofun
  | fuel + 1, b :: rest => by
    rw [readMember]
    split
    · dsimp only
      split
      · next hclosed =>
        split
        · exact cut_member _ nofun
        · next c left _ =>
          have hvalue := sound_readValue fuel left
          split
          · split
            · next d hread =>
              rw [hread] at hvalue
              exact cut_member _ hvalue
            · next d left' hread =>
              rw [hread] at hvalue
              refine (sound_readMembers fuel false left').map (Members.member _ d) ?_ ?_
              · exact fun members hmembers => ⟨hclosed, hvalue, hmembers⟩
              · intro members hmembers h
                simp only [Members.skip, bind_eq_ok_iff] at h
                obtain ⟨_, -, _, -, hskip⟩ := h
                exact hmembers hskip
          · exact cut_member _ nofun
      · next hopen =>
        -- the name is cut off, and it is checked when the member is passed over
        intro h
        obtain ⟨_, hcheck, -⟩ := bind_eq_ok_iff.1 h
        exact hopen (Literal.check_eq_ok_iff.1 hcheck)
    · nofun

end

/-- Whether a text is a document, with nothing but blanks around it. -/
def IsText (d : Document) (text : Bytes) : Prop :=
  ∃ left, read text = (d, some left) ∧ skipBlanks left = []

theorem IsText.whole {d : Document} {text : Bytes} (h : d.IsText text) : d.Whole := by
  obtain ⟨left, hread, -⟩ := h
  have hsound := sound_readValue (3 * text.length + 3) text
  rw [← read, hread] at hsound
  exact hsound

/-- A text is one document. -/
theorem IsText.unique {d d' : Document} {text : Bytes} (h : d.IsText text) (h' : d'.IsText text) :
    d = d' := by
  obtain ⟨left, hread, -⟩ := h
  obtain ⟨left', hread', -⟩ := h'
  rw [hread] at hread'
  cases hread'
  rfl

end Document

/-- A text is read as the document that it is, if nothing is accepted that cannot be passed over. -/
theorem readAll_eq_ok_iff {ε α : Type} {fault : Fault → ε} {decode : Document → Except ε α}
    {text : Bytes} {a : α} (hdecode : ∀ d a, decode d = .ok a → d.skip = .ok ()) :
    readAll fault decode text = .ok a ↔ ∃ d : Document, d.IsText text ∧ decode d = .ok a := by
  have hsound : Sound Document.Whole Document.skip (Document.read text) :=
    Document.sound_readValue _ _
  constructor
  · intro h
    have ha := decode_of_readAll h
    rcases hread : Document.read text with ⟨d, _ | left⟩
    · -- the text ends inside of the document, which nothing accepts
      rw [hread] at ha hsound
      exact absurd (hdecode d a ha) hsound
    · rw [readAll, hread] at h
      rw [hread] at ha
      refine ⟨d, ⟨left, hread, ?_⟩, ha⟩
      obtain ⟨_, -, h⟩ := bind_eq_ok_iff.1 h
      rw [Option.map_some] at h
      cases hleft : Document.skipBlanks left with
      | nil => rfl
      | cons b rest =>
        rw [hleft] at h
        cases h
  · intro h
    rcases h with ⟨d, ⟨left, hread, hleft⟩, ha⟩
    rw [readAll, hread]
    refine bind_eq_ok_iff.2 ⟨a, ha, ?_⟩
    rw [Option.map_some, hleft]

theorem parse_eq_ok_iff {text : Bytes} {v : Value} :
    parse text = .ok v ↔ ∃ d : Document, d.IsText text ∧ d.value Document.maxDepth = .ok v :=
  readAll_eq_ok_iff fun d _ h => Document.skip_of_value d h

/-! ## Documents of values -/

namespace Document

/-- A numeral denotes a number. -/
theorem value_number_ne {x : Numeral} {v : Value} (hn : ∀ n, v ≠ .integer n)
    (hf : ∀ y, v ≠ .float y) : x.value ≠ .ok v := by
  intro h
  rcases Numeral.number_of_value h with ⟨n, -, heq⟩ | ⟨y, -, heq⟩
  · exact hn n heq
  · exact hf y heq

variable {d : Document} {depth : Nat}

theorem value_eq_null_iff : d.value depth = .ok .null ↔ d = .null := by
  cases d with
  | number x => simp [value, value_number_ne]
  | array items => cases depth <;> simp [value, map_eq_ok_iff]
  | object members => cases depth <;> simp [value, map_eq_ok_iff]
  | _ => simp [value, map_eq_ok_iff]

theorem value_eq_string_iff {s : String} :
    d.value depth = .ok (.string s) ↔ ∃ l, d = .string l ∧ l.text = .ok s := by
  cases d with
  | number x => simp [value, value_number_ne]
  | array items => cases depth <;> simp [value, map_eq_ok_iff]
  | object members => cases depth <;> simp [value, map_eq_ok_iff]
  | _ => simp [value, map_eq_ok_iff]

theorem value_eq_array_iff {vs : List Value} :
    d.value (depth + 1) = .ok (.array vs) ↔
      ∃ items, d = .array items ∧ items.values depth = .ok vs := by
  cases d with
  | number x => simp [value, value_number_ne]
  | _ => simp [value, map_eq_ok_iff]

theorem value_eq_object_iff {o : Object} :
    d.value (depth + 1) = .ok (.object o) ↔
      ∃ members ms, d = .object members ∧ members.values depth = .ok ms ∧
        o = Object.insertAll [] ms := by
  cases d with
  | number x => simp [value, value_number_ne]
  | _ => simp [value, map_eq_ok_iff, eq_comm (a := o)]

theorem scalar_ne_object (text : Bytes) (members : Members) :
    (scalar text).1 ≠ .object members := by
  cases text with
  | nil => nofun
  | cons b rest =>
    simp only [scalar]
    -- one case for each first byte, and in each whether the value is complete
    repeat' split
    all_goals simp

/-- A document that is an object begins with a brace. -/
theorem exists_of_read_object {text : Bytes} {members : Members} {left : Option Bytes}
    (h : read text = (.object members, left)) : ∃ rest, skipBlanks text = 0x7B :: rest := by
  have h : (readValue (3 * text.length + 3) text).1 = .object members := congrArg Prod.fst h
  rw [readValue] at h
  split at h
  · cases h
  · next b rest hskip =>
    by_cases hbrace : b = 0x7B
    · exact ⟨rest, hbrace ▸ hskip⟩
    · rw [if_neg hbrace] at h
      split at h
      · cases h
      · exact absurd h (scalar_ne_object _ _)

end Document

end Json

end WebToken
