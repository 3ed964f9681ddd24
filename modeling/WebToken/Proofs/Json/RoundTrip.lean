import WebToken.Proofs.Json.Literals
import WebToken.Proofs.Json.Reread

/-!
# A printed value is read back

The printer and the reader walk over a value in the same order. The theorems here say what the
reader does with the printed form of a value, of the items of an array and of the members of an
object, whatever text stands behind it: it stops exactly there, and what it has read denotes what
was printed, up to the last place of the doubles.

* `Document.readValue_chars` : a printed value is read up to its end;
* `parse_encode_reread` : the text of a well-formed value, nested no deeper than the reader goes,
  denotes the value that is read back;
* `parse_encode` : without doubles that is the value itself.
-/

namespace WebToken

namespace Json

/-! ## Steps of the reader -/

namespace Document

open Literal (quote)

theorem skipBlanks_cons {b : UInt8} (h : isBlank b = false) (text : Bytes) :
    skipBlanks (b :: text) = b :: text := by
  rw [skipBlanks, List.dropWhile_cons_of_neg (by simp [h])]

theorem readValue_array {fuel : Nat} {text left : Bytes} {items : Items}
    (h : readItems fuel true text = (items, some left)) :
    readValue (fuel + 1) (0x5B :: text) = (.array items, some left) := by
  rw [readValue, skipBlanks_cons (by decide)]
  simp only [if_true, h]

theorem readValue_object {fuel : Nat} {text left : Bytes} {members : Members}
    (h : readMembers fuel true text = (members, some left)) :
    readValue (fuel + 1) (0x7B :: text) = (.object members, some left) := by
  rw [readValue, skipBlanks_cons (by decide)]
  simp only [if_neg (show (0x7B : UInt8) ≠ 0x5B by decide), if_true, h]

theorem readValue_scalar {fuel : Nat} {b : UInt8} (hb : isBlank b = false) (ha : b ≠ 0x5B)
    (ho : b ≠ 0x7B) (text : Bytes) : readValue (fuel + 1) (b :: text) = scalar (b :: text) := by
  rw [readValue, skipBlanks_cons hb]
  simp only [if_neg ha, if_neg ho]

theorem readItems_close (fuel : Nat) (first : Bool) (rest : Bytes) :
    readItems (fuel + 1) first (0x5D :: rest) = (.done .closed, some rest) := by
  rw [readItems, skipBlanks_cons (by decide)]
  simp only [if_true]

/-- An item is read with the items behind it. -/
theorem readItem_eq {fuel : Nat} {text left : Bytes} {d : Document} {items : Items}
    {rest : Option Bytes} (hv : readValue fuel text = (d, some left))
    (hi : readItems fuel false left = (items, rest)) :
    readItem (fuel + 1) text = (.item d items, rest) := by
  rw [readItem, hv]
  simp only [hi]

/-- The first item needs no comma before it. -/
theorem readItems_first {fuel : Nat} {b : UInt8} (hb : isBlank b = false) (hc : b ≠ 0x5D)
    (text : Bytes) : readItems (fuel + 1) true (b :: text) = readItem fuel (b :: text) := by
  rw [readItems, skipBlanks_cons hb]
  simp only [if_neg hc, if_true]

theorem readItems_comma {fuel : Nat} {b : UInt8} (hb : isBlank b = false) (hc : b ≠ 0x5D)
    (text : Bytes) :
    readItems (fuel + 1) false (0x2C :: b :: text) = readItem fuel (b :: text) := by
  rw [readItems, skipBlanks_cons (by decide)]
  simp only [if_neg (show (0x2C : UInt8) ≠ 0x5D by decide), Bool.false_eq_true, if_false, if_true]
  rw [skipBlanks_cons hb]
  simp only [if_neg hc]

theorem readMembers_close (fuel : Nat) (first : Bool) (rest : Bytes) :
    readMembers (fuel + 1) first (0x7D :: rest) = (.done .closed, some rest) := by
  rw [readMembers, skipBlanks_cons (by decide)]
  simp only [if_true]

/-- A member is read with the members behind it. -/
theorem readMember_eq {fuel : Nat} {text colon left : Bytes} {l : Literal} {d : Document}
    {members : Members} {rest : Option Bytes}
    (hl : Literal.read text = (l, 0x3A :: colon)) (hc : l.isClosed = true)
    (hv : readValue fuel colon = (d, some left))
    (hm : readMembers fuel false left = (members, rest)) :
    readMember (fuel + 1) (quote :: text) = (.member l d members, rest) := by
  rw [readMember, if_pos rfl, hl]
  simp only [hc, if_true]
  rw [skipBlanks_cons (by decide)]
  simp only [if_true, hv, hm]

/-- The first member needs no comma before it. -/
theorem readMembers_first (fuel : Nat) (text : Bytes) :
    readMembers (fuel + 1) true (quote :: text) = readMember fuel (quote :: text) := by
  rw [readMembers, skipBlanks_cons (by decide)]
  simp only [if_neg (show quote ≠ 0x7D by decide), if_true]

theorem readMembers_comma (fuel : Nat) (text : Bytes) :
    readMembers (fuel + 1) false (0x2C :: quote :: text) = readMember fuel (quote :: text) := by
  rw [readMembers, skipBlanks_cons (by decide)]
  simp only [if_neg (show (0x2C : UInt8) ≠ 0x7D by decide), Bool.false_eq_true, if_false, if_true]
  rw [skipBlanks_cons (by decide)]
  simp only [if_neg (show quote ≠ 0x7D by decide)]

/-! ## Printed forms -/

theorem isBlank_of_begins {b : UInt8} (h : Numeral.Begins b) : isBlank b = false := by
  have h0 : b ≠ 0x20 := h.ne (by decide) (by decide)
  have h1 : b ≠ 0x09 := h.ne (by decide) (by decide)
  have h2 : b ≠ 0x0A := h.ne (by decide) (by decide)
  have h3 : b ≠ 0x0D := h.ne (by decide) (by decide)
  simp [isBlank, h0, h1, h2, h3]

/-- A printed value begins with a character that is neither blank nor a closing bracket. -/
theorem exists_cons_utf8_chars (v : Value) (rest : Bytes) :
    ∃ b text, Bytes.utf8 v.chars ++ rest = b :: text ∧ isBlank b = false ∧ b ≠ 0x5D := by
  have ascii : ∀ {c : Char} (cs : List Char), c.toNat < 128 →
      isBlank (UInt8.ofNat c.toNat) = false → UInt8.ofNat c.toNat ≠ 0x5D →
      ∃ b text, Bytes.utf8 (c :: cs) ++ rest = b :: text ∧ isBlank b = false ∧ b ≠ 0x5D := by
    intro c cs hc hb hd
    rw [Bytes.utf8_cons_ascii _ hc, List.cons_append]
    exact ⟨_, _, rfl, hb, hd⟩
  have numeral : ∀ {cs : List Char} {x : Numeral},
      Numeral.read (Bytes.utf8 cs ++ []) = .ok (x, []) →
      ∃ b text, Bytes.utf8 cs ++ rest = b :: text ∧ isBlank b = false ∧ b ≠ 0x5D := by
    intro cs x hread
    obtain ⟨b, text, htext, hb⟩ := Numeral.begins_of_read hread
    rw [List.append_nil] at htext
    rw [htext, List.cons_append]
    exact ⟨b, _, rfl, isBlank_of_begins hb, hb.ne (by decide) (by decide)⟩
  cases v with
  | null => exact ascii _ (by decide) (by decide) (by decide)
  | bool b => cases b <;> exact ascii _ (by decide) (by decide) (by decide)
  | float x => exact numeral (Numeral.read_toChars x Numeral.ends_nil)
  | string s => exact ascii _ (by decide) (by decide) (by decide)
  | array vs => cases vs <;> exact ascii _ (by decide) (by decide) (by decide)
  | object ms => cases ms <;> exact ascii _ (by decide) (by decide) (by decide)
  | integer n => exact numeral (Numeral.read_integerChars n Numeral.ends_nil)

/-- Behind an item stands a comma or a bracket, which ends a numeral. -/
theorem ends_itemsChars (vs : List Value) (rest : Bytes) :
    Numeral.Ends (Bytes.utf8 (Value.itemsChars vs) ++ rest) := by
  cases vs with
  | nil => exact Numeral.ends_cons _ (by decide)
  | cons v vs =>
    rw [Value.itemsChars, List.cons_append, Bytes.utf8_cons_ascii _ (by decide)]
    exact Numeral.ends_cons _ (by decide)

/-- Behind a member stands a comma or a brace, which ends a numeral. -/
theorem ends_membersChars (ms : List (String × Value)) (rest : Bytes) :
    Numeral.Ends (Bytes.utf8 (Value.membersChars ms) ++ rest) := by
  cases ms with
  | nil => exact Numeral.ends_cons _ (by decide)
  | cons m ms =>
    obtain ⟨name, v⟩ := m
    rw [Value.membersChars, List.cons_append, List.cons_append,
      Bytes.utf8_cons_ascii _ (by decide)]
    exact Numeral.ends_cons _ (by decide)

theorem length_pos_utf8_chars (v : Value) : 0 < (Bytes.utf8 v.chars).length := by
  obtain ⟨b, text, h, -⟩ := exists_cons_utf8_chars v []
  rw [List.append_nil] at h
  rw [h]
  exact Nat.succ_pos _

theorem length_pos_utf8_itemsChars (vs : List Value) :
    0 < (Bytes.utf8 (Value.itemsChars vs)).length := by
  cases vs with
  | nil => decide
  | cons v vs =>
    rw [Value.itemsChars, List.cons_append, Bytes.utf8_cons_ascii _ (by decide)]
    exact Nat.succ_pos _

/-- The bytes of an item and of what stands behind it. -/
theorem utf8_item (v : Value) (vs : List Value) (rest : Bytes) :
    Bytes.utf8 (Value.itemsChars (v :: vs)) ++ rest =
      0x2C :: (Bytes.utf8 v.chars ++ (Bytes.utf8 (Value.itemsChars vs) ++ rest)) := by
  rw [Value.itemsChars, List.cons_append, Bytes.utf8_cons_ascii _ (by decide), Bytes.utf8_append,
    List.cons_append, List.append_assoc]
  rfl

/-- The bytes of a name, of the value under it and of what stands behind them. -/
theorem utf8_member (name : String) (v : Value) (ms : List (String × Value)) (rest : Bytes) :
    Bytes.utf8 (stringChars name ++ ':' :: v.chars ++ Value.membersChars ms) ++ rest =
      quote :: (Bytes.utf8 (name.toList.flatMap escapedChar) ++
        quote :: 0x3A :: (Bytes.utf8 v.chars ++ (Bytes.utf8 (Value.membersChars ms) ++ rest))) := by
  rw [Bytes.utf8_append, Bytes.utf8_append, Bytes.utf8_cons_ascii _ (by decide), List.append_assoc,
    List.append_assoc, Literal.utf8_stringChars, List.cons_append]
  rfl

/-! ## Reading what was printed -/

/-- Whether a printed value is read up to its end, with two calls for each of its bytes, and as a
document that denotes the value read back. -/
def Reads (v : Value) : Prop :=
  ∀ (fuel : Nat) (rest : Bytes), 2 * (Bytes.utf8 v.chars).length ≤ fuel → Numeral.Ends rest →
    ∃ d, readValue fuel (Bytes.utf8 v.chars ++ rest) = (d, some rest) ∧
      ∀ depth, v.depth ≤ depth → d.value depth = .ok v.reread

/-- The same for printed items behind the first one, up to the closing bracket. -/
def ReadsItems (vs : List Value) : Prop :=
  ∀ (fuel : Nat) (rest : Bytes), 2 * (Bytes.utf8 (Value.itemsChars vs)).length ≤ fuel →
    ∃ items, readItems fuel false (Bytes.utf8 (Value.itemsChars vs) ++ rest) =
        (items, some rest) ∧
      ∀ depth, Value.depthItems vs ≤ depth → items.values depth = .ok (Value.rereadItems vs)

/-- The same for printed members behind the first one, up to the closing brace. -/
def ReadsMembers (ms : List (String × Value)) : Prop :=
  ∀ (fuel : Nat) (rest : Bytes), 2 * (Bytes.utf8 (Value.membersChars ms)).length ≤ fuel →
    ∃ members, readMembers fuel false (Bytes.utf8 (Value.membersChars ms) ++ rest) =
        (members, some rest) ∧
      ∀ depth, Value.depthMembers ms ≤ depth →
        members.values depth = .ok (Value.rereadMembers ms)

theorem exists_succ {n : Nat} (h : 0 < n) : ∃ k, n = k + 1 := ⟨n - 1, by omega⟩

theorem length_utf8_stringChars (s : String) : 2 ≤ (Bytes.utf8 (stringChars s)).length := by
  have h := congrArg List.length (Literal.utf8_stringChars s [])
  simp only [List.append_nil, List.length_cons, List.length_append, List.length_nil] at h
  omega

/-- A word is read at its first byte. -/
theorem reads_word {v : Value} {d : Document}
    (hread : ∀ fuel rest, readValue (fuel + 1) (Bytes.utf8 v.chars ++ rest) = (d, some rest))
    (hvalue : ∀ depth, d.value depth = .ok v.reread) : Reads v := by
  intro fuel rest hfuel _
  have hlen := length_pos_utf8_chars v
  obtain ⟨f, rfl⟩ := exists_succ (n := fuel) (by omega)
  exact ⟨d, hread f rest, fun depth _ => hvalue depth⟩

theorem reads_null : Reads .null :=
  reads_word (fun _ _ => readValue_scalar (by decide) (by decide) (by decide) _) (fun _ => rfl)

theorem reads_bool (b : Bool) : Reads (.bool b) := by
  cases b with
  | false =>
    exact reads_word (fun _ _ => readValue_scalar (by decide) (by decide) (by decide) _)
      (fun _ => rfl)
  | true =>
    exact reads_word (fun _ _ => readValue_scalar (by decide) (by decide) (by decide) _)
      (fun _ => rfl)

theorem reads_string (s : String) : Reads (.string s) := by
  intro fuel rest hfuel _
  have hlen := length_utf8_stringChars s
  rw [Value.chars] at hfuel ⊢
  obtain ⟨f, rfl⟩ := exists_succ (n := fuel) (by omega)
  obtain ⟨l, hread, hclosed, htext⟩ := Literal.read_stringChars s rest
  refine ⟨.string l, ?_, fun depth _ => ?_⟩
  · rw [Literal.utf8_stringChars, readValue_scalar (by decide) (by decide) (by decide)]
    unfold scalar
    simp only [if_neg (show quote ≠ 0x6E by decide), if_neg (show quote ≠ 0x74 by decide),
      if_neg (show quote ≠ 0x66 by decide), if_true, hread, hclosed]
  · rw [Document.value, htext]
    rfl

/-- A number is read where its first byte is a sign or a digit. -/
theorem reads_numeral {v : Value} {x : Numeral}
    (hread : ∀ rest, Numeral.Ends rest →
      Numeral.read (Bytes.utf8 v.chars ++ rest) = .ok (x, rest))
    (hvalue : x.value = .ok v.reread) : Reads v := by
  intro fuel rest hfuel hr
  have hlen := length_pos_utf8_chars v
  obtain ⟨f, rfl⟩ := exists_succ (n := fuel) (by omega)
  have hx := hread rest hr
  refine ⟨.number x, ?_, fun depth _ => by rw [Document.value, hvalue]⟩
  obtain ⟨b, text, htext, hb⟩ := Numeral.begins_of_read hx
  have hdigit : b = 0x2D ∨ (Numeral.digit? b).isSome = true := by
    refine hb.imp_right fun hb => ?_
    rw [Numeral.digit?, if_pos (by rw [UInt8.le_iff_toNat_le, UInt8.le_iff_toNat_le]; exact hb)]
    rfl
  have hn : b ≠ 0x6E := hb.ne (by decide) (by decide)
  have ht : b ≠ 0x74 := hb.ne (by decide) (by decide)
  have hf : b ≠ 0x66 := hb.ne (by decide) (by decide)
  have hq : b ≠ quote := hb.ne (by decide) (by decide)
  rw [htext] at hx ⊢
  rw [readValue_scalar (isBlank_of_begins hb) (hb.ne (by decide) (by decide))
    (hb.ne (by decide) (by decide))]
  unfold scalar
  simp only [if_neg hn, if_neg ht, if_neg hf, if_neg hq, if_pos hdigit, hx]

theorem reads_integer {n : Int} (hn : (Value.integer n).WellFormed) : Reads (.integer n) :=
  have hbounds := Value.wellFormed_integer.1 hn
  reads_numeral (fun _ => Numeral.read_integerChars n) (Numeral.value_ofInt hbounds.1 hbounds.2)

theorem reads_float {x : Double} (hx : x.IsFinite) : Reads (.float x) :=
  reads_numeral (fun _ => Numeral.read_toChars x) (Double.value_ofDouble hx)

/-! ### Arrays -/

theorem readsItems_nil : ReadsItems [] := by
  intro fuel rest hfuel
  obtain ⟨f, rfl⟩ := exists_succ (n := fuel) (Nat.lt_of_lt_of_le (by decide) hfuel)
  exact ⟨.done .closed, readItems_close f false rest, fun _ _ => rfl⟩

/-- One item is read, and the items behind it. -/
theorem readItem_chars {v : Value} {vs : List Value} (hv : Reads v) (hvs : ReadsItems vs)
    (fuel : Nat) (rest : Bytes)
    (hfuel : 2 * (Bytes.utf8 v.chars).length ≤ fuel ∧
      2 * (Bytes.utf8 (Value.itemsChars vs)).length ≤ fuel) :
    ∃ b text items, Bytes.utf8 v.chars ++ (Bytes.utf8 (Value.itemsChars vs) ++ rest) = b :: text ∧
      isBlank b = false ∧ b ≠ 0x5D ∧
      readItem (fuel + 1) (b :: text) = (items, some rest) ∧
      ∀ depth, Value.depthItems (v :: vs) ≤ depth →
        items.values depth = .ok (Value.rereadItems (v :: vs)) := by
  obtain ⟨d, hread, hvalue⟩ := hv fuel (Bytes.utf8 (Value.itemsChars vs) ++ rest) hfuel.1
    (ends_itemsChars vs rest)
  obtain ⟨items, hitems, hvalues⟩ := hvs fuel rest hfuel.2
  obtain ⟨b, text, htext, hb, hc⟩ := exists_cons_utf8_chars v
    (Bytes.utf8 (Value.itemsChars vs) ++ rest)
  refine ⟨b, text, .item d items, htext, hb, hc, ?_, ?_⟩
  · rw [← htext]
    exact readItem_eq hread hitems
  · intro depth hd
    rw [Value.depthItems] at hd
    rw [Items.values, hvalue depth (by omega), hvalues depth (by omega)]
    rfl

theorem readsItems_cons {v : Value} {vs : List Value} (hv : Reads v) (hvs : ReadsItems vs) :
    ReadsItems (v :: vs) := by
  intro fuel rest hfuel
  have hlen := congrArg List.length (utf8_item v vs [])
  simp only [List.append_nil, List.length_cons, List.length_append] at hlen
  -- one call finds the comma, and one reads the item behind it
  obtain ⟨f, rfl⟩ : ∃ f, fuel = f + 1 + 1 := ⟨fuel - 2, by omega⟩
  obtain ⟨b, text, items, htext, hb, hc, hread, hvalues⟩ :=
    readItem_chars hv hvs f rest ⟨by omega, by omega⟩
  refine ⟨items, ?_, hvalues⟩
  rw [utf8_item, htext, readItems_comma hb hc]
  exact hread

theorem reads_array {vs : List Value} (hv : ∀ v ∈ vs.head?, Reads v)
    (hvs : ReadsItems vs.tail) : Reads (.array vs) := by
  intro fuel rest hfuel _
  cases vs with
  | nil =>
    obtain ⟨f, rfl⟩ : ∃ f, fuel = f + 1 + 1 := ⟨fuel - 2, by
      have : (Bytes.utf8 (Value.chars (.array []))).length = 2 := rfl
      omega⟩
    refine ⟨.array (.done .closed), readValue_array (readItems_close f true rest), ?_⟩
    intro depth hd
    obtain ⟨k, rfl⟩ := exists_succ (n := depth) hd
    rfl
  | cons v vs =>
    have hchars : ∀ rest, Bytes.utf8 (Value.chars (.array (v :: vs))) ++ rest =
        0x5B :: (Bytes.utf8 v.chars ++ (Bytes.utf8 (Value.itemsChars vs) ++ rest)) := by
      intro rest
      rw [Value.chars, List.cons_append, Bytes.utf8_cons_ascii _ (by decide), Bytes.utf8_append,
        List.cons_append, List.append_assoc]
      rfl
    have hlen := congrArg List.length (hchars [])
    simp only [List.append_nil, List.length_cons, List.length_append] at hlen
    have hv1 := length_pos_utf8_chars v
    have hvs1 := length_pos_utf8_itemsChars vs
    -- one call is for the bracket, one for the items and one for the first of them
    obtain ⟨f, rfl⟩ : ∃ f, fuel = f + 1 + 1 + 1 := ⟨fuel - 3, by omega⟩
    obtain ⟨b, text, items, htext, hb, hc, hread, hvalues⟩ :=
      readItem_chars (hv v rfl) hvs f rest
        ⟨by omega, by simp only [List.tail_cons]; omega⟩
    refine ⟨.array items, ?_, ?_⟩
    · rw [List.tail_cons] at htext
      rw [hchars, htext]
      exact readValue_array ((readItems_first hb hc text).trans hread)
    · intro depth hd
      rw [Value.depth] at hd
      obtain ⟨k, rfl⟩ := exists_succ (n := depth) (by omega)
      rw [Document.value, hvalues k (by simp only [List.tail_cons]; omega)]
      rfl

/-! ### Objects -/

theorem readsMembers_nil : ReadsMembers [] := by
  intro fuel rest hfuel
  obtain ⟨f, rfl⟩ := exists_succ (n := fuel) (Nat.lt_of_lt_of_le (by decide) hfuel)
  exact ⟨.done .closed, readMembers_close f false rest, fun _ _ => rfl⟩

/-- One member is read, and the members behind it. -/
theorem readMember_chars (name : String) {v : Value} {ms : List (String × Value)} (hv : Reads v)
    (hms : ReadsMembers ms) (fuel : Nat) (rest : Bytes)
    (hfuel : 2 * (Bytes.utf8 v.chars).length ≤ fuel ∧
      2 * (Bytes.utf8 (Value.membersChars ms)).length ≤ fuel) :
    ∃ text members,
      Bytes.utf8 (stringChars name ++ ':' :: v.chars ++ Value.membersChars ms) ++ rest =
        quote :: text ∧
      readMember (fuel + 1) (quote :: text) = (members, some rest) ∧
      ∀ depth, Value.depthMembers ((name, v) :: ms) ≤ depth →
        members.values depth = .ok (Value.rereadMembers ((name, v) :: ms)) := by
  obtain ⟨l, hl, hclosed, hname⟩ := Literal.read_stringChars name
    (0x3A :: (Bytes.utf8 v.chars ++ (Bytes.utf8 (Value.membersChars ms) ++ rest)))
  obtain ⟨d, hread, hvalue⟩ := hv fuel (Bytes.utf8 (Value.membersChars ms) ++ rest) hfuel.1
    (ends_membersChars ms rest)
  obtain ⟨members, hmembers, hvalues⟩ := hms fuel rest hfuel.2
  refine ⟨_, .member l d members, utf8_member name v ms rest,
    readMember_eq hl hclosed hread hmembers, ?_⟩
  intro depth hd
  rw [Value.depthMembers] at hd
  rw [Members.values, hname, hvalue depth (by omega), hvalues depth (by omega)]
  rfl

/-- The bytes of a name, a colon, a value and the members behind it. -/
theorem length_utf8_member (name : String) (v : Value) (ms : List (String × Value)) :
    (Bytes.utf8 v.chars).length + (Bytes.utf8 (Value.membersChars ms)).length + 3 ≤
      (Bytes.utf8 (stringChars name ++ ':' :: v.chars ++ Value.membersChars ms)).length := by
  have hname := length_utf8_stringChars name
  rw [Bytes.utf8_append, Bytes.utf8_append, Bytes.utf8_cons_ascii _ (by decide)]
  simp only [List.length_append, List.length_cons]
  omega

theorem readsMembers_cons (name : String) {v : Value} {ms : List (String × Value)} (hv : Reads v)
    (hms : ReadsMembers ms) : ReadsMembers ((name, v) :: ms) := by
  intro fuel rest hfuel
  have hchars : Bytes.utf8 (Value.membersChars ((name, v) :: ms)) =
      0x2C :: Bytes.utf8 (stringChars name ++ ':' :: v.chars ++ Value.membersChars ms) := by
    rw [Value.membersChars, List.cons_append, List.cons_append,
      Bytes.utf8_cons_ascii _ (by decide)]
    rfl
  have hlen := length_utf8_member name v ms
  rw [hchars, List.length_cons] at hfuel
  -- one call finds the comma, and one reads the member behind it
  obtain ⟨f, rfl⟩ : ∃ f, fuel = f + 1 + 1 := ⟨fuel - 2, by omega⟩
  obtain ⟨text, members, htext, hread, hvalues⟩ :=
    readMember_chars name hv hms f rest ⟨by omega, by omega⟩
  refine ⟨members, ?_, hvalues⟩
  rw [hchars, List.cons_append, htext, readMembers_comma]
  exact hread

/-- The text of an object is read as its members, whatever is asked of them. -/
theorem readObject_chars {ms : List (String × Value)} (hv : ∀ m ∈ ms.head?, Reads m.2)
    (hms : ReadsMembers ms.tail) (fuel : Nat) (rest : Bytes)
    (hfuel : 2 * (Bytes.utf8 (Value.chars (.object ms))).length ≤ fuel) :
    ∃ members, readValue fuel (Bytes.utf8 (Value.chars (.object ms)) ++ rest) =
        (.object members, some rest) ∧
      ∀ depth, Value.depthMembers ms ≤ depth →
        members.values depth = .ok (Value.rereadMembers ms) := by
  cases ms with
  | nil =>
    obtain ⟨f, rfl⟩ : ∃ f, fuel = f + 1 + 1 := ⟨fuel - 2, by
      have : (Bytes.utf8 (Value.chars (.object []))).length = 2 := rfl
      omega⟩
    exact ⟨.done .closed, readValue_object (readMembers_close f true rest), fun _ _ => rfl⟩
  | cons m ms =>
    obtain ⟨name, v⟩ := m
    have hchars : Bytes.utf8 (Value.chars (.object ((name, v) :: ms))) =
        0x7B :: Bytes.utf8 (stringChars name ++ ':' :: v.chars ++ Value.membersChars ms) := by
      rw [Value.chars, List.cons_append, List.cons_append, Bytes.utf8_cons_ascii _ (by decide)]
      rfl
    have hlen := length_utf8_member name v ms
    rw [hchars, List.length_cons] at hfuel
    obtain ⟨f, rfl⟩ : ∃ f, fuel = f + 1 + 1 + 1 := ⟨fuel - 3, by omega⟩
    have hfirst : Reads v := hv (name, v) rfl
    rw [List.tail_cons] at hms
    obtain ⟨text, members, htext, hread, hvalues⟩ :=
      readMember_chars name hfirst hms f rest ⟨by omega, by omega⟩
    refine ⟨members, ?_, hvalues⟩
    rw [hchars, List.cons_append, htext]
    exact readValue_object ((readMembers_first (f + 1) text).trans hread)

/-- An object is read as its members, if their names are distinct. -/
theorem reads_object {ms : List (String × Value)} (hn : (Object.names ms).Nodup)
    (hv : ∀ m ∈ ms.head?, Reads m.2) (hms : ReadsMembers ms.tail) : Reads (.object ms) := by
  intro fuel rest hfuel _
  obtain ⟨members, hread, hvalues⟩ := readObject_chars hv hms fuel rest hfuel
  refine ⟨.object members, hread, fun depth hd => ?_⟩
  rw [Value.depth] at hd
  obtain ⟨k, rfl⟩ := exists_succ (n := depth) (by omega)
  -- setting members of distinct names one after the other gives the members
  have hset : Object.insertAll [] (Value.rereadMembers ms) = Value.rereadMembers ms := by
    refine Object.insertAll_of_nodup ?_
    rw [List.nil_append]
    exact (Object.names_reread ms).symm ▸ hn
  rw [Document.value, hvalues k (by omega)]
  show Except.ok (Value.object (Object.insertAll [] (Value.rereadMembers ms))) = _
  rw [hset]
  rfl

/-! ### All values -/

mutual

/-- A printed value is read up to its end. -/
theorem readValue_chars : ∀ v : Value, v.WellFormed → v.FiniteDoubles → Reads v
  | .null, _, _ => reads_null
  | .bool b, _, _ => reads_bool b
  | .integer _, hw, _ => reads_integer hw
  | .float x, _, hf => reads_float (hf x rfl)
  | .string s, _, _ => reads_string s
  | .array [], _, _ => reads_array (by simp) readsItems_nil
  | .array (v :: vs), hw, hf =>
    reads_array (fun _ h => Option.some.inj h ▸ readValue_chars v hw.2.1 hf.2.1)
      (readItems_chars vs hw.2.2 hf.2.2)
  | .object [], hw, _ => reads_object hw.1 (by simp) readsMembers_nil
  | .object ((_, v) :: ms), hw, hf =>
    reads_object hw.1 (fun _ h => Option.some.inj h ▸ readValue_chars v hw.2.1 hf.2.1)
      (readMembers_chars ms hw.2.2 hf.2.2)

/-- Printed items are read up to the closing bracket. -/
theorem readItems_chars : ∀ vs : List Value, Value.AllItems Value.Regular vs →
    Value.AllItems (fun w => ∀ x, w = .float x → x.IsFinite) vs → ReadsItems vs
  | [], _, _ => readsItems_nil
  | v :: vs, hw, hf =>
    readsItems_cons (readValue_chars v hw.1 hf.1) (readItems_chars vs hw.2 hf.2)

/-- Printed members are read up to the closing brace. -/
theorem readMembers_chars : ∀ ms : List (String × Value), Value.AllMembers Value.Regular ms →
    Value.AllMembers (fun w => ∀ x, w = .float x → x.IsFinite) ms → ReadsMembers ms
  | [], _, _ => readsMembers_nil
  | (name, v) :: ms, hw, hf =>
    readsMembers_cons name (readValue_chars v hw.1 hf.1) (readMembers_chars ms hw.2 hf.2)

end

end Document

/-! ## Whole texts -/

/-- A whole text is read as what stands at its front, with calls enough for all of it. -/
theorem Document.read_encode (v : Value) :
    ∃ fuel, 2 * (Bytes.utf8 v.chars).length ≤ fuel ∧
      Document.read v.encode = Document.readValue fuel (Bytes.utf8 v.chars ++ []) := by
  have hencode : v.encode = Bytes.utf8 v.chars := by
    rw [Value.encode, Value.text, Bytes.ofString_ofList]
  refine ⟨3 * v.encode.length + 3, ?_, ?_⟩
  · rw [hencode]
    omega
  · rw [Document.read, List.append_nil, hencode]

/-- The text of an object is read as its members, up to its end, each as its value comes back. -/
theorem Document.read_encode_object_reread {o : Object} (hw : (Value.object o).WellFormed)
    (hf : (Value.object o).FiniteDoubles) :
    ∃ members, Document.read (Value.object o).encode = (.object members, some []) ∧
      ∀ depth, Value.depthMembers o ≤ depth → members.values depth = .ok o.reread := by
  obtain ⟨fuel, hfuel, hread⟩ := Document.read_encode (.object o)
  have hmembers : (∀ m ∈ o.head?, Document.Reads m.2) ∧ Document.ReadsMembers o.tail := by
    cases o with
    | nil => exact ⟨by simp, Document.readsMembers_nil⟩
    | cons m o =>
      obtain ⟨name, v⟩ := m
      refine ⟨fun _ h => ?_, Document.readMembers_chars o hw.2.2 hf.2.2⟩
      rw [← Option.some.inj h]
      exact Document.readValue_chars v hw.2.1 hf.2.1
  obtain ⟨members, hobject, hvalues⟩ :=
    Document.readObject_chars hmembers.1 hmembers.2 fuel [] hfuel
  exact ⟨members, hread.trans hobject, hvalues⟩

/-- The text of an object without doubles is read as its members, up to its end. -/
theorem Document.read_encode_object {o : Object} (hw : (Value.object o).WellFormed)
    (hf : (Value.object o).FloatFree) :
    ∃ members, Document.read (Value.object o).encode = (.object members, some []) ∧
      ∀ depth, Value.depthMembers o ≤ depth → members.values depth = .ok o := by
  obtain ⟨members, hread, hvalues⟩ := read_encode_object_reread hw hf.finiteDoubles
  refine ⟨members, hread, fun depth hd => ?_⟩
  rw [hvalues depth hd, Object.reread, Value.rereadMembers_of_floatFree o hf.2]

/-- The text of a value denotes the value read back, if the value is well formed, its doubles are
finite and it is nested no deeper than the reader goes. -/
theorem parse_encode_reread {v : Value} (hw : v.WellFormed) (hf : v.FiniteDoubles)
    (hd : v.depth ≤ Document.maxDepth) : parse v.encode = .ok v.reread := by
  obtain ⟨fuel, hfuel, hdoc⟩ := Document.read_encode v
  obtain ⟨d, hread, hvalue⟩ := Document.readValue_chars v hw hf fuel [] hfuel Numeral.ends_nil
  rw [hread] at hdoc
  exact readAll_of_read hdoc (hvalue _ hd)

/-- A value without doubles is the value of its text. -/
theorem parse_encode {v : Value} (hw : v.WellFormed) (hf : v.FloatFree)
    (hd : v.depth ≤ Document.maxDepth) : parse v.encode = .ok v := by
  rw [parse_encode_reread hw hf.finiteDoubles hd, Value.reread_of_floatFree v hf]

end Json

end WebToken
