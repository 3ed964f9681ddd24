import WebToken.Proofs.CanonicalText

/-!
# Why a text is no segment

A segment is read strictly: exactly the encoding of some bytes is accepted, and every other text is
malformed. The fault that is told is one that the text has (`Base64Url.Fault.Holds`), and a text
without such a fault is accepted, so the four kinds of faults are all there are.

* `Base64Url.diagnose_holds` : the fault that is told for a refused text is one that it has;
* `Base64Url.decode?_eq_none_iff` : the texts that are refused are those with a fault;
* `Base64Url.Loose.not_isCanonical` : what a lenient reader would pass over is not canonical;
* `Segment.decodes_exactly` : which texts are segments, and how the others are refused.
-/

namespace WebToken

namespace Base64Url

/-! ## Faults -/

/-- Whether a text has a fault: what the wording of the fault says is true of the text. -/
def Fault.Holds (text : Bytes) : Fault → Prop
  | .symbol b offset => text[offset]? = some b ∧ digit? b = none
  | .length count => text.length = count ∧ count % 4 = 1
  | .padding => ∃ front k, text = front ++ List.replicate (k + 1) pad ∧
      (∀ b ∈ front, (digit? b).isSome) ∧ 2 ≤ front.length % 4 ∧ front.length % 4 + k < 4
  | .lastSymbol b offset => text.length = offset + 1 ∧ text[offset]? = some b ∧
      ∃ n, digit? b = some n ∧
        (text.length % 4 = 2 ∧ n % 16 ≠ 0 ∨ text.length % 4 = 3 ∧ n % 4 ≠ 0)

theorem digit?_pad : digit? pad = none := rfl

/-- Symbols are the bytes that stand for a number. -/
theorem exists_map_symbol {text : Bytes} (h : ∀ b ∈ text, (digit? b).isSome) :
    ∃ ns : List Nat, (∀ n ∈ ns, n < 64) ∧ text = ns.map symbol := by
  induction text with
  | nil => exact ⟨[], List.forall_mem_nil _, rfl⟩
  | cons b text ih =>
    obtain ⟨hb, htext⟩ := List.forall_mem_cons.1 h
    obtain ⟨n, hn⟩ := Option.isSome_iff_exists.1 hb
    obtain ⟨hlt, rfl⟩ := digit?_eq_some hn
    obtain ⟨ns, hns, rfl⟩ := ih htext
    exact ⟨n :: ns, List.forall_mem_cons.2 ⟨hlt, hns⟩, rfl⟩

/-- What is read are groups of six bits. -/
theorem exists_spells_of_decode? {text bytes : Bytes} (h : decode? text = some bytes) :
    ∃ ns, Spells ns ∧ text = ns.map symbol := by
  obtain ⟨ns, hns, hsymbols⟩ := exists_spells_symbols bytes
  exact ⟨ns, hns, (eq_symbols_of_decode? h).trans hsymbols⟩

/-- A byte of what is read is a symbol. -/
theorem digit?_of_spells {ns : List Nat} (h : Spells ns) {b : UInt8} (hb : b ∈ ns.map symbol) :
    digit? b ≠ none := by
  obtain ⟨n, hn, rfl⟩ := List.mem_map.1 hb
  rw [digit?_symbol (h.lt n hn)]
  exact Option.some_ne_none n

/-- A text with a fault is refused. -/
theorem decode?_eq_none_of_holds {text : Bytes} {fault : Fault} (h : fault.Holds text) :
    decode? text = none := by
  by_contra hsome
  obtain ⟨bytes, hbytes⟩ := Option.ne_none_iff_exists'.1 hsome
  obtain ⟨ns, hns, rfl⟩ := exists_spells_of_decode? hbytes
  cases fault with
  | symbol b offset =>
    obtain ⟨hb, hnone⟩ := h
    exact digit?_of_spells hns (List.mem_of_getElem? hb) hnone
  | length count =>
    obtain ⟨hcount, hmod⟩ := h
    rw [List.length_map] at hcount
    exact hns.length (hcount ▸ hmod)
  | padding =>
    obtain ⟨front, k, htext, -⟩ := h
    have hpad : pad ∈ ns.map symbol := by
      rw [htext]
      exact List.mem_append_right _ (List.mem_replicate.2 ⟨Nat.succ_ne_zero k, rfl⟩)
    exact digit?_of_spells hns hpad digit?_pad
  | lastSymbol b offset =>
    obtain ⟨hlength, hb, n, hn, hbits⟩ := h
    rw [List.getElem?_map, Option.map_eq_some_iff] at hb
    obtain ⟨m, hm, rfl⟩ := hb
    rw [List.length_map] at hlength hbits
    have hlast : m ∈ ns.getLast? := by
      rw [List.getLast?_eq_getElem?, hlength, Nat.add_sub_cancel]
      exact hm
    have hmn : n = m := by
      rw [digit?_symbol (hns.lt m (List.mem_of_getElem? hm))] at hn
      exact (Option.some.inj hn).symm
    subst hmn
    obtain ⟨htwo, hthree⟩ := hns.unused n hlast
    rcases hbits with ⟨hmod, hne⟩ | ⟨hmod, hne⟩
    · exact hne (htwo hmod)
    · exact hne (hthree hmod)

/-- Symbols that are refused although none of them stands alone end in bits that are not zero. -/
theorem holds_lastSymbol {text : Bytes} {b : UInt8} (h : decode? text = none)
    (hsymbols : ∀ b ∈ text, (digit? b).isSome) (hlength : text.length % 4 ≠ 1)
    (hb : text[text.length - 1]? = some b) :
    (Fault.lastSymbol b (text.length - 1)).Holds text := by
  have hpos : text.length - 1 < text.length := (List.getElem?_eq_some_iff.1 hb).1
  obtain ⟨n, hn⟩ := Option.isSome_iff_exists.1 (hsymbols b (List.mem_of_getElem? hb))
  refine ⟨by omega, hb, n, hn, ?_⟩
  by_contra hbits
  -- otherwise the numbers of the symbols are groups of six bits, and these are read
  obtain ⟨ns, hns, rfl⟩ := exists_map_symbol hsymbols
  have hspells : Spells ns := by
    refine ⟨hns, by rwa [List.length_map] at hlength, fun m hm => ?_⟩
    rw [List.length_map, List.getElem?_map, ← List.getLast?_eq_getElem?, Option.mem_def.1 hm,
      Option.map_some] at hb
    rw [← Option.some.inj hb, digit?_symbol (hns m (List.mem_of_getLast? hm))] at hn
    cases hn
    rw [List.length_map] at hbits
    exact ⟨fun hmod => by_contra fun hne => hbits (.inl ⟨hmod, hne⟩),
      fun hmod => by_contra fun hne => hbits (.inr ⟨hmod, hne⟩)⟩
  obtain ⟨bytes, hbytes⟩ := exists_decode?_of_spells hspells
  rw [h] at hbytes
  cases hbytes

/-! ## The groups in front -/

/-- A fault in the groups in front is a byte that is no symbol. -/
theorem exists_of_firstBad {offset : Nat} {text : Bytes} {fault : Fault}
    (h : firstBad offset text = some fault) :
    ∃ i b, fault = .symbol b (offset + i) ∧ text[i]? = some b ∧ digit? b = none := by
  induction text generalizing offset with
  | nil => cases h
  | cons b text ih =>
    unfold firstBad at h
    split at h
    · next hb =>
      cases h
      exact ⟨0, b, rfl, rfl, Option.isNone_iff_eq_none.1 hb⟩
    · obtain ⟨i, c, hfault, hc, hnone⟩ := ih h
      refine ⟨i + 1, c, ?_, hc, hnone⟩
      rw [hfault, Nat.add_assoc, Nat.add_comm 1 i]

/-- Without a fault the groups in front are symbols. -/
theorem symbols_of_firstBad_eq_none {offset : Nat} {text : Bytes}
    (h : firstBad offset text = none) : ∀ b ∈ text, (digit? b).isSome := by
  induction text generalizing offset with
  | nil => exact List.forall_mem_nil _
  | cons b text ih =>
    unfold firstBad at h
    split at h
    · cases h
    · next hb =>
      exact List.forall_mem_cons.2
        ⟨Option.isSome_iff_ne_none.2 fun hnone => hb (Option.isNone_iff_eq_none.2 hnone), ih h⟩

/-! ## The last group -/

/-- A fault in the last group is a byte that is no symbol, or the first padding sign. -/
theorem holds_of_tailFault {text front rest : Bytes} {start index : Nat} {padded : Option Nat}
    {fault : Fault} (htext : text = front ++ rest) (hfront : front.length = start + index)
    (hpadded : ∀ first ∈ padded, text[start + first]? = some pad)
    (h : tailFault start index padded rest = some fault) : fault.Holds text := by
  induction rest generalizing front index padded with
  | nil => cases h
  | cons b rest ih =>
    have hb : text[start + index]? = some b := by
      rw [htext, ← hfront, List.getElem?_append_right (Nat.le_refl _), Nat.sub_self]
      rfl
    have hnext : text = (front ++ [b]) ++ rest := by
      rw [htext, List.append_assoc, List.singleton_append]
    have hlength : (front ++ [b]).length = start + (index + 1) := by
      rw [List.length_append, hfront, List.length_singleton, Nat.add_assoc]
    unfold tailFault at h
    split at h
    · next hpad =>
      subst hpad
      split at h
      · cases h
        exact ⟨hb, digit?_pad⟩
      · refine ih hnext hlength (fun first hfirst => ?_) h
        cases padded with
        | none =>
          cases hfirst
          exact hb
        | some first' =>
          cases hfirst
          exact hpadded first rfl
    · split at h
      · next first =>
        cases h
        exact ⟨hpadded first rfl, digit?_pad⟩
      · split at h
        · next hnone =>
          cases h
          exact ⟨hb, Option.isNone_iff_eq_none.1 hnone⟩
        · exact ih hnext hlength (fun _ hfirst => absurd hfirst (Option.not_mem_none _)) h

/-- Behind a padding sign there are only padding signs. -/
theorem eq_pad_of_tailFault_eq_none {start index first : Nat} {rest : Bytes}
    (h : tailFault start index (some first) rest = none) : ∀ b ∈ rest, b = pad := by
  induction rest generalizing index with
  | nil => exact List.forall_mem_nil _
  | cons b rest ih =>
    unfold tailFault at h
    split at h
    · next hpad =>
      split at h
      · cases h
      · exact List.forall_mem_cons.2 ⟨hpad, ih h⟩
    · cases h

/-- A last group without a fault is made of symbols and of padding signs behind two of them. -/
theorem exists_of_tailFault_eq_none {start index : Nat} {rest : Bytes}
    (h : tailFault start index none rest = none) :
    ∃ front k, rest = front ++ List.replicate k pad ∧ (∀ b ∈ front, (digit? b).isSome) ∧
      (k ≠ 0 → 2 ≤ index + front.length) := by
  induction rest generalizing index with
  | nil => exact ⟨[], 0, rfl, List.forall_mem_nil _, fun hk => absurd rfl hk⟩
  | cons b rest ih =>
    unfold tailFault at h
    split at h
    · next hpad =>
      split at h
      · cases h
      · next hindex =>
        have hrest := List.eq_replicate_of_mem (eq_pad_of_tailFault_eq_none h)
        refine ⟨[], rest.length + 1, ?_, List.forall_mem_nil _, fun _ => Nat.le_of_not_lt hindex⟩
        rw [hpad, List.nil_append, List.replicate_succ, ← hrest]
    · simp only at h
      split at h
      · cases h
      · next hb =>
        obtain ⟨front, k, hrest, hfront, hindex⟩ := ih h
        refine ⟨b :: front, k, ?_, List.forall_mem_cons.2 ⟨?_, hfront⟩, fun hk => ?_⟩
        · rw [hrest, List.cons_append]
        · exact Option.isSome_iff_ne_none.2 fun hnone => hb (Option.isNone_iff_eq_none.2 hnone)
        · have hle := hindex hk
          rw [List.length_cons]
          omega

/-- Taking the padding signs away leaves the symbols. -/
theorem filter_ne_pad {front : Bytes} (h : ∀ b ∈ front, (digit? b).isSome) (k : Nat) :
    (front ++ List.replicate k pad).filter (· ≠ pad) = front := by
  have hfront : front.filter (· ≠ pad) = front := by
    refine List.filter_eq_self.2 fun b hb => decide_eq_true fun hpad => ?_
    have hsome := h b hb
    rw [hpad, digit?_pad] at hsome
    cases hsome
  rw [List.filter_append, hfront, List.filter_replicate_of_neg (by simp), List.append_nil]

/-! ## The diagnosis -/

/-- Which fault is told for a last group that is made of symbols and of padding signs behind them,
where only symbols stand in front: a symbol alone, padding, or else bits that are not zero. -/
theorem holds_of_lastGroup {text front tail symbols : Bytes} {start k : Nat} {last : UInt8}
    (h : decode? text = none) (htext : text = front ++ tail)
    (hparts : tail = symbols ++ List.replicate k pad) (hstart : front.length = start)
    (hgroups : start % 4 = 0) (hpos : 0 < tail.length) (hle : tail.length ≤ 4)
    (hfront : ∀ b ∈ front, (digit? b).isSome) (hsymbols : ∀ b ∈ symbols, (digit? b).isSome)
    (hpadded : k ≠ 0 → 2 ≤ symbols.length) (hlast : text[text.length - 1]? = some last) :
    (if symbols.length < 2 then Fault.length (start + symbols.length)
      else if pad ∈ tail then .padding
      else .lastSymbol last (start + symbols.length - 1)).Holds text := by
  have hall : ∀ b ∈ front ++ symbols, (digit? b).isSome :=
    List.forall_mem_append.2 ⟨hfront, hsymbols⟩
  have hlength : text.length = start + tail.length := by
    rw [htext, List.length_append, hstart]
  have htail : tail.length = symbols.length + k := by
    rw [hparts, List.length_append, List.length_replicate]
  split
  · next hfew =>
    have hk : k = 0 := by
      by_contra hk
      exact absurd (hpadded hk) (Nat.not_le.2 hfew)
    exact ⟨by omega, by omega⟩
  split
  · next hpad =>
    obtain ⟨m, rfl⟩ : ∃ m, k = m + 1 := by
      refine Nat.exists_eq_succ_of_ne_zero fun hk => ?_
      rw [hparts, hk, List.replicate_zero, List.append_nil] at hpad
      exact absurd (hsymbols pad hpad) (by decide)
    refine ⟨front ++ symbols, m, ?_, hall, ?_, ?_⟩
    · rw [List.append_assoc, ← hparts, ← htext]
    · rw [List.length_append, hstart]
      omega
    · rw [List.length_append, hstart]
      omega
  · next hpad =>
    have hk : k = 0 := by
      by_contra hk
      exact hpad (hparts ▸ List.mem_append_right _ (List.mem_replicate.2 ⟨hk, rfl⟩))
    rw [hk, List.replicate_zero, List.append_nil] at hparts
    rw [← hparts, ← htext] at hall
    rw [show start + symbols.length - 1 = text.length - 1 by omega]
    exact holds_lastSymbol h hall (by omega) hlast

/-- The fault that is told for a refused text is one that it has. -/
theorem diagnose_holds {text : Bytes} (h : decode? text = none) : (diagnose text).Holds text := by
  have hne : text ≠ [] := by
    rintro rfl
    cases h
  have hpos : 0 < text.length := List.length_pos_of_ne_nil hne
  unfold diagnose
  extract_lets excess start tail count last
  -- the text is cut into whole groups and a last group of one to four bytes
  obtain ⟨hgroups, hlt, hle⟩ : start % 4 = 0 ∧ start < text.length ∧ text.length ≤ start + 4 := by
    simp only [start, excess]
    split <;> omega
  have htext : text = text.take start ++ tail := (List.take_append_drop start text).symm
  have hfront : (text.take start).length = start := List.length_take_of_le (Nat.le_of_lt hlt)
  have htail : start + tail.length = text.length := by
    simp only [tail, List.length_drop]
    omega
  have hlast : text[text.length - 1]? = some last := by
    simp only [last, tail]
    rw [← List.getLast?_eq_getElem?, List.getLastD_eq_getLast?, List.getLast?_drop,
      if_neg (Nat.not_le.2 hlt), List.getLast?_eq_some_getLast hne, Option.getD_some]
  split
  · next hlone => exact ⟨hlast, Option.isNone_iff_eq_none.1 hlone.2.2⟩
  split
  · next fault hfault =>
    obtain ⟨i, b, rfl, hb, hnone⟩ := exists_of_firstBad hfault
    have hi : i < (text.take start).length := (List.getElem?_eq_some_iff.1 hb).1
    rw [Nat.zero_add]
    refine ⟨?_, hnone⟩
    rw [htext, List.getElem?_append_left hi]
    exact hb
  next hbad =>
  split
  · next fault hfault =>
    exact holds_of_tailFault htext hfront (fun _ hfirst => absurd hfirst (Option.not_mem_none _))
      hfault
  next hgroup =>
  obtain ⟨symbols, k, hparts, hsymbols, hpadded⟩ := exists_of_tailFault_eq_none hgroup
  have hcount : count = symbols.length := by
    simp only [count]
    rw [hparts, filter_ne_pad hsymbols]
  rw [Nat.zero_add] at hpadded
  rw [hcount]
  exact holds_of_lastGroup h htext hparts hfront hgroups (by omega) (by omega)
    (symbols_of_firstBad_eq_none hbad) hsymbols hpadded hlast

/-- The texts that are refused are those with a fault. -/
theorem decode?_eq_none_iff {text : Bytes} :
    decode? text = none ↔ ∃ fault : Fault, fault.Holds text := by
  constructor
  · intro h
    exact ⟨diagnose text, diagnose_holds h⟩
  · rintro ⟨fault, h⟩
    exact decode?_eq_none_of_holds h

theorem holds_of_decode {text : String} {fault : Fault} (h : decode text = .error fault) :
    fault.Holds (Bytes.ofString text) := by
  unfold decode at h
  split at h
  · cases h
  · next hnone =>
    cases h
    exact diagnose_holds hnone

/-! ## Texts that are nearly canonical -/

/-- What a reader that is less strict would pass over. -/
inductive Loose (text : String) : Prop where
  /-- A padding sign, a symbol of the other alphabet, a blank, or no ASCII character at all. -/
  | character (c : Char) (hc : c ∈ text.toList)
      (h : c = '=' ∨ c = '+' ∨ c = '/' ∨ Text.isBlank c = true ∨ 128 ≤ c.toNat)
  /-- A symbol alone behind the groups of four. -/
  | length (h : text.toList.length % 4 = 1)
  /-- Bits that no byte takes, in the last of two or three symbols. -/
  | unused (c : Char) (hc : c ∈ text.toList.getLast?)
      (h : text.toList.length % 4 = 2 ∧ alphabet.idxOf c % 16 ≠ 0 ∨
        text.toList.length % 4 = 3 ∧ alphabet.idxOf c % 4 ≠ 0)

/-- The symbols are ASCII characters, and none of them is blank. -/
theorem plain_of_mem_alphabet {c : Char} (h : c ∈ alphabet) :
    c ≠ '=' ∧ c ≠ '+' ∧ c ≠ '/' ∧ Text.isBlank c = false ∧ c.toNat < 128 := by
  obtain ⟨n, hn, rfl⟩ := exists_symbolChar h
  have table : ∀ n < 64, symbolChar n ≠ '=' ∧ symbolChar n ≠ '+' ∧ symbolChar n ≠ '/' ∧
      Text.isBlank (symbolChar n) = false ∧ (symbolChar n).toNat < 128 := by decide +kernel
  exact table n hn

theorem Loose.not_isCanonical {text : String} (h : Loose text) : ¬IsCanonical text := by
  rintro ⟨hsymbols, hlength, hunused⟩
  cases h with
  | character c hc h =>
    obtain ⟨hpad, hplus, hslash, hblank, hascii⟩ := plain_of_mem_alphabet (hsymbols c hc)
    rcases h with h | h | h | h | h
    · exact hpad h
    · exact hplus h
    · exact hslash h
    · exact Bool.false_ne_true (hblank.symm.trans h)
    · exact absurd hascii (Nat.not_lt.2 h)
  | length h => exact hlength h
  | unused c hc h =>
    obtain ⟨htwo, hthree⟩ := hunused c hc
    rcases h with ⟨hmod, hne⟩ | ⟨hmod, hne⟩
    · exact hne (htwo hmod)
    · exact hne (hthree hmod)

end Base64Url

/-! ## Segments -/

namespace Segment

open Base64Url

/-- What is no encoding is malformed, with a fault that it has. -/
theorem exists_fault_of_forall_ne {text : String} (h : ∀ bytes, text ≠ encode bytes) :
    ∃ fault : Fault, fault.Holds (Bytes.ofString text) ∧
      decode text = .error (.malformedToken (.base64 fault)) := by
  cases hread : Base64Url.decode text with
  | ok bytes => exact absurd (Base64Url.decode_eq_ok_iff.1 hread) (h bytes)
  | error fault =>
    refine ⟨fault, holds_of_decode hread, ?_⟩
    rw [Segment.decode, hread]
    rfl

/-- A segment is read as some bytes exactly if it is their encoding: so bytes have one text, and a
text has one reading. The encoding is the text whose symbols spell the number of the bytes. Exactly
the canonical texts are read, and every other text is malformed, with a fault that it has. In
particular padding, symbols of the other alphabet, blanks, characters outside of ASCII, a symbol
alone and bits that are not zero are never passed over. -/
theorem decodes_exactly (text : String) :
    (∀ bytes, decode text = .ok bytes ↔ text = encode bytes) ∧
    (∀ bytes, text = encode bytes ↔ IsEncodingOf bytes text) ∧
    ((∃ bytes, decode text = .ok bytes) ↔ IsCanonical text) ∧
    ((∀ bytes, text ≠ encode bytes) → ∃ fault : Fault, fault.Holds (Bytes.ofString text) ∧
      decode text = .error (.malformedToken (.base64 fault))) ∧
    (Loose text → ∀ bytes, text ≠ encode bytes) := by
  have hread : ∀ bytes, decode text = .ok bytes ↔ text = encode bytes :=
    fun _ => Segment.decode_eq_ok_iff
  refine ⟨hread, fun _ => isEncodingOf_iff.symm, ?_, exists_fault_of_forall_ne,
    fun hloose bytes htext => ?_⟩
  · rw [isCanonical_iff]
    exact exists_congr hread
  · exact hloose.not_isCanonical (isCanonical_iff.2 ⟨bytes, htext⟩)

/-- One letter is two symbols. With padding, with a blank, with other unused bits, or cut to one
symbol, the text is refused. -/
theorem decodes_exactly_letter :
    decode "Zg" = .ok [102] ∧
    ∀ text ∈ ["Zg==", "Zg ", "Zh", "Z", "+/8", "Zm9é"], ∃ fault : Fault,
      fault.Holds (Bytes.ofString text) ∧
      decode text = .error (.malformedToken (.base64 fault)) := by
  refine ⟨((decodes_exactly "Zg").1 [102]).2 (by decide), ?_⟩
  have hrefused : ∀ text, Loose text → ∃ fault : Fault, fault.Holds (Bytes.ofString text) ∧
      decode text = .error (.malformedToken (.base64 fault)) := by
    intro text hloose
    obtain ⟨-, -, -, hmalformed, hne⟩ := decodes_exactly text
    exact hmalformed (hne hloose)
  simp only [List.forall_mem_cons]
  refine ⟨?_, ?_, ?_, ?_, ?_, ?_, List.forall_mem_nil _⟩
  · exact hrefused _ (.character '=' (by decide) (by decide))
  · exact hrefused _ (.character ' ' (by decide) (by decide))
  · exact hrefused _ (.unused 'h' (by decide) (by decide))
  · exact hrefused _ (.length (by decide))
  · exact hrefused _ (.character '/' (by decide) (by decide))
  · exact hrefused _ (.character 'é' (by decide) (by decide))

end Segment

end WebToken
