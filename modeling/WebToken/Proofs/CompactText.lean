import WebToken.Proofs.TokenParts

/-!
# Texts put together and taken apart

Segments are written in an alphabet without points and blanks, so a compact text is cut where its
segments were joined, and nothing is trimmed from it.

* `segments_compactText` : the segments of a compact text are those it was joined from;
* `intercalate_segments` : every text is joined from its segments;
* `segments_replaced` : another last segment changes nothing before it;
* `Text.trim_eq_self` : nothing is trimmed from a text with no blank at its ends;
* `Token.ofCompact_failsOnly` : a compact text that is no token is malformed.
-/

namespace WebToken

/-! ## Trimming -/

namespace Text

theorem dropWhile_eq_self {cs : List Char} (h : ∀ c ∈ cs.head?, isBlank c = false) :
    cs.dropWhile isBlank = cs := by
  cases cs with
  | nil => rfl
  | cons c cs =>
    have hc : ¬isBlank c = true := by
      rw [h c rfl]
      decide
    rw [List.dropWhile_cons_of_neg hc]

/-- Nothing is trimmed from a text with no blank at its ends. -/
theorem trim_eq_self {text : String} (hfirst : ∀ c ∈ text.toList.head?, isBlank c = false)
    (hlast : ∀ c ∈ text.toList.getLast?, isBlank c = false) : trim text = text := by
  have hreverse : ∀ c ∈ text.toList.reverse.head?, isBlank c = false := by
    rw [List.head?_reverse]
    exact hlast
  rw [trim, trimChars, dropWhile_eq_self hfirst, dropWhile_eq_self hreverse, List.reverse_reverse,
    String.ofList_toList]

/-- Nothing is trimmed from a text without blanks. -/
theorem trim_of_forall {text : String} (h : ∀ c ∈ text.toList, isBlank c = false) :
    trim text = text :=
  trim_eq_self (fun c hc => h c (List.mem_of_mem_head? hc))
    fun c hc => h c (List.mem_of_mem_getLast? hc)

end Text

/-! ## The characters of segments -/

namespace Base64Url

/-- What a symbol is not. -/
theorem symbol_char (n : Nat) :
    Text.isBlank (Char.ofNat (symbol n).toNat) = false ∧
      Char.ofNat (symbol n).toNat ≠ '.' ∧ Char.ofNat (symbol n).toNat ≠ '\x7b' := by
  have table : ∀ n, n < 64 → Text.isBlank (Char.ofNat (symbol n).toNat) = false ∧
      Char.ofNat (symbol n).toNat ≠ '.' ∧ Char.ofNat (symbol n).toNat ≠ '\x7b' := by decide
  by_cases h : n < 64
  · exact table n h
  · -- beyond the alphabet stands the last symbol
    have hlast : symbol n = symbol 63 := by
      unfold symbol
      rw [if_neg (by omega), if_neg (by omega), if_neg (by omega), if_neg (by omega)]
      rfl
    rw [hlast]
    exact table 63 (by decide)

/-- A segment holds no blank, no point and no brace. -/
theorem char_of_mem_encode {bytes : Bytes} {c : Char} (h : c ∈ (encode bytes).toList) :
    Text.isBlank c = false ∧ c ≠ '.' ∧ c ≠ '\x7b' := by
  rw [encode, String.toList_ofList] at h
  obtain ⟨b, hb, rfl⟩ := List.mem_map.1 h
  obtain ⟨n, rfl⟩ := exists_symbol_of_mem_symbols hb
  exact symbol_char n

end Base64Url

/-! ## Cutting at points -/

/-- Cutting a list is the library's function of the same name. -/
theorem splitOn_eq {α : Type} [DecidableEq α] (separator : α) (as : List α) :
    splitOn separator as = as.splitOn separator := by
  rw [List.splitOn_eq_splitOnP]
  induction as with
  | nil => simp [splitOn]
  | cons a as ih =>
    rw [splitOn, ih, List.splitOnP_cons_eq_if_modifyHead]
    by_cases h : a = separator
    · rw [if_pos h, if_pos (beq_iff_eq.2 h)]
    · rw [if_neg h, if_neg (by simpa using h)]
      cases hpieces : as.splitOnP (· == separator) with
      | nil => exact absurd hpieces (List.splitOnP_ne_nil _ _)
      | cons piece pieces => rfl

/-- There is one piece more than separators. -/
theorem length_splitOn {α : Type} [DecidableEq α] (separator : α) (as : List α) :
    (splitOn separator as).length = as.count separator + 1 := by
  induction as with
  | nil => rfl
  | cons a as ih =>
    rw [splitOn]
    by_cases h : a = separator
    · rw [if_pos h, List.length_cons, ih, h, List.count_cons_self]
    · rw [if_neg h, List.count_cons_of_ne h]
      cases hpieces : splitOn separator as with
      | nil =>
        rw [hpieces] at ih
        cases ih
      | cons piece pieces =>
        rw [hpieces] at ih
        exact ih

/-- There is one segment more than points. -/
theorem length_segments (text : String) :
    (segments text).length = text.toList.count '.' + 1 := by
  rw [segments, List.length_map, length_splitOn]

/-- The segments of a text are joined to the text again. -/
theorem intercalate_segments (text : String) : ".".intercalate (segments text) = text := by
  have hchars : (segments text).map String.toList = splitOn '.' text.toList := by
    rw [segments, List.map_map]
    exact (List.map_congr_left fun cs _ => String.toList_ofList).trans (List.map_id _)
  rw [← String.toList_inj, String.toList_intercalate, hchars, splitOn_eq]
  exact List.intercalate_splitOn '.'

/-- The segments of two texts with a point between them are those of the one and of the other. -/
theorem segments_append (front last : String) :
    segments (front ++ "." ++ last) = segments front ++ segments last := by
  have hchars : (front ++ "." ++ last).toList = front.toList ++ '.' :: last.toList := by
    rw [String.toList_append, String.toList_append, List.append_assoc]
    rfl
  rw [segments, hchars, splitOn_eq, List.splitOn_append_cons_self, List.map_append, ← splitOn_eq,
    ← splitOn_eq]
  rfl

theorem length_segments_pos (text : String) : 0 < (segments text).length := by
  rw [segments, splitOn_eq, List.length_map, List.length_pos_iff]
  exact List.splitOn_ne_nil _ _

/-- A text with one segment is that segment. -/
theorem eq_of_segments_eq_singleton {text s : String} (h : segments text = [s]) : s = text := by
  have hjoin := intercalate_segments text
  rwa [h, String.intercalate_singleton] at hjoin

/-- The segments of joined texts are those of one text after the other. -/
theorem segments_join {parts : List String} (hne : parts ≠ []) :
    segments (".".intercalate parts) = parts.flatMap segments := by
  induction parts with
  | nil => exact absurd rfl hne
  | cons part parts ih =>
    cases parts with
    | nil => rw [String.intercalate_singleton, List.flatMap_singleton]
    | cons next parts =>
      rw [String.intercalate_cons_cons, segments_append, ih (List.cons_ne_nil _ _)]
      rfl

theorem length_le_length_segments (parts : List String) :
    parts.length ≤ (parts.flatMap segments).length := by
  induction parts with
  | nil => exact Nat.le_refl _
  | cons part parts ih =>
    have hpos := length_segments_pos part
    rw [List.flatMap_cons, List.length_append, List.length_cons]
    omega

/-- Texts that are cut into no more pieces than there are texts are not cut. -/
theorem flatMap_segments_of_length {parts : List String}
    (h : (parts.flatMap segments).length = parts.length) : parts.flatMap segments = parts := by
  induction parts with
  | nil => rfl
  | cons part parts ih =>
    have hpos := length_segments_pos part
    have hle := length_le_length_segments parts
    rw [List.flatMap_cons, List.length_append, List.length_cons] at h
    obtain ⟨s, hs⟩ := List.length_eq_one_iff.1 (show (segments part).length = 1 by omega)
    have hpart : s = part := eq_of_segments_eq_singleton hs
    rw [List.flatMap_cons, hs, ih (by omega), hpart]
    rfl

/-- A text that is cut into as many pieces as it was joined from is cut into these. -/
theorem segments_of_length {parts : List String} (hne : parts ≠ [])
    (h : (segments (".".intercalate parts)).length = parts.length) :
    segments (".".intercalate parts) = parts := by
  rw [segments_join hne] at h ⊢
  exact flatMap_segments_of_length h

/-- If a text is cut into the pieces that it was joined from, another last piece changes nothing
before it. -/
theorem segments_replaced (front : List String) {last : String}
    (h : segments (".".intercalate (front ++ [last])) = front ++ [last]) (last' : String) :
    segments (".".intercalate (front ++ [last'])) = front ++ segments last' := by
  have hpieces : ∀ s, segments (".".intercalate (front ++ [s])) =
      front.flatMap segments ++ segments s := by
    intro s
    have hne : front ++ [s] ≠ [] := by simp
    rw [segments_join hne, List.flatMap_append, List.flatMap_singleton]
  have hlength := congrArg List.length h
  rw [hpieces, List.length_append, List.length_append, List.length_singleton] at hlength
  have hpos := length_segments_pos last
  have hle := length_le_length_segments front
  rw [hpieces, flatMap_segments_of_length (by omega)]

/-- What stands in joined pieces is a separator, or stands in one of them. -/
theorem eq_or_exists_of_mem_intercalate {α : Type} {separator a : α} {pieces : List (List α)}
    (h : a ∈ [separator].intercalate pieces) : a = separator ∨ ∃ p ∈ pieces, a ∈ p := by
  induction pieces with
  | nil => cases h
  | cons piece pieces ih =>
    cases pieces with
    | nil =>
      rw [List.intercalate_singleton] at h
      exact .inr ⟨piece, List.mem_singleton_self _, h⟩
    | cons next pieces =>
      rw [List.intercalate_cons_cons, List.mem_append, List.mem_append, List.mem_singleton] at h
      rcases h with (h | h) | h
      · exact .inr ⟨piece, List.mem_cons_self .., h⟩
      · exact .inl h
      · rcases ih h with h | ⟨p, hp, h⟩
        · exact .inl h
        · exact .inr ⟨p, List.mem_cons_of_mem _ hp, h⟩

/-- The compact text whose segments spell the given bytes. -/
def compactText (parts : List Bytes) : String := ".".intercalate (parts.map Base64Url.encode)

theorem toList_compactText (parts : List Bytes) :
    (compactText parts).toList =
      ['.'].intercalate (parts.map fun bytes => (Base64Url.encode bytes).toList) := by
  rw [compactText, String.toList_intercalate, List.map_map]
  rfl

/-- The segments of a compact text are those it was joined from. -/
theorem segments_compactText {parts : List Bytes} (hne : parts ≠ []) :
    segments (compactText parts) = parts.map Base64Url.encode := by
  have hpoint : ∀ p ∈ parts.map fun bytes => (Base64Url.encode bytes).toList, '.' ∉ p := by
    intro p hp hmem
    obtain ⟨bytes, -, rfl⟩ := List.mem_map.1 hp
    exact (Base64Url.char_of_mem_encode hmem).2.1 rfl
  have hparts : (parts.map fun bytes => (Base64Url.encode bytes).toList) ≠ [] := by
    rw [Ne, List.map_eq_nil_iff]
    exact hne
  rw [segments, toList_compactText, splitOn_eq, List.splitOn_intercalate '.' hpoint hparts,
    List.map_map]
  -- each piece of characters is turned back into its text
  exact List.map_congr_left fun bytes _ => String.ofList_toList

/-- A compact text is made of symbols and points. -/
theorem char_of_mem_compactText {parts : List Bytes} {c : Char}
    (h : c ∈ (compactText parts).toList) : Text.isBlank c = false ∧ c ≠ '\x7b' := by
  rw [toList_compactText] at h
  rcases eq_or_exists_of_mem_intercalate h with rfl | ⟨p, hp, h⟩
  · decide
  · obtain ⟨bytes, -, rfl⟩ := List.mem_map.1 hp
    have hc := Base64Url.char_of_mem_encode h
    exact ⟨hc.1, hc.2.2⟩

/-! ## Texts that stand in the compact form -/

/-- Whether a text stands in the compact form: there is no blank at its ends and no brace at its
front. -/
structure InCompactForm (text : String) : Prop where
  trimmed : Text.trim text = text
  unbraced : text.toList.head? ≠ some '\x7b'

namespace InCompactForm

variable {text : String}

theorem ofText_eq (h : InCompactForm text) : Token.ofText text = Token.ofCompact text := by
  rw [Token.ofText_eq, h.trimmed, if_neg h.unbraced]

theorem isBlank_head (h : InCompactForm text) :
    ∀ c ∈ text.toList.head?, Text.isBlank c = false := by
  intro c hc
  obtain ⟨rest, hrest⟩ := List.head?_eq_some_iff.1 hc
  have htrim : Text.trimChars text.toList = c :: rest := by
    have htrimmed := congrArg String.toList h.trimmed
    rw [Text.trim, String.toList_ofList] at htrimmed
    exact htrimmed.trans hrest
  exact Text.isBlank_head_trimChars htrim

/-- A text stays in the compact form if its last piece is replaced by one that does not end in a
blank. -/
theorem replace (front : List String) {last last' : String}
    (h : InCompactForm (".".intercalate (front ++ [last]))) (hne : front ≠ [])
    (hlast : ∀ c ∈ last'.toList.getLast?, Text.isBlank c = false) :
    InCompactForm (".".intercalate (front ++ [last'])) := by
  have hchars : ∀ s, (".".intercalate (front ++ [s])).toList =
      (".".intercalate front).toList ++ '.' :: s.toList := by
    intro s
    rw [String.intercalate_append_of_ne_nil hne (List.cons_ne_nil _ _),
      String.intercalate_singleton, String.toList_append, String.toList_append, List.append_assoc]
    rfl
  -- the first character stands before the last piece
  have hhead : (".".intercalate (front ++ [last'])).toList.head? =
      (".".intercalate (front ++ [last])).toList.head? := by
    rw [hchars, hchars, List.head?_append, List.head?_append]
    rfl
  refine ⟨Text.trim_eq_self ?_ ?_, ?_⟩
  · rw [hhead]
    exact h.isBlank_head
  · rw [hchars, List.getLast?_append, List.getLast?_cons]
    intro c hc
    cases hs : last'.toList.getLast? with
    | none =>
      -- nothing stands behind the last point
      rw [hs] at hc
      cases hc
      decide
    | some d =>
      rw [hs] at hc
      cases hc
      exact hlast d hs
  · rw [hhead]
    exact h.unbraced

end InCompactForm

theorem inCompactForm_compactText (parts : List Bytes) : InCompactForm (compactText parts) where
  trimmed := Text.trim_of_forall fun _ hc => (char_of_mem_compactText hc).1
  unbraced := fun hhead => (char_of_mem_compactText (List.mem_of_mem_head? hhead)).2 rfl

/-- A compact text is read as it stands, and in the compact form. -/
theorem Token.ofText_compactText (parts : List Bytes) :
    Token.ofText (compactText parts) = Token.ofCompact (compactText parts) :=
  (inCompactForm_compactText parts).ofText_eq

/-! ## Texts that are no tokens -/

/-- Whether an error says that a token is malformed. -/
def Error.IsMalformedToken (e : Error) : Prop := ∃ fault, e = .malformedToken fault

theorem Segment.decode_failsOnly (segment : String) :
    FailsOnly Error.IsMalformedToken (Segment.decode segment) :=
  .mapError (fun _ => ⟨_, rfl⟩) _

theorem Header.decode_failsOnly (segment : String) :
    FailsOnly Error.IsMalformedToken (Header.decode segment) := by
  refine .bind (Segment.decode_failsOnly segment) fun bytes => ?_
  split
  · exact .error ⟨_, rfl⟩
  · refine .bind ?_ fun _ => .ok _
    unfold refuseCritical
    split
    · exact .error ⟨_, rfl⟩
    · exact .ok _
  · exact .error ⟨_, rfl⟩

theorem Header.refuseShared_failsOnly (h : Header) (unprotected : Option Header) :
    FailsOnly Error.IsMalformedToken (h.refuseShared unprotected) := by
  unfold refuseShared
  split
  · exact .error ⟨_, rfl⟩
  · exact .ok _

theorem SignedToken.ofParts_failsOnly (header : Header) (segment : String)
    (unprotected : Option Header) (payload signature : Bytes) :
    FailsOnly Error.IsMalformedToken (ofParts header segment unprotected payload signature) := by
  unfold ofParts
  split
  · exact .error ⟨_, rfl⟩
  · exact .bind (header.refuseShared_failsOnly unprotected) fun _ => .ok _

theorem EncryptedToken.ofParts_failsOnly (header : Header) (segment : String)
    (unprotected : Option Header) (encryptedKey iv ciphertext tag : Bytes) :
    FailsOnly Error.IsMalformedToken
      (ofParts header segment unprotected encryptedKey iv ciphertext tag) := by
  unfold ofParts
  split
  · exact .error ⟨_, rfl⟩
  · exact .bind (header.refuseShared_failsOnly unprotected) fun _ => .ok _

/-- A compact text that is no token is malformed. -/
theorem Token.ofCompact_failsOnly (text : String) :
    FailsOnly Error.IsMalformedToken (ofCompact text) := by
  unfold ofCompact
  split
  · refine .bind (Header.decode_failsOnly _) fun _ => ?_
    refine .bind (Segment.decode_failsOnly _) fun _ => ?_
    refine .bind (Segment.decode_failsOnly _) fun _ => ?_
    exact .bind (SignedToken.ofParts_failsOnly _ _ _ _ _) fun _ => .ok _
  · refine .bind (Header.decode_failsOnly _) fun _ => ?_
    refine .bind (Segment.decode_failsOnly _) fun _ => ?_
    refine .bind (Segment.decode_failsOnly _) fun _ => ?_
    refine .bind (Segment.decode_failsOnly _) fun _ => ?_
    refine .bind (Segment.decode_failsOnly _) fun _ => ?_
    exact .bind (EncryptedToken.ofParts_failsOnly _ _ _ _ _ _ _) fun _ => .ok _
  · exact .error ⟨_, rfl⟩

end WebToken
