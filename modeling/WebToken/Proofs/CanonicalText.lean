import WebToken.Proofs.RoundTrip
import WebToken.Proofs.SixBitGroups

/-!
# Compact texts are canonical

A compact text is the only one of its token: every segment is the one spelling of its bytes, and the
header is kept as it was spelled. Which spellings there are is said here without the encoder
(`Base64Url.IsCanonical`).

* `Base64Url.isCanonical_iff` : exactly the canonical texts are the encoding of some bytes;
* `Token.compact_canonical` : which compact texts are tokens, and that they are written as they were
  read.
-/

namespace WebToken

/-! ## Canonical segments -/

namespace Base64Url

/-- Whether a text is canonical base64url without padding: it is made of symbols, no symbol stands
alone behind the groups of four, and the bits of the last symbol that no byte takes are zero. -/
structure IsCanonical (text : String) : Prop where
  symbols : ∀ c ∈ text.toList, c ∈ alphabet
  length : text.toList.length % 4 ≠ 1
  /-- The last of two symbols ends in four unused bits, the last of three in two. -/
  unused : ∀ c ∈ text.toList.getLast?,
    (text.toList.length % 4 = 2 → alphabet.idxOf c % 16 = 0) ∧
    (text.toList.length % 4 = 3 → alphabet.idxOf c % 4 = 0)

/-- Whether numbers are the groups of six bits of some bytes. -/
structure Spells (ns : List Nat) : Prop where
  lt : ∀ n ∈ ns, n < 64
  length : ns.length % 4 ≠ 1
  unused : ∀ n ∈ ns.getLast?, (ns.length % 4 = 2 → n % 16 = 0) ∧ (ns.length % 4 = 3 → n % 4 = 0)

/-- Canonical texts are told by the numbers of their symbols. -/
theorem isCanonical_iff_spells {text : String} :
    IsCanonical text ↔ ∃ ns, Spells ns ∧ text.toList = ns.map symbolChar := by
  constructor
  · rintro ⟨hsymbols, hlength, hunused⟩
    refine ⟨text.toList.map alphabet.idxOf, ⟨?_, ?_, ?_⟩, (map_symbolChar_idxOf hsymbols).symm⟩
    · intro n hn
      obtain ⟨c, hc, rfl⟩ := List.mem_map.1 hn
      exact idxOf_lt (hsymbols c hc)
    · rw [List.length_map]
      exact hlength
    · intro n hn
      rw [List.getLast?_map, Option.mem_def, Option.map_eq_some_iff] at hn
      obtain ⟨c, hc, rfl⟩ := hn
      rw [List.length_map]
      exact hunused c hc
  · rintro ⟨ns, ⟨hlt, hlength, hunused⟩, htext⟩
    refine ⟨?_, ?_, ?_⟩
    · intro c hc
      rw [htext] at hc
      obtain ⟨n, hn, rfl⟩ := List.mem_map.1 hc
      exact (idxOf_symbolChar (hlt n hn)).1
    · rw [htext, List.length_map]
      exact hlength
    · intro c hc
      rw [htext, List.getLast?_map, Option.mem_def, Option.map_eq_some_iff] at hc
      obtain ⟨n, hn, rfl⟩ := hc
      rw [htext, List.length_map, (idxOf_symbolChar (hlt n (List.mem_of_mem_getLast? hn))).2]
      exact hunused n hn

/-- Behind four groups of six bits stand such groups again. -/
theorem Spells.of_cons_four {a b c d : Nat} {ns : List Nat} (h : Spells (a :: b :: c :: d :: ns)) :
    (a < 64 ∧ b < 64 ∧ c < 64 ∧ d < 64) ∧ Spells ns := by
  have hmod : (a :: b :: c :: d :: ns).length % 4 = ns.length % 4 := by
    simp only [List.length_cons]
    omega
  have hlt := h.lt
  simp only [List.forall_mem_cons] at hlt
  obtain ⟨ha, hb, hc, hd, hns⟩ := hlt
  refine ⟨⟨ha, hb, hc, hd⟩, hns, hmod ▸ h.length, fun n hn => ?_⟩
  have hlast : n ∈ (a :: b :: c :: d :: ns).getLast? := by
    rw [List.getLast?_cons, List.getLast?_cons, List.getLast?_cons, List.getLast?_cons,
      Option.mem_def.1 hn]
    rfl
  rw [← hmod]
  exact h.unused n hlast

/-- The groups into which bytes are cut leave no symbol alone, and their unused bits are zero. -/
theorem Regroups.spells {ns : List Nat} {bytes : Bytes} (h : Regroups ns bytes) : Spells ns := by
  have henough := h.enough
  have hfew := h.few
  refine ⟨h.lt, by omega, fun n hn => ?_⟩
  obtain ⟨front, rfl⟩ := List.getLast?_eq_some_iff.1 hn
  -- the last group is what the number leaves modulo 64, and the unused bits are a factor of it
  have hvalue := h.value
  rw [List.reverse_append, List.reverse_singleton, List.singleton_append, Nat.ofDigits_cons] at hvalue
  constructor
  · intro hmod
    rw [show 6 * (front ++ [n]).length - 8 * bytes.length = 4 by omega] at hvalue
    omega
  · intro hmod
    rw [show 6 * (front ++ [n]).length - 8 * bytes.length = 2 by omega] at hvalue
    omega

/-- Encoded bytes are groups of six bits. -/
theorem exists_spells_symbols (bytes : Bytes) :
    ∃ ns, Spells ns ∧ symbols bytes = ns.map symbol := by
  obtain ⟨ns, hns, hsymbols⟩ := exists_regroups_symbols bytes
  exact ⟨ns, hns.spells, hsymbols⟩

/-- Groups of six bits are read. -/
theorem exists_decode?_of_spells {ns : List Nat} (h : Spells ns) :
    ∃ bytes, decode? (ns.map symbol) = some bytes := by
  match ns, h with
  | [], _ => exact ⟨[], rfl⟩
  | [_], h => exact absurd rfl h.length
  | [a, b], h =>
    have hlt := h.lt
    simp only [List.forall_mem_cons] at hlt
    have hunused := (h.unused b rfl).1 rfl
    simp only [List.map_cons, List.map_nil, decode?, digit?_symbol hlt.1, digit?_symbol hlt.2.1,
      Option.bind_eq_bind, Option.bind_some]
    rw [if_pos (by omega)]
    exact ⟨_, rfl⟩
  | [a, b, c], h =>
    have hlt := h.lt
    simp only [List.forall_mem_cons] at hlt
    have hunused := (h.unused c rfl).2 rfl
    simp only [List.map_cons, List.map_nil, decode?, digit?_symbol hlt.1, digit?_symbol hlt.2.1,
      digit?_symbol hlt.2.2.1, Option.bind_eq_bind, Option.bind_some]
    rw [if_pos (by omega)]
    exact ⟨_, rfl⟩
  | a :: b :: c :: d :: ns, h =>
    obtain ⟨⟨ha, hb, hc, hd⟩, hns⟩ := h.of_cons_four
    obtain ⟨bytes, hbytes⟩ := exists_decode?_of_spells hns
    simp only [List.map_cons, decode?, hbytes, digit?_symbol ha, digit?_symbol hb,
      digit?_symbol hc, digit?_symbol hd, Option.bind_eq_bind, Option.bind_some]
    exact ⟨_, rfl⟩

/-- A text is canonical exactly if it is the encoding of some bytes. -/
theorem isCanonical_iff {text : String} : IsCanonical text ↔ ∃ bytes, text = encode bytes := by
  rw [isCanonical_iff_spells]
  constructor
  · rintro ⟨ns, hns, htext⟩
    obtain ⟨bytes, hbytes⟩ := exists_decode?_of_spells hns
    refine ⟨bytes, ?_⟩
    rw [← String.toList_inj, htext, encode, String.toList_ofList, ← eq_symbols_of_decode? hbytes,
      List.map_map]
    rfl
  · rintro ⟨bytes, rfl⟩
    obtain ⟨ns, hns, hsymbols⟩ := exists_spells_symbols bytes
    refine ⟨ns, hns, ?_⟩
    rw [encode, String.toList_ofList, hsymbols, List.map_map]
    rfl

theorem isCanonical_encode (bytes : Bytes) : IsCanonical (encode bytes) :=
  isCanonical_iff.2 ⟨bytes, rfl⟩

/-- There is no padding in a canonical text. -/
theorem not_isCanonical_pad : ¬IsCanonical "=" := fun h =>
  absurd (h.symbols '=' (by decide)) (by decide)

/-- Only no bytes at all are spelled by the empty text. -/
theorem encode_ne_empty {bytes : Bytes} (h : bytes.length ≠ 0) : encode bytes ≠ "" := by
  intro hempty
  have hdecode := decode_eq_ok_iff.2 hempty.symm
  exact h (congrArg List.length (Except.ok.inj hdecode).symm)

end Base64Url

/-! ## Compact texts -/

/-- Whether a segment is the text of a header that holds no parameter that must be understood, and
texts under the given names. -/
def SpellsHeader (segment : String) (names : List String) : Prop :=
  ∃ (bytes : Bytes) (o : Json.Object),
    Base64Url.decode segment = .ok bytes ∧ Json.parse bytes = .ok (.object o) ∧
    "crit" ∉ o.names ∧ ∀ name ∈ names, ∃ s, o.get? name = some (.string s)

theorem spellsHeader_iff {segment : String} {names : List String} :
    SpellsHeader segment names ↔
      ∃ h, Header.decode segment = .ok h ∧ ∀ name ∈ names, (h.text? name).isSome = true := by
  constructor
  · rintro ⟨bytes, o, hbytes, hparse, hcrit, htexts⟩
    refine ⟨⟨o⟩, Header.decode_eq_ok_iff.2 ?_, ?_⟩
    · exact ⟨bytes, Base64Url.decode_eq_ok_iff.1 hbytes, hparse,
        Header.contains_eq_false_iff.2 hcrit⟩
    · exact fun name hname => Header.isSome_text?_iff.2 (htexts name hname)
  · rintro ⟨h, hdecode, htexts⟩
    obtain ⟨bytes, hbytes, hparse, hcrit⟩ := Header.decode_eq_ok_iff.1 hdecode
    exact ⟨bytes, h.parameters, Base64Url.decode_eq_ok_iff.2 hbytes, hparse,
      Header.contains_eq_false_iff.1 hcrit,
      fun name hname => Header.isSome_text?_iff.1 (htexts name hname)⟩

/-- Whether segments are those of a token: three or five, all of them canonical, the first one the
text of a header that names the algorithms. -/
inductive IsCompact : List String → Prop where
  | signed {header payload signature : String}
      (canonical : ∀ s ∈ [header, payload, signature], Base64Url.IsCanonical s)
      (spells : SpellsHeader header ["alg"]) : IsCompact [header, payload, signature]
  | encrypted {header key iv ciphertext tag : String}
      (canonical : ∀ s ∈ [header, key, iv, ciphertext, tag], Base64Url.IsCanonical s)
      (spells : SpellsHeader header ["alg", "enc"]) :
      IsCompact [header, key, iv, ciphertext, tag]

/-- Canonical segments spell some bytes. -/
theorem exists_map_encode_of_isCanonical {parts : List String}
    (h : ∀ s ∈ parts, Base64Url.IsCanonical s) :
    ∃ bytes : List Bytes, parts = bytes.map Base64Url.encode := by
  induction parts with
  | nil => exact ⟨[], rfl⟩
  | cons s parts ih =>
    obtain ⟨hs, hparts⟩ := List.forall_mem_cons.1 h
    obtain ⟨b, rfl⟩ := Base64Url.isCanonical_iff.1 hs
    obtain ⟨bytes, rfl⟩ := ih hparts
    exact ⟨b :: bytes, rfl⟩

/-- Canonical segments are found again in the text that they are joined to. -/
theorem segments_intercalate {parts : List String} (hne : parts ≠ [])
    (h : ∀ s ∈ parts, Base64Url.IsCanonical s) : segments (".".intercalate parts) = parts := by
  obtain ⟨bytes, rfl⟩ := exists_map_encode_of_isCanonical h
  exact segments_compactText (by simpa using hne)

/-- A canonical segment is not cut. -/
theorem segments_of_isCanonical {s : String} (h : Base64Url.IsCanonical s) : segments s = [s] := by
  have hparts : segments (".".intercalate [s]) = [s] :=
    segments_intercalate (List.cons_ne_nil _ _) (List.forall_mem_singleton.2 h)
  rwa [String.intercalate_singleton] at hparts

theorem IsCompact.isCanonical {parts : List String} (h : IsCompact parts) :
    ∀ s ∈ parts, Base64Url.IsCanonical s := by
  cases h with
  | signed canonical _ => exact canonical
  | encrypted canonical _ => exact canonical

namespace Token

/-- The segments of a text that is read are those of a token. -/
theorem isCompact_segments {text : String} {t : Token} (h : ofCompact text = .ok t) :
    IsCompact (segments text) := by
  have hcanonical : ∀ {bytes : Bytes}, Base64Url.IsCanonical (Base64Url.encode bytes) :=
    Base64Url.isCanonical_encode _
  cases t with
  | signed t =>
    obtain ⟨hs, hdecode, -, halg, -⟩ := ofCompact_eq_ok_signed_iff.1 h
    obtain ⟨bytes, hsegment, -⟩ := Header.decode_eq_ok_iff.1 hdecode
    rw [hs]
    refine .signed ?_ (spellsHeader_iff.2 ⟨t.header, hdecode, ?_⟩)
    · rw [hsegment]
      simp only [List.forall_mem_cons]
      exact ⟨hcanonical, hcanonical, hcanonical, nofun⟩
    · exact List.forall_mem_singleton.2 halg
  | encrypted t =>
    obtain ⟨hs, hdecode, -, halg, henc, -⟩ := ofCompact_eq_ok_encrypted_iff.1 h
    obtain ⟨bytes, hsegment, -⟩ := Header.decode_eq_ok_iff.1 hdecode
    rw [hs]
    refine .encrypted ?_ (spellsHeader_iff.2 ⟨t.header, hdecode, ?_⟩)
    · rw [hsegment]
      simp only [List.forall_mem_cons]
      exact ⟨hcanonical, hcanonical, hcanonical, hcanonical, hcanonical, nofun⟩
    · exact List.forall_mem_cons.2 ⟨halg, List.forall_mem_singleton.2 henc⟩

/-- Segments that are those of a token are read. -/
theorem exists_ofCompact {parts : List String} (h : IsCompact parts) :
    ∃ t, ofCompact (".".intercalate parts) = .ok t := by
  cases h with
  | @signed header payload signature hcanonical hspells =>
    have hs := segments_intercalate (List.cons_ne_nil _ _) hcanonical
    simp only [List.forall_mem_cons, Base64Url.isCanonical_iff] at hcanonical
    obtain ⟨-, ⟨payload, rfl⟩, ⟨signature, rfl⟩, -⟩ := hcanonical
    obtain ⟨h, hdecode, htexts⟩ := spellsHeader_iff.1 hspells
    exact ⟨.signed ⟨h, header, none, payload, signature⟩, ofCompact_eq_ok_signed_iff.2
      ⟨hs, hdecode, rfl, htexts "alg" (List.mem_cons_self ..), nofun⟩⟩
  | @encrypted header key iv ciphertext tag hcanonical hspells =>
    have hs := segments_intercalate (List.cons_ne_nil _ _) hcanonical
    simp only [List.forall_mem_cons, Base64Url.isCanonical_iff] at hcanonical
    obtain ⟨-, ⟨key, rfl⟩, ⟨iv, rfl⟩, ⟨ciphertext, rfl⟩, ⟨tag, rfl⟩, -⟩ := hcanonical
    obtain ⟨h, hdecode, htexts⟩ := spellsHeader_iff.1 hspells
    exact ⟨.encrypted ⟨h, header, none, key, iv, ciphertext, tag⟩,
      ofCompact_eq_ok_encrypted_iff.2
        ⟨hs, hdecode, rfl, htexts "alg" (List.mem_cons_self ..),
          htexts "enc" (List.mem_cons_of_mem _ (List.mem_cons_self ..)), nofun⟩⟩

/-- A compact text is a token exactly if its segments are those of one. -/
theorem exists_ofCompact_iff {text : String} :
    (∃ t, ofCompact text = .ok t) ↔ ∃ parts, text = ".".intercalate parts ∧ IsCompact parts := by
  constructor
  · rintro ⟨t, ht⟩
    exact ⟨segments text, (intercalate_segments text).symm, isCompact_segments ht⟩
  · rintro ⟨parts, rfl, hparts⟩
    exact exists_ofCompact hparts

/-- A token that was read from a compact text is written as it was read. -/
theorem text_of_ofCompact {text : String} {t : Token} (h : ofCompact text = .ok t) :
    t.text .compact = .ok text := by
  cases t with
  | signed t =>
    obtain ⟨hs, -, hnone, -⟩ := ofCompact_eq_ok_signed_iff.1 h
    refine bind_eq_ok_iff.2 ⟨(), refuseUnprotected_eq_ok_iff.2 hnone, ?_⟩
    rw [← hs, intercalate_segments]
    rfl
  | encrypted t =>
    obtain ⟨hs, -, hnone, -⟩ := ofCompact_eq_ok_encrypted_iff.1 h
    refine bind_eq_ok_iff.2 ⟨(), refuseUnprotected_eq_ok_iff.2 hnone, ?_⟩
    rw [← hs, intercalate_segments]
    rfl

/-- Equal tokens have one compact text: no part of a token that is written is left out when tokens
are compared. -/
theorem text_eq_of_same {t t' : Token} {text text' : String} (h : t.same t' = true)
    (htext : t.text .compact = .ok text) (htext' : t'.text .compact = .ok text') :
    text = text' := by
  cases t with
  | signed t =>
    cases t' with
    | encrypted t' => cases h
    | signed t' =>
      simp only [same, SignedToken.same, Bool.and_eq_true, beq_iff_eq] at h
      obtain ⟨⟨⟨⟨-, hsegment⟩, -⟩, hpayload⟩, hsignature⟩ := h
      obtain ⟨_, -, hwritten⟩ := bind_eq_ok_iff.1 htext
      obtain ⟨_, -, hwritten'⟩ := bind_eq_ok_iff.1 htext'
      rw [← Except.ok.inj hwritten, ← Except.ok.inj hwritten', hsegment, hpayload, hsignature]
  | encrypted t =>
    cases t' with
    | signed t' => cases h
    | encrypted t' =>
      simp only [same, EncryptedToken.same, Bool.and_eq_true, beq_iff_eq] at h
      obtain ⟨⟨⟨⟨⟨⟨-, hsegment⟩, -⟩, hkey⟩, hiv⟩, hciphertext⟩, htag⟩ := h
      obtain ⟨_, -, hwritten⟩ := bind_eq_ok_iff.1 htext
      obtain ⟨_, -, hwritten'⟩ := bind_eq_ok_iff.1 htext'
      rw [← Except.ok.inj hwritten, ← Except.ok.inj hwritten', hsegment, hkey, hiv, hciphertext,
        htag]

theorem ofText_of_not_brace {text : String} (h : (Text.trim text).toList.head? ≠ some '\x7b') :
    ofText text = ofCompact (Text.trim text) := by
  rw [ofText_eq, if_neg h]

/-- Let a text not begin with a brace behind its blanks. It is a token exactly if, without the
blanks at its ends, it is made of canonical segments that are those of a token. The token is written
in the compact form as it was read, to the letter; so two such texts that differ behind their blanks
are never the same token. -/
theorem compact_canonical {text : String}
    (h : (Text.trim text).toList.head? ≠ some '\x7b') :
    ((∃ t, ofText text = .ok t) ↔
      ∃ parts, Text.trim text = ".".intercalate parts ∧ IsCompact parts) ∧
    ∀ t, ofText text = .ok t →
      t.text .compact = .ok (Text.trim text) ∧
      ∀ text' t', (Text.trim text').toList.head? ≠ some '\x7b' → ofText text' = .ok t' →
        Text.trim text ≠ Text.trim text' → t ≠ t' ∧ t.same t' = false := by
  rw [ofText_of_not_brace h]
  refine ⟨exists_ofCompact_iff, fun t ht => ⟨text_of_ofCompact ht, ?_⟩⟩
  intro text' t' h' ht' hne
  rw [ofText_of_not_brace h'] at ht'
  have hwritten := text_of_ofCompact ht
  have hwritten' := text_of_ofCompact ht'
  constructor
  · rintro rfl
    rw [hwritten, Except.ok.injEq] at hwritten'
    exact hne hwritten'
  · rw [← Bool.not_eq_true]
    exact fun hsame => hne (text_eq_of_same hsame hwritten hwritten')

/-- The empty token is read between blanks and written without them. With a byte in its last segment
it is another token; with that byte spelled in another way, it is none. -/
theorem compact_canonical_emptyToken :
    ((emptyToken none).text .compact = .ok emptyCompact ∧
      ∃ t, ofText "eyJhbGciOiJkaXIiLCJlbmMiOiJBMTI4R0NNIn0....AA" = .ok t ∧
        emptyToken none ≠ t ∧ (emptyToken none).same t = false) ∧
    ¬∃ parts, "eyJhbGciOiJkaXIiLCJlbmMiOiJBMTI4R0NNIn0....AB" = ".".intercalate parts ∧
      IsCompact parts := by
  have htrim : Text.trim " eyJhbGciOiJkaXIiLCJlbmMiOiJBMTI4R0NNIn0....\n" = emptyCompact := by cbv
  have hread : ofText " eyJhbGciOiJkaXIiLCJlbmMiOiJBMTI4R0NNIn0....\n" =
      .ok (emptyToken none) := by cbv
  have hbyte : Text.trim "eyJhbGciOiJkaXIiLCJlbmMiOiJBMTI4R0NNIn0....AA" =
      "eyJhbGciOiJkaXIiLCJlbmMiOiJBMTI4R0NNIn0....AA" := by cbv
  have hbits : Text.trim "eyJhbGciOiJkaXIiLCJlbmMiOiJBMTI4R0NNIn0....AB" =
      "eyJhbGciOiJkaXIiLCJlbmMiOiJBMTI4R0NNIn0....AB" := by cbv
  constructor
  · obtain ⟨hwritten, hdistinct⟩ := (compact_canonical (by rw [htrim]; decide)).2 _ hread
    rw [htrim] at hwritten hdistinct
    have hother : ofText "eyJhbGciOiJkaXIiLCJlbmMiOiJBMTI4R0NNIn0....AA" =
      .ok (.encrypted ⟨.encrypted .direct .a128Gcm, "eyJhbGciOiJkaXIiLCJlbmMiOiJBMTI4R0NNIn0",
        none, [], [], [], [0]⟩) := by cbv
    exact ⟨hwritten, _, hother, hdistinct _ _ (by rw [hbyte]; decide) hother (by
      rw [hbyte]; decide)⟩
  · intro hparts
    rw [← hbits] at hparts
    obtain ⟨t, ht⟩ := (compact_canonical (by rw [hbits]; decide)).1.2 hparts
    have hrefused : (ofText "eyJhbGciOiJkaXIiLCJlbmMiOiJBMTI4R0NNIn0....AB").toOption = none := by
      cbv
    rw [ht] at hrefused
    cases hrefused

end Token

end WebToken
