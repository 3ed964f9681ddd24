import WebToken.Claims.Reading
import WebToken.Proofs.BuiltClaims
import WebToken.Proofs.Json.RoundTrip

/-!
# Claims are read as they were written

The object of claims lists the registered ones that are there, in a fixed order, and then the custom
ones. Each registered member that is read sets its own claim and no other, and each custom member
is put behind those read before. So the claims that are read are those that were written: the same
times and texts, an audience of the same form, and the same custom claims in the same order.

* `Claims.readMembers_written` and `Claims.readMembers_custom` : a run over the members of each kind;
* `Claims.ofBytes_json` : the text of claims denotes them;
* `Claims.Reachable` : the claims that can come up, whose custom values a text can denote.
-/

namespace WebToken

/-! ## What documents are read as -/

namespace Json

namespace Members

variable {depth : Nat} {members : Members}

/-- Members that hold nothing are at their end. -/
theorem exists_done_of_values (h : members.values depth = .ok []) :
    ∃ ending, members = .done ending ∧ Fault.raise ending.memberFault = .ok () := by
  cases members with
  | done ending =>
    rw [values, bind_eq_ok_iff] at h
    obtain ⟨_, hraise, -⟩ := h
    exact ⟨ending, rfl, hraise⟩
  | member l d tail =>
    simp only [values, bind_eq_ok_iff] at h
    obtain ⟨_, -, _, -, _, -, h⟩ := h
    cases h

/-- The first of the members has a name and a value, and the others stand behind it. -/
theorem exists_member_of_values {name : String} {v : Value} {ms : List (String × Value)}
    (h : members.values depth = .ok ((name, v) :: ms)) :
    ∃ l d tail, members = .member l d tail ∧ l.text = .ok name ∧ d.value depth = .ok v ∧
      tail.values depth = .ok ms := by
  cases members with
  | done ending =>
    rw [values, bind_eq_ok_iff] at h
    obtain ⟨_, -, h⟩ := h
    cases h
  | member l d tail =>
    simp only [values, bind_eq_ok_iff] at h
    obtain ⟨_, hname, _, hvalue, _, htail, h⟩ := h
    cases h
    exact ⟨l, d, tail, rfl, hname, hvalue, htail⟩

end Members

namespace Document

variable {depth : Nat} {d : Document}

/-- What a document says about the value that it denotes, without a look into arrays and objects. -/
def Shows : Document → Value → Prop
  | .null, v => v = .null
  | .bool b, v => v = .bool b
  | .number x, v => x.value = .ok v
  | .string l, v => ∃ s, l.text = .ok s ∧ v = .string s
  | .array _, v => ∃ vs, v = .array vs
  | .object _, v => ∃ ms, v = .object ms
  | _, _ => False

theorem shows_of_value {v : Value} (h : d.value depth = .ok v) : d.Shows v := by
  cases d with
  | null =>
    rw [value] at h
    exact (Except.ok.inj h).symm
  | bool b =>
    rw [value] at h
    exact (Except.ok.inj h).symm
  | number x =>
    rw [value] at h
    exact h
  | string l =>
    rw [value] at h
    obtain ⟨s, htext, hv⟩ := map_eq_ok_iff.1 h
    exact ⟨s, htext, hv.symm⟩
  | array items =>
    cases depth with
    | zero => cases h
    | succ depth =>
      rw [value] at h
      obtain ⟨vs, -, hv⟩ := map_eq_ok_iff.1 h
      exact ⟨vs, hv.symm⟩
  | object members =>
    cases depth with
    | zero => cases h
    | succ depth =>
      rw [value] at h
      obtain ⟨ms, -, hv⟩ := map_eq_ok_iff.1 h
      exact ⟨_, hv.symm⟩
  | _ => cases h

/-- A number is no text. -/
theorem not_string_of_numeral {x : Numeral} {s : String} : x.value ≠ .ok (.string s) := by
  intro h
  rcases Numeral.number_of_value h with ⟨n, -, heq⟩ | ⟨y, -, heq⟩
  · cases heq
  · cases heq

/-- What denotes a text is a literal. -/
theorem asText_of_value {s : String} (h : d.value depth = .ok (.string s)) : d.asText = .ok s := by
  have hshows := shows_of_value h
  cases d with
  | string l =>
    obtain ⟨_, htext, hs⟩ := hshows
    cases hs
    rw [asText, htext]
    rfl
  | number x => exact absurd hshows not_string_of_numeral
  | array items =>
    obtain ⟨vs, hvs⟩ := hshows
    cases hvs
  | object members =>
    obtain ⟨ms, hms⟩ := hshows
    cases hms
  | _ => cases hshows

/-- What denotes a whole number is a numeral. -/
theorem asInt64_of_value {t : Int64} (h : d.value depth = .ok (.integer t.toInt)) :
    d.asInt64 = .ok t := by
  have hshows := shows_of_value h
  cases d with
  | number x =>
    have hx : x.value = .ok (.integer t.toInt) := hshows
    have hbounds : -0x8000000000000000 ≤ t.toInt ∧ t.toInt < 0x8000000000000000 :=
      ⟨t.le_toInt, t.toInt_lt⟩
    rw [asInt64, hx]
    simp only
    rw [if_pos hbounds, Int64.ofInt_toInt]
  | string l =>
    obtain ⟨_, -, hs⟩ := hshows
    cases hs
  | array items =>
    obtain ⟨vs, hvs⟩ := hshows
    cases hvs
  | object members =>
    obtain ⟨ms, hms⟩ := hshows
    cases hms
  | _ => cases hshows

/-- What does not denote null is read where null may stand. -/
theorem optional_of_value {α : Type} {read : Document → Except ReadError α} {v : Value} {a : α}
    (h : d.value depth = .ok v) (hv : v ≠ .null) (hread : read d = .ok a) :
    d.optional read = .ok (some a) := by
  have hoptional : d.optional read = (read d).map some := by
    cases d with
    | null =>
      cases h
      exact absurd rfl hv
    | brokenNull fault => cases h
    | _ => rfl
  rw [hoptional, hread]
  rfl

end Document

end Json

/-! ## Registered claims -/

namespace RegisteredClaim

/-- A registered claim is found by its name. -/
theorem ofName?_name (r : RegisteredClaim) : ofName? r.name = some r := by
  cases r <;> decide

end RegisteredClaim

namespace Claims

open Json (Document Members Value)

variable {c c' : Claims} {r : RegisteredClaim} {d : Document} {v : Value}

/-- The claims with a registered one taken from others. -/
def take (c c' : Claims) : RegisteredClaim → Claims
  | .iss => { c with iss := c'.iss }
  | .sub => { c with sub := c'.sub }
  | .aud => { c with aud := c'.aud }
  | .exp => { c with exp := c'.exp }
  | .nbf => { c with nbf := c'.nbf }
  | .iat => { c with iat := c'.iat }
  | .jti => { c with jti := c'.jti }

/-- Taking a claim leaves the others alone. -/
theorem registered?_take_of_ne {r' : RegisteredClaim} (h : r' ≠ r) :
    (c.take c' r).registered? r' = c.registered? r' := by
  cases r <;> cases r' <;> first | rfl | exact absurd rfl h

/-- Taking a claim that is missing in both changes nothing. -/
theorem take_of_eq_none (h : c.registered? r = none) (h' : c'.registered? r = none) :
    c.take c' r = c := by
  cases r <;> simp only [registered?, Option.map_eq_none_iff] at h h' <;>
    simp only [take, h', ← h]

/-- An audience is the one that its value is. -/
theorem audienceOf_audienceValue (a : Audience) : audienceOf (audienceValue a) = .ok a := by
  cases a with
  | single name => rfl
  | multiple names =>
    -- every item is a text, and the texts are collected in their order
    have hnames : (names.map Value.string).mapM Value.asText = .ok names := by
      induction names with
      | nil => rfl
      | cons name names ih =>
        rw [List.map_cons, List.mapM_cons, ih]
        rfl
    have hlist : (Value.array (names.map .string)).asList Value.asText = .ok names := hnames
    rw [audienceValue, audienceOf.eq_def]
    simp only [hlist]

/-- The value of a registered claim is read as that claim. -/
theorem readRegistered_of_value (hr : c'.registered? r = some v)
    (hd : d.value innerDepth = .ok v) : c.readRegistered d r = .ok (c.take c' r) := by
  have text : ∀ {s? : Option String}, s?.map Value.string = some v →
      d.optional Document.asText = .ok s? := by
    intro s? h
    obtain ⟨s, rfl, rfl⟩ := Option.map_eq_some_iff.1 h
    exact Document.optional_of_value hd nofun (Document.asText_of_value hd)
  have time : ∀ {t? : Option Int64}, t?.map timeValue = some v →
      d.optional Document.asInt64 = .ok t? := by
    intro t? h
    obtain ⟨t, rfl, rfl⟩ := Option.map_eq_some_iff.1 h
    exact Document.optional_of_value hd nofun (Document.asInt64_of_value hd)
  cases r with
  | iss => rw [readRegistered, text hr]; rfl
  | sub => rw [readRegistered, text hr]; rfl
  | aud =>
    obtain ⟨a, ha, rfl⟩ := Option.map_eq_some_iff.1 hr
    have hread : readAudience d = .ok a := by
      rw [readAudience, hd]
      exact audienceOf_audienceValue a
    have hnull : audienceValue a ≠ .null := by cases a <;> exact nofun
    rw [readRegistered, Document.optional_of_value hd hnull hread, ← ha]
    rfl
  | exp => rw [readRegistered, time hr]; rfl
  | nbf => rw [readRegistered, time hr]; rfl
  | iat => rw [readRegistered, time hr]; rfl
  | jti => rw [readRegistered, text hr]; rfl

/-- Whoever takes all registered claims, and the custom claims besides, has all claims. -/
theorem foldl_take_all (c c' : Claims) :
    { RegisteredClaim.all.foldl (take · c') c with custom := c'.custom } = c' := by
  simp only [RegisteredClaim.all, List.foldl_cons, List.foldl_nil, take]

/-! ## Runs over the members -/

variable {seen : List RegisteredClaim} {members : Members}

/-- The member of a registered claim sets that claim, if it was not read before. -/
theorem readMembers_registered {l : Json.Literal} {tail : Members} (hl : l.text = .ok r.name)
    (hseen : r ∉ seen) (hr : c'.registered? r = some v) (hd : d.value innerDepth = .ok v) :
    c.readMembers seen (.member l d tail) = (c.take c' r).readMembers (r :: seen) tail := by
  rw [readMembers, hl]
  dsimp only [Json.orFault, Except.mapError, bind, Except.bind]
  split
  · next r' hr' =>
    rw [RegisteredClaim.ofName?_name, Option.some.injEq] at hr'
    subst hr'
    rw [if_neg hseen, readRegistered_of_value hr hd]
  · next hr' =>
    rw [RegisteredClaim.ofName?_name] at hr'
    cases hr'

/-- A member with another name is put behind the custom claims. -/
theorem readMembers_custom_member {l : Json.Literal} {name : String} {tail : Members}
    (hl : l.text = .ok name) (hname : name ∉ RegisteredClaim.names)
    (hd : d.value innerDepth = .ok v) :
    c.readMembers seen (.member l d tail) =
      { c with custom := c.custom.insert name v hname }.readMembers seen tail := by
  rw [readMembers, hl]
  dsimp only [Json.orFault, Except.mapError, bind, Except.bind]
  split
  · next r hr =>
    -- the name of a registered claim is registered
    have hmem := List.mem_of_find?_eq_some hr
    have hrname := List.find?_some hr
    rw [beq_iff_eq] at hrname
    exact absurd (List.mem_map.2 ⟨r, hmem, hrname⟩) hname
  · next h =>
    rw [hd]

/-- The members written for registered claims that are there. -/
def written (c : Claims) (rs : List RegisteredClaim) : Json.Object :=
  rs.filterMap fun r => (c.registered? r).map fun v => (r.name, v)

/-- A run over the members of registered claims takes these claims, and leaves the members behind
them to be read. -/
theorem readMembers_written (c' : Claims) {rs : List RegisteredClaim} {ms : Json.Object}
    (hrs : rs.Nodup) (hseen : ∀ r ∈ rs, r ∉ seen) (hnone : ∀ r ∈ rs, c.registered? r = none)
    (hmembers : members.values innerDepth = .ok (c'.written rs ++ ms)) :
    ∃ seen' rest, rest.values innerDepth = .ok ms ∧
      c.readMembers seen members = (rs.foldl (take · c') c).readMembers seen' rest := by
  -- on the claims that are left to be read; none of them was read or set before
  induction rs generalizing c seen members with
  | nil => exact ⟨seen, members, hmembers, rfl⟩
  | cons r rs ih =>
    obtain ⟨hr, hrs⟩ := List.nodup_cons.1 hrs
    obtain ⟨hseenr, hseenrs⟩ := List.forall_mem_cons.1 hseen
    obtain ⟨hnoner, hnoners⟩ := List.forall_mem_cons.1 hnone
    have hkept : ∀ r' ∈ rs, (c.take c' r).registered? r' = none := by
      intro r' hr'
      rw [registered?_take_of_ne fun h : r' = r => hr (h ▸ hr')]
      exact hnoners r' hr'
    cases hv : c'.registered? r with
    | none =>
      rw [written, List.filterMap_cons, hv] at hmembers
      rw [List.foldl_cons, take_of_eq_none hnoner hv]
      exact ih hrs hseenrs hnoners hmembers
    | some v =>
      rw [written, List.filterMap_cons, hv] at hmembers
      obtain ⟨l, d, tail, rfl, hl, hd, htail⟩ := Members.exists_member_of_values hmembers
      rw [readMembers_registered hl hseenr hv hd]
      refine ih hrs (fun r' hr' => ?_) hkept htail
      rw [List.mem_cons, not_or]
      exact ⟨fun h : r' = r => hr (h ▸ hr'), hseenrs r' hr'⟩

/-- A run over members with other names puts them behind the custom claims. -/
theorem readMembers_custom {ms : Json.Object} (hnames : ∀ name ∈ ms.names,
    name ∉ RegisteredClaim.names) (hmembers : members.values innerDepth = .ok ms) :
    ∃ custom, c.readMembers seen members = .ok { c with custom } ∧
      custom.members = c.custom.members.insertAll ms := by
  induction ms generalizing c members with
  | nil =>
    obtain ⟨ending, rfl, hraise⟩ := Members.exists_done_of_values hmembers
    refine ⟨c.custom, ?_, rfl⟩
    rw [readMembers, hraise]
    rfl
  | cons m ms ih =>
    obtain ⟨name, v⟩ := m
    obtain ⟨hname, hnames⟩ := List.forall_mem_cons.1 hnames
    obtain ⟨l, d, tail, rfl, hl, hd, htail⟩ := Members.exists_member_of_values hmembers
    rw [readMembers_custom_member hl hname hd]
    exact ih hnames htail

/-! ## Whole texts -/

/-- Whether a text of the claims is read again: there is no double in the custom claims, and none is
nested deeper than a reader goes. -/
structure Legible (c : Claims) : Prop where
  floatFree : ∀ m ∈ c.custom.members, m.2.FloatFree
  depth : ∀ m ∈ c.custom.members, m.2.depth ≤ innerDepth

/-- The values of registered claims are in range, hold no double and are hardly nested. -/
theorem registered?_spec (h : c.registered? r = some v) :
    v.WellFormed ∧ v.FloatFree ∧ v.depth ≤ 1 := by
  have text : ∀ {s? : Option String}, s?.map Value.string = some v →
      v.WellFormed ∧ v.FloatFree ∧ v.depth ≤ 1 := by
    intro s? h
    obtain ⟨s, -, rfl⟩ := Option.map_eq_some_iff.1 h
    exact ⟨trivial, nofun, Nat.zero_le _⟩
  have time : ∀ {t? : Option Int64}, t?.map timeValue = some v →
      v.WellFormed ∧ v.FloatFree ∧ v.depth ≤ 1 := by
    intro t? h
    obtain ⟨t, -, rfl⟩ := Option.map_eq_some_iff.1 h
    have hlow := t.le_toInt
    have hhigh := t.toInt_lt
    exact ⟨Value.wellFormed_integer.2 ⟨hlow, by omega⟩, nofun, Nat.zero_le _⟩
  cases r with
  | iss => exact text h
  | sub => exact text h
  | aud =>
    obtain ⟨a, -, rfl⟩ := Option.map_eq_some_iff.1 h
    cases a with
    | single name => exact ⟨trivial, nofun, Nat.zero_le _⟩
    | multiple names =>
      have hitems : ∀ v ∈ names.map Value.string, ∃ s, v = .string s := by
        intro v hv
        obtain ⟨s, -, rfl⟩ := List.mem_map.1 hv
        exact ⟨s, rfl⟩
      refine ⟨Value.all_array.2 ⟨trivial, fun v hv => ?_⟩,
        Value.all_array.2 ⟨nofun, fun v hv => ?_⟩, ?_⟩
      · obtain ⟨s, rfl⟩ := hitems v hv
        exact trivial
      · obtain ⟨s, rfl⟩ := hitems v hv
        exact nofun
      · refine Nat.succ_le_succ (Value.depthItems_le_iff.2 fun v hv => ?_)
        obtain ⟨s, rfl⟩ := hitems v hv
        exact Nat.zero_le _
  | exp => exact time h
  | nbf => exact time h
  | iat => exact time h
  | jti => exact text h

/-- A property of the values of registered claims and of custom claims is one of all members. -/
theorem forall_mem_toObject {p : Value → Prop} (hr : ∀ r v, c.registered? r = some v → p v)
    (hc : ∀ m ∈ c.custom.members, p m.2) : ∀ m ∈ c.toObject, p m.2 := by
  intro m hm
  rcases List.mem_append.1 hm with hm | hm
  · obtain ⟨r, -, hr'⟩ := List.mem_filterMap.1 hm
    obtain ⟨v, hv, rfl⟩ := Option.map_eq_some_iff.1 hr'
    exact hr r v hv
  · exact hc m hm

/-- The text of claims denotes them: the registered claims, the form of the audience, and the custom
claims in their order. -/
theorem parse_json (hw : ∀ m ∈ c.custom.members, m.2.WellFormed) (hl : c.Legible) :
    parse (Bytes.ofString c.json) = .ok c := by
  have hwellFormed : (Value.object c.toObject).WellFormed :=
    Value.all_object.2 ⟨c.nodup_names_toObject,
      forall_mem_toObject (fun _ _ hr => (registered?_spec hr).1) hw⟩
  have hfloatFree : (Value.object c.toObject).FloatFree :=
    Value.all_object.2 ⟨nofun,
      forall_mem_toObject (fun _ _ hr => (registered?_spec hr).2.1) hl.floatFree⟩
  have hdepth : Value.depthMembers c.toObject ≤ innerDepth :=
    Value.depthMembers_le_iff.2 (forall_mem_toObject
      (fun _ _ hr => le_trans (registered?_spec hr).2.2 (by decide)) hl.depth)
  obtain ⟨members, hread, hvalues⟩ := Document.read_encode_object hwellFormed hfloatFree
  -- the registered members stand before the custom ones
  have hunseen : ∀ r ∈ RegisteredClaim.all, r ∉ ([] : List RegisteredClaim) :=
    fun _ _ => List.not_mem_nil
  have hunset : ∀ r ∈ RegisteredClaim.all, empty.registered? r = none :=
    fun r _ => by cases r <;> rfl
  obtain ⟨seen, rest, hrest, hregistered⟩ :=
    readMembers_written c (by decide) hunseen hunset (hvalues innerDepth hdepth)
  obtain ⟨custom, hcustom, hmembers⟩ := readMembers_custom
    (c := RegisteredClaim.all.foldl (take · c) empty) c.custom.unregistered hrest
  have hclaims : read (.object members) = .ok c := by
    have hset : Json.Object.insertAll [] c.custom.members = c.custom.members :=
      Json.Object.insertAll_of_nodup c.custom.distinct
    have hsame : custom = c.custom := by
      rw [CustomClaims.mk.injEq]
      exact hmembers.trans hset
    rw [read, hregistered, hcustom, hsame, foldl_take_all]
  exact Json.readAll_of_read hread hclaims

theorem ofBytes_json (hw : ∀ m ∈ c.custom.members, m.2.WellFormed) (hl : c.Legible) :
    ofBytes (Bytes.ofString c.json) = .ok c := by
  rw [ofBytes, parse_json hw hl]
  rfl

/-! ## Claims that can come up -/

/-- The claims that can come up: empty, issued, built or read from a text, with registered claims
changed and custom claims set, again and again. The custom claims that are given are such that a
text can denote them. -/
inductive Reachable : Claims → Prop
  | empty : Reachable .empty
  | issued (now : Int64) (random : Vector UInt8 16) : Reachable (.issued now random)
  | built {b : ClaimsBuilder} {now : Int64} {random : Vector UInt8 16} {c : Claims} :
      (∀ m ∈ b.custom, m.2.WellFormed) → b.build now random = pure c → Reachable c
  | read {text : Bytes} {c : Claims} : parse text = .ok c → Reachable c
  | registered {c c' : Claims} : Reachable c → c'.custom = c.custom → Reachable c'
  | withClaim {c c' : Claims} {name : String} {v : Value} :
      Reachable c → v.WellFormed → c.withClaim name v = .ok c' → Reachable c'

theorem wellFormed_of_withClaim {name : String} (hc : ∀ m ∈ c.custom.members, m.2.WellFormed)
    (hv : v.WellFormed) (h : c.withClaim name v = .ok c') :
    ∀ m ∈ c'.custom.members, m.2.WellFormed := by
  obtain ⟨_, rfl⟩ := withClaim_eq_ok_iff.1 h
  intro m hm
  rcases Json.Object.mem_insert hm with rfl | hm
  · exact hv
  · exact hc m hm

theorem wellFormed_of_addClaims {ms : Json.Object} (hc : ∀ m ∈ c.custom.members, m.2.WellFormed)
    (hms : ∀ m ∈ ms, m.2.WellFormed) (h : ClaimsBuilder.addClaims c ms = .ok c') :
    ∀ m ∈ c'.custom.members, m.2.WellFormed := by
  induction ms generalizing c with
  | nil =>
    cases h
    exact hc
  | cons m ms ih =>
    obtain ⟨name, v⟩ := m
    obtain ⟨hv, hms⟩ := List.forall_mem_cons.1 hms
    obtain ⟨c₁, hset, h⟩ := bind_eq_ok_iff.1 h
    exact ih (wellFormed_of_withClaim hc hv hset) hms h

/-- Reading a registered claim leaves the custom claims alone. -/
theorem custom_of_readRegistered (h : c.readRegistered d r = .ok c') : c'.custom = c.custom := by
  cases r with
  | _ =>
    obtain ⟨a, -, ha⟩ := bind_eq_ok_iff.1 h
    cases ha
    rfl

/-- The custom claims that are read denote what stands in the members, or were there before. -/
theorem wellFormed_of_readMembers : ∀ (members : Members) {c c' : Claims}
    {seen : List RegisteredClaim}, (∀ m ∈ c.custom.members, m.2.WellFormed) →
    c.readMembers seen members = .ok c' → ∀ m ∈ c'.custom.members, m.2.WellFormed
  | .done ending, c, c', seen, hc, h => by
    obtain ⟨_, -, h⟩ := bind_eq_ok_iff.1 h
    cases h
    exact hc
  | .member l d tail, c, c', seen, hc, h => by
    rw [readMembers, bind_eq_ok_iff] at h
    obtain ⟨name, -, h⟩ := h
    split at h
    · split at h
      · cases h
      · obtain ⟨c₁, hregistered, h⟩ := bind_eq_ok_iff.1 h
        refine wellFormed_of_readMembers tail ?_ h
        rw [custom_of_readRegistered hregistered]
        exact hc
    · obtain ⟨v, hv, h⟩ := bind_eq_ok_iff.1 h
      refine wellFormed_of_readMembers tail (fun m hm => ?_) h
      rcases Json.Object.mem_insert hm with rfl | hm
      · exact Json.Document.wellFormed_value d (mapError_eq_ok_iff.1 hv)
      · exact hc m hm

theorem wellFormed_of_read (h : read d = .ok c) : ∀ m ∈ c.custom.members, m.2.WellFormed := by
  unfold read at h
  split at h
  · exact wellFormed_of_readMembers _ (fun _ hm => absurd hm List.not_mem_nil) h
  · unfold Document.refuse at h
    split at h <;> cases h

/-- The custom claims of claims that can come up are such that a text can denote them. -/
theorem Reachable.wellFormed (h : c.Reachable) : ∀ m ∈ c.custom.members, m.2.WellFormed := by
  induction h with
  | empty => exact fun _ hm => absurd hm List.not_mem_nil
  | issued now random => exact fun _ hm => absurd hm List.not_mem_nil
  | built hb h =>
    obtain ⟨subject, exp, -, -, -, hadd⟩ := ClaimsBuilder.build_eq_pure_iff.1 h
    exact wellFormed_of_addClaims (fun _ hm => absurd hm List.not_mem_nil) hb hadd
  | read h => exact wellFormed_of_read (Json.decode_of_readAll h)
  | registered _ hcustom ih =>
    rw [hcustom]
    exact ih
  | withClaim _ hv h ih => exact wellFormed_of_withClaim ih hv h

end Claims

end WebToken
