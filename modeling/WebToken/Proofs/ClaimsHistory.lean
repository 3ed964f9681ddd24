import WebToken.Proofs.BuiltClaims
import WebToken.Proofs.ClaimsText
import WebToken.Proofs.Json.FiniteDoubles
import WebToken.Proofs.Json.TypedReading

/-!
# What claims have been given

Claims begin empty, when they are issued, from a builder or from a text, and are changed any number
of times after that. Whatever happens to them, the custom claims are those that were given on the
way: each name stands where it was given first, with the value that it was given last. A registered
name is never among them. A change that would put it there is refused and leaves the claims as they
were, a builder with one gives no claims, and in a text it stands for the claim itself. So the
object of claims has each name once. A lifetime that does not end at a time has no outcome, and no
claims come out of it.

* `Json.Object.insertAll_eq_settled` : members that are set one after the other;
* `Claims.object_of_ofBytes` : how a text divides into registered and custom claims;
* `Claims.custom_attempt` and `Claims.custom_foldlM_attempt` : one change, and a run of them;
* `Claims.History.lists` : what claims hold after any history.
-/

namespace WebToken

/-! ## Members that are set one after the other -/

namespace Json.Object

/-- The value that was given last under a name. -/
def last? (given : Object) (name : String) : Option Value := get? given.reverse name

/-- The members that are left when some are given one after the other: in the order in which their
names were first given, each with the value that was given last. -/
def settled (given : Object) : Object :=
  given.names.eraseDups.filterMap fun name => (given.last? name).map fun v => (name, v)

variable {o given : Object}

/-- Members of distinct names are found under their names, in order. -/
theorem filterMap_get?_names (h : o.names.Nodup) :
    o.names.filterMap (fun name => (o.get? name).map fun v => (name, v)) = o := by
  have hfound : ∀ m ∈ o, ((o.get? m.1).map fun v => (m.1, v)) = some m := by
    intro m hm
    rw [get?_of_mem h hm]
    rfl
  rw [names, List.filterMap_map]
  calc o.filterMap (fun m => (o.get? m.1).map fun v => (m.1, v))
      = o.filterMap some := List.filterMap_congr hfound
    _ = o := List.filterMap_some

theorem insertAll_append (o ms ns : Object) :
    o.insertAll (ms ++ ns) = (o.insertAll ms).insertAll ns := List.foldl_append

/-- Each name stays where it was given first. -/
theorem names_insertAll_nil (given : Object) :
    (insertAll [] given).names = given.names.eraseDups := by
  -- on the members given so far, to which one more is given
  induction given using List.reverseRecOn with
  | nil => simp [insertAll, names]
  | append_singleton given m ih =>
    obtain ⟨name, v⟩ := m
    have hset : insertAll [] (given ++ [(name, v)]) = (insertAll [] given).insert name v :=
      insertAll_append [] given [(name, v)]
    have hnames : names (given ++ [(name, v)]) = names given ++ [name] := List.map_append
    rw [hset, hnames, List.eraseDups_append, ← ih]
    by_cases hmem : name ∈ names given
    · have hthere : name ∈ (insertAll [] given).names := by
        rw [ih, List.mem_eraseDups]
        exact hmem
      rw [names_insert_of_mem v hthere]
      simp [List.removeAll, hmem]
    · have hnew : name ∉ (insertAll [] given).names := by
        rw [ih, List.mem_eraseDups]
        exact hmem
      rw [insert_of_notMem v hnew, List.removeAll, List.filter_cons_of_pos (by simpa using hmem)]
      exact List.map_append

theorem get?_insertAll_nil (given : Object) (name : String) :
    (insertAll [] given).get? name = given.last? name := by
  rw [get?_insertAll]
  exact Option.or_none

theorem nodup_names_insertAll_nil (given : Object) : (insertAll [] given).names.Nodup :=
  (insertAll_invariant (p := fun _ => True) given (o := [])
    ⟨List.nodup_nil, fun _ _ => trivial⟩ fun _ _ => trivial).1

/-- Members that are set one after the other settle in the order of their first names, with their
last values. -/
theorem insertAll_eq_settled (given : Object) : insertAll [] given = given.settled := by
  have hfound := filterMap_get?_names (nodup_names_insertAll_nil given)
  simp only [get?_insertAll_nil, names_insertAll_nil] at hfound
  exact hfound.symm

/-- What has settled stays as it is when it is given again. -/
theorem insertAll_settled (given : Object) : insertAll [] given.settled = given.settled := by
  rw [← insertAll_eq_settled]
  exact insertAll_of_nodup (nodup_names_insertAll_nil given)

end Json.Object

open Json (Document Members Value)

namespace ClaimsBuilder

/-! ## Builders -/

/-- A builder with custom claims set one after the other, in place of those that it had. -/
def withClaims (b : ClaimsBuilder) (members : Json.Object) : ClaimsBuilder :=
  members.foldl (fun b m => b.withClaim m.1 m.2) { b with custom := [] }

theorem custom_foldl_withClaim (b : ClaimsBuilder) (members : Json.Object) :
    (members.foldl (fun b m => b.withClaim m.1 m.2) b).custom = b.custom.insertAll members := by
  induction members generalizing b with
  | nil => rfl
  | cons m members ih => exact ih (b.withClaim m.1 m.2)

theorem custom_withClaims (b : ClaimsBuilder) (members : Json.Object) :
    (b.withClaims members).custom = members.settled :=
  (custom_foldl_withClaim _ members).trans (Json.Object.insertAll_eq_settled members)

/-- Custom claims that are added are set one after the other. -/
theorem custom_addClaims {c d : Claims} {members : Json.Object}
    (h : addClaims c members = .ok d) : d.custom.members = c.custom.members.insertAll members := by
  induction members generalizing c with
  | nil =>
    cases h
    rfl
  | cons m members ih =>
    obtain ⟨c', hc', hd⟩ := bind_eq_ok_iff.1 h
    obtain ⟨_, rfl⟩ := Claims.withClaim_eq_ok_iff.1 hc'
    exact ih hd

end ClaimsBuilder

namespace RegisteredClaim

theorem name_mem_names (r : RegisteredClaim) : r.name ∈ names := by
  cases r <;> decide

theorem name_injective : Function.Injective name := by
  intro r r' h
  exact Option.some.inj ((ofName?_name r).symm.trans (h ▸ ofName?_name r'))

end RegisteredClaim

namespace Claims

/-! ## Texts -/

section Texts

variable {c c' : Claims} {d : Document} {r : RegisteredClaim}

/-- The members whose names are not registered. -/
def unregistered (ms : Json.Object) : Json.Object :=
  ms.filter fun m => m.1 ∉ RegisteredClaim.names

/-- What is read where null may stand has a value, if it has one where null may not stand. -/
theorem exists_value_of_optional {α : Type} {read : Document → Except Json.ReadError α}
    {depth : Nat} {a : Option α} (hread : ∀ a, read d = .ok a → ∃ v, d.value depth = .ok v)
    (h : d.optional read = .ok a) : ∃ v, d.value depth = .ok v := by
  cases d with
  | null => exact ⟨.null, by rw [Document.value]⟩
  | brokenNull fault => cases h
  | _ =>
    obtain ⟨a', ha', -⟩ := map_eq_ok_iff.1 h
    exact hread a' ha'

theorem exists_value_of_asText {depth : Nat} (s : String) (h : d.asText = .ok s) :
    ∃ v, d.value depth = .ok v := by
  obtain ⟨l, hl, htext⟩ := Json.Document.asText_eq_ok_iff.1 h
  exact ⟨.string s, Document.value_eq_string_iff.2 ⟨l, hl, htext⟩⟩

theorem exists_value_of_asInt64 {depth : Nat} (t : Int64) (h : d.asInt64 = .ok t) :
    ∃ v, d.value depth = .ok v := by
  unfold Document.asInt64 at h
  split at h
  · next x =>
    cases hx : x.value with
    | ok v => exact ⟨v, by rw [Document.value, hx]⟩
    | error fault =>
      rw [hx] at h
      cases h
  · exact absurd h (Json.Document.refuse_ne_ok _ _ _)

theorem exists_value_of_readAudience (a : Audience) (h : readAudience d = .ok a) :
    ∃ v, d.value innerDepth = .ok v := by
  obtain ⟨v, hv, -⟩ := bind_eq_ok_iff.1 h
  exact ⟨v, Json.orFault_eq_ok_iff.1 hv⟩

/-- What is read as a registered claim has a value. -/
theorem exists_value_of_readRegistered (h : c.readRegistered d r = .ok c') :
    ∃ v, d.value innerDepth = .ok v := by
  cases r with
  | iss | sub | jti =>
    obtain ⟨a, ha, -⟩ := bind_eq_ok_iff.1 h
    exact exists_value_of_optional exists_value_of_asText ha
  | aud =>
    obtain ⟨a, ha, -⟩ := bind_eq_ok_iff.1 h
    exact exists_value_of_optional exists_value_of_readAudience ha
  | exp | nbf | iat =>
    obtain ⟨a, ha, -⟩ := bind_eq_ok_iff.1 h
    exact exists_value_of_optional exists_value_of_asInt64 ha

/-- What the reading of a member comes to. It has a name and a value, and it either sets a
registered claim, which was not read before, or a custom one. -/
theorem member_of_readMembers {l : Json.Literal} {tail : Members} {seen : List RegisteredClaim}
    (h : c.readMembers seen (.member l d tail) = .ok c') :
    ∃ name v, l.text = .ok name ∧ d.value innerDepth = .ok v ∧
      ((∃ (r : RegisteredClaim) (c₁ : Claims), r.name = name ∧ r ∉ seen ∧ c₁.custom = c.custom ∧
          c₁.readMembers (r :: seen) tail = .ok c') ∨
        ∃ hname : name ∉ RegisteredClaim.names,
          { c with custom := c.custom.insert name v hname }.readMembers seen tail = .ok c') := by
  rw [readMembers, bind_eq_ok_iff] at h
  obtain ⟨name, hname, h⟩ := h
  rw [Json.orFault_eq_ok_iff] at hname
  split at h
  · next r hr =>
    have hrname := List.find?_some hr
    rw [beq_iff_eq] at hrname
    split at h
    · cases h
    · next hseen =>
      obtain ⟨c₁, hread, h⟩ := bind_eq_ok_iff.1 h
      obtain ⟨v, hv⟩ := exists_value_of_readRegistered hread
      exact ⟨name, v, hname, hv, .inl ⟨r, c₁, hrname, hseen, custom_of_readRegistered hread, h⟩⟩
  · next hnone =>
    obtain ⟨v, hv, h⟩ := bind_eq_ok_iff.1 h
    exact ⟨name, v, hname, Json.orFault_eq_ok_iff.1 hv,
      .inr ⟨RegisteredClaim.notMem_names_of_ofName? hnone, h⟩⟩

/-- Members that are read as claims all have values, and those without a registered name are set as
custom claims one after the other. -/
theorem values_of_readMembers : ∀ (members : Members) {c c' : Claims} {seen : List RegisteredClaim},
    c.readMembers seen members = .ok c' → ∃ ms, members.values innerDepth = .ok ms ∧
      c'.custom.members = c.custom.members.insertAll (unregistered ms)
  | .done ending, c, c', seen, h => by
    obtain ⟨_, hend, h⟩ := bind_eq_ok_iff.1 h
    cases h
    refine ⟨[], ?_, rfl⟩
    rw [Members.values, Json.orFault_eq_ok_iff.1 hend]
    rfl
  | .member l d tail, c, c', seen, h => by
    obtain ⟨name, v, hname, hv, hcases⟩ := member_of_readMembers h
    have hvalues : ∀ {ms}, tail.values innerDepth = .ok ms →
        (Members.member l d tail).values innerDepth = .ok ((name, v) :: ms) := by
      intro ms hms
      rw [Members.values, hname, hv, hms]
      rfl
    rcases hcases with ⟨r, c₁, rfl, -, hkept, htail⟩ | ⟨hcustom, htail⟩
    · obtain ⟨ms, hms, hset⟩ := values_of_readMembers tail htail
      refine ⟨_, hvalues hms, ?_⟩
      rw [hset, hkept, unregistered, unregistered, List.filter_cons_of_neg]
      simpa using r.name_mem_names
    · obtain ⟨ms, hms, hset⟩ := values_of_readMembers tail htail
      refine ⟨_, hvalues hms, ?_⟩
      rw [hset, unregistered, unregistered, List.filter_cons_of_pos (by simpa using hcustom)]
      rfl

/-- Members that are read as claims have each registered name once at most, and none that was seen
before. -/
theorem registered_once_of_readMembers : ∀ (members : Members) {c c' : Claims}
    {seen : List RegisteredClaim} {ms : Json.Object}, c.readMembers seen members = .ok c' →
    members.values innerDepth = .ok ms →
      (ms.names.filter (· ∈ RegisteredClaim.names)).Nodup ∧ ∀ r ∈ seen, r.name ∉ ms.names
  | .done ending, c, c', seen, ms, _, hms => by
    obtain ⟨_, -, hms⟩ := bind_eq_ok_iff.1 hms
    cases hms
    exact ⟨List.nodup_nil, fun _ _ => List.not_mem_nil⟩
  | .member l d tail, c, c', seen, ms, h, hms => by
    obtain ⟨name, v, hname, hv, hcases⟩ := member_of_readMembers h
    simp only [Members.values, bind_eq_ok_iff] at hms
    obtain ⟨name', hname', v', -, rest, hrest, hms⟩ := hms
    cases hms
    cases hname.symm.trans hname'
    rw [Json.Object.names, List.map_cons, ← Json.Object.names]
    rcases hcases with ⟨r, c₁, rfl, hseen, -, htail⟩ | ⟨hcustom, htail⟩
    · obtain ⟨hnodup, hunseen⟩ := registered_once_of_readMembers tail htail hrest
      obtain ⟨hfirst, hunseen⟩ := List.forall_mem_cons.1 hunseen
      rw [List.filter_cons_of_pos (by simpa using r.name_mem_names), List.nodup_cons]
      refine ⟨⟨fun hmem => hfirst (List.mem_of_mem_filter hmem), hnodup⟩, fun r' hr' hmem => ?_⟩
      rcases List.mem_cons.1 hmem with heq | hmem
      · exact hseen (RegisteredClaim.name_injective heq ▸ hr')
      · exact hunseen r' hr' hmem
    · obtain ⟨hnodup, hunseen⟩ := registered_once_of_readMembers tail htail hrest
      rw [List.filter_cons_of_neg (by simpa using hcustom)]
      refine ⟨hnodup, fun r' hr' hmem => ?_⟩
      rcases List.mem_cons.1 hmem with rfl | hmem
      · exact hcustom r'.name_mem_names
      · exact hunseen r' hr' hmem

/-- A text that is read as claims is an object. Its members without a registered name are the custom
claims, and no registered name stands there twice. -/
theorem object_of_ofBytes {text : Bytes} (h : ofBytes text = .ok c) :
    ∃ members, ∃ ms : Json.Object, (Document.object members).IsText text ∧
      members.values innerDepth = .ok ms ∧ c.custom.members = (unregistered ms).settled ∧
      (ms.names.filter (· ∈ RegisteredClaim.names)).Nodup := by
  have hobject : ∀ {d c}, read d = .ok c → ∃ members, d = .object members ∧
      empty.readMembers [] members = .ok c := by
    intro d c h
    unfold read at h
    split at h
    · exact ⟨_, rfl, h⟩
    · exact absurd h (Json.Document.refuse_ne_ok _ _ _)
  have hskips : ∀ d c, read d = .ok c → d.skip = .ok () := by
    intro d c h
    obtain ⟨members, rfl, hread⟩ := hobject h
    obtain ⟨ms, hms, -⟩ := values_of_readMembers members hread
    exact Members.skip_of_values members hms
  have hparse : parse text = .ok c := mapError_eq_ok_iff.1 h
  obtain ⟨d, hd, hread⟩ := (Json.readAll_eq_ok_iff hskips).1 hparse
  obtain ⟨members, rfl, hread⟩ := hobject hread
  obtain ⟨ms, hms, hset⟩ := values_of_readMembers members hread
  refine ⟨members, ms, hd, hms, ?_, (registered_once_of_readMembers members hread hms).1⟩
  rw [hset, ← Json.Object.insertAll_eq_settled]
  rfl

/-- The members that stand in the text of an object, with all repetitions. -/
def membersOf (text : Bytes) : Json.Object :=
  match (Document.read text).1 with
  | .object members => (members.values innerDepth).toOption.getD []
  | _ => []

theorem membersOf_of_isText {text : Bytes} {members : Members} {ms : Json.Object}
    (hmembers : (Document.object members).IsText text)
    (hms : members.values innerDepth = .ok ms) : membersOf text = ms := by
  obtain ⟨left, hread, -⟩ := hmembers
  rw [membersOf, hread]
  dsimp only
  rw [hms]
  rfl

end Texts

/-! ## Histories -/

/-- How claims begin: empty, issued, built from a builder with custom claims, or read. -/
inductive Origin where
  | empty
  | issued (now : Int64) (random : Vector UInt8 16)
  | built (b : ClaimsBuilder) (members : Json.Object) (now : Int64) (random : Vector UInt8 16)
  | read (text : Bytes)

/-- The claims at the beginning, if there are any. -/
def Origin.claims : Origin → Ranged Claims
  | empty => pure .empty
  | issued now random => pure (.issued now random)
  | built b members now random => (b.withClaims members).build now random
  | read text => .within (ofBytes text)

/-- The custom claims that are given at the beginning. -/
def Origin.given : Origin → Json.Object
  | built _ members _ _ => members
  | read text => unregistered (membersOf text)
  | _ => []

/-- A change of claims. -/
inductive Change where
  | issuer (name : String)
  | subject (name : String)
  | audience (audience : Audience)
  | expiration (time : Int64)
  | lifetime (seconds now : Int64)
  | notBefore (time : Int64)
  | issuedAt (time : Int64)
  | jwtId (id : String)
  | claim (name : String) (v : Value)

/-- The claims with a change. -/
def change (c : Claims) : Change → Ranged Claims
  | .issuer name => pure (c.withIssuer name)
  | .subject name => pure (c.withSubject name)
  | .audience audience => pure (c.withAudience audience)
  | .expiration time => pure (c.withExpiration time)
  | .lifetime seconds now => c.withLifetime seconds now
  | .notBefore time => pure (c.withNotBefore time)
  | .issuedAt time => pure (c.withIssuedAt time)
  | .jwtId id => pure (c.withJwtId id)
  | .claim name v => .within (c.withClaim name v)

/-- The claims after a change, or as they were if the change is refused. -/
def attempt (c : Claims) (x : Change) : Ranged Claims := do
  match ← Ranged.outcome (c.change x) with
  | .ok c' => return c'
  | .error _ => return c

/-- The custom claim that a change gives, unless it is refused. -/
def Change.given : Change → Json.Object
  | claim name v => unregistered [(name, v)]
  | _ => []

/-- What happens to claims: how they begin, and how they are changed after that. -/
structure History where
  origin : Origin
  changes : List Change

namespace History

/-- The claims after all that happened to them, if there are any. -/
def claims (h : History) : Ranged Claims := do
  h.changes.foldlM attempt (← h.origin.claims)

/-- The custom claims that were given, one after the other. -/
def given (h : History) : Json.Object := h.origin.given ++ h.changes.flatMap Change.given

/-- Whether the values of custom claims that did not come from a text can be printed. -/
structure Printable (h : History) : Prop where
  built : ∀ b members now random, h.origin = .built b members now random →
    ∀ m ∈ members, m.2.Printable
  changes : ∀ name v, .claim name v ∈ h.changes → v.Printable

end History

section Histories

variable {c c' : Claims} {origin : Origin}

/-! ### One step -/

/-- The custom claims at the beginning are those that are given, one after the other. -/
theorem custom_of_origin (hc : origin.claims = pure c) :
    c.custom.members = Json.Object.insertAll [] origin.given := by
  cases origin with
  | empty | issued =>
    cases hc
    rfl
  | built b members now random =>
    obtain ⟨subject, exp, -, -, -, hadd⟩ := ClaimsBuilder.build_eq_pure_iff.1 hc
    rw [ClaimsBuilder.custom_addClaims hadd, ClaimsBuilder.custom_withClaims]
    exact (Json.Object.insertAll_settled members).trans
      (Json.Object.insertAll_eq_settled members).symm
  | read text =>
    obtain ⟨members, ms, htext, hms, hcustom, -⟩ :=
      object_of_ofBytes (Ranged.within_eq_pure_iff.1 hc)
    rw [hcustom, Origin.given, membersOf_of_isText htext hms, Json.Object.insertAll_eq_settled]

/-- A change is made, or it is refused and leaves the claims as they were. -/
theorem attempt_eq_pure_iff {x : Change} :
    c.attempt x = pure c' ↔ c.change x = pure c' ∨ c' = c ∧ ∃ e, c.change x = throw e := by
  unfold attempt
  rcases Ranged.cases_of (c.change x) with hx | ⟨e, hx⟩ | ⟨c₁, hx⟩
  · rw [hx]
    exact ⟨nofun, by rintro (h | ⟨-, e, h⟩) <;> cases h⟩
  · rw [hx]
    constructor
    · intro h
      cases h
      exact .inr ⟨rfl, e, rfl⟩
    · rintro (h | ⟨rfl, -⟩)
      · cases h
      · rfl
  · rw [hx]
    constructor
    · intro h
      cases h
      exact .inl rfl
    · rintro (h | ⟨-, e, h⟩)
      · cases h
        rfl
      · cases h

/-- A custom claim is refused for its name. -/
theorem mem_names_of_withClaim {name : String} {v : Value} {e : Error}
    (h : c.withClaim name v = .error e) : name ∈ RegisteredClaim.names := by
  by_contra hname
  rw [withClaim, dif_neg hname] at h
  cases h

/-- A change sets the custom claim that it gives, and no other. -/
theorem custom_attempt {x : Change} (h : c.attempt x = pure c') :
    c'.custom.members = c.custom.members.insertAll x.given := by
  rcases attempt_eq_pure_iff.1 h with hset | ⟨rfl, e, hrefused⟩
  · cases x with
    | claim name v =>
      obtain ⟨hname, rfl⟩ := withClaim_eq_ok_iff.1 (Ranged.within_eq_pure_iff.1 hset)
      have hgiven : (Change.claim name v).given = [(name, v)] := by
        simp [Change.given, Claims.unregistered, hname]
      rw [hgiven]
      rfl
    | lifetime seconds now =>
      obtain ⟨exp, -, rfl⟩ := withLifetime_eq_pure_iff.1 hset
      rfl
    | _ =>
      cases hset
      rfl
  · cases x with
    | claim name v =>
      have hname := mem_names_of_withClaim (Ranged.within_eq_throw_iff.1 hrefused)
      have hgiven : (Change.claim name v).given = [] := by
        simp [Change.given, Claims.unregistered, hname]
      rw [hgiven]
      rfl
    | _ => rfl

/-! ### All steps -/

/-- Changes set the custom claims that they give, one after the other. -/
theorem custom_foldlM_attempt {changes : List Change} (h : changes.foldlM attempt c = pure c') :
    c'.custom.members = c.custom.members.insertAll (changes.flatMap Change.given) := by
  induction changes generalizing c with
  | nil =>
    cases h
    rfl
  | cons x changes ih =>
    rw [List.foldlM_cons, Ranged.bind_eq_pure_iff] at h
    obtain ⟨c₁, hfirst, hrest⟩ := h
    rw [ih hrest, custom_attempt hfirst, List.flatMap_cons, Json.Object.insertAll_append]

/-- The custom claims are those that were given, settled. -/
theorem History.custom_of_claims {h : History} (hc : h.claims = pure c) :
    c.custom.members = h.given.settled := by
  obtain ⟨c₀, hc₀, hchanges⟩ := Ranged.bind_eq_pure_iff.1 hc
  rw [custom_foldlM_attempt hchanges, custom_of_origin hc₀, ← Json.Object.insertAll_append,
    ← Json.Object.insertAll_eq_settled]
  rfl

theorem printable_of_origin (hc : origin.claims = pure c)
    (hbuilt : ∀ b members now random, origin = .built b members now random →
      ∀ m ∈ members, m.2.Printable) : ∀ m ∈ origin.given, m.2.Printable := by
  intro m hm
  cases origin with
  | empty | issued => cases hm
  | built b members now random => exact hbuilt b members now random rfl m hm
  | read text =>
    obtain ⟨members, ms, htext, hms, -⟩ := object_of_ofBytes (Ranged.within_eq_pure_iff.1 hc)
    rw [Origin.given, membersOf_of_isText htext hms] at hm
    exact Members.printable_values hms m (List.mem_of_mem_filter hm)

/-- The values of custom claims that were given can be printed if those that did not come from a
text can. -/
theorem History.printable_given {h : History} (hc : h.claims = pure c) (hprintable : h.Printable) :
    ∀ m ∈ h.given, m.2.Printable := by
  obtain ⟨c₀, hc₀, -⟩ := Ranged.bind_eq_pure_iff.1 hc
  intro m hm
  rcases List.mem_append.1 hm with hm | hm
  · exact printable_of_origin hc₀ hprintable.built m hm
  · obtain ⟨x, hx, hm⟩ := List.mem_flatMap.1 hm
    cases x with
    | claim name v =>
      rw [Change.given, unregistered] at hm
      rw [List.mem_singleton.1 (List.mem_of_mem_filter hm)]
      exact hprintable.changes name v hx
    | _ => cases hm

/-! ### What claims hold -/

/-- What claims hold that were given some custom claims. -/
structure Lists (c : Claims) (given : Json.Object) : Prop where
  /-- No custom claim has a registered name. -/
  unregistered : ∀ name ∈ c.custom.members.names, name ∉ RegisteredClaim.names
  /-- The registered claims come first, and then each custom one where it was given first, with the
  value that was given last. -/
  object : c.toObject = c.registeredMembers ++ given.settled
  names : c.toObject.names =
    (RegisteredClaim.all.filter fun r => (c.registered? r).isSome).map RegisteredClaim.name ++
      given.names.eraseDups
  distinct : c.toObject.names.Nodup
  /-- What is found under a name is the last that was given. -/
  last : ∀ name, c.claim? name = given.last? name

/-- Whether the text of claims is an object with the names of the object of claims, each once. -/
def IsWritten (c : Claims) : Prop :=
  ∃ members, (Document.object members).IsText (Bytes.ofString c.json) ∧
    members.names = c.toObject.names.map .ok ∧ members.names.Nodup ∧
    members.values (Value.depthMembers c.toObject) = .ok c.toObject.reread

theorem lists_of_custom {given : Json.Object} (hcustom : c.custom.members = given.settled) :
    c.Lists given where
  unregistered := c.custom.unregistered
  object := by rw [toObject, hcustom]
  names := by
    rw [toObject, hcustom, ← Json.Object.insertAll_eq_settled, Json.Object.names, List.map_append]
    exact congrArg₂ _ c.names_registeredMembers (Json.Object.names_insertAll_nil given)
  distinct := c.nodup_names_toObject
  last := fun name => by
    rw [claim?, hcustom, ← Json.Object.insertAll_eq_settled, Json.Object.get?_insertAll_nil]

/-- Claims whose custom values can be printed are written as an object. -/
theorem isWritten_of_printable (hc : ∀ m ∈ c.custom.members, m.2.Printable) : c.IsWritten := by
  have hvalues : ∀ m ∈ c.toObject, m.2.Printable := forall_mem_toObject
    (fun _ _ hr => ⟨(registered?_spec hr).1, (registered?_spec hr).2.1.finiteDoubles⟩) hc
  have hobject := Value.printable_object c.nodup_names_toObject hvalues
  obtain ⟨members, hread, hmembers⟩ :=
    Document.read_encode_object_reread hobject.wellFormed hobject.finiteDoubles
  have hdepth := hmembers _ (le_refl _)
  have hnames : members.names = c.toObject.names.map .ok := by
    rw [Members.names_of_values hdepth, ← Json.Object.names_reread, Json.Object.names, List.map_map]
    rfl
  refine ⟨members, ⟨[], hread, rfl⟩, hnames, ?_, hdepth⟩
  rw [hnames]
  exact c.nodup_names_toObject.map fun _ _ h => Except.ok.inj h

/-- What claims hold after any history: they begin empty, issued, built or read, and are then
changed any number of times, and changes may be refused. The text of the claims is an object with
distinct names as well, and a text from which they began is an object with each registered name once
at most. -/
theorem History.lists (h : History) {c : Claims} (hc : h.claims = pure c) :
    c.Lists h.given ∧ (h.Printable → c.IsWritten) ∧
      ∀ text, h.origin = .read text → ∃ members, (Document.object members).IsText text ∧
        members.values innerDepth = .ok (membersOf text) ∧
        ((membersOf text).names.filter (· ∈ RegisteredClaim.names)).Nodup := by
  have hcustom := custom_of_claims hc
  refine ⟨lists_of_custom hcustom, fun hprintable => ?_, fun text horigin => ?_⟩
  · refine isWritten_of_printable ?_
    rw [hcustom, ← Json.Object.insertAll_eq_settled]
    exact (Json.Object.insertAll_invariant h.given (o := []) ⟨List.nodup_nil, nofun⟩
      (printable_given hc hprintable)).2
  · obtain ⟨c₀, hc₀, -⟩ := Ranged.bind_eq_pure_iff.1 hc
    rw [horigin] at hc₀
    obtain ⟨members, ms, htext, hms, -, honce⟩ :=
      object_of_ofBytes (Ranged.within_eq_pure_iff.1 hc₀)
    rw [membersOf_of_isText htext hms]
    exact ⟨members, htext, hms, honce⟩

/-- Claims from a text in which a custom name stands twice. One custom claim is added to them, one
is refused, and the one of the text is set anew. -/
def History.ofRepeatedName : History where
  origin := .read (Bytes.ofString "\x7b\"n\":1,\"exp\":5,\"n\":null\x7d")
  changes := [.claim "a" (.bool true), .claim "exp" (.integer 0), .claim "n" (.string "x")]

/-- The name that was given first stands first, with the value that it was given last. -/
theorem History.lists_ofRepeatedName :
    ∃ c, ofRepeatedName.claims = pure c ∧ c.toObject.names = ["exp", "n", "a"] ∧
      c.claim? "n" = some (.string "x") ∧ c.claim? "exp" = none ∧ c.IsWritten := by
  obtain ⟨c, hc, hexp⟩ : ∃ c, ofRepeatedName.claims = pure c ∧
      (RegisteredClaim.all.filter fun r => (c.registered? r).isSome) = [.exp] := ⟨_, rfl, rfl⟩
  obtain ⟨hlists, hwritten, -⟩ := History.lists ofRepeatedName hc
  have hgiven : ofRepeatedName.given =
      [("n", .integer 1), ("n", .null), ("a", .bool true), ("n", .string "x")] := rfl
  refine ⟨c, hc, ?_, ?_, ?_, hwritten ⟨nofun, fun name v hv => ?_⟩⟩
  · rw [hlists.names, hexp, hgiven]
    rfl
  · rw [hlists.last, hgiven]
    rfl
  · rw [hlists.last, hgiven]
    rfl
  · simp only [ofRepeatedName, List.mem_cons, Change.claim.injEq, List.not_mem_nil, or_false] at hv
    rcases hv with ⟨-, rfl⟩ | ⟨-, rfl⟩ | ⟨-, rfl⟩
    · exact ⟨trivial, nofun⟩
    · exact ⟨Value.wellFormed_integer.2 (by decide), nofun⟩
    · exact ⟨trivial, nofun⟩

end Histories

end Claims

end WebToken
