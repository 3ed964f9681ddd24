import WebToken.Bytes

/-!
# Unpadded base64url

Three bytes are four symbols of the URL alphabet; a tail of one or two bytes is two or three
symbols, the unused low bits zero. Reading is strict: `Base64Url.decode_eq_ok_iff` says that a
text is accepted exactly when it is the encoding of some byte string, so every byte string has
one spelling.

A refused text is refused with the reason that a left-to-right reader with a lookahead of one
group meets first (`Base64Url.diagnose`).
-/

namespace WebToken

namespace Base64Url

/-! ## The alphabet -/

/-- The symbol that stands for a number below 64. -/
def symbol (n : Nat) : UInt8 :=
  if n < 26 then UInt8.ofNat (65 + n)
  else if n < 52 then UInt8.ofNat (71 + n)
  else if n < 62 then UInt8.ofNat (n - 4)
  else if n = 62 then 45
  else 95

/-- The number that a symbol stands for: `A` to `Z`, `a` to `z`, `0` to `9`, `-` and `_`. -/
def digit? (b : UInt8) : Option Nat :=
  let n := b.toNat
  if 65 ≤ n ∧ n ≤ 90 then some (n - 65)
  else if 97 ≤ n ∧ n ≤ 122 then some (n - 71)
  else if 48 ≤ n ∧ n ≤ 57 then some (n + 4)
  else if n = 45 then some 62
  else if n = 95 then some 63
  else none

theorem digit?_symbol {n : Nat} (h : n < 64) : digit? (symbol n) = some n := by
  have table : ∀ n, n < 64 → digit? (symbol n) = some n := by decide
  exact table n h

/-- A symbol stands for the number that it is written for, and for no other. -/
theorem digit?_eq_some {b : UInt8} {n : Nat} (h : digit? b = some n) : n < 64 ∧ symbol n = b := by
  have table : ∀ b : Fin 256, ∀ n ∈ digit? (UInt8.ofNat b),
      n < 64 ∧ symbol n = UInt8.ofNat b := by decide +kernel
  simpa using table b.toFin n (by simpa using h)

/-- Symbols are ASCII. -/
theorem symbol_lt (n : Nat) : (symbol n).toNat < 128 := by
  simp only [symbol]
  repeat' split
  all_goals simp
  all_goals omega

/-! ## Writing -/

/-- The symbols of a byte string. -/
def symbols : Bytes → Bytes
  | a :: b :: c :: rest =>
    let n := a.toNat * 65536 + b.toNat * 256 + c.toNat
    symbol (n / 262144) :: symbol (n / 4096 % 64) :: symbol (n / 64 % 64) :: symbol (n % 64) ::
      symbols rest
  | [a, b] =>
    let n := a.toNat * 1024 + b.toNat * 4
    [symbol (n / 4096), symbol (n / 64 % 64), symbol (n % 64)]
  | [a] =>
    let n := a.toNat * 16
    [symbol (n / 64), symbol (n % 64)]
  | [] => []

/-- The base64url text of a byte string. -/
def encode (bytes : Bytes) : String :=
  String.ofList ((symbols bytes).map fun b => Char.ofNat b.toNat)

/-- Nothing but symbols is written. -/
theorem exists_symbol_of_mem_symbols {bytes : Bytes} {b : UInt8} (h : b ∈ symbols bytes) :
    ∃ n, b = symbol n := by
  fun_induction symbols bytes with
  | case1 a b c rest n ih =>
    simp only [List.mem_cons] at h
    rcases h with rfl | rfl | rfl | rfl | h
    · exact ⟨_, rfl⟩
    · exact ⟨_, rfl⟩
    · exact ⟨_, rfl⟩
    · exact ⟨_, rfl⟩
    · exact ih h
  | case2 a b n =>
    simp only [List.mem_cons, List.not_mem_nil, or_false] at h
    rcases h with rfl | rfl | rfl <;> exact ⟨_, rfl⟩
  | case3 a n =>
    simp only [List.mem_cons, List.not_mem_nil, or_false] at h
    rcases h with rfl | rfl <;> exact ⟨_, rfl⟩
  | case4 => cases h

theorem symbols_lt {bytes : Bytes} {b : UInt8} (h : b ∈ symbols bytes) : b.toNat < 128 := by
  obtain ⟨n, rfl⟩ := exists_symbol_of_mem_symbols h
  exact symbol_lt n

theorem ofString_encode (bytes : Bytes) : Bytes.ofString (encode bytes) = symbols bytes :=
  Bytes.ofString_ofList_ascii fun _ h => symbols_lt h

/-! ## Reading -/

/-- The bytes that a string of symbols spells, if it is the spelling of any. -/
def decode? : Bytes → Option Bytes
  | [] => some []
  | [_] => none
  | [a, b] => do
    let n := (← digit? a) * 64 + (← digit? b)
    if n % 16 = 0 then some [UInt8.ofNat (n / 16)] else none
  | [a, b, c] => do
    let n := (← digit? a) * 4096 + (← digit? b) * 64 + (← digit? c)
    if n % 4 = 0 then some [UInt8.ofNat (n / 1024), UInt8.ofNat (n / 4)] else none
  | a :: b :: c :: d :: rest => do
    let n := (← digit? a) * 262144 + (← digit? b) * 4096 + (← digit? c) * 64 + (← digit? d)
    let bytes ← decode? rest
    some (UInt8.ofNat (n / 65536) :: UInt8.ofNat (n / 256) :: UInt8.ofNat n :: bytes)

/-- Reading undoes writing. -/
theorem decode?_symbols (bytes : Bytes) : decode? (symbols bytes) = some bytes := by
  fun_induction symbols bytes with
  | case1 a b c rest n ih =>
    have ha := a.toNat_lt
    have hb := b.toNat_lt
    have hc := c.toNat_lt
    simp only [decode?, ih, digit?_symbol (show n / 262144 < 64 by omega),
      digit?_symbol (Nat.mod_lt _ (by decide : 0 < 64)), Option.bind_eq_bind, Option.bind_some,
      Option.some.injEq, List.cons.injEq, ← UInt8.toNat_inj, UInt8.toNat_ofNat']
    refine ⟨?_, ?_, ?_, trivial⟩ <;> omega
  | case2 a b n =>
    have ha := a.toNat_lt
    have hb := b.toNat_lt
    simp only [decode?, digit?_symbol (show n / 4096 < 64 by omega),
      digit?_symbol (Nat.mod_lt _ (by decide : 0 < 64)), Option.bind_eq_bind, Option.bind_some]
    rw [if_pos (by omega)]
    simp only [Option.some.injEq, List.cons.injEq, ← UInt8.toNat_inj, UInt8.toNat_ofNat']
    refine ⟨?_, ?_, trivial⟩ <;> omega
  | case3 a n =>
    have ha := a.toNat_lt
    simp only [decode?, digit?_symbol (show n / 64 < 64 by omega),
      digit?_symbol (Nat.mod_lt _ (by decide : 0 < 64)), Option.bind_eq_bind, Option.bind_some]
    rw [if_pos (by omega)]
    simp only [Option.some.injEq, List.cons.injEq, ← UInt8.toNat_inj, UInt8.toNat_ofNat']
    exact ⟨by omega, trivial⟩
  | case4 => rfl

/-- What is read has been written. -/
theorem eq_symbols_of_decode? {text bytes : Bytes} (h : decode? text = some bytes) :
    text = symbols bytes := by
  fun_induction decode? text generalizing bytes with
  | case1 => cases h; rfl
  | case2 => cases h
  | case3 a b =>
    simp only [Option.bind_eq_bind, Option.bind_eq_some_iff] at h
    obtain ⟨x, hx, y, hy, h⟩ := h
    obtain ⟨hx, rfl⟩ := digit?_eq_some hx
    obtain ⟨hy, rfl⟩ := digit?_eq_some hy
    split at h
    · cases h
      simp only [symbols, UInt8.toNat_ofNat', List.cons.injEq]
      exact ⟨congrArg symbol (by omega), congrArg symbol (by omega), trivial⟩
    · cases h
  | case4 a b c =>
    simp only [Option.bind_eq_bind, Option.bind_eq_some_iff] at h
    obtain ⟨x, hx, y, hy, z, hz, h⟩ := h
    obtain ⟨hx, rfl⟩ := digit?_eq_some hx
    obtain ⟨hy, rfl⟩ := digit?_eq_some hy
    obtain ⟨hz, rfl⟩ := digit?_eq_some hz
    split at h
    · cases h
      simp only [symbols, UInt8.toNat_ofNat', List.cons.injEq]
      exact ⟨congrArg symbol (by omega), congrArg symbol (by omega),
        congrArg symbol (by omega), trivial⟩
    · cases h
  | case5 a b c d rest ih =>
    simp only [Option.bind_eq_bind, Option.bind_eq_some_iff] at h
    obtain ⟨x, hx, y, hy, z, hz, w, hw, bytes, hr, h⟩ := h
    obtain ⟨hx, rfl⟩ := digit?_eq_some hx
    obtain ⟨hy, rfl⟩ := digit?_eq_some hy
    obtain ⟨hz, rfl⟩ := digit?_eq_some hz
    obtain ⟨hw, rfl⟩ := digit?_eq_some hw
    cases h
    simp only [symbols, UInt8.toNat_ofNat', List.cons.injEq, ih hr]
    exact ⟨congrArg symbol (by omega), congrArg symbol (by omega), congrArg symbol (by omega),
      congrArg symbol (by omega), trivial⟩

/-! ## Refusals -/

/-- Why a text is not base64url. -/
inductive Fault where
  /-- A byte that is no symbol, or a padding sign out of place. -/
  | symbol (byte : UInt8) (offset : Nat)
  /-- A last group of one symbol. -/
  | length (count : Nat)
  /-- Padding where none is written. -/
  | padding
  /-- A last symbol whose unused bits are not zero. -/
  | lastSymbol (byte : UInt8) (offset : Nat)
  deriving Repr, DecidableEq

/-- The wording of a fault; bytes are given by their number. -/
def Fault.message : Fault → String
  | .symbol b offset => s!"Invalid symbol {b.toNat}, offset {offset}."
  | .length count => s!"Invalid input length: {count}"
  | .padding => "Invalid padding"
  | .lastSymbol b offset => s!"Invalid last symbol {b.toNat}, offset {offset}."

/-- The padding sign, which this form of the encoding does not write. -/
def pad : UInt8 := 61

/-- The first byte that is no symbol, with its offset. -/
def firstBad (offset : Nat) : Bytes → Option Fault
  | [] => none
  | b :: rest => if (digit? b).isNone then some (.symbol b offset) else firstBad (offset + 1) rest

/-- The fault of the last group, which starts at `start`.

`index` counts the bytes read so far and `padded` is the place of the first padding sign among
them. A padding sign may only follow two symbols, and no symbol may follow a padding sign. -/
def tailFault (start index : Nat) (padded : Option Nat) : Bytes → Option Fault
  | [] => none
  | b :: rest =>
    if b = pad then
      if index < 2 then some (.symbol pad (start + index))
      else tailFault start (index + 1) (padded <|> some index) rest
    else
      match padded with
      | some first => some (.symbol pad (start + first))
      | none =>
        if (digit? b).isNone then some (.symbol b (start + index))
        else tailFault start (index + 1) none rest

/-- The reason to refuse a text that `decode?` refuses. -/
def diagnose (text : Bytes) : Fault :=
  let excess := text.length % 4
  let start := text.length - (if excess = 0 then min 4 text.length else excess)
  let tail := text.drop start
  let count := (tail.filter (· ≠ pad)).length
  let last := tail.getLastD 0
  if excess = 1 ∧ last ≠ pad ∧ (digit? last).isNone then .symbol last (text.length - 1)
  else
    match firstBad 0 (text.take start) with
    | some fault => fault
    | none =>
      match tailFault start 0 none tail with
      | some fault => fault
      | none =>
        if count < 2 then .length (start + count)
        else if pad ∈ tail then .padding
        else .lastSymbol last (start + count - 1)

/-- The bytes that a text spells in base64url. -/
def decode (text : String) : Except Fault Bytes :=
  match decode? (Bytes.ofString text) with
  | some bytes => .ok bytes
  | none => .error (diagnose (Bytes.ofString text))

/-- A text is accepted exactly when it is the encoding of the bytes that are read from it. -/
theorem decode_eq_ok_iff {text : String} {bytes : Bytes} :
    decode text = .ok bytes ↔ text = encode bytes := by
  rw [← Bytes.ofString_inj, ofString_encode, decode]
  constructor
  · intro h
    split at h
    · cases h
      exact eq_symbols_of_decode? (by assumption)
    · cases h
  · intro h
    rw [h, decode?_symbols]

/-- Different byte strings have different encodings. -/
theorem encode_inj {a b : Bytes} : encode a = encode b ↔ a = b := by
  constructor
  · intro h
    have ha := decode_eq_ok_iff.2 h
    rw [decode_eq_ok_iff.2 rfl] at ha
    exact Except.ok.inj ha
  · exact congrArg encode

end Base64Url

end WebToken
