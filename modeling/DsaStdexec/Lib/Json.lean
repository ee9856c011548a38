import Mathlib.Data.List.TakeDrop

/-!
# JSON

JSON values, and a decoder for the texts of RFC 8259. The decoder is total: its fuel is the length of
the text, and every value, item and member takes at least one character.

The RFC leaves open what an escaped surrogate without its other half stands for; the decoder does not
accept it.
-/

namespace DsaStdexec.Lib

/-- A JSON value. `N` is what a decoder makes of a number. -/
inductive Json (N : Type) where
  | null
  | bool (b : Bool)
  | number (n : N)
  | string (s : String)
  | array (items : List (Json N))
  | object (members : List (String × Json N))

namespace Json

/-- A number as it is written: `mantissa * 10 ^ exponent`. -/
structure Decimal where
  mantissa : Int
  exponent : Int
  deriving DecidableEq, Repr

/-! ## White space and numbers -/

def isWs (c : Char) : Bool := c == ' ' || c == '\t' || c == '\n' || c == '\r'

def skipWs (cs : List Char) : List Char := cs.dropWhile isWs

/-- `1*DIGIT` -/
def readDigits (cs : List Char) : Option (List Char × List Char) :=
  match cs.span Char.isDigit with
  | ([], _) => none
  | (digits, rest) => some (digits, rest)

/-- `zero / ( digit1-9 *DIGIT )` -/
def readInt : List Char → Option (List Char × List Char)
  | '0' :: rest => some (['0'], rest)
  | cs => readDigits cs

def readFraction : List Char → Option (List Char × List Char)
  | '.' :: rest => readDigits rest
  | cs => some ([], cs)

def readExponent : List Char → Option (Int × List Char)
  | [] => some (0, [])
  | e :: rest =>
      if e = 'e' ∨ e = 'E' then
        match rest with
        | '-' :: rest => (readDigits rest).map fun (ds, rest) => (-(Nat.ofDigitChars 10 ds 0 : Int), rest)
        | '+' :: rest => (readDigits rest).map fun (ds, rest) => ((Nat.ofDigitChars 10 ds 0 : Int), rest)
        | rest => (readDigits rest).map fun (ds, rest) => ((Nat.ofDigitChars 10 ds 0 : Int), rest)
      else some (0, e :: rest)

def readUnsigned (cs : List Char) : Option (Decimal × List Char) :=
  (readInt cs).bind fun (int, cs) =>
    (readFraction cs).bind fun (frac, cs) =>
      (readExponent cs).map fun (exponent, cs) =>
        (⟨(Nat.ofDigitChars 10 (int ++ frac) 0 : Int), exponent - frac.length⟩, cs)

def readNumber : List Char → Option (Decimal × List Char)
  | '-' :: rest => (readUnsigned rest).map fun (d, rest) => (⟨-d.mantissa, d.exponent⟩, rest)
  | cs => readUnsigned cs

/-! ## Strings -/

/-- `%x20-21 / %x23-5B / %x5D-10FFFF` -/
def unescaped (c : Char) : Bool := decide (0x20 ≤ c.toNat) && c != '"' && c != '\\'

def simpleEscape : Char → Option Char
  | '"' => some '"'
  | '\\' => some '\\'
  | '/' => some '/'
  | 'b' => some '\x08'
  | 'f' => some '\x0c'
  | 'n' => some '\n'
  | 'r' => some '\r'
  | 't' => some '\t'
  | _ => none

def hexValue (c : Char) : Option Nat :=
  if '0' ≤ c ∧ c ≤ '9' then some (c.toNat - '0'.toNat)
  else if 'a' ≤ c ∧ c ≤ 'f' then some (c.toNat - 'a'.toNat + 10)
  else if 'A' ≤ c ∧ c ≤ 'F' then some (c.toNat - 'A'.toNat + 10)
  else none

/-- A UTF-16 code unit. -/
def hex4 (a b c d : Char) : Option Nat :=
  (hexValue a).bind fun a => (hexValue b).bind fun b => (hexValue c).bind fun c =>
    (hexValue d).map fun d => ((a * 16 + b) * 16 + c) * 16 + d

def isHigh (n : Nat) : Bool := decide (0xd800 ≤ n ∧ n < 0xdc00)

def isLow (n : Nat) : Bool := decide (0xdc00 ≤ n ∧ n < 0xe000)

def surrogatePair (high low : Nat) : Char :=
  Char.ofNat (0x10000 + (high - 0xd800) * 0x400 + (low - 0xdc00))

/-- The characters of a string, up to the quotation mark that ends it. -/
def readString : List Char → Option (List Char × List Char)
  | [] => none
  | '"' :: rest => some ([], rest)
  | '\\' :: 'u' :: a :: b :: c :: d :: rest =>
      match hex4 a b c d with
      | none => none
      | some n =>
          if isHigh n then
            match rest with
            | '\\' :: 'u' :: e :: f :: g :: h :: rest =>
                match hex4 e f g h with
                | none => none
                | some m =>
                    if isLow m then
                      (readString rest).map fun (cs, rest) => (surrogatePair n m :: cs, rest)
                    else none
            | _ => none
          else if isLow n then none
          else (readString rest).map fun (cs, rest) => (Char.ofNat n :: cs, rest)
  | '\\' :: e :: rest =>
      match simpleEscape e with
      | none => none
      | some c => (readString rest).map fun (cs, rest) => (c :: cs, rest)
  | c :: rest =>
      if unescaped c then (readString rest).map fun (cs, rest) => (c :: cs, rest) else none

/-! ## Values -/

section Items

variable {α : Type} (read : List Char → Option (α × List Char)) (close : Char)

/-- One item and those after it. -/
def readMore : Nat → List Char → Option (List α × List Char)
  | 0, _ => none
  | fuel + 1, cs =>
      (read cs).bind fun (x, rest) =>
        match skipWs rest with
        | [] => none
        | c :: rest =>
            if c = ',' then (readMore fuel rest).map fun (xs, rest) => (x :: xs, rest)
            else if c = close then some ([x], rest)
            else none

/-- The items of an array or object, up to the bracket that closes it. -/
def readItems (cs : List Char) : Option (List α × List Char) :=
  match skipWs cs with
  | [] => none
  | c :: rest => if c = close then some ([], rest) else readMore read close cs.length cs

/-- `string name-separator value` -/
def readMember (cs : List Char) : Option ((String × α) × List Char) :=
  match skipWs cs with
  | '"' :: rest =>
      (readString rest).bind fun (name, rest) =>
        match skipWs rest with
        | ':' :: rest => (read rest).map fun (v, rest) => ((String.ofList name, v), rest)
        | _ => none
  | _ => none

end Items

def readValue : Nat → List Char → Option (Json Decimal × List Char)
  | 0, _ => none
  | fuel + 1, cs =>
      match skipWs cs with
      | '"' :: rest => (readString rest).map fun (s, rest) => (.string (String.ofList s), rest)
      | '\x7b' :: rest =>
          (readItems (readMember (readValue fuel)) '\x7d' rest).map fun (ms, rest) => (.object ms, rest)
      | '[' :: rest => (readItems (readValue fuel) ']' rest).map fun (xs, rest) => (.array xs, rest)
      | 't' :: 'r' :: 'u' :: 'e' :: rest => some (.bool true, rest)
      | 'f' :: 'a' :: 'l' :: 's' :: 'e' :: rest => some (.bool false, rest)
      | 'n' :: 'u' :: 'l' :: 'l' :: rest => some (.null, rest)
      | cs => (readNumber cs).map fun (n, rest) => (.number n, rest)

/-- The value of a text; `none` if the text is not JSON. -/
def decode (text : List Char) : Option (Json Decimal) :=
  (readValue (text.length + 1) text).bind fun (v, rest) => if skipWs rest = [] then some v else none

example : (decode "\x7b\"a\" : [1, -2.50, 3e2, \"\\u00e9\\ud83d\\ude00/\"],\n\"b\":null\x7d".toList).isSome = true := by
  decide +kernel
example : decode "[1,]".toList = none := by decide +kernel
example : decode "01".toList = none := by decide +kernel
example : decode "\"\t\"".toList = none := by decide +kernel

/-! ## Strings that were written -/

variable {c e : Char} {rest : List Char}

theorem readString_unescaped (h : unescaped c = true) :
    readString (c :: rest) = (readString rest).map fun (cs, rest) => (c :: cs, rest) := by
  simp only [unescaped, Bool.and_eq_true, bne_iff_ne, ne_eq, decide_eq_true_eq] at h
  rw [readString]
  · simp [unescaped, h]
  · exact fun hc => h.1.2 hc
  · exact fun _ _ _ _ _ hc => absurd hc h.2
  · exact fun _ _ hc => absurd hc h.2

theorem readString_invalid (hq : c ≠ '"') (hb : c ≠ '\\') (h : unescaped c = false) :
    readString (c :: rest) = none := by
  rw [readString]
  · simp [h]
  · exact hq
  · exact fun _ _ _ _ _ hc => absurd hc hb
  · exact fun _ _ hc => absurd hc hb

theorem readString_escape (h : simpleEscape e = some c) :
    readString ('\\' :: e :: rest) = (readString rest).map fun (cs, rest) => (c :: cs, rest) := by
  have hu : e ≠ 'u' := by
    rintro rfl
    simp [simpleEscape] at h
  rw [readString]
  · simp [h]
  · exact fun _ _ _ _ _ hc => absurd hc hu

theorem readString_plain {name : List Char} (h : name.all unescaped = true) :
    readString (name ++ '"' :: rest) = some (name, rest) := by
  induction name with
  | nil => rfl
  | cons c name ih =>
      rw [List.all_cons, Bool.and_eq_true] at h
      rw [List.cons_append, readString_unescaped h.1, ih h.2]
      rfl

/-! ## Numbers that were written -/

theorem span_digits {digits : List Char} (h : ∀ c ∈ digits, c.isDigit = true)
    (hrest : ∀ c ∈ rest.head?, c.isDigit = false) :
    (digits ++ rest).span Char.isDigit = (digits, rest) := by
  rw [List.span_eq_takeWhile_dropWhile]
  rw [List.takeWhile_append_of_pos h, List.dropWhile_append_of_pos h]
  cases rest with
  | nil => simp
  | cons c rest => simp [hrest c rfl]

/-- A decimal numeral begins with a zero only if it is `0`. -/
theorem toDigits_eq_zero {n : Nat} {ds : List Char} (h : Nat.toDigits 10 n = '0' :: ds) : ds = [] := by
  induction n using Nat.strongRecOn generalizing ds with
  | ind n ih =>
      rcases Nat.lt_or_ge n 10 with hlt | hge
      · rw [Nat.toDigits_of_lt_base hlt] at h
        simpa using (List.cons.inj h).2.symm
      · rw [Nat.toDigits_of_base_le (by decide) hge] at h
        cases hq : Nat.toDigits 10 (n / 10) with
        | nil => exact absurd hq Nat.toDigits_ne_nil
        | cons c cs =>
            rw [hq, List.cons_append, List.cons.injEq] at h
            obtain ⟨rfl, rfl⟩ := h
            have hcs := ih (n / 10) (by omega) hq
            -- the leading numeral would be that of zero
            have hzero := congrArg (fun l => Nat.ofDigitChars 10 l 0) hq
            rw [hcs] at hzero
            simp only [Nat.ofDigitChars_ten_toDigits] at hzero
            have : n / 10 = 0 := hzero
            omega

/-- What comes after the value of a member. -/
inductive Follow : List Char → Prop
  | comma (rest : List Char) : Follow (',' :: rest)
  | close (rest : List Char) : Follow ('\x7d' :: rest)

theorem readDigits_toDigits (n : Nat) (h : Follow rest) :
    readDigits (Nat.toDigits 10 n ++ rest) = some (Nat.toDigits 10 n, rest) := by
  have hdigits : ∀ c ∈ Nat.toDigits 10 n, c.isDigit = true := fun c hc =>
    Nat.isDigit_of_mem_toDigits (by decide) (by decide) hc
  have hrest : ∀ c ∈ rest.head?, c.isDigit = false := by
    cases h <;> (rintro c ⟨⟩; decide)
  rw [readDigits, span_digits hdigits hrest]
  cases hn : Nat.toDigits 10 n with
  | nil => exact absurd hn Nat.toDigits_ne_nil
  | cons c cs => rfl

theorem readInt_toDigits (n : Nat) (h : Follow rest) :
    readInt (Nat.toDigits 10 n ++ rest) = some (Nat.toDigits 10 n, rest) := by
  unfold readInt
  split
  · next ds heq =>
      cases hn : Nat.toDigits 10 n with
      | nil => exact absurd hn Nat.toDigits_ne_nil
      | cons c cs =>
          rw [hn, List.cons_append, List.cons.injEq] at heq
          obtain ⟨rfl, rfl⟩ := heq
          cases toDigits_eq_zero hn
          rfl
  · exact readDigits_toDigits n h

theorem readNumber_toDigits (n : Nat) (h : Follow rest) :
    readNumber (Nat.toDigits 10 n ++ rest) = some (⟨n, 0⟩, rest) := by
  have hunsigned : readUnsigned (Nat.toDigits 10 n ++ rest) = some (⟨n, 0⟩, rest) := by
    have hfrac : readFraction rest = some ([], rest) := by cases h <;> rfl
    have hexp : readExponent rest = some (0, rest) := by cases h <;> rfl
    simp [readUnsigned, readInt_toDigits n h, hfrac, hexp]
  unfold readNumber
  split
  · next ds heq =>
      cases hn : Nat.toDigits 10 n with
      | nil => exact absurd hn Nat.toDigits_ne_nil
      | cons c cs =>
          have hc := Nat.isDigit_of_mem_toDigits (c := c) (n := n) (by decide) (by decide)
            (hn ▸ List.mem_cons_self)
          rw [hn, List.cons_append, List.cons.injEq] at heq
          rw [heq.1] at hc
          exact absurd hc (by decide)
  · exact hunsigned

theorem readValue_digit {fuel : Nat} (h : c.isDigit = true) :
    readValue (fuel + 1) (c :: rest) = (readNumber (c :: rest)).map fun (n, rest) => (.number n, rest) := by
  have hne : ∀ d : Char, d.isDigit = false → c ≠ d := by
    rintro d hd rfl
    rw [h] at hd
    cases hd
  have hws : skipWs (c :: rest) = c :: rest := by
    have := hne ' ' rfl
    have := hne '\t' rfl
    have := hne '\n' rfl
    have := hne '\r' rfl
    simp [skipWs, isWs, *]
  rw [readValue, hws]
  split
  · next hc => exact absurd (List.cons.inj hc).1 (hne '"' rfl)
  · next hc => exact absurd (List.cons.inj hc).1 (hne '\x7b' rfl)
  · next hc => exact absurd (List.cons.inj hc).1 (hne '[' rfl)
  · next hc => exact absurd (List.cons.inj hc).1 (hne 't' rfl)
  · next hc => exact absurd (List.cons.inj hc).1 (hne 'f' rfl)
  · next hc => exact absurd (List.cons.inj hc).1 (hne 'n' rfl)
  · rfl

theorem readValue_toDigits {fuel : Nat} (n : Nat) (h : Follow rest) :
    readValue (fuel + 1) (Nat.toDigits 10 n ++ rest) = some (.number ⟨n, 0⟩, rest) := by
  have hnumber := readNumber_toDigits n h
  cases hn : Nat.toDigits 10 n with
  | nil => exact absurd hn Nat.toDigits_ne_nil
  | cons c cs =>
      have hc := Nat.isDigit_of_mem_toDigits (c := c) (n := n) (by decide) (by decide)
        (hn ▸ List.mem_cons_self)
      rw [hn] at hnumber
      rw [List.cons_append] at hnumber ⊢
      rw [readValue_digit hc, hnumber]
      rfl

/-! ## Members that were written -/

/-- What a decoder makes of a text in the place of a member's value; it is no JSON unless `valid`. -/
def Reads (text : List Char) (value : Json Decimal) (valid : Bool) : Prop :=
  ∀ fuel rest, Follow rest →
    readValue (fuel + 1) (text ++ rest) = if valid then some (value, rest) else none

/-- A member as it was written. -/
structure Written where
  name : String
  text : List Char
  value : Json Decimal
  valid : Bool
  plain : name.toList.all unescaped = true
  reads : Reads text value valid

/-- `"name":text` -/
def writeMember (m : String × List Char) : List Char := '"' :: (m.1.toList ++ '"' :: ':' :: m.2)

def writeObject : List (String × List Char) → List Char
  | [] => ['\x7b', '\x7d']
  | m :: ms => '\x7b' :: (writeMember m ++ ms.flatMap (fun m => ',' :: writeMember m) ++ ['\x7d'])

namespace Written

variable {fuel : Nat}

def source (m : Written) : String × List Char := (m.name, m.text)

def decoded (m : Written) : String × Json Decimal := (m.name, m.value)

/-- A member with the text of a value. -/
def ofReads (name : String) (hname : name.toList.all unescaped = true) {text : List Char}
    {value : Json Decimal} {valid : Bool} (h : Reads text value valid) : Written :=
  ⟨name, text, value, valid, hname, h⟩

theorem readMember_source (m : Written) (h : Follow rest) :
    readMember (readValue (fuel + 1)) (writeMember m.source ++ rest) =
      if m.valid then some (m.decoded, rest) else none := by
  have hws : ∀ cs, skipWs ('"' :: cs) = '"' :: cs := fun cs => rfl
  have hws' : ∀ cs, skipWs (':' :: cs) = ':' :: cs := fun cs => rfl
  simp only [readMember, writeMember, source, List.cons_append, List.append_assoc, hws,
    readString_plain m.plain, Option.bind_some, hws', m.reads fuel rest h, String.ofList_toList]
  cases m.valid <;> rfl

theorem readMore_source (fuel : Nat) (rest : List Char) (m : Written) (ms : List Written) {n : Nat}
    (hn : ms.length < n) :
    readMore (readMember (readValue (fuel + 1))) '\x7d' n
        (writeMember m.source ++ ms.flatMap (fun m => ',' :: writeMember m.source) ++ '\x7d' :: rest) =
      if (m :: ms).all valid then some ((m :: ms).map decoded, rest) else none := by
  induction ms generalizing m n with
  | nil =>
      obtain ⟨n, rfl⟩ : ∃ k, n = k + 1 := ⟨n - 1, by simp at hn; omega⟩
      simp only [readMore, List.flatMap_nil, List.append_nil, readMember_source m (.close rest)]
      cases hv : m.valid <;> simp [hv, skipWs, isWs]
  | cons m' ms ih =>
      obtain ⟨n, rfl⟩ : ∃ k, n = k + 1 := ⟨n - 1, by simp at hn; omega⟩
      have hrest := ih m' (n := n) (by simpa using hn)
      simp only [readMore, List.flatMap_cons, List.append_assoc, List.cons_append,
        readMember_source m (.comma _)] at hrest ⊢
      cases hv : m.valid with
      | false => simp [hv]
      | true =>
          have hws : ∀ cs, skipWs (',' :: cs) = ',' :: cs := fun cs => rfl
          simp only [if_true, Option.bind_some, hws, hrest]
          cases hall : (m' :: ms).all valid <;> simp_all

theorem length_le (ms : List Written) :
    ms.length ≤ (ms.flatMap fun m => ',' :: writeMember m.source).length := by
  induction ms with
  | nil => exact Nat.le_refl 0
  | cons m ms ih =>
      simp only [List.flatMap_cons, List.length_append, List.length_cons]
      omega

/-- An object is decoded member by member, and is no JSON as soon as one of its values is not. -/
theorem decode_writeObject (m : Written) (ms : List Written) :
    decode (writeObject ((m :: ms).map source)) =
      if (m :: ms).all valid then some (.object ((m :: ms).map decoded)) else none := by
  have hlen := length_le ms
  generalize hbody : writeMember m.source ++ ms.flatMap (fun m => ',' :: writeMember m.source) ++
    ['\x7d'] = body
  have hfuel : ms.length < body.length := by
    rw [← hbody]
    simp only [List.length_append, List.length_cons]
    omega
  have hread := readMore_source body.length [] m ms hfuel
  rw [hbody] at hread
  have htext : writeObject ((m :: ms).map source) = '\x7b' :: body := by
    rw [← hbody]
    simp only [writeObject, List.map_cons, List.flatMap_map]
  have hitems : readItems (readMember (readValue (body.length + 1))) '\x7d' body =
      if (m :: ms).all valid then some ((m :: ms).map decoded, []) else none := by
    rw [← hread]
    have hws : skipWs body = body := by
      rw [← hbody]
      rfl
    unfold readItems
    rw [hws]
    cases body with
    | nil => simp at hbody
    | cons c rest =>
        have hc : c = '"' := (List.cons.inj hbody).1.symm
        simp [hc]
  rw [htext, decode]
  have hvalue : readValue (body.length + 1 + 1) ('\x7b' :: body) =
      (readItems (readMember (readValue (body.length + 1))) '\x7d' body).map
        fun (ms, rest) => (.object ms, rest) := rfl
  rw [List.length_cons, hvalue, hitems]
  cases (m :: ms).all valid <;> rfl

theorem decode_writeObject_of_valid {P : Prop} [Decidable P] (m : Written) (ms : List Written)
    (hvalid : (m :: ms).all valid = true ↔ P) : decode (writeObject ((m :: ms).map source)) =
      if P then some (.object ((m :: ms).map decoded)) else none := by
  simp only [decode_writeObject, hvalid]

end Written

end Json

end DsaStdexec.Lib
