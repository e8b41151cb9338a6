import Mathlib.Data.List.TakeWhile
/-!
# Json — JSON text, written without blanks and read back

`dumps` writes a value with the separators "," and ":" and leaves every character but quotes, backslashes and control
characters as it is; `loads` reads any JSON text into dictionaries that keep the last value of a repeated key.  A number
with a fraction or an exponent is read as the text it has.  `loads_dumps` is the round trip of values with distinct
keys.
-/
namespace PicoRecorder
namespace Lib

inductive Json where
  | null
  | bool (b : Bool)
  | int (n : Int)
  | float (literal : String)
  | str (s : String)
  | arr (items : List Json)
  | obj (fields : List (String × Json))

namespace Json

/-! ## Writing -/

def hexDigit (n : Nat) : Char := Nat.digitChar n

/-- A character of a string, escaped where it has to be. -/
def escape (c : Char) : List Char :=
  if c = '"' then ['\\', '"']
  else if c = '\\' then ['\\', '\\']
  else if c = '\n' then ['\\', 'n']
  else if c = '\r' then ['\\', 'r']
  else if c = '\t' then ['\\', 't']
  else if c.toNat = 8 then ['\\', 'b']
  else if c.toNat = 12 then ['\\', 'f']
  else if c.toNat < 32 then ['\\', 'u', '0', '0', hexDigit (c.toNat / 16), hexDigit (c.toNat % 16)]
  else [c]

def writeChars (cs : List Char) : List Char := cs.flatMap escape ++ ['"']

def writeString (s : String) : List Char := '"' :: writeChars s.toList

def writeInt (n : Int) : List Char := if n < 0 then '-' :: Nat.toDigits 10 n.natAbs else Nat.toDigits 10 n.natAbs

mutual

def write : Json → List Char
  | .null => ['n', 'u', 'l', 'l']
  | .bool true => ['t', 'r', 'u', 'e']
  | .bool false => ['f', 'a', 'l', 's', 'e']
  | .int n => writeInt n
  | .float literal => literal.toList
  | .str s => writeString s
  | .arr [] => ['[', ']']
  | .arr (v :: vs) => '[' :: (write v ++ writeItems vs)
  | .obj [] => ['{', '}']
  | .obj ((k, v) :: fs) => '{' :: (writeString k ++ ':' :: (write v ++ writeFields fs))

/-- What follows the first item of an array. -/
def writeItems : List Json → List Char
  | [] => [']']
  | v :: vs => ',' :: (write v ++ writeItems vs)

/-- What follows the first field of an object. -/
def writeFields : List (String × Json) → List Char
  | [] => ['}']
  | (k, v) :: fs => ',' :: (writeString k ++ ':' :: (write v ++ writeFields fs))

end

def dumps (v : Json) : String := String.ofList (write v)

/-! ## Reading -/

def isBlank (c : Char) : Bool := c == ' ' || c == '\t' || c == '\n' || c == '\r'

def skipBlanks (cs : List Char) : List Char := cs.dropWhile isBlank

def hexValue? (c : Char) : Option Nat :=
  if c.isDigit then some (c.toNat - 48)
  else if 'a' ≤ c ∧ c ≤ 'f' then some (c.toNat - 87)
  else if 'A' ≤ c ∧ c ≤ 'F' then some (c.toNat - 55)
  else none

/-- The character of a `\u` escape; a surrogate has none of its own. -/
def unicode? (a b c d : Char) : Option Char := do
  let code := (← hexValue? a) * 4096 + (← hexValue? b) * 256 + (← hexValue? c) * 16 + (← hexValue? d)
  if 0xD800 ≤ code ∧ code ≤ 0xDFFF then none else some (Char.ofNat code)

/-- The character of a one-letter escape. -/
def escaped? (c : Char) : Option Char :=
  match c with
  | '"' => some '"'
  | '\\' => some '\\'
  | '/' => some '/'
  | 'b' => some (Char.ofNat 8)
  | 'f' => some (Char.ofNat 12)
  | 'n' => some '\n'
  | 'r' => some '\r'
  | 't' => some '\t'
  | _ => none

/-- A string after its opening quote, and the text after its closing one. -/
def readChars : List Char → Option (List Char × List Char)
  | [] => none
  | '"' :: rest => some ([], rest)
  | '\\' :: 'u' :: a :: b :: c :: d :: rest => do
    let char ← unicode? a b c d
    let (chars, rest) ← readChars rest
    some (char :: chars, rest)
  | '\\' :: c :: rest => do
    let char ← escaped? c
    let (chars, rest) ← readChars rest
    some (char :: chars, rest)
  | c :: rest =>
    if c.toNat < 32 then none
    else do
      let (chars, rest) ← readChars rest
      some (c :: chars, rest)

/-- The digits of an integer part: a leading zero stands alone. -/
def readDigits (cs : List Char) : Option (List Char × List Char) :=
  match cs with
  | '0' :: rest => some (['0'], rest)
  | _ => if cs.takeWhile Char.isDigit = [] then none else some (cs.takeWhile Char.isDigit, cs.dropWhile Char.isDigit)

def readFraction : List Char → List Char × List Char
  | '.' :: rest =>
    if rest.takeWhile Char.isDigit = [] then ([], '.' :: rest)
    else ('.' :: rest.takeWhile Char.isDigit, rest.dropWhile Char.isDigit)
  | cs => ([], cs)

def isExponentMark (c : Char) : Bool := c == 'e' || c == 'E'

def isSign (c : Char) : Bool := c == '+' || c == '-'

def readExponent : List Char → List Char × List Char
  | [] => ([], [])
  | c :: rest =>
    let sign := (rest.take 1).takeWhile isSign
    let digits := (rest.drop sign.length).takeWhile Char.isDigit
    if !isExponentMark c || digits = [] then ([], c :: rest)
    else (c :: sign ++ digits, (rest.drop sign.length).dropWhile Char.isDigit)

/-- A number after its sign. -/
def readNumber (negative : Bool) (cs : List Char) : Option (Json × List Char) := do
  let (digits, rest) ← readDigits cs
  let (fraction, rest) := readFraction rest
  let (exponent, rest) := readExponent rest
  if fraction = [] ∧ exponent = [] then
    let n : Nat := Nat.ofDigitChars 10 digits 0
    some (.int (if negative then -n else n), rest)
  else some (.float (String.ofList ((if negative then ['-'] else []) ++ digits ++ fraction ++ exponent)), rest)

/-- A dictionary with one more entry: a key it has keeps its place and gets the new value. -/
def insert (dict : List (String × Json)) (field : String × Json) : List (String × Json) :=
  if dict.any (fun f => f.1 == field.1) then dict.map (fun f => if f.1 == field.1 then field else f)
  else dict ++ [field]

def dictOf (fields : List (String × Json)) : List (String × Json) := fields.foldl insert []

mutual

/-- A value at the front of a text without leading blanks, and the text after it; the fuel bounds the nesting. -/
def read : Nat → List Char → Option (Json × List Char)
  | 0, _ => none
  | fuel + 1, cs =>
    match cs with
    | 'n' :: 'u' :: 'l' :: 'l' :: rest => some (.null, rest)
    | 't' :: 'r' :: 'u' :: 'e' :: rest => some (.bool true, rest)
    | 'f' :: 'a' :: 'l' :: 's' :: 'e' :: rest => some (.bool false, rest)
    | '"' :: rest => (readChars rest).map (fun r => (.str (String.ofList r.1), r.2))
    | '[' :: rest =>
      match skipBlanks rest with
      | ']' :: rest => some (.arr [], rest)
      | rest => (readItems fuel rest).map (fun r => (.arr r.1, r.2))
    | '{' :: rest =>
      match skipBlanks rest with
      | '}' :: rest => some (.obj [], rest)
      | rest => (readFields fuel rest).map (fun r => (.obj (dictOf r.1), r.2))
    | 'N' :: 'a' :: 'N' :: rest => some (.float "NaN", rest)
    | 'I' :: 'n' :: 'f' :: 'i' :: 'n' :: 'i' :: 't' :: 'y' :: rest => some (.float "Infinity", rest)
    | '-' :: 'I' :: 'n' :: 'f' :: 'i' :: 'n' :: 'i' :: 't' :: 'y' :: rest => some (.float "-Infinity", rest)
    | '-' :: rest => readNumber true rest
    | cs => readNumber false cs

/-- The items of an array from the first one on, and the text after the bracket. -/
def readItems : Nat → List Char → Option (List Json × List Char)
  | 0, _ => none
  | fuel + 1, cs =>
    (read fuel cs).bind (fun r =>
      match skipBlanks r.2 with
      | ',' :: rest => (readItems fuel (skipBlanks rest)).map (fun s => (r.1 :: s.1, s.2))
      | ']' :: rest => some ([r.1], rest)
      | _ => none)

/-- The fields of an object from the first one on, and the text after the brace. -/
def readFields : Nat → List Char → Option (List (String × Json) × List Char)
  | 0, _ => none
  | fuel + 1, cs =>
    match cs with
    | '"' :: cs =>
      (readChars cs).bind (fun k =>
        match skipBlanks k.2 with
        | ':' :: rest =>
          (read fuel (skipBlanks rest)).bind (fun r =>
            match skipBlanks r.2 with
            | ',' :: rest => (readFields fuel (skipBlanks rest)).map (fun s => ((String.ofList k.1, r.1) :: s.1, s.2))
            | '}' :: rest => some ([(String.ofList k.1, r.1)], rest)
            | _ => none)
        | _ => none)
    | _ => none

end

/-- One value and nothing but blanks around it. -/
def loads (text : String) : Option Json :=
  match read (text.toList.length + 1) (skipBlanks text.toList) with
  | some (v, rest) => if skipBlanks rest = [] then some v else none
  | none => none

/-! ## The round trip -/

mutual

/-- No fractions, and distinct keys in every dictionary. -/
def Exact : Json → Prop
  | .float _ => False
  | .arr items => ExactItems items
  | .obj fields => (fields.map Prod.fst).Nodup ∧ ExactFields fields
  | _ => True

def ExactItems : List Json → Prop
  | [] => True
  | v :: vs => Exact v ∧ ExactItems vs

def ExactFields : List (String × Json) → Prop
  | [] => True
  | (_, v) :: fs => Exact v ∧ ExactFields fs

end

@[simp] theorem exact_int (n : Int) : Exact (.int n) := by simp [Exact]

@[simp] theorem exact_str (s : String) : Exact (.str s) := by simp [Exact]

theorem exactItems_iff : ∀ {items : List Json}, ExactItems items ↔ ∀ v ∈ items, Exact v
  | [] => by simp [ExactItems]
  | v :: vs => by simp [ExactItems, @exactItems_iff vs]

theorem hexValue?_hexDigit : ∀ n < 16, hexValue? (hexDigit n) = some n := by decide

theorem unicode?_escape {c : Char} (h : c.toNat < 32) :
    unicode? '0' '0' (hexDigit (c.toNat / 16)) (hexDigit (c.toNat % 16)) = some c := by
  have hzero : hexValue? '0' = some 0 := by decide
  have hcode : 0 * 4096 + 0 * 256 + c.toNat / 16 * 16 + c.toNat % 16 = c.toNat := by omega
  unfold unicode?
  simp only [hzero, hexValue?_hexDigit _ (show c.toNat / 16 < 16 by omega),
    hexValue?_hexDigit _ (show c.toNat % 16 < 16 by omega), Option.bind_eq_bind, Option.bind_some, hcode]
  rw [if_neg (by omega), Char.ofNat_toNat]

/-- **An escaped character is read as itself.** -/
theorem readChars_escape (c : Char) (tail : List Char) :
    readChars (escape c ++ tail) = (readChars tail).map (fun r => (c :: r.1, r.2)) := by
  have hescaped : ∀ {e char : Char}, e ≠ 'u' → escaped? e = some char →
      readChars ('\\' :: e :: tail) = (readChars tail).map (fun r => (char :: r.1, r.2)) := fun {e char} hu he => by
    rw [readChars.eq_4 _ _ (fun _ _ _ _ _ h _ => hu h), he]
    cases readChars tail <;> rfl
  unfold escape
  split
  · rename_i h; subst h; exact hescaped (by decide) rfl
  split
  · rename_i h; subst h; exact hescaped (by decide) rfl
  split
  · rename_i h; subst h; exact hescaped (by decide) rfl
  split
  · rename_i h; subst h; exact hescaped (by decide) rfl
  split
  · rename_i h; subst h; exact hescaped (by decide) rfl
  split
  · rename_i h
    refine hescaped (by decide) ?_
    rw [← Char.ofNat_toNat c, h]
    rfl
  split
  · rename_i h
    refine hescaped (by decide) ?_
    rw [← Char.ofNat_toNat c, h]
    rfl
  split
  · rename_i h
    rw [List.cons_append, List.cons_append, List.cons_append, List.cons_append, List.cons_append, List.cons_append,
      List.nil_append, readChars, unicode?_escape h]
    cases readChars tail <;> rfl
  · rename_i hquote hback _ _ _ _ _ hcontrol
    rw [List.singleton_append, readChars.eq_5 _ _ hquote (fun _ _ _ _ _ h _ => hback h) (fun _ _ h _ => hback h),
      if_neg hcontrol]
    cases readChars tail <;> rfl

theorem readChars_writeChars (rest : List Char) : ∀ cs : List Char,
    readChars (writeChars cs ++ rest) = some (cs, rest)
  | [] => by simp [writeChars, readChars]
  | c :: cs => by
    have ih := readChars_writeChars rest cs
    have hsplit : writeChars (c :: cs) ++ rest = escape c ++ (writeChars cs ++ rest) := by simp [writeChars]
    rw [hsplit, readChars_escape, ih]
    rfl

theorem toDigits_head : ∀ n : Nat, ∃ c cs, Nat.toDigits 10 n = c :: cs ∧ c.isDigit = true ∧
    (c = '0' → cs = [] ∧ n = 0) := by
  intro n
  induction n using Nat.strongRecOn with
  | ind n ih =>
    rw [Nat.toDigits_eq_if (by decide)]
    by_cases h : n < 10
    · rw [if_pos h]
      have hdigit : ∀ k < 10, k.digitChar.isDigit = true ∧ (k.digitChar = '0' → k = 0) := by decide
      exact ⟨n.digitChar, [], rfl, (hdigit n h).1, fun hc => ⟨rfl, (hdigit n h).2 hc⟩⟩
    · rw [if_neg h]
      obtain ⟨c, cs, he, hd, hz⟩ := ih (n / 10) (by omega)
      refine ⟨c, cs ++ [(n % 10).digitChar], by rw [he]; rfl, hd, fun hc => ?_⟩
      have := (hz hc).2
      omega

/-- What may follow a number: nothing that would belong to it. -/
def Ends (rest : List Char) : Prop :=
  ∀ c ∈ rest.head?, c.isDigit = false ∧ c ≠ '.' ∧ isExponentMark c = false

theorem ends_cons {c : Char} (h : c.isDigit = false ∧ c ≠ '.' ∧ isExponentMark c = false) (rest : List Char) :
    Ends (c :: rest) := fun d hd => by
  obtain rfl : c = d := by simpa using hd
  exact h

theorem takeWhile_digits {digits rest : List Char} (hd : ∀ c ∈ digits, c.isDigit = true) (hr : Ends rest) :
    (digits ++ rest).takeWhile Char.isDigit = digits ∧ (digits ++ rest).dropWhile Char.isDigit = rest := by
  have htake : rest.takeWhile Char.isDigit = [] ∧ rest.dropWhile Char.isDigit = rest := by
    cases rest with
    | nil => exact ⟨rfl, rfl⟩
    | cons c rest => simp [(hr c rfl).1]
  rw [List.takeWhile_append_of_pos hd, List.dropWhile_append_of_pos hd, htake.1, htake.2, List.append_nil]
  exact ⟨rfl, rfl⟩

theorem readDigits_toDigits (n : Nat) {rest : List Char} (hr : Ends rest) :
    readDigits (Nat.toDigits 10 n ++ rest) = some (Nat.toDigits 10 n, rest) := by
  obtain ⟨c, cs, he, hd, hz⟩ := toDigits_head n
  have hall : ∀ d ∈ Nat.toDigits 10 n, d.isDigit = true := fun d hm =>
    Nat.isDigit_of_mem_toDigits (by decide) (by decide) hm
  obtain ⟨htake, hdrop⟩ := takeWhile_digits hall hr
  by_cases hc : c = '0'
  · obtain ⟨rfl, -⟩ := hz hc
    rw [he, hc]
    rfl
  · have hne : Nat.toDigits 10 n ≠ [] := Nat.toDigits_ne_nil
    unfold readDigits
    split
    · rename_i hcons
      rw [he] at hcons
      exact absurd (List.cons.inj hcons).1 hc
    · rw [htake, hdrop, if_neg hne]

theorem readFraction_ends {rest : List Char} (hr : Ends rest) : readFraction rest = ([], rest) := by
  cases rest with
  | nil => rfl
  | cons c rest => exact readFraction.eq_2 _ (fun _ h => (hr c rfl).2.1 (List.cons.inj h).1)

theorem readExponent_ends {rest : List Char} (hr : Ends rest) : readExponent rest = ([], rest) := by
  cases rest with
  | nil => rfl
  | cons c rest =>
    have hm := (hr c rfl).2.2
    simp [readExponent, hm]

/-- **A written integer is read back**, whatever ends it. -/
theorem readNumber_toDigits (negative : Bool) (n : Nat) {rest : List Char} (hr : Ends rest) :
    readNumber negative (Nat.toDigits 10 n ++ rest) = some (.int (if negative then -(n : Int) else n), rest) := by
  unfold readNumber
  rw [readDigits_toDigits n hr]
  simp [readFraction_ends hr, readExponent_ends hr]

theorem skipBlanks_cons {c : Char} (h : isBlank c = false) (rest : List Char) : skipBlanks (c :: rest) = c :: rest := by
  simp [skipBlanks, h]

theorem isBlank_digit {c : Char} (h : c.isDigit = true) : isBlank c = false ∧ c ≠ ']' := by
  refine ⟨?_, by rintro rfl; cases h⟩
  cases hb : isBlank c with
  | false => rfl
  | true =>
    simp only [isBlank, Bool.or_eq_true, beq_iff_eq] at hb
    rcases hb with ((rfl | rfl) | rfl) | rfl <;> cases h

/-- The first character of a written value. -/
theorem write_head {v : Json} (h : v.Exact) : ∃ c cs, write v = c :: cs ∧ isBlank c = false ∧ c ≠ ']' := by
  match v, h with
  | .null, _ => exact ⟨_, _, rfl, by decide, by decide⟩
  | .bool true, _ => exact ⟨_, _, rfl, by decide, by decide⟩
  | .bool false, _ => exact ⟨_, _, rfl, by decide, by decide⟩
  | .int n, _ =>
    obtain ⟨c, cs, he, hd, -⟩ := toDigits_head n.natAbs
    rw [write, writeInt]
    split
    · exact ⟨'-', _, rfl, by decide, by decide⟩
    · exact ⟨c, cs, he, isBlank_digit hd⟩
  | .str s, _ => exact ⟨'"', _, by rw [write, writeString], by decide, by decide⟩
  | .arr [], _ => exact ⟨_, _, rfl, by decide, by decide⟩
  | .arr (v :: vs), _ => exact ⟨'[', _, by rw [write], by decide, by decide⟩
  | .obj [], _ => exact ⟨_, _, rfl, by decide, by decide⟩
  | .obj ((k, v) :: fs), _ => exact ⟨'{', _, by rw [write], by decide, by decide⟩

theorem skipBlanks_writeString (k : String) (rest : List Char) :
    skipBlanks (writeString k ++ rest) = writeString k ++ rest := skipBlanks_cons (by decide) _

theorem skipBlanks_write {v : Json} (h : v.Exact) (rest : List Char) :
    skipBlanks (write v ++ rest) = write v ++ rest := by
  obtain ⟨c, cs, he, hb, -⟩ := write_head h
  rw [he, List.cons_append, skipBlanks_cons hb]

/-- A digit at the front is the beginning of a number. -/
theorem read_digit {c : Char} (h : c.isDigit = true) (fuel : Nat) (cs : List Char) :
    read (fuel + 1) (c :: cs) = readNumber false (c :: cs) := by
  rw [read]
  all_goals
    intro _ hcons
    obtain ⟨rfl, -⟩ := List.cons.inj hcons
    cases h

/-- A minus sign before a digit. -/
theorem read_minus {c : Char} (h : c.isDigit = true) (fuel : Nat) (cs : List Char) :
    read (fuel + 1) ('-' :: c :: cs) = readNumber true (c :: cs) := by
  rw [read]
  rintro _ hcons
  obtain ⟨rfl, -⟩ := List.cons.inj hcons
  cases h

theorem insert_new {dict : List (String × Json)} {field : String × Json} (h : field.1 ∉ dict.map Prod.fst) :
    insert dict field = dict ++ [field] := by
  unfold insert
  rw [if_neg]
  simp only [List.any_eq_true, beq_iff_eq, not_exists, not_and]
  intro f hf he
  exact h (List.mem_map.2 ⟨f, hf, he⟩)

/-- A dictionary of distinct keys is its list of fields. -/
theorem dictOf_nodup {fields : List (String × Json)} (h : (fields.map Prod.fst).Nodup) : dictOf fields = fields := by
  have key : ∀ (fields dict : List (String × Json)), ((dict ++ fields).map Prod.fst).Nodup →
      fields.foldl insert dict = dict ++ fields := fun fields => by
    induction fields with
    | nil => intro dict _; simp
    | cons f fields ih =>
      intro dict hn
      have hnew : f.1 ∉ dict.map Prod.fst := by
        rw [List.map_append, List.nodup_append] at hn
        exact fun hm => hn.2.2 _ hm f.1 (by simp) rfl
      rw [List.foldl_cons, insert_new hnew, ih (dict ++ [f]) (by simpa using hn), List.append_assoc]
      rfl
  exact key fields [] h

theorem readItems_comma {fuel : Nat} {cs rest : List Char} {v : Json} (h : read fuel cs = some (v, ',' :: rest)) :
    readItems (fuel + 1) cs = (readItems fuel (skipBlanks rest)).map (fun s => (v :: s.1, s.2)) := by
  rw [readItems, h]
  rfl

theorem readItems_close {fuel : Nat} {cs rest : List Char} {v : Json} (h : read fuel cs = some (v, ']' :: rest)) :
    readItems (fuel + 1) cs = some ([v], rest) := by
  rw [readItems, h]
  rfl

theorem readFields_comma {fuel : Nat} {cs key mid rest : List Char} {v : Json}
    (hk : readChars cs = some (key, ':' :: mid)) (h : read fuel (skipBlanks mid) = some (v, ',' :: rest)) :
    readFields (fuel + 1) ('"' :: cs) =
      (readFields fuel (skipBlanks rest)).map (fun s => ((String.ofList key, v) :: s.1, s.2)) := by
  have hmid : skipBlanks (':' :: mid) = ':' :: mid := rfl
  rw [readFields, hk, Option.bind_some, hmid]
  change (read fuel (skipBlanks mid)).bind _ = _
  rw [h]
  rfl

theorem readFields_close {fuel : Nat} {cs key mid rest : List Char} {v : Json}
    (hk : readChars cs = some (key, ':' :: mid)) (h : read fuel (skipBlanks mid) = some (v, '}' :: rest)) :
    readFields (fuel + 1) ('"' :: cs) = some ([(String.ofList key, v)], rest) := by
  have hmid : skipBlanks (':' :: mid) = ':' :: mid := rfl
  rw [readFields, hk, Option.bind_some, hmid]
  change (read fuel (skipBlanks mid)).bind _ = _
  rw [h]
  rfl

mutual

/-- **A written value is read back**, with fuel for every character of it. -/
theorem read_write : ∀ (v : Json) (fuel : Nat) (rest : List Char), v.Exact → (write v).length ≤ fuel → Ends rest →
    read fuel (write v ++ rest) = some (v, rest)
  | v, 0, _, hv, hf, _ => by
    obtain ⟨c, cs, he, -, -⟩ := write_head hv
    rw [he] at hf
    cases hf
  | .null, fuel + 1, _, _, _, _ => rfl
  | .bool true, fuel + 1, _, _, _, _ => rfl
  | .bool false, fuel + 1, _, _, _, _ => rfl
  | .int n, fuel + 1, rest, _, _, hr => by
    obtain ⟨c, cs, he, hd, -⟩ := toDigits_head n.natAbs
    rw [write, writeInt]
    split
    · rename_i hneg
      have hread := readNumber_toDigits true n.natAbs hr
      rw [List.cons_append, he, List.cons_append, read_minus hd]
      rw [he, List.cons_append] at hread
      rw [hread, if_pos rfl, show -(n.natAbs : Int) = n by omega]
    · rename_i hpos
      have hread := readNumber_toDigits false n.natAbs hr
      rw [he, List.cons_append, read_digit hd]
      rw [he, List.cons_append] at hread
      rw [hread, if_neg Bool.false_ne_true, show (n.natAbs : Int) = n by omega]
  | .str s, fuel + 1, rest, _, _, _ => by
    rw [write, writeString, List.cons_append, read, readChars_writeChars, Option.map_some, String.ofList_toList]
  | .arr [], fuel + 1, _, _, _, _ => rfl
  | .arr (v :: vs), fuel + 1, rest, hv, hf, _ => by
    rw [Exact] at hv
    obtain ⟨c, cs, he, hb, hc⟩ := write_head hv.1
    rw [write, List.length_cons] at hf
    have hitems := readItems_write v vs fuel rest hv.1 hv.2 (by omega)
    rw [List.append_assoc] at hitems
    rw [write, List.cons_append, List.append_assoc, read, skipBlanks_write hv.1]
    split
    · rename_i hcons
      rw [he, List.cons_append] at hcons
      exact absurd (List.cons.inj hcons).1 hc
    · rw [hitems]
      rfl
  | .obj [], fuel + 1, _, _, _, _ => rfl
  | .obj ((k, v) :: fs), fuel + 1, rest, hv, hf, _ => by
    rw [Exact] at hv
    rw [write, List.length_cons] at hf
    have hfields := readFields_write k v fs fuel rest hv.2.1 hv.2.2 (by omega)
    rw [List.append_assoc] at hfields
    rw [write, List.cons_append, List.append_assoc, read, skipBlanks_writeString]
    split
    · rename_i hcons
      exact absurd (List.cons.inj hcons).1 (by decide)
    · rw [hfields, Option.map_some, dictOf_nodup hv.1]

theorem readItems_write : ∀ (v : Json) (vs : List Json) (fuel : Nat) (rest : List Char), v.Exact → ExactItems vs →
    (write v ++ writeItems vs).length ≤ fuel → readItems fuel (write v ++ writeItems vs ++ rest) = some (v :: vs, rest)
  | v, vs, 0, _, hv, _, hf => by
    obtain ⟨c, cs, he, -, -⟩ := write_head hv
    rw [he] at hf
    cases hf
  | v, [], fuel + 1, rest, hv, _, hf => by
    have hend : Ends (']' :: rest) := ends_cons (by decide) rest
    rw [writeItems, List.length_append, List.length_singleton] at hf
    rw [writeItems, List.append_assoc, List.singleton_append]
    exact readItems_close (read_write v fuel _ hv (by omega) hend)
  | v, w :: vs, fuel + 1, rest, hv, hvs, hf => by
    rw [ExactItems] at hvs
    have hend : Ends (',' :: (write w ++ writeItems vs ++ rest)) := ends_cons (by decide) _
    rw [writeItems, List.length_append, List.length_cons] at hf
    have hrest := readItems_write w vs fuel rest hvs.1 hvs.2 (by omega)
    rw [writeItems, List.append_assoc, List.cons_append, readItems_comma (read_write v fuel _ hv (by omega) hend),
      List.append_assoc, skipBlanks_write hvs.1, ← List.append_assoc, hrest]
    rfl

theorem readFields_write : ∀ (k : String) (v : Json) (fs : List (String × Json)) (fuel : Nat) (rest : List Char),
    v.Exact → ExactFields fs → (writeString k ++ ':' :: (write v ++ writeFields fs)).length ≤ fuel →
      readFields fuel (writeString k ++ ':' :: (write v ++ writeFields fs) ++ rest) = some ((k, v) :: fs, rest)
  | _, _, _, 0, _, _, _, hf => by
    cases hf
  | k, v, [], fuel + 1, rest, hv, _, hf => by
    have hend : Ends ('}' :: rest) := ends_cons (by decide) rest
    rw [writeFields, List.length_append, List.length_cons, List.length_append, List.length_singleton] at hf
    have hread := read_write v fuel _ hv (by omega) hend
    rw [← skipBlanks_write hv] at hread
    rw [writeFields, writeString, List.cons_append, List.cons_append, List.append_assoc, List.cons_append,
      List.append_assoc, List.singleton_append, readFields_close (readChars_writeChars _ _) hread, String.ofList_toList]
  | k, v, (l, w) :: fs, fuel + 1, rest, hv, hfs, hf => by
    rw [ExactFields] at hfs
    have hend : Ends (',' :: (writeString l ++ ':' :: (write w ++ writeFields fs) ++ rest)) := ends_cons (by decide) _
    rw [writeFields, List.length_append, List.length_cons, List.length_append, List.length_cons] at hf
    have hread := read_write v fuel _ hv (by omega) hend
    rw [← skipBlanks_write hv] at hread
    have hrest := readFields_write l w fs fuel rest hfs.1 hfs.2 (by omega)
    rw [writeFields, writeString, List.cons_append, List.cons_append, List.append_assoc, List.cons_append,
      List.append_assoc, List.cons_append, readFields_comma (readChars_writeChars _ _) hread, List.append_assoc,
      skipBlanks_writeString, ← List.append_assoc, hrest, Option.map_some, String.ofList_toList]

end

/-- **What `dumps` writes `loads` reads**, whatever blanks follow it. -/
theorem loads_dumps {v : Json} (hv : v.Exact) (blanks : List Char) (hb : ∀ c ∈ blanks, isBlank c = true) :
    loads (dumps v ++ String.ofList blanks) = some v := by
  have htext : (dumps v ++ String.ofList blanks).toList = write v ++ blanks := by simp [dumps]
  have hend : Ends blanks := by
    intro c hc
    have hblank := hb c (List.mem_of_mem_head? hc)
    simp only [isBlank, Bool.or_eq_true, beq_iff_eq] at hblank
    rcases hblank with ((rfl | rfl) | rfl) | rfl <;> decide
  unfold loads
  rw [htext, skipBlanks_write hv, read_write v _ blanks hv (by simp; omega) hend]
  dsimp only
  rw [if_pos]
  exact List.dropWhile_eq_nil_iff.2 hb

/-! ## Dictionaries -/

mutual

/-- Distinct keys in every dictionary: what a Python dictionary has. -/
def Distinct : Json → Prop
  | .arr items => DistinctItems items
  | .obj fields => (fields.map Prod.fst).Nodup ∧ DistinctFields fields
  | _ => True

def DistinctItems : List Json → Prop
  | [] => True
  | v :: vs => Distinct v ∧ DistinctItems vs

def DistinctFields : List (String × Json) → Prop
  | [] => True
  | (_, v) :: fs => Distinct v ∧ DistinctFields fs

end

@[simp] theorem distinct_arr (items : List Json) : (Json.arr items).Distinct ↔ ∀ v ∈ items, v.Distinct := by
  rw [Distinct]
  induction items with
  | nil => simp [DistinctItems]
  | cons v vs ih => simp [DistinctItems, ih]

@[simp] theorem distinct_obj (fields : List (String × Json)) :
    (Json.obj fields).Distinct ↔ (fields.map Prod.fst).Nodup ∧ ∀ f ∈ fields, f.2.Distinct := by
  have hvalues : DistinctFields fields ↔ ∀ f ∈ fields, f.2.Distinct := by
    induction fields with
    | nil => simp [DistinctFields]
    | cons f fs ih => rw [DistinctFields, ih, List.forall_mem_cons]
  rw [Distinct, hvalues]

mutual

/-- Python's equality of JSON values: the entries of a dictionary may stand in any order. -/
inductive Same : Json → Json → Prop
  | refl (v : Json) : Same v v
  | arr {items items' : List Json} (h : SameItems items items') : Same (.arr items) (.arr items')
  | obj {fields shuffled fields' : List (String × Json)} (h : SameFields fields shuffled)
      (hperm : shuffled.Perm fields') :
      Same (.obj fields) (.obj fields')

inductive SameItems : List Json → List Json → Prop
  | nil : SameItems [] []
  | cons {v v' : Json} {vs vs' : List Json} (h : Same v v') (rest : SameItems vs vs') : SameItems (v :: vs) (v' :: vs')

inductive SameFields : List (String × Json) → List (String × Json) → Prop
  | nil : SameFields [] []
  | cons {k : String} {v v' : Json} {fs fs' : List (String × Json)} (h : Same v v') (rest : SameFields fs fs') :
      SameFields ((k, v) :: fs) ((k, v') :: fs')

end

end Json
end Lib
end PicoRecorder
