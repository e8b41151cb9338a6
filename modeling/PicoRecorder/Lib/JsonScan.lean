import PicoRecorder.Lib.Json
/-!
# JsonScan — where the reading of a JSON text stops

`scan` reads what `read` of Json reads, and tells why it stops: at the first place that is no JSON, at an integer with
more digits than the interpreter converts, or at a bracket with as many open around it as the interpreter's recursion
allows.  `\u` escapes of surrogates are read in pairs; a lone one stands for no character and is kept as U+FFFD.
-/
namespace PicoRecorder
namespace Lib
namespace Json

inductive ScanError where
  | malformed | tooManyDigits | tooDeep
  /-- The fuel ran out; `scanText` never ends so. -/
  | exhausted
  deriving DecidableEq, Repr

/-- What the interpreter puts up with; without a limit of digits any integer is converted. -/
structure Limits where
  digits : Option Nat
  depth : Nat
  deriving DecidableEq, Repr

abbrev Scanned (α : Type) := Except ScanError (α × List Char)

def orMalformed {α : Type} : Option α → Except ScanError α
  | some a => .ok a
  | none => .error .malformed

/-- The number of a `\u` escape. -/
def codeUnit? (a b c d : Char) : Option Nat := do
  some ((← hexValue? a) * 4096 + (← hexValue? b) * 256 + (← hexValue? c) * 16 + (← hexValue? d))

/-- A string after its opening quote, in code units, and the text after its closing one. -/
def scanChars : List Char → Option (List Nat × List Char)
  | [] => none
  | '"' :: rest => some ([], rest)
  | '\\' :: 'u' :: a :: b :: c :: d :: rest => do
    let unit ← codeUnit? a b c d
    let (units, rest) ← scanChars rest
    some (unit :: units, rest)
  | '\\' :: c :: rest => do
    let char ← escaped? c
    let (units, rest) ← scanChars rest
    some (char.toNat :: units, rest)
  | c :: rest =>
    if c.toNat < 32 then none
    else do
      let (units, rest) ← scanChars rest
      some (c.toNat :: units, rest)

def isSurrogate (n : Nat) : Bool := 0xD800 ≤ n && n ≤ 0xDFFF

def unitChar (n : Nat) : Char := if isSurrogate n then Char.ofNat 0xFFFD else Char.ofNat n

/-- The characters of some code units: a high surrogate and a low one right behind it make one. -/
def joinUnits : List Nat → List Char
  | [] => []
  | [n] => [unitChar n]
  | n :: m :: rest =>
    if 0xD800 ≤ n ∧ n ≤ 0xDBFF ∧ 0xDC00 ≤ m ∧ m ≤ 0xDFFF then
      Char.ofNat (0x10000 + (n - 0xD800) * 0x400 + (m - 0xDC00)) :: joinUnits rest
    else unitChar n :: joinUnits (m :: rest)

def scanString (cs : List Char) : Scanned String :=
  orMalformed ((scanChars cs).map (fun r => (String.ofList (joinUnits r.1), r.2)))

/-- A number after its sign. -/
def scanNumber (limits : Limits) (negative : Bool) (cs : List Char) : Scanned Json :=
  (orMalformed (readDigits cs)).bind (fun r =>
    let (fraction, rest) := readFraction r.2
    let (exponent, rest) := readExponent rest
    if fraction = [] ∧ exponent = [] then
      if limits.digits.any (fun limit => limit < r.1.length) then .error .tooManyDigits
      else
        let n : Nat := Nat.ofDigitChars 10 r.1 0
        .ok (.int (if negative then -n else n), rest)
    else .ok (.float (String.ofList ((if negative then ['-'] else []) ++ r.1 ++ fraction ++ exponent)), rest))

mutual

/-- A value at the front of a text without leading blanks, with the number of brackets open around it. -/
def scan (limits : Limits) : Nat → Nat → List Char → Scanned Json
  | 0, _, _ => .error .exhausted
  | fuel + 1, depth, cs =>
    match cs with
    | 'n' :: 'u' :: 'l' :: 'l' :: rest => .ok (.null, rest)
    | 't' :: 'r' :: 'u' :: 'e' :: rest => .ok (.bool true, rest)
    | 'f' :: 'a' :: 'l' :: 's' :: 'e' :: rest => .ok (.bool false, rest)
    | '"' :: rest => (scanString rest).map (fun r => (.str r.1, r.2))
    | '[' :: rest =>
      if limits.depth ≤ depth then .error .tooDeep
      else
        match skipBlanks rest with
        | ']' :: rest => .ok (.arr [], rest)
        | rest => (scanItems limits fuel (depth + 1) rest).map (fun r => (.arr r.1, r.2))
    | '{' :: rest =>
      if limits.depth ≤ depth then .error .tooDeep
      else
        match skipBlanks rest with
        | '}' :: rest => .ok (.obj [], rest)
        | rest => (scanFields limits fuel (depth + 1) rest).map (fun r => (.obj (dictOf r.1), r.2))
    | 'N' :: 'a' :: 'N' :: rest => .ok (.float "NaN", rest)
    | 'I' :: 'n' :: 'f' :: 'i' :: 'n' :: 'i' :: 't' :: 'y' :: rest => .ok (.float "Infinity", rest)
    | '-' :: 'I' :: 'n' :: 'f' :: 'i' :: 'n' :: 'i' :: 't' :: 'y' :: rest => .ok (.float "-Infinity", rest)
    | '-' :: rest => scanNumber limits true rest
    | cs => scanNumber limits false cs

/-- The items of an array from the first one on, and the text after the bracket. -/
def scanItems (limits : Limits) : Nat → Nat → List Char → Scanned (List Json)
  | 0, _, _ => .error .exhausted
  | fuel + 1, depth, cs =>
    (scan limits fuel depth cs).bind (fun r =>
      match skipBlanks r.2 with
      | ',' :: rest => (scanItems limits fuel depth (skipBlanks rest)).map (fun s => (r.1 :: s.1, s.2))
      | ']' :: rest => .ok ([r.1], rest)
      | _ => .error .malformed)

/-- The fields of an object from the first one on, and the text after the brace. -/
def scanFields (limits : Limits) : Nat → Nat → List Char → Scanned (List (String × Json))
  | 0, _, _ => .error .exhausted
  | fuel + 1, depth, cs =>
    match cs with
    | '"' :: cs =>
      (scanString cs).bind (fun k =>
        match skipBlanks k.2 with
        | ':' :: rest =>
          (scan limits fuel depth (skipBlanks rest)).bind (fun r =>
            match skipBlanks r.2 with
            | ',' :: rest => (scanFields limits fuel depth (skipBlanks rest)).map (fun s => ((k.1, r.1) :: s.1, s.2))
            | '}' :: rest => .ok ([(k.1, r.1)], rest)
            | _ => .error .malformed)
        | _ => .error .malformed)
    | _ => .error .malformed

end

/-- `json.loads`: one value and nothing but blanks around it. -/
def scanText (limits : Limits) (cs : List Char) : Except ScanError Json :=
  match scan limits (2 * cs.length + 2) 0 (skipBlanks cs) with
  | .ok (v, rest) => if skipBlanks rest = [] then .ok v else .error .malformed
  | .error e => .error e

/-! ## How a scan ends -/

/-- The brackets of a text, in strings and out of them. -/
def brackets (cs : List Char) : Nat := cs.countP (fun c => c == '[' || c == '{')

/-- What a scan of `cs` inside `depth` brackets comes to: it takes a part of the text, and each error has its reason in
it. -/
def Outcome {α : Type} (limits : Limits) (fuel spare depth : Nat) (cs : List Char) : Scanned α → Prop
  | .ok (_, rest) => rest <:+ cs ∧ rest.length < cs.length
  | .error .malformed => True
  | .error .tooManyDigits =>
    ∃ run, run <:+: cs ∧ (∀ c ∈ run, c.isDigit = true) ∧ limits.digits.any (fun limit => limit < run.length) = true
  | .error .tooDeep => limits.depth < depth + brackets cs
  | .error .exhausted => fuel ≤ 2 * cs.length + spare

variable {α β : Type} {limits : Limits} {fuel spare depth : Nat} {cs rest : List Char}

theorem brackets_suffix (h : rest <:+ cs) : brackets rest ≤ brackets cs := h.sublist.countP_le

theorem brackets_open {c : Char} (hc : (c == '[' || c == '{') = true) (cs : List Char) :
    brackets (c :: cs) = brackets cs + 1 := by
  simp [brackets, hc]

theorem skipBlanks_suffix (cs : List Char) : skipBlanks cs <:+ cs := List.dropWhile_suffix _

/-- What holds of the scan of a later part of the text holds of the whole. -/
theorem Outcome.widen {fuel' spare' depth' : Nat} {x : Scanned α}
    (h : Outcome limits fuel spare depth rest x) (hrest : rest <:+ cs)
    (hdepth : depth + brackets rest ≤ depth' + brackets cs)
    (hfuel : fuel ≤ 2 * rest.length + spare → fuel' ≤ 2 * cs.length + spare') :
    Outcome limits fuel' spare' depth' cs x := by
  have hlen := hrest.length_le
  match x, h with
  | .ok (a, after), ⟨hafter, hshort⟩ => exact ⟨hafter.trans hrest, by omega⟩
  | .error .malformed, _ => exact trivial
  | .error .tooManyDigits, ⟨run, hrun, hdigits, hlimit⟩ => exact ⟨run, hrun.trans hrest.isInfix, hdigits, hlimit⟩
  | .error .tooDeep, h => exact Nat.lt_of_lt_of_le h hdepth
  | .error .exhausted, h => exact hfuel h

theorem Outcome.map {x : Scanned α} (f : α → β) (h : Outcome limits fuel spare depth cs x) :
    Outcome limits fuel spare depth cs (x.map (fun r => (f r.1, r.2))) := by
  match x, h with
  | .ok (a, after), h => exact h
  | .error .malformed, _ => exact trivial
  | .error .tooManyDigits, h => exact h
  | .error .tooDeep, h => exact h
  | .error .exhausted, h => exact h

/-- A scan followed by one of what it leaves. -/
theorem Outcome.bind {x : Scanned α} {f : α × List Char → Scanned β} (h : Outcome limits fuel spare depth cs x)
    (hf : ∀ a rest, rest <:+ cs → rest.length < cs.length → Outcome limits fuel spare depth cs (f (a, rest))) :
    Outcome limits fuel spare depth cs (x.bind f) := by
  match x, h with
  | .ok (a, after), ⟨hafter, hshort⟩ => exact hf a after hafter hshort
  | .error .malformed, _ => exact trivial
  | .error .tooManyDigits, h => exact h
  | .error .tooDeep, h => exact h
  | .error .exhausted, h => exact h

theorem scanChars_suffix : ∀ (cs : List Char) (units : List Nat) (rest : List Char),
    scanChars cs = some (units, rest) → rest <:+ cs ∧ rest.length < cs.length := by
  intro cs
  fun_induction scanChars cs with
  | case1 => exact fun _ _ h => by cases h
  | case2 rest =>
    intro units after h
    cases h
    exact ⟨List.suffix_cons _ _, by simp⟩
  | case3 a b c d rest ih =>
    intro units after h
    obtain ⟨unit, -, h⟩ := Option.bind_eq_some_iff.1 h
    obtain ⟨⟨more, left⟩, hmore, h⟩ := Option.bind_eq_some_iff.1 h
    cases h
    obtain ⟨hsuffix, hshort⟩ := ih _ _ hmore
    exact ⟨hsuffix.trans ⟨['\\', 'u', a, b, c, d], rfl⟩, by simp only [List.length_cons]; omega⟩
  | case4 c rest hnot ih =>
    intro units after h
    obtain ⟨char, -, h⟩ := Option.bind_eq_some_iff.1 h
    obtain ⟨⟨more, left⟩, hmore, h⟩ := Option.bind_eq_some_iff.1 h
    cases h
    obtain ⟨hsuffix, hshort⟩ := ih _ _ hmore
    exact ⟨hsuffix.trans ⟨['\\', c], rfl⟩, by simp only [List.length_cons]; omega⟩
  | case5 c rest _ _ _ hlow => exact fun _ _ h => by cases h
  | case6 c rest _ _ _ hlow ih =>
    intro units after h
    obtain ⟨⟨more, left⟩, hmore, h⟩ := Option.bind_eq_some_iff.1 h
    cases h
    obtain ⟨hsuffix, hshort⟩ := ih _ _ hmore
    exact ⟨hsuffix.trans (List.suffix_cons _ _), by simp only [List.length_cons]; omega⟩

theorem scanString_outcome (limits : Limits) (fuel spare depth : Nat) (cs : List Char) :
    Outcome limits fuel spare depth cs (scanString cs) := by
  unfold scanString
  cases h : scanChars cs with
  | none => exact trivial
  | some r =>
    exact scanChars_suffix cs r.1 r.2 h

theorem readDigits_split {digits : List Char} (h : readDigits cs = some (digits, rest)) :
    cs = digits ++ rest ∧ digits ≠ [] ∧ ∀ c ∈ digits, c.isDigit = true := by
  unfold readDigits at h
  split at h
  · cases h
    exact ⟨rfl, by simp, by simp [Char.isDigit]⟩
  · split at h
    · cases h
    · rename_i hne
      cases h
      exact ⟨List.takeWhile_append_dropWhile.symm, hne, fun c hc => List.mem_takeWhile_imp hc⟩

theorem readFraction_suffix (cs : List Char) : (readFraction cs).2 <:+ cs := by
  unfold readFraction
  split
  · split
    · exact List.suffix_refl _
    · exact (List.dropWhile_suffix _).trans (List.suffix_cons _ _)
  · exact List.suffix_refl _

theorem readExponent_suffix (cs : List Char) : (readExponent cs).2 <:+ cs := by
  unfold readExponent
  split
  · exact List.suffix_refl _
  · dsimp only
    split
    · exact List.suffix_refl _
    · exact ((List.dropWhile_suffix _).trans (List.drop_suffix _ _)).trans (List.suffix_cons _ _)

theorem scanNumber_outcome (limits : Limits) (fuel spare depth : Nat) (negative : Bool) (cs : List Char) :
    Outcome limits fuel spare depth cs (scanNumber limits negative cs) := by
  unfold scanNumber
  cases h : readDigits cs with
  | none => exact trivial
  | some r =>
    obtain ⟨hsplit, hne, hdigits⟩ := readDigits_split h
    have hpos := List.length_pos_iff.2 hne
    have hrest : r.2 <:+ cs := ⟨r.1, hsplit.symm⟩
    have hshort : r.2.length < cs.length := by
      rw [hsplit, List.length_append]
      omega
    have hafter := (readExponent_suffix (readFraction r.2).2).trans (readFraction_suffix r.2)
    have hlen := hafter.length_le
    simp only [orMalformed, Except.bind]
    split
    · split
      · rename_i hlimit
        exact ⟨r.1, ⟨[], r.2, by simpa using hsplit.symm⟩, hdigits, hlimit⟩
      · exact ⟨hafter.trans hrest, by omega⟩
    · exact ⟨hafter.trans hrest, by omega⟩

/-- A scan of a part that begins later. -/
theorem Outcome.later {spare' : Nat} {x : Scanned α} (h : Outcome limits fuel spare depth rest x)
    (hrest : rest <:+ cs) (hshort : rest.length < cs.length) (hspare : spare ≤ spare' + 1) :
    Outcome limits (fuel + 1) spare' depth cs x := by
  have := brackets_suffix hrest
  exact h.widen hrest (by omega) (by omega)

/-- A scan of what stands inside a bracket. -/
theorem Outcome.inside {c : Char} {x : Scanned α} (hc : (c == '[' || c == '{') = true)
    (h : Outcome limits fuel 1 (depth + 1) (skipBlanks cs) x) : Outcome limits (fuel + 1) 0 depth (c :: cs) x := by
  have hsuffix := skipBlanks_suffix cs
  have hlen := hsuffix.length_le
  have hinner := brackets_suffix hsuffix
  have hopen := brackets_open hc cs
  refine h.widen (hsuffix.trans (List.suffix_cons _ _)) (by omega) ?_
  simp only [List.length_cons]
  omega

theorem word_suffix (c : Char) (word rest : List Char) :
    rest <:+ c :: (word ++ rest) ∧ rest.length < (c :: (word ++ rest)).length := by
  refine ⟨(List.suffix_append word rest).trans (List.suffix_cons _ _), ?_⟩
  rw [List.length_cons, List.length_append]
  omega

theorem blanks_suffix {c : Char} {after : List Char} (h : skipBlanks rest = c :: after) :
    after <:+ rest ∧ after.length < rest.length := by
  have hsuffix : c :: after <:+ rest := h ▸ skipBlanks_suffix rest
  exact ⟨(List.suffix_cons _ _).trans hsuffix, hsuffix.length_le⟩

mutual

/-- **How a scan ends**: with a value and less text, or with an error that has its reason in the text. -/
theorem scan_outcome (limits : Limits) : ∀ (fuel depth : Nat) (cs : List Char),
    Outcome limits fuel 0 depth cs (scan limits fuel depth cs)
  | 0, _, _ => by
    rw [scan]
    exact Nat.zero_le _
  | fuel + 1, depth, cs => by
    unfold scan
    split
    · exact word_suffix 'n' ['u', 'l', 'l'] _
    · exact word_suffix 't' ['r', 'u', 'e'] _
    · exact word_suffix 'f' ['a', 'l', 's', 'e'] _
    · rename_i rest
      have hstring := (scanString_outcome limits fuel 0 depth rest).map Json.str
      exact hstring.later (List.suffix_cons _ _) (by simp) (by omega)
    · rename_i rest
      split
      · rename_i hdepth
        show limits.depth < depth + brackets ('[' :: rest)
        rw [brackets_open rfl]
        omega
      split
      · rename_i after hblanks
        obtain ⟨hsuffix, hshort⟩ := blanks_suffix hblanks
        exact ⟨hsuffix.trans (List.suffix_cons _ _), Nat.lt_succ_of_lt hshort⟩
      · exact ((scanItems_outcome limits fuel (depth + 1) (skipBlanks rest)).map Json.arr).inside rfl
    · rename_i rest
      split
      · rename_i hdepth
        show limits.depth < depth + brackets ('{' :: rest)
        rw [brackets_open rfl]
        omega
      split
      · rename_i after hblanks
        obtain ⟨hsuffix, hshort⟩ := blanks_suffix hblanks
        exact ⟨hsuffix.trans (List.suffix_cons _ _), Nat.lt_succ_of_lt hshort⟩
      · exact ((scanFields_outcome limits fuel (depth + 1) (skipBlanks rest)).map
          (fun fields => Json.obj (dictOf fields))).inside rfl
    · exact word_suffix 'N' ['a', 'N'] _
    · exact word_suffix 'I' ['n', 'f', 'i', 'n', 'i', 't', 'y'] _
    · exact word_suffix '-' ['I', 'n', 'f', 'i', 'n', 'i', 't', 'y'] _
    · rename_i rest _
      exact (scanNumber_outcome limits fuel 0 depth true rest).later (List.suffix_cons _ _) (by simp) (by omega)
    · exact scanNumber_outcome limits (fuel + 1) 0 depth false cs

theorem scanItems_outcome (limits : Limits) : ∀ (fuel depth : Nat) (cs : List Char),
    Outcome limits fuel 1 depth cs (scanItems limits fuel depth cs)
  | 0, _, _ => by
    rw [scanItems]
    exact Nat.zero_le _
  | fuel + 1, depth, cs => by
    rw [scanItems]
    have hfirst := (scan_outcome limits fuel depth cs).widen (List.suffix_refl cs) (Nat.le_refl _)
      (show fuel ≤ 2 * cs.length + 0 → fuel + 1 ≤ 2 * cs.length + 1 by omega)
    refine hfirst.bind (fun v rest hrest hshort => ?_)
    dsimp only
    split
    · rename_i after hblanks
      obtain ⟨hafter, hless⟩ := blanks_suffix hblanks
      have hblank := skipBlanks_suffix after
      have := hblank.length_le
      refine Outcome.later ?_ ((hblank.trans hafter).trans hrest) (by omega) (Nat.le_succ 1)
      exact (scanItems_outcome limits fuel depth _).map (fun vs => v :: vs)
    · rename_i after hblanks
      obtain ⟨hafter, hless⟩ := blanks_suffix hblanks
      exact ⟨hafter.trans hrest, by omega⟩
    · exact trivial

theorem scanFields_outcome (limits : Limits) : ∀ (fuel depth : Nat) (cs : List Char),
    Outcome limits fuel 1 depth cs (scanFields limits fuel depth cs)
  | 0, _, _ => by
    rw [scanFields]
    exact Nat.zero_le _
  | fuel + 1, depth, cs => by
    unfold scanFields
    split
    · rename_i cs
      have hkey := (scanString_outcome limits fuel 0 depth cs).later (List.suffix_cons '"' cs) (by simp)
        (show 0 ≤ 1 + 1 by omega)
      refine hkey.bind (fun key rest hrest hshort => ?_)
      dsimp only
      split
      · rename_i after hblanks
        obtain ⟨hafter, hless⟩ := blanks_suffix hblanks
        have hblank := skipBlanks_suffix after
        have := hblank.length_le
        have hvalue := (scan_outcome limits fuel depth (skipBlanks after)).later ((hblank.trans hafter).trans hrest)
          (by omega) (show 0 ≤ 1 + 1 by omega)
        refine hvalue.bind (fun v left hleft hshort => ?_)
        dsimp only
        split
        · rename_i after hblanks
          obtain ⟨hafter, hless⟩ := blanks_suffix hblanks
          have hblank := skipBlanks_suffix after
          have := hblank.length_le
          refine Outcome.later ?_ ((hblank.trans hafter).trans hleft) (by omega) (Nat.le_succ 1)
          exact (scanFields_outcome limits fuel depth _).map (fun fs => (key, v) :: fs)
        · rename_i after hblanks
          obtain ⟨hafter, hless⟩ := blanks_suffix hblanks
          exact ⟨hafter.trans hleft, by omega⟩
        · exact trivial
      · exact trivial
    · exact trivial

end

/-- **Reading a text ends**, and each way has its reason: an integer that is too long is a run of digits of the text,
and a nesting that is too deep has that many brackets. -/
theorem scanText_outcome (limits : Limits) (cs : List Char) :
    match scanText limits cs with
    | .ok _ | .error .malformed => True
    | .error .tooManyDigits =>
      ∃ run, run <:+: cs ∧ (∀ c ∈ run, c.isDigit = true) ∧ limits.digits.any (fun limit => limit < run.length) = true
    | .error .tooDeep => limits.depth < brackets cs
    | .error .exhausted => False := by
  have hsuffix := skipBlanks_suffix cs
  have hlen := hsuffix.length_le
  have hbrackets := brackets_suffix hsuffix
  have h := scan_outcome limits (2 * cs.length + 2) 0 (skipBlanks cs)
  unfold scanText
  match hscan : scan limits (2 * cs.length + 2) 0 (skipBlanks cs) with
  | .ok (v, rest) =>
    dsimp only
    by_cases hrest : skipBlanks rest = []
    · rw [if_pos hrest]
      exact trivial
    · rw [if_neg hrest]
      exact trivial
  | .error .malformed => exact trivial
  | .error .tooManyDigits =>
    rw [hscan] at h
    obtain ⟨run, hrun, hdigits, hlimit⟩ := h
    exact ⟨run, hrun.trans hsuffix.isInfix, hdigits, hlimit⟩
  | .error .tooDeep =>
    rw [hscan] at h
    simp only [Outcome] at h ⊢
    omega
  | .error .exhausted =>
    rw [hscan] at h
    simp only [Outcome] at h
    omega

/-! ## What `loads` reads -/

theorem not_surrogate (c : Char) : ¬(0xD800 ≤ c.toNat ∧ c.toNat ≤ 0xDFFF) := by
  have hvalid := c.valid
  simp only [UInt32.isValidChar, Nat.isValidChar] at hvalid
  show ¬(0xD800 ≤ c.val.toNat ∧ c.val.toNat ≤ 0xDFFF)
  omega

theorem joinUnits_toNat : ∀ chars : List Char, joinUnits (chars.map Char.toNat) = chars
  | [] => rfl
  | [c] => by
    have hc := not_surrogate c
    simp [joinUnits, unitChar, isSurrogate, Char.ofNat_toNat]
    omega
  | c :: d :: chars => by
    have hc := not_surrogate c
    have ih := joinUnits_toNat (d :: chars)
    rw [List.map_cons] at ih
    have hunit : unitChar c.toNat = c := by
      simp [unitChar, isSurrogate, Char.ofNat_toNat]
      omega
    rw [List.map_cons, List.map_cons, joinUnits, if_neg (by omega), hunit, ih]

theorem hexValue?_lt {c : Char} {n : Nat} (h : hexValue? c = some n) : n < 16 := by
  have hle : ∀ {x y : Char}, x ≤ y → x.toNat ≤ y.toNat := fun h => h
  unfold hexValue? at h
  split at h
  · rename_i hdigit
    cases h
    simp only [Char.isDigit, Bool.and_eq_true, decide_eq_true_eq] at hdigit
    have := hle (x := c) (y := '9') hdigit.2
    have h9 : '9'.toNat = 57 := rfl
    omega
  split at h
  · rename_i hlower
    cases h
    have := hle hlower.2
    have hf : 'f'.toNat = 102 := rfl
    omega
  split at h
  · rename_i hupper
    cases h
    have := hle hupper.2
    have hF : 'F'.toNat = 70 := rfl
    omega
  · cases h

theorem codeUnit?_of_unicode? {a b c d char : Char} (h : unicode? a b c d = some char) :
    codeUnit? a b c d = some char.toNat := by
  obtain ⟨x, hx, h⟩ := Option.bind_eq_some_iff.1 h
  obtain ⟨y, hy, h⟩ := Option.bind_eq_some_iff.1 h
  obtain ⟨z, hz, h⟩ := Option.bind_eq_some_iff.1 h
  obtain ⟨w, hw, h⟩ := Option.bind_eq_some_iff.1 h
  have hxlt := hexValue?_lt hx
  have hylt := hexValue?_lt hy
  have hzlt := hexValue?_lt hz
  have hwlt := hexValue?_lt hw
  dsimp only at h
  split at h
  · cases h
  rename_i hcode
  cases h
  have hnat : (Char.ofNat (x * 4096 + y * 256 + z * 16 + w)).toNat = x * 4096 + y * 256 + z * 16 + w := by
    rw [Char.ofNat, dif_pos (by simp only [Nat.isValidChar]; omega)]
    rfl
  simp [codeUnit?, hx, hy, hz, hw, hnat]

theorem scanChars_of_readChars : ∀ (cs chars rest : List Char), readChars cs = some (chars, rest) →
    scanChars cs = some (chars.map Char.toNat, rest) := by
  intro cs
  fun_induction readChars cs with
  | case1 => exact fun _ _ h => by cases h
  | case2 rest =>
    intro chars after h
    cases h
    rfl
  | case3 a b c d rest ih =>
    intro chars after h
    obtain ⟨char, hchar, h⟩ := Option.bind_eq_some_iff.1 h
    obtain ⟨⟨more, left⟩, hmore, h⟩ := Option.bind_eq_some_iff.1 h
    cases h
    simp [scanChars, codeUnit?_of_unicode? hchar, ih _ _ hmore]
  | case4 c rest hnot ih =>
    intro chars after h
    obtain ⟨char, hchar, h⟩ := Option.bind_eq_some_iff.1 h
    obtain ⟨⟨more, left⟩, hmore, h⟩ := Option.bind_eq_some_iff.1 h
    cases h
    rw [scanChars]
    · simp [hchar, ih _ _ hmore]
    · exact hnot
  | case5 c rest _ _ _ hlow => exact fun _ _ h => by cases h
  | case6 c rest hquote hescape hlone hlow ih =>
    intro chars after h
    obtain ⟨⟨more, left⟩, hmore, h⟩ := Option.bind_eq_some_iff.1 h
    cases h
    rw [scanChars]
    · simp [hlow, ih _ _ hmore]
    · exact hquote
    · exact hescape
    · exact hlone

theorem scanString_of_readChars {chars : List Char} (h : readChars cs = some (chars, rest)) :
    scanString cs = .ok (String.ofList chars, rest) := by
  unfold scanString
  rw [scanChars_of_readChars cs chars rest h]
  simp [orMalformed, joinUnits_toNat]

/-- The scan ends at what is read, or at a limit of the interpreter. -/
def Agrees (x : Option (α × List Char)) (y : Scanned α) : Prop :=
  ∀ r, x = some r → y = .ok r ∨ y = .error .tooManyDigits ∨ y = .error .tooDeep

theorem Agrees.map {x : Option (α × List Char)} {y : Scanned α} (h : Agrees x y) (f : α × List Char → β × List Char) :
    Agrees (x.map f) (y.map f) := by
  intro r hr
  obtain ⟨a, ha, rfl⟩ := Option.map_eq_some_iff.1 hr
  rcases h a ha with rfl | rfl | rfl
  · exact .inl rfl
  · exact .inr (.inl rfl)
  · exact .inr (.inr rfl)

theorem Agrees.bind {x : Option (α × List Char)} {y : Scanned α} {f : α × List Char → Option (β × List Char)}
    {g : α × List Char → Scanned β} (h : Agrees x y) (hfg : ∀ r, Agrees (f r) (g r)) :
    Agrees (x.bind f) (y.bind g) := by
  intro r hr
  obtain ⟨a, ha, hf⟩ := Option.bind_eq_some_iff.1 hr
  rcases h a ha with rfl | rfl | rfl
  · exact hfg a r hf
  · exact .inr (.inl rfl)
  · exact .inr (.inr rfl)

theorem Agrees.ok (r : α × List Char) : Agrees (some r) (.ok r) :=
  fun _ h => .inl (congrArg Except.ok (Option.some.inj h))

theorem Agrees.none (y : Scanned α) : Agrees none y := fun _ h => by cases h

/-- The scan may stop at the depth of the text, which `read` does not look at. -/
theorem Agrees.guarded {p : Prop} [Decidable p] {x : Option (α × List Char)} {y : Scanned α} (h : Agrees x y) :
    Agrees x (if p then .error .tooDeep else y) := by
  split
  · exact fun r _ => .inr (.inr rfl)
  · exact h

theorem scanNumber_agrees (limits : Limits) (negative : Bool) (cs : List Char) :
    Agrees (readNumber negative cs) (scanNumber limits negative cs) := by
  intro r h
  unfold readNumber at h
  obtain ⟨⟨digits, rest⟩, hdigits, h⟩ := Option.bind_eq_some_iff.1 h
  unfold scanNumber
  rw [hdigits]
  simp only [orMalformed, Except.bind]
  dsimp only at h
  by_cases hint : (readFraction rest).1 = [] ∧ (readExponent (readFraction rest).2).1 = []
  · rw [if_pos hint] at h ⊢
    cases h
    split
    · exact .inr (.inl rfl)
    · exact .inl rfl
  · rw [if_neg hint] at h ⊢
    cases h
    exact .inl rfl

mutual

/-- **The scan reads what `read` reads**, unless a limit of the interpreter stops it first. -/
theorem scan_agrees (limits : Limits) : ∀ (fuel fuel' depth : Nat) (cs : List Char), fuel ≤ fuel' →
    Agrees (read fuel cs) (scan limits fuel' depth cs)
  | 0, _, _, _, _ => by
    intro r h
    rw [read] at h
    cases h
  | fuel + 1, 0, _, _, hfuel => absurd hfuel (by omega)
  | fuel + 1, fuel' + 1, depth, cs, hfuel => by
    unfold read
    split
    · rw [scan]
      exact .ok _
    · rw [scan]
      exact .ok _
    · rw [scan]
      exact .ok _
    · rw [scan]
      intro r h
      obtain ⟨s, hs, rfl⟩ := Option.map_eq_some_iff.1 h
      rw [scanString_of_readChars hs]
      exact .inl rfl
    · rw [scan]
      refine .guarded ?_
      generalize skipBlanks _ = blanks
      have hitems := (scanItems_agrees limits fuel fuel' (depth + 1) blanks (by omega)).map (fun r => (arr r.1, r.2))
      split
      · exact .ok _
      · rename_i hopen
        simpa only [hopen] using hitems
    · rw [scan]
      refine .guarded ?_
      generalize skipBlanks _ = blanks
      have hfields := (scanFields_agrees limits fuel fuel' (depth + 1) blanks (by omega)).map
        (fun r => (obj (dictOf r.1), r.2))
      split
      · exact .ok _
      · rename_i hopen
        simpa only [hopen] using hfields
    · rw [scan]
      exact .ok _
    · rw [scan]
      exact .ok _
    · rw [scan]
      exact .ok _
    · rename_i hnumber
      rw [scan]
      · exact scanNumber_agrees limits true _
      · exact hnumber
    · rw [scan]
      · exact scanNumber_agrees limits false _
      all_goals assumption

theorem scanItems_agrees (limits : Limits) : ∀ (fuel fuel' depth : Nat) (cs : List Char), fuel ≤ fuel' →
    Agrees (readItems fuel cs) (scanItems limits fuel' depth cs)
  | 0, _, _, _, _ => by
    intro r h
    rw [readItems] at h
    cases h
  | fuel + 1, 0, _, _, hfuel => absurd hfuel (by omega)
  | fuel + 1, fuel' + 1, depth, cs, hfuel => by
    rw [readItems, scanItems]
    refine (scan_agrees limits fuel fuel' depth cs (by omega)).bind (fun r => ?_)
    generalize skipBlanks r.2 = blanks
    split
    · exact (scanItems_agrees limits fuel fuel' depth _ (by omega)).map _
    · exact .ok _
    · exact .none _

theorem scanFields_agrees (limits : Limits) : ∀ (fuel fuel' depth : Nat) (cs : List Char), fuel ≤ fuel' →
    Agrees (readFields fuel cs) (scanFields limits fuel' depth cs)
  | 0, _, _, _, _ => by
    intro r h
    rw [readFields] at h
    cases h
  | fuel + 1, 0, _, _, hfuel => absurd hfuel (by omega)
  | fuel + 1, fuel' + 1, depth, cs, hfuel => by
    unfold readFields
    split
    · rename_i cs
      rw [scanFields]
      intro r h
      obtain ⟨k, hk, h⟩ := Option.bind_eq_some_iff.1 h
      rw [scanString_of_readChars hk]
      show Except.bind (.ok (String.ofList k.1, k.2)) _ = _ ∨ _
      simp only [Except.bind]
      refine (?_ : Agrees _ _) r h
      generalize skipBlanks k.2 = blanks
      split
      · refine (scan_agrees limits fuel fuel' depth _ (by omega)).bind (fun v => ?_)
        generalize skipBlanks v.2 = blanks
        split
        · exact (scanFields_agrees limits fuel fuel' depth _ (by omega)).map _
        · exact .ok _
        · exact .none _
      · exact .none _
    · exact .none _

end

/-- **A text that is read in full is scanned to the same value**, unless a limit of the interpreter stops it. -/
theorem scanText_of_loads {text : String} {v : Json} (limits : Limits) (h : loads text = some v) :
    scanText limits text.toList = .ok v ∨ scanText limits text.toList = .error .tooManyDigits ∨
      scanText limits text.toList = .error .tooDeep := by
  unfold loads at h
  split at h
  · rename_i value rest hread
    split at h
    · rename_i hrest
      cases h
      have hscan := scan_agrees limits (text.toList.length + 1) (2 * text.toList.length + 2) 0 _ (by omega) _ hread
      unfold scanText
      rcases hscan with hscan | hscan | hscan
      · rw [hscan]
        exact .inl (if_pos hrest)
      · rw [hscan]
        exact .inr (.inl rfl)
      · rw [hscan]
        exact .inr (.inr rfl)
    · cases h
  · cases h

end Json
end Lib
end PicoRecorder
