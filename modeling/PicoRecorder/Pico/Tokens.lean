import PicoRecorder.Pico.Firmware
import PicoRecorder.Pico.Grammar
/-!
# Tokens — a command stream as the mode sees it

The parser makes tokens of the stream: a command, or malformed bytes.  Without PLAY_START the mode is a small automaton
on tokens (`effect`): a session opens from PASS, whatever is malformed or out of place in it ends in ERROR, and only
MODE_SET(PASS) leads out.  An iteration of the main loop handles what was malformed first and the commands then
(`handled`), which is another token list; `modeOf_handled_iff` says when it leads elsewhere.
-/
namespace PicoRecorder
namespace Pico

inductive Token where
  | malformed
  | command (c : Frame)
  deriving DecidableEq

/-- The commands among some tokens. -/
def commandsOf (tokens : List Token) : List Frame :=
  tokens.filterMap (fun
    | .malformed => none
    | .command c => some c)

/-- Whether any token was malformed. -/
def anyMalformed (tokens : List Token) : Bool := tokens.contains .malformed

/-- The token a byte completes, if it completes one. -/
def token? (buffer : List UInt8) (byte : UInt8) : Option Token :=
  if Legal (buffer ++ [byte]) then none
  else
    match decodeCommand (buffer ++ [byte]) with
    | some c => some (.command c)
    | none => some .malformed

def nextBuffer (buffer : List UInt8) (byte : UInt8) : List UInt8 :=
  if Legal (buffer ++ [byte]) then buffer ++ [byte] else []

/-- The tokens of a stream, and what is left in the buffer. -/
def tokenize (buffer : List UInt8) : List UInt8 → List Token × List UInt8
  | [] => ([], buffer)
  | byte :: bytes =>
    let rest := tokenize (nextBuffer buffer byte) bytes
    ((token? buffer byte).toList ++ rest.1, rest.2)

/-- The tokens of each chunk of a stream. -/
def tokenRounds (buffer : List UInt8) : List (List UInt8) → List (List Token)
  | [] => []
  | chunk :: chunks =>
    let here := tokenize buffer chunk
    here.1 :: tokenRounds here.2 chunks

@[simp] theorem commandsOf_append (tokens more : List Token) :
    commandsOf (tokens ++ more) = commandsOf tokens ++ commandsOf more := by simp [commandsOf]

@[simp] theorem commandsOf_command (c : Frame) (tokens : List Token) :
    commandsOf (.command c :: tokens) = c :: commandsOf tokens := rfl

@[simp] theorem commandsOf_malformed (tokens : List Token) : commandsOf (.malformed :: tokens) = commandsOf tokens :=
  rfl

@[simp] theorem anyMalformed_append (tokens more : List Token) :
    anyMalformed (tokens ++ more) = (anyMalformed tokens || anyMalformed more) := by
  simp [anyMalformed]

@[simp] theorem anyMalformed_command (c : Frame) (tokens : List Token) :
    anyMalformed (.command c :: tokens) = anyMalformed tokens := by
  simp [anyMalformed]

@[simp] theorem anyMalformed_malformed (tokens : List Token) : anyMalformed (.malformed :: tokens) = true := by
  simp [anyMalformed]

theorem tokenize_append (bytes more : List UInt8) : ∀ buffer : List UInt8,
    tokenize buffer (bytes ++ more) =
      ((tokenize buffer bytes).1 ++ (tokenize (tokenize buffer bytes).2 more).1,
        (tokenize (tokenize buffer bytes).2 more).2) := by
  induction bytes with
  | nil => intro buffer; rfl
  | cons byte bytes ih =>
    intro buffer
    rw [List.cons_append, tokenize, ih]
    simp only [tokenize, List.append_assoc]

/-- **Chunks do not change the tokens**, only where they are told apart. -/
theorem flatten_tokenRounds : ∀ (chunks : List (List UInt8)) (buffer : List UInt8),
    (tokenRounds buffer chunks).flatten = (tokenize buffer chunks.flatten).1
  | [], _ => rfl
  | chunk :: chunks, buffer => by
    rw [tokenRounds, List.flatten_cons, List.flatten_cons, flatten_tokenRounds chunks, tokenize_append]

/-- A byte gives one token at most. -/
theorem length_tokenize_le : ∀ (bytes buffer : List UInt8), (tokenize buffer bytes).1.length ≤ bytes.length
  | [], _ => Nat.le_refl _
  | byte :: bytes, buffer => by
    have ih := length_tokenize_le bytes (nextBuffer buffer byte)
    have hone : (token? buffer byte).toList.length ≤ 1 := by cases token? buffer byte <;> simp
    simp only [tokenize, List.length_append, List.length_cons]
    omega

/-- **The tokens are what the grammar's parser makes of the stream.** -/
theorem foldl_feed_tokenize : ∀ (bytes : List UInt8) (p : Parse),
    bytes.foldl Parse.feed p = ⟨(tokenize p.buffer bytes).2, p.commands ++ commandsOf (tokenize p.buffer bytes).1,
      p.fault || anyMalformed (tokenize p.buffer bytes).1⟩
  | [], p => by simp [tokenize, commandsOf, anyMalformed]
  | byte :: bytes, p => by
    rw [List.foldl_cons, foldl_feed_tokenize bytes]
    simp only [tokenize, commandsOf_append, anyMalformed_append]
    by_cases h : Legal (p.buffer ++ [byte])
    · rw [feed_of_legal h]
      simp [token?, nextBuffer, h, commandsOf, anyMalformed]
    · cases hd : decodeCommand (p.buffer ++ [byte]) with
      | none =>
        rw [feed_reject h hd]
        simp [token?, nextBuffer, h, hd]
        simp [commandsOf]
      | some c =>
        have hfeed : p.feed byte = { p with buffer := [], commands := p.commands ++ [c] } := by
          unfold Parse.feed
          dsimp only
          rw [if_neg h, hd]
        rw [hfeed]
        simp [token?, nextBuffer, h, hd]
        simp [commandsOf, anyMalformed]

/-! ## The mode as an automaton -/

/-- MODE_SET(PASS). -/
def resets (c : Frame) : Bool := c.type == MsgType.modeSet.byte && c.payload.getD 0 0 == Mode.pass.byte

/-- MODE_SET(RECORD) and MODE_SET(ARMED). -/
def opens (c : Frame) : Bool :=
  c.type == MsgType.modeSet.byte && (c.payload.getD 0 0 == Mode.record.byte || c.payload.getD 0 0 == Mode.armed.byte)

/-- The mode an opening command asks for. -/
def openedMode (c : Frame) : Mode := targetMode (c.payload.getD 0 0)

/-- The three queue commands. -/
def streams (c : Frame) : Bool :=
  c.type == MsgType.queueClear.byte || c.type == MsgType.queueEvent.byte || c.type == MsgType.queueEnd.byte

/-- Where a fault leads. -/
def faultMode : Mode → Mode
  | .pass => .pass
  | _ => .error

/-- Where a command other than PLAY_START leads. -/
def commandMode (mode : Mode) (c : Frame) : Mode :=
  if resets c then .pass
  else if opens c then if mode = .pass then openedMode c else mode
  else if streams c then if queueCommandAllowed c.type mode then mode else faultMode mode
  else mode

def effect (mode : Mode) : Token → Mode
  | .malformed => faultMode mode
  | .command c => commandMode mode c

/-- The mode some tokens lead to from PASS. -/
def modeOf (tokens : List Token) : Mode := tokens.foldl effect .pass

/-- What an iteration that polls these tokens handles, in its order. -/
def handled (tokens : List Token) : List Token :=
  (if anyMalformed tokens then [.malformed] else []) ++ (commandsOf tokens).map .command

/-- The command that opened the session that is open after some commands, if one is. -/
def opener (cs : List Frame) : Option Frame :=
  cs.foldl (fun o c => if resets c then none else o.or (if opens c then some c else none)) none

theorem target_open {c : Frame} (h : opens c = true) :
    openedMode c = .record ∨ openedMode c = .armed := by
  simp only [opens, Bool.and_eq_true, Bool.or_eq_true, beq_iff_eq] at h
  unfold openedMode
  rcases h.2 with ht | ht
  · exact .inl (by rw [ht]; rfl)
  · exact .inr (by rw [ht]; rfl)

theorem target_ne_pass {c : Frame} (h : opens c = true) : openedMode c ≠ .pass := by
  rcases target_open h with ht | ht <;> rw [ht] <;> decide

theorem not_resets_of_opens {c : Frame} (h : opens c = true) : resets c = false := by
  simp only [opens, Bool.and_eq_true, Bool.or_eq_true, beq_iff_eq] at h
  have hne : c.payload.getD 0 0 ≠ Mode.pass.byte := by
    rcases h.2 with ht | ht <;> rw [ht] <;> decide
  unfold resets
  rw [beq_eq_false_iff_ne.2 hne, Bool.and_false]

@[simp] theorem faultMode_eq_pass {mode : Mode} : faultMode mode = .pass ↔ mode = .pass := by cases mode <;> decide

theorem faultMode_of_ne {mode : Mode} (h : mode ≠ .pass) : faultMode mode = .error := by
  cases mode <;> first | rfl | exact absurd rfl h

/-- **PASS is left by the opening commands and entered by MODE_SET(PASS)**, by nothing else. -/
theorem commandMode_eq_pass (mode : Mode) (c : Frame) :
    commandMode mode c = .pass ↔ resets c = true ∨ (mode = .pass ∧ opens c = false) := by
  unfold commandMode
  by_cases hr : resets c = true
  · simp [hr]
  by_cases ho : opens c = true
  · by_cases hm : mode = .pass
    · simp [hr, ho, hm, target_ne_pass ho]
    · simp [hr, ho, hm]
  · rw [if_neg hr, if_neg ho]
    by_cases hs : streams c = true
    · by_cases ha : queueCommandAllowed c.type mode = true
      · simp [hr, ho, hs, ha]
      · simp [hr, ho, hs, ha]
    · simp [hr, ho, hs]

theorem opener_concat (cs : List Frame) (c : Frame) :
    opener (cs ++ [c]) = if resets c then none else (opener cs).or (if opens c then some c else none) := by
  rw [opener, List.foldl_append]
  rfl

theorem modeOf_concat (tokens : List Token) (t : Token) : modeOf (tokens ++ [t]) = effect (modeOf tokens) t := by
  rw [modeOf, List.foldl_append]
  rfl

/-- The mode is PASS exactly while no session is open; faults play no part in it. -/
theorem modeOf_eq_pass (tokens : List Token) : modeOf tokens = .pass ↔ opener (commandsOf tokens) = none := by
  induction tokens using List.reverseRecOn with
  | nil => simp [modeOf, commandsOf, opener]
  | append_singleton tokens t ih =>
    rw [modeOf_concat, commandsOf_append]
    cases t with
    | malformed =>
      rw [effect, faultMode_eq_pass, ih]
      simp [commandsOf]
    | command c =>
      have hnone : commandsOf [] = [] := rfl
      rw [effect, commandMode_eq_pass, commandsOf_command, hnone, opener_concat, ih]
      by_cases hr : resets c = true
      · simp [hr]
      · by_cases ho : opens c = true <;> simp [hr, ho]

/-- The commands since a session was opened, none of which closed it. -/
structure OpenedAt (before : List Token) (c : Frame) (after : List Token) : Prop where
  closed : opener (commandsOf before) = none
  opened : opens c = true
  kept : ∀ k ∈ commandsOf after, resets k = false

/-- An open session was opened somewhere. -/
theorem exists_openedAt {tokens : List Token} (h : modeOf tokens ≠ .pass) :
    ∃ before c after, tokens = before ++ .command c :: after ∧ OpenedAt before c after := by
  induction tokens using List.reverseRecOn with
  | nil => exact absurd rfl h
  | append_singleton tokens t ih =>
    by_cases hm : modeOf tokens = .pass
    · cases t with
      | malformed =>
        rw [modeOf_concat, effect, Ne, faultMode_eq_pass] at h
        exact absurd hm h
      | command c =>
        rw [modeOf_concat, effect, Ne, commandMode_eq_pass] at h
        simp only [hm, true_and, not_or, Bool.not_eq_true, Bool.not_eq_false] at h
        exact ⟨tokens, c, [], rfl, (modeOf_eq_pass _).1 hm, h.2, by simp [commandsOf]⟩
    · obtain ⟨before, c, after, rfl, hat⟩ := ih hm
      refine ⟨before, c, after ++ [t], by simp, hat.closed, hat.opened, fun k hk => ?_⟩
      rw [commandsOf_append, List.mem_append] at hk
      rcases hk with hk | hk
      · exact hat.kept k hk
      · rw [modeOf_concat] at h
        cases t with
        | malformed => simp [commandsOf] at hk
        | command j =>
          obtain rfl : k = j := by simpa [commandsOf] using hk
          rw [effect, Ne, commandMode_eq_pass, not_or] at h
          exact Bool.eq_false_iff.2 h.1

/-- What puts an open session into ERROR: something malformed, or a queue command in RECORD. -/
def Breaks (target : Mode) (tokens : List Token) : Prop :=
  anyMalformed tokens = true ∨ (target = .record ∧ ∃ k ∈ commandsOf tokens, streams k = true)

theorem breaks_cons (target : Mode) (t : Token) (tokens : List Token) :
    Breaks target (t :: tokens) ↔ Breaks target [t] ∨ Breaks target tokens := by
  cases t with
  | malformed => simp [Breaks]
  | command c =>
    simp only [Breaks, anyMalformed_command, commandsOf_command, List.mem_cons]
    have hnil : anyMalformed [] = false := rfl
    have hnone : commandsOf [] = [] := rfl
    rw [hnil, hnone]
    simp only [List.not_mem_nil, or_false, exists_eq_or_imp, exists_eq_left]
    tauto

/-- ERROR stays. -/
theorem foldl_effect_error : ∀ tokens : List Token, (∀ k ∈ commandsOf tokens, resets k = false) →
    tokens.foldl effect .error = .error
  | [], _ => rfl
  | .malformed :: tokens, h => foldl_effect_error tokens h
  | .command c :: tokens, h => by
    have hc : effect .error (.command c) = .error := by
      have hr := h c (by simp)
      change commandMode .error c = .error
      unfold commandMode
      rw [hr, if_neg (by decide)]
      split
      · rw [if_neg (by decide)]
      · split
        · split <;> rfl
        · rfl
    rw [List.foldl_cons, hc]
    exact foldl_effect_error tokens (fun k hk => h k (by simp [hk]))

theorem effect_open {target : Mode} (ht : target = .record ∨ target = .armed) {t : Token}
    (h : ∀ k ∈ commandsOf [t], resets k = false) :
    (Breaks target [t] ∧ effect target t = .error) ∨ (¬Breaks target [t] ∧ effect target t = target) := by
  cases t with
  | malformed =>
    refine .inl ⟨.inl (anyMalformed_malformed _), ?_⟩
    rcases ht with rfl | rfl <;> rfl
  | command c =>
    have hr : resets c = false := h c (by simp)
    have hnil : anyMalformed [] = false := rfl
    have hmem : (∃ k ∈ commandsOf [.command c], streams k = true) ↔ streams c = true := by simp [commandsOf]
    simp only [Breaks, anyMalformed_command, hnil, hmem, effect, commandMode, hr]
    by_cases ho : opens c = true
    · -- An opening command is refused, and it is no queue command.
      have hs : streams c = false := by
        simp only [opens, Bool.and_eq_true, beq_iff_eq] at ho
        simp [streams, ho.1]
        decide
      rcases ht with rfl | rfl <;> simp [ho, hs]
    · rcases ht with rfl | rfl
      · by_cases hs : streams c = true
        · have ha : queueCommandAllowed c.type .record = false := by
            unfold queueCommandAllowed
            split
            · rfl
            · split <;> simp
          simp [ho, hs, ha, faultMode]
        · simp [ho, hs]
      · by_cases hs : streams c = true
        · have ha : queueCommandAllowed c.type .armed = true := by
            simp only [streams, Bool.or_eq_true, beq_iff_eq] at hs
            rcases hs with (hs | hs) | hs <;> rw [hs] <;> decide
          simp [ho, hs, ha]
        · simp [ho, hs]

theorem foldl_effect_open {target : Mode} (ht : target = .record ∨ target = .armed) : ∀ tokens : List Token,
    (∀ k ∈ commandsOf tokens, resets k = false) →
      (Breaks target tokens ∧ tokens.foldl effect target = .error) ∨
        (¬Breaks target tokens ∧ tokens.foldl effect target = target)
  | [], _ => .inr ⟨by simp [Breaks, commandsOf, anyMalformed], rfl⟩
  | t :: tokens, h => by
    have hsplit : commandsOf (t :: tokens) = commandsOf [t] ++ commandsOf tokens := commandsOf_append [t] tokens
    have hrest : ∀ k ∈ commandsOf tokens, resets k = false := fun k hk => h k (by simp [hsplit, hk])
    rw [List.foldl_cons, breaks_cons]
    rcases effect_open ht (t := t) (fun k hk => h k (by simp [hsplit, hk])) with ⟨hb, he⟩ | ⟨hb, he⟩
    · rw [he]
      exact .inl ⟨.inl hb, foldl_effect_error tokens hrest⟩
    · rw [he]
      rcases foldl_effect_open ht tokens hrest with ⟨hb', he'⟩ | ⟨hb', he'⟩
      · exact .inl ⟨.inr hb', he'⟩
      · exact .inr ⟨fun hor => hor.elim hb hb', he'⟩

/-- **The mode of an open session**: ERROR if anything since its opening breaks it, else what it was opened for. -/
theorem modeOf_openedAt {before after : List Token} {c : Frame} (h : OpenedAt before c after) :
    (Breaks (openedMode c) after ∧ modeOf (before ++ .command c :: after) = .error) ∨
      (¬Breaks (openedMode c) after ∧
        modeOf (before ++ .command c :: after) = openedMode c) := by
  have hbefore : modeOf before = .pass := (modeOf_eq_pass _).2 h.closed
  have hopen : effect .pass (.command c) = openedMode c := by
    simp [effect, commandMode, not_resets_of_opens h.opened, h.opened]
  have hmode : modeOf (before ++ .command c :: after) = after.foldl effect (openedMode c) := by
    rw [modeOf, List.foldl_append, ← modeOf, hbefore, List.foldl_cons, hopen]
  rw [hmode]
  exact foldl_effect_open (target_open h.opened) after h.kept

/-! ## Rounds -/

@[simp] theorem commandsOf_map (cs : List Frame) : commandsOf (cs.map .command) = cs := by
  induction cs with
  | nil => rfl
  | cons c cs ih => rw [List.map_cons, commandsOf_command, ih]

@[simp] theorem anyMalformed_map (cs : List Frame) : anyMalformed (cs.map .command) = false := by
  simp [anyMalformed]

@[simp] theorem commandsOf_handled (tokens : List Token) : commandsOf (handled tokens) = commandsOf tokens := by
  unfold handled
  split
  · rw [commandsOf_append, commandsOf_map]
    rfl
  · rw [commandsOf_append, commandsOf_map]
    rfl

@[simp] theorem anyMalformed_handled (tokens : List Token) : anyMalformed (handled tokens) = anyMalformed tokens := by
  unfold handled
  cases h : anyMalformed tokens <;> simp [anyMalformed]

theorem commandsOf_rounds (rounds : List (List Token)) :
    commandsOf (rounds.flatMap handled) = commandsOf rounds.flatten := by
  induction rounds with
  | nil => rfl
  | cons w rounds ih => simp [ih]

theorem anyMalformed_rounds (rounds : List (List Token)) :
    anyMalformed (rounds.flatMap handled) = anyMalformed rounds.flatten := by
  induction rounds with
  | nil => rfl
  | cons w rounds ih => simp [ih]

/-- A round of one token is handled as it came. -/
theorem handled_of_length {tokens : List Token} (h : tokens.length ≤ 1) : handled tokens = tokens := by
  match tokens, h with
  | [], _ => rfl
  | [.malformed], _ => rfl
  | [.command c], _ => rfl

/-- One round has both the command that opened the session open at the end and something malformed after it, and no
later round breaks the session. -/
def Hidden (rounds : List (List Token)) : Prop :=
  ∃ earlier u c v later, rounds = earlier ++ (u ++ .command c :: v) :: later ∧
    OpenedAt (earlier.flatten ++ u) c (v ++ later.flatten) ∧ anyMalformed v = true ∧
    ¬Breaks (openedMode c) ((commandsOf v).map .command ++ later.flatten)

theorem breaks_congr {target : Mode} {tokens more : List Token} (ha : anyMalformed tokens = anyMalformed more)
    (hc : commandsOf tokens = commandsOf more) : Breaks target tokens ↔ Breaks target more := by
  rw [Breaks, Breaks, ha, hc]

/-- The two orders of a stream, cut where its open session was opened. -/
theorem modes_openedAt {earlier later : List (List Token)} {u v : List Token} {c : Frame}
    (h : OpenedAt (earlier.flatten ++ u) c (v ++ later.flatten)) :
    (modeOf ((earlier ++ (u ++ .command c :: v) :: later).flatMap handled) =
      modeOf (earlier ++ (u ++ .command c :: v) :: later).flatten) ↔
      (Breaks (openedMode c) (v ++ later.flatten) →
        Breaks (openedMode c) ((commandsOf v).map .command ++ later.flatten)) := by
  have hflat : (earlier ++ (u ++ .command c :: v) :: later).flatten =
      (earlier.flatten ++ u) ++ .command c :: (v ++ later.flatten) := by simp
  obtain ⟨first, hfirst, hclosed⟩ : ∃ first, (earlier ++ (u ++ .command c :: v) :: later).flatMap handled =
      first ++ .command c :: ((commandsOf v).map .command ++ later.flatMap handled) ∧
        opener (commandsOf first) = none := by
    refine ⟨earlier.flatMap handled ++ ((if anyMalformed (u ++ .command c :: v) then [.malformed] else []) ++
      (commandsOf u).map .command), by simp [handled], ?_⟩
    have hclosed := h.closed
    rw [commandsOf_append] at hclosed
    split <;> simpa [commandsOf_rounds] using hclosed
  have hkept : ∀ k ∈ commandsOf ((commandsOf v).map .command ++ later.flatMap handled), resets k = false := by
    rw [commandsOf_append, commandsOf_map, commandsOf_rounds, ← commandsOf_append]
    exact h.kept
  have hlater : Breaks (openedMode c) ((commandsOf v).map .command ++ later.flatMap handled) ↔
      Breaks (openedMode c) ((commandsOf v).map .command ++ later.flatten) :=
    breaks_congr (by simp [anyMalformed_rounds]) (by simp [commandsOf_rounds])
  have hne : openedMode c ≠ .error := by rcases target_open h.opened with ht | ht <;> rw [ht] <;> decide
  have hweaker : Breaks (openedMode c) ((commandsOf v).map .command ++ later.flatten) →
      Breaks (openedMode c) (v ++ later.flatten) := by
    rintro (hm | ⟨ht, k, hk, hs⟩)
    · exact .inl (by simpa using Or.inr (by simpa using hm))
    · exact .inr ⟨ht, k, by simpa using hk, hs⟩
  rw [hflat, hfirst]
  rcases modeOf_openedAt h with ⟨hb, hm⟩ | ⟨hb, hm⟩ <;>
    rcases modeOf_openedAt ⟨hclosed, h.opened, hkept⟩ with ⟨hb', hm'⟩ | ⟨hb', hm'⟩ <;>
    rw [hlater] at hb' <;> rw [hm, hm']
  · simp [hb']
  · simp [hb, hb', hne]
  · exact absurd (hweaker hb') hb
  · simp [hb]

/-- **Handling what was malformed first leads elsewhere exactly when a session hides it.** -/
theorem modeOf_handled_iff (rounds : List (List Token)) :
    modeOf (rounds.flatMap handled) = modeOf rounds.flatten ↔ ¬Hidden rounds := by
  constructor
  · rintro heq ⟨earlier, u, c, v, later, rfl, hat, hv, hb⟩
    exact hb ((modes_openedAt hat).1 heq (.inl (by simp [hv])))
  · intro hnot
    by_cases hpass : modeOf rounds.flatten = .pass
    · rw [hpass, modeOf_eq_pass, commandsOf_rounds, ← modeOf_eq_pass, hpass]
    obtain ⟨before, c, after, hsplit, hat⟩ := exists_openedAt hpass
    obtain ⟨earlier, u, v, later, rfl, rfl, rfl⟩ : ∃ earlier u v later,
        rounds = earlier ++ (u ++ .command c :: v) :: later ∧ before = earlier.flatten ++ u ∧
        after = v ++ later.flatten := by
      rcases List.flatten_eq_append_iff.1 hsplit with ⟨as, bs, rfl, rfl, hbs⟩ | ⟨as, bs, x, cs, ds, rfl, rfl, hbs⟩
      · obtain ⟨xs, ys, zs, rfl, hxs, rfl⟩ := List.flatten_eq_cons_iff.1 hbs.symm
        refine ⟨as ++ xs, [], ys, zs, by simp, ?_, rfl⟩
        have hnil : xs.flatten = [] := List.flatten_eq_nil_iff.2 hxs
        simp [hnil]
      · obtain ⟨rfl, rfl⟩ := List.cons.inj hbs
        exact ⟨as, bs, cs, ds, rfl, rfl, rfl⟩
    rw [modes_openedAt hat]
    intro hb
    by_contra hb'
    refine hnot ⟨earlier, u, c, v, later, rfl, hat, ?_, hb'⟩
    -- What breaks the session in the order of the wire and not after it is malformed and in the opening round.
    rcases hb with hm | hs
    · rw [anyMalformed_append, Bool.or_eq_true] at hm
      exact hm.resolve_right (fun hl => hb' (.inl (by simp [hl])))
    · exact absurd (.inr (by simpa using hs)) hb'

end Pico
end PicoRecorder
