import PicoRecorder.PiZero.Playback
import PicoRecorder.PiZero.Waits
/-!
# Feeding — a rule for `start` and `finish` on any link

A session clears the queue, fills it, starts the run and feeds the rest.  `Feeds` says what an invariant of the link has
to do at each of these points; `session_feeds` is what a session then does on that link, in every state where it
returns, raises or still waits.
-/
namespace PicoRecorder
namespace PiZero

open Lib
open Pico (Frame MsgType leNat)

namespace Playback

/-- The fields of a BUFFER_STATUS and of a PLAY_UNDERRUN. -/
def stateOf (frame : Frame) : UInt8 := frame.payload.getD 0 0

def freeOf (frame : Frame) : Nat := leNat ((frame.payload.drop 3).take 2)

def underrunFreeOf (frame : Frame) : Nat := leNat (frame.payload.drop 8)

def isStatus (frame : Frame) : Bool := frame.type = MsgType.bufferStatus.byte

def isCredit (frame : Frame) : Bool := frame.type = MsgType.bufferStatus.byte || frame.type = MsgType.playUnderrun.byte

/-- The Zero waits for credit. -/
def blocked : List Act → Bool
  | .awaitsCredit _ :: _ => true
  | _ => false

/-- Some wait for credit began otherwise than it should. -/
def Tainted (entry : List Frame → Prop) (history : List Act) : Prop :=
  ∃ pending, Act.awaitsCredit pending ∈ history ∧ ¬entry pending

/-- What the session relies on: `idle` before QUEUE_CLEAR, `cleared` until it is acknowledged, `fed o c` with `o` events
unacknowledged and the credit `c`, `starved` while it waits for credit, `past` when nothing more is sent. -/
structure Feeds {σ : Type} (L : Link σ) (entry : List Frame → Prop) (safe : σ → Prop)
    (idle cleared : List Frame → σ → Prop) (fed : Nat → Nat → List Frame → σ → Prop) (starved : List Frame → σ → Prop)
    (past : σ → Prop) : Prop where
  idle_carries : Carries L idle
  cleared_carries : Carries L cleared
  fed_carries : ∀ o c, Carries L (fed o c)
  starved_carries : Carries L starved
  over_carries : Carries L (fun _ => past)
  idle_safe : ∀ {frames w}, idle frames w → safe w
  cleared_safe : ∀ {frames w}, cleared frames w → safe w
  fed_safe : ∀ {o c frames w}, fed o c frames w → safe w
  starved_safe : ∀ {frames w}, starved frames w → safe w
  over_safe : ∀ {w}, past w → safe w
  idle_modeSet : ∀ {frames w}, idle frames w →
    idle frames (L.write (Pico.encode (Request.modeSet MODE_ARMED).frame) w).2
  idle_answered : ∀ {before : List Frame} {frame : Frame} {after : List Frame} {w},
    frame.type = MsgType.modeChanged.byte → idle (before ++ frame :: after) w → idle (before ++ after) w
  clear : ∀ {frames w}, idle frames w → cleared frames (L.write (Pico.encode Request.queueClear.frame) w).2
  acknowledge : ∀ {before : List Frame} {frame : Frame} {after : List Frame} {w}, isStatus frame = true →
    stateOf frame = MODE_ARMED → (∀ f ∈ before, isStatus f = false) → cleared (before ++ frame :: after) w →
      fed 0 (freeOf frame) (before ++ after) w
  send : ∀ {o c frames w} {r : Request}, r.Valid → (∃ offsetUs report, r = .queueEvent offsetUs report) → o < c →
    fed o c frames w → fed (o + 1) c frames (L.write (Pico.encode r.frame) w).2
  confirm : ∀ {o c} {before : List Frame} {frame : Frame} {after : List Frame} {w}, isStatus frame = true →
    (∀ f ∈ before, isStatus f = false) → fed (o + 1) c (before ++ frame :: after) w →
      fed o (freeOf frame) (before ++ after) w
  starve : ∀ {frames w}, entry frames → fed 0 0 frames w → starved frames w
  credit_none : ∀ {before : List Frame} {frame : Frame} {after : List Frame} {w}, isStatus frame = true →
    (∀ f ∈ before, isCredit f = false) → freeOf frame = 0 → starved (before ++ frame :: after) w →
      starved (before ++ after) w
  credit : ∀ {before : List Frame} {frame : Frame} {after : List Frame} {w}, isStatus frame = true →
    (∀ f ∈ before, isCredit f = false) → 0 < freeOf frame → starved (before ++ frame :: after) w →
      fed 0 (freeOf frame) (before ++ after) w
  underrun_none : ∀ {before : List Frame} {frame : Frame} {after : List Frame} {w},
    frame.type = MsgType.playUnderrun.byte → (∀ f ∈ before, isCredit f = false) → underrunFreeOf frame = 0 →
      starved (before ++ frame :: after) w → starved (before ++ after) w
  underrun : ∀ {before : List Frame} {frame : Frame} {after : List Frame} {w},
    frame.type = MsgType.playUnderrun.byte → (∀ f ∈ before, isCredit f = false) → 0 < underrunFreeOf frame →
      starved (before ++ frame :: after) w → fed 0 (underrunFreeOf frame) (before ++ after) w
  playStart : ∀ {c frames w}, fed 0 c frames w → fed 0 c frames (L.write (Pico.encode Request.playStart.frame) w).2
  other : ∀ {c} {before : List Frame} {frame : Frame} {after : List Frame} {w}, isCredit frame = false →
    fed 0 c (before ++ frame :: after) w → fed 0 c (before ++ after) w
  finish : ∀ {c frames w}, fed 0 c frames w → past w
  over_write : ∀ {w} {r : Request}, r = .queueEnd ∨ r = .playStart ∨ r = .modeSet MODE_PASS → past w →
    past (L.write (Pico.encode r.frame) w).2

variable {σ : Type} {L : Link σ} {entry : List Frame → Prop} {safe : σ → Prop} {idle cleared : List Frame → σ → Prop}
variable {fed : Nat → Nat → List Frame → σ → Prop} {starved : List Frame → σ → Prop} {past : σ → Prop}

theorem validateBufferStatus_ok {frame : Frame} {status : UInt8 × Nat × Nat}
    (h : validateBufferStatus frame = .ok status) :
    status.1 = stateOf frame ∧ status.2.2 = freeOf frame := by
  unfold validateBufferStatus at h
  cases hlength : expectPayload .bufferStatus "BUFFER_STATUS" 5 frame with
  | error e => rw [hlength] at h; cases h
  | ok _ =>
    rw [hlength] at h
    change (if _ then _ else _ : Checked (UInt8 × Nat × Nat)) = _ at h
    split at h
    · cases h
    · cases h
      exact ⟨rfl, rfl⟩

theorem validatePlayUnderrun_ok {frame : Frame} {underrun : Nat × Nat} (h : validatePlayUnderrun frame = .ok underrun) :
    underrun.2 = underrunFreeOf frame := by
  unfold validatePlayUnderrun at h
  cases hlength : expectPayload .playUnderrun "PLAY_UNDERRUN" 10 frame with
  | error e => rw [hlength] at h; cases h
  | ok _ =>
    rw [hlength] at h
    cases h
    rfl

theorem plain_validateBufferStatus (frame : Frame) : Plain (validateBufferStatus frame) := by
  refine plain_bind (plain_expectPayload _ _ _ _) (fun _ => ?_)
  dsimp only
  split
  · exact plain_protocolError _
  · exact plain_ok _

theorem plain_validatePlayUnderrun (frame : Frame) : Plain (validatePlayUnderrun frame) :=
  plain_bind (plain_expectPayload _ _ _ _) (fun _ => plain_ok _)

/-! ## How a call ends -/

/-- The state a session is in where a call does not return: in order, and if it waits for credit, `starved`. -/
def Kept (safe : σ → Prop) (starved : List Frame → σ → Prop) (e : Exn) (t : Heap Playback σ) : Prop :=
  safe t.link ∧ (e = .suspended → blocked t.history = true →
    ∃ deferred, (∀ f ∈ deferred, isCredit f = false) ∧ starved (deferred ++ t.pending) t.link)

theorem kept_of_calm {e : Exn} {t : Heap Playback σ} (hsafe : safe t.link) (hcalm : blocked t.history = false) :
    Kept safe starved e t := ⟨hsafe, fun _ hblocked => by rw [hcalm] at hblocked; cases hblocked⟩

def Grows (s t : Heap Playback σ) : Prop := s.history <:+ t.history

theorem Grows.refl (s : Heap Playback σ) : Grows s s := List.suffix_refl _

theorem Grows.trans (s t u : Heap Playback σ) (h : Grows s t) (h' : Grows t u) : Grows s u := List.IsSuffix.trans h h'

theorem Tainted.grows {s t : Heap Playback σ} (h : Tainted entry s.history) (hg : Grows s t) :
    Tainted entry t.history := by
  obtain ⟨pending, hact, hentry⟩ := h
  exact ⟨pending, hg.subset hact, hentry⟩

theorem grows_of_inside {α : Type} {m : Py Playback σ α} (h : Keeps Inside m) : Keeps Grows m := by
  refine h.mono (fun s t hst => ?_)
  obtain ⟨-, acts, hacts, -⟩ := hst
  exact ⟨acts, hacts.symm⟩

theorem handshakeDone_suffix {target : UInt8} {h h' : List Act} (hd : HandshakeDone target h h') :
    h <:+ h' ∧ blocked h' = false := by
  obtain ⟨asides, -, rfl⟩ := hd
  exact ⟨(List.suffix_append _ _).trans (List.suffix_cons _ _), rfl⟩

theorem handshakeFailed_suffix {target : UInt8} {h h' : List Act} (hd : HandshakeFailed target h h') :
    h <:+ h' ∧ (blocked h = false → blocked h' = false) := by
  obtain ⟨asides, rfl | ⟨aside, rfl⟩ | ⟨state, reason, -, -, rfl⟩⟩ := hd
  · refine ⟨List.suffix_append _ _, fun hb => ?_⟩
    cases asides with
    | nil => exact hb
    | cons aside asides => rfl
  · exact ⟨(List.suffix_append _ _).trans (List.suffix_cons _ _), fun _ => rfl⟩
  · exact ⟨(List.suffix_append _ _).trans (List.suffix_cons _ _), fun _ => rfl⟩

theorem grows_returnPass (L : Link σ) (returnToPass : Bool) : Keeps Grows (returnPass L returnToPass) := by
  unfold returnPass
  cases returnToPass with
  | false => exact Keeps.pure Grows.refl _
  | true =>
    refine Keeps.bind Grows.trans (fun s => Grows.refl s) (fun p => ?_)
    refine Keeps.bind Grows.trans (fun s => ?_) (fun _ => fun s => Grows.refl s)
    refine wp_mono (Transport.setMode_spec L MODE_PASS (.inl rfl) p.modeTimeout s) (fun _ t ht => ?_) (fun _ t ht => ?_)
    · exact (handshakeDone_suffix ht.2).1
    · exact (handshakeFailed_suffix ht.2).1

/-- A call ends so, or some wait for credit began otherwise than it should. -/
def Through (entry : List Frame → Prop) {α : Type} (Q : α → Heap Playback σ → Prop) (a : α) (t : Heap Playback σ) :
    Prop :=
  Tainted entry t.history ∨ Q a t

/-- One call after another. -/
theorem wp_through {α β : Type} {m : Py Playback σ β} {f : β → Py Playback σ α} {P : β → Heap Playback σ → Prop}
    {Q : α → Heap Playback σ → Prop} {E : Exn → Heap Playback σ → Prop} {s : Heap Playback σ}
    (hm : wp m (Through entry P) (Through entry E) s) (hf : ∀ b, Keeps Grows (f b))
    (hnext : ∀ b t, P b t → wp (f b) (Through entry Q) (Through entry E) t) :
    wp (m >>= f) (Through entry Q) (Through entry E) s := by
  rw [wp_bind]
  refine wp_mono hm (fun b t ht => ?_) (fun _ _ he => he)
  rcases ht with htainted | ht
  · exact wp_mono (hf b t) (fun _ u hu => .inl (htainted.grows hu)) (fun _ u hu => .inl (htainted.grows hu))
  · exact hnext b t ht

/-! ## Waits -/

section Waits

variable {α : Type} {I : List Frame → σ → Prop}

theorem remaining_carries (hI : Carries L I) (timeout : Option Int) (s : Heap Playback σ) (h : I s.pending s.link) :
    wp (remaining L timeout) (fun _ t => Untouched s t ∧ I t.pending t.link) (Idled I s) s := by
  unfold remaining
  cases timeout with
  | some timeout => exact ⟨.refl s, h⟩
  | none =>
    rw [wp_bind, wp_session, wp_bind]
    refine wp_mono (clock_carries hI s h) (fun now t ht => ?_) nofun
    dsimp only
    split
    · exact ⟨ht.1, nofun, ht.2⟩
    · exact ht

/-- A wait for a type, then the rest. -/
theorem wp_await {f : Frame → Py Playback σ α} {Q : α → Heap Playback σ → Prop} {E : Exn → Heap Playback σ → Prop}
    {s : Heap Playback σ} (hI : Carries L I) (type : MsgType) (timeout : Option Int) (h : I s.pending s.link)
    (hok : ∀ frame t, Taken I type s frame t → wp (f frame) Q E t) (herror : ∀ e t, Halted I s e t → E e t) :
    wp (do f (← Transport.awaitFrame L type (← remaining L timeout))) Q E s := by
  rw [wp_bind]
  refine wp_mono (remaining_carries hI timeout s h) (fun wait t ht => ?_) (fun e t he => herror e t he.halted)
  rw [wp_bind]
  refine wp_mono (Transport.awaitFrame_carries hI type wait t ht.2) (fun frame u hu => ?_) (fun e u hu => ?_)
  · exact hok frame u ⟨ht.1.trans _ _ _ hu.untouched, hu.passed, hu.ofType, hu.kept⟩
  · exact herror e u ⟨ht.1.trans _ _ _ hu.untouched, hu.plain, hu.kept, hu.timeout⟩

/-- A wait that took no frame it should not leaves the call in order. -/
theorem kept_of_halted {s t : Heap Playback σ} {e : Exn} (h : Halted I s e t)
    (hsafe : ∀ {frames w}, I frames w → safe w) (hcalm : blocked s.history = false) : Kept safe starved e t := by
  obtain ⟨frames, hkept⟩ := h.kept
  exact kept_of_calm (hsafe hkept) (by rw [h.untouched.2]; exact hcalm)

end Waits

/-! ## Credit -/

section Feeding

variable (hL : Feeds L entry safe idle cleared fed starved past)
include hL

/-- Where the session is in its recording. -/
def Placed (s t : Heap Playback σ) : Prop :=
  t.session.events = s.session.events ∧ t.session.nextEvent = s.session.nextEvent

omit hL in
theorem Placed.trans {s t u : Heap Playback σ} (h : Placed s t) (h' : Placed t u) : Placed s u :=
  ⟨h'.1.trans h.1, h'.2.trans h.2⟩

omit hL in
theorem placed_of_untouched {s t : Heap Playback σ} (h : Untouched s t) : Placed s t := by
  rw [Placed, h.1]
  exact ⟨rfl, rfl⟩

/-- What a wait for credit leaves if it does not return. -/
def Waited (safe : σ → Prop) (starved : List Frame → σ → Prop) (s : Heap Playback σ) (e : Exn) (t : Heap Playback σ) :
    Prop :=
  t.history = s.history ∧ safe t.link ∧
    (e = .suspended → ∃ deferred, (∀ f ∈ deferred, isCredit f = false) ∧ starved (deferred ++ t.pending) t.link)

/-- **Credit is read off the first frame that tells of any.** -/
theorem awaitCredit_feeds (expectedState : UInt8) : ∀ (n : Nat) (deferred : List Frame) (s : Heap Playback σ),
    (∀ f ∈ deferred, isCredit f = false) → starved (deferred ++ s.pending) s.link →
      wp (awaitCredit L expectedState n)
        (fun freeCapacity t => t.history = s.history ∧ Placed s t ∧ fed 0 freeCapacity (deferred ++ t.pending) t.link)
        (Waited safe starved s) s
  | 0, deferred, s, hdeferred, h => ⟨rfl, hL.starved_safe h, fun _ => ⟨deferred, hdeferred, h⟩⟩
  | n + 1, deferred, s, hdeferred, h => by
    have hI := hL.starved_carries.behind deferred
    have hidled : ∀ {t : Heap Playback σ}, Untouched s t → ∀ e u,
        Idled (fun frames => starved (deferred ++ frames)) t e u → Waited safe starved s e u := fun ht e u hu =>
      ⟨hu.untouched.2.trans ht.2, hL.starved_safe hu.kept, fun _ => ⟨deferred, hdeferred, hu.kept⟩⟩
    -- A frame that does not pass its checks is none that was awaited, but the call is over.
    have hraised : ∀ {β : Type} {c : Checked β} {e : Exn} {t : Heap Playback σ}, Plain c → c = .error e →
        t.history = s.history → safe t.link → Waited safe starved s e t := by
      intro β c e t hplain he hhistory hsafe
      refine ⟨hhistory, hsafe, fun hsuspended => ?_⟩
      obtain ⟨message, rfl | rfl⟩ := hplain e he <;> cases hsuspended
    unfold awaitCredit
    rw [wp_bind]
    refine wp_mono (remaining_carries hI none s h) (fun timeout t ht => ?_) (hidled (.refl s))
    rw [wp_bind]
    refine wp_mono (Transport.receiveFrame_carries hI timeout t ht.2) (fun frame u hu => ?_) (hidled ht.1)
    have hu₁ : Untouched s u := ht.1.trans _ _ _ hu.1
    have hplaced : Placed s u := placed_of_untouched hu₁
    have hsafe : safe u.link := hL.starved_safe hu.2
    rw [wp_bind]
    refine wp_checked (fun passed hpassed => ?_) (fun e he => hraised (plain_requireNotError frame) he hu₁.2 hsafe)
    obtain rfl := requireNotError_self hpassed
    by_cases hstatus : passed.type = MsgType.bufferStatus.byte
    · rw [if_pos hstatus, wp_bind]
      have his : isStatus passed = true := decide_eq_true hstatus
      refine wp_checked (fun status hvalid => ?_)
        (fun e he => hraised (plain_validateBufferStatus passed) he hu₁.2 hsafe)
      have hfree := (validateBufferStatus_ok hvalid).2
      dsimp only
      split
      · exact ⟨hu₁.2, hsafe, by rintro ⟨⟩⟩
      split
      · rename_i hpositive
        rw [hfree] at hpositive ⊢
        exact ⟨hu₁.2, hplaced, hL.credit his hdeferred hpositive hu.2⟩
      · rename_i hzero
        have hzero : freeOf passed = 0 := hfree ▸ Nat.eq_zero_of_not_pos hzero
        refine wp_mono (awaitCredit_feeds expectedState n deferred u hdeferred
          (hL.credit_none his hdeferred hzero hu.2)) (fun free v hv => ?_) (fun e v hv => ?_)
        · exact ⟨hv.1.trans hu₁.2, hplaced.trans hv.2.1, hv.2.2⟩
        · exact ⟨hv.1.trans hu₁.2, hv.2⟩
    rw [if_neg hstatus]
    by_cases hunderrun : passed.type = MsgType.playUnderrun.byte
    · rw [if_pos hunderrun, wp_bind]
      refine wp_checked (fun underrun hvalid => ?_)
        (fun e he => hraised (plain_validatePlayUnderrun passed) he hu₁.2 hsafe)
      have hfree := validatePlayUnderrun_ok hvalid
      dsimp only
      rw [wp_bind, wp_updateSession]
      split
      · rename_i hpositive
        rw [hfree] at hpositive
        show _ ∧ _ ∧ fed 0 underrun.2 _ _
        rw [hfree]
        exact ⟨hu₁.2, hplaced, hL.underrun hunderrun hdeferred hpositive hu.2⟩
      · rename_i hzero
        have hzero : underrunFreeOf passed = 0 := hfree ▸ Nat.eq_zero_of_not_pos hzero
        refine wp_mono (awaitCredit_feeds expectedState n deferred _ hdeferred
          (hL.underrun_none hunderrun hdeferred hzero hu.2)) (fun free v hv => ?_) (fun e v hv => ?_)
        · exact ⟨hv.1.trans hu₁.2, hplaced.trans hv.2.1, hv.2.2⟩
        · exact ⟨hv.1.trans hu₁.2, hv.2⟩
    · rw [if_neg hunderrun, wp_ensuring]
      have hother : isCredit passed = false := by simp [isCredit, hstatus, hunderrun]
      have hmore : ∀ f ∈ deferred ++ [passed], isCredit f = false := by
        intro f hf
        rcases List.mem_append.1 hf with hf | hf
        · exact hdeferred f hf
        · exact List.mem_singleton.1 hf ▸ hother
      have hkept : starved ((deferred ++ [passed]) ++ u.pending) u.link := by
        rw [List.append_assoc]
        exact hu.2
      refine wp_mono (awaitCredit_feeds expectedState n (deferred ++ [passed]) u hmore hkept) (fun free v hv => ?_)
        (fun e v hv => ?_)
      · refine ⟨hv.1.trans hu₁.2, hplaced.trans hv.2.1, ?_⟩
        have hfed := hv.2.2
        rw [List.append_assoc] at hfed
        exact hfed
      · cases e with
        | suspended => exact ⟨hv.1.trans hu₁.2, hv.2⟩
        | raised kind message => exact ⟨hv.1.trans hu₁.2, hv.2.1, by rintro ⟨⟩⟩

/-- So many events are unacknowledged, and the session knows its credit. -/
structure Level (fed : Nat → Nat → List Frame → σ → Prop) (unacknowledged : Nat) (s t : Heap Playback σ) : Prop where
  fed : fed unacknowledged t.session.freeCapacity t.pending t.link
  calm : blocked t.history = false
  placed : Placed s t

theorem refill_feeds (expectedState : UInt8) (s : Heap Playback σ) (h : Level fed 0 s s) :
    wp (refill L expectedState) (Through entry (fun _ t => Level fed 0 s t)) (Through entry (Kept safe starved)) s := by
  unfold refill
  rw [wp_bind, wp_session]
  by_cases hzero : s.session.freeCapacity = 0
  · rw [if_pos hzero, wp_bind]
    show wp _ _ _ (s.note (.awaitsCredit s.pending))
    by_cases hentry : entry s.pending
    · have hfed := h.fed
      rw [hzero] at hfed
      rw [wp_bind]
      refine wp_mono (awaitCredit_feeds hL expectedState L.patience [] (s.note (.awaitsCredit s.pending)) nofun
        (hL.starve hentry hfed)) (fun free t ht => ?_) (fun e t ht => ?_)
      · exact .inr ⟨ht.2.2, rfl, ht.2.1⟩
      · exact .inr ⟨ht.2.1, fun hsuspended _ => ht.2.2 hsuspended⟩
    · have htainted : Tainted entry (s.note (.awaitsCredit s.pending)).history :=
        ⟨s.pending, List.mem_cons_self .., hentry⟩
      have hgrows : Keeps Grows (do
          let freeCapacity ← awaitCredit L expectedState L.patience
          modify (Heap.note (.credited freeCapacity))
          updateSession (fun p => { p with freeCapacity := freeCapacity })) :=
        Keeps.bind Grows.trans (grows_of_inside (inside_awaitCredit L _ _)) (fun free => fun t => List.suffix_cons _ _)
      exact wp_mono (hgrows _) (fun _ t ht => .inl (htainted.grows ht)) (fun _ t ht => .inl (htainted.grows ht))
  · rw [if_neg hzero]
    exact .inr h

omit hL in
theorem Level.trans {n k : Nat} {s t u : Heap Playback σ} (h : Level fed n s t) (h' : Level fed k t u) :
    Level fed k s u :=
  ⟨h'.fed, h'.calm, h.placed.trans h'.placed⟩

theorem Level.kept {n : Nat} {s t : Heap Playback σ} {e : Exn} (h : Level fed n s t) : Kept safe starved e t :=
  kept_of_calm (hL.fed_safe h.fed) h.calm

/-- A batch inside the credit. -/
theorem sendEvents_feeds : ∀ (events : List (Int × List UInt8)) (n : Nat) (s : Heap Playback σ), Level fed n s s →
    n + events.length ≤ s.session.freeCapacity →
      wp (sendEvents L events) (fun _ t => Level fed (n + events.length) s t) (Kept safe starved) s
  | [], n, s, h, _ => h
  | (offsetUs, report) :: events, n, s, h, hcredit => by
    rw [List.length_cons] at hcredit ⊢
    have hroom : n < s.session.freeCapacity := by omega
    have hwrote : ∀ t, Transport.Wrote L (.queueEvent offsetUs report) s t → Level fed (n + 1) s t := by
      rintro t ⟨hvalid, whole, rfl⟩
      exact ⟨hL.send hvalid ⟨offsetUs, report, rfl⟩ hroom h.fed, rfl, rfl, rfl⟩
    unfold sendEvents
    rw [wp_bind]
    refine wp_mono (Transport.write_wrote (.queueEvent offsetUs report) s) (fun _ t ht => ?_) (fun e t ht => ?_)
    · have hlevel := hwrote t ht
      obtain ⟨-, whole, rfl⟩ := ht
      refine wp_mono (sendEvents_feeds events (n + 1) _ ⟨hlevel.fed, rfl, rfl, rfl⟩ (by dsimp only; omega))
        (fun _ u hu => ?_) (fun _ _ he => he)
      rw [show n + (events.length + 1) = n + 1 + events.length by omega]
      exact hlevel.trans hu
    · rcases ht.2 with rfl | ht
      · exact h.kept hL
      · exact (hwrote t ht).kept hL

/-- Each acknowledgement of a batch says what credit is left. -/
theorem awaitAcks_feeds (expectedState : UInt8) : ∀ (n : Nat) (s : Heap Playback σ), Level fed n s s →
    wp (awaitAcks L expectedState n) (fun _ t => Level fed 0 s t) (Kept safe starved) s
  | 0, s, h => h
  | n + 1, s, h => by
    unfold awaitAcks
    refine wp_await (hL.fed_carries (n + 1) s.session.freeCapacity) .bufferStatus none h.fed (fun frame t ht => ?_)
      (fun e t he => kept_of_halted he hL.fed_safe h.calm)
    obtain ⟨deferred, rest, hpending, hdeferred, hkept⟩ := ht.kept
    rw [wp_bind]
    change wp _ _ _ (t.note (.took frame))
    rw [wp_bind]
    refine wp_checked (fun status hvalid => ?_) (fun e he => kept_of_calm (hL.fed_safe hkept) rfl)
    have hfree := (validateBufferStatus_ok hvalid).2
    dsimp only
    split
    · exact kept_of_calm (hL.fed_safe hkept) rfl
    · rw [wp_bind, wp_updateSession, hfree]
      have hfed : fed n (freeOf frame) t.pending t.link := by
        rw [hpending]
        exact hL.confirm (decide_eq_true ht.ofType) (fun f hf => decide_eq_false (hdeferred f hf)) hkept
      have hplaced : Placed s t := placed_of_untouched ht.untouched
      refine wp_mono (awaitAcks_feeds expectedState n _ ⟨hfed, rfl, rfl, rfl⟩) (fun _ u hu => ?_) (fun _ _ he => he)
      exact ⟨hu.fed, hu.calm, hplaced.trans hu.placed⟩

/-- Between two batches. -/
def Resting (fed : Nat → Nat → List Frame → σ → Prop) (t : Heap Playback σ) : Prop :=
  fed 0 t.session.freeCapacity t.pending t.link ∧ blocked t.history = false

theorem sendThrough_feeds (stop : Nat) (expectedState : UInt8) : ∀ (n : Nat) (s : Heap Playback σ), Resting fed s →
    stop ≤ s.session.events.length →
      wp (sendThrough L stop expectedState n) (Through entry (fun _ => Resting fed)) (Through entry (Kept safe starved))
      s
  | 0, s, h, _ => .inr (kept_of_calm (hL.fed_safe h.1) h.2)
  | n + 1, s, h, hstop => by
    unfold sendThrough
    rw [wp_bind, wp_session]
    by_cases hnext : s.session.nextEvent < stop
    · rw [if_pos hnext]
      have hgrows : ∀ batchCount, Keeps Grows (do
          updateSession (fun p => { p with nextEvent := p.nextEvent + batchCount })
          sendThrough L stop expectedState n) := fun batchCount =>
        Keeps.bind Grows.trans (fun t => Grows.refl t)
          (fun _ => grows_of_inside (inside_sendThrough L stop expectedState n))
      refine wp_through (refill_feeds hL expectedState s ⟨h.1, h.2, rfl, rfl⟩) (fun _ => ?_) (fun _ t ht => ?_)
      · refine Keeps.bind Grows.trans (fun t => Grows.refl t) (fun p => ?_)
        refine Keeps.bind Grows.trans (grows_of_inside (inside_sendEvents L _)) (fun _ => ?_)
        exact Keeps.bind Grows.trans (grows_of_inside (inside_awaitAcks L _ _)) (fun _ => hgrows _)
      rw [wp_bind, wp_session]
      dsimp only
      generalize hbatch : min PIPELINE_WINDOW (min t.session.freeCapacity (stop - t.session.nextEvent)) = batchCount
      have hlength : ((t.session.events.drop t.session.nextEvent).take batchCount).length = batchCount := by
        have hevents : t.session.events.length = s.session.events.length := congrArg List.length ht.placed.1
        rw [List.length_take, List.length_drop]
        omega
      rw [wp_bind]
      refine wp_mono (sendEvents_feeds hL _ 0 t ⟨ht.fed, ht.calm, rfl, rfl⟩ (by rw [hlength]; omega)) (fun _ u hu => ?_)
        (fun _ _ he => .inr he)
      rw [hlength, Nat.zero_add] at hu
      rw [wp_bind]
      refine wp_mono (awaitAcks_feeds hL expectedState batchCount u ⟨hu.fed, hu.calm, rfl, rfl⟩) (fun _ v hv => ?_)
        (fun _ _ he => .inr he)
      rw [wp_bind, wp_updateSession]
      refine sendThrough_feeds stop expectedState n _ ⟨hv.fed, hv.calm⟩ ?_
      show stop ≤ v.session.events.length
      rw [hv.placed.1, hu.placed.1, ht.placed.1]
      exact hstop
    · rw [if_neg hnext]
      exact .inr h

/-! ## A whole run -/

/-- QUEUE_CLEAR is acknowledged. -/
theorem awaitClear_feeds (s : Heap Playback σ) (h : cleared s.pending s.link) (hcalm : blocked s.history = false) :
    wp (awaitQueueAck L "QUEUE_CLEAR") (fun _ => Resting fed) (Kept safe starved) s := by
  unfold awaitQueueAck
  refine wp_await hL.cleared_carries .bufferStatus none h (fun frame t ht => ?_)
    (fun e t he => kept_of_halted he hL.cleared_safe hcalm)
  obtain ⟨deferred, rest, hpending, hdeferred, hkept⟩ := ht.kept
  have hcalm : blocked t.history = false := by rw [ht.untouched.2]; exact hcalm
  rw [wp_bind]
  refine wp_checked (fun status hvalid => ?_) (fun e he => kept_of_calm (hL.cleared_safe hkept) hcalm)
  obtain ⟨hstate, hfree⟩ := validateBufferStatus_ok hvalid
  dsimp only
  split
  · exact kept_of_calm (hL.cleared_safe hkept) hcalm
  · rename_i harmed
    rw [hstate, not_not] at harmed
    rw [wp_updateSession, hfree]
    refine ⟨?_, hcalm⟩
    show fed 0 (freeOf frame) t.pending t.link
    rw [hpending]
    exact hL.acknowledge (decide_eq_true ht.ofType) harmed (fun f hf => decide_eq_false (hdeferred f hf)) hkept

omit hL in
/-- What keeps an invariant of the link through PLAY_START and its two answers. -/
theorem startRun_carries {I : List Frame → σ → Prop} (hI : Carries L I) (hsafe : ∀ {frames w}, I frames w → safe w)
    (hwrite : ∀ {frames w}, I frames w → I frames (L.write (Pico.encode Request.playStart.frame) w).2)
    (hdrop : ∀ {before : List Frame} {frame : Frame} {after : List Frame} {w}, isCredit frame = false →
      I (before ++ frame :: after) w → I (before ++ after) w)
    (s : Heap Playback σ) (h : I s.pending s.link) (hcalm : blocked s.history = false) :
    wp (startRun L) (fun _ t => t.session = s.session ∧ I t.pending t.link ∧ blocked t.history = false)
      (Kept safe starved) s := by
  have htaken : ∀ {type : MsgType} {t : Heap Playback σ} {frame : Frame} {u : Heap Playback σ},
      type = .modeChanged ∨ type = .playStarted → Taken I type t frame u → I u.pending u.link := by
    intro type t frame u htype hu
    obtain ⟨deferred, rest, hpending, -, hkept⟩ := hu.kept
    rw [hpending]
    refine hdrop ?_ hkept
    rw [isCredit, hu.ofType]
    rcases htype with rfl | rfl <;> decide
  unfold startRun
  rw [wp_bind]
  refine wp_mono (Transport.write_wrote .playStart s) (fun _ t ht => ?_) (fun e t ht => ?_)
  · obtain ⟨-, whole, rfl⟩ := ht
    refine wp_await hI .modeChanged none (hwrite h) (fun frame t ht => ?_) (fun e t he => kept_of_halted he hsafe rfl)
    have hkept := htaken (.inl rfl) ht
    have hcalm : blocked t.history = false := by rw [ht.untouched.2]; rfl
    rw [wp_bind]
    refine wp_checked (fun answer _ => ?_) (fun e _ => kept_of_calm (hsafe hkept) hcalm)
    dsimp only
    split
    · exact kept_of_calm (hsafe hkept) hcalm
    · refine wp_await hI .playStarted none hkept (fun frame u hu => ?_) (fun e u he => kept_of_halted he hsafe hcalm)
      have hkept := htaken (.inr rfl) hu
      have hcalm : blocked u.history = false := by rw [hu.untouched.2]; exact hcalm
      refine wp_checked (fun _ _ => ⟨?_, hkept, hcalm⟩) (fun e _ => kept_of_calm (hsafe hkept) hcalm)
      exact hu.untouched.1.trans ht.untouched.1
  · rcases ht.2 with rfl | ⟨-, whole, rfl⟩
    · exact kept_of_calm (hsafe h) hcalm
    · exact kept_of_calm (hsafe (hwrite h)) rfl

/-- Nothing more will be sent. -/
def Spent (past : σ → Prop) (t : Heap Playback σ) : Prop := past t.link ∧ blocked t.history = false

/-- A wait when nothing more will be sent. -/
theorem wp_await_over {α : Type} {f : Frame → Py Playback σ α} {Q : α → Heap Playback σ → Prop} {s : Heap Playback σ}
    (type : MsgType) (timeout : Option Int) (h : Spent past s)
    (hok : ∀ frame t, t.session = s.session → Spent past t → wp (f frame) Q (Kept safe starved) t) :
    wp (do f (← Transport.awaitFrame L type (← remaining L timeout))) Q (Kept safe starved) s := by
  refine wp_await hL.over_carries type timeout h.1 (fun frame t ht => ?_)
    (fun e t he => kept_of_halted he hL.over_safe h.2)
  obtain ⟨deferred, rest, -, -, hkept⟩ := ht.kept
  exact hok frame t ht.untouched.1 ⟨hkept, by rw [ht.untouched.2]; exact h.2⟩

theorem Spent.kept {e : Exn} {t : Heap Playback σ} (h : Spent past t) : Kept safe starved e t :=
  kept_of_calm (hL.over_safe h.1) h.2

theorem write_over {s : Heap Playback σ} (request : Request)
    (hrequest : request = .queueEnd ∨ request = .playStart ∨ request = .modeSet MODE_PASS) (h : Spent past s) :
    wp (Transport.write L request) (fun _ t => t.session = s.session ∧ Spent past t) (Kept safe starved) s := by
  refine wp_mono (Transport.write_wrote request s) (fun _ t ht => ?_) (fun e t ht => ?_)
  · obtain ⟨-, whole, rfl⟩ := ht
    exact ⟨rfl, hL.over_write hrequest h.1, rfl⟩
  · rcases ht.2 with rfl | ⟨-, whole, rfl⟩
    · exact h.kept hL
    · exact kept_of_calm (hL.over_safe (hL.over_write hrequest h.1)) rfl

omit hL in
theorem wp_discard {α : Type} {m : Py Playback σ α} {Q : Unit → Heap Playback σ → Prop}
    {E : Exn → Heap Playback σ → Prop} {s : Heap Playback σ} : wp (discard m) Q E s ↔ wp m (fun _ => Q ()) E s := by
  show wp (m >>= fun _ => pure ()) Q E s ↔ _
  rw [wp_bind]
  rfl

theorem wp_discard_over {α : Type} {m : Py Playback σ α} {Q : α → Heap Playback σ → Prop} {s : Heap Playback σ}
    (type : MsgType) (timeout : Option Int) (h : Spent past s)
    (hok : ∀ t, t.session = s.session → Spent past t → wp m Q (Kept safe starved) t) :
    wp (do discard (Transport.awaitFrame L type (← remaining L timeout)); m) Q (Kept safe starved) s := by
  have hwait := wp_await_over hL (f := fun _ => m) type timeout h (fun _ t hs ht => hok t hs ht)
  rw [wp_bind] at hwait ⊢
  refine wp_mono hwait (fun wait t ht => ?_) (fun _ _ he => he)
  rw [wp_bind] at ht
  rw [wp_bind, wp_discard]
  exact ht

/-- A session that `start` leaves: closed, or fed with more to come. -/
def Prepared (fed : Nat → Nat → List Frame → σ → Prop) (past : σ → Prop) (t : Heap Playback σ) : Prop :=
  t.session.nextEvent = t.session.events.length ∧ Spent past t ∨
    t.session.nextEvent ≠ t.session.events.length ∧ Resting fed t

omit hL in
/-- Its other fields do not matter. -/
theorem Prepared.updated {t u : Heap Playback σ} (h : Prepared fed past t)
    (hsession : (u.session.events, u.session.nextEvent, u.session.freeCapacity) =
      (t.session.events, t.session.nextEvent, t.session.freeCapacity))
    (hrest : (u.pending, u.link, u.history) = (t.pending, t.link, t.history)) : Prepared fed past u := by
  simp only [Prod.mk.injEq] at hsession hrest
  obtain ⟨hevents, hnext, hfree⟩ := hsession
  obtain ⟨hpending, hlink, hhistory⟩ := hrest
  rw [Prepared, Spent, Resting, hevents, hnext, hfree, hpending, hlink, hhistory]
  exact h

theorem closeSequence_feeds (s : Heap Playback σ) (h : Resting fed s) :
    wp (closeSequence L) (fun _ => Prepared fed past) (Kept safe starved) s := by
  unfold closeSequence
  rw [wp_bind, wp_session]
  by_cases hlast : s.session.nextEvent = s.session.events.length
  · rw [if_pos hlast, wp_bind]
    refine wp_mono (write_over hL .queueEnd (.inl rfl) ⟨hL.finish h.1, h.2⟩) (fun _ t ht => ?_) (fun _ _ he => he)
    refine wp_discard_over hL .playReady none ht.2 (fun u hu hspent => ?_)
    unfold awaitQueueAck
    refine wp_await_over hL .bufferStatus none hspent (fun frame v hv hspent => ?_)
    rw [wp_bind]
    refine wp_checked (fun status _ => ?_) (fun e _ => hspent.kept hL)
    dsimp only
    split
    · exact hspent.kept hL
    · have hsession : v.session = s.session := hv.trans (hu.trans ht.1)
      refine .inl ⟨?_, hspent⟩
      show v.session.nextEvent = v.session.events.length
      rw [hsession]
      exact hlast
  · rw [if_neg hlast]
    exact .inr ⟨hlast, h⟩

theorem startRun_feeds (s : Heap Playback σ) (h : Prepared fed past s) :
    wp (startRun L) (fun _ => Prepared fed past) (Kept safe starved) s := by
  rcases h with ⟨hlast, hspent⟩ | ⟨hmore, hresting⟩
  · refine wp_mono (startRun_carries hL.over_carries hL.over_safe (hL.over_write (.inr (.inl rfl))) (fun _ h => h)
      s hspent.1 hspent.2) (fun _ t ht => ?_) (fun _ _ he => he)
    refine .inl ⟨?_, ht.2⟩
    rw [ht.1]
    exact hlast
  · refine wp_mono (startRun_carries (hL.fed_carries 0 s.session.freeCapacity) hL.fed_safe hL.playStart hL.other s
      hresting.1 hresting.2) (fun _ t ht => ?_) (fun _ _ he => he)
    refine .inr ⟨?_, ?_, ht.2.2⟩
    · rw [ht.1]
      exact hmore
    · rw [ht.1]
      exact ht.2.1

omit hL in
theorem prebufferCount_le (p : Playback) : p.prebufferCount ≤ p.events.length := by
  unfold prebufferCount
  cases hfirst : p.events.findIdx? (fun e => e.1 ≥ p.prebufferUs) with
  | none => exact Nat.le_refl _
  | some index => exact (List.findIdx?_eq_some_iff_findIdx_eq.1 hfirst).1

theorem prepare_feeds (s : Heap Playback σ) (h : idle s.pending s.link) (hcalm : blocked s.history = false) :
    wp (prepare L) (Through entry (fun _ => Prepared fed past)) (Through entry (Kept safe starved)) s := by
  unfold prepare
  rw [wp_bind]
  refine wp_mono (clock_carries hL.idle_carries s h) (fun now t ht => ?_) nofun
  have hcalm : blocked t.history = false := by rw [ht.1.2]; exact hcalm
  rw [wp_bind, wp_updateSession, wp_bind]
  refine wp_mono (Transport.write_wrote .queueClear _) (fun _ u hu => ?_) (fun e u hu => ?_)
  · obtain ⟨-, whole, rfl⟩ := hu
    rw [wp_bind]
    refine wp_mono (awaitClear_feeds hL _ (hL.clear ht.2) rfl) (fun _ v hv => ?_) (fun _ _ he => .inr he)
    rw [wp_bind, wp_session]
    split
    · exact .inr (kept_of_calm (hL.fed_safe hv.1) hv.2)
    · refine wp_through (sendThrough_feeds hL _ MODE_ARMED L.patience v hv (prebufferCount_le v.session)) (fun _ => ?_)
        (fun _ w hw => ?_)
      · exact Keeps.bind Grows.trans (grows_of_inside (inside_closeSequence L))
          (fun _ => grows_of_inside (inside_startRun L))
      · rw [wp_bind]
        refine wp_mono (closeSequence_feeds hL w hw) (fun _ x hx => ?_) (fun _ _ he => .inr he)
        exact wp_mono (startRun_feeds hL x hx) (fun _ _ hy => .inr hy) (fun _ _ he => .inr he)
  · rcases hu.2 with rfl | ⟨-, whole, rfl⟩
    · exact .inr (kept_of_calm (hL.idle_safe ht.2) hcalm)
    · exact .inr (kept_of_calm (hL.cleared_safe (hL.clear ht.2)) rfl)

theorem start_feeds (s : Heap Playback σ) (h : idle s.pending s.link) (hcalm : blocked s.history = false) :
    wp (start L) (Through entry (fun _ => Prepared fed past)) (Through entry (Kept safe starved)) s := by
  unfold start
  simp only [wp_bind, wp_session]
  split
  · exact .inr (kept_of_calm (hL.idle_safe h) hcalm)
  simp only [wp_bind, wp_session]
  have hcarried := Transport.setMode_carries hL.idle_carries MODE_ARMED.toNat s.session.modeTimeout 1 hL.idle_modeSet
    hL.idle_answered s h
  have hshook := Transport.setMode_spec L MODE_ARMED (.inr (.inr rfl)) s.session.modeTimeout s
  refine wp_mono (wp_and hcarried hshook) (fun _ t ht => ?_) (fun e t ht => ?_)
  · rw [wp_bind, wp_updateSession, wp_bind]
    refine wp_mono (prepare_feeds hL _ ht.1 (handshakeDone_suffix ht.2.2).2) (fun playbackStartUs u hu => ?_)
      (fun _ _ he => he)
    rw [wp_bind, wp_updateSession]
    exact hu.imp_right (fun hu => hu.updated rfl rfl)
  · obtain ⟨⟨frames, hkept⟩, -, hfailed⟩ := ht
    exact .inr (kept_of_calm (hL.idle_safe hkept) ((handshakeFailed_suffix hfailed).2 hcalm))

omit hL in
/-- The diagnostics are taken from the frames there are. -/
def Collects (s t : Heap Playback σ) : Prop := t.link = s.link ∧ t.history = s.history

omit hL in
theorem collects_collectDiagnostics :
    ∀ frames : List Frame, Keeps Collects (collectDiagnostics frames : Py Playback σ Unit)
  | [] => fun _ => ⟨rfl, rfl⟩
  | frame :: frames => by
    have hrefl : ∀ s : Heap Playback σ, Collects s s := fun _ => ⟨rfl, rfl⟩
    have htrans : ∀ s t u : Heap Playback σ, Collects s t → Collects t u → Collects s u :=
      fun _ _ _ h h' => ⟨h'.1.trans h.1, h'.2.trans h.2⟩
    have hchecked : ∀ {α : Type} (c : Checked α), Keeps Collects (checked c : Py Playback σ α) := by
      intro α c
      cases c with
      | ok a => exact Keeps.pure hrefl a
      | error e => exact Keeps.throw hrefl e
    have hframe : Keeps Collects (collectFrame frame : Py Playback σ Unit) := by
      unfold collectFrame
      refine Keeps.bind htrans (hchecked _) (fun frame => ?_)
      split
      · exact Keeps.bind htrans (hchecked _) (fun _ s => hrefl s)
      split
      · exact Keeps.bind htrans (hchecked _) (fun _ s => hrefl s)
      · exact Keeps.pure hrefl _
    exact Keeps.bind htrans hframe (fun _ => collects_collectDiagnostics frames)

theorem awaitOutcome_over (outcomeType : MsgType) (expectedReason : UInt8) (outcome : String) (timeout : Option Int)
    (s : Heap Playback σ) (h : Spent past s) :
    wp (awaitOutcome L outcomeType expectedReason outcome timeout) (fun _ => Spent past) (Kept safe starved) s := by
  unfold awaitOutcome
  refine wp_discard_over hL outcomeType timeout h (fun t _ ht => ?_)
  refine wp_await_over hL .playMetrics timeout ht (fun frame u _ hu => ?_)
  rw [wp_bind]
  refine wp_checked (fun metrics _ => ?_) (fun e _ => hu.kept hL)
  refine wp_await_over hL .modeChanged timeout hu (fun frame v _ hv => ?_)
  rw [wp_bind]
  refine wp_checked (fun answer _ => ?_) (fun e _ => hv.kept hL)
  dsimp only
  split
  · exact hv.kept hL
  rw [wp_bind]
  show wp _ _ _ { v with pending := [] }
  have hcollected : ∀ w, Collects { v with pending := [] } w → Spent past w := by
    intro w hw
    rw [Spent, hw.1, hw.2]
    exact hv
  rw [wp_bind]
  refine wp_mono (collects_collectDiagnostics v.pending _) (fun _ w hw => ?_) (fun e w hw => (hcollected w hw).kept hL)
  exact hcollected w hw

theorem returnPass_over (returnToPass : Bool) (s : Heap Playback σ) (h : Spent past s) :
    wp (returnPass L returnToPass) (fun _ => Spent past) (Kept safe starved) s := by
  unfold returnPass
  split
  · rw [wp_bind, wp_session, wp_bind]
    have hcarried := Transport.setMode_carries hL.over_carries MODE_PASS.toNat s.session.modeTimeout 1
      (hL.over_write (.inr (.inr rfl))) (fun _ h => h) s h.1
    have hshook := Transport.setMode_spec L MODE_PASS (.inl rfl) s.session.modeTimeout s
    refine wp_mono (wp_and hcarried hshook) (fun _ t ht => ?_) (fun e t ht => ?_)
    · exact ⟨ht.1, (handshakeDone_suffix ht.2.2).2⟩
    · obtain ⟨⟨frames, hkept⟩, -, hfailed⟩ := ht
      exact kept_of_calm (hL.over_safe hkept) ((handshakeFailed_suffix hfailed).2 h.2)
  · exact h

theorem feedRest_feeds (s : Heap Playback σ) (h : Prepared fed past s) :
    wp (feedRest L) (Through entry (fun _ => Spent past)) (Through entry (Kept safe starved)) s := by
  unfold feedRest
  rw [wp_bind, wp_session]
  by_cases hmore : s.session.nextEvent < s.session.events.length
  · rw [if_pos hmore]
    rcases h with ⟨hlast, -⟩ | ⟨-, hresting⟩
    · omega
    refine wp_through (sendThrough_feeds hL _ MODE_PLAYING L.patience s hresting (Nat.le_refl _)) (fun _ => ?_)
      (fun _ t ht => ?_)
    · exact grows_of_inside (inside_write L (by rintro _ ⟨⟩))
    · refine wp_mono (write_over hL .queueEnd (.inl rfl) ⟨hL.finish ht.1, ht.2⟩) (fun _ u hu => .inr hu.2)
        (fun _ _ he => .inr he)
  · rw [if_neg hmore]
    rcases h with ⟨-, hspent⟩ | ⟨-, hresting⟩
    · exact .inr hspent
    · exact .inr ⟨hL.finish hresting.1, hresting.2⟩

theorem finish_feeds (returnToPass : Bool) (s : Heap Playback σ) (h : Prepared fed past s) :
    wp (finish L returnToPass) (Through entry (fun _ => Spent past)) (Through entry (Kept safe starved)) s := by
  have hkept : ∀ e, Through entry (Kept safe starved) e s := by
    intro e
    rcases h with ⟨-, hspent⟩ | ⟨-, hresting⟩
    · exact .inr (hspent.kept hL)
    · exact .inr (kept_of_calm (hL.fed_safe hresting.1) hresting.2)
  unfold finish
  rw [wp_bind, wp_session]
  split
  · exact hkept _
  split
  · exact hkept _
  refine wp_through (feedRest_feeds hL s h) (fun _ => ?_) (fun _ t ht => ?_)
  · refine Keeps.bind Grows.trans (grows_of_inside (inside_awaitOutcome L _ _ _ _)) (fun result => ?_)
    refine Keeps.bind Grows.trans (fun t => Grows.refl t) (fun _ => ?_)
    exact Keeps.bind Grows.trans (grows_returnPass L returnToPass) (fun _ t => Grows.refl t)
  rw [wp_bind]
  refine wp_mono (awaitOutcome_over hL _ _ _ _ t ht) (fun result u hu => ?_) (fun _ _ he => .inr he)
  rw [wp_bind, wp_updateSession, wp_bind]
  refine wp_mono (returnPass_over hL returnToPass _ hu) (fun _ v hv => ?_) (fun _ _ he => .inr he)
  exact .inr hv

/-- **What a session does on a link that keeps its part**: unless a wait for credit began otherwise than it should, the
link is in order however the session ends, and while it waits for credit it is `starved`. -/
theorem session_feeds (returnToPass : Bool) (s : Heap Playback σ) (h : idle s.pending s.link)
    (hcalm : blocked s.history = false) :
    wp (do discard (start L); finish L returnToPass) (Through entry (fun _ t => safe t.link))
      (Through entry (Kept safe starved)) s := by
  have hfinish : Keeps Grows (finish L returnToPass) := by
    unfold finish
    refine Keeps.bind Grows.trans (fun t => Grows.refl t) (fun p => ?_)
    split
    · exact Keeps.throw Grows.refl _
    split
    · exact Keeps.throw Grows.refl _
    refine Keeps.bind Grows.trans (grows_of_inside (inside_feedRest L)) (fun _ => ?_)
    refine Keeps.bind Grows.trans (grows_of_inside (inside_awaitOutcome L _ _ _ _)) (fun result => ?_)
    refine Keeps.bind Grows.trans (fun t => Grows.refl t) (fun _ => ?_)
    exact Keeps.bind Grows.trans (grows_returnPass L returnToPass) (fun _ t => Grows.refl t)
  have hstart : wp (discard (start L)) (Through entry (fun _ => Prepared fed past))
      (Through entry (Kept safe starved)) s :=
    wp_discard.2 (start_feeds hL s h hcalm)
  refine wp_through hstart (fun _ => hfinish) (fun _ t ht => ?_)
  refine wp_mono (finish_feeds hL returnToPass t ht) (fun _ u hu => hu.imp_right ?_) (fun _ _ he => he)
  exact fun hspent => hL.over_safe hspent.1

end Feeding

end Playback
end PiZero
end PicoRecorder
