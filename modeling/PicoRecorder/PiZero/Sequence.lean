import PicoRecorder.Lib.Window
import PicoRecorder.PiZero.Feeding
import PicoRecorder.PiZero.Recordings
import PicoRecorder.PiZero.Reconcile
/-!
# Sequence — the commands of a run (`PlaybackSession.play`)

The requests of a run are those its history records, and the window counts the QUEUE_EVENTs in it that no BUFFER_STATUS
was taken for yet.
-/
namespace PicoRecorder
namespace PiZero

open Lib
open Pico (Frame MsgType)

/-- `PlaybackSession(transport, recording, speed=…)`, with the numbers it has checked and converted. -/
def Playback.ofRecording (recording : Recording) (speed : Option ℚ) (prebufferUs modeTimeout : Int)
    (playbackTimeout : Option Int) : Checked Playback := do
  let events ← expandOffsets recording.events speed
  .ok (.create events prebufferUs modeTimeout playbackTimeout)

/-- `play`. -/
def Playback.play {σ : Type} (L : Link σ) (returnToPass : Bool) : Py Playback σ PlaybackResult := do
  let _ ← start L
  finish L returnToPass

/-! ## What a run wrote and was given -/

def Act.request? : Act → Option Request
  | .wrote request _ _ => some request
  | _ => none

/-- The requests written, oldest first. -/
def Heap.requests {S σ : Type} (h : Heap S σ) : List Request := (h.history.filterMap Act.request?).reverse

theorem Heap.requests_of_acts {S σ : Type} {s t : Heap S σ} {acts : List Act}
    (h : t.history = acts.reverse ++ s.history) :
    t.requests = s.requests ++ acts.filterMap Act.request? := by
  simp [Heap.requests, h, List.filterMap_append, List.filterMap_reverse]

namespace Playback

/-- QUEUE_EVENTs open the pipeline, the BUFFER_STATUS frames taken for them close it. -/
def pipeline : Window Act where
  opens
    | .wrote (.queueEvent _ _) _ _ => true
    | _ => false
  closes
    | .took frame => frame.type = MsgType.bufferStatus.byte
    | _ => false
  limit := PIPELINE_WINDOW

variable {σ : Type} {L : Link σ}

/-- From `m` unacknowledged events to `n`, with these requests and `next` as the next event of the same recording. -/
structure Sent (s : Heap Playback σ) (m : Nat) (requests : List Request) (n next : Nat) (t : Heap Playback σ) :
    Prop where
  recording : t.session.events = s.session.events ∧ t.session.prebufferUs = s.session.prebufferUs
  next : t.session.nextEvent = next
  acts : ∃ acts : List Act, t.history = acts.reverse ++ s.history ∧ acts.filterMap Act.request? = requests ∧
    pipeline.Holds m acts ∧ acts.foldl pipeline.after m = n

/-- No request, and no acknowledgement of one. -/
def Still (act : Act) : Prop := act.request? = none ∧ pipeline.closes act = false

theorem Still.after {act : Act} (h : Still act) (n : Nat) : pipeline.after n act = n := by
  refine Window.after_neither ?_ h.2
  obtain ⟨hrequest, -⟩ := h
  cases act with
  | wrote request whole aside => cases hrequest
  | answered | took | awaitsCredit | credited => rfl

theorem still_holds {n : Nat} (hn : n ≤ PIPELINE_WINDOW) : ∀ {acts : List Act}, (∀ act ∈ acts, Still act) →
    acts.filterMap Act.request? = [] ∧ pipeline.Holds n acts ∧ acts.foldl pipeline.after n = n
  | [], _ => ⟨rfl, Window.holds_nil.2 hn, rfl⟩
  | act :: acts, h => by
    obtain ⟨hact, hacts⟩ := List.forall_mem_cons.1 h
    obtain ⟨hrequests, hholds, hafter⟩ := still_holds hn hacts
    refine ⟨by rw [List.filterMap_cons_none hact.1, hrequests], ?_, by rw [List.foldl_cons, hact.after, hafter]⟩
    rw [Window.holds_cons, hact.after]
    exact ⟨hn, hholds⟩

/-- Nothing was written or acknowledged, and the session is where it was. -/
def Calm (s t : Heap Playback σ) : Prop :=
  (t.session.events = s.session.events ∧ t.session.prebufferUs = s.session.prebufferUs) ∧
    t.session.nextEvent = s.session.nextEvent ∧
    ∃ acts : List Act, t.history = acts.reverse ++ s.history ∧ ∀ act ∈ acts, Still act

theorem Calm.refl (s : Heap Playback σ) : Calm s s := ⟨⟨rfl, rfl⟩, rfl, [], rfl, fun _ h => by cases h⟩

theorem Calm.trans (s t u : Heap Playback σ) (h : Calm s t) (h' : Calm t u) : Calm s u := by
  obtain ⟨hrecording, hnext, acts, hhistory, hstill⟩ := h
  obtain ⟨hrecording', hnext', acts', hhistory', hstill'⟩ := h'
  refine ⟨⟨hrecording'.1.trans hrecording.1, hrecording'.2.trans hrecording.2⟩, hnext'.trans hnext, acts ++ acts', ?_,
    ?_⟩
  · rw [hhistory', hhistory, List.reverse_append, List.append_assoc]
  · intro act hact
    rcases List.mem_append.1 hact with hact | hact
    · exact hstill act hact
    · exact hstill' act hact

theorem Calm.sent {s t : Heap Playback σ} {n : Nat} (h : Calm s t) (hn : n ≤ PIPELINE_WINDOW) :
    Sent s n [] n s.session.nextEvent t := by
  obtain ⟨hrecording, hnext, acts, hhistory, hstill⟩ := h
  exact ⟨hrecording, hnext, acts, hhistory, still_holds hn hstill⟩

theorem Sent.trans {s t u : Heap Playback σ} {m n k next next' : Nat} {requests requests' : List Request}
    (h : Sent s m requests n next t) (h' : Sent t n requests' k next' u) :
    Sent s m (requests ++ requests') k next' u := by
  obtain ⟨acts, hhistory, hrequests, hholds, hafter⟩ := h.acts
  obtain ⟨acts', hhistory', hrequests', hholds', hafter'⟩ := h'.acts
  refine ⟨⟨h'.recording.1.trans h.recording.1, h'.recording.2.trans h.recording.2⟩, h'.next, acts ++ acts', ?_, ?_, ?_,
    ?_⟩
  · rw [hhistory', hhistory, List.reverse_append, List.append_assoc]
  · rw [List.filterMap_append, hrequests, hrequests']
  · rw [Window.holds_append, hafter]
    exact ⟨hholds, hholds'⟩
  · rw [List.foldl_append, hafter, hafter']

/-- The session goes on to another event. -/
theorem Sent.goes {s t u : Heap Playback σ} {m n next next' : Nat} {requests : List Request}
    (h : Sent s m requests n next t)
    (hrecording : u.session.events = t.session.events ∧ u.session.prebufferUs = t.session.prebufferUs)
    (hnext : u.session.nextEvent = next') (hhistory : u.history = t.history) : Sent s m requests n next' u :=
  ⟨⟨hrecording.1.trans h.recording.1, hrecording.2.trans h.recording.2⟩, hnext, hhistory ▸ h.acts⟩

theorem Sent.within {s t : Heap Playback σ} {m n next : Nat} {requests : List Request}
    (h : Sent s m requests n next t) : n ≤ PIPELINE_WINDOW := by
  obtain ⟨acts, -, -, hholds, hafter⟩ := h.acts
  exact hafter ▸ hholds acts (List.prefix_refl acts)

theorem Sent.calm {s t u : Heap Playback σ} {m n next : Nat} {requests : List Request}
    (h : Sent s m requests n next t) (hcalm : Calm t u) : Sent s m requests n next u := by
  have hsent := h.trans (hcalm.sent h.within)
  rwa [List.append_nil, h.next] at hsent

theorem Calm.then {s t u : Heap Playback σ} {m n next : Nat} {requests : List Request} (hcalm : Calm s t)
    (hm : m ≤ PIPELINE_WINDOW) (h : Sent t m requests n next u) : Sent s m requests n next u :=
  (hcalm.sent hm).trans h

theorem Sent.requests {s t : Heap Playback σ} {m n next : Nat} {requests : List Request}
    (h : Sent s m requests n next t) : t.requests = s.requests ++ requests := by
  obtain ⟨acts, hhistory, rfl, -⟩ := h.acts
  exact Heap.requests_of_acts hhistory

/-- A call that raised: it wrote a beginning of the requests. -/
def Cut (s : Heap Playback σ) (m : Nat) (requests : List Request) (t : Heap Playback σ) : Prop :=
  ∃ sent n next, sent <+: requests ∧ Sent s m sent n next t

theorem Cut.mono {s t : Heap Playback σ} {m : Nat} {requests requests' : List Request} (h : Cut s m requests t)
    (hp : requests <+: requests') : Cut s m requests' t := by
  obtain ⟨sent, n, next, hsent, hs⟩ := h
  exact ⟨sent, n, next, hsent.trans hp, hs⟩

/-- What the call wrote before is the beginning, in front of what it wrote then. -/
theorem Sent.cut {s t u : Heap Playback σ} {m n next : Nat} {requests requests' : List Request}
    (h : Sent s m requests n next t) (h' : Cut t n requests' u) : Cut s m (requests ++ requests') u := by
  obtain ⟨sent, k, next', hsent, hs⟩ := h'
  exact ⟨requests ++ sent, k, next', (List.prefix_append_right_inj requests).2 hsent, h.trans hs⟩

theorem Calm.cut {s t : Heap Playback σ} {m : Nat} (requests : List Request) (h : Calm s t) (hm : m ≤ PIPELINE_WINDOW) :
    Cut s m requests t :=
  ⟨[], m, s.session.nextEvent, List.nil_prefix, h.sent hm⟩

/-! ## What a program writes -/

/-- The program writes these requests if it returns, and a beginning of them if it raises. -/
def Writes {α : Type} (m : Py Playback σ α) (s : Heap Playback σ) (k : Nat) (requests : List Request)
    (n next : Nat) : Prop :=
  wp m (fun _ t => Sent s k requests n next t) (fun _ t => Cut s k requests t) s

section Rules

variable {α β : Type} {m : Py Playback σ α} {f : α → Py Playback σ β} {s : Heap Playback σ} {k n n' next next' : Nat}
  {requests requests' : List Request}

/-- **One program after another** writes one's requests behind the other's. -/
theorem Writes.bind (hm : Writes m s k requests n next)
    (hf : ∀ a t, Sent s k requests n next t → Writes (f a) t n requests' n' next') :
    Writes (m >>= f) s k (requests ++ requests') n' next' := by
  unfold Writes
  rw [wp_bind]
  refine wp_mono hm (fun a t ht => ?_) (fun _ t ht => ht.mono (List.prefix_append requests requests'))
  exact wp_mono (hf a t ht) (fun _ u hu => ht.trans hu) (fun _ u hu => ht.cut hu)

/-- A program may start with what writes nothing. -/
theorem Writes.calm_bind (hm : Keeps Calm m) (hk : k ≤ PIPELINE_WINDOW)
    (hf : ∀ a t, Calm s t → Writes (f a) t k requests n next) : Writes (m >>= f) s k requests n next := by
  unfold Writes
  rw [wp_bind]
  refine wp_mono (hm s) (fun a t ht => ?_) (fun _ t ht => ht.cut requests hk)
  exact wp_mono (hf a t ht) (fun _ u hu => ht.then hk hu) (fun _ u hu => (ht.sent hk).cut hu)

/-- And end with it. -/
theorem Writes.bind_calm (hm : Writes m s k requests n next) (hf : ∀ a, Keeps Calm (f a)) :
    Writes (m >>= f) s k requests n next := by
  unfold Writes
  rw [wp_bind]
  refine wp_mono hm (fun a t ht => ?_) (fun _ t ht => ht)
  refine wp_mono (hf a t) (fun _ u hu => ht.calm hu) (fun _ u hu => ?_)
  exact ⟨requests, n, next, List.prefix_refl requests, ht.calm hu⟩

theorem Writes.session_bind {f : Playback → Py Playback σ β} (hf : Writes (f s.session) s k requests n next) :
    Writes (session >>= f) s k requests n next := by
  unfold Writes
  rw [wp_bind, wp_session]
  exact hf

/-- An update of the session; it may go on to another event. -/
theorem Writes.update_bind {g : Playback → Playback} {f : Unit → Py Playback σ β} (hk : k ≤ PIPELINE_WINDOW)
    (hg : ∀ p, (g p).events = p.events ∧ (g p).prebufferUs = p.prebufferUs)
    (hf : Writes (f ()) { s with session := g s.session } k requests n next) :
    Writes (updateSession g >>= f) s k requests n next := by
  have hgoes : Sent s k [] k (g s.session).nextEvent { s with session := g s.session } :=
    ((Calm.refl s).sent hk).goes (hg s.session) rfl rfl
  unfold Writes
  rw [wp_bind, wp_updateSession]
  exact wp_mono hf (fun _ u hu => hgoes.trans hu) (fun _ u hu => hgoes.cut hu)

theorem Writes.of_calm (hm : Keeps Calm m) (hk : k ≤ PIPELINE_WINDOW) : Writes m s k [] k s.session.nextEvent :=
  wp_mono (hm s) (fun _ _ ht => ht.sent hk) (fun _ _ ht => ht.cut [] hk)

theorem Writes.raise (kind : ErrorKind) (message : String) (hk : k ≤ PIPELINE_WINDOW) :
    Writes (raise kind message : Py Playback σ α) s k requests n next :=
  (Calm.refl s).cut requests hk

theorem Writes.suspended (hk : k ≤ PIPELINE_WINDOW) :
    Writes (throw .suspended : Py Playback σ α) s k requests n next :=
  (Calm.refl s).cut requests hk

end Rules

/-! ## What each call writes -/

theorem calm_of_untouched {α : Type} {m : Py Playback σ α} (h : Keeps Untouched m) : Keeps Calm m :=
  h.mono (fun s t hu => ⟨by rw [hu.1]; exact ⟨rfl, rfl⟩, by rw [hu.1], [], hu.2, fun _ h => by cases h⟩)

theorem calm_update {f : Playback → Playback}
    (hf : ∀ p, ((f p).events = p.events ∧ (f p).prebufferUs = p.prebufferUs) ∧ (f p).nextEvent = p.nextEvent) :
    Keeps Calm (updateSession f : Py Playback σ Unit) := fun s =>
  ⟨(hf s.session).1, (hf s.session).2, [], rfl, fun _ h => by cases h⟩

theorem calm_note {act : Heap Playback σ → Act} (hact : ∀ h, Still (act h)) :
    Keeps Calm (modify (fun h => h.note (act h)) : Py Playback σ Unit) := fun s =>
  ⟨⟨rfl, rfl⟩, rfl, [act s], rfl, fun _ hm => List.mem_singleton.1 hm ▸ hact s⟩

/-- One act that leaves no more open than the window holds. -/
theorem sent_act {s t : Heap Playback σ} {act : Act} {n : Nat} (hsession : t.session = s.session)
    (hhistory : t.history = act :: s.history) (hn : n ≤ PIPELINE_WINDOW)
    (hafter : pipeline.after n act ≤ PIPELINE_WINDOW) :
    Sent s n act.request?.toList (pipeline.after n act) s.session.nextEvent t := by
  refine ⟨by rw [hsession]; exact ⟨rfl, rfl⟩, by rw [hsession], [act], hhistory, ?_, ?_, rfl⟩
  · cases hrequest : act.request? <;> simp [hrequest]
  · exact Window.holds_cons.2 ⟨hn, Window.holds_nil.2 hafter⟩

/-- A request counts as written also when the line did not take it whole. -/
theorem write_sent (request : Request) {m n : Nat} (hm : m ≤ PIPELINE_WINDOW) (hn : n ≤ PIPELINE_WINDOW)
    (hafter : ∀ whole aside, pipeline.after m (.wrote request whole aside) = n) (s : Heap Playback σ) :
    Writes (Transport.write L request) s m [request] n s.session.nextEvent := by
  have hwrote : ∀ {t : Heap Playback σ}, Transport.Wrote L request s t →
      Sent s m [request] n s.session.nextEvent t := by
    rintro t ⟨-, whole, ht⟩
    have hsession : t.session = s.session := by rw [ht]
    have hhistory : t.history = .wrote request whole s.pending :: s.history := by rw [ht]
    have hsent := sent_act hsession hhistory hm (by rw [hafter]; exact hn)
    rwa [hafter] at hsent
  refine wp_mono (Transport.write_wrote request s) (fun _ t ht => hwrote ht) ?_
  rintro e t ⟨-, rfl | ht⟩
  · exact (Calm.refl t).cut _ hm
  · exact ⟨[request], n, _, List.prefix_refl _, hwrote ht⟩

/-- An acknowledgement closes what it acknowledges. -/
theorem Writes.ack_bind {β : Type} {f : Frame → Py Playback σ β} {s : Heap Playback σ} {timeout : Int} {n n' next : Nat}
    {requests : List Request} (hn : n ≤ PIPELINE_WINDOW)
    (hf : ∀ frame t, Sent s n [] (n - 1) s.session.nextEvent t → Writes (f frame) t (n - 1) requests n' next) :
    Writes (do
      let frame ← Transport.awaitFrame L .bufferStatus timeout
      modify (Heap.note (.took frame))
      f frame) s n requests n' next := by
  have hcarries : PiZero.Carries L (fun _ _ => True) := ⟨fun _ => trivial, fun _ => trivial, fun _ => trivial⟩
  unfold Writes
  rw [wp_bind]
  refine wp_mono (Transport.awaitFrame_carries hcarries .bufferStatus timeout s trivial) (fun frame t htaken => ?_)
    (fun e t hhalted => ?_)
  · have hcloses : pipeline.closes (.took frame) = true := decide_eq_true htaken.ofType
    have hcount : pipeline.after n (.took frame) = n - 1 := Window.after_closes rfl hcloses
    have hsent : Sent s n (Act.took frame).request?.toList (pipeline.after n (.took frame)) s.session.nextEvent
        (t.note (.took frame)) :=
      sent_act htaken.untouched.1 (congrArg (List.cons _) htaken.untouched.2) hn
        (by rw [hcount]; exact (Nat.sub_le n 1).trans hn)
    rw [hcount] at hsent
    rw [wp_bind]
    change wp (f frame) _ _ (t.note (.took frame))
    exact wp_mono (hf frame _ hsent) (fun _ u hu => hsent.trans hu) (fun _ u hu => hsent.cut hu)
  · have hcalm : Calm s t := by
      refine ⟨by rw [hhalted.untouched.1]; exact ⟨rfl, rfl⟩, by rw [hhalted.untouched.1], [], hhalted.untouched.2, ?_⟩
      exact fun _ h => by cases h
    exact hcalm.cut _ hn

/-- The QUEUE_EVENTs of some events. -/
def queueEvents (events : List (Int × List UInt8)) : List Request := events.map (fun e => .queueEvent e.1 e.2)

theorem queueEvents_append (events events' : List (Int × List UInt8)) :
    queueEvents (events ++ events') = queueEvents events ++ queueEvents events' := List.map_append

/-- **The events of a batch** are unacknowledged once they are written. -/
theorem sendEvents_sent : ∀ (events : List (Int × List UInt8)) (s : Heap Playback σ) (n : Nat),
    n + events.length ≤ PIPELINE_WINDOW →
      Writes (sendEvents L events) s n (queueEvents events) (n + events.length) s.session.nextEvent
  | [], s, n, hn => (Calm.refl s).sent hn
  | (offsetUs, report) :: events, s, n, hn => by
    rw [List.length_cons] at hn ⊢
    have hfirst := write_sent (L := L) (n := n + 1) (.queueEvent offsetUs report) (by omega) (by omega)
      (fun _ _ => Window.after_opens rfl) s
    unfold sendEvents
    refine hfirst.bind (fun _ t ht => ?_)
    have hrest := sendEvents_sent events t (n + 1) (by omega)
    rwa [ht.next, Nat.add_assoc, Nat.add_comm 1] at hrest

theorem calm_remaining (timeout : Option Int) : Keeps Calm (remaining L timeout) := by
  unfold remaining
  cases timeout with
  | some timeout => exact Keeps.pure Calm.refl _
  | none =>
    refine Keeps.bind Calm.trans (calm_of_untouched untouched_session) (fun p => ?_)
    refine Keeps.bind Calm.trans (calm_of_untouched (untouched_clock L)) (fun now => ?_)
    dsimp only
    split
    · exact calm_of_untouched (untouched_raise _ _)
    · exact Keeps.pure Calm.refl _

/-- **The acknowledgements of a batch**, each for one event. -/
theorem awaitAcks_sent (expectedState : UInt8) : ∀ (k : Nat) (s : Heap Playback σ) (n : Nat), n ≤ PIPELINE_WINDOW →
    Writes (awaitAcks L expectedState k) s n [] (n - k) s.session.nextEvent
  | 0, s, n, hn => (Calm.refl s).sent hn
  | k + 1, s, n, hn => by
    have hn' : n - 1 ≤ PIPELINE_WINDOW := (Nat.sub_le n 1).trans hn
    unfold awaitAcks
    refine .calm_bind (calm_remaining none) hn (fun timeout t ht => ?_)
    refine .ack_bind hn (fun frame u hu => ?_)
    refine .calm_bind (calm_of_untouched (untouched_checked _)) hn' (fun status v hv => ?_)
    split
    split
    · exact .raise _ _ hn'
    refine .calm_bind (calm_update (fun _ => ⟨⟨rfl, rfl⟩, rfl⟩)) hn' (fun _ w hw => ?_)
    have hrest := awaitAcks_sent expectedState k w (n - 1) hn'
    rwa [hw.2.1, hv.2.1, hu.next, ht.2.1, Nat.sub_sub, Nat.add_comm 1 k] at hrest

theorem calm_refill (expectedState : UInt8) : Keeps Calm (refill L expectedState) := by
  have hawait : ∀ n, Keeps Calm (awaitCredit L expectedState n) := by
    intro n
    induction n with
    | zero => exact Keeps.throw Calm.refl _
    | succ n ih =>
      unfold awaitCredit
      refine Keeps.bind Calm.trans (calm_remaining none) (fun timeout => ?_)
      refine Keeps.bind Calm.trans (calm_of_untouched (Transport.untouched_receiveFrame L timeout)) (fun frame => ?_)
      refine Keeps.bind Calm.trans (calm_of_untouched (untouched_checked _)) (fun frame => ?_)
      split
      · refine Keeps.bind Calm.trans (calm_of_untouched (untouched_checked _)) (fun status => ?_)
        split
        split
        · exact calm_of_untouched (untouched_raise _ _)
        split
        · exact Keeps.pure Calm.refl _
        · exact ih
      split
      · refine Keeps.bind Calm.trans (calm_of_untouched (untouched_checked _)) (fun underrun => ?_)
        split
        refine Keeps.bind Calm.trans (calm_update (fun _ => ⟨⟨rfl, rfl⟩, rfl⟩)) (fun _ => ?_)
        split
        · exact Keeps.pure Calm.refl _
        · exact ih
      · exact Keeps.ensuring Calm.trans ih (fun s => ⟨⟨rfl, rfl⟩, rfl, [], rfl, fun _ h => by cases h⟩)
  unfold refill
  refine Keeps.bind Calm.trans (calm_of_untouched untouched_session) (fun p => ?_)
  split
  · refine Keeps.bind Calm.trans (calm_note (fun _ => ⟨rfl, rfl⟩)) (fun _ => ?_)
    refine Keeps.bind Calm.trans (hawait _) (fun freeCapacity => ?_)
    exact Keeps.bind Calm.trans (calm_note (fun _ => ⟨rfl, rfl⟩)) (fun _ => calm_update (fun _ => ⟨⟨rfl, rfl⟩, rfl⟩))
  · exact Keeps.pure Calm.refl _

/-- A batch, and what is left of the range. -/
theorem batch_append {α : Type} (l : List α) {next stop k : Nat} (hk : next + k ≤ stop) :
    (l.drop next).take k ++ (l.drop (next + k)).take (stop - (next + k)) = (l.drop next).take (stop - next) := by
  rw [← List.drop_drop, ← List.take_add]
  congr 1
  omega

/-- **The loop** sends what is left up to `stop`, batch by batch, and leaves nothing unacknowledged. -/
theorem sendThrough_sent (stop : Nat) (expectedState : UInt8) : ∀ (k : Nat) (s : Heap Playback σ),
    s.session.nextEvent ≤ stop → stop ≤ s.session.events.length →
      Writes (sendThrough L stop expectedState k) s 0
        (queueEvents ((s.session.events.drop s.session.nextEvent).take (stop - s.session.nextEvent))) 0 stop
  | 0, s, _, _ => .suspended (Nat.zero_le _)
  | k + 1, s, hnext, hstop => by
    unfold sendThrough
    refine .session_bind ?_
    split
    · refine .calm_bind (calm_refill expectedState) (Nat.zero_le _) (fun _ t ht => ?_)
      refine .session_bind ?_
      obtain ⟨⟨hevents, -⟩, hat, -⟩ := ht
      rw [← hevents, ← hat]
      rw [← hevents] at hstop
      generalize hbatch : min PIPELINE_WINDOW (min t.session.freeCapacity (stop - t.session.nextEvent)) = batch
      have hwindow : batch ≤ PIPELINE_WINDOW := hbatch ▸ Nat.min_le_left _ _
      have hrange : t.session.nextEvent + batch ≤ stop := by omega
      have hlength : ((t.session.events.drop t.session.nextEvent).take batch).length = batch := by
        rw [List.length_take, List.length_drop]
        omega
      have hbatch := sendEvents_sent (L := L) ((t.session.events.drop t.session.nextEvent).take batch) t 0 (by omega)
      rw [hlength, Nat.zero_add] at hbatch
      rw [← batch_append t.session.events hrange, queueEvents_append]
      refine hbatch.bind (fun _ u hu => ?_)
      have hacks := awaitAcks_sent (L := L) expectedState batch u batch hwindow
      rw [Nat.sub_self] at hacks
      refine hacks.bind (fun _ v hv => ?_)
      have hnext' : v.session.nextEvent = t.session.nextEvent := hv.next.trans hu.next
      have hevents' : v.session.events = t.session.events := hv.recording.1.trans hu.recording.1
      refine .update_bind (Nat.zero_le _) (fun _ => ⟨rfl, rfl⟩) ?_
      show Writes _ _ 0 (queueEvents _) 0 stop
      rw [← hnext', ← hevents']
      refine sendThrough_sent stop expectedState k _ ?_ ?_
      · show v.session.nextEvent + batch ≤ stop
        omega
      · show stop ≤ v.session.events.length
        rw [hevents']
        exact hstop
    · have hat : s.session.nextEvent = stop := by omega
      have hnone : Writes (pure ()) s 0 [] 0 s.session.nextEvent := .of_calm (Keeps.pure Calm.refl ()) (Nat.zero_le _)
      rw [hat] at hnone ⊢
      simpa [queueEvents] using hnone

theorem calm_awaitQueueAck (command : String) : Keeps Calm (awaitQueueAck L command) := by
  unfold awaitQueueAck
  refine Keeps.bind Calm.trans (calm_remaining none) (fun timeout => ?_)
  refine Keeps.bind Calm.trans (calm_of_untouched (Transport.untouched_awaitFrame L _ _)) (fun frame => ?_)
  refine Keeps.bind Calm.trans (calm_of_untouched (untouched_checked _)) (fun status => ?_)
  split
  split
  · exact calm_of_untouched (untouched_raise _ _)
  · exact calm_update (fun _ => ⟨⟨rfl, rfl⟩, rfl⟩)

/-- A request that is no QUEUE_EVENT, written while nothing is unacknowledged. -/
theorem command_sent (request : Request) (hrequest : ∀ whole aside, pipeline.opens (.wrote request whole aside) = false)
    (s : Heap Playback σ) : Writes (Transport.write L request) s 0 [request] 0 s.session.nextEvent :=
  write_sent request (Nat.zero_le _) (Nat.zero_le _) (fun _ _ => Window.after_neither (hrequest _ _) rfl) s

theorem closeSequence_sent (s : Heap Playback σ) :
    Writes (closeSequence L) s 0 (if s.session.nextEvent = s.session.events.length then [.queueEnd] else []) 0
      s.session.nextEvent := by
  unfold closeSequence
  refine .session_bind ?_
  split
  · refine (command_sent .queueEnd (fun _ _ => rfl) s).bind_calm (fun _ => ?_)
    refine Keeps.bind Calm.trans (calm_remaining none) (fun timeout => ?_)
    refine Keeps.bind Calm.trans (Keeps.bind Calm.trans (calm_of_untouched (Transport.untouched_awaitFrame L _ _))
      (fun _ => Keeps.pure Calm.refl _)) (fun _ => calm_awaitQueueAck _)
  · exact .of_calm (Keeps.pure Calm.refl ()) (Nat.zero_le _)

theorem startRun_sent (s : Heap Playback σ) : Writes (startRun L) s 0 [.playStart] 0 s.session.nextEvent := by
  unfold startRun
  refine (command_sent .playStart (fun _ _ => rfl) s).bind_calm (fun _ => ?_)
  refine Keeps.bind Calm.trans (calm_remaining none) (fun timeout => ?_)
  refine Keeps.bind Calm.trans (calm_of_untouched (Transport.untouched_awaitFrame L _ _)) (fun frame => ?_)
  refine Keeps.bind Calm.trans (calm_of_untouched (untouched_checked _)) (fun answer => ?_)
  split
  split
  · exact calm_of_untouched (untouched_raise _ _)
  refine Keeps.bind Calm.trans (calm_remaining none) (fun timeout => ?_)
  refine Keeps.bind Calm.trans (calm_of_untouched (Transport.untouched_awaitFrame L _ _)) (fun frame => ?_)
  exact calm_of_untouched (untouched_checked _)

/-! ## The prebuffer -/

/-- What is sent before PLAY_START: up to the first event at or past the prebuffer, or everything. -/
def Prebuffered (prebufferUs : Int) (held rest : List (Int × List UInt8)) : Prop :=
  (∃ before event, held = before ++ [event] ∧ (∀ e ∈ before, e.1 < prebufferUs) ∧ prebufferUs ≤ event.1) ∨
    rest = [] ∧ ∀ e ∈ held, e.1 < prebufferUs

theorem prebufferCount_prebuffered (p : Playback) :
    Prebuffered p.prebufferUs (p.events.take p.prebufferCount) (p.events.drop p.prebufferCount) := by
  unfold prebufferCount
  split
  · rename_i index hindex
    obtain ⟨hlt, hpast, hbefore⟩ := List.findIdx?_eq_some_iff_getElem.1 hindex
    refine .inl ⟨p.events.take index, p.events[index], ?_, fun e he => ?_, of_decide_eq_true hpast⟩
    · rw [List.take_succ_eq_append_getElem hlt]
    · obtain ⟨i, hi, rfl⟩ := List.mem_iff_getElem.1 he
      rw [List.length_take] at hi
      rw [List.getElem_take]
      have := hbefore i (by omega)
      simpa using this
  · rename_i hnone
    refine .inr ⟨List.drop_length, fun e he => ?_⟩
    have := List.findIdx?_eq_none_iff.1 hnone e (List.mem_of_mem_take he)
    simpa using this

/-! ## A run -/

/-- A handshake writes its one request, and again after every answer that did not come. -/
theorem setModeAttempts_sent (target : UInt8) (timeout : Int) : ∀ (k : Nat) (s : Heap Playback σ),
    wp (Transport.setModeAttempts L target timeout k)
      (fun _ t => ∃ writes, (0 < k → 0 < writes) ∧ writes ≤ k ∧
        Sent s 0 (List.replicate writes (.modeSet target)) 0 s.session.nextEvent t)
      (fun _ t => Cut s 0 (List.replicate k (.modeSet target)) t) s
  | 0, s => ⟨0, id, le_rfl, (Calm.refl s).sent (Nat.zero_le _)⟩
  | k + 1, s => by
    unfold Transport.setModeAttempts
    rw [wp_bind]
    have hone : [Request.modeSet target] <+: List.replicate (k + 1) (.modeSet target) := by
      rw [List.replicate_succ, List.cons_prefix_cons]
      exact ⟨rfl, List.nil_prefix⟩
    refine wp_mono (command_sent (.modeSet target) (fun _ _ => rfl) s) (fun _ t ht => ?_) (fun _ t ht => ht.mono hone)
    rw [wp_bind]
    have hcut : ∀ {u : Heap Playback σ}, Calm t u → Cut s 0 (List.replicate (k + 1) (.modeSet target)) u :=
      fun hu => ⟨_, 0, _, hone, ht.calm hu⟩
    refine wp_mono (calm_of_untouched (Transport.untouched_awaitAnswer L timeout _) t) (fun answer u hu => ?_)
      (fun _ u hu => hcut hu)
    have hwritten := ht.calm hu
    cases answer with
    | none =>
      refine wp_mono (setModeAttempts_sent target timeout k u) (fun _ v hv => ?_) (fun _ v hv => ?_)
      · obtain ⟨writes, -, hle, hsent⟩ := hv
        have hall := hwritten.trans hsent
        rw [hwritten.next] at hall
        exact ⟨writes + 1, fun _ => Nat.succ_pos _, Nat.succ_le_succ hle, hall⟩
      · exact hwritten.cut hv
    | some frame =>
      rw [wp_bind]
      refine wp_mono (calm_of_untouched (untouched_checked _) u) (fun answer v hv => ?_)
        (fun _ v hv => hcut (hu.trans _ _ _ hv))
      rw [wp_bind]
      refine wp_mono (calm_note (fun _ => ⟨rfl, rfl⟩) v) (fun _ w hw => ?_)
        (fun _ w hw => hcut ((hu.trans _ _ _ hv).trans _ _ _ hw))
      split
      · exact ⟨1, fun _ => Nat.one_pos, Nat.succ_le_succ (Nat.zero_le k), (hwritten.calm hv).calm hw⟩
      · exact hcut ((hu.trans _ _ _ hv).trans _ _ _ hw)

/-- `set_mode` with one retry. -/
theorem setMode_sent (target : UInt8) (htarget : target = MODE_PASS ∨ target = MODE_ARMED) (timeout : Int)
    (s : Heap Playback σ) :
    wp (Transport.setMode L target.toNat timeout 1)
      (fun _ t => ∃ writes, 0 < writes ∧ writes ≤ 2 ∧
        Sent s 0 (List.replicate writes (.modeSet target)) 0 s.session.nextEvent t)
      (fun _ t => Cut s 0 (List.replicate 2 (.modeSet target)) t) s := by
  have hattempts : Transport.setMode (S := Playback) L target.toNat timeout 1 =
      Transport.setModeAttempts L target timeout 2 := by
    rcases htarget with rfl | rfl <;> rfl
  rw [hattempts]
  refine wp_mono (setModeAttempts_sent target timeout 2 s) (fun _ t ht => ?_) (fun _ t ht => ht)
  obtain ⟨writes, hpos, hle, hsent⟩ := ht
  exact ⟨writes, hpos (by decide), hle, hsent⟩

/-- What goes out up to PLAY_START. -/
def opening (held rest : List (Int × List UInt8)) : List Request :=
  .queueClear :: queueEvents held ++ ((if rest = [] then [.queueEnd] else []) ++ [.playStart])

/-- What goes out after it, up to the outcome. -/
def closing (rest : List (Int × List UInt8)) : List Request := if rest = [] then [] else queueEvents rest ++ [.queueEnd]

theorem prepare_sent (s : Heap Playback σ) (hnext : s.session.nextEvent = 0) :
    Writes (prepare L) s 0 (opening (s.session.events.take s.session.prebufferCount)
      (s.session.events.drop s.session.prebufferCount)) 0 s.session.prebufferCount := by
  unfold prepare
  refine .calm_bind (calm_of_untouched (untouched_clock L)) (Nat.zero_le _) (fun now t ht => ?_)
  refine .calm_bind (calm_update (fun _ => ⟨⟨rfl, rfl⟩, rfl⟩)) (Nat.zero_le _) (fun _ u hu => ?_)
  have hstart : Calm s u := ht.trans _ _ _ hu
  rw [opening, List.cons_append]
  refine (command_sent .queueClear (fun _ _ => rfl) u).bind (fun _ v hv => ?_)
  refine .calm_bind (calm_awaitQueueAck _) (Nat.zero_le _) (fun _ w hw => ?_)
  refine .session_bind ?_
  have hevents : w.session.events = s.session.events := hw.1.1.trans (hv.recording.1.trans hstart.1.1)
  have hnext' : w.session.nextEvent = 0 := hw.2.1.trans (hv.next.trans (hstart.2.1.trans hnext))
  have hcount : w.session.prebufferCount = s.session.prebufferCount := by
    rw [prebufferCount, prebufferCount, hevents, hw.1.2, hv.recording.2, hstart.1.2]
  have hle := prebufferCount_le s.session
  split
  · exact .raise _ _ (Nat.zero_le _)
  have hheld := sendThrough_sent (L := L) w.session.prebufferCount MODE_ARMED L.patience w (by omega)
    (by rw [hcount, hevents]; exact hle)
  rw [hnext', List.drop_zero, Nat.sub_zero, hevents, hcount] at hheld
  rw [hcount]
  refine hheld.bind (fun _ x hx => ?_)
  have hend := closeSequence_sent (L := L) x
  have hrest : x.session.nextEvent = x.session.events.length ↔
      s.session.events.drop s.session.prebufferCount = [] := by
    rw [hx.next, hx.recording.1, hevents, List.drop_eq_nil_iff]
    omega
  simp only [hrest] at hend
  refine hend.bind (fun _ y hy => ?_)
  have hrun := startRun_sent (L := L) y
  rwa [hy.next, hx.next] at hrun

theorem start_sent (s : Heap Playback σ) (hnext : s.session.nextEvent = 0) :
    wp (start L)
      (fun _ t => ∃ arms, (0 < arms ∧ arms ≤ 2) ∧
        Sent s 0 (List.replicate arms (.modeSet MODE_ARMED) ++ opening (s.session.events.take s.session.prebufferCount)
          (s.session.events.drop s.session.prebufferCount)) 0 s.session.prebufferCount t)
      (fun _ t => ∃ arms, (0 < arms ∧ arms ≤ 2) ∧
        Cut s 0 (List.replicate arms (.modeSet MODE_ARMED) ++ opening (s.session.events.take s.session.prebufferCount)
          (s.session.events.drop s.session.prebufferCount)) t) s := by
  unfold start
  simp only [wp_bind, wp_session]
  split
  · exact ⟨1, ⟨Nat.one_pos, by decide⟩, (Calm.refl s).cut _ (Nat.zero_le _)⟩
  simp only [wp_bind, wp_session]
  refine wp_mono (setMode_sent MODE_ARMED (.inr rfl) _ s) (fun _ t ht => ?_)
    (fun _ t ht => ⟨2, ⟨by decide, le_rfl⟩, ht.mono (List.prefix_append _ _)⟩)
  obtain ⟨arms, hpos, hle, hsent⟩ := ht
  rw [wp_bind, wp_updateSession, wp_bind]
  have harmed := hsent.goes (u := { t with session := { t.session with armed := true } }) ⟨rfl, rfl⟩ hsent.next rfl
  have hcount : Playback.prebufferCount { t.session with armed := true } = s.session.prebufferCount := by
    rw [prebufferCount, prebufferCount]
    simp only [hsent.recording.1, hsent.recording.2]
  have hprepare := prepare_sent (L := L) { t with session := { t.session with armed := true } }
    (by rw [harmed.next, hnext])
  rw [hcount, harmed.recording.1] at hprepare
  refine wp_mono hprepare (fun _ u hu => ?_) (fun _ u hu => ⟨arms, ⟨hpos, hle⟩, harmed.cut hu⟩)
  have hall := harmed.trans hu
  rw [wp_bind, wp_updateSession, wp_pure]
  exact ⟨arms, ⟨hpos, hle⟩, hall.goes ⟨rfl, rfl⟩ hall.next rfl⟩

theorem feedRest_sent (s : Heap Playback σ) (hnext : s.session.nextEvent ≤ s.session.events.length) :
    Writes (feedRest L) s 0 (closing (s.session.events.drop s.session.nextEvent)) 0 s.session.events.length := by
  unfold feedRest
  refine .session_bind ?_
  split
  · rename_i hleft
    have hrest : s.session.events.drop s.session.nextEvent ≠ [] := by
      rw [Ne, List.drop_eq_nil_iff]
      omega
    have hsent := sendThrough_sent (L := L) s.session.events.length MODE_PLAYING L.patience s hnext le_rfl
    rw [List.take_of_length_le (by simp)] at hsent
    rw [closing, if_neg hrest]
    refine hsent.bind (fun _ t ht => ?_)
    have hend := command_sent (L := L) .queueEnd (fun _ _ => rfl) t
    rwa [ht.next] at hend
  · have hdone : s.session.nextEvent = s.session.events.length := by omega
    rw [hdone, List.drop_length, closing, if_pos rfl, ← hdone]
    exact .of_calm (Keeps.pure Calm.refl ()) (Nat.zero_le _)

theorem calm_collectFrame (frame : Frame) : Keeps Calm (collectFrame frame : Py Playback σ Unit) := by
  unfold collectFrame
  refine Keeps.bind Calm.trans (calm_of_untouched (untouched_checked _)) (fun frame => ?_)
  split
  · exact Keeps.bind Calm.trans (calm_of_untouched (untouched_checked _))
      (fun _ => calm_update (fun _ => ⟨⟨rfl, rfl⟩, rfl⟩))
  split
  · exact Keeps.bind Calm.trans (calm_of_untouched (untouched_checked _)) (fun _ => Keeps.pure Calm.refl _)
  · exact Keeps.pure Calm.refl _

theorem calm_collectDiagnostics : ∀ frames, Keeps Calm (collectDiagnostics frames : Py Playback σ Unit)
  | [] => Keeps.pure Calm.refl _
  | frame :: frames => Keeps.bind Calm.trans (calm_collectFrame frame) (fun _ => calm_collectDiagnostics frames)

theorem calm_awaitOutcome (outcomeType : MsgType) (expectedReason : UInt8) (outcome : String) (timeout : Option Int) :
    Keeps Calm (awaitOutcome L outcomeType expectedReason outcome timeout) := by
  have hawait : ∀ type : MsgType, ∀ wait : Int, Keeps Calm (Transport.awaitFrame L type wait : Py Playback σ Frame) :=
    fun type wait => calm_of_untouched (Transport.untouched_awaitFrame L type wait)
  unfold awaitOutcome
  refine Keeps.bind Calm.trans (calm_remaining timeout) (fun wait => ?_)
  refine Keeps.bind Calm.trans (Keeps.bind Calm.trans (hawait _ _) (fun _ => Keeps.pure Calm.refl _)) (fun _ => ?_)
  refine Keeps.bind Calm.trans (calm_remaining timeout) (fun wait => ?_)
  refine Keeps.bind Calm.trans (hawait _ _) (fun frame => ?_)
  refine Keeps.bind Calm.trans (calm_of_untouched (untouched_checked _)) (fun metrics => ?_)
  refine Keeps.bind Calm.trans (calm_remaining timeout) (fun wait => ?_)
  refine Keeps.bind Calm.trans (hawait _ _) (fun frame => ?_)
  refine Keeps.bind Calm.trans (calm_of_untouched (untouched_checked _)) (fun answer => ?_)
  split
  split
  · exact calm_of_untouched (untouched_raise _ _)
  · refine Keeps.bind Calm.trans (calm_of_untouched Transport.untouched_drainPendingFrames) (fun frames => ?_)
    refine Keeps.bind Calm.trans (calm_collectDiagnostics frames) (fun _ => ?_)
    exact Keeps.bind Calm.trans (calm_of_untouched untouched_session) (fun _ => Keeps.pure Calm.refl _)

theorem finish_sent (s : Heap Playback σ) (hnext : s.session.nextEvent ≤ s.session.events.length) :
    wp (finish L true)
      (fun _ t => ∃ passes, (0 < passes ∧ passes ≤ 2) ∧
        Sent s 0 (closing (s.session.events.drop s.session.nextEvent) ++ List.replicate passes (.modeSet MODE_PASS)) 0
          s.session.events.length t)
      (fun _ t => ∃ passes, (0 < passes ∧ passes ≤ 2) ∧
        Cut s 0 (closing (s.session.events.drop s.session.nextEvent) ++ List.replicate passes (.modeSet MODE_PASS)) t)
        s := by
  unfold finish
  simp only [wp_bind, wp_session]
  split
  · exact ⟨1, ⟨Nat.one_pos, by decide⟩, (Calm.refl s).cut _ (Nat.zero_le _)⟩
  split
  · exact ⟨1, ⟨Nat.one_pos, by decide⟩, (Calm.refl s).cut _ (Nat.zero_le _)⟩
  have hfed : Writes (do
      feedRest L
      awaitOutcome L .playFinished REASON_FINISHED "finished" none) s 0
        (closing (s.session.events.drop s.session.nextEvent)) 0 s.session.events.length :=
    (feedRest_sent s hnext).bind_calm (fun _ => calm_awaitOutcome _ _ _ _)
  unfold Writes at hfed
  rw [wp_bind] at hfed ⊢
  refine wp_mono hfed (fun _ t ht => ?_)
    (fun _ t ht => ⟨1, ⟨Nat.one_pos, by decide⟩, ht.mono (List.prefix_append _ _)⟩)
  rw [wp_bind]
  refine wp_mono ht (fun result u hu => ?_)
    (fun _ u hu => ⟨1, ⟨Nat.one_pos, by decide⟩, hu.mono (List.prefix_append _ _)⟩)
  rw [wp_bind, wp_updateSession, wp_bind, returnPass, if_pos rfl, wp_bind, wp_session, wp_bind]
  have hidle := hu.goes (u := { u with session := { u.session with playing := false, armed := true } }) ⟨rfl, rfl⟩
    hu.next rfl
  refine wp_mono (setMode_sent MODE_PASS (.inl rfl) _ _) (fun _ w hw => ?_)
    (fun _ w hw => ⟨2, ⟨by decide, le_rfl⟩, hidle.cut hw⟩)
  obtain ⟨passes, hpos, hle, hsent⟩ := hw
  have hall := hidle.trans hsent
  rw [hidle.next] at hall
  rw [wp_updateSession, wp_bind, wp_updateSession, wp_pure]
  exact ⟨passes, ⟨hpos, hle⟩, hall.goes ⟨rfl, rfl⟩ hall.next rfl⟩

/-- The commands of a whole run: MODE_SET(ARMED), QUEUE_CLEAR, the events of the prebuffer, PLAY_START, the other
events, MODE_SET(PASS), with QUEUE_END behind the last event.  A handshake writes its request at most twice. -/
def WholeRun (events : List (Int × List UInt8)) (prebufferUs : Int) (requests : List Request) : Prop :=
  ∃ held rest arms passes, events = held ++ rest ∧ Prebuffered prebufferUs held rest ∧
    (0 < arms ∧ arms ≤ 2) ∧ (0 < passes ∧ passes ≤ 2) ∧
    requests = List.replicate arms (.modeSet MODE_ARMED) ++ opening held rest ++
      (closing rest ++ List.replicate passes (.modeSet MODE_PASS))

/-- The requests of `play`, in the order of the session's calls. -/
theorem play_sent (s : Heap Playback σ) (hnext : s.session.nextEvent = 0) :
    wp (play L true)
      (fun _ t => ∃ whole, WholeRun s.session.events s.session.prebufferUs whole ∧
        Sent s 0 whole 0 s.session.events.length t)
      (fun _ t => ∃ whole, WholeRun s.session.events s.session.prebufferUs whole ∧ Cut s 0 whole t) s := by
  have hwhole : ∀ {arms passes : Nat}, 0 < arms ∧ arms ≤ 2 → 0 < passes ∧ passes ≤ 2 →
      WholeRun s.session.events s.session.prebufferUs (List.replicate arms (.modeSet MODE_ARMED) ++
        opening (s.session.events.take s.session.prebufferCount) (s.session.events.drop s.session.prebufferCount) ++
        (closing (s.session.events.drop s.session.prebufferCount) ++ List.replicate passes (.modeSet MODE_PASS))) :=
    fun harms hpasses =>
      ⟨_, _, _, _, (List.take_append_drop ..).symm, prebufferCount_prebuffered s.session, harms, hpasses, rfl⟩
  unfold play
  rw [wp_bind]
  refine wp_mono (start_sent s hnext) (fun _ t ht => ?_) (fun _ t ht => ?_)
  · obtain ⟨arms, harms, hstarted⟩ := ht
    have hfinish := finish_sent (L := L) t
      (by rw [hstarted.next, hstarted.recording.1]; exact prebufferCount_le s.session)
    rw [hstarted.next, hstarted.recording.1] at hfinish
    refine wp_mono hfinish (fun _ u hu => ?_) (fun _ u hu => ?_)
    · obtain ⟨passes, hpasses, hfinished⟩ := hu
      exact ⟨_, hwhole harms hpasses, hstarted.trans hfinished⟩
    · obtain ⟨passes, hpasses, hu⟩ := hu
      exact ⟨_, hwhole harms hpasses, hstarted.cut hu⟩
  · obtain ⟨arms, harms, ht⟩ := ht
    exact ⟨_, hwhole harms (⟨Nat.one_pos, by decide⟩ : 0 < 1 ∧ 1 ≤ 2), ht.mono (List.prefix_append _ _)⟩

theorem ofRecording_ok {recording : Recording} {speed : Option ℚ} {prebufferUs modeTimeout : Int}
    {playbackTimeout : Option Int} {p : Playback}
    (hp : Playback.ofRecording recording speed prebufferUs modeTimeout playbackTimeout = .ok p) :
    expandOffsets recording.events speed = .ok p.events ∧ p.prebufferUs = prebufferUs ∧ p.nextEvent = 0 := by
  unfold ofRecording at hp
  obtain ⟨events, hexpand, hcreate⟩ := bind_ok hp
  cases hcreate
  exact ⟨hexpand, rfl, rfl⟩

/-- From `s` to `t` requests of this kind went out, never with more events unacknowledged than the window holds. -/
def Commanded (s : Heap Playback σ) (kind : List Request → Prop) (t : Heap Playback σ) : Prop :=
  ∃ acts : List Act, t.history = acts.reverse ++ s.history ∧ t.requests = s.requests ++ acts.filterMap Act.request? ∧
    kind (acts.filterMap Act.request?) ∧
    ∀ before, before <+: acts → before.foldl pipeline.after 0 ≤ PIPELINE_WINDOW

theorem Sent.commanded {s t : Heap Playback σ} {n next : Nat} {requests : List Request} {kind : List Request → Prop}
    (h : Sent s 0 requests n next t) (hkind : kind requests) : Commanded s kind t := by
  obtain ⟨acts, hhistory, rfl, hholds, -⟩ := h.acts
  exact ⟨acts, hhistory, Heap.requests_of_acts hhistory, hkind, hholds⟩

/-- **What a run writes, whatever the Pico answers.**  If `play` returns, the commands of a whole run of the expanded
recording; if it raises, or is still waiting, a beginning of such. -/
theorem play_sequence {recording : Recording} {speed : Option ℚ} {prebufferUs modeTimeout : Int}
    {playbackTimeout : Option Int} {p : Playback}
    (hp : Playback.ofRecording recording speed prebufferUs modeTimeout playbackTimeout = .ok p) (pending : List Frame)
    (link : σ) (history : List Act) :
    expandOffsets recording.events speed = .ok p.events ∧
      wp (play L true) (fun _ t => Commanded ⟨pending, p, link, history⟩ (WholeRun p.events prebufferUs) t)
        (fun _ t => Commanded ⟨pending, p, link, history⟩
          (fun requests => ∃ whole, WholeRun p.events prebufferUs whole ∧ requests <+: whole) t)
        ⟨pending, p, link, history⟩ := by
  obtain ⟨hevents, rfl, hnext⟩ := ofRecording_ok hp
  refine ⟨hevents, wp_mono (play_sent ⟨pending, p, link, history⟩ hnext) (fun _ t ht => ?_) (fun _ t ht => ?_)⟩
  · obtain ⟨whole, hwhole, hsent⟩ := ht
    exact hsent.commanded hwhole
  · obtain ⟨whole, hwhole, sent, n, next, hprefix, hsent⟩ := ht
    exact hsent.commanded ⟨whole, hwhole, hprefix⟩

/-- The call returns; for runs on fixed answers. -/
def Returns {S α : Type} (m : Py S σ α) (s : Heap S σ) : Bool :=
  match m s with
  | .ok _ _ => true
  | .error _ _ => false

theorem ok_of_returns {S α : Type} {m : Py S σ α} {s : Heap S σ} (h : Returns m s = true) : ∃ a t, m s = .ok a t := by
  unfold Returns at h
  cases hm : m s with
  | ok a t => exact ⟨a, t, rfl⟩
  | error e t =>
    rw [hm] at h
    cases h

/-- Three events, of which 500 ms hold two. -/
def benchLater : Recording where
  name := "take"
  durationUs := 700000
  events := [⟨0, [0, 0, 4, 0, 0, 0, 0, 0]⟩, ⟨600000, [0, 0, 5, 0, 0, 0, 0, 0]⟩, ⟨100000, [0, 0, 0, 0, 0, 0, 0, 0]⟩]

/-- The Pico's answers to a run of it. -/
def benchAnswers : List ReadResult :=
  [[Pico.PicoMsg.modeChanged .armed .ok], [.bufferStatus .armed 0 512],
    [.bufferStatus .armed 1 511, .bufferStatus .armed 2 510], [.modeChanged .playing .ok, .playStarted 1000],
    [.bufferStatus .playing 1 511], [.bufferStatus .playing 1 511],
    [.playFinished, .playMetrics ⟨3, 0, 0, 40, 60, 40, 40, false⟩, .modeChanged .armed .finished],
    [.modeChanged .pass .ok]].map (fun answers => .data (answers.map Pico.PicoMsg.toFrame))

def benchPlayback : Playback :=
  .create [(0, [0, 0, 4, 0, 0, 0, 0, 0]), (600000, [0, 0, 5, 0, 0, 0, 0, 0]), (700000, [0, 0, 0, 0, 0, 0, 0, 0])] 500000
    2000000 (some 100000000)

theorem benchPlayback_of : ofRecording benchLater (some 1) 500000 2000000 (some 100000000) = .ok benchPlayback := by
  have hsum : (benchLater.events.map RecordingEvent.dtUs).sum < 2 ^ 53 := by simp [benchLater]
  rw [ofRecording, expandOffsets_one hsum]
  simp [benchLater, benchPlayback, offsetsFrom, Bind.bind, Except.bind]

/-- A run of it returns. -/
theorem play_sequence_later : ∃ result t,
    play scriptedLink true ⟨[], benchPlayback, (0, benchAnswers), []⟩ = .ok result t ∧
    Commanded ⟨[], benchPlayback, (0, benchAnswers), []⟩ (WholeRun benchPlayback.events 500000) t := by
  have hreturns : Returns (play scriptedLink true) ⟨[], benchPlayback, (0, benchAnswers), []⟩ = true := by
    decide +kernel
  have hp := benchPlayback_of
  generalize benchPlayback = p at hreturns hp ⊢
  generalize benchAnswers = answers at hreturns ⊢
  obtain ⟨result, t, hplay⟩ := ok_of_returns hreturns
  have hcommanded := wp_of_ok hplay (play_sequence (L := scriptedLink) hp [] (0, answers) []).2
  exact ⟨result, t, hplay, hcommanded⟩

end Playback

end PiZero
end PicoRecorder
